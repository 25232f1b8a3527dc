/-
Module: Zsbl.Proofs.CString
Purpose: What the string functions read, and what they return.
Trusted boundary: none
Main exports:
  strncmp_cases, strstrFrom_string, FirstAt, hexNumber, strtoulNumber, strtoul_string,
  hexadecimal_spec, writeBlock_behind
-/
import Mathlib.Data.List.Infix
import Zsbl.Libs.CString

namespace Zsbl.Libs

open Zsbl.Lib

/-! ## Prefixes -/

/-- The comparison at one position reads behind the bytes when they are cut short. -/
theorem strlen_string {string : List UInt8} (isString : 0 ∉ string) (rest : List UInt8) :
    strlen (string ++ 0 :: rest) = some string.length := by
  induction string with
  | nil => rfl
  | cons c string ih =>
      obtain ⟨first, others⟩ : 0 ≠ c ∧ 0 ∉ string := by simpa using isString
      rw [List.cons_append, strlen, if_neg first.symm, ih others]
      rfl

/-- Three outcomes: a prefix, none, or a string that ends before it is decided. -/
theorem startsWith_cases (ne hs : List UInt8) :
    (startsWith ne hs = some true ∧ ne <+: hs) ∨
      (startsWith ne hs = some false ∧ ¬ ne <+: hs ∧ ¬ hs <+: ne) ∨
      (startsWith ne hs = none ∧ ¬ ne <+: hs ∧ hs <+: ne) := by
  induction ne generalizing hs with
  | nil => exact .inl ⟨rfl, List.nil_prefix⟩
  | cons n ne ih =>
      cases hs with
      | nil => exact .inr (.inr ⟨rfl, by simp, List.nil_prefix⟩)
      | cons h hs =>
          unfold startsWith
          by_cases same : n = h
          · subst same
            simpa [List.cons_prefix_cons] using ih hs
          · refine .inr (.inl ⟨by rw [if_neg same], ?_, ?_⟩)
            · simp [List.cons_prefix_cons, same]
            · simp [List.cons_prefix_cons, Ne.symm same]

theorem toNat_sub_eq_zero {a b : UInt8} (same : (a.toNat : Int) - b.toNat = 0) : a = b :=
  UInt8.toNat_inj.mp (by omega)

/-- `strncmp` with a string reads behind the bytes when they are cut short. -/
theorem strncmp_cases {text : List UInt8} (isString : 0 ∉ text) (buf : List UInt8) :
    (strncmp text buf text.length = some 0 ∧ text <+: buf) ∨
      (∃ order, order ≠ 0 ∧ strncmp text buf text.length = some order ∧ ¬ text <+: buf ∧
        ¬ buf <+: text) ∨
      (strncmp text buf text.length = none ∧ ¬ text <+: buf ∧ buf <+: text) := by
  induction text generalizing buf with
  | nil => exact .inl ⟨rfl, List.nil_prefix⟩
  | cons a as ih =>
      simp only [List.mem_cons, not_or] at isString
      cases buf with
      | nil => exact .inr (.inr ⟨rfl, by simp, List.nil_prefix⟩)
      | cons b bs =>
          rw [List.length_cons, strncmp]
          by_cases same : a = b
          · subst same
            rw [if_pos ⟨rfl, Ne.symm isString.1⟩]
            simpa [List.cons_prefix_cons] using ih isString.2 bs
          · rw [if_neg fun both => same both.1]
            refine .inr (.inl ⟨_, fun zero => same (toNat_sub_eq_zero zero), rfl, ?_, ?_⟩)
            · simp [List.cons_prefix_cons, same]
            · simp [List.cons_prefix_cons, Ne.symm same]

/-! ## Occurrences -/

/-- `strstr` reads behind the bytes when they contain neither the text nor a terminator. -/
theorem strstrFrom_eq_none {ne : List UInt8} (nonempty : ne ≠ []) (isString : 0 ∉ ne)
    (hs : List UInt8) :
    strstrFrom ne hs = none ↔ ¬ ne <:+: hs ∧ 0 ∉ hs := by
  induction hs with
  | nil => simp [strstrFrom, nonempty]
  | cons h hs ih =>
      unfold strstrFrom
      by_cases zero : h = 0
      · simp [zero]
      · rw [if_neg zero, List.infix_cons_iff]
        rcases startsWith_cases ne (h :: hs) with
          ⟨hit, here⟩ | ⟨hit, notHere, -⟩ | ⟨hit, notHere, short⟩
        · simp [hit, here]
        · simp [hit, notHere, ih, Ne.symm zero]
        · have rest : ¬ ne <:+: hs := fun inside => by
            have longer := inside.length_le
            have shorter := short.length_le
            rw [List.length_cons] at shorter
            omega
          have noZero : 0 ∉ h :: hs := fun member => isString (short.subset member)
          exact iff_of_true (by simp [hit]) ⟨not_or.mpr ⟨notHere, rest⟩, noZero⟩

/-- At the position found the text begins. -/
theorem strstrFrom_found {ne hs : List UInt8} {i : Nat}
    (found : strstrFrom ne hs = some (some i)) : ne <+: hs.drop i := by
  induction hs generalizing i with
  | nil => cases found
  | cons h hs ih =>
      unfold strstrFrom at found
      split at found
      · cases found
      · obtain ⟨hit, isHit, found⟩ := Option.bind_eq_some_iff.mp found
        cases hit with
        | true =>
            cases found
            rcases startsWith_cases ne (h :: hs) with ⟨-, here⟩ | ⟨miss, -⟩ | ⟨miss, -⟩
            · exact here
            · rw [isHit] at miss
              cases miss
            · rw [isHit] at miss
              cases miss
        | false =>
            simp only [Bool.false_eq_true, if_false, Option.map_eq_some_iff] at found
            obtain ⟨later, isLater, j, rfl, rfl⟩ := found
            exact ih isLater

/-- The first position from which on the text stands. -/
def FirstAt (ne hs : List UInt8) (i : Nat) : Prop :=
  ne <+: hs.drop i ∧ ∀ j < i, ¬ ne <+: hs.drop j

theorem prefix_append_zero {ne : List UInt8} (isString : 0 ∉ ne) (hs : List UInt8) :
    ne <+: hs ++ [0] ↔ ne <+: hs := by
  constructor
  · intro start
    rcases List.prefix_concat_iff.mp start with same | inside
    · exact absurd (same ▸ List.mem_append_right hs (List.mem_singleton_self 0)) isString
    · exact inside
  · exact fun start => start.trans (List.prefix_append hs [0])

/-- On a string `strstr` finds the first position, if there is one. -/
theorem strstrFrom_string {ne : List UInt8} (nonempty : ne ≠ []) (isString : 0 ∉ ne)
    {hs : List UInt8} (isString' : 0 ∉ hs) :
    (∃ i, strstrFrom ne (hs ++ [0]) = some (some i) ∧ FirstAt ne hs i) ∨
      (strstrFrom ne (hs ++ [0]) = some none ∧ ∀ i, ¬ ne <+: hs.drop i) := by
  induction hs with
  | nil =>
      refine .inr ⟨rfl, fun i start => nonempty ?_⟩
      simpa using start
  | cons h hs ih =>
      simp only [List.mem_cons, not_or] at isString'
      obtain ⟨notZero, rest⟩ := isString'
      have here := prefix_append_zero isString (h :: hs)
      rw [List.cons_append] at here ⊢
      unfold strstrFrom
      rw [if_neg (Ne.symm notZero)]
      rcases startsWith_cases ne (h :: (hs ++ [0])) with
        ⟨hit, start⟩ | ⟨hit, missing, -⟩ | ⟨hit, -, short⟩
      · refine .inl ⟨0, by simp [hit], here.mp start, fun j below => ?_⟩
        exact absurd below (Nat.not_lt_zero j)
      · have notHere : ¬ ne <+: h :: hs := fun start => missing (here.mpr start)
        rcases ih rest with ⟨i, found, start, before⟩ | ⟨found, never⟩
        · refine .inl ⟨i + 1, by simp [hit, found], start, fun j below => ?_⟩
          cases j with
          | zero => exact notHere
          | succ j => exact before j (Nat.lt_of_succ_lt_succ below)
        · refine .inr ⟨by simp [hit, found], fun i => ?_⟩
          cases i with
          | zero => exact notHere
          | succ i => exact never i
      · exact absurd (short.subset (by simp)) isString

/-! ## Numbers -/

def isHex (c : UInt8) : Bool := (digitValue c).any (· < 16)

theorem isHex_iff {c : UInt8} : isHex c = true ↔ ∃ digit < 16, digitValue c = some digit := by
  unfold isHex
  cases digitValue c with
  | none => simp
  | some digit => simp

/-- The number that hexadecimal digits stand for. -/
def hexValue (digits : List UInt8) : Nat :=
  digits.foldl (fun number c => number * 16 + (digitValue c).getD 0) 0

theorem hexValue_concat (digits : List UInt8) (c : UInt8) :
    hexValue (digits ++ [c]) = hexValue digits * 16 + (digitValue c).getD 0 := by
  simp [hexValue]

/-- What the loop of `strtoul` knows of the number that the digits so far stand for. -/
def Accumulated (number acc : Nat) (any : Int) : Prop :=
  (any < 0 ∧ 2 ^ 64 ≤ number) ∨ (0 ≤ any ∧ acc = number ∧ number < 2 ^ 64)

/-- A round of `strtoul` takes one digit. -/
theorem strtoulFrom_digit {c : UInt8} (hex : isHex c = true) (s : List UInt8)
    {number acc : Nat} {any : Int} (digits : Nat) (known : Accumulated number acc any) :
    ∃ acc' any', strtoulFrom 16 (c :: s) acc any digits =
        strtoulFrom 16 s acc' any' (digits + 1) ∧
      any' ≠ 0 ∧ Accumulated (number * 16 + (digitValue c).getD 0) acc' any' := by
  obtain ⟨digit, small, isDigit⟩ := isHex_iff.mp hex
  rw [strtoulFrom, isDigit, Option.getD_some]
  dsimp only
  rw [if_neg (Nat.not_le.mpr small)]
  rcases known with ⟨negative, large⟩ | ⟨positive, rfl, less⟩
  · rw [if_pos (.inl negative)]
    exact ⟨acc, -1, rfl, by decide, .inl ⟨by decide, by omega⟩⟩
  · split
    · next tooLarge =>
      refine ⟨acc, -1, rfl, by decide, .inl ⟨by decide, ?_⟩⟩
      unfold ULONG_MAX at tooLarge
      omega
    · next fits =>
      refine ⟨acc * 16 + digit, 1, rfl, by decide, .inr ⟨by decide, rfl, ?_⟩⟩
      unfold ULONG_MAX at fits
      omega

/-- The loop reads on to the first byte that is no digit. -/
theorem strtoulFrom_digits {ds : List UInt8} (hex : ∀ c ∈ ds, isHex c = true) {c : UInt8}
    (stop : isHex c = false) (s : List UInt8) {number acc : Nat} {any : Int} (digits : Nat)
    (known : Accumulated number acc any) :
    ∃ acc' any', strtoulFrom 16 (ds ++ c :: s) acc any digits =
        some (acc', any', digits + ds.length) ∧
      (any' = 0 ↔ any = 0 ∧ ds = []) ∧
      Accumulated (ds.foldl (fun number c => number * 16 + (digitValue c).getD 0) number)
        acc' any' := by
  induction ds generalizing number acc any digits with
  | nil =>
      refine ⟨acc, any, ?_, by simp, known⟩
      rw [List.nil_append, strtoulFrom]
      unfold isHex at stop
      cases isDigit : digitValue c with
      | none => rfl
      | some digit =>
          have large : ¬ digit < 16 := by simpa [isDigit] using stop
          exact if_pos (Nat.not_lt.mp large)
  | cons d ds ih =>
      obtain ⟨acc₁, any₁, first, notZero, known₁⟩ :=
        strtoulFrom_digit (hex d List.mem_cons_self) (ds ++ c :: s) digits known
      obtain ⟨acc₂, any₂, rest, zero, known₂⟩ :=
        ih (fun d member => hex d (List.mem_cons_of_mem _ member)) (digits + 1) known₁
      refine ⟨acc₂, any₂, ?_, by simp [zero, notZero], known₂⟩
      rw [List.cons_append, first, rest, List.length_cons]
      congr 3
      omega

def hasHexPrefix (r : List UInt8) : Prop := r.take 2 = [0x30, 0x78] ∨ r.take 2 = [0x30, 0x58]

instance (r : List UInt8) : Decidable (hasHexPrefix r) := inferInstanceAs (Decidable (_ ∨ _))

/-- A hexadecimal number with which the text starts, and its length: as many digits as there
are, and a prefix "0x" if there is one with digits behind it. -/
def hexNumber (r : List UInt8) : Option (Nat × Nat) :=
  let prefixed := (r.drop 2).takeWhile isHex
  let plain := r.takeWhile isHex
  if hasHexPrefix r ∧ prefixed ≠ [] then some (hexValue prefixed, 2 + prefixed.length)
  else if plain ≠ [] then some (hexValue plain, plain.length)
  else none

/-- A prefix "0x" without digits behind it. -/
def BarePrefix (r : List UInt8) : Prop :=
  hasHexPrefix r ∧ (r.drop 2).takeWhile isHex = []

instance (r : List UInt8) : Decidable (BarePrefix r) := inferInstanceAs (Decidable (_ ∧ _))

/-- What `strtoul` takes for a number behind the sign. -/
def strtoulNumber (r : List UInt8) : Option (Nat × Nat) :=
  if BarePrefix r then none else hexNumber r

/-- The value of a number, which saturates. -/
def strtoulValue (neg : Bool) (number : Nat) : BitVec 64 :=
  if 2 ^ 64 ≤ number then BitVec.ofNat 64 ULONG_MAX
  else if neg then - BitVec.ofNat 64 number
  else BitVec.ofNat 64 number

theorem strtoulSign_string (r : List UInt8) : strtoulSign (r ++ [0]) = strtoulSign r := by
  cases r with
  | nil => rfl
  | cons c r => rfl

theorem strtoulSign_le (r : List UInt8) : (strtoulSign r).1 ≤ r.length := by
  cases r with
  | nil => exact Nat.le_refl 0
  | cons c r =>
      unfold strtoulSign
      split_ifs <;> simp

/-- A number behind a sign does not start at the sign. -/
theorem strtoulSign_cases (r : List UInt8) :
    strtoulSign r = (0, false) ∨
      ((strtoulSign r).1 = 1 ∧ hexNumber r = none ∧ r.head? ≠ some 0x30) := by
  have signed {c : UInt8} (notHex : isHex c = false) (notZero : c ≠ 0x30) (r : List UInt8) :
      hexNumber (c :: r) = none ∧ (c :: r).head? ≠ some 0x30 := by
    refine ⟨?_, fun zero => notZero (Option.some.inj zero)⟩
    unfold hexNumber
    dsimp only
    rw [if_neg (by simp [hasHexPrefix, notZero]), List.takeWhile_cons_of_neg (by simp [notHex])]
    rfl
  match r with
  | [] => exact .inl rfl
  | c :: r =>
      by_cases minus : c = 0x2d
      · subst minus
        exact .inr ⟨rfl, signed (by decide) (by decide) r⟩
      · by_cases plus : c = 0x2b
        · subst plus
          exact .inr ⟨rfl, signed (by decide) (by decide) r⟩
        · exact .inl (by simp [strtoulSign, minus, plus])

/-- The prefix is skipped if a digit may follow it. -/
theorem strtoulBase_string (r : List UInt8) :
    strtoulBase 16 (r ++ [0]) = some (if hasHexPrefix r then 2 else 0, 16) := by
  match r with
  | [] => rfl
  | [c] =>
      by_cases zero : c = 0x30
      · simp [strtoulBase, hasHexPrefix, zero]
      · simp [strtoulBase, hasHexPrefix, zero]
  | c :: x :: rest =>
      by_cases zero : c = 0x30
      · by_cases marks : x = 0x78 ∨ x = 0x58
        · simp [strtoulBase, hasHexPrefix, zero, marks]
        · simp [strtoulBase, hasHexPrefix, zero, marks]
      · simp [strtoulBase, hasHexPrefix, zero]

/-- Some character ends the digits, at the latest the NUL. -/
theorem exists_stop (t : List UInt8) : ∃ c s, t ++ [0] = t.takeWhile isHex ++ c :: s ∧
    isHex c = false := by
  induction t with
  | nil => exact ⟨0, [], rfl, by decide⟩
  | cons d t ih =>
      obtain ⟨c, s, split, stop⟩ := ih
      by_cases hex : isHex d = true
      · exact ⟨c, s, by simp [hex, split], stop⟩
      · exact ⟨d, t ++ [0], by simp [hex], by simpa using hex⟩

theorem takeWhile_isHex {t : List UInt8} : ∀ c ∈ t.takeWhile isHex, isHex c = true :=
  fun _ member => List.mem_takeWhile_imp member

/-- The number is that of the digits behind the prefix, if there are any. -/
theorem strtoulNumber_eq (r : List UInt8) :
    strtoulNumber r =
      if (r.drop (if hasHexPrefix r then 2 else 0)).takeWhile isHex = [] then none
      else some (hexValue ((r.drop (if hasHexPrefix r then 2 else 0)).takeWhile isHex),
        (if hasHexPrefix r then 2 else 0) +
          ((r.drop (if hasHexPrefix r then 2 else 0)).takeWhile isHex).length) := by
  unfold strtoulNumber BarePrefix hexNumber
  by_cases marks : hasHexPrefix r
  · by_cases none : (r.drop 2).takeWhile isHex = []
    · simp [marks, none]
    · simp [marks, none]
  · by_cases none : r.takeWhile isHex = []
    · simp [marks, none]
    · simp [marks, none]

/-- The prefix is inside the string. -/
theorem hasHexPrefix_le {r : List UInt8} : (if hasHexPrefix r then 2 else 0) ≤ r.length := by
  split
  · next marks =>
    rcases marks with marks | marks <;>
    · have length := congrArg List.length marks
      rw [List.length_take] at length
      simp at length
      omega
  · exact Nat.zero_le _

/-- A number has a character, and its characters are inside the string. -/
theorem strtoulNumber_length {r : List UInt8} {number len : Nat}
    (isNumber : strtoulNumber r = some (number, len)) : 0 < len ∧ len ≤ r.length := by
  have skip := hasHexPrefix_le (r := r)
  rw [strtoulNumber_eq] at isNumber
  generalize (if hasHexPrefix r then 2 else 0) = skipped at skip isNumber
  split at isNumber
  · cases isNumber
  · next digits =>
    obtain ⟨-, rfl⟩ := Prod.mk.inj (Option.some.inj isNumber)
    have some := List.length_pos_iff.mpr digits
    have inside := (List.takeWhile_prefix isHex (l := r.drop skipped)).length_le
    rw [List.length_drop] at inside
    omega

/-- The loop of `strtoul` on a string, for the number behind the sign. -/
theorem strtoulFrom_string (r : List UInt8) :
    ∃ acc any digits, strtoulFrom 16
        ((r ++ [0]).drop (if hasHexPrefix r then 2 else 0)) 0 0 0 = some (acc, any, digits) ∧
      ((strtoulNumber r = none ∧ any = 0 ∧ acc = 0) ∨
        ∃ number, strtoulNumber r = some (number, (if hasHexPrefix r then 2 else 0) + digits) ∧
          any ≠ 0 ∧ ∀ neg, (if any < 0 then BitVec.ofNat 64 ULONG_MAX
            else if neg then - BitVec.ofNat 64 acc else BitVec.ofNat 64 acc) =
              strtoulValue neg number) := by
  rw [List.drop_append_of_le_length hasHexPrefix_le]
  generalize isSkipped : (if hasHexPrefix r then 2 else 0) = skipped
  obtain ⟨c, s, split, stop⟩ := exists_stop (r.drop skipped)
  obtain ⟨acc, any, read, zero, known⟩ := strtoulFrom_digits takeWhile_isHex stop s 0
    (.inr ⟨Int.le_refl 0, rfl, by decide⟩ : Accumulated 0 0 0)
  refine ⟨acc, any, _, by rw [split]; exact read, ?_⟩
  rw [strtoulNumber_eq, isSkipped, Nat.zero_add]
  by_cases none : (r.drop skipped).takeWhile isHex = []
  · obtain rfl : any = 0 := zero.mpr ⟨rfl, none⟩
    rw [none] at known
    rcases known with ⟨negative, -⟩ | ⟨-, rfl, -⟩
    · exact absurd negative (by decide)
    · exact .inl ⟨if_pos none, rfl, rfl⟩
  · refine .inr ⟨_, if_neg none, fun same => none (zero.mp same).2, fun neg => ?_⟩
    unfold strtoulValue
    rcases known with ⟨negative, large⟩ | ⟨positive, rfl, small⟩
    · rw [if_pos negative]
      exact (if_pos large).symm
    · rw [if_neg (Int.not_lt.mpr positive)]
      exact (if_neg (Nat.not_le.mpr small)).symm

/-- `strtoul` on a string, base 16. -/
theorem strtoul_string (r : List UInt8) :
    strtoul (r ++ [0]) 16 =
      some ((strtoulNumber (r.drop (strtoulSign r).1)).elim (0, 0) fun found =>
        (strtoulValue (strtoulSign r).2 found.1, (strtoulSign r).1 + found.2)) := by
  have inside := strtoulSign_le r
  obtain ⟨acc, any, digits, read, outcome⟩ := strtoulFrom_string (r.drop (strtoulSign r).1)
  unfold strtoul
  rw [strtoulSign_string]
  dsimp only
  rw [List.drop_append_of_le_length inside, strtoulBase_string]
  simp only [Option.bind_eq_bind, Option.bind_some, read]
  rcases outcome with ⟨none, rfl, rfl⟩ | ⟨number, isNumber, notZero, value⟩
  · rw [none]
    cases (strtoulSign r).2 <;> rfl
  · rw [isNumber, value, if_pos notZero, Option.elim_some, Nat.add_assoc]

/-! ## Printing -/

theorem digitValue_digitChar {digit : Nat} (small : digit < 16) :
    digitValue (UInt8.ofNat digit.digitChar.toNat) = some digit := by
  have all : ∀ digit < 16, digitValue (UInt8.ofNat digit.digitChar.toNat) = some digit := by
    decide
  exact all digit small

/-- What is printed has the value, in digits. -/
theorem hexadecimal_spec (number : Nat) :
    hexValue (hexadecimal number) = number ∧ ∀ c ∈ hexadecimal number, isHex c = true := by
  induction number using Nat.strongRecOn with
  | ind number ih =>
      unfold hexadecimal at ih ⊢
      by_cases small : number < 16
      · rw [Nat.toDigits_of_lt_base small, List.map_singleton]
        have value := digitValue_digitChar small
        refine ⟨by simp [hexValue, value], fun c member => ?_⟩
        rw [List.mem_singleton.mp member]
        exact isHex_iff.mpr ⟨number, small, value⟩
      · have less : number / 16 < number := by omega
        have last : number % 16 < 16 := Nat.mod_lt _ (by decide)
        have value := digitValue_digitChar last
        obtain ⟨front, digits⟩ := ih (number / 16) less
        rw [Nat.toDigits_of_base_le (by decide) (by omega), List.map_append, List.map_singleton]
        refine ⟨?_, fun c member => ?_⟩
        · rw [hexValue_concat, front, value, Option.getD_some]
          omega
        · rcases List.mem_append.mp member with isFront | isLast
          · exact digits c isFront
          · rw [List.mem_singleton.mp isLast]
            exact isHex_iff.mpr ⟨_, last, value⟩

theorem hexadecimal_injective {first second : Nat}
    (same : hexadecimal first = hexadecimal second) : first = second := by
  have values := congrArg hexValue same
  rwa [(hexadecimal_spec first).1, (hexadecimal_spec second).1] at values

theorem zero_notMem_hexadecimal (number : Nat) : 0 ∉ hexadecimal number := fun member =>
  absurd ((hexadecimal_spec number).2 0 member) (by decide)

/-! ## Writing -/

/-- A write behind what is there already. -/
theorem writeBlock_behind (front : List UInt8) {rest bytes : List UInt8}
    (fits : bytes.length ≤ rest.length) :
    writeBlock (front ++ rest) front.length bytes =
      some (front ++ bytes ++ rest.drop bytes.length) := by
  unfold writeBlock overwrite
  rw [if_pos (by rw [List.length_append]; omega), List.take_left, ← List.drop_drop,
    List.drop_left]

/-- A write over zeros leaves those behind it. -/
theorem writeBlock_zeros (front bytes : List UInt8) (count : Nat) :
    writeBlock (front ++ List.replicate (bytes.length + count) 0) front.length bytes =
      some (front ++ bytes ++ List.replicate count 0) := by
  have fits : bytes.length ≤ (List.replicate (bytes.length + count) (0 : UInt8)).length := by
    rw [List.length_replicate]
    exact Nat.le_add_right _ _
  rw [writeBlock_behind front fits, List.drop_replicate, Nat.add_sub_cancel_left]

/-- `strncpy` of no more than there is of the string. -/
theorem strncpy_take {src : List UInt8} {count : Nat} (inside : count ≤ src.length)
    (block : List UInt8) (dest : Nat) :
    strncpy block dest src count = writeBlock block dest (src.take count) := by
  unfold strncpy
  simp only [List.length_take_of_le inside, Nat.sub_self, List.replicate_zero, List.append_nil]

/-- `strcat` to a string with zeros behind it. -/
theorem strcat_zeros {front : List UInt8} (isString : 0 ∉ front) (src : List UInt8)
    (count : Nat) :
    strcat (front ++ List.replicate (src.length + (count + 1)) 0) src =
      some (front ++ src ++ List.replicate (count + 1) 0) := by
  have zeros : List.replicate (src.length + (count + 1)) (0 : UInt8) =
      0 :: List.replicate (src.length + count) 0 := List.replicate_succ
  have isCstr : cstr (front ++ List.replicate (src.length + (count + 1)) 0) = front := by
    rw [zeros, cstr_append_zero isString]
  unfold strcat
  rw [if_pos (by rw [zeros]; simp), isCstr, writeBlock_zeros]

end Zsbl.Libs
