/-
Module: Zsbl.Proofs.Bootargs
Purpose: What the bm1690 makes of the boot arguments of a core.
Trusted boundary: none
Main exports:
  Bootargs, initrdNumber, FirstInitrd, RewritesInitrd, Rewritable, bootargs_rewritten
-/
import Zsbl.Plat.Bm1690
import Zsbl.Proofs.CString

namespace Zsbl.Plat.Bm1690

open Zsbl.Lib Zsbl.Libs

/-! ## Rewriting -/

/-- A string without terminator. -/
structure Bootargs where
  chars : List UInt8
  isString : 0 ∉ chars

/-- The number of "initrd=" and a hexadecimal number at a position, and its length. -/
def initrdNumber (s : Bootargs) (i : Nat) : Option (Nat × Nat) :=
  if initrdText <+: s.chars.drop i then hexNumber (s.chars.drop (i + initrdText.length)) else none

/-- The first "initrd=" with a number. -/
def FirstInitrd (s : Bootargs) (i number len : Nat) : Prop :=
  initrdNumber s i = some (number, len) ∧ ∀ j < i, initrdNumber s j = none

/-- The string with another number in the place of one of a length. -/
def replaced (s : Bootargs) (i len number : Nat) : List UInt8 :=
  s.chars.take (i + initrdText.length) ++ ([0x30, 0x78] ++ hexadecimal number) ++
    s.chars.drop (i + initrdText.length + len)

/-- The number and the memory of the cores in front of this one. -/
def movedTo (number : Nat) (ramSize : BitVec 64) (coreId : BitVec 32) : Int :=
  number + ramSize.toNat * coreId.toInt

/-- The call replaces the first number of an initrd, or returns -1 and leaves the tree alone
when there is none, for every tree with these boot arguments and with space in it. -/
def RewritesInitrd (s : Bootargs) (ramSize : BitVec 64) (coreId : BitVec 32) (memory : Bool) :
    Prop :=
  ∀ fdt address modifyStdout, fdt.pathOffset [chosenName] = some address →
    (fdt.get? address).bind (·.prop? bootargsName) = some (s.chars ++ [0]) →
    (∀ i number len, FirstInitrd s i number len → ∃ fdt' sum,
      modifyNodeChosen memory (fun _ => true) fdt ramSize coreId modifyStdout = some (fdt', 0) ∧
      (sum : Nat) = movedTo number ramSize coreId ∧
      (fdt'.get? address).bind (·.prop? bootargsName) = some (replaced s i len sum ++ [0])) ∧
    ((∀ i, initrdNumber s i = none) →
      modifyNodeChosen memory (fun _ => true) fdt ramSize coreId modifyStdout = some (fdt, -1))

/-- The sum is a number of 64 bits that the code computes: the number is one too, or it
saturates at what it is modulo 2^64. -/
def SumFits (number : Nat) (ramSize : BitVec 64) (coreId : BitVec 32) : Prop :=
  0 ≤ movedTo number ramSize coreId ∧ movedTo number ramSize coreId < 2 ^ 64 ∧
    (number < 2 ^ 64 ∨ number % 2 ^ 64 = ULONG_MAX)

/-- A sign and a number that `strtoul` takes. -/
def SignedNumber (r : List UInt8) : Prop :=
  (strtoulSign r).1 ≠ 0 ∧ strtoulNumber (r.drop 1) ≠ none

/-- There is an "initrd=" in the string. The first one has a number, not behind a bare prefix,
whose sum fits, and there is memory; or none has a number, and the first one has no sign in
front of one. -/
def Rewritable (s : Bootargs) (ramSize : BitVec 64) (coreId : BitVec 32) (memory : Bool) : Prop :=
  ∃ i, FirstAt initrdText s.chars i ∧
    ((∃ number len, hexNumber (s.chars.drop (i + initrdText.length)) = some (number, len) ∧
        ¬ BarePrefix (s.chars.drop (i + initrdText.length)) ∧
        SumFits number ramSize coreId ∧ memory = true) ∨
      (∀ j, initrdNumber s j = none) ∧ ¬ SignedNumber (s.chars.drop (i + initrdText.length)))

/-! ## The new string -/

/-- The block that is filled with the part of a string in front of a number, the new text and
the part behind the number. -/
def filledBlock (string text : List UInt8) (start len : Nat) : Option (List UInt8) := do
  let block := List.replicate (string.length + 1 - len + text.length) 0
  let block ← strncpy block 0 string start
  let block ← strcpy block start text
  strcat block (string.drop (start + len))

/-- The block is the string with the text in the place of the number, and a NUL. -/
theorem filledBlock_eq {string text : List UInt8} {start len : Nat} (isString : 0 ∉ string)
    (noZero : 0 ∉ text) (inside : start + len ≤ string.length) :
    filledBlock string text start len =
      some (string.take start ++ text ++ string.drop (start + len) ++ [0]) := by
  have taken : (string.take start).length = start := List.length_take_of_le (by omega)
  have front : 0 ∉ string.take start ++ text := by
    rw [List.mem_append, not_or]
    exact ⟨fun member => isString (List.mem_of_mem_take member), noZero⟩
  have size : string.length + 1 - len + text.length =
      start + (text.length + ((string.drop (start + len)).length + (0 + 1))) := by
    rw [List.length_drop]
    omega
  have first := writeBlock_zeros [] (string.take start)
    (text.length + ((string.drop (start + len)).length + (0 + 1)))
  have second := writeBlock_zeros (string.take start) text
    ((string.drop (start + len)).length + (0 + 1))
  rw [taken] at first second
  unfold filledBlock strcpy
  simp only [size, strncpy_take (show start ≤ string.length by omega)]
  simp only [List.nil_append, List.length_nil] at first
  simp only [first, second, strcat_zeros front, Option.bind_eq_bind, Option.bind_some]
  rfl

theorem zero_notMem_addrText (addr : BitVec 64) : 0 ∉ addrText addr := by
  unfold addrText
  rw [List.mem_append, not_or]
  exact ⟨by decide, zero_notMem_hexadecimal _⟩

theorem inside_of_initrd {s : Bootargs} {i : Nat} (start : initrdText <+: s.chars.drop i) :
    i + initrdText.length ≤ s.chars.length := by
  have length := start.length_le
  rw [List.length_drop] at length
  have some : 0 < initrdText.length := by decide
  omega

theorem strstr_initrd (s : Bootargs) :
    (∃ i, strstr (s.chars ++ [0]) initrdText = some (some i) ∧ FirstAt initrdText s.chars i) ∨
      (strstr (s.chars ++ [0]) initrdText = some none ∧ ∀ i, ¬ initrdText <+: s.chars.drop i) := by
  have nonempty : initrdText ≠ [] := by decide
  have isString : 0 ∉ initrdText := by decide
  unfold strstr
  rw [if_neg nonempty]
  exact strstrFrom_string nonempty isString s.isString

theorem firstAt_unique {ne hs : List UInt8} {i j : Nat} (first : FirstAt ne hs i)
    (second : FirstAt ne hs j) : i = j := by
  rcases Nat.lt_trichotomy i j with less | same | less
  · exact absurd first.1 (second.2 i less)
  · exact same
  · exact absurd second.1 (first.2 j less)

/-- Without an "initrd=" a null pointer is read through. -/
theorem newBootargs_missing {s : Bootargs} (never : ∀ i, ¬ initrdText <+: s.chars.drop i)
    (memory : Bool) (ramSize : BitVec 64) (coreId : BitVec 32) :
    newBootargs memory (s.chars ++ [0]) ramSize coreId = none := by
  rcases strstr_initrd s with ⟨i, -, first⟩ | ⟨notFound, -⟩
  · exact absurd first.1 (never i)
  · unfold newBootargs
    rw [if_neg (by simp), notFound]
    rfl

/-- The new string where `strtoul` takes so much for a number. -/
theorem newBootargs_number {s : Bootargs} {i len : Nat} {value : BitVec 64}
    (isFound : strstr (s.chars ++ [0]) initrdText = some (some i))
    (isValue : strtoul ((s.chars ++ [0]).drop (i + initrdText.length)) 16 = some (value, len))
    (counted : 0 < len) (behind : i + initrdText.length + len ≤ s.chars.length)
    (memory : Bool) (ramSize : BitVec 64) (coreId : BitVec 32) :
    newBootargs memory (s.chars ++ [0]) ramSize coreId =
      if memory then
        some (some (s.chars.take (i + initrdText.length) ++
          addrText (value + ramSize * coreId.signExtend 64) ++
          s.chars.drop (i + initrdText.length + len)))
      else none := by
  have isCstr : cstr (s.chars ++ [0]) = s.chars := cstr_append_zero s.isString []
  have restString : cstr ((s.chars ++ [0]).drop (i + initrdText.length + len)) =
      s.chars.drop (i + initrdText.length + len) := by
    rw [List.drop_append_of_le_length behind]
    exact cstr_append_zero (fun member => s.isString (List.mem_of_mem_drop member)) []
  have noZero := zero_notMem_addrText (value + ramSize * coreId.signExtend 64)
  have filled := filledBlock_eq s.isString noZero behind
  have newString : 0 ∉ s.chars.take (i + initrdText.length) ++
      addrText (value + ramSize * coreId.signExtend 64) ++
        s.chars.drop (i + initrdText.length + len) := by
    simp only [List.mem_append, not_or]
    exact ⟨⟨fun member => s.isString (List.mem_of_mem_take member), noZero⟩,
      fun member => s.isString (List.mem_of_mem_drop member)⟩
  unfold newBootargs
  rw [if_neg (by simp), isFound]
  simp only [Option.bind_eq_bind, Option.bind_some, Option.map_some, isValue, isCstr, restString]
  rw [if_neg fun both => Nat.ne_of_gt counted both.2]
  cases memory with
  | false => rfl
  | true =>
      unfold filledBlock at filled
      simp only [Option.bind_eq_bind] at filled
      simp only [Bool.not_true, Bool.false_eq_true, if_false, if_true]
      have read := congrArg (·.bind fun block => some (some (cstr block))) filled
      simp only [Option.bind_assoc, Option.bind_some, cstr_append_zero newString] at read
      exact read

/-- The number that `strtoul` takes behind the first "initrd=", with its sign. -/
theorem newBootargs_first {s : Bootargs} {i : Nat} (first : FirstAt initrdText s.chars i)
    (memory : Bool) (ramSize : BitVec 64) (coreId : BitVec 32) {r : List UInt8}
    (isRest : s.chars.drop (i + initrdText.length) = r) :
    newBootargs memory (s.chars ++ [0]) ramSize coreId =
      (strtoulNumber (r.drop (strtoulSign r).1)).elim (some none) fun found =>
        if memory then
          some (some (s.chars.take (i + initrdText.length) ++
            addrText (strtoulValue (strtoulSign r).2 found.1 +
              ramSize * coreId.signExtend 64) ++
            s.chars.drop (i + initrdText.length + ((strtoulSign r).1 + found.2))))
        else none := by
  rcases strstr_initrd s with ⟨j, isFound, firstToo⟩ | ⟨-, never⟩
  · obtain rfl := firstAt_unique first firstToo
    have inside := inside_of_initrd first.1
    have rest : (s.chars ++ [0]).drop (i + initrdText.length) = r ++ [0] := by
      rw [List.drop_append_of_le_length inside, isRest]
    have isValue := strtoul_string r
    rw [← rest] at isValue
    cases isNumber : strtoulNumber (r.drop (strtoulSign r).1) with
    | none =>
        rw [isNumber] at isValue
        unfold newBootargs
        rw [if_neg (by simp), isFound]
        simp only [Option.bind_eq_bind, Option.bind_some, Option.map_some, isValue]
        rfl
    | some found =>
        have length := strtoulNumber_length isNumber
        have sign := strtoulSign_le r
        have restLength := congrArg List.length isRest
        rw [List.length_drop] at length restLength
        rw [isNumber] at isValue
        exact newBootargs_number isFound isValue (by omega) (by omega) memory ramSize coreId
  · exact absurd first.1 (never i)

/-! ## The sum -/

/-- The offset wraps in 64 bits, and the core's number is signed. -/
theorem toNat_memoryOffset (ramSize : BitVec 64) (coreId : BitVec 32) :
    ((ramSize * coreId.signExtend 64).toNat : Int) =
      (ramSize.toNat * coreId.toInt) % 2 ^ 64 := by
  have offset : ramSize * coreId.signExtend 64 =
      BitVec.ofInt 64 (ramSize.toNat * coreId.toInt) := by
    rw [BitVec.ofInt_mul, BitVec.ofInt_natCast, BitVec.ofNat_toNat, BitVec.setWidth_eq]
    rfl
  rw [offset, BitVec.toNat_ofInt, Int.toNat_of_nonneg (Int.emod_nonneg _ (by decide))]
  norm_cast

/-- The sum of 64 bits is the one of the numbers exactly if it fits. -/
theorem sum_iff_fits (number : Nat) (ramSize : BitVec 64) (coreId : BitVec 32) :
    ((strtoulValue false number + ramSize * coreId.signExtend 64).toNat : Int) =
      movedTo number ramSize coreId ↔ SumFits number ramSize coreId := by
  have offset := toNat_memoryOffset ramSize coreId
  unfold SumFits movedTo ULONG_MAX
  rw [BitVec.toNat_add]
  generalize (ramSize.toNat : Int) * coreId.toInt = moved at offset ⊢
  generalize (ramSize * coreId.signExtend 64).toNat = offsetNat at offset ⊢
  unfold strtoulValue ULONG_MAX
  by_cases large : 2 ^ 64 ≤ number
  · rw [if_pos large, BitVec.toNat_ofNat]
    omega
  · rw [if_neg large, if_neg (by decide), BitVec.toNat_ofNat]
    omega

/-! ## The tree -/

section Tree

variable {fdt : DtNode} {address : List Nat} {bootargs : List UInt8} {memory : Bool}
  {ramSize : BitVec 64} {coreId : BitVec 32}

theorem modifyNodeChosen_missing (isAddress : fdt.pathOffset [chosenName] = some address)
    (isBootargs : (fdt.get? address).bind (·.prop? bootargsName) = some bootargs)
    (missing : newBootargs memory bootargs ramSize coreId = none)
    (room : ChosenEdit → Bool) (modifyStdout : Bool) :
    modifyNodeChosen memory room fdt ramSize coreId modifyStdout = none := by
  unfold modifyNodeChosen
  simp only [isAddress, isBootargs, missing]

theorem modifyNodeChosen_noNumber (isAddress : fdt.pathOffset [chosenName] = some address)
    (isBootargs : (fdt.get? address).bind (·.prop? bootargsName) = some bootargs)
    (noNumber : newBootargs memory bootargs ramSize coreId = some none)
    (room : ChosenEdit → Bool) (modifyStdout : Bool) :
    modifyNodeChosen memory room fdt ramSize coreId modifyStdout = some (fdt, -1) := by
  unfold modifyNodeChosen
  simp only [isAddress, isBootargs, noNumber]

/-- With a new string the property is written. -/
theorem modifyNodeChosen_string (isAddress : fdt.pathOffset [chosenName] = some address)
    (isBootargs : (fdt.get? address).bind (·.prop? bootargsName) = some bootargs)
    {string : List UInt8}
    (isString : newBootargs memory bootargs ramSize coreId = some (some string))
    (modifyStdout : Bool) :
    ∃ fdt', modifyNodeChosen memory (fun _ => true) fdt ramSize coreId modifyStdout =
        some (fdt', 0) ∧
      (fdt'.get? address).bind (·.prop? bootargsName) = some (string ++ [0]) := by
  obtain ⟨chosen, isChosen⟩ := Option.isSome_iff_exists.mp (DtNode.pathOffset_get? isAddress)
  have other : bootargsName ≠ stdoutName := by decide
  unfold modifyNodeChosen
  simp only [isAddress, isBootargs, isString]
  cases modifyStdout with
  | false =>
      refine ⟨_, rfl, ?_⟩
      simp [DtNode.get?_update_self, isChosen, DtNode.prop?_setProp_self]
  | true =>
      refine ⟨_, rfl, ?_⟩
      simp [DtNode.get?_update_self, isChosen, DtNode.prop?_setProp_self,
        DtNode.prop?_setProp_of_ne _ _ other]

end Tree

/-- A tree with only these boot arguments. -/
def treeWith (s : Bootargs) : DtNode :=
  .node [] [] [.node chosenName [(bootargsName, s.chars ++ [0])] []]

theorem pathOffset_treeWith (s : Bootargs) : (treeWith s).pathOffset [chosenName] = some [0] := rfl

theorem bootargs_treeWith (s : Bootargs) :
    ((treeWith s).get? [0]).bind (·.prop? bootargsName) = some (s.chars ++ [0]) := rfl

/-! ## The first number -/

section FirstNumber

variable {s : Bootargs} {ramSize : BitVec 64} {coreId : BitVec 32} {memory : Bool}

theorem firstInitrd_or_none (s : Bootargs) :
    (∃ i number len, FirstInitrd s i number len) ∨ ∀ i, initrdNumber s i = none := by
  by_cases never : ∀ i, initrdNumber s i = none
  · exact .inr never
  · have some : ∃ i, initrdNumber s i ≠ none := not_forall.mp never
    obtain ⟨found, isFound⟩ := Option.ne_none_iff_exists'.mp (Nat.find_spec some)
    refine .inl ⟨Nat.find some, found.1, found.2, isFound, fun j below => ?_⟩
    exact not_not.mp (Nat.find_min some below)

/-- There is one first number. -/
theorem FirstInitrd.unique {i j number number' len len' : Nat}
    (first : FirstInitrd s i number len) (second : FirstInitrd s j number' len') :
    i = j ∧ number = number' ∧ len = len' := by
  have same : i = j := by
    rcases Nat.lt_trichotomy i j with less | same | less
    · exact absurd (first.1.symm.trans (second.2 i less)) (by simp)
    · exact same
    · exact absurd (second.1.symm.trans (first.2 j less)) (by simp)
  subst same
  exact ⟨rfl, Prod.mk.inj (Option.some.inj (first.1.symm.trans second.1))⟩

/-- A string that is not computed is none that is rewritten. -/
theorem rewritesInitrd_missing
    (missing : newBootargs memory (s.chars ++ [0]) ramSize coreId = none) :
    ¬ RewritesInitrd s ramSize coreId memory := by
  intro rewrites
  have result := modifyNodeChosen_missing (pathOffset_treeWith s) (bootargs_treeWith s) missing
    (fun _ => true) false
  obtain ⟨found, none⟩ := rewrites _ _ false (pathOffset_treeWith s) (bootargs_treeWith s)
  rcases firstInitrd_or_none s with ⟨i, number, len, first⟩ | never
  · obtain ⟨fdt', sum, success, -⟩ := found i number len first
    exact absurd (result.symm.trans success) (by simp)
  · exact absurd (result.symm.trans (none never)) (by simp)

/-- A string that is left alone is right if no `initrd` has a number. -/
theorem rewritesInitrd_noNumber
    (noNumber : newBootargs memory (s.chars ++ [0]) ramSize coreId = some none) :
    RewritesInitrd s ramSize coreId memory ↔ ∀ i, initrdNumber s i = none := by
  constructor
  · intro rewrites
    rcases firstInitrd_or_none s with ⟨i, number, len, first⟩ | never
    · obtain ⟨found, -⟩ := rewrites _ _ false (pathOffset_treeWith s) (bootargs_treeWith s)
      obtain ⟨fdt', sum, success, -⟩ := found i number len first
      have failure := modifyNodeChosen_noNumber (pathOffset_treeWith s) (bootargs_treeWith s)
        noNumber (fun _ => true) false
      exact absurd (failure.symm.trans success) (by simp)
    · exact never
  · intro never fdt address modifyStdout isAddress isBootargs
    refine ⟨fun i number len first => ?_, fun _ => ?_⟩
    · exact absurd (first.1.symm.trans (never i)) (by simp)
    · exact modifyNodeChosen_noNumber isAddress isBootargs noNumber _ modifyStdout

/-- A new string is right if the first number was moved and nothing else. -/
theorem rewritesInitrd_string {string : List UInt8}
    (isString : newBootargs memory (s.chars ++ [0]) ramSize coreId = some (some string)) :
    RewritesInitrd s ramSize coreId memory ↔ ∃ i number len sum, FirstInitrd s i number len ∧
      (sum : Nat) = movedTo number ramSize coreId ∧ string = replaced s i len sum := by
  constructor
  · intro rewrites
    obtain ⟨fdt', success, written⟩ := modifyNodeChosen_string (pathOffset_treeWith s)
      (bootargs_treeWith s) isString false
    obtain ⟨found, none⟩ := rewrites _ _ false (pathOffset_treeWith s) (bootargs_treeWith s)
    rcases firstInitrd_or_none s with ⟨i, number, len, first⟩ | never
    · obtain ⟨other, sum, successToo, isSum, writtenToo⟩ := found i number len first
      obtain ⟨rfl, -⟩ := Prod.mk.inj (Option.some.inj (success.symm.trans successToo))
      have same := Option.some.inj (written.symm.trans writtenToo)
      exact ⟨i, number, len, sum, first, isSum, List.append_cancel_right same⟩
    · exact absurd (success.symm.trans (none never)) (by simp)
  · rintro ⟨i, number, len, sum, first, isSum, rfl⟩ fdt address modifyStdout isAddress isBootargs
    obtain ⟨fdt', success, written⟩ :=
      modifyNodeChosen_string isAddress isBootargs isString modifyStdout
    refine ⟨fun j number' len' firstToo => ?_, fun never => ?_⟩
    · obtain ⟨rfl, rfl, rfl⟩ := first.unique firstToo
      exact ⟨fdt', sum, success, isSum, written⟩
    · exact absurd (first.1.symm.trans (never i)) (by simp)

/-- In front of the first "initrd=" there is no number. -/
theorem firstInitrd_of_firstAt {i number len : Nat} (first : FirstAt initrdText s.chars i)
    (isNumber : hexNumber (s.chars.drop (i + initrdText.length)) = some (number, len)) :
    FirstInitrd s i number len := by
  unfold FirstInitrd initrdNumber
  rw [if_pos first.1]
  exact ⟨isNumber, fun j below => if_neg (first.2 j below)⟩

/-- What the first `initrd=` is followed by decides. -/
theorem rewritable_iff {i : Nat} (first : FirstAt initrdText s.chars i) {r : List UInt8}
    (isRest : s.chars.drop (i + initrdText.length) = r) :
    Rewritable s ramSize coreId memory ↔
      (∃ number len, hexNumber r = some (number, len) ∧ ¬ BarePrefix r ∧
        SumFits number ramSize coreId ∧ memory = true) ∨
      (∀ j, initrdNumber s j = none) ∧ ¬ SignedNumber r := by
  subst isRest
  constructor
  · rintro ⟨j, firstToo, holds⟩
    obtain rfl := firstAt_unique first firstToo
    exact holds
  · exact fun holds => ⟨i, first, holds⟩

/-- The address that is written is the number that was meant, or the string differs. -/
theorem addrText_eq_replaced {i len sum : Nat} {addr : BitVec 64} :
    s.chars.take (i + initrdText.length) ++ addrText addr ++
        s.chars.drop (i + initrdText.length + len) = replaced s i len sum ↔ addr.toNat = sum := by
  constructor
  · intro same
    have front := List.append_cancel_right same
    have text := List.append_cancel_left front
    exact hexadecimal_injective (List.append_cancel_left text)
  · rintro rfl
    rfl

/-- The number is replaced where there is no sign in front of it. -/
theorem rewritten_number {i number len : Nat} {r : List UInt8}
    (first : FirstAt initrdText s.chars i)
    (isRest : s.chars.drop (i + initrdText.length) = r) (unsigned : strtoulSign r = (0, false))
    (isNumber : strtoulNumber r = some (number, len)) :
    RewritesInitrd s ramSize coreId memory ↔ Rewritable s ramSize coreId memory := by
  obtain ⟨notBare, isHexNumber⟩ : ¬ BarePrefix r ∧ hexNumber r = some (number, len) := by
    unfold strtoulNumber at isNumber
    split at isNumber
    · cases isNumber
    · next notBare => exact ⟨notBare, isNumber⟩
  have isFirst : FirstInitrd s i number len :=
    firstInitrd_of_firstAt first (isRest ▸ isHexNumber)
  have someNumber : ¬ ∀ j, initrdNumber s j = none := fun never =>
    absurd (isFirst.1.symm.trans (never i)) (by simp)
  have result := newBootargs_first first memory ramSize coreId isRest
  rw [unsigned] at result
  simp only [List.drop_zero, isNumber, Option.elim_some, Nat.zero_add] at result
  rw [rewritable_iff first isRest]
  cases memory with
  | false =>
      refine iff_of_false (rewritesInitrd_missing result) ?_
      rintro (⟨-, -, -, -, -, no⟩ | ⟨never, -⟩)
      · exact absurd no (by decide)
      · exact someNumber never
  | true =>
      rw [rewritesInitrd_string result]
      constructor
      · rintro ⟨j, number', len', sum, firstToo, isSum, same⟩
        obtain ⟨rfl, rfl, rfl⟩ := isFirst.unique firstToo
        rw [← addrText_eq_replaced.mp same] at isSum
        exact .inl ⟨number, len, isHexNumber, notBare, (sum_iff_fits ..).mp isSum, rfl⟩
      · rintro (⟨number', len', isHexNumberToo, -, fits, -⟩ | ⟨never, -⟩)
        · obtain ⟨rfl, rfl⟩ :=
            Prod.mk.inj (Option.some.inj (isHexNumber.symm.trans isHexNumberToo))
          exact ⟨i, number, len, _, isFirst, (sum_iff_fits ..).mpr fits,
            addrText_eq_replaced.mpr rfl⟩
        · exact absurd never someNumber

/-- Where `strtoul` takes nothing for a number there must be none. -/
theorem rewritten_noNumber {i : Nat} {r : List UInt8} (first : FirstAt initrdText s.chars i)
    (isRest : s.chars.drop (i + initrdText.length) = r)
    (noNumber : strtoulNumber (r.drop (strtoulSign r).1) = none) :
    RewritesInitrd s ramSize coreId memory ↔ Rewritable s ramSize coreId memory := by
  have result := newBootargs_first first memory ramSize coreId isRest
  rw [noNumber, Option.elim_none] at result
  rw [rewritesInitrd_noNumber result, rewritable_iff first isRest]
  obtain ⟨notSigned, bare⟩ : ¬ SignedNumber r ∧
      ∀ number len, hexNumber r = some (number, len) → BarePrefix r := by
    rcases strtoulSign_cases r with unsigned | ⟨signed, notNumber, -⟩
    · rw [unsigned, List.drop_zero] at noNumber
      refine ⟨fun sign => sign.1 (by rw [unsigned]), fun number len isNumber => ?_⟩
      by_contra notBare
      unfold strtoulNumber at noNumber
      rw [if_neg notBare, isNumber] at noNumber
      cases noNumber
    · rw [signed] at noNumber
      refine ⟨fun sign => sign.2 noNumber, fun number len isNumber => ?_⟩
      exact absurd (notNumber.symm.trans isNumber) (by simp)
  constructor
  · exact fun never => .inr ⟨never, notSigned⟩
  · rintro (⟨number, len, isNumber, notBare, -⟩ | ⟨never, -⟩)
    · exact absurd (bare number len isNumber) notBare
    · exact never

theorem newText_head {i : Nat} (inside : i + initrdText.length ≤ s.chars.length)
    (addr : BitVec 64) (rest : List UInt8) :
    (s.chars.take (i + initrdText.length) ++ addrText addr ++ rest)[i + initrdText.length]? =
      some 0x30 := by
  have length := List.length_take_of_le inside
  rw [List.append_assoc, List.getElem?_append_right (Nat.le_of_eq length), length, Nat.sub_self]
  rfl

theorem replaced_front {j k len sum : Nat} (front : k < j + initrdText.length)
    (inside : j + initrdText.length ≤ s.chars.length) :
    (replaced s j len sum)[k]? = s.chars[k]? := by
  unfold replaced
  rw [List.append_assoc, List.getElem?_append_left (by rwa [List.length_take_of_le inside]),
    List.getElem?_take_of_lt front]

/-- A number that is not behind the first "initrd=" is behind a later one. -/
theorem FirstInitrd.later {i j number len : Nat} (isFirst : FirstInitrd s j number len)
    (first : FirstAt initrdText s.chars i)
    (notNumber : hexNumber (s.chars.drop (i + initrdText.length)) = none) :
    i < j ∧ j + initrdText.length ≤ s.chars.length := by
  have isNumber := isFirst.1
  unfold initrdNumber at isNumber
  split at isNumber
  · next start =>
    refine ⟨?_, inside_of_initrd start⟩
    rcases Nat.lt_trichotomy i j with less | rfl | less
    · exact less
    · exact absurd (notNumber.symm.trans isNumber) (by simp)
    · exact absurd start (first.2 j less)
  · cases isNumber

/-- A number behind a sign is replaced with its sign. -/
theorem rewritten_signed {i : Nat} {found : Nat × Nat} {r : List UInt8}
    (first : FirstAt initrdText s.chars i)
    (isRest : s.chars.drop (i + initrdText.length) = r) (signed : (strtoulSign r).1 = 1)
    (notNumber : hexNumber r = none) (notZero : r.head? ≠ some 0x30)
    (isNumber : strtoulNumber (r.drop 1) = some found) :
    ¬ RewritesInitrd s ramSize coreId memory ∧ ¬ Rewritable s ramSize coreId memory := by
  have result := newBootargs_first first memory ramSize coreId isRest
  rw [signed, isNumber, Option.elim_some] at result
  constructor
  · cases memory with
    | false => exact rewritesInitrd_missing result
    | true =>
        rw [rewritesInitrd_string result]
        rintro ⟨j, number, len, sum, firstToo, -, same⟩
        -- the first number is behind a later "initrd=", so that the sign is still in its place
        obtain ⟨later, inside⟩ := firstToo.later first (isRest ▸ notNumber)
        have sign : (replaced s j len sum)[i + initrdText.length]? = r.head? := by
          rw [replaced_front (by omega) inside, ← List.head?_drop, isRest]
        rw [← same, newText_head (inside_of_initrd first.1)] at sign
        exact notZero sign.symm
  · rw [rewritable_iff first isRest]
    rintro (⟨number, len, isNumberToo, -⟩ | ⟨-, notSigned⟩)
    · exact absurd (notNumber.symm.trans isNumberToo) (by simp)
    · exact notSigned ⟨by rw [signed]; decide, by rw [isNumber]; simp⟩

end FirstNumber

/-- The boot arguments are rewritten exactly if they are rewritable. -/
theorem bootargs_rewritten (s : Bootargs) (ramSize : BitVec 64) (coreId : BitVec 32)
    (memory : Bool) :
    RewritesInitrd s ramSize coreId memory ↔ Rewritable s ramSize coreId memory := by
  rcases strstr_initrd s with ⟨i, -, first⟩ | ⟨-, never⟩
  · rcases strtoulSign_cases (s.chars.drop (i + initrdText.length)) with
      unsigned | ⟨signed, notNumber, notZero⟩
    · cases isNumber : strtoulNumber (s.chars.drop (i + initrdText.length)) with
      | none => exact rewritten_noNumber first rfl (by rw [unsigned]; exact isNumber)
      | some found => exact rewritten_number first rfl unsigned isNumber
    · cases isNumber : strtoulNumber ((s.chars.drop (i + initrdText.length)).drop 1) with
      | none => exact rewritten_noNumber first rfl (by rw [signed]; exact isNumber)
      | some found =>
          obtain ⟨notRewrites, notRewritable⟩ :=
            rewritten_signed first rfl signed notNumber notZero isNumber
          exact iff_of_false notRewrites notRewritable
  · refine iff_of_false (rewritesInitrd_missing (newBootargs_missing never ..)) ?_
    rintro ⟨i, first, -⟩
    exact never i first.1

/-- Boot arguments "quiet" are not refused: a null pointer is read through. -/
theorem missing_initrd_is_read :
    ¬ RewritesInitrd ⟨[0x71, 0x75, 0x69, 0x65, 0x74], by decide⟩ 0 0 true :=
  rewritesInitrd_missing rfl

end Zsbl.Plat.Bm1690
