/-
Module: Zsbl.Proofs.AutomountNames
Purpose: The paths at which automount_setup mounts, and when they do not meet.
Trusted boundary: none
Main exports:
  mntPath, decimal, blkName, printed_mnt, printed_blk, recognisedPlaces, Placeable,
  pairwise_recognisedPlaces
-/
import Mathlib.Data.Nat.Digits.Lemmas
import Zsbl.Fs.Automount
import Zsbl.Proofs.StringContract
import Zsbl.Proofs.VfsMkdirPath

namespace Zsbl.Fs

open Zsbl.Common Zsbl.Drivers Zsbl.Lib Zsbl.Libs

variable {π : Type}

/-! ## What is printed -/

/-- A text that fits is printed whole. -/
theorem printed_eq {strings : BitVec 64 → Text} (size : Nat) {format : Text}
    {args : Nat → BitVec 64} {ds : List Directive}
    (scanned : directives strings args 0 0 format.chars = some ds) (nonempty : allChars ds ≠ [])
    (fits : (allChars ds).length < size) :
    ∃ text, printed strings size format args = some text ∧ text.chars = allChars ds := by
  have stored := snprintf_eq scanned (Nat.zero_lt_of_lt fits)
    (Nat.le_of_eq (List.length_replicate (n := size) (a := (0 : UInt8))).symm)
  rw [List.take_of_length_le (Nat.le_sub_one_of_lt fits)] at stored
  refine ⟨⟨_, zero_notMem_cstr _⟩, by rw [printed, stored]; rfl, ?_⟩
  exact cstr_filled (zero_notMem_allChars scanned) nonempty _

/-- "mnt". -/
def mntName : CStr := [0x6d, 0x6e, 0x74]

/-- "/mnt/" and the alias. -/
def mntPath (aliasName : CStr) : CStr := slash :: (mntName ++ slash :: aliasName)

/-- The alias ends inside its array. -/
theorem Blkdev.aliasText_short (blkdev : Blkdev π) :
    blkdev.aliasText.chars.length < DEVICE_NAME_MAX := by
  obtain ⟨string, rest, split, isString⟩ := List.eq_append_cons_of_mem blkdev.terminated
  have size := blkdev.size
  have chars : blkdev.aliasText.chars = string := by
    simp only [Blkdev.aliasText, split, cstr_append_zero isString]
  rw [split, List.length_append, List.length_cons] at size
  rw [chars]
  omega

/-- The path of a device with an alias is printed whole into the array of `mount_named`. -/
theorem printed_mnt (blkdev : Blkdev π) :
    ∃ path, printed (fun _ => blkdev.aliasText) (8 + DEVICE_NAME_MAX) mntFormat (fun _ => 1) =
      some path ∧ path.chars = mntPath blkdev.aliasText.chars := by
  have scanned : directives (fun _ => blkdev.aliasText) (fun _ => 1) 0 0 mntFormat.chars =
    some [.literal 0x2f, .literal 0x6d, .literal 0x6e, .literal 0x74, .literal 0x2f,
      .text ⟨false, false, false, 0⟩ blkdev.aliasText.chars] := rfl
  have chars : allChars [.literal 0x2f, .literal 0x6d, .literal 0x6e, .literal 0x74, .literal 0x2f,
      .text ⟨false, false, false, 0⟩ blkdev.aliasText.chars] =
      mntPath blkdev.aliasText.chars := by
    simp [allChars, Directive.chars, prints_plain, mntPath, mntName, slash]
  have short := blkdev.aliasText_short
  obtain ⟨path, done, isChars⟩ := printed_eq (8 + DEVICE_NAME_MAX) scanned
    (by rw [chars]; exact List.cons_ne_nil _ _) (by
      rw [chars]
      simp only [mntPath, mntName, List.length_cons, List.length_append, List.length_nil]
      omega)
  exact ⟨path, done, isChars.trans chars⟩

/-- A short name is printed whole behind the slash. -/
theorem printed_root (name : Text) (short : name.chars.length < 23) :
    ∃ path, printed (fun _ => name) 24 rootFormat (fun _ => 1) = some path ∧
      path.chars = slash :: name.chars := by
  have scanned : directives (fun _ => name) (fun _ => 1) 0 0 rootFormat.chars =
    some [.literal 0x2f, .text ⟨false, false, false, 0⟩ name.chars] := rfl
  have chars : allChars [.literal 0x2f, .text ⟨false, false, false, 0⟩ name.chars] =
      slash :: name.chars := by
    simp [allChars, Directive.chars, prints_plain, slash]
  obtain ⟨path, done, isChars⟩ := printed_eq 24 scanned
    (by rw [chars]; exact List.cons_ne_nil _ _) (by
      rw [chars, List.length_cons]
      omega)
  exact ⟨path, done, isChars.trans chars⟩

/-! ## Numbers -/

/-- What "%d" prints. -/
def decimal (value : Int) : CStr :=
  if value < 0 then 0x2d :: printiDigits (-value).toNat 10 0x30
  else printiDigits value.toNat 10 0x30

theorem vaInt_toInt (index : Int) : (vaInt (BitVec.ofInt 64 index)).toInt = wrapInt index := by
  unfold vaInt wrapInt
  rw [BitVec.toInt_signExtend_of_le (by decide), BitVec.toInt_setWidth, BitVec.toNat_ofInt,
    Int.toNat_of_nonneg (Int.emod_nonneg _ (by decide)), ← Int.emod_bmod,
    Int.emod_emod_of_dvd index (by decide), Int.emod_bmod]

theorem wrapInt_range (value : Int) : -2 ^ 31 ≤ wrapInt value ∧ wrapInt value < 2 ^ 31 := by
  have lower := Int.le_bmod (x := value) (m := 2 ^ 32) (by omega)
  have upper := Int.bmod_lt (x := value) (m := 2 ^ 32) (by omega)
  unfold wrapInt
  omega

/-- `%d` is the decimal number of the `int`. -/
theorem printi_decimal (i : BitVec 64) :
    printi ⟨false, false, false, 0⟩ i 10 true 0x30 = decimal i.toInt := by
  unfold printi decimal
  cases neg : i.msb with
  | false =>
      have same := BitVec.toInt_eq_toNat_of_msb neg
      simp [prints, same]
  | true =>
      have isNeg : i.toInt < 0 := BitVec.toInt_neg_of_msb_true neg
      have same : (-i).toNat = (-i.toInt).toNat := by
        have toInt := BitVec.toInt_eq_msb_cond i
        have large := BitVec.toNat_ge_of_msb_true neg
        have below := i.isLt
        rw [if_pos neg] at toInt
        rw [BitVec.toNat_neg]
        omega
      simp [prints, isNeg, same]

/-- The characters of a number. -/
theorem mem_printiDigits {u : Nat} {c : UInt8} (member : c ∈ printiDigits u 10 0x30) :
    0x30 ≤ c ∧ c ≤ 0x39 := by
  unfold printiDigits at member
  split at member
  · obtain rfl := List.mem_singleton.mp member
    decide
  · obtain ⟨t, isDigit, rfl⟩ := List.mem_map.mp member
    have small := Nat.digits_lt_base (by decide) (List.mem_reverse.mp isDigit)
    have all : ∀ t < 10, 0x30 ≤ printiDigit 0x30 t ∧ printiDigit 0x30 t ≤ 0x39 := by decide
    exact all t small

/-- The number that digits spell. -/
def spelled (chars : CStr) : Nat := Nat.ofDigits 10 (chars.reverse.map fun c => c.toNat - 0x30)

/-- The digits spell the number that they were made from. -/
theorem spelled_printiDigits (u : Nat) : spelled (printiDigits u 10 0x30) = u := by
  unfold spelled printiDigits
  split
  · next zero =>
    subst zero
    rfl
  · have value : ∀ t < 10, (printiDigit 0x30 t).toNat - 0x30 = t := by decide
    have same : (Nat.digits 10 u).map ((fun c => c.toNat - 0x30) ∘ printiDigit 0x30) =
        Nat.digits 10 u := by
      conv_rhs => rw [← List.map_id (Nat.digits 10 u)]
      exact List.map_congr_left fun t isDigit => value t (Nat.digits_lt_base (by decide) isDigit)
    rw [← List.map_reverse, List.reverse_reverse, List.map_map, same, Nat.ofDigits_digits]

/-- Different numbers are printed differently. -/
theorem decimal_injective {value other : Int} (same : decimal value = decimal other) :
    value = other := by
  have noSign (u : Nat) (rest : CStr) : 0x2d :: rest ≠ printiDigits u 10 0x30 := by
    intro signed
    have member : (0x2d : UInt8) ∈ printiDigits u 10 0x30 := signed ▸ List.mem_cons_self
    exact absurd (mem_printiDigits member).1 (by decide)
  have digits {u v : Nat} (same : printiDigits u 10 0x30 = printiDigits v 10 0x30) : u = v := by
    rw [← spelled_printiDigits u, same, spelled_printiDigits]
  unfold decimal at same
  split at same <;> split at same
  · have magnitude := digits (List.cons.inj same).2
    omega
  · exact absurd same (noSign _ _)
  · exact absurd same.symm (noSign _ _)
  · have magnitude := digits same
    omega

theorem mem_decimal {value : Int} {c : UInt8} (member : c ∈ decimal value) :
    c = 0x2d ∨ 0x30 ≤ c ∧ c ≤ 0x39 := by
  unfold decimal at member
  split at member
  · rcases List.mem_cons.mp member with sign | digit
    · exact Or.inl sign
    · exact Or.inr (mem_printiDigits digit)
  · exact Or.inr (mem_printiDigits member)

/-- An `int` takes eleven characters at most. -/
theorem decimal_short {value : Int} (low : -2 ^ 31 ≤ value) (high : value < 2 ^ 31) :
    (decimal value).length ≤ 11 := by
  have digits (u : Nat) (small : u < 10 ^ 10) : (printiDigits u 10 0x30).length ≤ 10 := by
    have short := (Nat.digits_length_le_iff (b := 10) (k := 10) (by decide) u).mpr small
    rw [length_printiDigits]
    omega
  unfold decimal
  split
  · have short := digits (-value).toNat (by omega)
    rw [List.length_cons]
    omega
  · have short := digits value.toNat (by omega)
    omega

/-! ## The names of anonymous devices -/

/-- "blk" and the number that an `int` holds. -/
def blkName (index : Int) : CStr := [0x62, 0x6c, 0x6b] ++ decimal (wrapInt index)

theorem blkName_valid (index : Int) : vfsNameValid (blkName index) = true := by
  refine vfsNameValid_iff.mpr ⟨List.cons_ne_nil _ _, fun member => ?_⟩
  rcases List.mem_append.mp member with front | number
  · exact absurd front (by decide)
  · rcases mem_decimal number with sign | ⟨low, -⟩
    · exact absurd sign (by decide)
    · exact absurd low (by decide)

theorem blkName_ne_mntName (index : Int) : blkName index ≠ mntName := by
  intro same
  exact absurd (List.cons.inj same).1 (by decide)

/-- The name of an anonymous device is printed whole, also for a negative counter. -/
theorem printed_blk (strings : BitVec 64 → Text) (index : Int) :
    ∃ name, printed strings 16 blkFormat (fun _ => BitVec.ofInt 64 index) = some name ∧
      name.chars = blkName index ∧ name.chars.length < 23 := by
  have scanned : directives strings (fun _ => BitVec.ofInt 64 index) 0 0 blkFormat.chars =
    some [.literal 0x62, .literal 0x6c, .literal 0x6b,
      .number ⟨false, false, false, 0⟩ (vaInt (BitVec.ofInt 64 index)) 10 true 0x30] := rfl
  have chars : allChars [.literal 0x62, .literal 0x6c, .literal 0x6b,
      .number ⟨false, false, false, 0⟩ (vaInt (BitVec.ofInt 64 index)) 10 true 0x30] =
      blkName index := by
    simp only [allChars, List.flatMap_cons, List.flatMap_nil, Directive.chars, printi_decimal,
      vaInt_toInt, List.append_nil]
    rfl
  obtain ⟨low, high⟩ := wrapInt_range index
  have short : (blkName index).length ≤ 14 := by
    have digits := decimal_short low high
    rw [blkName, List.length_append]
    simp only [List.length_cons, List.length_nil]
    omega
  obtain ⟨name, done, isChars⟩ := printed_eq 16 scanned
    (by rw [chars]; exact List.cons_ne_nil _ _) (by rw [chars]; omega)
  rw [chars] at isChars
  exact ⟨name, done, isChars, by rw [isChars]; omega⟩

theorem blkName_injective {index other : Int} (same : blkName index = blkName other) :
    wrapInt index = wrapInt other :=
  decimal_injective (List.append_cancel_left same)

/-- Two numbers wrap to the same `int` if they differ by a multiple of 2^32. -/
theorem wrapInt_eq_iff {value other : Int} :
    wrapInt value = wrapInt other ↔ value % 2 ^ 32 = other % 2 ^ 32 := by
  constructor
  · intro same
    have residue := congrArg (· % ((2 ^ 32 : Nat) : Int)) same
    simp only [wrapInt, Int.bmod_emod] at residue
    exact_mod_cast residue
  · intro same
    have wrap (value : Int) : wrapInt value = (value % ((2 ^ 32 : Nat) : Int)).bmod (2 ^ 32) :=
      Int.emod_bmod value (2 ^ 32) |>.symm
    rw [wrap value, wrap other]
    exact congrArg (Int.bmod · (2 ^ 32)) same

theorem blkName_congr {index other : Int} (same : wrapInt index = wrapInt other) :
    blkName index = blkName other := by
  rw [blkName, blkName, same]

theorem blkName_eq_iff {index other : Int} :
    blkName index = blkName other ↔ index % 2 ^ 32 = other % 2 ^ 32 := by
  rw [← wrapInt_eq_iff]
  exact ⟨blkName_injective, blkName_congr⟩

/-! ## Places -/

theorem pathNames_mntPath (aliasName : CStr) :
    pathNames (mntPath aliasName) = mntName :: namesOf aliasName :=
  namesOf_name aliasName (show slash ∉ mntName by decide)

theorem segments_mntPath (aliasName : CStr) :
    segments (mntPath aliasName) = mntName :: segments aliasName := by
  rw [mntPath, segments_slash]
  exact segments_append aliasName (List.cons_ne_nil _ _) (by decide)

theorem slashes_mntPath (aliasName : CStr) :
    [slash, slash] <:+: mntPath aliasName ↔ [slash, slash] <:+: slash :: aliasName := by
  rw [mntPath, List.infix_cons_iff, slashes_behind (show slash ∉ mntName by decide)]
  refine or_iff_right fun starts => ?_
  exact absurd (List.cons_prefix_cons.mp (List.cons_prefix_cons.mp starts).2).1 (by decide)

/-- Neither place is on the way to the other. -/
def Apart (names names' : List CStr) : Prop := ¬names <+: names' ∧ ¬names' <+: names

theorem apart_cons {name : CStr} {names names' : List CStr} :
    Apart (name :: names) (name :: names') ↔ Apart names names' := by
  simp only [Apart, List.cons_prefix_cons, true_and]

theorem apart_head {name name' : CStr} (ne : name ≠ name') (names names' : List CStr) :
    Apart (name :: names) (name' :: names') :=
  ⟨fun isPrefix => ne (List.cons_prefix_cons.mp isPrefix).1,
    fun isPrefix => ne (List.cons_prefix_cons.mp isPrefix).1.symm⟩

instance : Std.Symm Apart := ⟨fun _ _ apart => ⟨apart.2, apart.1⟩⟩

/-- Where the device is mounted, by its alias or by its number among the anonymous ones. -/
def Blkdev.place (blkdev : Blkdev π) (anon : Nat) : List CStr :=
  if blkdev.aliasText.chars ≠ [] then pathNames (mntPath blkdev.aliasText.chars)
  else [blkName anon]

/-- The number of the next anonymous device once the device is mounted. -/
def Blkdev.next (blkdev : Blkdev π) (anon : Nat) : Nat :=
  if blkdev.aliasText.chars ≠ [] then anon else anon + 1

/-- The places of the recognised devices, from a number on. -/
def recognisedPlaces (accepted : π → Bool) : Nat → List (Blkdev π) → List (List CStr)
  | _, [] => []
  | anon, blkdev :: rest =>
      if accepted blkdev.pointer then
        blkdev.place anon :: recognisedPlaces accepted (blkdev.next anon) rest
      else recognisedPlaces accepted anon rest

/-- The recognised devices with an alias. -/
def namedDevices (accepted : π → Bool) (devices : List (Blkdev π)) : List (Blkdev π) :=
  devices.filter fun blkdev => accepted blkdev.pointer ∧ blkdev.aliasText.chars ≠ []

/-- The recognised devices without one. -/
def anonDevices (accepted : π → Bool) (devices : List (Blkdev π)) : List (Blkdev π) :=
  devices.filter fun blkdev => accepted blkdev.pointer ∧ blkdev.aliasText.chars = []

/-- What it takes to give every recognised device a place of its own: no alias begins with a
slash or has two of them in a row, no alias is on the way to another one or the same, and there
are no more anonymous devices than numbers. -/
structure Placeable (accepted : π → Bool) (devices : List (Blkdev π)) : Prop where
  slashes : ∀ blkdev ∈ namedDevices accepted devices,
    ¬[slash, slash] <:+: slash :: blkdev.aliasText.chars
  aliases : (namedDevices accepted devices).Pairwise fun blkdev blkdev' =>
    Apart (namesOf blkdev.aliasText.chars) (namesOf blkdev'.aliasText.chars)
  numbers : (anonDevices accepted devices).length ≤ 2 ^ 32

variable {accepted : π → Bool} {devices : List (Blkdev π)}

theorem namedDevices_cons (blkdev : Blkdev π) :
    namedDevices accepted (blkdev :: devices) =
      if accepted blkdev.pointer = true ∧ blkdev.aliasText.chars ≠ []
        then blkdev :: namedDevices accepted devices else namedDevices accepted devices := by
  simp only [namedDevices, List.filter_cons, decide_eq_true_eq]

theorem anonDevices_cons (blkdev : Blkdev π) :
    anonDevices accepted (blkdev :: devices) =
      if accepted blkdev.pointer = true ∧ blkdev.aliasText.chars = []
        then blkdev :: anonDevices accepted devices else anonDevices accepted devices := by
  simp only [anonDevices, List.filter_cons, decide_eq_true_eq]

/-- The places are those of the aliases and the first numbers from the counter on. -/
theorem mem_recognisedPlaces {anon : Nat} {names : List CStr} :
    names ∈ recognisedPlaces accepted anon devices ↔
      (∃ blkdev ∈ namedDevices accepted devices,
        names = mntName :: namesOf blkdev.aliasText.chars) ∨
      ∃ i < (anonDevices accepted devices).length, names = [blkName (anon + i)] := by
  induction devices generalizing anon with
  | nil => simp [recognisedPlaces, namedDevices, anonDevices]
  | cons blkdev devices ih =>
      rw [recognisedPlaces, namedDevices_cons, anonDevices_cons]
      by_cases isAccepted : accepted blkdev.pointer = true
      · by_cases named : blkdev.aliasText.chars = []
        · simp only [isAccepted, named, Blkdev.place, Blkdev.next, List.mem_cons, ih, if_true,
            ne_eq, not_true_eq_false, and_false, and_true, if_false, List.length_cons]
          rw [or_left_comm]
          apply or_congr_right
          constructor
          · rintro (rfl | ⟨i, less, rfl⟩)
            · exact ⟨0, Nat.succ_pos _, by simp⟩
            · exact ⟨i + 1, Nat.succ_lt_succ less, by rw [Nat.cast_succ, Nat.cast_succ]; ring_nf⟩
          · rintro ⟨i, less, rfl⟩
            cases i with
            | zero => exact Or.inl (by simp)
            | succ i =>
                refine Or.inr ⟨i, Nat.lt_of_succ_lt_succ less, ?_⟩
                rw [Nat.cast_succ, Nat.cast_succ]
                ring_nf
        · simp only [isAccepted, named, Blkdev.place, Blkdev.next, List.mem_cons, ih, if_true,
            ne_eq, not_false_eq_true, and_self, and_false, if_false, pathNames_mntPath,
            exists_eq_or_imp, or_assoc]
      · simp only [isAccepted, Bool.false_eq_true, false_and, if_false, ih]

/-- A number is used again after 2 ^ 32 devices. -/
theorem anon_apart_iff {anon : Nat} :
    (∀ names ∈ recognisedPlaces accepted (anon + 1) devices, Apart [blkName anon] names) ∧
        (anonDevices accepted devices).length ≤ 2 ^ 32 ↔
      (anonDevices accepted devices).length + 1 ≤ 2 ^ 32 := by
  constructor
  · rintro ⟨all, le⟩
    by_contra full
    have member (i : Nat) (less : i < (anonDevices accepted devices).length) :
        [blkName ((anon + 1 : Nat) + i)] ∈ recognisedPlaces accepted (anon + 1) devices :=
      mem_recognisedPlaces.mpr (Or.inr ⟨i, less, rfl⟩)
    obtain ⟨last, isLast⟩ : ∃ last, last + 1 = 2 ^ 32 := ⟨_, Nat.sub_add_cancel Nat.one_le_two_pow⟩
    have same : blkName anon = blkName ((anon + 1 : Nat) + last) :=
      blkName_eq_iff.mpr (by push_cast; omega)
    exact (all _ (member last (by omega))).1 (List.cons_prefix_cons.mpr ⟨same, List.nil_prefix⟩)
  · intro le
    refine ⟨fun names member => ?_, by omega⟩
    rcases mem_recognisedPlaces.mp member with ⟨blkdev, -, rfl⟩ | ⟨i, less, rfl⟩
    · exact apart_head (blkName_ne_mntName _) _ _
    · refine apart_head (fun same => ?_) _ _
      have residue := blkName_eq_iff.mp same
      push_cast at residue
      omega

/-- Behind /mnt a place is apart from all others if it is apart from the other aliases. -/
theorem named_apart_iff {anon : Nat} {names : List CStr} :
    (∀ names' ∈ recognisedPlaces accepted anon devices, Apart (mntName :: names) names') ↔
      ∀ blkdev ∈ namedDevices accepted devices, Apart names (namesOf blkdev.aliasText.chars) := by
  constructor
  · intro all blkdev member
    exact apart_cons.mp (all _ (mem_recognisedPlaces.mpr (Or.inl ⟨blkdev, member, rfl⟩)))
  · intro all names' member
    rcases mem_recognisedPlaces.mp member with ⟨blkdev, isDevice, rfl⟩ | ⟨i, -, rfl⟩
    · exact apart_cons.mpr (all blkdev isDevice)
    · exact apart_head (blkName_ne_mntName _).symm _ _

/-- The places of the recognised devices are apart under the condition. -/
theorem pairwise_recognisedPlaces {anon : Nat} :
    (recognisedPlaces accepted anon devices).Pairwise Apart ↔
      ((namedDevices accepted devices).Pairwise fun blkdev blkdev' =>
        Apart (namesOf blkdev.aliasText.chars) (namesOf blkdev'.aliasText.chars)) ∧
      (anonDevices accepted devices).length ≤ 2 ^ 32 := by
  induction devices generalizing anon with
  | nil => simp [recognisedPlaces, namedDevices, anonDevices]
  | cons blkdev devices ih =>
      rw [recognisedPlaces, namedDevices_cons, anonDevices_cons]
      by_cases isAccepted : accepted blkdev.pointer = true
      · by_cases named : blkdev.aliasText.chars = []
        · simp only [isAccepted, named, Blkdev.place, Blkdev.next, if_true,
            ne_eq, not_true_eq_false, and_false, and_true, if_false, List.length_cons,
            List.pairwise_cons, ih]
          rw [and_left_comm, anon_apart_iff]
        · simp only [isAccepted, named, Blkdev.place, Blkdev.next, if_true,
            ne_eq, not_false_eq_true, and_self, and_false, if_false, pathNames_mntPath,
            List.pairwise_cons, ih, and_assoc]
          rw [named_apart_iff]
      · simp only [isAccepted, Bool.false_eq_true, false_and, if_false, ih]

end Zsbl.Fs
