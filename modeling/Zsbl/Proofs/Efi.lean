/-
Module: Zsbl.Proofs.Efi
Purpose: The walks over EFI variables come back without leaving the readable bytes
  exactly where the headers form a chain and the names end in time.
Trusted boundary: none
Main exports:
  following, link, efiVariableNext_entered, listFrom_iff, findFrom_iff, findFrom_result
-/
import Zsbl.Lib.Chain
import Zsbl.Libs.Efi

namespace Zsbl.Libs

open Zsbl.Lib

variable {readable : Nat → Bool} {vz : EfiVariableZone} {var : EfiVariable}

/-! ## Fields -/

theorem peek_lt (memory : Memory) (offset size : Nat) :
    peek memory offset size < 256 ^ size := by
  have lt := le_lt (fetch memory offset size)
  rwa [length_fetch] at lt

theorem efiRead_eq (offset size : Nat) :
    efiRead readable vz offset size =
      if Readable readable offset size then some (peek vz.memory offset size) else none := by
  unfold efiRead fetchIf
  split
  · rfl
  · rfl

/-- What `efi_variable_name_size` and `efi_variable_data_size` return. -/
def EfiVariableZone.nameSize (vz : EfiVariableZone) (var : EfiVariable) : Nat :=
  peek vz.memory var.sizesAt 4

def EfiVariableZone.dataSize (vz : EfiVariableZone) (var : EfiVariable) : Nat :=
  peek vz.memory (var.sizesAt + 4) 4

/-- The status of a variable is one of the two that count. -/
def Added (vz : EfiVariableZone) (var : EfiVariable) : Prop :=
  peek vz.memory (var.header + 2) 1 = VAR_ADDED ∨
    peek vz.memory (var.header + 2) 1 = VAR_IN_DELETED_TRANSITION &&& VAR_ADDED

instance (vz : EfiVariableZone) (var : EfiVariable) : Decidable (Added vz var) :=
  inferInstanceAs (Decidable (_ ∨ _))

/-- The sizes are added in 32 bits. -/
theorem efiVariableSize_eq :
    efiVariableSize readable vz var =
      if Readable readable var.sizesAt 8 then
        some ((var.headerSize + vz.nameSize var + vz.dataSize var) % 2 ^ 32)
      else none := by
  have both := readable_append readable var.sizesAt 4 4
  unfold efiVariableSize efiVariableNameSize efiVariableDataSize
  rw [efiRead_eq, efiRead_eq]
  by_cases low : Readable readable var.sizesAt 4
  · by_cases high : Readable readable (var.sizesAt + 4) 4
    · rw [if_pos low, if_pos high, if_pos (both.mpr ⟨low, high⟩)]
      simp [EfiVariableZone.nameSize, EfiVariableZone.dataSize, Nat.mod_add_mod]
    · rw [if_pos low, if_neg high, if_neg fun all => high (both.mp all).2]
      rfl
  · rw [if_neg low, if_neg fun all => low (both.mp all).1]
    rfl

theorem efiVariableAdded_eq :
    efiVariableAdded readable vz var =
      if Readable readable (var.header + 2) 1 then some (decide (Added vz var)) else none := by
  unfold efiVariableAdded efiVariableStatus Added
  rw [efiRead_eq]
  split
  · rfl
  · rfl

/-! ## Names -/

/-- So many characters of a name. -/
def EfiVariableZone.chars (vz : EfiVariableZone) : Nat → Nat → List UInt16
  | _, 0 => []
  | offset, count + 1 =>
      UInt16.ofNat (peek vz.memory offset 2) :: vz.chars (offset + 2) count

/-- A character is 0 if its two bytes are. -/
theorem ofNat_peek_eq_zero (offset : Nat) :
    UInt16.ofNat (peek vz.memory offset 2) = 0 ↔ peek vz.memory offset 2 = 0 := by
  have lt := peek_lt vz.memory offset 2
  constructor
  · intro zero
    have toNat := congrArg UInt16.toNat zero
    rw [UInt16.toNat_ofNat', Nat.mod_eq_of_lt (by simpa using lt)] at toNat
    exact toNat
  · intro zero
    rw [zero]
    rfl

/-- `wputs` reads up to the first NUL, or one character more than it shows. -/
theorem wputs_isSome (offset left : Nat) :
    (wputs readable vz offset left).isSome ↔
      ∀ i ≤ left, 0 ∉ vz.chars offset i → Readable readable (offset + 2 * i) 2 := by
  induction left generalizing offset with
  | zero =>
      simp only [wputs, efiRead_eq]
      by_cases inside : Readable readable offset 2
      · simp [inside, EfiVariableZone.chars]
      · simp [inside, EfiVariableZone.chars]
  | succ left ih =>
      have split : (∀ i ≤ left + 1, 0 ∉ vz.chars offset i →
            Readable readable (offset + 2 * i) 2) ↔
          Readable readable offset 2 ∧ (UInt16.ofNat (peek vz.memory offset 2) ≠ 0 →
            ∀ i ≤ left, 0 ∉ vz.chars (offset + 2) i →
              Readable readable (offset + 2 + 2 * i) 2) := by
        constructor
        · intro all
          constructor
          · exact all 0 (Nat.zero_le _) (by simp [EfiVariableZone.chars])
          · intro nonzero i le noNul
            have there := all (i + 1) (Nat.succ_le_succ le)
              (by simpa [EfiVariableZone.chars, nonzero.symm] using noNul)
            rwa [Nat.mul_add, Nat.mul_one, Nat.add_comm (2 * i), ← Nat.add_assoc] at there
        · rintro ⟨first, rest⟩ i le noNul
          cases i with
          | zero => exact first
          | succ i =>
              simp only [EfiVariableZone.chars, List.mem_cons, not_or] at noNul
              have there := rest (Ne.symm noNul.1) i (Nat.le_of_succ_le_succ le) noNul.2
              rwa [Nat.mul_add, Nat.mul_one, Nat.add_comm (2 * i), ← Nat.add_assoc]
      rw [split, ← ih]
      simp only [wputs, efiRead_eq]
      by_cases inside : Readable readable offset 2
      · by_cases zero : peek vz.memory offset 2 = 0
        · simp [inside, zero]
        · have nonzero : UInt16.ofNat (peek vz.memory offset 2) ≠ 0 := fun isZero =>
            zero ((ofNat_peek_eq_zero offset).mp isZero)
          simp [inside, zero, nonzero]
          cases wputs readable vz (offset + 2) left <;> rfl
      · simp [inside]

theorem differ_of_ne {char other : UInt16} (ne : other ≠ char) : char - other ≠ 0 := by
  rw [Ne, UInt16.sub_eq_iff_eq_add, UInt16.zero_add]
  exact Ne.symm ne

/-- `wcscmp` reads up to the first difference, and the NUL behind equal characters. -/
theorem wcscmp_isSome (name : List UInt16) (offset : Nat) :
    (wcscmp readable vz name offset).isSome ↔
      ∀ i ≤ name.length, vz.chars offset i = name.take i →
        Readable readable (offset + 2 * i) 2 := by
  induction name generalizing offset with
  | nil =>
      simp only [wcscmp, efiRead_eq]
      by_cases inside : Readable readable offset 2
      · simp [inside, EfiVariableZone.chars]
      · simp [inside, EfiVariableZone.chars]
  | cons char name ih =>
      have split : (∀ i ≤ (char :: name).length, vz.chars offset i = (char :: name).take i →
            Readable readable (offset + 2 * i) 2) ↔
          Readable readable offset 2 ∧ (UInt16.ofNat (peek vz.memory offset 2) = char →
            ∀ i ≤ name.length, vz.chars (offset + 2) i = name.take i →
              Readable readable (offset + 2 + 2 * i) 2) := by
        constructor
        · intro all
          constructor
          · exact all 0 (Nat.zero_le _) (by simp [EfiVariableZone.chars])
          · intro same i le taken
            have there := all (i + 1) (Nat.succ_le_succ le)
              (by simp [EfiVariableZone.chars, same, taken])
            rwa [Nat.mul_add, Nat.mul_one, Nat.add_comm (2 * i), ← Nat.add_assoc] at there
        · rintro ⟨first, rest⟩ i le taken
          cases i with
          | zero => exact first
          | succ i =>
              simp only [EfiVariableZone.chars, List.take_succ_cons, List.cons.injEq] at taken
              have there := rest taken.1 i (Nat.le_of_succ_le_succ le) taken.2
              rwa [Nat.mul_add, Nat.mul_one, Nat.add_comm (2 * i), ← Nat.add_assoc]
      rw [split, ← ih]
      simp only [wcscmp, efiRead_eq]
      by_cases inside : Readable readable offset 2
      · by_cases same : UInt16.ofNat (peek vz.memory offset 2) = char
        · simp [inside, same]
        · have differ : char - UInt16.ofNat (peek vz.memory offset 2) ≠ 0 :=
          differ_of_ne same
          simp [inside, same, differ]
      · simp [inside]

/-- The names are equal exactly if the characters are those of the name and its NUL. -/
theorem wcscmp_eq_zero {name : List UInt16} {offset : Nat} {order : Int}
    (compared : wcscmp readable vz name offset = some order) :
    order = 0 ↔ vz.chars offset (name.length + 1) = name ++ [0] := by
  induction name generalizing offset with
  | nil =>
      simp only [wcscmp, efiRead_eq] at compared
      split at compared
      · simp at compared
        simp [EfiVariableZone.chars, ofNat_peek_eq_zero, ← compared]
      · simp at compared
  | cons char name ih =>
      simp only [wcscmp, efiRead_eq] at compared
      split at compared
      · by_cases same : UInt16.ofNat (peek vz.memory offset 2) = char
        · simp [same] at compared
          rw [ih compared]
          simp [EfiVariableZone.chars, same]
        · have differ : char - UInt16.ofNat (peek vz.memory offset 2) ≠ 0 :=
          differ_of_ne same
          have positive : (char - UInt16.ofNat (peek vz.memory offset 2)).toNat ≠ 0 :=
            fun zero => differ (UInt16.toNat_inj.mp zero)
          simp [differ] at compared
          simp [EfiVariableZone.chars, same, ← compared, positive]
      · simp at compared

/-! ## Steps of a walk -/

/-- The variable that starts where the aligned end of this one is. -/
def following (vz : EfiVariableZone) (var : EfiVariable) : EfiVariable :=
  { var with
    header := headerAlign vz.base
      (var.header + (var.headerSize + vz.nameSize var + vz.dataSize var) % 2 ^ 32) }

def IsVariable (vz : EfiVariableZone) (var : EfiVariable) : Prop :=
  peek vz.memory var.header 2 = VARIABLE_DATA

instance (vz : EfiVariableZone) (var : EfiVariable) : Decidable (IsVariable vz var) :=
  inferInstanceAs (Decidable (_ = _))

/-- The variable a walk starts with, where there is one. -/
def entry (readable : Nat → Bool) (vz : EfiVariableZone) : Option (Option EfiVariable) :=
  let var := ⟨vz.auth, vz.var⟩
  if Readable readable var.header 2 then some (if IsVariable vz var then some var else none)
  else none

/-- The variable behind another one, where there is one. -/
def link (readable : Nat → Bool) (vz : EfiVariableZone) (var : EfiVariable) :
    Option (Option EfiVariable) :=
  let next := following vz var
  if Readable readable var.sizesAt 8 ∧ Readable readable next.header 2 then
    some (if IsVariable vz next ∧ next.header < vz.stop then some next else none)
  else none

/-- What the two functions return for it. -/
inductive Entered : Option (Option EfiVariable) → Option (Int × EfiVariable) → Prop where
  | fault : Entered none none
  | last (var : EfiVariable) : Entered (some none) (some (- ENOENT, var))
  | found (var : EfiVariable) : Entered (some (some var)) (some (0, var))

theorem efiVariableValid_eq :
    efiVariableValid readable vz var =
      if Readable readable var.header 2 then some (decide (IsVariable vz var)) else none := by
  unfold efiVariableValid efiVariableId IsVariable
  rw [efiRead_eq]
  split
  · rfl
  · rfl

/-- The first call enters the walk. -/
theorem efiVariableFirst_entered :
    Entered (entry readable vz) (efiVariableFirst readable vz) := by
  unfold entry efiVariableFirst
  simp only [efiVariableValid_eq]
  by_cases inside : Readable readable vz.var 2
  · by_cases valid : IsVariable vz ⟨vz.auth, vz.var⟩
    · simpa [inside, valid] using Entered.found ⟨vz.auth, vz.var⟩
    · simpa [inside, valid] using Entered.last ⟨vz.auth, vz.var⟩
  · simpa [inside] using Entered.fault

/-- The next header is tested before the end of the store. -/
theorem efiVariableNext_eq (sizes : Readable readable var.sizesAt 8) :
    efiVariableNext readable vz var =
      (efiVariableValid readable vz (following vz var)).bind fun valid =>
        if !valid then some (- ENOENT, following vz var)
        else if vz.stop ≤ (following vz var).header then some (- ENOENT, following vz var)
        else some (0, following vz var) := by
  unfold efiVariableNext
  rw [efiVariableSize_eq, if_pos sizes]
  rfl

/-- A further call takes a step of the walk. -/
theorem efiVariableNext_entered (var : EfiVariable) :
    Entered (link readable vz var) (efiVariableNext readable vz var) := by
  unfold link
  by_cases sizes : Readable readable var.sizesAt 8
  · rw [efiVariableNext_eq sizes, efiVariableValid_eq]
    by_cases inside : Readable readable (following vz var).header 2
    · by_cases valid : IsVariable vz (following vz var)
      · by_cases before : (following vz var).header < vz.stop
        · have notEnd : ¬ vz.stop ≤ (following vz var).header := Nat.not_le.mpr before
          simpa [sizes, inside, valid, before, notEnd] using Entered.found (following vz var)
        · have atEnd : vz.stop ≤ (following vz var).header := Nat.le_of_not_lt before
          simpa [sizes, inside, valid, before, atEnd] using Entered.last (following vz var)
      · simpa [sizes, inside, valid] using Entered.last (following vz var)
    · simpa [inside] using Entered.fault
  · have noSize : efiVariableNext readable vz var = none := by
      unfold efiVariableNext
      rw [efiVariableSize_eq, if_neg sizes]
      rfl
    simpa [noSize, sizes] using Entered.fault

/-- A step of the walk is one of the code. -/
theorem next_of_link {next : Option EfiVariable} (linked : link readable vz var = some next) :
    ∃ result, efiVariableNext readable vz var = some result ∧
      Entered (some next) (some result) := by
  have entered : Entered (link readable vz var) (efiVariableNext readable vz var) :=
    efiVariableNext_entered var
  rw [linked] at entered
  cases returns : efiVariableNext readable vz var with
  | none =>
      rw [returns] at entered
      cases entered
  | some result =>
      rw [returns] at entered
      exact ⟨result, rfl, entered⟩

/-- A step of the code is one of the walk. -/
theorem link_of_next {result : Int × EfiVariable}
    (returns : efiVariableNext readable vz var = some result) :
    ∃ next, link readable vz var = some next ∧ Entered (some next) (some result) := by
  have entered : Entered (link readable vz var) (efiVariableNext readable vz var) :=
    efiVariableNext_entered var
  rw [returns] at entered
  cases linked : link readable vz var with
  | none =>
      rw [linked] at entered
      cases entered
  | some next =>
      rw [linked] at entered
      exact ⟨next, rfl, entered⟩

/-! ## List -/

/-- `efi_show_variable` only reads readable bytes. -/
@[mk_iff]
structure ShowFits (readable : Nat → Bool) (vz : EfiVariableZone) (var : EfiVariable) :
    Prop where
  sizes : Readable readable var.sizesAt 8
  vendorGuid : Readable readable (efiVariableVendorGuid var) 16
  attr : Readable readable (var.header + 4) 4
  name : ∀ i ≤ vz.nameSize var / 2, 0 ∉ vz.chars (efiVariableName var) i →
    Readable readable (efiVariableName var + 2 * i) 2

/-- What a visit of `efi_list_variables` reads, without the step to the next one. -/
structure ListFits (readable : Nat → Bool) (vz : EfiVariableZone) (var : EfiVariable) :
    Prop where
  status : Readable readable (var.header + 2) 1
  shown : Added vz var → ShowFits readable vz var

/-- A variable is shown without leaving the store exactly if its fields fit. -/
theorem efiShowVariable_isSome (status : Readable readable (var.header + 2) 1) :
    (efiShowVariable readable vz var).isSome ↔ ShowFits readable vz var := by
  have both := readable_append readable var.sizesAt 4 4
  have name := @wputs_isSome readable vz (efiVariableName var)
    (peek vz.memory var.sizesAt 4 / 2)
  rw [showFits_iff]
  unfold efiShowVariable efiVariableNameSize efiVariableDataSize efiVariableAttr
    efiVariableStatus fetchIf EfiVariableZone.nameSize
  simp only [efiRead_eq]
  rw [both, ← name]
  by_cases low : Readable readable var.sizesAt 4
  · by_cases high : Readable readable (var.sizesAt + 4) 4
    · by_cases vendorGuid : Readable readable (efiVariableVendorGuid var) 16
      · by_cases attr : Readable readable (var.header + 4) 4
        · cases shows : wputs readable vz (efiVariableName var)
              (peek vz.memory var.sizesAt 4 / 2) with
          | none => simp [low, high, vendorGuid, shows]
          | some shown => simp [low, high, vendorGuid, attr, status, shows]
        · cases shows : wputs readable vz (efiVariableName var)
              (peek vz.memory var.sizesAt 4 / 2) with
          | none => simp [low, high, vendorGuid, shows]
          | some shown => simp [low, high, vendorGuid, attr]
      · simp [low, high, vendorGuid]
    · simp [low, high]
  · simp [low]

/-- A round of the listing shows the variable and goes on. -/
theorem listFrom_succ (fuel i : Nat) :
    (listFrom readable vz (fuel + 1) i (0, var)).isSome ↔
      ListFits readable vz var ∧ ∃ result, efiVariableNext readable vz var = some result ∧
        (listFrom readable vz fuel (i + 1) result).isSome := by
  have goesOn (here : List (Nat × ShownVariable)) :
      ((efiVariableNext readable vz var).bind fun result =>
        (listFrom readable vz fuel (i + 1) result).bind fun rest => some (here ++ rest)).isSome ↔
      ∃ result, efiVariableNext readable vz var = some result ∧
        (listFrom readable vz fuel (i + 1) result).isSome := by
    cases efiVariableNext readable vz var with
    | none => simp
    | some result =>
        cases rest : listFrom readable vz fuel (i + 1) result with
        | none => simp [rest]
        | some shown => simp [rest]
  simp only [listFrom, efiVariableAdded_eq]
  by_cases status : Readable readable (var.header + 2) 1
  · by_cases added : Added vz var
    · have shows : (efiShowVariable readable vz var).isSome ↔ ShowFits readable vz var :=
        efiShowVariable_isSome status
      cases shown : efiShowVariable readable vz var with
      | none =>
          have unfit : ¬ ListFits readable vz var := by
            intro fits
            simpa [shown] using shows.mpr (fits.shown added)
          simp [status, added, unfit]
      | some here =>
          have fits : ListFits readable vz var :=
            ⟨status, fun _ => shows.mp (by simp [shown])⟩
          simpa [status, added, fits] using goesOn [(i, here)]
    · have fits : ListFits readable vz var := ⟨status, fun isAdded => absurd isAdded added⟩
      simpa [status, added, fits] using goesOn []
  · have unfit : ¬ ListFits readable vz var := fun fits => status fits.status
    simp [status, unfit]

/-- The list comes back exactly where the variables from here on form a chain, and
each of them can be shown. -/
theorem listFrom_iff {start : Option EfiVariable} {result : Int × EfiVariable}
    (entered : Entered (some start) (some result)) (i : Nat) :
    (∃ fuel, (listFrom readable vz fuel i result).isSome) ↔
      ∃ vars, Chain (link readable vz) start vars ∧ ∀ var ∈ vars, ListFits readable vz var := by
  constructor
  · rintro ⟨fuel, lists⟩
    induction fuel generalizing i start result with
    | zero => cases lists
    | succ fuel ih =>
        cases entered with
        | last var => exact ⟨[], .nil, by simp⟩
        | found var =>
            obtain ⟨fits, result, next, rest⟩ := (listFrom_succ fuel i).mp lists
            obtain ⟨start, linked, entered⟩ := link_of_next next
            obtain ⟨vars, chain, all⟩ := ih entered (i + 1) rest
            exact ⟨var :: vars, .cons linked chain, List.forall_mem_cons.mpr ⟨fits, all⟩⟩
  · rintro ⟨vars, chain, fits⟩
    induction chain generalizing i result with
    | nil =>
        cases entered with
        | last var => exact ⟨1, rfl⟩
    | @cons var next rest linked tail ih =>
        cases entered with
        | found _ =>
            obtain ⟨here, behind⟩ := List.forall_mem_cons.mp fits
            obtain ⟨result, returns, entered⟩ := next_of_link linked
            obtain ⟨fuel, lists⟩ := ih entered (i + 1) behind
            exact ⟨fuel + 1, (listFrom_succ fuel i).mpr ⟨here, result, returns, lists⟩⟩

/-! ## Find -/

/-- The variable has this name, and its vendor this identifier. -/
structure Matches (vz : EfiVariableZone) (vendorGuid : EfiGuid) (name : WStr)
    (var : EfiVariable) : Prop where
  guid : fetch vz.memory (efiVariableVendorGuid var) 16 = vendorGuid.bytes
  name : vz.chars (efiVariableName var) (name.chars.length + 1) = name.chars ++ [0]

instance (vz : EfiVariableZone) (vendorGuid : EfiGuid) (name : WStr) (var : EfiVariable) :
    Decidable (Matches vz vendorGuid name var) :=
  decidable_of_iff (_ ∧ _) ⟨fun both => ⟨both.1, both.2⟩, fun both => ⟨both.guid, both.name⟩⟩

/-- `efi_vz_find_variable` returns it, where it comes to it. -/
def Wanted (vz : EfiVariableZone) (vendorGuid : EfiGuid) (name : WStr)
    (var : EfiVariable) : Prop :=
  Added vz var ∧ Matches vz vendorGuid name var

instance (vz : EfiVariableZone) (vendorGuid : EfiGuid) (name : WStr) (var : EfiVariable) :
    Decidable (Wanted vz vendorGuid name var) :=
  inferInstanceAs (Decidable (_ ∧ _))

/-- `wcscmp` only reads readable bytes: it stops at the first difference. -/
def NameFits (readable : Nat → Bool) (vz : EfiVariableZone) (name : WStr)
    (var : EfiVariable) : Prop :=
  ∀ i ≤ name.chars.length, vz.chars (efiVariableName var) i = name.chars.take i →
    Readable readable (efiVariableName var + 2 * i) 2

/-- What the tests of `efi_vz_find_variable` read. -/
structure FindFits (readable : Nat → Bool) (vz : EfiVariableZone) (vendorGuid : EfiGuid)
    (name : WStr) (var : EfiVariable) : Prop where
  status : Readable readable (var.header + 2) 1
  guid : Added vz var → Readable readable (efiVariableVendorGuid var) 16
  name : Added vz var →
    fetch vz.memory (efiVariableVendorGuid var) 16 = vendorGuid.bytes →
    NameFits readable vz name var

theorem EfiGuid.length_bytes (guid : EfiGuid) : guid.bytes.length = 16 := by
  simp [EfiGuid.bytes]

variable {vendorGuid : EfiGuid} {name : WStr}

theorem compareGuid_eq_zero (offset : Nat) :
    compareGuid (fetch vz.memory offset 16) vendorGuid.bytes = 0 ↔
      fetch vz.memory offset 16 = vendorGuid.bytes := by
  apply memcmp_eq_zero
  rw [length_fetch, vendorGuid.length_bytes]

/-- The test of a variable stays inside exactly if what it compares is inside. -/
theorem efiVariableFound_isSome :
    (efiVariableFound readable vz vendorGuid name var).isSome ↔
      FindFits readable vz vendorGuid name var := by
  have compares := @wcscmp_isSome readable vz name.chars (efiVariableName var)
  simp only [efiVariableFound, efiVariableAdded_eq, fetchIf]
  by_cases status : Readable readable (var.header + 2) 1
  · by_cases added : Added vz var
    · by_cases guid : Readable readable (efiVariableVendorGuid var) 16
      · by_cases same : fetch vz.memory (efiVariableVendorGuid var) 16 = vendorGuid.bytes
        · have fits : FindFits readable vz vendorGuid name var ↔
              NameFits readable vz name var :=
            ⟨fun all => all.name added same, fun all => ⟨status, fun _ => guid, fun _ _ => all⟩⟩
          rw [fits]
          unfold NameFits
          rw [← compares]
          have equal := (compareGuid_eq_zero (efiVariableVendorGuid var)).mpr same
          cases order : wcscmp readable vz name.chars (efiVariableName var) with
          | none => simp [status, added, guid, equal]
          | some order => simp [status, added, guid, equal]
        · have differ : ¬ compareGuid (fetch vz.memory (efiVariableVendorGuid var) 16)
              vendorGuid.bytes = 0 := fun equal => same ((compareGuid_eq_zero _).mp equal)
          have fits : FindFits readable vz vendorGuid name var :=
            ⟨status, fun _ => guid, fun _ equal => absurd equal same⟩
          simp [status, added, guid, differ, fits]
      · have unfit : ¬ FindFits readable vz vendorGuid name var := fun fits =>
          guid (fits.guid added)
        simp [status, added, guid, unfit]
    · have fits : FindFits readable vz vendorGuid name var :=
        ⟨status, fun isAdded => absurd isAdded added, fun isAdded => absurd isAdded added⟩
      simp [status, added, fits]
  · have unfit : ¬ FindFits readable vz vendorGuid name var := fun fits => status fits.status
    simp [status, unfit]

/-- The test finds the variables that are wanted. -/
theorem efiVariableFound_eq_some {found : Bool}
    (tests : efiVariableFound readable vz vendorGuid name var = some found) :
    found = true ↔ Wanted vz vendorGuid name var := by
  unfold Wanted
  have fits := efiVariableFound_isSome.mp (Option.isSome_of_eq_some tests)
  simp only [efiVariableFound, efiVariableAdded_eq, if_pos fits.status] at tests
  by_cases added : Added vz var
  · simp only [fetchIf, if_pos (fits.guid added)] at tests
    by_cases same : fetch vz.memory (efiVariableVendorGuid var) 16 = vendorGuid.bytes
    · have equal := (compareGuid_eq_zero (efiVariableVendorGuid var)).mpr same
      cases order : wcscmp readable vz name.chars (efiVariableName var) with
      | none => simp [added, equal, order] at tests
      | some order' =>
          have isZero := wcscmp_eq_zero order
          simp [added, equal, order] at tests
          rw [← tests, decide_eq_true_eq, isZero]
          exact ⟨fun chars => ⟨added, same, chars⟩, fun found => found.2.name⟩
    · have differ : ¬ compareGuid (fetch vz.memory (efiVariableVendorGuid var) 16)
          vendorGuid.bytes = 0 := fun equal => same ((compareGuid_eq_zero _).mp equal)
      simp [added, differ] at tests
      have passed : ¬ Matches vz vendorGuid name var := fun found => same found.guid
      simp [← tests, passed]
  · simp [added] at tests
    simp [← tests, added]

theorem findFrom_fits {fuel : Nat}
    (finds : (findFrom readable vz vendorGuid name (fuel + 1) (0, var)).isSome) :
    FindFits readable vz vendorGuid name var := by
  apply efiVariableFound_isSome.mp
  cases tests : efiVariableFound readable vz vendorGuid name var with
  | none => simp [findFrom, tests] at finds
  | some found => rfl

theorem findFrom_wanted (fits : FindFits readable vz vendorGuid name var)
    (wanted : Wanted vz vendorGuid name var) (fuel : Nat) :
    findFrom readable vz vendorGuid name (fuel + 1) (0, var) = some (0, var) := by
  obtain ⟨found, tests⟩ := Option.isSome_iff_exists.mp (efiVariableFound_isSome.mpr fits)
  have isFound := (efiVariableFound_eq_some tests).mpr wanted
  simp [findFrom, tests, isFound]

/-- A variable that is not wanted is passed. -/
theorem findFrom_passed (fits : FindFits readable vz vendorGuid name var)
    (passed : ¬ Wanted vz vendorGuid name var) (fuel : Nat) :
    findFrom readable vz vendorGuid name (fuel + 1) (0, var) =
      (efiVariableNext readable vz var).bind (findFrom readable vz vendorGuid name fuel) := by
  obtain ⟨found, tests⟩ := Option.isSome_iff_exists.mp (efiVariableFound_isSome.mpr fits)
  have notFound : found = false := by
    apply Bool.eq_false_iff.mpr
    exact fun isFound => passed ((efiVariableFound_eq_some tests).mp isFound)
  simp [findFrom, tests, notFound]

/-- Where the variables form a chain, the search comes back exactly when the tests of
the variables up to the first wanted one only read readable bytes. -/
theorem findFrom_iff {start : Option EfiVariable} {vars : List EfiVariable}
    {result : Int × EfiVariable} (chain : Chain (link readable vz) start vars)
    (entered : Entered (some start) (some result)) :
    (∃ fuel, (findFrom readable vz vendorGuid name fuel result).isSome) ↔
      UpToFirst (Wanted vz vendorGuid name) (FindFits readable vz vendorGuid name) vars := by
  induction chain generalizing result with
  | nil =>
      cases entered with
      | last var =>
          constructor
          · exact fun _ => upToFirst_nil _ _
          · exact fun _ => ⟨1, rfl⟩
  | @cons var next rest linked tail ih =>
      obtain ⟨result', returns, entered'⟩ := next_of_link linked
      cases entered with
      | found _ =>
          rw [upToFirst_cons]
          constructor
          · rintro ⟨fuel, finds⟩
            cases fuel with
            | zero => cases finds
            | succ fuel =>
                have fits := findFrom_fits finds
                constructor
                · exact fits
                · intro passed
                  rw [findFrom_passed fits passed, returns] at finds
                  exact (ih entered').mp ⟨fuel, finds⟩
          · rintro ⟨fits, behind⟩
            by_cases wanted : Wanted vz vendorGuid name var
            · exact ⟨1, by rw [findFrom_wanted fits wanted]; rfl⟩
            · obtain ⟨fuel, finds⟩ := (ih entered').mpr (behind wanted)
              exact ⟨fuel + 1, by rw [findFrom_passed fits wanted, returns]; exact finds⟩

/-- The search returns the first wanted variable, or that there is none. -/
theorem findFrom_result {start : Option EfiVariable} {vars : List EfiVariable}
    {result answer : Int × EfiVariable} {fuel : Nat}
    (chain : Chain (link readable vz) start vars)
    (entered : Entered (some start) (some result))
    (finds : findFrom readable vz vendorGuid name fuel result = some answer) :
    (answer.1 = - ENOENT ∧ vars.find? (Wanted vz vendorGuid name ·) = none) ∨
      ∃ var, answer = (0, var) ∧ vars.find? (Wanted vz vendorGuid name ·) = some var := by
  induction chain generalizing result fuel with
  | nil =>
      cases entered with
      | last var =>
          cases fuel with
          | zero => cases finds
          | succ fuel =>
              cases finds
              exact Or.inl ⟨rfl, rfl⟩
  | @cons var next rest linked tail ih =>
      obtain ⟨result', returns, entered'⟩ := next_of_link linked
      cases entered with
      | found _ =>
          cases fuel with
          | zero => cases finds
          | succ fuel =>
              have fits := findFrom_fits (Option.isSome_of_eq_some finds)
              by_cases wanted : Wanted vz vendorGuid name var
              · rw [findFrom_wanted fits wanted] at finds
                cases finds
                exact Or.inr ⟨var, rfl, List.find?_cons_of_pos (decide_eq_true wanted)⟩
              · rw [findFrom_passed fits wanted, returns] at finds
                rw [List.find?_cons_of_neg (by simpa using wanted)]
                exact ih entered' finds

/-! ## Whole walks -/

/-- The listing returns exactly if the walk ends and all its variables can be shown. -/
theorem efiListVariables_iff :
    (∃ fuel, (efiListVariables readable fuel vz).isSome) ↔
      ∃ start vars, entry readable vz = some start ∧ Chain (link readable vz) start vars ∧
        ∀ var ∈ vars, ListFits readable vz var := by
  have entered : Entered (entry readable vz) (efiVariableFirst readable vz) :=
    efiVariableFirst_entered
  unfold efiListVariables
  cases first : efiVariableFirst readable vz with
  | none =>
      rw [first] at entered
      cases entry : entry readable vz with
      | none => simp
      | some start =>
          rw [entry] at entered
          cases entered
  | some result =>
      rw [first] at entered
      cases entry : entry readable vz with
      | none =>
          rw [entry] at entered
          cases entered
      | some start =>
          rw [entry] at entered
          simpa using listFrom_iff entered 0

/-- Where the walk starts, the first call comes back. -/
theorem first_of_entry {start : Option EfiVariable} (enters : entry readable vz = some start) :
    ∃ result, efiVariableFirst readable vz = some result ∧
      Entered (some start) (some result) := by
  have entered : Entered (entry readable vz) (efiVariableFirst readable vz) :=
    efiVariableFirst_entered
  rw [enters] at entered
  cases returns : efiVariableFirst readable vz with
  | none =>
      rw [returns] at entered
      cases entered
  | some result =>
      rw [returns] at entered
      exact ⟨result, rfl, entered⟩

variable {start : Option EfiVariable} {vars : List EfiVariable}

theorem efiVzFindVariable_iff (enters : entry readable vz = some start)
    (chain : Chain (link readable vz) start vars) :
    (∃ fuel, (efiVzFindVariable readable fuel vz vendorGuid name).isSome) ↔
      UpToFirst (Wanted vz vendorGuid name) (FindFits readable vz vendorGuid name) vars := by
  obtain ⟨result, first, entered⟩ := first_of_entry enters
  rw [← findFrom_iff chain entered]
  simp [efiVzFindVariable, first]

theorem efiVzFindVariable_result {fuel : Nat} {answer : Int × EfiVariable}
    (enters : entry readable vz = some start) (chain : Chain (link readable vz) start vars)
    (finds : efiVzFindVariable readable fuel vz vendorGuid name = some answer) :
    (answer.1 = - ENOENT ∧ vars.find? (Wanted vz vendorGuid name ·) = none) ∨
      ∃ var, answer = (0, var) ∧ vars.find? (Wanted vz vendorGuid name ·) = some var := by
  obtain ⟨result, first, entered⟩ := first_of_entry enters
  apply findFrom_result chain entered
  rwa [efiVzFindVariable, first] at finds

end Zsbl.Libs
