/-
Module: Zsbl.Proofs.EfiWalk
Purpose: For which flash contents the walks over the EFI variables end inside the
  variable store, parse_efi_variable with them.
Trusted boundary: none
Main exports:
  inStore, WalksInside, StoreFits, walksInside_iff, endless_walk
-/
import Zsbl.Plat.Sg2044
import Zsbl.Proofs.EfiStore

namespace Zsbl.Plat.Sg2044

open Zsbl.Lib Zsbl.Libs

/-- The bytes of the store that are in the buffer. -/
def inStore (vz : EfiVariableZone) (offset : Nat) : Bool :=
  vz.var ≤ offset ∧ offset < vz.stop ∧ offset < EFI_VARIABLE_FIRMWARE_VOLUME_SIZE

/-- The walks come back and only read bytes of the store, for this memory from the
buffer on and this address of it. -/
structure WalksInside (memory : Memory) (fv : Nat) (vendorGuid : EfiGuid) (name : WStr) :
    Prop where
  lists : ∀ vz, efiVzInit memory fv = .ok vz →
    ∃ fuel, (efiListVariables (inStore vz) fuel vz).isSome
  finds : ∀ vz, efiVzInit memory fv = .ok vz →
    ∃ fuel, (efiVzFindVariable (inStore vz) fuel vz vendorGuid name).isSome
  parses : ∀ read cfg, 0 ≤ read →
    ∃ fuel, (parseEfiVariable inStore fuel ⟨true, some fv, read, memory⟩ cfg).isSome

/-- The pointer that `parse_efi_variable` copies from. -/
def dataAt (vz : EfiVariableZone) (var : EfiVariable) : Nat :=
  efiVariableName var + vz.nameSize var

/-- From the first header on, each variable has its sizes in the store, and they lead,
32 bits wide and aligned, to a header that starts in the store; this goes on for `vars`
and ends there at another identifier.  The variables that are visited have in the store
what is read of them. -/
def StoreFits (vz : EfiVariableZone) (vendorGuid : EfiGuid) (name : WStr) : Prop :=
  ∃ start vars, entry (inStore vz) vz = some start ∧
    Chain (link (inStore vz) vz) start vars ∧
    (∀ var ∈ vars, ListFits (inStore vz) vz var) ∧
    UpToFirst (Wanted vz vendorGuid name) (FindFits (inStore vz) vz vendorGuid name) vars ∧
    UpToFirst (Wanted vz sophgoVariableGuid rmsVarName)
      (FindFits (inStore vz) vz sophgoVariableGuid rmsVarName) vars ∧
    ∀ var, vars.find? (Wanted vz sophgoVariableGuid rmsVarName ·) = some var →
      Readable (inStore vz) (dataAt vz var) 4

variable {readable : EfiVariableZone → Nat → Bool} {vz : EfiVariableZone}
  {start : Option EfiVariable} {vars : List EfiVariable}

theorem parseEfiVariable_eq {memory : Memory} {fv : Nat} (valid : efiVzInit memory fv = .ok vz)
    {read : Int} (success : 0 ≤ read) (fuel : Nat) (cfg : Config) :
    parseEfiVariable readable fuel ⟨true, some fv, read, memory⟩ cfg =
      (efiVzFindVariable (readable vz) fuel vz sophgoVariableGuid rmsVarName).bind
        (parseFound (readable vz) vz cfg) := by
  have notError : ¬ read < 0 := Int.not_lt.mpr success
  simp only [parseEfiVariable, valid, notError]
  rfl

theorem parseEfiVariable_invalid {memory : Memory} {fv : Nat} {err : Int}
    (invalid : efiVzInit memory fv = .error err) {read : Int} (fuel : Nat) (cfg : Config) :
    (parseEfiVariable readable fuel ⟨true, some fv, read, memory⟩ cfg).isSome := by
  simp only [parseEfiVariable, invalid]
  by_cases failed : read < 0
  · simp [failed]
  · simp [failed]

/-- The copy of the data needs its four bytes inside. -/
theorem parseFound_isSome {var : EfiVariable} (sizes : Readable (readable vz) var.sizesAt 8)
    (cfg : Config) :
    (parseFound (readable vz) vz cfg (0, var)).isSome ↔
      Readable (readable vz) (dataAt vz var) 4 := by
  have nameSize := ((readable_append (readable vz) var.sizesAt 4 4).mp sizes).1
  have data : efiVariableData (readable vz) vz var = some (dataAt vz var) := by
    simp only [efiVariableData, efiVariableNameSize, efiRead_eq, if_pos nameSize]
    rfl
  simp only [parseFound, data, efiRead_eq]
  by_cases inside : Readable (readable vz) (dataAt vz var) 4
  · by_cases zero : peek vz.memory (dataAt vz var) 4 = 0
    · simp [inside, zero]
    · simp [inside, zero]
  · simp [inside]

/-- The variables of a chain have their sizes in the readable bytes. -/
theorem sizes_of_chain {readable : Nat → Bool} (chain : Chain (link readable vz) start vars)
    {var : EfiVariable} (member : var ∈ vars) : Readable readable var.sizesAt 8 := by
  obtain ⟨next, linked⟩ := chain.allocated member
  simp only [link] at linked
  split at linked
  case isTrue inside => exact inside.1
  case isFalse => cases linked

/-- The copy of what was found stays in the store. -/
theorem parseEfiVariable_iff {memory : Memory} {fv : Nat} (valid : efiVzInit memory fv = .ok vz)
    {read : Int} (success : 0 ≤ read) (cfg : Config)
    (enters : entry (readable vz) vz = some start)
    (chain : Chain (link (readable vz) vz) start vars) :
    (∃ fuel, (parseEfiVariable readable fuel ⟨true, some fv, read, memory⟩ cfg).isSome) ↔
      UpToFirst (Wanted vz sophgoVariableGuid rmsVarName)
        (FindFits (readable vz) vz sophgoVariableGuid rmsVarName) vars ∧
      ∀ var, vars.find? (Wanted vz sophgoVariableGuid rmsVarName ·) = some var →
        Readable (readable vz) (dataAt vz var) 4 := by
  have finds := @efiVzFindVariable_iff (readable vz) vz sophgoVariableGuid rmsVarName
    start vars enters chain
  rw [← finds]
  simp only [parseEfiVariable_eq valid success]
  constructor
  · rintro ⟨fuel, parses⟩
    cases found : efiVzFindVariable (readable vz) fuel vz sophgoVariableGuid rmsVarName with
    | none => simp [found] at parses
    | some answer =>
        constructor
        · exact ⟨fuel, by simp [found]⟩
        · intro var isFirst
          rcases efiVzFindVariable_result enters chain found with
            ⟨-, none⟩ | ⟨first, rfl, isFirst'⟩
          · rw [isFirst] at none
            cases none
          · obtain rfl := Option.some.inj (isFirst'.symm.trans isFirst)
            rw [found, Option.bind_some] at parses
            have sizes := sizes_of_chain chain (List.mem_of_find?_eq_some isFirst)
            exact (parseFound_isSome sizes cfg).mp parses
  · rintro ⟨⟨fuel, finds⟩, inside⟩
    obtain ⟨answer, found⟩ := Option.isSome_iff_exists.mp finds
    refine ⟨fuel, ?_⟩
    rw [found, Option.bind_some]
    rcases efiVzFindVariable_result enters chain found with ⟨missing, -⟩ | ⟨var, rfl, isFirst⟩
    · have failed : answer.1 ≠ 0 := by
        rw [missing]
        decide
      simp [parseFound, failed]
    · have sizes := sizes_of_chain chain (List.mem_of_find?_eq_some isFirst)
      exact (parseFound_isSome sizes cfg).mpr (inside var isFirst)

/-- The walks end inside the store exactly for these stores. -/
theorem walksInside_iff (memory : Memory) (fv : Nat) (vendorGuid : EfiGuid) (name : WStr) :
    WalksInside memory fv vendorGuid name ↔
      ∀ vz, efiVzInit memory fv = .ok vz → StoreFits vz vendorGuid name := by
  constructor
  · intro inside vz valid
    obtain ⟨start, vars, enters, chain, listed⟩ :=
      efiListVariables_iff.mp (inside.lists vz valid)
    have finds := (efiVzFindVariable_iff enters chain).mp (inside.finds vz valid)
    have parses := (parseEfiVariable_iff valid (Int.le_refl 0) Config.static enters chain).mp
      (inside.parses 0 Config.static (Int.le_refl 0))
    exact ⟨start, vars, enters, chain, listed, finds, parses⟩
  · intro fits
    constructor
    · intro vz valid
      obtain ⟨start, vars, enters, chain, listed, -⟩ := fits vz valid
      exact efiListVariables_iff.mpr ⟨start, vars, enters, chain, listed⟩
    · intro vz valid
      obtain ⟨start, vars, enters, chain, -, finds, -⟩ := fits vz valid
      exact (efiVzFindVariable_iff enters chain).mpr finds
    · intro read cfg success
      cases valid : efiVzInit memory fv with
      | error err => exact ⟨0, parseEfiVariable_invalid valid 0 cfg⟩
      | ok vz =>
          obtain ⟨start, vars, enters, chain, -, -, parses⟩ := fits vz valid
          exact (parseEfiVariable_iff valid success cfg enters chain).mpr parses

/-! ## A store without an end -/

/-- The sizes of the variable, with its header, are 2^32. -/
def wrappedVariable : List UInt8 :=
  leBytes 2 VARIABLE_DATA ++ [0x7f, 0] ++ leBytes 4 0 ++ leBytes 4 0xffffffe0 ++ leBytes 4 0

def wrappedMemory : Memory := volume wrappedVariable

def wrappedZone : EfiVariableZone := ⟨wrappedMemory, 0, 64, 92, 320, false⟩

/-- A size that wraps around to 0 keeps the walk where it is. -/
theorem endless_walk : ¬ WalksInside wrappedMemory 0 sophgoVariableGuid rmsVarName := by
  intro inside
  have valid : efiVzInit wrappedMemory 0 = .ok wrappedZone := rfl
  obtain ⟨start, vars, enters, chain, -⟩ := efiListVariables_iff.mp (inside.lists _ valid)
  have first : entry (inStore wrappedZone) wrappedZone = some (some ⟨false, 92⟩) := by decide
  have again : link (inStore wrappedZone) wrappedZone ⟨false, 92⟩ = some (some ⟨false, 92⟩) := by
    decide
  obtain rfl := Option.some.inj (enters.symm.trans first)
  cases chain with
  | @cons _ next rest linked tail =>
      obtain rfl := Option.some.inj (again.symm.trans linked)
      have longer := tail.functional (.cons again tail)
      exact absurd (congrArg List.length longer) (by simp)

end Zsbl.Plat.Sg2044
