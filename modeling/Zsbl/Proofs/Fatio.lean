/-
Module: Zsbl.Proofs.Fatio
Purpose: What the table of FAT drives holds, and which calls keep it so.
Trusted boundary: none
Main exports:
  Registry, Keeps, Completed, fatio_registry, failed_mount_dangles
-/
import Zsbl.Libs.Fatio
import Mathlib.Tactic.ByContra

namespace Zsbl.Libs

open Zsbl.Lib

/-! ## The properties -/

/-- Each entry is a live drive with its index as id, and no two live drives have
the same id. -/
structure Registry (s : FatioState) : Prop where
  entries : ∀ (i : Nat) addr, s.fatioList[i]? = some (some addr) →
    ∃ dev, s.devs addr = some dev ∧ dev.id = some i
  distinct : ∀ first second devOne devTwo id, s.devs first = some devOne →
    s.devs second = some devTwo → devOne.id = some id → devTwo.id = some id →
      first = second

def FatioState.Full (s : FatioState) : Prop := none ∉ s.fatioList.toList

def FatioCall.IsMount : FatioCall → Prop
  | .createFatDev .. => False
  | .fatfsMount .. => True

/-- The call returns, the table is in order afterwards, a registration in a full
table answers `-ENOMEM`, and a mount that fails leaves the table as it was. -/
def Keeps (s : FatioState) (call : FatioCall) : Prop :=
  ∃ ret s', call.run s = some (ret, s') ∧ Registry s' ∧
    (call.Registers → s.Full → ret = -ENOMEM) ∧
    (call.IsMount → ret ≠ 0 → s'.fatioList = s.fatioList)

/-- Nothing fails once the drive is registered. -/
def FatioCall.Mounts : FatioCall → Prop
  | .createFatDev .. => True
  | .fatfsMount _ _ _ isFat root => isFat = true ∧ root = true

/-- A call that comes to the registration finds a free slot, and it succeeds. -/
def Completed (s : FatioState) (call : FatioCall) : Prop :=
  call.Registers → ¬ s.Full ∧ call.Mounts

/-! ## Registration -/

theorem slotFrom_none {list : List (Option Nat)} (full : none ∉ list) (start : Nat) :
    slotFrom start list = none := by
  induction list generalizing start with
  | nil => rfl
  | cons entry rest ih =>
      cases entry with
      | none => simp at full
      | some addr => exact ih (by simpa using full) (start + 1)

/-- The search ends at a free slot when there is one. -/
theorem slotFrom_some {list : List (Option Nat)} (free : none ∈ list) (start : Nat) :
    ∃ i, slotFrom start list = some (start + i) ∧ list[i]? = some none := by
  induction list generalizing start with
  | nil => simp at free
  | cons entry rest ih =>
      cases entry with
      | none => exact ⟨0, rfl, rfl⟩
      | some addr =>
          obtain ⟨i, found, slot⟩ := ih (by simpa using free) (start + 1)
          refine ⟨i + 1, ?_, slot⟩
          rw [slotFrom, found]
          congr 1
          omega

/-- The drive in the slot, and its id. -/
def FatioState.registered (s : FatioState) (fdev i : Nat) : FatioState :=
  { fatioList := s.fatioList.setIfInBounds i (some fdev)
    devs := Function.update s.devs fdev (some ⟨some fatOps, some i⟩) }

theorem fatioRegister_full {s : FatioState} {fdev : Nat}
    (live : s.devs fdev = some ⟨some fatOps, none⟩) (full : s.Full) :
    fatioRegister s fdev = none := by
  simp [fatioRegister, live, fatOps, slotFrom_none full]

/-- With a free entry the drive is registered in the first one. -/
theorem fatioRegister_free {s : FatioState} {fdev : Nat}
    (live : s.devs fdev = some ⟨some fatOps, none⟩) (free : ¬ s.Full) :
    ∃ i, i < FF_VOLUMES ∧ s.fatioList[i]? = some none ∧
      fatioRegister s fdev = some (0, s.registered fdev i) := by
  have hasFree : none ∈ s.fatioList.toList := by simpa [FatioState.Full] using free
  obtain ⟨i, found, slot⟩ := slotFrom_some hasFree 0
  rw [Nat.zero_add] at found
  have inside : i < FF_VOLUMES := by
    obtain ⟨below, -⟩ := List.getElem?_eq_some_iff.mp slot
    simpa using below
  refine ⟨i, inside, by simpa using slot, ?_⟩
  simp [fatioRegister, live, fatOps, found, Nat.ne_of_lt inside, FatioState.registered,
    FatioState.setDev]

/-- The state in which the users call `fatio_register`. -/
def FatioState.allocated (s : FatioState) (fdev : Nat) : FatioState :=
  s.setDev fdev (some ⟨some fatOps, none⟩)

@[simp] theorem allocated_fatioList (s : FatioState) (fdev : Nat) :
    (s.allocated fdev).fatioList = s.fatioList :=
  rfl

theorem allocated_live (s : FatioState) (fdev : Nat) :
    (s.allocated fdev).devs fdev = some ⟨some fatOps, none⟩ :=
  Function.update_self ..

theorem allocated_registered (s : FatioState) (fdev i : Nat) :
    (s.allocated fdev).registered fdev i = s.registered fdev i := by
  simp [FatioState.registered, FatioState.allocated, FatioState.setDev]

theorem fatioAlloc_setDev (s : FatioState) (fdev : Nat) :
    (fatioAlloc s fdev).setDev fdev (some ⟨some fatOps, none⟩) = s.allocated fdev := by
  simp [fatioAlloc, FatioState.allocated, FatioState.setDev]

/-! ## Calls -/

/-- What a call that does not come to the registration does. -/
def Idles (s : FatioState) (call : FatioCall) : Prop :=
  ∃ ret s', call.run s = some (ret, s') ∧
    (s' = s ∨ ∃ addr, call.fdev = some addr ∧ s' = fatioAlloc s addr)

/-- A call that registers no drive leaves the table alone. -/
theorem run_idle (s : FatioState) {call : FatioCall} (idle : ¬ call.Registers) :
    Idles s call := by
  cases call with
  | createFatDev bootdev fdev sgfat =>
      unfold Idles FatioCall.run createFatDev
      cases bootdev with
      | false => exact ⟨_, s, rfl, .inl rfl⟩
      | true =>
          cases fdev with
          | none => exact ⟨_, s, rfl, .inl rfl⟩
          | some addr =>
              cases sgfat with
              | false => exact ⟨_, _, rfl, .inr ⟨addr, rfl, rfl⟩⟩
              | true => simp [FatioCall.Registers] at idle
  | fatfsMount data fm fdev isFat root =>
      unfold Idles FatioCall.run fatfsMount
      cases data with
      | false => exact ⟨_, s, rfl, .inl rfl⟩
      | true =>
          cases fm with
          | false => exact ⟨_, s, rfl, .inl rfl⟩
          | true =>
              cases fdev with
              | none => exact ⟨_, s, rfl, .inl rfl⟩
              | some addr => simp [FatioCall.Registers] at idle

/-- A call comes to the registration with a drive that it has just allocated. -/
theorem run_registers (s : FatioState) {call : FatioCall} (registers : call.Registers) :
    ∃ addr, call.fdev = some addr ∧
      (s.Full → call.run s = none) ∧
      (¬ s.Full → ∃ i, i < FF_VOLUMES ∧ s.fatioList[i]? = some none ∧
        (call.Mounts → call.run s = some (0, s.registered addr i)) ∧
        (¬ call.Mounts → ∃ ret, ret ≠ 0 ∧
          call.run s = some (ret, (s.registered addr i).setDev addr none))) := by
  cases call with
  | createFatDev bootdev fdev sgfat =>
      obtain ⟨rfl, isSome, rfl⟩ := registers
      obtain ⟨addr, rfl⟩ := Option.isSome_iff_exists.mp isSome
      have run : FatioCall.run s (.createFatDev true (some addr) true) =
          fatioRegister (s.allocated addr) addr := by
        simp [FatioCall.run, createFatDev, fatioAlloc_setDev]
      refine ⟨addr, rfl, fun full => ?_, fun free => ?_⟩
      · rw [run]
        exact fatioRegister_full (allocated_live s addr) full
      · obtain ⟨i, inside, slot, done⟩ := fatioRegister_free (allocated_live s addr) free
        rw [allocated_registered] at done
        exact ⟨i, inside, slot, fun _ => run.trans done,
          fun fails => (fails trivial).elim⟩
  | fatfsMount data fm fdev isFat root =>
      obtain ⟨rfl, rfl, isSome⟩ := registers
      obtain ⟨addr, rfl⟩ := Option.isSome_iff_exists.mp isSome
      refine ⟨addr, rfl, fun full => ?_, fun free => ?_⟩
      · simp [FatioCall.run, fatfsMount, fatioAlloc_setDev,
          fatioRegister_full (allocated_live s addr) full]
      · obtain ⟨i, inside, slot, done⟩ := fatioRegister_free (allocated_live s addr) free
        rw [allocated_registered] at done
        refine ⟨i, inside, slot, fun mounts => ?_, fun fails => ?_⟩
        · simp [FatioCall.run, fatfsMount, fatioAlloc_setDev, done, mounts.1, mounts.2]
        · simp only [FatioCall.Mounts, not_and, Bool.not_eq_true] at fails
          cases isFat with
          | false =>
              exact ⟨- EIO, by decide, by
                simp [FatioCall.run, fatfsMount, fatioAlloc_setDev, done]⟩
          | true =>
              exact ⟨-ENOMEM, by decide, by
                simp [FatioCall.run, fatfsMount, fatioAlloc_setDev, done, fails rfl]⟩

/-! ## The invariant -/

/-- Entries and ids agree in both directions. -/
structure TableInv (s : FatioState) : Prop where
  entries : ∀ (i : Nat) addr, s.fatioList[i]? = some (some addr) →
    ∃ dev, s.devs addr = some dev ∧ dev.id = some i
  stored : ∀ addr dev (i : Nat), s.devs addr = some dev → dev.id = some i →
    s.fatioList[i]? = some (some addr)

theorem TableInv.registry {s : FatioState} (inv : TableInv s) : Registry s where
  entries := inv.entries
  distinct first second devOne devTwo id liveOne liveTwo idOne idTwo := by
    have one := inv.stored first devOne id liveOne idOne
    have two := inv.stored second devTwo id liveTwo idTwo
    rw [one] at two
    simpa using two

theorem TableInv.empty : TableInv emptyFatio where
  entries i addr stored := by
    simp [emptyFatio, Vector.getElem?_replicate] at stored
  stored addr dev i live := by simp [emptyFatio] at live

/-- A drive that no entry refers to may be allocated. -/
theorem TableInv.alloc {s : FatioState} (inv : TableInv s) {addr : Nat}
    (fresh : s.devs addr = none) : TableInv (fatioAlloc s addr) where
  entries i other entry := by
    obtain ⟨dev, live, id⟩ := inv.entries i other entry
    have ne : other ≠ addr := by
      rintro rfl
      simp [fresh] at live
    exact ⟨dev, by simpa [fatioAlloc, FatioState.setDev, ne] using live, id⟩
  stored other dev i live id := by
    by_cases it : other = addr
    · subst it
      obtain rfl : (⟨none, none⟩ : FatioDev) = dev := by
        simpa [fatioAlloc, FatioState.setDev] using live
      simp at id
    · exact inv.stored other dev i
        (by simpa [fatioAlloc, FatioState.setDev, it] using live) id

/-- A registration fills a free entry with a device that was not in the table. -/
theorem TableInv.registered {s : FatioState} (inv : TableInv s) {addr i : Nat}
    (fresh : s.devs addr = none) (inside : i < FF_VOLUMES)
    (slot : s.fatioList[i]? = some none) : TableInv (s.registered addr i) where
  entries index other entry := by
    by_cases it : i = index
    · subst it
      have isAddr : addr = other := by
        simpa [FatioState.registered, inside] using entry
      exact ⟨⟨some fatOps, some i⟩, by simp [FatioState.registered, isAddr], rfl⟩
    · rw [FatioState.registered, Vector.getElem?_setIfInBounds_ne it] at entry
      obtain ⟨dev, live, id⟩ := inv.entries index other entry
      have ne : other ≠ addr := by
        rintro rfl
        simp [fresh] at live
      exact ⟨dev, by simpa [FatioState.registered, ne] using live, id⟩
  stored other dev index live id := by
    by_cases it : other = addr
    · subst it
      obtain rfl : (⟨some fatOps, some i⟩ : FatioDev) = dev := by
        simpa [FatioState.registered] using live
      obtain rfl : i = index := by simpa using id
      simp [FatioState.registered, inside]
    · have before := inv.stored other dev index
        (by simpa [FatioState.registered, it] using live) id
      have ne : i ≠ index := by
        rintro rfl
        simp [slot] at before
      rw [FatioState.registered, Vector.getElem?_setIfInBounds_ne ne]
      exact before

/-- A call that meets the condition keeps the invariant, and answers as it
should. -/
theorem TableInv.completed {s : FatioState} (inv : TableInv s) {call : FatioCall}
    (fresh : call.Fresh s) (completed : Completed s call) :
    ∃ ret s', call.run s = some (ret, s') ∧ TableInv s' ∧
      (ret ≠ 0 → s'.fatioList = s.fatioList) := by
  by_cases registers : call.Registers
  · obtain ⟨free, mounts⟩ := completed registers
    obtain ⟨addr, isFdev, -, done⟩ := run_registers s registers
    obtain ⟨i, inside, slot, run, -⟩ := done free
    exact ⟨0, _, run mounts, inv.registered (fresh addr isFdev) inside slot,
      fun fails => (fails rfl).elim⟩
  · obtain ⟨ret, s', run, rfl | ⟨addr, isFdev, rfl⟩⟩ := run_idle s registers
    · exact ⟨ret, s', run, inv, fun _ => rfl⟩
    · exact ⟨ret, _, run, inv.alloc (fresh addr isFdev), fun _ => rfl⟩

/-- A call keeps the registry exactly if its mount, if it is one, is completed. -/
theorem TableInv.keeps_iff {s : FatioState} (inv : TableInv s) {call : FatioCall}
    (fresh : call.Fresh s) : Keeps s call ↔ Completed s call := by
  constructor
  · rintro ⟨ret, s', run, registry, -, unchanged⟩ registers
    obtain ⟨addr, -, full, done⟩ := run_registers s registers
    have free : ¬ s.Full := by
      intro isFull
      simp [full isFull] at run
    refine ⟨free, ?_⟩
    by_contra fails
    obtain ⟨i, inside, slot, -, aborted⟩ := done free
    obtain ⟨err, ne, failed⟩ := aborted fails
    rw [failed] at run
    obtain ⟨rfl, rfl⟩ : err = ret ∧ _ = s' := by simpa using run
    have live := registry.entries i addr
      (by simp [FatioState.setDev, FatioState.registered, inside])
    simp [FatioState.setDev] at live
  · intro completed
    obtain ⟨ret, s', run, kept, unchanged⟩ := inv.completed fresh completed
    exact ⟨ret, s', run, kept.registry,
      fun registers full => ((completed registers).1 full).elim,
      fun _ fails => unchanged fails⟩

/-- The table is right in every run of completed mounts. -/
theorem TableInv.reachable {s : FatioState}
    (reached : fatioLts.ReachableWhile Completed s) : TableInv s := by
  apply reached.invariant TableInv
  · rintro s rfl
    exact .empty
  · rintro s call s' - inv completed ⟨fresh, ret, run⟩
    obtain ⟨err, next, done, kept, -⟩ := inv.completed fresh completed
    rw [done] at run
    obtain ⟨-, rfl⟩ : err = ret ∧ next = s' := by simpa using run
    exact kept

/-- While every registration finds a free slot and every mount that registers
its drive succeeds, the table is in order; and only such calls keep it so. -/
theorem fatio_registry {s : FatioState}
    (reached : fatioLts.ReachableWhile Completed s) :
    Registry s ∧ ∀ call : FatioCall, call.Fresh s → (Keeps s call ↔ Completed s call) :=
  ⟨(TableInv.reachable reached).registry,
    fun _ fresh => (TableInv.reachable reached).keeps_iff fresh⟩

/-! ## A volume that is not FAT -/

/-- A drive of sgfat.c is registered first. -/
def oneDrive : FatioState := emptyFatio.registered 16 0

/-- One drive has been mounted. -/
theorem fatio_registry_oneDrive :
    Registry oneDrive ∧ (Keeps oneDrive (.fatfsMount true true (some 32) false true) ↔
      Completed oneDrive (.fatfsMount true true (some 32) false true)) := by
  have completed : Completed emptyFatio (.createFatDev true (some 16) true) :=
    fun _ => ⟨by simp [FatioState.Full, emptyFatio, FF_VOLUMES], trivial⟩
  have taken : fatioLts.step emptyFatio (.createFatDev true (some 16) true) oneDrive := by
    refine ⟨fun addr _ => rfl, 0, ?_⟩
    simp [FatioCall.run, createFatDev, fatioAlloc, fatioRegister, FatioState.setDev,
      slotFrom, emptyFatio, oneDrive, FatioState.registered, fatOps, FF_VOLUMES,
      List.replicate_succ]
  have reached : fatioLts.ReachableWhile Completed oneDrive :=
    (Lts.ReachableWhile.initial rfl).step completed taken
  refine ⟨(fatio_registry reached).1, (fatio_registry reached).2 _ ?_⟩
  intro addr isFdev
  obtain rfl : 32 = addr := by simpa [FatioCall.fdev] using isFdev
  rfl

/-- A mount of a device without a FAT volume frees its drive and leaves it in the
table. -/
theorem failed_mount_dangles :
    ¬ ∀ s, fatioLts.Reachable s → ∀ call : FatioCall, call.Fresh s → Keeps s call := by
  intro keeps
  have fresh : FatioCall.Fresh emptyFatio (.fatfsMount true true (some 16) false true) :=
    fun _ _ => rfl
  have completed := (TableInv.empty.keeps_iff fresh).mp
    (keeps emptyFatio (.initial rfl) _ fresh)
  obtain ⟨-, isFat, -⟩ := completed ⟨rfl, rfl, rfl⟩
  exact Bool.false_ne_true isFat

end Zsbl.Libs
