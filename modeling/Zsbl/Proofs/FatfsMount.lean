/-
Module: Zsbl.Proofs.FatfsMount
Purpose: fatfs is a file system that keeps a slot for every device that it is tried on.
Trusted boundary: none
Main exports:
  fatfsMount_full, fatfsMount_registers, fatfs_recognises, fatfs_exhausts
-/
import Zsbl.Fs.FatfsMount
import Zsbl.Proofs.AutomountNames
import Zsbl.Proofs.Fatio
import Zsbl.Proofs.VfsSlots
import Zsbl.Proofs.VfsUmount

namespace Zsbl.Common

open Zsbl.Lib

variable {ω π : Type} {s t : Vfs ω π} {root : Nat}

/-- Private data does not matter to a tree. -/
theorem FreshTree.setPriv (fresh : FreshTree s t root) (unused : s.Unused) {node : VfsNode ω π}
    (live : t.nodes root = some node) (priv : Option π) :
    FreshTree s (t.setNode root { node with priv := priv }) root := by
  have same : SameTree t (t.setNode root { node with priv := priv }) := by
    refine ⟨fun id => ?_, rfl, rfl⟩
    by_cases eq : id = root
    · subst eq
      rw [live]
      simp [Vfs.setNode, VfsNode.shape]
    · exact congrArg _ (Function.update_of_ne eq ..)
  obtain ⟨dir, dirLive, isDir, noParent⟩ := fresh.dir
  obtain rfl := Option.some.inj (live.symm.trans dirLive)
  refine ⟨fresh.builds.tail (.setPriv priv live), fresh.fresh,
    ⟨_, Function.update_self .., isDir, noParent⟩, fun id other was => ?_, fun id isLive => ?_⟩
  · have ne : id ≠ root := by
      rintro rfl
      rw [unused _ fresh.fresh] at was
      cases was
    exact (Function.update_of_ne ne ..).trans (fresh.kept id other was)
  · obtain ⟨other, isLive⟩ := Option.isSome_iff_exists.mp isLive
    obtain ⟨before, wasLive, -⟩ := same.node isLive
    exact (fresh.under id (by simp [wasLive])).imp_right (.of_same same)

/-- Neither does what the media and the drivers keep, before and afterwards. -/
theorem FreshTree.world {world : ω} (fresh : FreshTree { s with world := world } t root)
    (after : ω) : FreshTree s { t with world := after } root where
  builds := .head (.world s world) (fresh.builds.tail (.world t after))
  fresh := fresh.fresh
  dir := fresh.dir
  kept := fresh.kept
  under id isLive := by
    have same : SameTree t { t with world := after } := ⟨fun _ => rfl, rfl, rfl⟩
    exact (fresh.under id isLive).imp_right (.of_same same)

end Zsbl.Common

namespace Zsbl.Fs

open Zsbl.Common Zsbl.Drivers Zsbl.Lib Zsbl.Libs

variable {ω π : Type} {s t : Vfs (FatWorld ω) π} {pointers : FatPointers π} {isFat : π → Bool}

/-! ## The table -/

theorem freeSlots_pos {world : FatWorld ω} : 0 < freeSlots world ↔ ¬world.drives.Full := by
  rw [freeSlots, List.count_pos_iff, FatioState.Full, not_not]

/-- A drive that is registered takes one free entry. -/
theorem count_registered {drives : FatioState} {fdev i : Nat}
    (slot : drives.fatioList[i]? = some none) :
    drives.fatioList.toList.count none =
      (drives.registered fdev i).fatioList.toList.count none + 1 := by
  obtain ⟨inside, isNone⟩ := Vector.getElem?_eq_some_iff.mp slot
  have within : i < drives.fatioList.toList.length := by simpa using inside
  have entry : drives.fatioList.toList[i] = none := by simpa using isNone
  have member : none ∈ drives.fatioList.toList := entry ▸ List.getElem_mem within
  have pos : 0 < drives.fatioList.toList.count none := List.count_pos_iff.mpr member
  rw [FatioState.registered, Vector.toList_setIfInBounds, List.count_set within, entry]
  simp only [beq_self_eq_true, if_true, reduceCtorEq, beq_iff_eq, if_false]
  omega

/-- A new drive is registered if the table is not full. -/
theorem register_cases (drives : FatioState) (fdev : Nat) :
    (drives.Full ∧ fatioRegister ((fatioAlloc drives fdev).setDev fdev
        (some ⟨some fatOps, none⟩)) fdev = none) ∨
      (¬drives.Full ∧ ∃ i, drives.fatioList[i]? = some none ∧
        fatioRegister ((fatioAlloc drives fdev).setDev fdev (some ⟨some fatOps, none⟩)) fdev =
          some (0, drives.registered fdev i)) := by
  rw [fatioAlloc_setDev]
  have live := allocated_live drives fdev
  by_cases full : drives.Full
  · exact Or.inl ⟨full, fatioRegister_full live full⟩
  · obtain ⟨i, -, slot, done⟩ := fatioRegister_free live full
    rw [allocated_registered] at done
    exact Or.inr ⟨full, i, slot, done⟩

/-- A registration takes a slot. -/
theorem register_takes {drives after : FatioState} {fdev : Nat} {ret : Int}
    (done : fatioRegister ((fatioAlloc drives fdev).setDev fdev (some ⟨some fatOps, none⟩)) fdev =
      some (ret, after)) :
    drives.fatioList.toList.count none = after.fatioList.toList.count none + 1 := by
  rcases register_cases drives fdev with ⟨-, full⟩ | ⟨-, i, slot, registered⟩
  · rw [full] at done
    cases done
  · obtain ⟨-, rfl⟩ := Prod.mk.inj (Option.some.inj (registered.symm.trans done))
    exact count_registered slot

theorem registered_dev (drives : FatioState) (fdev i : Nat) :
    (drives.registered fdev i).devs fdev = some ⟨some fatOps, some i⟩ :=
  Function.update_self ..

theorem printed_vol (volid : Nat) :
    ∃ path, printed (fun _ => .empty) 8 volFormat (fun _ => BitVec.ofInt 64 volid) = some path := by
  have scanned : directives (fun _ => .empty) (fun _ => BitVec.ofInt 64 volid) 0 0 volFormat.chars =
    some [.number ⟨false, false, false, 0⟩ (vaInt (BitVec.ofInt 64 volid)) 10 true 0x30,
      .literal 0x3a] := rfl
  have stored := snprintf_eq scanned (show 0 < 8 by decide)
    (show 8 ≤ (List.replicate 8 (0 : UInt8)).length from Nat.le_of_eq List.length_replicate.symm)
  exact ⟨_, by rw [printed, stored]; rfl⟩

/-! ## The callback -/

/-- With a full table the search for a slot runs past it. -/
theorem fatfsMount_full (roomy : s.Roomy) (full : s.world.drives.Full) (source : Option CStr)
    (data : π) : fatfsMount pointers isFat s source (some data) = none := by
  rcases register_cases s.world.drives s.world.nextDev with ⟨-, done⟩ | ⟨free, -⟩
  · simp [fatfsMount, roomy.malloc, done]
  · exact absurd full free

/-- A device without a FAT volume leaves a drive in the table, as `Libs.fatfsMount` says. -/
theorem fatfsMount_refuses (roomy : s.Roomy) (free : ¬s.world.drives.Full) (source : Option CStr)
    {data : π} (other : isFat data = false) :
    ∃ world, fatfsMount pointers isFat s source (some data) =
        some ({ s with world := world }, unset, - EIO) ∧
      Libs.fatfsMount s.world.drives true true (some s.world.nextDev) (isFat data) true =
        some (- EIO, world.drives) := by
  rcases register_cases s.world.drives s.world.nextDev with ⟨full, -⟩ | ⟨-, i, slot, done⟩
  · exact absurd full free
  · obtain ⟨path, isPath⟩ := printed_vol i
    refine ⟨⟨(s.world.drives.registered s.world.nextDev i).setDev s.world.nextDev none,
      s.world.nextDev + 1, s.world.media⟩, ?_, ?_⟩
    · simp only [fatfsMount, roomy.malloc, done, registered_dev, isPath, other,
        Option.bind_eq_bind, Option.bind_some, Bool.not_true, Bool.false_eq_true, if_false, ne_eq,
        not_true_eq_false, Bool.not_false, if_true, Option.pure_def]
      rfl
    · simp [Libs.fatfsMount, done, other]

/-- A FAT volume gets the root of a tree, and a drive in the table. -/
theorem fatfsMount_accepts (roomy : s.Roomy) (unused : s.Unused) (free : ¬s.world.drives.Full)
    (source : Option CStr) {data : π} (fat : isFat data = true) :
    ∃ t setup root, fatfsMount pointers isFat s source (some data) = some (t, setup, 0) ∧
      setup.root = some root ∧ FreshTree s t root ∧
      Libs.fatfsMount s.world.drives true true (some s.world.nextDev) (isFat data) true =
        some (0, t.world.drives) := by
  rcases register_cases s.world.drives s.world.nextDev with ⟨full, -⟩ | ⟨-, i, slot, done⟩
  · exact absurd full free
  · obtain ⟨path, isPath⟩ := printed_vol i
    let s₁ : Vfs (FatWorld ω) π :=
      { s with world := { s.world with nextDev := s.world.nextDev + 1 } }
    obtain ⟨s₂, alloc, fresh, grown⟩ := vfsAllocDirNode_fresh (s := s₁) roomy unused
      (show vfsNameValid fatfsName = true by decide)
    obtain ⟨node, live, isDir, noParent⟩ := fresh.dir
    obtain ⟨calls, mem⟩ := grown.mem
    have roomy₂ : s₂.Roomy := fun call => (congrFun mem call).trans (roomy _)
    refine ⟨withDrives (s₂.setNode s.nextNode
        { node with priv := some (pointers.path path.chars) })
        (s.world.drives.registered s.world.nextDev i),
      ⟨some s.nextNode, some fatfsSops, some (pointers.mount s.world.nextDev)⟩, s.nextNode, ?_, rfl,
      (fresh.setPriv unused live _).world _, ?_⟩
    · simp only [fatfsMount, roomy.malloc, done, registered_dev, isPath, fat, Option.bind_eq_bind,
        Option.bind_some, Bool.not_true, Bool.false_eq_true, if_false, ne_eq, not_true_eq_false,
        show vfsAllocDirNode { s with world := { s.world with nextDev := s.world.nextDev + 1 } }
          fatfsName = (s₂, some s.nextNode) from alloc, roomy₂.malloc,
        show s₂.nodes s.nextNode = some node from live, if_true, Option.pure_def]
    · simp [Libs.fatfsMount, done, fat, withDrives]

/-- Whatever becomes of the mount, it takes one slot at most. -/
theorem fatfsMount_spends {source : Option CStr} {data : Option π} {setup : MountSetup π}
    {ret : Int} (done : fatfsMount pointers isFat s source data = some (t, setup, ret)) :
    freeSlots s.world ≤ freeSlots t.world + 1 := by
  have stays {u : Vfs (FatWorld ω) π} {setup' : MountSetup π} {ret' : Int}
      (same : some (u, setup', ret') = some (t, setup, ret))
      (spent : freeSlots s.world ≤ freeSlots u.world + 1) :
      freeSlots s.world ≤ freeSlots t.world + 1 := by
    obtain ⟨rfl, -⟩ := Prod.mk.inj (Option.some.inj same)
    exact spent
  cases data with
  | none => exact stays done (Nat.le_succ _)
  | some data =>
      simp only [fatfsMount] at done
      split at done
      · exact stays done (Nat.le_succ _)
      · split at done
        · exact stays done (Nat.le_succ _)
        · obtain ⟨⟨ret', drives⟩, registered, done⟩ := Option.bind_eq_some_iff.mp done
          have taken : freeSlots s.world ≤ drives.fatioList.toList.count none + 1 :=
            Nat.le_of_eq (register_takes registered)
          simp only at done
          split at done
          · exact stays done taken
          · obtain ⟨dev, -, done⟩ := Option.bind_eq_some_iff.mp done
            obtain ⟨volid, -, done⟩ := Option.bind_eq_some_iff.mp done
            obtain ⟨path, -, done⟩ := Option.bind_eq_some_iff.mp done
            split at done
            · exact stays done taken
            · split at done
              · exact stays done taken
              · obtain ⟨node, -, done⟩ := Option.bind_eq_some_iff.mp done
                exact stays done taken

/-! ## The file system -/

section Registered

variable {code : FsCode (FatWorld ω) π} {contents : Contents (FatWorld ω) π} {types : List FsType}

/-- Where `fatfs_type` is the only type that lives on a block device, FAT volumes are recognised
while `fatio_list` has a free entry. -/
theorem fatfs_recognises (serves : code.Serves contents)
    (keeps : ∀ address lookup s mount dir name s' found, code.lookup address = some lookup →
      lookup s mount dir name = some (s', found) → s'.world.drives = s.world.drives)
    (registered : ∀ type ∈ types, type.mount.isSome) (tries : ∃ address, Tried types address)
    (fatfs : ∀ address, Tried types address → code.mount address = fatfsMount pointers isFat) :
    Recognises code contents types freeSlots (fun _ => isFat) isFat where
  serves := serves
  spends :=
    { lookup := fun address lookup s mount dir name s' found isLookup done => by
        rw [freeSlots, keeps address lookup s mount dir name s' found isLookup done, freeSlots]
      mount := fun address s source data s' setup ret tried done => by
        rw [fatfs address tried] at done
        exact fatfsMount_spends done }
  registered := registered
  mounts address s data tried roomy unused left fat := by
    rw [FsCode.Accepts, fatfs address tried]
    obtain ⟨t, setup, root, done, isRoot, fresh, -⟩ :=
      fatfsMount_accepts roomy unused (freeSlots_pos.mp left) none fat
    exact ⟨t, setup, root, done, isRoot, fresh⟩
  refuses address s data tried roomy _ left other := by
    rw [fatfs address tried]
    obtain ⟨world, done, -⟩ := fatfsMount_refuses roomy (freeSlots_pos.mp left) none other
    exact ⟨world, unset, - EIO, done, Or.inr rfl⟩
  accepts data := by
    constructor
    · intro fat
      obtain ⟨address, type, member, device, isMount⟩ := tries
      exact ⟨type, member, device, address, isMount, fat⟩
    · rintro ⟨type, -, -, address, -, fat⟩
      exact fat

/-- Without a free entry the search runs past the table. -/
theorem fatfs_exhausts
    (fatfs : ∀ address, Tried types address → code.mount address = fatfsMount pointers isFat) :
    code.Exhausts types freeSlots := by
  intro address s data tried roomy _ spent
  rw [fatfs address tried]
  refine fatfsMount_full roomy ?_ none data
  by_contra free
  have left := freeSlots_pos.mpr free
  omega

end Registered

end Zsbl.Fs
