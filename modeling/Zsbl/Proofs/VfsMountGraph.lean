/-
Module: Zsbl.Proofs.VfsMountGraph
Purpose: In every run that frees no mountpoint each mount keeps its mountpoint,
  stays attached to the root, and can be unmounted; vfs_unlink and vfs_umount
  do free mountpoints.
Trusted boundary: none
Main exports:
  MountGraph, vfs_mountGraph, unlinked_mountpoint
-/
import Zsbl.Proofs.VfsTeardown

namespace Zsbl.Common

open Zsbl.Lib

variable {ω π : Type} {code : FsCode ω π}

/-- Every mount's mountpoint is an allocated directory that points back at it
and is attached to the root, and no pointer between them dangles.  A path leads
to a mountpoint that no mount covers, and from any state on unmounting the
mounts that came later reaches each mount and frees it. -/
structure MountGraph (code : FsCode ω π) (s : Vfs ω π) : Prop where
  mountpoint : ∀ m mount, s.mounts m = some mount →
    ∃ dir, s.nodes mount.mountpoint = some dir ∧ dir.type = .dir ∧
      dir.mnt = some m ∧ Attached s mount.mountpoint
  mnt : ∀ id node m, s.nodes id = some node → node.mnt = some m →
    ∃ mount, s.mounts m = some mount ∧ mount.mountpoint = id
  path : s.Roomy → ∀ m mount, s.mounts m = some mount →
    Walk s s.nextMount mount.mountpoint →
    ∃ path s' inner, vfsLookupNodeEx code s path false =
      some (s', some (mount.mountpoint, inner))
  unmount : s.Roomy → ∀ m mount, s.mounts m = some mount →
    ∃ s₁ path s₂ s₃ inner, (vfsLts code).Run (TearsDown code) s s₁ ∧
      s₁.mounts m = some mount ∧
      vfsLookupNodeEx code s₁ path false = some (s₂, some (mount.mountpoint, inner)) ∧
      vfsUmount code s₁ (some path) = some (s₃, 0) ∧
      KeepsMountpoints code s₁ (.umount (some path)) ∧ s₃.mounts m = none

theorem VfsInv.reached (honest : code.Honest) {s : Vfs ω π}
    (reached : (vfsLts code).ReachableWhile (KeepsMountpoints code) s) : VfsInv s := by
  apply reached.invariant VfsInv
  · exact fun s start => VfsInv.initial start
  · exact fun s op s' _ inv safe taken => inv.step honest safe taken

/-- The mount graph is intact in every state of a run all of whose calls keep
the mountpoints. -/
theorem vfs_mountGraph (honest : code.Honest) (s : Vfs ω π)
    (reached : (vfsLts code).ReachableWhile (KeepsMountpoints code) s) :
    MountGraph code s := by
  have inv := VfsInv.reached honest reached
  constructor
  · intro m mount live
    obtain ⟨dir, dirLive, isDir, mnt⟩ := inv.mounts.mountpoint m mount live
    exact ⟨dir, dirLive, isDir, mnt, (inv.mounts.walk m mount live).attached⟩
  · exact inv.mounts.mounted
  · intro roomy m mount live walk
    obtain ⟨path, s', inner, -, search, -⟩ :=
      (inv.walk_reach live walk).path code inv roomy
    exact ⟨path, s', inner, search⟩
  · intro roomy m mount live
    obtain ⟨s₁, run, inv₁, roomy₁, closed, mounts⟩ := inv.close_all code roomy
    have live₁ : s₁.mounts m = some mount := by rw [mounts, live]
    obtain ⟨s₂, path, s₃, s₄, inner, run₂, rest⟩ :=
      inv₁.teardown honest roomy₁ closed live₁ inv₁.mounts.lt
    exact ⟨s₂, path, s₃, s₄, inner, run.trans run₂, rest⟩

/-! ## A file system on two directories -/

/-- A file system with an empty root directory. -/
def dirFs : FsCode Unit Unit where
  mount := fun _ s _ _ =>
    match vfsAllocDirNode s [109] with
    | (s, none) => some (s, ⟨none, none, none⟩, -ENOMEM)
    | (s, some root) => some (s, ⟨some root, none, none⟩, 0)
  lookup := fun _ => none
  umount := fun _ => none

/-- The file system of one directory keeps to the rules. -/
theorem dirFs_honest : dirFs.Honest := by
  constructor
  · intro address s source data s' setup ret done
    have builds : Builds s (vfsAllocDirNode s [109]).1 := .single (.allocDir s [109])
    rcases vfsAllocNode_cases s [109] .dir none none with
      ⟨s₁, result, -⟩ | ⟨s₁, result, grown⟩ <;>
      have alloc : vfsAllocDirNode s [109] = _ := result <;>
      simp only [dirFs, alloc, Option.some.injEq, Prod.mk.injEq] at done <;>
      obtain ⟨rfl, rfl, -⟩ := done <;> rw [alloc] at builds
    · exact ⟨builds, by simp⟩
    · refine ⟨builds, fun root isRoot => ?_⟩
      obtain rfl := Option.some.inj isRoot
      refine ⟨Nat.le_refl _, freshNode [109] .dir none none, ?_, rfl, rfl⟩
      rw [grown.nodes, Function.update_self]
  · simp [dirFs]
  · simp [dirFs]

/-- The VFS after `vfs_init`. -/
def started : Vfs Unit Unit := (vfsInit (vfsStatic (fun _ => true) ())).1

/-- The directory /a has been created. -/
def withDirectory : Vfs Unit Unit := ((vfsMkdir started (some 0) [97]).get (by rfl)).1

/-- The file system has been registered. -/
def withFs : Vfs Unit Unit :=
  (vfsRegisterFilesystem withDirectory (some ⟨some [100], 0, some 0⟩)).1

/-- The file system has been mounted on /a. -/
def withMount : Vfs Unit Unit :=
  ((vfsMount dirFs withFs none (some [47, 97]) (some [100]) none).get (by rfl)).1

/-- A file system is mounted on a directory. -/
theorem withMount_reachable :
    (vfsLts dirFs).ReachableWhile (KeepsMountpoints dirFs) withMount := by
  have start : (vfsLts dirFs).ReachableWhile (KeepsMountpoints dirFs) started :=
    .initial ⟨_, _, rfl⟩
  have mkdir : VfsStep dirFs started (.mkdir (some 0) [97]) withDirectory := by
    refine .mkdir (fun id same => ?_)
      (show vfsMkdir started (some 0) [97] = some (withDirectory, some 1) from rfl)
    obtain rfl := Option.some.inj same
    rfl
  have register : VfsStep dirFs withDirectory
      (.registerFilesystem (some ⟨some [100], 0, some 0⟩)) withFs :=
    .registerFilesystem rfl
  have mount : VfsStep dirFs withFs
      (.mount none (some [47, 97]) (some [100]) none) withMount :=
    .mount (show vfsMount dirFs withFs none (some [47, 97]) (some [100]) none =
      some (withMount, 0) from rfl)
  have first := start.step (by exact trivial) mkdir
  have second := first.step (by exact trivial) register
  exact second.step (by exact trivial) mount

/-- The directory /b has been created. -/
def withSecondDirectory : Vfs Unit Unit :=
  ((vfsMkdir withMount (some 0) [98]).get (by rfl)).1

/-- The file system has been mounted on /b too. -/
def withTwoMounts : Vfs Unit Unit :=
  ((vfsMount dirFs withSecondDirectory none (some [47, 98]) (some [100]) none).get (by rfl)).1

/-- It has been taken off /b. -/
def unmounted : Vfs Unit Unit :=
  ((vfsUmount dirFs withTwoMounts (some [47, 98])).get (by rfl)).1

/-- The directory /b has been removed. -/
def unlinked : Vfs Unit Unit := ((vfsUnlink unmounted (some 0) [98]).get (by rfl)).1

/-- A second one is mounted inside the first. -/
theorem withTwoMounts_reachable :
    (vfsLts dirFs).ReachableWhile (KeepsMountpoints dirFs) withTwoMounts := by
  have mkdir : VfsStep dirFs withMount (.mkdir (some 0) [98]) withSecondDirectory := by
    refine .mkdir (fun id same => ?_)
      (show vfsMkdir withMount (some 0) [98] = some (withSecondDirectory, some 3) from rfl)
    obtain rfl := Option.some.inj same
    rfl
  have mount : VfsStep dirFs withSecondDirectory
      (.mount none (some [47, 98]) (some [100]) none) withTwoMounts :=
    .mount (show vfsMount dirFs withSecondDirectory none (some [47, 98]) (some [100]) none =
      some (withTwoMounts, 0) from rfl)
  have first := withMount_reachable.step (by exact trivial) mkdir
  exact first.step (by exact trivial) mount

/-- The tree on /b holds no mountpoint: it is that of the newest mount. -/
theorem withTwoMounts_umount :
    KeepsMountpoints dirFs withTwoMounts (.umount (some [47, 98])) := by
  have inv := VfsInv.reached dirFs_honest withTwoMounts_reachable
  have newest : ∀ k other, withTwoMounts.mounts k = some other → k ≤ 1 := by
    intro k other live
    exact Nat.le_of_lt_succ (inv.mounts.lt k other live)
  intro s' mp mnt dir m mount found live covered mounted _ id node under nodeLive
  have search : vfsLookupNodeEx dirFs withTwoMounts [47, 98] false =
      some (withTwoMounts, some (3, none)) := rfl
  obtain ⟨rfl, same⟩ := Prod.mk.inj (Option.some.inj (search.symm.trans found))
  obtain ⟨rfl, -⟩ := Prod.mk.inj (Option.some.inj same)
  obtain rfl := Option.some.inj live
  obtain rfl := Option.some.inj covered
  exact inv.newest_flat mounted newest under nodeLive

/-- Nothing is mounted on /b any more. -/
theorem unmounted_unlink : KeepsMountpoints dirFs unmounted (.unlink (some 0) [98]) := by
  intro id node found live _
  obtain rfl : 3 = id := Option.some.inj (Option.some.inj found)
  obtain rfl := Option.some.inj live
  rfl

/-- After the unmounting its mountpoint is unlinked. -/
theorem unlinked_reachable :
    (vfsLts dirFs).ReachableWhile (KeepsMountpoints dirFs) unlinked := by
  have umount : VfsStep dirFs withTwoMounts (.umount (some [47, 98])) unmounted :=
    .umount (show vfsUmount dirFs withTwoMounts (some [47, 98]) = some (unmounted, 0) from rfl)
  have unlink : VfsStep dirFs unmounted (.unlink (some 0) [98]) unlinked := by
    refine .unlink (fun id same => ?_)
      (show vfsUnlink unmounted (some 0) [98] = some (unlinked, 0) from rfl)
    obtain rfl := Option.some.inj same
    rfl
  exact (withTwoMounts_reachable.step withTwoMounts_umount umount).step unmounted_unlink unlink

/-- The mount graph after /b has been unmounted and removed; what is mounted on /a stays. -/
theorem vfs_mountGraph_unlinked :
    MountGraph dirFs unlinked ∧ (unlinked.mounts 0).isSome ∧ unlinked.mounts 1 = none ∧
      unlinked.nodes 3 = none :=
  ⟨vfs_mountGraph dirFs_honest unlinked unlinked_reachable, by rfl, by rfl, by rfl⟩

/-! ## A mountpoint that is unlinked -/

/-- The mountpoint has been unlinked. -/
def withoutMountpoint : Vfs Unit Unit :=
  ((vfsUnlink withMount (some 0) [97]).get (by rfl)).1

/-- `vfs_unlink` frees the mountpoint of a live mount, which is empty as a
directory of the file system it belongs to. -/
theorem unlinked_mountpoint :
    ¬ ∀ code : FsCode Unit Unit, code.Honest → ∀ s, (vfsLts code).Reachable s →
      MountGraph code s := by
  intro intact
  have unlink : VfsStep dirFs withMount (.unlink (some 0) [97]) withoutMountpoint := by
    refine .unlink (fun id same => ?_)
      (show vfsUnlink withMount (some 0) [97] = some (withoutMountpoint, 0) from rfl)
    obtain rfl := Option.some.inj same
    rfl
  have graph := intact dirFs dirFs_honest withoutMountpoint
    (withMount_reachable.reachable.step trivial unlink)
  obtain ⟨dir, live, -⟩ := graph.mountpoint 0 ⟨1, 2, none, none⟩ rfl
  exact absurd (show none = some dir from live) (by simp)

end Zsbl.Common
