/-
Module: Zsbl.Proofs.VfsRegistered
Purpose: Every file system that is registered has a mount callback, in every state
  of every run.
Trusted boundary: none
Main exports:
  FsCode.KeepsRegistered, VfsStep.registered, Vfs.Registered.reachable
-/
import Zsbl.Proofs.VfsAccess
import Zsbl.Proofs.VfsSlots

namespace Zsbl.Common

open Zsbl.Lib

variable {ω π : Type} {s s' : Vfs ω π} {code : FsCode ω π}

/-- The `umount` callbacks register file systems by `vfs_register_filesystem` only, which
refuses one without a `mount` callback. -/
def FsCode.KeepsRegistered (code : FsCode ω π) : Prop :=
  ∀ address umount s mount s' ret, code.umount address = some umount →
    umount s mount = some (s', ret) → s.Registered → s'.Registered

theorem Vfs.Registered.of_same (registered : s.Registered) (same : s'.fsTypes = s.fsTypes) :
    s'.Registered := by
  intro type member
  rw [same] at member
  exact registered type member

/-! ## Taking a file system off -/

/-- Freeing the children leaves mounts, files and file systems alone. -/
theorem freeChildren_nodesOnly {free : Vfs ω π → Nat → Option (Vfs ω π)}
    (frees : ∀ s id s', free s id = some s' → NodesOnly s s') {fuel : Nat} {link : Option Nat}
    (done : freeChildren free fuel s link = some s') : NodesOnly s s' := by
  induction fuel generalizing s link with
  | zero =>
      cases link with
      | none =>
          obtain rfl := Option.some.inj done
          exact .refl s
      | some child => cases done
  | succ fuel ih =>
      cases link with
      | none =>
          obtain rfl := Option.some.inj done
          exact .refl s
      | some child =>
          obtain ⟨node, -, done⟩ := Option.bind_eq_some_iff.mp done
          obtain ⟨s₁, freed, done⟩ := Option.bind_eq_some_iff.mp done
          exact (frees s child s₁ freed).trans (ih done)

/-- Freeing a tree leaves mounts, files and file systems alone. -/
theorem freeSubtreeTo_nodesOnly {depth root : Nat}
    (done : freeSubtreeTo depth s root = some s') : NodesOnly s s' := by
  induction depth generalizing s s' root with
  | zero => cases done
  | succ depth ih =>
      obtain ⟨node, -, done⟩ := Option.bind_eq_some_iff.mp done
      obtain ⟨s₁, freed, done⟩ := Option.bind_eq_some_iff.mp done
      obtain rfl := Option.some.inj done
      exact (freeChildren_nodesOnly (fun _ _ _ => ih) freed).trans ⟨_, _, _, rfl⟩

/-- The callback of a mount leaves the registered types alone. -/
theorem callUmount_registered (keeps : code.KeepsRegistered) (registered : s.Registered)
    {mount : VfsMount π} {ret : Int} (done : callUmount code s mount = some (s', ret)) :
    s'.Registered := by
  unfold callUmount at done
  cases umount : mount.sops.bind code.umount with
  | none =>
      simp only [umount, Option.some.injEq, Prod.mk.injEq] at done
      obtain ⟨rfl, -⟩ := done
      exact registered
  | some umountFn =>
      simp only [umount] at done
      obtain ⟨address, -, isUmount⟩ := Option.bind_eq_some_iff.mp umount
      exact keeps address umountFn s mount s' ret isUmount done registered

/-- Unmounting leaves the registered types alone. -/
theorem vfsUmount_registered (honest : code.Honest) (keeps : code.KeepsRegistered)
    (inv : FileInv s) (registered : s.Registered) {target : Option CStr} {ret : Int}
    (done : vfsUmount code s target = some (s', ret)) : s'.Registered := by
  unfold vfsUmount at done
  split at done
  · obtain ⟨rfl, -⟩ := Prod.mk.inj (Option.some.inj done)
    exact registered
  · rename_i path
    split at done
    · obtain ⟨rfl, -⟩ := Prod.mk.inj (Option.some.inj done)
      exact registered
    · rename_i valid
      obtain ⟨⟨s₁, found⟩, search, done⟩ := Option.bind_eq_some_iff.mp done
      have builds := (vfsLookupNodeEx_resolved honest live_route inv (by simpa using valid)
        search).builds
      have registered₁ := registered.of_same builds.tables.fsTypes
      cases found with
      | none =>
          obtain ⟨rfl, -⟩ := Prod.mk.inj (Option.some.inj done)
          exact registered₁
      | some found =>
          obtain ⟨dir, -, done⟩ := Option.bind_eq_some_iff.mp done
          split at done
          · obtain ⟨rfl, -⟩ := Prod.mk.inj (Option.some.inj done)
            exact registered₁
          · obtain ⟨mount, -, done⟩ := Option.bind_eq_some_iff.mp done
            obtain ⟨busy, -, done⟩ := Option.bind_eq_some_iff.mp done
            split at done
            · obtain ⟨rfl, -⟩ := Prod.mk.inj (Option.some.inj done)
              exact registered₁
            · obtain ⟨⟨s₂, ret₂⟩, called, done⟩ := Option.bind_eq_some_iff.mp done
              obtain ⟨node, -, done⟩ := Option.bind_eq_some_iff.mp done
              obtain ⟨s₃, freed, done⟩ := Option.bind_eq_some_iff.mp done
              obtain ⟨rfl, -⟩ := Prod.mk.inj (Option.some.inj done)
              exact (callUmount_registered keeps registered₁ called).of_same
                (freeSubtreeTo_nodesOnly freed).tables.fsTypes

/-! ## The other calls -/

/-- Opening a file leaves the registered types alone. -/
theorem vfsOpen_fsTypes (honest : code.Honest) (inv : FileInv s) {path : Option CStr}
    {flags : Nat} {ret : Int} (done : vfsOpen code s path flags = some (s', ret)) :
    s'.fsTypes = s.fsTypes := by
  obtain ⟨⟨t, found⟩, search, done⟩ := Option.bind_eq_some_iff.mp done
  have types := (vfsLookup_builds honest live_route inv search).1.tables.fsTypes
  have stays {u : Vfs ω π} {ret' : Int} (same : some (u, ret') = some (s', ret))
      (unchanged : u.fsTypes = t.fsTypes) : s'.fsTypes = s.fsTypes := by
    obtain ⟨rfl, -⟩ := Prod.mk.inj (Option.some.inj same)
    exact unchanged.trans types
  cases found with
  | none => exact stays done rfl
  | some id =>
      obtain ⟨node, -, done⟩ := Option.bind_eq_some_iff.mp done
      split at done
      · exact stays done rfl
      · obtain ⟨⟨t₁, fd⟩, alloc, done⟩ := Option.bind_eq_some_iff.mp done
        obtain ⟨next, rfl⟩ := allocFdFrom_eq alloc
        simp only at done
        split at done
        · exact stays done rfl
        · split at done
          · exact stays done rfl
          · split at done
            · exact stays done rfl
            · split at done
              · exact stays done rfl
              · exact stays done rfl

theorem FilesOnly.fsTypes (only : FilesOnly s s') : s'.fsTypes = s.fsTypes := by
  obtain ⟨world, files, next, rfl⟩ := only
  rfl

/-! ## Runs -/

/-- Every call keeps the list such, `vfs_register_filesystem` by its check. -/
theorem VfsStep.registered (honest : code.Honest) (keeps : code.KeepsRegistered)
    (inv : FileInv s) (registered : s.Registered) {op : VfsOp ω π}
    (taken : VfsStep code s op s') : s'.Registered := by
  have built (builds : Builds s s') : s'.Registered :=
    registered.of_same builds.tables.fsTypes
  cases taken with
  | mkdir live done => exact built (.single (.create live done))
  | mkdirP done => exact built (vfsMkdirP_builds inv.tree done)
  | mknod live done => exact built (.single (.create live done))
  | allocDirNode done =>
      obtain rfl := (Prod.mk.inj done).1
      exact built (.single (.allocDir s _))
  | unlink live done => exact registered.of_same (vfsUnlink_nodesOnly done).tables.fsTypes
  | @registerFilesystem _ type _ done =>
      have kept := vfsRegisterFilesystem_registered registered type
      rwa [done] at kept
  | mount done =>
      rcases vfsMount_cases honest live_route inv done with
        builds | ⟨s₁, mp, builds, -, s₂, node, mount, builds', -, -, rfl⟩
      · exact built builds
      · exact registered.of_same (builds'.tables.fsTypes.trans builds.tables.fsTypes)
  | umount done => exact vfsUmount_registered honest keeps inv registered done
  | lookup done => exact built (vfsLookup_builds honest live_route inv done).1
  | openPath done => exact registered.of_same (vfsOpen_fsTypes honest inv done)
  | read done => exact registered.of_same (vfsRead_only done).fsTypes
  | lseek done => exact registered.of_same (vfsLseek_only done).fsTypes
  | close done => exact registered.of_same (vfsClose_only done).fsTypes
  | world world => exact registered

/-- No run registers a file system without a `mount` callback. -/
theorem Vfs.Registered.reachable (honest : code.Honest) (keeps : code.KeepsRegistered)
    (reached : (vfsLts code).Reachable s) : s.Registered := by
  have both : FileInv s ∧ s.Registered := by
    apply reached.invariant (fun s => FileInv s ∧ s.Registered)
    · intro s start
      refine ⟨FileInv.initial start, ?_⟩
      obtain ⟨mem, world, rfl⟩ := start
      have empty : (vfsInit (vfsStatic mem world) : Vfs ω π × Int).1.fsTypes = [] := by
        have alloc := (vfsAllocNode_nodesOnly (vfsStatic mem world : Vfs ω π) [slash] .dir none
          none).tables.fsTypes
        unfold vfsInit
        split
        · rename_i s₁ result
          rwa [result] at alloc
        · rename_i s₁ root result
          rwa [result] at alloc
      intro type member
      rw [empty] at member
      cases member
    · rintro s op s' _ ⟨inv, registered⟩ _ taken
      exact ⟨inv.step honest taken, taken.registered honest keeps inv registered⟩
  exact both.2

end Zsbl.Common
