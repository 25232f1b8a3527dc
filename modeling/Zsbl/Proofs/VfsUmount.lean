/-
Module: Zsbl.Proofs.VfsUmount
Purpose: Removing a leaf and removing a mount with its tree keep the links; when
  no mountpoint is freed, they keep the mount graph.
Trusted boundary: none
Main exports:
  FileInv.unlinked, VfsInv.unlinked, Unmounted, FileInv.unmounted,
  VfsInv.unmounted, FileInv.umount_found, vfsUmount_cases
-/
import Zsbl.Proofs.VfsMounts
import Zsbl.Proofs.VfsRemoval

namespace Zsbl.Common

open Zsbl.Lib

variable {ω π : Type} {s s' : Vfs ω π} {code : FsCode ω π}
  {holds : Vfs ω π → Nat → Prop}

/-! ## Unlinking -/

section Unlink

variable {id above : Nat} {leaf : VfsNode ω π}

/-- Walks do not pass through a childless node that no file system covers. -/
theorem Walk.unlinked (inv : VfsInv s) (unlinked : Unlinked s s' id)
    (live : s.nodes id = some leaf) (childless : leaf.child = none)
    (unmounted : leaf.mnt = none) {bound other : Nat} (walk : Walk s bound other)
    (ne : other ≠ id) : Walk s' bound other := by
  have noKids : s.kids id = [] :=
    (inv.tree.list id leaf live).functional (childless ▸ .nil)
  induction walk with
  | root isRoot => exact .root (unlinked.rootNode.trans isRoot)
  | @child other parent child dir childLive parent_eq dirLive uncovered _ ih =>
      have neParent : parent ≠ id := by
        rintro rfl
        have member := inv.tree.mem_kids.mpr ⟨child, childLive, parent_eq⟩
        rw [noKids] at member
        cases member
      obtain ⟨child', childLive', -, -, parent', -⟩ := unlinked.survives childLive ne
      obtain ⟨dir', dirLive', -, -, -, mnt'⟩ := unlinked.survives dirLive neParent
      exact .child childLive' (parent'.trans parent_eq) dirLive'
        (fun m mnt => uncovered m (mnt'.symm.trans mnt)) (ih neParent)
  | @cross m mount mountLive lt _ ih =>
      obtain ⟨dir, dirLive, -, mnt⟩ := inv.mounts.mountpoint m mount mountLive
      refine .cross (by rw [unlinked.mounts, mountLive]) lt (ih ?_)
      rintro rfl
      obtain rfl := Option.some.inj (live.symm.trans dirLive)
      rw [unmounted] at mnt
      cases mnt

/-- Unlinking a leaf that is not open keeps the links. -/
theorem FileInv.unlinked (inv : FileInv s) (unlinked : Unlinked s s' id)
    (tree : TreeInv s') (live : s.nodes id = some leaf)
    (parent : leaf.parent = some above)
    (closed : ∀ item ∈ s.fileHead, item.file.node ≠ id) : FileInv s' := by
  refine ⟨tree, ?_⟩
  constructor <;> try rw [unlinked.mounts]
  · rw [unlinked.nextMount]
    exact inv.links.lt
  · intro other node m live' mnt
    obtain ⟨-, before, wasLive, -, -, -, mnt'⟩ := unlinked.node live'
    exact inv.links.mounted other before m wasLive (mnt'.symm.trans mnt)
  · intro m mount mountLive
    obtain ⟨dir, dirLive, isDir, top, mnt⟩ := inv.links.root m mount mountLive
    have ne : mount.root ≠ id := by
      rintro rfl
      obtain rfl := Option.some.inj (live.symm.trans dirLive)
      rw [top] at parent
      cases parent
    obtain ⟨dir', dirLive', -, type', parent', mnt'⟩ := unlinked.survives dirLive ne
    exact ⟨dir', dirLive', type'.trans isDir, parent'.trans top, mnt'.trans mnt⟩
  · exact inv.links.below
  · exact inv.links.distinct
  · rw [unlinked.rootNode]
    exact inv.links.notRoot
  · rw [unlinked.fileHead]
    intro item member
    obtain ⟨node, fileLive⟩ := Option.isSome_iff_exists.mp (inv.links.files item member)
    obtain ⟨node', live', -⟩ := unlinked.survives fileLive (closed item member)
    rw [live']
    rfl

/-- The invariant survives the unlinking of a node that nothing refers to. -/
theorem VfsInv.unlinked (inv : VfsInv s) (unlinked : Unlinked s s' id)
    (tree : TreeInv s') (live : s.nodes id = some leaf)
    (parent : leaf.parent = some above) (childless : leaf.child = none)
    (unmounted : leaf.mnt = none) (closed : ∀ item ∈ s.fileHead, item.file.node ≠ id) :
    VfsInv s' := by
  have notMountpoint : ∀ m mount, s.mounts m = some mount → mount.mountpoint ≠ id := by
    rintro m mount mountLive rfl
    obtain ⟨dir, dirLive, -, mnt⟩ := inv.mounts.mountpoint m mount mountLive
    obtain rfl := Option.some.inj (live.symm.trans dirLive)
    rw [unmounted] at mnt
    cases mnt
  obtain ⟨tree, links⟩ := inv.files.unlinked unlinked tree live parent closed
  refine ⟨tree, links.mounts ?_ ?_⟩ <;> rw [unlinked.mounts] <;> intro m mount mountLive
  · obtain ⟨dir, dirLive, isDir, mnt⟩ := inv.mounts.mountpoint m mount mountLive
    obtain ⟨dir', dirLive', -, type', -, mnt'⟩ :=
      unlinked.survives dirLive (notMountpoint m mount mountLive)
    exact ⟨dir', dirLive', type'.trans isDir, mnt'.trans mnt⟩
  · exact (inv.mounts.walk m mount mountLive).unlinked inv unlinked live childless
      unmounted (notMountpoint m mount mountLive)

end Unlink

/-! ## Unmounting -/

/-- A mount and its tree have been freed and its mountpoint cleared. -/
structure Unmounted (s s' : Vfs ω π) (m : Nat) (mount : VfsMount π) : Prop where
  mem : ∃ calls, s'.mem = fun call => s.mem (call + calls)
  gone : ∀ id, Under s mount.root id → s'.nodes id = none
  kept : ∀ id, ¬Under s mount.root id → id ≠ mount.mountpoint → s'.nodes id = s.nodes id
  cleared : ∃ node, s.nodes mount.mountpoint = some node ∧
    s'.nodes mount.mountpoint = some { node with mnt := none }
  mounts : s'.mounts = Function.update s.mounts m none
  nextNode : s'.nextNode = s.nextNode
  nextMount : s'.nextMount = s.nextMount
  rootNode : s'.rootNode = s.rootNode
  fileHead : s'.fileHead = s.fileHead
  ready : s'.ready = s.ready

section Unmount

variable {m : Nat} {mount : VfsMount π}

/-- A remaining node is as before, but for the `mnt` field of the mountpoint. -/
theorem Unmounted.node (gone : Unmounted s s' m mount) {id : Nat} {node' : VfsNode ω π}
    (live' : s'.nodes id = some node') :
    ¬Under s mount.root id ∧ ∃ node, s.nodes id = some node ∧
      node'.parent = node.parent ∧ node'.type = node.type ∧
      (node'.mnt = none ∨ id ≠ mount.mountpoint ∧ node'.mnt = node.mnt) := by
  have notUnder : ¬Under s mount.root id := by
    intro under
    rw [gone.gone id under] at live'
    cases live'
  by_cases eq : id = mount.mountpoint
  · subst eq
    obtain ⟨node, live, cleared⟩ := gone.cleared
    obtain rfl := Option.some.inj (cleared.symm.trans live')
    exact ⟨notUnder, node, live, rfl, rfl, Or.inl rfl⟩
  · rw [gone.kept id notUnder eq] at live'
    exact ⟨notUnder, node', live', rfl, rfl, Or.inr ⟨eq, rfl⟩⟩

/-- A node outside of the tree that is unmounted keeps its links. -/
theorem Unmounted.survives (gone : Unmounted s s' m mount) {id : Nat} {node : VfsNode ω π}
    (live : s.nodes id = some node) (notUnder : ¬Under s mount.root id) :
    ∃ node', s'.nodes id = some node' ∧ node'.parent = node.parent ∧
      node'.type = node.type ∧ (node'.mnt = none ∨ node'.mnt = node.mnt) ∧
      (id ≠ mount.mountpoint → node' = node) := by
  by_cases eq : id = mount.mountpoint
  · subst eq
    obtain ⟨node₁, live₁, cleared⟩ := gone.cleared
    obtain rfl := Option.some.inj (live.symm.trans live₁)
    exact ⟨_, cleared, rfl, rfl, Or.inl rfl, fun ne => absurd rfl ne⟩
  · exact ⟨node, (gone.kept id notUnder eq).trans live, rfl, rfl, Or.inr rfl,
      fun _ => rfl⟩

/-- The other mounts are as they were. -/
theorem Unmounted.other_mount (gone : Unmounted s s' m mount) {m' : Nat} {other : VfsMount π}
    (live' : s'.mounts m' = some other) : m' ≠ m ∧ s.mounts m' = some other := by
  rw [gone.mounts] at live'
  by_cases eq : m' = m
  · subst eq
    rw [Function.update_self] at live'
    cases live'
  · rw [Function.update_of_ne eq] at live'
    exact ⟨eq, live'⟩

/-- No walk to a node outside the freed tree enters it, when the tree holds no
mountpoint. -/
theorem Walk.unmounted (inv : VfsInv s) (gone : Unmounted s s' m mount)
    (flat : ∀ id node, Under s mount.root id → s.nodes id = some node → node.mnt = none)
    (live : s.mounts m = some mount) {bound id : Nat} (walk : Walk s bound id)
    (outside : ¬Under s mount.root id) : Walk s' bound id := by
  induction walk with
  | root isRoot => exact .root (gone.rootNode.trans isRoot)
  | child childLive parent_eq dirLive uncovered _ ih =>
      have outside' := fun under => outside (.child childLive parent_eq under)
      obtain ⟨child', childLive', parent', -⟩ := gone.survives childLive outside
      obtain ⟨dir', dirLive', -, -, mnt', -⟩ := gone.survives dirLive outside'
      refine .child childLive' (parent'.trans parent_eq) dirLive' (fun k mnt => ?_)
        (ih outside')
      rcases mnt' with cleared | same
      · rw [cleared] at mnt
        cases mnt
      · exact uncovered k (same.symm.trans mnt)
  | @cross k other otherLive lt _ ih =>
      have ne : k ≠ m := by
        rintro rfl
        obtain rfl := Option.some.inj (live.symm.trans otherLive)
        exact outside .self
      obtain ⟨dir, dirLive, -, mnt⟩ := inv.mounts.mountpoint k other otherLive
      refine .cross ?_ lt (ih fun under => ?_)
      · rw [gone.mounts, Function.update_of_ne ne, otherLive]
      · rw [flat _ dir under dirLive] at mnt
        cases mnt

/-- Freeing a mount with its tree, in which no file is open, keeps the links. -/
theorem FileInv.unmounted (inv : FileInv s) (gone : Unmounted s s' m mount)
    (tree : TreeInv s') (live : s.mounts m = some mount)
    (covered : ∃ dir, s.nodes mount.mountpoint = some dir ∧ dir.mnt = some m)
    (closed : ∀ item ∈ s.fileHead, ¬Under s mount.root item.file.node) :
    FileInv s' := by
  refine ⟨tree, ?_⟩
  constructor
  · intro k other otherLive
    rw [gone.nextMount]
    exact inv.links.lt k other (gone.other_mount otherLive).2
  · intro id node k live' mnt
    obtain ⟨-, before, wasLive, -, -, mnt'⟩ := gone.node live'
    rcases mnt' with cleared | ⟨ne, same⟩
    · rw [cleared] at mnt
      cases mnt
    · obtain ⟨other, otherLive, rfl⟩ :=
        inv.links.mounted id before k wasLive (same.symm.trans mnt)
      refine ⟨other, ?_, rfl⟩
      have neMount : k ≠ m := by
        rintro rfl
        obtain rfl := Option.some.inj (live.symm.trans otherLive)
        exact ne rfl
      rw [gone.mounts, Function.update_of_ne neMount, otherLive]
  · intro k other otherLive
    obtain ⟨ne, wasLive⟩ := gone.other_mount otherLive
    obtain ⟨dir, dirLive, isDir, top, mnt⟩ := inv.links.root k other wasLive
    have notUnder : ¬Under s mount.root other.root := by
      intro under
      exact ne (inv.links.distinct k m other mount wasLive live
        (under.eq_of_top dirLive top))
    have notMountpoint : other.root ≠ mount.mountpoint := by
      intro same
      obtain ⟨dir', dirLive', mnt'⟩ := covered
      rw [same] at dirLive
      obtain rfl := Option.some.inj (dirLive.symm.trans dirLive')
      rw [mnt] at mnt'
      cases mnt'
    exact ⟨dir, (gone.kept _ notUnder notMountpoint).trans dirLive, isDir, top, mnt⟩
  · intro k other otherLive
    exact inv.links.below k other (gone.other_mount otherLive).2
  · intro k k' other other' otherLive otherLive' same
    exact inv.links.distinct k k' other other' (gone.other_mount otherLive).2
      (gone.other_mount otherLive').2 same
  · intro k other otherLive
    rw [gone.rootNode]
    exact inv.links.notRoot k other (gone.other_mount otherLive).2
  · rw [gone.fileHead]
    intro item member
    obtain ⟨node, fileLive⟩ := Option.isSome_iff_exists.mp (inv.links.files item member)
    obtain ⟨node', live', -⟩ := gone.survives fileLive (closed item member)
    rw [live']
    rfl

/-- The invariant survives an unmounting without open files or inner mounts. -/
theorem VfsInv.unmounted (inv : VfsInv s) (gone : Unmounted s s' m mount)
    (tree : TreeInv s') (live : s.mounts m = some mount)
    (flat : ∀ id node, Under s mount.root id → s.nodes id = some node → node.mnt = none)
    (closed : ∀ item ∈ s.fileHead, ¬Under s mount.root item.file.node) :
    VfsInv s' := by
  have outside : ∀ k other, s.mounts k = some other →
      ¬Under s mount.root other.mountpoint := by
    intro k other otherLive under
    obtain ⟨dir, dirLive, -, mnt⟩ := inv.mounts.mountpoint k other otherLive
    rw [flat _ dir under dirLive] at mnt
    cases mnt
  obtain ⟨covered, coveredLive, -, coveredBy⟩ := inv.mounts.mountpoint m mount live
  -- the mountpoint of another mount is another node
  have elsewhere : ∀ k other, k ≠ m → s.mounts k = some other →
      other.mountpoint ≠ mount.mountpoint := by
    intro k other ne otherLive same
    obtain ⟨dir, dirLive, -, mnt⟩ := inv.mounts.mountpoint k other otherLive
    rw [same] at dirLive
    obtain rfl := Option.some.inj (dirLive.symm.trans coveredLive)
    exact ne (Option.some.inj (mnt.symm.trans coveredBy))
  obtain ⟨tree, links⟩ :=
    inv.files.unmounted gone tree live ⟨covered, coveredLive, coveredBy⟩ closed
  refine ⟨tree, links.mounts ?_ ?_⟩ <;> intro k other otherLive <;>
    obtain ⟨ne, wasLive⟩ := gone.other_mount otherLive
  · obtain ⟨dir, dirLive, isDir, mnt⟩ := inv.mounts.mountpoint k other wasLive
    exact ⟨dir, (gone.kept _ (outside k other wasLive)
      (elsewhere k other ne wasLive)).trans dirLive, isDir, mnt⟩
  · exact (inv.mounts.walk k other wasLive).unmounted inv gone flat live
      (outside k other wasLive)

end Unmount

/-- A node whose climb misses the root is outside of the tree. -/
theorem nodeUnderRoot_false {root fuel : Nat} {id : Nat}
    (done : nodeUnderRoot s root fuel (some id) = some false) : ¬Under s root id := by
  induction fuel generalizing id with
  | zero => cases done
  | succ fuel ih =>
      simp only [nodeUnderRoot] at done
      split at done
      · cases done
      · rename_i ne
        obtain ⟨node, live, done⟩ := Option.bind_eq_some_iff.mp done
        intro under
        cases under with
        | self => exact ne rfl
        | child live' parent under =>
            obtain rfl := Option.some.inj (live.symm.trans live')
            rw [parent] at done
            exact ih done under

/-- No open file is in a tree that is free to go. -/
theorem anyUnderRoot_false {root : Nat} {items : List (VfsFileItem π)}
    (done : anyUnderRoot s root items = some false) :
    ∀ item ∈ items, ¬Under s root item.file.node := by
  induction items with
  | nil => simp
  | cons item rest ih =>
      obtain ⟨under, first, done⟩ := Option.bind_eq_some_iff.mp done
      cases under with
      | true => cases done
      | false =>
          intro other member
          rcases List.mem_cons.mp member with rfl | member
          · exact nodeUnderRoot_false first
          · exact ih done other member

theorem Under.of_same (same : SameTree s s') {root id : Nat} (under : Under s root id) :
    Under s' root id := by
  induction under with
  | self => exact .self
  | child live parent _ ih =>
      obtain ⟨node', live', shape⟩ := same.symm.node live
      exact .child live' ((VfsNode.shape_eq.mp shape).2.2.1.trans parent) ih

/-- Clearing the mountpoint and freeing the tree and the mount. -/
theorem FileInv.umount (inv : FileInv s) {m : Nat} {mount : VfsMount π}
    {mp : VfsNode ω π} (live : s.mounts m = some mount)
    (mpLive : s.nodes mount.mountpoint = some mp) :
    ∃ s', vfsFreeSubtree (s.setNode mount.mountpoint { mp with mnt := none })
        mount.root = some s' ∧
      TreeInv s' ∧
      Unmounted s { s' with mounts := Function.update s'.mounts m none } m mount := by
  obtain ⟨dir, rootLive, -, top, -⟩ := inv.links.root m mount live
  have below := inv.links.below m mount live
  have same : SameTree s (s.setNode mount.mountpoint { mp with mnt := none }) := by
    refine ⟨fun id => ?_, rfl, rfl⟩
    by_cases eq : id = mount.mountpoint
    · subst eq
      simp [mpLive, VfsNode.shape]
    · simp [Function.update_of_ne eq]
  have tree := inv.tree.of_same same
  have rootLive' : (s.setNode mount.mountpoint { mp with mnt := none }).nodes mount.root =
      some dir := by
    simp [Function.update_of_ne (Nat.ne_of_gt below), rootLive]
  obtain ⟨s₁, freed, isFreed⟩ := tree.vfsFreeSubtree
    (Option.isSome_iff_exists.mpr ⟨dir, rootLive'⟩)
  have other := isFreed.other
  refine ⟨s₁, freed, isFreed.tree tree rootLive' top
    (inv.links.notRoot m mount live), ?_⟩
  constructor
  · exact ⟨0, by rw [other]; rfl⟩
  · intro id under
    exact isFreed.gone id (under.of_same same)
  · intro id outside ne
    have outside' := fun under => outside (Under.of_same same.symm under)
    show s₁.nodes id = _
    rw [isFreed.kept id outside']
    simp [Function.update_of_ne ne]
  · refine ⟨mp, mpLive, ?_⟩
    have outside : ¬Under (s.setNode mount.mountpoint { mp with mnt := none })
        mount.root mount.mountpoint := by
      intro under
      have le := under.le tree
      omega
    show s₁.nodes mount.mountpoint = _
    rw [isFreed.kept _ outside]
    simp
  all_goals rw [other]; rfl

theorem callUmount_quiet (honest : code.Honest) (s : Vfs ω π) (mount : VfsMount π) :
    ∃ s' ret, callUmount code s mount = some (s', ret) ∧ Quiet s s' := by
  unfold callUmount
  cases umount : mount.sops.bind code.umount with
  | none => exact ⟨s, 0, rfl, (SameButHeap.refl s).quiet⟩
  | some umountFn =>
      obtain ⟨address, -, isUmount⟩ := Option.bind_eq_some_iff.mp umount
      exact honest.umount address umountFn s mount isUmount

theorem Quiet.under (quiet : Quiet s s') {root id : Nat} :
    Under s' root id ↔ Under s root id :=
  ⟨Under.of_same quiet.sameTree.symm, Under.of_same quiet.sameTree⟩

/-- What leaves the nodes alone may come before an unmounting. -/
theorem Unmounted.of_quiet {s₁ : Vfs ω π} (quiet : Quiet s s₁) {m : Nat}
    {mount : VfsMount π} (gone : Unmounted s₁ s' m mount) : Unmounted s s' m mount where
  mem := by
    obtain ⟨calls, mem⟩ := quiet.mem
    obtain ⟨calls', mem'⟩ := gone.mem
    exact ⟨calls' + calls, by simp [mem', mem, Nat.add_assoc]⟩
  gone := fun id under => gone.gone id (quiet.under.mpr under)
  kept := by
    intro id outside ne
    rw [gone.kept id (fun under => outside (quiet.under.mp under)) ne, quiet.nodes]
  cleared := by rw [← quiet.nodes]; exact gone.cleared
  mounts := by rw [gone.mounts, quiet.mounts]
  nextNode := gone.nextNode.trans quiet.nextNode
  nextMount := gone.nextMount.trans quiet.nextMount
  rootNode := gone.rootNode.trans quiet.rootNode
  fileHead := gone.fileHead.trans quiet.fileHead
  ready := gone.ready.trans quiet.ready

/-- The part of `vfs_umount` that no error stops: it frees the mount. -/
theorem FileInv.umount_found (honest : code.Honest) (inv : FileInv s) {m : Nat}
    {mount : VfsMount π} {mp : VfsNode ω π} (live : s.mounts m = some mount)
    (mpLive : s.nodes mount.mountpoint = some mp) :
    ∃ s₁ ret s₂, callUmount code s mount = some (s₁, ret) ∧
      s₁.nodes mount.mountpoint = some mp ∧
      vfsFreeSubtree (s₁.setNode mount.mountpoint { mp with mnt := none })
        mount.root = some s₂ ∧ TreeInv s₂ ∧
      Unmounted s { s₂ with mounts := Function.update s₂.mounts m none } m mount := by
  obtain ⟨s₁, ret, called, quiet⟩ := callUmount_quiet honest s mount
  have inv₁ : FileInv s₁ :=
    ⟨inv.tree.of_same quiet.sameTree, inv.links.extends quiet.extends⟩
  have mpLive₁ : s₁.nodes mount.mountpoint = some mp := by rw [quiet.nodes, mpLive]
  obtain ⟨s₂, freed, tree, gone⟩ := inv₁.umount (by rw [quiet.mounts, live]) mpLive₁
  exact ⟨s₁, ret, s₂, called, mpLive₁, freed, tree, gone.of_quiet quiet⟩

/-- A successful `vfs_umount` frees the mount at the mountpoint that its path
leads to, with its tree; a failed one has only built. -/
theorem vfsUmount_cases (honest : code.Honest) (inv : FileInv s) {target : Option CStr}
    {ret : Int} (done : vfsUmount code s target = some (s', ret)) :
    (ret < 0 ∧ Builds s s') ∨
      ret = 0 ∧ ∃ path s₁ mp inner dir m mount, target = some path ∧
        vfsLookupNodeEx code s path false = some (s₁, some (mp, inner)) ∧
        Builds s s₁ ∧ s₁.nodes mp = some dir ∧ dir.mnt = some m ∧
        s₁.mounts m = some mount ∧ mount.mountpoint = mp ∧
        anyUnderRoot s₁ mount.root s₁.fileHead = some false ∧ TreeInv s' ∧
        Unmounted s₁ s' m mount := by
  unfold vfsUmount at done
  split at done
  · obtain ⟨rfl, rfl⟩ := Prod.mk.inj (Option.some.inj done)
    exact Or.inl ⟨by decide, .refl⟩
  · rename_i path
    split at done
    · obtain ⟨rfl, rfl⟩ := Prod.mk.inj (Option.some.inj done)
      exact Or.inl ⟨by decide, .refl⟩
    · rename_i valid
      obtain ⟨⟨s₁, found⟩, search, done⟩ := Option.bind_eq_some_iff.mp done
      have resolved :=
        vfsLookupNodeEx_resolved honest live_route inv (by simpa using valid) search
      have inv₁ := (resolved.builds.files inv).1
      cases found with
      | none =>
          obtain ⟨rfl, rfl⟩ := Prod.mk.inj (Option.some.inj done)
          exact Or.inl ⟨by decide, resolved.builds⟩
      | some found =>
          obtain ⟨mp, inner⟩ := found
          obtain ⟨dir, dirLive, done⟩ := Option.bind_eq_some_iff.mp done
          cases mnt : dir.mnt with
          | none =>
              simp only [mnt, Option.pure_def, Option.some.injEq, Prod.mk.injEq] at done
              obtain ⟨rfl, rfl⟩ := done
              exact Or.inl ⟨by decide, resolved.builds⟩
          | some m =>
              simp only [mnt] at done
              obtain ⟨mount, mountLive, done⟩ := Option.bind_eq_some_iff.mp done
              obtain ⟨busy, open', done⟩ := Option.bind_eq_some_iff.mp done
              obtain ⟨mount', mountLive', rfl⟩ := inv₁.links.mounted mp dir m dirLive mnt
              obtain rfl := Option.some.inj (mountLive.symm.trans mountLive')
              cases busy with
              | true =>
                  obtain ⟨rfl, rfl⟩ := Prod.mk.inj (Option.some.inj done)
                  exact Or.inl ⟨by decide, resolved.builds⟩
              | false =>
                  right
                  obtain ⟨s₂, ret₂, s₃, called, nodeLive, freed, tree, gone⟩ :=
                    inv₁.umount_found honest mountLive dirLive
                  simp only [called, nodeLive, freed, Option.bind_eq_bind,
                    Option.bind_some, Option.pure_def, Bool.false_eq_true, if_false,
                    Option.some.injEq, Prod.mk.injEq] at done
                  obtain ⟨rfl, rfl⟩ := done
                  exact ⟨rfl, path, s₁, _, inner, dir, m, mount, rfl, search,
                    resolved.builds, dirLive, mnt, mountLive, rfl, open',
                    tree.of_same ⟨fun _ => rfl, rfl, rfl⟩, gone⟩

end Zsbl.Common
