/-
Module: Zsbl.Proofs.VfsInvariant
Purpose: What a call can do to the VFS, and from it the invariants of every run
  and of the runs that free no mountpoint.
Trusted boundary: none
Main exports:
  Refiled, Effect, VfsStep.effect, FileInv.step, VfsInv.step, FileInv.initial,
  VfsInv.initial
-/
import Zsbl.Proofs.VfsMount
import Zsbl.Proofs.VfsUmount

namespace Zsbl.Common

open Zsbl.Lib

variable {ω π : Type} {s s' : Vfs ω π} {code : FsCode ω π}
  {holds : Vfs ω π → Nat → Prop}

/-! ## Open files -/

/-- The open files change, all of which still have nodes. -/
structure Refiled (s s' : Vfs ω π) : Prop where
  nodes : s'.nodes = s.nodes
  mounts : s'.mounts = s.mounts
  nextNode : s'.nextNode = s.nextNode
  nextMount : s'.nextMount = s.nextMount
  rootNode : s'.rootNode = s.rootNode
  files : ∀ item ∈ s'.fileHead, (s.nodes item.file.node).isSome

theorem Refiled.sameTree (refiled : Refiled s s') : SameTree s s' :=
  ⟨fun id => by rw [refiled.nodes], refiled.nextNode, refiled.rootNode⟩

/-- The invariant survives a change of the files to live nodes. -/
theorem FileInv.refiled (inv : FileInv s) (refiled : Refiled s s') : FileInv s' := by
  refine ⟨inv.tree.of_same refiled.sameTree, ?_⟩
  constructor
  · rw [refiled.mounts, refiled.nextMount]
    exact inv.links.lt
  · rw [refiled.nodes, refiled.mounts]
    exact inv.links.mounted
  · rw [refiled.nodes, refiled.mounts]
    exact inv.links.root
  · rw [refiled.mounts]
    exact inv.links.below
  · rw [refiled.mounts]
    exact inv.links.distinct
  · rw [refiled.mounts, refiled.rootNode]
    exact inv.links.notRoot
  · rw [refiled.nodes]
    exact refiled.files

theorem Walk.refiled (refiled : Refiled s s') {bound id : Nat} (walk : Walk s bound id) :
    Walk s' bound id := by
  induction walk with
  | root isRoot => exact .root (refiled.rootNode.trans isRoot)
  | child live parent dirLive uncovered _ ih =>
      exact .child (by rw [refiled.nodes, live]) parent (by rw [refiled.nodes, dirLive])
        uncovered ih
  | cross live lt _ ih => exact .cross (by rw [refiled.mounts, live]) lt ih

theorem VfsInv.refiled (inv : VfsInv s) (refiled : Refiled s s') : VfsInv s' := by
  obtain ⟨tree, links⟩ := inv.files.refiled refiled
  refine ⟨tree, links.mounts ?_ ?_⟩ <;> rw [refiled.mounts]
  · rw [refiled.nodes]
    exact inv.mounts.mountpoint
  · intro m mount live
    exact (inv.mounts.walk m mount live).refiled refiled

theorem FileInv.same (inv : FileInv s) : Refiled s s :=
  ⟨rfl, rfl, rfl, rfl, rfl, inv.links.files⟩

/-- The search for a descriptor moves the counter alone. -/
theorem allocFdFrom_eq {start nextFd fd : Int} {fuel : Nat}
    (done : allocFdFrom s start fuel nextFd = some (s', fd)) :
    ∃ next, s' = { s with nextFd := next } := by
  induction fuel generalizing nextFd with
  | zero => cases done
  | succ fuel ih =>
      simp only [allocFdFrom] at done
      split at done
      · obtain ⟨rfl, -⟩ := Prod.mk.inj (Option.some.inj done)
        exact ⟨_, rfl⟩
      · split at done
        · obtain ⟨rfl, -⟩ := Prod.mk.inj (Option.some.inj done)
          exact ⟨_, rfl⟩
        · exact ih done

/-- Opening builds the way to the node and then adds a file. -/
theorem vfsOpen_refiled (honest : code.Honest) (inv : FileInv s) {path : Option CStr}
    {flags : Nat} {ret : Int} (done : vfsOpen code s path flags = some (s', ret)) :
    ∃ s₁, Builds s s₁ ∧ Refiled s₁ s' := by
  obtain ⟨⟨s₁, found⟩, search, done⟩ := Option.bind_eq_some_iff.mp done
  obtain ⟨builds, way⟩ := vfsLookup_builds honest live_route inv search
  have inv₁ := (builds.files inv).1
  refine ⟨s₁, builds, ?_⟩
  cases found with
  | none =>
      obtain ⟨rfl, rfl⟩ := Prod.mk.inj (Option.some.inj done)
      exact inv₁.same
  | some id =>
      have idLive := way id rfl
      obtain ⟨node, live, done⟩ := Option.bind_eq_some_iff.mp done
      split at done
      · obtain ⟨rfl, -⟩ := Prod.mk.inj (Option.some.inj done)
        exact inv₁.same
      · obtain ⟨⟨s₂, fd⟩, alloc, done⟩ := Option.bind_eq_some_iff.mp done
        obtain ⟨next, rfl⟩ := allocFdFrom_eq alloc
        have files : ∀ {file : VfsFile π}, file.node = id →
            ∀ item ∈ (⟨fd, file⟩ :: s₁.fileHead : List (VfsFileItem π)),
              (s₁.nodes item.file.node).isSome := by
          intro file same item member
          rcases List.mem_cons.mp member with rfl | member
          · simpa [same] using idLive
          · exact inv₁.links.files item member
        simp only at done
        split at done
        · obtain ⟨rfl, -⟩ := Prod.mk.inj (Option.some.inj done)
          exact ⟨rfl, rfl, rfl, rfl, rfl, inv₁.links.files⟩
        · split at done
          · obtain ⟨rfl, -⟩ := Prod.mk.inj (Option.some.inj done)
            exact ⟨rfl, rfl, rfl, rfl, rfl, inv₁.links.files⟩
          · split at done
            · obtain ⟨rfl, -⟩ := Prod.mk.inj (Option.some.inj done)
              exact ⟨rfl, rfl, rfl, rfl, rfl, files rfl⟩
            · split at done
              · obtain ⟨rfl, -⟩ := Prod.mk.inj (Option.some.inj done)
                exact ⟨rfl, rfl, rfl, rfl, rfl, inv₁.links.files⟩
              · obtain ⟨rfl, -⟩ := Prod.mk.inj (Option.some.inj done)
                exact ⟨rfl, rfl, rfl, rfl, rfl, files rfl⟩

/-- Storing into an open file leaves its node. -/
theorem setFile_nodes {fd : Int} {file : VfsFile π} {items : List (VfsFileItem π)}
    {item other : VfsFileItem π} (member : other ∈ setFile fd file items)
    (found : items.find? (·.fd = fd) = some item) (same : file.node = item.file.node) :
    ∃ before ∈ items, before.file.node = other.file.node := by
  induction items with
  | nil => cases member
  | cons first rest ih =>
      simp only [setFile] at member
      split at member
      · rename_i isFd
        obtain rfl : first = item := by simpa [isFd] using found
        rcases List.mem_cons.mp member with rfl | member
        · exact ⟨first, List.mem_cons_self, same.symm⟩
        · exact ⟨other, List.mem_cons_of_mem _ member, rfl⟩
      · rename_i notFd
        rcases List.mem_cons.mp member with rfl | member
        · exact ⟨other, List.mem_cons_self, rfl⟩
        · obtain ⟨before, old, eq⟩ := ih member (by simpa [notFd] using found)
          exact ⟨before, List.mem_cons_of_mem _ old, eq⟩

/-- Reading keeps every file at its node. -/
theorem vfsRead_refiled (inv : FileInv s) {fd : Int} {buf : Bool} {len : Nat} {ret : Int}
    {bytes : List UInt8} (done : vfsRead s fd buf len = some (s', ret, bytes)) :
    Refiled s s' := by
  unfold vfsRead at done
  split at done
  · obtain ⟨rfl, -⟩ := Prod.mk.inj (Option.some.inj done)
    exact inv.same
  · rename_i item found
    split at done
    · obtain ⟨rfl, -⟩ := Prod.mk.inj (Option.some.inj done)
      exact inv.same
    · obtain ⟨node, -, done⟩ := Option.bind_eq_some_iff.mp done
      split at done
      · obtain ⟨rfl, -⟩ := Prod.mk.inj (Option.some.inj done)
        exact inv.same
      · obtain ⟨rfl, -⟩ := Prod.mk.inj (Option.some.inj done)
        refine ⟨rfl, rfl, rfl, rfl, rfl, fun other member => ?_⟩
        obtain ⟨before, old, same⟩ := setFile_nodes member found rfl
        exact same ▸ inv.links.files before old

/-- Seeking keeps every file at its node. -/
theorem vfsLseek_refiled (inv : FileInv s) {fd off : Int} {whence : Whence} {ret : Int}
    (done : vfsLseek s fd off whence = (s', ret)) : Refiled s s' := by
  have seek : ∀ {item : VfsFileItem π} {base : Int},
      s.fileHead.find? (·.fd = fd) = some item →
      vfsLseek.seek s fd off item base = (s', ret) → Refiled s s' := by
    intro item base found done
    unfold vfsLseek.seek at done
    simp only at done
    split at done
    · obtain ⟨rfl, -⟩ := Prod.mk.inj done
      exact inv.same
    · obtain ⟨rfl, -⟩ := Prod.mk.inj done
      refine ⟨rfl, rfl, rfl, rfl, rfl, fun other member => ?_⟩
      obtain ⟨before, old, same⟩ := setFile_nodes member found rfl
      exact same ▸ inv.links.files before old
  unfold vfsLseek at done
  split at done
  · obtain ⟨rfl, -⟩ := Prod.mk.inj done
    exact inv.same
  · rename_i item found
    cases whence with
    | fin =>
        obtain ⟨rfl, -⟩ := Prod.mk.inj done
        exact inv.same
    | other =>
        obtain ⟨rfl, -⟩ := Prod.mk.inj done
        exact inv.same
    | set => exact seek found done
    | cur => exact seek found done

/-- Closing keeps every other file at its node. -/
theorem vfsClose_refiled (inv : FileInv s) {fd ret : Int}
    (done : vfsClose s fd = some (s', ret)) : Refiled s s' := by
  have fewer : ∀ item ∈ s.fileHead.eraseP (·.fd = fd), (s.nodes item.file.node).isSome :=
    fun item member => inv.links.files item (List.mem_of_mem_eraseP member)
  unfold vfsClose at done
  split at done
  · obtain ⟨rfl, -⟩ := Prod.mk.inj (Option.some.inj done)
    exact inv.same
  · obtain ⟨node, -, done⟩ := Option.bind_eq_some_iff.mp done
    split at done
    · obtain ⟨rfl, -⟩ := Prod.mk.inj (Option.some.inj done)
      exact ⟨rfl, rfl, rfl, rfl, rfl, fewer⟩
    · obtain ⟨rfl, -⟩ := Prod.mk.inj (Option.some.inj done)
      exact ⟨rfl, rfl, rfl, rfl, rfl, fewer⟩

/-! ## Calls -/

/-- What a call does: it builds and changes the open files, it unlinks a leaf
that is not open, a mount takes effect where its route leads, or it frees a
mount with its tree, in which no file is open. -/
inductive Effect (code : FsCode ω π) (holds : Vfs ω π → Nat → Prop) (s : Vfs ω π)
    (op : VfsOp ω π) (s' : Vfs ω π) : Prop where
  | refiled (s₁ : Vfs ω π) (builds : Builds s s₁) (refiled : Refiled s₁ s')
  | unlinked (above id : Nat) (name : CStr) (leaf : VfsNode ω π)
      (isUnlink : op = .unlink (some above) name)
      (found : vfsFindChildByName s above name = some (some id))
      (live : s.nodes id = some leaf) (parent : leaf.parent = some above)
      (childless : leaf.child = none)
      (closed : ∀ item ∈ s.fileHead, item.file.node ≠ id)
      (unlinked : Unlinked s s' id) (tree : TreeInv s')
  | mounted (s₁ : Vfs ω π) (node : VfsNode ω π) (mount : VfsMount π)
      (builds : Builds s s₁) (way : holds s₁ mount.mountpoint)
      (able : Mountable s₁ node mount) (effect : s' = s₁.mounted node mount)
  | unmounted (s₁ : Vfs ω π) (path : CStr) (mp : Nat) (inner : Option Nat)
      (dir : VfsNode ω π) (m : Nat) (mount : VfsMount π)
      (isUmount : op = .umount (some path))
      (search : vfsLookupNodeEx code s path false = some (s₁, some (mp, inner)))
      (builds : Builds s s₁) (mpLive : s₁.nodes mp = some dir)
      (covered : dir.mnt = some m) (live : s₁.mounts m = some mount)
      (mountpoint : mount.mountpoint = mp)
      (closed : anyUnderRoot s₁ mount.root s₁.fileHead = some false)
      (gone : Unmounted s₁ s' m mount) (tree : TreeInv s')

/-- Every call builds nodes, mounts, unmounts, unlinks or changes the files. -/
theorem VfsStep.effect (honest : code.Honest) (route : Route holds) (inv : FileInv s)
    {op : VfsOp ω π} (taken : VfsStep code s op s') : Effect code holds s op s' := by
  have built : Builds s s' → Effect code holds s op s' := fun builds =>
    .refiled s' builds (builds.files inv).1.same
  cases taken with
  | mkdir live done => exact built (.single (.create live done))
  | mkdirP done => exact built (vfsMkdirP_builds inv.tree done)
  | mknod live done => exact built (.single (.create live done))
  | allocDirNode done =>
      obtain rfl := (Prod.mk.inj done).1
      exact built (.single (.allocDir s _))
  | @unlink _ parent name ret live done =>
      rcases inv.tree.vfsUnlink live name with
        ⟨ret, failed, -⟩ |
          ⟨s₁, above, id, leaf, rfl, result, found, leafLive, above', childless,
            closed, unlinked, tree⟩
      · obtain ⟨rfl, -⟩ := Prod.mk.inj (Option.some.inj (failed.symm.trans done))
        exact built .refl
      · obtain ⟨rfl, -⟩ := Prod.mk.inj (Option.some.inj (result.symm.trans done))
        exact .unlinked above id name leaf rfl found leafLive above' childless closed
          unlinked tree
  | registerFilesystem done =>
      have same : ∃ types, s' = { s with fsTypes := types } := by
        unfold vfsRegisterFilesystem at done
        split at done
        · exact ⟨_, (Prod.mk.inj done).1.symm⟩
        · split at done
          · split at done <;> exact ⟨_, (Prod.mk.inj done).1.symm⟩
          · exact ⟨_, (Prod.mk.inj done).1.symm⟩
      obtain ⟨types, rfl⟩ := same
      exact .refiled s .refl ⟨rfl, rfl, rfl, rfl, rfl, inv.links.files⟩
  | mount done =>
      rcases vfsMount_cases honest route inv done with
        builds | ⟨s₁, mp, builds, way, s₂, node, mount, builds', rfl, able, effect⟩
      · exact built builds
      · have grown := (builds'.files (builds.files inv).1).2
        exact .mounted s₂ node mount (builds.trans builds')
          (route.grows s₁ s₂ _ grown way) able effect
  | umount done =>
      rcases vfsUmount_cases honest inv done with
        ⟨-, builds⟩ |
          ⟨-, path, s₁, mp, inner, dir, m, mount, rfl, search, builds, mpLive, covered,
            live, mountpoint, closed, tree, gone⟩
      · exact built builds
      · exact .unmounted s₁ path mp inner dir m mount rfl search builds mpLive covered live
          mountpoint closed gone tree
  | lookup done => exact built (vfsLookup_builds honest live_route inv done).1
  | openPath done =>
      obtain ⟨s₁, builds, refiled⟩ := vfsOpen_refiled honest inv done
      exact .refiled s₁ builds refiled
  | read done => exact .refiled s .refl (vfsRead_refiled inv done)
  | lseek done => exact .refiled s .refl (vfsLseek_refiled inv done)
  | close done => exact .refiled s .refl (vfsClose_refiled inv done)
  | world world => exact built (.single (.world s world))

/-! ## Runs -/

/-- Every call keeps the tree and the links. -/
theorem FileInv.step (honest : code.Honest) (inv : FileInv s) {op : VfsOp ω π}
    (taken : VfsStep code s op s') : FileInv s' := by
  cases taken.effect honest live_route inv with
  | refiled s₁ builds refiled => exact (builds.files inv).1.refiled refiled
  | unlinked above id name leaf isUnlink found live parent childless closed unlinked tree =>
      exact inv.unlinked unlinked tree live parent closed
  | mounted s₁ node mount builds way able effect =>
      rw [effect]
      exact (builds.files inv).1.mounted able
  | unmounted s₁ path mp inner dir m mount isUmount search builds mpLive covered live
      mountpoint closed gone tree =>
      subst mountpoint
      exact (builds.files inv).1.unmounted gone tree live ⟨dir, mpLive, covered⟩
        (anyUnderRoot_false closed)

/-- Every call that frees no mountpoint keeps the mount graph. -/
theorem VfsInv.step (honest : code.Honest) (inv : VfsInv s) {op : VfsOp ω π}
    (safe : KeepsMountpoints code s op) (taken : VfsStep code s op s') : VfsInv s' := by
  cases taken.effect honest walk_route inv.files with
  | refiled s₁ builds refiled => exact (builds.inv inv).1.refiled refiled
  | unlinked above id name leaf isUnlink found live parent childless closed unlinked tree =>
      subst isUnlink
      exact inv.unlinked unlinked tree live parent childless
        (safe id leaf found live childless) closed
  | mounted s₁ node mount builds way able effect =>
      rw [effect]
      exact (builds.inv inv).1.mounted able way
  | unmounted s₁ path mp inner dir m mount isUmount search builds mpLive covered live
      mountpoint closed gone tree =>
      subst isUmount
      exact (builds.inv inv).1.unmounted gone tree live
        (safe s₁ mp inner dir m mount search mpLive covered live closed)
        (anyUnderRoot_false closed)

/-- The invariant holds after `vfs_init`, also when it ran out of memory. -/
theorem VfsInv.initial (start : (vfsLts code).init s) : VfsInv s := by
  obtain ⟨mem, world, rfl⟩ := start
  have empty : VfsInv (vfsStatic mem world : Vfs ω π) := by
    constructor <;> constructor <;> simp [vfsStatic]
  unfold vfsInit
  rcases vfsAllocNode_cases (vfsStatic mem world : Vfs ω π) [slash] .dir none none with
    ⟨s₁, result, same⟩ | ⟨s₁, result, grown⟩
  · rw [result]
    exact ⟨empty.tree.of_same same.quiet.sameTree,
      empty.mounts.extends same.quiet.extends⟩
  · rw [result]
    have tree := empty.tree.alloc grown
    have mounts := empty.mounts.extends (empty.tree.extends_alloc grown)
    have noMounts : s₁.mounts = fun _ => none := grown.mounts
    have rootLive : s₁.nodes 0 = some (freshNode [slash] .dir none none) := by
      rw [grown.nodes]
      exact Function.update_self ..
    constructor
    · refine ⟨tree.lt, tree.parent, tree.list, tree.valid, tree.unique, ?_⟩
      intro id isRoot
      obtain rfl := Option.some.inj isRoot
      exact ⟨_, rootLive, rfl, rfl⟩
    · dsimp only
      constructor <;> simp [noMounts]
      intro id node m live mnt
      obtain ⟨mount, mountLive, -⟩ := mounts.mounted id node m live mnt
      simp [noMounts] at mountLive

theorem FileInv.initial (start : (vfsLts code).init s) : FileInv s :=
  (VfsInv.initial start).files

/-- The invariant of every run holds in every reachable state. -/
theorem FileInv.reachable (honest : code.Honest) (reached : (vfsLts code).Reachable s) :
    FileInv s := by
  apply reached.invariant FileInv
  · exact fun s start => FileInv.initial start
  · exact fun s op s' _ inv _ taken => inv.step honest taken

end Zsbl.Common
