/-
Module: Zsbl.Proofs.VfsMounts
Purpose: The links between mounts, mountpoints and open files, and the walks
  from the root of the VFS that path lookup takes.
Trusted boundary: none
Main exports:
  Walk, MountInv, LinkInv, FileInv, VfsInv, Route, vfsLookupNodeEx_resolved,
  vfsLookup_builds, vfsMkdirP_builds
-/
import Zsbl.Proofs.Vfs

namespace Zsbl.Common

open Zsbl.Lib

variable {ω π : Type} {s s' : Vfs ω π}

/-- The nodes that a path lookup visits when only the mounts below `bound`
exist: it crosses a mount wherever one covers the node it stands on. -/
inductive Walk (s : Vfs ω π) (bound : Nat) : Nat → Prop where
  | root {id : Nat} (isRoot : s.rootNode = some id) : Walk s bound id
  | child {id parent : Nat} {node dir : VfsNode ω π} (live : s.nodes id = some node)
      (parent_eq : node.parent = some parent) (dirLive : s.nodes parent = some dir)
      (uncovered : ∀ m, dir.mnt = some m → bound ≤ m)
      (above : Walk s bound parent) : Walk s bound id
  | cross {m : Nat} {mount : VfsMount π} (live : s.mounts m = some mount)
      (lt : m < bound) (above : Walk s bound mount.mountpoint) :
      Walk s bound mount.root

/-- Mounts are numbered in the order in which they are made.  A mount and its
mountpoint point at each other, its root is a parentless directory of its own,
and a walk over older mounts leads to its mountpoint.  Open files have nodes. -/
structure MountInv (s : Vfs ω π) : Prop where
  lt : ∀ m mount, s.mounts m = some mount → m < s.nextMount
  mountpoint : ∀ m mount, s.mounts m = some mount →
    ∃ dir, s.nodes mount.mountpoint = some dir ∧ dir.type = .dir ∧ dir.mnt = some m
  mounted : ∀ id node m, s.nodes id = some node → node.mnt = some m →
    ∃ mount, s.mounts m = some mount ∧ mount.mountpoint = id
  root : ∀ m mount, s.mounts m = some mount →
    ∃ dir, s.nodes mount.root = some dir ∧ dir.type = .dir ∧ dir.parent = none ∧
      dir.mnt = none
  below : ∀ m mount, s.mounts m = some mount → mount.mountpoint < mount.root
  distinct : ∀ m m' mount mount', s.mounts m = some mount →
    s.mounts m' = some mount' → mount.root = mount'.root → m = m'
  notRoot : ∀ m mount, s.mounts m = some mount → s.rootNode ≠ some mount.root
  walk : ∀ m mount, s.mounts m = some mount → Walk s m mount.mountpoint
  files : ∀ item ∈ s.fileHead, (s.nodes item.file.node).isSome

/-- What holds of mounts and open files whatever is unlinked or unmounted: the
mount of a node is a mount on it, the root of a mount is a parentless directory
of its own, and open files have nodes. -/
structure LinkInv (s : Vfs ω π) : Prop where
  lt : ∀ m mount, s.mounts m = some mount → m < s.nextMount
  mounted : ∀ id node m, s.nodes id = some node → node.mnt = some m →
    ∃ mount, s.mounts m = some mount ∧ mount.mountpoint = id
  root : ∀ m mount, s.mounts m = some mount →
    ∃ dir, s.nodes mount.root = some dir ∧ dir.type = .dir ∧ dir.parent = none ∧
      dir.mnt = none
  below : ∀ m mount, s.mounts m = some mount → mount.mountpoint < mount.root
  distinct : ∀ m m' mount mount', s.mounts m = some mount →
    s.mounts m' = some mount' → mount.root = mount'.root → m = m'
  notRoot : ∀ m mount, s.mounts m = some mount → s.rootNode ≠ some mount.root
  files : ∀ item ∈ s.fileHead, (s.nodes item.file.node).isSome

/-- The invariant of every run. -/
structure FileInv (s : Vfs ω π) : Prop where
  tree : TreeInv s
  links : LinkInv s

/-- The invariant of the runs that free no mountpoint. -/
structure VfsInv (s : Vfs ω π) : Prop where
  tree : TreeInv s
  mounts : MountInv s

theorem MountInv.links (inv : MountInv s) : LinkInv s :=
  ⟨inv.lt, inv.mounted, inv.root, inv.below, inv.distinct, inv.notRoot, inv.files⟩

theorem VfsInv.files (inv : VfsInv s) : FileInv s := ⟨inv.tree, inv.mounts.links⟩

/-- Mountpoints that stand, and walks to them, make up the rest. -/
theorem LinkInv.mounts (inv : LinkInv s)
    (mountpoint : ∀ m mount, s.mounts m = some mount →
      ∃ dir, s.nodes mount.mountpoint = some dir ∧ dir.type = .dir ∧ dir.mnt = some m)
    (walk : ∀ m mount, s.mounts m = some mount → Walk s m mount.mountpoint) :
    MountInv s :=
  ⟨inv.lt, mountpoint, inv.mounted, inv.root, inv.below, inv.distinct, inv.notRoot, walk,
    inv.files⟩

theorem Walk.attached {bound id : Nat} (walk : Walk s bound id) : Attached s id := by
  induction walk with
  | root isRoot => exact .root isRoot
  | child live parent_eq _ _ _ ih => exact .child live parent_eq ih
  | cross live _ _ ih => exact .cross live ih

/-- A walk over the mounts stays one when nodes are added. -/
theorem Walk.extends {bound id : Nat} (walk : Walk s bound id) (grown : Extends s s') :
    Walk s' bound id := by
  induction walk with
  | root isRoot => exact .root (grown.rootNode.trans isRoot)
  | child live parent_eq dirLive uncovered _ ih =>
      obtain ⟨node', live', -, -, parent', -⟩ := grown.node _ _ live
      obtain ⟨dir', dirLive', -, -, -, mnt'⟩ := grown.node _ _ dirLive
      exact .child live' (parent'.trans parent_eq) dirLive'
        (fun m mnt => uncovered m (mnt'.symm.trans mnt)) ih
  | cross live lt _ ih => exact .cross (by rw [grown.mounts, live]) lt ih

/-- New nodes leave the links as they are. -/
theorem LinkInv.extends (inv : LinkInv s) (grown : Extends s s') : LinkInv s' where
  lt := by
    rw [grown.mounts, grown.nextMount]
    exact inv.lt
  mounted := by
    rw [grown.mounts]
    intro id node' m live' mnt
    rcases grown.new id node' live' with old | ⟨-, unmounted⟩
    · obtain ⟨node, live⟩ := Option.isSome_iff_exists.mp old
      obtain ⟨other, same, -, -, -, mnt'⟩ := grown.node id node live
      obtain rfl := Option.some.inj (live'.symm.trans same)
      exact inv.mounted id node m live (mnt'.symm.trans mnt)
    · rw [unmounted] at mnt
      cases mnt
  root := by
    rw [grown.mounts]
    intro m mount live
    obtain ⟨dir, dirLive, isDir, top, mnt⟩ := inv.root m mount live
    obtain ⟨dir', dirLive', -, type', parent', mnt'⟩ := grown.node _ _ dirLive
    exact ⟨dir', dirLive', type'.trans isDir, parent'.trans top, mnt'.trans mnt⟩
  below := by rw [grown.mounts]; exact inv.below
  distinct := by rw [grown.mounts]; exact inv.distinct
  notRoot := by rw [grown.mounts, grown.rootNode]; exact inv.notRoot
  files := by
    rw [grown.fileHead]
    intro item member
    obtain ⟨node, live⟩ := Option.isSome_iff_exists.mp (inv.files item member)
    obtain ⟨node', live', -⟩ := grown.node _ _ live
    rw [live']
    rfl

/-- Added nodes leave the mounts linked both ways. -/
theorem MountInv.extends (inv : MountInv s) (grown : Extends s s') : MountInv s' := by
  apply (inv.links.extends grown).mounts
  · rw [grown.mounts]
    intro m mount live
    obtain ⟨dir, dirLive, isDir, mnt⟩ := inv.mountpoint m mount live
    obtain ⟨dir', dirLive', -, type', -, mnt'⟩ := grown.node _ _ dirLive
    exact ⟨dir', dirLive', type'.trans isDir, mnt'.trans mnt⟩
  · rw [grown.mounts]
    intro m mount live
    exact (inv.walk m mount live).extends grown

theorem Builds.files (builds : Builds s s') (inv : FileInv s) :
    FileInv s' ∧ Extends s s' := by
  obtain ⟨tree, grown⟩ := builds.tree inv.tree
  exact ⟨⟨tree, inv.links.extends grown⟩, grown⟩

theorem Builds.inv (builds : Builds s s') (inv : VfsInv s) :
    VfsInv s' ∧ Extends s s' := by
  obtain ⟨tree, grown⟩ := builds.tree inv.tree
  exact ⟨⟨tree, inv.mounts.extends grown⟩, grown⟩

/-! ## Path lookup -/

/-- What a lookup keeps true of the node it has come to. -/
structure Route (holds : Vfs ω π → Nat → Prop) : Prop where
  grows : ∀ s s' id, Extends s s' → holds s id → holds s' id
  root : ∀ s id, FileInv s → s.rootNode = some id → holds s id
  child : ∀ s id parent node dir, s.nodes id = some node → node.parent = some parent →
    s.nodes parent = some dir → dir.mnt = none → holds s parent → holds s id
  cross : ∀ s m mount, FileInv s → s.mounts m = some mount →
    holds s mount.mountpoint → holds s mount.root

/-- Lookups come to allocated nodes. -/
theorem live_route : Route fun (s : Vfs ω π) id => (s.nodes id).isSome where
  grows := by
    intro s s' id grown live
    obtain ⟨node, live⟩ := Option.isSome_iff_exists.mp live
    obtain ⟨node', live', -⟩ := grown.node id node live
    simp [live']
  root := by
    intro s id inv isRoot
    obtain ⟨node, live, -⟩ := inv.tree.root id isRoot
    simp [live]
  child := by
    intro s id parent node dir live _ _ _ _
    simp [live]
  cross := by
    intro s m mount inv live _
    obtain ⟨dir, rootLive, -⟩ := inv.links.root m mount live
    simp [rootLive]

/-- Lookups walk over the mounts there are. -/
theorem walk_route : Route fun (s : Vfs ω π) id => Walk s s.nextMount id where
  grows := by
    intro s s' id grown walk
    rw [grown.nextMount]
    exact walk.extends grown
  root := fun s id _ isRoot => .root isRoot
  child := by
    intro s id parent node dir live parent_eq dirLive uncovered walk
    refine .child live parent_eq dirLive (fun m mnt => ?_) walk
    rw [uncovered] at mnt
    cases mnt
  cross := fun s m mount inv live walk => .cross live (inv.links.lt m mount live) walk

variable {holds : Vfs ω π → Nat → Prop}

/-- The lookup stands on a node that no mount covers. -/
structure Standing (holds : Vfs ω π → Nat → Prop) (s : Vfs ω π) (id : Nat) : Prop where
  way : holds s id
  uncovered : ∃ node, s.nodes id = some node ∧ node.mnt = none

/-- Crossing mounts leads to the root of one that is mounted. -/
theorem followMountMnt_standing (route : Route holds) (inv : FileInv s)
    {fuel node node' : Nat} {mnt mnt' : Option Nat} (way : holds s node)
    (done : followMountMnt s fuel node mnt = some (node', mnt')) :
    Standing holds s node' := by
  induction fuel generalizing node mnt with
  | zero => cases done
  | succ fuel ih =>
      simp only [followMountMnt, Option.bind_eq_bind, Option.bind_eq_some_iff] at done
      obtain ⟨dir, live, done⟩ := done
      cases inner : dir.mnt with
      | none =>
          simp only [inner, Option.some.injEq, Prod.mk.injEq] at done
          obtain ⟨rfl, -⟩ := done
          exact ⟨way, dir, live, inner⟩
      | some m =>
          simp only [inner, Option.bind_eq_some_iff] at done
          obtain ⟨mount, mountLive, done⟩ := done
          obtain ⟨mount', mountLive', rfl⟩ := inv.links.mounted node dir m live inner
          obtain rfl := Option.some.inj (mountLive.symm.trans mountLive')
          exact ih (route.cross s m mount inv mountLive way) done

theorem Standing.extends (route : Route holds) {id : Nat} (standing : Standing holds s id)
    (grown : Extends s s') : Standing holds s' id := by
  obtain ⟨node, live, uncovered⟩ := standing.uncovered
  obtain ⟨node', live', -, -, -, mnt'⟩ := grown.node id node live
  exact ⟨route.grows s s' id grown standing.way, node', live', mnt'.trans uncovered⟩

/-- A child of the node the lookup stands on. -/
theorem Standing.child (route : Route holds) {id parent : Nat} {node : VfsNode ω π}
    (standing : Standing holds s parent) (live : s.nodes id = some node)
    (above : node.parent = some parent) : holds s id := by
  obtain ⟨dir, dirLive, uncovered⟩ := standing.uncovered
  exact route.child s id parent node dir live above dirLive uncovered standing.way

variable {code : FsCode ω π}

/-- An entry that is not there may be created by the file system. -/
theorem lookupOnDemand_builds (honest : code.Honest) {mnt : Option Nat} {dir : Nat}
    {name : CStr} {found : Option Nat}
    (done : lookupOnDemand code s mnt dir name = some (s', found)) :
    Builds s s' ∧ ∀ id, found = some id →
      ∃ node, s'.nodes id = some node ∧ node.parent = some dir := by
  have nothing : some (s, (none : Option Nat)) = some (s', found) →
      Builds s s' ∧ ∀ id, found = some id →
        ∃ node, s'.nodes id = some node ∧ node.parent = some dir := by
    intro same
    obtain ⟨rfl, rfl⟩ := Prod.mk.inj (Option.some.inj same)
    exact ⟨.refl, by simp⟩
  unfold lookupOnDemand at done
  cases mnt with
  | none => exact nothing done
  | some m =>
      simp only [Option.bind_eq_bind, Option.bind_eq_some_iff] at done
      obtain ⟨mount, -, done⟩ := done
      cases lookup : mount.sops.bind code.lookup with
      | none =>
          simp only [lookup] at done
          exact nothing done
      | some lookupFn =>
          simp only [lookup] at done
          obtain ⟨address, -, isLookup⟩ := Option.bind_eq_some_iff.mp lookup
          exact honest.lookup address lookupFn s mount dir name s' found isLookup done

/-- The node is the root of the VFS or has a parent; no file system shows it as
its root. -/
def Placed (s : Vfs ω π) (id : Nat) : Prop :=
  s.rootNode = some id ∨ ∃ node above, s.nodes id = some node ∧ node.parent = some above

theorem Placed.extends {id : Nat} (placed : Placed s id) (grown : Extends s s') :
    Placed s' id := by
  rcases placed with isRoot | ⟨node, above, live, parent⟩
  · exact Or.inl (grown.rootNode.trans isRoot)
  · obtain ⟨node', live', -, -, parent', -⟩ := grown.node id node live
    exact Or.inr ⟨node', above, live', parent'.trans parent⟩

/-- What a lookup leads to: a node that its route holds of, and the mountpoint
itself where the last mount is not followed. -/
structure Resolved (holds : Vfs ω π → Nat → Prop) (s s' : Vfs ω π) (followLast : Bool)
    (found : Option (Nat × Option Nat)) : Prop where
  builds : Builds s s'
  way : ∀ id inner, found = some (id, inner) → holds s' id
  placed : ∀ id inner, found = some (id, inner) → followLast = false → Placed s' id

theorem Resolved.missing {followLast : Bool} (builds : Builds s s') :
    Resolved holds s s' followLast none :=
  ⟨builds, by simp, by simp⟩

theorem Resolved.found {followLast : Bool} {id : Nat} {inner : Option Nat}
    (builds : Builds s s') (way : holds s' id)
    (placed : followLast = false → Placed s' id) :
    Resolved holds s s' followLast (some (id, inner)) := by
  refine ⟨builds, fun id' inner' same => ?_, fun id' inner' same => ?_⟩ <;>
    obtain ⟨rfl, -⟩ := Prod.mk.inj (Option.some.inj same)
  · exact way
  · exact placed

/-- The child that a path segment names, there already or created on demand. -/
theorem lookupSegment_child (honest : code.Honest) (route : Route holds)
    (inv : FileInv s) {cur : Nat} {mnt next : Option Nat} {seg : CStr}
    (standing : Standing holds s cur)
    (done : lookupSegment code s mnt cur seg = some (s', next)) :
    Builds s s' ∧ ∀ id, next = some id → holds s' id ∧ Placed s' id := by
  obtain ⟨dir, dirLive, -⟩ := standing.uncovered
  unfold lookupSegment at done
  rcases inv.tree.findChild (Option.isSome_iff_exists.mpr ⟨dir, dirLive⟩) seg with
    ⟨absent, -⟩ | ⟨id, node, found, live, above, -⟩
  · simp only [absent, Option.bind_eq_bind, Option.bind_some] at done
    obtain ⟨builds, child⟩ := lookupOnDemand_builds honest done
    refine ⟨builds, fun id isNext => ?_⟩
    obtain ⟨node, live, above⟩ := child id isNext
    exact ⟨(standing.extends route (builds.files inv).2).child route live above,
      Or.inr ⟨node, cur, live, above⟩⟩
  · simp only [found, Option.bind_eq_bind, Option.bind_some, Option.pure_def,
      Option.some.injEq, Prod.mk.injEq] at done
    obtain ⟨rfl, rfl⟩ := done
    refine ⟨.refl, fun id' isNext => ?_⟩
    obtain rfl := Option.some.inj isNext
    exact ⟨standing.child route live above, Or.inr ⟨node, cur, live, above⟩⟩

/-- What follows a slash that is not the last character. -/
theorem dropWhile_tail_ne_nil {cursor : CStr}
    (notLast : ¬(cursor.dropWhile (· ≠ slash) = [] ∨
      cursor.dropWhile (· ≠ slash) = [slash])) :
    (cursor.dropWhile (· ≠ slash)).tail ≠ [] := by
  intro tail
  cases rest : cursor.dropWhile (· ≠ slash) with
  | nil => exact notLast (Or.inl rest)
  | cons first tail' =>
      rw [rest] at tail
      obtain rfl : tail' = [] := tail
      have isSlash := List.head_dropWhile_not (· ≠ slash) (l := cursor)
        (by rw [rest]; exact List.cons_ne_nil _ _)
      simp only [rest, List.head_cons, decide_eq_false_iff_not, not_not] at isSlash
      exact notLast (Or.inr (by rw [rest, isSlash]))

/-- The loop of the lookup only builds, and its route holds of the node it ends
at. -/
theorem lookupFrom_resolved (honest : code.Honest) (route : Route holds)
    {followLast : Bool} {fuel cur : Nat} {mnt : Option Nat} {cursor : CStr}
    {found : Option (Nat × Option Nat)} (inv : FileInv s)
    (standing : Standing holds s cur) (more : cursor ≠ [])
    (done : lookupFrom code followLast fuel s cur mnt cursor = some (s', found)) :
    Resolved holds s s' followLast found := by
  induction fuel generalizing s cur mnt cursor with
  | zero =>
      cases cursor with
      | nil => exact absurd rfl more
      | cons _ _ => cases done
  | succ fuel ih =>
      obtain ⟨first, cursor, rfl⟩ := List.exists_cons_of_ne_nil more
      simp only [lookupFrom] at done
      split at done
      · obtain ⟨rfl, rfl⟩ := Prod.mk.inj (Option.some.inj done)
        exact .missing .refl
      · have malloc : Builds s s.malloc.1 := .single (.malloc s)
        split at done
        · obtain ⟨rfl, rfl⟩ := Prod.mk.inj (Option.some.inj done)
          exact .missing malloc
        · obtain ⟨inv₁, grown₁⟩ := malloc.files inv
          obtain ⟨⟨s₂, next⟩, segment, done⟩ := Option.bind_eq_some_iff.mp done
          obtain ⟨builds, child⟩ :=
            lookupSegment_child honest route inv₁ (standing.extends route grown₁) segment
          have built : Builds s s₂ := malloc.trans builds
          obtain ⟨inv₂, -⟩ := builds.files inv₁
          cases next with
          | none =>
              obtain ⟨rfl, rfl⟩ := Prod.mk.inj (Option.some.inj done)
              exact .missing built
          | some next =>
              obtain ⟨way, placed⟩ := child next rfl
              simp only at done
              split at done
              · cases followLast with
                | true =>
                    obtain ⟨⟨id, inner⟩, followed, done⟩ := Option.bind_eq_some_iff.mp done
                    obtain ⟨rfl, rfl⟩ := Prod.mk.inj (Option.some.inj done)
                    have followedTo := followMountMnt_standing route inv₂ way followed
                    exact .found built followedTo.way (by simp)
                | false =>
                    obtain ⟨rfl, rfl⟩ := Prod.mk.inj (Option.some.inj done)
                    exact .found built way fun _ => placed
              · rename_i notLast
                obtain ⟨⟨id, inner⟩, followed, done⟩ := Option.bind_eq_some_iff.mp done
                have rest := ih inv₂ (followMountMnt_standing route inv₂ way followed)
                  (dropWhile_tail_ne_nil notLast) done
                exact ⟨built.trans rest.builds, rest.way, rest.placed⟩

/-- `vfs_lookup_node_ex` only builds, and its route holds of the node it
returns. -/
theorem vfsLookupNodeEx_resolved (honest : code.Honest) (route : Route holds)
    {path : CStr} {followLast : Bool} {found : Option (Nat × Option Nat)}
    (inv : FileInv s) (valid : vfsIsPathValid path = true)
    (done : vfsLookupNodeEx code s path followLast = some (s', found)) :
    Resolved holds s s' followLast found := by
  unfold vfsLookupNodeEx at done
  cases root : s.rootNode with
  | none =>
      simp only [root, Option.pure_def, Option.some.injEq, Prod.mk.injEq] at done
      obtain ⟨rfl, rfl⟩ := done
      exact .missing .refl
  | some id =>
      have way : holds s id := route.root s id inv root
      simp only [root, Option.bind_eq_bind] at done
      split at done
      · cases followLast with
        | true =>
            obtain ⟨⟨node, inner⟩, followed, done⟩ := Option.bind_eq_some_iff.mp done
            obtain ⟨rfl, rfl⟩ := Prod.mk.inj (Option.some.inj done)
            have followedTo := followMountMnt_standing route inv way followed
            exact .found .refl followedTo.way (by simp)
        | false =>
            obtain ⟨rfl, rfl⟩ := Prod.mk.inj (Option.some.inj done)
            exact .found .refl way fun _ => Or.inl root
      · rename_i notRoot
        obtain ⟨⟨node, inner⟩, followed, done⟩ := Option.bind_eq_some_iff.mp done
        refine lookupFrom_resolved honest route inv
          (followMountMnt_standing route inv way followed) ?_ done
        cases path with
        | nil => cases valid
        | cons first rest =>
            rintro rfl
            simp only [vfsIsPathValid, List.head?_cons, Option.some.injEq,
              decide_eq_true_eq] at valid
            exact notRoot (by rw [valid])

/-- A lookup builds nodes and finds one that holds. -/
theorem vfsLookup_builds (honest : code.Honest) (route : Route holds)
    {path : Option CStr} {found : Option Nat} (inv : FileInv s)
    (done : vfsLookup code s path = some (s', found)) :
    Builds s s' ∧ ∀ id, found = some id → holds s' id := by
  unfold vfsLookup at done
  split at done
  · obtain ⟨rfl, rfl⟩ := Prod.mk.inj (Option.some.inj done)
    exact ⟨.refl, by simp⟩
  · split at done
    · obtain ⟨rfl, rfl⟩ := Prod.mk.inj (Option.some.inj done)
      exact ⟨.refl, by simp⟩
    · rename_i valid
      obtain ⟨⟨s₁, result⟩, search, done⟩ := Option.bind_eq_some_iff.mp done
      obtain ⟨rfl, rfl⟩ := Prod.mk.inj (Option.some.inj done)
      have resolved :=
        vfsLookupNodeEx_resolved honest route inv (by simpa using valid) search
      refine ⟨resolved.builds, fun id isFound => ?_⟩
      obtain ⟨⟨id', inner⟩, same, rfl⟩ := Option.map_eq_some_iff.mp isFound
      exact resolved.way id' inner same

/-! ## Directory creation along a path -/

/-- Each missing directory is built. -/
theorem mkdirPFrom_builds {fuel cur : Nat} {p : CStr} {found : Option Nat}
    (inv : TreeInv s) (live : (s.nodes cur).isSome)
    (done : mkdirPFrom fuel s cur p = some (s', found)) : Builds s s' := by
  induction fuel generalizing s cur p with
  | zero =>
      cases p with
      | nil => obtain ⟨rfl, -⟩ := Prod.mk.inj (Option.some.inj done); exact .refl
      | cons _ _ => cases done
  | succ fuel ih =>
      cases p with
      | nil => obtain ⟨rfl, -⟩ := Prod.mk.inj (Option.some.inj done); exact .refl
      | cons first p =>
          simp only [mkdirPFrom] at done
          split at done
          · obtain ⟨rfl, -⟩ := Prod.mk.inj (Option.some.inj done)
            exact .refl
          · have malloc : Builds s s.malloc.1 := .single (.malloc s)
            split at done
            · obtain ⟨rfl, -⟩ := Prod.mk.inj (Option.some.inj done)
              exact malloc
            · obtain ⟨found', search, done⟩ := Option.bind_eq_some_iff.mp done
              have inv₁ := (malloc.tree inv).1
              have live₁ : s.malloc.1.Live (some cur) := by
                intro id same
                obtain rfl := Option.some.inj same
                exact live
              cases found' with
              | some next =>
                  obtain ⟨node, nextLive, done⟩ := Option.bind_eq_some_iff.mp done
                  split at done
                  · obtain ⟨rfl, -⟩ := Prod.mk.inj (Option.some.inj done)
                    exact malloc
                  · exact malloc.trans (ih inv₁ (by simp [nextLive]) done)
              | none =>
                  obtain ⟨⟨s₂, created⟩, made, done⟩ := Option.bind_eq_some_iff.mp done
                  have built : Builds s s₂ := malloc.tail (.create live₁ made)
                  cases created with
                  | none =>
                      obtain ⟨rfl, -⟩ := Prod.mk.inj (Option.some.inj done)
                      exact built
                  | some next =>
                      obtain ⟨node, nextLive, -⟩ := inv₁.vfsCreateNode_created live₁ made
                      exact built.trans
                        (ih (built.tree inv).1 (by simp [nextLive]) done)

/-- Making a path builds nodes and does nothing else. -/
theorem vfsMkdirP_builds {path : Option CStr} {found : Option Nat} (inv : TreeInv s)
    (done : vfsMkdirP s path = some (s', found)) : Builds s s' := by
  unfold vfsMkdirP at done
  split at done
  · obtain ⟨rfl, -⟩ := Prod.mk.inj (Option.some.inj done)
    exact .refl
  · split at done
    · obtain ⟨rfl, -⟩ := Prod.mk.inj (Option.some.inj done)
      exact .refl
    · split at done
      · obtain ⟨rfl, -⟩ := Prod.mk.inj (Option.some.inj done)
        exact .refl
      · rename_i root isRoot
        obtain ⟨node, live, -⟩ := inv.root root isRoot
        exact mkdirPFrom_builds inv (by simp [live]) done

end Zsbl.Common
