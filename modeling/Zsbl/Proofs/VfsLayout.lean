/-
Module: Zsbl.Proofs.VfsLayout
Purpose: Which directories of the VFS's own tree are covered by mounts, and which paths lead
  past them.
Trusted boundary: none
Main exports:
  Shown, ClearWay, ClearWay.resolveEx, Barren, Barren.resolveEx
-/
import Zsbl.Proofs.VfsMkdirPath
import Zsbl.Proofs.VfsMountOutcome

namespace Zsbl.Common

open Zsbl.Lib

variable {ω π : Type} {s s' : Vfs ω π} {code : FsCode ω π} {root id m : Nat} {names : List CStr}

/-! ## Names from the root -/

theorem NamedPath.nil (way : NamedPath s root [] id) : id = root := by
  generalize empty : ([] : List CStr) = names at way
  cases way with
  | root => rfl
  | child => exact absurd empty.symm (List.append_ne_nil_of_right_ne_nil _ (List.cons_ne_nil _ _))

/-- The last name of a way is that of the node it leads to. -/
theorem NamedPath.concat {name : CStr} (way : NamedPath s root (names ++ [name]) id) :
    ∃ above node, NamedPath s root names above ∧ s.nodes id = some node ∧
      node.parent = some above ∧ node.name = name := by
  generalize split : names ++ [name] = all at way
  cases way with
  | root => exact absurd split (List.append_ne_nil_of_right_ne_nil _ (List.cons_ne_nil _ _))
  | child way live parent =>
      obtain ⟨rfl, last⟩ := List.append_inj' split rfl
      exact ⟨_, _, way, live, parent, (List.cons.inj last).1.symm⟩

theorem NamedPath.under (way : NamedPath s root names id) : Under s root id := by
  induction way with
  | root => exact .self
  | child _ live parent ih => exact .child live parent ih

theorem NamedPath.live (way : NamedPath s root names id) (rootLive : (s.nodes root).isSome) :
    (s.nodes id).isSome := by
  cases way with
  | root => exact rootLive
  | child _ live _ => simp [live]

/-- The names along a way are valid. -/
theorem NamedPath.valid (way : NamedPath s root names id) (inv : TreeInv s) :
    ∀ name ∈ names, vfsNameValid name = true := by
  induction way with
  | root => exact fun name member => absurd member List.not_mem_nil
  | child _ live parent ih =>
      intro name member
      rcases List.mem_append.mp member with before | last
      · exact ih name before
      · obtain rfl := List.mem_singleton.mp last
        exact inv.valid _ _ _ live parent

/-- Names lead to one node. -/
theorem NamedPath.id_eq (inv : TreeInv s) {other : Nat} (way : NamedPath s root names id)
    (way' : NamedPath s root names other) : id = other := by
  induction way generalizing other with
  | root => exact way'.nil.symm
  | child _ live parent ih =>
      obtain ⟨above, node, before, live', parent', name⟩ := way'.concat
      obtain rfl := ih before
      exact inv.unique _ _ _ node _ live live' parent parent' name.symm

/-- A node has one way from the root. -/
theorem NamedPath.names_eq (inv : TreeInv s) (isRoot : s.rootNode = some root)
    {names' : List CStr} (way : NamedPath s root names id)
    (way' : NamedPath s root names' id) : names = names' := by
  obtain ⟨top, rootLive, -, noParent⟩ := inv.root root isRoot
  have notRoot {node : VfsNode ω π} {above : Nat} (live : s.nodes root = some node)
      (parent : node.parent = some above) : False := by
    obtain rfl := Option.some.inj (rootLive.symm.trans live)
    rw [noParent] at parent
    cases parent
  induction way generalizing names' with
  | root =>
      cases way' with
      | root => rfl
      | child _ live parent => exact (notRoot live parent).elim
  | child _ live parent ih =>
      cases way' with
      | root => exact (notRoot live parent).elim
      | child way' live' parent' =>
          obtain rfl := Option.some.inj (live.symm.trans live')
          obtain rfl := Option.some.inj (parent.symm.trans parent')
          rw [ih way']

theorem DirWay.named {cur stop : Nat} {before : List CStr} (way : DirWay s cur names stop)
    (named : NamedPath s root before cur) : NamedPath s root (before ++ names) stop := by
  induction way generalizing before with
  | here => rwa [List.append_nil]
  | step live parent _ _ ih =>
      rw [List.append_cons]
      exact ih (named.child live parent)

/-! ## What covers the tree -/

/-- The mount is on the directory that the names lead to in the VFS's own tree. -/
def Shown (s : Vfs ω π) (root : Nat) (names : List CStr) (m : Nat) : Prop :=
  ∃ id node, NamedPath s root names id ∧ s.nodes id = some node ∧ node.mnt = some m

theorem Shown.mount_eq (inv : TreeInv s) {m' : Nat} (shown : Shown s root names m)
    (shown' : Shown s root names m') : m = m' := by
  obtain ⟨id, node, way, live, mnt⟩ := shown
  obtain ⟨other, node', way', live', mnt'⟩ := shown'
  obtain rfl := way.id_eq inv way'
  obtain rfl := Option.some.inj (live.symm.trans live')
  exact Option.some.inj (mnt.symm.trans mnt')

theorem Shown.mounted (inv : FileInv s) (shown : Shown s root names m) :
    ∃ node mount, s.mounts m = some mount ∧ NamedPath s root names mount.mountpoint ∧
      s.nodes mount.mountpoint = some node ∧ node.mnt = some m := by
  obtain ⟨id, node, way, live, mnt⟩ := shown
  obtain ⟨mount, mountLive, rfl⟩ := inv.links.mounted id node m live mnt
  exact ⟨node, mount, mountLive, way, live, mnt⟩

theorem Shown.names_eq (inv : FileInv s) (isRoot : s.rootNode = some root)
    {names' : List CStr} (shown : Shown s root names m) (shown' : Shown s root names' m) :
    names = names' := by
  obtain ⟨node, mount, mountLive, way, -⟩ := shown.mounted inv
  obtain ⟨node', mount', mountLive', way', -⟩ := shown'.mounted inv
  obtain rfl := Option.some.inj (mountLive.symm.trans mountLive')
  exact way.names_eq inv.tree isRoot way'

/-- Every mount has a mountpoint of its own. -/
theorem Shown.mount_eq_of_mountpoint (inv : FileInv s) {names' : List CStr} {m' : Nat}
    {mount mount' : VfsMount π} (shown : Shown s root names m) (shown' : Shown s root names' m')
    (mountLive : s.mounts m = some mount) (mountLive' : s.mounts m' = some mount')
    (same : mount.mountpoint = mount'.mountpoint) : m = m' := by
  obtain ⟨node, other, otherLive, -, live, covered⟩ := shown.mounted inv
  obtain ⟨node', other', otherLive', -, live', covered'⟩ := shown'.mounted inv
  obtain rfl := Option.some.inj (mountLive.symm.trans otherLive)
  obtain rfl := Option.some.inj (mountLive'.symm.trans otherLive')
  rw [← same, live] at live'
  obtain rfl := Option.some.inj live'
  exact Option.some.inj (covered.symm.trans covered')

/-- New nodes are not covered. -/
theorem Extends.shown (grown : Extends s s') (inv : TreeInv s) :
    Shown s' root names m ↔ Shown s root names m := by
  constructor
  · rintro ⟨id, node', way, live', mnt⟩
    rcases grown.new id node' live' with old | ⟨-, unmounted⟩
    · obtain ⟨node, live⟩ := Option.isSome_iff_exists.mp old
      obtain ⟨other, otherLive, -, -, -, same⟩ := grown.node id node live
      obtain rfl := Option.some.inj (live'.symm.trans otherLive)
      exact ⟨id, node, way.old inv grown old, live, same.symm.trans mnt⟩
    · rw [unmounted] at mnt
      cases mnt
  · rintro ⟨id, node, way, live, mnt⟩
    obtain ⟨node', live', -, -, -, same⟩ := grown.node id node live
    exact ⟨id, node', way.extends grown, live', same.trans mnt⟩

/-! ## Past the mounts -/

/-- No mount covers a directory above the one that the names lead to. -/
def ClearWay (s : Vfs ω π) (root : Nat) (names : List CStr) : Prop :=
  ∀ before m, before <+: names → before ≠ names → ¬Shown s root before m

theorem clearWay_nil : ClearWay s root [] :=
  fun _ _ isPrefix ne => absurd (List.prefix_nil.mp isPrefix) ne

/-- A longer way is clear if its front is and no mount is on its end. -/
theorem clearWay_concat {name : CStr} :
    ClearWay s root (names ++ [name]) ↔ ClearWay s root names ∧ ∀ m, ¬Shown s root names m := by
  have short : names ≠ names ++ [name] := by simp
  constructor
  · intro clear
    refine ⟨fun before m isPrefix ne => ?_, fun m => clear names m (List.prefix_append _ _) short⟩
    refine clear before m (isPrefix.trans (List.prefix_append _ _)) ?_
    rintro rfl
    exact absurd isPrefix.length_le (by simp)
  · rintro ⟨clear, uncovered⟩ before m isPrefix ne
    rcases List.prefix_concat_iff.mp isPrefix with same | isPrefix
    · exact absurd same ne
    · by_cases same : before = names
      · exact same ▸ uncovered m
      · exact clear before m isPrefix same

theorem resolveFrom_concat {follow : Bool} (state : Vfs ω π × Option (Nat × Option Nat))
    (last : CStr) :
    resolveFrom code follow state (names ++ [last]) =
      resolveStep code follow (names.foldl (resolveStep code true) state) last := by
  induction names generalizing state with
  | nil => rfl
  | cons name names ih =>
      rw [List.cons_append, resolveFrom_cons, if_neg (by simp), ih, List.foldl_cons]

theorem NamedPath.uncovered (way : NamedPath s root names id)
    (rootLive : (s.nodes root).isSome) (bare : ∀ m, ¬Shown s root names m) (mnt : Option Nat) :
    crossAll s (id, mnt) = (id, mnt) := by
  obtain ⟨node, live⟩ := Option.isSome_iff_exists.mp (way.live rootLive)
  refine crossAll_uncovered live ?_ mnt
  cases covered : node.mnt with
  | none => rfl
  | some m => exact absurd ⟨id, node, way, live, covered⟩ (bare m)

/-- Along a clear way the walk follows the names. -/
theorem ClearWay.foldl (clear : ClearWay s root names) (inv : TreeInv s)
    (rootLive : (s.nodes root).isSome) (way : NamedPath s root names id) :
    names.foldl (resolveStep code true) (s, some (crossAll s (root, none))) =
      (s, some (crossAll s (id, none))) := by
  induction way with
  | root => rfl
  | child way live parent ih =>
      obtain ⟨clear, bare⟩ := clearWay_concat.mp clear
      rw [List.foldl_append, ih clear, way.uncovered rootLive bare]
      exact inv.resolveStep_child code live parent none true

/-- Past the mounts a path leads to the node that has its names. -/
theorem ClearWay.resolveEx {path : CStr} (clear : ClearWay s root (pathNames path))
    (inv : TreeInv s) (isRoot : s.rootNode = some root)
    (way : NamedPath s root (pathNames path) id) (follow : Bool) :
    resolveEx code follow s path =
      (s, some (if follow then crossAll s (id, none) else (id, none))) := by
  obtain ⟨top, rootLive, -⟩ := inv.root root isRoot
  have isLive : (s.nodes root).isSome := by simp [rootLive]
  unfold Zsbl.Common.resolveEx
  simp only [isRoot]
  generalize pathNames path = names at clear way
  rcases List.eq_nil_or_concat' names with rfl | ⟨before, last, rfl⟩
  · rw [if_pos rfl, way.nil]
  · obtain ⟨above, node, way', live, parent, rfl⟩ := way.concat
    obtain ⟨clear', bare⟩ := clearWay_concat.mp clear
    rw [if_neg (by simp), resolveFrom_concat, clear'.foldl inv isLive way',
      way'.uncovered isLive bare]
    exact inv.resolveStep_child code live parent none follow

/-! ## Behind the mounts -/

/-- Nothing is in the trees of the mounts, and no lookup puts anything there. -/
structure Barren (code : FsCode ω π) (s : Vfs ω π) : Prop where
  lookup : ∀ address, code.lookup address = none
  roots : ∀ m mount id node, s.mounts m = some mount → s.nodes id = some node →
    node.parent ≠ some mount.root

theorem Barren.childOr (barren : Barren code s) (mnt : Option Nat) (dir : Nat) (name : CStr) :
    childOr code s mnt dir name = (s, childNamed s dir name) := by
  unfold Zsbl.Common.childOr
  cases found : childNamed s dir name with
  | some id => rfl
  | none => exact materialise_unasked (fun _ _ address _ _ _ => barren.lookup address) dir name

/-- The mount on a node shows the root of its tree. -/
theorem FileInv.crossAll_mount (inv : FileInv s) {node : VfsNode ω π} {mount : VfsMount π}
    (live : s.nodes id = some node) (covered : node.mnt = some m)
    (mountLive : s.mounts m = some mount) (mnt : Option Nat) :
    crossAll s (id, mnt) = (mount.root, some m) := by
  obtain ⟨dir, rootLive, -, -, unmounted⟩ := inv.links.root m mount mountLive
  rw [inv.names.crossAll_covered live covered mountLive mnt, crossAll_uncovered rootLive unmounted]

/-- A name leads on in the VFS's own tree only. -/
theorem Barren.step (barren : Barren code s) (inv : FileInv s) (isRoot : s.rootNode = some root)
    {above : Nat} (way : NamedPath s root names above) (clear : ClearWay s root names)
    {follow : Bool} {name : CStr} {t : Vfs ω π} {position : Nat × Option Nat}
    (found : resolveStep code follow (s, some (crossAll s (above, none))) name =
      (t, some position)) :
    t = s ∧ ∃ id, NamedPath s root (names ++ [name]) id ∧ ClearWay s root (names ++ [name]) ∧
      position = if follow then crossAll s (id, none) else (id, none) := by
  obtain ⟨top, rootLive, -⟩ := inv.tree.root root isRoot
  obtain ⟨dir, dirLive⟩ := Option.isSome_iff_exists.mp (way.live (by simp [rootLive]))
  by_cases empty : name = []
  · simp [resolveStep, empty] at found
  · simp only [resolveStep, if_neg empty, barren.childOr] at found
    obtain ⟨rfl, same⟩ := Prod.mk.inj found
    obtain ⟨id, search, rfl⟩ := Option.map_eq_some_iff.mp same
    obtain ⟨node, live, parent, rfl⟩ := childNamed_spec inv.tree search
    cases covered : dir.mnt with
    | some m =>
        obtain ⟨mount, mountLive, -⟩ := inv.links.mounted above dir m dirLive covered
        rw [inv.crossAll_mount dirLive covered mountLive] at parent
        exact absurd parent (barren.roots m mount id node mountLive live)
    | none =>
        rw [crossAll_uncovered dirLive covered] at parent ⊢
        refine ⟨rfl, id, way.child live parent, clearWay_concat.mpr ⟨clear, ?_⟩, rfl⟩
        rintro m ⟨other, otherDir, way', live', mnt⟩
        obtain rfl := way.id_eq inv.tree way'
        obtain rfl := Option.some.inj (dirLive.symm.trans live')
        rw [covered] at mnt
        cases mnt

/-- Where nothing is created a walk finds the nodes that are there. -/
theorem Barren.foldl (barren : Barren code s) (inv : FileInv s) (isRoot : s.rootNode = some root)
    {t : Vfs ω π} {position : Nat × Option Nat}
    (found : names.foldl (resolveStep code true) (s, some (crossAll s (root, none))) =
      (t, some position)) :
    t = s ∧ ∃ id, NamedPath s root names id ∧ ClearWay s root names ∧
      position = crossAll s (id, none) := by
  induction names using List.reverseRecOn generalizing t position with
  | nil =>
      obtain ⟨rfl, same⟩ := Prod.mk.inj found
      exact ⟨rfl, root, .root, clearWay_nil, (Option.some.inj same).symm⟩
  | append_singleton names name ih =>
      rw [List.foldl_append, List.foldl_cons, List.foldl_nil] at found
      generalize names.foldl (resolveStep code true) (s, some (crossAll s (root, none))) = before
        at found ih
      obtain ⟨s₁, place⟩ := before
      cases place with
      | none => cases found
      | some place =>
          obtain ⟨rfl, above, way, clear, rfl⟩ := ih rfl
          exact barren.step inv isRoot way clear found

/-- Where a path leads to, it leads past the mounts. -/
theorem Barren.resolveEx (barren : Barren code s) (inv : FileInv s)
    (isRoot : s.rootNode = some root) {path : CStr} {follow : Bool} {t : Vfs ω π}
    {position : Nat × Option Nat} (found : resolveEx code follow s path = (t, some position)) :
    t = s ∧ ∃ id, NamedPath s root (pathNames path) id ∧ ClearWay s root (pathNames path) ∧
      position = if follow then crossAll s (id, none) else (id, none) := by
  unfold Zsbl.Common.resolveEx at found
  simp only [isRoot] at found
  generalize pathNames path = names at found
  rcases List.eq_nil_or_concat' names with rfl | ⟨before, last, rfl⟩
  · rw [if_pos rfl] at found
    obtain ⟨rfl, same⟩ := Prod.mk.inj found
    exact ⟨rfl, root, .root, clearWay_nil, (Option.some.inj same).symm⟩
  · rw [if_neg (by simp), resolveFrom_concat] at found
    generalize reached : before.foldl (resolveStep code true)
      (s, some (crossAll s (root, none))) = between at found
    obtain ⟨s₁, place⟩ := between
    cases place with
    | none => cases found
    | some place =>
        obtain ⟨rfl, above, way, clear, rfl⟩ := barren.foldl inv isRoot reached
        exact barren.step inv isRoot way clear found

end Zsbl.Common
