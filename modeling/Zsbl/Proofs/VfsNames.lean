/-
Module: Zsbl.Proofs.VfsNames
Purpose: What a path means: a fold over its names, from the root of the VFS across the
  mounts; and what one name does.
Trusted boundary: none
Main exports:
  pathNames, crossAll, childNamed, materialise, childOr, resolveStep, resolve, Namespace,
  FsCode.Materialises, childOr_spec
-/
import Mathlib.Data.Finset.Card
import Mathlib.Data.Finset.Range
import Zsbl.Lib.Climb
import Zsbl.Proofs.VfsDescriptors
import Zsbl.Proofs.VfsShape

namespace Zsbl.Common

open Zsbl.Lib

variable {ω π : Type} {s s' : Vfs ω π} {code : FsCode ω π}

/-! ## The meaning of a path -/

/-- A slash at the end belongs to the last name. -/
def dropTrailing (names : List CStr) : List CStr :=
  if names.getLast? = some [] then names.dropLast else names

/-- The names between slashes. -/
def namesOf (cursor : CStr) : List CStr := dropTrailing (cursor.splitOn slash)

/-- The names of an absolute path. -/
def pathNames (path : CStr) : List CStr := namesOf path.tail

/-- The mount on a node, and the root that it shows. -/
def crossing (s : Vfs ω π) (position : Nat × Option Nat) : Option (Nat × Option Nat) := do
  let m ← (← s.nodes position.1).mnt
  let mount ← s.mounts m
  return (mount.root, some m)

/-- All the mounts that are stacked on a node. -/
def crossAll (s : Vfs ω π) (position : Nat × Option Nat) : Nat × Option Nat :=
  climb (crossing s) s.nextMount position

def childNamed (s : Vfs ω π) (dir : Nat) (name : CStr) : Option Nat :=
  (s.kids dir).find? fun id => (s.nodes id).any (·.name = name)

/-- What the lookup of the innermost mount makes of a missing name. -/
def materialise (code : FsCode ω π) (s : Vfs ω π) (mnt : Option Nat) (dir : Nat)
    (name : CStr) : Vfs ω π × Option Nat :=
  match mnt.bind s.mounts with
  | none => (s, none)
  | some mount =>
      match mount.sops.bind code.lookup with
      | none => (s, none)
      | some lookup => (lookup s mount dir name).getD (s, none)

/-- The child with a name, or else what the innermost mount makes of it. -/
def childOr (code : FsCode ω π) (s : Vfs ω π) (mnt : Option Nat) (dir : Nat)
    (name : CStr) : Vfs ω π × Option Nat :=
  match childNamed s dir name with
  | some id => (s, some id)
  | none => materialise code s mnt dir name

/-- One name on: a missing name and an empty one lead nowhere. -/
def resolveStep (code : FsCode ω π) (follow : Bool)
    (state : Vfs ω π × Option (Nat × Option Nat)) (name : CStr) :
    Vfs ω π × Option (Nat × Option Nat) :=
  match state with
  | (s, none) => (s, none)
  | (s, some (dir, mnt)) =>
      if name = [] then (s, none)
      else
        let (s, next) := childOr code s mnt dir name
        (s, next.map fun id => if follow then crossAll s (id, mnt) else (id, mnt))

/-- The node that a path names, with the innermost mount on the way to it. -/
def resolve (code : FsCode ω π) (s : Vfs ω π) (path : CStr) :
    Vfs ω π × Option (Nat × Option Nat) :=
  (pathNames path).foldl (resolveStep code true)
    (s, s.rootNode.map fun root => crossAll s (root, none))

/-! ## Names -/

/-- Splitting takes the name up to the next slash. -/
theorem splitOn_slash (cursor : CStr) :
    cursor.splitOn slash = cursor.takeWhile (· ≠ slash) ::
      if cursor.dropWhile (· ≠ slash) = [] then []
      else (cursor.dropWhile (· ≠ slash)).tail.splitOn slash := by
  have absent : ∀ c ∈ cursor.takeWhile (· ≠ slash), (c == slash) = false := by
    intro c member
    simpa using List.mem_takeWhile_imp member
  have split := List.takeWhile_append_dropWhile (p := (· ≠ slash)) (l := cursor)
  cases rest : cursor.dropWhile (· ≠ slash) with
  | nil =>
      rw [rest, List.append_nil] at split
      rw [split] at absent ⊢
      rw [if_pos rfl, List.splitOn_eq_splitOnP, List.splitOnP_eq_singleton absent]
  | cons first tail =>
      have isSlash := List.head_dropWhile_not (· ≠ slash) (l := cursor)
        (by rw [rest]; exact List.cons_ne_nil _ _)
      simp only [rest, List.head_cons, decide_eq_false_iff_not, not_not] at isSlash
      rw [rest, isSlash] at split
      generalize cursor.takeWhile (· ≠ slash) = name at absent split
      rw [if_neg (List.cons_ne_nil _ _), ← split, List.tail_cons, List.splitOn_eq_splitOnP,
        List.splitOnP_append_cons_of_forall_mem absent slash (beq_self_eq_true slash),
        List.splitOn_eq_splitOnP]

theorem absolute_cons {path : CStr} (absolute : vfsIsPathValid path = true) :
    ∃ cursor, path = slash :: cursor := by
  cases path with
  | nil => cases absolute
  | cons first cursor =>
      simp only [vfsIsPathValid, List.head?_cons, Option.some.injEq, decide_eq_true_eq] at absolute
      exact ⟨cursor, by rw [absolute]⟩

theorem namesOf_nil : namesOf [] = [] := by decide

/-- The first name ends at the first slash. -/
theorem namesOf_cons {cursor : CStr} (more : cursor ≠ []) :
    namesOf cursor =
      cursor.takeWhile (· ≠ slash) :: namesOf (cursor.dropWhile (· ≠ slash)).tail := by
  have split := List.takeWhile_append_dropWhile (p := (· ≠ slash)) (l := cursor)
  unfold namesOf
  rw [splitOn_slash]
  unfold dropTrailing
  cases rest : cursor.dropWhile (· ≠ slash) with
  | nil =>
      rw [rest, List.append_nil] at split
      rw [split, if_pos rfl, List.getLast?_singleton,
        if_neg fun empty => more (Option.some.inj empty)]
      rfl
  | cons first tail =>
      have ne : tail.splitOn slash ≠ [] := by
        rw [splitOn_slash]
        exact List.cons_ne_nil _ _
      rw [if_neg (List.cons_ne_nil _ _), List.tail_cons, List.getLast?_cons_of_ne_nil ne,
        List.dropLast_cons_of_ne_nil ne]
      split <;> rfl

/-- Only a slash that is the last character is followed by no names. -/
theorem namesOf_eq_nil {cursor : CStr} : namesOf cursor = [] ↔ cursor = [] := by
  constructor
  · intro none
    by_contra more
    rw [namesOf_cons more] at none
    cases none
  · rintro rfl
    exact namesOf_nil

theorem namesOf_name {name : CStr} (rest : CStr) (absent : slash ∉ name) :
    namesOf (name ++ slash :: rest) = name :: namesOf rest := by
  obtain ⟨first, behind⟩ := takeWhile_name rest absent
  rw [namesOf_cons (by simp), first, behind, List.tail_cons]

theorem namesOf_last {name : CStr} (ne : name ≠ []) (absent : slash ∉ name) :
    namesOf name = [name] := by
  obtain ⟨first, behind⟩ := takeWhile_last absent
  rw [namesOf_cons ne, first, behind, List.tail_nil, namesOf_nil]

/-! ## States -/

/-- Nodes make up trees, and mounts lead from older nodes to newer ones. -/
structure Namespace (s : Vfs ω π) : Prop where
  tree : TreeInv s
  lt : ∀ m mount, s.mounts m = some mount → m < s.nextMount
  mounted : ∀ id node m, s.nodes id = some node → node.mnt = some m →
    ∃ mount, s.mounts m = some mount ∧ mount.mountpoint = id ∧ id < mount.root ∧
      (s.nodes mount.root).isSome

theorem FileInv.names (inv : FileInv s) : Namespace s where
  tree := inv.tree
  lt := inv.links.lt
  mounted id node m live mnt := by
    obtain ⟨mount, mountLive, rfl⟩ := inv.links.mounted id node m live mnt
    obtain ⟨dir, rootLive, -⟩ := inv.links.root m mount mountLive
    exact ⟨mount, mountLive, rfl, inv.links.below m mount mountLive, by simp [rootLive]⟩

/-- The namespace stays right when nodes are added. -/
theorem Namespace.extends (names : Namespace s) (tree : TreeInv s') (grown : Extends s s') :
    Namespace s' where
  tree := tree
  lt := by
    rw [grown.mounts, grown.nextMount]
    exact names.lt
  mounted id node' m live' mnt := by
    rcases grown.new id node' live' with old | ⟨-, unmounted⟩
    · obtain ⟨node, live⟩ := Option.isSome_iff_exists.mp old
      obtain ⟨other, same, -, -, -, mnt'⟩ := grown.node id node live
      obtain rfl := Option.some.inj (live'.symm.trans same)
      obtain ⟨mount, mountLive, mountpoint, below, rootLive⟩ :=
        names.mounted id node m live (mnt'.symm.trans mnt)
      obtain ⟨root, rootLive⟩ := Option.isSome_iff_exists.mp rootLive
      obtain ⟨root', rootLive', -⟩ := grown.node _ _ rootLive
      exact ⟨mount, by rw [grown.mounts, mountLive], mountpoint, below, by simp [rootLive']⟩
    · rw [unmounted] at mnt
      cases mnt

theorem Builds.names (builds : Builds s s') (names : Namespace s) : Namespace s' :=
  names.extends (builds.tree names.tree).1 (builds.tree names.tree).2

theorem Vfs.Roomy.malloc (roomy : s.Roomy) : s.malloc = (s, true) := by
  have mem : s.mem = fun _ => true := funext roomy
  obtain ⟨nodes, mounts, nextNode, nextMount, _, rootNode, fileHead, fsTypes, nextFd, ready,
    world⟩ := s
  obtain rfl : _ = fun _ => true := mem
  rfl

/-- There is room for the nodes that are built. -/
theorem BuildStep.roomy (step : BuildStep s s') (inv : TreeInv s) (roomy : s.Roomy) :
    s'.Roomy := by
  cases step with
  | malloc => exact fun call => roomy (call + 1)
  | world => exact roomy
  | allocDir name =>
      unfold vfsAllocDirNode
      split
      · exact roomy
      · rcases vfsAllocNode_cases s name .dir none none with
          ⟨s₁, result, same⟩ | ⟨s₁, result, grown⟩
        · rw [result]
          exact same.quiet.roomy roomy
        · rw [result]
          obtain ⟨calls, mem⟩ := grown.mem
          intro call
          rw [mem]
          exact roomy _
  | @create _ parent name type fops priv created live done =>
      rcases inv.vfsCreateNode live name type fops priv with
        ⟨s₁, result, same⟩ | ⟨s₁, above, dir, -, result, -, -, -, -, grown⟩
      · obtain ⟨rfl, -⟩ := Prod.mk.inj (Option.some.inj (done.symm.trans result))
        exact same.quiet.roomy roomy
      · obtain ⟨rfl, -⟩ := Prod.mk.inj (Option.some.inj (done.symm.trans result))
        obtain ⟨calls, mem⟩ := grown.mem
        intro call
        rw [mem]
        exact roomy _
  | setPriv => exact roomy

theorem Builds.roomy (builds : Builds s s') (inv : TreeInv s) (roomy : s.Roomy) : s'.Roomy := by
  induction builds with
  | refl => exact roomy
  | tail before step ih => exact step.roomy (Builds.tree before inv).1 ih

/-! ## Crossing mounts -/

/-- The mounts on a node and on later ones. -/
def mountsFrom (s : Vfs ω π) (id : Nat) : Finset Nat :=
  (Finset.range s.nextMount).filter fun m =>
    (s.mounts m).any fun mount => id ≤ mount.mountpoint

theorem crossing_eq_some {position next : Nat × Option Nat}
    (step : crossing s position = some next) :
    ∃ node m mount, s.nodes position.1 = some node ∧ node.mnt = some m ∧
      s.mounts m = some mount ∧ next = (mount.root, some m) := by
  simp only [crossing, Option.bind_eq_bind, Option.bind_eq_some_iff] at step
  obtain ⟨node, live, m, mnt, mount, mountLive, done⟩ := step
  exact ⟨node, m, mount, live, mnt, mountLive, (Option.some.inj done).symm⟩

/-- Each crossing leaves fewer mounts ahead, so there is no cycle. -/
theorem Namespace.crossing_falls (names : Namespace s) (position next : Nat × Option Nat)
    (step : crossing s position = some next) :
    (mountsFrom s next.1).card < (mountsFrom s position.1).card := by
  obtain ⟨node, m, mount, live, mnt, mountLive, rfl⟩ := crossing_eq_some step
  obtain ⟨mount', mountLive', mountpoint, below, -⟩ :=
    names.mounted position.1 node m live mnt
  obtain rfl := Option.some.inj (mountLive.symm.trans mountLive')
  apply Finset.card_lt_card
  refine Finset.ssubset_iff_subset_ne.mpr ⟨?_, ?_⟩
  · intro other member
    obtain ⟨inside, later⟩ := Finset.mem_filter.mp member
    refine Finset.mem_filter.mpr ⟨inside, ?_⟩
    cases otherLive : s.mounts other with
    | none => simp [otherLive] at later
    | some mount' =>
        simp only [otherLive, Option.any_some, decide_eq_true_eq] at later ⊢
        exact (Nat.le_of_lt below).trans later
  · intro same
    have member : m ∈ mountsFrom s position.1 := by
      refine Finset.mem_filter.mpr ⟨Finset.mem_range.mpr (names.lt m mount mountLive), ?_⟩
      simp [mountLive, mountpoint]
    rw [← same] at member
    obtain ⟨-, later⟩ := Finset.mem_filter.mp member
    simp only [mountLive, Option.any_some, decide_eq_true_eq] at later
    omega

theorem mountsFrom_card_le (id : Nat) : (mountsFrom s id).card ≤ s.nextMount := by
  have le := Finset.card_filter_le (Finset.range s.nextMount) fun m =>
    (s.mounts m).any fun mount => id ≤ mount.mountpoint
  rwa [Finset.card_range] at le

/-- A node with the mount that shows it. -/
structure Position (s : Vfs ω π) (position : Nat × Option Nat) : Prop where
  node : (s.nodes position.1).isSome
  mount : ∀ m, position.2 = some m → (s.mounts m).isSome

theorem Namespace.crossing_position (names : Namespace s) (position next : Nat × Option Nat)
    (step : crossing s position = some next) : Position s next := by
  obtain ⟨node, m, mount, live, mnt, mountLive, rfl⟩ := crossing_eq_some step
  obtain ⟨mount', mountLive', -, -, rootLive⟩ := names.mounted position.1 node m live mnt
  obtain rfl := Option.some.inj (mountLive.symm.trans mountLive')
  refine ⟨rootLive, fun m' same => ?_⟩
  obtain rfl := Option.some.inj same
  simp [mountLive]

theorem Namespace.crossAll_position (names : Namespace s) {position : Nat × Option Nat}
    (here : Position s position) : Position s (crossAll s position) :=
  climb_along (fun before after _ step => names.crossing_position before after step) _ here

/-- `vfs_follow_mount_mnt` crosses all mounts. -/
theorem Namespace.followMountMnt_eq (names : Namespace s) {fuel node : Nat} {mnt : Option Nat}
    (live : (s.nodes node).isSome) (enough : (mountsFrom s node).card < fuel) :
    followMountMnt s fuel node mnt = some (crossAll s (node, mnt)) := by
  induction fuel generalizing node mnt with
  | zero => omega
  | succ fuel ih =>
      obtain ⟨dir, dirLive⟩ := Option.isSome_iff_exists.mp live
      cases inner : dir.mnt with
      | none =>
          have stop : crossing s (node, mnt) = none := by simp [crossing, dirLive, inner]
          simp [followMountMnt, dirLive, inner, crossAll, climb_stop stop]
      | some m =>
          obtain ⟨mount, mountLive, mountpoint, below, rootLive⟩ :=
            names.mounted node dir m dirLive inner
          have step : crossing s (node, mnt) = some (mount.root, some m) := by
            simp [crossing, dirLive, inner, mountLive]
          have falls : (mountsFrom s mount.root).card < (mountsFrom s node).card :=
            names.crossing_falls _ _ step
          have same : crossAll s (node, mnt) = crossAll s (mount.root, some m) :=
            climb_next (fun before after => names.crossing_falls before after)
              (mountsFrom_card_le node) step
          rw [same, ← ih rootLive (by omega)]
          simp [followMountMnt, dirLive, inner, mountLive]

theorem Namespace.vfsFollowMountMnt_eq (names : Namespace s) {node : Nat} {mnt : Option Nat}
    (live : (s.nodes node).isSome) :
    vfsFollowMountMnt s node mnt = some (crossAll s (node, mnt)) :=
  names.followMountMnt_eq live (Nat.lt_succ_of_le (mountsFrom_card_le node))

/-! ## One name on -/

/-- A lookup callback returns nothing, or a new child of the given directory with the given
name. -/
def FsCode.Materialises (code : FsCode ω π) : Prop :=
  ∀ address lookup s mount dir name, code.lookup address = some lookup → Namespace s →
    s.Roomy → (s.nodes dir).isSome → childNamed s dir name = none →
    ∃ s' found, lookup s mount dir name = some (s', found) ∧ Builds s s' ∧
      ∀ id, found = some id →
        ∃ node, s'.nodes id = some node ∧ node.parent = some dir ∧ node.name = name

theorem TreeInv.vfsFindChildByName_eq (inv : TreeInv s) {dir : Nat}
    (live : (s.nodes dir).isSome) (name : CStr) :
    vfsFindChildByName s dir name = some (childNamed s dir name) := by
  obtain ⟨node, live⟩ := Option.isSome_iff_exists.mp live
  have found := findChildFrom_eq (inv.list dir node live) name (s.kids_length_le dir)
  simp only [vfsFindChildByName, live, Option.bind_eq_bind, Option.bind_some]
  exact found

theorem childNamed_spec (inv : TreeInv s) {dir id : Nat} {name : CStr}
    (found : childNamed s dir name = some id) :
    ∃ node, s.nodes id = some node ∧ node.parent = some dir ∧ node.name = name := by
  obtain ⟨node, live, parent⟩ := inv.mem_kids.mp (List.mem_of_find?_eq_some found)
  have same := List.find?_some found
  exact ⟨node, live, parent, by simpa [live] using same⟩

theorem childNamed_child (inv : TreeInv s) {dir id : Nat} {node : VfsNode ω π}
    (live : s.nodes id = some node) (parent : node.parent = some dir) :
    childNamed s dir node.name = some id := by
  obtain ⟨-, above, aboveLive, -⟩ := inv.parent id node dir live parent
  have found := inv.vfsFindChildByName_eq (Option.isSome_iff_exists.mpr ⟨above, aboveLive⟩)
    node.name
  rw [inv.findChild_self live parent] at found
  exact (Option.some.inj found).symm

/-- A name is missing if no child has it. -/
theorem childNamed_eq_none (inv : TreeInv s) {dir : Nat} {name : CStr} :
    childNamed s dir name = none ↔
      ∀ id node, s.nodes id = some node → node.parent = some dir → node.name ≠ name := by
  constructor
  · rintro missing id node live parent rfl
    rw [childNamed_child inv live parent] at missing
    cases missing
  · intro absent
    cases found : childNamed s dir name with
    | none => rfl
    | some id =>
        obtain ⟨node, live, parent, same⟩ := childNamed_spec inv found
        exact absurd same (absent id node live parent)

/-- What is on the way stays there when nodes are added. -/
theorem childNamed_extends (inv : TreeInv s') (grown : Extends s s') {dir id : Nat} {name : CStr}
    (inv₀ : TreeInv s) (found : childNamed s dir name = some id) :
    childNamed s' dir name = some id := by
  obtain ⟨node, live, parent, rfl⟩ := childNamed_spec inv₀ found
  obtain ⟨node', live', name', -, parent', -⟩ := grown.node id node live
  rw [← name']
  exact childNamed_child inv live' (parent'.trans parent)

/-- A position stays one when nodes are added. -/
theorem Position.extends {position : Nat × Option Nat} (here : Position s position)
    (grown : Extends s s') : Position s' position where
  node := by
    obtain ⟨node, live⟩ := Option.isSome_iff_exists.mp here.node
    obtain ⟨node', live', -⟩ := grown.node _ node live
    simp [live']
  mount := by
    rw [grown.mounts]
    exact here.mount

/-- Added nodes do not change where the crossings lead. -/
theorem Namespace.crossAll_extends (names : Namespace s) (grown : Extends s s')
    {position : Nat × Option Nat} (here : Position s position) :
    crossAll s' position = crossAll s position := by
  unfold crossAll
  rw [grown.nextMount]
  apply climb_congr _ (fun before after _ => names.crossing_position before after) _ here
  intro before live
  obtain ⟨node, live⟩ := Option.isSome_iff_exists.mp live.node
  obtain ⟨node', live', -, -, -, mnt⟩ := grown.node _ node live
  simp [crossing, live, live', mnt, grown.mounts]

/-- A name leads to a child with that name, in a state to which nodes were added. -/
theorem childOr_spec (materialises : code.Materialises) (names : Namespace s) (roomy : s.Roomy)
    {position : Nat × Option Nat} (here : Position s position) (name : CStr) :
    lookupSegment code s position.2 position.1 name =
        some (childOr code s position.2 position.1 name) ∧
      Builds s (childOr code s position.2 position.1 name).1 ∧
      ∀ id, (childOr code s position.2 position.1 name).2 = some id →
        childNamed (childOr code s position.2 position.1 name).1 position.1 name = some id := by
  have search := names.tree.vfsFindChildByName_eq here.node name
  unfold lookupSegment childOr
  rw [search]
  cases found : childNamed s position.1 name with
  | some id =>
      refine ⟨rfl, .refl, fun id' same => ?_⟩
      obtain rfl := Option.some.inj same
      exact found
  | none =>
      have nothing : Builds s (s, (none : Option Nat)).1 ∧ ∀ id,
          (s, (none : Option Nat)).2 = some id → childNamed s position.1 name = some id :=
        ⟨.refl, by simp⟩
      simp only [Option.bind_eq_bind, Option.bind_some]
      unfold lookupOnDemand materialise
      cases mnt : position.2 with
      | none => exact ⟨rfl, nothing⟩
      | some m =>
          obtain ⟨mount, mountLive⟩ := Option.isSome_iff_exists.mp (here.mount m mnt)
          simp only [Option.bind_eq_bind, Option.bind_some, mountLive]
          cases lookup : mount.sops.bind code.lookup with
          | none => exact ⟨rfl, nothing⟩
          | some lookupFn =>
              obtain ⟨address, -, isLookup⟩ := Option.bind_eq_some_iff.mp lookup
              obtain ⟨s', made, done, builds, child⟩ := materialises address lookupFn s mount
                position.1 name isLookup names roomy here.node found
              simp only [done, Option.getD_some]
              refine ⟨trivial, builds, fun id same => ?_⟩
              obtain ⟨node, live, parent, rfl⟩ := child id same
              exact childNamed_child (builds.tree names.tree).1 live parent

/-- The name of a child leads to it. -/
theorem TreeInv.resolveStep_child (inv : TreeInv s) (code : FsCode ω π) {id dir : Nat}
    {node : VfsNode ω π} (live : s.nodes id = some node) (parent : node.parent = some dir)
    (mnt : Option Nat) (follow : Bool) :
    resolveStep code follow (s, some (dir, mnt)) node.name =
      (s, some (if follow then crossAll s (id, mnt) else (id, mnt))) := by
  have there : childOr code s mnt dir node.name = (s, some id) := by
    unfold childOr
    rw [childNamed_child inv live parent]
  have valid := (vfsNameValid_iff.mp (inv.valid id node dir live parent)).1
  simp [resolveStep, valid, there]

theorem crossAll_uncovered {id : Nat} {node : VfsNode ω π} (live : s.nodes id = some node)
    (unmounted : node.mnt = none) (mnt : Option Nat) : crossAll s (id, mnt) = (id, mnt) :=
  climb_stop (by simp [crossing, live, unmounted]) _

/-- What is mounted on a node is crossed to. -/
theorem Namespace.crossAll_covered (ns : Namespace s) {id m : Nat} {node : VfsNode ω π}
    {mount : VfsMount π} (live : s.nodes id = some node) (covered : node.mnt = some m)
    (mountLive : s.mounts m = some mount) (mnt : Option Nat) :
    crossAll s (id, mnt) = crossAll s (mount.root, some m) := by
  refine climb_next ns.crossing_falls (mountsFrom_card_le id) ?_
  simp [crossing, live, covered, mountLive]

end Zsbl.Common
