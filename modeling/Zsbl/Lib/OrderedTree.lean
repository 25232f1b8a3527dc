/-
Module: Zsbl.Lib.OrderedTree
Purpose: Labelled trees with ordered children, written down as sequences with an opening and a
  closing part for each node, and what a change at one address does to such a sequence.
Trusted boundary: none
Main exports:
  OrderedTree, OrderedTree.get?, OrderedTree.update, OrderedTree.brackets, OrderedTree.before,
  get?_append, update_get?, brackets_eq, brackets_focus, brackets_inj
-/
import Mathlib.Data.List.Basic

namespace Zsbl.Lib

inductive OrderedTree (α : Type*) where
  | node (label : α) (children : List (OrderedTree α))

namespace OrderedTree

variable {α β : Type*}

def label : OrderedTree α → α
  | node label _ => label

def children : OrderedTree α → List (OrderedTree α)
  | node _ children => children

@[simp] theorem label_node (label : α) (children : List (OrderedTree α)) :
    (node label children).label = label := rfl

@[simp] theorem children_node (label : α) (children : List (OrderedTree α)) :
    (node label children).children = children := rfl

/-- The node at an address, which is the positions among the children on the way to it. -/
def get? : OrderedTree α → List Nat → Option (OrderedTree α)
  | tree, [] => some tree
  | tree, i :: rest => tree.children[i]?.bind (get? · rest)

/-- The tree with the node at an address changed. -/
def update (tree : OrderedTree α) (f : OrderedTree α → OrderedTree α) :
    List Nat → OrderedTree α
  | [] => f tree
  | i :: rest => node tree.label (tree.children.modify i (update · f rest))

theorem get?_append (tree : OrderedTree α) (address below : List Nat) :
    tree.get? (address ++ below) = (tree.get? address).bind (get? · below) := by
  induction address generalizing tree with
  | nil => rfl
  | cons i rest ih =>
      simp only [List.cons_append, get?]
      cases tree.children[i]? with
      | none => rfl
      | some child => exact ih child

/-- What is written at an address is what is there. -/
theorem update_get? {tree found : OrderedTree α} {address : List Nat}
    (isFound : tree.get? address = some found) : tree.update (fun _ => found) address = tree := by
  induction address generalizing tree with
  | nil =>
      cases isFound
      rfl
  | cons i rest ih =>
      obtain ⟨child, isChild, below⟩ := Option.bind_eq_some_iff.mp isFound
      obtain ⟨label, children⟩ := tree
      rw [update, label_node, children_node]
      congr 1
      apply List.ext_getElem?
      intro j
      rw [List.getElem?_modify]
      split
      case isTrue same =>
        subst same
        rw [children_node] at isChild
        rw [isChild, Option.map_eq_map, Option.map_some, ih below]
      case isFalse => simp

theorem update_eq_const {tree found : OrderedTree α} {address : List Nat}
    (isFound : tree.get? address = some found) (f : OrderedTree α → OrderedTree α) :
    tree.update f address = tree.update (fun _ => f found) address := by
  induction address generalizing tree with
  | nil =>
      cases isFound
      rfl
  | cons i rest ih =>
      obtain ⟨child, isChild, below⟩ := Option.bind_eq_some_iff.mp isFound
      rw [update, update]
      congr 1
      apply List.ext_getElem?
      intro j
      rw [List.getElem?_modify, List.getElem?_modify]
      split
      case isTrue same =>
        subst same
        simp only [isChild, Option.map_eq_map, Option.map_some, ih below]
      case isFalse => rfl

/-! ## Sequences -/

variable (opening : α → List β) (closing : List β)

mutual

/-- The sequence of a tree. -/
def brackets : OrderedTree α → List β
  | node label children => opening label ++ (forest children ++ closing)

/-- The sequences of some trees, one behind the other. -/
def forest : List (OrderedTree α) → List β
  | [] => []
  | tree :: trees => brackets tree ++ forest trees

end

theorem brackets_eq (tree : OrderedTree α) :
    tree.brackets opening closing =
      opening tree.label ++ (forest opening closing tree.children ++ closing) := by
  cases tree
  rw [brackets, label_node, children_node]

theorem forest_append (trees others : List (OrderedTree α)) :
    forest opening closing (trees ++ others) =
      forest opening closing trees ++ forest opening closing others := by
  induction trees with
  | nil => rfl
  | cons tree trees ih => rw [List.cons_append, forest, ih, forest, List.append_assoc]

/-- The part of the sequence of a tree in front of the node at an address. -/
def before : OrderedTree α → List Nat → List β
  | _, [] => []
  | tree, i :: rest =>
      opening tree.label ++ (forest opening closing (tree.children.take i) ++
        tree.children[i]?.elim [] (before · rest))

theorem forest_modify {trees : List (OrderedTree α)} {i : Nat} {tree : OrderedTree α}
    (isTree : trees[i]? = some tree) (f : OrderedTree α → OrderedTree α) :
    forest opening closing (trees.modify i f) =
      forest opening closing (trees.take i) ++
        ((f tree).brackets opening closing ++ forest opening closing (trees.drop (i + 1))) := by
  obtain ⟨inside, rfl⟩ := List.getElem?_eq_some_iff.mp isTree
  rw [List.modify_eq_take_cons_drop inside, forest_append, forest]

theorem before_concat {tree found : OrderedTree α} {address : List Nat}
    (isFound : tree.get? address = some found) (i : Nat) :
    tree.before opening closing (address ++ [i]) =
      tree.before opening closing address ++
        (opening found.label ++ forest opening closing (found.children.take i)) := by
  induction address generalizing tree with
  | nil =>
      cases isFound
      rw [List.nil_append, before, before, List.nil_append]
      cases found.children[i]? with
      | none => simp
      | some child => simp [before]
  | cons j rest ih =>
      obtain ⟨child, isChild, below⟩ := Option.bind_eq_some_iff.mp isFound
      rw [List.cons_append, before, before, isChild, Option.elim_some, Option.elim_some, ih below]
      simp only [List.append_assoc]

/-- A change at an address leaves alone what is in front of the node and what is behind it. -/
theorem brackets_focus {tree found : OrderedTree α} {address : List Nat}
    (isFound : tree.get? address = some found) :
    ∃ after, ∀ other : OrderedTree α,
      (tree.update (fun _ => other) address).brackets opening closing =
        tree.before opening closing address ++ (other.brackets opening closing ++ after) := by
  induction address generalizing tree with
  | nil => exact ⟨[], fun other => by simp [update, before]⟩
  | cons i rest ih =>
      obtain ⟨child, isChild, below⟩ := Option.bind_eq_some_iff.mp isFound
      obtain ⟨after, changed⟩ := ih below
      refine ⟨after ++ (forest opening closing (tree.children.drop (i + 1)) ++ closing),
        fun other => ?_⟩
      rw [update, brackets, forest_modify opening closing isChild, changed other, before, isChild,
        Option.elim_some]
      simp only [List.append_assoc]

/-! ### Reading back -/

/-- A label can be read from what its opening part starts, when another one or the closing part
is behind it. -/
structure Delimited (Stops : List β → Prop) : Prop where
  reads : ∀ {label label' : α} {rest rest' : List β}, Stops rest → Stops rest' →
    opening label ++ rest = opening label' ++ rest' → label = label' ∧ rest = rest'
  stops_opening : ∀ label rest, Stops (opening label ++ rest)
  stops_closing : ∀ rest, Stops (closing ++ rest)
  apart : ∀ label rest rest', opening label ++ rest ≠ closing ++ rest'

section Delimited

variable {opening closing} {Stops : List β → Prop} (delimited : Delimited opening closing Stops)

include delimited

theorem Delimited.stops_forest (trees : List (OrderedTree α)) (rest : List β) :
    Stops (forest opening closing trees ++ (closing ++ rest)) := by
  cases trees with
  | nil =>
      rw [forest, List.nil_append]
      exact delimited.stops_closing rest
  | cons tree trees =>
      rw [forest, brackets_eq, List.append_assoc, List.append_assoc]
      exact delimited.stops_opening _ _

mutual

/-- Where labels can be read, so can trees. -/
theorem brackets_inj : ∀ (tree other : OrderedTree α) {rest rest' : List β},
    tree.brackets opening closing ++ rest = other.brackets opening closing ++ rest' →
      tree = other ∧ rest = rest'
  | .node label children, .node label' children', rest, rest', same => by
      rw [brackets, brackets] at same
      simp only [List.append_assoc] at same
      obtain ⟨sameLabel, below⟩ := delimited.reads (delimited.stops_forest children rest)
        (delimited.stops_forest children' rest') same
      obtain ⟨sameChildren, behind⟩ := forest_inj children children' below
      exact ⟨by rw [sameLabel, sameChildren], behind⟩

theorem forest_inj : ∀ (trees others : List (OrderedTree α)) {rest rest' : List β},
    forest opening closing trees ++ (closing ++ rest) =
        forest opening closing others ++ (closing ++ rest') →
      trees = others ∧ rest = rest'
  | [], [], rest, rest', same => by
      rw [forest] at same
      exact ⟨rfl, List.append_cancel_left same⟩
  | [], other :: others, rest, rest', same => by
      rw [forest, forest, brackets_eq, List.nil_append, List.append_assoc,
        List.append_assoc] at same
      exact absurd same.symm (delimited.apart _ _ _)
  | tree :: trees, [], rest, rest', same => by
      rw [forest, forest, brackets_eq, List.nil_append, List.append_assoc,
        List.append_assoc] at same
      exact absurd same (delimited.apart _ _ _)
  | tree :: trees, other :: others, rest, rest', same => by
      rw [forest, forest, List.append_assoc, List.append_assoc] at same
      obtain ⟨first, later⟩ := brackets_inj tree other same
      obtain ⟨others, behind⟩ := forest_inj trees others later
      exact ⟨by rw [first, others], behind⟩

end

end Delimited

end OrderedTree

end Zsbl.Lib
