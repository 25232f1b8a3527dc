/-
Module: Zsbl.Lib.DeviceTree
Purpose: Trees of named nodes with properties: addresses by child positions, lookup by the
  names along a path, and what writing one property leaves alone.
Trusted boundary: none
Main exports:
  DtNode, DtNode.prop?, DtNode.setProp, nodenameEq, DtNode.pathOffset, DtNode.get?,
  DtNode.update, prop?_setProp_self, prop?_setProp_of_ne, get?_update_self, pathOffset_get?
-/
import Mathlib.Data.List.Basic

namespace Zsbl.Lib

/-- A node with its properties in their order, and the nodes below it. -/
inductive DtNode where
  | node (name : List UInt8) (props : List (List UInt8 × List UInt8)) (children : List DtNode)

/-- A component of a path names a node, whose unit address it may leave out. -/
def nodenameEq (name s : List UInt8) : Bool :=
  s.isPrefixOf name &&
    (name.drop s.length = [] || (!s.contains 0x40 && (name.drop s.length).head? = some 0x40))

namespace DtNode

def name : DtNode → List UInt8
  | node name _ _ => name

def props : DtNode → List (List UInt8 × List UInt8)
  | node _ props _ => props

def children : DtNode → List DtNode
  | node _ _ children => children

/-- The value of the first property of a name. -/
def prop? (dt : DtNode) (key : List UInt8) : Option (List UInt8) :=
  (dt.props.find? fun prop => prop.1 = key).map (·.2)

def mapChildren (dt : DtNode) (f : List DtNode → List DtNode) : DtNode :=
  node dt.name dt.props (f dt.children)

/-- The properties with another value for the first one of a name. -/
def replaceFirst (key value : List UInt8) :
    List (List UInt8 × List UInt8) → List (List UInt8 × List UInt8)
  | [] => []
  | prop :: rest =>
      if prop.1 = key then (key, value) :: rest else prop :: replaceFirst key value rest

/-- A property that is there gets the value; a new one comes first. -/
def setProp (dt : DtNode) (key value : List UInt8) : DtNode :=
  match dt.prop? key with
  | some _ => node dt.name (replaceFirst key value dt.props) dt.children
  | none => node dt.name ((key, value) :: dt.props) dt.children

/-- The position of the first child that a component names. -/
def subnode? (dt : DtNode) (s : List UInt8) : Option Nat :=
  dt.children.findIdx? fun child => nodenameEq child.name s

/-- The child positions along a path of names. -/
def pathOffset : DtNode → List (List UInt8) → Option (List Nat)
  | _, [] => some []
  | dt, s :: rest => do
      let i ← dt.subnode? s
      let child ← dt.children[i]?
      let address ← pathOffset child rest
      some (i :: address)

/-- The node at an address. -/
def get? : DtNode → List Nat → Option DtNode
  | dt, [] => some dt
  | dt, i :: rest => dt.children[i]?.bind (get? · rest)

/-- The tree with the node at an address changed. -/
def update (dt : DtNode) (f : DtNode → DtNode) : List Nat → DtNode
  | [] => f dt
  | i :: rest => dt.mapChildren fun children => children.modify i (update · f rest)

@[simp] theorem name_node (name : List UInt8) (props : List (List UInt8 × List UInt8))
    (children : List DtNode) : (node name props children).name = name := rfl

@[simp] theorem props_node (name : List UInt8) (props : List (List UInt8 × List UInt8))
    (children : List DtNode) : (node name props children).props = props := rfl

@[simp] theorem children_node (name : List UInt8) (props : List (List UInt8 × List UInt8))
    (children : List DtNode) : (node name props children).children = children := rfl

@[simp] theorem children_mapChildren (dt : DtNode) (f : List DtNode → List DtNode) :
    (dt.mapChildren f).children = f dt.children := rfl

@[simp] theorem props_mapChildren (dt : DtNode) (f : List DtNode → List DtNode) :
    (dt.mapChildren f).props = dt.props := rfl

@[simp] theorem children_setProp (dt : DtNode) (key value : List UInt8) :
    (dt.setProp key value).children = dt.children := by
  unfold setProp
  split <;> rfl

theorem find?_replaceFirst (key value : List UInt8) {other : List UInt8}
    (props : List (List UInt8 × List UInt8)) (ne : other ≠ key) :
    (replaceFirst key value props).find? (fun prop => prop.1 = other) =
      props.find? fun prop => prop.1 = other := by
  induction props with
  | nil => rfl
  | cons prop rest ih =>
      unfold replaceFirst
      by_cases here : prop.1 = key
      · simp [here, ne.symm]
      · simp only [here, if_false, List.find?_cons, ih]

theorem find?_replaceFirst_self (key value : List UInt8) {props : List (List UInt8 × List UInt8)}
    (member : (props.find? fun prop => prop.1 = key).isSome = true) :
    (replaceFirst key value props).find? (fun prop => prop.1 = key) = some (key, value) := by
  induction props with
  | nil => simp at member
  | cons prop rest ih =>
      unfold replaceFirst
      by_cases here : prop.1 = key
      · simp [here]
      · simp only [here, if_false, List.find?_cons, decide_false] at member ⊢
        exact ih member

/-- The property that is written has its value. -/
theorem prop?_setProp_self (dt : DtNode) (key value : List UInt8) :
    (dt.setProp key value).prop? key = some value := by
  unfold setProp
  split
  · next _ there =>
    have member : (dt.props.find? fun prop => prop.1 = key).isSome = true := by
      have := congrArg Option.isSome there
      simpa [prop?] using this
    simp [prop?, find?_replaceFirst_self key value member]
  · simp [prop?]

/-- The other properties keep theirs. -/
theorem prop?_setProp_of_ne (dt : DtNode) {key other : List UInt8} (value : List UInt8)
    (ne : other ≠ key) : (dt.setProp key value).prop? other = dt.prop? other := by
  unfold setProp
  split
  · simp [prop?, find?_replaceFirst key value _ ne]
  · simp [prop?, ne.symm]

/-- The changed node is at its address. -/
theorem get?_update_self {dt : DtNode} (f : DtNode → DtNode) (address : List Nat) :
    (dt.update f address).get? address = (dt.get? address).map f := by
  induction address generalizing dt with
  | nil => rfl
  | cons i rest ih =>
      simp only [update, get?, children_mapChildren, List.getElem?_modify_eq]
      cases dt.children[i]? with
      | none => rfl
      | some child => exact ih

/-- A path that is found leads to a node. -/
theorem pathOffset_get? {dt : DtNode} {path : List (List UInt8)} {address : List Nat}
    (found : dt.pathOffset path = some address) : (dt.get? address).isSome = true := by
  induction path generalizing dt address with
  | nil =>
      cases found
      rfl
  | cons s rest ih =>
      simp only [pathOffset, Option.bind_eq_bind, Option.bind_eq_some_iff] at found
      obtain ⟨i, -, child, isChild, below, found, same⟩ := found
      cases same
      simp [get?, isChild, ih found]

end DtNode

end Zsbl.Lib
