/-
Module: Zsbl.Proofs.FdtEdit
Purpose: The edits of lib/fdt/fdt_rw.c on a blob that has a tree in it, against the edits of the
  tree.
Trusted boundary: none
Main exports:
  dtOf_update, nodeEnd_bytes, delNode_bytes
-/
import Mathlib.Data.List.InsertIdx
import Zsbl.Proofs.FdtSplice

namespace Zsbl.Libs

open Zsbl.Lib

/-! ## Trees -/

/-- What is done to a node of the blob is done to the node of the tree. -/
theorem dtOf_update {strings : List UInt8} {f : FlatTree → FlatTree} {g : DtNode → DtNode}
    (same : ∀ tree, dtOf strings (f tree) = g (dtOf strings tree)) (tree : FlatTree)
    (address : List Nat) :
    dtOf strings (tree.update f address) = (dtOf strings tree).update g address := by
  induction address generalizing tree with
  | nil => exact same tree
  | cons i rest ih =>
      rw [OrderedTree.update, DtNode.update, dtOf_eq, OrderedTree.label_node,
        OrderedTree.children_node, dtOf_eq strings tree, DtNode.mapChildren, DtNode.name_node,
        DtNode.props_node, DtNode.children_node]
      congr 1
      apply List.ext_getElem?
      intro j
      rw [List.getElem?_map, List.getElem?_modify, List.getElem?_modify, List.getElem?_map]
      cases tree.children[j]? with
      | none => simp
      | some child =>
          by_cases here : i = j
          · simp [here, ih]
          · simp [here]

def eraseChild (i : Nat) (tree : FlatTree) : FlatTree :=
  .node tree.label (tree.children.eraseIdx i)

theorem dtOf_eraseChild (strings : List UInt8) (i : Nat) (tree : FlatTree) :
    dtOf strings (eraseChild i tree) =
      (dtOf strings tree).mapChildren fun children => children.eraseIdx i := by
  rw [eraseChild, dtOf_eq, dtOf_eq strings tree, DtNode.mapChildren, OrderedTree.label_node,
    OrderedTree.children_node, DtNode.name_node, DtNode.props_node, DtNode.children_node,
    List.eraseIdx_map]

theorem flatForest_append (trees others : List FlatTree) :
    flatForest (trees ++ others) = flatForest trees ++ flatForest others :=
  OrderedTree.forest_append FlatLabel.opening [.endNode] trees others

/-! ## The end of a node -/

/-- What `fdt_node_end_offset_` looks for is the end alone. -/
def endScan : Scan where
  found _ _ := false
  closed offset := offset

theorem endScan_blind : endScan.Blind 0 := fun _ _ _ => rfl

namespace FdtImage

variable (img : FdtImage)

/-- The scan ends behind the node that it began in. -/
theorem nodeEndFrom_bytes {before rest : List FdtToken} {name : FlatName}
    (split : img.tokens = before ++ .beginNode name :: rest) {depth : Int} (inside : 0 ≤ depth)
    (ends : rest.getLast? = some .done) {turns : Nat} (enough : rest.length + 2 ≤ turns) :
    fdtNodeEndFrom img.bytes turns (tokenOffset before) depth =
      some (endScan.run (before ++ [.beginNode name]) rest depth) := by
  induction turns generalizing before rest name depth with
  | zero => cases enough
  | succ turns ih =>
      have turnsLeft : rest.length ≤ img.bytes.length := by
        have count := img.length_tokens_bytes
        rw [split, List.length_append, List.length_cons] at count
        omega
      have behind : img.tokens = before ++ [.beginNode name] ++ rest := by simpa using split
      obtain ⟨offset, depth', runs, next⟩ :=
        img.nextNodeFrom_cases behind ends inside turnsLeft
      rw [fdtNodeEndFrom, if_pos ⟨tokenOffset_nonneg before, inside⟩, img.nextNode_bytes split,
        runs, Option.bind_eq_bind, Option.bind_some]
      dsimp only
      rw [Option.getD_some]
      cases next with
      | @node skipped rest' name' _ depth' cut here below same =>
          rw [cut, List.length_append, List.length_cons] at enough
          have endsLater : rest'.getLast? = some .done := by
            rw [cut] at ends
            exact ends_of_ne (by nofun) ends
          have splitLater : img.tokens =
              before ++ [.beginNode name] ++ skipped ++ .beginNode name' :: rest' := by
            simp [split, cut]
          have later := ih splitLater (show 0 ≤ depth' + 1 by omega) endsLater (by omega)
          rw [here, same, later, Scan.run]
          rfl
      | closed outside positive same =>
          obtain ⟨turns, rfl⟩ : ∃ n, turns = n + 1 := ⟨turns - 1, by omega⟩
          rw [same, fdtNodeEndFrom, if_neg (by omega)]
          rfl
      | done below same =>
          obtain ⟨turns, rfl⟩ : ∃ n, turns = n + 1 := ⟨turns - 1, by omega⟩
          rw [same, fdtNodeEndFrom, if_neg (by simp [FDT_ERR_NOTFOUND])]

variable {img} {address : List Nat} {node : FlatTree}

/-- The end of a node is behind its tokens. -/
theorem nodeEnd_bytes (isNode : img.root.get? address = some node) :
    fdtNodeEndOffset img.bytes (img.nodeOffset address) =
      some (tokenOffset (img.front address ++ flatTokens node)) := by
  obtain ⟨after, split, ends⟩ := tokens_at isNode
  rw [flatTokens_eq, List.cons_append] at split
  have endsAll : (node.label.props.map FdtToken.prop ++
      (flatForest node.children ++ [FdtToken.endNode]) ++ after).getLast? = some .done := by
    rw [List.getLast?_append, ends]
    rfl
  have enough : (node.label.props.map FdtToken.prop ++
      (flatForest node.children ++ [FdtToken.endNode]) ++ after).length + 2 ≤
        img.bytes.length + 1 := by
    have count := img.length_tokens_bytes
    rw [split, List.length_append, List.length_cons] at count
    omega
  have scanned := img.nodeEndFrom_bytes split (le_refl 0) endsAll enough
  unfold fdtNodeEndOffset nodeOffset
  rw [scanned]
  simp only [List.append_assoc]
  rw [run_props, run_forest endScan_blind _ _ _ (le_refl 0) (by decide), List.singleton_append,
    Scan.run, if_pos (by decide), flatTokens_eq]
  simp [endScan]

/-! ## fdt_del_node -/

/-- The tokens around a child, and those of the tree without it. -/
theorem child_split (isNode : img.root.get? address = some node) {i : Nat} {child : FlatTree}
    (isChild : node.children[i]? = some child) :
    ∃ after, flatTokens img.root =
        img.front (address ++ [i]) ++ (flatTokens child ++ after) ∧
      flatTokens (img.root.update (eraseChild i) address) =
        img.front (address ++ [i]) ++ after := by
  obtain ⟨after, changed⟩ := OrderedTree.brackets_focus FlatLabel.opening [.endNode] isNode
  obtain ⟨inside, rfl⟩ := List.getElem?_eq_some_iff.mp isChild
  have front : img.front (address ++ [i]) =
      img.front address ++ (node.label.opening ++ flatForest (node.children.take i)) :=
    OrderedTree.before_concat FlatLabel.opening [.endNode] isNode i
  have whole : flatTokens img.root = img.front address ++ (flatTokens node ++ after) := by
    have same := changed node
    rwa [OrderedTree.update_get? isNode] at same
  have erased : flatTokens (img.root.update (eraseChild i) address) =
      img.front address ++ (flatTokens (eraseChild i node) ++ after) := by
    rw [OrderedTree.update_eq_const isNode]
    exact changed (eraseChild i node)
  have children : flatForest node.children = flatForest (node.children.take i) ++
      (flatTokens node.children[i] ++ flatForest (node.children.drop (i + 1))) := by
    rw [← flatForest_cons, ← List.drop_eq_getElem_cons inside, ← flatForest_append,
      List.take_append_drop]
  have fewer : flatForest (node.children.eraseIdx i) = flatForest (node.children.take i) ++
      flatForest (node.children.drop (i + 1)) := by
    rw [List.eraseIdx_eq_take_drop_succ, flatForest_append]
  refine ⟨flatForest (node.children.drop (i + 1)) ++ ([.endNode] ++ after), ?_, ?_⟩
  · rw [whole, flatTokens_eq, children, front]
    simp [FlatLabel.opening]
  · rw [erased, flatTokens_eq, eraseChild, OrderedTree.label_node, OrderedTree.children_node,
      fewer, front]
    simp [FlatLabel.opening]

/-- `fdt_del_node` takes a node out of the tree, in the same space. -/
theorem delNode_bytes (isNode : img.root.get? address = some node) {i : Nat} {child : FlatTree}
    (isChild : node.children[i]? = some child) :
    ∃ img' : FdtImage, fdtDelNode img.bytes (img.nodeOffset (address ++ [i])) =
        some (img'.bytes, 0) ∧
      img'.dt = img.dt.update (·.mapChildren fun children => children.eraseIdx i) address ∧
      img'.totalsize = img.totalsize := by
  obtain ⟨after, split, split'⟩ := child_split isNode isChild
  have isNodeBelow : img.root.get? (address ++ [i]) = some child := by
    rw [OrderedTree.get?_append, isNode, Option.bind_some, OrderedTree.get?, isChild]
    rfl
  have struct : img.struct = tokenBytes (img.front (address ++ [i])) ++
      (tokenBytes (flatTokens child) ++ tokenBytes (after ++ [.done])) := by
    rw [FdtLayout.struct, FdtLayout.tokens, split]
    simp
  have struct' : tokenBytes (flatTokens (img.root.update (eraseChild i) address) ++ [.done]) =
      tokenBytes (img.front (address ++ [i])) ++ ([] ++ tokenBytes (after ++ [.done])) := by
    rw [split']
    simp
  obtain ⟨middle, slack', isEmpty, isSlack, spliced⟩ :=
    spliceStruct_bytes struct (Nat.zero_le _)
  obtain rfl := List.eq_nil_of_length_eq_zero isEmpty
  have length : (tokenBytes (flatTokens (img.root.update (eraseChild i) address) ++
      [.done])).length + slack'.length = img.struct.length + img.slack.length := by
    rw [struct', struct]
    simp only [List.length_append, List.length_nil]
    omega
  have named : ∀ prop, .prop prop ∈ flatTokens (img.root.update (eraseChild i) address) →
      prop.Named img.strings := by
    intro prop member
    apply img.named
    rw [split'] at member
    rw [split]
    simp only [List.mem_append] at member ⊢
    exact member.elim .inl fun behind => .inr (.inr behind)
  obtain ⟨isBytes, sameTotal⟩ := edited_bytes length named struct struct'
  refine ⟨img.edited _ slack' length named, ?_, dtOf_update (dtOf_eraseChild img.strings i) _ _,
    sameTotal⟩
  have bounds := img.bounds
  have structLength := congrArg List.length struct
  simp only [List.length_append] at structLength
  have size : wrapInt (tokenOffset (img.front (address ++ [i]) ++ flatTokens child) -
      img.nodeOffset (address ++ [i])) = (tokenBytes (flatTokens child)).length := by
    have difference : tokenOffset (img.front (address ++ [i]) ++ flatTokens child) -
        img.nodeOffset (address ++ [i]) = (tokenBytes (flatTokens child)).length := by
      unfold nodeOffset tokenOffset
      rw [tokenBytes_append, List.length_append]
      omega
    rw [difference, wrapInt_of_lt (by omega) (by omega)]
  have position : (img.nodeOffset (address ++ [i])).toNat =
      (tokenBytes (img.front (address ++ [i]))).length := Int.toNat_natCast _
  unfold fdtDelNode
  rw [img.rwProbe_bytes]
  dsimp only
  rw [if_neg (by decide), nodeEnd_bytes isNodeBelow, Option.bind_eq_bind, Option.bind_some,
    if_neg (not_lt.mpr (tokenOffset_nonneg _)), size, position, img.offDtStruct_bytes]
  rw [isBytes]
  exact congrArg some spliced

end FdtImage

end Zsbl.Libs
