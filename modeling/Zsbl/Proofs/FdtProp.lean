/-
Module: Zsbl.Proofs.FdtProp
Purpose: The properties of a node as lib/fdt reads them from a blob, against those that the node
  has in the tree.
Trusted boundary: none
Main exports:
  FdtImage.propOffset, getPropertyNamelen_bytes, getprop_bytes, path_getprop
-/
import Zsbl.Proofs.FdtWalk

namespace Zsbl.Libs

open Zsbl.Lib

/-! ## Names -/

theorem FlatProp.Named.lt {strings : List UInt8} {flat : FlatProp} (named : flat.Named strings) :
    flat.nameoff < strings.length := by
  by_contra outside
  unfold FlatProp.Named at named
  rw [List.drop_eq_nil_of_le (not_lt.mp outside)] at named
  cases named

namespace FdtImage

/-- The name of a property is read from the strings block. -/
theorem getString_bytes (img : FdtImage) {flat : FlatProp} (named : flat.Named img.strings) :
    fdtGetString img.bytes flat.nameoff = .ok (flat.key img.strings) := by
  have bounds := img.bounds
  have inside := named.lt
  have absoffset : toUint ((flat.nameoff : Int) + img.offDtStrings) =
      img.offDtStrings + flat.nameoff := by
    unfold toUint
    omega
  have front : (wordBytes img.header ++ (img.reserve ++ (img.struct ++ img.gap))).length =
      img.offDtStrings := by
    simp only [List.length_append, img.length_header, FdtLayout.offDtStrings,
      FdtLayout.offDtStruct]
    omega
  have strings : (img.bytes.drop (img.offDtStrings + flat.nameoff)).take
      (img.strings.length - flat.nameoff) = img.strings.drop flat.nameoff := by
    have split : img.bytes = wordBytes img.header ++ (img.reserve ++ (img.struct ++ img.gap)) ++
        (img.strings ++ img.slack) := by
      simp only [FdtLayout.bytes, FdtLayout.tail, List.append_assoc]
    rw [split, ← front, List.drop_length_add_append, List.drop_append_of_le_length inside.le,
      List.take_left' (by rw [List.length_drop])]
  have whole : min (img.totalsize - (img.offDtStrings + flat.nameoff))
      (img.strings.length - flat.nameoff) = img.strings.length - flat.nameoff := by omega
  unfold fdtGetString
  rw [img.roProbe_bytes, img.offDtStrings_bytes, img.magic_bytes, img.version_bytes,
    img.sizeDtStrings_bytes, absoffset, if_neg (by omega)]
  dsimp only
  rw [if_neg (by omega), if_pos rfl, if_neg (by omega), if_pos (by decide), if_neg (by omega),
    Int.toNat_natCast, Int.toNat_natCast, whole]
  dsimp only
  rw [strings]
  exact if_pos named

variable (img : FdtImage) {before rest : List FdtToken}

/-- A property has its fields where they belong. -/
theorem propFields_bytes {flat : FlatProp} (split : img.tokens = before ++ .prop flat :: rest) :
    fdt32 img.bytes (fdtPropPosition img.bytes (tokenOffset before) + 4) = flat.value.length ∧
      (flat.nameoff < 2 ^ 32 →
        fdt32 img.bytes (fdtPropPosition img.bytes (tokenOffset before) + 8) = flat.nameoff) ∧
      (img.bytes.drop (fdtPropPosition img.bytes (tokenOffset before) + 12)).take
        flat.value.length = flat.value := by
  have bounds := img.bounds
  have here := img.drop_struct split
  have length := congrArg List.length here
  simp only [FdtToken.body, List.length_drop, List.length_append, length_beBytes] at length
  have lenHere : img.struct.drop ((tokenBytes before).length + 4) =
      beBytes 4 flat.value.length ++
        (beBytes 4 flat.nameoff ++ (flat.value ++ (flat.pad ++ tokenBytes rest))) := by
    rw [← List.drop_drop, here, List.drop_left' (length_beBytes 4 _)]
    simp only [FdtToken.body, List.append_assoc]
  have nameHere : img.struct.drop ((tokenBytes before).length + 8) =
      beBytes 4 flat.nameoff ++ (flat.value ++ (flat.pad ++ tokenBytes rest)) := by
    rw [show (tokenBytes before).length + 8 = (tokenBytes before).length + 4 + 4 from rfl,
      ← List.drop_drop, lenHere, List.drop_left' (length_beBytes 4 _)]
  have valueHere : img.struct.drop ((tokenBytes before).length + 12) =
      flat.value ++ (flat.pad ++ tokenBytes rest) := by
    rw [show (tokenBytes before).length + 12 = (tokenBytes before).length + 8 + 4 from rfl,
      ← List.drop_drop, nameHere, List.drop_left' (length_beBytes 4 _)]
  unfold fdtPropPosition tokenOffset
  rw [img.offDtStruct_bytes, Int.toNat_natCast]
  simp only [Nat.add_assoc]
  refine ⟨img.fdt32_bytes (by omega) lenHere, fun fits => img.fdt32_bytes fits nameHere, ?_⟩
  rw [img.drop_bytes (by omega), valueHere, List.append_assoc, List.take_left]

/-- The comparison with the name in the strings block is the one with the key. -/
theorem stringEq_bytes {flat : FlatProp} (split : img.tokens = before ++ .prop flat :: rest)
    (named : flat.Named img.strings) (name : List UInt8) :
    fdtStringEq img.bytes
        (wrapInt (fdt32 img.bytes (fdtPropPosition img.bytes (tokenOffset before) + 8))) name =
      decide (flat.key img.strings = name) := by
  have bounds := img.bounds
  have inside := named.lt
  rw [(img.propFields_bytes split).2.1 (by omega), wrapInt_of_lt (by omega) (by omega)]
  unfold fdtStringEq
  rw [img.getString_bytes named]

/-! ## The loop over the properties -/

/-- Where a list of properties starts, as `nextprop_` yields it. -/
def propsOffset (before : List FdtToken) : List FlatProp → Int
  | [] => -FDT_ERR_NOTFOUND
  | _ :: _ => tokenOffset before

/-- The scan meets the next property, or the end of the properties. -/
theorem nextprop_bytes {props : List FlatProp} {token : FdtToken}
    (split : img.tokens = before ++ (props.map .prop ++ token :: rest))
    (stops : token.tag = FDT_BEGIN_NODE ∨ token.tag = FDT_END_NODE) {turns : Nat}
    (enough : 0 < turns) :
    fdtNextprop img.bytes turns (tokenOffset before) = some (propsOffset before props) := by
  obtain ⟨turns, rfl⟩ : ∃ n, turns = n + 1 := ⟨turns - 1, by omega⟩
  cases props with
  | nil =>
      rw [fdtNextprop, img.nextTag_bytes split]
      rcases stops with isTag | isTag <;>
        simp [isTag, FDT_BEGIN_NODE, FDT_END_NODE, FDT_END, FDT_PROP, FDT_NOP, propsOffset]
  | cons flat props =>
      rw [fdtNextprop, img.nextTag_bytes split]
      simp [FdtToken.tag, FDT_END, FDT_PROP, propsOffset]

theorem length_bytes_pos : 0 < img.bytes.length := by
  have bounds := img.bounds
  have header : 40 ≤ img.offDtStruct := Nat.le_add_right 40 _
  rw [img.length_bytes]
  omega

/-- Behind a property the next one is met, or there is none. -/
theorem nextPropertyOffset_bytes {flat : FlatProp} {props : List FlatProp} {token : FdtToken}
    (split : img.tokens = before ++ .prop flat :: (props.map .prop ++ token :: rest))
    (stops : token.tag = FDT_BEGIN_NODE ∨ token.tag = FDT_END_NODE) :
    fdtNextPropertyOffset img.bytes (tokenOffset before) =
      some (propsOffset (before ++ [.prop flat]) props) := by
  have behind : img.tokens = before ++ [.prop flat] ++ (props.map .prop ++ token :: rest) := by
    simpa using split
  have next := img.nextprop_bytes behind stops img.length_bytes_pos
  have checked : fdtCheckPropOffset img.bytes (tokenOffset before) =
      tokenOffset (before ++ [.prop flat]) := img.checkOffset_bytes split
  unfold fdtNextPropertyOffset
  rw [checked]
  dsimp only
  rw [if_neg (not_lt.mpr (tokenOffset_nonneg _)), next]

/-- The loop finds the first property of the name. -/
theorem getPropertyFrom_bytes {props : List FlatProp} {token : FdtToken}
    (split : img.tokens = before ++ (props.map .prop ++ token :: rest))
    (stops : token.tag = FDT_BEGIN_NODE ∨ token.tag = FDT_END_NODE)
    (named : ∀ prop ∈ props, prop.Named img.strings) (name : List UInt8) {turns : Nat}
    (enough : props.length < turns) :
    fdtGetPropertyFrom img.bytes name turns (propsOffset before props) =
      some (match props.findIdx? fun prop => prop.key img.strings = name with
        | some i => .ok (tokenOffset (before ++ (props.take i).map .prop))
        | none => .error (-FDT_ERR_NOTFOUND)) := by
  induction props generalizing before turns with
  | nil =>
      obtain ⟨turns, rfl⟩ : ∃ n, turns = n + 1 := ⟨turns - 1, by omega⟩
      rfl
  | cons flat props ih =>
      obtain ⟨turns, rfl⟩ : ∃ n, turns = n + 1 := ⟨turns - 1, by omega⟩
      have here : img.tokens = before ++ .prop flat :: (props.map .prop ++ token :: rest) := split
      have checked : fdtCheckPropOffset img.bytes (tokenOffset before) =
          tokenOffset (before ++ [.prop flat]) := img.checkOffset_bytes here
      have first := img.stringEq_bytes here (named flat (List.mem_cons_self ..)) name
      rw [propsOffset, fdtGetPropertyFrom, if_neg (not_lt.mpr (tokenOffset_nonneg _)), checked,
        if_neg (not_lt.mpr (tokenOffset_nonneg _)), first, List.findIdx?_cons]
      by_cases same : flat.key img.strings = name
      · simp [same]
      · have behind : img.tokens =
            before ++ [.prop flat] ++ (props.map .prop ++ token :: rest) := by
          simpa using split
        have later := ih behind (fun prop member => named prop (List.mem_cons_of_mem _ member))
          (Nat.lt_of_succ_lt_succ enough)
        rw [if_neg (by simpa using same), img.nextPropertyOffset_bytes here stops,
          Option.bind_eq_bind, Option.bind_some, later, if_neg (by simpa using same)]
        cases props.findIdx? fun prop => decide (prop.key img.strings = name) with
        | none => rfl
        | some i => simp

/-! ## The properties of a node -/

/-- Where a property of a node is. -/
def propOffset (address : List Nat) (label : FlatLabel) (i : Nat) : Int :=
  tokenOffset (img.front address ++ .beginNode label.name :: (label.props.take i).map .prop)

variable {img} {address : List Nat} {node : FlatTree}

/-- Behind the properties of a node there is a node or its end. -/
theorem props_at (isNode : img.root.get? address = some node) :
    ∃ token after, img.tokens = img.front address ++
        .beginNode node.label.name :: (node.label.props.map .prop ++ token :: after) ∧
      (token.tag = FDT_BEGIN_NODE ∨ token.tag = FDT_END_NODE) := by
  obtain ⟨after, split, -⟩ := tokens_at isNode
  rw [flatTokens_eq] at split
  cases children : node.children with
  | nil =>
      refine ⟨.endNode, after, ?_, .inr rfl⟩
      rw [split, children]
      simp
  | cons child others =>
      refine ⟨.beginNode child.label.name, child.label.props.map .prop ++
        (flatForest child.children ++ .endNode :: (flatForest others ++ .endNode :: after)), ?_,
        .inl rfl⟩
      rw [split, children, flatForest_cons, flatTokens_eq]
      simp

/-- Every property of a node of the tree has its name in the strings block. -/
theorem named_at (isNode : img.root.get? address = some node) :
    ∀ prop ∈ node.label.props, prop.Named img.strings := by
  obtain ⟨after, changed⟩ := OrderedTree.brackets_focus FlatLabel.opening [.endNode] isNode
  have split : flatTokens img.root = img.front address ++ (flatTokens node ++ after) := by
    have same := changed node
    rwa [OrderedTree.update_get? isNode] at same
  intro prop member
  apply img.named
  rw [split, flatTokens_eq]
  simp [member]

/-- The search finds the first property with the name. -/
theorem getPropertyNamelen_bytes (isNode : img.root.get? address = some node)
    (name : List UInt8) :
    fdtGetPropertyNamelen img.bytes (img.nodeOffset address) name =
      some (match node.label.props.findIdx? fun prop => prop.key img.strings = name with
        | some i => .ok (img.propOffset address node.label i)
        | none => .error (-FDT_ERR_NOTFOUND)) := by
  obtain ⟨token, after, split, stops⟩ := props_at isNode
  have inner : img.tokens = img.front address ++ [.beginNode node.label.name] ++
      (node.label.props.map .prop ++ token :: after) := by
    simpa using split
  have first := img.nextprop_bytes inner stops img.length_bytes_pos
  have enough : node.label.props.length < img.bytes.length + 1 := by
    have count := img.length_tokens_bytes
    rw [split] at count
    simp only [List.length_append, List.length_cons, List.length_map] at count
    omega
  have loop := img.getPropertyFrom_bytes inner stops (named_at isNode) name enough
  unfold fdtGetPropertyNamelen fdtFirstPropertyOffset nodeOffset
  rw [img.checkNodeOffset_bytes split]
  dsimp only
  rw [if_neg (not_lt.mpr (tokenOffset_nonneg _)), first, Option.bind_eq_bind, Option.bind_some,
    loop]
  cases node.label.props.findIdx? fun prop => decide (prop.key img.strings = name) with
  | none => rfl
  | some i => simp [propOffset]

theorem prop?_dtOf (strings name : List UInt8) (node : FlatTree) :
    (dtOf strings node).prop? name =
      (node.label.props.find? fun prop => prop.key strings = name).map (·.value) := by
  rw [DtNode.prop?, dtOf_eq, DtNode.props_node, List.find?_map, Option.map_map]
  rfl

/-- The property at a position. -/
theorem prop_split (isNode : img.root.get? address = some node) {i : Nat} {flat : FlatProp}
    (isProp : node.label.props[i]? = some flat) :
    ∃ after, img.tokens = img.front address ++
      .beginNode node.label.name :: (node.label.props.take i).map .prop ++ .prop flat :: after := by
  obtain ⟨token, after, split, -⟩ := props_at isNode
  obtain ⟨inside, rfl⟩ := List.getElem?_eq_some_iff.mp isProp
  refine ⟨(node.label.props.drop (i + 1)).map .prop ++ token :: after, ?_⟩
  have cut : node.label.props =
      node.label.props.take i ++ node.label.props[i] :: node.label.props.drop (i + 1) := by
    rw [← List.drop_eq_getElem_cons inside, List.take_append_drop]
  rw [split]
  conv_lhs => rw [cut, List.map_append, List.map_cons]
  simp only [List.append_assoc, List.cons_append]

theorem find?_of_findIdx? {α : Type*} {p : α → Bool} {items : List α} {i : Nat}
    (found : items.findIdx? p = some i) :
    ∃ item, items[i]? = some item ∧ items.find? p = some item := by
  rw [List.findIdx?_eq_some_iff_getElem] at found
  obtain ⟨inside, holds, earlier⟩ := found
  refine ⟨items[i], List.getElem?_eq_getElem inside, ?_⟩
  rw [List.find?_eq_some_iff_getElem]
  exact ⟨holds, i, inside, rfl, by simpa using earlier⟩

/-- A property that the node has is read, from where it is in the blob; what it does not have is
not found. -/
theorem getprop_bytes (isNode : img.root.get? address = some node) (name : List UInt8) :
    match (dtOf img.strings node).prop? name with
    | some value => ∃ position, fdtGetprop img.bytes (img.nodeOffset address) name =
        some (.ok (position, value.length)) ∧
        (img.bytes.drop position).take value.length = value
    | none => fdtGetprop img.bytes (img.nodeOffset address) name =
        some (.error (-FDT_ERR_NOTFOUND)) := by
  have property := getPropertyNamelen_bytes isNode name
  rw [prop?_dtOf]
  cases found : node.label.props.findIdx? fun prop => decide (prop.key img.strings = name) with
  | none =>
      have missing := List.findIdx?_eq_none_iff.mp found
      rw [List.find?_eq_none.mpr (by simpa using missing)]
      unfold fdtGetprop
      rw [property, found]
      rfl
  | some i =>
      obtain ⟨flat, isProp, isFirst⟩ := find?_of_findIdx? found
      obtain ⟨after, split⟩ := prop_split isNode isProp
      obtain ⟨len, -, value⟩ := img.propFields_bytes split
      have small : flat.value.length < 2 ^ 31 := by
        have bounds := img.bounds
        have here := congrArg List.length (img.drop_struct split)
        simp only [FdtToken.body, List.length_drop, List.length_append, length_beBytes] at here
        omega
      rw [isFirst]
      refine ⟨_, ?_, value⟩
      unfold fdtGetprop
      rw [property, found]
      simp only [Option.bind_eq_bind, Option.bind_some]
      rw [propOffset, len, img.version_bytes, if_neg (by omega),
        wrapInt_of_lt (by omega) (by omega)]

/-- A node of the tree that is meant is the meaning of the node at that place. -/
theorem get?_dtOf (strings : List UInt8) (tree : FlatTree) (address : List Nat) :
    (dtOf strings tree).get? address = (tree.get? address).map (dtOf strings) := by
  induction address generalizing tree with
  | nil => rfl
  | cons i rest ih =>
      rw [DtNode.get?, OrderedTree.get?, getElem?_dtOf]
      cases tree.children[i]? with
      | none => rfl
      | some child => exact ih child

/-- A node of the tree that a blob describes is one of the blob. -/
theorem node_of_dt (img : FdtImage) {address : List Nat} {node : DtNode}
    (isNode : img.dt.get? address = some node) :
    ∃ flat, img.root.get? address = some flat ∧ node = dtOf img.strings flat := by
  rw [dt, get?_dtOf, Option.map_eq_some_iff] at isNode
  obtain ⟨flat, isFlat, same⟩ := isNode
  exact ⟨flat, isFlat, same.symm⟩

/-- A property of the node of a path is read: its value stands where `fdt_getprop` says, in the
length that it says, and errors come from a node or a property that the tree does not have. -/
theorem path_getprop (img : FdtImage) {path : List UInt8} (absolute : path.head? = some 0x2f)
    (name : List UInt8) :
    ∃ offset, fdtPathOffset img.bytes path = some offset ∧
      match img.dt.pathOffset (components path) with
      | none => offset = -FDT_ERR_NOTFOUND
      | some address => 0 ≤ offset ∧ ∃ node, img.dt.get? address = some node ∧
          match node.prop? name with
          | none => fdtGetprop img.bytes offset name = some (.error (-FDT_ERR_NOTFOUND))
          | some value => ∃ position,
              fdtGetprop img.bytes offset name = some (.ok (position, value.length)) ∧
                (img.bytes.drop position).take value.length = value := by
  refine ⟨_, img.pathOffset_bytes absolute, ?_⟩
  cases found : img.dt.pathOffset (components path) with
  | none => rfl
  | some address =>
      obtain ⟨node, isNode⟩ := Option.isSome_iff_exists.mp (DtNode.pathOffset_get? found)
      obtain ⟨flat, isFlat, rfl⟩ := img.node_of_dt isNode
      refine ⟨nodeOffset_nonneg address, _, isNode, ?_⟩
      have read := getprop_bytes isFlat name
      cases value : (dtOf img.strings flat).prop? name with
      | none =>
          rw [value] at read
          exact read
      | some value' =>
          rw [value] at read
          exact read

end FdtImage

/-! ## A blob -/

theorem rootName_isString : (0 : UInt8) ∉ ([] : List UInt8) := List.not_mem_nil

theorem rootName_aligned :
    (([] : List UInt8).length + 1 + ([0, 0, 0] : List UInt8).length) % 4 = 0 := rfl

theorem rootName_short : ([0, 0, 0] : List UInt8).length < 4 := Nat.lt_succ_self 3

/-- The empty name of the root. -/
def rootName : FlatName := ⟨[], [0, 0, 0], rootName_isString, rootName_aligned, rootName_short⟩

/-- The node `uart@0` with a property `reg`. -/
def uartNode : FlatTree :=
  .node ⟨⟨[0x75, 0x61, 0x72, 0x74, 0x40, 0x30], [0], by decide, rfl, by decide⟩,
    [⟨0, [0, 0, 0, 4], [], rfl, by decide⟩]⟩ []

/-- The strings are the name `reg`, with some space behind them. -/
def uartLayout : FdtLayout where
  offMemRsvmap := 40
  lastCompVersion := 16
  bootCpuidPhys := 0
  reserve := List.replicate 16 0
  root := .node ⟨rootName, []⟩ [uartNode]
  gap := []
  strings := [0x72, 0x65, 0x67, 0]
  slack := List.replicate 64 0

/-- The properties of the example have names. -/
theorem uartLayout_named (prop : FlatProp) (member : .prop prop ∈ flatTokens uartLayout.root) :
    prop.Named uartLayout.strings := by
  have terminated : (0 : UInt8) ∈ ([0x72, 0x65, 0x67, 0] : List UInt8).drop 0 := by decide
  simp only [uartLayout, uartNode, flatTokens_eq, OrderedTree.label_node,
    OrderedTree.children_node, flatForest_cons, flatForest_nil, List.map_nil, List.map_cons,
    List.nil_append, List.cons_append, List.append_nil, List.mem_cons, List.not_mem_nil,
    reduceCtorEq, FdtToken.prop.injEq, false_or, or_false] at member
  subst member
  exact terminated

def uartImage : FdtImage where
  toFdtLayout := uartLayout
  lastComp_le := by decide
  offMemRsvmap_ge := by decide
  reserved := by decide
  small := by decide
  named := uartLayout_named

/-- The path `/uart` leads to the node, and the value of `reg` is read there. -/
theorem path_getprop_uart : ∃ offset position,
    fdtPathOffset uartImage.bytes [0x2f, 0x75, 0x61, 0x72, 0x74] = some offset ∧
      fdtGetprop uartImage.bytes offset [0x72, 0x65, 0x67] = some (.ok (position, 4)) ∧
      (uartImage.bytes.drop position).take 4 = [0, 0, 0, 4] := by
  have absolute : ([0x2f, 0x75, 0x61, 0x72, 0x74] : List UInt8).head? = some 0x2f := rfl
  obtain ⟨offset, isOffset, found⟩ :=
    FdtImage.path_getprop uartImage absolute [0x72, 0x65, 0x67]
  have address : uartImage.dt.pathOffset (components [0x2f, 0x75, 0x61, 0x72, 0x74]) =
      some [0] := rfl
  rw [address] at found
  obtain ⟨-, node, isNode, read⟩ := found
  have value : node.prop? [0x72, 0x65, 0x67] = some [0, 0, 0, 4] := by
    cases isNode
    rfl
  rw [value] at read
  obtain ⟨position, isRead, isValue⟩ := read
  exact ⟨offset, position, isOffset, isRead, isValue⟩

end Zsbl.Libs
