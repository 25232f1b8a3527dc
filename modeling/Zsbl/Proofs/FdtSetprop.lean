/-
Module: Zsbl.Proofs.FdtSetprop
Purpose: fdt_setprop of lib/fdt/fdt_rw.c writes the property of the tree, in a blob of the same
  size, or finds no space and leaves the tree as it is.
Trusted boundary: none
Main exports:
  withProps, dt_withProps, Written, resizeProperty_bytes, findAddString_bytes, setprop_bytes
-/
import Zsbl.Proofs.FdtEdit

namespace Zsbl.Libs

open Zsbl.Lib

/-! ## Trees -/

/-- Two changes of a tree that do the same to the node at the address. -/
theorem update_congr {dt found : DtNode} {address : List Nat}
    (isFound : dt.get? address = some found) {f g : DtNode → DtNode} (same : f found = g found) :
    dt.update f address = dt.update g address := by
  induction address generalizing dt with
  | nil =>
      cases isFound
      exact same
  | cons i rest ih =>
      obtain ⟨child, isChild, below⟩ := Option.bind_eq_some_iff.mp isFound
      rw [DtNode.update, DtNode.update, DtNode.mapChildren, DtNode.mapChildren]
      congr 1
      apply List.ext_getElem?
      intro j
      rw [List.getElem?_modify, List.getElem?_modify]
      split
      case isTrue here =>
        subst here
        simp only [isChild, Option.map_eq_map, Option.map_some, ih below]
      case isFalse => rfl

def withProps (props : List FlatProp) (tree : FlatTree) : FlatTree :=
  .node ⟨tree.label.name, props⟩ tree.children

theorem dtOf_withProps (strings : List UInt8) (props : List FlatProp) (tree : FlatTree) :
    dtOf strings (withProps props tree) = .node (dtOf strings tree).name
      (props.map fun prop => (prop.key strings, prop.value)) (dtOf strings tree).children := by
  rw [withProps, dtOf_eq, dtOf_eq strings tree]
  rfl

/-- The property that is found gets the value. -/
theorem replaceFirst_map {strings name value : List UInt8} {props : List FlatProp} {i : Nat}
    (found : (props.findIdx? fun prop => prop.key strings = name) = some i) {flat : FlatProp}
    (isKey : flat.key strings = name) (isValue : flat.value = value) :
    DtNode.replaceFirst name value (props.map fun prop => (prop.key strings, prop.value)) =
      (props.set i flat).map fun prop => (prop.key strings, prop.value) := by
  induction props generalizing i with
  | nil => cases found
  | cons prop props ih =>
      rw [List.findIdx?_cons] at found
      rw [List.map_cons, DtNode.replaceFirst]
      by_cases here : prop.key strings = name
      · rw [if_pos (by simpa using here)] at found
        cases found
        rw [if_pos here]
        simp [isKey, isValue]
      · rw [if_neg (by simpa using here), Option.map_eq_some_iff] at found
        obtain ⟨j, isJ, rfl⟩ := found
        rw [if_neg here, ih isJ, List.set_cons_succ, List.map_cons]

section

variable {strings : List UInt8} {before after : List FdtToken} {flat : FlatProp}

/-- A property that has its name joins others that have theirs. -/
theorem named_around
    (others : ∀ prop, FdtToken.prop prop ∈ before ++ after → prop.Named strings)
    (isNamed : flat.Named strings) :
    ∀ prop, .prop prop ∈ before ++ .prop flat :: after → prop.Named strings := by
  intro prop member
  rw [List.mem_append, List.mem_cons] at member
  rcases member with front | same | back
  · exact others prop (List.mem_append_left _ front)
  · obtain rfl := FdtToken.prop.inj same
    exact isNamed
  · exact others prop (List.mem_append_right _ back)

theorem mem_around {token : FdtToken} (member : token ∈ before ++ after) :
    token ∈ before ++ .prop flat :: after := by
  rw [List.mem_append] at member ⊢
  exact member.imp_right (List.mem_cons_of_mem _)

end

namespace FdtImage

variable {img : FdtImage} {address : List Nat} {node : FlatTree}

/-- Other properties at a node change nothing around them. -/
theorem props_focus (isNode : img.root.get? address = some node) :
    ∃ after, (∀ props, flatTokens (img.root.update (withProps props) address) =
        img.front address ++ .beginNode node.label.name :: (props.map .prop ++ after)) ∧
      flatTokens img.root = img.front address ++
        .beginNode node.label.name :: (node.label.props.map .prop ++ after) := by
  obtain ⟨after, changed⟩ := OrderedTree.brackets_focus FlatLabel.opening [.endNode] isNode
  refine ⟨flatForest node.children ++ ([.endNode] ++ after), fun props => ?_, ?_⟩
  · rw [OrderedTree.update_eq_const isNode]
    have tokens : flatTokens (img.root.update (fun _ => withProps props node) address) =
        img.front address ++ (flatTokens (withProps props node) ++ after) :=
      changed (withProps props node)
    rw [tokens, flatTokens_eq, withProps, OrderedTree.label_node, OrderedTree.children_node]
    simp
  · have same := changed node
    rw [OrderedTree.update_get? isNode] at same
    have tokens : flatTokens img.root = img.front address ++ (flatTokens node ++ after) := same
    rw [tokens, flatTokens_eq]
    simp

/-- The tree with other properties at a node, where they are those of a change of the node. -/
theorem dt_withProps (isNode : img.root.get? address = some node) {props : List FlatProp}
    {f : DtNode → DtNode}
    (same : dtOf img.strings (withProps props node) = f (dtOf img.strings node)) :
    dtOf img.strings (img.root.update (withProps props) address) = img.dt.update f address := by
  have isFound : img.dt.get? address = some (dtOf img.strings node) := by
    rw [dt, get?_dtOf, isNode]
    rfl
  have constant : dtOf img.strings (img.root.update (fun _ => withProps props node) address) =
      img.dt.update (fun _ => dtOf img.strings (withProps props node)) address :=
    dtOf_update (fun _ => rfl) _ _
  rw [OrderedTree.update_eq_const isNode, constant]
  exact update_congr isFound same

/-! ## A property in the structure -/

theorem splicedHeader_add (img : FdtImage) (k oldlen newlen : Nat) :
    img.splicedHeader (k + oldlen) (k + newlen) = img.splicedHeader oldlen newlen := by
  have strings : img.offDtStrings + (k + newlen) - (k + oldlen) =
      img.offDtStrings + newlen - oldlen := by omega
  have size : img.struct.length + (k + newlen) - (k + oldlen) =
      img.struct.length + newlen - oldlen := by omega
  unfold splicedHeader
  rw [strings, size]

/-- Bytes up to the next word. -/
def padding (len : Nat) : Nat := (4 - len % 4) % 4

theorem padding_lt (len : Nat) : padding len < 4 := Nat.mod_lt _ (by decide)

theorem tagAlign_natCast {len : Nat} (short : len + 3 < 2 ^ 31) :
    fdtTagAlign len = ((len + padding len : Nat) : Int) := by
  unfold padding
  exact tagAlign_of_mod (by omega) (by omega) (by omega)

theorem tagAlign_value (flat : FlatProp) (short : flat.value.length + 3 < 2 ^ 31) :
    fdtTagAlign (wrapInt flat.value.length) = ((flat.value ++ flat.pad).length : Nat) := by
  have shortPad := flat.short
  rw [wrapInt_of_lt (Int.natCast_nonneg _) (by omega), List.length_append]
  exact tagAlign_of_mod shortPad flat.aligned (by omega)

/-- The property with its value in so many bytes of which the value is the first part. -/
def placedProp (nameoff : Nat) (value middle : List UInt8)
    (whole : middle.length = value.length + padding value.length) : FlatProp where
  nameoff := nameoff
  value := value
  pad := middle.drop value.length
  aligned := by
    unfold padding at whole
    rw [List.length_drop]
    omega
  short := by
    unfold padding at whole
    rw [List.length_drop]
    omega

theorem length_spliced (img : FdtImage) (oldlen newlen : Nat) (first : List UInt8) :
    (wordBytes (img.splicedHeader oldlen newlen) ++ (img.reserve ++ first)).length =
      img.offDtStruct + first.length := by
  simp only [List.length_append, length_wordBytes, splicedHeader, List.length_cons,
    List.length_nil, FdtLayout.offDtStruct]
  omega

/-- The bytes behind a splice, with the tag, the length and the name of a property in them. -/
def headed (img : FdtImage) (first second : List UInt8) (oldlen nameoff len : Nat)
    (middle slack : List UInt8) : List UInt8 :=
  wordBytes (img.splicedHeader oldlen (12 + middle.length)) ++ (img.reserve ++ (first ++
    (beBytes 4 FDT_PROP ++ (beBytes 4 len ++ (beBytes 4 nameoff ++ (middle ++
      (second ++ (img.gap ++ (img.strings ++ slack)))))))))

/-- With the value written it is a blob with that property. -/
theorem headed_value {first old second : List UInt8} {root : FlatTree} {nameoff : Nat}
    {value middle slack : List UInt8}
    (whole : middle.length = value.length + padding value.length)
    (split : img.struct = first ++ (old ++ second))
    (split' : tokenBytes (flatTokens root ++ [.done]) =
      first ++ ((FdtToken.prop (placedProp nameoff value middle whole)).bytes ++ second))
    (room : slack.length + (12 + middle.length) = old.length + img.slack.length)
    (named : ∀ prop, .prop prop ∈ flatTokens root → prop.Named img.strings) :
    ∃ img' : FdtImage, overwrite (headed img first second old.length nameoff value.length middle
        slack) (img.offDtStruct + first.length + 12) value = img'.bytes ∧
      img'.toFdtLayout = { img.toFdtLayout with root := root, slack := slack } ∧
      img'.totalsize = img.totalsize := by
  have tokenLength : (FdtToken.prop (placedProp nameoff value middle whole)).bytes.length =
      12 + middle.length := by
    simp only [FdtToken.bytes, FdtToken.body, placedProp, List.length_append, length_beBytes,
      List.length_drop]
    omega
  have length : (tokenBytes (flatTokens root ++ [.done])).length + slack.length =
      img.struct.length + img.slack.length := by
    rw [split', split]
    simp only [List.length_append, tokenLength]
    omega
  obtain ⟨isBytes, sameTotal⟩ := edited_bytes length named split split'
  refine ⟨img.edited root slack length named, ?_, rfl, sameTotal⟩
  have front : (wordBytes (img.splicedHeader old.length (12 + middle.length)) ++ (img.reserve ++
      (first ++ (beBytes 4 FDT_PROP ++ (beBytes 4 value.length ++ beBytes 4 nameoff))))).length =
        img.offDtStruct + first.length + 12 := by
    rw [length_spliced]
    simp only [List.length_append, length_beBytes]
    omega
  have taken : value.length = (middle.take value.length).length := by
    rw [List.length_take]
    omega
  have shape : headed img first second old.length nameoff value.length middle slack =
      wordBytes (img.splicedHeader old.length (12 + middle.length)) ++ (img.reserve ++
        (first ++ (beBytes 4 FDT_PROP ++ (beBytes 4 value.length ++ beBytes 4 nameoff)))) ++
          (middle.take value.length ++ (middle.drop value.length ++
            (second ++ (img.gap ++ (img.strings ++ slack))))) := by
    rw [← List.append_assoc (middle.take value.length), List.take_append_drop]
    simp only [headed, List.append_assoc]
  rw [shape, overwrite_middle front taken, isBytes, tokenLength]
  simp only [FdtToken.bytes, FdtToken.body, FdtToken.tag, placedProp, List.append_assoc]

/-! ## fdt_resize_property_ -/

theorem length_propToken (flat : FlatProp) :
    (FdtToken.prop flat).bytes.length = 12 + (flat.value.length + flat.pad.length) := by
  simp only [FdtToken.bytes, FdtToken.body, List.length_append, length_beBytes]
  omega

/-- The length of a property whose value has got another one is written. -/
theorem headed_of_length {first second middle slack : List UInt8} {flat : FlatProp} {size : Nat}
    (isMiddle : middle.length = size) (len : Nat) :
    overwrite (wordBytes (img.splicedHeader (flat.value ++ flat.pad).length size) ++
        (img.reserve ++ ((first ++ (beBytes 4 FDT_PROP ++ (beBytes 4 flat.value.length ++
          beBytes 4 flat.nameoff))) ++ (middle ++ (second ++ (img.gap ++
            (img.strings ++ slack))))))) (img.offDtStruct + first.length + 4) (beBytes 4 len) =
      img.headed first second (FdtToken.prop flat).bytes.length flat.nameoff len middle slack := by
  have front : (wordBytes (img.splicedHeader (flat.value ++ flat.pad).length size) ++
      (img.reserve ++ (first ++ beBytes 4 FDT_PROP))).length =
        img.offDtStruct + first.length + 4 := by
    rw [length_spliced, List.length_append, length_beBytes, Nat.add_assoc]
  have header : img.splicedHeader (flat.value ++ flat.pad).length size =
      img.splicedHeader (FdtToken.prop flat).bytes.length (12 + middle.length) := by
    rw [length_propToken, isMiddle, splicedHeader_add, List.length_append]
  have same : (beBytes 4 len).length = (beBytes 4 flat.value.length).length := by
    rw [length_beBytes, length_beBytes]
  have shape : wordBytes (img.splicedHeader (flat.value ++ flat.pad).length size) ++
      (img.reserve ++ ((first ++ (beBytes 4 FDT_PROP ++ (beBytes 4 flat.value.length ++
        beBytes 4 flat.nameoff))) ++ (middle ++ (second ++ (img.gap ++
          (img.strings ++ slack)))))) =
      wordBytes (img.splicedHeader (flat.value ++ flat.pad).length size) ++
        (img.reserve ++ (first ++ beBytes 4 FDT_PROP)) ++ (beBytes 4 flat.value.length ++
          (beBytes 4 flat.nameoff ++ (middle ++ (second ++ (img.gap ++
            (img.strings ++ slack)))))) := by
    simp only [List.append_assoc]
  rw [shape, overwrite_middle front same, header]
  simp only [headed, List.append_assoc]

theorem getProperty_bytes (img : FdtImage) (offset : Int) (name : List UInt8) :
    fdtGetProperty img.bytes offset name = fdtGetPropertyNamelen img.bytes offset name := by
  unfold fdtGetProperty
  rw [img.version_bytes]
  exact if_neg (by decide)

/-- What `fdt_setprop` comes to: the property is written, or there is too little space and nothing
but the bytes behind the strings changes. -/
inductive Written (img : FdtImage) (address : List Nat) (name value : List UInt8) :
    FdtImage → Int → Prop where
  | done {img' : FdtImage}
      (dt : img'.dt = img.dt.update (·.setProp name value) address)
      (total : img'.totalsize = img.totalsize)
      (left : img.slack.length ≤ img'.slack.length + (name.length + value.length + 16)) :
      Written img address name value img' 0
  | noSpace {img' : FdtImage} (root : img'.root = img.root) (strings : img'.strings = img.strings)
      (total : img'.totalsize = img.totalsize)
      (full : img.slack.length < name.length + value.length + 16) :
      Written img address name value img' (-FDT_ERR_NOSPACE)

/-- A property that is there is given the new length, if there is space. -/
theorem resizeProperty_bytes (isNode : img.root.get? address = some node) {name : List UInt8}
    {i : Nat} (found : (node.label.props.findIdx? fun prop => prop.key img.strings = name) = some i)
    {before after : List FdtToken} {flat : FlatProp}
    (split : img.tokens = before ++ .prop flat :: after)
    (isOffset : img.propOffset address node.label i = tokenOffset before) {len : Nat}
    (short : len + 15 < 2 ^ 31) :
    (∃ middle slack', middle.length = len + padding len ∧
      slack'.length + (12 + middle.length) =
        (FdtToken.prop flat).bytes.length + img.slack.length ∧
      fdtResizeProperty img.bytes (img.nodeOffset address) name len =
        some (img.headed (tokenBytes before) (tokenBytes after)
          (FdtToken.prop flat).bytes.length flat.nameoff len middle slack',
          .ok (img.offDtStruct + (tokenBytes before).length))) ∨
    (img.slack.length < len + padding len ∧
      fdtResizeProperty img.bytes (img.nodeOffset address) name len =
        some (img.bytes, .error (-FDT_ERR_NOSPACE))) := by
  have padShort := padding_lt len
  have fits : len + padding len < 2 ^ 31 := by omega
  have lenBytes : toUint (len : Int) = len := toUint_natCast (by omega)
  have bounds := img.bounds
  have property := getPropertyNamelen_bytes isNode name
  rw [found] at property
  dsimp only at property
  rw [isOffset, ← getProperty_bytes] at property
  have oldLen := (img.propFields_bytes split).1
  have position : fdtPropPosition img.bytes (tokenOffset before) =
      img.offDtStruct + (tokenBytes before).length := by
    unfold fdtPropPosition tokenOffset
    rw [img.offDtStruct_bytes, Int.toNat_natCast]
  rw [position] at oldLen
  have struct : img.struct = (tokenBytes before ++ (beBytes 4 FDT_PROP ++
      (beBytes 4 flat.value.length ++ beBytes 4 flat.nameoff))) ++
        ((flat.value ++ flat.pad) ++ tokenBytes after) := by
    rw [FdtLayout.struct, split, tokenBytes_append, tokenBytes_cons]
    simp only [FdtToken.bytes, FdtToken.tag, FdtToken.body, List.append_assoc]
  have structLength := congrArg List.length struct
  simp only [List.length_append, length_beBytes] at structLength
  have first : img.offDtStruct + (tokenBytes before ++ (beBytes 4 FDT_PROP ++
      (beBytes 4 flat.value.length ++ beBytes 4 flat.nameoff))).length =
        img.offDtStruct + (tokenBytes before).length + 12 := by
    simp only [List.length_append, length_beBytes]
    omega
  have aligned := tagAlign_value flat (by omega)
  have alignedLen : fdtTagAlign (len : Int) = ((len + padding len : Nat) : Int) :=
    tagAlign_natCast (by omega)
  by_cases room : len + padding len ≤ (flat.value ++ flat.pad).length + img.slack.length
  · obtain ⟨middle, slack', isMiddle, isSlack, spliced⟩ := spliceStruct_bytes struct room
    rw [first] at spliced
    refine .inl ⟨middle, slack', isMiddle, ?_, ?_⟩
    · rw [length_propToken, isMiddle, Nat.add_left_comm, isSlack, List.length_append,
        Nat.add_assoc 12]
    · unfold fdtResizeProperty
      rw [property, Option.bind_eq_bind, Option.bind_some]
      dsimp only
      rw [position, oldLen, aligned, alignedLen, spliced]
      dsimp only
      rw [if_neg (by decide), lenBytes, headed_of_length isMiddle]
  · have spliced := spliceStruct_full struct fits (not_le.mp room)
    rw [first] at spliced
    refine .inr ⟨lt_of_le_of_lt (Nat.le_add_left _ _) (not_le.mp room), ?_⟩
    unfold fdtResizeProperty
    rw [property, Option.bind_eq_bind, Option.bind_some]
    dsimp only
    rw [position, oldLen, aligned, alignedLen, spliced]
    rfl

section Calls

variable {offset len : Int} {name value bytes : List UInt8} {prop : Nat} {err : Int}

theorem placeholder_ok
    (resized : fdtResizeProperty img.bytes offset name len = some (bytes, .ok prop)) :
    fdtSetpropPlaceholder img.bytes offset name len = some (bytes, .ok prop) := by
  unfold fdtSetpropPlaceholder
  rw [img.rwProbe_bytes]
  simp [resized]

theorem placeholder_error
    (resized : fdtResizeProperty img.bytes offset name len = some (bytes, .error err))
    (other : err ≠ -FDT_ERR_NOTFOUND) :
    fdtSetpropPlaceholder img.bytes offset name len = some (bytes, .error err) := by
  unfold fdtSetpropPlaceholder
  rw [img.rwProbe_bytes]
  simp [resized, other]

theorem placeholder_missing (resized : fdtResizeProperty img.bytes offset name len =
      some (img.bytes, .error (-FDT_ERR_NOTFOUND))) :
    fdtSetpropPlaceholder img.bytes offset name len =
      some (fdtAddProperty img.bytes offset name len) := by
  unfold fdtSetpropPlaceholder
  rw [img.rwProbe_bytes]
  simp [resized]

theorem setprop_ok
    (placed : fdtSetpropPlaceholder img.bytes offset name value.length = some (bytes, .ok prop)) :
    fdtSetprop img.bytes offset name value = some (overwrite bytes (prop + 12) value, 0) := by
  simp [fdtSetprop, placed]

theorem setprop_error
    (placed : fdtSetpropPlaceholder img.bytes offset name value.length =
      some (bytes, .error err)) :
    fdtSetprop img.bytes offset name value = some (bytes, err) := by
  simp [fdtSetprop, placed]

end Calls

/-- The property that is found is the one that is set. -/
theorem setProp_existing {strings name value : List UInt8} {i : Nat}
    (found : (node.label.props.findIdx? fun prop => prop.key strings = name) = some i)
    {flat : FlatProp} (isKey : flat.key strings = name) (isValue : flat.value = value) :
    dtOf strings (withProps (node.label.props.set i flat) node) =
      (dtOf strings node).setProp name value := by
  obtain ⟨prop, -, isFirst⟩ := find?_of_findIdx? found
  have isThere : (dtOf strings node).prop? name = some prop.value := by
    rw [prop?_dtOf, isFirst]
    rfl
  have props : (dtOf strings node).props =
      node.label.props.map fun prop => (prop.key strings, prop.value) := by
    rw [dtOf_eq]
    rfl
  rw [dtOf_withProps, DtNode.setProp, isThere, props, replaceFirst_map found isKey isValue]

/-- A property that is there gets the new value, or nothing changes. -/
theorem setprop_existing (isNode : img.root.get? address = some node) {name value : List UInt8}
    {i : Nat} (found : (node.label.props.findIdx? fun prop => prop.key img.strings = name) = some i)
    (short : value.length + 15 < 2 ^ 31) :
    ∃ img' err, fdtSetprop img.bytes (img.nodeOffset address) name value = some (img'.bytes, err) ∧
      Written img address name value img' err := by
  obtain ⟨flat, isProp, isFirst⟩ := find?_of_findIdx? found
  have isKey : flat.key img.strings = name := by simpa using List.find?_some isFirst
  obtain ⟨inside, isFlat⟩ := List.getElem?_eq_some_iff.mp isProp
  obtain ⟨behind, changed, whole⟩ := props_focus isNode
  have cut : node.label.props =
      node.label.props.take i ++ flat :: node.label.props.drop (i + 1) := by
    rw [← isFlat, ← List.drop_eq_getElem_cons inside, List.take_append_drop]
  generalize isBefore : img.front address ++
    .beginNode node.label.name :: (node.label.props.take i).map .prop = before
  have isOffset : img.propOffset address node.label i = tokenOffset before := by
    rw [← isBefore]
    rfl
  have root : flatTokens img.root = before ++
      .prop flat :: ((node.label.props.drop (i + 1)).map .prop ++ behind) := by
    rw [whole, ← isBefore]
    conv_lhs => rw [cut, List.map_append, List.map_cons]
    simp only [List.append_assoc, List.cons_append]
  have root' (flat' : FlatProp) : flatTokens (img.root.update
      (withProps (node.label.props.set i flat')) address) = before ++
        .prop flat' :: ((node.label.props.drop (i + 1)).map .prop ++ behind) := by
    rw [changed, ← isBefore, List.set_eq_take_append_cons_drop, if_pos inside, List.map_append,
      List.map_cons]
    simp only [List.append_assoc, List.cons_append]
  generalize (node.label.props.drop (i + 1)).map FdtToken.prop ++ behind = after at root root'
  have split : img.tokens = before ++ .prop flat :: (after ++ [.done]) := by
    rw [FdtLayout.tokens, root]
    simp
  have struct : img.struct = tokenBytes before ++
      ((FdtToken.prop flat).bytes ++ tokenBytes (after ++ [.done])) := by
    rw [FdtLayout.struct, split, tokenBytes_append, tokenBytes_cons]
  have padShort := padding_lt value.length
  rcases resizeProperty_bytes isNode found split isOffset short with
    ⟨middle, slack', isMiddle, isSlack, resized⟩ | ⟨full, resized⟩
  · have struct' : tokenBytes (flatTokens (img.root.update (withProps (node.label.props.set i
        (placedProp flat.nameoff value middle isMiddle))) address) ++ [.done]) =
          tokenBytes before ++ ((FdtToken.prop (placedProp flat.nameoff value middle
            isMiddle)).bytes ++ tokenBytes (after ++ [.done])) := by
      rw [root']
      simp
    have named : ∀ prop, .prop prop ∈ flatTokens (img.root.update (withProps
        (node.label.props.set i (placedProp flat.nameoff value middle isMiddle))) address) →
          prop.Named img.strings := by
      have isNamed : (placedProp flat.nameoff value middle isMiddle).Named img.strings :=
        img.named flat (by rw [root]; simp)
      rw [root']
      exact named_around (fun prop member => img.named prop (root ▸ mem_around member)) isNamed
    obtain ⟨img', isBytes, isLayout, total⟩ :=
      headed_value isMiddle struct struct' isSlack named
    refine ⟨img', 0, ?_, .done ?_ total ?_⟩
    · rw [setprop_ok (placeholder_ok resized), isBytes]
    · have tree := dt_withProps isNode (f := (·.setProp name value))
        (setProp_existing found (show (placedProp flat.nameoff value middle isMiddle).key
          img.strings = name from isKey) rfl)
      rw [← tree, dt, isLayout]
    · have slackLength : img'.slack = slack' := by rw [isLayout]
      rw [slackLength]
      rw [length_propToken] at isSlack
      omega
  · refine ⟨img, -FDT_ERR_NOSPACE, ?_, .noSpace rfl rfl rfl (by omega)⟩
    exact setprop_error (placeholder_error resized (by decide))

end FdtImage

/-! ## Strings -/

/-- More strings change no name. -/
theorem FlatProp.Named.append {strings : List UInt8} {flat : FlatProp}
    (named : flat.Named strings) (more : List UInt8) :
    flat.Named (strings ++ more) ∧ flat.key (strings ++ more) = flat.key strings := by
  have inside := named.lt
  have dropped : (strings ++ more).drop flat.nameoff = strings.drop flat.nameoff ++ more :=
    List.drop_append_of_le_length inside.le
  refine ⟨?_, ?_⟩
  · unfold FlatProp.Named
    rw [dropped]
    exact List.mem_append_left _ named
  · obtain ⟨front, rest, cut, isString⟩ := List.eq_append_cons_of_mem named
    unfold FlatProp.key
    rw [dropped, cut, List.append_assoc, List.cons_append, cstr_append_zero isString,
      cstr_append_zero isString]

mutual

/-- More strings behind the others change no name. -/
theorem dtOf_append (strings more : List UInt8) : ∀ tree : FlatTree,
    (∀ prop, .prop prop ∈ flatTokens tree → prop.Named strings) →
      dtOf (strings ++ more) tree = dtOf strings tree
  | .node label children, named => by
      have props : (label.props.map fun prop => (prop.key (strings ++ more), prop.value)) =
          label.props.map fun prop => (prop.key strings, prop.value) := by
        apply List.map_congr_left
        intro prop member
        rw [((named prop (by rw [flatTokens_eq]; simp [member])).append more).2]
      rw [dtOf, dtOf, props, dtsOf_append strings more children fun prop member =>
        named prop (by rw [flatTokens_eq]; simp [member])]

/-- More strings change no tree. -/
theorem dtsOf_append (strings more : List UInt8) : ∀ trees : List FlatTree,
    (∀ prop, .prop prop ∈ flatForest trees → prop.Named strings) →
      dtsOf (strings ++ more) trees = dtsOf strings trees
  | [], _ => rfl
  | tree :: trees, named => by
      rw [dtsOf, dtsOf, dtOf_append strings more tree fun prop member =>
          named prop (by rw [flatForest_cons]; exact List.mem_append_left _ member),
        dtsOf_append strings more trees fun prop member =>
          named prop (by rw [flatForest_cons]; exact List.mem_append_right _ member)]

end

/-- A name that is in the block of strings. -/
def NameAt (strings name : List UInt8) (offset : Nat) : Prop :=
  ∃ rest, strings.drop offset = name ++ 0 :: rest

theorem NameAt.named {strings name : List UInt8} {offset : Nat}
    (isName : NameAt strings name offset) (isString : 0 ∉ name) {flat : FlatProp}
    (same : flat.nameoff = offset) : flat.Named strings ∧ flat.key strings = name := by
  obtain ⟨rest, isName⟩ := isName
  unfold FlatProp.Named FlatProp.key
  rw [same, isName, cstr_append_zero isString]
  exact ⟨by simp, rfl⟩

namespace FdtImage

variable {img : FdtImage} {name : List UInt8}

/-- Behind the strings block is the free space. -/
theorem drop_strings (img : FdtImage) :
    img.bytes.drop img.offDtStrings = img.strings ++ img.slack := by
  have front : (wordBytes img.header ++ (img.reserve ++ (img.struct ++ img.gap))).length =
      img.offDtStrings := by
    simp only [List.length_append, img.length_header, FdtLayout.offDtStrings,
      FdtLayout.offDtStruct]
    omega
  have split : img.bytes = wordBytes img.header ++ (img.reserve ++ (img.struct ++ img.gap)) ++
      (img.strings ++ img.slack) := by
    simp only [FdtLayout.bytes, FdtLayout.tail, List.append_assoc]
  rw [split, ← front, List.drop_left]

/-- A string that is found has the name, and is inside the block. -/
theorem findString_bytes {offset : Nat}
    (found : fdtFindString (img.bytes.drop img.offDtStrings) img.strings.length name =
      some offset) : NameAt img.strings name offset ∧ offset < img.strings.length := by
  have inside := List.mem_range.mp (List.mem_of_find?_eq_some found)
  have here := List.find?_some found
  rw [decide_eq_true_eq, drop_strings, List.drop_append_of_le_length (by omega),
    List.take_append_of_le_length (by rw [List.length_drop]; omega)] at here
  refine ⟨⟨(img.strings.drop offset).drop (name.length + 1), ?_⟩, by omega⟩
  conv_lhs => rw [← List.take_append_drop (name.length + 1) (img.strings.drop offset), here]
  simp

/-- The blob with one more string. -/
def withString (img : FdtImage) (name : List UInt8) (room : name.length + 1 ≤ img.slack.length) :
    FdtImage where
  toFdtLayout := { img.toFdtLayout with
    strings := img.strings ++ (name ++ [0])
    slack := img.slack.drop (name.length + 1) }
  lastComp_le := img.lastComp_le
  offMemRsvmap_ge := img.offMemRsvmap_ge
  reserved := img.reserved
  small := by
    have small := img.small
    simp only [FdtLayout.totalsize, FdtLayout.offDtStrings, FdtLayout.offDtStruct,
      FdtLayout.struct, FdtLayout.tokens, List.length_append, List.length_drop,
      List.length_singleton] at small ⊢
    omega
  named := fun prop member => ((img.named prop member).append _).1

theorem withString_totalsize (room : name.length + 1 ≤ img.slack.length) :
    (img.withString name room).totalsize = img.totalsize := by
  change img.offDtStrings + (img.strings ++ (name ++ [0])).length +
    (img.slack.drop (name.length + 1)).length =
      img.offDtStrings + img.strings.length + img.slack.length
  simp only [List.length_append, List.length_drop, List.length_singleton]
  omega

theorem withString_dt (room : name.length + 1 ≤ img.slack.length) :
    (img.withString name room).dt = img.dt := dtOf_append _ _ _ img.named

/-- The header with another size of the strings. -/
theorem withString_header (room : name.length + 1 ≤ img.slack.length) :
    (img.withString name room).header =
      img.header.set 8 (img.strings.length + (name.length + 1)) := by
  have total := withString_totalsize room
  have size : (img.withString name room).strings.length =
      img.strings.length + (name.length + 1) := by
    change (img.strings ++ (name ++ [0])).length = _
    simp
  unfold FdtLayout.header
  rw [total, size]
  rfl

/-- A new string takes its bytes from the free space. -/
theorem spliceString_bytes (room : name.length + 1 ≤ img.slack.length) :
    ∃ middle, middle.length = name.length + 1 ∧
      fdtSpliceString img.bytes (name.length + 1 : Nat) =
        (wordBytes (img.header.set 8 (img.strings.length + (name.length + 1))) ++ (img.reserve ++
          (img.struct ++ (img.gap ++ (img.strings ++
            (middle ++ img.slack.drop (name.length + 1)))))), 0) := by
  have bounds := img.bounds
  have total : img.totalsize = img.offDtStrings + img.strings.length + img.slack.length := rfl
  have split : img.bytes = wordBytes img.header ++ (img.reserve ++ (img.struct ++
      (img.gap ++ img.strings))) ++ ([] ++ ([] ++ img.slack)) := by
    simp only [FdtLayout.bytes, FdtLayout.tail, List.append_assoc, List.nil_append]
  have front : (wordBytes img.header ++ (img.reserve ++ (img.struct ++
      (img.gap ++ img.strings)))).length = img.offDtStrings + img.strings.length := by
    simp only [List.length_append, img.length_header, FdtLayout.offDtStrings,
      FdtLayout.offDtStruct]
    omega
  have data : fdtDataSize img.bytes = (wordBytes img.header ++ (img.reserve ++ (img.struct ++
      (img.gap ++ img.strings)))).length + ([] : List UInt8).length + ([] : List UInt8).length := by
    rw [img.dataSize_bytes, front]
    rfl
  have spliced := fdtSplice_parts split (by rw [img.totalsize_bytes, img.length_bytes]) data
    (by rw [img.length_bytes]; omega) (show name.length + 1 < 2 ^ 31 by omega)
    (by rw [List.length_nil, Nat.zero_add]; exact room)
  rw [front] at spliced
  simp only [List.length_nil, Nat.add_zero, List.nil_append, Nat.cast_zero,
    List.append_assoc] at spliced
  refine ⟨img.slack.take (name.length + 1), by rw [List.length_take]; omega, ?_⟩
  have size : toUint ((img.strings.length : Int) + (name.length + 1 : Nat)) =
      img.strings.length + (name.length + 1) := by
    rw [← Int.natCast_add, toUint_natCast (by omega)]
  unfold fdtSpliceString
  rw [img.offDtStrings_bytes, img.sizeDtStrings_bytes, spliced]
  dsimp only
  rw [if_neg (by decide)]
  generalize img.reserve ++ (img.struct ++ (img.gap ++ (img.strings ++
    (img.slack.take (name.length + 1) ++ img.slack.drop (name.length + 1))))) = blocks
  have eight : 8 < img.header.length := (by decide : 8 < 10)
  have readSize : fdtSizeDtStrings (wordBytes img.header ++ blocks) = img.strings.length :=
    fdt32_wordBytes (show img.header[8]? = some img.strings.length from rfl) (by omega) _
  have setSize : fdtSetSizeDtStrings (wordBytes img.header ++ blocks)
      (img.strings.length + (name.length + 1)) =
        wordBytes (img.header.set 8 (img.strings.length + (name.length + 1))) ++ blocks :=
    overwrite_wordBytes eight _ _
  rw [readSize, size, setSize]

/-- Without the space nothing changes. -/
theorem spliceString_full (short : name.length + 1 < 2 ^ 31)
    (full : img.slack.length < name.length + 1) :
    fdtSpliceString img.bytes (name.length + 1 : Nat) = (img.bytes, -FDT_ERR_NOSPACE) := by
  have bounds := img.bounds
  have split : img.bytes = wordBytes img.header ++ (img.reserve ++ (img.struct ++
      (img.gap ++ img.strings))) ++ ([] ++ ([] ++ img.slack)) := by
    simp only [FdtLayout.bytes, FdtLayout.tail, List.append_assoc, List.nil_append]
  have front : (wordBytes img.header ++ (img.reserve ++ (img.struct ++
      (img.gap ++ img.strings)))).length = img.offDtStrings + img.strings.length := by
    simp only [List.length_append, img.length_header, FdtLayout.offDtStrings,
      FdtLayout.offDtStruct]
    omega
  have data : fdtDataSize img.bytes = (wordBytes img.header ++ (img.reserve ++ (img.struct ++
      (img.gap ++ img.strings)))).length + ([] : List UInt8).length + ([] : List UInt8).length := by
    rw [img.dataSize_bytes, front]
    rfl
  have spliced := fdtSplice_full split (by rw [img.totalsize_bytes, img.length_bytes]) data
    (by rw [img.length_bytes]; omega) short
    (by rw [List.length_nil, Nat.zero_add]; exact full)
  rw [front] at spliced
  rw [List.length_nil, Nat.cast_zero] at spliced
  unfold fdtSpliceString
  rw [img.offDtStrings_bytes, img.sizeDtStrings_bytes, spliced]
  exact if_pos (show -FDT_ERR_NOSPACE ≠ 0 by decide)

/-- The blob with one more string. -/
theorem withString_bytes (room : name.length + 1 ≤ img.slack.length) :
    (img.withString name room).bytes =
      wordBytes (img.header.set 8 (img.strings.length + (name.length + 1))) ++ (img.reserve ++
        (img.struct ++ (img.gap ++ (img.strings ++
          ((name ++ [0]) ++ img.slack.drop (name.length + 1)))))) := by
  rw [FdtLayout.bytes, withString_header, FdtLayout.tail]
  change _ ++ (img.reserve ++ (img.struct ++ (img.gap ++ ((img.strings ++ (name ++ [0])) ++
    img.slack.drop (name.length + 1))))) = _
  simp only [List.append_assoc]

/-- The name is there or is added, or there is no space for it. -/
theorem findAddString_bytes (img : FdtImage) (short : name.length + 1 < 2 ^ 31) :
    (∃ offset : Nat, fdtFindAddString img.bytes name = (img.bytes, (offset : Int), false) ∧
      NameAt img.strings name offset ∧ offset < 2 ^ 31) ∨
    (∃ room, ∃ offset : Nat, fdtFindAddString img.bytes name =
        ((img.withString name room).bytes, (offset : Int), true) ∧
      NameAt (img.withString name room).strings name offset ∧ offset < 2 ^ 31) ∨
    (img.slack.length < name.length + 1 ∧
      fdtFindAddString img.bytes name = (img.bytes, -FDT_ERR_NOSPACE, false)) := by
  have bounds := img.bounds
  have newlen : wrapInt ((name.length : Int) + 1) = (name.length + 1 : Nat) := by
    rw [wrapInt_of_lt (by omega) (by omega)]
    rfl
  cases found : fdtFindString (img.bytes.drop img.offDtStrings) img.strings.length name with
  | some offset =>
      obtain ⟨isName, inside⟩ := findString_bytes found
      refine .inl ⟨offset, ?_, isName, by omega⟩
      unfold fdtFindAddString
      rw [img.offDtStrings_bytes, img.sizeDtStrings_bytes]
      dsimp only
      rw [found]
  | none =>
      by_cases room : name.length + 1 ≤ img.slack.length
      · obtain ⟨middle, isMiddle, spliced⟩ := spliceString_bytes room
        refine .inr (.inl ⟨room, img.strings.length, ?_, ⟨[], ?_⟩, by omega⟩)
        · have front : (wordBytes (img.header.set 8 (img.strings.length + (name.length + 1))) ++
              (img.reserve ++ (img.struct ++ (img.gap ++ img.strings)))).length =
                img.offDtStrings + img.strings.length := by
            simp only [List.length_append, length_wordBytes, List.length_set, FdtLayout.header,
              List.length_cons, List.length_nil, FdtLayout.offDtStrings, FdtLayout.offDtStruct]
            omega
          have shape : wordBytes (img.header.set 8 (img.strings.length + (name.length + 1))) ++
              (img.reserve ++ (img.struct ++ (img.gap ++ (img.strings ++
                (middle ++ img.slack.drop (name.length + 1)))))) =
              wordBytes (img.header.set 8 (img.strings.length + (name.length + 1))) ++
                (img.reserve ++ (img.struct ++ (img.gap ++ img.strings))) ++
                  (middle ++ img.slack.drop (name.length + 1)) := by
            simp only [List.append_assoc]
          have same : (name ++ [0]).length = middle.length := by
            rw [isMiddle, List.length_append, List.length_singleton]
          unfold fdtFindAddString
          rw [img.offDtStrings_bytes, img.sizeDtStrings_bytes]
          dsimp only
          rw [found, newlen, spliced]
          dsimp only
          rw [if_neg (by decide), shape, overwrite_middle front same, withString_bytes]
          simp only [List.append_assoc]
        · change (img.strings ++ (name ++ [0])).drop img.strings.length = name ++ [0]
          rw [List.drop_left]
      · refine .inr (.inr ⟨not_le.mp room, ?_⟩)
        unfold fdtFindAddString
        rw [img.offDtStrings_bytes, img.sizeDtStrings_bytes]
        dsimp only
        rw [found, newlen, spliceString_full short (not_le.mp room)]
        exact if_pos (show -FDT_ERR_NOSPACE ≠ 0 by decide)

/-- Taking back the string leaves the blob as it was but for the bytes behind the strings. -/
theorem delLastString_bytes (room : name.length + 1 ≤ img.slack.length) :
    ∃ img' : FdtImage, fdtDelLastString (img.withString name room).bytes name = img'.bytes ∧
      img'.root = img.root ∧ img'.strings = img.strings ∧ img'.totalsize = img.totalsize := by
  have length : (tokenBytes (flatTokens img.root ++ [.done])).length +
      ((name ++ [0]) ++ img.slack.drop (name.length + 1)).length =
        img.struct.length + img.slack.length := by
    simp only [List.length_append, List.length_drop, List.length_singleton, FdtLayout.struct,
      FdtLayout.tokens]
    omega
  have total : (img.edited img.root ((name ++ [0]) ++ img.slack.drop (name.length + 1)) length
      img.named).totalsize = img.totalsize := by
    change img.offDtStrings + img.strings.length +
      ((name ++ [0]) ++ img.slack.drop (name.length + 1)).length =
        img.offDtStrings + img.strings.length + img.slack.length
    simp only [List.length_append, List.length_drop, List.length_singleton]
    omega
  refine ⟨img.edited img.root ((name ++ [0]) ++ img.slack.drop (name.length + 1)) length img.named,
    ?_, rfl, rfl, total⟩
  have bounds := img.bounds
  have whole : img.offDtStrings + img.strings.length + img.slack.length = img.totalsize := rfl
  have size : toUint (((img.strings.length + (name.length + 1) : Nat) : Int) -
      wrapInt ((name.length : Int) + 1)) = img.strings.length := by
    rw [wrapInt_of_lt (by omega) (by omega)]
    unfold toUint
    omega
  have header : (img.edited img.root ((name ++ [0]) ++ img.slack.drop (name.length + 1)) length
      img.named).header = img.header := by
    unfold FdtLayout.header
    rw [total]
    rfl
  have readSize : fdtSizeDtStrings (img.withString name room).bytes =
      img.strings.length + (name.length + 1) := by
    rw [sizeDtStrings_bytes]
    change (img.strings ++ (name ++ [0])).length = _
    simp
  have eight : 8 < (img.header.set 8 (img.strings.length + (name.length + 1))).length :=
    (by decide : 8 < 10)
  unfold fdtDelLastString fdtSetSizeDtStrings
  rw [readSize, size, withString_bytes, overwrite_wordBytes eight, FdtLayout.bytes, header]
  rfl

/-! ## fdt_add_property_ -/

/-- The fields of a new property are written to what a splice leaves for them. -/
theorem headed_of_fields {first second fields slack' : List UInt8} {nameoff len size : Nat}
    (isFields : fields.length = 12 + size) :
    ∃ middle, middle.length = size ∧
      overwrite (overwrite (overwrite (wordBytes (img.splicedHeader 0 (12 + size)) ++
          (img.reserve ++ (first ++ (fields ++ (second ++ (img.gap ++ (img.strings ++ slack')))))))
          (img.offDtStruct + first.length) (beBytes 4 FDT_PROP))
          (img.offDtStruct + first.length + 8) (beBytes 4 nameoff))
          (img.offDtStruct + first.length + 4) (beBytes 4 len) =
        img.headed first second 0 nameoff len middle slack' := by
  have front := img.length_spliced 0 (12 + size) first
  obtain ⟨tag, rest, rfl, isTag⟩ : ∃ tag rest, fields = tag ++ rest ∧ tag.length = 4 :=
    ⟨_, _, (List.take_append_drop 4 fields).symm, by rw [List.length_take]; omega⟩
  rw [List.length_append] at isFields
  obtain ⟨lenField, rest, rfl, isLen⟩ :
      ∃ lenField rest', rest = lenField ++ rest' ∧ lenField.length = 4 :=
    ⟨_, _, (List.take_append_drop 4 rest).symm, by rw [List.length_take]; omega⟩
  rw [List.length_append] at isFields
  obtain ⟨nameField, middle, rfl, isName⟩ :
      ∃ nameField middle, rest = nameField ++ middle ∧ nameField.length = 4 :=
    ⟨_, _, (List.take_append_drop 4 rest).symm, by rw [List.length_take]; omega⟩
  rw [List.length_append] at isFields
  have isMiddle : middle.length = size := by omega
  refine ⟨middle, isMiddle, ?_⟩
  generalize isTail : second ++ (img.gap ++ (img.strings ++ slack')) = tail
  generalize isFront : wordBytes (img.splicedHeader 0 (12 + size)) ++ (img.reserve ++ first) =
    start at front
  have shape : wordBytes (img.splicedHeader 0 (12 + size)) ++ (img.reserve ++ (first ++
      ((tag ++ (lenField ++ (nameField ++ middle))) ++ tail))) =
        start ++ (tag ++ (lenField ++ (nameField ++ (middle ++ tail)))) := by
    rw [← isFront]
    simp only [List.append_assoc]
  have tagged : overwrite (start ++ (tag ++ (lenField ++ (nameField ++ (middle ++ tail)))))
      (img.offDtStruct + first.length) (beBytes 4 FDT_PROP) =
        start ++ (beBytes 4 FDT_PROP ++ (lenField ++ (nameField ++ (middle ++ tail)))) :=
    overwrite_middle front (by rw [length_beBytes, isTag]) _
  have named : overwrite (start ++ (beBytes 4 FDT_PROP ++ (lenField ++ (nameField ++
      (middle ++ tail))))) (img.offDtStruct + first.length + 8) (beBytes 4 nameoff) =
        start ++ (beBytes 4 FDT_PROP ++ (lenField ++ (beBytes 4 nameoff ++ (middle ++ tail)))) := by
    have reached : (start ++ (beBytes 4 FDT_PROP ++ lenField)).length =
        img.offDtStruct + first.length + 8 := by
      rw [List.length_append, List.length_append, length_beBytes, isLen, front]
    have written := overwrite_middle reached
      (show (beBytes 4 nameoff).length = nameField.length by rw [length_beBytes, isName])
      (middle ++ tail)
    simpa only [List.append_assoc] using written
  have sized : overwrite (start ++ (beBytes 4 FDT_PROP ++ (lenField ++ (beBytes 4 nameoff ++
      (middle ++ tail))))) (img.offDtStruct + first.length + 4) (beBytes 4 len) =
        start ++ (beBytes 4 FDT_PROP ++ (beBytes 4 len ++ (beBytes 4 nameoff ++
          (middle ++ tail)))) := by
    have reached : (start ++ beBytes 4 FDT_PROP).length =
        img.offDtStruct + first.length + 4 := by
      rw [List.length_append, length_beBytes, front]
    have written := overwrite_middle reached
      (show (beBytes 4 len).length = lenField.length by rw [length_beBytes, isLen])
      (beBytes 4 nameoff ++ (middle ++ tail))
    simpa only [List.append_assoc] using written
  rw [shape, tagged, named, sized, ← isFront, ← isTail, headed, isMiddle]
  simp only [List.append_assoc]

/-- A property with a name in the strings block is put in front of the others. -/
theorem addProperty_bytes {blob : FdtImage} {before after : List FdtToken} {label : FlatName}
    {address : List Nat} (sameRoot : blob.root = img.root) (isBefore : img.front address = before)
    (split : flatTokens img.root = before ++ .beginNode label :: after) {offset len : Nat}
    {allocated : Bool}
    (found : fdtFindAddString img.bytes name = (blob.bytes, (offset : Int), allocated))
    (isOffset : offset < 2 ^ 31) (short : len + 15 < 2 ^ 31) :
    (∃ middle slack', middle.length = len + padding len ∧
      slack'.length + (12 + middle.length) = blob.slack.length ∧
      fdtAddProperty img.bytes (img.nodeOffset address) name len =
        (blob.headed (tokenBytes (before ++ [.beginNode label])) (tokenBytes (after ++ [.done])) 0
          offset len middle slack',
          .ok (blob.offDtStruct + (tokenBytes (before ++ [.beginNode label])).length))) ∨
    (blob.slack.length < 12 + (len + padding len) ∧
      fdtAddProperty img.bytes (img.nodeOffset address) name len =
        (if allocated then fdtDelLastString blob.bytes name else blob.bytes,
          .error (-FDT_ERR_NOSPACE))) := by
  have padShort := padding_lt len
  have fits : 12 + (len + padding len) < 2 ^ 31 := by omega
  have lenBytes : toUint (len : Int) = len := toUint_natCast (by omega)
  have nameBytes : toUint (offset : Int) = offset := toUint_natCast (by omega)
  have proplen : wrapInt (12 + fdtTagAlign (len : Int)) = (12 + (len + padding len) : Nat) := by
    rw [tagAlign_natCast (by omega), wrapInt_of_lt (by omega) (by omega)]
    rfl
  have tokens : img.tokens = before ++ .beginNode label :: (after ++ [.done]) := by
    rw [FdtLayout.tokens, split]
    simp
  have struct : blob.struct = tokenBytes (before ++ [.beginNode label]) ++
      ([] ++ tokenBytes (after ++ [.done])) := by
    rw [FdtLayout.struct, FdtLayout.tokens, sameRoot, split]
    simp
  have next : fdtCheckNodeOffset img.bytes (img.nodeOffset address) =
      tokenOffset (before ++ [.beginNode label]) := by
    unfold nodeOffset
    rw [isBefore]
    exact img.checkNodeOffset_bytes tokens
  have position : (tokenOffset (before ++ [.beginNode label])).toNat =
      (tokenBytes (before ++ [.beginNode label])).length := Int.toNat_natCast _
  have positive : ¬ (tokenOffset (before ++ [.beginNode label])) < 0 :=
    not_lt.mpr (tokenOffset_nonneg _)
  have known : ¬ (offset : Int) < 0 := not_lt.mpr (Int.natCast_nonneg _)
  by_cases room : 12 + (len + padding len) ≤ ([] : List UInt8).length + blob.slack.length
  · obtain ⟨fields, slack', isFields, isSlack, spliced⟩ := spliceStruct_bytes struct room
    obtain ⟨middle, isMiddle, written⟩ :=
      @headed_of_fields blob (tokenBytes (before ++ [.beginNode label]))
        (tokenBytes (after ++ [.done])) fields slack' offset len _ isFields
    refine .inl ⟨middle, slack', isMiddle, ?_, ?_⟩
    · rw [isMiddle, isSlack, List.length_nil, Nat.zero_add]
    · rw [List.length_nil, Nat.cast_zero] at spliced
      unfold fdtAddProperty
      rw [next]
      dsimp only
      rw [if_neg positive, found]
      dsimp only
      rw [if_neg known, proplen, blob.offDtStruct_bytes, position, spliced]
      dsimp only
      rw [if_neg (by decide), nameBytes, lenBytes, written]
  · have spliced := spliceStruct_full struct fits (not_le.mp room)
    refine .inr ⟨?_, ?_⟩
    · rw [List.length_nil, Nat.zero_add] at room
      exact not_le.mp room
    · rw [List.length_nil, Nat.cast_zero] at spliced
      unfold fdtAddProperty
      rw [next]
      dsimp only
      rw [if_neg positive, found]
      dsimp only
      rw [if_neg known, proplen, blob.offDtStruct_bytes, position, spliced]
      exact if_pos (show -FDT_ERR_NOSPACE ≠ 0 by decide)

variable {address : List Nat} {node : FlatTree} {value : List UInt8}

/-- A property that is new to the node is put in front. -/
theorem setProp_missing {strings : List UInt8}
    (missing : (dtOf strings node).prop? name = none) {flat : FlatProp}
    (isKey : flat.key strings = name) (isValue : flat.value = value) :
    dtOf strings (withProps (flat :: node.label.props) node) =
      (dtOf strings node).setProp name value := by
  have props : (dtOf strings node).props =
      node.label.props.map fun prop => (prop.key strings, prop.value) := by
    rw [dtOf_eq]
    rfl
  rw [dtOf_withProps, DtNode.setProp, missing, props, List.map_cons, isKey, isValue]

/-- A new property is added to a blob that has its name. -/
theorem setprop_named {blob : FdtImage} (isNode : img.root.get? address = some node)
    (missing : (dtOf img.strings node).prop? name = none) (isString : 0 ∉ name)
    (placed : fdtSetpropPlaceholder img.bytes (img.nodeOffset address) name value.length =
      some (fdtAddProperty img.bytes (img.nodeOffset address) name value.length))
    (sameRoot : blob.root = img.root) (sameDt : blob.dt = img.dt)
    (sameTotal : blob.totalsize = img.totalsize)
    (slack : img.slack.length ≤ blob.slack.length + (name.length + 1))
    {offset : Nat} {allocated : Bool}
    (found : fdtFindAddString img.bytes name = (blob.bytes, (offset : Int), allocated))
    (isName : NameAt blob.strings name offset) (isOffset : offset < 2 ^ 31)
    (rolledBack : ∃ img' : FdtImage,
      (if allocated then fdtDelLastString blob.bytes name else blob.bytes) = img'.bytes ∧
        img'.root = img.root ∧ img'.strings = img.strings ∧ img'.totalsize = img.totalsize)
    (short : value.length + 15 < 2 ^ 31) :
    ∃ img' err, fdtSetprop img.bytes (img.nodeOffset address) name value = some (img'.bytes, err) ∧
      Written img address name value img' err := by
  obtain ⟨behind, -, whole⟩ := props_focus isNode
  have isBlobNode : blob.root.get? address = some node := by rw [sameRoot, isNode]
  obtain ⟨behind', changed, whole'⟩ := props_focus isBlobNode
  have sameFront : blob.front address = img.front address := by
    unfold front
    rw [sameRoot]
  have padShort := padding_lt value.length
  rcases addProperty_bytes sameRoot rfl whole found isOffset short with
    ⟨middle, slack', isMiddle, isSlack, added⟩ | ⟨full, added⟩
  · rw [sameRoot, whole, sameFront] at whole'
    have sameBehind : behind' = behind := by
      have tails := List.append_cancel_left whole'
      exact (List.append_cancel_left (List.cons.inj tails).2).symm
    subst sameBehind
    generalize isAfter : node.label.props.map FdtToken.prop ++ behind' = after at *
    have struct : blob.struct =
        tokenBytes (img.front address ++ [.beginNode node.label.name]) ++
          ([] ++ tokenBytes (after ++ [.done])) := by
      rw [FdtLayout.struct, FdtLayout.tokens, sameRoot, whole]
      simp
    have tokens' : flatTokens (blob.root.update (withProps
        (placedProp offset value middle isMiddle :: node.label.props)) address) =
          img.front address ++ .beginNode node.label.name ::
            .prop (placedProp offset value middle isMiddle) :: after := by
      rw [changed, sameFront, List.map_cons, List.cons_append, isAfter]
    have struct' : tokenBytes (flatTokens (blob.root.update (withProps
        (placedProp offset value middle isMiddle :: node.label.props)) address) ++ [.done]) =
          tokenBytes (img.front address ++ [.beginNode node.label.name]) ++
            ((FdtToken.prop (placedProp offset value middle isMiddle)).bytes ++
              tokenBytes (after ++ [.done])) := by
      rw [tokens']
      simp
    have isNew := isName.named isString
      (show (placedProp offset value middle isMiddle).nameoff = offset from rfl)
    have named : ∀ prop, .prop prop ∈ flatTokens (blob.root.update (withProps
        (placedProp offset value middle isMiddle :: node.label.props)) address) →
          prop.Named blob.strings := by
      rw [tokens', List.append_cons]
      refine named_around (fun prop member => blob.named prop ?_) isNew.1
      rw [sameRoot, whole, List.append_cons]
      exact member
    have room : slack'.length + (12 + middle.length) =
        ([] : List UInt8).length + blob.slack.length := by
      rw [isSlack, List.length_nil, Nat.zero_add]
    obtain ⟨img', isBytes, isLayout, total⟩ :=
      headed_value isMiddle struct struct' room named
    rw [List.length_nil] at isBytes
    have sameNode : dtOf blob.strings node = dtOf img.strings node := by
      have inBlob := congrArg (·.get? address) sameDt
      simpa [dt, get?_dtOf, isBlobNode, isNode] using inBlob
    have tree := dt_withProps isBlobNode (f := (·.setProp name value))
      (setProp_missing (by rw [sameNode]; exact missing) isNew.2 rfl)
    refine ⟨img', 0, ?_, .done ?_ (total.trans sameTotal) ?_⟩
    · rw [added] at placed
      exact (setprop_ok placed).trans (by rw [isBytes])
    · rw [← sameDt, ← tree, dt, isLayout]
    · have slackLength : img'.slack = slack' := by rw [isLayout]
      rw [slackLength]
      omega
  · obtain ⟨img', isBytes, root, strings, total⟩ := rolledBack
    rw [added, isBytes] at placed
    exact ⟨img', _, setprop_error placed, .noSpace root strings total (by omega)⟩

theorem findIdx?_missing {strings : List UInt8}
    (missing : (node.label.props.findIdx? fun prop => prop.key strings = name) = none) :
    (dtOf strings node).prop? name = none := by
  have none := List.findIdx?_eq_none_iff.mp missing
  rw [prop?_dtOf, List.find?_eq_none.mpr (by simpa using none)]
  rfl

/-- A property that is new to the node is added with its name, or all is rolled back. -/
theorem setprop_new (isNode : img.root.get? address = some node) (isString : 0 ∉ name)
    (missing : (node.label.props.findIdx? fun prop => prop.key img.strings = name) = none)
    (nameShort : name.length + 1 < 2 ^ 31) (short : value.length + 15 < 2 ^ 31) :
    ∃ img' err, fdtSetprop img.bytes (img.nodeOffset address) name value = some (img'.bytes, err) ∧
      Written img address name value img' err := by
  have property := getPropertyNamelen_bytes isNode name
  rw [missing] at property
  have resized : fdtResizeProperty img.bytes (img.nodeOffset address) name value.length =
      some (img.bytes, .error (-FDT_ERR_NOTFOUND)) := by
    unfold fdtResizeProperty
    rw [getProperty_bytes, property, Option.bind_eq_bind, Option.bind_some]
  have placed := placeholder_missing resized
  have noProp := findIdx?_missing missing
  rcases findAddString_bytes img nameShort with
    ⟨offset, found, isName, isOffset⟩ | ⟨room, offset, found, isName, isOffset⟩ | ⟨full, found⟩
  · exact setprop_named isNode noProp isString placed rfl rfl rfl (Nat.le_add_right _ _) found
      isName isOffset ⟨img, rfl, rfl, rfl, rfl⟩ short
  · have sameRoot : (img.withString name room).root = img.root := rfl
    refine setprop_named isNode noProp isString placed sameRoot (withString_dt room)
      (withString_totalsize room) ?_ found isName isOffset (delLastString_bytes room) short
    change img.slack.length ≤ (img.slack.drop (name.length + 1)).length + (name.length + 1)
    rw [List.length_drop]
    omega
  · obtain ⟨behind, -, whole⟩ := props_focus isNode
    have tokens : img.tokens = img.front address ++ .beginNode node.label.name ::
        (node.label.props.map .prop ++ behind ++ [.done]) := by
      rw [FdtLayout.tokens, whole]
      simp
    have added : fdtAddProperty img.bytes (img.nodeOffset address) name value.length =
        (img.bytes, .error (-FDT_ERR_NOSPACE)) := by
      unfold fdtAddProperty nodeOffset
      rw [img.checkNodeOffset_bytes tokens]
      dsimp only
      rw [if_neg (not_lt.mpr (tokenOffset_nonneg _)), found]
      exact if_pos (show -FDT_ERR_NOSPACE < 0 by decide)
    rw [added] at placed
    exact ⟨img, _, setprop_error placed, .noSpace rfl rfl rfl (by omega)⟩

/-- `fdt_setprop` at a node writes the property of the tree, in a blob of the same size; when it
finds too little space, the tree and its offsets stay. -/
theorem setprop_bytes (isNode : img.root.get? address = some node) (isString : 0 ∉ name)
    (nameShort : name.length + 1 < 2 ^ 31) (short : value.length + 15 < 2 ^ 31) :
    ∃ img' err, fdtSetprop img.bytes (img.nodeOffset address) name value = some (img'.bytes, err) ∧
      Written img address name value img' err := by
  cases found : node.label.props.findIdx? fun prop => decide (prop.key img.strings = name) with
  | none => exact setprop_new isNode isString found nameShort short
  | some i => exact setprop_existing isNode found short

end FdtImage

end Zsbl.Libs
