/-
Module: Zsbl.Proofs.FdtWalk
Purpose: The walks of lib/fdt over the nodes of a blob, and that a path leads to the node of the
  tree that it leads to there.
Trusted boundary: none
Main exports:
  Scan, Scan.run, nextNodeFrom_cases, subnodeFrom_bytes, FdtImage.nodeOffset,
  subnodeOffset_bytes, pathOffset_bytes
-/
import Zsbl.Lib.DeviceTree
import Zsbl.Proofs.FdtImage
import Zsbl.Proofs.Fdtput

namespace Zsbl.Libs

open Zsbl.Lib

/-! ## Scans -/

/-- What a loop over `fdt_next_node` looks for, and what it makes of the end of its node. -/
structure Scan where
  found : Int → FlatName → Bool
  closed : Int → Int

/-- The loop as one over the tokens, with those in front of them and the depth. -/
def Scan.run (scan : Scan) : List FdtToken → List FdtToken → Int → Int
  | before, .beginNode name :: rest, depth =>
      if scan.found (depth + 1) name then tokenOffset before
      else run scan (before ++ [.beginNode name]) rest (depth + 1)
  | before, .endNode :: rest, depth =>
      if depth - 1 < 0 then scan.closed (tokenOffset (before ++ [.endNode]))
      else run scan (before ++ [.endNode]) rest (depth - 1)
  | before, .prop flat :: rest, depth => run scan (before ++ [.prop flat]) rest depth
  | _, .done :: _, _ => -FDT_ERR_NOTFOUND
  | _, [], _ => -FDT_ERR_NOTFOUND

/-- What `fdt_subnode_offset_namelen` looks for. -/
def subnodeScan (s : List UInt8) : Scan where
  found depth name := depth = 1 ∧ nodenameEq name.chars s
  closed _ := -FDT_ERR_NOTFOUND

/-- How `fdt_next_node` ends: at a node, behind the end of the one it is in, or at the end. -/
inductive NextNode (before tokens : List FdtToken) (depth : Int) : Int → Int → Prop where
  | node {skipped rest : List FdtToken} {name : FlatName} {offset depth' : Int}
      (split : tokens = skipped ++ .beginNode name :: rest)
      (here : offset = tokenOffset (before ++ skipped)) (inside : 0 ≤ depth')
      (same : ∀ scan : Scan, scan.run before tokens depth =
        scan.run (before ++ skipped) (.beginNode name :: rest) depth') :
      NextNode before tokens depth offset (depth' + 1)
  | closed {offset depth' : Int} (outside : depth' < 0) (positive : 0 ≤ offset)
      (same : ∀ scan : Scan, scan.run before tokens depth = scan.closed offset) :
      NextNode before tokens depth offset depth'
  | done {depth' : Int} (inside : 0 ≤ depth')
      (same : ∀ scan : Scan, scan.run before tokens depth = -FDT_ERR_NOTFOUND) :
      NextNode before tokens depth (-FDT_ERR_NOTFOUND) depth'

/-- A token that is passed over. -/
theorem NextNode.step {before rest : List FdtToken} {token : FdtToken}
    {depth depth' offset depth'' : Int}
    (next : NextNode (before ++ [token]) rest depth' offset depth'')
    (same : ∀ scan : Scan, scan.run before (token :: rest) depth =
      scan.run (before ++ [token]) rest depth') :
    NextNode before (token :: rest) depth offset depth'' := by
  cases next with
  | @node skipped rest' name _ _ split here inside later =>
      have whole : token :: rest = (token :: skipped) ++ .beginNode name :: rest' := by
        rw [split]
        rfl
      refine .node whole (by simpa using here) inside fun scan => ?_
      rw [same, later]
      simp
  | closed outside positive later =>
      exact .closed outside positive fun scan => (same scan).trans (later scan)
  | done inside later => exact .done inside fun scan => (same scan).trans (later scan)

/-- The end of the structure is behind what is not it. -/
theorem ends_of_ne {skipped rest : List FdtToken} {token : FdtToken} (other : token ≠ .done)
    (ends : (skipped ++ token :: rest).getLast? = some .done) : rest.getLast? = some .done := by
  cases rest with
  | nil =>
      rw [List.getLast?_concat] at ends
      exact absurd (Option.some.inj ends) other
  | cons next rest =>
      have last := List.getLast?_eq_some_getLast (List.cons_ne_nil next rest)
      rw [List.getLast?_append, List.getLast?_cons_cons, last, Option.some_or] at ends
      rwa [last]

namespace FdtImage

variable (img : FdtImage)

/-- The search stops at the next node's token, or at the end of the node it is in. -/
theorem nextNodeFrom_cases {before tokens : List FdtToken} {depth : Int} {turns : Nat}
    (split : img.tokens = before ++ tokens) (ends : tokens.getLast? = some .done)
    (inside : 0 ≤ depth)
    (enough : tokens.length ≤ turns) :
    ∃ offset depth', fdtNextNodeFrom img.bytes turns (tokenOffset before) (some depth) =
        some (offset, some depth') ∧ NextNode before tokens depth offset depth' := by
  induction tokens generalizing before depth turns with
  | nil => cases ends
  | cons token rest ih =>
      obtain ⟨turns, rfl⟩ : ∃ n, turns = n + 1 := ⟨turns - 1, by simp at enough; omega⟩
      have next := img.nextTag_bytes split
      have behind : img.tokens = before ++ [token] ++ rest := by simpa using split
      have later (other : token ≠ .done) {depth : Int} (inside : 0 ≤ depth) :=
        ih behind (@ends_of_ne [] rest token other ends) inside (Nat.le_of_succ_le_succ enough)
      rw [fdtNextNodeFrom, next]
      cases token with
      | beginNode name =>
          have whole : FdtToken.beginNode name :: rest = [] ++ .beginNode name :: rest := rfl
          refine ⟨_, depth + 1, rfl, .node whole ?_ inside fun scan => ?_⟩
          · rw [List.append_nil]
          · rw [List.append_nil]
      | prop flat =>
          obtain ⟨offset, depth', runs, step⟩ := later nofun inside
          exact ⟨offset, depth', runs, step.step fun scan => rfl⟩
      | endNode =>
          by_cases outside : depth - 1 < 0
          · refine ⟨_, depth - 1, ?_,
              .closed outside (tokenOffset_nonneg _) fun scan => if_pos outside⟩
            simp [FdtToken.tag, FDT_END_NODE, FDT_BEGIN_NODE, outside]
          · obtain ⟨offset, depth', runs, step⟩ := later nofun (not_lt.mp outside)
            refine ⟨offset, depth', ?_, step.step fun scan => if_neg outside⟩
            rw [← runs]
            simp [FdtToken.tag, FDT_END_NODE, FDT_BEGIN_NODE, outside]
      | done =>
          refine ⟨_, depth, ?_, .done inside fun scan => rfl⟩
          simp [FdtToken.tag, FDT_END, FDT_BEGIN_NODE, FDT_END_NODE, tokenOffset_nonneg]

theorem length_tokens_le (tokens : List FdtToken) : tokens.length ≤ (tokenBytes tokens).length := by
  induction tokens with
  | nil => exact le_refl _
  | cons token tokens ih =>
      rw [tokenBytes_cons, List.length_append, token.length_bytes, List.length_cons]
      omega

theorem length_tokens_bytes : img.tokens.length ≤ img.bytes.length := by
  have count := length_tokens_le img.tokens
  have inside := img.bounds.1
  rw [img.length_bytes]
  unfold FdtLayout.struct at inside
  omega

/-- The check of an offset passes the token that is there. -/
theorem checkOffset_bytes {before rest : List FdtToken} {token : FdtToken}
    (split : img.tokens = before ++ token :: rest) :
    fdtCheckOffset img.bytes token.tag (tokenOffset before) = tokenOffset (before ++ [token]) := by
  have aligned : ¬ (tokenOffset before < 0 ∨ tokenOffset before % 4 ≠ 0) := by
    have words := length_tokenBytes_mod before
    unfold tokenOffset
    omega
  unfold fdtCheckOffset
  rw [if_neg aligned, img.nextTag_bytes split]
  simp

variable {before rest : List FdtToken} {name : FlatName}
  (split : img.tokens = before ++ .beginNode name :: rest)

include split

theorem checkNodeOffset_bytes : fdtCheckNodeOffset img.bytes (tokenOffset before) =
    tokenOffset (before ++ [.beginNode name]) := img.checkOffset_bytes split

/-- The search begins behind the node's own token. -/
theorem nextNode_bytes (depth : Option Int) :
    fdtNextNode img.bytes (tokenOffset before) depth =
      fdtNextNodeFrom img.bytes img.bytes.length (tokenOffset (before ++ [.beginNode name]))
        depth := by
  have positive := tokenOffset_nonneg (before ++ [.beginNode name])
  unfold fdtNextNode
  rw [if_pos (tokenOffset_nonneg before), img.checkNodeOffset_bytes split]
  dsimp only
  rw [if_neg (not_lt.mpr positive)]

/-- The name of a node is read. -/
theorem getName_bytes : fdtGetName img.bytes (tokenOffset before) = some name.chars := by
  have positive := tokenOffset_nonneg (before ++ [.beginNode name])
  have here : img.struct.drop ((tokenBytes before).length + 4) =
      name.chars ++ 0 :: (name.pad ++ tokenBytes rest) := by
    rw [← List.drop_drop, img.drop_struct split, List.drop_left' (length_beBytes 4 _)]
    simp [FdtToken.body]
  have inside : (tokenBytes before).length + 4 ≤ img.struct.length := by
    by_contra outside
    rw [List.drop_eq_nil_of_le (not_le.mp outside).le] at here
    exact List.append_ne_nil_of_right_ne_nil _ (List.cons_ne_nil _ _) here.symm
  unfold fdtGetName
  rw [img.checkNodeOffset_bytes split, img.roProbe_bytes, img.version_bytes,
    img.offDtStruct_bytes, if_neg (by omega)]
  dsimp only
  rw [if_neg (by decide), Nat.add_assoc]
  unfold tokenOffset
  rw [Int.toNat_natCast, img.drop_bytes inside, here, List.append_assoc, List.cons_append,
    cstr_append_zero name.isString]

/-- The comparison with a node's name is the one of its characters. -/
theorem nodenameEq_bytes (s : List UInt8) :
    fdtNodenameEq img.bytes (tokenOffset before) s = nodenameEq name.chars s := by
  unfold fdtNodenameEq nodenameEq
  rw [img.getName_bytes split]
  dsimp only
  by_cases front : s <+: name.chars
  · have whole : s.isPrefixOf name.chars = true := List.isPrefixOf_iff_prefix.mpr front
    have same : name.chars.take s.length = s := (List.prefix_iff_eq_take.mp front).symm
    have ended : name.chars.drop s.length = [] ↔ name.chars.length = s.length := by
      rw [List.drop_eq_nil_iff]
      exact ⟨fun short => Nat.le_antisymm short front.length_le, Nat.le_of_eq⟩
    rw [if_neg (not_lt.mpr front.length_le), if_neg (not_not.mpr same), whole, Bool.true_and,
      List.head?_drop]
    by_cases all : name.chars.length = s.length
    · simp [all, ended.mpr all]
    · simp [all, mt ended.mp all]
  · have other : s.isPrefixOf name.chars = false := by
      rw [Bool.eq_false_iff, ne_eq, List.isPrefixOf_iff_prefix]
      exact front
    have differs : name.chars.take s.length ≠ s := fun same =>
      front (List.prefix_iff_eq_take.mpr same.symm)
    rw [other, Bool.false_and, if_pos differs]
    split <;> rfl

/-- The search over the nodes is the scan over the tokens. -/
theorem subnodeFrom_bytes (s : List UInt8) {depth : Int} (inside : 0 ≤ depth)
    (ends : rest.getLast? = some .done) {turns : Nat} (enough : rest.length + 2 ≤ turns) :
    fdtSubnodeFrom img.bytes s turns (tokenOffset before) depth =
      some ((subnodeScan s).run before (.beginNode name :: rest) (depth - 1)) := by
  induction turns generalizing before rest name depth with
  | zero => cases enough
  | succ turns ih =>
      rw [fdtSubnodeFrom, if_pos ⟨tokenOffset_nonneg before, inside⟩, img.nodenameEq_bytes split,
        Scan.run, Int.sub_add_cancel]
      by_cases found : depth = 1 ∧ nodenameEq name.chars s = true
      · rw [if_pos found, if_pos (by simpa [subnodeScan] using found)]
      · rw [if_neg found, if_neg (by simpa [subnodeScan] using found), img.nextNode_bytes split]
        have turnsLeft : rest.length ≤ img.bytes.length := by
          have count := img.length_tokens_bytes
          rw [split, List.length_append, List.length_cons] at count
          omega
        have behind : img.tokens = before ++ [.beginNode name] ++ rest := by simpa using split
        obtain ⟨offset, depth', runs, next⟩ :=
          img.nextNodeFrom_cases behind ends inside turnsLeft
        rw [runs, Option.bind_eq_bind, Option.bind_some]
        dsimp only
        rw [Option.getD_some]
        cases next with
        | @node skipped rest' name' _ depth' cut here below same =>
            rw [cut, List.length_append, List.length_cons] at enough
            have endsLater : rest'.getLast? = some .done := by
              rw [cut] at ends
              exact ends_of_ne (by nofun) ends
            have splitLater : img.tokens =
                before ++ [.beginNode name] ++ skipped ++ .beginNode name' :: rest' := by
              simp [split, cut]
            have later := ih splitLater (show 0 ≤ depth' + 1 by omega) endsLater (by omega)
            rw [here, same, later, Int.add_sub_cancel]
        | closed outside positive same =>
            obtain ⟨turns, rfl⟩ : ∃ n, turns = n + 1 := ⟨turns - 1, by omega⟩
            rw [same, fdtSubnodeFrom, if_neg (by omega), if_pos outside]
            rfl
        | done below same =>
            obtain ⟨turns, rfl⟩ : ∃ n, turns = n + 1 := ⟨turns - 1, by omega⟩
            rw [same, fdtSubnodeFrom, if_neg (by simp [FDT_ERR_NOTFOUND]),
              if_neg (not_lt.mpr below)]

/-- The search for a child scans the tokens behind the node's own. -/
theorem subnodeOffset_tokens (s : List UInt8) (ends : rest.getLast? = some .done) :
    fdtSubnodeOffsetNamelen img.bytes (tokenOffset before) s =
      some ((subnodeScan s).run (before ++ [.beginNode name]) rest 0) := by
  have enough : rest.length + 2 ≤ img.bytes.length + 1 := by
    have count := img.length_tokens_bytes
    rw [split, List.length_append, List.length_cons] at count
    omega
  have start := img.subnodeFrom_bytes split s (le_refl 0) ends enough
  unfold fdtSubnodeOffsetNamelen
  rw [img.roProbe_bytes, if_neg (by omega), start]
  rfl

end FdtImage

/-! ## Trees -/

def flatForest (trees : List FlatTree) : List FdtToken :=
  OrderedTree.forest FlatLabel.opening [.endNode] trees

theorem flatTokens_eq (tree : FlatTree) :
    flatTokens tree = .beginNode tree.label.name :: (tree.label.props.map .prop ++
      (flatForest tree.children ++ [.endNode])) :=
  OrderedTree.brackets_eq FlatLabel.opening [.endNode] tree

@[simp] theorem flatForest_cons (tree : FlatTree) (trees : List FlatTree) :
    flatForest (tree :: trees) = flatTokens tree ++ flatForest trees := by
  unfold flatForest flatTokens
  rw [OrderedTree.forest]

@[simp] theorem flatForest_nil : flatForest [] = [] := by
  unfold flatForest
  rw [OrderedTree.forest]

section Runs

variable (scan : Scan)

theorem run_props (props : List FlatProp) (before rest : List FdtToken) (depth : Int) :
    scan.run before (props.map .prop ++ rest) depth =
      scan.run (before ++ props.map .prop) rest depth := by
  induction props generalizing before with
  | nil => simp
  | cons prop props ih =>
      rw [List.map_cons, List.cons_append, Scan.run, ih]
      simp

/-- Nothing is found from a depth on. -/
def Scan.Blind (least : Int) : Prop := ∀ depth name, least ≤ depth → scan.found depth name = false

variable {scan} {least : Int}

mutual

/-- A scan that is blind at this depth passes over a whole node. -/
theorem run_tree (blind : scan.Blind least) : ∀ (tree : FlatTree) (before rest : List FdtToken)
    {depth : Int}, 0 ≤ depth → least ≤ depth + 1 →
      scan.run before (flatTokens tree ++ rest) depth =
        scan.run (before ++ flatTokens tree) rest depth
  | .node label children, before, rest, depth, inside, deep => by
      rw [flatTokens_eq]
      simp only [List.cons_append, List.append_assoc, OrderedTree.label_node,
        OrderedTree.children_node]
      rw [Scan.run, blind _ _ deep, if_neg (by decide), run_props,
        run_forest blind children _ _ (by omega) (by omega), Scan.run, if_neg (by omega),
        Int.add_sub_cancel]
      simp

theorem run_forest (blind : scan.Blind least) : ∀ (trees : List FlatTree)
    (before rest : List FdtToken) {depth : Int}, 0 ≤ depth → least ≤ depth + 1 →
      scan.run before (flatForest trees ++ rest) depth =
        scan.run (before ++ flatForest trees) rest depth
  | [], before, rest, depth, _, _ => by simp
  | tree :: trees, before, rest, depth, inside, deep => by
      rw [flatForest_cons, List.append_assoc, run_tree blind tree _ _ inside deep,
        run_forest blind trees _ _ inside deep, List.append_assoc]

end

/-- Behind the start of a node the scan goes on behind its end. -/
theorem run_body (blind : scan.Blind least) (tree : FlatTree) (before rest : List FdtToken)
    {depth : Int} (inside : 0 ≤ depth) (deep : least ≤ depth + 2) :
    scan.run (before ++ [.beginNode tree.label.name])
        (tree.label.props.map .prop ++ (flatForest tree.children ++ .endNode :: rest)) (depth + 1) =
      scan.run (before ++ flatTokens tree) rest depth := by
  rw [run_props, run_forest blind _ _ _ (by omega) (by omega), Scan.run, if_neg (by omega),
    Int.add_sub_cancel, flatTokens_eq]
  simp

end Runs

/-- Nothing is found below the children. -/
theorem subnodeScan_blind (s : List UInt8) : (subnodeScan s).Blind 2 := by
  intro depth name deep
  have other : depth ≠ 1 := by omega
  simp [subnodeScan, other]

/-- Among the children the first one with the name is found. -/
theorem run_children (s : List UInt8) (trees : List FlatTree) (before rest : List FdtToken) :
    (subnodeScan s).run before (flatForest trees ++ .endNode :: rest) 0 =
      match trees.findIdx? fun tree => nodenameEq tree.label.name.chars s with
      | some i => tokenOffset (before ++ flatForest (trees.take i))
      | none => -FDT_ERR_NOTFOUND := by
  induction trees generalizing before with
  | nil => rfl
  | cons tree trees ih =>
      rw [flatForest_cons, flatTokens_eq, List.findIdx?_cons]
      simp only [List.cons_append, List.append_assoc]
      rw [Scan.run]
      by_cases found : nodenameEq tree.label.name.chars s = true
      · simp [subnodeScan, found]
      · have goesOn : (subnodeScan s).found (0 + 1) tree.label.name = false := by
          simp [subnodeScan, found]
        rw [goesOn, if_neg (by decide)]
        have body := run_body (subnodeScan_blind s) tree before
          (flatForest trees ++ .endNode :: rest) (le_refl 0) (by decide)
        simp only [List.nil_append]
        rw [body, ih]
        cases trees.findIdx? fun tree => nodenameEq tree.label.name.chars s with
        | none => simp [found]
        | some i => simp [found]

/-! ## What a blob describes -/

/-- The name of a property. -/
def FlatProp.key (strings : List UInt8) (prop : FlatProp) : List UInt8 :=
  cstr (strings.drop prop.nameoff)

mutual

/-- The tree with the names that the block of strings has. -/
def dtOf (strings : List UInt8) : FlatTree → DtNode
  | .node label children =>
      .node label.name.chars (label.props.map fun prop => (prop.key strings, prop.value))
        (dtsOf strings children)

def dtsOf (strings : List UInt8) : List FlatTree → List DtNode
  | [] => []
  | tree :: trees => dtOf strings tree :: dtsOf strings trees

end

theorem dtsOf_eq (strings : List UInt8) (trees : List FlatTree) :
    dtsOf strings trees = trees.map (dtOf strings) := by
  induction trees with
  | nil => rfl
  | cons tree trees ih => rw [dtsOf, ih, List.map_cons]

theorem dtOf_eq (strings : List UInt8) (tree : FlatTree) :
    dtOf strings tree = .node tree.label.name.chars
      (tree.label.props.map fun prop => (prop.key strings, prop.value))
      (tree.children.map (dtOf strings)) := by
  cases tree
  rw [dtOf, dtsOf_eq]
  rfl

theorem subnode?_dtOf (strings s : List UInt8) (tree : FlatTree) :
    (dtOf strings tree).subnode? s =
      tree.children.findIdx? fun child => nodenameEq child.label.name.chars s := by
  rw [DtNode.subnode?, dtOf_eq, DtNode.children_node, List.findIdx?_map]
  congr 1
  funext child
  rw [Function.comp_apply, dtOf_eq]
  rfl

theorem getElem?_dtOf (strings : List UInt8) (tree : FlatTree) (i : Nat) :
    (dtOf strings tree).children[i]? = tree.children[i]?.map (dtOf strings) := by
  rw [dtOf_eq, DtNode.children_node, List.getElem?_map]

/-- A child that is found is one of the tree. -/
theorem subnode?_isChild {strings s : List UInt8} {tree : FlatTree} {i : Nat}
    (found : (dtOf strings tree).subnode? s = some i) :
    ∃ child, tree.children[i]? = some child ∧
      (dtOf strings tree).children[i]? = some (dtOf strings child) := by
  rw [subnode?_dtOf] at found
  obtain ⟨inside, -⟩ := List.findIdx?_eq_some_iff_getElem.mp found
  have isChild := List.getElem?_eq_getElem inside
  refine ⟨_, isChild, ?_⟩
  rw [getElem?_dtOf, isChild, Option.map_some]

theorem components_eq (path : List UInt8) :
    components path = words (fun c => c = 0x2f) path := by
  unfold components words List.splitOn
  congr 1
  · funext word
    cases word <;> rfl

namespace FdtImage

variable (img : FdtImage)

/-- The tokens in front of a node. -/
def front (address : List Nat) : List FdtToken :=
  img.root.before FlatLabel.opening [.endNode] address

def nodeOffset (address : List Nat) : Int := tokenOffset (img.front address)

/-- The tree that a blob describes. -/
def dt : DtNode := dtOf img.strings img.root

variable {img} {address : List Nat} {node : FlatTree}
  (isNode : img.root.get? address = some node)

include isNode

/-- The tokens of a node are inside those of the tree, with some behind them. -/
theorem tokens_at : ∃ after, img.tokens = img.front address ++ (flatTokens node ++ after) ∧
    after.getLast? = some .done := by
  obtain ⟨after, changed⟩ := OrderedTree.brackets_focus FlatLabel.opening [.endNode] isNode
  refine ⟨after ++ [.done], ?_, List.getLast?_concat⟩
  have same := changed node
  rw [OrderedTree.update_get? isNode] at same
  unfold FdtLayout.tokens flatTokens front
  rw [same]
  simp only [List.append_assoc]

/-- The search for a child finds the first one with the name. -/
theorem subnodeOffset_bytes (s : List UInt8) :
    fdtSubnodeOffsetNamelen img.bytes (img.nodeOffset address) s =
      some (match (dtOf img.strings node).subnode? s with
        | some i => img.nodeOffset (address ++ [i])
        | none => -FDT_ERR_NOTFOUND) := by
  obtain ⟨after, split, ends⟩ := tokens_at isNode
  rw [flatTokens_eq, List.cons_append] at split
  have endsAll : (node.label.props.map FdtToken.prop ++
      (flatForest node.children ++ [FdtToken.endNode]) ++ after).getLast? = some .done := by
    rw [List.getLast?_append, ends]
    rfl
  have scanned := img.subnodeOffset_tokens split s endsAll
  have offset (i : Nat) : img.nodeOffset (address ++ [i]) =
      tokenOffset (img.front address ++ [.beginNode node.label.name] ++
        node.label.props.map .prop ++ flatForest (node.children.take i)) := by
    unfold nodeOffset front
    rw [OrderedTree.before_concat FlatLabel.opening [.endNode] isNode]
    simp [FlatLabel.opening, flatForest]
  rw [nodeOffset, scanned, subnode?_dtOf]
  simp only [List.append_assoc]
  rw [run_props, List.singleton_append, run_children]
  refine congrArg some ?_
  cases node.children.findIdx? fun child => nodenameEq child.label.name.chars s with
  | none => rfl
  | some i => exact (offset i).symm

omit isNode

theorem nodeOffset_nonneg (address : List Nat) : 0 ≤ img.nodeOffset address :=
  tokenOffset_nonneg _

/-- The walk along a path from a node. -/
theorem pathFrom_bytes {address : List Nat} {node : FlatTree}
    (isNode : img.root.get? address = some node) (path : List UInt8) :
    fdtPathFrom img.bytes (img.nodeOffset address) path =
      some (match (dtOf img.strings node).pathOffset (components path) with
        | some below => img.nodeOffset (address ++ below)
        | none => -FDT_ERR_NOTFOUND) := by
  induction size : path.length using Nat.strong_induction_on generalizing path address node with
  | _ bound ih =>
      rw [fdtPathFrom]
      by_cases more : path.dropWhile (fun c => c = 0x2f) ≠ []
      · rw [dif_pos more, subnodeOffset_bytes isNode, components_eq, words_dropWhile more,
          DtNode.pathOffset]
        have notSlash : (fun c : UInt8 => decide (c ≠ 0x2f)) = fun c => !decide (c = 0x2f) :=
          funext fun c => decide_not
        simp only [notSlash, Option.bind_eq_bind]
        have shorter : ((path.dropWhile fun c => decide (c = 0x2f)).dropWhile
            fun c => !decide (c = 0x2f)).length < bound := by
          rw [← size, ← notSlash]
          exact length_path_lt more
        generalize (path.dropWhile fun c => decide (c = 0x2f)).dropWhile
          (fun c => !decide (c = 0x2f)) = rest at shorter ⊢
        generalize (path.dropWhile fun c => decide (c = 0x2f)).takeWhile
          (fun c => !decide (c = 0x2f)) = s
        cases found : (dtOf img.strings node).subnode? s with
        | none => rfl
        | some i =>
            obtain ⟨child, isChild, isChildDt⟩ := subnode?_isChild found
            have isNodeBelow : img.root.get? (address ++ [i]) = some child := by
              rw [OrderedTree.get?_append, isNode, Option.bind_some, OrderedTree.get?, isChild]
              rfl
            dsimp only
            rw [if_neg (not_lt.mpr (nodeOffset_nonneg _)), ih _ shorter isNodeBelow rest rfl,
              Option.bind_some, isChildDt, Option.bind_some, ← components_eq]
            cases (dtOf img.strings child).pathOffset (components rest) with
            | none => rfl
            | some below => simp
      · rw [dif_neg more]
        have blank : components path = [] := by
          rw [components_eq]
          apply words_separators
          simpa using more
        rw [blank, DtNode.pathOffset]
        simp

/-- A path from the root leads to the node that it leads to in the tree. -/
theorem pathOffset_bytes (img : FdtImage) {path : List UInt8}
    (absolute : path.head? = some 0x2f) :
    fdtPathOffset img.bytes path =
      some (match img.dt.pathOffset (components path) with
        | some address => img.nodeOffset address
        | none => -FDT_ERR_NOTFOUND) := by
  have start : img.nodeOffset [] = 0 := by
    unfold nodeOffset front
    rw [OrderedTree.before]
    rfl
  have isRoot : img.root.get? [] = some img.root := rfl
  have walked := pathFrom_bytes isRoot path
  rw [start] at walked
  unfold fdtPathOffset
  rw [img.roProbe_bytes, if_neg (by omega), if_pos absolute, walked]
  rfl

end FdtImage

end Zsbl.Libs
