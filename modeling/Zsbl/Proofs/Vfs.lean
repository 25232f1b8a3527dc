/-
Module: Zsbl.Proofs.Vfs
Purpose: The well-formed VFS tree: every node is on the list of its parent and
  on no other, and creating nodes keeps it so.
Trusted boundary: none
Main exports:
  TreeInv, Extends, TreeInv.findChild, TreeInv.vfsCreateNode, Builds.tree
-/
import Mathlib.Data.List.Nodup
import Mathlib.Data.List.Range
import Zsbl.Common.VfsSystem
import Zsbl.Lib.Chain

namespace Zsbl.Common

open Zsbl.Lib

variable {ω π : Type} {s s' : Vfs ω π}

@[simp] theorem Vfs.setNode_nodes (id : Nat) (node : VfsNode ω π) :
    (s.setNode id node).nodes = Function.update s.nodes id (some node) := rfl

@[simp] theorem Vfs.freeNode_nodes (id : Nat) :
    (s.freeNode id).nodes = Function.update s.nodes id none := rfl

/-! ## Children -/

/-- The parent of an allocated node. -/
def Vfs.parentOf (s : Vfs ω π) (id : Nat) : Option Nat :=
  (s.nodes id).bind VfsNode.parent

/-- The link that the sibling lists follow. -/
def Vfs.siblingOf (s : Vfs ω π) (id : Nat) : Option (Option Nat) :=
  (s.nodes id).map VfsNode.sibling

/-- The allocated children of a node, the newest first. -/
def Vfs.kids (s : Vfs ω π) (parent : Nat) : List Nat :=
  (List.range s.nextNode).reverse.filter fun id => s.parentOf id = some parent

/-- Nodes are allocated in the order of their names, children after their
parents; each directory's list holds exactly its children; their names are
valid and distinct. -/
structure TreeInv (s : Vfs ω π) : Prop where
  lt : ∀ id node, s.nodes id = some node → id < s.nextNode
  parent : ∀ id node above, s.nodes id = some node → node.parent = some above →
    above < id ∧ ∃ dir, s.nodes above = some dir ∧ dir.type = .dir
  list : ∀ id node, s.nodes id = some node →
    Chain s.siblingOf node.child (s.kids id)
  valid : ∀ id node above, s.nodes id = some node → node.parent = some above →
    vfsNameValid node.name = true
  unique : ∀ id id' node node' above, s.nodes id = some node →
    s.nodes id' = some node' → node.parent = some above →
    node'.parent = some above → node.name = node'.name → id = id'
  root : ∀ id, s.rootNode = some id →
    ∃ node, s.nodes id = some node ∧ node.type = .dir ∧ node.parent = none

theorem Vfs.mem_kids {id parent : Nat} : id ∈ s.kids parent ↔
    id < s.nextNode ∧ s.parentOf id = some parent := by
  simp [Vfs.kids]

theorem Vfs.parentOf_eq_some {id parent : Nat} : s.parentOf id = some parent ↔
    ∃ node, s.nodes id = some node ∧ node.parent = some parent := by
  simp [Vfs.parentOf, Option.bind_eq_some_iff]

theorem TreeInv.mem_kids (inv : TreeInv s) {id parent : Nat} :
    id ∈ s.kids parent ↔
      ∃ node, s.nodes id = some node ∧ node.parent = some parent := by
  rw [Vfs.mem_kids, Vfs.parentOf_eq_some]
  constructor
  · exact And.right
  · rintro ⟨node, live, above⟩
    exact ⟨inv.lt id node live, node, live, above⟩

theorem Vfs.kids_length_le (parent : Nat) : (s.kids parent).length ≤ s.nextNode := by
  unfold Vfs.kids
  exact (List.length_filter_le _ _).trans (by simp)

theorem Vfs.kids_nodup (parent : Nat) : (s.kids parent).Nodup := by
  unfold Vfs.kids
  exact (List.nodup_reverse.mpr List.nodup_range).filter _

/-- The loop over a sibling list finds the first node with the name. -/
theorem findChildFrom_eq {start : Option Nat} {nodes : List Nat}
    (list : Chain s.siblingOf start nodes) (name : CStr) {fuel : Nat}
    (enough : nodes.length ≤ fuel) :
    findChildFrom s name fuel start =
      some (nodes.find? fun id => (s.nodes id).any (·.name = name)) := by
  induction list generalizing fuel with
  | nil => cases fuel <;> rfl
  | @cons id link rest allocated _ ih =>
      obtain ⟨fuel, rfl⟩ : ∃ less, fuel = less + 1 :=
        Nat.exists_eq_succ_of_ne_zero (by simp at enough; omega)
      obtain ⟨node, live, rfl⟩ := Option.map_eq_some_iff.mp allocated
      have shorter : rest.length ≤ fuel := by simpa using enough
      by_cases here : node.name = name
      · simp [findChildFrom, live, here]
      · simp [findChildFrom, live, here, ih shorter]

/-- `vfs_find_child_by_name` finds the child with the name, if there is one. -/
theorem TreeInv.findChild (inv : TreeInv s) {parent : Nat} (live : (s.nodes parent).isSome)
    (name : CStr) :
    (vfsFindChildByName s parent name = some none ∧
        ∀ id node, s.nodes id = some node → node.parent = some parent →
          node.name ≠ name) ∨
      ∃ id node, vfsFindChildByName s parent name = some (some id) ∧
        s.nodes id = some node ∧ node.parent = some parent ∧ node.name = name := by
  obtain ⟨dir, live⟩ := Option.isSome_iff_exists.mp live
  have found := findChildFrom_eq (inv.list parent dir live) name
    (s.kids_length_le parent)
  cases search : (s.kids parent).find? fun id => (s.nodes id).any (·.name = name) with
  | none =>
      left
      constructor
      · simp [vfsFindChildByName, live, found, search]
      · intro id node here above same
        have absent := List.find?_eq_none.mp search id
          (inv.mem_kids.mpr ⟨node, here, above⟩)
        simp [here, same] at absent
  | some id =>
      right
      obtain ⟨node, here, above⟩ := inv.mem_kids.mp (List.mem_of_find?_eq_some search)
      have same := List.find?_some search
      refine ⟨id, node, ?_, here, above, by simpa [here] using same⟩
      simp [vfsFindChildByName, live, found, search]

/-- A child is found by its name. -/
theorem TreeInv.findChild_self (inv : TreeInv s) {id parent : Nat} {node : VfsNode ω π}
    (live : s.nodes id = some node) (above : node.parent = some parent) :
    vfsFindChildByName s parent node.name = some (some id) := by
  obtain ⟨-, dir, dirLive, -⟩ := inv.parent id node parent live above
  rcases inv.findChild (Option.isSome_iff_exists.mpr ⟨dir, dirLive⟩) node.name with
    ⟨-, none⟩ | ⟨id', node', found, live', above', same⟩
  · exact absurd rfl (none id node live above)
  · rw [found, inv.unique id' id node' node parent live' live above' above same]

/-! ## Changes that keep the tree -/

/-- The fields of a node that make up the tree. -/
def VfsNode.shape (node : VfsNode ω π) :
    CStr × VfsNodeType × Option Nat × Option Nat × Option Nat :=
  (node.name, node.type, node.parent, node.child, node.sibling)

/-- The two states have the same tree. -/
structure SameTree (s s' : Vfs ω π) : Prop where
  shape : ∀ id, (s'.nodes id).map VfsNode.shape = (s.nodes id).map VfsNode.shape
  nextNode : s'.nextNode = s.nextNode
  rootNode : s'.rootNode = s.rootNode

theorem SameTree.node (same : SameTree s s') {id : Nat} {node' : VfsNode ω π}
    (live : s'.nodes id = some node') :
    ∃ node, s.nodes id = some node ∧ node.shape = node'.shape := by
  have shape := same.shape id
  rw [live] at shape
  exact Option.map_eq_some_iff.mp shape.symm

theorem SameTree.symm (same : SameTree s s') : SameTree s' s :=
  ⟨fun id => (same.shape id).symm, same.nextNode.symm, same.rootNode.symm⟩

theorem VfsNode.shape_eq {node node' : VfsNode ω π} :
    node.shape = node'.shape ↔ node.name = node'.name ∧ node.type = node'.type ∧
      node.parent = node'.parent ∧ node.child = node'.child ∧
      node.sibling = node'.sibling := by
  simp [VfsNode.shape]

theorem SameTree.parentOf (same : SameTree s s') (id : Nat) :
    s'.parentOf id = s.parentOf id := by
  have shape := congrArg (Option.bind · fun part => part.2.2.1) (same.shape id)
  simpa [Vfs.parentOf, Option.bind_map, VfsNode.shape, Function.comp_def] using shape

theorem SameTree.siblingOf (same : SameTree s s') (id : Nat) :
    s'.siblingOf id = s.siblingOf id := by
  have shape := congrArg (Option.map fun part => part.2.2.2.2) (same.shape id)
  simpa [Vfs.siblingOf, Option.map_map, VfsNode.shape, Function.comp_def] using shape

theorem SameTree.kids (same : SameTree s s') (id : Nat) : s'.kids id = s.kids id := by
  simp [Vfs.kids, same.nextNode, same.parentOf]

/-- The invariant speaks of the nodes alone. -/
theorem TreeInv.of_same (inv : TreeInv s) (same : SameTree s s') : TreeInv s' where
  lt := by
    intro id node' live
    obtain ⟨node, live, -⟩ := same.node live
    rw [same.nextNode]
    exact inv.lt id node live
  parent := by
    intro id node' above live' above'
    obtain ⟨node, live, shape⟩ := same.node live'
    obtain ⟨-, -, parent, -⟩ := VfsNode.shape_eq.mp shape
    obtain ⟨lt, dir, dirLive, isDir⟩ :=
      inv.parent id node above live (parent.trans above')
    obtain ⟨dir', dirLive', shape⟩ := same.symm.node dirLive
    exact ⟨lt, dir', dirLive', (VfsNode.shape_eq.mp shape).2.1.trans isDir⟩
  list := by
    intro id node' live'
    obtain ⟨node, live, shape⟩ := same.node live'
    rw [same.kids, ← (VfsNode.shape_eq.mp shape).2.2.2.1]
    exact (inv.list id node live).congr fun other _ => same.siblingOf other
  valid := by
    intro id node' above live' above'
    obtain ⟨node, live, shape⟩ := same.node live'
    obtain ⟨name, -, parent, -⟩ := VfsNode.shape_eq.mp shape
    rw [← name]
    exact inv.valid id node above live (parent.trans above')
  unique := by
    intro id id' node₁ node₂ above live₁ live₂ above₁ above₂ name
    obtain ⟨node, live, shape⟩ := same.node live₁
    obtain ⟨node', live', shape'⟩ := same.node live₂
    obtain ⟨name₁, -, parent₁, -⟩ := VfsNode.shape_eq.mp shape
    obtain ⟨name₂, -, parent₂, -⟩ := VfsNode.shape_eq.mp shape'
    exact inv.unique id id' node node' above live live' (parent₁.trans above₁)
      (parent₂.trans above₂) (by rw [name₁, name₂, name])
  root := by
    intro id isRoot
    rw [same.rootNode] at isRoot
    obtain ⟨node, live, isDir, top⟩ := inv.root id isRoot
    obtain ⟨node', live', shape⟩ := same.symm.node live
    obtain ⟨-, type, parent, -⟩ := VfsNode.shape_eq.mp shape
    exact ⟨node', live', type.trans isDir, parent.trans top⟩

/-! ## Allocation and creation -/

/-- A detached node, as `vfs_alloc_node` fills it in. -/
def freshNode (name : CStr) (type : VfsNodeType) (fops : Option (FileOps ω π))
    (priv : Option π) : VfsNode ω π :=
  { name := name, type := type, fops := fops, priv := priv, parent := none,
    child := none, sibling := none, mnt := none }

/-- The two states differ in the use of the heap only. -/
structure SameButHeap (s s' : Vfs ω π) : Prop where
  quiet : Quiet s s'
  fsTypes : s'.fsTypes = s.fsTypes
  nextFd : s'.nextFd = s.nextFd
  world : s'.world = s.world

theorem SameButHeap.refl (s : Vfs ω π) : SameButHeap s s :=
  ⟨⟨⟨0, rfl⟩, rfl, rfl, rfl, rfl, rfl, rfl, rfl⟩, rfl, rfl, rfl⟩

theorem SameButHeap.malloc (s : Vfs ω π) : SameButHeap s s.malloc.1 :=
  ⟨⟨⟨1, rfl⟩, rfl, rfl, rfl, rfl, rfl, rfl, rfl⟩, rfl, rfl, rfl⟩

/-- Steps that leave the nodes alone compose. -/
theorem Quiet.trans {s'' : Vfs ω π} (first : Quiet s s') (second : Quiet s' s'') :
    Quiet s s'' where
  mem := by
    obtain ⟨calls, mem⟩ := first.mem
    obtain ⟨calls', mem'⟩ := second.mem
    exact ⟨calls' + calls, by simp [mem', mem, Nat.add_assoc]⟩
  nodes := second.nodes.trans first.nodes
  mounts := second.mounts.trans first.mounts
  nextNode := second.nextNode.trans first.nextNode
  nextMount := second.nextMount.trans first.nextMount
  rootNode := second.rootNode.trans first.rootNode
  fileHead := second.fileHead.trans first.fileHead
  ready := second.ready.trans first.ready

theorem SameButHeap.trans {s'' : Vfs ω π} (first : SameButHeap s s')
    (second : SameButHeap s' s'') : SameButHeap s s'' where
  quiet := first.quiet.trans second.quiet
  fsTypes := second.fsTypes.trans first.fsTypes
  nextFd := second.nextFd.trans first.nextFd
  world := second.world.trans first.world

theorem Quiet.sameTree (quiet : Quiet s s') : SameTree s s' where
  shape := fun id => by rw [quiet.nodes]
  nextNode := quiet.nextNode
  rootNode := quiet.rootNode

/-- One node has been allocated, and the nodes are as given. -/
structure Grown (s s' : Vfs ω π) (nodes : Nat → Option (VfsNode ω π)) : Prop where
  nodes : s'.nodes = nodes
  mem : ∃ calls, s'.mem = fun call => s.mem (call + calls)
  world : s'.world = s.world
  nextNode : s'.nextNode = s.nextNode + 1
  mounts : s'.mounts = s.mounts
  nextMount : s'.nextMount = s.nextMount
  rootNode : s'.rootNode = s.rootNode
  fileHead : s'.fileHead = s.fileHead
  ready : s'.ready = s.ready

/-- Either memory runs out and nothing changes, or there is a new node without links. -/
theorem vfsAllocNode_cases (s : Vfs ω π) (name : CStr) (type : VfsNodeType)
    (fops : Option (FileOps ω π)) (priv : Option π) :
    (∃ s', vfsAllocNode s name type fops priv = (s', none) ∧ SameButHeap s s') ∨
      ∃ s', vfsAllocNode s name type fops priv = (s', some s.nextNode) ∧
        Grown s s' (Function.update s.nodes s.nextNode
          (some (freshNode name type fops priv))) := by
  cases item : s.mem 0 with
  | false =>
      left
      exact ⟨s.malloc.1, by simp [vfsAllocNode, Vfs.malloc, item],
        SameButHeap.malloc s⟩
  | true =>
      cases copy : s.mem 1 with
      | false =>
          left
          exact ⟨s.malloc.1.malloc.1, by simp [vfsAllocNode, Vfs.malloc, item, copy],
            (SameButHeap.malloc s).trans (SameButHeap.malloc _)⟩
      | true =>
          right
          refine ⟨_, by simp [vfsAllocNode, Vfs.malloc, item, copy]; rfl, ?_⟩
          exact ⟨rfl, ⟨2, rfl⟩, rfl, rfl, rfl, rfl, rfl, rfl, rfl⟩

/-- With room on the heap, allocation succeeds. -/
theorem vfsAllocNode_roomy (roomy : s.Roomy) (name : CStr) (type : VfsNodeType)
    (fops : Option (FileOps ω π)) (priv : Option π) :
    ∃ s', vfsAllocNode s name type fops priv = (s', some s.nextNode) ∧
      Grown s s' (Function.update s.nodes s.nextNode
        (some (freshNode name type fops priv))) := by
  rcases vfsAllocNode_cases s name type fops priv with ⟨s', failed, -⟩ | success
  · simp [vfsAllocNode, Vfs.malloc, roomy 0, roomy 1] at failed
  · exact success

/-- The nodes once a child has been put at the head of a directory's list. -/
def withChild (s : Vfs ω π) (parent : Nat) (dir node : VfsNode ω π) :
    Nat → Option (VfsNode ω π) :=
  Function.update
    (Function.update s.nodes s.nextNode
      (some { node with parent := some parent, sibling := dir.child }))
    parent (some { dir with child := some s.nextNode })

/-- `vfs_create_node` creates a child of a directory that has no child of that
name, or changes nothing. -/
theorem TreeInv.vfsCreateNode (inv : TreeInv s) {parent : Option Nat} (live : s.Live parent)
    (name : CStr) (type : VfsNodeType) (fops : Option (FileOps ω π)) (priv : Option π) :
    (∃ s', vfsCreateNode s parent name type fops priv = some (s', none) ∧
        SameButHeap s s') ∨
      ∃ s' above dir, parent = some above ∧
        vfsCreateNode s parent name type fops priv = some (s', some s.nextNode) ∧
        s.nodes above = some dir ∧ dir.type = .dir ∧ vfsNameValid name = true ∧
        (∀ id node, s.nodes id = some node → node.parent = some above →
          node.name ≠ name) ∧
        Grown s s' (withChild s above dir (freshNode name type fops priv)) := by
  have unchanged := SameButHeap.refl s
  unfold Zsbl.Common.vfsCreateNode
  by_cases ready : (!s.ready || s.rootNode.isNone) = true
  · exact Or.inl ⟨s, by simp [ready], unchanged⟩
  cases parent with
  | none => exact Or.inl ⟨s, by simp [ready], unchanged⟩
  | some above =>
      obtain ⟨dir, dirLive⟩ := Option.isSome_iff_exists.mp (live above rfl)
      by_cases valid : vfsNameValid name = true
      · by_cases isDir : dir.type = .dir
        · rcases inv.findChild (live above rfl) name with
            ⟨absent, unique⟩ | ⟨id, node, found, -, -, -⟩
          · by_cases hasOps : ¬type = .dir ∧ fops = none
            · exact Or.inl ⟨s, by simp [ready, valid, dirLive, absent, hasOps],
                unchanged⟩
            · rcases vfsAllocNode_cases s name type fops priv with
                ⟨s₁, failed, same⟩ | ⟨s₁, allocated, grown⟩
              · left
                exact ⟨s₁, by simp [ready, valid, dirLive, isDir, absent, hasOps, failed],
                  same⟩
              · right
                have ne : above ≠ s.nextNode := Nat.ne_of_lt (inv.lt above dir dirLive)
                have dirLive₁ : s₁.nodes above = some dir := by
                  rw [grown.nodes, Function.update_of_ne ne, dirLive]
                have nodeLive₁ : s₁.nodes s.nextNode =
                    some (freshNode name type fops priv) := by
                  rw [grown.nodes, Function.update_self]
                refine ⟨{ s₁ with
                    nodes := withChild s above dir (freshNode name type fops priv) },
                  above, dir, rfl, ?_, dirLive, isDir, valid, unique, ?_⟩
                · simp [ready, valid, dirLive, isDir, absent, hasOps, allocated,
                    dirLive₁, nodeLive₁, Vfs.setNode, withChild, grown.nodes]
                · exact { grown with nodes := rfl }
          · exact Or.inl ⟨s, by simp [ready, valid, dirLive, found], unchanged⟩
        · exact Or.inl ⟨s, by simp [ready, valid, dirLive, isDir], unchanged⟩
      · exact Or.inl ⟨s, by simp [ready, valid], unchanged⟩

/-- A directory's list when one node has been allocated: the new node comes
first. -/
theorem Vfs.kids_grown (nextNode : s'.nextNode = s.nextNode + 1)
    (same : ∀ id < s.nextNode, s'.parentOf id = s.parentOf id) (parent : Nat) :
    s'.kids parent = if s'.parentOf s.nextNode = some parent
      then s.nextNode :: s.kids parent else s.kids parent := by
  have old : (List.range s.nextNode).reverse.filter (fun id => s'.parentOf id = some parent) =
      s.kids parent := by
    apply List.filter_congr
    intro id member
    rw [same id (by simpa using member)]
  unfold Vfs.kids at old ⊢
  rw [nextNode, List.range_succ, List.reverse_append, List.reverse_singleton,
    List.singleton_append, List.filter_cons, old]
  simp

theorem TreeInv.kids_fresh (inv : TreeInv s) : s.kids s.nextNode = [] := by
  rw [List.eq_nil_iff_forall_not_mem]
  intro id member
  obtain ⟨node, live, above⟩ := inv.mem_kids.mp member
  have lt := (inv.parent id node _ live above).1
  have lt' := inv.lt id node live
  omega

theorem TreeInv.fresh (inv : TreeInv s) : s.nodes s.nextNode = none := by
  cases live : s.nodes s.nextNode with
  | none => rfl
  | some node => exact absurd (inv.lt _ node live) (Nat.lt_irrefl _)

/-- A detached node leaves the tree well-formed. -/
theorem TreeInv.alloc (inv : TreeInv s) {name : CStr} {type : VfsNodeType}
    {fops : Option (FileOps ω π)} {priv : Option π}
    (grown : Grown s s' (Function.update s.nodes s.nextNode
      (some (freshNode name type fops priv)))) : TreeInv s' := by
  have old : ∀ id, id ≠ s.nextNode → s'.nodes id = s.nodes id := by
    intro id ne
    rw [grown.nodes, Function.update_of_ne ne]
  have new : s'.nodes s.nextNode = some (freshNode name type fops priv) := by
    rw [grown.nodes, Function.update_self]
  have newest : s'.parentOf s.nextNode = none := by simp [Vfs.parentOf, new, freshNode]
  have kids : ∀ id, s'.kids id = s.kids id := by
    intro id
    rw [Vfs.kids_grown grown.nextNode ?_ id, newest]
    · simp
    · intro other lt
      rw [Vfs.parentOf, Vfs.parentOf, old other (Nat.ne_of_lt lt)]
  -- a node with a parent is an old one
  have cases' : ∀ id node above, s'.nodes id = some node → node.parent = some above →
      s.nodes id = some node := by
    intro id node above live parent
    by_cases eq : id = s.nextNode
    · subst eq
      obtain rfl := Option.some.inj (new.symm.trans live)
      simp [freshNode] at parent
    · exact (old id eq).symm.trans live
  constructor
  · intro id node live
    rw [grown.nextNode]
    by_cases eq : id = s.nextNode
    · omega
    · exact Nat.lt_succ_of_lt (inv.lt id node ((old id eq).symm.trans live))
  · intro id node above live parent
    obtain ⟨lt, dir, dirLive, isDir⟩ :=
      inv.parent id node above (cases' id node above live parent) parent
    refine ⟨lt, dir, ?_, isDir⟩
    rw [old above (Nat.ne_of_lt (inv.lt above dir dirLive)), dirLive]
  · intro id node live
    rw [kids id]
    by_cases eq : id = s.nextNode
    · subst eq
      obtain rfl := Option.some.inj (new.symm.trans live)
      rw [inv.kids_fresh]
      exact .nil
    · refine (inv.list id node ((old id eq).symm.trans live)).congr ?_
      intro other member
      rw [Vfs.siblingOf, Vfs.siblingOf,
        old other (Nat.ne_of_lt (Vfs.mem_kids.mp member).1)]
  · intro id node above live parent
    exact inv.valid id node above (cases' id node above live parent) parent
  · intro id id' node node' above live live' parent parent' name
    exact inv.unique id id' node node' above (cases' id node above live parent)
      (cases' id' node' above live' parent') parent parent' name
  · intro id isRoot
    rw [grown.rootNode] at isRoot
    obtain ⟨node, live, top⟩ := inv.root id isRoot
    exact ⟨node, by rw [old id (Nat.ne_of_lt (inv.lt id node live)), live], top⟩

/-! ### A new child -/

section WithChild

variable {above : Nat} {dir node : VfsNode ω π}

theorem withChild_new (ne : s.nextNode ≠ above) :
    withChild s above dir node s.nextNode =
      some { node with parent := some above, sibling := dir.child } := by
  rw [withChild, Function.update_of_ne ne, Function.update_self]

theorem withChild_above : withChild s above dir node above =
    some { dir with child := some s.nextNode } := by
  rw [withChild, Function.update_self]

theorem withChild_of_ne {id : Nat} (ne : id ≠ s.nextNode) (ne' : id ≠ above) :
    withChild s above dir node id = s.nodes id := by
  rw [withChild, Function.update_of_ne ne', Function.update_of_ne ne]

/-- An old node differs in its first child at most. -/
theorem withChild_old (node : VfsNode ω π) (dirLive : s.nodes above = some dir) {id : Nat}
    (ne : id ≠ s.nextNode) :
    ∃ child : Option (Option Nat), withChild s above dir node id =
        (s.nodes id).map fun node => { node with child := child.getD node.child } := by
  by_cases eq : id = above
  · subst eq
    refine ⟨some (some s.nextNode), ?_⟩
    rw [withChild_above, dirLive]
    rfl
  · refine ⟨none, ?_⟩
    rw [withChild_of_ne ne eq]
    cases s.nodes id <;> rfl

/-- The new child comes first on the list of its directory. -/
theorem TreeInv.kids_withChild (inv : TreeInv s) (dirLive : s.nodes above = some dir)
    (grown : Grown s s' (withChild s above dir node)) (id : Nat) :
    s'.kids id = if id = above then s.nextNode :: s.kids id else s.kids id := by
  have new : s'.nodes s.nextNode =
      some { node with parent := some above, sibling := dir.child } := by
    rw [grown.nodes, withChild_new (Nat.ne_of_gt (inv.lt above dir dirLive))]
  rw [Vfs.kids_grown grown.nextNode ?_ id]
  · simp [Vfs.parentOf, new, eq_comm]
  · intro other lt
    obtain ⟨child, same⟩ := withChild_old node dirLive (Nat.ne_of_lt lt)
    rw [Vfs.parentOf, Vfs.parentOf, grown.nodes, same]
    cases s.nodes other <;> rfl

/-- A new node is linked in front of the children of its directory. -/
theorem TreeInv.create (inv : TreeInv s) (dirLive : s.nodes above = some dir)
    (isDir : dir.type = .dir) (validName : vfsNameValid node.name = true)
    (childless : node.child = none)
    (absent : ∀ id other, s.nodes id = some other → other.parent = some above →
      other.name ≠ node.name)
    (grown : Grown s s' (withChild s above dir node)) : TreeInv s' := by
  have lt := inv.lt above dir dirLive
  have new : s'.nodes s.nextNode =
      some { node with parent := some above, sibling := dir.child } := by
    rw [grown.nodes, withChild_new (Nat.ne_of_gt lt)]
  have old : ∀ id node', id ≠ s.nextNode → s'.nodes id = some node' →
      ∃ node child, s.nodes id = some node ∧ node' = { node with child := child } := by
    intro id node' ne live
    obtain ⟨child, same⟩ := withChild_old node dirLive ne
    rw [grown.nodes, same] at live
    obtain ⟨before, wasLive, rfl⟩ := Option.map_eq_some_iff.mp live
    exact ⟨before, _, wasLive, rfl⟩
  have kept : ∀ id node, s.nodes id = some node →
      ∃ child, s'.nodes id = some { node with child := child } := by
    intro id node' live
    obtain ⟨child, same⟩ := withChild_old node dirLive
      (Nat.ne_of_lt (inv.lt id node' live))
    exact ⟨_, by rw [grown.nodes, same, live]; rfl⟩
  have sibling : ∀ id < s.nextNode, s'.siblingOf id = s.siblingOf id := by
    intro id lt
    obtain ⟨child, same⟩ := withChild_old node dirLive (Nat.ne_of_lt lt)
    rw [Vfs.siblingOf, Vfs.siblingOf, grown.nodes, same]
    cases s.nodes id <;> rfl
  have isNew : ∀ {node' : VfsNode ω π}, s'.nodes s.nextNode = some node' →
      node' = { node with parent := some above, sibling := dir.child } := fun live =>
    (Option.some.inj (new.symm.trans live)).symm
  constructor
  · intro id node' live
    rw [grown.nextNode]
    by_cases eq : id = s.nextNode
    · omega
    · obtain ⟨before, -, wasLive, -⟩ := old id node' eq live
      exact Nat.lt_succ_of_lt (inv.lt id before wasLive)
  · intro id node' above' live parent
    by_cases eq : id = s.nextNode
    · subst eq
      obtain rfl := isNew live
      obtain rfl := Option.some.inj parent
      obtain ⟨child, dirLive'⟩ := kept above dir dirLive
      exact ⟨lt, _, dirLive', isDir⟩
    · obtain ⟨before, child, wasLive, rfl⟩ := old id node' eq live
      obtain ⟨lt, dir', dirLive', isDir'⟩ :=
        inv.parent id before above' wasLive parent
      obtain ⟨child, dirLive''⟩ := kept above' dir' dirLive'
      exact ⟨lt, _, dirLive'', isDir'⟩
  · intro id node' live
    have list : ∀ id child, Chain s.siblingOf child (s.kids id) →
        Chain s'.siblingOf child (s.kids id) := fun id child chain =>
      chain.congr fun other member => sibling other (Vfs.mem_kids.mp member).1
    rw [inv.kids_withChild dirLive grown id]
    by_cases eq : id = s.nextNode
    · subst eq
      obtain rfl := isNew live
      rw [if_neg (Nat.ne_of_gt lt), inv.kids_fresh]
      simp only [childless]
      exact .nil
    · by_cases eq' : id = above
      · subst eq'
        rw [grown.nodes, withChild_above] at live
        obtain rfl := Option.some.inj live
        rw [if_pos rfl]
        refine .cons ?_ (list id dir.child (inv.list id dir dirLive))
        simp [Vfs.siblingOf, new]
      · rw [grown.nodes, withChild_of_ne eq eq'] at live
        rw [if_neg eq']
        exact list id node'.child (inv.list id node' live)
  · intro id node' above' live parent
    by_cases eq : id = s.nextNode
    · subst eq
      obtain rfl := isNew live
      exact validName
    · obtain ⟨before, child, wasLive, rfl⟩ := old id node' eq live
      exact inv.valid id before above' wasLive parent
  · intro id id' node₁ node₂ above' live₁ live₂ parent₁ parent₂ name
    by_cases eq₁ : id = s.nextNode <;> by_cases eq₂ : id' = s.nextNode
    · rw [eq₁, eq₂]
    · subst eq₁
      obtain rfl := isNew live₁
      obtain ⟨before, child, wasLive, rfl⟩ := old id' node₂ eq₂ live₂
      obtain rfl := Option.some.inj parent₁
      exact absurd name.symm (absent id' before wasLive parent₂)
    · subst eq₂
      obtain rfl := isNew live₂
      obtain ⟨before, child, wasLive, rfl⟩ := old id node₁ eq₁ live₁
      obtain rfl := Option.some.inj parent₂
      exact absurd name (absent id before wasLive parent₁)
    · obtain ⟨before₁, child₁, wasLive₁, rfl⟩ := old id node₁ eq₁ live₁
      obtain ⟨before₂, child₂, wasLive₂, rfl⟩ := old id' node₂ eq₂ live₂
      exact inv.unique id id' before₁ before₂ above' wasLive₁ wasLive₂ parent₁
        parent₂ name
  · intro id isRoot
    rw [grown.rootNode] at isRoot
    obtain ⟨node, live, isDir, top⟩ := inv.root id isRoot
    obtain ⟨child, live'⟩ := kept id node live
    exact ⟨_, live', isDir, top⟩

end WithChild

/-! ## Growth -/

/-- Nodes have been added, none of them a mountpoint, and nothing else of the
tree and the mounts has changed. -/
structure Extends (s s' : Vfs ω π) : Prop where
  node : ∀ id node, s.nodes id = some node → ∃ node', s'.nodes id = some node' ∧
    node'.name = node.name ∧ node'.type = node.type ∧
    node'.parent = node.parent ∧ node'.mnt = node.mnt
  new : ∀ id node', s'.nodes id = some node' →
    (s.nodes id).isSome ∨ s.nextNode ≤ id ∧ node'.mnt = none
  nextNode : s.nextNode ≤ s'.nextNode
  mounts : s'.mounts = s.mounts
  nextMount : s'.nextMount = s.nextMount
  rootNode : s'.rootNode = s.rootNode
  fileHead : s'.fileHead = s.fileHead
  ready : s'.ready = s.ready

/-- A step that leaves the nodes alone extends the tree by nothing. -/
theorem Quiet.extends (quiet : Quiet s s') : Extends s s' where
  node := fun id node live => ⟨node, by rw [quiet.nodes, live], rfl, rfl, rfl, rfl⟩
  new := by
    intro id node live
    rw [quiet.nodes] at live
    exact Or.inl (by simp [live])
  nextNode := Nat.le_of_eq quiet.nextNode.symm
  mounts := quiet.mounts
  nextMount := quiet.nextMount
  rootNode := quiet.rootNode
  fileHead := quiet.fileHead
  ready := quiet.ready

/-- Extensions compose. -/
theorem Extends.trans {s'' : Vfs ω π} (first : Extends s s') (second : Extends s' s'') :
    Extends s s'' where
  node := by
    intro id node live
    obtain ⟨node', live', name', type', parent', mnt'⟩ := first.node id node live
    obtain ⟨node'', live'', name'', type'', parent'', mnt''⟩ :=
      second.node id node' live'
    exact ⟨node'', live'', name''.trans name', type''.trans type',
      parent''.trans parent', mnt''.trans mnt'⟩
  new := by
    intro id node'' live''
    rcases second.new id node'' live'' with old | ⟨le, unmounted⟩
    · obtain ⟨node', live'⟩ := Option.isSome_iff_exists.mp old
      obtain ⟨other, same, -, -, -, mnt⟩ := second.node id node' live'
      obtain rfl := Option.some.inj (live''.symm.trans same)
      rcases first.new id node' live' with old | ⟨le, unmounted⟩
      · exact Or.inl old
      · exact Or.inr ⟨le, mnt.trans unmounted⟩
    · exact Or.inr ⟨first.nextNode.trans le, unmounted⟩
  nextNode := first.nextNode.trans second.nextNode
  mounts := second.mounts.trans first.mounts
  nextMount := second.nextMount.trans first.nextMount
  rootNode := second.rootNode.trans first.rootNode
  fileHead := second.fileHead.trans first.fileHead
  ready := second.ready.trans first.ready

/-- A new node extends the tree before it is linked. -/
theorem TreeInv.extends_alloc (inv : TreeInv s) {name : CStr} {type : VfsNodeType}
    {fops : Option (FileOps ω π)} {priv : Option π}
    (grown : Grown s s' (Function.update s.nodes s.nextNode
      (some (freshNode name type fops priv)))) : Extends s s' where
  node := by
    intro id node live
    have ne := Nat.ne_of_lt (inv.lt id node live)
    exact ⟨node, by rw [grown.nodes, Function.update_of_ne ne, live], rfl, rfl, rfl, rfl⟩
  new := by
    intro id node live
    rw [grown.nodes] at live
    by_cases eq : id = s.nextNode
    · subst eq
      rw [Function.update_self] at live
      obtain rfl := Option.some.inj live
      exact Or.inr ⟨Nat.le_refl _, rfl⟩
    · rw [Function.update_of_ne eq] at live
      exact Or.inl (by simp [live])
  nextNode := by rw [grown.nextNode]; omega
  mounts := grown.mounts
  nextMount := grown.nextMount
  rootNode := grown.rootNode
  fileHead := grown.fileHead
  ready := grown.ready

/-- Linking a new node under a directory extends the tree. -/
theorem TreeInv.extends_create (inv : TreeInv s) {above : Nat} {dir node : VfsNode ω π}
    (dirLive : s.nodes above = some dir) (unmounted : node.mnt = none)
    (grown : Grown s s' (withChild s above dir node)) : Extends s s' where
  node := by
    intro id before live
    obtain ⟨child, same⟩ := withChild_old node dirLive
      (Nat.ne_of_lt (inv.lt id before live))
    rw [← grown.nodes, live] at same
    exact ⟨_, same, rfl, rfl, rfl, rfl⟩
  new := by
    intro id before live
    by_cases eq : id = s.nextNode
    · subst eq
      rw [grown.nodes, withChild_new (Nat.ne_of_gt (inv.lt above dir dirLive))] at live
      obtain rfl := Option.some.inj live
      exact Or.inr ⟨Nat.le_refl _, unmounted⟩
    · obtain ⟨child, same⟩ := withChild_old node dirLive eq
      rw [grown.nodes, same] at live
      obtain ⟨old, wasLive, -⟩ := Option.map_eq_some_iff.mp live
      exact Or.inl (by simp [wasLive])
  nextNode := by rw [grown.nextNode]; omega
  mounts := grown.mounts
  nextMount := grown.nextMount
  rootNode := grown.rootNode
  fileHead := grown.fileHead
  ready := grown.ready

/-- With room on the heap, `vfs_create_node` creates a child of a new name. -/
theorem TreeInv.vfsCreateNode_roomy (inv : TreeInv s) (roomy : s.Roomy)
    (ready : s.ready = true) (root : s.rootNode.isSome) {above : Nat}
    {dir : VfsNode ω π} (dirLive : s.nodes above = some dir) (isDir : dir.type = .dir)
    {name : CStr} (valid : vfsNameValid name = true)
    (absent : vfsFindChildByName s above name = some none) {type : VfsNodeType}
    {fops : Option (FileOps ω π)} (hasOps : type = .dir ∨ fops.isSome)
    (priv : Option π) :
    ∃ s', Zsbl.Common.vfsCreateNode s (some above) name type fops priv =
        some (s', some s.nextNode) ∧
      Grown s s' (withChild s above dir (freshNode name type fops priv)) := by
  have live : s.Live (some above) := by
    intro id same
    obtain rfl := Option.some.inj same
    simp [dirLive]
  rcases inv.vfsCreateNode live name type fops priv with
    ⟨s₁, failed, -⟩ | ⟨s₁, above', dir', same, done, dirLive', -, -, -, grown⟩
  · obtain ⟨s₁, allocated, grown⟩ := vfsAllocNode_roomy roomy name type fops priv
    have ne : above ≠ s.nextNode := Nat.ne_of_lt (inv.lt above dir dirLive)
    have dirLive₁ : s₁.nodes above = some dir := by
      rw [grown.nodes, Function.update_of_ne ne, dirLive]
    have nodeLive₁ : s₁.nodes s.nextNode = some (freshNode name type fops priv) := by
      rw [grown.nodes, Function.update_self]
    have hasOps' : ¬(¬type = .dir ∧ fops = none) := by
      rintro ⟨notDir, noOps⟩
      rcases hasOps with isDir | hasOps
      · exact notDir isDir
      · simp [noOps] at hasOps
    have present := Option.isSome_iff_ne_none.mp root
    simp [Zsbl.Common.vfsCreateNode, ready, present, valid, dirLive, isDir, absent,
      hasOps', allocated, dirLive₁, nodeLive₁] at failed
  · obtain rfl := Option.some.inj same
    obtain rfl := Option.some.inj (dirLive.symm.trans dirLive')
    exact ⟨s₁, done, grown⟩

/-- `vfs_create_node` keeps the tree well-formed. -/
theorem TreeInv.vfsCreateNode_extends (inv : TreeInv s) {parent created : Option Nat}
    {name : CStr} {type : VfsNodeType} {fops : Option (FileOps ω π)} {priv : Option π}
    (live : s.Live parent)
    (done : Zsbl.Common.vfsCreateNode s parent name type fops priv = some (s', created)) :
    TreeInv s' ∧ Extends s s' := by
  rcases inv.vfsCreateNode live name type fops priv with
    ⟨s₁, result, same⟩ | ⟨s₁, above, dir, -, result, dirLive, isDir, valid, absent, grown⟩
  · obtain ⟨rfl, -⟩ := Prod.mk.inj (Option.some.inj (done.symm.trans result))
    exact ⟨inv.of_same same.quiet.sameTree, same.quiet.extends⟩
  · obtain ⟨rfl, -⟩ := Prod.mk.inj (Option.some.inj (done.symm.trans result))
    exact ⟨inv.create dirLive isDir valid rfl absent grown,
      inv.extends_create dirLive rfl grown⟩

/-- The node that `vfs_create_node` returns. -/
theorem TreeInv.vfsCreateNode_created (inv : TreeInv s) {parent : Option Nat} {id : Nat}
    {name : CStr} {type : VfsNodeType} {fops : Option (FileOps ω π)} {priv : Option π}
    (live : s.Live parent)
    (done : Zsbl.Common.vfsCreateNode s parent name type fops priv =
      some (s', some id)) :
    ∃ node, s'.nodes id = some node ∧ node.parent = parent ∧ node.name = name ∧
      node.type = type ∧ node.fops = fops ∧ node.priv = priv := by
  rcases inv.vfsCreateNode live name type fops priv with
    ⟨s₁, result, -⟩ | ⟨s₁, above, dir, rfl, result, dirLive, -, -, -, grown⟩
  · simp [result] at done
  · obtain ⟨rfl, same⟩ := Prod.mk.inj (Option.some.inj (done.symm.trans result))
    obtain rfl := Option.some.inj same
    refine ⟨{ freshNode name type fops priv with
      parent := some above, sibling := dir.child }, ?_, rfl, rfl, rfl, rfl, rfl⟩
    rw [grown.nodes, withChild_new (Nat.ne_of_gt (inv.lt above dir dirLive))]

/-- Allocating a directory keeps the invariant and extends the tree. -/
theorem TreeInv.vfsAllocDirNode_extends (inv : TreeInv s) (name : CStr) :
    TreeInv (vfsAllocDirNode s name).1 ∧ Extends s (vfsAllocDirNode s name).1 := by
  unfold vfsAllocDirNode
  split
  · exact ⟨inv, (SameButHeap.refl s).quiet.extends⟩
  · rcases vfsAllocNode_cases s name .dir none none with
      ⟨s₁, result, same⟩ | ⟨s₁, result, grown⟩
    · rw [result]
      exact ⟨inv.of_same same.quiet.sameTree, same.quiet.extends⟩
    · rw [result]
      exact ⟨inv.alloc grown, inv.extends_alloc grown⟩

/-- Storing into a field that is neither part of the tree nor `mnt`. -/
theorem TreeInv.setNode_extends (inv : TreeInv s) {id : Nat} {node node' : VfsNode ω π}
    (live : s.nodes id = some node) (shape : node'.shape = node.shape)
    (mnt : node'.mnt = node.mnt) :
    TreeInv (s.setNode id node') ∧ Extends s (s.setNode id node') := by
  obtain ⟨name, type, parent, -⟩ := VfsNode.shape_eq.mp shape
  constructor
  · refine inv.of_same ⟨fun other => ?_, rfl, rfl⟩
    by_cases eq : other = id
    · subst eq
      simp [live, shape]
    · simp [Function.update_of_ne eq]
  · refine ⟨fun other before live' => ?_, fun other before live' => ?_, Nat.le_refl _,
      rfl, rfl, rfl, rfl, rfl⟩
    · by_cases eq : other = id
      · subst eq
        obtain rfl := Option.some.inj (live.symm.trans live')
        exact ⟨node', by simp, name, type, parent, mnt⟩
      · exact ⟨before, by simp [Function.update_of_ne eq, live'],
          rfl, rfl, rfl, rfl⟩
    · by_cases eq : other = id
      · subst eq
        exact Or.inl (by simp [live])
      · rw [Vfs.setNode_nodes, Function.update_of_ne eq] at live'
        exact Or.inl (by simp [live'])

/-- Each step of a build keeps the invariant and extends the tree. -/
theorem BuildStep.tree (step : BuildStep s s') (inv : TreeInv s) :
    TreeInv s' ∧ Extends s s' := by
  cases step with
  | malloc =>
      have quiet := (SameButHeap.malloc s).quiet
      exact ⟨inv.of_same quiet.sameTree, quiet.extends⟩
  | world world =>
      have quiet : Quiet s { s with world := world } :=
        ⟨⟨0, rfl⟩, rfl, rfl, rfl, rfl, rfl, rfl, rfl⟩
      exact ⟨inv.of_same quiet.sameTree, quiet.extends⟩
  | allocDir name => exact inv.vfsAllocDirNode_extends name
  | create live done => exact inv.vfsCreateNode_extends live done
  | setPriv priv live => exact inv.setNode_extends live rfl rfl

/-- What callbacks build keeps the tree well-formed and what was there. -/
theorem Builds.tree (builds : Builds s s') (inv : TreeInv s) :
    TreeInv s' ∧ Extends s s' := by
  induction builds with
  | refl => exact ⟨inv, (SameButHeap.refl s).quiet.extends⟩
  | tail _ step ih =>
      obtain ⟨inv', grown⟩ := ih
      obtain ⟨inv'', grown'⟩ := step.tree inv'
      exact ⟨inv'', grown.trans grown'⟩

end Zsbl.Common
