/-
Module: Zsbl.Proofs.VfsRemoval
Purpose: Removing nodes keeps the VFS tree well-formed: vfs_unlink takes a leaf
  off its parent's list, vfs_free_subtree frees exactly a node's descendants.
Trusted boundary: none
Main exports:
  TreeInv.vfsUnlink_leaf, TreeInv.vfsUnlink, Unlinked, TreeInv.vfsFreeSubtree, Freed, Freed.tree
-/
import Zsbl.Proofs.Vfs

namespace Zsbl.Common

open Zsbl.Lib

variable {ω π : Type} {s s' : Vfs ω π}

/-! ## Unlinking a leaf -/

/-- The walk over a sibling list stops at the node and knows the one before. -/
theorem findPrevFrom_eq {start prev : Option Nat} {before after : List Nat} {id : Nat}
    (list : Chain s.siblingOf start (before ++ id :: after)) (absent : id ∉ before)
    {fuel : Nat} (enough : before.length < fuel) :
    findPrevFrom s id fuel start prev = some (true, before.getLast?.or prev) := by
  induction before generalizing start prev fuel with
  | nil =>
      obtain ⟨fuel, rfl⟩ := Nat.exists_eq_succ_of_ne_zero (Nat.ne_of_gt enough)
      obtain rfl := list.start_eq
      simp [findPrevFrom]
  | cons first before ih =>
      obtain ⟨fuel, rfl⟩ := Nat.exists_eq_succ_of_ne_zero
        (Nat.ne_of_gt (Nat.lt_of_le_of_lt (Nat.zero_le _) enough))
      obtain ⟨ne, absent⟩ : first ≠ id ∧ id ∉ before := by
        simp only [List.mem_cons, not_or] at absent
        exact ⟨Ne.symm absent.1, absent.2⟩
      have shorter : before.length < fuel := by simpa using enough
      cases list with
      | cons allocated tail =>
          obtain ⟨node, live, rfl⟩ := Option.map_eq_some_iff.mp allocated
          have rest : findPrevFrom s id fuel node.sibling (some first) =
              some (true, before.getLast?.or (some first)) := ih tail absent shorter
          have last : (first :: before).getLast?.or prev =
              before.getLast?.or (some first) := by
            cases before <;> simp [List.getLast?_cons]
          simp [findPrevFrom, ne, live, rest, last]

variable {id : Nat}

/-- A leaf has been taken off the tree. -/
structure Unlinked (s s' : Vfs ω π) (id : Nat) : Prop where
  gone : s'.nodes id = none
  kept : ∀ other, other ≠ id → ∃ child sibling : Option (Option Nat),
    s'.nodes other = (s.nodes other).map fun node =>
      { node with
        child := child.getD node.child
        sibling := sibling.getD node.sibling }
  mounts : s'.mounts = s.mounts
  nextNode : s'.nextNode = s.nextNode
  nextMount : s'.nextMount = s.nextMount
  rootNode : s'.rootNode = s.rootNode
  fileHead : s'.fileHead = s.fileHead
  ready : s'.ready = s.ready

/-- What is left is as before but for its links to the node that is gone. -/
theorem Unlinked.node (unlinked : Unlinked s s' id) {other : Nat} {node' : VfsNode ω π}
    (live : s'.nodes other = some node') :
    other ≠ id ∧ ∃ node, s.nodes other = some node ∧ node'.name = node.name ∧
      node'.type = node.type ∧ node'.parent = node.parent ∧ node'.mnt = node.mnt := by
  have ne : other ≠ id := by
    rintro rfl
    rw [unlinked.gone] at live
    cases live
  obtain ⟨child, sibling, same⟩ := unlinked.kept other ne
  rw [same] at live
  obtain ⟨node, wasLive, rfl⟩ := Option.map_eq_some_iff.mp live
  exact ⟨ne, node, wasLive, rfl, rfl, rfl, rfl⟩

theorem Unlinked.survives (unlinked : Unlinked s s' id) {other : Nat} {node : VfsNode ω π}
    (live : s.nodes other = some node) (ne : other ≠ id) :
    ∃ node', s'.nodes other = some node' ∧ node'.name = node.name ∧
      node'.type = node.type ∧ node'.parent = node.parent ∧ node'.mnt = node.mnt := by
  obtain ⟨child, sibling, same⟩ := unlinked.kept other ne
  rw [live] at same
  exact ⟨_, same, rfl, rfl, rfl, rfl⟩

/-- The children of a directory lose the node that is unlinked. -/
theorem Unlinked.kids (unlinked : Unlinked s s' id) (parent : Nat) :
    s'.kids parent = (s.kids parent).filter (· ≠ id) := by
  unfold Vfs.kids
  rw [unlinked.nextNode, List.filter_filter]
  apply List.filter_congr
  intro other _
  by_cases eq : other = id
  · subst eq
    simp [Vfs.parentOf, unlinked.gone]
  · obtain ⟨child, sibling, same⟩ := unlinked.kept other eq
    have parentOf : s'.parentOf other = s.parentOf other := by
      rw [Vfs.parentOf, Vfs.parentOf, same]
      cases s.nodes other <;> rfl
    simp [parentOf, eq]

/-- The tree stays well-formed when the list of the leaf's directory is as it
should be, and the other lists are as they were. -/
theorem Unlinked.tree (unlinked : Unlinked s s' id) (inv : TreeInv s) {above : Nat}
    {leaf : VfsNode ω π} (live : s.nodes id = some leaf)
    (parent : leaf.parent = some above) (childless : leaf.child = none)
    (dirList : ∀ dir, s'.nodes above = some dir →
      Chain s'.siblingOf dir.child ((s.kids above).filter (· ≠ id)))
    (children : ∀ other node, other ≠ above → s'.nodes other = some node →
      ∃ before, s.nodes other = some before ∧ before.child = node.child)
    (siblings : ∀ other, s.parentOf other ≠ some above →
      s'.siblingOf other = s.siblingOf other) : TreeInv s' := by
  have noKids : s.kids id = [] :=
    (inv.list id leaf live).functional (childless ▸ .nil)
  constructor
  · intro other node live'
    obtain ⟨-, before, wasLive, -⟩ := unlinked.node live'
    rw [unlinked.nextNode]
    exact inv.lt other before wasLive
  · intro other node above' live' parent'
    obtain ⟨-, before, wasLive, -, -, same, -⟩ := unlinked.node live'
    have wasParent := same.symm.trans parent'
    obtain ⟨lt, dir, dirLive, isDir⟩ :=
      inv.parent other before above' wasLive wasParent
    have ne : above' ≠ id := by
      rintro rfl
      have member := inv.mem_kids.mpr ⟨before, wasLive, wasParent⟩
      simp [noKids] at member
    obtain ⟨dir', dirLive', -, type', -⟩ := unlinked.survives dirLive ne
    exact ⟨lt, dir', dirLive', type'.trans isDir⟩
  · intro other node live'
    rw [unlinked.kids]
    by_cases eq : other = above
    · subst eq
      exact dirList node live'
    · obtain ⟨before, wasLive, same⟩ := children other node eq live'
      have list := inv.list other before wasLive
      have elsewhere : ∀ kid ∈ s.kids other, s.parentOf kid ≠ some above := by
        intro kid member isAbove
        rw [(Vfs.mem_kids.mp member).2] at isAbove
        exact eq (Option.some.inj isAbove)
      have without : (s.kids other).filter (· ≠ id) = s.kids other := by
        apply List.filter_eq_self.mpr
        intro kid member
        have ne : kid ≠ id := by
          rintro rfl
          exact elsewhere kid member (Vfs.parentOf_eq_some.mpr ⟨leaf, live, parent⟩)
        simpa using ne
      rw [without, ← same]
      exact list.congr fun kid member => siblings kid (elsewhere kid member)
  · intro other node above' live' parent'
    obtain ⟨-, before, wasLive, name, -, same, -⟩ := unlinked.node live'
    rw [name]
    exact inv.valid other before above' wasLive (same.symm.trans parent')
  · intro other other' node node' above' live₁ live₂ parent₁ parent₂ name
    obtain ⟨-, before, wasLive, name₁, -, same₁, -⟩ := unlinked.node live₁
    obtain ⟨-, before', wasLive', name₂, -, same₂, -⟩ := unlinked.node live₂
    exact inv.unique other other' before before' above' wasLive wasLive'
      (same₁.symm.trans parent₁) (same₂.symm.trans parent₂)
      (name₁.symm.trans (name.trans name₂))
  · intro other isRoot
    rw [unlinked.rootNode] at isRoot
    obtain ⟨node, rootLive, isDir, top⟩ := inv.root other isRoot
    have ne : other ≠ id := by
      rintro rfl
      obtain rfl := Option.some.inj (live.symm.trans rootLive)
      rw [top] at parent
      cases parent
    obtain ⟨node', live', -, type', parent', -⟩ := unlinked.survives rootLive ne
    exact ⟨node', live', type'.trans isDir, parent'.trans top⟩

/-- Around a child, its directory's list splits. -/
theorem TreeInv.kids_split (inv : TreeInv s) {above : Nat} {node : VfsNode ω π}
    (live : s.nodes id = some node) (parent : node.parent = some above) :
    ∃ before after, s.kids above = before ++ id :: after ∧ id ∉ before ∧
      id ∉ after ∧ (s.kids above).filter (· ≠ id) = before ++ after := by
  obtain ⟨before, after, split⟩ :=
    List.append_of_mem (inv.mem_kids.mpr ⟨node, live, parent⟩)
  have nodup := s.kids_nodup above
  rw [split, List.nodup_append] at nodup
  obtain ⟨-, nodupAfter, disjoint⟩ := nodup
  have notBefore : id ∉ before := fun member =>
    disjoint id member id List.mem_cons_self rfl
  have notAfter : id ∉ after := (List.nodup_cons.mp nodupAfter).1
  refine ⟨before, after, split, notBefore, notAfter, ?_⟩
  have keep : ∀ part : List Nat, id ∉ part → part.filter (· ≠ id) = part := by
    intro part absent
    apply List.filter_eq_self.mpr
    intro other member
    have ne : other ≠ id := by
      rintro rfl
      exact absent member
    simpa using ne
  rw [split, List.filter_append, List.filter_cons, keep before notBefore,
    keep after notAfter]
  simp

section Unlink

variable {above : Nat} {leaf dir : VfsNode ω π} {after : List Nat}

/-- A leaf at the head of its directory's list goes when the directory takes
over its link. -/
theorem TreeInv.unlink_head (inv : TreeInv s) (live : s.nodes id = some leaf)
    (parent : leaf.parent = some above) (childless : leaf.child = none)
    (dirLive : s.nodes above = some dir) (split : s.kids above = id :: after)
    (absent : id ∉ after) (without : (s.kids above).filter (· ≠ id) = after)
    (result : s' = (s.setNode above { dir with child := leaf.sibling }).freeNode id) :
    Unlinked s s' id ∧ TreeInv s' := by
  have ne := Nat.ne_of_lt (inv.parent id leaf above live parent).1
  have nodes : ∀ other, other ≠ id → other ≠ above → s'.nodes other = s.nodes other := by
    intro other ne ne'
    simp [result, Function.update_of_ne ne, Function.update_of_ne ne']
  have dirNode : s'.nodes above = some { dir with child := leaf.sibling } := by
    simp [result, Function.update_of_ne ne]
  have siblings : ∀ other, other ≠ id → s'.siblingOf other = s.siblingOf other := by
    intro other ne'
    by_cases eq : other = above
    · subst eq
      simp [Vfs.siblingOf, dirNode, dirLive]
    · rw [Vfs.siblingOf, Vfs.siblingOf, nodes other ne' eq]
  have unlinked : Unlinked s s' id := by
    refine ⟨by simp [result], fun other ne' => ?_, ?_, ?_, ?_, ?_, ?_, ?_⟩
    · by_cases eq : other = above
      · subst eq
        exact ⟨some leaf.sibling, none, by rw [dirNode, dirLive]; rfl⟩
      · exact ⟨none, none, by rw [nodes other ne' eq]; cases s.nodes other <;> rfl⟩
    all_goals rw [result]; rfl
  refine ⟨unlinked, unlinked.tree inv live parent childless ?_ ?_ ?_⟩
  · intro dir' dirLive'
    obtain rfl := Option.some.inj (dirNode.symm.trans dirLive')
    have list := inv.list above dir dirLive
    rw [split] at list
    rw [without]
    refine list.unlink_first (by simp [Vfs.siblingOf, live]) fun kid member => ?_
    apply siblings
    rintro rfl
    exact absent member
  · intro other node ne' live'
    rw [nodes other (unlinked.node live').1 ne'] at live'
    exact ⟨node, live', rfl⟩
  · intro other elsewhere
    apply siblings
    rintro rfl
    exact elsewhere (Vfs.parentOf_eq_some.mpr ⟨leaf, live, parent⟩)

/-- A leaf behind a sibling goes when that sibling takes over its link. -/
theorem TreeInv.unlink_behind (inv : TreeInv s) {before : List Nat} {prev : Nat}
    {prevNode : VfsNode ω π} (live : s.nodes id = some leaf)
    (parent : leaf.parent = some above) (childless : leaf.child = none)
    (prevLive : s.nodes prev = some prevNode)
    (split : s.kids above = before ++ prev :: id :: after)
    (absent : id ∉ before ++ [prev]) (absent' : id ∉ after)
    (without : (s.kids above).filter (· ≠ id) = before ++ prev :: after)
    (result : s' =
      (s.setNode prev { prevNode with sibling := leaf.sibling }).freeNode id) :
    Unlinked s s' id ∧ TreeInv s' := by
  have nodup := s.kids_nodup above
  have prevKid : s.parentOf prev = some above :=
    (Vfs.mem_kids.mp (by rw [split]; simp : prev ∈ s.kids above)).2
  have ne : prev ≠ id := by
    rintro rfl
    simp at absent
  have nodes : ∀ other, other ≠ id → other ≠ prev → s'.nodes other = s.nodes other := by
    intro other ne ne'
    simp [result, Function.update_of_ne ne, Function.update_of_ne ne']
  have prevNode' : s'.nodes prev = some { prevNode with sibling := leaf.sibling } := by
    simp [result, Function.update_of_ne ne]
  have unlinked : Unlinked s s' id := by
    refine ⟨by simp [result], fun other ne' => ?_, ?_, ?_, ?_, ?_, ?_, ?_⟩
    · by_cases eq : other = prev
      · subst eq
        exact ⟨none, some leaf.sibling, by rw [prevNode', prevLive]; rfl⟩
      · exact ⟨none, none, by rw [nodes other ne' eq]; cases s.nodes other <;> rfl⟩
    all_goals rw [result]; rfl
  have children : ∀ other node, s'.nodes other = some node →
      ∃ before, s.nodes other = some before ∧ before.child = node.child := by
    intro other node live'
    by_cases eq : other = prev
    · subst eq
      obtain rfl := Option.some.inj (prevNode'.symm.trans live')
      exact ⟨prevNode, prevLive, rfl⟩
    · rw [nodes other (unlinked.node live').1 eq] at live'
      exact ⟨node, live', rfl⟩
  refine ⟨unlinked, unlinked.tree inv live parent childless ?_
    (fun other node _ => children other node) ?_⟩
  · intro dir' dirLive'
    obtain ⟨dir, dirLive, same⟩ := children above dir' dirLive'
    have list := inv.list above dir dirLive
    rw [split] at list nodup
    rw [without, ← same]
    have link : s.siblingOf id = some leaf.sibling := by simp [Vfs.siblingOf, live]
    have relinked : s'.siblingOf prev = some leaf.sibling := by
      simp [Vfs.siblingOf, prevNode']
    refine list.unlink_next link relinked fun kid member => ?_
    have neId : kid ≠ id := by
      rintro rfl
      rcases List.mem_append.mp member with member | member
      · exact absent (List.mem_append_left _ member)
      · exact absent' member
    have nePrev : kid ≠ prev := by
      rintro rfl
      rcases List.mem_append.mp member with member | member
      · exact (List.nodup_append.mp nodup).2.2 kid member kid List.mem_cons_self rfl
      · exact (List.nodup_cons.mp (List.nodup_append.mp nodup).2.1).1
          (List.mem_cons_of_mem _ member)
    rw [Vfs.siblingOf, Vfs.siblingOf, nodes kid neId nePrev]
  · intro other elsewhere
    have neId : other ≠ id := by
      rintro rfl
      exact elsewhere (Vfs.parentOf_eq_some.mpr ⟨leaf, live, parent⟩)
    have nePrev : other ≠ prev := by
      rintro rfl
      exact elsewhere prevKid
    rw [Vfs.siblingOf, Vfs.siblingOf, nodes other neId nePrev]

end Unlink

/-- `vfs_unlink` takes a childless node that is not open off its parent's
list. -/
theorem TreeInv.vfsUnlink_leaf (inv : TreeInv s) {above : Nat} {leaf : VfsNode ω π}
    (live : s.nodes id = some leaf) (parent : leaf.parent = some above)
    (childless : leaf.child = none) (unopened : ∀ item ∈ s.fileHead, item.file.node ≠ id) :
    ∃ nodes, vfsUnlink s (some above) leaf.name = some ({ s with nodes := nodes }, 0) ∧
      Unlinked s { s with nodes := nodes } id ∧ TreeInv { s with nodes := nodes } := by
  have valid := inv.valid id leaf above live parent
  obtain ⟨-, dir, dirLive, isDir⟩ := inv.parent id leaf above live parent
  have found := inv.findChild_self live parent
  have closed : ¬∃ item, item ∈ s.fileHead ∧ item.file.node = id :=
    fun ⟨item, member, same⟩ => unopened item member same
  obtain ⟨before, after, split, absent, absent', without⟩ := inv.kids_split live parent
  have list := inv.list above dir dirLive
  have short := s.kids_length_le above
  rw [split] at list short
  simp only [List.length_append, List.length_cons] at short
  have prev : findPrevFrom s id s.nextNode dir.child none =
      some (true, before.getLast?.or none) :=
    findPrevFrom_eq list absent (by omega)
  rcases List.eq_nil_or_concat before with rfl | ⟨init, last, rfl⟩
  · obtain ⟨unlinked, inv'⟩ := inv.unlink_head live parent childless dirLive split absent'
      without rfl
    refine ⟨_, ?_, unlinked, inv'⟩
    simp [vfsUnlink, valid, dirLive, isDir, found, live, childless, closed, parent, prev]
    rfl
  · have lastKid : last ∈ s.kids above := by rw [split]; simp
    obtain ⟨lastNode, lastLive, -⟩ := inv.mem_kids.mp lastKid
    have split' : s.kids above = init ++ last :: id :: after := by simpa using split
    obtain ⟨unlinked, inv'⟩ := inv.unlink_behind live parent childless lastLive split'
      (by simpa using absent) absent' (by simpa using without) rfl
    refine ⟨_, ?_, unlinked, inv'⟩
    simp [vfsUnlink, valid, dirLive, isDir, found, live, childless, closed, parent, prev,
      lastLive]
    rfl

/-- `vfs_unlink` takes a childless node that is not open off its parent's
list, or changes nothing. -/
theorem TreeInv.vfsUnlink (inv : TreeInv s) {parent : Option Nat} (live : s.Live parent)
    (name : CStr) :
    (∃ ret, vfsUnlink s parent name = some (s, ret) ∧ ret < 0) ∨
      ∃ s' above id leaf, parent = some above ∧
        vfsUnlink s parent name = some (s', 0) ∧
        vfsFindChildByName s above name = some (some id) ∧
        s.nodes id = some leaf ∧ leaf.parent = some above ∧ leaf.child = none ∧
        (∀ item ∈ s.fileHead, item.file.node ≠ id) ∧ Unlinked s s' id ∧
        TreeInv s' := by
  cases parent with
  | none => exact Or.inl ⟨-EINVAL, rfl, by decide⟩
  | some above =>
      obtain ⟨dir, dirLive⟩ := Option.isSome_iff_exists.mp (live above rfl)
      by_cases valid : vfsNameValid name = true
      · by_cases isDir : dir.type = .dir
        · rcases inv.findChild (live above rfl) name with
            ⟨none, -⟩ | ⟨id, leaf, found, leafLive, parent, rfl⟩
          · exact Or.inl ⟨-ENOENT, by
              simp [Zsbl.Common.vfsUnlink, valid, dirLive, isDir, none], by decide⟩
          · cases childless : leaf.child with
            | some child =>
                exact Or.inl ⟨-ENOTEMPTY, by
                  simp [Zsbl.Common.vfsUnlink, valid, dirLive, isDir, found, leafLive,
                    childless], by decide⟩
            | none =>
                by_cases busy : ∃ item ∈ s.fileHead, item.file.node = id
                · exact Or.inl ⟨-EBUSY, by
                    simp [Zsbl.Common.vfsUnlink, valid, dirLive, isDir, found, leafLive,
                      childless, busy], by decide⟩
                · have unopened : ∀ item ∈ s.fileHead, item.file.node ≠ id := by
                    simpa using busy
                  obtain ⟨nodes, done, unlinked, inv'⟩ :=
                    inv.vfsUnlink_leaf leafLive parent childless unopened
                  exact Or.inr ⟨_, above, id, leaf, rfl, done, found, leafLive, parent,
                    childless, unopened, unlinked, inv'⟩
        · exact Or.inl ⟨-ENOTDIR, by simp [Zsbl.Common.vfsUnlink, valid, dirLive, isDir],
            by decide⟩
      · exact Or.inl ⟨-EINVAL, by simp [Zsbl.Common.vfsUnlink, valid], by decide⟩

/-! ## Freeing a subtree -/

theorem Under.le (inv : TreeInv s) {root other : Nat} (under : Under s root other) :
    root ≤ other := by
  induction under with
  | self => exact Nat.le_refl _
  | child live parent _ ih =>
      exact ih.trans (Nat.le_of_lt (inv.parent _ _ _ live parent).1)

theorem Under.trans {root middle other : Nat} (first : Under s root middle)
    (second : Under s middle other) : Under s root other := by
  induction second with
  | self => exact first
  | child live parent _ ih => exact .child live parent ih

/-- A descendant other than the root itself is under one of its children. -/
theorem Under.root_or_kid (inv : TreeInv s) {root other : Nat} (under : Under s root other) :
    other = root ∨ ∃ kid ∈ s.kids root, Under s kid other := by
  induction under with
  | self => exact Or.inl rfl
  | @child other parent node live parent_eq _ ih =>
      right
      rcases ih with rfl | ⟨kid, member, under⟩
      · exact ⟨other, inv.mem_kids.mpr ⟨node, live, parent_eq⟩, .self⟩
      · exact ⟨kid, member, .child live parent_eq under⟩

theorem Under.of_kid (inv : TreeInv s) {root kid other : Nat} (member : kid ∈ s.kids root)
    (under : Under s kid other) : Under s root other := by
  obtain ⟨node, live, parent⟩ := inv.mem_kids.mp member
  exact (Under.child live parent .self).trans under

/-- The parent of a proper descendant is a descendant. -/
theorem Under.parent {root other above : Nat} {node : VfsNode ω π}
    (under : Under s root other) (ne : other ≠ root) (live : s.nodes other = some node)
    (parent : node.parent = some above) : Under s root above := by
  cases under with
  | self => exact absurd rfl ne
  | child live' parent' under =>
      obtain rfl := Option.some.inj (live.symm.trans live')
      obtain rfl := Option.some.inj (parent.symm.trans parent')
      exact under

/-- A root is under no other node. -/
theorem Under.eq_of_top {root other : Nat} {node : VfsNode ω π}
    (under : Under s root other) (live : s.nodes other = some node)
    (top : node.parent = none) : other = root := by
  cases under with
  | self => rfl
  | child live' parent _ =>
      obtain rfl := Option.some.inj (live.symm.trans live')
      rw [top] at parent
      cases parent

/-- Siblings have no descendants in common. -/
theorem Under.sibling_eq (inv : TreeInv s) {above kid kid' other : Nat}
    (member : kid ∈ s.kids above) (member' : kid' ∈ s.kids above)
    (under : Under s kid other) (under' : Under s kid' other) : kid = kid' := by
  obtain ⟨node, live, parent⟩ := inv.mem_kids.mp member
  obtain ⟨node', live', parent'⟩ := inv.mem_kids.mp member'
  have lt := (inv.parent kid node above live parent).1
  have lt' := (inv.parent kid' node' above live' parent').1
  induction under with
  | self =>
      by_contra ne
      have le := (under'.parent ne live parent).le inv
      omega
  | @child other parent₁ node₁ live₁ parent_eq under ih =>
      by_cases eq : other = kid'
      · subst eq
        obtain rfl := Option.some.inj (live₁.symm.trans live')
        obtain rfl := Option.some.inj (parent_eq.symm.trans parent')
        have le := under.le inv
        omega
      · exact ih (under'.parent eq live₁ parent_eq)

/-- The dead nodes have been freed and nothing else has changed. -/
structure Freed (dead : Nat → Prop) (s s' : Vfs ω π) : Prop where
  gone : ∀ id, dead id → s'.nodes id = none
  kept : ∀ id, ¬dead id → s'.nodes id = s.nodes id
  other : s' = { s with nodes := s'.nodes }

theorem Freed.nextNode {dead : Nat → Prop} (freed : Freed dead s s') :
    s'.nextNode = s.nextNode := by rw [freed.other]

/-- Freeing one part after another frees both. -/
theorem Freed.trans {dead dead' : Nat → Prop} {s'' : Vfs ω π} (first : Freed dead s s')
    (second : Freed dead' s' s'') : Freed (fun id => dead id ∨ dead' id) s s'' where
  gone := by
    intro id isDead
    by_cases again : dead' id
    · exact second.gone id again
    · rw [second.kept id again]
      exact first.gone id (isDead.resolve_right again)
  kept := by
    intro id alive
    rw [second.kept id fun isDead => alive (Or.inr isDead),
      first.kept id fun isDead => alive (Or.inl isDead)]
  other := by
    rw [second.other, first.other]

theorem Freed.congr {dead dead' : Nat → Prop} (freed : Freed dead s s')
    (same : ∀ id, dead id ↔ dead' id) : Freed dead' s s' where
  gone := fun id isDead => freed.gone id ((same id).mpr isDead)
  kept := fun id alive => freed.kept id fun isDead => alive ((same id).mp isDead)
  other := freed.other

theorem Freed.freeNode (s : Vfs ω π) (id : Nat) : Freed (· = id) s (s.freeNode id) where
  gone := by
    rintro other rfl
    simp
  kept := by
    intro other ne
    simp [Function.update_of_ne ne]
  other := rfl

/-- The state differs from the tree it started with only outside the subtree
that is to be freed. -/
def Intact (start s : Vfs ω π) (root : Nat) : Prop :=
  ∀ id, Under start root id → s.nodes id = start.nodes id

/-- The loop over the children frees the subtree of every child. -/
theorem freeChildren_spec {start : Vfs ω π} (inv : TreeInv start)
    {free : Vfs ω π → Nat → Option (Vfs ω π)} {above : Nat} {kids : List Nat}
    (among : ∀ kid ∈ kids, kid ∈ start.kids above) (nodup : kids.Nodup)
    (frees : ∀ kid ∈ kids, ∀ s, Intact start s kid → s.nextNode = start.nextNode →
      ∃ s', free s kid = some s' ∧ Freed (Under start kid) s s')
    {link : Option Nat} (list : Chain start.siblingOf link kids) {fuel : Nat}
    (enough : kids.length ≤ fuel) (intact : ∀ kid ∈ kids, Intact start s kid)
    (nextNode : s.nextNode = start.nextNode) :
    ∃ s', freeChildren free fuel s link = some s' ∧
      Freed (fun id => ∃ kid ∈ kids, Under start kid id) s s' := by
  induction list generalizing s fuel with
  | nil =>
      refine ⟨s, by cases fuel <;> rfl, ?_, ?_, rfl⟩
      · simp
      · simp
  | @cons kid link rest allocated _ ih =>
      obtain ⟨fuel, rfl⟩ := Nat.exists_eq_succ_of_ne_zero
        (Nat.ne_of_gt (Nat.lt_of_lt_of_le (by simp) enough))
      obtain ⟨notRest, nodupRest⟩ := List.nodup_cons.mp nodup
      obtain ⟨node, live, rfl⟩ := Option.map_eq_some_iff.mp allocated
      have live' : s.nodes kid = some node :=
        (intact kid List.mem_cons_self kid .self).trans live
      obtain ⟨s₁, freeKid, freed⟩ := frees kid List.mem_cons_self s
        (intact kid List.mem_cons_self) nextNode
      have intact₁ : ∀ other ∈ rest, Intact start s₁ other := by
        intro other member id under
        rw [freed.kept id ?_]
        · exact intact other (List.mem_cons_of_mem _ member) id under
        · intro under'
          have eq := Under.sibling_eq inv (among kid List.mem_cons_self)
            (among other (List.mem_cons_of_mem _ member)) under' under
          exact notRest (eq ▸ member)
      obtain ⟨s₂, freeRest, freed'⟩ := ih
        (fun other member => among other (List.mem_cons_of_mem _ member)) nodupRest
        (fun other member => frees other (List.mem_cons_of_mem _ member))
        (by simpa using enough) intact₁ (freed.nextNode.trans nextNode)
      refine ⟨s₂, ?_, (freed.trans freed').congr fun id => by simp⟩
      simp [freeChildren, live', freeKid, freeRest]

/-- `vfs_free_subtree` frees the node and its descendants and nothing else. -/
theorem freeSubtreeTo_spec {start : Vfs ω π} (inv : TreeInv start) {depth root : Nat}
    (live : (start.nodes root).isSome) (deep : start.nextNode ≤ root + depth)
    (intact : Intact start s root) (nextNode : s.nextNode = start.nextNode) :
    ∃ s', freeSubtreeTo depth s root = some s' ∧ Freed (Under start root) s s' := by
  induction depth generalizing s root with
  | zero =>
      obtain ⟨node, live⟩ := Option.isSome_iff_exists.mp live
      have lt := inv.lt root node live
      omega
  | succ depth ih =>
      obtain ⟨node, live⟩ := Option.isSome_iff_exists.mp live
      have live' : s.nodes root = some node := (intact root .self).trans live
      have frees : ∀ kid ∈ start.kids root, ∀ t, Intact start t kid →
          t.nextNode = start.nextNode →
          ∃ t', freeSubtreeTo depth t kid = some t' ∧ Freed (Under start kid) t t' := by
        intro kid member t intact nextNode
        obtain ⟨kidNode, kidLive, parent⟩ := inv.mem_kids.mp member
        have lt := (inv.parent kid kidNode root kidLive parent).1
        exact ih (by simp [kidLive]) (by omega) intact nextNode
      have short : (start.kids root).length ≤ s.nextNode := by
        rw [nextNode]
        exact start.kids_length_le root
      obtain ⟨s₁, freeKids, freed⟩ := freeChildren_spec inv (fun _ member => member)
        (start.kids_nodup root) frees (inv.list root node live) short
        (fun kid member id under => intact id (.of_kid inv member under)) nextNode
      refine ⟨s₁.freeNode root, by simp [freeSubtreeTo, live', freeKids], ?_⟩
      apply (freed.trans (Freed.freeNode s₁ root)).congr
      intro id
      constructor
      · rintro (⟨kid, member, under⟩ | rfl)
        · exact .of_kid inv member under
        · exact .self
      · intro under
        exact (under.root_or_kid inv).symm

theorem TreeInv.vfsFreeSubtree (inv : TreeInv s) {root : Nat}
    (live : (s.nodes root).isSome) :
    ∃ s', vfsFreeSubtree s root = some s' ∧ Freed (Under s root) s s' :=
  freeSubtreeTo_spec inv live (by omega) (fun _ _ => rfl) rfl

/-- Freeing the tree of a parentless node leaves the rest well-formed. -/
theorem Freed.tree (inv : TreeInv s) {root : Nat} {node : VfsNode ω π}
    (live : s.nodes root = some node) (top : node.parent = none)
    (notRoot : s.rootNode ≠ some root) (freed : Freed (Under s root) s s') :
    TreeInv s' := by
  have kept : ∀ id node, s'.nodes id = some node →
      ¬Under s root id ∧ s.nodes id = some node := by
    intro id node' live'
    have above : ¬Under s root id := by
      intro under
      rw [freed.gone id under] at live'
      cases live'
    exact ⟨above, (freed.kept id above).symm.trans live'⟩
  -- a child of a remaining node remains
  have stays : ∀ id node' above, s.nodes id = some node' → node'.parent = some above →
      ¬Under s root above → ¬Under s root id := by
    intro id node' above live' parent notUnder under
    by_cases eq : id = root
    · subst eq
      obtain rfl := Option.some.inj (live.symm.trans live')
      rw [top] at parent
      cases parent
    · exact notUnder (under.parent eq live' parent)
  have kids : ∀ id, ¬Under s root id → s'.kids id = s.kids id := by
    intro id notUnder
    unfold Vfs.kids
    rw [freed.nextNode]
    apply List.filter_congr
    intro other _
    by_cases under : Under s root other
    · have before : s.parentOf other ≠ some id := by
        intro parent
        obtain ⟨node', live', parent⟩ := Vfs.parentOf_eq_some.mp parent
        exact stays other node' id live' parent notUnder under
      have after : s'.parentOf other ≠ some id := by
        simp [Vfs.parentOf, freed.gone other under]
      simp [before, after]
    · have same : s'.parentOf other = s.parentOf other := by
        rw [Vfs.parentOf, Vfs.parentOf, freed.kept other under]
      rw [same]
  constructor
  · intro id node' live'
    rw [freed.nextNode]
    exact inv.lt id node' (kept id node' live').2
  · intro id node' above live' parent
    obtain ⟨notUnder, wasLive⟩ := kept id node' live'
    obtain ⟨lt, dir, dirLive, isDir⟩ := inv.parent id node' above wasLive parent
    have aboveStays : ¬Under s root above := fun under =>
      notUnder (.child wasLive parent under)
    exact ⟨lt, dir, (freed.kept above aboveStays).trans dirLive, isDir⟩
  · intro id node' live'
    obtain ⟨notUnder, wasLive⟩ := kept id node' live'
    rw [kids id notUnder]
    refine (inv.list id node' wasLive).congr fun kid member => ?_
    obtain ⟨kidNode, kidLive, parent⟩ := inv.mem_kids.mp member
    rw [Vfs.siblingOf, Vfs.siblingOf,
      freed.kept kid (stays kid kidNode id kidLive parent notUnder)]
  · intro id node' above live' parent
    exact inv.valid id node' above (kept id node' live').2 parent
  · intro id id' node₁ node₂ above live₁ live₂ parent₁ parent₂ name
    exact inv.unique id id' node₁ node₂ above (kept id node₁ live₁).2
      (kept id' node₂ live₂).2 parent₁ parent₂ name
  · intro id isRoot
    rw [freed.other] at isRoot
    obtain ⟨node', live', isDir, top'⟩ := inv.root id isRoot
    have notUnder : ¬Under s root id := by
      intro under
      exact notRoot (under.eq_of_top live' top' ▸ isRoot)
    exact ⟨node', (freed.kept id notUnder).trans live', isDir, top'⟩

end Zsbl.Common
