/-
Module: Zsbl.Proofs.FdtMemory
Purpose: The memory nodes that the sg2044 deletes from the bytes of its device tree are those
  that it deletes from the tree.
Trusted boundary: none
Main exports:
  pathOffset_child, removeMemoryNodesFrom_bytes, memory_nodes_removed
-/
import Zsbl.Plat.Sg2044Memory
import Zsbl.Proofs.FdtEdit
import Zsbl.Proofs.MemoryNode

namespace Zsbl.Plat.Sg2044

open Zsbl.Lib Zsbl.Libs

/-- A path of one name leads to a child. -/
theorem pathOffset_child (dt : DtNode) (s : List UInt8) :
    dt.pathOffset [s] = (dt.subnode? s).map fun i => [i] := by
  rw [DtNode.pathOffset]
  cases found : dt.subnode? s with
  | none => rfl
  | some i =>
      obtain ⟨inside, -⟩ := List.findIdx?_eq_some_iff_getElem.mp found
      rw [Option.bind_eq_bind, Option.bind_some, List.getElem?_eq_getElem inside]
      rfl

theorem components_memory : components (ascii "/memory") = [ascii "memory"] := rfl

theorem pathOffset_memory (img : FdtImage) :
    fdtPathOffset img.bytes (ascii "/memory") =
      some (match img.dt.subnode? (ascii "memory") with
        | some i => img.nodeOffset [i]
        | none => -FDT_ERR_NOTFOUND) := by
  rw [img.pathOffset_bytes rfl, components_memory, pathOffset_child]
  cases img.dt.subnode? (ascii "memory") <;> rfl

/-- One turn takes out the first memory node. -/
theorem delNode_child (img : FdtImage) {s : List UInt8} {i : Nat}
    (found : img.dt.subnode? s = some i) :
    ∃ img' : FdtImage, fdtDelNode img.bytes (img.nodeOffset [i]) = some (img'.bytes, 0) ∧
      img'.dt = img.dt.mapChildren (fun children => children.eraseIdx i) ∧
      img'.totalsize = img.totalsize := by
  obtain ⟨child, isChild, -⟩ := subnode?_isChild found
  have isRoot : img.root.get? [] = some img.root := rfl
  exact FdtImage.delNode_bytes isRoot isChild

/-- As many rounds as there are children remove every memory node. -/
theorem removeMemoryNodesFrom_bytes (rounds : Nat) {img : FdtImage}
    (enough : img.dt.children.length ≤ rounds) :
    ∃ img' : FdtImage, removeMemoryNodesFrom (rounds + 1) img.bytes = some img'.bytes ∧
      img'.dt = removeMemoryNodes rounds img.dt ∧ img'.totalsize = img.totalsize := by
  induction rounds generalizing img with
  | zero =>
      have none : img.dt.children = [] :=
        List.eq_nil_of_length_eq_zero (Nat.eq_zero_of_le_zero enough)
      have missing : img.dt.subnode? (ascii "memory") = Option.none := by
        rw [DtNode.subnode?, none]
        rfl
      refine ⟨img, ?_, rfl, rfl⟩
      rw [removeMemoryNodesFrom, pathOffset_memory, missing]
      rfl
  | succ rounds ih =>
      rw [removeMemoryNodesFrom, pathOffset_memory, removeMemoryNodes, Option.bind_eq_bind,
        Option.bind_some]
      cases found : img.dt.subnode? (ascii "memory") with
      | none => exact ⟨img, rfl, rfl, rfl⟩
      | some i =>
          obtain ⟨inside, -⟩ := List.findIdx?_eq_some_iff_getElem.mp found
          obtain ⟨img', isDeleted, isTree, sameTotal⟩ := delNode_child img found
          have fewer : img'.dt.children.length ≤ rounds := by
            rw [isTree, DtNode.children_mapChildren, List.length_eraseIdx_of_lt inside]
            omega
          obtain ⟨img'', isLeft, isTree', sameTotal'⟩ := ih fewer
          refine ⟨img'', ?_, ?_, sameTotal'.trans sameTotal⟩
          · dsimp only
            rw [if_pos (FdtImage.nodeOffset_nonneg _), isDeleted, Option.bind_eq_bind,
              Option.bind_some]
            exact isLeft
          · rw [isTree', isTree]

/-- The loop ends after no more turns than the root has children, and what it leaves is a blob of
the same size with the tree without its memory nodes. -/
theorem memory_nodes_removed (img : FdtImage) :
    ∃ img' : FdtImage,
      removeMemoryNodesFrom (img.dt.children.length + 1) img.bytes = some img'.bytes ∧
      img'.dt = removeMemoryNodes img.dt.children.length img.dt ∧
      img'.totalsize = img.totalsize ∧
      ∀ child ∈ img'.dt.children, nodenameEq child.name (ascii "memory") = false := by
  obtain ⟨img', isLeft, isTree, sameTotal⟩ := removeMemoryNodesFrom_bytes _ (le_refl _)
  obtain ⟨-, none⟩ := removeMemoryNodes_none _ (Nat.le_refl img.dt.children.length)
  exact ⟨img', isLeft, isTree, sameTotal, isTree ▸ none⟩

end Zsbl.Plat.Sg2044
