/-
Module: Zsbl.Proofs.VfsOpenFiles
Purpose: The nodes of open files stay allocated in every run, also when the
  mount graph is torn apart, and a removal that fails only adds nodes.
Trusted boundary: none
Main exports:
  OpenFilesSafe, vfs_openFiles
-/
import Zsbl.Proofs.VfsShape

namespace Zsbl.Common

open Zsbl.Lib

variable {ω π : Type} {s s' : Vfs ω π} {code : FsCode ω π}

/-- The node of every open file is allocated, so that reading and closing it find
the node.  A `vfs_unlink` that fails changes nothing, a `vfs_umount` that fails
only the nodes that its lookup makes. -/
structure OpenFilesSafe (code : FsCode ω π) (s : Vfs ω π) : Prop where
  live : ∀ item ∈ s.fileHead, (s.nodes item.file.node).isSome
  read : ∀ fd buf len, (vfsRead s fd buf len).isSome
  close : ∀ fd, (vfsClose s fd).isSome
  unlink : ∀ parent name s' ret, s.Live parent →
    vfsUnlink s parent name = some (s', ret) → ret ≠ 0 → s' = s
  umount : ∀ target s' ret, vfsUmount code s target = some (s', ret) → ret ≠ 0 →
    OnlyNewNodes s s'

theorem vfsFindFile_live (inv : FileInv s) {fd : Int} {item : VfsFileItem π}
    (found : vfsFindFile s fd = some item) :
    ∃ node, s.nodes item.file.node = some node :=
  Option.isSome_iff_exists.mp (inv.links.files item (List.mem_of_find?_eq_some found))

/-- Reading never follows a file to a node that is gone. -/
theorem vfsRead_isSome (inv : FileInv s) (fd : Int) (buf : Bool) (len : Nat) :
    (vfsRead s fd buf len).isSome := by
  unfold vfsRead
  split
  · rfl
  · rename_i item found
    obtain ⟨node, live⟩ := vfsFindFile_live inv found
    split
    · rfl
    · cases readFn : node.fops.bind FileOps.readFn <;> simp [live, readFn]

theorem vfsClose_isSome (inv : FileInv s) (fd : Int) : (vfsClose s fd).isSome := by
  unfold vfsClose
  split
  · rfl
  · rename_i item found
    obtain ⟨node, live⟩ := vfsFindFile_live inv found
    cases closeFn : node.fops.bind FileOps.closeFn <;> simp [live, closeFn]

/-- In every reachable state open files have their nodes, and removals that fail
leave the tree, the mounts and the open files. -/
theorem vfs_openFiles (honest : code.Honest) (s : Vfs ω π)
    (reached : (vfsLts code).Reachable s) : OpenFilesSafe code s := by
  have inv := FileInv.reachable honest reached
  constructor
  · exact inv.links.files
  · exact vfsRead_isSome inv
  · exact vfsClose_isSome inv
  · intro parent name s' ret live done error
    exact inv.tree.vfsUnlink_fails live done error
  · intro target s' ret done error
    rcases vfsUmount_cases honest inv done with ⟨-, builds⟩ | ⟨success, -⟩
    · exact builds.onlyNewNodes inv.tree
    · exact absurd success error

/-! ## A file that is open -/

/-- The file /f has been created. -/
def withFile : Vfs Unit Unit :=
  ((vfsMknod withMount (some 0) [102] .reg (some ⟨none, none, none⟩) none).get
    (by rfl)).1

/-- The file /f has been opened. -/
def withOpenFile : Vfs Unit Unit :=
  ((vfsOpen dirFs withFile (some [47, 102]) 0).get (by rfl)).1

/-- A file is created, opened and kept open. -/
theorem withOpenFile_reachable : (vfsLts dirFs).Reachable withOpenFile := by
  have mknod : VfsStep dirFs withMount
      (.mknod (some 0) [102] .reg (some ⟨none, none, none⟩) none) withFile := by
    refine .mknod (fun id same => ?_)
      (show vfsMknod withMount (some 0) [102] .reg (some ⟨none, none, none⟩) none =
        some (withFile, some 3) from rfl)
    obtain rfl := Option.some.inj same
    rfl
  have opened : VfsStep dirFs withFile (.openPath (some [47, 102]) 0) withOpenFile :=
    .openPath (show vfsOpen dirFs withFile (some [47, 102]) 0 =
      some (withOpenFile, 0) from rfl)
  exact (withMount_reachable.reachable.step trivial mknod).step trivial opened

/-- The open file /f, which `vfs_unlink` refuses to remove. -/
theorem vfs_openFiles_withOpenFile :
    OpenFilesSafe dirFs withOpenFile ∧ withOpenFile.fileHead.length = 1 ∧
      (vfsUnlink withOpenFile (some 0) [102]).map Prod.snd = some (-EBUSY) :=
  ⟨vfs_openFiles dirFs_honest withOpenFile withOpenFile_reachable, by rfl, by rfl⟩

end Zsbl.Common
