/-
Module: Zsbl.Common.VfsContents
Purpose: File systems that hold contents: what their lookup callbacks serve,
  how their mount callbacks decide, and the calls that only use what is mounted.
Trusted boundary: none
Main exports:
  Entry, Contents, FsCode.Serves, FreshTree, FsCode.Rejects, FsCode.Accepts,
  FsCode.Decides, VfsOp.Access
-/
import Zsbl.Common.VfsSystem

namespace Zsbl.Common

variable {ω π : Type}

/-- What a file system has under a name: the node that `lookup` creates for it. -/
structure Entry (ω π : Type) where
  type : VfsNodeType
  fops : Option (FileOps ω π)
  priv : Option π

/-- What the file system with a `lookup` has on a mounted volume, in the directory
with some private data, under a name. -/
abbrev Contents (ω π : Type) : Type :=
  Nat → VfsMount π → Option π → CStr → Option (Entry ω π)

/-- The numbers of the nodes to come are not in use. -/
def Vfs.Unused (s : Vfs ω π) : Prop := ∀ id, s.nextNode ≤ id → s.nodes id = none

/-- The contract of `lookup` in common/vfs.h: it creates the node of an entry
that exists by `vfs_mknod(dir, name, ...)` and returns it, or returns NULL.
It may use the media and the drivers, and the heap has room for what it
allocates. -/
def FsCode.Serves (code : FsCode ω π) (contents : Contents ω π) : Prop :=
  ∀ address lookup s mount dir node name, code.lookup address = some lookup → s.Roomy →
    s.Unused → s.nodes dir = some node → ∃ world, lookup s mount dir name =
      match contents address mount node.priv name with
      | none => some ({ s with world := world }, none)
      | some entry =>
          vfsMknod { s with world := world } (some dir) name entry.type entry.fops entry.priv

/-- A tree has been built beside the nodes that were there. -/
structure FreshTree (s s' : Vfs ω π) (root : Nat) : Prop where
  builds : Builds s s'
  fresh : s.nextNode ≤ root
  dir : ∃ node, s'.nodes root = some node ∧ node.type = .dir ∧ node.parent = none
  kept : ∀ id node, s.nodes id = some node → s'.nodes id = some node
  under : ∀ id, (s'.nodes id).isSome → (s.nodes id).isSome ∨ Under s' root id

/-- A `mount` callback rejects the source without side effects: it returns an
error or sets no root. -/
def FsCode.Rejects (code : FsCode ω π) (s : Vfs ω π) (address : Nat) (source : Option CStr)
    (data : Option π) : Prop :=
  ∃ setup ret, code.mount address s source data = some (s, setup, ret) ∧
    (ret ≠ 0 ∨ setup.root = none)

/-- A `mount` callback accepts the source and sets the root of a fresh tree. -/
def FsCode.Accepts (code : FsCode ω π) (s : Vfs ω π) (address : Nat) (source : Option CStr)
    (data : Option π) : Prop :=
  ∃ s' setup root, code.mount address s source data = some (s', setup, 0) ∧
    setup.root = some root ∧ FreshTree s s' root

/-- With room on the heap a `mount` callback either rejects or accepts. -/
def FsCode.Decides (code : FsCode ω π) : Prop :=
  ∀ address s source data, s.Roomy → s.Unused →
    code.Rejects s address source data ∨ code.Accepts s address source data

/-- The calls that look paths up and use open files. -/
def VfsOp.Access : VfsOp ω π → Prop
  | .lookup _ | .openPath _ _ | .read _ _ _ | .lseek _ _ _ | .close _ => True
  | _ => False

end Zsbl.Common
