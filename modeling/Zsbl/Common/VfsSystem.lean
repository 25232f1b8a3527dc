/-
Module: Zsbl.Common.VfsSystem
Purpose: The VFS as a system that takes one call after another, and what it
  may assume of the callbacks of file systems.
Trusted boundary: none
Main exports:
  BuildStep, Builds, FsCode.Honest, VfsOp, VfsStep, vfsLts, Under, Attached,
  KeepsMountpoints
-/
import Zsbl.Common.Vfs
import Zsbl.Lib.Runs

namespace Zsbl.Common

open Zsbl.Lib

variable {ω π : Type}

/-! ## Callbacks -/

/-- A node that is passed to a call is allocated. -/
def Vfs.Live (s : Vfs ω π) (parent : Option Nat) : Prop :=
  ∀ id, parent = some id → (s.nodes id).isSome

/-- What a callback may do to the VFS: allocate detached directories, create
nodes, set private data, and use the heap, the media and the drivers. -/
inductive BuildStep : Vfs ω π → Vfs ω π → Prop where
  | malloc (s : Vfs ω π) : BuildStep s s.malloc.1
  | world (s : Vfs ω π) (world : ω) : BuildStep s { s with world := world }
  | allocDir (s : Vfs ω π) (name : CStr) : BuildStep s (vfsAllocDirNode s name).1
  | create {s s' : Vfs ω π} {parent : Option Nat} {name : CStr} {type : VfsNodeType}
      {fops : Option (FileOps ω π)} {priv : Option π} {created : Option Nat}
      (live : s.Live parent)
      (done : vfsCreateNode s parent name type fops priv = some (s', created)) :
      BuildStep s s'
  | setPriv {s : Vfs ω π} {id : Nat} {node : VfsNode ω π} (priv : Option π)
      (live : s.nodes id = some node) :
      BuildStep s (s.setNode id { node with priv := priv })

def Builds : Vfs ω π → Vfs ω π → Prop := Relation.ReflTransGen BuildStep

/-- The callback leaves nodes, mounts and open files alone; it may allocate. -/
structure Quiet (s s' : Vfs ω π) : Prop where
  mem : ∃ calls, s'.mem = fun call => s.mem (call + calls)
  nodes : s'.nodes = s.nodes
  mounts : s'.mounts = s.mounts
  nextNode : s'.nextNode = s.nextNode
  nextMount : s'.nextMount = s.nextMount
  rootNode : s'.rootNode = s.rootNode
  fileHead : s'.fileHead = s.fileHead
  ready : s'.ready = s.ready

/-- The contract of common/vfs.h: `mount` builds a fresh root by
`vfs_alloc_dir_node`, `lookup` returns a node it created in the directory,
`umount` releases private state. -/
structure FsCode.Honest (code : FsCode ω π) : Prop where
  mount : ∀ address s source data s' setup ret,
    code.mount address s source data = some (s', setup, ret) →
    Builds s s' ∧ ∀ root, setup.root = some root →
      s.nextNode ≤ root ∧
        ∃ node, s'.nodes root = some node ∧ node.type = .dir ∧ node.parent = none
  lookup : ∀ address lookup s mount dir name s' found,
    code.lookup address = some lookup → lookup s mount dir name = some (s', found) →
    Builds s s' ∧ ∀ id, found = some id →
      ∃ node, s'.nodes id = some node ∧ node.parent = some dir
  umount : ∀ address umount s mount,
    code.umount address = some umount →
    ∃ s' ret, umount s mount = some (s', ret) ∧ Quiet s s'

/-! ## Calls -/

inductive VfsOp (ω π : Type) where
  | mkdir (parent : Option Nat) (name : CStr)
  | mkdirP (path : Option CStr)
  | mknod (parent : Option Nat) (name : CStr) (type : VfsNodeType)
      (fops : Option (FileOps ω π)) (priv : Option π)
  | allocDirNode (name : CStr)
  | unlink (parent : Option Nat) (name : CStr)
  | registerFilesystem (type : Option FsType)
  | mount (source target fstype : Option CStr) (data : Option π)
  | umount (target : Option CStr)
  | lookup (path : Option CStr)
  | openPath (path : Option CStr) (flags : Nat)
  | read (fd : Int) (buf : Bool) (len : Nat)
  | lseek (fd : Int) (off : Int) (whence : Whence)
  | close (fd : Int)
  | world (world : ω)

/-- The calls that take the system down. -/
def VfsOp.Teardown : VfsOp ω π → Prop
  | .umount _ | .close _ => True
  | _ => False

/-- One call from outside, with live nodes.  Between calls the media and the
drivers may change in any way. -/
inductive VfsStep (code : FsCode ω π) : Vfs ω π → VfsOp ω π → Vfs ω π → Prop where
  | mkdir {s s' : Vfs ω π} {parent node : Option Nat} {name : CStr}
      (live : s.Live parent) (done : vfsMkdir s parent name = some (s', node)) :
      VfsStep code s (.mkdir parent name) s'
  | mkdirP {s s' : Vfs ω π} {path : Option CStr} {node : Option Nat}
      (done : vfsMkdirP s path = some (s', node)) : VfsStep code s (.mkdirP path) s'
  | mknod {s s' : Vfs ω π} {parent node : Option Nat} {name : CStr}
      {type : VfsNodeType} {fops : Option (FileOps ω π)} {priv : Option π}
      (live : s.Live parent)
      (done : vfsMknod s parent name type fops priv = some (s', node)) :
      VfsStep code s (.mknod parent name type fops priv) s'
  | allocDirNode {s s' : Vfs ω π} {name : CStr} {node : Option Nat}
      (done : vfsAllocDirNode s name = (s', node)) :
      VfsStep code s (.allocDirNode name) s'
  | unlink {s s' : Vfs ω π} {parent : Option Nat} {name : CStr} {ret : Int}
      (live : s.Live parent) (done : vfsUnlink s parent name = some (s', ret)) :
      VfsStep code s (.unlink parent name) s'
  | registerFilesystem {s s' : Vfs ω π} {type : Option FsType} {ret : Int}
      (done : vfsRegisterFilesystem s type = (s', ret)) :
      VfsStep code s (.registerFilesystem type) s'
  | mount {s s' : Vfs ω π} {source target fstype : Option CStr} {data : Option π}
      {ret : Int} (done : vfsMount code s source target fstype data = some (s', ret)) :
      VfsStep code s (.mount source target fstype data) s'
  | umount {s s' : Vfs ω π} {target : Option CStr} {ret : Int}
      (done : vfsUmount code s target = some (s', ret)) :
      VfsStep code s (.umount target) s'
  | lookup {s s' : Vfs ω π} {path : Option CStr} {node : Option Nat}
      (done : vfsLookup code s path = some (s', node)) :
      VfsStep code s (.lookup path) s'
  | openPath {s s' : Vfs ω π} {path : Option CStr} {flags : Nat} {ret : Int}
      (done : vfsOpen code s path flags = some (s', ret)) :
      VfsStep code s (.openPath path flags) s'
  | read {s s' : Vfs ω π} {fd : Int} {buf : Bool} {len : Nat} {ret : Int}
      {bytes : List UInt8} (done : vfsRead s fd buf len = some (s', ret, bytes)) :
      VfsStep code s (.read fd buf len) s'
  | lseek {s s' : Vfs ω π} {fd off : Int} {whence : Whence} {ret : Int}
      (done : vfsLseek s fd off whence = (s', ret)) :
      VfsStep code s (.lseek fd off whence) s'
  | close {s s' : Vfs ω π} {fd ret : Int} (done : vfsClose s fd = some (s', ret)) :
      VfsStep code s (.close fd) s'
  | world {s : Vfs ω π} (world : ω) :
      VfsStep code s (.world world) { s with world := world }

/-- The heap has room for every allocation to come. -/
def Vfs.Roomy (s : Vfs ω π) : Prop := ∀ call, s.mem call = true

/-- The runs from `vfs_init`, whatever the heap and the media are like. -/
def vfsLts (code : FsCode ω π) : Lts (Vfs ω π) (VfsOp ω π) where
  init := fun s => ∃ mem world, s = (vfsInit (vfsStatic mem world)).1
  step := VfsStep code

/-! ## The tree -/

/-- The node is the root of a subtree or one of its descendants. -/
inductive Under (s : Vfs ω π) (root : Nat) : Nat → Prop where
  | self : Under s root root
  | child {id parent : Nat} {node : VfsNode ω π} (live : s.nodes id = some node)
      (parent_eq : node.parent = some parent) (above : Under s root parent) :
      Under s root id

/-- The nodes that parent/child links and mount crossings reach from the root
of the VFS. -/
inductive Attached (s : Vfs ω π) : Nat → Prop where
  | root {id : Nat} (isRoot : s.rootNode = some id) : Attached s id
  | child {id parent : Nat} {node : VfsNode ω π} (live : s.nodes id = some node)
      (parent_eq : node.parent = some parent) (above : Attached s parent) :
      Attached s id
  | cross {m : Nat} {mount : VfsMount π} (live : s.mounts m = some mount)
      (above : Attached s mount.mountpoint) : Attached s mount.root

/-- No mountpoint is freed: `vfs_unlink` finds no childless directory on which
a file system is mounted, and `vfs_umount` no mountpoint in the tree of the
mount that it frees. -/
def KeepsMountpoints (code : FsCode ω π) (s : Vfs ω π) : VfsOp ω π → Prop
  | .unlink (some parent) name =>
      ∀ id node, vfsFindChildByName s parent name = some (some id) →
        s.nodes id = some node → node.child = none → node.mnt = none
  | .umount (some target) =>
      ∀ s' mp mnt dir m mount, vfsLookupNodeEx code s target false =
          some (s', some (mp, mnt)) →
        s'.nodes mp = some dir → dir.mnt = some m → s'.mounts m = some mount →
        anyUnderRoot s' mount.root s'.fileHead = some false →
        ∀ id node, Under s' mount.root id → s'.nodes id = some node → node.mnt = none
  | _ => True

end Zsbl.Common
