/-
Module: Zsbl.Common.Vfs
Purpose: The nodes, mounts and open files of common/vfs.c and the operations
  on them.
Trusted boundary: none
Main exports:
  VfsNode, VfsMount, VfsFile, Vfs, FsCode, vfsInit, vfsMkdir, vfsMkdirP,
  vfsMknod, vfsUnlink, vfsLookup, vfsOpen, vfsRead, vfsLseek, vfsClose,
  vfsRegisterFilesystem, vfsMount, vfsUmount, commandLs
-/
import Mathlib.Logic.Function.Basic
import Zsbl.Include.Libc

namespace Zsbl.Common

/-- The bytes of a C string without its terminating NUL. -/
abbrev CStr : Type := List UInt8

/-- The character `'/'`. -/
def slash : UInt8 := 47

inductive VfsNodeType where
  | unspec
  | reg
  | dir
  | chr
  | blk
deriving DecidableEq, Repr

/-- `struct vfs_file`.  Nodes are named by the order of their allocation; `π`
is what the `void *` fields of the VFS point at. -/
structure VfsFile (π : Type) where
  node : Nat
  pos : Nat
  flags : Nat
  privateData : Option π

/-- `struct vfs_file_ops`, whose pointers may be null.  A callback reads the
state `ω` of the media and drivers, the private data of the file's node and the
file; it returns the new state, the file's private data, and its result; a read
also the bytes it puts into the buffer. -/
structure FileOps (ω π : Type) where
  openFn : Option (ω → Option π → VfsFile π → ω × Option π × Int)
  readFn : Option (ω → Option π → VfsFile π → Nat → ω × Option π × Int × List UInt8)
  closeFn : Option (ω → Option π → VfsFile π → ω × Option π × Int)

/-- `struct vfs_node`. -/
structure VfsNode (ω π : Type) where
  name : CStr
  type : VfsNodeType
  fops : Option (FileOps ω π)
  priv : Option π
  parent : Option Nat
  child : Option Nat
  sibling : Option Nat
  mnt : Option Nat

/-- `struct vfs_mount`.  Its `sops` are an address in `FsCode`. -/
structure VfsMount (π : Type) where
  mountpoint : Nat
  root : Nat
  sops : Option Nat
  priv : Option π

/-- `struct vfs_fs_type`.  Its `mount` is an address in `FsCode`. -/
structure FsType where
  name : Option CStr
  flags : Nat
  mount : Option Nat

def FsType.requiresDev (type : FsType) : Bool := type.flags % 2 = 1

structure VfsFileItem (π : Type) where
  fd : Int
  file : VfsFile π

/-- The file's static variables, the heap they point into, and the state of
the media and drivers.  `mem` tells which of the coming calls of `malloc`
succeed; freed nodes and mounts are missing from `nodes` and `mounts`. -/
structure Vfs (ω π : Type) where
  nodes : Nat → Option (VfsNode ω π)
  mounts : Nat → Option (VfsMount π)
  nextNode : Nat
  nextMount : Nat
  mem : Nat → Bool
  rootNode : Option Nat
  fileHead : List (VfsFileItem π)
  fsTypes : List FsType
  nextFd : Int
  ready : Bool
  world : ω

/-- What a `mount` callback stores into its `struct vfs_mount`. -/
structure MountSetup (π : Type) where
  root : Option Nat
  sops : Option Nat
  priv : Option π

/-- The code at the addresses of the callbacks of file systems: `mount` of a
`struct vfs_fs_type`, `lookup` and `umount` of a `struct vfs_super_ops`. -/
structure FsCode (ω π : Type) where
  mount : Nat → Vfs ω π → Option CStr → Option π →
    Option (Vfs ω π × MountSetup π × Int)
  lookup : Nat → Option (Vfs ω π → VfsMount π → Nat → CStr →
    Option (Vfs ω π × Option Nat))
  umount : Nat → Option (Vfs ω π → VfsMount π → Option (Vfs ω π × Int))

variable {ω π : Type}

namespace Vfs

def malloc (s : Vfs ω π) : Vfs ω π × Bool :=
  ({ s with mem := fun call => s.mem (call + 1) }, s.mem 0)

def setNode (s : Vfs ω π) (id : Nat) (node : VfsNode ω π) : Vfs ω π :=
  { s with nodes := Function.update s.nodes id (some node) }

def freeNode (s : Vfs ω π) (id : Nat) : Vfs ω π :=
  { s with nodes := Function.update s.nodes id none }

end Vfs

/-! ## Nodes -/

/-- The loop over the siblings from a node on.  A missing result is an access
to freed memory or a loop that does not end. -/
def findChildFrom (s : Vfs ω π) (name : CStr) : Nat → Option Nat → Option (Option Nat)
  | _, none => some none
  | 0, some _ => none
  | fuel + 1, some child => do
      let node ← s.nodes child
      if node.name = name then some (some child)
      else findChildFrom s name fuel node.sibling

def vfsFindChildByName (s : Vfs ω π) (parent : Nat) (name : CStr) :
    Option (Option Nat) := do
  findChildFrom s name s.nextNode (← s.nodes parent).child

def vfsNameValid (name : CStr) : Bool := name ≠ [] && !name.contains slash

/-- `vfs_alloc_node`, which allocates the item and the copy of its name. -/
def vfsAllocNode (s : Vfs ω π) (name : CStr) (type : VfsNodeType)
    (fops : Option (FileOps ω π)) (priv : Option π) : Vfs ω π × Option Nat :=
  let (s, item) := s.malloc
  if !item then (s, none)
  else
    let (s, copy) := s.malloc
    if !copy then (s, none)
    else
      let node : VfsNode ω π :=
        { name := name, type := type, fops := fops, priv := priv, parent := none,
          child := none, sibling := none, mnt := none }
      ({ s.setNode s.nextNode node with nextNode := s.nextNode + 1 },
        some s.nextNode)

def vfsCreateNode (s : Vfs ω π) (parent : Option Nat) (name : CStr)
    (type : VfsNodeType) (fops : Option (FileOps ω π)) (priv : Option π) :
    Option (Vfs ω π × Option Nat) := do
  if !s.ready || s.rootNode.isNone then return (s, none)
  match parent with
  | none => return (s, none)
  | some parent =>
      if !vfsNameValid name then return (s, none)
      if (← s.nodes parent).type ≠ .dir then return (s, none)
      if (← vfsFindChildByName s parent name).isSome then return (s, none)
      if type ≠ .dir ∧ fops.isNone then return (s, none)
      match vfsAllocNode s name type fops priv with
      | (s, none) => return (s, none)
      | (s, some id) =>
          let dir ← s.nodes parent
          let node ← s.nodes id
          let s := s.setNode id { node with parent := some parent, sibling := dir.child }
          return (s.setNode parent { dir with child := some id }, some id)

def vfsMkdir (s : Vfs ω π) (parent : Option Nat) (name : CStr) :
    Option (Vfs ω π × Option Nat) :=
  vfsCreateNode s parent name .dir none none

def vfsMknod (s : Vfs ω π) (parent : Option Nat) (name : CStr)
    (type : VfsNodeType) (fops : Option (FileOps ω π)) (priv : Option π) :
    Option (Vfs ω π × Option Nat) :=
  vfsCreateNode s parent name type fops priv

def vfsAllocDirNode (s : Vfs ω π) (name : CStr) : Vfs ω π × Option Nat :=
  if !vfsNameValid name then (s, none)
  else vfsAllocNode s name .dir none none

/-- `vfs_free_subtree` to a depth.  The loop over the children reads the next
sibling before it frees a child. -/
def freeChildren (freeSubtree : Vfs ω π → Nat → Option (Vfs ω π)) :
    Nat → Vfs ω π → Option Nat → Option (Vfs ω π)
  | _, s, none => some s
  | 0, _, some _ => none
  | fuel + 1, s, some child => do
      let next := (← s.nodes child).sibling
      let s ← freeSubtree s child
      freeChildren freeSubtree fuel s next

def freeSubtreeTo : Nat → Vfs ω π → Nat → Option (Vfs ω π)
  | 0, _, _ => none
  | depth + 1, s, node => do
      let s ← freeChildren (freeSubtreeTo depth) s.nextNode s (← s.nodes node).child
      return s.freeNode node

def vfsFreeSubtree (s : Vfs ω π) (node : Nat) : Option (Vfs ω π) :=
  freeSubtreeTo s.nextNode s node

/-- The static initial values of the file's variables. -/
def vfsStatic (mem : Nat → Bool) (world : ω) : Vfs ω π where
  nodes := fun _ => none
  mounts := fun _ => none
  nextNode := 0
  nextMount := 0
  mem := mem
  rootNode := none
  fileHead := []
  fsTypes := []
  nextFd := 0
  ready := false
  world := world

/-- `vfs_init`, which the start-up code calls once, when there is no root and
no open file yet. -/
def vfsInit (s : Vfs ω π) : Vfs ω π × Int :=
  match vfsAllocNode s [slash] .dir none none with
  | (s, none) => (s, -ENOMEM)
  | (s, some root) =>
      ({ s with
        rootNode := some root
        fileHead := []
        nextFd := 0
        ready := true }, 0)

/-! ## Path lookup -/

def vfsIsPathValid (path : Option CStr) : Bool :=
  match path with
  | none => false
  | some path => path.head? = some slash

/-- `vfs_follow_mount_mnt`: the innermost mount and the root it shows. -/
def followMountMnt (s : Vfs ω π) : Nat → Nat → Option Nat → Option (Nat × Option Nat)
  | 0, _, _ => none
  | fuel + 1, node, mnt => do
      match (← s.nodes node).mnt with
      | none => some (node, mnt)
      | some inner => followMountMnt s fuel (← s.mounts inner).root (some inner)

def vfsFollowMountMnt (s : Vfs ω π) (node : Nat) (mnt : Option Nat) :
    Option (Nat × Option Nat) :=
  followMountMnt s (s.nextMount + 1) node mnt

/-- The file system that `mnt` shows may create the missing entry. -/
def lookupOnDemand (code : FsCode ω π) (s : Vfs ω π) (mnt : Option Nat) (dir : Nat)
    (name : CStr) : Option (Vfs ω π × Option Nat) := do
  match mnt with
  | none => return (s, none)
  | some mnt =>
      let mount ← s.mounts mnt
      match mount.sops.bind code.lookup with
      | none => return (s, none)
      | some lookup => lookup s mount dir name

/-- The child that a path segment names: one that is there, else one that the
file system creates. -/
def lookupSegment (code : FsCode ω π) (s : Vfs ω π) (mnt : Option Nat) (cur : Nat)
    (seg : CStr) : Option (Vfs ω π × Option Nat) := do
  match ← vfsFindChildByName s cur seg with
  | some child => return (s, some child)
  | none => lookupOnDemand code s mnt cur seg

/-- The loop of `vfs_lookup_node_ex` from a path segment on; the result is the
node and the innermost mount on the way to it. -/
def lookupFrom (code : FsCode ω π) (followLast : Bool) :
    Nat → Vfs ω π → Nat → Option Nat → CStr →
    Option (Vfs ω π × Option (Nat × Option Nat))
  | _, s, cur, mnt, [] => some (s, some (cur, mnt))
  | 0, _, _, _, _ :: _ => none
  | fuel + 1, s, cur, mnt, cursor => do
      let seg := cursor.takeWhile (· ≠ slash)
      let rest := cursor.dropWhile (· ≠ slash)
      if seg = [] then return (s, none)
      let (s, copy) := s.malloc
      if !copy then return (s, none)
      let (s, next) ← lookupSegment code s mnt cur seg
      match next with
      | none => return (s, none)
      | some next =>
          -- the last segment: no slash, or only a trailing one follows
          if rest = [] ∨ rest = [slash] then
            if followLast then return (s, some (← vfsFollowMountMnt s next mnt))
            else return (s, some (next, mnt))
          else
            let (cur, mnt) ← vfsFollowMountMnt s next mnt
            lookupFrom code followLast fuel s cur mnt rest.tail

/-- `vfs_lookup_node_ex`, for a path that begins with a slash. -/
def vfsLookupNodeEx (code : FsCode ω π) (s : Vfs ω π) (path : CStr)
    (followLast : Bool) : Option (Vfs ω π × Option (Nat × Option Nat)) := do
  match s.rootNode with
  | none => return (s, none)
  | some root =>
      if path = [slash] then
        if followLast then return (s, some (← vfsFollowMountMnt s root none))
        else return (s, some (root, none))
      else
        let (cur, mnt) ← vfsFollowMountMnt s root none
        lookupFrom code followLast path.length s cur mnt path.tail

def vfsLookupNode (code : FsCode ω π) (s : Vfs ω π) (path : CStr) :
    Option (Vfs ω π × Option Nat) := do
  let (s, found) ← vfsLookupNodeEx code s path true
  return (s, found.map Prod.fst)

def vfsLookup (code : FsCode ω π) (s : Vfs ω π) (path : Option CStr) :
    Option (Vfs ω π × Option Nat) :=
  match path with
  | none => some (s, none)
  | some path =>
      if !vfsIsPathValid path then some (s, none) else vfsLookupNode code s path

/-- The loop of `vfs_mkdir_p` from a position of the path on. -/
def mkdirPFrom : Nat → Vfs ω π → Nat → CStr → Option (Vfs ω π × Option Nat)
  | _, s, cur, [] => some (s, some cur)
  | 0, _, _, _ :: _ => none
  | fuel + 1, s, cur, p => do
      let p := p.dropWhile (· = slash)
      if p = [] then return (s, some cur)
      let seg := p.takeWhile (· ≠ slash)
      let p := p.dropWhile (· ≠ slash)
      let (s, copy) := s.malloc
      if !copy then return (s, none)
      match ← vfsFindChildByName s cur seg with
      | some next =>
          if (← s.nodes next).type ≠ .dir then return (s, none)
          mkdirPFrom fuel s next p
      | none =>
          match ← vfsMkdir s (some cur) seg with
          | (s, none) => return (s, none)
          | (s, some next) => mkdirPFrom fuel s next p

def vfsMkdirP (s : Vfs ω π) (path : Option CStr) : Option (Vfs ω π × Option Nat) :=
  match path with
  | none => some (s, none)
  | some path =>
      if !vfsIsPathValid path then some (s, none)
      else
        match s.rootNode with
        | none => some (s, none)
        | some root => mkdirPFrom path.length s root path

/-- The loop of `vfs_unlink` that looks for the node on its parent's list; the
result is whether it found it, and the sibling before it. -/
def findPrevFrom (s : Vfs ω π) (node : Nat) :
    Nat → Option Nat → Option Nat → Option (Bool × Option Nat)
  | _, none, prev => some (false, prev)
  | 0, some _, _ => none
  | fuel + 1, some walk, prev =>
      if walk = node then some (true, prev)
      else do findPrevFrom s node fuel (← s.nodes walk).sibling (some walk)

def vfsUnlink (s : Vfs ω π) (parent : Option Nat) (name : CStr) :
    Option (Vfs ω π × Int) := do
  match parent with
  | none => return (s, -EINVAL)
  | some parent =>
      if !vfsNameValid name then return (s, -EINVAL)
      if (← s.nodes parent).type ≠ .dir then return (s, -ENOTDIR)
      match ← vfsFindChildByName s parent name with
      | none => return (s, -ENOENT)
      | some id =>
          let node ← s.nodes id
          if node.child.isSome then return (s, -ENOTEMPTY)
          if s.fileHead.any (·.file.node = id) then return (s, -EBUSY)
          match node.parent with
          | none => return (s, -EINVAL)
          | some parent =>
              let dir ← s.nodes parent
              let (found, prev) ← findPrevFrom s id s.nextNode dir.child none
              if !found then return (s, -ENOENT)
              match prev with
              | some prev =>
                  let before ← s.nodes prev
                  let s := s.setNode prev { before with sibling := node.sibling }
                  return (s.freeNode id, 0)
              | none =>
                  let s := s.setNode parent { dir with child := node.sibling }
                  return (s.freeNode id, 0)

/-! ## Open files -/

def vfsFindFile (s : Vfs ω π) (fd : Int) : Option (VfsFileItem π) :=
  s.fileHead.find? (·.fd = fd)

/-- The next value of `vfs_next_fd`. -/
def nextFdAfter (fd : Int) : Int :=
  if wrapInt (fd + 1) < 0 then 0 else wrapInt (fd + 1)

/-- The loop of `vfs_alloc_fd`. -/
def allocFdFrom (s : Vfs ω π) (startFd : Int) : Nat → Int → Option (Vfs ω π × Int)
  | 0, _ => none
  | fuel + 1, nextFd =>
      if (vfsFindFile s nextFd).isNone then
        some ({ s with nextFd := nextFdAfter nextFd }, nextFd)
      else if nextFdAfter nextFd = startFd then
        some ({ s with nextFd := nextFdAfter nextFd }, -EMFILE)
      else allocFdFrom s startFd fuel (nextFdAfter nextFd)

def vfsAllocFd (s : Vfs ω π) : Option (Vfs ω π × Int) :=
  let startFd := if s.nextFd < 0 then 0 else s.nextFd
  allocFdFrom s startFd (2 ^ 31) startFd

def vfsOpen (code : FsCode ω π) (s : Vfs ω π) (path : Option CStr) (flags : Nat) :
    Option (Vfs ω π × Int) := do
  match ← vfsLookup code s path with
  | (s, none) => return (s, -ENOENT)
  | (s, some id) =>
      let node ← s.nodes id
      if node.type = .dir then return (s, -EISDIR)
      let (s, fd) ← vfsAllocFd s
      if fd < 0 then return (s, fd)
      let (s, item) := s.malloc
      if !item then return (s, -ENOMEM)
      let file : VfsFile π :=
        { node := id, pos := 0, flags := flags, privateData := node.priv }
      match node.fops.bind FileOps.openFn with
      | none => return ({ s with fileHead := ⟨fd, file⟩ :: s.fileHead }, fd)
      | some openFn =>
          let (world, priv, ret) := openFn s.world node.priv file
          let s := { s with world := world }
          if ret ≠ 0 then return (s, ret)
          let file := { file with privateData := priv }
          return ({ s with fileHead := ⟨fd, file⟩ :: s.fileHead }, fd)

/-- Store into the file of a file descriptor. -/
def setFile (fd : Int) (file : VfsFile π) : List (VfsFileItem π) → List (VfsFileItem π)
  | [] => []
  | item :: rest =>
      if item.fd = fd then { item with file := file } :: rest
      else item :: setFile fd file rest

/-- `vfs_read` into a buffer, which may be null; the result is what it returns
and the bytes put into the buffer. -/
def vfsRead (s : Vfs ω π) (fd : Int) (buf : Bool) (len : Nat) :
    Option (Vfs ω π × Int × List UInt8) := do
  match vfsFindFile s fd with
  | none => return (s, -EBADF, [])
  | some item =>
      if !buf ∧ len ≠ 0 then return (s, -EINVAL, [])
      let node ← s.nodes item.file.node
      match node.fops.bind FileOps.readFn with
      | none => return (s, -ENOSYS, [])
      | some readFn =>
          let (world, priv, ret, bytes) := readFn s.world node.priv item.file len
          let pos :=
            if ret > 0 then (item.file.pos + ret.toNat) % 2 ^ 64 else item.file.pos
          let file := { item.file with privateData := priv, pos := pos }
          return ({ s with world := world, fileHead := setFile fd file s.fileHead },
            ret, bytes)

inductive Whence where
  | set
  | cur
  | fin
  | other
deriving DecidableEq, Repr

def vfsLseek (s : Vfs ω π) (fd : Int) (off : Int) (whence : Whence) :
    Vfs ω π × Int :=
  match vfsFindFile s fd with
  | none => (s, -EBADF)
  | some item =>
      match whence with
      | .fin => (s, -ENOSYS)
      | .other => (s, -EINVAL)
      | .set => seek item 0
      | .cur => seek item (wrapLong item.file.pos)
where
  seek (item : VfsFileItem π) (base : Int) : Vfs ω π × Int :=
    let npos := wrapLong (base + off)
    if npos < 0 then (s, -EINVAL)
    else
      ({ s with fileHead := setFile fd { item.file with pos := npos.toNat } s.fileHead },
        npos)

def vfsClose (s : Vfs ω π) (fd : Int) : Option (Vfs ω π × Int) := do
  match vfsFindFile s fd with
  | none => return (s, -EBADF)
  | some item =>
      let node ← s.nodes item.file.node
      let fileHead := s.fileHead.eraseP (·.fd = fd)
      match node.fops.bind FileOps.closeFn with
      | none => return ({ s with fileHead := fileHead }, 0)
      | some closeFn =>
          let (world, _, ret) := closeFn s.world node.priv item.file
          return ({ s with world := world, fileHead := fileHead }, ret)

/-! ## Mounts -/

def vfsFindFilesystem (s : Vfs ω π) (name : CStr) : Option FsType :=
  s.fsTypes.find? (·.name = some name)

def vfsRegisterFilesystem (s : Vfs ω π) (type : Option FsType) : Vfs ω π × Int :=
  match type with
  | none => (s, -EINVAL)
  | some type =>
      match type.name, type.mount with
      | some name, some _ =>
          if (vfsFindFilesystem s name).isSome then (s, -EEXIST)
          else ({ s with fsTypes := type :: s.fsTypes }, 0)
      | _, _ => (s, -EINVAL)

/-- `vfs_try_mount`.  The mount gets its name when it takes effect: a callback
mounts nothing itself. -/
def vfsTryMount (code : FsCode ω π) (s : Vfs ω π) (mp : Nat) (type : FsType)
    (source : Option CStr) (data : Option π) : Option (Vfs ω π × Int) := do
  let (s, mnt) := s.malloc
  if !mnt then return (s, -ENOMEM)
  let (s, setup, ret) ← code.mount (← type.mount) s source data
  if ret ≠ 0 then return (s, ret)
  match setup.root with
  | none => return (s, -EINVAL)
  | some root =>
      let mnt : VfsMount π :=
        { mountpoint := mp, root := root, sops := setup.sops, priv := setup.priv }
      let node ← s.nodes mp
      let s := s.setNode mp { node with mnt := some s.nextMount }
      return ({ s with
        mounts := Function.update s.mounts s.nextMount (some mnt)
        nextMount := s.nextMount + 1 }, 0)

/-- The auto-detection loop of `vfs_mount` over the file systems that live on
a block device. -/
def autoMount (code : FsCode ω π) (mp : Nat) (source : Option CStr)
    (data : Option π) : List FsType → Vfs ω π → Option (Vfs ω π × Int)
  | [], s => some (s, -ENODEV)
  | type :: rest, s =>
      if !type.requiresDev then autoMount code mp source data rest s
      else do
        let (s, ret) ← vfsTryMount code s mp type source data
        if ret = 0 then return (s, 0)
        autoMount code mp source data rest s

def vfsMount (code : FsCode ω π) (s : Vfs ω π) (source target fstype : Option CStr)
    (data : Option π) : Option (Vfs ω π × Int) := do
  match target with
  | none => return (s, -EINVAL)
  | some target =>
      if !vfsIsPathValid target then return (s, -EINVAL)
      -- the mountpoint itself, not what is mounted on it
      match ← vfsLookupNodeEx code s target false with
      | (s, none) => return (s, -ENOENT)
      | (s, some (mp, _)) =>
          let node ← s.nodes mp
          if node.type ≠ .dir then return (s, -ENOTDIR)
          if node.mnt.isSome then return (s, -EBUSY)
          match fstype with
          | some fstype =>
              match vfsFindFilesystem s fstype with
              | none => return (s, -ENODEV)
              | some type => vfsTryMount code s mp type source data
          | none => autoMount code mp source data s.fsTypes s

/-- `vfs_node_under_root`, which follows the parents of the node. -/
def nodeUnderRoot (s : Vfs ω π) (root : Nat) : Nat → Option Nat → Option Bool
  | _, none => some false
  | 0, some _ => none
  | fuel + 1, some node =>
      if node = root then some true
      else do nodeUnderRoot s root fuel (← s.nodes node).parent

/-- Some open file is under the root. -/
def anyUnderRoot (s : Vfs ω π) (root : Nat) : List (VfsFileItem π) → Option Bool
  | [] => some false
  | item :: rest => do
      if ← nodeUnderRoot s root s.nextNode (some item.file.node) then return true
      anyUnderRoot s root rest

/-- The file system's own `umount`, if it has one. -/
def callUmount (code : FsCode ω π) (s : Vfs ω π) (mnt : VfsMount π) :
    Option (Vfs ω π × Int) :=
  match mnt.sops.bind code.umount with
  | none => some (s, 0)
  | some umount => umount s mnt

def vfsUmount (code : FsCode ω π) (s : Vfs ω π) (target : Option CStr) :
    Option (Vfs ω π × Int) := do
  match target with
  | none => return (s, -EINVAL)
  | some target =>
      if !vfsIsPathValid target then return (s, -EINVAL)
      match ← vfsLookupNodeEx code s target false with
      | (s, none) => return (s, -ENOENT)
      | (s, some (mp, _)) =>
          match (← s.nodes mp).mnt with
          | none => return (s, -EINVAL)
          | some m =>
              let mnt ← s.mounts m
              if ← anyUnderRoot s mnt.root s.fileHead then return (s, -EBUSY)
              let (s, _) ← callUmount code s mnt
              let node ← s.nodes mp
              let s := s.setNode mp { node with mnt := none }
              let s ← vfsFreeSubtree s mnt.root
              return ({ s with mounts := Function.update s.mounts m none }, 0)

/-! ## Commands -/

/-- `command_ls`, up to what it prints: the file system of a directory, if it
has an `iterate`, first brings all entries into the tree. -/
def commandLs (code : FsCode ω π)
    (iterate : Nat → Option (Vfs ω π → VfsMount π → Nat → Option (Vfs ω π × Int)))
    (s : Vfs ω π) (path : CStr) : Option (Vfs ω π) := do
  if !vfsIsPathValid path then return s
  match ← vfsLookupNodeEx code s path true with
  | (s, none) => return s
  | (s, some (id, mnt)) =>
      if (← s.nodes id).type ≠ .dir then return s
      match mnt with
      | none => return s
      | some mnt =>
          let mount ← s.mounts mnt
          match mount.sops.bind iterate with
          | none => return s
          | some iterate =>
              let (s, _) ← iterate s mount id
              return s

end Zsbl.Common
