/-
Module: Zsbl.Fs.FatVolume
Purpose: What FatFs shows of its volumes, and the nodes of the VFS that stand for their entries.
Trusted boundary: none
Main exports:
  FatVolume, FatVolume.KeepsPlain, FatFs.Shows, fatContents, InFat, StandsFor, OneEach, Mirrors,
  FatOp, FatStep
-/
import Zsbl.Common.VfsContents
import Zsbl.Fs.Fatfs

namespace Zsbl.Fs

open Zsbl.Common

variable {ω φ δ ε : Type}

/-! ## Volumes -/

/-- Volumes with the entries `ε`: the entry that `f_stat` finds at a path, and the entries
that `f_readdir` returns for a directory.  How `f_stat` compares names is left open, and where
it cuts a path into them: with a backslash in it, a name may lead out of the directory. -/
structure FatVolume (ε : Type) where
  stat : CStr → Option (ε × FilInfo)
  entries : CStr → Option (List (ε × FilInfo))
  once : ∀ dir list, entries dir = some list → (list.map Prod.fst).Nodup
  stored : ∀ dir list entry, entries dir = some list → entry ∈ list →
    vfsNameValid entry.2.fname = true ∧ stat (entryPath dir entry.2.fname) = some entry

/-- `toupper` of the C locale. -/
def upper (char : UInt8) : UInt8 := if 97 ≤ char ∧ char ≤ 122 then char - 32 else char

/-- `f_stat` does not see the case of letters. -/
def FatVolume.FoldsCase (volume : FatVolume ε) : Prop :=
  ∀ path path', path.map upper = path'.map upper → volume.stat path = volume.stat path'

/-- FatFs takes the name as one: it has no backslash in it, and no control character, at which
FatFs ends a path. -/
def PlainName (name : CStr) : Prop := ∀ char ∈ name, char ≠ 92 ∧ 32 ≤ char

/-- `f_stat` finds the entries of the directory under the names that are taken as one. -/
def FatVolume.KeepsPlain (volume : FatVolume ε) : Prop :=
  ∀ dir name entry, vfsNameValid name = true → PlainName name →
    volume.stat (entryPath dir name) = some entry → ∃ list, volume.entries dir = some list ∧
      entry ∈ list

/-- FatFs shows the volume: `Reading` tells which entries a `DIR` has yet to return. -/
structure FatFs.Shows (fat : FatFs ω φ δ) (volume : FatVolume ε)
    (Reading : δ → List (ε × FilInfo) → Prop) : Prop where
  found : ∀ world path entry, volume.stat path = some entry →
    ∃ world', fat.fStat world path = (world', entry.2, FR_OK)
  missing : ∀ world path, volume.stat path = none → (fat.fStat world path).2.2 ≠ FR_OK
  opened : ∀ world path list, volume.entries path = some list →
    ∃ world' dp, fat.fOpendir world path = (world', dp, FR_OK) ∧ Reading dp list
  unopened : ∀ world path, volume.entries path = none → (fat.fOpendir world path).2.2 ≠ FR_OK
  next : ∀ world dp entry rest, Reading dp (entry :: rest) →
    ∃ world' dp', fat.fReaddir world dp = (world', dp', entry.2, FR_OK) ∧ Reading dp' rest
  fin : ∀ world dp, Reading dp [] → (fat.fReaddir world dp).2.2.1.fname = []

/-- The node that `fatfs_make_node` creates of what is at a path. -/
def entryNode (fat : FatFs ω φ δ) (path : CStr) (info : FilInfo) : Entry ω (FatfsPriv φ) where
  type := if info.isDir then .dir else .reg
  fops := if info.isDir then none else some (fatfsFops fat)
  priv := some (.path path)

/-- What `fatfs_lookup` has in a directory. -/
def fatContents (fat : FatFs ω φ δ) (volume : FatVolume ε) : Contents ω (FatfsPriv φ) :=
  fun _ _ priv name =>
    match priv with
    | some (.path dir) =>
        if (entryPath dir name).length ≥ FATFS_PATH_MAX then none
        else (volume.stat (entryPath dir name)).map fun entry =>
          entryNode fat (entryPath dir name) entry.2
    | _ => none

/-! ## Nodes of entries -/

/-- The node is in the tree of a mounted FAT volume. -/
def InFat (s : Vfs ω (FatfsPriv φ)) (id : Nat) : Prop :=
  ∃ m mount, s.mounts m = some mount ∧ mount.sops = some fatfsSops ∧ Under s mount.root id

/-- The child of the directory stands for the entry that its path leads to. -/
def StandsFor (volume : FatVolume ε) (s : Vfs ω (FatfsPriv φ)) (dir id : Nat) (entry : ε) : Prop :=
  ∃ node path info, s.nodes id = some node ∧ node.parent = some dir ∧
    node.priv = some (.path path) ∧ volume.stat path = some (entry, info)

/-- No directory of a FAT volume has two children that stand for the same entry. -/
def OneEach (volume : FatVolume ε) (s : Vfs ω (FatfsPriv φ)) : Prop :=
  ∀ dir id id' entry, InFat s dir → StandsFor volume s dir id entry →
    StandsFor volume s dir id' entry → id = id'

/-- The children of the directory and its entries are one to one, as far as the paths of the
entries are short enough. -/
structure Mirrors (volume : FatVolume ε) (s : Vfs ω (FatfsPriv φ)) (dir : Nat) (path : CStr)
    (list : List (ε × FilInfo)) : Prop where
  child : ∀ entry ∈ list, (entryPath path entry.2.fname).length < FATFS_PATH_MAX →
    ∃! id, StandsFor volume s dir id entry.1
  entry : ∀ id node, s.nodes id = some node → node.parent = some dir →
    ∃! entry, entry ∈ list ∧ StandsFor volume s dir id entry.1

/-! ## Accesses -/

/-- The calls that use what is mounted, and `ls` of a directory. -/
inductive FatOp (ω π : Type) where
  | call (op : VfsOp ω π)
  | list (path : CStr)

inductive FatStep (code : FsCode ω (FatfsPriv φ)) (fat : FatFs ω φ δ) :
    Vfs ω (FatfsPriv φ) → FatOp ω (FatfsPriv φ) → Vfs ω (FatfsPriv φ) → Prop where
  | call {s s' : Vfs ω (FatfsPriv φ)} {op : VfsOp ω (FatfsPriv φ)} (access : op.Access)
      (taken : VfsStep code s op s') : FatStep code fat s (.call op) s'
  | list {s s' : Vfs ω (FatfsPriv φ)} {path : CStr} {fuel : Nat}
      (done : commandLs code (fatfsIterateAt fat fuel) s path = some s') :
      FatStep code fat s (.list path) s'

end Zsbl.Fs
