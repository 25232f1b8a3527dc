/-
Module: Zsbl.Fs.Fatfs
Purpose: The adapter from the VFS to FatFs, fs/fatfs.c: the operations of its files and its
  directories.
Trusted boundary: FatFs itself
Main exports:
  FilInfo, FatFs, FatfsPriv, fatfsOpen, fatfsRead, fatfsClose, fatfsFops, fatfsMakeNode,
  fatfsLookup, fatfsIterate, fatfsCode
-/
import Zsbl.Common.Vfs

namespace Zsbl.Fs

open Zsbl.Common

/-! ## FatFs -/

/-- `FILINFO`, as far as the adapter reads it. -/
structure FilInfo where
  fname : CStr
  fattrib : BitVec 8
deriving DecidableEq, Repr

def AM_DIR : BitVec 8 := 0x10

def FA_READ : BitVec 8 := 0x01

def FR_OK : Nat := 0

/-- The functions of FatFs that the adapter calls, on the state `ω` of the media and
drivers, with `FIL` and `DIR` objects `φ` and `δ`; and `malloc` of a `FIL`.  File offsets
are of `FSIZE_t` and lengths of `UINT`, of 32 bits both; what `f_read` counts is the
length of what it puts into the buffer. -/
structure FatFs (ω φ δ : Type) where
  mallocFil : ω → ω × Bool
  fOpen : ω → CStr → BitVec 8 → ω × φ × Nat
  fLseek : ω → φ → BitVec 32 → ω × φ × Nat
  fRead : ω → φ → BitVec 32 → ω × φ × Nat × List UInt8
  fClose : ω → φ → ω
  fStat : ω → CStr → ω × FilInfo × Nat
  fOpendir : ω → CStr → ω × δ × Nat
  fReaddir : ω → δ → ω × δ × FilInfo × Nat
  fClosedir : ω → δ → ω

/-- What the private data of the adapter's nodes and files points at. -/
inductive FatfsPriv (φ : Type) where
  | path (path : CStr)
  | fil (fil : φ)

variable {ω φ δ : Type} (fat : FatFs ω φ δ)

/-! ## Files -/

/-- `fatfs_open`.  A node of the adapter has a path. -/
def fatfsOpen (world : ω) (priv : Option (FatfsPriv φ)) (file : VfsFile (FatfsPriv φ)) :
    ω × Option (FatfsPriv φ) × Int :=
  let (world, fil) := fat.mallocFil world
  if !fil then (world, file.privateData, -ENOMEM)
  else
    match priv with
    | some (.path path) =>
        let (world, fil, res) := fat.fOpen world path FA_READ
        if res ≠ FR_OK then (world, file.privateData, - EIO)
        else (world, some (.fil fil), 0)
    | _ => (world, file.privateData, - EIO)

/-- `fatfs_read`, which converts the position and the length to what FatFs takes.  Without
a `FIL`, `f_lseek` refuses. -/
def fatfsRead (world : ω) (_ : Option (FatfsPriv φ)) (file : VfsFile (FatfsPriv φ)) (len : Nat) :
    ω × Option (FatfsPriv φ) × Int × List UInt8 :=
  match file.privateData with
  | some (.fil fil) =>
      let (world, fil, res) := fat.fLseek world fil (BitVec.ofNat 32 file.pos)
      if res ≠ FR_OK then (world, some (.fil fil), - EIO, [])
      else
        let (world, fil, res, bytes) := fat.fRead world fil (BitVec.ofNat 32 len)
        if res ≠ FR_OK then (world, some (.fil fil), - EIO, bytes)
        else (world, some (.fil fil), bytes.length, bytes)
  | priv => (world, priv, - EIO, [])

def fatfsClose (world : ω) (_ : Option (FatfsPriv φ)) (file : VfsFile (FatfsPriv φ)) :
    ω × Option (FatfsPriv φ) × Int :=
  match file.privateData with
  | some (.fil fil) => (fat.fClose world fil, none, 0)
  | priv => (world, priv, 0)

def fatfsFops : FileOps ω (FatfsPriv φ) where
  openFn := some (fatfsOpen fat)
  readFn := some (fatfsRead fat)
  closeFn := some (fatfsClose fat)

/-! ## Directories -/

def FATFS_PATH_MAX : Nat := 256

def FilInfo.isDir (info : FilInfo) : Bool := info.fattrib &&& AM_DIR ≠ 0

/-- What `snprintf` makes of "%s/%s". -/
def entryPath (dir name : CStr) : CStr := dir ++ slash :: name

/-- `fatfs_make_node`: a node whose private data is a copy of its path. -/
def fatfsMakeNode (s : Vfs ω (FatfsPriv φ)) (dir : Nat) (name path : CStr) (isDir : Bool) :
    Option (Vfs ω (FatfsPriv φ) × Option Nat) :=
  let (s, copied) := s.malloc
  vfsMknod s (some dir) name (if isDir then .dir else .reg)
    (if isDir then none else some (fatfsFops fat)) (if copied then some (.path path) else none)

/-- `fatfs_lookup`.  A directory of the adapter has a path. -/
def fatfsLookup (s : Vfs ω (FatfsPriv φ)) (_ : VfsMount (FatfsPriv φ)) (dir : Nat)
    (name : CStr) : Option (Vfs ω (FatfsPriv φ) × Option Nat) := do
  match (← s.nodes dir).priv with
  | some (.path parent) =>
      let path := entryPath parent name
      if path.length ≥ FATFS_PATH_MAX then return (s, none)
      let (world, info, res) := fat.fStat s.world path
      let s := { s with world := world }
      if res ≠ FR_OK then return (s, none)
      fatfsMakeNode fat s dir name path info.isDir
  | _ => return (s, none)

/-- The loop of `fatfs_iterate`. -/
def fatfsIterateFrom (dir : Nat) (parent : CStr) :
    Nat → Vfs ω (FatfsPriv φ) → δ → Option (Vfs ω (FatfsPriv φ) × δ)
  | 0, _, _ => none
  | fuel + 1, s, dp => do
      let (world, dp, info, res) := fat.fReaddir s.world dp
      let s := { s with world := world }
      if res ≠ FR_OK ∨ info.fname = [] then return (s, dp)
      let path := entryPath parent info.fname
      if path.length ≥ FATFS_PATH_MAX then fatfsIterateFrom dir parent fuel s dp
      else
        -- names that are already present are skipped
        let (s, _) ← fatfsMakeNode fat s dir info.fname path info.isDir
        fatfsIterateFrom dir parent fuel s dp

def fatfsIterate (fuel : Nat) (s : Vfs ω (FatfsPriv φ)) (_ : VfsMount (FatfsPriv φ))
    (dir : Nat) : Option (Vfs ω (FatfsPriv φ) × Int) := do
  match (← s.nodes dir).priv with
  | some (.path parent) =>
      let (world, dp, res) := fat.fOpendir s.world parent
      let s := { s with world := world }
      if res ≠ FR_OK then return (s, - EIO)
      let (s, dp) ← fatfsIterateFrom fat dir parent fuel s dp
      return ({ s with world := fat.fClosedir s.world dp }, 0)
  | _ => return (s, - EIO)

/-- The address of `fatfs_sops`, the only `struct vfs_super_ops` there is. -/
def fatfsSops : Nat := 0

/-- The callbacks of the file systems: `fatfs_sops` has a `lookup` and no `umount`. -/
def fatfsCode (mount : Nat → Vfs ω (FatfsPriv φ) → Option CStr → Option (FatfsPriv φ) →
      Option (Vfs ω (FatfsPriv φ) × MountSetup (FatfsPriv φ) × Int)) :
    FsCode ω (FatfsPriv φ) where
  mount := mount
  lookup := fun address => if address = fatfsSops then some (fatfsLookup fat) else none
  umount := fun _ => none

/-- The `iterate` callbacks. -/
def fatfsIterateAt (fuel address : Nat) :
    Option (Vfs ω (FatfsPriv φ) → VfsMount (FatfsPriv φ) → Nat →
      Option (Vfs ω (FatfsPriv φ) × Int)) :=
  if address = fatfsSops then some (fatfsIterate fat fuel) else none

end Zsbl.Fs
