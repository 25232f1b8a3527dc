/-
Module: Zsbl.Fs.FatfsMount
Purpose: fatfs_mount of fs/fatfs.c on the VFS, the heap and the table of FAT drives.
Trusted boundary: f_mount reads the block device and leaves the table alone
Main exports:
  FatWorld, FatPointers, fatfsMount, freeSlots
-/
import Zsbl.Fs.Automount
import Zsbl.Fs.Fatfs
import Zsbl.Libs.Fatio

namespace Zsbl.Fs

open Zsbl.Common Zsbl.Drivers Zsbl.Lib Zsbl.Libs

variable {ω π : Type}

/-- The table of FAT drives, the address at which the next drive is allocated, and the state
of the media and the other drivers. -/
structure FatWorld (ω : Type) where
  drives : FatioState
  nextDev : Nat
  media : ω

/-- What the adapter points at: the path of a node, and the `struct fatfs_mount` with the drive
at an address. -/
structure FatPointers (π : Type) where
  path : CStr → π
  mount : Nat → π

/-- "fatfs". -/
def fatfsName : CStr := [0x66, 0x61, 0x74, 0x66, 0x73]

/-- "%d:". -/
def volFormat : Text := ⟨[0x25, 0x64, 0x3a], by decide⟩

/-- A `struct vfs_mount` as `vfs_try_mount` passes it. -/
def unset : MountSetup π := ⟨none, none, none⟩

def withDrives (s : Vfs (FatWorld ω) π) (drives : FatioState) : Vfs (FatWorld ω) π :=
  { s with world := { s.world with drives := drives } }

/-- `fatfs_mount`, given which block devices `f_mount` finds to be FAT volumes. -/
def fatfsMount (pointers : FatPointers π) (isFat : π → Bool) (s : Vfs (FatWorld ω) π)
    (_ : Option CStr) (data : Option π) : Option (Vfs (FatWorld ω) π × MountSetup π × Int) := do
  match data with
  | none => return (s, unset, -EINVAL)
  | some data =>
      let (s, fm) := s.malloc
      if !fm then return (s, unset, -ENOMEM)
      let (s, item) := s.malloc
      if !item then return (s, unset, -ENOMEM)
      let fdev := s.world.nextDev
      let s := { s with world := { s.world with nextDev := fdev + 1 } }
      let drives := (fatioAlloc s.world.drives fdev).setDev fdev (some ⟨some fatOps, none⟩)
      let (ret, drives) ← fatioRegister drives fdev
      -- `err_free` frees the drive, also one that is in the table
      if ret ≠ 0 then return (withDrives s (drives.setDev fdev none), unset, ret)
      let volid ← (← drives.devs fdev).id
      let path ← printed (fun _ => .empty) 8 volFormat fun _ => BitVec.ofInt 64 volid
      if !isFat data then return (withDrives s (drives.setDev fdev none), unset, - EIO)
      match vfsAllocDirNode s fatfsName with
      | (s, none) => return (withDrives s (drives.setDev fdev none), unset, -ENOMEM)
      | (s, some root) =>
          let (s, copied) := s.malloc
          let node ← s.nodes root
          let priv := if copied then some (pointers.path path.chars) else none
          return (withDrives (s.setNode root { node with priv := priv }) drives,
            ⟨some root, some fatfsSops, some (pointers.mount fdev)⟩, 0)

/-- The entries of `fatio_list` that are NULL. -/
def freeSlots (world : FatWorld ω) : Nat := world.drives.fatioList.toList.count none

end Zsbl.Fs
