/-
Module: Zsbl.Fs.Automount
Purpose: Mounting every registered block device, fs/automount.c.
Trusted boundary: none
Main exports:
  Blkdev, mountNamed, mountAnon, automountSetup
-/
import Zsbl.Common.Vfs
import Zsbl.Drivers.Device

namespace Zsbl.Fs

open Zsbl.Common Zsbl.Drivers Zsbl.Lib Zsbl.Libs

variable {ω π : Type}

/-- `struct blkdev`, up to what the automount policy looks at: the names of its device, of
which the alias is a string, and the pointer to it that `vfs_mount` gets. -/
structure Blkdev (π : Type) where
  device : Device
  pointer : π
  size : device.aliasName.length = DEVICE_NAME_MAX
  terminated : 0 ∈ device.aliasName

def Blkdev.aliasText (blkdev : Blkdev π) : Text :=
  ⟨cstr blkdev.device.aliasName, zero_notMem_cstr blkdev.device.aliasName⟩

/-- What `snprintf` with the size of a local array leaves there. -/
def printed (strings : BitVec 64 → Text) (size : Nat) (format : Text)
    (args : Nat → BitVec 64) : Option Text := do
  let p ← snprintf strings (List.replicate size 0) size format args
  some ⟨cstr p.out.buf, zero_notMem_cstr p.out.buf⟩

/-- "/mnt/%s". -/
def mntFormat : Text := ⟨[0x2f, 0x6d, 0x6e, 0x74, 0x2f, 0x25, 0x73], by decide⟩

/-- "blk%d". -/
def blkFormat : Text := ⟨[0x62, 0x6c, 0x6b, 0x25, 0x64], by decide⟩

/-- "/%s". -/
def rootFormat : Text := ⟨[0x2f, 0x25, 0x73], by decide⟩

def mountNamed (code : FsCode ω π) (s : Vfs ω π) (blkdev : Blkdev π) (aliasName : Text) :
    Option (Vfs ω π × Int) := do
  let path ← printed (fun _ => aliasName) (8 + DEVICE_NAME_MAX) mntFormat fun _ => 1
  match ← vfsMkdirP s (some path.chars) with
  | (s, none) => return (s, -1)
  | (s, some _) => vfsMount code s none (some path.chars) none (some blkdev.pointer)

def mountAnon (code : FsCode ω π) (s : Vfs ω π) (blkdev : Blkdev π) (index : Int) :
    Option (Vfs ω π × Int) := do
  let name ← printed (fun _ => .empty) 16 blkFormat fun _ => BitVec.ofInt 64 index
  match ← vfsMkdir s s.rootNode name.chars with
  | (s, none) => return (s, -1)
  | (s, some _) =>
      let path ← printed (fun _ => name) 24 rootFormat fun _ => 1
      let (s, ret) ← vfsMount code s none (some path.chars) none (some blkdev.pointer)
      if ret ≠ 0 then
        -- no recognized file system
        let (s, _) ← vfsUnlink s s.rootNode name.chars
        return (s, -1)
      return (s, 0)

/-- A turn of the loop of `automount_setup`: what mounting the device returns, and `anon`. -/
def automountDevice (code : FsCode ω π) (s : Vfs ω π) (anon : Int) (blkdev : Blkdev π) :
    Option (Vfs ω π × Int × Int) := do
  if blkdev.aliasText.chars ≠ [] then
    let (s, ret) ← mountNamed code s blkdev blkdev.aliasText
    return (s, ret, anon)
  else
    let (s, ret) ← mountAnon code s blkdev anon
    return (s, ret, if ret = 0 then wrapInt (anon + 1) else anon)

def automountFrom (code : FsCode ω π) : Vfs ω π → Int → List (Blkdev π) → Option (Vfs ω π)
  | s, _, [] => some s
  | s, anon, blkdev :: rest => do
      let (s, _, anon) ← automountDevice code s anon blkdev
      automountFrom code s anon rest

/-- `automount_setup`, over the registered block devices. -/
def automountSetup (code : FsCode ω π) (s : Vfs ω π) (blkdevs : List (Blkdev π)) :
    Option (Vfs ω π × Int) := do
  let s ← automountFrom code s 0 blkdevs
  return (s, 0)

end Zsbl.Fs
