/-
Module: Zsbl.Fs.Sgpart
Purpose: The sophgo partition table as a file system, fs/sgpart.c.
Trusted boundary: none
Main exports:
  PartInfo, Media, SgpartPriv, sgpartFops, sgpartAdd, sgpartMount,
  sgpartCode
-/
import Zsbl.Common.Vfs
import Zsbl.Lib.Bytes

namespace Zsbl.Fs

open Zsbl.Lib Zsbl.Common

def DPT_MAGIC : Nat := 0x55aa55aa

def SGPART_MAX_ENTRIES : Nat := 64

/-- `struct part_info` as it is on the medium: 56 bytes, the numbers in
little-endian order. -/
structure PartInfo where
  bytes : List UInt8
deriving DecidableEq, Repr

namespace PartInfo

def sizeof : Nat := 56

def magic (pi : PartInfo) : Nat := le (pi.bytes.take 4)

/-- The `name` array, which need not end in a NUL. -/
def name (pi : PartInfo) : List UInt8 := (pi.bytes.drop 4).take 32

def offset (pi : PartInfo) : Nat := le ((pi.bytes.drop 36).take 4)

def size (pi : PartInfo) : Nat := le ((pi.bytes.drop 40).take 4)

end PartInfo

/-- The block devices: what a read of a device at an offset, of a number of
bytes, returns and puts into the buffer. -/
abbrev Media : Type := Nat → Nat → Nat → Int × List UInt8

/-- What the private pointers of the file system point at: the
`struct sgpart_file` of a file, the `struct sgpart_data` of a mount. -/
inductive SgpartPriv where
  | file (blkdev offset size : Nat)
  | data (blkdev : Option Nat) (offset : Nat)
deriving DecidableEq, Repr

/-- `blkdev_read`. -/
def blkdevRead (media : Media) (blkdev offset size : Nat) : Int × List UInt8 :=
  media blkdev offset size

/-- `sgpart_read`: the private data of its files is always a window. -/
def sgpartRead (media : Media) (priv : Option SgpartPriv) (file : VfsFile SgpartPriv)
    (len : Nat) : Media × Option SgpartPriv × Int × List UInt8 :=
  match priv with
  | some (.file blkdev offset size) =>
      if file.pos ≥ size then (media, file.privateData, 0, [])
      else
        let len := if len > size - file.pos then size - file.pos else len
        (media, file.privateData, blkdevRead media blkdev (offset + file.pos) len)
  | _ => (media, file.privateData, 0, [])

def sgpartFops : FileOps Media SgpartPriv where
  openFn := none
  readFn := some sgpartRead
  closeFn := none

/-- `sgpart_add`, which bounds the copy of the name. -/
def sgpartAdd (s : Vfs Media SgpartPriv) (root : Nat) (pi : PartInfo) (blkdev : Nat) :
    Option (Vfs Media SgpartPriv × Int) := do
  let name := cstr pi.name
  if name = [] then return (s, -EINVAL)
  let (s, pf) := s.malloc
  if !pf then return (s, -ENOMEM)
  match ← vfsMknod s (some root) name .reg (some sgpartFops)
      (some (.file blkdev pi.offset pi.size)) with
  | (s, none) => return (s, -EEXIST)
  | (s, some _) => return (s, 0)

/-- The loop of `sgpart_mount` over the records, of which it takes at most the
given number. -/
def sgpartEntries (blkdev root : Nat) : Nat → Vfs Media SgpartPriv → Nat → PartInfo →
    Option (Vfs Media SgpartPriv)
  | 0, s, _, _ => some s
  | count + 1, s, addr, pi => do
      if pi.magic ≠ DPT_MAGIC then return s
      let (s, _) ← sgpartAdd s root pi blkdev
      let addr := (addr + PartInfo.sizeof) % 2 ^ 64
      let (ret, bytes) := blkdevRead s.world blkdev addr PartInfo.sizeof
      if ret ≠ PartInfo.sizeof then return s
      sgpartEntries blkdev root count s addr ⟨bytes⟩

/-- The name "sgpart". -/
def sgpartName : CStr := [115, 103, 112, 97, 114, 116]

def sgpartMount (s : Vfs Media SgpartPriv) (data : Option SgpartPriv) :
    Option (Vfs Media SgpartPriv × MountSetup SgpartPriv × Int) := do
  let failed : MountSetup SgpartPriv := ⟨none, none, none⟩
  match data with
  | some (.data (some blkdev) offset) =>
      let (ret, bytes) := blkdevRead s.world blkdev offset PartInfo.sizeof
      if ret ≠ PartInfo.sizeof then return (s, failed, - EIO)
      if PartInfo.magic ⟨bytes⟩ ≠ DPT_MAGIC then return (s, failed, -ENODEV)
      match vfsAllocDirNode s sgpartName with
      | (s, none) => return (s, failed, -ENOMEM)
      | (s, some root) =>
          let s ← sgpartEntries blkdev root SGPART_MAX_ENTRIES s offset ⟨bytes⟩
          return (s, ⟨some root, none, none⟩, 0)
  | _ => return (s, failed, -EINVAL)

/-- The callbacks of the file system. -/
def sgpartCode : FsCode Media SgpartPriv where
  mount := fun _ s _ data => sgpartMount s data
  lookup := fun _ => none
  umount := fun _ => none

end Zsbl.Fs
