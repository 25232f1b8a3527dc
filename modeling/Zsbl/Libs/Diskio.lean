/-
Module: Zsbl.Libs.Diskio
Purpose: Sector access of lib/fat32/source/diskio.c to the drives of `fatio_list`, and the
  operations behind it, fat_read and fat_write of lib/sgfat/sgfat.c and of fs/fatfs.c.
Trusted boundary: a block device answers with the number of bytes it transferred, or with an
  error
Main exports:
  BlkRequest, Blkdevs, FatioData, fatRw, diskRead, diskWrite
-/
import Zsbl.Libs.Fatio

namespace Zsbl.Libs

/-! ## Block devices -/

/-- A call of `blkdev_read` or of `blkdev_write`. -/
structure BlkRequest where
  blkdev : Nat
  isWrite : Bool
  offset : BitVec 64
  size : BitVec 64
  buf : Nat
deriving DecidableEq, Repr

/-- What is behind the block devices, and what they were asked and answered so far. -/
structure Blkdevs (σ : Type) where
  state : σ
  calls : List (BlkRequest × BitVec 64)

section

variable {σ : Type} (serve : BlkRequest → σ → BitVec 64 × σ)

/-- `blkdev_read` and `blkdev_write`, which call the operation of the device. -/
def blkdevRw (request : BlkRequest) (devs : Blkdevs σ) : BitVec 64 × Blkdevs σ :=
  let (ret, state) := serve request devs.state
  (ret, { state, calls := devs.calls ++ [(request, ret)] })

/-! ## Drives -/

/-- `fdev->data`: in sgfat.c a `struct sgfat`, which has a block device, and in fatfs.c
the block device. -/
inductive FatioData where
  | sgfat (dev : Nat)
  | fatfs (dev : Nat)
deriving DecidableEq, Repr

def FatioData.device : FatioData → Nat
  | .sgfat dev => dev
  | .fatfs dev => dev

/-- `fat_read` and `fat_write` of either file. -/
def fatRw (isWrite : Bool) (data : FatioData) (offset size : BitVec 64) (buf : Nat)
    (devs : Blkdevs σ) : BitVec 64 × Blkdevs σ :=
  blkdevRw serve { blkdev := data.device, isWrite, offset, size, buf } devs

/-! ## Sectors -/

def FF_MAX_SS : BitVec 32 := 512

def RES_OK : Nat := 0

def RES_ERROR : Nat := 1

def STA_NODISK : Nat := 2

/-- The body of `disk_read` and of `disk_write`.  `LBA_t` and `UINT` have 32 bits, and the
products are widened when they are stored.  A missing result is a call through a drive
that is freed or lacks the operation. -/
def diskRw (isWrite : Bool) (s : FatioState) (data : Nat → FatioData) (pdrv : BitVec 8)
    (buff : Nat) (sector count : BitVec 32) (devs : Blkdevs σ) : Option (Nat × Blkdevs σ) :=
  if pdrv.toNat ≥ FF_VOLUMES then some (STA_NODISK, devs)
  else
    match s.fatioList[pdrv.toNat]?.join with
    | none => some (STA_NODISK, devs)
    | some fdev => do
        let fops ← (← s.devs fdev).ops
        if !(if isWrite then fops.write else fops.read) then none
        let offset : BitVec 64 := (sector * FF_MAX_SS).setWidth 64
        let size : BitVec 64 := (count * FF_MAX_SS).setWidth 64
        let (ret, devs) := fatRw serve isWrite (data fdev) offset size buff devs
        if ret = size then some (RES_OK, devs) else some (RES_ERROR, devs)

def diskRead (s : FatioState) (data : Nat → FatioData) (pdrv : BitVec 8) (buff : Nat)
    (sector count : BitVec 32) (devs : Blkdevs σ) : Option (Nat × Blkdevs σ) :=
  diskRw serve false s data pdrv buff sector count devs

/-- Left out of a build with `FF_FS_READONLY`. -/
def diskWrite (s : FatioState) (data : Nat → FatioData) (pdrv : BitVec 8) (buff : Nat)
    (sector count : BitVec 32) (devs : Blkdevs σ) : Option (Nat × Blkdevs σ) :=
  diskRw serve true s data pdrv buff sector count devs

end

end Zsbl.Libs
