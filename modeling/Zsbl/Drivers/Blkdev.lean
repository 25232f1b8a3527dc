/-
Module: Zsbl.Drivers.Blkdev
Purpose: Reading from the three kinds of block devices: drivers/blkdev/virtio-blk,
  sdhci-dwc over mmc.c, and mtdblock.
Trusted boundary: devices and the mmc layer transfer the sectors they are asked for
Main exports:
  Medium, virtioBlkRead, sdRead, mtdblockRead, BlkdevKind, blkdevRead
-/
import Zsbl.Include.Libc

namespace Zsbl.Drivers

/-- What a device holds, whether it fails the next request, and what else is in
reach: a buffer is its bytes by position. -/
structure Medium where
  bytes : Nat → UInt8
  fails : Bool

abbrev Buffer : Type := Nat → UInt8

/-- Bytes of the medium arrive in the buffer. -/
def transfer (medium : Medium) (start len : Nat) (buf : Buffer) : Buffer :=
  fun i => if i < len then medium.bytes (start + i) else buf i

/-! ## virtio-blk -/

/-- `virtio_blk_rw` of a read.  The descriptor holds the number of bytes in 32
bits, and the device fills as many. -/
def virtioBlkRw (medium : Medium) (sector count : BitVec 64) (buf : Buffer) :
    Int × Buffer :=
  let bytes := count * 512
  let len := bytes.setWidth 32
  if medium.fails then (- EIO, buf)
  else (bytes.toInt, transfer medium (sector.toNat * 512) len.toNat buf)

def virtioBlkRead (medium : Medium) (offset size : BitVec 64) (buf : Buffer) :
    Int × Buffer :=
  virtioBlkRw medium (offset / 512) (size / 512) buf

/-! ## sdhci-dwc -/

/-- `mmc_read_blocks`, whose block number is an `int` and goes into the command
as an `unsigned int`.  Its assertions only print.  For a size between 0 and 512 the command
is one of no blocks: that it stores nothing and that `size` is returned then is assumed of the
layers below. -/
def mmcReadBlocks (medium : Medium) (lba : BitVec 32) (size : BitVec 64) (buf : Buffer) :
    BitVec 64 × Buffer :=
  if medium.fails then (0, buf)
  else (size, transfer medium (lba.toNat * 512) (size.toNat / 512 * 512) buf)

/-- `read` of sd.c. -/
def sdRead (medium : Medium) (offset size : BitVec 64) (buf : Buffer) : Int × Buffer :=
  let (ret, buf) := mmcReadBlocks medium ((offset / 512).setWidth 32) size buf
  (ret.toInt, buf)

/-! ## mtdblock -/

/-- `mtd_read`, which is exact. -/
def mtdRead (medium : Medium) (offset size : BitVec 64) (buf : Buffer) : Int × Buffer :=
  if medium.fails then (- EIO, buf)
  else (size.toInt, transfer medium offset.toNat size.toNat buf)

def mtdblockRead (medium : Medium) (offset size : BitVec 64) (buf : Buffer) :
    Int × Buffer :=
  mtdRead medium offset size buf

/-! ## Block devices -/

inductive BlkdevKind where
  | virtioBlk
  | sdhciDwc
  | mtdblock
deriving DecidableEq, Repr

/-- `blkdev_read`, which calls the operation of the device. -/
def blkdevRead : BlkdevKind → Medium → BitVec 64 → BitVec 64 → Buffer → Int × Buffer
  | .virtioBlk => virtioBlkRead
  | .sdhciDwc => sdRead
  | .mtdblock => mtdblockRead

end Zsbl.Drivers
