/-
Module: Zsbl.Libs.Sgmtd
Purpose: The boot device over a flash with a partition table, lib/sgmtd/sgmtd.c.
Trusted boundary: none
Main exports:
  Sgmtd, getPartInfo, getPartInfoByName, getFileSize, load
-/
import Zsbl.Fs.Sgpart

namespace Zsbl.Libs

open Zsbl.Lib Zsbl.Fs

/-- `struct sgmtd`: what a read of the flash at an offset, of a number of bytes,
returns and puts into the buffer, and where the table begins. -/
structure Sgmtd where
  mtd : Nat → Nat → Int × List UInt8
  partitionTableOffset : Nat

/-- `get_part_info`. -/
def getPartInfo (mtd : Nat → Nat → Int × List UInt8) (addr : Nat) : Int × PartInfo :=
  let (err, bytes) := mtd addr PartInfo.sizeof
  let info : PartInfo := ⟨bytes⟩
  if err ≠ PartInfo.sizeof then (-ENOENT, info)
  else if info.magic ≠ DPT_MAGIC then (-EINVAL, info)
  else (0, info)

/-- The loop of `get_part_info_by_name` from an address on.  `strcmp` gets the
`name` array, behind which the rest of the record follows.  A missing result is
a read past the record or a loop that does not end. -/
def partInfoFrom (mtd : Nat → Nat → Int × List UInt8) (name : List UInt8) :
    Nat → Nat → Option (Int × PartInfo)
  | 0, _ => none
  | fuel + 1, addr => do
      let (ret, info) := getPartInfo mtd addr
      let addr := (addr + PartInfo.sizeof) % 2 ^ 32
      if ret ≠ 0 then return (ret, info)
      if ← strEq (info.bytes.drop 4) name then return (ret, info)
      partInfoFrom mtd name fuel addr

/-- `get_part_info_by_name`, whose address is a `uint32_t`.  After `2 ^ 29`
records of 56 bytes the addresses repeat. -/
def getPartInfoByName (mtd : Nat → Nat → Int × List UInt8) (addr : Nat)
    (name : List UInt8) : Option (Int × PartInfo) :=
  partInfoFrom mtd name (2 ^ 29) (addr % 2 ^ 32)

def getFileSize (sgmtd : Sgmtd) (file : List UInt8) : Option Int := do
  let (err, partInfo) ← getPartInfoByName sgmtd.mtd sgmtd.partitionTableOffset file
  if err ≠ 0 then return -ENOENT
  return partInfo.size

def load (sgmtd : Sgmtd) (file : List UInt8) : Option (Int × List UInt8) := do
  let (err, partInfo) ← getPartInfoByName sgmtd.mtd sgmtd.partitionTableOffset file
  if err ≠ 0 then return (-ENOENT, [])
  return sgmtd.mtd partInfo.offset partInfo.size

end Zsbl.Libs
