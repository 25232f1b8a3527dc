/-
Module: Zsbl.Plat.Sg2042
Purpose: The DDR channels of the sg2042 and the memory nodes made of them,
  plat/sg2042/mp/zsbl/plat.c.
Trusted boundary: none
Main exports:
  DdrInfo, MemoryNode, getDdrSize, buildDdrInfo, buildBoardInfo, modifyDdrNode
-/
import Zsbl.Lib.Spans

namespace Zsbl.Plat.Sg2042

open Zsbl.Lib

def MAX_CHIP_NUM : Nat := 2

def DDR_CHANNEL_NUM : Nat := 4

def MAX_PHY_ADDR_WIDTH : Nat := 40

def CHIP_ADDR_SPACE : Nat := 2 ^ 39

def DDR_SIZE_ZERO : Nat := 41

/-- Bit 15 of the boot selection register. -/
def MULTI_SOCKET_MODE : BitVec 32 := 1#32 <<< 15

/-- `struct ddr_info`. -/
structure DdrInfo where
  base : Nat
  size : Nat
deriving DecidableEq, Repr

/-- The fields of `struct config` that the memory map depends on.  `ddr` has the
channels of the chips whose registers were read. -/
structure Config where
  multiSocketMode : Bool
  ddr : List (List DdrInfo)
deriving DecidableEq, Repr

/-- A memory node of the device tree: its `reg` and its `numa-node-id`. -/
structure MemoryNode where
  addr : Nat
  len : Nat
  numaNodeId : Nat
deriving DecidableEq, Repr

def DdrInfo.span (info : DdrInfo) : Span := ⟨info.base, info.size⟩

def MemoryNode.span (node : MemoryNode) : Span := ⟨node.addr, node.len⟩

/-- `get_ddr_size`.  A missing result is a shift that C leaves undefined: its
distance, the unsigned difference, is 64 or more. -/
def getDdrSize (ddrRegSize : BitVec 64) (ddrChannel : Nat) : Option Nat :=
  let ddrSize :=
    ((0xff#64 <<< (ddrChannel <<< 3)) &&& ddrRegSize) >>> (ddrChannel <<< 3)
  if ddrSize.toNat = DDR_SIZE_ZERO then some 0
  else if MAX_PHY_ADDR_WIDTH < ddrSize.toNat then none
  else some (2 ^ (MAX_PHY_ADDR_WIDTH - ddrSize.toNat))

/-- The loop of `build_ddr_info` over a number of channels. -/
def buildDdrFrom (ddrRegSize : BitVec 64) : Nat → Nat → Nat → Option (List DdrInfo)
  | 0, _, _ => some []
  | count + 1, i, ddrStartBase => do
      let size ← getDdrSize ddrRegSize i
      let rest ← buildDdrFrom ddrRegSize count (i + 1) ((ddrStartBase + size) % 2 ^ 64)
      return ⟨ddrStartBase, size⟩ :: rest

/-- `build_ddr_info` of a chip whose size register holds this value. -/
def buildDdrInfo (ddrRegSize : BitVec 32) (chipNum : Nat) : Option (List DdrInfo) :=
  buildDdrFrom (ddrRegSize.setWidth 64) DDR_CHANNEL_NUM 0 (CHIP_ADDR_SPACE * chipNum)

/-- The part of `build_board_info` that reads the socket mode and the DDR size
registers of the chips. -/
def buildBoardInfo (bootSel : BitVec 32) (ddrReg : Nat → BitVec 32) : Option Config := do
  let multiSocketMode := bootSel &&& MULTI_SOCKET_MODE ≠ 0
  let first ← buildDdrInfo (ddrReg 0) 0
  if !multiSocketMode then return ⟨multiSocketMode, [first]⟩
  let second ← buildDdrInfo (ddrReg 1) 1
  return ⟨multiSocketMode, [first, second]⟩

/-- `add_memory_node`, for a device tree that takes every node. -/
def addMemoryNode (fdt : List MemoryNode) (addr len numaNodeId : Nat) : List MemoryNode :=
  if len = 0 then fdt else fdt ++ [⟨addr, len, numaNodeId⟩]

/-- The memory reserved for the PCIe switch. -/
def reservedStart : Nat := 0xc0000000

def reservedSize : Nat := 0x40000000

/-- The inner loop of `modify_ddr_node` from a channel of a chip on. -/
def modifyDdrFrom (i : Nat) : Nat → List DdrInfo → List MemoryNode → List MemoryNode
  | _, [], fdt => fdt
  | j, channel :: rest, fdt =>
      let numaNodeId := if i = 0 then j else i * DDR_CHANNEL_NUM + j
      if channel.size = 0 then fdt
      else
        let stop := (channel.base + channel.size) % 2 ^ 64
        if i = 0 ∧ j = 0 ∧ reservedStart ≥ channel.base ∧
            reservedStart + reservedSize ≤ stop then
          let fdt := addMemoryNode fdt channel.base (reservedStart - channel.base) numaNodeId
          let size := stop - (reservedStart + reservedSize)
          modifyDdrFrom i (j + 1) rest
            (addMemoryNode fdt (reservedStart + reservedSize) size numaNodeId)
        else
          modifyDdrFrom i (j + 1) rest
            (addMemoryNode fdt channel.base channel.size numaNodeId)

/-- The outer loop of `modify_ddr_node` from a chip on. -/
def modifyChipsFrom : Nat → List (List DdrInfo) → List MemoryNode → List MemoryNode
  | _, [], fdt => fdt
  | i, chip :: rest, fdt => modifyChipsFrom (i + 1) rest (modifyDdrFrom i 0 chip fdt)

def modifyDdrNode (cfg : Config) : List MemoryNode :=
  let chipNum := if cfg.multiSocketMode then MAX_CHIP_NUM else 1
  modifyChipsFrom 0 (cfg.ddr.take chipNum) []

end Zsbl.Plat.Sg2042
