/-
Module: Zsbl.Plat.Sg2044Memory
Purpose: The memory node that the sg2044 writes to the device tree, modify_memory_node of
  plat/sg2044/mp/zsbl/plat.c.
Trusted boundary: whether libfdt finds space for an insertion is a parameter
Main exports:
  fdtAddressCells, fdtSizeCells, addrrange, removeMemoryNodes, modifyMemoryNode,
  removeMemoryNodesFrom
-/
import Zsbl.Lib.DeviceTree
import Zsbl.Libs.FdtRw
import Zsbl.Plat.Sg2044

namespace Zsbl.Plat.Sg2044

open Zsbl.Lib

/-! ## Addresses and sizes -/

def FDT_MAX_NCELLS : Nat := 4

def UINT32_MAX : Nat := 2 ^ 32 - 1

/-- `fdt_cells`, with the value that the callers take when there is no such property. -/
def fdtCells (dt : DtNode) (name : List UInt8) (absent : Nat) : Option Nat :=
  match dt.prop? name with
  | none => some absent
  | some c =>
      if c.length ≠ 4 then none
      else if bigEndian c > FDT_MAX_NCELLS then none
      else some (bigEndian c)

def fdtAddressCells (dt : DtNode) : Option Nat := do
  let val ← fdtCells dt (ascii "#address-cells") 2
  if val = 0 then none else some val

def fdtSizeCells (dt : DtNode) : Option Nat :=
  fdtCells dt (ascii "#size-cells") 1

/-- The address as `fdt_appendprop_addrrange` stores it, if it accepts the range. -/
def addrBytes (addrCells addr size : Nat) : Option (List UInt8) :=
  if addrCells = 1 then
    if addr > UINT32_MAX ∨ UINT32_MAX + 1 - addr < size then none else some (beBytes 4 addr)
  else if addrCells = 2 then some (beBytes 8 addr)
  else none

/-- The size as it stores it. -/
def sizeBytes (sizeCells size : Nat) : Option (List UInt8) :=
  if sizeCells = 1 then
    if size > UINT32_MAX then none else some (beBytes 4 size)
  else if sizeCells = 2 then some (beBytes 8 size)
  else none

/-- The bytes that `fdt_appendprop_addrrange` appends. -/
def addrrange (parent : DtNode) (addr size : Nat) : Option (List UInt8) := do
  let addrCells ← fdtAddressCells parent
  let sizeCells ← fdtSizeCells parent
  let first ← addrBytes addrCells addr size
  let second ← sizeBytes sizeCells size
  some (first ++ second)

/-! ## The memory node -/

/-- The insertions of `modify_memory_node`, each of which may find no space. -/
inductive MemoryEdit where
  | subnode
  | reg
  | deviceType
deriving DecidableEq, Repr

/-- The loop that deletes nodes as long as "/memory" leads to one. -/
def removeMemoryNodes : Nat → DtNode → DtNode
  | 0, root => root
  | rounds + 1, root =>
      match root.subnode? (ascii "memory") with
      | none => root
      | some i => removeMemoryNodes rounds (root.mapChildren fun children => children.eraseIdx i)

/-- `dram_size - cfg->reserved_memory_size`. -/
def systemMemorySize (cfg : Config) : BitVec 64 :=
  let dramSize := BitVec.ofNat 64 (cfg.dram.channelNumber * cfg.dram.capacity)
  dramSize - BitVec.ofNat 64 cfg.reservedMemorySize

/-- `modify_memory_node` on the tree at `cfg->dtb.addr`. -/
def modifyMemoryNode (room : MemoryEdit → Bool) (cfg : Config) (root : DtNode) : DtNode :=
  let dramBase := 0x80000000
  let root := removeMemoryNodes root.children.length root
  let name := ascii "memory@80000000"
  if (root.subnode? name).isSome ∨ !room .subnode then root
  else
    let add props := root.mapChildren fun children => DtNode.node name props [] :: children
    match addrrange root dramBase (systemMemorySize cfg).toNat with
    | none => add []
    | some reg =>
        if !room .reg then add []
        else if !room .deviceType then add [(ascii "reg", reg)]
        else add [(ascii "device_type", ascii "memory" ++ [0]), (ascii "reg", reg)]

/-! ## The blob -/

/-- The loop that deletes the memory nodes, on the bytes of the tree. A missing result means that
it would take more turns. -/
def removeMemoryNodesFrom : Nat → List UInt8 → Option (List UInt8)
  | 0, _ => none
  | turns + 1, fdt => do
      let memoryNodeOffset ← Libs.fdtPathOffset fdt (ascii "/memory")
      if memoryNodeOffset ≥ 0 then do
        let deleted ← Libs.fdtDelNode fdt memoryNodeOffset
        removeMemoryNodesFrom turns deleted.1
      else some fdt

end Zsbl.Plat.Sg2044
