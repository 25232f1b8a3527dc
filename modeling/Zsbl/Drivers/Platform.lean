/-
Module: Zsbl.Drivers.Platform
Purpose: The interrupt numbers of platform devices, drivers/platform/platform.c.
Trusted boundary: the nodes of the device tree in the order of fdt_next_node, each with its
  phandle, which is 0 when there is none
Main exports:
  FdtNode, fdtNodeOffsetByPhandle, platformDeviceFindByOf, platformGetIrq
-/
import Zsbl.Drivers.IrqRegistry
import Zsbl.Lib.Der

namespace Zsbl.Drivers

open Zsbl.Lib Zsbl.Include

/-- A node of the device tree, with its property "interrupts-extended". -/
structure FdtNode where
  offset : Nat
  phandle : BitVec 32
  interruptsExtended : Option (List UInt8)

def fdtNodeOffsetByPhandle (dtb : List FdtNode) (phandle : BitVec 32) : Option Nat :=
  if phandle = 0 ∨ phandle = BitVec.allOnes 32 then none
  else (dtb.find? fun node => node.phandle = phandle).map (·.offset)

def platformDeviceFindByOf (deviceList : List PlatformDevice) (nodeOffset : Nat) :
    Option PlatformDevice :=
  deviceList.find? fun pdev => pdev.ofNodeOffset = nodeOffset

/-- `fdt_get_property` of "interrupts-extended". -/
def fdtInterruptsExtended (dtb : List FdtNode) (nodeOffset : Nat) : Option (List UInt8) :=
  (dtb.find? fun node => node.offset = nodeOffset).bind (·.interruptsExtended)

/-- `fdt32_to_cpu` of the word at an index. -/
def fdt32 (data : List UInt8) (index : Nat) : BitVec 32 :=
  BitVec.ofNat 32 (bigEndian ((data.drop (4 * index)).take 4))

variable {σ : Type}

def platformGetIrq (s : Irqs σ) (dtb : List FdtNode) (deviceList : List PlatformDevice)
    (ofNodeOffset n : Nat) : Int :=
  match fdtInterruptsExtended dtb ofNodeOffset with
  -- plen is then an error, and no n is below its eighth
  | none => -ENODEV
  | some data =>
      let nirq := data.length / 8
      if n ≥ nirq then -ENODEV
      else
        let irqChipPhandle := fdt32 data (2 * n)
        match fdtNodeOffsetByPhandle dtb irqChipPhandle with
        | none => -EINVAL
        | some irqChipOfOffset =>
            let hwirq := fdt32 data (2 * n + 1)
            match platformDeviceFindByOf deviceList irqChipOfOffset with
            | none => -ENODEV
            | some irqChipPdev =>
                match irqGetChipByName s (truncated (irqChipName irqChipPdev.name)) with
                | none => -ENODEV
                | some irqChip => (chipIrq irqChip hwirq).toInt

end Zsbl.Drivers
