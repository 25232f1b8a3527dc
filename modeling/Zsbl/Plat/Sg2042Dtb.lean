/-
Module: Zsbl.Plat.Sg2042Dtb
Purpose: The device tree that the sg2042 makes of the loaded ones, modify_dtb of
  plat/sg2042/mp/zsbl/plat.c.
Trusted boundary: libfdt is a parameter
Main exports:
  BootConfig, Machine, loadDtbs, prepareDtb, modifyCpuNode, modifyEthNode, modifyDtb
-/
import Zsbl.Libs.CString
import Zsbl.Libs.Fdtput
import Zsbl.Plat.Sg2042
import Zsbl.Plat.Sg2044

namespace Zsbl.Plat.Sg2042

open Zsbl.Lib Zsbl.Libs Sg2044

/-! ## Configuration -/

/-- The fields of `struct config` that the device tree depends on. -/
structure BootConfig where
  board : Config
  dtb : BootFile
  dtbo : BootFile
  ramfs : BootFile
  mac0 : BitVec 64
  mac1 : BitVec 64

def CLUSTER_PER_CHIP : Nat := 16

def CORES_PER_CLUSTER : Nat := 4

/-- What `modify_dtb` finds: the blobs at `cfg->dtb.addr` and `cfg->dtbo.addr`, the built-in
one, and the registers of the clusters of a chip. -/
structure Machine (β : Type) where
  cfg : BootConfig
  dtb : β
  dtbo : β
  base : β
  clusterId : Nat → Nat → BitVec 32
  clusterStatus : Nat → Nat → BitVec 32

def chipNum (cfg : BootConfig) : Nat := if cfg.board.multiSocketMode then MAX_CHIP_NUM else 1

section

variable {β : Type} (lib : Libfdt β)

/-! ## The blob -/

/-- `ROUND_UP`, for a power of two. -/
def roundUp (x align : BitVec 32) : BitVec 32 := (x + (align - 1)) &&& ~~~(align - 1)

/-- Where the device tree comes from. -/
def loadedFrom (m : Machine β) : β := if m.cfg.dtb.name.isSome then m.dtb else m.base

/-- The size that `load_dtbs` gives the device tree. -/
def enlargedSize (m : Machine β) : BitVec 32 :=
  let dtbSize := lib.totalsize (loadedFrom m)
  let dtboSize := if m.cfg.dtbo.name.isSome then lib.totalsize m.dtbo else 0
  roundUp (dtbSize + dtboSize + BitVec.ofNat 32 (16 * 1024)) 8

/-- `load_dtbs`, with the error that it only reports. -/
def loadDtbs (m : Machine β) : β × Int :=
  lib.openInto (loadedFrom m) m.dtb (enlargedSize lib m).toInt

def mergeDtbs (m : Machine β) (dtb : β) : β :=
  if m.cfg.dtbo.addr = 0 ∨ m.cfg.dtbo.name = none ∨ m.cfg.dtbo.name = some [] then dtb
  else (lib.overlayApply dtb m.dtbo).1

/-- `add_memory_node` on the blob. -/
def addMemoryNodeTo (fdt : β) (node : MemoryNode) : β :=
  if node.len = 0 then fdt
  else
    let rootNode := lib.pathOffset fdt (ascii "/")
    let added := lib.addSubnode fdt rootNode (ascii "memory@" ++ hexadecimal node.addr)
    let memoryNode := added.2
    if memoryNode < 0 then added.1
    else
      let fdt := (lib.setprop added.1 memoryNode (ascii "device_type") (ascii "memory" ++ [0])).1
      let fdt :=
        (lib.appendpropAddrrange fdt rootNode memoryNode (ascii "reg") node.addr node.len).1
      (lib.setprop fdt memoryNode (ascii "numa-node-id") (beBytes 4 node.numaNodeId)).1

/-- `modify_bootargs`; the bytes of the property are those of a string. -/
def modifyBootargs (cfg : BootConfig) (fdt : β) : β :=
  if cfg.ramfs.name = none then fdt
  else
    let append := ascii "root=/dev/ram0 rw initrd=0x" ++ hexadecimal cfg.ramfs.addr ++ ascii ",32M"
    let chosen := lib.pathOffset fdt (ascii "/chosen")
    let created :=
      if chosen < 0 then lib.addSubnode fdt (lib.pathOffset fdt (ascii "/")) (ascii "chosen")
      else (fdt, chosen)
    let fdt := created.1
    let node := created.2
    if node < 0 then fdt
    else
      match lib.getProperty fdt node (ascii "bootargs") with
      | .ok data =>
          if data.length > 256 - append.length - 1 then fdt
          else (lib.setprop fdt node (ascii "bootargs") (cstr data ++ ascii " " ++ append ++ [0])).1
      | .error _ =>
          (lib.setprop fdt node (ascii "bootargs")
            (ascii "console=ttyS0,115200 earlycon " ++ append ++ [0])).1

/-- `modify_dtb` up to where it rewrites properties. -/
def prepareDtb (m : Machine β) : β :=
  let dtb := (loadDtbs lib m).1
  let dtb := mergeDtbs lib m dtb
  let dtb := (modifyDdrNode m.cfg.board).foldl (addMemoryNodeTo lib) dtb
  modifyBootargs lib m.cfg dtb

/-! ## Calls of `of_modify_prop` -/

/-- The arguments that the calls do not share. -/
structure Call where
  nodeName : List UInt8
  propName : List UInt8
  value : List UInt8
  propType : PropType

/-- `%d` -/
def decimal (number : Int) : List UInt8 :=
  (if number < 0 then ascii "-" else []) ++
    (Nat.toDigits 10 number.natAbs).map fun char => UInt8.ofNat char.toNat

/-- `cpu_node`, for a number of no more digits than it has space for. -/
def cpuNode (cpuId : BitVec 32) : List UInt8 :=
  ascii "/cpus/cpu@" ++ decimal cpuId.toInt ++ ascii "/"

/-- The calls of `modify_chip_node` for a cluster: its cores are disabled. -/
def disabledCores (clusterId : BitVec 32) : List Call :=
  (List.range CORES_PER_CLUSTER).map fun j =>
    ⟨cpuNode (clusterId * BitVec.ofNat 32 CORES_PER_CLUSTER + BitVec.ofNat 32 j),
      ascii "status", ascii "dis" ++ [0], .str⟩

def modifyChipNode (m : Machine β) (chip : Nat) : List Call :=
  (List.range CLUSTER_PER_CHIP).flatMap fun i =>
    if m.clusterStatus chip i = 0 then disabledCores (m.clusterId chip i) else []

def modifyCpuNode (m : Machine β) : List Call :=
  (List.range (chipNum m.cfg)).flatMap (modifyChipNode m)

def mac2byte (mac : BitVec 64) : List UInt8 :=
  [40, 32, 24, 16, 8, 0].map fun shift => UInt8.ofNat ((mac >>> shift) &&& 0xff#64).toNat

def modifyEthNode (cfg : BootConfig) : List Call :=
  (if cfg.mac0 ≠ 0 then
    [⟨ascii "/soc/ethernet@7040026000/", ascii "local-mac-address", mac2byte cfg.mac0, .u8⟩]
  else []) ++
  if cfg.mac1 ≠ 0 ∧ cfg.board.multiSocketMode then
    [⟨ascii "/soc/ethernet@f040026000/", ascii "local-mac-address", mac2byte cfg.mac1, .u8⟩]
  else []

/-! ## Runs -/

/-- A call in a run, with the blob it finds, the memory there is and its result. -/
structure Step (β : Type) where
  call : Call
  before : β
  heap : Heap
  result : Option (β × Int)

/-- `cfg->dtb.size` as an `int`. -/
def dtbLen (cfg : BootConfig) : Int := (BitVec.ofNat 32 cfg.dtb.size).toInt

/-- Some calls in a row, as far as they come back. -/
def runCalls (len : Int) (heaps : Nat → Heap) : Nat → List Call → β → List (Step β)
  | _, [], _ => []
  | n, call :: rest, fdt =>
      let result := ofModifyProp lib (heaps n) fdt len call.nodeName call.propName call.value
        call.propType
      ⟨call, fdt, heaps n, result⟩ ::
        match result with
        | none => []
        | some (fdt, _) => runCalls len heaps (n + 1) rest fdt

/-- The calls of `of_modify_prop` in a run of `modify_dtb`. -/
def modifyDtb (heaps : Nat → Heap) (m : Machine β) : List (Step β) :=
  runCalls lib (dtbLen m.cfg) heaps 0 (modifyCpuNode m ++ modifyEthNode m.cfg) (prepareDtb lib m)

end

end Zsbl.Plat.Sg2042
