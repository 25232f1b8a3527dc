/-
Module: Zsbl.Plat.Bm1690
Purpose: The boot arguments that the bm1690 writes to the device tree of a core,
  modify_node_chosen of plat/bm1690/tp/zsbl/tp_dtb.c.
Trusted boundary: whether malloc and libfdt find space is a parameter
Main exports:
  newBootargs, modifyNodeChosen
-/
import Zsbl.Lib.DeviceTree
import Zsbl.Libs.CString

namespace Zsbl.Plat.Bm1690

open Zsbl.Lib Zsbl.Libs

/-- "initrd=". -/
def initrdText : List UInt8 := [0x69, 0x6e, 0x69, 0x74, 0x72, 0x64, 0x3d]

/-- "chosen". -/
def chosenName : List UInt8 := [0x63, 0x68, 0x6f, 0x73, 0x65, 0x6e]

/-- "bootargs". -/
def bootargsName : List UInt8 := [0x62, 0x6f, 0x6f, 0x74, 0x61, 0x72, 0x67, 0x73]

/-- "stdout-path". -/
def stdoutName : List UInt8 :=
  [0x73, 0x74, 0x64, 0x6f, 0x75, 0x74, 0x2d, 0x70, 0x61, 0x74, 0x68]

/-- "vtty0", as a property. -/
def vtty0 : List UInt8 := [0x76, 0x74, 0x74, 0x79, 0x30, 0]

/-- The number printed with "0x%llx". -/
def addrText (addr : BitVec 64) : List UInt8 := [0x30, 0x78] ++ hexadecimal addr.toNat

/-- The new boot arguments, where `memory` says whether `malloc` succeeds. The result is
missing when bytes are touched that are not those of the property or of the new block, and the
inner one when no number is found. -/
def newBootargs (memory : Bool) (bootargs : List UInt8) (ramSize : BitVec 64)
    (coreId : BitVec 32) : Option (Option (List UInt8)) := do
  -- `pr_info` prints all of the string
  if 0 ∉ bootargs then none
  else
    let found ← strstr bootargs initrdText
    -- where there is none, the null pointer is moved on and read through
    let substrStart ← found.map (· + initrdText.length)
    let (ramfsAddr, endPtr) ← strtoul (bootargs.drop substrStart) 16
    if ramfsAddr = 0 ∧ endPtr = 0 then some none
    else if !memory then none
    else
      let text := addrText (ramfsAddr + ramSize * coreId.signExtend 64)
      let string := cstr bootargs
      let block := List.replicate (string.length + 1 - endPtr + text.length) 0
      let block ← strncpy block 0 string substrStart
      let block ← strcpy block substrStart text
      let block ← strcat block (cstr (bootargs.drop (substrStart + endPtr)))
      some (some (cstr block))

/-- The insertions of `modify_node_chosen`. -/
inductive ChosenEdit where
  | bootargs
  | stdoutPath
deriving DecidableEq, Repr

/-- `modify_node_chosen`, where `room` says whether libfdt finds space for an insertion. -/
def modifyNodeChosen (memory : Bool) (room : ChosenEdit → Bool) (fdt : DtNode)
    (ramSize : BitVec 64) (coreId : BitVec 32) (modifyStdout : Bool) : Option (DtNode × Int) :=
  match fdt.pathOffset [chosenName] with
  | none => some (fdt, -1)
  | some address =>
      match (fdt.get? address).bind (·.prop? bootargsName) with
      | none => some (fdt, -1)
      | some bootargs =>
          match newBootargs memory bootargs ramSize coreId with
          | none => none
          | some none => some (fdt, -1)
          | some (some string) =>
              if !room .bootargs then some (fdt, -1)
              else
                let fdt := fdt.update (·.setProp bootargsName (string ++ [0])) address
                if !modifyStdout then some (fdt, 0)
                else if !room .stdoutPath then some (fdt, -1)
                else some (fdt.update (·.setProp stdoutName vtty0) address, 0)

end Zsbl.Plat.Bm1690
