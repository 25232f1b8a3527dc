/-
Module: Zsbl.Libs.Efi
Purpose: The reader of EFI variables in a firmware volume, lib/efi/efi.c, with
  `wcscmp` of lib/libc/wchar.c.
Trusted boundary: none
Main exports:
  EfiGuid, WStr, EfiVariableZone, efiVzInit, EfiVariable, efiVariableSize,
  efiVariableFirst, efiVariableNext, efiListVariables, efiVzFindVariable
-/
import Zsbl.Include.Libc
import Zsbl.Lib.Bytes
import Zsbl.Lib.Memory

namespace Zsbl.Libs

open Zsbl.Lib

/-! ## Identifiers and names -/

/-- `struct efi_guid`. -/
@[ext]
structure EfiGuid where
  d0 : UInt32
  d1 : UInt16
  d2 : UInt16
  d3 : Vector UInt8 8
deriving DecidableEq, Repr

/-- The bytes of the structure in memory. -/
def EfiGuid.bytes (guid : EfiGuid) : List UInt8 :=
  leBytes 4 guid.d0.toNat ++ leBytes 2 guid.d1.toNat ++ leBytes 2 guid.d2.toNat ++ guid.d3.toList

def EFI_SYSTEM_NVDATA_FV_GUID : EfiGuid :=
  ⟨0xFFF12B8D, 0x7696, 0x4C8B, #v[0xA9, 0x85, 0x27, 0x47, 0x07, 0x5B, 0x4F, 0x50]⟩

def EFI_VARIABLE_GUID : EfiGuid :=
  ⟨0xddcf3616, 0x3275, 0x4164, #v[0x98, 0xb6, 0xfe, 0x85, 0x70, 0x7f, 0xfe, 0x7d]⟩

def EFI_AUTHENTICATED_VARIABLE_GUID : EfiGuid :=
  ⟨0xaaf32c78, 0x947b, 0x439a, #v[0xa1, 0x80, 0x2e, 0x14, 0x4e, 0xc3, 0x77, 0x92]⟩

/-- `compare_guid`. -/
def compareGuid (g0 g1 : List UInt8) : Int := memcmp g0 g1

/-- A wide string, without its NUL. -/
@[ext]
structure WStr where
  chars : List UInt16
  isString : 0 ∉ chars
deriving DecidableEq, Repr

/-! ## Firmware volume -/

/-- The length of the buffer that a firmware volume is read into. -/
def EFI_VARIABLE_FIRMWARE_VOLUME_SIZE : Nat := 0x10000

/-- `struct efi_variable_zone`.  The pointers are offsets from `fv`, which is at the
address `base` and where the memory starts; `stop` is the member `end`. -/
structure EfiVariableZone where
  memory : Memory
  base : Nat
  vs : Nat
  var : Nat
  stop : Nat
  auth : Bool

def EFI_FVH_SIGNATURE : Nat := 0x4856465f

def VARIABLE_STORE_FORMATTED : Nat := 0x5a

def VARIABLE_STORE_HEALTHY : Nat := 0xfe

/-- A number in memory. -/
def peek (memory : Memory) (offset size : Nat) : Nat :=
  le (fetch memory offset size)

/-- `checksum`. -/
def checksum (memory : Memory) (size : Nat) : Nat :=
  ((List.range (size / 2)).map fun i => peek memory (2 * i) 2).sum % 2 ^ 16

/-- `efi_vz_check_fv`. -/
def efiVzCheckFv (memory : Memory) : Int :=
  let headerLen := peek memory 48 2
  if compareGuid (fetch memory 16 16) EFI_SYSTEM_NVDATA_FV_GUID.bytes ≠ 0 then - EINVAL
  else if peek memory 32 8 = 0 ∨ peek memory 32 8 = 0xffffffffffffffff then - EINVAL
  else if peek memory 40 4 ≠ EFI_FVH_SIGNATURE then - EINVAL
  else if headerLen < 64 then - EINVAL
  else if checksum memory headerLen ≠ 0 then - EINVAL
  else 0

/-- Whether the store of this GUID has authenticated headers. -/
def variableStoreAuth (guid : List UInt8) : Option Bool :=
  if compareGuid guid EFI_VARIABLE_GUID.bytes = 0 then some false
  else if compareGuid guid EFI_AUTHENTICATED_VARIABLE_GUID.bytes = 0 then some true
  else none

/-- `efi_vz_check_variable_store`, with the kind of the headers. -/
def efiVzCheckVariableStore (memory : Memory) (vs : Nat) : Except Int Bool :=
  let volumeLen := peek memory 32 8
  let headerLen := peek memory 48 2
  match variableStoreAuth (fetch memory vs 16) with
  | none => .error (- EINVAL)
  | some auth =>
      if (volumeLen + 2 ^ 64 - headerLen) % 2 ^ 64 < peek memory (vs + 16) 4 then
        .error (- EINVAL)
      else if peek memory (vs + 20) 1 ≠ VARIABLE_STORE_FORMATTED then .error (- EINVAL)
      else if peek memory (vs + 21) 1 ≠ VARIABLE_STORE_HEALTHY then .error (- EINVAL)
      else .ok auth

/-- `HEADER_ALIGN`, which aligns the address. -/
def headerAlign (base offset : Nat) : Nat := (base + offset + 3) / 4 * 4 - base

/-- `efi_vz_init`. -/
def efiVzInit (memory : Memory) (base : Nat) : Except Int EfiVariableZone := do
  if efiVzCheckFv memory ≠ 0 then .error (- EINVAL)
  else
    let vs := peek memory 48 2
    let auth ← efiVzCheckVariableStore memory vs
    return { memory, base, vs, auth
             var := headerAlign base (vs + 28)
             stop := vs + peek memory (vs + 16) 4 }

/-! ## Variables

An access to a byte that is not `readable` has no result. -/

/-- `struct efi_variable`. -/
structure EfiVariable where
  auth : Bool
  header : Nat
deriving DecidableEq, Repr

/-- The bytes in front of the name. -/
def EfiVariable.headerSize (var : EfiVariable) : Nat := if var.auth then 60 else 32

/-- `name_size` and `data_size` are next to each other. -/
def EfiVariable.sizesAt (var : EfiVariable) : Nat :=
  var.header + if var.auth then 36 else 8

def VARIABLE_DATA : Nat := 0x55AA

def VAR_ADDED : Nat := 0x3f

def VAR_IN_DELETED_TRANSITION : Nat := 0xfe

variable (readable : Nat → Bool)

/-- A field, or a character of a name. -/
def efiRead (vz : EfiVariableZone) (offset size : Nat) : Option Nat :=
  (fetchIf readable vz.memory offset size).map le

def efiVariableId (vz : EfiVariableZone) (var : EfiVariable) : Option Nat :=
  efiRead readable vz var.header 2

def efiVariableStatus (vz : EfiVariableZone) (var : EfiVariable) : Option Nat :=
  efiRead readable vz (var.header + 2) 1

def efiVariableAttr (vz : EfiVariableZone) (var : EfiVariable) : Option Nat :=
  efiRead readable vz (var.header + 4) 4

def efiVariableNameSize (vz : EfiVariableZone) (var : EfiVariable) : Option Nat :=
  efiRead readable vz var.sizesAt 4

def efiVariableDataSize (vz : EfiVariableZone) (var : EfiVariable) : Option Nat :=
  efiRead readable vz (var.sizesAt + 4) 4

/-- `efi_variable_vendor_guid`, a pointer. -/
def efiVariableVendorGuid (var : EfiVariable) : Nat :=
  var.header + if var.auth then 44 else 16

/-- `efi_variable_name`, a pointer. -/
def efiVariableName (var : EfiVariable) : Nat := var.header + var.headerSize

/-- `efi_variable_data`, a pointer. -/
def efiVariableData (vz : EfiVariableZone) (var : EfiVariable) : Option Nat := do
  let nameSize ← efiVariableNameSize readable vz var
  return efiVariableName var + nameSize

/-- `efi_variable_size`. -/
def efiVariableSize (vz : EfiVariableZone) (var : EfiVariable) : Option Nat := do
  let nameSize ← efiVariableNameSize readable vz var
  let dataSize ← efiVariableDataSize readable vz var
  return ((var.headerSize + nameSize) % 2 ^ 32 + dataSize) % 2 ^ 32

/-- `efi_variable_valid`. -/
def efiVariableValid (vz : EfiVariableZone) (var : EfiVariable) : Option Bool := do
  let id ← efiVariableId readable vz var
  return id = VARIABLE_DATA

def efiVariableFirst (vz : EfiVariableZone) : Option (Int × EfiVariable) := do
  let var := ⟨vz.auth, vz.var⟩
  let valid ← efiVariableValid readable vz var
  if !valid then return (- ENOENT, var)
  else return (0, var)

def efiVariableNext (vz : EfiVariableZone) (var : EfiVariable) :
    Option (Int × EfiVariable) := do
  let size ← efiVariableSize readable vz var
  let var := { var with header := headerAlign vz.base (var.header + size) }
  let valid ← efiVariableValid readable vz var
  if !valid then return (- ENOENT, var)
  else if vz.stop ≤ var.header then return (- ENOENT, var)
  else return (0, var)

/-- The status test of the two loops. -/
def efiVariableAdded (vz : EfiVariableZone) (var : EfiVariable) : Option Bool := do
  let status ← efiVariableStatus readable vz var
  return status = VAR_ADDED ∨ status = VAR_IN_DELETED_TRANSITION &&& VAR_ADDED

/-! ## List -/

/-- The characters that `wputs` shows, with so many left of the `n / 2` it may show. -/
def wputs (vz : EfiVariableZone) : Nat → Nat → Option (List UInt16)
  | ws, 0 => do
      let _ ← efiRead readable vz ws 2
      return []
  | ws, left + 1 => do
      let char ← efiRead readable vz ws 2
      if char = 0 then return []
      else
        let rest ← wputs vz (ws + 2) left
        return UInt16.ofNat char :: rest

/-- What `efi_show_variable` shows. -/
structure ShownVariable where
  offset : Nat
  nameSize : Nat
  dataSize : Nat
  vendorGuid : List UInt8
  name : List UInt16
  attr : Nat
  status : Nat
deriving DecidableEq, Repr

def efiShowVariable (vz : EfiVariableZone) (var : EfiVariable) : Option ShownVariable := do
  let nameSize ← efiVariableNameSize readable vz var
  let dataSize ← efiVariableDataSize readable vz var
  let vendorGuid ← fetchIf readable vz.memory (efiVariableVendorGuid var) 16
  let name ← wputs readable vz (efiVariableName var) (nameSize / 2)
  let attr ← efiVariableAttr readable vz var
  let status ← efiVariableStatus readable vz var
  return ⟨var.header, nameSize, dataSize, vendorGuid, name, attr, status⟩

/-- The loop of `efi_list_variables`, at the `i`-th variable. -/
def listFrom (vz : EfiVariableZone) :
    Nat → Nat → Int × EfiVariable → Option (List (Nat × ShownVariable))
  | 0, _, _ => none
  | fuel + 1, i, (err, var) =>
      if err ≠ 0 then some []
      else do
        let added ← efiVariableAdded readable vz var
        let shown ←
          if added then (efiShowVariable readable vz var).map fun shown => [(i, shown)]
          else some []
        let result ← efiVariableNext readable vz var
        let rest ← listFrom vz fuel (i + 1) result
        return shown ++ rest

/-- `efi_list_variables`; with enough fuel, a missing result is an access to a byte
that is not readable. -/
def efiListVariables (fuel : Nat) (vz : EfiVariableZone) :
    Option (List (Nat × ShownVariable)) := do
  let result ← efiVariableFirst readable vz
  listFrom readable vz fuel 0 result

/-! ## Find -/

/-- `wcscmp` of a string and the one at an offset. -/
def wcscmp (vz : EfiVariableZone) : List UInt16 → Nat → Option Int
  | [], s2 => do
      let char ← efiRead readable vz s2 2
      return 0 - (char : Int)
  | s1 :: rest, s2 => do
      let char ← efiRead readable vz s2 2
      let c := s1 - UInt16.ofNat char
      if c ≠ 0 then return c.toNat
      else wcscmp vz rest (s2 + 2)

/-- The tests that a variable passes where `efi_vz_find_variable` returns it. -/
def efiVariableFound (vz : EfiVariableZone) (vendorGuid : EfiGuid) (name : WStr)
    (var : EfiVariable) : Option Bool := do
  let added ← efiVariableAdded readable vz var
  if !added then return false
  else
    let guid ← fetchIf readable vz.memory (efiVariableVendorGuid var) 16
    if compareGuid guid vendorGuid.bytes ≠ 0 then return false
    else
      let order ← wcscmp readable vz name.chars (efiVariableName var)
      return order = 0

/-- The loop of `efi_vz_find_variable`. -/
def findFrom (vz : EfiVariableZone) (vendorGuid : EfiGuid) (name : WStr) :
    Nat → Int × EfiVariable → Option (Int × EfiVariable)
  | 0, _ => none
  | fuel + 1, (err, var) =>
      if err ≠ 0 then some (- ENOENT, var)
      else do
        let found ← efiVariableFound readable vz vendorGuid name var
        if found then return (0, var)
        else
          let result ← efiVariableNext readable vz var
          findFrom vz vendorGuid name fuel result

def efiVzFindVariable (fuel : Nat) (vz : EfiVariableZone) (vendorGuid : EfiGuid)
    (name : WStr) : Option (Int × EfiVariable) := do
  let result ← efiVariableFirst readable vz
  findFrom readable vz vendorGuid name fuel result

end Zsbl.Libs
