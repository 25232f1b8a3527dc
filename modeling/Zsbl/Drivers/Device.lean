/-
Module: Zsbl.Drivers.Device
Purpose: The names of devices and their registry, drivers/base/device.c, with the names that
  drivers/platform/platform.c gives.
Trusted boundary: fdt_get_path
Main exports:
  Device, deviceSetChildName, platformDeviceCreate, deviceRegister
-/
import Zsbl.Drivers.IrqRegistry
import Zsbl.Libs.Stdio

namespace Zsbl.Drivers

open Zsbl.Lib Zsbl.Libs

/-- The arrays `name` and `alias` of `struct device`, each of `DEVICE_NAME_MAX` bytes. -/
structure Device where
  name : List UInt8
  aliasName : List UInt8
deriving DecidableEq, Repr

/-- "%s:%s". -/
def childNameFormat : Text := ⟨[0x25, 0x73, 0x3a, 0x25, 0x73], by decide⟩

/-- What the two arguments point at: `sys` and the name of the parent. -/
def childNameStrings (sys : Text) (parent : Device) (pointer : BitVec 64) : Text :=
  if pointer = 1 then sys else ⟨cstr parent.name, zero_notMem_cstr parent.name⟩

def childNameArgs (i : Nat) : BitVec 64 := BitVec.ofNat 64 (i + 1)

/-- `device_set_child_name`, but for the warning about a name that has been cut. -/
def deviceSetChildName (child parent : Device) (sys : Text) : Option Device := do
  let printed ← snprintf (childNameStrings sys parent) child.name DEVICE_NAME_MAX
    childNameFormat childNameArgs
  let aliasName ← strcpy child.aliasName 0 (cstr parent.aliasName)
  some { name := printed.out.buf, aliasName }

/-- What `fdt_get_path` for one node leaves in a buffer, and what it returns. -/
abbrev FdtGetPath : Type := List UInt8 → List UInt8 × Int

/-- "%s.%lx". -/
def platformNameFormat : Text := ⟨[0x25, 0x73, 0x2e, 0x25, 0x6c, 0x78], by decide⟩

def platformNameArgs (regBase : BitVec 64) (i : Nat) : BitVec 64 :=
  if i = 0 then 1 else regBase

/-- How `platform_device_create` fills in the alias. -/
def copyAlias (aliasName : List UInt8) (aliasProperty : Option Text) : Option (List UInt8) :=
  match aliasProperty with
  | some property => strcpy aliasName 0 property.chars
  | none => writeBlock aliasName 0 [0]

/-- `platform_device_create`, as far as the arrays of the device go, for a node that has
valid registers.  The structure has been cleared. -/
def platformDeviceCreate (fdtGetPath : FdtGetPath) (compatible : Text) (regBase : BitVec 64)
    (aliasProperty : Option Text) : Option Device := do
  let cleared := List.replicate DEVICE_NAME_MAX 0
  let (path, err) := fdtGetPath cleared
  let name ←
    if err = 0 then some path
    else
      (snprintf (fun _ => compatible) path DEVICE_NAME_MAX platformNameFormat
        (platformNameArgs regBase)).map (·.out.buf)
  let aliasName ← copyAlias cleared aliasProperty
  some { name, aliasName }

/-- `device_register`, which registers a name again after a warning. -/
def deviceRegister (deviceGlobalList : List Device) (dev : Option Device) :
    List Device × Int :=
  match dev with
  | none => (deviceGlobalList, -EINVAL)
  | some dev => (deviceGlobalList ++ [dev], 0)

end Zsbl.Drivers
