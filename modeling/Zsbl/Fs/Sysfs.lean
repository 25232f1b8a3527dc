/-
Module: Zsbl.Fs.Sysfs
Purpose: The file system that shows a directory for each registered device, fs/sysfs.c.
Trusted boundary: none
Main exports:
  sysfsMount, sysfsType, sysfsSetup
-/
import Zsbl.Common.Vfs
import Zsbl.Drivers.Device

namespace Zsbl.Fs

open Zsbl.Common Zsbl.Drivers Zsbl.Lib

variable {ω π : Type}

/-- "sysfs". -/
def sysfsName : CStr := [0x73, 0x79, 0x73, 0x66, 0x73]

/-- "devices". -/
def devicesName : CStr := [0x64, 0x65, 0x76, 0x69, 0x63, 0x65, 0x73]

/-- "sys". -/
def sysName : CStr := [0x73, 0x79, 0x73]

/-- The loop of `sysfs_mount` over the registry, which looks at no result. -/
def mkdirDevices (s : Vfs ω π) (devices : Nat) : List Device → Option (Vfs ω π)
  | [] => some s
  | dev :: rest => do
      let (s, _) ← vfsMkdir s (some devices) (cstr dev.name)
      mkdirDevices s devices rest

def sysfsMount (deviceGlobalList : List Device) (s : Vfs ω π) (_ : Option CStr)
    (_ : Option π) : Option (Vfs ω π × MountSetup π × Int) := do
  match vfsAllocDirNode s sysfsName with
  | (s, none) => return (s, ⟨none, none, none⟩, -ENOMEM)
  | (s, some root) =>
      match ← vfsMkdir s (some root) devicesName with
      | (s, none) => return (s, ⟨none, none, none⟩, -ENOMEM)
      | (s, some devices) =>
          let s ← mkdirDevices s devices deviceGlobalList
          return (s, ⟨some root, none, none⟩, 0)

/-- `sysfs_type`, with the address of `sysfs_mount`. -/
def sysfsType (mount : Nat) : FsType := { name := some sysfsName, flags := 0, mount := some mount }

def sysfsSetup (code : FsCode ω π) (s : Vfs ω π) (mount : Nat) : Option (Vfs ω π × Int) := do
  let (s, ret) := vfsRegisterFilesystem s (some (sysfsType mount))
  if ret ≠ 0 then return (s, ret)
  match ← vfsMkdir s s.rootNode sysName with
  | (s, none) => return (s, -ENOMEM)
  | (s, some _) => vfsMount code s none (some (slash :: sysName)) (some sysfsName) none

end Zsbl.Fs
