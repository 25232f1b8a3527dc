/-
Module: Zsbl.Drivers.Bootdev
Purpose: The boot device list of drivers/boot/bootdev.c and the boot device
  manager that loads files from it.
Trusted boundary: none
Main exports:
  Bootdev, Bdm, bootdevRegister, bootdevAdd, bootdevRemove, sortDevice,
  bdmSetPriority, bdmSetDisabled, bdmLoad, bdmGetFileSize, bdmLts
-/
import Zsbl.Include.Libc
import Zsbl.Include.List
import Zsbl.Lib.Runs

namespace Zsbl.Drivers

open Zsbl.Lib Zsbl.Include

/-- The nodes of a device list: its head, and the list member of each
`struct device`. -/
inductive DevNode where
  | head
  | dev (id : Nat)
deriving DecidableEq, Repr

/-- `struct bootdev_ops`, whose pointers may be null.  `ω` is the state of the
boot media; a load writes the buffer and returns the file's length. -/
structure BootdevOps (ω : Type) where
  load : Option (ω → String → Int)
  getFileSize : Option (ω → String → Int)

/-- `struct bootdev` with the fields of its `struct device`. -/
structure Bootdev (ω : Type) where
  name : String
  aliasName : String
  ops : Option (BootdevOps ω)
  size : Nat
  priority : Int
  disabled : Int

/-- The device list, the list of all devices of the system, and the boot
devices themselves.  `added` counts the calls of `bootdev_add`; `registered`
is history: the devices added and not removed since. -/
structure Bdm (ω : Type) where
  deviceList : Links DevNode
  globalList : Links DevNode
  dev : Nat → Bootdev ω
  added : Nat
  registered : List Nat

def devEntry : DevNode → Option Nat
  | .head => none
  | .dev id => some id

variable {ω : Type}

namespace Bdm

/-- How many devices a walk over the list can meet. -/
def fuel (s : Bdm ω) : Nat := s.added + 1

def setDev (s : Bdm ω) (id : Nat) (dev : Bootdev ω) : Bdm ω :=
  { s with dev := Function.update s.dev id dev }

end Bdm

/-- `bootdev_add`, which also registers the device with the whole system. -/
def bootdevAdd (s : Bdm ω) (id : Nat) : Option (Bdm ω) := do
  let deviceList ← listAddTail s.deviceList (.dev id) .head
  let globalList ← listAddTail s.globalList (.dev id) .head
  return { s with
    deviceList := deviceList
    globalList := globalList
    added := s.added + 1
    registered := s.registered ++ [id] }

def bootdevRemove (s : Bdm ω) (id : Nat) : Option (Bdm ω) := do
  let globalList ← listDel s.globalList (.dev id)
  let deviceList ← listDel s.deviceList (.dev id)
  return { s with
    deviceList := deviceList
    globalList := globalList
    registered := s.registered.erase id }

/-- The mandatory fields that `bootdev_register` checks. -/
def Bootdev.valid (dev : Bootdev ω) : Bool :=
  dev.name ≠ "" && dev.size != 0 &&
    match dev.ops with
    | none => false
    | some ops => ops.getFileSize.isSome && ops.load.isSome

def bootdevRegister (s : Bdm ω) (id : Nat) : Option (Bdm ω × Int) := do
  if (s.dev id).valid then
    return (← bootdevAdd s id, 0)
  else
    return (s, -EINVAL)

def bootdevFirst (m : Links DevNode) : Option Nat := do
  devEntry (← listFirstOrNull m .head)

def bootdevNext (m : Links DevNode) (current : Nat) : Option Nat := do
  if listIsLast m (.dev current) .head then none
  else devEntry (← m.next (.dev current))

/-- `device_find_by_name` from a device on; the outer result is missing when
the walk does not end. -/
def findByNameFrom (s : Bdm ω) (name : String) :
    Nat → Option Nat → Option (Option Nat)
  | _, none => some none
  | 0, some _ => none
  | fuel + 1, some cur =>
      if (s.dev cur).name = name ∨ (s.dev cur).aliasName = name then some (some cur)
      else findByNameFrom s name fuel (bootdevNext s.deviceList cur)

def bootdevFindByName (s : Bdm ω) (name : String) : Option (Option Nat) :=
  findByNameFrom s name s.fuel (bootdevFirst s.deviceList)

/-- The inner loop of `sort_device`. -/
def smallestFrom (s : Bdm ω) (m : Links DevNode) :
    Nat → Option Nat → Nat → Option Nat
  | _, none, smallest => some smallest
  | 0, some _, _ => none
  | fuel + 1, some next, smallest =>
      smallestFrom s m fuel (bootdevNext m next)
        (if (s.dev next).priority < (s.dev smallest).priority then next
          else smallest)

/-- The outer loop of `sort_device`. -/
def sortFrom (s : Bdm ω) : Nat → Links DevNode → Option Nat →
    Option (Links DevNode)
  | _, m, none => some m
  | 0, _, some _ => none
  | fuel + 1, m, some cur => do
      let smallest ← smallestFrom s m s.fuel (bootdevNext m cur) cur
      if smallest ≠ cur then
        let m ← listSwap m (.dev cur) (.dev smallest)
        sortFrom s fuel m (bootdevNext m smallest)
      else
        sortFrom s fuel m (bootdevNext m cur)

/-- `sort_device`: the smaller priority comes first. -/
def sortDevice (s : Bdm ω) : Option (Bdm ω) := do
  let m ← sortFrom s s.fuel s.deviceList (bootdevFirst s.deviceList)
  return { s with deviceList := m }

def bdmSetDisabled (s : Bdm ω) (devname : String) (disabled : Int) :
    Option (Bdm ω × Int) := do
  match ← bootdevFindByName s devname with
  | none => return (s, -ENODEV)
  | some id => return (s.setDev id { s.dev id with disabled := disabled }, 0)

def bdmSetPriority (s : Bdm ω) (devname : String) (priority : Int) :
    Option (Bdm ω × Int) := do
  match ← bootdevFindByName s devname with
  | none => return (s, -ENODEV)
  | some id =>
      let s ← sortDevice (s.setDev id { s.dev id with priority := priority })
      return (s, 0)

/-- `bootdev_load`; a missing result is a call through a null pointer. -/
def bootdevLoad (dev : Bootdev ω) (w : ω) (file : String) : Option Int := do
  return (← (← dev.ops).load) w file

def bootdevGetFileSize (dev : Bootdev ω) (w : ω) (file : String) :
    Option Int := do
  return (← (← dev.ops).getFileSize) w file

/-- What `bdm_load` returns, and the device that its message names. -/
structure LoadResult where
  value : Int
  source : Option Nat
deriving DecidableEq, Repr

def bdmLoadFrom (s : Bdm ω) (w : ω) (file : String) :
    Nat → Option Nat → Option LoadResult
  | _, none => some ⟨- EIO, none⟩
  | 0, some _ => none
  | fuel + 1, some cur => do
      if (s.dev cur).disabled = 1 then
        bdmLoadFrom s w file fuel (bootdevNext s.deviceList cur)
      else
        let err ← bootdevLoad (s.dev cur) w file
        if err > 0 then some ⟨err, some cur⟩
        else bdmLoadFrom s w file fuel (bootdevNext s.deviceList cur)

def bdmLoad (s : Bdm ω) (w : ω) (file : String) : Option LoadResult :=
  bdmLoadFrom s w file s.fuel (bootdevFirst s.deviceList)

def bdmGetFileSizeFrom (s : Bdm ω) (w : ω) (file : String) :
    Nat → Option Nat → Int → Option Int
  | _, none, maxSize => some maxSize
  | 0, some _, _ => none
  | fuel + 1, some cur, maxSize => do
      let size ← bootdevGetFileSize (s.dev cur) w file
      bdmGetFileSizeFrom s w file fuel (bootdevNext s.deviceList cur)
        (if size > maxSize then size else maxSize)

/-- `bdm_get_file_size` asks every device, also a disabled one. -/
def bdmGetFileSize (s : Bdm ω) (w : ω) (file : String) : Option Int :=
  bdmGetFileSizeFrom s w file s.fuel (bootdevFirst s.deviceList) (-ENOENT)

/-! ## Runs -/

inductive BdmOp (ω : Type) where
  | register (id : Nat) (dev : Bootdev ω)
  | add (id : Nat) (dev : Bootdev ω)
  | remove (id : Nat)
  | setPriority (devname : String) (priority : Int)
  | setDisabled (devname : String) (disabled : Int)

/-- The device has both operations. -/
def Bootdev.HasOps (dev : Bootdev ω) : Prop :=
  ∃ load size, dev.ops = some ⟨some load, some size⟩

/-- The callers fill in a device before they add it, add no device that is on
the list, and remove only devices that are; a driver that calls `bootdev_add`
directly brings its operations. -/
inductive BdmStep : Bdm ω → BdmOp ω → Bdm ω → Prop where
  | register {s s' : Bdm ω} {err : Int} (id : Nat) (dev : Bootdev ω)
      (fresh : id ∉ s.registered)
      (done : bootdevRegister (s.setDev id dev) id = some (s', err)) :
      BdmStep s (.register id dev) s'
  | add {s s' : Bdm ω} (id : Nat) (dev : Bootdev ω)
      (fresh : id ∉ s.registered) (hasOps : dev.HasOps)
      (done : bootdevAdd (s.setDev id dev) id = some s') :
      BdmStep s (.add id dev) s'
  | remove {s s' : Bdm ω} (id : Nat) (listed : id ∈ s.registered)
      (done : bootdevRemove s id = some s') :
      BdmStep s (.remove id) s'
  | setPriority {s s' : Bdm ω} {err : Int} (devname : String) (priority : Int)
      (done : bdmSetPriority s devname priority = some (s', err)) :
      BdmStep s (.setPriority devname priority) s'
  | setDisabled {s s' : Bdm ω} {err : Int} (devname : String) (disabled : Int)
      (done : bdmSetDisabled s devname disabled = some (s', err)) :
      BdmStep s (.setDisabled devname disabled) s'

/-- The static initial values: two empty lists. -/
def bdmLts : Lts (Bdm ω) (BdmOp ω) where
  init := fun s =>
    s.deviceList = initListHead ⟨fun _ => none, fun _ => none⟩ .head ∧
      s.globalList = initListHead ⟨fun _ => none, fun _ => none⟩ .head ∧
      s.registered = [] ∧ s.added = 0
  step := BdmStep

end Zsbl.Drivers
