/-
Module: Zsbl.Drivers.IrqRegistry
Purpose: The interrupt controllers and the handlers that are registered for interrupts,
  drivers/irqchip/interrupt.c.
Trusted boundary: irq_enable of a chip leaves the lists alone, and no chip is registered twice
Main exports:
  RegisteredChip, Irqs, allocIrq, findIrqChip, irqRegisterChip, irqGetChipByName, chipIrq,
  irqRequest, irqFree, irqStep
-/
import Zsbl.Include.Libc
import Zsbl.Include.List

namespace Zsbl.Drivers

open Zsbl.Lib Zsbl.Include

/-- `DEVICE_NAME_MAX`. -/
def DEVICE_NAME_MAX : Nat := 128

/-- `struct platform_device`, by its node in the device tree and its name. -/
structure PlatformDevice where
  ofNodeOffset : Nat
  name : List UInt8
deriving DecidableEq, Repr

/-- `struct irq_chip` on devices in a state `σ`, with the names of its own device. The device
that it belongs to may be null. -/
structure RegisteredChip (σ : Type) where
  irqEnable : BitVec 32 → σ → σ
  hwirqStart : BitVec 32
  irqCount : BitVec 32
  irqStart : BitVec 32
  name : List UInt8
  aliasName : List UInt8
  pdev : Option PlatformDevice

/-- The nodes of the handler list: its head, and the list member of each allocated
`struct irq_data`. -/
inductive IrqNode where
  | head
  | irqd (id : Nat)
deriving DecidableEq, Repr

/-- `struct irq_data`, with its chip by the position in the list and the handler and its data
by their addresses. -/
structure IrqDesc where
  hwirq : BitVec 32
  irq : BitVec 32
  parent : Nat
  handler : BitVec 64
  handlerData : BitVec 64

/-- `irq_chip_list`, `irq_end`, `irq_data_list` with the structures allocated for it, and the
devices. -/
structure Irqs (σ : Type) where
  irqChipList : List (RegisteredChip σ)
  irqEnd : BitVec 32
  irqDataList : Links IrqNode
  descs : Nat → IrqDesc
  allocated : Nat
  devs : σ

variable {σ : Type}

/-! ## Chips -/

def allocIrq (s : Irqs σ) (count : BitVec 32) : BitVec 32 × Irqs σ :=
  (s.irqEnd, { s with irqEnd := s.irqEnd + count })

/-- The loop of `find_irq_chip` over the chips from a position on. -/
def findIrqChipFrom (irq : BitVec 32) :
    Nat → List (RegisteredChip σ) → Option (Nat × RegisteredChip σ × BitVec 32)
  | _, [] => none
  | i, irqc :: rest =>
      if irq ≥ irqc.irqStart ∧ irq < irqc.irqStart + irqc.irqCount then
        some (i, irqc, irqc.hwirqStart + (irq - irqc.irqStart))
      else findIrqChipFrom irq (i + 1) rest

def findIrqChip (s : Irqs σ) (irq : BitVec 32) : Option (Nat × RegisteredChip σ × BitVec 32) :=
  findIrqChipFrom irq 0 s.irqChipList

/-- "irq:" and the name. -/
def irqChipName (name : List UInt8) : List UInt8 := [0x69, 0x72, 0x71, 0x3a] ++ name

/-- What `snprintf` leaves of a text in a `char [DEVICE_NAME_MAX]`. -/
def truncated (text : List UInt8) : List UInt8 := text.take (DEVICE_NAME_MAX - 1)

def irqRegisterChip (s : Irqs σ) (irqc : RegisteredChip σ) : Irqs σ × Int :=
  match irqc.pdev with
  | none => (s, -EINVAL)
  | some pdev =>
      if irqc.irqCount = 0 then (s, -EINVAL)
      -- a longer text is cut and passes
      else if (irqChipName pdev.name).length = DEVICE_NAME_MAX then (s, -ENOMEM)
      else
        let (irqStart, s) := allocIrq s irqc.irqCount
        let irqc := { irqc with name := truncated (irqChipName pdev.name), irqStart }
        ({ s with irqChipList := s.irqChipList ++ [irqc] }, 0)

/-- `irq_get_chip_by_name`: the first chip with the name, or with the alias. -/
def irqGetChipByName (s : Irqs σ) (name : List UInt8) : Option (RegisteredChip σ) :=
  s.irqChipList.find? fun irqc => irqc.name = name ∨ irqc.aliasName = name

/-- `irq_get`. -/
def chipIrq (irqc : RegisteredChip σ) (hwirq : BitVec 32) : BitVec 32 :=
  irqc.irqStart + hwirq - irqc.hwirqStart

/-! ## Handlers

A missing result means that the C function dereferences the null pointer or does not come
to an end. -/

/-- `irq_request`, where `memory` says whether `malloc` succeeds, with the returned pointer. -/
def irqRequest (s : Irqs σ) (irq : BitVec 32) (func priv : BitVec 64) (memory : Bool) :
    Option (Irqs σ × Option Nat) :=
  if memory then
    let irqd := s.allocated
    let s := { s with allocated := s.allocated + 1 }
    match findIrqChip s irq with
    | none => some (s, none)
    | some (parent, irqc, hwirq) => do
        let descs := Function.update s.descs irqd ⟨hwirq, irq, parent, func, priv⟩
        let irqDataList ← listAddTail s.irqDataList (.irqd irqd) .head
        some ({ s with descs, irqDataList, devs := irqc.irqEnable hwirq s.devs }, none)
  else some (s, none)

/-- The condition at which the loop of `irq_free` stops. -/
def irqMatches (s : Irqs σ) (irq : BitVec 32) (func priv : BitVec 64) : IrqNode → Bool
  | .head => false
  | .irqd id =>
      (s.descs id).irq = irq && (s.descs id).handler = func && (s.descs id).handlerData = priv

/-- `irq_free`. A loop that has met no entry ends with the head in the place of one. -/
def irqFree (s : Irqs σ) (irq : BitVec 32) (func priv : BitVec 64) : Option (Irqs σ) := do
  let node ← listFind s.irqDataList (s.allocated + 1) .head (irqMatches s irq func priv)
  let irqDataList ← listDel s.irqDataList node
  some { s with irqDataList }

/-! ## Calls -/

inductive IrqEvent (σ : Type) where
  | registerChip (irqc : RegisteredChip σ)
  | request (irq : BitVec 32) (func priv : BitVec 64) (memory : Bool)
  | free (irq : BitVec 32) (func priv : BitVec 64)

def irqStep (s : Irqs σ) : IrqEvent σ → Option (Irqs σ)
  | .registerChip irqc => some (irqRegisterChip s irqc).1
  | .request irq func priv memory => (irqRequest s irq func priv memory).map (·.1)
  | .free irq func priv => irqFree s irq func priv

/-- The static initial values. -/
def Irqs.initial (devs : σ) : Irqs σ where
  irqChipList := []
  irqEnd := 0
  irqDataList := initListHead ⟨fun _ => none, fun _ => none⟩ .head
  descs := fun _ => ⟨0, 0, 0, 0, 0⟩
  allocated := 0
  devs := devs

end Zsbl.Drivers
