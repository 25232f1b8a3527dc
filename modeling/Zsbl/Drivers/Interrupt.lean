/-
Module: Zsbl.Drivers.Interrupt
Purpose: The dispatch of external interrupts, drivers/irqchip/interrupt.c, and
  the interrupt controller below it, drivers/irqchip/plic/plic.c.
Trusted boundary: the register semantics of the controller
Main exports:
  IrqChip, IrqData, IrqCall, irqHandler, PlicDevice, plicOps, PlicEvent, plicLts
-/
import Zsbl.Include.Libc
import Zsbl.Lib.Runs
import Mathlib.Logic.Function.Basic

namespace Zsbl.Drivers

open Zsbl.Lib

/-! ## Dispatch -/

/-- `IRQ_HANDLED`. -/
def IRQ_HANDLED : Int := 1

/-- The operations of `struct irq_chip_ops` that the dispatch uses, on the state
of the devices; the first two may be null. -/
structure IrqChipOps (σ : Type) where
  irqAck : Option (σ → BitVec 32 → σ)
  irqEoi : Option (σ → BitVec 32 → σ)
  irqClaim : σ → σ × Int

/-- `struct irq_chip`. -/
structure IrqChip (σ : Type) where
  ops : IrqChipOps σ
  hwirqStart : BitVec 32
  irqStart : BitVec 32

/-- `struct irq_data`, with the handler and its data. -/
structure IrqData (σ : Type) where
  irq : BitVec 32
  handler : Option (σ → σ × Int)

/-- A call that the dispatch makes on the chip at a position of the list. -/
inductive IrqCall where
  | ack (chip : Nat) (hwirq : BitVec 32)
  | eoi (chip : Nat) (hwirq : BitVec 32)
deriving DecidableEq, Repr

variable {σ : Type}

def irqGet (irqc : IrqChip σ) (hwirq : BitVec 32) : BitVec 32 :=
  irqc.irqStart + hwirq - irqc.hwirqStart

/-- The loop of `irq_handler` over the chips from a position on. -/
def claimFrom : Nat → List (IrqChip σ) → σ → σ × Option (Nat × IrqChip σ × Int)
  | _, [], s => (s, none)
  | i, irqc :: rest, s =>
      let (s, hwirq) := irqc.ops.irqClaim s
      if hwirq ≥ 0 then (s, some (i, irqc, hwirq)) else claimFrom (i + 1) rest s

/-- The loop of `irq_handler` over the registered handlers: whether one of them
has handled the interrupt. -/
def handleFrom (irq : BitVec 32) : List (IrqData σ) → σ → σ × Bool
  | [], s => (s, false)
  | irqd :: rest, s =>
      if irqd.irq = irq then
        match irqd.handler with
        | none => handleFrom irq rest s
        | some handler =>
            let (s, ret) := handler s
            if ret = IRQ_HANDLED then (s, true) else handleFrom irq rest s
      else handleFrom irq rest s

/-- Acknowledge, if the chip has the operation. -/
def ackIrq (chip : Nat) (irqc : IrqChip σ) (hwirq : BitVec 32) (s : σ) :
    σ × List IrqCall :=
  match irqc.ops.irqAck with
  | none => (s, [])
  | some ack => (ack s hwirq, [.ack chip hwirq])

/-- Complete, if the chip has the operation. -/
def eoiIrq (chip : Nat) (irqc : IrqChip σ) (hwirq : BitVec 32) (s : σ) :
    σ × List IrqCall :=
  match irqc.ops.irqEoi with
  | none => (s, [])
  | some eoi => (eoi s hwirq, [.eoi chip hwirq])

/-- `irq_handler`, with the calls it makes on the chips. -/
def irqHandler (irqChipList : List (IrqChip σ)) (irqDataList : List (IrqData σ)) (s : σ) :
    σ × List IrqCall :=
  match claimFrom 0 irqChipList s with
  | (s, none) => (s, [])
  | (s, some (i, irqc, hwirq)) =>
      let hwirq := BitVec.ofInt 32 hwirq
      let (s, acks) := ackIrq i irqc hwirq s
      match handleFrom (irqGet irqc hwirq) irqDataList s with
      | (s, true) => (s, acks)
      | (s, false) =>
          let (s, eois) := eoiIrq i irqc hwirq s
          (s, acks ++ eois)

/-! ## The controller -/

/-- `PLIC_IRQ_MAX`. -/
def PLIC_IRQ_MAX : Nat := 1023

/-- The sources of a controller that wait to be claimed, and those that have
been claimed and not completed, whose requests it holds back. -/
structure PlicDevice where
  pending : Nat → Bool
  inService : Nat → Bool

/-- The smallest pending source from a number on; 0 when there is none. -/
def lowestPending (pending : Nat → Bool) : Nat → Nat → Nat
  | _, 0 => 0
  | src, count + 1 => if pending src then src else lowestPending pending (src + 1) count

/-- A read of the claim register. -/
def PlicDevice.claim (dev : PlicDevice) : PlicDevice × BitVec 32 :=
  let src := lowestPending dev.pending 1 PLIC_IRQ_MAX
  if src = 0 then (dev, 0)
  else
    ({ pending := Function.update dev.pending src false
       inService := Function.update dev.inService src true }, BitVec.ofNat 32 src)

/-- A write of the claim register. -/
def PlicDevice.complete (dev : PlicDevice) (hwirq : BitVec 32) : PlicDevice :=
  { dev with inService := Function.update dev.inService hwirq.toNat false }

/-- A device raises a source; the gateway forwards it unless it is in service. -/
def PlicDevice.raise (dev : PlicDevice) (src : Nat) : PlicDevice :=
  if dev.inService src then dev
  else { dev with pending := Function.update dev.pending src true }

variable {ω : Type}

/-- The controllers, by their number, and the rest of the machine. -/
structure PlicMachine (ω : Type) where
  devs : Nat → PlicDevice
  world : ω

/-- `get_claim`. -/
def getClaim (plic : Nat) (s : PlicMachine ω) : PlicMachine ω × BitVec 32 :=
  let (dev, hwirq) := (s.devs plic).claim
  ({ s with devs := Function.update s.devs plic dev }, hwirq)

/-- `set_claim`. -/
def setClaim (plic : Nat) (s : PlicMachine ω) (hwirq : BitVec 32) : PlicMachine ω :=
  { s with devs := Function.update s.devs plic ((s.devs plic).complete hwirq) }

def plicAckIrq (_ : Nat) (s : PlicMachine ω) (_ : BitVec 32) : PlicMachine ω := s

def plicEoiIrq (plic : Nat) (s : PlicMachine ω) (hwirq : BitVec 32) : PlicMachine ω :=
  setClaim plic s hwirq

def plicClaimIrq (plic : Nat) (s : PlicMachine ω) : PlicMachine ω × Int :=
  let (s, hwirq) := getClaim plic s
  if hwirq = 0 then (s, -1) else (s, hwirq.toInt)

/-- `plic_ops`. -/
def plicOps (plic : Nat) : IrqChipOps (PlicMachine ω) where
  irqAck := some (plicAckIrq plic)
  irqEoi := some (plicEoiIrq plic)
  irqClaim := plicClaimIrq plic

/-- The chip that `plic_probe` registers, at the given start of its numbers. -/
def plicChip (plic : Nat) (irqStart : BitVec 32) : IrqChip (PlicMachine ω) :=
  ⟨plicOps plic, 1, irqStart⟩

/-- The chips of the controllers, the first of them with the given number. -/
def plicChips : Nat → List (BitVec 32) → List (IrqChip (PlicMachine ω))
  | _, [] => []
  | plic, irqStart :: rest => plicChip plic irqStart :: plicChips (plic + 1) rest

/-- A handler of a device driver, which does not touch the controllers. -/
def deviceHandler (handler : ω → ω × Int) (s : PlicMachine ω) : PlicMachine ω × Int :=
  let (world, ret) := handler s.world
  ({ s with world := world }, ret)

/-- What happens on the machine: a device raises a source, the machine goes on,
or the hart takes an external interrupt. -/
inductive PlicEvent (ω : Type) where
  | raise (plic src : Nat)
  | run (world : ω)
  | interrupt

/-- The machine whose interrupts `irq_handler` serves, from a state in which
nothing is in service. -/
def plicLts (starts : List (BitVec 32)) (handlers : List (BitVec 32 × (ω → ω × Int))) :
    Lts (PlicMachine ω) (PlicEvent ω) where
  init := fun s => ∀ plic src, (s.devs plic).inService src = false
  step := fun s event s' =>
    match event with
    | .raise plic src =>
        s' = { s with devs := Function.update s.devs plic ((s.devs plic).raise src) }
    | .run world => s' = { s with world := world }
    | .interrupt => s' = (irqHandler (plicChips 0 starts)
        (handlers.map fun entry => ⟨entry.1, some (deviceHandler entry.2)⟩) s).1

end Zsbl.Drivers
