/-
Module: Zsbl.Common.Preempt
Purpose: The interrupt-enable bit of the hart under threads that take spinlocks
  and disable preemption: common/spinlock.c and the end of common/thread.c, over
  the machine that runs the threads.
Trusted boundary: none
Main exports:
  Section, Preempt, preemptDisable, preemptEnable, spinTrylock, spinUnlock,
  PreemptOp, Preempt.step, preemptLts
-/
import Zsbl.Common.Machine

namespace Zsbl.Common

open Zsbl.Lib

/-- What a thread is inside of: a spinlock that it holds, or a section between
`sched_preempt_disable` and `sched_preempt_enable`. -/
inductive Section where
  | lock (lock : Nat)
  | preempt
deriving DecidableEq, Repr

/-- The hart.  The register file of the machine stands for `mstatus.MIE` as the
code sees it, which a trap saves and restores with the other registers; `mpie` is
`mstatus.MPIE`.  `preempt_count` is changed by `amoadd.w`, so it has 32 bits.
`held` is history: the sections that are open, innermost first, each with its
thread. -/
structure Preempt where
  machine : Machine Bool
  mpie : Bool
  preemptCount : BitVec 32
  locks : Nat → Bool
  held : List (Nat × Section)

namespace Preempt

def mie (s : Preempt) : Bool := s.machine.regs.regs

def setMie (s : Preempt) (mie : Bool) : Preempt :=
  { s with machine := { s.machine with regs := { s.machine.regs with regs := mie } } }

/-! ## Sections -/

/-- `sched_preempt_disable`. -/
def preemptDisable (s : Preempt) : Preempt :=
  { s.setMie false with preemptCount := s.preemptCount + 1 }

/-- `sched_preempt_enable` outside of a trap, where `in_irq` is false. -/
def preemptEnable (s : Preempt) : Preempt :=
  let count := s.preemptCount.toInt - 1
  let s := { s with preemptCount := s.preemptCount - 1 }
  if count = 0 then s.setMie true else s

/-- `spin_trylock`, and whether it has taken the lock. -/
def spinTrylock (s : Preempt) (lock : Nat) : Preempt × Bool :=
  let s := s.preemptDisable
  if s.locks lock = false then
    ({ s with locks := Function.update s.locks lock true }, true)
  else (s.preemptEnable, false)

/-- `spin_unlock`. -/
def spinUnlock (s : Preempt) (lock : Nat) : Preempt :=
  preemptEnable { s with locks := Function.update s.locks lock false }

/-- The sections that a thread is inside of. -/
def own (s : Preempt) (t : Nat) : List Section :=
  (s.held.filter (·.1 = t)).map Prod.snd

/-- A thread has entered a section. -/
def enter (s : Preempt) (t : Nat) (opened : Section) : Preempt :=
  { s with held := (t, opened) :: s.held }

/-- A thread has left its innermost section. -/
def leave (s : Preempt) (t : Nat) : Preempt :=
  { s with held := s.held.eraseP (·.1 = t) }

end Preempt

/-! ## Steps -/

/-- What the hart does next.  `spin_lock` repeats `spin_trylock` until it has the
lock; each try is a step. -/
inductive PreemptOp where
  | disable
  | enable
  | trylock (lock : Nat)
  | unlock (lock : Nat)
  | machine (op : MachineOp Bool)

/-- The calls that take and release a spinlock of their own, with interrupts off
in between: `thread_lock`, that of a semaphore, or the preemption-disabled part of
`sched_msleep`. -/
def MachineOp.HasSection {ρ : Type} : MachineOp ρ → Prop
  | .create .. | .start .. | .semLock | .semPost _ | .exit _ => True
  | .msleep time => time ≠ 0
  | _ => False

instance {ρ : Type} (op : MachineOp ρ) : Decidable op.HasSection := by
  cases op <;> unfold MachineOp.HasSection <;> infer_instance

instance {ρ : Type} (op : MachineOp ρ) : Decidable op.IsTrap := by
  cases op <;> unfold MachineOp.IsTrap <;> infer_instance

/-- Code keeps the interrupt-enable bit; a new thread inherits it
(`arch_thread_create_cpu_ctx`); a thread that ends has left its sections; and a
tick comes only when interrupts are enabled. -/
def Preempt.Admits (s : Preempt) : MachineOp Bool → Prop
  | .compute _ regs _ => regs = s.mie
  | .create _ regs | .start _ regs => regs = (s.mie || s.mpie)
  | .exit _ => ∀ t, s.machine.executing = some t → s.own t = []
  | .tick _ => s.mie = true
  | _ => True

instance (s : Preempt) (op : MachineOp Bool) : Decidable (s.Admits op) := by
  cases op <;> unfold Preempt.Admits
  case exit =>
    exact decidable_of_iff ((s.machine.executing.elim [] s.own) = []) (by
      cases s.machine.executing <;> simp)
  all_goals infer_instance

namespace Preempt

/-- One step.  The calls of a thread are balanced and properly nested.
A trap returns with `mret`, which sets `mpie`. -/
def step (s : Preempt) : PreemptOp → Option Preempt
  | .disable => do
      guard s.machine.InThread
      let t ← s.machine.executing
      return s.preemptDisable.enter t .preempt
  | .enable => do
      guard s.machine.InThread
      let t ← s.machine.executing
      guard ((s.own t).head? = some .preempt)
      return s.preemptEnable.leave t
  | .trylock lock => do
      guard s.machine.InThread
      let t ← s.machine.executing
      let (s, taken) := s.spinTrylock lock
      return if taken then s.enter t (.lock lock) else s
  | .unlock lock => do
      guard s.machine.InThread
      let t ← s.machine.executing
      guard ((s.own t).head? = some (.lock lock))
      return (s.spinUnlock lock).leave t
  | .machine op => do
      guard (s.Admits op)
      let machine ← s.machine.step op
      let s := { s with machine := machine, mpie := s.mpie || op.IsTrap }
      return if op.HasSection then s.preemptDisable.preemptEnable else s

/-- After `system_init`, which enables interrupts. -/
def initial (value : Nat → Int) (mpie : Bool) : Preempt where
  machine := Machine.initial value true
  mpie := mpie
  preemptCount := 0
  locks := fun _ => false
  held := []

end Preempt

def preemptLts (value : Nat → Int) : Lts Preempt PreemptOp where
  init s := ∃ mpie, s = Preempt.initial value mpie
  step s op s' := s.step op = some s'

end Zsbl.Common
