/-
Module: Zsbl.Proofs.ContextSwitch
Purpose: With which frame a trap resumes a thread: that of its last trap, unless
  a tick has ended its sleep before it has reached the ecall of sched_msleep.
Trusted boundary: none
Main exports:
  MachineOp.IsTrap, resumed_with_last_trap, stale_resume
-/
import Zsbl.Proofs.MachineInvariant

namespace Zsbl.Common

open Zsbl.Lib Zsbl.Include

variable {ρ : Type}

/-- The frame a trap captures: an `ecall` returns behind itself. -/
def Machine.captured (y : Machine ρ) : MachineOp ρ → Frame ρ
  | .ecall _ => { y.regs with pc := .point y.regs.pc.back }
  | _ => y.regs

/-- The threads behind a trap: the one that goes on has the registers of its
last trap, and every other one that may run again has them stored where it
will be resumed from. -/
structure Resumes (y y' : Machine ρ) (captured : Frame ρ) : Prop where
  last_trap : ∀ t, y'.lastTrap t =
    if y.executing = some t then captured else y.lastTrap t
  executing : ∀ t, y'.executing = some t → y'.regs = y'.lastTrap t
  suspended : ∀ t, t < y'.sched.created → (y'.sched.thread t).state ≠ .dead →
    y'.executing ≠ some t →
    y'.stack t (y'.sched.thread t).cpuCtx = y'.lastTrap t

/-- A trap outside the window of `sched_msleep` captures the registers and lets
the scheduler choose. -/
theorem MachineInv.trapped {y y' : Machine ρ} {threads : List Nat}
    {queue : Nat → List Nat} {op : MachineOp ρ} (inv : MachineInv y threads queue)
    (safe : y.TickSafe op) (isTrap : op.IsTrap) (taken : y.step op = some y') :
    ∃ s mem, TrapReady y s threads ∧ y.trap s (y.captured op) mem = some y' := by
  cases op with
  | ecall mem =>
      cases pc : y.regs.pc with
      | point here => simp [Machine.step, pc] at taken
      | yield back =>
          simp only [Machine.step, pc] at taken
          refine ⟨y.sched, mem, inv.threads.ecallReady, ?_⟩
          simpa [Machine.captured, pc, Pc.back] using taken
  | tick mem =>
      obtain ⟨-, taken⟩ := guard_bind_eq_some.mp taken
      obtain ⟨s, ticked, taken⟩ := Option.bind_eq_some_iff.mp taken
      exact ⟨s, mem, inv.threads.tickReady safe ticked, taken⟩
  | _ => exact isTrap.elim

/-- In every run in which no tick arrives while `sched_msleep` has one tick
left and has not reached its `ecall`, each trap resumes a thread with exactly
the frame captured at the last trap it took. -/
theorem resumed_with_last_trap {value : Nat → Int}
    (isLong : ∀ id, IsLong (value id)) {y y' : Machine ρ} {op : MachineOp ρ}
    (reached : (machineLts value).ReachableWhile Machine.TickSafe y)
    (safe : y.TickSafe op) (isTrap : op.IsTrap) (taken : y.step op = some y') :
    Resumes y y' (y.captured op) := by
  obtain ⟨threads, queue, inv⟩ :=
    exists_machineInv isLong (fun _ _ safe => safe) reached
  obtain ⟨s, mem, ready, done⟩ := inv.trapped safe isTrap taken
  obtain ⟨y'', threads', trapped, inv', spec⟩ :=
    inv.threads.trap_spec ready (y.captured op) mem
  obtain rfl := Option.some.inj (trapped.symm.trans done)
  exact ⟨spec.lastTrap_eq, spec.resumed, inv'.saved⟩

/-! ## A machine with two threads -/

/-- One thread is created and the scheduler started; the hart is still in the
boot code, in front of its last `ecall`. -/
def startOps : List (MachineOp Nat) := [.create 100 1, .start 200 2]

/-- The stack of a thread that has stored nothing of interest on it. -/
def blankStack : Nat → Frame Nat := fun _ => Machine.initialFrame 0 0

/-- Of two threads the first one runs and moves its stack pointer. -/
def firstOps : List (MachineOp Nat) :=
  [.create 100 1, .create 150 3, .start 200 2, .ecall blankStack, .compute 90 7 blankStack]

def firstRuns : Machine Nat :=
  ((Machine.initial (fun _ => 0) 0).run firstOps).get (by rfl)

/-- A tick has taken the hart to the other one. -/
def otherStarted : Machine Nat := (firstRuns.step (.tick blankStack)).get (by rfl)

/-- Which has moved its stack pointer too. -/
def otherRuns : Machine Nat := (otherStarted.step (.compute 140 8 blankStack)).get (by rfl)

/-- The run has no tick in the window of `sched_msleep`. -/
theorem otherRuns_reached :
    (machineLts fun _ => 0).ReachableWhile Machine.TickSafe otherRuns := by
  have first : (machineLts fun _ => 0).ReachableWhile Machine.TickSafe firstRuns := by
    refine Machine.reachable_run (.initial ⟨0, rfl⟩) ?_ (Option.some_get _).symm
    simp [firstOps, Machine.TickSafe]
  have safe : firstRuns.TickSafe (.tick blankStack) := by
    intro t executing
    have isFirst : firstRuns.executing = some 0 := rfl
    obtain rfl := Option.some.inj (executing.symm.trans isFirst)
    decide
  have switched : (machineLts fun _ => 0).ReachableWhile Machine.TickSafe otherStarted :=
    first.step safe (Option.some_get _).symm
  exact switched.step (by exact trivial) (Option.some_get _).symm

/-- The next tick returns to the first thread, with the registers that it had. -/
theorem resumed_with_last_trap_switched :
    ∃ y', otherRuns.step (.tick blankStack) = some y' ∧ y'.regs = ⟨.point .thread, 90, 7⟩ ∧
      Resumes otherRuns y' (otherRuns.captured (.tick blankStack)) := by
  have safe : otherRuns.TickSafe (.tick blankStack) := by
    intro t executing
    have isOther : otherRuns.executing = some 1 := rfl
    obtain rfl := Option.some.inj (executing.symm.trans isOther)
    decide
  exact ⟨_, rfl, rfl, resumed_with_last_trap
    (fun _ => ⟨by decide, by decide⟩) otherRuns_reached safe trivial rfl⟩

/-! ## The window of `sched_msleep` -/

/-- The thread runs, moves its stack pointer, and asks to sleep for one
millisecond. -/
def sleepOps : List (MachineOp Nat) :=
  startOps ++ [.ecall blankStack, .compute 60 7 blankStack, .msleep 1]

def sleepingMachine : Machine Nat :=
  ((Machine.initial (fun _ => 0) 0).run sleepOps).get (by rfl)

/-- A tick between `sched_preempt_enable` and the `ecall` makes the sleeping
thread runnable, its frame is not saved, and it starts again from its initial
frame. -/
theorem stale_resume :
    ¬ ∀ (y y' : Machine Nat) (op : MachineOp Nat),
      (machineLts fun _ => 0).Reachable y → op.IsTrap →
      y.step op = some y' → Resumes y y' (y.captured op) := by
  intro preserved
  have reached : (machineLts fun _ => 0).Reachable sleepingMachine :=
    Machine.reachable_run (.initial ⟨0, rfl⟩) (fun _ _ _ => trivial)
      (Option.some_get _).symm
  have resumes := preserved sleepingMachine _ (.tick blankStack) reached trivial
    (Option.some_get (by rfl)).symm
  have same := resumes.executing 0 (by rfl)
  exact absurd (congrArg Frame.sp same) (by decide)

end Zsbl.Common
