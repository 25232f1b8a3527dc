/-
Module: Zsbl.Common.Machine
Purpose: One hart that runs threads over the scheduler and the semaphores, with
  traps at every point at which interrupts are enabled.
Trusted boundary: none
Main exports:
  Point, Pc, Frame, Machine, MachineOp, Machine.trap, Machine.step, machineLts
-/
import Zsbl.Common.SchedSystem
import Zsbl.Common.Semaphore

namespace Zsbl.Common

open Zsbl.Lib Zsbl.Include

/-- The program points of a thread that the scheduler's interface
distinguishes: its own code, and the head of the loop in `sem_wait`. -/
inductive Point where
  | thread
  | semWait (sem call : Nat) (inList : Bool)
deriving DecidableEq, Repr

/-- Where the hart stands: at a point, or in front of the `ecall` of a
`sched_yield` that returns to a point. -/
inductive Pc where
  | point (here : Point)
  | yield (back : Point)
deriving DecidableEq, Repr

/-- A trap frame.  `_trap_handler` stores it below the stack pointer of the
interrupted code, so `sp` stands for its address. -/
structure Frame (ρ : Type) where
  pc : Pc
  sp : Nat
  regs : ρ
deriving DecidableEq, Repr

/-- The machine.  `cpuCtx` of a thread is the address of its saved frame, and
`stack t` gives the frames that lie on the stack of thread `t`.  The last three
fields are history: the frame of each thread's last trap, and the posts made and
waits completed on each semaphore. -/
structure Machine (ρ : Type) where
  sched : Sched Nat
  idle : Option Nat
  boot : Bool
  regs : Frame ρ
  stack : Nat → Nat → Frame ρ
  sem : Nat → Sem
  calls : Nat
  lastTrap : Nat → Frame ρ
  posts : Nat → Nat
  waits : Nat → Nat

/-- What the hart does next.  `mem` is what the code leaves on its own stack. -/
inductive MachineOp (ρ : Type) where
  | compute (sp : Nat) (regs : ρ) (mem : Nat → Frame ρ)
  | create (top : Nat) (regs : ρ)
  | setPriority (t : Nat) (p : Int)
  | start (top : Nat) (regs : ρ)
  | yield
  | msleep (time : Nat)
  | semWait (sem : Nat)
  | semLock
  | semPost (sem : Nat)
  | exit (code : Int)
  | ecall (mem : Nat → Frame ρ)
  | tick (mem : Nat → Frame ρ)

variable {ρ : Type}

def MachineOp.IsTrap : MachineOp ρ → Prop
  | .ecall _ | .tick _ => True
  | _ => False

namespace Machine

/-- The thread whose code the hart executes; none while it boots. -/
def executing (y : Machine ρ) : Option Nat :=
  if y.boot then none else y.sched.current

def goto (y : Machine ρ) (pc : Pc) : Machine ρ :=
  { y with regs := { y.regs with pc := pc } }

def setSem (y : Machine ρ) (id : Nat) (sem : Sem) : Machine ρ :=
  { y with sem := Function.update y.sem id sem }

/-- Code that runs between program points changes registers and its stack. -/
def compute (y : Machine ρ) (sp : Nat) (regs : ρ) (mem : Nat → Frame ρ) :
    Machine ρ :=
  { y with
    regs := { y.regs with sp := sp, regs := regs }
    stack := match y.executing with
      | none => y.stack
      | some t => Function.update y.stack t mem }

/-- The frame `arch_thread_create_cpu_ctx` prepares at the top of the new
stack. -/
def initialFrame (top : Nat) (regs : ρ) : Frame ρ where
  pc := .point .thread
  sp := top
  regs := regs

/-- A thread with its stack has been added to the scheduler. -/
def addThread (y : Machine ρ) (s : Sched Nat) (t top : Nat) (regs : ρ) :
    Machine ρ :=
  { y with
    sched := s
    stack := Function.update y.stack t
      (Function.update (y.stack t) top (initialFrame top regs))
    lastTrap := Function.update y.lastTrap t (initialFrame top regs) }

/-- The trap entry stores the frame on the stack of the thread it interrupts;
the boot code has no thread. -/
def storeFrame (y : Machine ρ) (captured : Frame ρ) (mem : Nat → Frame ρ) :
    Machine ρ :=
  match y.executing with
  | none => y
  | some t =>
      { y with
        stack := Function.update y.stack t
          (Function.update mem captured.sp captured)
        lastTrap := Function.update y.lastTrap t captured }

/-- `trap_handler` behind the interrupt service routine, and the return from
the trap: the frame that `sched_thread` returns is restored.  The frame of the
boot code is lost as soon as there is a current thread. -/
def trap (y : Machine ρ) (s : Sched Nat) (captured : Frame ρ)
    (mem : Nat → Frame ρ) : Option (Machine ρ) := do
  let y := y.storeFrame captured mem
  let (s, ctx) ← schedThread s captured.sp
  match s.current with
  | none => return { y with sched := s, regs := captured }
  | some next =>
      return { y with sched := s, boot := false, regs := y.stack next ctx }

/-- A thread other than the idle thread stands in its own code. -/
def InThread (y : Machine ρ) : Prop :=
  y.boot = false ∧ y.regs.pc = .point .thread ∧ y.sched.current ≠ y.idle

/-- The boot code, which has not called `sched_start` yet, stands between two
calls. -/
def InBoot (y : Machine ρ) : Prop :=
  y.boot = true ∧ y.regs.pc = .point .thread ∧ y.idle = none

instance (y : Machine ρ) : Decidable y.InThread :=
  inferInstanceAs (Decidable (_ ∧ _ ∧ _))

instance (y : Machine ρ) : Decidable y.InBoot :=
  inferInstanceAs (Decidable (_ ∧ _ ∧ _))

/-- One step of the machine; a missing result means that it is not possible. -/
def step (y : Machine ρ) : MachineOp ρ → Option (Machine ρ)
  | .compute sp regs mem => some (y.compute sp regs mem)
  | .create top regs => do
      guard (y.InThread ∨ y.InBoot)
      let (s, t) ← threadCreate y.sched top
      return y.addThread s t top regs
  | .setPriority t p => do
      guard ((y.InThread ∨ y.InBoot) ∧ t < y.sched.created)
      let (s, err) := threadSetPriority y.sched t p
      let y := { y with sched := s }
      return if err = 0 then y.goto (.yield .thread) else y
  | .start top regs => do
      guard y.InBoot
      match ← schedStart y.sched top with
      | .error _ => return y
      | .ok s =>
          let y := y.addThread s y.sched.created top regs
          return { y with idle := s.current }.goto (.yield .thread)
  | .yield => do
      guard (y.InThread ∨ y.InBoot)
      return y.goto (.yield .thread)
  | .msleep time => do
      guard y.InThread
      let s ← schedMsleep y.sched time
      return { y with sched := s }.goto (.yield .thread)
  | .semWait id => do
      guard y.InThread
      let current ← y.sched.current
      let y := y.setSem id (semWaitEnter (y.sem id) y.calls current)
      return { y with calls := y.calls + 1 }.goto
        (.point (.semWait id y.calls false))
  | .semLock => do
      guard (y.boot = false)
      match y.regs.pc with
      | .point (.semWait id call inList) =>
          let (s, sem, done) ← semWaitSection y.sched (y.sem id) call inList
          let y := { y with sched := s }.setSem id sem
          if done then
            return { y with
              waits := Function.update y.waits id (y.waits id + 1) }.goto
                (.point .thread)
          else
            return y.goto (.yield (.semWait id call true))
      | _ => none
  | .semPost id => do
      guard y.InThread
      let (s, sem) ← semPost y.sched (y.sem id) y.calls
      let y := { y with sched := s }.setSem id sem
      return { y with
        posts := Function.update y.posts id (y.posts id + 1) }.goto
          (.yield .thread)
  | .exit code => do
      guard y.InThread
      let s ← threadEndPoint y.sched code
      return { y with sched := s }.goto (.yield .thread)
  | .ecall mem =>
      match y.regs.pc with
      | .yield back => y.trap y.sched { y.regs with pc := .point back } mem
      | .point _ => none
  | .tick mem => do
      guard y.idle.isSome
      let s ← schedTick y.sched
      y.trap s y.regs mem

/-- Several steps in a row. -/
def run (y : Machine ρ) : List (MachineOp ρ) → Option (Machine ρ)
  | [] => some y
  | op :: ops => (y.step op).bind fun y => y.run ops

/-- The machine before its first thread, with semaphores that hold the values
`sem_init` gave them. -/
def initial (value : Nat → Int) (regs : ρ) : Machine ρ where
  sched := Sched.initial
  idle := none
  boot := true
  regs := initialFrame 0 regs
  stack := fun _ _ => initialFrame 0 regs
  sem := fun id => semInit (value id)
  calls := 0
  lastTrap := fun _ => initialFrame 0 regs
  posts := fun _ => 0
  waits := fun _ => 0

end Machine

def machineLts (value : Nat → Int) : Lts (Machine ρ) (MachineOp ρ) where
  init := fun y => ∃ regs, y = Machine.initial value regs
  step := fun y op y' => y.step op = some y'

theorem Machine.reachable_run {value : Nat → Int}
    {ok : Machine ρ → MachineOp ρ → Prop} {ops : List (MachineOp ρ)} :
    ∀ {y y' : Machine ρ}, (machineLts value).ReachableWhile ok y →
      (∀ op ∈ ops, ∀ y, ok y op) → y.run ops = some y' →
      (machineLts value).ReachableWhile ok y' := by
  induction ops with
  | nil =>
      intro y y' reached _ ran
      obtain rfl := Option.some.inj ran
      exact reached
  | cons op ops ih =>
      intro y y' reached fine ran
      obtain ⟨next, taken, rest⟩ := Option.bind_eq_some_iff.mp ran
      exact ih (reached.step (fine op (by simp) y) taken)
        (fun op member => fine op (by simp [member])) rest

end Zsbl.Common
