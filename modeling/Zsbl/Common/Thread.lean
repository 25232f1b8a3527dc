/-
Module: Zsbl.Common.Thread
Purpose: The thread list and the scheduler of common/thread.c.
Trusted boundary: none
Main exports:
  Thread, Sched, threadCreate, nextThread, schedThread, schedTick,
  schedMsleep, threadEndPoint, threadSetPriority, schedStart
-/
import Zsbl.Include.Libc
import Zsbl.Include.List
import Zsbl.Lib.Select

namespace Zsbl.Common

open Zsbl.Lib Zsbl.Include

inductive ThreadState where
  | runnable
  | running
  | block
  | dead
deriving DecidableEq, Repr, Inhabited

/-- The list nodes of the scheduler: the list head `thread_list` and the `list`
member of each `struct thread`. -/
inductive ThreadNode where
  | head
  | thread (id : Nat)
deriving DecidableEq, Repr

/-- `struct thread`.  Threads are named by the order of their allocation.  A
saved context is the trap frame `cpu_ctx->regs` points at; the frame type is a
parameter because the scheduler only copies frames. -/
structure Thread (ρ : Type) where
  cpuCtx : ρ
  priority : Int
  state : ThreadState
  sleepTime : Nat
  exitCode : Int
deriving Repr, Inhabited

/-- The file's static variables together with the threads allocated so far. -/
structure Sched (ρ : Type) where
  threadList : Links ThreadNode
  thread : Nat → Thread ρ
  created : Nat
  current : Option Nat
  tickCounter : Nat

variable {ρ : Type}

namespace Sched

/-- `list_entry` on a node of the thread list; the list head is no thread. -/
def listEntry : ThreadNode → Option Nat
  | .head => none
  | .thread id => some id

def setThread (s : Sched ρ) (t : Nat) (f : Thread ρ → Thread ρ) : Sched ρ :=
  { s with thread := Function.update s.thread t (f (s.thread t)) }

/-- How many list nodes a walk over `thread_list` can meet. -/
def listFuel (s : Sched ρ) : Nat := s.created + 1

end Sched

/-- `thread_create` once both allocations have succeeded. -/
def threadCreate (s : Sched ρ) (ctx : ρ) : Option (Sched ρ × Nat) := do
  let t := s.created
  let fresh : Thread ρ :=
    { cpuCtx := ctx, priority := 1, state := .runnable, sleepTime := 0,
      exitCode := 0 }
  let threadList ← listAddTail s.threadList (.thread t) .head
  return ({ s with
    threadList := threadList
    thread := Function.update s.thread t fresh
    created := t + 1 }, t)

/-- `thread_set_priority` up to its final `sched_yield`. -/
def threadSetPriority (s : Sched ρ) (t : Nat) (p : Int) : Sched ρ × Int :=
  if p ≤ 0 then (s, -EINVAL)
  else (s.setThread t fun thread => { thread with priority := p }, 0)

/-- The locked part of `thread_end_point`. -/
def threadEndPoint (s : Sched ρ) (exitCode : Int) : Option (Sched ρ) := do
  let current ← s.current
  return s.setThread current fun thread =>
    { thread with exitCode := exitCode, state := .dead }

def nextThread (s : Sched ρ) (t : Nat) : Option Nat := do
  if listIsLast s.threadList (.thread t) .head then
    Sched.listEntry (← s.threadList.next .head)
  else
    Sched.listEntry (← s.threadList.next (.thread t))

/-- The test on a thread's state in the selection loop. -/
def Sched.eligible (s : Sched ρ) (t : Nat) : Bool :=
  (s.thread t).state == .runnable || (s.thread t).state == .running

/-- The selection loop of `sched_thread` from `t` on; it ends at the current
thread.  The pair holds `next` and `hp`. -/
def selectLoop (s : Sched ρ) (current : Nat) :
    Nat → Nat → Option Nat × Int → Option (Option Nat × Int)
  | 0, _, _ => none
  | fuel + 1, t, best =>
      if t = current then some best
      else do
        let best := keepBetter s.eligible (fun t => (s.thread t).priority) best t
        selectLoop s current fuel (← nextThread s t) best

/-- The saved context of the current thread, if it is one that will go on. -/
def saveCtx (s : Sched ρ) (current : Nat) (cpuCtx : ρ) : Sched ρ :=
  if (s.thread current).state = .running ∨ (s.thread current).state = .block then
    s.setThread current fun thread => { thread with cpuCtx := cpuCtx }
  else s

/-- The thread in `next` after the selection; the current thread is looked at
last. -/
def selectNext (s : Sched ρ) (current : Nat) : Option (Option Nat) := do
  let best ← selectLoop s current s.listFuel (← nextThread s current) (none, -1)
  return (keepBetter s.eligible (fun t => (s.thread t).priority) best current).1

/-- A finished thread leaves the list, a running one becomes runnable. -/
def retireCurrent (s : Sched ρ) (current : Nat) : Option (Sched ρ) :=
  match (s.thread current).state with
  | .dead => do
      let threadList ← listDel s.threadList (.thread current)
      return { s with threadList := threadList }
  | .running =>
      some (s.setThread current fun thread => { thread with state := .runnable })
  | _ => some s

/-- `sched_thread`.  A missing result means that the C function would
dereference the null pointer or walk the list forever. -/
def schedThread (s : Sched ρ) (cpuCtx : ρ) : Option (Sched ρ × ρ) :=
  match s.current with
  | none => some (s, cpuCtx)
  | some current => do
      let s := saveCtx s current cpuCtx
      let selected ← selectNext s current
      let s ← retireCurrent s current
      let next ← selected
      let s := s.setThread next fun thread => { thread with state := .running }
      return ({ s with current := some next }, (s.thread next).cpuCtx)

def schedTickHz : Nat := 100

/-- The body of `sched_tick`'s loop. -/
def tickThread (thread : Thread ρ) : Thread ρ :=
  if thread.sleepTime = 0 then thread
  else
    { thread with
      sleepTime := thread.sleepTime - 1
      state := if thread.sleepTime - 1 = 0 then .runnable else thread.state }

def schedTick (s : Sched ρ) : Option (Sched ρ) := do
  let nodes ← listForEach s.threadList s.listFuel .head
  let threads := nodes.filterMap Sched.listEntry
  return threads.foldl (fun s t => s.setThread t tickThread)
    { s with tickCounter := (s.tickCounter + 1) % 2 ^ 64 }

/-- The preemption-disabled part of `sched_msleep`; the product is computed in
`unsigned long`. -/
def schedSleep (s : Sched ρ) (time : Nat) : Option (Sched ρ) := do
  let current ← s.current
  return s.setThread current fun thread =>
    { thread with
      sleepTime := time * schedTickHz % 2 ^ 64 / 1000 + 1
      state := .block }

/-- `sched_msleep` up to its final `sched_yield`. -/
def schedMsleep (s : Sched ρ) (time : Nat) : Option (Sched ρ) :=
  if time = 0 then some s else schedSleep s time

/-- What `sem_wait` does to the thread list: the current thread blocks. -/
def blockThread (s : Sched ρ) (t : Nat) : Sched ρ :=
  s.setThread t fun thread => { thread with state := .block }

/-- What `sem_post` does to the thread list: a waiter becomes runnable. -/
def wakeThread (s : Sched ρ) (t : Nat) : Sched ρ :=
  s.setThread t fun thread => { thread with state := .runnable }

/-- `sched_start` up to its final `sched_yield`, once its allocations and the
timer have succeeded. -/
def schedStart (s : Sched ρ) (idleCtx : ρ) : Option (Except Int (Sched ρ)) :=
  if listEmpty s.threadList .head then some (.error (-EINVAL))
  else do
    let (s, idle) ← threadCreate s idleCtx
    let s := s.setThread idle fun thread => { thread with priority := 0 }
    return .ok { s with current := some idle }

/-- The static initial values: an empty `thread_list` and no current thread. -/
def Sched.initial [Inhabited ρ] : Sched ρ where
  threadList := initListHead ⟨fun _ => none, fun _ => none⟩ .head
  thread := fun _ => default
  created := 0
  current := none
  tickCounter := 0

end Zsbl.Common
