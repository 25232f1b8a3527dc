/-
Module: Zsbl.Common.SchedSystem
Purpose: The scheduler as a transition system: everything the running program
  may do to the thread list between two calls of sched_thread.
Trusted boundary: none
Main exports:
  SchedOp, SchedSystem, SchedStep, schedCalls, schedLts
-/
import Zsbl.Common.Thread
import Zsbl.Lib.Runs

namespace Zsbl.Common

open Zsbl.Lib Zsbl.Include

inductive SchedOp (ρ : Type) where
  | create (ctx : ρ)
  | setPriority (t : Nat) (p : Int)
  | start (idleCtx : ρ)
  | block
  | wake (t : Nat)
  | sleep (time : Nat)
  | tick
  | exit (code : Int)
  | schedule (ctx : ρ)

/-- The scheduler together with the thread that `sched_start` created.  The
idle thread is only ever in the loop of `sched_idle_thread`, so it never
blocks, sleeps or exits. -/
structure SchedSystem (ρ : Type) where
  sched : Sched ρ
  idle : Option Nat

variable {ρ : Type}

namespace SchedSystem

def initial [Inhabited ρ] : SchedSystem ρ where
  sched := Sched.initial
  idle := none

/-- Thread code outside the scheduler runs in the current thread, which
`sched_thread` has marked as running.  A thread that has blocked or died
executes nothing more before its next trap. -/
def Executing (y : SchedSystem ρ) (t : Nat) : Prop :=
  y.sched.current = some t ∧ (y.sched.thread t).state = .running ∧
    y.idle ≠ some t

end SchedSystem

/-- One operation on the scheduler.  A waiter that `sem_post` wakes is blocked
in `sem_wait`, so it is not sleeping. -/
inductive SchedStep :
    SchedSystem ρ → SchedOp ρ → SchedSystem ρ → Prop where
  | create {y : SchedSystem ρ} {s : Sched ρ} (ctx : ρ) (t : Nat)
      (done : threadCreate y.sched ctx = some (s, t)) :
      SchedStep y (.create ctx) { y with sched := s }
  | setPriority {y : SchedSystem ρ} (t : Nat) (p : Int)
      (allocated : t < y.sched.created) :
      SchedStep y (.setPriority t p)
        { y with sched := (threadSetPriority y.sched t p).1 }
  | start {y : SchedSystem ρ} {s : Sched ρ} (idleCtx : ρ)
      (notStarted : y.idle = none)
      (done : schedStart y.sched idleCtx = some (.ok s)) :
      SchedStep y (.start idleCtx) { sched := s, idle := s.current }
  | block {y : SchedSystem ρ} (t : Nat) (executing : y.Executing t) :
      SchedStep y .block { y with sched := blockThread y.sched t }
  | wake {y : SchedSystem ρ} (t : Nat) (allocated : t < y.sched.created)
      (blocked : (y.sched.thread t).state = .block)
      (awake : (y.sched.thread t).sleepTime = 0) :
      SchedStep y (.wake t) { y with sched := wakeThread y.sched t }
  | sleep {y : SchedSystem ρ} {s : Sched ρ} (t time : Nat)
      (executing : y.Executing t) (done : schedSleep y.sched time = some s) :
      SchedStep y (.sleep time) { y with sched := s }
  | tick {y : SchedSystem ρ} {s : Sched ρ} (started : y.idle.isSome)
      (done : schedTick y.sched = some s) :
      SchedStep y .tick { y with sched := s }
  | exit {y : SchedSystem ρ} {s : Sched ρ} (t : Nat) (code : Int)
      (executing : y.Executing t)
      (done : threadEndPoint y.sched code = some s) :
      SchedStep y (.exit code) { y with sched := s }
  | schedule {y : SchedSystem ρ} {s : Sched ρ} (ctx frame : ρ)
      (done : schedThread y.sched ctx = some (s, frame)) :
      SchedStep y (.schedule ctx) { y with sched := s }

/-- Consecutive calls of `sched_thread`, each with the context it is handed;
the list holds the thread each call selected. -/
def schedCalls (s : Sched ρ) : List ρ → Option (Sched ρ × List Nat)
  | [] => some (s, [])
  | ctx :: ctxs => do
      let (s, _) ← schedThread s ctx
      let (last, picks) ← schedCalls s ctxs
      return (last, s.current.toList ++ picks)

/-- The scheduler from the program's start on. -/
def schedLts [Inhabited ρ] : Lts (SchedSystem ρ) (SchedOp ρ) where
  init := fun y => y = SchedSystem.initial
  step := SchedStep

end Zsbl.Common
