/-
Module: Zsbl.Common.Semaphore
Purpose: The counting semaphores of common/semaphore.c.
Trusted boundary: none
Main exports:
  Sem, semInit, semWaitEnter, semWaitSection, semPost
-/
import Zsbl.Common.Thread

namespace Zsbl.Common

open Zsbl.Lib Zsbl.Include

/-- The list nodes of a semaphore: its `wait_list` and the `list` member of the
`struct sem_thread` on the stack of each call of `sem_wait`.  Calls are
numbered in the order in which they are made. -/
inductive WaitNode where
  | head
  | call (id : Nat)
deriving DecidableEq, Repr

/-- `struct sem` with the `thread` members of the nodes linked to it.  Its lock
is not a field: on one hart a section under it is one step. -/
structure Sem where
  count : Int
  waitList : Links WaitNode
  thread : Nat → Nat

namespace Sem

def listEntry : WaitNode → Option Nat
  | .head => none
  | .call id => some id

end Sem

def semInit (value : Int) : Sem where
  count := value
  waitList := initListHead ⟨fun _ => none, fun _ => none⟩ .head
  thread := fun _ => 0

/-- The start of `sem_wait`, in front of its loop. -/
def semWaitEnter (sem : Sem) (call current : Nat) : Sem :=
  { sem with
    thread := Function.update sem.thread call current
    waitList := initListHead sem.waitList (.call call) }

variable {ρ : Type}

/-- The locked section of `sem_wait`'s loop.  The flag tells whether the loop
is left; otherwise the caller yields. -/
def semWaitSection (s : Sched ρ) (sem : Sem) (call : Nat) (inList : Bool) :
    Option (Sched ρ × Sem × Bool) := do
  if sem.count > 0 then
    let sem := { sem with count := sem.count - 1 }
    if inList then
      let waitList ← listDel sem.waitList (.call call)
      return (s, { sem with waitList := waitList }, true)
    else
      return (s, sem, true)
  else
    let s := blockThread s (sem.thread call)
    let waitList ← listAddTail sem.waitList (.call call) .head
    return (s, { sem with waitList := waitList }, false)

/-- The locked section of `sem_post`; `calls` bounds the nodes on the list. -/
def semPost (s : Sched ρ) (sem : Sem) (calls : Nat) :
    Option (Sched ρ × Sem) := do
  let sem := { sem with count := wrapLong (sem.count + 1) }
  let nodes ← listForEach sem.waitList (calls + 1) .head
  let best := (nodes.filterMap Sem.listEntry).foldl
    (keepBetter (fun id => (s.thread (sem.thread id)).state == .block)
      fun id => (s.thread (sem.thread id)).priority) (none, -1)
  match best.1 with
  | none => return (s, sem)
  | some id =>
      let s := wakeThread s (sem.thread id)
      let waitList ← listDelInit sem.waitList (.call id)
      return (s, { sem with waitList := waitList })

end Zsbl.Common
