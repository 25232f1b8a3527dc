/-
Module: Zsbl.Proofs.SemaphoreCorrect
Purpose: Units are conserved, the wait lists hold exactly the blocked waiters,
  no wakeup is lost, and a post wakes the waiter it should.
Trusted boundary: none
Main exports:
  Machine.PostSafe, WaitList, semaphore_correct
-/
import Zsbl.Proofs.ContextSwitch

namespace Zsbl.Common

open Zsbl.Lib Zsbl.Include

variable {ρ : Type}

/-! ## Conservation of units -/

/-- No post finds the count at the greatest `long`. -/
def Machine.PostSafe (y : Machine ρ) : MachineOp ρ → Prop
  | .semPost id => (y.sem id).count < 2 ^ 63 - 1
  | _ => True

/-- What a step does to the count and the history of one semaphore. -/
inductive CountStep (y y' : Machine ρ) (op : MachineOp ρ) (id : Nat) : Prop where
  | same (count : (y'.sem id).count = (y.sem id).count)
      (posts : y'.posts id = y.posts id) (waits : y'.waits id = y.waits id)
  | wait (available : (y.sem id).count > 0)
      (count : (y'.sem id).count = (y.sem id).count - 1)
      (posts : y'.posts id = y.posts id) (waits : y'.waits id = y.waits id + 1)
  | post (isPost : op = .semPost id)
      (count : (y'.sem id).count = wrapLong ((y.sem id).count + 1))
      (posts : y'.posts id = y.posts id + 1) (waits : y'.waits id = y.waits id)

theorem CountStep.of_same {y y' : Machine ρ} {op : MachineOp ρ}
    (sem : y'.sem = y.sem) (posts : y'.posts = y.posts)
    (waits : y'.waits = y.waits) (id : Nat) : CountStep y y' op id :=
  .same (by rw [sem]) (by rw [posts]) (by rw [waits])

/-- A wait that is served takes one from the count, and any other leaves it. -/
theorem semWaitSection_count {s s' : Sched ρ} {sem sem' : Sem} {call : Nat}
    {inList left : Bool}
    (done : semWaitSection s sem call inList = some (s', sem', left)) :
    (left = true ∧ sem.count > 0 ∧ sem'.count = sem.count - 1) ∨
      (left = false ∧ sem'.count = sem.count) := by
  unfold semWaitSection at done
  split at done
  · rename_i available
    cases inList with
    | false =>
        simp only [Bool.false_eq_true, if_false, Option.pure_def,
          Option.some.injEq, Prod.mk.injEq] at done
        obtain ⟨-, rfl, rfl⟩ := done
        exact Or.inl ⟨rfl, available, rfl⟩
    | true =>
        obtain ⟨links, -, done⟩ := Option.bind_eq_some_iff.mp done
        simp only [Option.pure_def, Option.some.injEq, Prod.mk.injEq] at done
        obtain ⟨-, rfl, rfl⟩ := done
        exact Or.inl ⟨rfl, available, rfl⟩
  · obtain ⟨links, -, done⟩ := Option.bind_eq_some_iff.mp done
    simp only [Option.pure_def, Option.some.injEq, Prod.mk.injEq] at done
    obtain ⟨-, rfl, rfl⟩ := done
    exact Or.inr ⟨rfl, rfl⟩

/-- A post adds one to the count, which wraps. -/
theorem semPost_count {s s' : Sched ρ} {sem sem' : Sem} {calls : Nat}
    (done : semPost s sem calls = some (s', sem')) :
    sem'.count = wrapLong (sem.count + 1) := by
  obtain ⟨nodes, -, done⟩ := Option.bind_eq_some_iff.mp done
  dsimp only at done
  split at done
  · simp only [Option.pure_def, Option.some.injEq, Prod.mk.injEq] at done
    exact done.2 ▸ rfl
  · obtain ⟨links, -, done⟩ := Option.bind_eq_some_iff.mp done
    simp only [Option.pure_def, Option.some.injEq, Prod.mk.injEq] at done
    exact done.2 ▸ rfl

theorem storeFrame_history (y : Machine ρ) (captured : Frame ρ)
    (mem : Nat → Frame ρ) : (y.storeFrame captured mem).sem = y.sem ∧
      (y.storeFrame captured mem).posts = y.posts ∧
      (y.storeFrame captured mem).waits = y.waits := by
  unfold Machine.storeFrame
  split <;> simp

/-- A trap leaves the counts alone. -/
theorem trap_count {y y' : Machine ρ} {op : MachineOp ρ} {s : Sched Nat}
    {captured : Frame ρ} {mem : Nat → Frame ρ}
    (done : y.trap s captured mem = some y') (id : Nat) :
    CountStep y y' op id := by
  obtain ⟨sem, posts, waits⟩ := storeFrame_history y captured mem
  obtain ⟨⟨s', ctx⟩, -, done⟩ := Option.bind_eq_some_iff.mp done
  dsimp only at done
  split at done
  · obtain rfl := Option.some.inj done
    refine .of_same ?_ ?_ ?_ id
    · exact sem
    · exact posts
    · exact waits
  · obtain rfl := Option.some.inj done
    refine .of_same ?_ ?_ ?_ id
    · exact sem
    · exact posts
    · exact waits

/-- Only the two locked sections touch a count. -/
theorem step_count {y y' : Machine ρ} {op : MachineOp ρ}
    (taken : y.step op = some y') (id : Nat) : CountStep y y' op id := by
  cases op with
  | compute sp regs mem =>
      obtain rfl := Option.some.inj taken
      apply CountStep.of_same <;> rfl
  | create top regs =>
      obtain ⟨-, taken⟩ := guard_bind_eq_some.mp taken
      obtain ⟨⟨s, t⟩, -, taken⟩ := Option.bind_eq_some_iff.mp taken
      obtain rfl := Option.some.inj taken
      apply CountStep.of_same <;> rfl
  | setPriority t p =>
      obtain ⟨-, taken⟩ := guard_bind_eq_some.mp taken
      obtain rfl := Option.some.inj taken
      dsimp only
      split
      all_goals apply CountStep.of_same <;> rfl
  | start top regs =>
      obtain ⟨-, taken⟩ := guard_bind_eq_some.mp taken
      obtain ⟨outcome, -, taken⟩ := Option.bind_eq_some_iff.mp taken
      cases outcome with
      | error err =>
          obtain rfl := Option.some.inj taken
          apply CountStep.of_same <;> rfl
      | ok s =>
          obtain rfl := Option.some.inj taken
          apply CountStep.of_same <;> rfl
  | yield =>
      obtain ⟨-, taken⟩ := guard_bind_eq_some.mp taken
      obtain rfl := Option.some.inj taken
      apply CountStep.of_same <;> rfl
  | msleep time =>
      obtain ⟨-, taken⟩ := guard_bind_eq_some.mp taken
      obtain ⟨s, -, taken⟩ := Option.bind_eq_some_iff.mp taken
      obtain rfl := Option.some.inj taken
      apply CountStep.of_same <;> rfl
  | semWait other =>
      obtain ⟨-, taken⟩ := guard_bind_eq_some.mp taken
      obtain ⟨current, -, taken⟩ := Option.bind_eq_some_iff.mp taken
      obtain rfl := Option.some.inj taken
      refine .same ?_ rfl rfl
      by_cases same : id = other
      · subst same
        simp [Machine.setSem, Machine.goto, semWaitEnter]
      · simp [Machine.setSem, Machine.goto, same]
  | semLock =>
      obtain ⟨-, taken⟩ := guard_bind_eq_some.mp taken
      split at taken
      · rename_i other call inList pc
        obtain ⟨⟨s, sem, left⟩, section_eq, taken⟩ :=
          Option.bind_eq_some_iff.mp taken
        rcases semWaitSection_count section_eq with
          ⟨rfl, available, count⟩ | ⟨rfl, count⟩
        · obtain rfl := Option.some.inj taken
          by_cases same : id = other
          · subst same
            refine .wait available ?_ rfl ?_ <;>
              simp [Machine.setSem, Machine.goto, count]
          · refine .same ?_ rfl ?_ <;>
              simp [Machine.setSem, Machine.goto, same]
        · obtain rfl := Option.some.inj taken
          refine .same ?_ rfl rfl
          by_cases same : id = other
          · subst same
            simp [Machine.setSem, Machine.goto, count]
          · simp [Machine.setSem, Machine.goto, same]
      · simp at taken
  | semPost other =>
      obtain ⟨-, taken⟩ := guard_bind_eq_some.mp taken
      obtain ⟨⟨s, sem⟩, posted, taken⟩ := Option.bind_eq_some_iff.mp taken
      obtain rfl := Option.some.inj taken
      have count := semPost_count posted
      by_cases same : id = other
      · subst same
        refine .post rfl ?_ ?_ rfl <;>
          simp [Machine.setSem, Machine.goto, count]
      · refine .same ?_ ?_ rfl <;>
          simp [Machine.setSem, Machine.goto, same]
  | exit code =>
      obtain ⟨-, taken⟩ := guard_bind_eq_some.mp taken
      obtain ⟨s, -, taken⟩ := Option.bind_eq_some_iff.mp taken
      obtain rfl := Option.some.inj taken
      apply CountStep.of_same <;> rfl
  | ecall mem =>
      cases pc : y.regs.pc with
      | point here => simp [Machine.step, pc] at taken
      | yield back =>
          simp only [Machine.step, pc] at taken
          exact trap_count taken id
  | tick mem =>
      obtain ⟨-, taken⟩ := guard_bind_eq_some.mp taken
      obtain ⟨s, -, taken⟩ := Option.bind_eq_some_iff.mp taken
      exact trap_count taken id

/-- Each unit is in the semaphore or has been taken by a wait. -/
def Balanced (value : Nat → Int) (y : Machine ρ) : Prop :=
  ∀ id, value id + y.posts id = (y.sem id).count + y.waits id ∧
    0 ≤ (y.sem id).count

/-- Each step keeps the balance of posts, waits and the count. -/
theorem Balanced.step {value : Nat → Int} {y y' : Machine ρ} {op : MachineOp ρ}
    (balanced : Balanced value y) (safe : y.PostSafe op)
    (taken : y.step op = some y') : Balanced value y' := by
  intro id
  obtain ⟨sum, nonneg⟩ := balanced id
  cases step_count taken id with
  | same count posts waits =>
      rw [count, posts, waits]
      exact ⟨sum, nonneg⟩
  | wait available count posts waits =>
      rw [count, posts, waits]
      push_cast
      omega
  | post isPost count posts waits =>
      subst isPost
      have fits : (y.sem id).count < 2 ^ 63 - 1 := safe
      rw [count, posts, waits, wrapLong_of_lt (by omega) (by omega)]
      push_cast
      omega

/-- The balance holds in every run whose counts do not wrap. -/
theorem balanced_of_reachable {value : Nat → Int}
    (nonneg : ∀ id, 0 ≤ value id) {y : Machine ρ}
    (reached : (machineLts value).ReachableWhile Machine.PostSafe y) :
    Balanced value y := by
  refine reached.invariant (Balanced value) ?_ ?_
  · rintro y ⟨regs, rfl⟩ id
    exact ⟨by simp [Machine.initial, semInit], nonneg id⟩
  · intro y op y' _ balanced safe taken
    exact balanced.step safe taken

/-! ## The wait lists -/

/-- The wait list of a semaphore is well formed, each thread blocked in
`sem_wait` is on it exactly once and nobody else is, and every node on it
belongs to a call of `sem_wait` that its thread is still in. -/
structure WaitList (y : Machine ρ) (id : Nat) (queue : List Nat) : Prop where
  ring : (y.sem id).waitList.Ring .head (queue.map .call)
  once : (queue.map (y.sem id).thread).Nodup
  blocked_iff : ∀ t, t ∈ queue.map (y.sem id).thread ↔
    t < y.sched.created ∧ (y.sched.thread t).state = .block ∧
      ∃ call inList, y.site t = .semWait id call inList
  in_progress : ∀ call ∈ queue,
    y.site ((y.sem id).thread call) = .semWait id call true

/-- The wait list holds exactly the threads that wait, in the order of their coming. -/
theorem SemInv.waitList {y : Machine ρ} {queue : Nat → List Nat}
    (inv : SemInv y queue) (id : Nat) : WaitList y id (queue id) where
  ring := inv.ring id
  once := by
    refine (inv.nodup id).map_on ?_
    intro call member call' member' same
    have stands := (inv.listed id call member).2
    have stands' := (inv.listed id call' member').2
    rw [same, stands'] at stands
    simp only [Point.semWait.injEq] at stands
    exact stands.2.1.symm
  blocked_iff := by
    intro t
    constructor
    · intro member
      obtain ⟨call, queued, rfl⟩ := List.mem_map.mp member
      obtain ⟨allocated, stands⟩ := inv.listed id call queued
      exact ⟨allocated, inv.blocked queued, call, true, stands⟩
    · rintro ⟨allocated, blocked, call, inList, stands⟩
      cases inList with
      | false => exact absurd blocked (inv.entering t id call allocated stands)
      | true =>
          refine List.mem_map.mpr ⟨call,
            (inv.blocked_iff t id call allocated stands).mp blocked, ?_⟩
          exact (inv.inside t id call true allocated stands).1
  in_progress := fun call member => (inv.listed id call member).2

/-- Semaphores that start with a non-negative `long`.  As long as no post finds
the count at the greatest `long`, units are conserved and the count is never
negative.  In every run in which no tick arrives in the window of
`sched_msleep`, the wait list holds exactly the blocked waiters, a blocked
waiter means that there are at most as many units as waiters already woken, and
both locked sections are carried out, a post waking the first blocked waiter of
greatest priority. -/
theorem semaphore_correct {value : Nat → Int}
    (isLong : ∀ id, IsLong (value id)) (nonneg : ∀ id, 0 ≤ value id) :
    (∀ y : Machine ρ, (machineLts value).ReachableWhile Machine.PostSafe y →
      ∀ id, value id + y.posts id = (y.sem id).count + y.waits id ∧
        0 ≤ (y.sem id).count) ∧
    ∀ y : Machine ρ, (machineLts value).ReachableWhile Machine.TickSafe y →
      ∀ id, ∃ queue, WaitList y id queue ∧
        (queue ≠ [] → (y.sem id).count ≤ (y.woken id).card) ∧
        (y.InThread → ∃ y', y.step (.semPost id) = some y' ∧
          PostWakes y y' id queue) ∧
        ∀ call inList, y.boot = false →
          y.regs.pc = .point (.semWait id call inList) →
          ∃ y', y.step .semLock = some y' := by
  constructor
  · exact fun y reached => balanced_of_reachable nonneg reached
  · intro y reached id
    obtain ⟨threads, queue, inv⟩ :=
      exists_machineInv isLong (fun _ _ safe => safe) reached
    refine ⟨queue id, inv.sems.waitList id, inv.sems.bound id, ?_, ?_⟩
    · intro inside
      obtain ⟨y', queue', posted, -, wakes⟩ := inv.semPost inside
      exact ⟨y', posted, wakes⟩
    · intro call inList boot pc
      obtain ⟨y', queue', locked, -⟩ := inv.semLock boot pc
      exact ⟨y', locked⟩

/-- The started thread waits on semaphore 0 and finds no unit. -/
def waitOps : List (MachineOp Nat) :=
  startOps ++ [.ecall blankStack, .semWait 0, .semLock]

def waitingMachine : Machine Nat :=
  ((Machine.initial (fun _ => 0) 0).run waitOps).get (by rfl)

/-- The thread that has just blocked is on the wait list, and units are
conserved. -/
theorem semaphore_correct_waiting :
    (0 + waitingMachine.posts 0 = (waitingMachine.sem 0).count +
        waitingMachine.waits 0 ∧ 0 ≤ (waitingMachine.sem 0).count) ∧
      ∃ queue, WaitList waitingMachine 0 queue ∧
        0 ∈ queue.map (waitingMachine.sem 0).thread := by
  obtain ⟨balance, lists⟩ := semaphore_correct (ρ := Nat)
    (fun _ => ⟨by decide, by decide⟩ : ∀ _ : Nat, IsLong 0) fun _ => le_rfl
  have posts : (machineLts fun _ => 0).ReachableWhile Machine.PostSafe
      waitingMachine := by
    refine Machine.reachable_run (.initial ⟨0, rfl⟩) ?_ (Option.some_get _).symm
    simp [waitOps, startOps, Machine.PostSafe]
  have ticks : (machineLts fun _ => 0).ReachableWhile Machine.TickSafe
      waitingMachine := by
    refine Machine.reachable_run (.initial ⟨0, rfl⟩) ?_ (Option.some_get _).symm
    simp [waitOps, startOps, Machine.TickSafe]
  refine ⟨balance waitingMachine posts 0, ?_⟩
  obtain ⟨queue, waitList, -⟩ := lists waitingMachine ticks 0
  refine ⟨queue, waitList, (waitList.blocked_iff 0).mpr ?_⟩
  exact ⟨by decide, by decide, 0, true, by decide⟩

/-- A post on a semaphore that starts with the greatest `long` makes the count
negative. -/
def overflowOps : List (MachineOp Nat) :=
  startOps ++ [.ecall blankStack, .semPost 0]

/-- A count of LONG_MAX that is posted is negative. -/
theorem semaphore_overflow :
    ¬ ∀ value : Nat → Int, (∀ id, IsLong (value id)) → (∀ id, 0 ≤ value id) →
      ∀ y : Machine Nat, (machineLts value).ReachableWhile Machine.TickSafe y →
        ∀ id, value id + y.posts id = (y.sem id).count + y.waits id ∧
          0 ≤ (y.sem id).count := by
  intro balanced
  let y := ((Machine.initial (fun _ => 2 ^ 63 - 1) 0).run overflowOps).get
    (by rfl)
  have reached : (machineLts fun _ => 2 ^ 63 - 1).ReachableWhile
      Machine.TickSafe y := by
    refine Machine.reachable_run (.initial ⟨0, rfl⟩) ?_ (Option.some_get _).symm
    simp [overflowOps, startOps, Machine.TickSafe]
  have nonneg := (balanced _ (fun _ => ⟨by decide, by decide⟩)
    (fun _ => by decide) y reached 0).2
  exact absurd nonneg (by decide)

end Zsbl.Common
