/-
Module: Zsbl.Proofs.SemaphoreInvariant
Purpose: The invariant that ties each semaphore's wait list and count to the
  places at which the threads stand.
Trusted boundary: none
Main exports:
  Machine.woken, SemInv, SemInv.frame
-/
import Zsbl.Proofs.Machine
import Mathlib.Data.Finset.Card

namespace Zsbl.Common

open Zsbl.Lib Zsbl.Include

variable {ρ : Type}

/-- The thread has queued on the semaphore in the `sem_wait` it is in. -/
def Point.queuedOn (id : Nat) : Point → Bool
  | .thread => false
  | .semWait sem _ inList => sem == id && inList

/-- The waiters that a post has made runnable and that have not looked at the
count since. -/
def Machine.woken (y : Machine ρ) (id : Nat) : Finset Nat :=
  (Finset.range y.sched.created).filter fun t =>
    (y.site t).queuedOn id ∧ (y.sched.thread t).state ≠ .block

theorem Machine.mem_woken {y : Machine ρ} {id t : Nat} :
    t ∈ y.woken id ↔ t < y.sched.created ∧
      (∃ call, y.site t = .semWait id call true) ∧
      (y.sched.thread t).state ≠ .block := by
  have queued : (y.site t).queuedOn id = true ↔
      ∃ call, y.site t = .semWait id call true := by
    cases y.site t <;> simp [Point.queuedOn]
  simp [woken, queued]

/-- The invariant of the semaphores.  `queue id` is the content of the wait list
of semaphore `id`, given by the calls of `sem_wait` its nodes belong to. -/
structure SemInv (y : Machine ρ) (queue : Nat → List Nat) : Prop where
  ring : ∀ id, (y.sem id).waitList.Ring .head ((queue id).map .call)
  listed : ∀ id call, call ∈ queue id →
    (y.sem id).thread call < y.sched.created ∧
      y.site ((y.sem id).thread call) = .semWait id call true
  inside : ∀ t id call inList, t < y.sched.created →
    y.site t = .semWait id call inList →
    (y.sem id).thread call = t ∧ call < y.calls ∧ y.idle ≠ some t ∧
      (y.sched.thread t).state ≠ .dead ∧ (y.sched.thread t).sleepTime = 0
  blocked_iff : ∀ t id call, t < y.sched.created →
    y.site t = .semWait id call true →
    ((y.sched.thread t).state = .block ↔ call ∈ queue id)
  entering : ∀ t id call, t < y.sched.created →
    y.site t = .semWait id call false → (y.sched.thread t).state ≠ .block
  selfLinked : ∀ t id call, t < y.sched.created →
    y.site t = .semWait id call true → call ∉ queue id →
    SelfLinked (y.sem id).waitList (.call call)
  low : ∀ id, -2 ^ 63 ≤ (y.sem id).count
  bound : ∀ id, queue id ≠ [] → (y.sem id).count ≤ (y.woken id).card

namespace SemInv

variable {y y' : Machine ρ} {queue : Nat → List Nat} {id call t e : Nat}

theorem nodup (inv : SemInv y queue) (id : Nat) : (queue id).Nodup :=
  (inv.ring id).inner_nodup.of_map _

theorem lt_calls (inv : SemInv y queue) (member : call ∈ queue id) :
    call < y.calls := by
  obtain ⟨allocated, stands⟩ := inv.listed id call member
  exact (inv.inside _ id call true allocated stands).2.1

theorem length_le (inv : SemInv y queue) (id : Nat) :
    (queue id).length ≤ y.calls := by
  have inside : queue id ⊆ List.range y.calls := fun call member =>
    List.mem_range.mpr (inv.lt_calls member)
  simpa using ((inv.nodup id).subperm inside).length_le

theorem blocked (inv : SemInv y queue) (member : call ∈ queue id) :
    (y.sched.thread ((y.sem id).thread call)).state = .block := by
  obtain ⟨allocated, stands⟩ := inv.listed id call member
  exact (inv.blocked_iff _ id call allocated stands).mpr member

/-- A thread that has not queued in its current call is not on the list. -/
theorem not_queued (inv : SemInv y queue) (allocated : t < y.sched.created)
    (stands : y.site t = .semWait id call false) : call ∉ queue id := by
  intro member
  have same := (inv.inside t id call false allocated stands).1
  have other := (inv.listed id call member).2
  rw [same, stands] at other
  simp at other

/-- The invariant reads the scheduler only where a thread is in `sem_wait`, and
the counts only for its two bounds. -/
theorem frame_count (inv : SemInv y queue)
    (linksEq : ∀ id, (y'.sem id).waitList = (y.sem id).waitList)
    (threadEq : ∀ id, (y'.sem id).thread = (y.sem id).thread)
    (lowNew : ∀ id, -2 ^ 63 ≤ (y'.sem id).count)
    (countLe : ∀ id, queue id ≠ [] → (y'.sem id).count ≤ (y.sem id).count)
    (callsEq : y'.calls = y.calls)
    (grown : y.sched.created ≤ y'.sched.created)
    (old : ∀ t, t < y.sched.created → y'.site t = y.site t)
    (new : ∀ t, y.sched.created ≤ t → t < y'.sched.created →
      y'.site t = .thread)
    (parked : ∀ t, t < y.sched.created → y.site t ≠ .thread →
      ((y'.sched.thread t).state = .block ↔
        (y.sched.thread t).state = .block) ∧
      ((y'.sched.thread t).state = .dead →
        (y.sched.thread t).state = .dead) ∧
      (y'.sched.thread t).sleepTime = (y.sched.thread t).sleepTime ∧
      (y'.idle = some t → y.idle = some t)) :
    SemInv y' queue := by
  have stood : ∀ {t id call inList}, t < y'.sched.created →
      y'.site t = .semWait id call inList →
      t < y.sched.created ∧ y.site t = .semWait id call inList := by
    intro t id call inList allocated stands
    by_cases early : t < y.sched.created
    · exact ⟨early, old t early ▸ stands⟩
    · have := new t (Nat.le_of_not_lt early) allocated
      rw [this] at stands
      simp at stands
  have away : ∀ {t id call inList}, y.site t = .semWait id call inList →
      y.site t ≠ .thread := by
    intro t id call inList stands isThread
    rw [stands] at isThread
    simp at isThread
  have wokenEq : ∀ id, y'.woken id = y.woken id := by
    intro id
    ext t
    rw [Machine.mem_woken, Machine.mem_woken]
    constructor
    · rintro ⟨allocated, ⟨call, stands⟩, ready⟩
      obtain ⟨early, stands'⟩ := stood allocated stands
      exact ⟨early, ⟨call, stands'⟩,
        fun block => ready ((parked t early (away stands')).1.mpr block)⟩
    · rintro ⟨early, ⟨call, stands⟩, ready⟩
      exact ⟨early.trans_le grown, ⟨call, (old t early).trans stands⟩,
        fun block => ready ((parked t early (away stands)).1.mp block)⟩
  refine
    { ring := by simpa [linksEq] using inv.ring
      listed := ?_
      inside := ?_
      blocked_iff := ?_
      entering := ?_
      selfLinked := ?_
      low := lowNew
      bound := fun id waiting => by
        rw [wokenEq]
        exact (countLe id waiting).trans (inv.bound id waiting) }
  · intro id call member
    obtain ⟨allocated, stands⟩ := inv.listed id call member
    rw [threadEq]
    exact ⟨allocated.trans_le grown, (old _ allocated).trans stands⟩
  · intro t id call inList allocated stands
    obtain ⟨early, stands'⟩ := stood allocated stands
    obtain ⟨same, lt, notIdle, live, awake⟩ :=
      inv.inside t id call inList early stands'
    obtain ⟨-, dead, sleep, idle⟩ := parked t early (away stands')
    rw [threadEq, callsEq]
    exact ⟨same, lt, fun isIdle => notIdle (idle isIdle),
      fun isDead => live (dead isDead), sleep.trans awake⟩
  · intro t id call allocated stands
    obtain ⟨early, stands'⟩ := stood allocated stands
    rw [(parked t early (away stands')).1]
    exact inv.blocked_iff t id call early stands'
  · intro t id call allocated stands
    obtain ⟨early, stands'⟩ := stood allocated stands
    rw [Ne, (parked t early (away stands')).1]
    exact inv.entering t id call early stands'
  · intro t id call allocated stands
    obtain ⟨early, stands'⟩ := stood allocated stands
    rw [linksEq]
    exact inv.selfLinked t id call early stands'

/-- A step that leaves the semaphores alone keeps the invariant. -/
theorem frame (inv : SemInv y queue) (semEq : y'.sem = y.sem)
    (callsEq : y'.calls = y.calls)
    (grown : y.sched.created ≤ y'.sched.created)
    (old : ∀ t, t < y.sched.created → y'.site t = y.site t)
    (new : ∀ t, y.sched.created ≤ t → t < y'.sched.created →
      y'.site t = .thread)
    (parked : ∀ t, t < y.sched.created → y.site t ≠ .thread →
      ((y'.sched.thread t).state = .block ↔
        (y.sched.thread t).state = .block) ∧
      ((y'.sched.thread t).state = .dead →
        (y.sched.thread t).state = .dead) ∧
      (y'.sched.thread t).sleepTime = (y.sched.thread t).sleepTime ∧
      (y'.idle = some t → y.idle = some t)) :
    SemInv y' queue :=
  inv.frame_count (by simp [semEq]) (by simp [semEq])
    (by simpa [semEq] using inv.low) (by simp [semEq]) callsEq grown old new
    parked

end SemInv

/-! ## The steps on semaphores -/

/-- The hart executes `e` before and after the step, which takes the thread to
`here`. -/
structure Moves (y y' : Machine ρ) (e : Nat) (here : Point) : Prop where
  executing : y.executing = some e
  executing' : y'.executing = some e
  lastTrap_eq : y'.lastTrap = y.lastTrap
  back_eq : y'.regs.pc.back = here
  created_eq : y'.sched.created = y.sched.created
  idle_eq : y'.idle = y.idle

/-- Only the thread that takes the step moves. -/
theorem Moves.site_eq {y y' : Machine ρ} {e : Nat} {here : Point}
    (moves : Moves y y' e here) (t : Nat) :
    y'.site t = if t = e then here else y.site t := by
  unfold Machine.site
  rw [moves.executing, moves.executing', moves.lastTrap_eq, moves.back_eq]
  by_cases same : t = e
  · subst same
    simp
  · have ne : ¬ e = t := fun eq => same eq.symm
    simp [same, ne]

namespace SemInv

variable {y y' : Machine ρ} {queue : Nat → List Nat} {id call t e : Nat}

/-- `sem_wait` starts: its node points at itself, off every list. -/
theorem enter (inv : SemInv y queue)
    (moves : Moves y y' e (.semWait id y.calls false))
    (stood : y.site e = .thread) (allocated : e < y.sched.created)
    (running : (y.sched.thread e).state = .running)
    (awake : (y.sched.thread e).sleepTime = 0) (notIdle : y.idle ≠ some e)
    (semEq : y'.sem =
      Function.update y.sem id (semWaitEnter (y.sem id) y.calls e))
    (callsEq : y'.calls = y.calls + 1) (schedEq : y'.sched = y.sched) :
    SemInv y' queue := by
  have countEq : ∀ id', (y'.sem id').count = (y.sem id').count := by
    intro id'
    rw [semEq]
    by_cases same : id' = id
    · subst same
      simp [semWaitEnter]
    · simp [Function.update_of_ne same]
  have threadEq : ∀ id' call, call < y.calls →
      (y'.sem id').thread call = (y.sem id').thread call := by
    intro id' call lt
    rw [semEq]
    by_cases same : id' = id
    · subst same
      simp [semWaitEnter, Function.update_of_ne (Nat.ne_of_lt lt)]
    · simp [Function.update_of_ne same]
  have agree : ∀ id', AgreeOff (y.sem id').waitList (y'.sem id').waitList
      [.call y.calls] := by
    intro id'
    rw [semEq]
    by_cases same : id' = id
    · subst same
      simpa [semWaitEnter] using initListHead_agreeOff _ _
    · intro other _
      simp [Function.update_of_ne same]
  have elsewhere : ∀ {t id' call inList}, y.site t = .semWait id' call inList →
      t ≠ e := by
    rintro t id' call inList stands rfl
    rw [stood] at stands
    simp at stands
  have wokenEq : ∀ id', y'.woken id' = y.woken id' := by
    intro id'
    ext t
    rw [Machine.mem_woken, Machine.mem_woken, schedEq, moves.site_eq]
    by_cases same : t = e
    · subst same
      simp [stood]
    · simp [same]
  refine
    { ring := ?_
      listed := ?_
      inside := ?_
      blocked_iff := ?_
      entering := ?_
      selfLinked := ?_
      low := by simpa [countEq] using inv.low
      bound := by simpa [countEq, wokenEq] using inv.bound }
  · intro id'
    refine (agree id').ring (inv.ring id') ?_
    intro node member single
    obtain rfl := List.mem_singleton.mp single
    have lt : y.calls < y.calls := inv.lt_calls (by simpa using member)
    exact lt_irrefl _ lt
  · intro id' call member
    obtain ⟨inTable, stands⟩ := inv.listed id' call member
    rw [threadEq id' call (inv.lt_calls member), schedEq, moves.site_eq,
      if_neg (elsewhere stands)]
    exact ⟨inTable, stands⟩
  · intro t id' call inList inTable stands
    rw [schedEq] at inTable
    rw [moves.site_eq] at stands
    rw [callsEq, moves.idle_eq, schedEq]
    by_cases same : t = e
    · subst same
      simp only [if_true, Point.semWait.injEq] at stands
      obtain ⟨rfl, rfl, rfl⟩ := stands
      refine ⟨by simp [semEq, semWaitEnter], Nat.lt_succ_self _, notIdle, ?_,
        awake⟩
      simp [running]
    · rw [if_neg same] at stands
      obtain ⟨owner, lt, rest⟩ := inv.inside t id' call inList inTable stands
      exact ⟨(threadEq id' call lt).trans owner, Nat.lt_succ_of_lt lt, rest⟩
  · intro t id' call inTable stands
    rw [schedEq] at inTable ⊢
    rw [moves.site_eq] at stands
    by_cases same : t = e
    · simp [same] at stands
    · rw [if_neg same] at stands
      exact inv.blocked_iff t id' call inTable stands
  · intro t id' call inTable stands
    rw [schedEq] at inTable ⊢
    rw [moves.site_eq] at stands
    by_cases same : t = e
    · subst same
      simp [running]
    · rw [if_neg same] at stands
      exact inv.entering t id' call inTable stands
  · intro t id' call inTable stands off
    rw [schedEq] at inTable
    rw [moves.site_eq] at stands
    by_cases same : t = e
    · simp [same] at stands
    · rw [if_neg same] at stands
      have lt := (inv.inside t id' call true inTable stands).2.1
      have self := inv.selfLinked t id' call inTable stands off
      have apart : WaitNode.call call ∉ [WaitNode.call y.calls] := by
        simpa using Nat.ne_of_lt lt
      obtain ⟨nextEq, prevEq⟩ := agree id' _ apart
      exact ⟨nextEq.trans self.1, prevEq.trans self.2⟩

/-- The call that a running thread is in is off the list. -/
theorem off_queue (inv : SemInv y queue) {inList : Bool}
    (allocated : t < y.sched.created)
    (stands : y.site t = .semWait id call inList)
    (running : (y.sched.thread t).state = .running) : call ∉ queue id := by
  cases inList with
  | false => exact inv.not_queued allocated stands
  | true =>
      rw [← inv.blocked_iff t id call allocated stands, running]
      simp

/-- A running thread owns no node of a wait list. -/
theorem owner_ne (inv : SemInv y queue) (member : call ∈ queue id)
    (running : (y.sched.thread t).state = .running) :
    (y.sem id).thread call ≠ t := by
  rintro rfl
  simp [inv.blocked member] at running

section Updated

variable {count : Int} {links : Links WaitNode} {new : List Nat}

theorem updated_thread
    (semEq : y'.sem = Function.update y.sem id ⟨count, links, (y.sem id).thread⟩)
    (id' : Nat) : (y'.sem id').thread = (y.sem id').thread := by
  rw [semEq]
  by_cases same : id' = id
  · subst same
    simp
  · simp [Function.update_of_ne same]

/-- A semaphore whose list is linked anew has the new queue; the others keep theirs. -/
theorem updated_ring (inv : SemInv y queue)
    (semEq : y'.sem = Function.update y.sem id ⟨count, links, (y.sem id).thread⟩)
    (ring : links.Ring .head (new.map .call)) (id' : Nat) :
    (y'.sem id').waitList.Ring .head ((Function.update queue id new id').map .call) := by
  rw [semEq]
  by_cases same : id' = id
  · subst same
    simpa using ring
  · simpa [Function.update_of_ne same] using inv.ring id'

theorem updated_low (inv : SemInv y queue)
    (semEq : y'.sem = Function.update y.sem id ⟨count, links, (y.sem id).thread⟩)
    (low : -2 ^ 63 ≤ count) (id' : Nat) : -2 ^ 63 ≤ (y'.sem id').count := by
  rw [semEq]
  by_cases same : id' = id
  · subst same
    simpa using low
  · simpa [Function.update_of_ne same] using inv.low id'

end Updated

/-- `sem_wait` takes a unit and returns. -/
theorem take (inv : SemInv y queue) (moves : Moves y y' e .thread)
    {inList : Bool} {links : Links WaitNode}
    (stood : y.site e = .semWait id call inList)
    (allocated : e < y.sched.created)
    (running : (y.sched.thread e).state = .running)
    (available : (y.sem id).count > 0)
    (agree : AgreeOff (y.sem id).waitList links [.call call])
    (semEq : y'.sem = Function.update y.sem id
      ⟨(y.sem id).count - 1, links, (y.sem id).thread⟩)
    (callsEq : y'.calls = y.calls) (schedEq : y'.sched = y.sched) :
    SemInv y' queue := by
  have off := inv.off_queue allocated stood running
  have owner := (inv.inside e id call inList allocated stood).1
  have threadEq := updated_thread semEq
  have stands_iff : ∀ t id' call' inList',
      y'.site t = .semWait id' call' inList' ↔
        t ≠ e ∧ y.site t = .semWait id' call' inList' := by
    intro t id' call' inList'
    rw [moves.site_eq]
    by_cases same : t = e <;> simp [same]
  have wokenSub : ∀ id', (y.woken id').erase e ⊆ y'.woken id' := by
    intro id' t member
    obtain ⟨ne, member⟩ := Finset.mem_erase.mp member
    obtain ⟨inTable, ⟨call', stands⟩, ready⟩ := Machine.mem_woken.mp member
    rw [Machine.mem_woken, schedEq]
    exact ⟨inTable, ⟨call', (stands_iff t id' call' true).mpr ⟨ne, stands⟩⟩,
      ready⟩
  refine
    { ring := ?_
      listed := ?_
      inside := ?_
      blocked_iff := ?_
      entering := ?_
      selfLinked := ?_
      low := inv.updated_low semEq (by omega)
      bound := ?_ }
  · intro id'
    rw [semEq]
    by_cases same : id' = id
    · subst same
      simp only [Function.update_self]
      refine agree.ring (inv.ring id') ?_
      intro node member single
      obtain rfl := List.mem_singleton.mp single
      exact off (by simpa using member)
    · simpa [Function.update_of_ne same] using inv.ring id'
  · intro id' call' member
    obtain ⟨inTable, stands⟩ := inv.listed id' call' member
    rw [threadEq, schedEq]
    exact ⟨inTable, (stands_iff _ id' call' true).mpr
      ⟨inv.owner_ne member running, stands⟩⟩
  · intro t id' call' inList' inTable stands
    rw [schedEq] at inTable
    rw [threadEq, callsEq, moves.idle_eq, schedEq]
    exact inv.inside t id' call' inList' inTable
      ((stands_iff t id' call' inList').mp stands).2
  · intro t id' call' inTable stands
    rw [schedEq] at inTable ⊢
    exact inv.blocked_iff t id' call' inTable
      ((stands_iff t id' call' true).mp stands).2
  · intro t id' call' inTable stands
    rw [schedEq] at inTable ⊢
    exact inv.entering t id' call' inTable
      ((stands_iff t id' call' false).mp stands).2
  · intro t id' call' inTable stands away
    rw [schedEq] at inTable
    obtain ⟨ne, stands⟩ := (stands_iff t id' call' true).mp stands
    have self := inv.selfLinked t id' call' inTable stands away
    rw [semEq]
    by_cases same : id' = id
    · subst same
      simp only [Function.update_self]
      have apart : WaitNode.call call' ∉ [WaitNode.call call] := by
        intro single
        obtain rfl : call' = call := by simpa using single
        have owner' := (inv.inside t id' call' true inTable stands).1
        exact ne (owner'.symm.trans owner)
      obtain ⟨nextEq, prevEq⟩ := agree _ apart
      exact ⟨nextEq.trans self.1, prevEq.trans self.2⟩
    · simpa [Function.update_of_ne same] using self
  · intro id' waiting
    have old := inv.bound id' waiting
    have fewer := Finset.card_le_card (wokenSub id')
    rw [semEq]
    by_cases same : id' = id
    · subst same
      have one := Finset.pred_card_le_card_erase (s := y.woken id') (a := e)
      simp only [Function.update_self]
      omega
    · have notIn : e ∉ y.woken id' := by
        intro member
        obtain ⟨-, ⟨call', stands⟩, -⟩ := Machine.mem_woken.mp member
        rw [stood] at stands
        simp only [Point.semWait.injEq] at stands
        exact same stands.1.symm
      rw [Finset.erase_eq_of_notMem notIn] at fewer
      simp only [Function.update_of_ne same]
      omega

/-- `sem_wait` finds no unit: its caller `e` queues and blocks. -/
structure Blocks (y y' : Machine ρ) (queue : Nat → List Nat) (id call e : Nat)
    (inList : Bool) (links : Links WaitNode) : Prop where
  moves : Moves y y' e (.semWait id call true)
  stood : y.site e = .semWait id call inList
  allocated : e < y.sched.created
  running : (y.sched.thread e).state = .running
  exhausted : ¬ (y.sem id).count > 0
  ring : links.Ring .head ((queue id ++ [call]).map .call)
  agree : AgreeOff (y.sem id).waitList links
    (.call call :: .head :: (queue id).map .call)
  semEq : y'.sem = Function.update y.sem id
    ⟨(y.sem id).count, links, (y.sem id).thread⟩
  callsEq : y'.calls = y.calls
  schedEq : y'.sched = blockThread y.sched e

section Blocks

variable {inList : Bool} {links : Links WaitNode}

theorem Blocks.others (step : Blocks y y' queue id call e inList links) (ne : t ≠ e) :
    y'.sched.thread t = y.sched.thread t ∧ y'.site t = y.site t := by
  constructor
  · rw [step.schedEq]
    exact blockThread_thread_of_ne _ ne
  · rw [step.moves.site_eq, if_neg ne]

theorem Blocks.self (step : Blocks y y' queue id call e inList links) :
    y'.sched.thread e = { y.sched.thread e with state := .block } ∧
      y'.site e = .semWait id call true := by
  constructor
  · rw [step.schedEq]
    exact Sched.setThread_thread_self _ _ _
  · rw [step.moves.site_eq, if_pos rfl]

theorem mem_queued {id' call' : Nat} :
    call' ∈ Function.update queue id (queue id ++ [call]) id' ↔
      call' ∈ queue id' ∨ (id' = id ∧ call' = call) := by
  by_cases same : id' = id
  · subst same
    simp
  · simp [same]

/-- Every call in the queue belongs to a thread that waits there, also the new one. -/
theorem Blocks.listed (step : Blocks y y' queue id call e inList links)
    (inv : SemInv y queue) (id' call' : Nat)
    (member : call' ∈ Function.update queue id (queue id ++ [call]) id') :
    (y'.sem id').thread call' < y'.sched.created ∧
      y'.site ((y'.sem id').thread call') = .semWait id' call' true := by
  rw [updated_thread step.semEq, step.moves.created_eq]
  rcases mem_queued.mp member with early | ⟨rfl, rfl⟩
  · obtain ⟨inTable, stands⟩ := inv.listed id' call' early
    exact ⟨inTable, (step.others (inv.owner_ne early step.running)).2.trans stands⟩
  · rw [(inv.inside e id' call' inList step.allocated step.stood).1]
    exact ⟨step.allocated, step.self.2⟩

/-- Every thread inside the call is alive, known to the call and not the idle thread. -/
theorem Blocks.inside (step : Blocks y y' queue id call e inList links)
    (inv : SemInv y queue) (t id' call' : Nat) (inList' : Bool)
    (inTable : t < y'.sched.created) (stands : y'.site t = .semWait id' call' inList') :
    (y'.sem id').thread call' = t ∧ call' < y'.calls ∧ y'.idle ≠ some t ∧
      (y'.sched.thread t).state ≠ .dead ∧ (y'.sched.thread t).sleepTime = 0 := by
  rw [step.moves.created_eq] at inTable
  rw [updated_thread step.semEq, step.callsEq, step.moves.idle_eq]
  by_cases same : t = e
  · subst same
    obtain ⟨self, here⟩ := step.self
    rw [here] at stands
    simp only [Point.semWait.injEq] at stands
    obtain ⟨rfl, rfl, -⟩ := stands
    obtain ⟨owner, lt, notIdle, -, awake⟩ :=
      inv.inside t id call inList step.allocated step.stood
    rw [self]
    exact ⟨owner, lt, notIdle, by simp, awake⟩
  · obtain ⟨thread, site⟩ := step.others same
    rw [site] at stands
    rw [thread]
    exact inv.inside t id' call' inList' inTable stands

/-- The threads that are blocked in a wait are those in its queue. -/
theorem Blocks.blocked_iff (step : Blocks y y' queue id call e inList links)
    (inv : SemInv y queue) (t id' call' : Nat) (inTable : t < y'.sched.created)
    (stands : y'.site t = .semWait id' call' true) :
    (y'.sched.thread t).state = .block ↔
      call' ∈ Function.update queue id (queue id ++ [call]) id' := by
  rw [step.moves.created_eq] at inTable
  rw [mem_queued]
  by_cases same : t = e
  · subst same
    obtain ⟨self, here⟩ := step.self
    rw [here] at stands
    simp only [Point.semWait.injEq] at stands
    obtain ⟨rfl, rfl, -⟩ := stands
    simp [self]
  · obtain ⟨thread, site⟩ := step.others same
    rw [site] at stands
    rw [thread, inv.blocked_iff t id' call' inTable stands]
    constructor
    · exact Or.inl
    · rintro (early | ⟨rfl, rfl⟩)
      · exact early
      · -- a call belongs to one thread
        have owner := (inv.inside t id' call' true inTable stands).1
        exact absurd (owner.symm.trans
          (inv.inside e id' call' inList step.allocated step.stood).1) same

/-- A call that is off the list is linked to itself. -/
theorem Blocks.selfLinked (step : Blocks y y' queue id call e inList links)
    (inv : SemInv y queue) (t id' call' : Nat) (inTable : t < y'.sched.created)
    (stands : y'.site t = .semWait id' call' true)
    (away : call' ∉ Function.update queue id (queue id ++ [call]) id') :
    SelfLinked (y'.sem id').waitList (.call call') := by
  rw [step.moves.created_eq] at inTable
  rw [mem_queued, not_or] at away
  by_cases same : t = e
  · subst same
    rw [step.self.2] at stands
    simp only [Point.semWait.injEq] at stands
    obtain ⟨rfl, rfl, -⟩ := stands
    exact absurd ⟨rfl, rfl⟩ away.2
  · rw [(step.others same).2] at stands
    have selfLinked := inv.selfLinked t id' call' inTable stands away.1
    rw [step.semEq]
    by_cases sameId : id' = id
    · subst sameId
      simp only [Function.update_self]
      have apart : WaitNode.call call' ∉
          WaitNode.call call :: WaitNode.head :: (queue id').map .call := by
        have ne : call' ≠ call := fun eq => away.2 ⟨rfl, eq⟩
        simpa [ne] using away.1
      obtain ⟨nextEq, prevEq⟩ := step.agree _ apart
      exact ⟨nextEq.trans selfLinked.1, prevEq.trans selfLinked.2⟩
    · simpa [Function.update_of_ne sameId] using selfLinked

/-- On the other semaphores no woken waiter is lost. -/
theorem Blocks.bound (step : Blocks y y' queue id call e inList links)
    (inv : SemInv y queue) (id' : Nat)
    (waiting : Function.update queue id (queue id ++ [call]) id' ≠ []) :
    (y'.sem id').count ≤ (y'.woken id').card := by
  have exhausted := step.exhausted
  rw [step.semEq]
  by_cases same : id' = id
  · subst same
    simp only [Function.update_self]
    have := Int.natCast_nonneg (y'.woken id').card
    omega
  · simp only [Function.update_of_ne same] at waiting ⊢
    have old := inv.bound id' waiting
    have sub : y.woken id' ⊆ y'.woken id' := by
      intro t member
      obtain ⟨inTable, ⟨call', stands⟩, ready⟩ := Machine.mem_woken.mp member
      have ne : t ≠ e := by
        rintro rfl
        rw [step.stood] at stands
        simp only [Point.semWait.injEq] at stands
        exact same stands.1.symm
      obtain ⟨thread, site⟩ := step.others ne
      rw [Machine.mem_woken, step.moves.created_eq, site, thread]
      exact ⟨inTable, ⟨call', stands⟩, ready⟩
    have more := Finset.card_le_card sub
    omega

/-- A thread that blocks goes to the end of the queue. -/
theorem block (inv : SemInv y queue) (step : Blocks y y' queue id call e inList links) :
    SemInv y' (Function.update queue id (queue id ++ [call])) where
  ring := inv.updated_ring step.semEq step.ring
  listed := step.listed inv
  inside := step.inside inv
  blocked_iff := step.blocked_iff inv
  entering := by
    intro t id' call' inTable stands
    rw [step.moves.created_eq] at inTable
    by_cases same : t = e
    · subst same
      simp [step.self.2] at stands
    · obtain ⟨thread, site⟩ := step.others same
      rw [site] at stands
      rw [thread]
      exact inv.entering t id' call' inTable stands
  selfLinked := step.selfLinked inv
  low := inv.updated_low step.semEq (inv.low id)
  bound := step.bound inv

end Blocks

/-- `sem_post` wakes the waiter with the node `best`. -/
structure Wakes (y y' : Machine ρ) (queue : Nat → List Nat) (id e best : Nat)
    (left right : List Nat) (links : Links WaitNode) : Prop where
  moves : Moves y y' e .thread
  stood : y.site e = .thread
  split : queue id = left ++ best :: right
  ring : links.Ring .head ((left ++ right).map .call)
  selfLinked : SelfLinked links (.call best)
  agree : AgreeOff (y.sem id).waitList links
    (.call best :: .head :: (left ++ right).map .call)
  semEq : y'.sem = Function.update y.sem id
    ⟨wrapLong ((y.sem id).count + 1), links, (y.sem id).thread⟩
  callsEq : y'.calls = y.calls
  schedEq : y'.sched = wakeThread y.sched ((y.sem id).thread best)

section Wakes

variable {best : Nat} {left right : List Nat} {links : Links WaitNode}

theorem Wakes.member (step : Wakes y y' queue id e best left right links) :
    best ∈ queue id := by
  simp [step.split]

theorem Wakes.others (step : Wakes y y' queue id e best left right links)
    (ne : t ≠ (y.sem id).thread best) : y'.sched.thread t = y.sched.thread t := by
  rw [step.schedEq]
  exact wakeThread_thread_of_ne _ ne

theorem Wakes.self (step : Wakes y y' queue id e best left right links) :
    y'.sched.thread ((y.sem id).thread best) =
      { y.sched.thread ((y.sem id).thread best) with state := .runnable } := by
  rw [step.schedEq]
  exact Sched.setThread_thread_self _ _ _

theorem Wakes.site (step : Wakes y y' queue id e best left right links) (t : Nat) :
    y'.site t = y.site t := by
  rw [step.moves.site_eq]
  split
  · rename_i same
    rw [same, step.stood]
  · rfl

/-- The queue loses the call that is woken and no other. -/
theorem Wakes.mem_iff (step : Wakes y y' queue id e best left right links)
    (inv : SemInv y queue) {id' call' : Nat} :
    call' ∈ Function.update queue id (left ++ right) id' ↔
      call' ∈ queue id' ∧ ¬ (id' = id ∧ call' = best) := by
  have nodup := inv.nodup id
  rw [step.split] at nodup
  by_cases same : id' = id
  · subst same
    simp only [List.nodup_append, List.nodup_cons, Function.update_self, step.split,
      List.mem_append, List.mem_cons, true_and] at nodup ⊢
    grind
  · simp [same]

/-- Every thread inside the call is still alive and known to the call. -/
theorem Wakes.inside (step : Wakes y y' queue id e best left right links)
    (inv : SemInv y queue) (t id' call' : Nat) (inList' : Bool)
    (allocated : t < y'.sched.created) (stands : y'.site t = .semWait id' call' inList') :
    (y'.sem id').thread call' = t ∧ call' < y'.calls ∧ y'.idle ≠ some t ∧
      (y'.sched.thread t).state ≠ .dead ∧ (y'.sched.thread t).sleepTime = 0 := by
  rw [step.moves.created_eq] at allocated
  rw [step.site] at stands
  obtain ⟨same, lt, notIdle, live, awake⟩ :=
    inv.inside t id' call' inList' allocated stands
  rw [updated_thread step.semEq, step.callsEq, step.moves.idle_eq]
  by_cases isWoken : t = (y.sem id).thread best
  · rw [isWoken] at same notIdle awake ⊢
    rw [step.self]
    exact ⟨same, lt, notIdle, by simp, awake⟩
  · rw [step.others isWoken]
    exact ⟨same, lt, notIdle, live, awake⟩

/-- The woken thread is no longer blocked and the others in the queue still are. -/
theorem Wakes.blocked_iff (step : Wakes y y' queue id e best left right links)
    (inv : SemInv y queue) (t id' call' : Nat) (allocated : t < y'.sched.created)
    (stands : y'.site t = .semWait id' call' true) :
    (y'.sched.thread t).state = .block ↔
      call' ∈ Function.update queue id (left ++ right) id' := by
  rw [step.moves.created_eq] at allocated
  rw [step.site] at stands
  rw [step.mem_iff inv]
  by_cases isWoken : t = (y.sem id).thread best
  · have standing := (inv.listed id best step.member).2
    rw [← isWoken, stands] at standing
    simp only [Point.semWait.injEq] at standing
    obtain ⟨rfl, rfl, -⟩ := standing
    rw [isWoken, step.self]
    simp
  · rw [step.others isWoken, inv.blocked_iff t id' call' allocated stands]
    refine ⟨fun queued => ⟨queued, ?_⟩, And.left⟩
    rintro ⟨rfl, rfl⟩
    exact isWoken (inv.inside t id' call' true allocated stands).1.symm

/-- A thread that has not queued up yet is not blocked. -/
theorem Wakes.entering (step : Wakes y y' queue id e best left right links)
    (inv : SemInv y queue) (t id' call' : Nat) (allocated : t < y'.sched.created)
    (stands : y'.site t = .semWait id' call' false) : (y'.sched.thread t).state ≠ .block := by
  rw [step.moves.created_eq] at allocated
  rw [step.site] at stands
  by_cases isWoken : t = (y.sem id).thread best
  · rw [isWoken, step.self]
    simp
  · rw [step.others isWoken]
    exact inv.entering t id' call' allocated stands

/-- The call that was woken is linked to itself, as those before it. -/
theorem Wakes.offList (step : Wakes y y' queue id e best left right links)
    (inv : SemInv y queue) (t id' call' : Nat) (allocated : t < y'.sched.created)
    (stands : y'.site t = .semWait id' call' true)
    (away : call' ∉ Function.update queue id (left ++ right) id') :
    SelfLinked (y'.sem id').waitList (.call call') := by
  rw [step.moves.created_eq] at allocated
  rw [step.site] at stands
  rw [step.semEq]
  by_cases same : id' = id
  · subst same
    by_cases isCall : call' = best
    · subst isCall
      simpa using step.selfLinked
    · have offQueue : call' ∉ queue id' := fun queued =>
        away ((step.mem_iff inv).mpr ⟨queued, fun both => isCall both.2⟩)
      have old := inv.selfLinked t id' call' allocated stands offQueue
      simp only [Function.update_self] at away ⊢
      have apart : WaitNode.call call' ∉
          WaitNode.call best :: WaitNode.head :: (left ++ right).map .call := by
        simpa [isCall] using away
      obtain ⟨nextEq, prevEq⟩ := step.agree _ apart
      exact ⟨nextEq.trans old.1, prevEq.trans old.2⟩
  · simp only [Function.update_of_ne same] at away ⊢
    exact inv.selfLinked t id' call' allocated stands away

/-- What was woken stays woken. -/
theorem Wakes.woken_subset (step : Wakes y y' queue id e best left right links)
    (inv : SemInv y queue) (id' : Nat) : y.woken id' ⊆ y'.woken id' := by
  intro t inside
  obtain ⟨allocated, ⟨call', standing⟩, ready⟩ := Machine.mem_woken.mp inside
  have ne : t ≠ (y.sem id).thread best := by
    rintro rfl
    exact ready (inv.blocked step.member)
  rw [Machine.mem_woken, step.moves.created_eq, step.site, step.others ne]
  exact ⟨allocated, ⟨call', standing⟩, ready⟩

/-- The unit that is added is made up for by the waiter that is woken. -/
theorem Wakes.bound (step : Wakes y y' queue id e best left right links)
    (inv : SemInv y queue) (id' : Nat)
    (waiting : Function.update queue id (left ++ right) id' ≠ []) :
    (y'.sem id').count ≤ (y'.woken id').card := by
  have sub := step.woken_subset inv id'
  rw [step.semEq]
  by_cases same : id' = id
  · subst same
    simp only [Function.update_self]
    have fresh : (y.sem id').thread best ∉ y.woken id' := by
      intro inside
      exact (Machine.mem_woken.mp inside).2.2 (inv.blocked step.member)
    have joins : insert ((y.sem id').thread best) (y.woken id') ⊆ y'.woken id' := by
      refine Finset.insert_subset ?_ sub
      obtain ⟨inTable, stands⟩ := inv.listed id' best step.member
      rw [Machine.mem_woken, step.moves.created_eq, step.site, step.self]
      exact ⟨inTable, ⟨best, stands⟩, by simp⟩
    have more := Finset.card_le_card joins
    rw [Finset.card_insert_of_notMem fresh] at more
    have old := inv.bound id' (List.ne_nil_of_mem step.member)
    have le := wrapLong_succ_le (inv.low id')
    omega
  · simp only [Function.update_of_ne same] at waiting ⊢
    have old := inv.bound id' waiting
    have more := Finset.card_le_card sub
    omega

/-- A post wakes the best waiter and unlinks its call. -/
theorem wake (inv : SemInv y queue) (step : Wakes y y' queue id e best left right links) :
    SemInv y' (Function.update queue id (left ++ right)) where
  ring := inv.updated_ring step.semEq step.ring
  listed := by
    intro id' call' queued
    rw [updated_thread step.semEq, step.moves.created_eq, step.site]
    exact inv.listed id' call' ((step.mem_iff inv).mp queued).1
  inside := step.inside inv
  blocked_iff := step.blocked_iff inv
  entering := step.entering inv
  selfLinked := step.offList inv
  low := inv.updated_low step.semEq (wrapLong_range _).1
  bound := step.bound inv

end Wakes

end SemInv

end Zsbl.Common
