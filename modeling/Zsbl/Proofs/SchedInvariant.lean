/-
Module: Zsbl.Proofs.SchedInvariant
Purpose: The invariant that links list membership, thread states, the current
  thread and the idle thread over every run of the scheduler.
Trusted boundary: none
Main exports:
  ThreadOk, SchedInv, SchedInv.step, exists_schedInv
-/
import Zsbl.Proofs.Sched

namespace Zsbl.Common

open Zsbl.Lib Zsbl.Include

variable {ρ : Type}

/-- What one allocated thread may look like, given the current thread, the idle
thread and the thread list. -/
structure ThreadOk (current idle : Option Nat) (threads : List Nat) (t : Nat)
    (thread : Thread ρ) : Prop where
  priority_nonneg : 0 ≤ thread.priority
  live_listed : thread.state ≠ .dead → t ∈ threads
  dead_current : thread.state = .dead → t ∈ threads → current = some t
  running_current : thread.state = .running → current = some t
  idle_ready : idle = some t →
    (thread.state = .runnable ∨ thread.state = .running) ∧ thread.sleepTime = 0
  sleeping_blocked : thread.sleepTime ≠ 0 → thread.state = .block

/-- The scheduler invariant; `threads` is the content of the thread list. -/
structure SchedInv (y : SchedSystem ρ) (threads : List Nat) : Prop where
  listed : Listed y.sched threads
  current_listed : ∀ c, y.sched.current = some c → c ∈ threads
  idle_allocated : ∀ i, y.idle = some i → i < y.sched.created
  started : y.idle.isSome = y.sched.current.isSome
  threadOk : ∀ t, t < y.sched.created →
    ThreadOk y.sched.current y.idle threads t (y.sched.thread t)

/-- The thread list behind a call of `sched_thread`. -/
def afterSchedule (s : Sched ρ) (threads : List Nat) : List Nat :=
  match s.current with
  | none => threads
  | some c => if (s.thread c).state = .dead then threads.erase c else threads

/-- A switch removes dead threads only. -/
theorem afterSchedule_subset {s : Sched ρ} {threads : List Nat} :
    afterSchedule s threads ⊆ threads := by
  intro t member
  unfold afterSchedule at member
  split at member
  · exact member
  · split at member
    · exact List.mem_of_mem_erase member
    · exact member

/-- A live thread stays on the list. -/
theorem mem_afterSchedule {s : Sched ρ} {threads : List Nat} {t : Nat}
    (listed : t ∈ threads)
    (live : (s.thread t).state ≠ .dead) : t ∈ afterSchedule s threads := by
  unfold afterSchedule
  split
  · exact listed
  · rename_i c isCurrent
    split
    · rename_i dead
      have ne : t ≠ c := by rintro rfl; exact live dead
      exact (List.mem_erase_of_ne ne).mpr listed
    · exact listed

namespace SchedInv

variable {y : SchedSystem ρ} {threads : List Nat} {t c : Nat}

theorem initial [Inhabited ρ] :
    SchedInv (SchedSystem.initial : SchedSystem ρ) [] where
  listed := ⟨initListHead_ring _ _, by simp⟩
  current_listed := by simp [SchedSystem.initial, Sched.initial]
  idle_allocated := by simp [SchedSystem.initial]
  started := rfl
  threadOk := by simp [SchedSystem.initial, Sched.initial]

/-- A listed thread that is the idle thread keeps the selection loop from
coming back empty-handed. -/
theorem exists_eligible (inv : SchedInv y threads) (started : y.idle.isSome) :
    ∃ t ∈ threads, y.sched.eligible t := by
  obtain ⟨i, isIdle⟩ := Option.isSome_iff_exists.mp started
  have ok := inv.threadOk i (inv.idle_allocated i isIdle)
  have ready := (ok.idle_ready isIdle).1
  refine ⟨i, ok.live_listed ?_, (Sched.eligible_iff _ _).mpr ready⟩
  rcases ready with state | state <;> simp [state]

theorem exists_current (inv : SchedInv y threads) (started : y.idle.isSome) :
    ∃ c, y.sched.current = some c ∧ c ∈ threads := by
  rw [inv.started] at started
  obtain ⟨c, isCurrent⟩ := Option.isSome_iff_exists.mp started
  exact ⟨c, isCurrent, inv.current_listed c isCurrent⟩

theorem nonneg (inv : SchedInv y threads) :
    ∀ t ∈ threads, 0 ≤ (y.sched.thread t).priority := fun t member =>
  (inv.threadOk t (inv.listed.allocated t member)).priority_nonneg

/-- Changing one thread keeps the invariant when the new contents are fine. -/
theorem setThread (inv : SchedInv y threads) {f : Thread ρ → Thread ρ}
    (ok : ThreadOk y.sched.current y.idle threads t (f (y.sched.thread t))) :
    SchedInv { y with sched := y.sched.setThread t f } threads where
  listed := inv.listed.setThread t f
  current_listed := inv.current_listed
  idle_allocated := inv.idle_allocated
  started := inv.started
  threadOk := by
    intro other allocated
    have old := inv.threadOk other allocated
    by_cases same : other = t
    · subst same
      simpa using ok
    · simpa [Sched.setThread_thread_of_ne _ _ _ same] using old

/-- A running thread may block. -/
theorem block (inv : SchedInv y threads) (executing : y.Executing t) :
    SchedInv { y with sched := blockThread y.sched t } threads := by
  obtain ⟨isCurrent, -, notIdle⟩ := executing
  have listed := inv.current_listed t isCurrent
  have old := inv.threadOk t (inv.listed.allocated t listed)
  exact inv.setThread
    { priority_nonneg := old.priority_nonneg
      live_listed := fun _ => listed
      dead_current := by simp
      running_current := by simp
      idle_ready := fun isIdle => absurd isIdle notIdle
      sleeping_blocked := fun _ => rfl }

/-- A blocked thread may be woken once its time is over. -/
theorem wake (inv : SchedInv y threads) (allocated : t < y.sched.created)
    (blocked : (y.sched.thread t).state = .block)
    (awake : (y.sched.thread t).sleepTime = 0) :
    SchedInv { y with sched := wakeThread y.sched t } threads := by
  have old := inv.threadOk t allocated
  exact inv.setThread
    { priority_nonneg := old.priority_nonneg
      live_listed := fun _ => old.live_listed (by simp [blocked])
      dead_current := by simp
      running_current := by simp
      idle_ready := fun _ => ⟨Or.inl rfl, awake⟩
      sleeping_blocked := fun asleep => absurd awake asleep }

/-- A thread that sleeps waits for at least one tick. -/
theorem sleep (inv : SchedInv y threads) {s : Sched ρ} {time : Nat}
    (executing : y.Executing t) (done : schedSleep y.sched time = some s) :
    SchedInv { y with sched := s } threads := by
  obtain ⟨isCurrent, -, notIdle⟩ := executing
  have listed := inv.current_listed t isCurrent
  have old := inv.threadOk t (inv.listed.allocated t listed)
  simp only [schedSleep, isCurrent, Option.bind_eq_bind, Option.bind_some,
    Option.pure_def, Option.some.injEq] at done
  subst done
  exact inv.setThread
    { priority_nonneg := old.priority_nonneg
      live_listed := fun _ => listed
      dead_current := by simp
      running_current := by simp
      idle_ready := fun isIdle => absurd isIdle notIdle
      sleeping_blocked := fun _ => rfl }

/-- A thread that exits stays in the table, dead. -/
theorem exit (inv : SchedInv y threads) {s : Sched ρ} {code : Int}
    (executing : y.Executing t) (done : threadEndPoint y.sched code = some s) :
    SchedInv { y with sched := s } threads := by
  obtain ⟨isCurrent, running, notIdle⟩ := executing
  have listed := inv.current_listed t isCurrent
  have old := inv.threadOk t (inv.listed.allocated t listed)
  simp only [threadEndPoint, isCurrent, Option.bind_eq_bind, Option.bind_some,
    Option.pure_def, Option.some.injEq] at done
  subst done
  exact inv.setThread
    { priority_nonneg := old.priority_nonneg
      live_listed := by simp
      dead_current := fun _ _ => isCurrent
      running_current := by simp
      idle_ready := fun isIdle => absurd isIdle notIdle
      sleeping_blocked := fun asleep => by
        simpa [running] using old.sleeping_blocked asleep }

/-- A new priority leaves the lists alone. -/
theorem setPriority (inv : SchedInv y threads) (p : Int)
    (allocated : t < y.sched.created) :
    SchedInv { y with sched := (threadSetPriority y.sched t p).1 } threads := by
  unfold threadSetPriority
  split
  · exact inv
  · rename_i positive
    have old := inv.threadOk t allocated
    have nonneg : 0 ≤ p := by omega
    exact inv.setThread (f := fun thread => { thread with priority := p })
      { priority_nonneg := nonneg
        live_listed := old.live_listed
        dead_current := old.dead_current
        running_current := old.running_current
        idle_ready := old.idle_ready
        sleeping_blocked := old.sleeping_blocked }

/-- A tick counts down every sleeping thread and wakes those whose time is over. -/
theorem tick (inv : SchedInv y threads) {s : Sched ρ}
    (done : schedTick y.sched = some s) :
    SchedInv { y with sched := s } threads := by
  obtain ⟨s', ticked, created, current, listed, thread⟩ :=
    schedTick_spec inv.listed
  obtain rfl : s' = s := Option.some.inj (ticked.symm.trans done)
  refine ⟨listed, by simpa [current] using inv.current_listed,
    by simpa [created] using inv.idle_allocated,
    by simpa [current] using inv.started, ?_⟩
  intro t allocated
  have old := inv.threadOk t (created ▸ allocated)
  simp only [thread, current]
  split
  · unfold tickThread
    split
    · exact old
    · rename_i asleep
      have blocked := old.sleeping_blocked asleep
      exact
        { priority_nonneg := old.priority_nonneg
          live_listed := fun _ => old.live_listed (by simp [blocked])
          dead_current := by grind
          running_current := by grind
          idle_ready := fun isIdle =>
            absurd (old.idle_ready isIdle).2 asleep
          sleeping_blocked := by grind }
  · exact old

/-- A created thread gets the next number. -/
theorem create (inv : SchedInv y threads) {s : Sched ρ} {ctx : ρ}
    (done : threadCreate y.sched ctx = some (s, t)) :
    SchedInv { y with sched := s } (threads ++ [y.sched.created]) := by
  obtain ⟨s', created, createdEq, current, listed, others, self⟩ :=
    threadCreate_spec inv.listed ctx
  obtain ⟨rfl, rfl⟩ : s' = s ∧ y.sched.created = t := by
    simpa using created.symm.trans done
  refine ⟨listed, ?_, ?_, by simpa [current] using inv.started, ?_⟩
  · intro c isCurrent
    have old := inv.current_listed c (by simpa [current] using isCurrent)
    exact List.mem_append_left _ old
  · intro i isIdle
    have := inv.idle_allocated i isIdle
    show i < s'.created
    omega
  · intro t allocated
    by_cases new : t = y.sched.created
    · subst new
      have notIdle : y.idle ≠ some y.sched.created := fun isIdle =>
        absurd (inv.idle_allocated _ isIdle) (lt_irrefl _)
      simp only [self, current]
      exact
        { priority_nonneg := by simp
          live_listed := by simp
          dead_current := by simp
          running_current := by simp
          idle_ready := fun isIdle => absurd isIdle notIdle
          sleeping_blocked := by simp }
    · have lt : t < y.sched.created := by
        have : t < s'.created := allocated
        omega
      have old := inv.threadOk t lt
      simp only [others t new, current]
      exact
        { old with
          live_listed := fun live =>
            List.mem_append_left _ (old.live_listed live)
          dead_current := fun dead member => by
            refine old.dead_current dead ?_
            rcases List.mem_append.mp member with early | late
            · exact early
            · exact absurd (List.mem_singleton.mp late) new }

/-- The first thread to run is the idle thread, at the lowest priority. -/
theorem start (inv : SchedInv y threads) {s : Sched ρ} {ctx : ρ}
    (notStarted : y.idle = none)
    (done : schedStart y.sched ctx = some (.ok s)) :
    SchedInv { sched := s, idle := s.current }
      (threads ++ [y.sched.created]) := by
  obtain ⟨createdEq, current, listed, others, self⟩ :=
    schedStart_spec inv.listed done
  have noCurrent : y.sched.current = none := by
    have same := inv.started
    rw [notStarted] at same
    simpa using same.symm
  refine ⟨listed, ?_, ?_, rfl, ?_⟩
  · intro c isCurrent
    obtain rfl : y.sched.created = c := by simpa [current] using isCurrent
    simp
  · intro i isIdle
    obtain rfl : y.sched.created = i := by simpa [current] using isIdle
    exact createdEq ▸ Nat.lt_succ_self _
  intro t allocated
  rw [show s.current = some y.sched.created from current]
  by_cases new : t = y.sched.created
  · subst new
    rw [self]
    exact
      { priority_nonneg := by simp
        live_listed := by simp
        dead_current := by simp
        running_current := by simp
        idle_ready := by simp
        sleeping_blocked := by simp }
  · have lt : t < y.sched.created := by
      have : t < s.created := allocated
      omega
    have old := inv.threadOk t lt
    rw [others t new]
    exact
      { priority_nonneg := old.priority_nonneg
        live_listed := fun live => List.mem_append_left _ (old.live_listed live)
        dead_current := fun dead member => by
          rcases List.mem_append.mp member with early | late
          · simpa [noCurrent] using old.dead_current dead early
          · exact absurd (List.mem_singleton.mp late) new
        running_current := fun running => by
          simpa [noCurrent] using old.running_current running
        idle_ready := fun isIdle => by
          exact absurd (Option.some.inj isIdle).symm new
        sleeping_blocked := old.sleeping_blocked }

/-- In a started system `sched_thread` finds its next thread. -/
theorem scheduled (inv : SchedInv y threads) (isCurrent : y.sched.current = some c)
    (ctx : ρ) :
    ∃ s frame selected, schedThread y.sched ctx = some (s, frame) ∧
      IsFirstMax y.sched.eligible (fun t => (y.sched.thread t).priority)
        (cycleAfter c threads) selected ∧
      SchedThreadSpec y.sched ctx c selected s frame ∧
      Listed s (afterSchedule y.sched threads) := by
  have started : y.idle.isSome := by rw [inv.started, isCurrent]; rfl
  simpa [afterSchedule, isCurrent] using
    schedThread_spec inv.listed isCurrent (inv.current_listed c isCurrent)
      inv.nonneg (inv.exists_eligible started) ctx

/-- A switch leaves the chosen thread running and the others ready or blocked. -/
theorem schedule (inv : SchedInv y threads) {s : Sched ρ} {ctx frame : ρ}
    (done : schedThread y.sched ctx = some (s, frame)) :
    SchedInv { y with sched := s } (afterSchedule y.sched threads) ∧
      s.created = y.sched.created := by
  cases isCurrent : y.sched.current with
  | none =>
      have same := (schedThread_not_started isCurrent ctx).symm.trans done
      obtain ⟨rfl, -⟩ : y.sched = s ∧ ctx = frame := by simpa using same
      exact ⟨by simpa [afterSchedule, isCurrent] using inv, rfl⟩
  | some c =>
      obtain ⟨s', frame', selected, called, first, spec, listed⟩ :=
        inv.scheduled isCurrent ctx
      obtain ⟨rfl, rfl⟩ : s' = s ∧ frame' = frame := by
        simpa using called.symm.trans done
      have inList : selected ∈ threads := cycleAfter_perm.mem_iff.mp first.mem
      have fine := (Sched.eligible_iff _ _).mp first.eligible_best
      refine ⟨⟨listed, ?_, ?_, ?_, ?_⟩, spec.created_eq⟩
      · intro c' isCurrent'
        obtain rfl : selected = c' := by
          simpa [spec.current_eq] using isCurrent'
        refine mem_afterSchedule inList ?_
        rcases fine with state | state <;> simp [state]
      · simpa [spec.created_eq] using inv.idle_allocated
      · simp [spec.current_eq, inv.started, isCurrent]
      · intro t allocated
        have old := inv.threadOk t (spec.created_eq ▸ allocated)
        have stateEq := spec.state_eq t
        refine
          { priority_nonneg := by
              simpa [spec.priority_eq] using old.priority_nonneg
            live_listed := ?_
            dead_current := ?_
            running_current := ?_
            idle_ready := ?_
            sleeping_blocked := ?_ }
        · intro live
          by_cases isSelected : t = selected
          · subst isSelected
            refine mem_afterSchedule inList ?_
            rcases fine with state | state <;> simp [state]
          · have notDead : (y.sched.thread t).state ≠ .dead := by grind
            exact mem_afterSchedule (old.live_listed notDead) notDead
        · intro dead inside
          exfalso
          have wasDead : (y.sched.thread t).state = .dead := by grind
          have isC := old.dead_current wasDead (afterSchedule_subset inside)
          obtain rfl : c = t := by simpa [isCurrent] using isC
          simp only [afterSchedule, isCurrent, wasDead, if_true] at inside
          exact (List.Nodup.not_mem_erase inv.listed.nodup) inside
        · intro running
          have : t = selected := by
            by_contra ne
            have wasRunning : (y.sched.thread t).state = .running := by grind
            have isC := old.running_current wasRunning
            obtain rfl : c = t := by simpa [isCurrent] using isC
            simp [stateEq, ne, wasRunning] at running
          simp [spec.current_eq, this]
        · intro isIdle
          have ready := old.idle_ready isIdle
          refine ⟨?_, by rw [spec.sleepTime_eq]; exact ready.2⟩
          grind
        · intro asleep
          rw [spec.sleepTime_eq] at asleep
          have blocked := old.sleeping_blocked asleep
          have ne : t ≠ selected := by
            rintro rfl
            rcases fine with state | state <;> simp [state] at blocked
          simp [stateEq, ne, blocked]

/-- Every operation keeps the invariant for some thread list, and no thread
that has left the list comes back. -/
theorem step (inv : SchedInv y threads) {op : SchedOp ρ} {y' : SchedSystem ρ}
    (taken : SchedStep y op y') :
    ∃ threads', SchedInv y' threads' ∧ y.sched.created ≤ y'.sched.created ∧
      ∀ t, t < y.sched.created → t ∈ threads' → t ∈ threads := by
  cases taken with
  | create ctx t done =>
      refine ⟨_, inv.create done, ?_, ?_⟩
      · obtain ⟨s', created, createdEq, -⟩ := threadCreate_spec inv.listed ctx
        obtain ⟨rfl, -⟩ : s' = _ ∧ y.sched.created = t := by
          simpa using created.symm.trans done
        exact createdEq ▸ Nat.le_succ _
      · intro t allocated member
        rcases List.mem_append.mp member with old | new
        · exact old
        · exact absurd (List.mem_singleton.mp new) (Nat.ne_of_lt allocated)
  | setPriority t p allocated =>
      refine ⟨_, inv.setPriority p allocated, ?_, fun _ _ member => member⟩
      unfold threadSetPriority
      split <;> exact le_rfl
  | start ctx notStarted done =>
      refine ⟨_, inv.start notStarted done, ?_, ?_⟩
      · obtain ⟨createdEq, -⟩ := schedStart_spec inv.listed done
        exact createdEq ▸ Nat.le_succ _
      · intro t allocated member
        rcases List.mem_append.mp member with old | new
        · exact old
        · exact absurd (List.mem_singleton.mp new) (Nat.ne_of_lt allocated)
  | block t executing =>
      exact ⟨_, inv.block executing, le_rfl, fun _ _ member => member⟩
  | wake t allocated blocked awake =>
      exact ⟨_, inv.wake allocated blocked awake, le_rfl,
        fun _ _ member => member⟩
  | sleep t time executing done =>
      refine ⟨_, inv.sleep executing done, ?_, fun _ _ member => member⟩
      simp only [schedSleep, executing.1, Option.bind_eq_bind, Option.bind_some,
        Option.pure_def, Option.some.injEq] at done
      exact done ▸ le_rfl
  | tick started done =>
      refine ⟨_, inv.tick done, ?_, fun _ _ member => member⟩
      obtain ⟨s', ticked, createdEq, -⟩ := schedTick_spec inv.listed
      obtain rfl : s' = _ := Option.some.inj (ticked.symm.trans done)
      exact createdEq ▸ le_rfl
  | exit t code executing done =>
      refine ⟨_, inv.exit executing done, ?_, fun _ _ member => member⟩
      simp only [threadEndPoint, executing.1, Option.bind_eq_bind,
        Option.bind_some, Option.pure_def, Option.some.injEq] at done
      exact done ▸ le_rfl
  | schedule ctx frame done =>
      obtain ⟨inv', createdEq⟩ := inv.schedule done
      exact ⟨_, inv', createdEq.ge, fun _ _ member => afterSchedule_subset member⟩

end SchedInv

/-- The invariant holds in every reachable state. -/
theorem exists_schedInv [Inhabited ρ] {y : SchedSystem ρ}
    (reached : schedLts.Reachable y) : ∃ threads, SchedInv y threads := by
  refine reached.invariant (fun y => ∃ threads, SchedInv y threads) ?_ ?_
  · rintro y rfl
    exact ⟨[], SchedInv.initial⟩
  · rintro y op y' - ⟨threads, inv⟩ - taken
    obtain ⟨threads', inv', -⟩ := inv.step taken
    exact ⟨threads', inv'⟩

end Zsbl.Common
