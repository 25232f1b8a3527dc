/-
Module: Zsbl.Proofs.Sched
Purpose: What each scheduler function does to a well-formed thread list: which
  thread `sched_thread` selects, and every field it and its siblings change.
Trusted boundary: none
Main exports:
  Listed, SchedThreadSpec, schedThread_spec, schedTick_spec, threadCreate_spec
-/
import Zsbl.Common.SchedSystem
import Zsbl.Lib.Cycle
import Mathlib.Data.List.Perm.Subperm

namespace Zsbl.Common

open Zsbl.Lib Zsbl.Include

variable {ρ : Type}

/-! ## The thread table -/

namespace Sched

variable (s : Sched ρ) (t : Nat) (f : Thread ρ → Thread ρ)

@[simp] theorem setThread_threadList :
    (s.setThread t f).threadList = s.threadList := rfl

@[simp] theorem setThread_created : (s.setThread t f).created = s.created := rfl

@[simp] theorem setThread_current : (s.setThread t f).current = s.current := rfl

@[simp] theorem setThread_thread_self :
    (s.setThread t f).thread t = f (s.thread t) := by
  simp [setThread]

theorem setThread_thread_of_ne {other : Nat} (ne : other ≠ t) :
    (s.setThread t f).thread other = s.thread other := by
  simp [setThread, Function.update_of_ne ne]

theorem setThread_thread (other : Nat) :
    (s.setThread t f).thread other =
      if other = t then f (s.thread other) else s.thread other := by
  by_cases same : other = t
  · subst same; simp
  · simp [same, setThread_thread_of_ne]

theorem eligible_iff :
    s.eligible t = true ↔
      (s.thread t).state = .runnable ∨ (s.thread t).state = .running := by
  simp [eligible]

end Sched

theorem blockThread_thread_of_ne (s : Sched ρ) {t other : Nat}
    (ne : other ≠ t) : (blockThread s t).thread other = s.thread other :=
  Sched.setThread_thread_of_ne _ _ _ ne

theorem wakeThread_thread_of_ne (s : Sched ρ) {t other : Nat}
    (ne : other ≠ t) : (wakeThread s t).thread other = s.thread other :=
  Sched.setThread_thread_of_ne _ _ _ ne

/-- The thread list holds the threads `threads`, in this order. -/
structure Listed (s : Sched ρ) (threads : List Nat) : Prop where
  ring : s.threadList.Ring .head (threads.map .thread)
  allocated : ∀ t ∈ threads, t < s.created

namespace Listed

variable {s : Sched ρ} {threads left right : List Nat} {t : Nat}

theorem nodup (listed : Listed s threads) : threads.Nodup :=
  listed.ring.inner_nodup.of_map _

theorem length_le (listed : Listed s threads) :
    threads.length ≤ s.created := by
  have inside : threads ⊆ List.range s.created := fun t member =>
    List.mem_range.mpr (listed.allocated t member)
  simpa using (listed.nodup.subperm inside).length_le

/-- The list survives every change of the thread table. -/
theorem setThread (listed : Listed s threads) (t : Nat)
    (f : Thread ρ → Thread ρ) : Listed (s.setThread t f) threads :=
  ⟨listed.ring, listed.allocated⟩

/-- `next_thread` moves on cyclically. -/
theorem nextThread (listed : Listed s (left ++ t :: right)) :
    nextThread s t = some ((right ++ left).headD t) := by
  have ring : s.threadList.Ring .head
      (left.map .thread ++ .thread t :: right.map .thread) := by
    simpa using listed.ring
  rw [Zsbl.Common.nextThread, listIsLast_ring ring]
  cases right with
  | nil =>
      have first := ring.next_head
      cases left with
      | nil => simp_all [Sched.listEntry]
      | cons head tail => simp_all [Sched.listEntry]
  | cons next after =>
      have following := ring.next_mem
      simp_all [Sched.listEntry]

end Listed

/-! ## sched_thread -/

/-- The entries that the selection loop still has to visit lie in cyclic order
between `t` and the current thread. -/
theorem Listed.nextThread_rest {s : Sched ρ} {left right done rest : List Nat}
    {current t : Nat} (listed : Listed s (left ++ current :: right))
    (visited : right ++ left = done ++ t :: rest) :
    Zsbl.Common.nextThread s t = some (rest.headD current) := by
  rcases List.append_eq_append_iff.mp visited with
    ⟨gap, rfl, tail⟩ | ⟨gap, rfl, tail⟩
  · have cut : Listed s (gap ++ t :: (rest ++ current :: right)) := by
      simpa [tail] using listed
    rw [cut.nextThread]
    cases rest <;> simp
  · rcases gap with _ | ⟨head, gap⟩
    · simp only [List.nil_append] at tail
      subst tail
      have cut : Listed s ([] ++ t :: (rest ++ current :: (done ++ []))) := by
        simpa using listed
      rw [cut.nextThread]
      cases rest <;> simp
    · obtain ⟨rfl, rfl⟩ := List.cons.inj tail
      have cut : Listed s ((left ++ current :: done) ++ t :: gap) := by
        simpa using listed
      rw [cut.nextThread]
      cases gap <;> cases left <;> simp

/-- The selection loop folds its body over the threads it visits. -/
theorem selectLoop_eq {s : Sched ρ} {left right : List Nat} {current : Nat}
    (listed : Listed s (left ++ current :: right)) (todo : List Nat) :
    ∀ (done : List Nat) (fuel : Nat) (best : Option Nat × Int),
      right ++ left = done ++ todo → todo.length < fuel →
        selectLoop s current fuel (todo.headD current) best =
          some (todo.foldl
            (keepBetter s.eligible fun t => (s.thread t).priority) best) := by
  induction todo with
  | nil =>
      intro done fuel best visited enough
      obtain ⟨fuel, rfl⟩ := Nat.exists_eq_succ_of_ne_zero (by omega : fuel ≠ 0)
      simp [selectLoop]
  | cons t rest ih =>
      intro done fuel best visited enough
      obtain ⟨fuel, rfl⟩ := Nat.exists_eq_succ_of_ne_zero (by omega : fuel ≠ 0)
      have ne : t ≠ current := by
        have nodup := listed.nodup
        have member : t ∈ right ++ left := by simp [visited]
        simp only [List.nodup_append, List.nodup_cons, List.mem_cons,
          List.mem_append] at nodup member
        grind
      have step := listed.nextThread_rest visited
      have more := ih (done ++ [t]) fuel
        (keepBetter s.eligible (fun t => (s.thread t).priority) best t)
        (by simpa using visited) (by simpa using enough)
      simp only [List.headD_cons, selectLoop, ne, if_false, step,
        Option.bind_eq_bind, Option.bind_some, List.foldl_cons]
      exact more

/-- The selection over a well-formed list. -/
theorem selectNext_spec {s : Sched ρ} {threads : List Nat} {current : Nat}
    (listed : Listed s threads) (member : current ∈ threads)
    (nonneg : ∀ t ∈ threads, 0 ≤ (s.thread t).priority)
    (candidate : ∃ t ∈ threads, s.eligible t) :
    ∃ selected, selectNext s current = some (some selected) ∧
      IsFirstMax s.eligible (fun t => (s.thread t).priority)
        (cycleAfter current threads) selected := by
  obtain ⟨left, right, rfl, fresh, -⟩ := exists_cut listed.nodup member
  have enough : (right ++ left).length < s.listFuel := by
    have := listed.length_le
    simp only [List.length_append, List.length_cons] at this
    simp only [Sched.listFuel, List.length_append]
    omega
  have loop := selectLoop_eq listed (right ++ left) [] s.listFuel (none, -1)
    (by simp) enough
  have inCycle : ∀ t, t ∈ right ++ left ++ [current] ↔
      t ∈ left ++ current :: right := by
    intro t
    simp only [List.mem_append, List.mem_cons, List.not_mem_nil]
    tauto
  have above : ∀ t ∈ right ++ left ++ [current], s.eligible t →
      -1 < (s.thread t).priority := by
    intro t inside _
    have := nonneg t ((inCycle t).mp inside)
    omega
  have available : ∃ t ∈ right ++ left ++ [current], s.eligible t := by
    obtain ⟨t, inside, fine⟩ := candidate
    exact ⟨t, (inCycle t).mpr inside, fine⟩
  obtain ⟨selected, first, found⟩ := foldl_keepBetter_eq above available
  refine ⟨selected, ?_, by rwa [cycleAfter_append fresh]⟩
  rw [List.foldl_concat] at found
  simp only [selectNext, listed.nextThread, Option.bind_eq_bind,
    Option.bind_some, loop, found, Option.pure_def]

/-- Everything one call of `sched_thread` does when `current` is running and
`selected` comes next. -/
structure SchedThreadSpec (s : Sched ρ) (ctx : ρ) (current selected : Nat)
    (s' : Sched ρ) (frame : ρ) : Prop where
  current_eq : s'.current = some selected
  created_eq : s'.created = s.created
  priority_eq : ∀ t, (s'.thread t).priority = (s.thread t).priority
  sleepTime_eq : ∀ t, (s'.thread t).sleepTime = (s.thread t).sleepTime
  state_eq : ∀ t, (s'.thread t).state =
    if t = selected then .running
    else if t = current ∧ (s.thread t).state = .running then .runnable
    else (s.thread t).state
  cpuCtx_eq : ∀ t, (s'.thread t).cpuCtx =
    if t = current ∧ ((s.thread t).state = .running ∨
        (s.thread t).state = .block) then ctx
    else (s.thread t).cpuCtx
  frame_eq : frame = (s'.thread selected).cpuCtx

/-- The frame is saved only for a thread that runs or has just blocked. -/
theorem saveCtx_thread (s : Sched ρ) (current : Nat) (ctx : ρ) (t : Nat) :
    (saveCtx s current ctx).thread t =
      if t = current ∧ ((s.thread t).state = .running ∨
          (s.thread t).state = .block) then
        { s.thread t with cpuCtx := ctx }
      else s.thread t := by
  unfold saveCtx
  by_cases same : t = current
  · subst same
    split <;> simp_all
  · split <;> simp [same, Sched.setThread_thread_of_ne]

theorem saveCtx_listed {s : Sched ρ} {threads : List Nat}
    (listed : Listed s threads) (current : Nat) (ctx : ρ) :
    Listed (saveCtx s current ctx) threads := by
  unfold saveCtx
  split
  · exact listed.setThread _ _
  · exact listed

theorem saveCtx_created (s : Sched ρ) (current : Nat) (ctx : ρ) :
    (saveCtx s current ctx).created = s.created := by
  unfold saveCtx
  split <;> rfl

/-- Retiring the current thread changes its state and, if it is dead, takes it
off the list. -/
theorem retireCurrent_spec {s : Sched ρ} {threads : List Nat} {current : Nat}
    (listed : Listed s threads) (member : current ∈ threads) :
    ∃ s', retireCurrent s current = some s' ∧ s'.created = s.created ∧
      (∀ t, s'.thread t =
        if t = current ∧ (s.thread t).state = .running then
          { s.thread t with state := .runnable }
        else s.thread t) ∧
      Listed s' (if (s.thread current).state = .dead
        then threads.erase current else threads) := by
  unfold retireCurrent
  cases stateEq : (s.thread current).state with
  | dead =>
      obtain ⟨left, right, rfl, fresh, -⟩ := exists_cut listed.nodup member
      have ring : s.threadList.Ring .head
          (left.map .thread ++ .thread current :: right.map .thread) := by
        simpa using listed.ring
      obtain ⟨links, deleted, ring', -⟩ := listDel_ring ring
      refine ⟨{ s with threadList := links }, by simp [deleted], rfl, ?_, ?_, ?_⟩
      · intro t
        rw [if_neg]
        rintro ⟨rfl, running⟩
        simp [stateEq] at running
      · simpa [List.erase_append_right _ fresh] using ring'
      · intro t inside
        refine listed.allocated t ?_
        simp only [if_true] at inside
        exact List.mem_of_mem_erase inside
  | running =>
      refine ⟨_, rfl, rfl, ?_, by simpa using listed.setThread _ _⟩
      intro t
      rw [Sched.setThread_thread]
      by_cases same : t = current
      · subst same
        simp [stateEq]
      · simp [same]
  | runnable =>
      refine ⟨s, rfl, rfl, ?_, by simpa using listed⟩
      intro t
      rw [if_neg]
      rintro ⟨rfl, running⟩
      simp [stateEq] at running
  | block =>
      refine ⟨s, rfl, rfl, ?_, by simpa using listed⟩
      intro t
      rw [if_neg]
      rintro ⟨rfl, running⟩
      simp [stateEq] at running

/-- `sched_thread` selects the first thread of greatest priority behind the
current one, and unlinks the current thread exactly when it is dead. -/
theorem schedThread_spec {s : Sched ρ} {threads : List Nat} {current : Nat}
    (listed : Listed s threads) (isCurrent : s.current = some current)
    (member : current ∈ threads)
    (nonneg : ∀ t ∈ threads, 0 ≤ (s.thread t).priority)
    (candidate : ∃ t ∈ threads, s.eligible t) (ctx : ρ) :
    ∃ s' frame selected, schedThread s ctx = some (s', frame) ∧
      IsFirstMax s.eligible (fun t => (s.thread t).priority)
        (cycleAfter current threads) selected ∧
      SchedThreadSpec s ctx current selected s' frame ∧
      Listed s' (if (s.thread current).state = .dead
        then threads.erase current else threads) := by
  have saved := saveCtx_thread s current ctx
  have savedState : ∀ t, ((saveCtx s current ctx).thread t).state =
      (s.thread t).state := by
    intro t
    rw [saved t]
    split <;> rfl
  have savedPriority : ∀ t, ((saveCtx s current ctx).thread t).priority =
      (s.thread t).priority := by
    intro t
    rw [saved t]
    split <;> rfl
  have sameEligible : (saveCtx s current ctx).eligible = s.eligible := by
    funext t
    simp [Sched.eligible, savedState]
  obtain ⟨selected, selectedEq, first⟩ :=
    selectNext_spec (saveCtx_listed listed current ctx) member
      (by simpa [savedPriority] using nonneg)
      (by simpa [sameEligible] using candidate)
  obtain ⟨s₁, retired, created₁, thread₁, listed₁⟩ :=
    retireCurrent_spec (saveCtx_listed listed current ctx) member
  refine ⟨_, _, selected, by
    simp only [schedThread, isCurrent, selectedEq, retired,
      Option.bind_eq_bind, Option.bind_some, Option.pure_def]
    rfl, by simpa [sameEligible, savedPriority] using first, ?_, ?_⟩
  · have started := Sched.setThread_thread s₁ selected
      (fun thread => { thread with state := .running })
    have savedSleepTime : ∀ t, ((saveCtx s current ctx).thread t).sleepTime =
        (s.thread t).sleepTime := by
      intro t
      rw [saved t]
      split <;> rfl
    refine ⟨rfl, created₁.trans (saveCtx_created s current ctx), fun t => ?_, fun t => ?_,
      fun t => ?_, fun t => ?_, rfl⟩
    · refine (congrArg Thread.priority (started t)).trans ?_
      rw [thread₁ t, ← savedPriority t]
      split <;> split <;> rfl
    · refine (congrArg Thread.sleepTime (started t)).trans ?_
      rw [thread₁ t, ← savedSleepTime t]
      split <;> split <;> rfl
    · refine (congrArg Thread.state (started t)).trans ?_
      by_cases isSelected : t = selected
      · rw [if_pos isSelected, if_pos isSelected]
      · rw [if_neg isSelected, if_neg isSelected, thread₁ t, savedState t]
        split
        · rfl
        · exact savedState t
    · refine (congrArg Thread.cpuCtx (started t)).trans ?_
      have kept : (s₁.thread t).cpuCtx = ((saveCtx s current ctx).thread t).cpuCtx := by
        rw [thread₁ t]
        split <;> rfl
      have savedCtx := congrArg Thread.cpuCtx (saved t)
      rw [apply_ite Thread.cpuCtx] at savedCtx
      rw [apply_ite Thread.cpuCtx, ite_self, kept]
      exact savedCtx
  · have := listed₁.setThread selected fun thread =>
      { thread with state := .running }
    simp only [savedState] at this
    exact ⟨this.ring, this.allocated⟩

/-- `sched_thread` does nothing before `sched_start` has set a current
thread. -/
theorem schedThread_not_started {s : Sched ρ} (idle : s.current = none)
    (ctx : ρ) : schedThread s ctx = some (s, ctx) := by
  simp [schedThread, idle]

/-! ## The other functions -/

theorem filterMap_listEntry (threads : List Nat) :
    (threads.map ThreadNode.thread).filterMap Sched.listEntry = threads := by
  induction threads with
  | nil => rfl
  | cons t threads ih => simp [Sched.listEntry, ih]

/-- A loop that updates each thread of a duplicate-free list once. -/
theorem foldl_setThread {threads : List Nat} (nodup : threads.Nodup)
    (f : Thread ρ → Thread ρ) :
    ∀ s : Sched ρ, ∃ table,
      threads.foldl (fun s t => s.setThread t f) s = { s with thread := table } ∧
      ∀ t, table t = if t ∈ threads then f (s.thread t) else s.thread t := by
  induction threads with
  | nil => exact fun s => ⟨s.thread, rfl, by simp⟩
  | cons first rest ih =>
      intro s
      obtain ⟨fresh, nodup⟩ := List.nodup_cons.mp nodup
      obtain ⟨table, eq, entry⟩ := ih nodup (s.setThread first f)
      refine ⟨table, by rw [List.foldl_cons, eq]; rfl, ?_⟩
      intro t
      rw [entry, Sched.setThread_thread]
      by_cases same : t = first
      · subst same
        simp [fresh]
      · simp [same]

/-- `sched_tick` counts down the sleep time of every listed thread. -/
theorem schedTick_spec {s : Sched ρ} {threads : List Nat}
    (listed : Listed s threads) :
    ∃ s', schedTick s = some s' ∧ s'.created = s.created ∧
      s'.current = s.current ∧ Listed s' threads ∧
      ∀ t, s'.thread t =
        if t ∈ threads then tickThread (s.thread t) else s.thread t := by
  have enough : (threads.map ThreadNode.thread).length < s.listFuel := by
    have := listed.length_le
    simp only [List.length_map, Sched.listFuel]
    omega
  obtain ⟨table, eq, entry⟩ := foldl_setThread listed.nodup tickThread
    { s with tickCounter := (s.tickCounter + 1) % 2 ^ 64 }
  refine ⟨{ s with
      thread := table
      tickCounter := (s.tickCounter + 1) % 2 ^ 64 }, ?_, rfl, rfl,
    ⟨listed.ring, listed.allocated⟩, entry⟩
  simp only [schedTick, listForEach_ring listed.ring enough,
    filterMap_listEntry, Option.bind_eq_bind, Option.bind_some, eq,
    Option.pure_def]

/-- `thread_create` appends a runnable thread. -/
theorem threadCreate_spec {s : Sched ρ} {threads : List Nat}
    (listed : Listed s threads) (ctx : ρ) :
    ∃ s', threadCreate s ctx = some (s', s.created) ∧
      s'.created = s.created + 1 ∧ s'.current = s.current ∧
      Listed s' (threads ++ [s.created]) ∧
      (∀ t, t ≠ s.created → s'.thread t = s.thread t) ∧
      s'.thread s.created =
        { cpuCtx := ctx, priority := 1, state := .runnable, sleepTime := 0,
          exitCode := 0 } := by
  have fresh : ThreadNode.thread s.created ∉
      ThreadNode.head :: threads.map ThreadNode.thread := by
    intro member
    have inside : s.created ∈ threads := by simpa using member
    exact absurd (listed.allocated _ inside) (lt_irrefl _)
  obtain ⟨links, added, ring, -⟩ := listAddTail_ring listed.ring fresh
  refine ⟨{ s with
      threadList := links
      thread := Function.update s.thread s.created
        { cpuCtx := ctx, priority := 1, state := .runnable, sleepTime := 0,
          exitCode := 0 }
      created := s.created + 1 }, by simp [threadCreate, added], rfl, rfl,
    ⟨by simpa using ring, ?_⟩, ?_, by simp⟩
  · intro t member
    rcases List.mem_append.mp member with old | new
    · exact Nat.lt_succ_of_lt (listed.allocated t old)
    · obtain rfl := List.mem_singleton.mp new
      exact Nat.lt_succ_self _
  · intro t ne
    simp [Function.update_of_ne ne]

/-- `sched_start` on a non-empty list adds the idle thread and makes it
current. -/
theorem schedStart_spec {s s' : Sched ρ} {threads : List Nat}
    (listed : Listed s threads) {ctx : ρ}
    (done : schedStart s ctx = some (.ok s')) :
    s'.created = s.created + 1 ∧ s'.current = some s.created ∧
      Listed s' (threads ++ [s.created]) ∧
      (∀ t, t ≠ s.created → s'.thread t = s.thread t) ∧
      s'.thread s.created =
        { cpuCtx := ctx, priority := 0, state := .runnable, sleepTime := 0,
          exitCode := 0 } := by
  obtain ⟨s₁, created, createdEq, -, listed₁, others, self⟩ :=
    threadCreate_spec listed ctx
  unfold schedStart at done
  split at done
  · simp at done
  · simp only [created, Option.bind_eq_bind, Option.bind_some, Option.pure_def,
      Option.some.injEq, Except.ok.injEq] at done
    subst done
    refine ⟨createdEq, rfl, ⟨listed₁.ring, listed₁.allocated⟩, ?_, ?_⟩
    · intro t ne
      simpa [Sched.setThread_thread_of_ne _ _ _ ne] using others t ne
    · simp [self]

end Zsbl.Common
