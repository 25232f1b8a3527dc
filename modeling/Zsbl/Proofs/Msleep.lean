/-
Module: Zsbl.Proofs.Msleep
Purpose: After how many ticks sched_tick wakes a thread that called sched_msleep, and which
  of these sleeps are long enough.
Trusted boundary: a tick every 10 ms
Main exports:
  Sleeps, Sleeps.step, Sleeps.tick, WokenAt, SleepsAsAsked, msleep_sleeps_iff
-/
import Zsbl.Proofs.SchedSelection
import Mathlib.Data.Real.Basic
import Mathlib.Tactic.Linarith

namespace Zsbl.Common

open Zsbl.Lib Zsbl.Include

variable {ρ : Type} {y y' : SchedSystem ρ} {threads : List Nat} {t k : Nat}

/-! ## One step -/

/-- The thread is blocked until a number of ticks. -/
structure Sleeps (s : Sched ρ) (t k : Nat) : Prop where
  allocated : t < s.created
  blocked : (s.thread t).state = .block
  sleepTime : (s.thread t).sleepTime = k
  more : 0 < k

/-- What happens to other threads leaves it asleep. -/
theorem Sleeps.congr {s s' : Sched ρ} (sleeps : Sleeps s t k)
    (created : s.created ≤ s'.created) (state : (s'.thread t).state = (s.thread t).state)
    (sleepTime : (s'.thread t).sleepTime = (s.thread t).sleepTime) : Sleeps s' t k where
  allocated := Nat.lt_of_lt_of_le sleeps.allocated created
  blocked := state.trans sleeps.blocked
  sleepTime := sleepTime.trans sleeps.sleepTime
  more := sleeps.more

theorem Sleeps.same {s s' : Sched ρ} (sleeps : Sleeps s t k)
    (created : s.created ≤ s'.created) (same : s'.thread t = s.thread t) : Sleeps s' t k :=
  sleeps.congr created (by rw [same]) (by rw [same])

/-- A thread that executes is not asleep. -/
theorem Sleeps.ne_executing (sleeps : Sleeps y.sched t k) {other : Nat}
    (executing : y.Executing other) : t ≠ other := by
  rintro rfl
  have running := executing.2.1
  rw [sleeps.blocked] at running
  cases running

/-- Only a tick changes how long a thread still sleeps. -/
theorem Sleeps.step (inv : SchedInv y threads) (sleeps : Sleeps y.sched t k)
    {op : SchedOp ρ} (taken : SchedStep y op y') (notTick : op ≠ .tick) :
    Sleeps y'.sched t k := by
  have ne : t ≠ y.sched.created := Nat.ne_of_lt sleeps.allocated
  cases taken with
  | create ctx new done =>
      obtain ⟨s', created, createdEq, -, -, others, -⟩ := threadCreate_spec inv.listed ctx
      obtain ⟨rfl, -⟩ : s' = _ ∧ y.sched.created = new := by simpa using created.symm.trans done
      exact sleeps.same (createdEq ▸ Nat.le_succ _) (others t ne)
  | setPriority other p allocated =>
      unfold threadSetPriority
      split
      · exact sleeps
      · by_cases same : t = other
        · subst same
          exact sleeps.congr (Nat.le_refl _) (by simp) (by simp)
        · exact sleeps.same (Nat.le_refl _) (by rw [Sched.setThread_thread_of_ne _ _ _ same])
  | start ctx notStarted done =>
      obtain ⟨createdEq, -, -, others, -⟩ := schedStart_spec inv.listed done
      exact sleeps.same (createdEq ▸ Nat.le_succ _) (others t ne)
  | block other executing =>
      have apart := sleeps.ne_executing executing
      exact sleeps.same (Nat.le_refl _) (blockThread_thread_of_ne _ apart)
  | wake other allocated blocked awake =>
      have apart : t ≠ other := by
        rintro rfl
        have more := sleeps.more
        rw [← sleeps.sleepTime, awake] at more
        exact absurd more (Nat.lt_irrefl 0)
      exact sleeps.same (Nat.le_refl _) (wakeThread_thread_of_ne _ apart)
  | sleep other time executing done =>
      simp only [schedSleep, executing.1, Option.bind_eq_bind, Option.bind_some,
        Option.pure_def, Option.some.injEq] at done
      subst done
      have apart := sleeps.ne_executing executing
      exact sleeps.same (Nat.le_refl _) (by rw [Sched.setThread_thread_of_ne _ _ _ apart])
  | tick started done => exact absurd rfl notTick
  | exit other code executing done =>
      simp only [threadEndPoint, executing.1, Option.bind_eq_bind, Option.bind_some,
        Option.pure_def, Option.some.injEq] at done
      subst done
      have apart := sleeps.ne_executing executing
      exact sleeps.same (Nat.le_refl _) (by rw [Sched.setThread_thread_of_ne _ _ _ apart])
  | schedule ctx frame done =>
      cases isCurrent : y.sched.current with
      | none =>
          have same := (schedThread_not_started isCurrent ctx).symm.trans done
          obtain ⟨rfl, -⟩ : y.sched = _ ∧ ctx = frame := by simpa using same
          exact sleeps
      | some c =>
          obtain ⟨s', frame', selected, called, first, spec, -⟩ := inv.scheduled isCurrent ctx
          obtain ⟨rfl, rfl⟩ : s' = _ ∧ frame' = frame := by simpa using called.symm.trans done
          have notSelected : t ≠ selected := by
            rintro rfl
            have fine := (Sched.eligible_iff _ _).mp first.eligible_best
            rcases fine with state | state <;> simp [sleeps.blocked] at state
          have state := spec.state_eq t
          rw [if_neg notSelected, if_neg (by simp [sleeps.blocked])] at state
          exact sleeps.congr spec.created_eq.ge state (spec.sleepTime_eq t)

/-- A tick brings the end of the sleep one tick nearer. -/
theorem Sleeps.tick (inv : SchedInv y threads) (sleeps : Sleeps y.sched t k) {s : Sched ρ}
    (done : schedTick y.sched = some s) :
    if k = 1 then (s.thread t).state = .runnable else Sleeps s t (k - 1) := by
  obtain ⟨s', ticked, created, -, -, thread⟩ := schedTick_spec inv.listed
  obtain rfl : s' = s := Option.some.inj (ticked.symm.trans done)
  have listed : t ∈ threads :=
    (inv.threadOk t sleeps.allocated).live_listed (by simp [sleeps.blocked])
  have more := sleeps.more
  have tick : s'.thread t = tickThread (y.sched.thread t) := by rw [thread, if_pos listed]
  unfold tickThread at tick
  rw [sleeps.sleepTime, if_neg (Nat.ne_of_gt more)] at tick
  split
  · next last =>
    subst last
    rw [tick]
    rfl
  · next notLast =>
    have stays : k - 1 ≠ 0 := by omega
    rw [if_neg stays] at tick
    exact ⟨created ▸ sleeps.allocated, by rw [tick]; exact sleeps.blocked, by rw [tick],
      Nat.pos_of_ne_zero stays⟩

/-! ## Runs behind the call -/

def ticksOf : SchedOp ρ → Nat
  | .tick => 1
  | _ => 0

theorem ticksOf_eq_zero {op : SchedOp ρ} (notTick : op ≠ .tick) : ticksOf op = 0 := by
  cases op with
  | tick => exact absurd rfl notTick
  | _ => rfl

/-- In some run a tick makes the thread runnable when `n` ticks have come before it. -/
def WokenAt [Inhabited ρ] (y : SchedSystem ρ) (t n : Nat) : Prop :=
  ∃ before after, (schedLts.counting ticksOf).Run (fun _ _ => True) (y, 0) (before, n) ∧
    SchedStep before .tick after ∧ (before.sched.thread t).state ≠ .runnable ∧
    (after.sched.thread t).state = .runnable

/-- The ticks so far and those still to come make up the sleep, or it is over. -/
def Waiting (t total : Nat) (s : SchedSystem ρ × Nat) : Prop :=
  (∃ threads, SchedInv s.1 threads) ∧
    ((∃ k, Sleeps s.1.sched t k ∧ s.2 + k = total) ∨ total ≤ s.2)

/-- A tick takes one from the time that is left, and no other step changes it. -/
theorem Waiting.step {total n n' : Nat} {op : SchedOp ρ} (waiting : Waiting t total (y, n))
    (taken : SchedStep y op y') (count : n' = n + ticksOf op) : Waiting t total (y', n') := by
  obtain ⟨⟨threads, inv⟩, rest⟩ := waiting
  obtain ⟨threads', inv', -⟩ := inv.step taken
  refine ⟨⟨threads', inv'⟩, ?_⟩
  rcases rest with ⟨k, sleeps, sum⟩ | ended
  · dsimp only at sum sleeps ⊢
    by_cases isTick : op = .tick
    · subst isTick
      cases taken with | tick started done
      have next := sleeps.tick inv done
      have one : n' = n + 1 := count
      have more := sleeps.more
      split at next
      · right
        omega
      · left
        exact ⟨k - 1, next, by omega⟩
    · left
      rw [ticksOf_eq_zero isTick, Nat.add_zero] at count
      exact ⟨k, sleeps.step inv taken isTick, count ▸ sum⟩
  · right
    dsimp only at ended ⊢
    omega

section

variable [Inhabited ρ] {total n : Nat}

theorem Waiting.run (inv : SchedInv y threads) (sleeps : Sleeps y.sched t total)
    {s : SchedSystem ρ × Nat}
    (run : (schedLts.counting ticksOf).Run (fun _ _ => True) (y, 0) s) : Waiting t total s := by
  apply run.invariant (Waiting t total)
  · rintro ⟨y, n⟩ op ⟨y', n'⟩ waiting - ⟨taken, count⟩
    exact waiting.step taken count
  · exact ⟨⟨threads, inv⟩, .inl ⟨total, sleeps, Nat.zero_add total⟩⟩

/-- No tick before the last one of the sleep wakes the thread. -/
theorem le_of_wokenAt (inv : SchedInv y threads) (sleeps : Sleeps y.sched t total)
    (woken : WokenAt y t n) : total ≤ n + 1 := by
  obtain ⟨before, after, run, tick, -, awake⟩ := woken
  cases tick with | tick started done
  obtain ⟨⟨threads', inv'⟩, ⟨k, asleep, sum⟩ | ended⟩ := Waiting.run inv sleeps run
  · dsimp only at sum asleep inv'
    have next := asleep.tick inv' done
    split at next
    · omega
    · dsimp only at awake
      rw [next.blocked] at awake
      cases awake
  · dsimp only at ended
    omega

/-- When nothing but ticks happens, the thread sleeps on through `n` of them. -/
theorem sleeps_ticks (inv : SchedInv y threads) (started : y.idle.isSome)
    (sleeps : Sleeps y.sched t total) (before : n < total) :
    ∃ s, (schedLts.counting ticksOf).Run (fun _ _ => True) (y, 0) ({ y with sched := s }, n) ∧
      SchedInv { y with sched := s } threads ∧ Sleeps s t (total - n) := by
  induction n with
  | zero => exact ⟨y.sched, .refl, inv, sleeps⟩
  | succ n ih =>
      obtain ⟨s, run, inv', asleep⟩ := ih (Nat.lt_of_succ_lt before)
      obtain ⟨s', done, -⟩ := schedTick_spec inv'.listed
      have step : SchedStep { y with sched := s } .tick { y with sched := s' } :=
        .tick started done
      have next := Sleeps.tick inv' asleep done
      rw [if_neg (by omega)] at next
      exact ⟨s', run.tail ⟨.tick, trivial, step, rfl⟩, inv'.tick done, next⟩

/-- The last tick of the sleep wakes the thread in one of the runs. -/
theorem wokenAt_last (inv : SchedInv y threads) (started : y.idle.isSome)
    (sleeps : Sleeps y.sched t (n + 1)) : WokenAt y t n := by
  obtain ⟨s, run, inv', asleep⟩ := sleeps_ticks inv started sleeps (Nat.lt_succ_self n)
  obtain ⟨s', done, -⟩ := schedTick_spec inv'.listed
  have next := Sleeps.tick inv' asleep done
  rw [if_pos (by omega)] at next
  exact ⟨_, _, run, .tick started done, by simp [asleep.blocked], next⟩

/-! ## How long a thread sleeps -/

/-- The ticks are computed without overflow, and the thread that calls `sched_msleep` at a
time before the next tick, in milliseconds, is not woken by a tick before the time that it
asks for. -/
def SleepsAsAsked (y : SchedSystem ρ) (t time : Nat) (phase : ℝ) : Prop :=
  time * schedTickHz < 2 ^ 64 ∧ ∀ s, schedMsleep y.sched time = some s →
    ∀ n, WokenAt { y with sched := s } t n → (time : ℝ) ≤ phase + 10 * n

omit [Inhabited ρ] in
/-- A thread that goes to sleep waits for the ticks that the time is converted to. -/
theorem schedMsleep_sleeps (executing : y.Executing t) (inv : SchedInv y threads) {time : Nat}
    (positive : time ≠ 0) :
    ∃ s, schedMsleep y.sched time = some s ∧ SchedInv { y with sched := s } threads ∧
      Sleeps s t (time * schedTickHz % 2 ^ 64 / 1000 + 1) := by
  have isCurrent := executing.1
  have allocated := inv.listed.allocated t (inv.current_listed t isCurrent)
  have slept : schedSleep y.sched time = some (y.sched.setThread t fun thread =>
      { thread with sleepTime := time * schedTickHz % 2 ^ 64 / 1000 + 1, state := .block }) := by
    simp [schedSleep, isCurrent]
  refine ⟨_, (if_neg positive).trans slept, inv.sleep executing slept, ?_⟩
  exact ⟨allocated, by simp, by simp, Nat.succ_pos _⟩

/-- The sleep is long enough if the product does not wrap and the first tick is not too early.
-/
theorem sleepsAsAsked_iff (inv : SchedInv y threads) (executing : y.Executing t)
    (time : Nat) {phase : ℝ} (after : 0 < phase) :
    SleepsAsAsked y t time phase ↔
      time * schedTickHz < 2 ^ 64 ∧ ((time % 10 : Nat) : ℝ) ≤ phase := by
  have started : y.idle.isSome := by rw [inv.started, executing.1]; rfl
  unfold SleepsAsAsked
  apply and_congr_right
  intro fits
  by_cases none : time = 0
  · rw [none]
    simp only [Nat.zero_mod, Nat.cast_zero]
    refine ⟨fun _ => after.le, fun _ s _ n _ => ?_⟩
    have ticks : (0 : ℝ) ≤ n := Nat.cast_nonneg n
    linarith
  · obtain ⟨s, done, inv', sleeps⟩ := schedMsleep_sleeps executing inv none
    rw [Nat.mod_eq_of_lt fits] at sleeps
    unfold schedTickHz at sleeps fits
    have ticks : time * 100 / 1000 = time / 10 := by omega
    rw [ticks] at sleeps
    have parts : (time : ℝ) = 10 * (time / 10 : Nat) + (time % 10 : Nat) := by
      exact_mod_cast (Nat.div_add_mod time 10).symm
    constructor
    · intro long
      have bound := long s done _ (wokenAt_last inv' started sleeps)
      linarith
    · intro short s' done' n woken
      obtain rfl := Option.some.inj (done.symm.trans done')
      have later := le_of_wokenAt inv' sleeps woken
      have later' : ((time / 10 : Nat) : ℝ) ≤ n := by
        exact_mod_cast Nat.le_of_succ_le_succ later
      linarith

/-- The time is slept exactly when its product with the tick rate does not overflow and
the part of it behind the last full 10 ms has gone by with the first tick. -/
theorem msleep_sleeps_iff (reached : schedLts.Reachable y) (executing : y.Executing t)
    (time : BitVec 64) {phase : ℝ} (after : 0 < phase) :
    SleepsAsAsked y t time.toNat phase ↔
      time.toNat * schedTickHz < 2 ^ 64 ∧ ((time.toNat % 10 : Nat) : ℝ) ≤ phase := by
  obtain ⟨threads, inv⟩ := exists_schedInv reached
  exact sleepsAsAsked_iff inv executing time.toNat after

end

/-- The thread of the started scheduler runs. -/
def oneRunning : SchedSystem Nat :=
  { sched := ((schedThread oneStarted 3).get rfl).1, idle := some 1 }

theorem oneRunning_reachable : schedLts.Reachable oneRunning :=
  oneStarted_reachable.step trivial (.schedule 3 1 rfl)

theorem oneRunning_executing : oneRunning.Executing 0 := ⟨rfl, rfl, by decide⟩

/-- Half a millisecond before a tick. -/
theorem msleep_sleeps_iff_oneRunning :
    SleepsAsAsked oneRunning 0 20 (1 / 2) ∧ ¬ SleepsAsAsked oneRunning 0 25 (1 / 2) := by
  have asked (time : BitVec 64) := @msleep_sleeps_iff _ _ _ _ oneRunning_reachable
    oneRunning_executing time (1 / 2) (by norm_num)
  constructor
  · have whole : (20 : BitVec 64).toNat % 10 = 0 := rfl
    exact (asked 20).mpr ⟨by decide, by rw [whole]; norm_num⟩
  · intro slept
    have short := ((asked 25).mp slept).2
    rw [show (25 : BitVec 64).toNat % 10 = 5 from rfl] at short
    norm_num at short

/-- A thread that sleeps for 5 ms is woken by the tick half a millisecond later. -/
theorem msleep_cut_short :
    ¬ ∀ (y : SchedSystem Nat) t (time : BitVec 64) (phase : ℝ), schedLts.Reachable y →
      y.Executing t → 0 < phase → phase ≤ 10 → SleepsAsAsked y t time.toNat phase := by
  intro all
  have slept := all oneRunning 0 5 (1 / 2) oneRunning_reachable oneRunning_executing
    (by norm_num) (by norm_num)
  obtain ⟨threads, inv⟩ := exists_schedInv oneRunning_reachable
  have short := ((sleepsAsAsked_iff inv oneRunning_executing _ (by norm_num)).mp slept).2
  rw [show (5 : BitVec 64).toNat % 10 = 5 from rfl] at short
  norm_num at short

end Zsbl.Common
