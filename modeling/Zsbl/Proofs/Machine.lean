/-
Module: Zsbl.Proofs.Machine
Purpose: Where each thread of the machine stands, and what a trap does to the
  saved frames.
Trusted boundary: none
Main exports:
  Machine.site, Machine.TickSafe, ThreadsInv, TrapSpec, trap_spec
-/
import Zsbl.Common.Machine
import Zsbl.Proofs.SchedSelection
import Zsbl.Proofs.Semaphore

namespace Zsbl.Common

open Zsbl.Lib Zsbl.Include

variable {ρ : Type}

/-- The point a program counter stands at or will return to. -/
def Pc.back : Pc → Point
  | .point here => here
  | .yield back => back

namespace Machine

/-- Where a thread stands: where the hart is if it executes the thread, and
where the thread's last trap caught it otherwise. -/
def site (y : Machine ρ) (t : Nat) : Point :=
  if y.executing = some t then y.regs.pc.back else (y.lastTrap t).pc.back

/-- No tick arrives while the thread that executes is in `sched_msleep` with
one tick left to sleep. -/
def TickSafe (y : Machine ρ) : MachineOp ρ → Prop
  | .tick _ => ∀ t, y.executing = some t → (y.sched.thread t).sleepTime ≠ 1
  | _ => True

end Machine

/-- The invariant on the threads: which states the hart can find the current
thread in, and that the saved frame of a thread that will run again is the one
of its last trap. -/
structure ThreadsInv (y : Machine ρ) (threads : List Nat) : Prop where
  sched : SchedInv ⟨y.sched, y.idle⟩ threads
  started : y.boot = false → y.idle.isSome
  boot_state : y.boot = true → ∀ c, y.sched.current = some c →
    (y.sched.thread c).state = .runnable
  executing_state : ∀ e, y.executing = some e →
    (y.sched.thread e).state ≠ .runnable
  point_state : ∀ e here, y.executing = some e → y.regs.pc = .point here →
    (y.sched.thread e).state = .running
  saved : ∀ t, t < y.sched.created → (y.sched.thread t).state ≠ .dead →
    y.executing ≠ some t → y.stack t (y.sched.thread t).cpuCtx = y.lastTrap t

/-- The thread table of a trap between the interrupt service routine and
`sched_thread`. -/
structure TrapReady (y : Machine ρ) (s : Sched Nat) (threads : List Nat) :
    Prop where
  sched : SchedInv ⟨s, y.idle⟩ threads
  current_eq : s.current = y.sched.current
  created_eq : s.created = y.sched.created
  cpuCtx_eq : ∀ t, (s.thread t).cpuCtx = (y.sched.thread t).cpuCtx
  dead_iff : ∀ t, (s.thread t).state = .dead ↔
    (y.sched.thread t).state = .dead
  boot_state : y.boot = true → ∀ c, s.current = some c →
    (s.thread c).state = .runnable
  executing_state : ∀ e, y.executing = some e → (s.thread e).state ≠ .runnable

/-- In a trap the scheduler finds a thread to go on with. -/
theorem TrapReady.scheduled {y : Machine ρ} {s : Sched Nat} {threads : List Nat}
    {c : Nat} (ready : TrapReady y s threads) (isCurrent : s.current = some c)
    (ctx : Nat) :
    ∃ s' frame next, schedThread s ctx = some (s', frame) ∧
      next < y.sched.created ∧ s.eligible next ∧
      SchedThreadSpec s ctx c next s' frame ∧
      SchedInv ⟨s', y.idle⟩ (afterSchedule s threads) := by
  obtain ⟨s', frame, next, called, first, spec, -⟩ :=
    ready.sched.scheduled isCurrent ctx
  have allocated := ready.sched.listed.allocated next
    (mem_cycleAfter.mp first.mem)
  exact ⟨s', frame, next, called, ready.created_eq ▸ allocated,
    first.eligible_best, spec, (ready.sched.schedule called).1⟩

/-- What a trap changes. -/
structure TrapSpec (y : Machine ρ) (s : Sched Nat) (captured : Frame ρ)
    (y' : Machine ρ) : Prop where
  sem_eq : y'.sem = y.sem
  calls_eq : y'.calls = y.calls
  idle_eq : y'.idle = y.idle
  posts_eq : y'.posts = y.posts
  waits_eq : y'.waits = y.waits
  created_eq : y'.sched.created = y.sched.created
  block_iff : ∀ t, (y'.sched.thread t).state = .block ↔
    (s.thread t).state = .block
  dead_iff : ∀ t, (y'.sched.thread t).state = .dead ↔
    (y.sched.thread t).state = .dead
  sleepTime_eq : ∀ t, (y'.sched.thread t).sleepTime = (s.thread t).sleepTime
  lastTrap_eq : ∀ t, y'.lastTrap t =
    if y.executing = some t then captured else y.lastTrap t
  resumed : ∀ t, y'.executing = some t → y'.regs = y'.lastTrap t

namespace TrapSpec

variable {y y' : Machine ρ} {s : Sched Nat} {captured : Frame ρ}

/-- A trap moves no thread, since the captured frame returns to where the hart
stood. -/
theorem site_eq (spec : TrapSpec y s captured y')
    (same : captured.pc.back = y.regs.pc.back) (t : Nat) :
    y'.site t = y.site t := by
  have back : y'.site t = (y'.lastTrap t).pc.back := by
    unfold Machine.site
    split
    · rename_i executing
      rw [spec.resumed t executing]
    · rfl
  rw [back, spec.lastTrap_eq]
  unfold Machine.site
  split
  · exact same
  · rfl

end TrapSpec

namespace ThreadsInv

variable {y : Machine ρ} {threads : List Nat} {s : Sched Nat}

theorem executing_eq (notBoot : y.boot = false) :
    y.executing = y.sched.current := by
  simp [Machine.executing, notBoot]

theorem executing_boot (boot : y.boot = true) : y.executing = none := by
  simp [Machine.executing, boot]

theorem executing_some {e : Nat} (executing : y.executing = some e) :
    y.boot = false ∧ y.sched.current = some e := by
  unfold Machine.executing at executing
  split at executing
  · simp at executing
  · rename_i notBoot
    exact ⟨by simpa using notBoot, executing⟩

theorem listed (inv : ThreadsInv y threads) : Listed y.sched threads :=
  inv.sched.listed

theorem threadOk (inv : ThreadsInv y threads) {t : Nat}
    (allocated : t < y.sched.created) :
    ThreadOk y.sched.current y.idle threads t (y.sched.thread t) :=
  inv.sched.threadOk t allocated

theorem current_isSome (inv : ThreadsInv y threads) :
    y.idle.isSome = y.sched.current.isSome :=
  inv.sched.started

/-- An `ecall` goes to `sched_thread` with the thread table as it is. -/
theorem ecallReady (inv : ThreadsInv y threads) :
    TrapReady y y.sched threads where
  sched := inv.sched
  current_eq := rfl
  created_eq := rfl
  cpuCtx_eq := fun _ => rfl
  dead_iff := fun _ => Iff.rfl
  boot_state := inv.boot_state
  executing_state := inv.executing_state

/-- A tick outside the window of `sched_msleep` wakes only threads that have
been suspended. -/
theorem tickReady (inv : ThreadsInv y threads) {mem : Nat → Frame ρ}
    (safe : y.TickSafe (.tick mem)) (done : schedTick y.sched = some s) :
    TrapReady y s threads := by
  obtain ⟨s', ticked, created, current, listed, thread⟩ :=
    schedTick_spec inv.listed
  obtain rfl : s' = s := Option.some.inj (ticked.symm.trans done)
  have inv' := inv.sched.tick done
  have stateEq : ∀ t, (s'.thread t).state = (y.sched.thread t).state ∨
      ((y.sched.thread t).state = .block ∧ (s'.thread t).state = .runnable ∧
        (y.sched.thread t).sleepTime = 1) := by
    intro t
    rw [thread t]
    split
    · rename_i member
      have ok := inv.threadOk (inv.listed.allocated t member)
      unfold tickThread
      split
      · exact Or.inl rfl
      · rename_i asleep
        by_cases last : (y.sched.thread t).sleepTime - 1 = 0
        · refine Or.inr ⟨ok.sleeping_blocked asleep, by simp [last], ?_⟩
          omega
        · exact Or.inl (by simp [last])
    · exact Or.inl rfl
  refine ⟨inv', current, created, ?_, ?_, ?_, ?_⟩
  · intro t
    rw [thread t]
    split
    · unfold tickThread
      split <;> rfl
    · rfl
  · intro t
    rcases stateEq t with same | ⟨blocked, ready, -⟩
    · rw [same]
    · simp [blocked, ready]
  · intro boot c isCurrent
    have runnable := inv.boot_state boot c (current ▸ isCurrent)
    rcases stateEq c with same | ⟨-, ready, -⟩
    · rw [same, runnable]
    · exact ready
  · intro e executing
    rcases stateEq e with same | ⟨-, -, last⟩
    · rw [same]
      exact inv.executing_state e executing
    · exact absurd last (safe e executing)

/-- The last trap of the thread that executes is the captured frame. -/
theorem storeFrame_lastTrap (y : Machine ρ) (captured : Frame ρ)
    (mem : Nat → Frame ρ) (t : Nat) : (y.storeFrame captured mem).lastTrap t =
      if y.executing = some t then captured else y.lastTrap t := by
  unfold Machine.storeFrame
  split
  · rename_i none_executing
    simp [none_executing]
  · rename_i e executing
    rw [executing]
    by_cases same : t = e
    · subst same
      simp
    · have ne : ¬ e = t := fun eq => same eq.symm
      simp [Function.update_of_ne same, ne]

/-- Behind `sched_thread` every thread that is not dead has the frame of its
last trap at its saved address. -/
theorem storeFrame_saved (inv : ThreadsInv y threads)
    (ready : TrapReady y s threads) {captured : Frame ρ} {mem : Nat → Frame ρ}
    {c next ctx : Nat} {s' : Sched Nat} (isCurrent : s.current = some c)
    (spec : SchedThreadSpec s captured.sp c next s' ctx) {t : Nat}
    (allocated : t < y.sched.created) (live : (s.thread t).state ≠ .dead) :
    (y.storeFrame captured mem).stack t (s'.thread t).cpuCtx =
      (y.storeFrame captured mem).lastTrap t := by
  have old := inv.saved t allocated (fun dead => live ((ready.dead_iff t).mpr dead))
  rw [spec.cpuCtx_eq, ready.cpuCtx_eq, storeFrame_lastTrap]
  unfold Machine.storeFrame
  cases executing : y.executing with
  | none =>
      have boot : y.boot = true := by
        by_contra notBoot
        rw [executing_eq (by simpa using notBoot), ← ready.current_eq,
          isCurrent] at executing
        simp at executing
      have notSaved : ¬ (t = c ∧ ((s.thread t).state = .running ∨
          (s.thread t).state = .block)) := by
        rintro ⟨rfl, state⟩
        rw [ready.boot_state boot t isCurrent] at state
        simp at state
      simpa [notSaved, executing] using old (by simp [executing])
  | some e =>
      obtain rfl : c = e := by
        have same := (executing_some executing).2
        rw [← ready.current_eq, isCurrent] at same
        exact Option.some.inj same
      by_cases same : t = c
      · subst same
        have notReady := ready.executing_state t executing
        have state : (s.thread t).state = .running ∨
            (s.thread t).state = .block := by
          cases stateEq : (s.thread t).state <;> simp_all
        simp [state]
      · have ne : ¬ c = t := fun eq => same eq.symm
        simpa [same, ne, Function.update_of_ne same] using
          old (by simp [executing, ne])

/-- A trap saves the frame it captured and resumes the next thread with the
frame of that thread's last trap. -/
theorem trap_spec (inv : ThreadsInv y threads) (ready : TrapReady y s threads)
    (captured : Frame ρ) (mem : Nat → Frame ρ) :
    ∃ y' threads', y.trap s captured mem = some y' ∧ ThreadsInv y' threads' ∧
      TrapSpec y s captured y' := by
  cases isCurrent : s.current with
  | none =>
      have noThread : y.executing = none := by
        unfold Machine.executing
        rw [← ready.current_eq, isCurrent]
        split <;> rfl
      have boot : y.boot = true := by
        by_contra notBoot
        have started := inv.started (by simpa using notBoot)
        rw [inv.current_isSome, ← ready.current_eq, isCurrent] at started
        simp at started
      have stored : y.storeFrame captured mem = y := by
        simp [Machine.storeFrame, noThread]
      refine ⟨{ y with sched := s, regs := captured }, threads, ?_, ?_, ?_⟩
      · simp [Machine.trap, schedThread_not_started isCurrent, stored,
          isCurrent]
      · exact
          { sched := ready.sched
            started := inv.started
            boot_state := ready.boot_state
            executing_state := by simp [Machine.executing, boot]
            point_state := by simp [Machine.executing, boot]
            saved := by
              intro t allocated live _
              have old := inv.saved t (ready.created_eq ▸ allocated)
                (fun dead => live ((ready.dead_iff t).mpr dead))
                (by simp [noThread])
              simpa [ready.cpuCtx_eq] using old }
      · exact
          { sem_eq := rfl
            calls_eq := rfl
            idle_eq := rfl
            posts_eq := rfl
            waits_eq := rfl
            created_eq := ready.created_eq
            block_iff := fun _ => Iff.rfl
            dead_iff := ready.dead_iff
            sleepTime_eq := fun _ => rfl
            lastTrap_eq := by simp [noThread]
            resumed := by simp [Machine.executing, boot] }
  | some c =>
      obtain ⟨s', ctx, next, called, allocated, fine, spec, inv'⟩ :=
        ready.scheduled isCurrent captured.sp
      have nextLive : (s.thread next).state ≠ .dead := by
        rcases (s.eligible_iff next).mp fine with state | state <;> simp [state]
      have stored : ∀ t, t < y.sched.created → (s.thread t).state ≠ .dead →
          (y.storeFrame captured mem).stack t (s'.thread t).cpuCtx =
            (y.storeFrame captured mem).lastTrap t := fun t =>
        storeFrame_saved inv ready isCurrent spec
      let y₁ := y.storeFrame captured mem
      have same : y₁.sem = y.sem ∧ y₁.calls = y.calls ∧ y₁.idle = y.idle ∧
          y₁.posts = y.posts ∧ y₁.waits = y.waits := by
        simp only [y₁, Machine.storeFrame]
        split <;> simp
      refine ⟨{ y₁ with
          sched := s', boot := false, regs := y₁.stack next ctx },
        afterSchedule s threads, ?_, ?_, ?_⟩
      · simp [Machine.trap, called, spec.current_eq, y₁]
      · exact
          { sched := by rw [same.2.2.1]; exact inv'
            started := fun _ => by
              rw [same.2.2.1, inv.current_isSome, ← ready.current_eq, isCurrent]
              rfl
            boot_state := by simp
            executing_state := by
              intro e executing
              obtain rfl : next = e := by
                simpa [Machine.executing, spec.current_eq] using executing
              simp [spec.state_eq]
            point_state := by
              intro e here executing _
              obtain rfl : next = e := by
                simpa [Machine.executing, spec.current_eq] using executing
              simp [spec.state_eq]
            saved := fun t inside live _ => stored t
              (ready.created_eq ▸ spec.created_eq ▸ inside)
              (fun dead => live
                ((spec.parked_iff fine (by simp) (by simp) t).mpr dead)) }
      · exact
          { sem_eq := same.1
            calls_eq := same.2.1
            idle_eq := same.2.2.1
            posts_eq := same.2.2.2.1
            waits_eq := same.2.2.2.2
            created_eq := spec.created_eq.trans ready.created_eq
            block_iff := spec.parked_iff fine (by simp) (by simp)
            dead_iff := fun t =>
              (spec.parked_iff fine (by simp) (by simp) t).trans
                (ready.dead_iff t)
            sleepTime_eq := spec.sleepTime_eq
            lastTrap_eq := storeFrame_lastTrap y captured mem
            resumed := by
              intro t executing
              obtain rfl : next = t := by
                simpa [Machine.executing, spec.current_eq] using executing
              show y₁.stack next ctx = y₁.lastTrap next
              rw [spec.frame_eq]
              exact stored next allocated nextLive }

end ThreadsInv

end Zsbl.Common
