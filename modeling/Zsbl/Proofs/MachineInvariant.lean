/-
Module: Zsbl.Proofs.MachineInvariant
Purpose: Every step of the machine keeps the invariants of its threads and of
  its semaphores, as long as no tick arrives in the window of sched_msleep.
Trusted boundary: none
Main exports:
  MachineInv, MachineInv.step, exists_machineInv
-/
import Zsbl.Proofs.SemaphoreInvariant

namespace Zsbl.Common

open Zsbl.Lib Zsbl.Include

variable {ρ : Type}

/-- The invariant of the machine; `threads` is the content of the thread list,
`queue` that of the wait lists. -/
structure MachineInv (y : Machine ρ) (threads : List Nat)
    (queue : Nat → List Nat) : Prop where
  threads : ThreadsInv y threads
  sems : SemInv y queue

theorem guard_bind_eq_some {p : Prop} [Decidable p] {β : Type} {b : β}
    {f : Unit → Option β} : (guard p >>= f) = some b ↔ p ∧ f () = some b := by
  by_cases holds : p <;> simp [guard, holds, failure]

/-! ## Steps of the code that executes -/

namespace ThreadsInv

variable {y y' : Machine ρ} {threads threads' : List Nat} {e : Nat}

/-- Code between two traps changes the thread it runs in and the states of
others, but neither their stacks nor their saved contexts. -/
theorem own (inv : ThreadsInv y threads)
    (schedInv : SchedInv ⟨y'.sched, y'.idle⟩ threads')
    (bootEq : y'.boot = y.boot) (idleEq : y'.idle = y.idle)
    (currentEq : y'.sched.current = y.sched.current)
    (createdEq : y'.sched.created = y.sched.created)
    (lastTrapEq : y'.lastTrap = y.lastTrap)
    (stackEq : ∀ t, y.executing ≠ some t → y'.stack t = y.stack t)
    (cpuCtxEq : ∀ t, y.executing ≠ some t →
      (y'.sched.thread t).cpuCtx = (y.sched.thread t).cpuCtx)
    (dead : ∀ t, y.executing ≠ some t → (y.sched.thread t).state = .dead →
      (y'.sched.thread t).state = .dead)
    (bootState : y.boot = true → ∀ c, y.sched.current = some c →
      (y'.sched.thread c).state = (y.sched.thread c).state)
    (ready : ∀ e, y.executing = some e →
      (y'.sched.thread e).state ≠ .runnable)
    (atPoint : ∀ e here, y.executing = some e → y'.regs.pc = .point here →
      (y'.sched.thread e).state = .running) :
    ThreadsInv y' threads' := by
  have executingEq : y'.executing = y.executing := by
    simp [Machine.executing, bootEq, currentEq]
  refine
    { sched := schedInv
      started := by simpa [bootEq, idleEq] using inv.started
      boot_state := ?_
      executing_state := by simpa [executingEq] using ready
      point_state := by simpa [executingEq] using atPoint
      saved := ?_ }
  · intro boot c isCurrent
    rw [bootEq] at boot
    rw [currentEq] at isCurrent
    rw [bootState boot c isCurrent]
    exact inv.boot_state boot c isCurrent
  · intro t allocated live away
    rw [executingEq] at away
    rw [stackEq t away, cpuCtxEq t away, lastTrapEq]
    exact inv.saved t (createdEq ▸ allocated)
      (fun isDead => live (dead t away isDead)) away

/-- Code that leaves the scheduler alone. -/
theorem quiet (inv : ThreadsInv y threads) (schedEq : y'.sched = y.sched)
    (bootEq : y'.boot = y.boot) (idleEq : y'.idle = y.idle)
    (lastTrapEq : y'.lastTrap = y.lastTrap)
    (stackEq : ∀ t, y.executing ≠ some t → y'.stack t = y.stack t)
    (atPoint : ∀ e here, y.executing = some e → y'.regs.pc = .point here →
      (y.sched.thread e).state = .running) :
    ThreadsInv y' threads := by
  apply inv.own
  · rw [schedEq, idleEq]
    exact inv.sched
  · exact bootEq
  · exact idleEq
  · rw [schedEq]
  · rw [schedEq]
  · exact lastTrapEq
  · exact stackEq
  · simp [schedEq]
  · simp [schedEq]
  · simp [schedEq]
  · simpa [schedEq] using inv.executing_state
  · simpa [schedEq] using atPoint

/-- A thread in its own code is running, and is not the idle thread. -/
theorem inThread (inv : ThreadsInv y threads) (inside : y.InThread) :
    ∃ e, y.executing = some e ∧ y.sched.current = some e ∧
      e < y.sched.created ∧ (y.sched.thread e).state = .running ∧
      y.idle ≠ some e ∧ y.site e = .thread := by
  obtain ⟨notBoot, pc, notIdle⟩ := inside
  have started := inv.started notBoot
  rw [inv.current_isSome] at started
  obtain ⟨e, isCurrent⟩ := Option.isSome_iff_exists.mp started
  have executing : y.executing = some e :=
    (executing_eq notBoot).trans isCurrent
  refine ⟨e, executing, isCurrent,
    inv.listed.allocated e (inv.sched.current_listed e isCurrent),
    inv.point_state e _ executing pc, ?_, ?_⟩
  · rw [← isCurrent]
    exact notIdle.symm
  · simp [Machine.site, executing, pc, Pc.back]

theorem awake (inv : ThreadsInv y threads) (allocated : e < y.sched.created)
    (running : (y.sched.thread e).state = .running) :
    (y.sched.thread e).sleepTime = 0 := by
  by_contra asleep
  have blocked := (inv.threadOk allocated).sleeping_blocked asleep
  simp [running] at blocked

end ThreadsInv

/-- The program points do not depend on anything but the program counters. -/
theorem Machine.site_congr {y y' : Machine ρ}
    (executingEq : y'.executing = y.executing)
    (lastTrapEq : y'.lastTrap = y.lastTrap)
    (backEq : y'.regs.pc.back = y.regs.pc.back) (t : Nat) :
    y'.site t = y.site t := by
  simp [Machine.site, executingEq, lastTrapEq, backEq]

namespace MachineInv

variable {y y' : Machine ρ} {threads : List Nat} {queue : Nat → List Nat}

/-- Code between two program points. -/
theorem compute (inv : MachineInv y threads queue) (sp : Nat) (regs : ρ)
    (mem : Nat → Frame ρ) : MachineInv (y.compute sp regs mem) threads queue where
  threads := by
    apply inv.threads.quiet <;> try rfl
    · intro t away
      cases executing : y.executing with
      | none => simp [Machine.compute, executing]
      | some e =>
          have ne : t ≠ e := by
            rintro rfl
            exact away executing
          simp [Machine.compute, executing, Function.update_of_ne ne]
    · exact inv.threads.point_state
  sems := by
    refine inv.sems.frame rfl rfl le_rfl ?_ ?_ ?_
    · exact fun t _ => Machine.site_congr rfl rfl rfl t
    · intro t late early
      exact absurd early (not_lt.mpr late)
    · simp [Machine.compute]

/-- A call that leads to the `ecall` of `sched_yield` at once. -/
theorem yield (inv : MachineInv y threads queue)
    (pc : y.regs.pc = .point .thread) :
    MachineInv (y.goto (.yield .thread)) threads queue where
  threads := by
    apply inv.threads.quiet <;> simp [Machine.goto]
  sems := by
    have siteEq : ∀ t, (y.goto (.yield .thread)).site t = y.site t := by
      refine Machine.site_congr rfl rfl ?_
      simp [Machine.goto, pc, Pc.back]
    refine inv.sems.frame rfl rfl le_rfl ?_ ?_ ?_
    · exact fun t _ => siteEq t
    · intro t late early
      exact absurd early (not_lt.mpr late)
    · simp [Machine.goto]

/-- A call that changes the thread table and ends in front of an `ecall`. -/
theorem call (inv : MachineInv y threads queue) {s : Sched Nat}
    (pc : y.regs.pc = .point .thread)
    (schedInv : SchedInv ⟨s, y.idle⟩ threads)
    (currentEq : s.current = y.sched.current)
    (createdEq : s.created = y.sched.created)
    (cpuCtxEq : ∀ t, y.executing ≠ some t →
      (s.thread t).cpuCtx = (y.sched.thread t).cpuCtx)
    (stateEq : ∀ t, y.executing ≠ some t →
      (s.thread t).state = (y.sched.thread t).state)
    (sleepEq : ∀ t, y.executing ≠ some t →
      (s.thread t).sleepTime = (y.sched.thread t).sleepTime)
    (ready : ∀ e, y.executing = some e → (s.thread e).state ≠ .runnable) :
    MachineInv ({ y with sched := s }.goto (.yield .thread)) threads queue where
  threads := by
    refine inv.threads.own schedInv rfl rfl currentEq createdEq rfl
      (fun _ _ => rfl) cpuCtxEq ?_ ?_ ?_ ?_
    · intro t away dead
      exact (stateEq t away).trans dead
    · intro boot c _
      exact stateEq c (by simp [ThreadsInv.executing_boot boot])
    · exact ready
    · simp [Machine.goto]
  sems := by
    have siteEq : ∀ t, ({ y with sched := s }.goto (.yield .thread)).site t =
        y.site t := by
      apply Machine.site_congr
      · simp [Machine.executing, Machine.goto, currentEq]
      · rfl
      · simp [Machine.goto, pc, Pc.back]
    refine inv.sems.frame rfl rfl (le_of_eq createdEq.symm) ?_ ?_ ?_
    · exact fun t _ => siteEq t
    · intro t late early
      exact absurd (lt_of_lt_of_eq early createdEq) (not_lt.mpr late)
    · intro t _ away
      have notHere : y.executing ≠ some t := by
        intro executing
        apply away
        simp [Machine.site, executing, pc, Pc.back]
      refine ⟨?_, ?_, sleepEq t notHere, fun isIdle => isIdle⟩
      · show (s.thread t).state = _ ↔ _
        rw [stateEq t notHere]
      · show (s.thread t).state = _ → _
        rw [stateEq t notHere]
        exact id

/-- `thread_set_priority` changes nothing but a priority. -/
theorem setPriority (inv : MachineInv y threads queue) {t : Nat} (p : Int)
    (pc : y.regs.pc = .point .thread) (allocated : t < y.sched.created) :
    MachineInv ({ y with sched := (threadSetPriority y.sched t p).1 }.goto
      (.yield .thread)) threads queue := by
  have same : ∀ u, ((threadSetPriority y.sched t p).1.thread u).cpuCtx =
        (y.sched.thread u).cpuCtx ∧
      ((threadSetPriority y.sched t p).1.thread u).state =
        (y.sched.thread u).state ∧
      ((threadSetPriority y.sched t p).1.thread u).sleepTime =
        (y.sched.thread u).sleepTime := by
    intro u
    unfold threadSetPriority
    split
    · simp
    · rw [Sched.setThread_thread]
      split <;> simp
  refine inv.call pc (inv.threads.sched.setPriority p allocated) ?_ ?_
    (fun u _ => (same u).1) (fun u _ => (same u).2.1) (fun u _ => (same u).2.2) ?_
  · unfold threadSetPriority
    split <;> rfl
  · unfold threadSetPriority
    split <;> rfl
  · intro e executing
    rw [(same e).2.1]
    exact inv.threads.executing_state e executing

/-- A call that blocks or ends the thread it is made in. -/
theorem park (inv : MachineInv y threads queue) {e : Nat} {s : Sched Nat}
    {f : Thread Nat → Thread Nat} (executing : y.executing = some e)
    (pc : y.regs.pc = .point .thread) (schedEq : s = y.sched.setThread e f)
    (parked : (f (y.sched.thread e)).state ≠ .runnable)
    (schedInv : SchedInv ⟨s, y.idle⟩ threads) :
    MachineInv ({ y with sched := s }.goto (.yield .thread)) threads queue := by
  subst schedEq
  have others : ∀ t, y.executing ≠ some t →
      (y.sched.setThread e f).thread t = y.sched.thread t := by
    intro t away
    apply Sched.setThread_thread_of_ne
    rintro rfl
    exact away executing
  refine inv.call pc schedInv rfl rfl ?_ ?_ ?_ ?_
  · exact fun t away => by rw [others t away]
  · exact fun t away => by rw [others t away]
  · exact fun t away => by rw [others t away]
  · intro e' executing'
    obtain rfl : e = e' := by simpa [executing] using executing'
    simpa using parked

/-- A new thread starts with the frame at the top of its stack. -/
theorem addThread (inv : MachineInv y threads queue) {s : Sched Nat}
    (idle : Option Nat) {threads' : List Nat} {top : Nat} {regs : ρ} (pc : Pc)
    (schedInv : SchedInv ⟨s, idle⟩ threads')
    (createdEq : s.created = y.sched.created + 1)
    (others : ∀ t, t ≠ y.sched.created → s.thread t = y.sched.thread t)
    (cpuCtxEq : (s.thread y.sched.created).cpuCtx = top)
    (executingEq : y.boot = true ∨ s.current = y.sched.current)
    (started : y.boot = false → idle = y.idle)
    (bootState : y.boot = true → ∀ c, s.current = some c →
      (s.thread c).state = .runnable)
    (backEq : y.boot = true ∨ pc = y.regs.pc)
    (idleOld : ∀ t, t < y.sched.created → idle = some t → y.idle = some t) :
    MachineInv
      ({ y.addThread s y.sched.created top regs with idle := idle }.goto pc)
      threads' queue := by
  let y' := { y.addThread s y.sched.created top regs with idle := idle }.goto pc
  have executingNew : y'.executing = y.executing := by
    rcases executingEq with boot | current
    · simp [y', Machine.goto, Machine.addThread, Machine.executing, boot]
    · simp [y', Machine.goto, Machine.addThread, Machine.executing, current]
  have allocated : ∀ e, y.executing = some e → e < y.sched.created := by
    intro e executing
    have isCurrent := (ThreadsInv.executing_some executing).2
    exact inv.threads.listed.allocated e
      (inv.threads.sched.current_listed e isCurrent)
  have pcEq : ∀ e, y.executing = some e → pc = y.regs.pc := by
    intro e executing
    have notBoot := (ThreadsInv.executing_some executing).1
    rcases backEq with boot | same
    · simp [notBoot] at boot
    · exact same
  have siteOld : ∀ t, t < y.sched.created → y'.site t = y.site t := by
    intro t early
    have ne : t ≠ y.sched.created := Nat.ne_of_lt early
    unfold Machine.site
    rw [executingNew]
    split
    · rename_i executing
      show pc.back = y.regs.pc.back
      rw [pcEq t executing]
    · simp [y', Machine.goto, Machine.addThread, Function.update_of_ne ne]
  refine ⟨?_, ?_⟩
  · refine
      { sched := schedInv
        started := ?_
        boot_state := bootState
        executing_state := ?_
        point_state := ?_
        saved := ?_ }
    · intro notBoot
      show idle.isSome
      rw [started notBoot]
      exact inv.threads.started notBoot
    · intro e executing
      rw [executingNew] at executing
      show (s.thread e).state ≠ .runnable
      rw [others e (Nat.ne_of_lt (allocated e executing))]
      exact inv.threads.executing_state e executing
    · intro e here executing stands
      rw [executingNew] at executing
      show (s.thread e).state = .running
      rw [others e (Nat.ne_of_lt (allocated e executing))]
      refine inv.threads.point_state e here executing ?_
      rw [← pcEq e executing]
      exact stands
    · intro t inTable live away
      rw [executingNew] at away
      by_cases new : t = y.sched.created
      · subst new
        simp [Machine.goto, Machine.addThread, cpuCtxEq]
      · have early : t < y.sched.created := by
          have lt : t < s.created := inTable
          omega
        have live' : (y.sched.thread t).state ≠ .dead := by
          rw [← others t new]
          exact live
        have old := inv.threads.saved t early live' away
        simpa [Machine.goto, Machine.addThread, Function.update_of_ne new,
          others t new] using old
  · refine inv.sems.frame rfl rfl ?_ siteOld ?_ ?_
    · show y.sched.created ≤ s.created
      omega
    · intro t late early
      obtain rfl : t = y.sched.created := by
        have lt : t < s.created := early
        omega
      have away : y'.executing ≠ some y.sched.created := by
        rw [executingNew]
        exact fun executing => absurd (allocated _ executing) (lt_irrefl _)
      show y'.site y.sched.created = .thread
      unfold Machine.site
      rw [if_neg away]
      simp [y', Machine.goto, Machine.addThread, Machine.initialFrame, Pc.back]
    · intro t early _
      have same := others t (Nat.ne_of_lt early)
      refine ⟨?_, ?_, ?_, idleOld t early⟩
      · show (s.thread t).state = _ ↔ _
        rw [same]
      · show (s.thread t).state = _ → _
        rw [same]
        exact id
      · show (s.thread t).sleepTime = _
        rw [same]

/-- A trap keeps the semaphores' invariant as well. -/
theorem trap (inv : MachineInv y threads queue) {s : Sched Nat}
    {captured : Frame ρ} {mem : Nat → Frame ρ}
    (ready : TrapReady y s threads)
    (back : captured.pc.back = y.regs.pc.back)
    (stateEq : ∀ t, (y.sched.thread t).sleepTime = 0 →
      (s.thread t).state = (y.sched.thread t).state ∧ (s.thread t).sleepTime = 0)
    (done : y.trap s captured mem = some y') :
    ∃ threads', MachineInv y' threads' queue := by
  obtain ⟨y'', threads', trapped, inv', spec⟩ :=
    inv.threads.trap_spec ready captured mem
  obtain rfl : y'' = y' := Option.some.inj (trapped.symm.trans done)
  refine ⟨threads', inv', inv.sems.frame spec.sem_eq spec.calls_eq
    spec.created_eq.ge (fun t _ => spec.site_eq back t) ?_ ?_⟩
  · intro t late early
    rw [spec.created_eq] at early
    exact absurd early (not_lt.mpr late)
  · intro t allocated away
    cases stands : y.site t with
    | thread => exact absurd stands away
    | semWait id call inList =>
        have awake := (inv.sems.inside t id call inList allocated stands).2.2.2.2
        obtain ⟨state, sleep⟩ := stateEq t awake
        refine ⟨?_, (spec.dead_iff t).mp, ?_, fun isIdle => spec.idle_eq ▸ isIdle⟩
        · rw [spec.block_iff, state]
        · rw [spec.sleepTime_eq, sleep, awake]

/-- The locked section in `sem_wait`'s loop is carried out, whatever its
outcome. -/
theorem semLock (inv : MachineInv y threads queue) {id call : Nat}
    {inList : Bool} (boot : y.boot = false)
    (pc : y.regs.pc = .point (.semWait id call inList)) :
    ∃ y' queue', y.step .semLock = some y' ∧ MachineInv y' threads queue' := by
  obtain ⟨e, isCurrent⟩ := Option.isSome_iff_exists.mp
    (inv.threads.current_isSome ▸ inv.threads.started boot)
  have executing : y.executing = some e :=
    (ThreadsInv.executing_eq boot).trans isCurrent
  have allocated := inv.threads.listed.allocated e
    (inv.threads.sched.current_listed e isCurrent)
  have running := inv.threads.point_state e _ executing pc
  have stood : y.site e = .semWait id call inList := by
    simp [Machine.site, executing, pc, Pc.back]
  obtain ⟨owner, -, notIdle, -⟩ :=
    inv.sems.inside e id call inList allocated stood
  have off := inv.sems.off_queue allocated stood running
  by_cases available : (y.sem id).count > 0
  · obtain ⟨links, taken, agree⟩ : ∃ links,
        semWaitSection y.sched (y.sem id) call inList =
          some (y.sched, ⟨(y.sem id).count - 1, links, (y.sem id).thread⟩,
            true) ∧
        AgreeOff (y.sem id).waitList links [.call call] := by
      cases inList with
      | false =>
          exact ⟨_, semWaitSection_take available, fun _ _ => ⟨rfl, rfl⟩⟩
      | true =>
          exact semWaitSection_leave available
            (inv.sems.selfLinked e id call allocated stood off)
    let y₁ := y.setSem id ⟨(y.sem id).count - 1, links, (y.sem id).thread⟩
    let y₂ := { y₁ with
      waits := Function.update y.waits id (y.waits id + 1) }.goto
        (.point .thread)
    have moves : Moves y y₂ e .thread :=
      ⟨executing, executing, rfl, rfl, rfl, rfl⟩
    refine ⟨y₂, queue, guard_bind_eq_some.mpr ⟨boot, ?_⟩, ?_, ?_⟩
    · simp [pc, taken, y₂, y₁, Machine.setSem, Machine.goto]
    · refine inv.threads.quiet rfl rfl rfl rfl (fun _ _ => rfl) ?_
      intro e' here executing' _
      obtain rfl : e = e' := by simpa [executing] using executing'
      exact running
    · exact inv.sems.take moves stood allocated running available agree rfl rfl
        rfl
  · obtain ⟨links, taken, ring, agree⟩ := semWaitSection_block y.sched inList
      available (inv.sems.ring id) off
    rw [owner] at taken
    let y₁ := { y with sched := blockThread y.sched e }.setSem id
      ⟨(y.sem id).count, links, (y.sem id).thread⟩
    let y₂ := y₁.goto (.yield (.semWait id call true))
    have moves : Moves y y₂ e (.semWait id call true) :=
      ⟨executing, executing, rfl, rfl, rfl, rfl⟩
    have blocked := inv.threads.sched.block ⟨isCurrent, running, notIdle⟩
    have others : ∀ t, y.executing ≠ some t →
        y₂.sched.thread t = y.sched.thread t := by
      intro t away
      apply blockThread_thread_of_ne
      rintro rfl
      exact away executing
    refine ⟨y₂, Function.update queue id (queue id ++ [call]),
      guard_bind_eq_some.mpr ⟨boot, ?_⟩, ?_, ?_⟩
    · simp [pc, taken, y₂, y₁, Machine.setSem, Machine.goto]
    · refine inv.threads.own blocked rfl rfl rfl rfl rfl (fun _ _ => rfl)
        ?_ ?_ ?_ ?_ ?_
      · exact fun t away => by rw [others t away]
      · exact fun t away dead => by rw [others t away, dead]
      · intro isBoot
        simp [boot] at isBoot
      · intro e' executing'
        obtain rfl : e = e' := by simpa [executing] using executing'
        simp [y₂, y₁, Machine.goto, Machine.setSem, blockThread]
      · intro e' here _ stands
        simp [y₂, Machine.goto] at stands
    · exact inv.sems.block ⟨moves, stood, allocated, running, available, ring, agree, rfl,
        rfl, rfl⟩

/-- `sem_wait` gets as far as its loop. -/
theorem semWait (inv : MachineInv y threads queue) {id : Nat}
    (done : y.step (.semWait id) = some y') : MachineInv y' threads queue := by
  obtain ⟨inside, done⟩ := guard_bind_eq_some.mp done
  obtain ⟨e, executing, isCurrent, allocated, running, notIdle, stood⟩ :=
    inv.threads.inThread inside
  simp only [isCurrent, Option.bind_eq_bind, Option.bind_some, Option.pure_def,
    Option.some.injEq] at done
  subst done
  refine ⟨?_, ?_⟩
  · refine inv.threads.quiet rfl rfl rfl rfl (fun _ _ => rfl) ?_
    intro e' here executing' _
    obtain rfl : e = e' := by simpa [executing] using executing'
    exact running
  · exact inv.sems.enter ⟨executing, executing, rfl, rfl, rfl, rfl⟩ stood
      allocated running (inv.threads.awake allocated running) notIdle rfl rfl rfl

end MachineInv

/-- What one `sem_post` does to the waiters with the nodes `queue`: nothing if
there are none, else it wakes the first one of greatest priority. -/
def PostWakes (y y' : Machine ρ) (id : Nat) (queue : List Nat) : Prop :=
  (queue = [] ∧ y'.sched = y.sched) ∨
    ∃ left best right, queue = left ++ best :: right ∧
      IsFirstMax (fun _ => true)
        (fun call => (y.sched.thread ((y.sem id).thread call)).priority)
        queue best ∧
      (y.sched.thread ((y.sem id).thread best)).state = .block ∧
      y'.sched = wakeThread y.sched ((y.sem id).thread best) ∧
      (y'.sem id).waitList.Ring .head ((left ++ right).map .call)

namespace MachineInv

variable {y y' : Machine ρ} {threads : List Nat} {queue : Nat → List Nat}

/-- Where no thread waits a post counts up. -/
theorem semPost_nobody (inv : MachineInv y threads queue) {id : Nat} (inside : y.InThread)
    (waiting : queue id = []) :
    ∃ y', y.step (.semPost id) = some y' ∧ MachineInv y' threads queue ∧
      PostWakes y y' id [] := by
  obtain ⟨e, executing, isCurrent, allocated, running, notIdle, stood⟩ :=
    inv.threads.inThread inside
  have ring := inv.sems.ring id
  rw [waiting] at ring
  let y₁ := y.setSem id
    { y.sem id with count := wrapLong ((y.sem id).count + 1) }
  let y₂ := { y₁ with
    posts := Function.update y.posts id (y.posts id + 1) }.goto
      (.yield .thread)
  have moves : Moves y y₂ e .thread :=
    ⟨executing, executing, rfl, rfl, rfl, rfl⟩
  refine ⟨y₂, guard_bind_eq_some.mpr ⟨inside, ?_⟩, ⟨?_, ?_⟩, ?_⟩
  · simp [semPost_empty ring, y₂, y₁, Machine.setSem, Machine.goto]
  · refine inv.threads.quiet rfl rfl rfl rfl (fun _ _ => rfl) ?_
    intro e' here _ stands
    simp [y₂, Machine.goto] at stands
  · refine inv.sems.frame_count ?_ ?_ ?_ ?_ rfl le_rfl ?_ ?_ ?_
    · intro id'
      by_cases same : id' = id
      · subst same
        simp [y₂, y₁, Machine.setSem, Machine.goto]
      · simp [y₂, y₁, Machine.setSem, Machine.goto, same]
    · intro id'
      by_cases same : id' = id
      · subst same
        simp [y₂, y₁, Machine.setSem, Machine.goto]
      · simp [y₂, y₁, Machine.setSem, Machine.goto, same]
    · intro id'
      by_cases same : id' = id
      · subst same
        simpa [y₂, y₁, Machine.setSem, Machine.goto] using
          (wrapLong_range _).1
      · simpa [y₂, y₁, Machine.setSem, Machine.goto, same] using
          inv.sems.low id'
    · intro id' some_waiting
      have ne : id' ≠ id := by
        rintro rfl
        exact some_waiting waiting
      simp [y₂, y₁, Machine.setSem, Machine.goto, ne]
    · intro t _
      rw [moves.site_eq]
      split
      · rename_i same
        rw [same, stood]
      · rfl
    · intro t late early
      exact absurd early (not_lt.mpr late)
    · exact fun t _ _ => ⟨Iff.rfl, fun dead => dead, rfl, fun isIdle => isIdle⟩
  · exact Or.inl ⟨rfl, rfl⟩

/-- Where threads wait a post wakes the one with the greatest priority. -/
theorem semPost_somebody (inv : MachineInv y threads queue) {id : Nat} (inside : y.InThread)
    (some_waiting : queue id ≠ []) :
    ∃ y' queue', y.step (.semPost id) = some y' ∧ MachineInv y' threads queue' ∧
      PostWakes y y' id (queue id) := by
  obtain ⟨e, executing, isCurrent, allocated, running, notIdle, stood⟩ :=
    inv.threads.inThread inside
  obtain ⟨left, best, right, links, split, greatest, posted, ring, self,
    agree⟩ := semPost_spec (inv.sems.ring id) (inv.sems.length_le id)
      some_waiting (fun call member => inv.sems.blocked member)
      (fun call member => (inv.threads.threadOk
        (inv.sems.listed id call member).1).priority_nonneg)
  have member : best ∈ queue id := by simp [split]
  obtain ⟨inTable, stands⟩ := inv.sems.listed id best member
  have blocked := inv.sems.blocked member
  have awake := (inv.sems.inside _ id best true inTable stands).2.2.2.2
  have ne : (y.sem id).thread best ≠ e := inv.sems.owner_ne member running
  let y₁ := { y with
    sched := wakeThread y.sched ((y.sem id).thread best) }.setSem id
      ⟨wrapLong ((y.sem id).count + 1), links, (y.sem id).thread⟩
  let y₂ := { y₁ with
    posts := Function.update y.posts id (y.posts id + 1) }.goto
      (.yield .thread)
  have self_thread : y₂.sched.thread e = y.sched.thread e :=
    wakeThread_thread_of_ne y.sched ne.symm
  refine ⟨y₂, Function.update queue id (left ++ right),
    guard_bind_eq_some.mpr ⟨inside, ?_⟩, ⟨?_, ?_⟩, ?_⟩
  · simp [posted, y₂, y₁, Machine.setSem, Machine.goto]
  · have woken := inv.threads.sched.wake inTable blocked awake
    refine inv.threads.own woken rfl rfl rfl rfl rfl (fun _ _ => rfl)
      ?_ ?_ ?_ ?_ ?_
    · intro t _
      show ((wakeThread y.sched _).thread t).cpuCtx = _
      rw [wakeThread, Sched.setThread_thread]
      split <;> rfl
    · intro t _ dead
      have other : t ≠ (y.sem id).thread best := by
        rintro rfl
        simp [blocked] at dead
      exact (congrArg Thread.state
        (wakeThread_thread_of_ne y.sched other)).trans dead
    · intro isBoot
      simp [inside.1] at isBoot
    · intro e' executing'
      obtain rfl : e = e' := by simpa [executing] using executing'
      rw [self_thread, running]
      simp
    · intro e' here _ stands
      simp [y₂, Machine.goto] at stands
  · have moves : Moves y y₂ e .thread :=
      ⟨executing, executing, rfl, rfl, rfl, rfl⟩
    exact inv.sems.wake ⟨moves, stood, split, ring, self, agree, rfl, rfl, rfl⟩
  · refine Or.inr ⟨left, best, right, split, greatest,
      blocked, rfl, ?_⟩
    simpa [y₂, y₁, Machine.setSem, Machine.goto] using ring

/-- A thread may post at any time, and a waiting thread wakes up if there is one. -/
theorem semPost (inv : MachineInv y threads queue) {id : Nat}
    (inside : y.InThread) :
    ∃ y' queue', y.step (.semPost id) = some y' ∧
      MachineInv y' threads queue' ∧ PostWakes y y' id (queue id) := by
  by_cases waiting : queue id = []
  · obtain ⟨y', posts, inv', wakes⟩ := inv.semPost_nobody inside waiting
    exact ⟨y', queue, posts, inv', waiting ▸ wakes⟩
  · exact inv.semPost_somebody inside waiting

/-- A created thread is on no list yet, and its first frame is set up. -/
theorem create (inv : MachineInv y threads queue) {top : Nat} {regs : ρ}
    (taken : y.step (.create top regs) = some y') :
    ∃ threads' queue', MachineInv y' threads' queue' := by
  obtain ⟨inside, taken⟩ := guard_bind_eq_some.mp taken
  obtain ⟨s, created, createdEq, currentEq, listed, others, self⟩ :=
    threadCreate_spec inv.threads.listed top
  simp only [created, Option.bind_eq_bind, Option.bind_some,
    Option.pure_def, Option.some.injEq] at taken
  subst taken
  refine ⟨_, _, inv.addThread y.idle y.regs.pc
    (inv.threads.sched.create created) createdEq others (by rw [self])
    (Or.inr currentEq) (fun _ => rfl) ?_ (Or.inr rfl) (fun _ _ => id)⟩
  intro boot c isCurrent
  rw [currentEq] at isCurrent
  have ne : c ≠ y.sched.created := Nat.ne_of_lt
    (inv.threads.listed.allocated c
      (inv.threads.sched.current_listed c isCurrent))
  rw [others c ne]
  exact inv.threads.boot_state boot c isCurrent

/-- A priority that is not positive is refused. -/
theorem setsPriority (inv : MachineInv y threads queue) {t : Nat} {p : Int}
    (taken : y.step (.setPriority t p) = some y') :
    ∃ threads' queue', MachineInv y' threads' queue' := by
  obtain ⟨⟨inside, allocated⟩, taken⟩ := guard_bind_eq_some.mp taken
  have pc : y.regs.pc = .point .thread := by
    rcases inside with ⟨-, pc, -⟩ | ⟨-, pc, -⟩ <;> exact pc
  simp only [Option.pure_def, Option.some.injEq] at taken
  subst taken
  split
  · exact ⟨_, _, inv.setPriority p pc allocated⟩
  · rename_i rejected
    have low : p ≤ 0 := by
      by_contra positive
      simp [threadSetPriority, positive] at rejected
    have same : (threadSetPriority y.sched t p).1 = y.sched := by
      simp [threadSetPriority, low]
    rw [same]
    exact ⟨_, _, inv⟩

/-- A started thread joins the list of the threads that are ready. -/
theorem start (inv : MachineInv y threads queue) {top : Nat} {regs : ρ}
    (taken : y.step (.start top regs) = some y') :
    ∃ threads' queue', MachineInv y' threads' queue' := by
  obtain ⟨⟨boot, pc, notStarted⟩, taken⟩ := guard_bind_eq_some.mp taken
  cases result : schedStart y.sched top with
  | none => simp [result] at taken
  | some outcome =>
      cases outcome with
      | error err =>
          simp only [result, Option.bind_eq_bind, Option.bind_some,
            Option.pure_def, Option.some.injEq] at taken
          exact ⟨_, _, taken ▸ inv⟩
      | ok s =>
          simp only [result, Option.bind_eq_bind, Option.bind_some,
            Option.pure_def, Option.some.injEq] at taken
          subst taken
          obtain ⟨createdEq, currentEq, listed, others, self⟩ :=
            schedStart_spec inv.threads.listed result
          refine ⟨_, _, inv.addThread s.current (.yield .thread)
            (inv.threads.sched.start notStarted result) createdEq others
            (by rw [self]) (Or.inl boot) ?_ ?_ (Or.inl boot) ?_⟩
          · intro notBoot
            simp [boot] at notBoot
          · intro _ c isCurrent
            obtain rfl : y.sched.created = c := by
              simpa [currentEq] using isCurrent
            rw [self]
          · intro t early isIdle
            obtain rfl : y.sched.created = t := by
              simpa [currentEq] using isIdle
            exact absurd early (lt_irrefl _)

/-- A thread that sleeps for no time yields. -/
theorem msleep (inv : MachineInv y threads queue) {time : Nat}
    (taken : y.step (.msleep time) = some y') :
    ∃ threads' queue', MachineInv y' threads' queue' := by
  obtain ⟨inside, taken⟩ := guard_bind_eq_some.mp taken
  obtain ⟨e, executing, isCurrent, -, running, notIdle, -⟩ :=
    inv.threads.inThread inside
  by_cases zero : time = 0
  · simp only [schedMsleep, zero, if_true, Option.bind_eq_bind, Option.bind_some,
      Option.pure_def, Option.some.injEq] at taken
    exact ⟨_, _, taken ▸ inv.yield inside.2.1⟩
  · have slept : schedSleep y.sched time = some
        (y.sched.setThread e fun thread => { thread with
          sleepTime := time * schedTickHz % 2 ^ 64 / 1000 + 1
          state := .block }) := by
      simp [schedSleep, isCurrent]
    simp only [schedMsleep, zero, if_false, slept, Option.bind_eq_bind,
      Option.bind_some, Option.pure_def, Option.some.injEq] at taken
    exact ⟨_, _, taken ▸ inv.park executing inside.2.1 rfl (by simp)
      (inv.threads.sched.sleep ⟨isCurrent, running, notIdle⟩ slept)⟩

/-- A thread that exits is dead and is never chosen again. -/
theorem exit (inv : MachineInv y threads queue) {code : Int}
    (taken : y.step (.exit code) = some y') :
    ∃ threads' queue', MachineInv y' threads' queue' := by
  obtain ⟨inside, taken⟩ := guard_bind_eq_some.mp taken
  obtain ⟨e, executing, isCurrent, -, running, notIdle, -⟩ :=
    inv.threads.inThread inside
  have ended : threadEndPoint y.sched code = some
      (y.sched.setThread e fun thread =>
        { thread with exitCode := code, state := .dead }) := by
    simp [threadEndPoint, isCurrent]
  simp only [ended, Option.bind_eq_bind, Option.bind_some, Option.pure_def,
    Option.some.injEq] at taken
  exact ⟨_, _, taken ▸ inv.park executing inside.2.1 rfl (by simp)
    (inv.threads.sched.exit ⟨isCurrent, running, notIdle⟩ ended)⟩

/-- The tick changes the state of sleeping threads only. -/
theorem tick (inv : MachineInv y threads queue) {mem : Nat → Frame ρ}
    (safe : y.TickSafe (.tick mem)) (taken : y.step (.tick mem) = some y') :
    ∃ threads' queue', MachineInv y' threads' queue' := by
  obtain ⟨started, taken⟩ := guard_bind_eq_some.mp taken
  obtain ⟨s, ticked, -, -, -, thread⟩ := schedTick_spec inv.threads.listed
  simp only [ticked, Option.bind_eq_bind, Option.bind_some] at taken
  have asleep : ∀ t, (y.sched.thread t).sleepTime = 0 →
      (s.thread t).state = (y.sched.thread t).state ∧
        (s.thread t).sleepTime = 0 := by
    intro t awake
    rw [thread t]
    split <;> simp [tickThread, awake]
  obtain ⟨threads', inv'⟩ :=
    inv.trap (inv.threads.tickReady safe ticked) rfl asleep taken
  exact ⟨_, _, inv'⟩

/-- Every step outside the window of `sched_msleep` keeps the invariant. -/
theorem step (inv : MachineInv y threads queue) {op : MachineOp ρ}
    (safe : y.TickSafe op) (taken : y.step op = some y') :
    ∃ threads' queue', MachineInv y' threads' queue' := by
  cases op with
  | compute sp regs mem =>
      obtain rfl := Option.some.inj taken
      exact ⟨_, _, inv.compute sp regs mem⟩
  | create top regs => exact inv.create taken
  | setPriority t p => exact inv.setsPriority taken
  | start top regs => exact inv.start taken
  | yield =>
      obtain ⟨inside, taken⟩ := guard_bind_eq_some.mp taken
      have pc : y.regs.pc = .point .thread := by
        rcases inside with ⟨-, pc, -⟩ | ⟨-, pc, -⟩ <;> exact pc
      obtain rfl := Option.some.inj taken
      exact ⟨_, _, inv.yield pc⟩
  | msleep time => exact inv.msleep taken
  | semWait id => exact ⟨_, _, inv.semWait taken⟩
  | semLock =>
      obtain ⟨boot, here⟩ := guard_bind_eq_some.mp taken
      cases pc : y.regs.pc with
      | yield back => simp [pc] at here
      | point here' =>
          cases here' with
          | thread => simp [pc] at here
          | semWait id call inList =>
              obtain ⟨y'', queue', locked, inv'⟩ := inv.semLock boot pc
              obtain rfl := Option.some.inj (locked.symm.trans taken)
              exact ⟨_, _, inv'⟩
  | semPost id =>
      obtain ⟨inside, -⟩ := guard_bind_eq_some.mp taken
      obtain ⟨y'', queue', posted, inv', -⟩ := inv.semPost inside
      obtain rfl := Option.some.inj (posted.symm.trans taken)
      exact ⟨_, _, inv'⟩
  | exit code => exact inv.exit taken
  | ecall mem =>
      cases pc : y.regs.pc with
      | point here => simp [Machine.step, pc] at taken
      | yield back =>
          simp only [Machine.step, pc] at taken
          obtain ⟨threads', inv'⟩ := inv.trap inv.threads.ecallReady
            (by simp [pc, Pc.back]) (fun _ awake => ⟨rfl, awake⟩) taken
          exact ⟨_, _, inv'⟩
  | tick mem => exact inv.tick safe taken

/-- The machine starts with the idle thread alone. -/
theorem initial (value : Nat → Int) (regs : ρ)
    (isLong : ∀ id, IsLong (value id)) :
    MachineInv (Machine.initial value regs) [] (fun _ => []) where
  threads :=
    { sched := SchedInv.initial
      started := by simp [Machine.initial]
      boot_state := by simp [Machine.initial, Sched.initial]
      executing_state := by simp [Machine.initial, Machine.executing]
      point_state := by simp [Machine.initial, Machine.executing]
      saved := by simp [Machine.initial, Sched.initial] }
  sems :=
    { ring := fun _ => initListHead_ring _ _
      listed := by simp
      inside := by simp [Machine.initial, Sched.initial]
      blocked_iff := by simp [Machine.initial, Sched.initial]
      entering := by simp [Machine.initial, Sched.initial]
      selfLinked := by simp [Machine.initial, Sched.initial]
      low := by
        intro id
        exact (isLong id).1
      bound := by simp }

end MachineInv

/-- The invariant holds in every state of a run outside the window. -/
theorem exists_machineInv {value : Nat → Int}
    (isLong : ∀ id, IsLong (value id))
    {ok : Machine ρ → MachineOp ρ → Prop}
    (safe : ∀ y op, ok y op → y.TickSafe op) {y : Machine ρ}
    (reached : (machineLts value).ReachableWhile ok y) :
    ∃ threads queue, MachineInv y threads queue := by
  refine reached.invariant
    (fun y => ∃ threads queue, MachineInv y threads queue) ?_ ?_
  · rintro y ⟨regs, rfl⟩
    exact ⟨_, _, MachineInv.initial value regs isLong⟩
  · rintro y op y' - ⟨threads, queue, inv⟩ fine taken
    exact inv.step (safe y op fine) taken

end Zsbl.Common
