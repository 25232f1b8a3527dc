/-
Module: Zsbl.Proofs.Preempt
Purpose: When interrupts are enabled: as long as no thread leaves its last section
  while another is inside one, exactly when the thread is inside none.
Trusted boundary: none
Main exports:
  Preemptible, Alone, PreemptOk, preemption_nesting, disabled_after_unlock
-/
import Zsbl.Common.Preempt
import Zsbl.Proofs.ContextSwitch

namespace Zsbl.Common

open Zsbl.Lib

/-! ## The properties -/

/-- The thread that executes has interrupts enabled if and only if it holds no
spinlock and is inside no section. -/
def Preemptible (s : Preempt) : Prop :=
  ∀ t, s.machine.executing = some t → (s.mie = true ↔ s.own t = [])

/-- No other thread is inside a section. -/
def Alone (s : Preempt) (t : Nat) : Prop :=
  ∀ entry ∈ s.held, entry.1 = t

/-- A step that takes a thread out of its last section. -/
def LeavesLast (s : Preempt) (t : Nat) : PreemptOp → Prop
  | .disable => False
  | .enable | .unlock _ => (s.own t).length = 1
  | .trylock lock => s.locks lock = true ∧ s.own t = []
  | .machine op => op.HasSection ∧ s.own t = []

/-- No thread leaves its last section while another is inside one, no tick comes
in the window of `sched_msleep`, and there are not 2 ^ 32 sections at a time. -/
def PreemptOk (s : Preempt) (op : PreemptOp) : Prop :=
  (∀ t, s.machine.executing = some t → LeavesLast s t op → Alone s t) ∧
    (∀ call, op = .machine call → s.machine.TickSafe call) ∧ s.held.length < 2 ^ 32

/-! ## Open sections -/

namespace Preempt

theorem own_enter (s : Preempt) (t : Nat) (opened : Section) :
    (s.enter t opened).own t = opened :: s.own t := by
  simp [enter, own]

theorem own_enter_of_ne (s : Preempt) {t u : Nat} (opened : Section) (ne : u ≠ t) :
    (s.enter t opened).own u = s.own u := by
  simp [enter, own, Ne.symm ne]

theorem filter_eraseP_self (held : List (Nat × Section)) (t : Nat) :
    (held.eraseP (·.1 = t)).filter (·.1 = t) = (held.filter (·.1 = t)).tail := by
  induction held with
  | nil => rfl
  | cons entry rest ih =>
      by_cases here : entry.1 = t
      · simp [here]
      · simpa [here] using ih

/-- Leaving a section changes nothing for other threads. -/
theorem filter_eraseP_of_ne (held : List (Nat × Section)) {t u : Nat} (ne : u ≠ t) :
    (held.eraseP (·.1 = t)).filter (·.1 = u) = held.filter (·.1 = u) := by
  induction held with
  | nil => rfl
  | cons entry rest ih =>
      by_cases here : entry.1 = t
      · simp [here, Ne.symm ne]
      · by_cases other : entry.1 = u
        · rw [List.eraseP_cons_of_neg (by simpa using here)]
          simpa [other] using ih
        · simpa [here, other] using ih

theorem own_leave (s : Preempt) (t : Nat) : (s.leave t).own t = (s.own t).tail := by
  simp only [leave, own, filter_eraseP_self, List.map_tail]

theorem own_leave_of_ne (s : Preempt) {t u : Nat} (ne : u ≠ t) :
    (s.leave t).own u = s.own u := by
  simp only [leave, own, filter_eraseP_of_ne s.held ne]

/-- A thread inside a section has an entry, which it takes away. -/
theorem length_leave {s : Preempt} {t : Nat} (inside : s.own t ≠ []) :
    (s.leave t).held.length + 1 = s.held.length := by
  have member : ∃ entry ∈ s.held, entry.1 = t := by
    simpa [own, List.map_eq_nil_iff, List.filter_eq_nil_iff] using inside
  obtain ⟨entry, isHeld, isOwn⟩ := member
  have length := List.length_eraseP_of_mem isHeld (p := (·.1 = t)) (by simpa using isOwn)
  have positive := List.length_pos_of_mem isHeld
  simp only [leave, length]
  omega

theorem own_length_le (s : Preempt) (t : Nat) : (s.own t).length ≤ s.held.length := by
  rw [own, List.length_map]
  exact List.length_filter_le ..

theorem own_length_of_alone {s : Preempt} {t : Nat} (alone : Alone s t) :
    (s.own t).length = s.held.length := by
  have all : s.held.filter (·.1 = t) = s.held := by
    rw [List.filter_eq_self]
    intro entry isHeld
    simpa using alone entry isHeld
  rw [own, List.length_map, all]

/-! ## The counter and the bit -/

theorem toInt_sub_one {n : Nat} (few : n ≤ 2 ^ 32) :
    (BitVec.ofNat 32 n).toInt - 1 = 0 ↔ n = 1 := by
  rw [BitVec.toInt_eq_toNat_cond, BitVec.toNat_ofNat]
  split <;> omega

/-- Leaving a section enables interrupts if it was the only one of all. -/
theorem preemptEnable_mie {s : Preempt} {n : Nat} (count : s.preemptCount = BitVec.ofNat 32 n)
    (few : n ≤ 2 ^ 32) : s.preemptEnable.mie = if n = 1 then true else s.mie := by
  have iff := toInt_sub_one few
  unfold preemptEnable
  rw [count]
  by_cases one : n = 1
  · rw [if_pos (iff.mpr one), if_pos one]
    rfl
  · rw [if_neg (mt iff.mp one), if_neg one]
    rfl

/-- A function that takes and releases a lock leaves interrupts enabled if no
section is open around it. -/
theorem around_mie {s : Preempt} (count : s.preemptCount = BitVec.ofNat 32 s.held.length)
    (few : s.held.length < 2 ^ 32) :
    s.preemptDisable.preemptEnable.mie = true ↔ s.held = [] := by
  have counted : s.preemptDisable.preemptCount = BitVec.ofNat 32 (s.held.length + 1) := by
    rw [BitVec.ofNat_add, ← count]
    rfl
  rw [preemptEnable_mie counted (by omega)]
  have off : s.preemptDisable.mie = false := rfl
  rw [off, ← List.length_eq_zero_iff]
  split <;> simp_all

/-- `sched_preempt_enable` changes the counter and the bit. -/
theorem preemptEnable_eq (s : Preempt) : ∃ mie,
    s.preemptEnable = { s.setMie mie with preemptCount := s.preemptCount - 1 } := by
  by_cases last : s.preemptCount.toInt - 1 = 0
  · exact ⟨true, by simp only [preemptEnable, last, if_true]; rfl⟩
  · exact ⟨s.mie, by simp only [preemptEnable, last, if_false]; rfl⟩

/-- Disabling and enabling again changes the interrupt bit alone. -/
theorem around_eq (s : Preempt) : ∃ mie,
    s.preemptDisable.preemptEnable = s.setMie mie := by
  obtain ⟨mie, eq⟩ := preemptEnable_eq s.preemptDisable
  refine ⟨mie, eq.trans ?_⟩
  have count : s.preemptDisable.preemptCount - 1 = s.preemptCount := by
    show s.preemptCount + 1 - 1 = _
    exact BitVec.add_sub_cancel ..
  rw [count]
  rfl

end Preempt

/-! ## The machine below -/

/-- The interrupt-enable bit does not matter to the threads and semaphores. -/
theorem MachineInv.setMie {s : Preempt} {threads : List Nat} {queue : Nat → List Nat}
    (inv : MachineInv s.machine threads queue) (mie : Bool) :
    MachineInv (s.setMie mie).machine threads queue := by
  cases executing : s.machine.executing with
  | none =>
      have computed := inv.compute s.machine.regs.sp mie (s.machine.stack 0)
      simpa [Machine.compute, executing, Preempt.setMie] using computed
  | some t =>
      have computed := inv.compute s.machine.regs.sp mie (s.machine.stack t)
      simpa [Machine.compute, executing, Preempt.setMie] using computed

/-- What a step that is no trap leaves as it is, and with which bit a new thread
starts. -/
structure Continues (s : Preempt) (y' : Machine Bool) : Prop where
  executing_eq : y'.executing = s.machine.executing
  boot_eq : y'.boot = s.machine.boot
  mie_eq : y'.regs.regs = s.mie
  created_le : s.machine.sched.created ≤ y'.sched.created
  lastTrap_eq : ∀ t, t < s.machine.sched.created → y'.lastTrap t = s.machine.lastTrap t
  fresh : ∀ t, s.machine.sched.created ≤ t → t < y'.sched.created →
    (y'.lastTrap t).regs = (s.mie || s.mpie)

/-- A step that keeps the current thread, the bit and the frames goes on with it. -/
theorem Continues.same {s : Preempt} {y' : Machine Bool}
    (current : y'.sched.current = s.machine.sched.current)
    (created : y'.sched.created = s.machine.sched.created)
    (boot : y'.boot = s.machine.boot) (mie : y'.regs.regs = s.mie)
    (lastTrap : y'.lastTrap = s.machine.lastTrap) : Continues s y' where
  executing_eq := by simp only [Machine.executing, boot, current]
  boot_eq := boot
  mie_eq := mie
  created_le := created.ge
  lastTrap_eq t _ := by rw [lastTrap]
  fresh t late early := by omega

/-- Creating a thread goes on with the one that creates it. -/
theorem Continues.added {s : Preempt} {y' : Machine Bool} {top : Nat}
    (executing : y'.executing = s.machine.executing)
    (created : y'.sched.created = s.machine.sched.created + 1)
    (boot : y'.boot = s.machine.boot) (mie : y'.regs.regs = s.mie)
    (lastTrap : y'.lastTrap = Function.update s.machine.lastTrap s.machine.sched.created
      (Machine.initialFrame top (s.mie || s.mpie))) : Continues s y' where
  executing_eq := executing
  boot_eq := boot
  mie_eq := mie
  created_le := by omega
  lastTrap_eq t early := by rw [lastTrap, Function.update_of_ne (Nat.ne_of_lt early)]
  fresh t late early := by
    obtain rfl : t = s.machine.sched.created := by omega
    rw [lastTrap, Function.update_self]
    rfl

/-- Waiting for a semaphore does not switch by itself. -/
theorem semWaitSection_frame {s s' : Sched Nat} {sem sem' : Sem} {call : Nat}
    {inList done : Bool} (taken : semWaitSection s sem call inList = some (s', sem', done)) :
    s'.current = s.current ∧ s'.created = s.created := by
  unfold semWaitSection at taken
  split at taken
  · split at taken
    · obtain ⟨waitList, -, taken⟩ := Option.bind_eq_some_iff.mp taken
      obtain ⟨rfl, -⟩ := Prod.mk.inj (Option.some.inj taken)
      exact ⟨rfl, rfl⟩
    · obtain ⟨rfl, -⟩ := Prod.mk.inj (Option.some.inj taken)
      exact ⟨rfl, rfl⟩
  · obtain ⟨waitList, -, taken⟩ := Option.bind_eq_some_iff.mp taken
    obtain ⟨rfl, -⟩ := Prod.mk.inj (Option.some.inj taken)
    exact ⟨rfl, rfl⟩

/-- Posting a semaphore does not switch by itself. -/
theorem semPost_frame {s s' : Sched Nat} {sem sem' : Sem} {calls : Nat}
    (taken : semPost s sem calls = some (s', sem')) :
    s'.current = s.current ∧ s'.created = s.created := by
  obtain ⟨nodes, -, taken⟩ := Option.bind_eq_some_iff.mp taken
  dsimp only at taken
  split at taken
  · obtain ⟨rfl, -⟩ := Prod.mk.inj (Option.some.inj taken)
    exact ⟨rfl, rfl⟩
  · obtain ⟨waitList, -, taken⟩ := Option.bind_eq_some_iff.mp taken
    obtain ⟨rfl, -⟩ := Prod.mk.inj (Option.some.inj taken)
    exact ⟨rfl, rfl⟩

/-- Every step but a trap goes on with the same thread. -/
theorem MachineInv.continues {s : Preempt} {threads : List Nat} {queue : Nat → List Nat}
    {op : MachineOp Bool} {y' : Machine Bool} (inv : MachineInv s.machine threads queue)
    (admits : s.Admits op) (notTrap : ¬ op.IsTrap) (taken : s.machine.step op = some y') :
    Continues s y' := by
  cases op with
  | compute sp regs mem =>
      obtain rfl := Option.some.inj taken
      exact .same rfl rfl rfl admits rfl
  | create top regs =>
      obtain rfl : regs = (s.mie || s.mpie) := admits
      obtain ⟨-, taken⟩ := guard_bind_eq_some.mp taken
      obtain ⟨s', created, createdEq, currentEq, -⟩ :=
        threadCreate_spec inv.threads.listed top
      simp only [created, Option.bind_eq_bind, Option.bind_some, Option.pure_def,
        Option.some.injEq] at taken
      subst taken
      exact .added (by simp [Machine.executing, Machine.addThread, currentEq]) createdEq
        rfl rfl rfl
  | setPriority t p =>
      obtain ⟨-, taken⟩ := guard_bind_eq_some.mp taken
      obtain rfl := Option.some.inj taken
      have frame : (threadSetPriority s.machine.sched t p).1.current =
            s.machine.sched.current ∧
          (threadSetPriority s.machine.sched t p).1.created = s.machine.sched.created := by
        unfold threadSetPriority
        split <;> exact ⟨rfl, rfl⟩
      split
      · exact .same frame.1 frame.2 rfl rfl rfl
      · exact .same frame.1 frame.2 rfl rfl rfl
  | start top regs =>
      obtain rfl : regs = (s.mie || s.mpie) := admits
      obtain ⟨⟨boot, -, -⟩, taken⟩ := guard_bind_eq_some.mp taken
      obtain ⟨outcome, result, taken⟩ := Option.bind_eq_some_iff.mp taken
      cases outcome with
      | error err =>
          obtain rfl := Option.some.inj taken
          exact .same rfl rfl rfl rfl rfl
      | ok s' =>
          obtain rfl := Option.some.inj taken
          obtain ⟨createdEq, -⟩ := schedStart_spec inv.threads.listed result
          exact .added (by simp [Machine.executing, Machine.addThread, Machine.goto, boot])
            createdEq rfl rfl rfl
  | yield =>
      obtain ⟨-, taken⟩ := guard_bind_eq_some.mp taken
      obtain rfl := Option.some.inj taken
      exact .same rfl rfl rfl rfl rfl
  | msleep time =>
      obtain ⟨-, taken⟩ := guard_bind_eq_some.mp taken
      obtain ⟨s', slept, taken⟩ := Option.bind_eq_some_iff.mp taken
      obtain rfl := Option.some.inj taken
      have frame : s'.current = s.machine.sched.current ∧
          s'.created = s.machine.sched.created := by
        unfold schedMsleep at slept
        split at slept
        · obtain rfl := Option.some.inj slept
          exact ⟨rfl, rfl⟩
        · obtain ⟨current, -, slept⟩ := Option.bind_eq_some_iff.mp slept
          obtain rfl := Option.some.inj slept
          exact ⟨rfl, rfl⟩
      exact .same frame.1 frame.2 rfl rfl rfl
  | semWait id =>
      obtain ⟨-, taken⟩ := guard_bind_eq_some.mp taken
      obtain ⟨current, -, taken⟩ := Option.bind_eq_some_iff.mp taken
      obtain rfl := Option.some.inj taken
      exact .same rfl rfl rfl rfl rfl
  | semLock =>
      obtain ⟨-, taken⟩ := guard_bind_eq_some.mp taken
      split at taken
      · obtain ⟨⟨s', sem, done⟩, locked, taken⟩ := Option.bind_eq_some_iff.mp taken
        have frame := semWaitSection_frame locked
        cases done with
        | true =>
            obtain rfl := Option.some.inj taken
            exact .same frame.1 frame.2 rfl rfl rfl
        | false =>
            obtain rfl := Option.some.inj taken
            exact .same frame.1 frame.2 rfl rfl rfl
      · simp at taken
  | semPost id =>
      obtain ⟨-, taken⟩ := guard_bind_eq_some.mp taken
      obtain ⟨⟨s', sem⟩, posted, taken⟩ := Option.bind_eq_some_iff.mp taken
      obtain rfl := Option.some.inj taken
      have frame := semPost_frame posted
      exact .same frame.1 frame.2 rfl rfl rfl
  | exit code =>
      obtain ⟨-, taken⟩ := guard_bind_eq_some.mp taken
      obtain ⟨s', ended, taken⟩ := Option.bind_eq_some_iff.mp taken
      obtain rfl := Option.some.inj taken
      obtain ⟨current, -, ended⟩ := Option.bind_eq_some_iff.mp ended
      obtain rfl := Option.some.inj ended
      exact .same rfl rfl rfl rfl rfl
  | ecall mem => exact (notTrap trivial).elim
  | tick mem => exact (notTrap trivial).elim

/-- A trap that leaves the boot code running returns to it. -/
theorem Machine.trap_boot {ρ : Type} {y y' : Machine ρ} {s : Sched Nat}
    {captured : Frame ρ} {mem : Nat → Frame ρ} (done : y.trap s captured mem = some y')
    (boot : y'.boot = true) : y.boot = true ∧ y'.regs = captured := by
  obtain ⟨⟨s', ctx⟩, -, done⟩ := Option.bind_eq_some_iff.mp done
  dsimp only at done
  split at done
  · obtain rfl := Option.some.inj done
    refine ⟨?_, rfl⟩
    have same : (y.storeFrame captured mem).boot = y.boot := by
      unfold Machine.storeFrame
      split <;> rfl
    exact same.symm.trans boot
  · obtain rfl := Option.some.inj done
    simp at boot

/-! ## The invariant -/

/-- The bit of the thread that executes, and the saved bit of every other one,
tells whether the thread is inside a section; the counter counts all sections. -/
structure PreemptInv (s : Preempt) : Prop where
  machine : ∃ threads queue, MachineInv s.machine threads queue
  running : Preemptible s
  waiting : ∀ t, t < s.machine.sched.created → s.machine.executing ≠ some t →
    ((s.machine.lastTrap t).regs = true ↔ s.own t = [])
  count : s.preemptCount = BitVec.ofNat 32 s.held.length
  opened : ∀ entry ∈ s.held, entry.1 < s.machine.sched.created
  boot : s.machine.boot = true → s.mie = true ∧ s.held = []
  dispatched : s.machine.boot = false → s.mpie = true

namespace PreemptInv

variable {s s' : Preempt} {t : Nat}

/-- Nothing is disabled at first. -/
theorem initial {value : Nat → Int} (isLong : ∀ id, IsLong (value id)) (mpie : Bool) :
    PreemptInv (Preempt.initial value mpie) where
  machine := ⟨[], fun _ => [], MachineInv.initial value true isLong⟩
  running t executing := by simp [Preempt.initial, Machine.initial, Machine.executing]
    at executing
  waiting t allocated := by simp [Preempt.initial, Machine.initial, Sched.initial] at allocated
  count := rfl
  opened := by simp [Preempt.initial]
  boot _ := ⟨rfl, rfl⟩
  dispatched boot := by simp [Preempt.initial, Machine.initial] at boot

theorem allocated (inv : PreemptInv s) (executing : s.machine.executing = some t) :
    t < s.machine.sched.created := by
  obtain ⟨threads, queue, machine⟩ := inv.machine
  have isCurrent := (ThreadsInv.executing_some executing).2
  exact machine.threads.listed.allocated t
    (machine.threads.sched.current_listed t isCurrent)

/-- Only the boot code is no thread. -/
theorem boot_of_none (inv : PreemptInv s) (executing : s.machine.executing = none) :
    s.machine.boot = true := by
  obtain ⟨threads, queue, machine⟩ := inv.machine
  by_contra notBoot
  have started := machine.threads.started (by simpa using notBoot)
  rw [machine.threads.current_isSome] at started
  have isCurrent : s.machine.sched.current = none := by
    simpa [Machine.executing, notBoot] using executing
  simp [isCurrent] at started

/-- A step of a thread that changes its bit, the counter and its own sections. -/
theorem inner (inv : PreemptInv s) (executing : s.machine.executing = some t) (mie : Bool)
    (machineEq : s'.machine = (s.setMie mie).machine) (mpieEq : s'.mpie = s.mpie)
    (running : mie = true ↔ s'.own t = []) (others : ∀ u, u ≠ t → s'.own u = s.own u)
    (count : s'.preemptCount = BitVec.ofNat 32 s'.held.length)
    (opened : ∀ entry ∈ s'.held, entry ∈ s.held ∨ entry.1 = t) : PreemptInv s' := by
  have same : s'.machine.executing = s.machine.executing := by
    rw [machineEq]
    rfl
  have started := (ThreadsInv.executing_some executing).1
  refine ⟨?_, ?_, ?_, count, ?_, ?_, ?_⟩
  · obtain ⟨threads, queue, machine⟩ := inv.machine
    rw [machineEq]
    exact ⟨threads, queue, machine.setMie mie⟩
  · intro u isU
    rw [same, executing] at isU
    obtain rfl := Option.some.inj isU
    rw [Preempt.mie, machineEq]
    exact running
  · intro u isThread away
    rw [same] at away
    have ne : u ≠ t := by
      rintro rfl
      exact away executing
    rw [others u ne, machineEq]
    rw [machineEq] at isThread
    exact inv.waiting u isThread away
  · intro entry isHeld
    rw [machineEq]
    rcases opened entry isHeld with before | isOwn
    · exact inv.opened entry before
    · rw [isOwn]
      exact inv.allocated executing
  · intro boot
    rw [machineEq] at boot
    exact absurd (started.symm.trans boot) Bool.false_ne_true
  · intro _
    rw [mpieEq]
    exact inv.dispatched started

/-- A thread enters a section. -/
theorem enter (inv : PreemptInv s) (executing : s.machine.executing = some t)
    (opened : Section) (locks : Nat → Bool) :
    PreemptInv ({ s.preemptDisable with locks := locks }.enter t opened) := by
  refine inv.inner executing false rfl rfl ?_ ?_ ?_ ?_
  · rw [Preempt.own_enter]
    simp
  · intro u ne
    exact Preempt.own_enter_of_ne _ opened ne
  · show s.preemptCount + 1 = _
    rw [inv.count]
    exact (BitVec.ofNat_add ..).symm
  · intro entry isHeld
    rcases List.mem_cons.mp isHeld with rfl | before
    · exact .inr rfl
    · exact .inl before

/-- A thread leaves its innermost section. -/
theorem leave (inv : PreemptInv s) (executing : s.machine.executing = some t)
    (inside : s.own t ≠ []) (alone : (s.own t).length = 1 → Alone s t)
    (few : s.held.length < 2 ^ 32) (locks : Nat → Bool) :
    PreemptInv (Preempt.leave (Preempt.preemptEnable { s with locks := locks }) t) := by
  have off : s.mie = false := by
    have iff := inv.running t executing
    cases mie : s.mie with
    | false => rfl
    | true => exact (inside (iff.mp mie)).elim
  have mie := Preempt.preemptEnable_mie (s := { s with locks := locks }) inv.count
    (Nat.le_of_lt few)
  obtain ⟨bit, enabled⟩ := Preempt.preemptEnable_eq { s with locks := locks }
  rw [enabled] at mie ⊢
  have length := Preempt.length_leave inside
  have own := Preempt.own_length_le s t
  have positive := List.length_pos_iff.mpr inside
  refine inv.inner executing bit rfl rfl ?_ ?_ ?_ ?_
  · rw [Preempt.own_leave, ← List.length_eq_zero_iff, List.length_tail]
    have bitEq : bit = if s.held.length = 1 then true else s.mie := mie
    rw [bitEq, off]
    by_cases last : (s.own t).length = 1
    · have all := Preempt.own_length_of_alone (alone last)
      rw [if_pos (by omega)]
      simpa using by show (s.own t).length - 1 = 0; omega
    · have many : s.held.length ≠ 1 := by omega
      rw [if_neg many]
      simpa using by show (s.own t).length - 1 ≠ 0; omega
  · intro u ne
    exact Preempt.own_leave_of_ne _ ne
  · show s.preemptCount - 1 = BitVec.ofNat 32 (s.leave t).held.length
    rw [inv.count, ← length, BitVec.ofNat_add]
    exact BitVec.add_sub_cancel ..
  · intro entry isHeld
    exact .inl (List.mem_of_mem_eraseP isHeld)

/-- A function takes a lock and releases it. -/
theorem around (inv : PreemptInv s)
    (alone : ∀ t, s.machine.executing = some t → s.own t = [] → Alone s t)
    (few : s.held.length < 2 ^ 32) : PreemptInv s.preemptDisable.preemptEnable := by
  have mie := Preempt.around_mie inv.count few
  obtain ⟨bit, cancelled⟩ := Preempt.around_eq s
  rw [cancelled] at mie ⊢
  have bitEq : bit = true ↔ s.held = [] := mie
  cases executing : s.machine.executing with
  | some t =>
      refine inv.inner executing bit rfl rfl ?_ (fun _ _ => rfl) inv.count
        (fun entry isHeld => .inl isHeld)
      rw [bitEq]
      constructor
      · intro none
        show (s.held.filter _).map _ = []
        simp [none]
      · intro outside
        have all := Preempt.own_length_of_alone (alone t executing outside)
        have own : s.own t = [] := outside
        rw [own] at all
        exact List.length_eq_zero_iff.mp all.symm
  | none =>
      have boot := inv.boot_of_none executing
      have same : bit = s.mie := by
        rw [(inv.boot boot).1]
        exact bitEq.mpr (inv.boot boot).2
      rw [same]
      exact inv

/-- A step of the machine below that is no trap. -/
theorem continues (inv : PreemptInv s) {op : MachineOp Bool} {y' : Machine Bool}
    (admits : s.Admits op) (notTrap : ¬ op.IsTrap) (safe : s.machine.TickSafe op)
    (taken : s.machine.step op = some y') : PreemptInv { s with machine := y' } := by
  obtain ⟨threads, queue, machine⟩ := inv.machine
  have frame := machine.continues admits notTrap taken
  have enabled : (s.mie || s.mpie) = true := by
    cases boot : s.machine.boot with
    | true => simp [(inv.boot boot).1]
    | false => simp [inv.dispatched boot]
  refine ⟨machine.step safe taken |>.imp fun _ => id, ?_, ?_, inv.count, ?_, ?_, ?_⟩
  · intro t executing
    rw [frame.executing_eq] at executing
    show y'.regs.regs = true ↔ _
    rw [frame.mie_eq]
    exact inv.running t executing
  · intro t allocated away
    rw [frame.executing_eq] at away
    show (y'.lastTrap t).regs = true ↔ _
    by_cases old : t < s.machine.sched.created
    · rw [frame.lastTrap_eq t old]
      exact inv.waiting t old away
    · rw [frame.fresh t (Nat.le_of_not_lt old) allocated, enabled]
      have outside : s.own t = [] := by
        rw [Preempt.own, List.map_eq_nil_iff, List.filter_eq_nil_iff]
        intro entry isHeld isOwn
        have isThread := inv.opened entry isHeld
        simp only [decide_eq_true_eq] at isOwn
        omega
      exact iff_of_true rfl outside
  · intro entry isHeld
    exact Nat.lt_of_lt_of_le (inv.opened entry isHeld) frame.created_le
  · intro boot
    obtain ⟨mie, none⟩ := inv.boot (frame.boot_eq.symm.trans boot)
    exact ⟨frame.mie_eq.trans mie, none⟩
  · intro boot
    exact inv.dispatched (frame.boot_eq.symm.trans boot)

/-- A trap saves the bit with the frame and resumes a thread with its own. -/
theorem trap (inv : PreemptInv s) {op : MachineOp Bool} {y' : Machine Bool}
    (isTrap : op.IsTrap) (safe : s.machine.TickSafe op)
    (taken : s.machine.step op = some y') :
    PreemptInv { s with machine := y', mpie := true } := by
  obtain ⟨threads, queue, machine⟩ := inv.machine
  obtain ⟨sched, mem, ready, done⟩ := machine.trapped safe isTrap taken
  obtain ⟨y'', threads', trapped, threadsInv, spec⟩ :=
    machine.threads.trap_spec ready (s.machine.captured op) mem
  obtain rfl := Option.some.inj (trapped.symm.trans done)
  have mie : (s.machine.captured op).regs = s.mie := by
    cases op <;> rfl
  have saved : ∀ t, t < s.machine.sched.created →
      ((y''.lastTrap t).regs = true ↔ s.own t = []) := by
    intro t allocated
    rw [spec.lastTrap_eq]
    split
    · rename_i executing
      rw [mie]
      exact inv.running t executing
    · rename_i away
      exact inv.waiting t allocated away
  refine ⟨machine.step safe taken |>.imp fun _ => id, ?_, ?_, inv.count, ?_, ?_,
    fun _ => rfl⟩
  · intro t executing
    show y''.regs.regs = true ↔ _
    rw [spec.resumed t executing]
    apply saved
    have isCurrent := (ThreadsInv.executing_some executing).2
    have allocated := threadsInv.listed.allocated t
      (threadsInv.sched.current_listed t isCurrent)
    exact spec.created_eq ▸ allocated
  · intro t allocated _
    exact saved t (spec.created_eq ▸ allocated)
  · intro entry isHeld
    show entry.1 < y''.sched.created
    rw [spec.created_eq]
    exact inv.opened entry isHeld
  · intro boot
    obtain ⟨before, regs⟩ := Machine.trap_boot done boot
    obtain ⟨on, none⟩ := inv.boot before
    refine ⟨?_, none⟩
    show y''.regs.regs = true
    rw [regs, mie, on]

/-- A step of the machine leaves the sections of every thread as they are. -/
theorem machine_step (inv : PreemptInv s) {op : MachineOp Bool}
    (ok : PreemptOk s (.machine op)) (taken : s.step (.machine op) = some s') :
    PreemptInv s' := by
  obtain ⟨alone, safe, few⟩ := ok
  obtain ⟨admits, taken⟩ := guard_bind_eq_some.mp taken
  obtain ⟨y', stepped, taken⟩ := Option.bind_eq_some_iff.mp taken
  have isSafe := safe op rfl
  by_cases isTrap : op.IsTrap
  · have noSection : ¬ op.HasSection := by
      cases op <;> simp_all [MachineOp.IsTrap, MachineOp.HasSection]
    simp only [noSection, if_false, isTrap, decide_true, Bool.or_true, Option.pure_def,
      Option.some.injEq] at taken
    subst taken
    exact inv.trap isTrap isSafe stepped
  · have next := inv.continues admits isTrap isSafe stepped
    simp only [isTrap, decide_false, Bool.or_false, Option.pure_def,
      Option.some.injEq] at taken
    by_cases hasSection : op.HasSection
    · rw [if_pos hasSection] at taken
      subst taken
      apply next.around _ few
      intro t executing outside
      obtain ⟨threads, queue, machine⟩ := inv.machine
      have same := (machine.continues admits isTrap stepped).executing_eq
      exact alone t (same.symm.trans executing) ⟨hasSection, outside⟩
    · rw [if_neg hasSection] at taken
      subst taken
      exact next

/-- A step of the thread that executes, on its own sections. -/
theorem step (inv : PreemptInv s) {op : PreemptOp} (ok : PreemptOk s op)
    (taken : s.step op = some s') : PreemptInv s' := by
  have few := ok.2.2
  cases op with
  | disable =>
      obtain ⟨-, taken⟩ := guard_bind_eq_some.mp taken
      obtain ⟨t, executing, taken⟩ := Option.bind_eq_some_iff.mp taken
      obtain rfl := Option.some.inj taken
      exact inv.enter executing .preempt s.locks
  | enable =>
      obtain ⟨-, taken⟩ := guard_bind_eq_some.mp taken
      obtain ⟨t, executing, taken⟩ := Option.bind_eq_some_iff.mp taken
      obtain ⟨innermost, taken⟩ := guard_bind_eq_some.mp taken
      obtain rfl := Option.some.inj taken
      have inside : s.own t ≠ [] := by
        intro outside
        simp [outside] at innermost
      exact inv.leave executing inside (fun last => ok.1 t executing last) few s.locks
  | trylock lock =>
      obtain ⟨-, taken⟩ := guard_bind_eq_some.mp taken
      obtain ⟨t, executing, taken⟩ := Option.bind_eq_some_iff.mp taken
      by_cases free : s.locks lock = false
      · have locked : s.spinTrylock lock =
            ({ s.preemptDisable with locks := Function.update s.locks lock true }, true) := by
          simp [Preempt.spinTrylock, Preempt.preemptDisable, Preempt.setMie, free]
        rw [locked] at taken
        obtain rfl := Option.some.inj taken
        exact inv.enter executing (.lock lock) _
      · have failed : s.spinTrylock lock = (s.preemptDisable.preemptEnable, false) := by
          simp [Preempt.spinTrylock, Preempt.preemptDisable, Preempt.setMie, free]
        rw [failed] at taken
        obtain rfl := Option.some.inj taken
        apply inv.around _ few
        intro u isU outside
        exact ok.1 u isU ⟨by simpa using free, outside⟩
  | unlock lock =>
      obtain ⟨-, taken⟩ := guard_bind_eq_some.mp taken
      obtain ⟨t, executing, taken⟩ := Option.bind_eq_some_iff.mp taken
      obtain ⟨innermost, taken⟩ := guard_bind_eq_some.mp taken
      obtain rfl := Option.some.inj taken
      have inside : s.own t ≠ [] := by
        intro outside
        simp [outside] at innermost
      exact inv.leave executing inside (fun last => ok.1 t executing last) few _
  | machine op => exact inv.machine_step ok taken

theorem reachable {value : Nat → Int} (isLong : ∀ id, IsLong (value id))
    (reached : (preemptLts value).ReachableWhile PreemptOk s) : PreemptInv s := by
  apply reached.invariant PreemptInv
  · rintro s ⟨mpie, rfl⟩
    exact .initial isLong mpie
  · intro s op s' _ inv ok taken
    exact inv.step ok taken

end PreemptInv

/-- In every run in which no thread leaves its last section while another is inside
one, interrupts are enabled exactly while the thread that executes is inside no
section. -/
theorem preemption_nesting {value : Nat → Int} (isLong : ∀ id, IsLong (value id))
    {s : Preempt} (reached : (preemptLts value).ReachableWhile PreemptOk s) :
    Preemptible s :=
  (PreemptInv.reachable isLong reached).running

/-! ## Two threads -/

/-- The first of two threads yields inside a section. -/
def yieldInside : List PreemptOp :=
  [.machine (.create 100 true), .machine (.create 200 true), .machine (.start 300 true),
    .machine (.ecall fun _ => Machine.initialFrame 0 true), .disable, .machine .yield,
    .machine (.ecall fun _ => Machine.initialFrame 0 true)]

theorem PreemptOk.of_boot {s : Preempt} {op : MachineOp Bool}
    (boot : s.machine.boot = true) (safe : s.machine.TickSafe op)
    (few : s.held.length < 2 ^ 32) : PreemptOk s (.machine op) := by
  refine ⟨fun t executing _ => ?_, ?_, few⟩
  · simp [ThreadsInv.executing_boot boot] at executing
  · rintro call eq
    obtain rfl := PreemptOp.machine.inj eq
    exact safe

theorem PreemptOk.of_call {s : Preempt} {op : MachineOp Bool}
    (noSection : ¬ op.HasSection) (safe : s.machine.TickSafe op)
    (few : s.held.length < 2 ^ 32) : PreemptOk s (.machine op) := by
  refine ⟨fun t _ leaves => (noSection leaves.1).elim, ?_, few⟩
  rintro call eq
  obtain rfl := PreemptOp.machine.inj eq
  exact safe

theorem PreemptOk.of_disable {s : Preempt} (few : s.held.length < 2 ^ 32) :
    PreemptOk s .disable := by
  refine ⟨fun _ _ leaves => leaves.elim, ?_, few⟩
  intro call eq
  cases eq

/-- The run with a yield inside of a section meets the condition. -/
theorem yieldInside_ok :
    RunsOk Preempt.step PreemptOk (Preempt.initial (fun _ => 0) true) yieldInside := by
  refine ⟨.of_boot rfl trivial (by decide), fun s taken => ?_⟩
  obtain rfl := Option.some.inj taken
  refine ⟨.of_boot rfl trivial (by decide), fun s taken => ?_⟩
  obtain rfl := Option.some.inj taken
  refine ⟨.of_boot rfl trivial (by decide), fun s taken => ?_⟩
  obtain rfl := Option.some.inj taken
  refine ⟨.of_boot rfl trivial (by decide), fun s taken => ?_⟩
  obtain rfl := Option.some.inj taken
  refine ⟨.of_disable (by decide), fun s taken => ?_⟩
  obtain rfl := Option.some.inj taken
  refine ⟨.of_call (by decide) trivial (by decide), fun s taken => ?_⟩
  obtain rfl := Option.some.inj taken
  exact ⟨.of_call (by decide) trivial (by decide), fun _ _ => trivial⟩

/-- The second thread runs with interrupts enabled, beside the section of the
first. -/
theorem preemption_nesting_yieldInside :
    ∃ s, runSteps Preempt.step (Preempt.initial (fun _ => 0) true) yieldInside = some s ∧
      s.machine.executing = some 1 ∧ s.mie = true ∧ s.held ≠ [] ∧ Preemptible s := by
  have start : (preemptLts fun _ => 0).ReachableWhile PreemptOk
      (Preempt.initial (fun _ => 0) true) := .initial ⟨true, rfl⟩
  refine ⟨_, rfl, by decide, by decide, by decide, ?_⟩
  exact preemption_nesting (fun _ => ⟨by decide, by decide⟩)
    (start.runSteps (fun _ _ _ => id) yieldInside_ok (rfl : _ = some _))

/-- The second thread enters a section and leaves it again: its interrupts stay
disabled. -/
theorem disabled_after_unlock :
    ¬ ∀ s, (preemptLts fun _ => 0).Reachable s → Preemptible s := by
  intro preemptible
  have start : (preemptLts fun _ => 0).Reachable (Preempt.initial (fun _ => 0) true) :=
    .initial ⟨true, rfl⟩
  have reached : (preemptLts fun _ => 0).Reachable _ :=
    start.runSteps (fun _ _ _ => id) (.of_forall (fun _ _ _ => trivial) _)
      (rfl : runSteps Preempt.step _ (yieldInside ++ [.disable, .enable]) = some _)
  have enabled := (preemptible _ reached 1 (by decide)).mpr (by decide)
  revert enabled
  decide

end Zsbl.Common
