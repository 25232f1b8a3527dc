/-
Module: Zsbl.Proofs.SchedSelection
Purpose: Which thread runs next in a started scheduler, what becomes of a dead
  thread, and the round robin among the threads of greatest priority.
Trusted boundary: none
Main exports:
  Sched.top, Selection, schedThread_selects
-/
import Zsbl.Proofs.SchedInvariant

namespace Zsbl.Common

open Zsbl.Lib Zsbl.Include

variable {ρ : Type}

/-! ## The threads of greatest priority -/

/-- A thread that can run and has the greatest priority among those on the list
that can. -/
def Sched.top (s : Sched ρ) (threads : List Nat) (t : Nat) : Bool :=
  s.eligible t && threads.all fun other =>
    !s.eligible other || decide ((s.thread other).priority ≤ (s.thread t).priority)

theorem Sched.top_iff {s : Sched ρ} {threads : List Nat} {t : Nat} :
    s.top threads t = true ↔ s.eligible t ∧ ∀ other ∈ threads,
      s.eligible other → (s.thread other).priority ≤ (s.thread t).priority := by
  simp only [Sched.top, Bool.and_eq_true, List.all_eq_true, Bool.or_eq_true,
    Bool.not_eq_true', decide_eq_true_eq]
  refine and_congr_right fun _ => forall₂_congr fun other _ => ?_
  cases s.eligible other <;> simp

/-- The selected thread leads the threads of greatest priority. -/
theorem filter_top_eq_cons {s : Sched ρ} {threads : List Nat} {c selected : Nat}
    (first : IsFirstMax s.eligible (fun t => (s.thread t).priority)
      (cycleAfter c threads) selected) :
    ∃ rest, (cycleAfter c threads).filter (s.top threads) = selected :: rest := by
  have inside : selected ∈ threads := mem_cycleAfter.mp first.mem
  have isTop : s.top threads selected := Sched.top_iff.mpr
    ⟨first.eligible_best, fun other member =>
      first.key_le (mem_cycleAfter.mpr member)⟩
  obtain ⟨before, after, split, -, smaller, -⟩ := first
  refine ⟨after.filter (s.top threads), ?_⟩
  have skipped : before.filter (s.top threads) = [] := by
    refine List.filter_eq_nil_iff.mpr fun other member top => ?_
    obtain ⟨fine, greatest⟩ := Sched.top_iff.mp top
    have low := smaller other member fine
    have high := greatest selected inside (Sched.top_iff.mp isTop).1
    exact absurd low (not_lt.mpr high)
  rw [split, List.filter_append, skipped, List.filter_cons_of_pos isTop,
    List.nil_append]

namespace SchedThreadSpec

variable {s s' : Sched ρ} {ctx frame : ρ} {c selected : Nat}

/-- Whether a thread can run does not change. -/
theorem eligible_eq (spec : SchedThreadSpec s ctx c selected s' frame)
    (fine : s.eligible selected) (t : Nat) : s'.eligible t = s.eligible t := by
  have ready := (s.eligible_iff selected).mp fine
  rw [Bool.eq_iff_iff, s'.eligible_iff, s.eligible_iff, spec.state_eq]
  by_cases same : t = selected
  · subst same
    simpa using ready
  · simp only [same, if_false]
    split
    · rename_i running
      simp [running.2]
    · rfl

/-- A thread that cannot run stays as it is, and no thread becomes one. -/
theorem parked_iff (spec : SchedThreadSpec s ctx c selected s' frame)
    (fine : s.eligible selected) {parked : ThreadState}
    (notReady : parked ≠ .runnable) (notRunning : parked ≠ .running) (t : Nat) :
    (s'.thread t).state = parked ↔ (s.thread t).state = parked := by
  have ready := (s.eligible_iff selected).mp fine
  rw [spec.state_eq]
  split
  · rename_i isSelected
    subst isSelected
    rcases ready with state | state <;>
      simp [state, notReady.symm, notRunning.symm]
  · split
    · rename_i running
      simp [running.2, notReady.symm, notRunning.symm]
    · rfl

/-- The threads of greatest priority stay the same, also when a dead thread
leaves the list. -/
theorem top_eq (spec : SchedThreadSpec s ctx c selected s' frame)
    (fine : s.eligible selected) {threads threads' : List Nat}
    (same : ∀ t, s.eligible t → (t ∈ threads' ↔ t ∈ threads)) :
    s'.top threads' = s.top threads := by
  funext t
  rw [Bool.eq_iff_iff, Sched.top_iff, Sched.top_iff]
  simp only [spec.eligible_eq fine, spec.priority_eq]
  refine and_congr_right fun _ => forall_congr' fun other => ?_
  constructor
  · exact fun greatest member ready =>
      greatest ((same other ready).mpr member) ready
  · exact fun greatest member ready =>
      greatest ((same other ready).mp member) ready

end SchedThreadSpec

namespace SchedInv

variable {y : SchedSystem ρ} {threads : List Nat} {c : Nat}

/-- One call of `sched_thread` picks the head of the round robin and moves it
to the end. -/
theorem round_robin_step (inv : SchedInv y threads)
    (isCurrent : y.sched.current = some c) (ctx : ρ) :
    ∃ s frame selected rest threads',
      schedThread y.sched ctx = some (s, frame) ∧
      s.current = some selected ∧
      SchedInv { y with sched := s } threads' ∧
      (cycleAfter c threads).filter (y.sched.top threads) = selected :: rest ∧
      (cycleAfter selected threads').filter (s.top threads') =
        rest ++ [selected] := by
  obtain ⟨s, frame, selected, called, first, spec, -⟩ :=
    inv.scheduled isCurrent ctx
  obtain ⟨inv', -⟩ := inv.schedule called
  obtain ⟨rest, leads⟩ := filter_top_eq_cons first
  refine ⟨s, frame, selected, rest, _, called, spec.current_eq, inv', leads, ?_⟩
  have ready := first.eligible_best
  have member : selected ∈ threads := mem_cycleAfter.mp first.mem
  have isTop : y.sched.top threads selected :=
    (List.mem_filter.mp (leads ▸ List.mem_cons_self)).2
  have live : ∀ t, y.sched.eligible t → (y.sched.thread t).state ≠ .dead := by
    intro t fine
    rcases (y.sched.eligible_iff t).mp fine with state | state <;> simp [state]
  rw [spec.top_eq ready fun t fine =>
    ⟨fun inside => afterSchedule_subset inside,
      fun inside => mem_afterSchedule inside (live t fine)⟩]
  have moved := filter_cycleAfter_head inv.listed.nodup leads
  simp only [afterSchedule, isCurrent]
  split
  · rename_i dead
    rw [filter_cycleAfter_erase inv.listed.nodup member isTop, moved]
    exact fun top => live c (Sched.top_iff.mp top).1 dead
  · exact moved

/-- As many calls as there are threads of greatest priority pick these threads
in their cyclic order. -/
theorem round_robin {todo : List Nat} :
    ∀ {y : SchedSystem ρ} {threads done : List Nat} {c : Nat},
      SchedInv y threads → y.sched.current = some c →
      (cycleAfter c threads).filter (y.sched.top threads) = todo ++ done →
      ∀ ctxs : List ρ, ctxs.length = todo.length →
        ∃ s, schedCalls y.sched ctxs = some (s, todo) := by
  induction todo with
  | nil =>
      intro y threads done c inv isCurrent order ctxs size
      obtain rfl := List.eq_nil_of_length_eq_zero size
      exact ⟨y.sched, rfl⟩
  | cons next todo ih =>
      intro y threads done c inv isCurrent order ctxs size
      obtain ⟨ctx, ctxs, rfl⟩ := List.exists_cons_of_length_eq_add_one size
      obtain ⟨s, frame, selected, rest, threads', called, selectedCurrent,
        inv', leads, moved⟩ := inv.round_robin_step isCurrent ctx
      obtain ⟨rfl, rfl⟩ : selected = next ∧ rest = todo ++ done := by
        simpa using leads.symm.trans order
      obtain ⟨last, later⟩ := ih inv' selectedCurrent
        (by simpa using moved) ctxs (by simpa using size)
      refine ⟨last, ?_⟩
      simp only [schedCalls, called, later, selectedCurrent,
        Option.bind_eq_bind, Option.bind_some, Option.pure_def,
        Option.toList_some, List.singleton_append]

/-- After a call of `sched_thread` the selected thread is the running one. -/
theorem running_iff (inv : SchedInv y threads) {s : Sched ρ} {ctx frame : ρ}
    {selected : Nat} (called : schedThread y.sched ctx = some (s, frame))
    (spec : SchedThreadSpec y.sched ctx c selected s frame) :
    ∀ t, t < s.created → ((s.thread t).state = .running ↔ t = selected) := by
  intro t allocated
  obtain ⟨inv', -⟩ := inv.schedule called
  constructor
  · intro running
    have isCurrent := (inv'.threadOk t allocated).running_current running
    simpa [spec.current_eq, eq_comm] using isCurrent
  · rintro rfl
    simp [spec.state_eq]

/-- A thread that is off the list stays off it, so it is never current
again. -/
theorem gone (inv : SchedInv y threads) {t : Nat} (off : t ∉ threads)
    (allocated : t < y.sched.created) [Inhabited ρ] {y' : SchedSystem ρ}
    (run : schedLts.Run (fun _ _ => True) y y') :
    ∃ threads', SchedInv y' threads' ∧ t ∉ threads' := by
  have invariant := run.invariant
    (fun y => ∃ threads, SchedInv y threads ∧ t ∉ threads ∧
      t < y.sched.created) ?_ ⟨threads, inv, off, allocated⟩
  · obtain ⟨threads', inv', off', -⟩ := invariant
    exact ⟨threads', inv', off'⟩
  · rintro y op y' ⟨threads, inv, off, allocated⟩ - taken
    obtain ⟨threads', inv', grown, old⟩ := inv.step taken
    exact ⟨threads', inv', fun inside => off (old t allocated inside),
      allocated.trans_le grown⟩

end SchedInv

/-- The thread list of a state is determined by its links. -/
theorem Listed.unique {s : Sched ρ} {threads threads' : List Nat}
    (listed : Listed s threads) (listed' : Listed s threads') :
    threads = threads' := by
  have enough : ∀ {threads}, Listed s threads →
      (threads.map ThreadNode.thread).length < s.listFuel := by
    intro threads listed
    have := listed.length_le
    simp only [List.length_map, Sched.listFuel]
    omega
  have same := (listForEach_ring listed.ring (enough listed)).symm.trans
    (listForEach_ring listed'.ring (enough listed'))
  have inj : Function.Injective ThreadNode.thread := fun _ _ => by simp
  exact List.map_injective_iff.mpr inj (Option.some.inj same)

/-! ## The selection in every reachable state -/

/-- What one call of `sched_thread` does when the list holds `threads` and
`current` is the current thread. -/
structure Selection [Inhabited ρ] (y : SchedSystem ρ) (threads : List Nat)
    (current selected : Nat) (s' : Sched ρ) : Prop where
  current_eq : s'.current = some selected
  first_max : IsFirstMax y.sched.eligible (fun t => (y.sched.thread t).priority)
    (cycleAfter current threads) selected
  running_iff : ∀ t, t < s'.created →
    ((s'.thread t).state = .running ↔ t = selected)
  listed : Listed s' (if (y.sched.thread current).state = .dead
    then threads.erase current else threads)
  dead_gone : (y.sched.thread current).state = .dead →
    ∀ y', schedLts.Run (fun _ _ => True) { y with sched := s' } y' →
      y'.sched.current ≠ some current ∧
        ∀ later, Listed y'.sched later → current ∉ later

/-- In every started state the thread list holds every live thread once,
`sched_thread` finds its next thread, and as many calls as there are threads of
greatest priority select each of these once. -/
theorem schedThread_selects [Inhabited ρ] {y : SchedSystem ρ}
    (reached : schedLts.Reachable y) (started : y.idle.isSome) :
    ∃ threads current, Listed y.sched threads ∧ threads.Nodup ∧
      y.sched.current = some current ∧ current ∈ threads ∧
      (∀ t, t < y.sched.created → (y.sched.thread t).state ≠ .dead →
        t ∈ threads) ∧
      (∀ ctx, ∃ s' frame selected, schedThread y.sched ctx = some (s', frame) ∧
        Selection y threads current selected s') ∧
      ∀ ctxs : List ρ,
        ctxs.length = (threads.filter (y.sched.top threads)).length →
        ∃ last picks, schedCalls y.sched ctxs = some (last, picks) ∧
          picks.Perm (threads.filter (y.sched.top threads)) := by
  obtain ⟨threads, inv⟩ := exists_schedInv reached
  obtain ⟨c, isCurrent, member⟩ := inv.exists_current started
  refine ⟨threads, c, inv.listed, inv.listed.nodup, isCurrent, member,
    fun t allocated => (inv.threadOk t allocated).live_listed, ?_, ?_⟩
  · intro ctx
    obtain ⟨s', frame, selected, called, first, spec, listed⟩ :=
      inv.scheduled isCurrent ctx
    obtain ⟨inv', createdEq⟩ := inv.schedule called
    refine ⟨s', frame, selected, called, spec.current_eq, first,
      inv.running_iff called spec, by simpa [afterSchedule, isCurrent] using listed,
      ?_⟩
    intro dead y' run
    have off : c ∉ afterSchedule y.sched threads := by
      simp only [afterSchedule, isCurrent, dead, if_true]
      exact inv.listed.nodup.not_mem_erase
    have allocated : c < s'.created :=
      createdEq ▸ inv.listed.allocated c member
    obtain ⟨later, invLater, offLater⟩ := inv'.gone off allocated run
    exact ⟨fun again => offLater (invLater.current_listed c again),
      fun other listed => invLater.listed.unique listed ▸ offLater⟩
  · intro ctxs size
    have order : ((cycleAfter c threads).filter (y.sched.top threads)).Perm
        (threads.filter (y.sched.top threads)) := cycleAfter_perm.filter _
    obtain ⟨last, called⟩ := inv.round_robin isCurrent
      (List.append_nil _).symm ctxs (size.trans order.length_eq.symm)
    exact ⟨last, _, called, order⟩

/-- One thread has been created. -/
def oneCreated : Sched Nat :=
  ((threadCreate Sched.initial 1).get rfl).1

/-- The scheduler has been started with that thread. -/
def oneStarted : Sched Nat :=
  ((threadCreate oneCreated 2).get rfl).1.setThread 1
    (fun thread => { thread with priority := 0 }) |>
  fun s => { s with current := some 1 }

/-- The scheduler is started with one thread of its own. -/
theorem oneStarted_reachable :
    schedLts.Reachable { sched := oneStarted, idle := some 1 } := by
  have created : schedLts.Reachable { sched := oneCreated, idle := none } := by
    refine Lts.ReachableWhile.step (Lts.ReachableWhile.initial ?_) trivial
      (SchedStep.create (y := SchedSystem.initial) 1 0 ?_)
    · rfl
    · rfl
  exact created.step trivial
    (SchedStep.start (y := { sched := oneCreated, idle := none }) 2 rfl rfl)

/-- After one thread and the idle thread have started, a single call selects
the former. -/
theorem schedThread_selects_oneStarted :
    ∃ threads current, Listed oneStarted threads ∧ threads.Nodup ∧
      oneStarted.current = some current ∧ current ∈ threads ∧
      (∀ t, t < oneStarted.created → (oneStarted.thread t).state ≠ .dead →
        t ∈ threads) ∧
      (∀ ctx, ∃ s' frame selected, schedThread oneStarted ctx = some (s', frame) ∧
        Selection { sched := oneStarted, idle := some 1 } threads current
          selected s') ∧
      ∀ ctxs : List Nat,
        ctxs.length = (threads.filter (oneStarted.top threads)).length →
        ∃ last picks, schedCalls oneStarted ctxs = some (last, picks) ∧
          picks.Perm (threads.filter (oneStarted.top threads)) :=
  schedThread_selects oneStarted_reachable rfl

end Zsbl.Common
