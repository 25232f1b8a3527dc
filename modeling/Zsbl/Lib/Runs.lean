/-
Module: Zsbl.Lib.Runs
Purpose: Labelled transition systems, the states their runs reach when every
  step meets a condition, and the induction rule over such runs.
Trusted boundary: none
Main exports:
  Lts, Lts.Run, Lts.ReachableWhile, Lts.Run.invariant,
  Lts.ReachableWhile.invariant, Lts.counting, Lts.recording, runSteps,
  Lts.ReachableWhile.runSteps, outputs, outputs_simulates
-/
import Mathlib.Logic.Relation

namespace Zsbl.Lib

/-- A labelled transition system. -/
structure Lts (σ α : Type*) where
  init : σ → Prop
  step : σ → α → σ → Prop

namespace Lts

variable {σ α : Type*} {L : Lts σ α} {ok ok' : σ → α → Prop}

/-- One step whose label meets the condition `ok` in the state it leaves. -/
def Guarded (L : Lts σ α) (ok : σ → α → Prop) (s s' : σ) : Prop :=
  ∃ label, ok s label ∧ L.step s label s'

/-- A run from one state to another all of whose steps meet `ok`. -/
def Run (L : Lts σ α) (ok : σ → α → Prop) : σ → σ → Prop :=
  Relation.ReflTransGen (L.Guarded ok)

/-- The states at the end of a run from an initial state. -/
def ReachableWhile (L : Lts σ α) (ok : σ → α → Prop) (s : σ) : Prop :=
  ∃ start, L.init start ∧ L.Run ok start s

/-- The states at the end of any run. -/
def Reachable (L : Lts σ α) (s : σ) : Prop :=
  L.ReachableWhile (fun _ _ => True) s

/-- A run keeps what each of its steps keeps. -/
theorem Run.invariant (Inv : σ → Prop)
    (preserved : ∀ s label s', Inv s → ok s label → L.step s label s' → Inv s')
    {s s' : σ} (run : L.Run ok s s') (start : Inv s) : Inv s' := by
  induction run with
  | refl => exact start
  | tail before last ih =>
      obtain ⟨label, fine, taken⟩ := last
      exact preserved _ label _ ih fine taken

theorem ReachableWhile.initial {s : σ} (start : L.init s) :
    L.ReachableWhile ok s :=
  ⟨s, start, .refl⟩

theorem ReachableWhile.step {s s' : σ} {label : α}
    (reached : L.ReachableWhile ok s) (fine : ok s label)
    (taken : L.step s label s') : L.ReachableWhile ok s' := by
  obtain ⟨start, isInit, run⟩ := reached
  exact ⟨start, isInit, run.tail ⟨label, fine, taken⟩⟩

/-- A property of the initial states that every admitted step preserves holds
in every state such a run reaches. -/
theorem ReachableWhile.invariant (Inv : σ → Prop)
    (base : ∀ s, L.init s → Inv s)
    (preserved : ∀ s label s', L.ReachableWhile ok s → Inv s → ok s label →
      L.step s label s' → Inv s')
    {s : σ} (reached : L.ReachableWhile ok s) : Inv s := by
  obtain ⟨start, isInit, run⟩ := reached
  induction run with
  | refl => exact base start isInit
  | tail before last ih =>
      obtain ⟨label, fine, taken⟩ := last
      exact preserved _ label _ ⟨start, isInit, before⟩ ih fine taken

theorem ReachableWhile.mono (weaker : ∀ s label, ok s label → ok' s label)
    {s : σ} (reached : L.ReachableWhile ok s) : L.ReachableWhile ok' s := by
  obtain ⟨start, isInit, run⟩ := reached
  refine ⟨start, isInit, Relation.ReflTransGen.mono ?_ _ _ run⟩
  rintro first second ⟨label, fine, taken⟩
  exact ⟨label, weaker first label fine, taken⟩

theorem ReachableWhile.reachable {s : σ} (reached : L.ReachableWhile ok s) :
    L.Reachable s :=
  reached.mono fun _ _ _ => trivial

/-- The system with a count of what its steps amount to. -/
def counting (L : Lts σ α) (amount : α → Nat) : Lts (σ × Nat) α where
  init := fun s => L.init s.1 ∧ s.2 = 0
  step := fun s label s' => L.step s.1 label s'.1 ∧ s'.2 = s.2 + amount label

/-- The system with a record that its steps update. -/
def recording {γ : Type*} (L : Lts σ α) (start : γ) (update : σ → γ → α → γ) :
    Lts (σ × γ) α where
  init := fun s => L.init s.1 ∧ s.2 = start
  step := fun s label s' => L.step s.1 label s'.1 ∧ s'.2 = update s.1 s.2 label

end Lts

/-- Several steps of a step function in a row. -/
def runSteps {σ α : Type*} (step : σ → α → Option σ) (s : σ) : List α → Option σ
  | [] => some s
  | label :: rest => (step s label).bind fun s => runSteps step s rest

/-- Each step of such a run meets the condition in the state it leaves. -/
def RunsOk {σ α : Type*} (step : σ → α → Option σ) (ok : σ → α → Prop) :
    σ → List α → Prop
  | _, [] => True
  | s, label :: rest => ok s label ∧ ∀ s', step s label = some s' → RunsOk step ok s' rest

instance RunsOk.decidable {σ α : Type*} (step : σ → α → Option σ) (ok : σ → α → Prop)
    [∀ s label, Decidable (ok s label)] :
    (s : σ) → (labels : List α) → Decidable (RunsOk step ok s labels)
  | _, [] => .isTrue trivial
  | s, label :: rest =>
      match next : step s label with
      | none => decidable_of_iff (ok s label) (by simp [RunsOk, next])
      | some s' =>
          have := RunsOk.decidable step ok s' rest
          decidable_of_iff (ok s label ∧ RunsOk step ok s' rest) (by simp [RunsOk, next])

theorem RunsOk.of_forall {σ α : Type*} {step : σ → α → Option σ} {ok : σ → α → Prop}
    {labels : List α} (fine : ∀ s, ∀ label ∈ labels, ok s label) (s : σ) :
    RunsOk step ok s labels := by
  induction labels generalizing s with
  | nil => trivial
  | cons label rest ih =>
      exact ⟨fine s label (by simp), fun s' _ =>
        ih (fun s other isRest => fine s other (by simp [isRest])) s'⟩

/-- A run of the step function is one of the system it gives the steps of. -/
theorem Lts.ReachableWhile.runSteps {σ α : Type*} {L : Lts σ α} {ok : σ → α → Prop}
    {step : σ → α → Option σ} (steps : ∀ s label s', step s label = some s' → L.step s label s')
    {labels : List α} {s s' : σ} (reached : L.ReachableWhile ok s)
    (fine : RunsOk step ok s labels) (run : Lib.runSteps step s labels = some s') :
    L.ReachableWhile ok s' := by
  induction labels generalizing s with
  | nil =>
      obtain rfl := Option.some.inj run
      exact reached
  | cons label rest ih =>
      obtain ⟨next, taken, run⟩ := Option.bind_eq_some_iff.mp run
      exact ih (reached.step fine.1 (steps s label next taken)) (fine.2 next taken) run

/-- The state behind several steps in a row, and what they put out. -/
def outputs {σ α β : Type*} (step : σ → α → σ × β) (s : σ) : List α → σ × List β
  | [] => (s, [])
  | label :: rest =>
      let (s, out) := step s label
      let (last, outs) := outputs step s rest
      (last, out :: outs)

/-- A step function simulates another one along every run whose steps it simulates. -/
theorem outputs_simulates {σ τ α β γ : Type*} {step : σ → α → σ × β} {step' : τ → α → τ × γ}
    {state : σ → τ} {out : β → γ} {ok : σ → α → Prop}
    (simulates : ∀ s label, ok s label →
      step' (state s) label = (state (step s label).1, out (step s label).2))
    {labels : List α} {s : σ} (fine : RunsOk (fun s label => some (step s label).1) ok s labels) :
    outputs step' (state s) labels =
      (state (outputs step s labels).1, (outputs step s labels).2.map out) := by
  induction labels generalizing s with
  | nil => rfl
  | cons label rest ih =>
      obtain ⟨first, later⟩ := fine
      have following := ih (later _ rfl)
      simp only [outputs, simulates s label first, following, List.map_cons]

end Zsbl.Lib
