/-
Module: Zsbl.Lib.Climb
Purpose: Following a partial function until it stops.
Trusted boundary: none
Main exports:
  climb, climb_stop, climb_top, climb_enough, climb_next, climb_congr
-/
import Mathlib.Logic.Function.Iterate

namespace Zsbl.Lib

variable {α : Type*}

/-- A number of steps, which stay where there is no next one. -/
def climb (next : α → Option α) (steps : Nat) : α → α :=
  (fun start => (next start).getD start)^[steps]

theorem climb_succ (next : α → Option α) (steps : Nat) (start : α) :
    climb next (steps + 1) start = climb next steps ((next start).getD start) :=
  Function.iterate_succ_apply _ _ _

theorem climb_succ' (next : α → Option α) (steps : Nat) (start : α) :
    climb next (steps + 1) start =
      (next (climb next steps start)).getD (climb next steps start) :=
  Function.iterate_succ_apply' _ _ _

theorem climb_stop {next : α → Option α} {start : α} (stop : next start = none) (steps : Nat) :
    climb next steps start = start := by
  apply Function.iterate_fixed
  rw [stop]
  rfl

/-- As many steps as the rank allows lead to where there is no next one. -/
theorem climb_top {next : α → Option α} {rank : α → Nat}
    (falls : ∀ start after, next start = some after → rank after < rank start)
    {steps : Nat} {start : α} (enough : rank start ≤ steps) :
    next (climb next steps start) = none := by
  induction steps generalizing start with
  | zero =>
      cases step : next start with
      | none => exact step
      | some after =>
          have lt := falls start after step
          omega
  | succ steps ih =>
      cases step : next start with
      | none => rw [climb_stop step, step]
      | some after =>
          have lt := falls start after step
          rw [climb_succ, step]
          exact ih (show rank after ≤ steps by omega)

/-- More steps than the rank lead no further. -/
theorem climb_enough {next : α → Option α} {rank : α → Nat}
    (falls : ∀ start after, next start = some after → rank after < rank start)
    {steps more : Nat} {start : α} (enough : rank start ≤ steps) (le : steps ≤ more) :
    climb next more start = climb next steps start := by
  obtain ⟨extra, rfl⟩ := Nat.exists_eq_add_of_le' le
  have split : climb next (extra + steps) start = climb next extra (climb next steps start) :=
    Function.iterate_add_apply _ _ _ _
  rw [split, climb_stop (climb_top falls enough)]

/-- A step does not change where the climb leads. -/
theorem climb_next {next : α → Option α} {rank : α → Nat}
    (falls : ∀ start after, next start = some after → rank after < rank start)
    {steps : Nat} {start after : α} (enough : rank start ≤ steps)
    (step : next start = some after) :
    climb next steps start = climb next steps after := by
  have once := climb_succ next steps start
  rw [climb_succ', climb_top falls enough, step] at once
  exact once

/-- Functions that agree along the way lead to the same place. -/
theorem climb_congr {next next' : α → Option α} {along : α → Prop}
    (same : ∀ start, along start → next' start = next start)
    (keeps : ∀ start after, along start → next start = some after → along after)
    (steps : Nat) {start : α} (here : along start) :
    climb next' steps start = climb next steps start := by
  induction steps generalizing start with
  | zero => rfl
  | succ steps ih =>
      rw [climb_succ, climb_succ, same start here]
      cases step : next start with
      | none => exact ih here
      | some after => exact ih (keeps start after here step)

/-- What holds along the way holds where it ends. -/
theorem climb_along {next : α → Option α} {along : α → Prop}
    (keeps : ∀ start after, along start → next start = some after → along after)
    (steps : Nat) {start : α} (here : along start) : along (climb next steps start) := by
  induction steps generalizing start with
  | zero => exact here
  | succ steps ih =>
      rw [climb_succ]
      cases step : next start with
      | none => exact ih here
      | some after => exact ih (keeps start after here step)

end Zsbl.Lib
