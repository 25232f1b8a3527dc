/-
Module: Zsbl.Lib.Probe
Purpose: A counter that comes back to where it started, and the search for a free
  value that gives up when it does.
Trusted boundary: none
Main exports:
  Returns, probeFrom, probeFrom_spec
-/
import Mathlib.Logic.Function.Iterate

namespace Zsbl.Lib

variable {α : Type*}

/-- The counter is back at a value after so many steps, and not before. -/
structure Returns (next : α → α) (start : α) (period : Nat) : Prop where
  back : next^[period] start = start
  later : ∀ steps, 0 < steps → steps < period → next^[steps] start ≠ start

/-- The first free value from a value on and whether there is one, where the search
ends when the counter is back at the start. -/
def probeFrom [DecidableEq α] (taken : α → Bool) (next : α → α) (start : α) :
    Nat → α → Option (α × Bool)
  | 0, _ => none
  | fuel + 1, value =>
      if taken value = false then some (value, true)
      else if next value = start then some (value, false)
      else probeFrom taken next start fuel (next value)

/-- The search ends within one round: at a free value, or when none is free. -/
theorem probeFrom_spec [DecidableEq α] {taken : α → Bool} {next : α → α} {start : α}
    {period : Nat} (returns : Returns next start period) {steps fuel : Nat}
    (inside : steps < period) (enough : period ≤ fuel + steps)
    (passed : ∀ i < steps, taken (next^[i] start) = true) :
    ∃ i < period,
      taken (next^[i] start) = false ∧
          probeFrom taken next start fuel (next^[steps] start) =
            some (next^[i] start, true) ∨
        (∀ j < period, taken (next^[j] start) = true) ∧
          probeFrom taken next start fuel (next^[steps] start) =
            some (next^[i] start, false) := by
  induction fuel generalizing steps with
  | zero => omega
  | succ fuel ih =>
      by_cases free : taken (next^[steps] start) = false
      · exact ⟨steps, inside, Or.inl ⟨free, by rw [probeFrom, if_pos free]⟩⟩
      · have passed' : ∀ i < steps + 1, taken (next^[i] start) = true := by
          intro i before
          rcases Nat.lt_succ_iff_lt_or_eq.mp before with earlier | rfl
          · exact passed i earlier
          · simpa using free
        have following : next (next^[steps] start) = next^[steps + 1] start :=
          (Function.iterate_succ_apply' next steps start).symm
        by_cases last : steps + 1 = period
        · refine ⟨steps, inside, Or.inr ⟨last ▸ passed', ?_⟩⟩
          rw [probeFrom, if_neg free, following, last, returns.back, if_pos rfl]
        · have ne := returns.later (steps + 1) (Nat.succ_pos steps) (by omega)
          rw [probeFrom, if_neg free, following, if_neg ne]
          exact ih (by omega) (by omega) passed'

end Zsbl.Lib
