/-
Module: Zsbl.Lib.Select
Purpose: Scanning a list for the first candidate of greatest key, and the
  cyclic order of a list around one of its entries.
Trusted boundary: none
Main exports:
  keepBetter, IsFirstMax, foldl_keepBetter_spec, IsFirstMax.unique
-/
import Mathlib.Data.List.Basic
import Mathlib.Data.List.Induction
import Mathlib.Data.Int.Order.Basic
import Mathlib.Tactic.Linarith

namespace Zsbl.Lib

variable {α : Type*}

/-- One round of a strict maximum search: a candidate replaces the best one
seen so far only when its key is greater. -/
def keepBetter (eligible : α → Bool) (key : α → Int)
    (best : Option α × Int) (candidate : α) : Option α × Int :=
  if eligible candidate ∧ key candidate > best.2 then
    (some candidate, key candidate)
  else best

/-- `best` is the first entry of `entries` among the eligible ones of greatest
key. -/
def IsFirstMax (eligible : α → Bool) (key : α → Int) (entries : List α)
    (best : α) : Prop :=
  ∃ before after, entries = before ++ best :: after ∧ eligible best ∧
    (∀ other ∈ before, eligible other → key other < key best) ∧
    (∀ other ∈ after, eligible other → key other ≤ key best)

namespace IsFirstMax

variable {eligible : α → Bool} {key : α → Int} {entries : List α} {best : α}

theorem mem (first : IsFirstMax eligible key entries best) :
    best ∈ entries := by
  obtain ⟨before, after, rfl, -⟩ := first
  simp

theorem eligible_best (first : IsFirstMax eligible key entries best) :
    eligible best := by
  obtain ⟨_, _, _, fine, _⟩ := first
  exact fine

theorem key_le (first : IsFirstMax eligible key entries best) {other : α}
    (member : other ∈ entries) (fine : eligible other) :
    key other ≤ key best := by
  obtain ⟨before, after, rfl, -, smaller, noGreater⟩ := first
  rcases List.mem_append.mp member with early | rest
  · exact (smaller other early fine).le
  · rcases List.mem_cons.mp rest with rfl | late
    · exact le_rfl
    · exact noGreater other late fine

/-- A list has at most one first greatest candidate. -/
theorem unique {other : α} (first : IsFirstMax eligible key entries best)
    (second : IsFirstMax eligible key entries other) : best = other := by
  have le := second.key_le first.mem first.eligible_best
  have ge := first.key_le second.mem second.eligible_best
  obtain ⟨before, after, split, fine, smaller, -⟩ := first
  obtain ⟨before', after', split', fine', smaller', -⟩ := second
  rw [split] at split'
  rcases List.append_eq_append_iff.mp split' with
    ⟨gap, rfl, tail⟩ | ⟨gap, rfl, tail⟩
  · rcases gap with _ | ⟨head, gap⟩
    · simp only [List.nil_append, List.cons.injEq] at tail
      exact tail.1
    · obtain ⟨rfl, -⟩ := List.cons.inj tail
      have := smaller' best (by simp) fine
      omega
  · rcases gap with _ | ⟨head, gap⟩
    · simp only [List.nil_append, List.cons.injEq] at tail
      exact tail.1.symm
    · obtain ⟨rfl, -⟩ := List.cons.inj tail
      have := smaller other (by simp) fine'
      omega

end IsFirstMax

/-- What a strict maximum search has found after a list: nothing above `floor`,
or the first candidate of greatest key. -/
theorem foldl_keepBetter_spec (eligible : α → Bool) (key : α → Int)
    (floor : Int) (entries : List α) :
    (entries.foldl (keepBetter eligible key) (none, floor) = (none, floor) ∧
        ∀ other ∈ entries, eligible other → key other ≤ floor) ∨
      ∃ best, entries.foldl (keepBetter eligible key) (none, floor) =
          (some best, key best) ∧ floor < key best ∧
        IsFirstMax eligible key entries best := by
  induction entries using List.reverseRecOn with
  | nil => exact Or.inl ⟨rfl, by simp⟩
  | append_singleton entries last ih =>
      rw [List.foldl_concat]
      rcases ih with ⟨found, low⟩ | ⟨best, found, above, first⟩
      · rw [found]
        by_cases taken : eligible last ∧ key last > floor
        · refine Or.inr ⟨last, by simp [keepBetter, taken], taken.2,
            entries, [], rfl, taken.1, ?_, by simp⟩
          intro other member fine
          exact lt_of_le_of_lt (low other member fine) taken.2
        · refine Or.inl ⟨by simp [keepBetter, taken], ?_⟩
          intro other member fine
          rcases List.mem_append.mp member with early | late
          · exact low other early fine
          · obtain rfl := List.mem_singleton.mp late
            exact not_lt.mp fun greater => taken ⟨fine, greater⟩
      · rw [found]
        by_cases taken : eligible last ∧ key last > key best
        · refine Or.inr ⟨last, by simp [keepBetter, taken],
            above.trans taken.2, entries, [], rfl, taken.1, ?_, by simp⟩
          intro other member fine
          exact lt_of_le_of_lt (first.key_le member fine) taken.2
        · obtain ⟨before, after, rfl, fine, smaller, noGreater⟩ := first
          refine Or.inr ⟨best, by simp [keepBetter, taken], above,
            before, after ++ [last], by simp, fine, smaller, ?_⟩
          intro other member fineOther
          rcases List.mem_append.mp member with early | late
          · exact noGreater other early fineOther
          · obtain rfl := List.mem_singleton.mp late
            exact not_lt.mp fun greater => taken ⟨fineOther, greater⟩

/-- A strict maximum search over a list with a candidate above `floor` ends
with the first candidate of greatest key. -/
theorem foldl_keepBetter_eq {eligible : α → Bool} {key : α → Int}
    {floor : Int} {entries : List α}
    (above : ∀ other ∈ entries, eligible other → floor < key other)
    (candidate : ∃ other ∈ entries, eligible other) :
    ∃ best, IsFirstMax eligible key entries best ∧
      entries.foldl (keepBetter eligible key) (none, floor) =
        (some best, key best) := by
  rcases foldl_keepBetter_spec eligible key floor entries with
    ⟨-, low⟩ | ⟨best, found, -, first⟩
  · obtain ⟨other, member, fine⟩ := candidate
    exact absurd (above other member fine) (not_lt.mpr (low other member fine))
  · exact ⟨best, first, found⟩

end Zsbl.Lib
