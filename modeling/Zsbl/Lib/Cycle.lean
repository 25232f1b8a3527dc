/-
Module: Zsbl.Lib.Cycle
Purpose: The cyclic order of a list seen from one of its entries, and the
  round robin that always moves on to the next entry of a kind.
Trusted boundary: none
Main exports:
  cycleAfter, cycleAfter_again, filter_cycleAfter_head,
  filter_cycleAfter_erase
-/
import Mathlib.Data.List.Rotate
import Mathlib.Data.List.Nodup

namespace Zsbl.Lib

variable {α : Type*} [DecidableEq α]

/-- The entries in cyclic order, starting behind `entry` and ending with it. -/
def cycleAfter (entry : α) (entries : List α) : List α :=
  entries.rotate (entries.idxOf entry + 1)

variable {entry next : α} {left right entries : List α}

theorem cycleAfter_append (fresh : entry ∉ left) :
    cycleAfter entry (left ++ entry :: right) = right ++ left ++ [entry] := by
  have index : (left ++ entry :: right).idxOf entry = left.length := by
    rw [List.idxOf_append_of_notMem fresh, List.idxOf_cons_self, Nat.add_zero]
  have cut : left ++ entry :: right = (left ++ [entry]) ++ right := by simp
  have size : left.length + 1 = (left ++ [entry]).length := by simp
  rw [cycleAfter, index, cut, size, List.rotate_append_length_eq,
    List.append_assoc]

theorem cycleAfter_perm : (cycleAfter entry entries).Perm entries :=
  List.rotate_perm _ _

theorem mem_cycleAfter {other : α} :
    other ∈ cycleAfter entry entries ↔ other ∈ entries :=
  cycleAfter_perm.mem_iff

omit [DecidableEq α] in
/-- A duplicate-free list cut at one of its entries. -/
theorem exists_cut (nodup : entries.Nodup) (member : entry ∈ entries) :
    ∃ left right, entries = left ++ entry :: right ∧ entry ∉ left ∧
      entry ∉ right := by
  obtain ⟨left, right, rfl⟩ := List.append_of_mem member
  refine ⟨left, right, rfl, ?_, ?_⟩ <;>
    · have := nodup
      simp only [List.nodup_append, List.nodup_cons, List.mem_cons] at this
      grind

/-- The cyclic order does not depend on where the list is cut open. -/
theorem cycleAfter_append_singleton {first : α} {rest : List α}
    (nodup : (first :: rest).Nodup) (member : entry ∈ first :: rest) :
    cycleAfter entry (rest ++ [first]) = cycleAfter entry (first :: rest) := by
  obtain ⟨freshFirst, nodupRest⟩ := List.nodup_cons.mp nodup
  rcases List.mem_cons.mp member with rfl | later
  · calc cycleAfter entry (rest ++ [entry])
        = [] ++ rest ++ [entry] := cycleAfter_append freshFirst
      _ = rest ++ [] ++ [entry] := by simp
      _ = cycleAfter entry ([] ++ entry :: rest) :=
        (cycleAfter_append (by simp)).symm
  · obtain ⟨left, right, rfl, fresh, -⟩ := exists_cut nodupRest later
    have fresh' : entry ∉ first :: left := by grind
    calc cycleAfter entry (left ++ entry :: right ++ [first])
        = cycleAfter entry (left ++ entry :: (right ++ [first])) := by simp
      _ = right ++ [first] ++ left ++ [entry] := cycleAfter_append fresh
      _ = right ++ (first :: left) ++ [entry] := by simp
      _ = cycleAfter entry ((first :: left) ++ entry :: right) :=
        (cycleAfter_append fresh').symm

theorem cycleAfter_rotate (nodup : entries.Nodup) (member : entry ∈ entries)
    (k : Nat) : cycleAfter entry (entries.rotate k) = cycleAfter entry entries := by
  induction k generalizing entries with
  | zero => rw [List.rotate_zero]
  | succ k ih =>
      cases entries with
      | nil => simp at member
      | cons first rest =>
          have perm : (rest ++ [first]).Perm (first :: rest) := by simp
          rw [List.rotate_cons_succ, ih (perm.nodup_iff.mpr nodup)
            (perm.mem_iff.mpr member), cycleAfter_append_singleton nodup member]

/-- Moving on along the cyclic order gives the cyclic order of the entry
reached. -/
theorem cycleAfter_again (nodup : entries.Nodup)
    (split : cycleAfter entry entries = left ++ next :: right) :
    cycleAfter next entries = right ++ left ++ [next] := by
  have member : next ∈ entries := mem_cycleAfter.mp (by rw [split]; simp)
  have nodup' : (left ++ next :: right).Nodup := by
    rw [← split]
    exact cycleAfter_perm.nodup_iff.mpr nodup
  have fresh : next ∉ left := by
    simp only [List.nodup_append, List.nodup_cons, List.mem_cons] at nodup'
    grind
  calc cycleAfter next entries
      = cycleAfter next (cycleAfter entry entries) :=
        (cycleAfter_rotate nodup member _).symm
    _ = cycleAfter next (left ++ next :: right) := by rw [split]
    _ = right ++ left ++ [next] := cycleAfter_append fresh

/-- Among the entries of a kind, moving on to the first one rotates their
cyclic order by one. -/
theorem filter_cycleAfter_head {kind : α → Bool} {rest : List α}
    (nodup : entries.Nodup)
    (found : (cycleAfter entry entries).filter kind = next :: rest) :
    (cycleAfter next entries).filter kind = rest ++ [next] := by
  obtain ⟨before, after, split, skipped, fine, tail⟩ :=
    List.filter_eq_cons_iff.mp found
  rw [cycleAfter_again nodup split]
  have none_before : before.filter kind = [] := by
    simpa [List.filter_eq_nil_iff] using skipped
  simp [none_before, tail, fine]

/-- Leaving out other entries leaves them out of the cyclic order. -/
theorem cycleAfter_filter {keep : α → Bool} (nodup : entries.Nodup)
    (member : entry ∈ entries) (kept : keep entry) :
    cycleAfter entry (entries.filter keep) =
      (cycleAfter entry entries).filter keep := by
  obtain ⟨left, right, rfl, fresh, -⟩ := exists_cut nodup member
  have fresh' : entry ∉ left.filter keep := fun inside =>
    fresh (List.mem_of_mem_filter inside)
  rw [List.filter_append, List.filter_cons_of_pos kept,
    cycleAfter_append fresh', cycleAfter_append fresh]
  simp [kept]

/-- Erasing an entry of another kind does not disturb the round robin. -/
theorem filter_cycleAfter_erase {kind : α → Bool} {erased : α}
    (nodup : entries.Nodup) (member : entry ∈ entries)
    (kept : kind entry) (other : ¬ kind erased) :
    (cycleAfter entry (entries.erase erased)).filter kind =
      (cycleAfter entry entries).filter kind := by
  have ne : entry ≠ erased := by rintro rfl; exact other kept
  rw [nodup.erase_eq_filter, cycleAfter_filter nodup member (by simpa using ne),
    List.filter_filter]
  refine List.filter_congr fun candidate _ => ?_
  by_cases same : candidate = erased
  · subst same
    simpa using other
  · simp [same]

end Zsbl.Lib
