/-
Module: Zsbl.Proofs.VfsPath
Purpose: The segments of a path between its slashes.
Trusted boundary: none
Main exports:
  vfsNameValid_iff, takeWhile_name, takeWhile_last, segments, segment_valid, segments_cons
-/
import Mathlib.Data.List.TakeWhile
import Zsbl.Common.Vfs

namespace Zsbl.Common

theorem vfsNameValid_iff {name : CStr} : vfsNameValid name = true ↔
    name ≠ [] ∧ slash ∉ name := by
  simp [vfsNameValid]

/-- The first segment of a path. -/
theorem takeWhile_name {name : CStr} (rest : CStr) (absent : slash ∉ name) :
    (name ++ slash :: rest).takeWhile (· ≠ slash) = name ∧
      (name ++ slash :: rest).dropWhile (· ≠ slash) = slash :: rest := by
  have all : ∀ c ∈ name, decide (c ≠ slash) = true := by
    intro c member
    have ne : c ≠ slash := by
      rintro rfl
      exact absent member
    simpa using ne
  constructor
  · rw [List.takeWhile_append_of_pos all]
    simp
  · rw [List.dropWhile_append_of_pos all]
    simp

/-- A name without a slash is the last one. -/
theorem takeWhile_last {name : CStr} (absent : slash ∉ name) :
    name.takeWhile (· ≠ slash) = name ∧ name.dropWhile (· ≠ slash) = [] := by
  have all : ∀ c ∈ name, decide (c ≠ slash) = true := by
    intro c member
    have ne : c ≠ slash := by
      rintro rfl
      exact absent member
    simpa using ne
  exact ⟨List.takeWhile_eq_self_iff.mpr all, List.dropWhile_eq_nil_iff.mpr all⟩

/-- The names between the slashes of a path. -/
def segments (path : CStr) : List CStr := (path.splitOn slash).filter (· ≠ [])

example : segments [47, 97, 47, 47, 98, 47] = [[97], [98]] := by decide

theorem segments_slash (path : CStr) : segments (slash :: path) = segments path := by
  simp [segments, List.splitOn_cons_eq_if_modifyHead]

/-- Leading slashes do not count. -/
theorem segments_skip (path : CStr) :
    segments (path.dropWhile (· = slash)) = segments path := by
  induction path with
  | nil => rfl
  | cons first path ih =>
      by_cases isSlash : first = slash
      · subst isSlash
        rw [List.dropWhile_cons_of_pos (by simp), ih, segments_slash]
      · rw [List.dropWhile_cons_of_neg (by simpa using isSlash)]

theorem segments_name {name : CStr} (ne : name ≠ []) (absent : slash ∉ name) :
    segments name = [name] := by
  have all : ∀ c ∈ name, (c == slash) = false := by
    intro c member
    apply beq_false_of_ne
    rintro rfl
    exact absent member
  simp [segments, List.splitOn_eq_splitOnP, List.splitOnP_eq_singleton all, ne]

/-- A name and a slash give the first segment. -/
theorem segments_append {name : CStr} (rest : CStr) (ne : name ≠ [])
    (absent : slash ∉ name) : segments (name ++ slash :: rest) = name :: segments rest := by
  have all : ∀ c ∈ name, (c == slash) = false := by
    intro c member
    apply beq_false_of_ne
    rintro rfl
    exact absent member
  simp [segments, List.splitOn_eq_splitOnP, ne,
    List.splitOnP_append_cons_of_forall_mem all slash (beq_self_eq_true slash)]

/-- What the loop of `vfs_mkdir_p` cuts off is a name, and less of the path is left. -/
theorem segment_valid {path : CStr} (more : path.dropWhile (· = slash) ≠ []) :
    (path.dropWhile (· = slash)).takeWhile (· ≠ slash) ≠ [] ∧
      slash ∉ (path.dropWhile (· = slash)).takeWhile (· ≠ slash) ∧
      ((path.dropWhile (· = slash)).dropWhile (· ≠ slash)).length < path.length := by
  have first := List.head_dropWhile_not (· = slash) more
  have le := (List.dropWhile_suffix (l := path) (· = slash)).length_le
  generalize path.dropWhile (· = slash) = rest at more first le
  refine ⟨?_, fun member => by simpa using List.mem_takeWhile_imp member, ?_⟩ <;>
    obtain ⟨char, rest, rfl⟩ := List.exists_cons_of_ne_nil more <;>
    have ne : char ≠ slash := of_decide_eq_false first
  · rw [List.takeWhile_cons_of_pos (by simpa using ne)]
    exact List.cons_ne_nil _ _
  · have less := (List.dropWhile_suffix (l := rest) (· ≠ slash)).length_le
    rw [List.dropWhile_cons_of_pos (by simpa using ne)]
    rw [List.length_cons] at le
    omega

/-- The first segment of a path that does not consist of slashes, as the loop of
`vfs_mkdir_p` cuts it off. -/
theorem segments_cons {path : CStr} (more : path.dropWhile (· = slash) ≠ []) :
    segments path = (path.dropWhile (· = slash)).takeWhile (· ≠ slash) ::
      segments ((path.dropWhile (· = slash)).dropWhile (· ≠ slash)) := by
  obtain ⟨ne, absent, -⟩ := segment_valid more
  rw [← segments_skip path]
  generalize path.dropWhile (· = slash) = rest at ne absent
  have split := List.takeWhile_append_dropWhile (p := (· ≠ slash)) (l := rest)
  cases tail : rest.dropWhile (· ≠ slash) with
  | nil =>
      rw [tail, List.append_nil] at split
      rw [split] at ne absent ⊢
      exact segments_name ne absent
  | cons char tail' =>
      have isSlash := List.head_dropWhile_not (· ≠ slash) (l := rest)
        (by rw [tail]; exact List.cons_ne_nil _ _)
      simp only [tail, List.head_cons, decide_eq_false_iff_not, not_not] at isSlash
      rw [tail, isSlash] at split
      rw [isSlash, segments_slash, ← segments_append tail' ne absent, split]

end Zsbl.Common
