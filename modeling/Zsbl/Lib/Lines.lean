/-
Module: Zsbl.Lib.Lines
Purpose: Texts that a reader cuts into lines of a bounded length.
Trusted boundary: none
Main exports:
  cutLine, cutLine_append, cutLine_long, cutLine_lt, readLines, readLines_line, readLines_full
-/
import Mathlib.Data.List.Basic

namespace Zsbl.Lib

variable {α : Type*} {isEnd : α → Bool}

/-- The first line of a text: what goes up to an end of a line, or as much as there is room
for.  The rest is behind it. -/
def cutLine (isEnd : α → Bool) : Nat → List α → List α × List α
  | room + 1, c :: text =>
      if isEnd c then ([c], text)
      else
        let cut := cutLine isEnd room text
        (c :: cut.1, cut.2)
  | 0, text => ([], text)
  | _, [] => ([], [])

theorem cutLine_eq (isEnd : α → Bool) (room : Nat) (text : List α) :
    (cutLine isEnd room text).1 ++ (cutLine isEnd room text).2 = text := by
  induction room, text using cutLine.induct isEnd with
  | case1 room c text ends => simp [cutLine, ends]
  | case2 room c text goesOn ih => simpa [cutLine, goesOn] using ih
  | case3 text => simp [cutLine]
  | case4 room => cases room <;> rfl

theorem cutLine_lt {room : Nat} (positive : 0 < room) {text : List α} (more : text ≠ []) :
    (cutLine isEnd room text).2.length < text.length := by
  obtain ⟨room, rfl⟩ := Nat.exists_eq_add_of_lt positive
  obtain ⟨c, text, rfl⟩ := List.exists_cons_of_ne_nil more
  have whole := congrArg List.length (cutLine_eq isEnd room text)
  rw [List.length_append] at whole
  rw [Nat.zero_add, cutLine]
  split
  · simp
  · simp only [List.length_cons]
    omega

/-- A line with its end fits. -/
theorem cutLine_append {line : List α} (inner : ∀ c ∈ line, isEnd c = false) {room : Nat}
    (fits : line.length < room) {stop : α} (ends : isEnd stop = true) (text : List α) :
    cutLine isEnd room (line ++ stop :: text) = (line ++ [stop], text) := by
  induction line generalizing room with
  | nil =>
      obtain ⟨room, rfl⟩ := Nat.exists_eq_add_of_lt fits
      simp [cutLine, ends]
  | cons c line ih =>
      obtain ⟨room, rfl⟩ := Nat.exists_eq_add_of_lt (Nat.zero_lt_of_lt fits)
      have goesOn := inner c List.mem_cons_self
      have rest := ih (fun other member => inner other (List.mem_cons_of_mem c member))
        (show line.length < room by simp at fits; omega)
      simp [cutLine, goesOn, rest]

/-- A line without an end is cut where the room ends. -/
theorem cutLine_long {text : List α} {room : Nat}
    (inner : ∀ c ∈ text.take room, isEnd c = false) :
    cutLine isEnd room text = (text.take room, text.drop room) := by
  induction room, text using cutLine.induct isEnd with
  | case1 room c text ends =>
      have goesOn := inner c (by simp)
      rw [ends] at goesOn
      cases goesOn
  | case2 room c text goesOn ih =>
      have rest := ih fun other member => inner other (by simp [member])
      simp [cutLine, goesOn, rest]
  | case3 text => simp [cutLine]
  | case4 room => cases room <;> simp [cutLine]

/-- The lines that a reader with room for so many elements gets. -/
def readLines (isEnd : α → Bool) (room : Nat) (text : List α) : List (List α) :=
  if _more : 0 < room ∧ text ≠ [] then
    (cutLine isEnd room text).1 :: readLines isEnd room (cutLine isEnd room text).2
  else []
termination_by text.length
decreasing_by exact cutLine_lt _more.1 _more.2

theorem readLines_cons {room : Nat} (positive : 0 < room) {text : List α} (more : text ≠ []) :
    readLines isEnd room text =
      (cutLine isEnd room text).1 :: readLines isEnd room (cutLine isEnd room text).2 := by
  rw [readLines, dif_pos ⟨positive, more⟩]

@[simp] theorem readLines_nil (room : Nat) : readLines isEnd room [] = [] := by
  rw [readLines, dif_neg (by simp)]

/-- Every line has an element of the text. -/
theorem readLines_count_le (isEnd : α → Bool) (room : Nat) (text : List α) :
    (readLines isEnd room text).length ≤ text.length := by
  induction text using readLines.induct isEnd room with
  | case1 text more ih =>
      have shorter : (cutLine isEnd room text).2.length < text.length := cutLine_lt more.1 more.2
      rw [readLines_cons more.1 more.2, List.length_cons]
      omega
  | case2 text stop =>
      rw [readLines, dif_neg stop]
      exact Nat.zero_le _

/-- A line with its end that fits is read as it is. -/
theorem readLines_line {line : List α} (inner : ∀ c ∈ line, isEnd c = false) {room : Nat}
    (fits : line.length < room) {stop : α} (ends : isEnd stop = true) (text : List α) :
    readLines isEnd room (line ++ stop :: text) =
      (line ++ [stop]) :: readLines isEnd room text := by
  rw [readLines_cons (Nat.zero_lt_of_lt fits) (by simp), cutLine_append inner fits ends]

/-- A line that fills the room leaves its end for the next one. -/
theorem readLines_full {line : List α} (inner : ∀ c ∈ line, isEnd c = false) {room : Nat}
    (full : line.length = room) (positive : 0 < room) {stop : α} (ends : isEnd stop = true)
    (text : List α) :
    readLines isEnd room (line ++ stop :: text) =
      line :: [stop] :: readLines isEnd room text := by
  have cut : cutLine isEnd room (line ++ stop :: text) = (line, stop :: text) := by
    rw [← full, cutLine_long (by rwa [List.take_left]), List.take_left, List.drop_left]
  rw [readLines_cons positive (by simp), cut]
  exact congrArg _ (readLines_line (List.forall_mem_nil _) positive ends text)

end Zsbl.Lib
