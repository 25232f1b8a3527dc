/-
Module: Zsbl.Lib.Cursor
Purpose: A sequence that is read from a position that moves: windows of it, the cursor as a
  specification, and systems that follow it over whole runs.
Trusted boundary: none
Main exports:
  window, window_window, CursorOp, cursorStep, cursorRun, execRun, CursorOk, execRun_follows,
  cursorRun_reads, cursorRun_untilEmpty
-/
import Mathlib.Algebra.Order.Ring.Int
import Mathlib.Data.List.Basic

namespace Zsbl.Lib

section Windows

variable {α : Type*}

/-- The elements from a position on, at most `len` of them. -/
def window (content : List α) (pos len : Nat) : List α := (content.drop pos).take len

theorem length_window (content : List α) (pos len : Nat) :
    (window content pos len).length = min len (content.length - pos) := by
  rw [window, List.length_take, List.length_drop]

theorem window_append (content : List α) (pos first second : Nat) :
    window content pos (first + second) =
      window content pos first ++ window content (pos + first) second := by
  rw [window, List.take_add, List.drop_drop]
  rfl

theorem window_past {content : List α} {pos : Nat} (past : content.length ≤ pos) (len : Nat) :
    window content pos len = [] := by
  rw [window, List.drop_eq_nil_of_le past, List.take_nil]

theorem window_all {content : List α} {pos len : Nat} (whole : content.length ≤ pos + len) :
    window content pos len = content.drop pos := by
  apply List.take_of_length_le
  rw [List.length_drop]
  omega

/-- Reading on behind a window that may be short. -/
theorem window_next (content : List α) (pos first second : Nat) :
    window content (pos + (window content pos first).length) second =
      window content (pos + first) second := by
  rw [length_window]
  rcases Nat.le_total first (content.length - pos) with full | short
  · rw [Nat.min_eq_left full]
  · rw [Nat.min_eq_right short, window_past (by omega), window_past (by omega)]

theorem window_eq_nil {content : List α} {pos len : Nat} (nonzero : 0 < len) :
    window content pos len = [] ↔ content.length ≤ pos := by
  rw [← List.length_eq_zero_iff, length_window]
  omega

/-- A window of a window. -/
theorem window_window (content : List α) (start size pos len : Nat) :
    window (window content start size) pos len =
      window content (start + pos) (min len (size - pos)) := by
  unfold window
  rw [List.drop_take, List.take_take, List.drop_drop]

end Windows

/-! ## The cursor -/

section Cursor

variable {α σ : Type}

inductive CursorOp where
  | seekSet (off : Int)
  | seekCur (off : Int)
  | read (len : Nat)
deriving DecidableEq, Repr

-- Positions are below the limit; a seek to any other place is refused.
variable (limit : Nat) (refused : Int) (content : List α)

/-- A seek from a position to another place. -/
def cursorSeek (pos : Nat) (npos : Int) : Nat × Int × List α :=
  if 0 ≤ npos ∧ npos < limit then (npos.toNat, npos, []) else (pos, refused, [])

/-- The position behind an operation, what it returns, and the elements that it yields. -/
def cursorStep (pos : Nat) : CursorOp → Nat × Int × List α
  | .seekSet off => cursorSeek limit refused pos off
  | .seekCur off => cursorSeek limit refused pos (pos + off)
  | .read len =>
      let part := window content pos len
      (pos + part.length, part.length, part)

theorem cursorStep_seekSet (pos : Nat) (off : Int) :
    cursorStep limit refused content pos (.seekSet off) = cursorSeek limit refused pos off :=
  rfl

theorem cursorStep_seekCur (pos : Nat) (off : Int) :
    cursorStep limit refused content pos (.seekCur off) =
      cursorSeek limit refused pos (pos + off) :=
  rfl

theorem cursorSeek_inside (pos : Nat) {npos : Int} (nonneg : 0 ≤ npos) (below : npos < limit) :
    cursorSeek (α := α) limit refused pos npos = (npos.toNat, npos, []) :=
  if_pos ⟨nonneg, below⟩

/-- A seek yields no elements. -/
theorem cursorSeek_snd (pos : Nat) (npos : Int) :
    (cursorSeek (α := α) limit refused pos npos).2 =
      ((cursorSeek (α := α) limit refused pos npos).2.1, []) := by
  unfold cursorSeek
  split
  · rfl
  · rfl

def cursorRun : Nat → List CursorOp → Nat × List (Int × List α)
  | pos, [] => (pos, [])
  | pos, op :: ops =>
      let out := cursorStep limit refused content pos op
      let rest := cursorRun out.1 ops
      (rest.1, out.2 :: rest.2)

/-- Every operation of a run meets a condition at its position. -/
def CursorOk (ok : Nat → CursorOp → Prop) : Nat → List CursorOp → Prop
  | _, [] => True
  | pos, op :: ops => ok pos op ∧ CursorOk ok (cursorStep limit refused content pos op).1 ops

/-- The operations of a system one after the other. -/
def execRun (exec : σ → CursorOp → Option (σ × Int × List α)) :
    σ → List CursorOp → Option (σ × List (Int × List α))
  | s, [] => some (s, [])
  | s, op :: ops => do
      let (s, out) ← exec s op
      let (s, outs) ← execRun exec s ops
      some (s, out :: outs)

variable {limit refused content}

/-- A system that follows the cursor in each operation follows it over a run. -/
theorem execRun_follows {exec : σ → CursorOp → Option (σ × Int × List α)} {At : σ → Nat → Prop}
    {ok : Nat → CursorOp → Prop}
    (follows : ∀ s pos op, At s pos → ok pos op →
      ∃ s', exec s op = some (s', (cursorStep limit refused content pos op).2) ∧
        At s' (cursorStep limit refused content pos op).1)
    {s : σ} {pos : Nat} (here : At s pos) {ops : List CursorOp}
    (fine : CursorOk limit refused content ok pos ops) :
    ∃ s', execRun exec s ops = some (s', (cursorRun limit refused content pos ops).2) ∧
      At s' (cursorRun limit refused content pos ops).1 := by
  induction ops generalizing s pos with
  | nil => exact ⟨s, rfl, here⟩
  | cons op ops ih =>
      obtain ⟨first, rest⟩ := fine
      obtain ⟨s₁, one, here₁⟩ := follows s pos op here first
      obtain ⟨s₂, others, here₂⟩ := ih here₁ rest
      refine ⟨s₂, ?_, here₂⟩
      simp [execRun, one, others, cursorRun]

/-- Reads one after the other yield one window. -/
theorem cursorRun_reads (pos : Nat) (lens : List Nat) :
    (cursorRun limit refused content pos (lens.map .read)).2.flatMap Prod.snd =
        window content pos lens.sum ∧
      (cursorRun limit refused content pos (lens.map .read)).1 =
        pos + (window content pos lens.sum).length := by
  induction lens generalizing pos with
  | nil => simp [cursorRun, window]
  | cons len lens ih =>
      obtain ⟨bytes, last⟩ := ih (pos + (window content pos len).length)
      rw [window_next] at bytes last
      have whole := window_append content pos len lens.sum
      constructor
      · rw [List.sum_cons, whole, ← bytes]
        rfl
      · rw [List.sum_cons, whole, List.length_append, ← Nat.add_assoc]
        exact last

/-- Once a read yields nothing, the reads before it have yielded all that was left. -/
theorem cursorRun_untilEmpty {pos : Nat} {lens : List Nat} {len : Nat} (nonzero : 0 < len)
    (ended : window content (cursorRun limit refused content pos (lens.map .read)).1 len = []) :
    (cursorRun limit refused content pos (lens.map .read)).2.flatMap Prod.snd =
      content.drop pos := by
  obtain ⟨bytes, last⟩ := @cursorRun_reads α limit refused content pos lens
  rw [bytes]
  rw [last, window_next, window_eq_nil nonzero] at ended
  exact window_all ended

end Cursor

end Zsbl.Lib
