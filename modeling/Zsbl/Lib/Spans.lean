/-
Module: Zsbl.Lib.Spans
Purpose: Address ranges: what a list of them covers, when they are apart, and
  ranges that follow one another.
Trusted boundary: none
Main exports:
  Span, Covers, Apart, pairwise_apart_append, spansFrom, covers_spansFrom,
  spansFrom_apart, spansFrom_concat, end_le_of_mem_spansFrom, keepBelow,
  covers_keepBelow, keepBelow_apart
-/
import Mathlib.Algebra.Order.Ring.Int
import Mathlib.Data.List.Basic

namespace Zsbl.Lib

/-- The addresses from a base on, of a given number. -/
structure Span where
  base : Nat
  len : Nat
deriving DecidableEq, Repr

def Span.Contains (span : Span) (address : Nat) : Prop :=
  span.base ≤ address ∧ address < span.base + span.len

instance (span : Span) (address : Nat) : Decidable (span.Contains address) :=
  inferInstanceAs (Decidable (_ ∧ _))

/-- Some range of the list contains the address. -/
def Covers (spans : List Span) (address : Nat) : Prop :=
  ∃ span ∈ spans, span.Contains address

def Span.Apart (span other : Span) : Prop :=
  ∀ address, span.Contains address → ¬other.Contains address

/-- Ranges that follow one another. -/
def spansFrom (start : Nat) : List Nat → List Span
  | [] => []
  | len :: rest => ⟨start, len⟩ :: spansFrom (start + len) rest

@[simp] theorem covers_nil (address : Nat) : ¬Covers [] address := by
  simp [Covers]

@[simp] theorem covers_cons {span : Span} {spans : List Span} {address : Nat} :
    Covers (span :: spans) address ↔ span.Contains address ∨ Covers spans address := by
  simp [Covers]

@[simp] theorem covers_append {spans others : List Span} {address : Nat} :
    Covers (spans ++ others) address ↔ Covers spans address ∨ Covers others address := by
  simp only [Covers, List.mem_append, or_and_right, exists_or]

/-- Two lists of ranges together are apart when each is and they share nothing. -/
theorem pairwise_apart_append {spans others : List Span} :
    (spans ++ others).Pairwise Span.Apart ↔ spans.Pairwise Span.Apart ∧
      others.Pairwise Span.Apart ∧
        ∀ address, Covers spans address → ¬Covers others address := by
  rw [List.pairwise_append]
  apply and_congr_right
  intro _
  apply and_congr_right
  intro _
  constructor
  · rintro apart address ⟨span, member, inside⟩ ⟨other, member', inside'⟩
    exact apart span member other member' address inside inside'
  · intro apart span member other member' address inside inside'
    exact apart address ⟨span, member, inside⟩ ⟨other, member', inside'⟩

/-- Ranges that follow one another cover all from the first to the last. -/
theorem covers_spansFrom {start : Nat} {lens : List Nat} {address : Nat} :
    Covers (spansFrom start lens) address ↔
      start ≤ address ∧ address < start + lens.sum := by
  induction lens generalizing start with
  | nil => simp [spansFrom]
  | cons len rest ih =>
      simp only [spansFrom, covers_cons, ih, Span.Contains, List.sum_cons]
      omega

theorem spansFrom_apart (start : Nat) (lens : List Nat) :
    (spansFrom start lens).Pairwise Span.Apart := by
  induction lens generalizing start with
  | nil => exact .nil
  | cons len rest ih =>
      refine .cons (fun other member address inside inside' => ?_) (ih (start + len))
      have covered := covers_spansFrom.mp ⟨other, member, inside'⟩
      have below := inside.2
      dsimp only at below
      omega

theorem spansFrom_concat (start : Nat) (lens : List Nat) (len : Nat) :
    spansFrom start (lens ++ [len]) = spansFrom start lens ++ [⟨start + lens.sum, len⟩] := by
  induction lens generalizing start with
  | nil => simp [spansFrom]
  | cons first rest ih => simp [spansFrom, ih, Nat.add_assoc]

/-- Ranges that follow one another end before the last one does. -/
theorem end_le_of_mem_spansFrom {start : Nat} {lens : List Nat} {span : Span}
    (member : span ∈ spansFrom start lens) : span.base + span.len ≤ start + lens.sum := by
  induction lens generalizing start with
  | nil => simp [spansFrom] at member
  | cons len rest ih =>
      rw [List.sum_cons]
      rcases List.mem_cons.mp member with rfl | later
      · dsimp only
        omega
      · have bound := ih later
        omega

/-- What is left of a range below a limit. -/
def Span.below (limit : Nat) (span : Span) : Span :=
  ⟨span.base, min span.len (limit - span.base)⟩

/-- What is left of some ranges below a limit. -/
def keepBelow (limit : Nat) (spans : List Span) : List Span :=
  (spans.map (Span.below limit)).filter fun span => span.len ≠ 0

theorem Span.contains_below {span : Span} {limit address : Nat} :
    (span.below limit).Contains address ↔ span.Contains address ∧ address < limit := by
  unfold Span.below Span.Contains
  dsimp only
  omega

theorem covers_keepBelow {limit : Nat} {spans : List Span} {address : Nat}
    (covered : Covers (keepBelow limit spans) address) :
    Covers spans address ∧ address < limit := by
  obtain ⟨span, member, inside⟩ := covered
  obtain ⟨whole, isMember, rfl⟩ := List.mem_map.mp (List.mem_filter.mp member).1
  obtain ⟨inside, below⟩ := Span.contains_below.mp inside
  exact ⟨⟨whole, isMember, inside⟩, below⟩

theorem keepBelow_apart {limit : Nat} {spans : List Span} (apart : spans.Pairwise Span.Apart) :
    (keepBelow limit spans).Pairwise Span.Apart := by
  apply List.Pairwise.filter
  apply List.Pairwise.map _ _ apart
  intro span other apart address inside inside'
  exact apart address (Span.contains_below.mp inside).1 (Span.contains_below.mp inside').1

end Zsbl.Lib
