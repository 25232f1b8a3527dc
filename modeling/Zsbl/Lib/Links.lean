/-
Module: Zsbl.Lib.Links
Purpose: Memories of doubly linked nodes, the segments and rings that their
  `next`/`prev` fields spell out, and what a pointer write leaves alone.
Trusted boundary: none
Main exports:
  Links, Links.Segment, Links.Ring, Links.collect, Links.seek
-/
import Mathlib.Data.List.Chain
import Mathlib.Data.List.Nodup
import Mathlib.Logic.Function.Basic

namespace Zsbl.Lib

/-- The two pointer fields of every node of type `α`.  `none` is the null
pointer. -/
structure Links (α : Type*) where
  next : α → Option α
  prev : α → Option α

namespace Links

variable {α : Type*} [DecidableEq α]

/-- Store into the `next` field of one node. -/
def writeNext (m : Links α) (node : α) (value : Option α) : Links α :=
  { m with next := Function.update m.next node value }

/-- Store into the `prev` field of one node. -/
def writePrev (m : Links α) (node : α) (value : Option α) : Links α :=
  { m with prev := Function.update m.prev node value }

/-- Store through a pointer; storing through the null pointer has no result. -/
def setNext (m : Links α) (pointer value : Option α) : Option (Links α) :=
  pointer.map fun node => m.writeNext node value

/-- Store through a pointer; storing through the null pointer has no result. -/
def setPrev (m : Links α) (pointer value : Option α) : Option (Links α) :=
  pointer.map fun node => m.writePrev node value

@[simp] theorem setNext_some (m : Links α) (node : α) (value : Option α) :
    m.setNext (some node) value = some (m.writeNext node value) := rfl

@[simp] theorem setPrev_some (m : Links α) (node : α) (value : Option α) :
    m.setPrev (some node) value = some (m.writePrev node value) := rfl

@[simp] theorem writeNext_prev (m : Links α) (node : α) (value : Option α) :
    (m.writeNext node value).prev = m.prev := rfl

@[simp] theorem writePrev_next (m : Links α) (node : α) (value : Option α) :
    (m.writePrev node value).next = m.next := rfl

@[simp] theorem writeNext_next_self (m : Links α) (node : α)
    (value : Option α) : (m.writeNext node value).next node = value := by
  simp [writeNext]

@[simp] theorem writePrev_prev_self (m : Links α) (node : α)
    (value : Option α) : (m.writePrev node value).prev node = value := by
  simp [writePrev]

theorem writeNext_next_of_ne (m : Links α) {node other : α}
    (value : Option α) (ne : other ≠ node) :
    (m.writeNext node value).next other = m.next other := by
  simp [writeNext, Function.update_of_ne ne]

theorem writePrev_prev_of_ne (m : Links α) {node other : α}
    (value : Option α) (ne : other ≠ node) :
    (m.writePrev node value).prev other = m.prev other := by
  simp [writePrev, Function.update_of_ne ne]

/-! ### Segments -/

/-- Two nodes that point at each other, the first one forwards. -/
def Linked (m : Links α) (left right : α) : Prop :=
  m.next left = some right ∧ m.prev right = some left

/-- Following `next` from `first` visits exactly `inner` before it reaches
`last`, and every `prev` field on the way leads back. -/
def Segment (m : Links α) (first : α) (inner : List α) (last : α) : Prop :=
  List.IsChain m.Linked (first :: (inner ++ [last]))

omit [DecidableEq α] in
@[simp] theorem segment_nil {m : Links α} {first last : α} :
    m.Segment first [] last ↔ m.Linked first last := by
  simp [Segment]

omit [DecidableEq α] in
@[simp] theorem segment_cons {m : Links α} {first node last : α}
    {inner : List α} :
    m.Segment first (node :: inner) last ↔
      m.Linked first node ∧ m.Segment node inner last := by
  simp [Segment]

omit [DecidableEq α] in
/-- A segment splits at every node it passes. -/
theorem segment_append {m : Links α} {first node last : α}
    {left right : List α} :
    m.Segment first (left ++ node :: right) last ↔
      m.Segment first left node ∧ m.Segment node right last := by
  induction left generalizing first with
  | nil => simp
  | cons head tail ih => simp [ih, and_assoc]

/-- A `next` field outside the segment's sources may hold anything. -/
theorem segment_writeNext {m : Links α} {first last node : α}
    {inner : List α} {value : Option α} (fresh : node ∉ first :: inner) :
    (m.writeNext node value).Segment first inner last ↔
      m.Segment first inner last := by
  induction inner generalizing first with
  | nil =>
      have ne : first ≠ node := by simpa [eq_comm] using fresh
      simp [Linked, writeNext_next_of_ne _ _ ne]
  | cons head tail ih =>
      have ne : first ≠ node := fun same => fresh (by simp [same])
      have rest : node ∉ head :: tail := fun member => fresh (by simp [member])
      simp [ih rest, Linked, writeNext_next_of_ne _ _ ne]

/-- A `prev` field outside the segment's targets may hold anything. -/
theorem segment_writePrev {m : Links α} {first last node : α}
    {inner : List α} {value : Option α} (fresh : node ∉ inner ++ [last]) :
    (m.writePrev node value).Segment first inner last ↔
      m.Segment first inner last := by
  induction inner generalizing first with
  | nil =>
      have ne : last ≠ node := by simpa [eq_comm] using fresh
      simp [Linked, writePrev_prev_of_ne _ _ ne]
  | cons head tail ih =>
      have ne : head ≠ node := fun same => fresh (by simp [same])
      have rest : node ∉ tail ++ [last] := fun member =>
        fresh (List.mem_cons_of_mem _ member)
      simp [ih rest, Linked, writePrev_prev_of_ne _ _ ne]

/-! ### Rings -/

/-- A circular list: `head` is the list head and `inner` the entries in list
order. -/
structure Ring (m : Links α) (head : α) (inner : List α) : Prop where
  nodup : (head :: inner).Nodup
  segment : m.Segment head inner head

namespace Ring

variable {m : Links α} {head node : α} {inner left right : List α}

omit [DecidableEq α] in
theorem head_not_mem (ring : m.Ring head inner) : head ∉ inner :=
  (List.nodup_cons.mp ring.nodup).1

omit [DecidableEq α] in
theorem inner_nodup (ring : m.Ring head inner) : inner.Nodup :=
  (List.nodup_cons.mp ring.nodup).2

omit [DecidableEq α] in
/-- The ring cut open at one of its entries. -/
theorem split (ring : m.Ring head (left ++ node :: right)) :
    m.Segment head left node ∧ m.Segment node right head :=
  segment_append.mp ring.segment

omit [DecidableEq α] in
theorem next_head (ring : m.Ring head inner) :
    m.next head = some (inner.headD head) := by
  have segment := ring.segment
  cases inner with
  | nil => exact (segment_nil.mp segment).1
  | cons first rest => exact (segment_cons.mp segment).1.1

omit [DecidableEq α] in
theorem next_mem (ring : m.Ring head (left ++ node :: right)) :
    m.next node = some (right.headD head) := by
  have segment := ring.split.2
  cases right with
  | nil => exact (segment_nil.mp segment).1
  | cons first rest => exact (segment_cons.mp segment).1.1

omit [DecidableEq α] in
theorem prev_mem (ring : m.Ring head (left ++ node :: right)) :
    m.prev node = some (left.getLastD head) := by
  have segment := ring.split.1
  rcases left.eq_nil_or_concat with rfl | ⟨init, last, rfl⟩
  · exact (segment_nil.mp segment).2
  · rw [List.concat_eq_append, segment_append] at segment
    simpa using (segment_nil.mp segment.2).2

omit [DecidableEq α] in
theorem prev_head (ring : m.Ring head inner) :
    m.prev head = some (inner.getLastD head) := by
  have segment := ring.segment
  rcases inner.eq_nil_or_concat with rfl | ⟨init, last, rfl⟩
  · exact (segment_nil.mp segment).2
  · rw [List.concat_eq_append, segment_append] at segment
    simpa using (segment_nil.mp segment.2).2

end Ring

/-! ### Walking a ring -/

/-- The nodes met from `pointer` on before `head`.  There is no result when the
walk meets the null pointer or has not come back after `fuel` nodes. -/
def collect (m : Links α) (head : α) : Nat → Option α → Option (List α)
  | 0, _ => none
  | _ + 1, none => none
  | fuel + 1, some node =>
      if node = head then some []
      else (m.collect head fuel (m.next node)).map (node :: ·)

theorem collect_segment {m : Links α} {first head : α} {inner : List α}
    {fuel : Nat} (fresh : head ∉ inner) (segment : m.Segment first inner head)
    (enough : inner.length < fuel) :
    m.collect head fuel (m.next first) = some inner := by
  induction inner generalizing first fuel with
  | nil =>
      obtain ⟨fuel, rfl⟩ := Nat.exists_eq_succ_of_ne_zero (by omega : fuel ≠ 0)
      simp [(segment_nil.mp segment).1, collect]
  | cons node rest ih =>
      obtain ⟨fuel, rfl⟩ := Nat.exists_eq_succ_of_ne_zero (by omega : fuel ≠ 0)
      obtain ⟨linked, tail⟩ := segment_cons.mp segment
      have ne : node ≠ head := fun same => fresh (by simp [same])
      have freshTail : head ∉ rest := fun member => fresh (by simp [member])
      have enoughTail : rest.length < fuel := by simpa using enough
      have walked := ih freshTail tail enoughTail
      simp [linked.1, collect, ne, walked]

/-- Walking a ring from its head lists its entries in order. -/
theorem Ring.collect {m : Links α} {head : α} {inner : List α} {fuel : Nat}
    (ring : m.Ring head inner) (enough : inner.length < fuel) :
    m.collect head fuel (m.next head) = some inner :=
  collect_segment ring.head_not_mem ring.segment enough

/-- The first node from `pointer` on that is found, or `head` when none before it is. -/
def seek (m : Links α) (head : α) (found : α → Bool) : Nat → Option α → Option α
  | 0, _ => none
  | _ + 1, none => none
  | fuel + 1, some node =>
      if node = head then some head
      else if found node then some node
      else m.seek head found fuel (m.next node)

theorem seek_segment {m : Links α} {first head : α} {inner : List α} {fuel : Nat}
    (found : α → Bool) (fresh : head ∉ inner) (segment : m.Segment first inner head)
    (enough : inner.length < fuel) :
    m.seek head found fuel (m.next first) = some ((inner.find? found).getD head) := by
  induction inner generalizing first fuel with
  | nil =>
      obtain ⟨fuel, rfl⟩ := Nat.exists_eq_succ_of_ne_zero (by omega : fuel ≠ 0)
      simp [(segment_nil.mp segment).1, seek]
  | cons node rest ih =>
      obtain ⟨fuel, rfl⟩ := Nat.exists_eq_succ_of_ne_zero (by omega : fuel ≠ 0)
      obtain ⟨linked, tail⟩ := segment_cons.mp segment
      have ne : node ≠ head := fun same => fresh (by simp [same])
      have freshTail : head ∉ rest := fun member => fresh (by simp [member])
      have enoughTail : rest.length < fuel := by simpa using enough
      have walked := ih freshTail tail enoughTail
      by_cases here : found node
      · simp [linked.1, seek, ne, here]
      · simp [linked.1, seek, ne, here, walked]

/-- Seeking along a ring stops at the first entry that is found. -/
theorem Ring.seek {m : Links α} {head : α} {inner : List α} {fuel : Nat} (found : α → Bool)
    (ring : m.Ring head inner) (enough : inner.length < fuel) :
    m.seek head found fuel (m.next head) = some ((inner.find? found).getD head) :=
  seek_segment found ring.head_not_mem ring.segment enough

end Links

end Zsbl.Lib
