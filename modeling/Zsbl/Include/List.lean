/-
Module: Zsbl.Include.List
Purpose: The intrusive circular lists of include/lib/list.h and what each
  operation does to a well-formed ring.
Trusted boundary: none
Main exports:
  initListHead, listAdd, listAddTail, listDel, listDelInit, listReplace,
  listSwap, listIsLast, listForEach, and their `_ring` specifications
-/
import Zsbl.Lib.Links

namespace Zsbl.Include

open Zsbl.Lib

variable {α : Type*} [DecidableEq α]

/-! ## The functions of list.h

A missing result means that the C function dereferences the null pointer. -/

def initListHead (m : Links α) (list : α) : Links α :=
  (m.writeNext list (some list)).writePrev list (some list)

/-- `__list_add`: the caller passes two neighbours. -/
def listAddAt (m : Links α) (new : α) (prev next : Option α) :
    Option (Links α) := do
  let m ← m.setPrev next (some new)
  let m := m.writeNext new next
  let m := m.writePrev new prev
  m.setNext prev (some new)

def listAdd (m : Links α) (new head : α) : Option (Links α) :=
  listAddAt m new (some head) (m.next head)

def listAddTail (m : Links α) (new head : α) : Option (Links α) :=
  listAddAt m new (m.prev head) (some head)

def listDelAt (m : Links α) (prev next : Option α) : Option (Links α) := do
  let m ← m.setPrev next prev
  m.setNext prev next

/-- `list_del`: the entry's own pointers are cleared afterwards. -/
def listDel (m : Links α) (entry : α) : Option (Links α) := do
  let m ← listDelAt m (m.prev entry) (m.next entry)
  return (m.writeNext entry none).writePrev entry none

def listDelInit (m : Links α) (entry : α) : Option (Links α) := do
  let m ← listDelAt m (m.prev entry) (m.next entry)
  return initListHead m entry

def listReplace (m : Links α) (old new : α) : Option (Links α) := do
  let m := m.writeNext new (m.next old)
  let m ← m.setPrev (m.next new) (some new)
  let m := m.writePrev new (m.prev old)
  m.setNext (m.prev new) (some new)

def listSwap (m : Links α) (entry1 entry2 : α) : Option (Links α) := do
  let pos := m.prev entry2
  let m ← listDel m entry2
  let m ← listReplace m entry1 entry2
  let pos := if pos = some entry1 then some entry2 else pos
  listAdd m entry1 (← pos)

def listIsLast (m : Links α) (list head : α) : Bool :=
  m.next list == some head

def listEmpty (m : Links α) (head : α) : Bool :=
  m.next head == some head

/-- `list_first_entry_or_null`; `none` is the null result. -/
def listFirstOrNull (m : Links α) (head : α) : Option α :=
  if m.next head = some head then none else m.next head

/-- The entries that `list_for_each` visits while its body leaves the links
alone.  The loop ends only at the head, so `fuel` bounds its iterations. -/
def listForEach (m : Links α) (fuel : Nat) (head : α) : Option (List α) :=
  m.collect head fuel (m.next head)

/-- The entry at which a `list_for_each` that stops at the first one found has come to, which
is the head when there is none. -/
def listFind (m : Links α) (fuel : Nat) (head : α) (found : α → Bool) : Option α :=
  m.seek head found fuel (m.next head)

/-! ## Specifications over rings -/

/-- Every node outside `nodes` has the same pointers in both memories. -/
def AgreeOff (m m' : Links α) (nodes : List α) : Prop :=
  ∀ other, other ∉ nodes →
    m'.next other = m.next other ∧ m'.prev other = m.prev other

/-- A node that points at itself both ways, as `INIT_LIST_HEAD` leaves it. -/
def SelfLinked (m : Links α) (node : α) : Prop :=
  m.next node = some node ∧ m.prev node = some node

theorem initListHead_selfLinked (m : Links α) (list : α) :
    SelfLinked (initListHead m list) list := by
  simp [SelfLinked, initListHead]

theorem initListHead_agreeOff (m : Links α) (list : α) :
    AgreeOff m (initListHead m list) [list] := by
  intro other fresh
  have ne : other ≠ list := by simpa using fresh
  simp [initListHead, Links.writeNext_next_of_ne _ _ ne,
    Links.writePrev_prev_of_ne _ _ ne]

theorem initListHead_ring (m : Links α) (list : α) :
    (initListHead m list).Ring list [] := by
  refine ⟨by simp, ?_⟩
  rw [Links.segment_nil]
  exact initListHead_selfLinked m list

variable {m : Links α} {head node new : α} {inner left right : List α}

omit [DecidableEq α] in
/-- Memories that agree on a ring's nodes contain the same ring. -/
theorem AgreeOff.ring {m' : Links α} {nodes : List α}
    (agree : AgreeOff m m' nodes) (ring : m.Ring head inner)
    (apart : ∀ entry ∈ head :: inner, entry ∉ nodes) : m'.Ring head inner := by
  refine ⟨ring.nodup, ?_⟩
  refine List.IsChain.imp_of_mem_imp ?_ ring.segment
  intro first second firstMember secondMember linked
  have same : ∀ entry ∈ head :: (inner ++ [head]), entry ∉ nodes := by
    intro entry member
    exact apart entry (by simpa [or_comm, or_assoc] using member)
  exact ⟨(agree first (same first firstMember)).1.trans linked.1,
    (agree second (same second secondMember)).2.trans linked.2⟩

/-- The memory `__list_add` leaves behind for two nodes that exist. -/
theorem listAddAt_eq (m : Links α) (new prev next : α) :
    listAddAt m new (some prev) (some next) =
      some ((((m.writePrev next (some new)).writeNext new (some next)).writePrev
        new (some prev)).writeNext prev (some new)) := rfl

/-- Insertion between `prev` and `next` keeps every segment that neither leaves
`prev` nor enters `next`. -/
theorem listAddAt_segment {m' : Links α} {prev next first last : α}
    (added : listAddAt m new (some prev) (some next) = some m')
    (source : prev ∉ first :: inner) (target : next ∉ inner ++ [last])
    (fresh : new ∉ first :: (inner ++ [last])) :
    m'.Segment first inner last ↔ m.Segment first inner last := by
  rw [listAddAt_eq, Option.some.injEq] at added
  subst added
  have freshSource : new ∉ first :: inner := fun member =>
    fresh (by simp only [List.mem_cons, List.mem_append] at member ⊢; tauto)
  have freshTarget : new ∉ inner ++ [last] := fun member =>
    fresh (List.mem_cons_of_mem _ member)
  rw [Links.segment_writeNext source, Links.segment_writePrev freshTarget,
    Links.segment_writeNext freshSource, Links.segment_writePrev target]

theorem listAddAt_linked {m' : Links α} {prev next : α}
    (added : listAddAt m new (some prev) (some next) = some m')
    (nePrev : new ≠ prev) (neNext : new ≠ next) :
    m'.Linked prev new ∧ m'.Linked new next := by
  rw [listAddAt_eq, Option.some.injEq] at added
  subst added
  simp [Links.Linked, Links.writeNext_next_of_ne _ _ nePrev,
    Links.writePrev_prev_of_ne _ _ neNext.symm]

theorem listAddAt_agreeOff {m' : Links α} {prev next : α}
    (added : listAddAt m new (some prev) (some next) = some m') :
    AgreeOff m m' [new, prev, next] := by
  rw [listAddAt_eq, Option.some.injEq] at added
  subst added
  intro other fresh
  simp only [List.mem_cons, List.not_mem_nil, or_false, not_or] at fresh
  obtain ⟨neNew, nePrev, neNext⟩ := fresh
  simp [Links.writeNext_next_of_ne, Links.writePrev_prev_of_ne, neNew, nePrev,
    neNext]

/-- `__list_add` joins what leads from the head to `prev` and what leads from
`next` back to the head into one ring around the new node. -/
theorem listAddAt_joins (nodup : (head :: (left ++ right)).Nodup)
    (before : ∀ inner prev, left = inner ++ [prev] → m.Segment head inner prev)
    (after : ∀ next inner, right = next :: inner → m.Segment next inner head)
    (fresh : new ∉ head :: (left ++ right)) :
    ∃ m', listAddAt m new (some (left.getLastD head))
        (some (right.headD head)) = some m' ∧
      m'.Ring head (left ++ new :: right) := by
  refine ⟨_, rfl, ⟨?_, ?_⟩⟩
  · simp only [List.nodup_cons, List.nodup_append, List.mem_append,
      List.mem_cons] at nodup fresh ⊢
    grind
  · have added := listAddAt_eq m new (left.getLastD head) (right.headD head)
    have linked := listAddAt_linked added
    rw [Links.segment_append]
    rcases left.eq_nil_or_concat with rfl | ⟨inner, prev, rfl⟩ <;>
      rcases right with _ | ⟨next, inner'⟩ <;>
      simp only [List.concat_eq_append, List.nil_append, List.append_nil,
        List.getLastD_concat, List.headD_cons, List.headD_nil,
        List.getLastD_nil, List.append_assoc, List.cons_append,
        Links.segment_append, Links.segment_cons, Links.segment_nil]
        at fresh added linked nodup before ⊢
    · exact linked (by grind) (by grind)
    · obtain ⟨into, onward⟩ := linked (by grind) (by grind)
      exact ⟨into, onward, (listAddAt_segment added (by grind) (by grind)
        (by grind)).mpr (after _ _ rfl)⟩
    · obtain ⟨into, onward⟩ := linked (by grind) (by grind)
      exact ⟨⟨(listAddAt_segment added (by grind) (by grind)
        (by grind)).mpr (before _ _ rfl), into⟩, onward⟩
    · obtain ⟨into, onward⟩ := linked (by grind) (by grind)
      exact ⟨⟨(listAddAt_segment added (by grind) (by grind)
          (by grind)).mpr (before _ _ rfl), into⟩, onward,
        (listAddAt_segment added (by grind) (by grind)
          (by grind)).mpr (after _ _ rfl)⟩

/-- `__list_add` between two neighbours of a ring puts the new node between
them. -/
theorem listAddAt_ring (ring : m.Ring head (left ++ right))
    (fresh : new ∉ head :: (left ++ right)) :
    ∃ m', listAddAt m new (some (left.getLastD head))
        (some (right.headD head)) = some m' ∧
      m'.Ring head (left ++ new :: right) := by
  refine listAddAt_joins ring.nodup ?_ ?_ fresh
  · rintro inner prev rfl
    have cut : m.Ring head (inner ++ prev :: right) := by simpa using ring
    exact cut.split.1
  · rintro next inner rfl
    exact ring.split.2

/-- `list_add_tail` appends. -/
theorem listAddTail_ring (ring : m.Ring head inner)
    (fresh : new ∉ head :: inner) :
    ∃ m', listAddTail m new head = some m' ∧ m'.Ring head (inner ++ [new]) ∧
      AgreeOff m m' (new :: head :: inner) := by
  have whole : m.Ring head (inner ++ []) := by simpa using ring
  obtain ⟨m', added, ring'⟩ := listAddAt_ring whole (by simpa using fresh)
  refine ⟨m', by rw [listAddTail, ring.prev_head]; exact added, ring', ?_⟩
  intro other outside
  refine listAddAt_agreeOff added other ?_
  have last : inner.getLastD head ∈ head :: inner := by
    rcases inner.eq_nil_or_concat with rfl | ⟨before, prev, rfl⟩ <;> simp
  simp only [List.headD_nil]
  grind

/-- `list_add` behind an entry of the ring. -/
theorem listAdd_ring (ring : m.Ring head (left ++ node :: right))
    (fresh : new ∉ head :: (left ++ node :: right)) :
    ∃ m', listAdd m new node = some m' ∧
      m'.Ring head (left ++ node :: new :: right) := by
  have cut : m.Ring head ((left ++ [node]) ++ right) := by simpa using ring
  obtain ⟨m', added, ring'⟩ := listAddAt_ring cut (by simpa using fresh)
  refine ⟨m', ?_, by simpa using ring'⟩
  rw [listAdd, ring.next_mem]
  simpa using added

/-- The memory `__list_del` leaves behind for two nodes that exist. -/
theorem listDelAt_eq (m : Links α) (prev next : α) :
    listDelAt m (some prev) (some next) =
      some ((m.writePrev next (some prev)).writeNext prev (some next)) := rfl

/-- `__list_del` between the neighbours of an entry closes the ring over it. -/
theorem listDelAt_ring (ring : m.Ring head (left ++ node :: right)) :
    ∃ m', listDelAt m (m.prev node) (m.next node) = some m' ∧
      m'.Ring head (left ++ right) ∧ AgreeOff m m' (head :: (left ++ right)) := by
  rw [ring.prev_mem, ring.next_mem, listDelAt_eq]
  have nodup := ring.nodup
  have segment := ring.segment
  refine ⟨_, rfl, ⟨?_, ?_⟩, ?_⟩
  · simp only [List.nodup_cons, List.nodup_append, List.mem_append,
      List.mem_cons] at nodup ⊢
    grind
  · rcases left.eq_nil_or_concat with rfl | ⟨before, prev, rfl⟩ <;>
      rcases right with _ | ⟨next, after⟩ <;>
      simp only [List.concat_eq_append, List.nil_append, List.append_nil,
        List.getLastD_concat, List.headD_cons, List.headD_nil,
        List.getLastD_nil, List.append_assoc, List.cons_append,
        Links.segment_append, Links.segment_cons, Links.segment_nil]
        at nodup segment ⊢
    · simp [Links.Linked]
    · refine ⟨by simp [Links.Linked], ?_⟩
      rw [Links.segment_writeNext (by grind), Links.segment_writePrev (by grind)]
      exact segment.2.2
    · refine ⟨?_, by simp [Links.Linked]⟩
      rw [Links.segment_writeNext (by grind), Links.segment_writePrev (by grind)]
      exact segment.1
    · refine ⟨?_, by simp [Links.Linked], ?_⟩ <;>
        rw [Links.segment_writeNext (by grind),
          Links.segment_writePrev (by grind)]
      · exact segment.1
      · exact segment.2.2.2
  · intro other outside
    have last : left.getLastD head ∈ head :: (left ++ right) := by
      rcases left.eq_nil_or_concat with rfl | ⟨before, prev, rfl⟩ <;> simp
    have first : right.headD head ∈ head :: (left ++ right) := by
      cases right <;> simp
    have neLast : other ≠ left.getLastD head := fun same =>
      outside (same ▸ last)
    have neFirst : other ≠ right.headD head := fun same =>
      outside (same ▸ first)
    exact ⟨Links.writeNext_next_of_ne _ _ neLast,
      Links.writePrev_prev_of_ne _ _ neFirst⟩

/-- `list_del` unlinks the entry and clears its pointers. -/
theorem listDel_ring (ring : m.Ring head (left ++ node :: right)) :
    ∃ m', listDel m node = some m' ∧ m'.Ring head (left ++ right) ∧
      AgreeOff m m' (node :: head :: (left ++ right)) := by
  obtain ⟨m₁, deleted, ring₁, agree⟩ := listDelAt_ring ring
  have outside : node ∉ head :: (left ++ right) := by
    have nodup := ring.nodup
    simp only [List.nodup_cons, List.nodup_append, List.mem_append,
      List.mem_cons] at nodup ⊢
    grind
  have cleared : AgreeOff m₁ ((m₁.writeNext node none).writePrev node none)
      [node] := by
    intro other fresh
    have ne : other ≠ node := by simpa using fresh
    simp [Links.writeNext_next_of_ne _ _ ne, Links.writePrev_prev_of_ne _ _ ne]
  refine ⟨_, by simp [listDel, deleted]; rfl, ?_, ?_⟩
  · refine cleared.ring ring₁ ?_
    intro entry member single
    exact outside (by simpa [List.mem_singleton.mp single] using member)
  · intro other fresh
    have apart : other ∉ [node] := by grind
    have apart' : other ∉ head :: (left ++ right) := by grind
    exact ⟨(cleared other apart).1.trans (agree other apart').1,
      (cleared other apart).2.trans (agree other apart').2⟩

/-- `list_del_init` unlinks the entry and leaves it pointing at itself. -/
theorem listDelInit_ring (ring : m.Ring head (left ++ node :: right)) :
    ∃ m', listDelInit m node = some m' ∧ m'.Ring head (left ++ right) ∧
      SelfLinked m' node ∧ AgreeOff m m' (node :: head :: (left ++ right)) := by
  obtain ⟨m₁, deleted, ring₁, agree⟩ := listDelAt_ring ring
  have outside : node ∉ head :: (left ++ right) := by
    have nodup := ring.nodup
    simp only [List.nodup_cons, List.nodup_append, List.mem_append,
      List.mem_cons] at nodup ⊢
    grind
  have cleared := initListHead_agreeOff m₁ node
  refine ⟨initListHead m₁ node, by simp [listDelInit, deleted], ?_,
    initListHead_selfLinked m₁ node, ?_⟩
  · refine cleared.ring ring₁ ?_
    intro entry member single
    exact outside (by simpa [List.mem_singleton.mp single] using member)
  · intro other fresh
    have apart : other ∉ [node] := by grind
    have apart' : other ∉ head :: (left ++ right) := by grind
    exact ⟨(cleared other apart).1.trans (agree other apart').1,
      (cleared other apart).2.trans (agree other apart').2⟩

/-- `list_del` on the head succeeds, and no walk over the list finds its first entry any more. -/
theorem listDel_head (ring : m.Ring head inner) :
    ∃ m', listDel m head = some m' ∧ m'.next head = none := by
  refine ⟨_, by rw [listDel, ring.prev_head, ring.next_head, listDelAt_eq]; rfl, ?_⟩
  simp

/-- `list_del` on a node that points at itself touches no other node. -/
theorem listDel_selfLinked (self : SelfLinked m node) :
    ∃ m', listDel m node = some m' ∧ AgreeOff m m' [node] := by
  refine ⟨_, by simp [listDel, self.1, self.2, listDelAt_eq]; rfl, ?_⟩
  intro other fresh
  have ne : other ≠ node := by simpa using fresh
  simp [Links.writeNext_next_of_ne _ _ ne, Links.writePrev_prev_of_ne _ _ ne]

/-- `list_replace` is an insertion between the neighbours of the old node. -/
theorem listReplace_eq {prev next : α} (nextEq : m.next node = some next)
    (prevEq : m.prev node = some prev) (neNext : node ≠ next) :
    listReplace m node new = listAddAt m new (some prev) (some next) := by
  simp [listReplace, listAddAt_eq, nextEq, prevEq, Links.writeNext,
    Links.writePrev, Links.setPrev, Links.setNext,
    Function.update_of_ne neNext]

/-- `list_replace` puts the new node at the old one's place. -/
theorem listReplace_ring (ring : m.Ring head (left ++ node :: right))
    (fresh : new ∉ head :: (left ++ node :: right)) :
    ∃ m', listReplace m node new = some m' ∧
      m'.Ring head (left ++ new :: right) := by
  have nodup := ring.nodup
  simp only [List.nodup_cons, List.nodup_append, List.mem_append,
    List.mem_cons] at nodup fresh
  have first : right.headD head ∈ head :: right := by cases right <;> simp
  rw [listReplace_eq ring.next_mem ring.prev_mem (by grind)]
  refine listAddAt_joins ?_ ?_ ?_ (by grind)
  · simp only [List.nodup_cons, List.nodup_append, List.mem_append]
    grind
  · rintro inner prev rfl
    have cut : m.Ring head (inner ++ prev :: node :: right) := by
      simpa using ring
    exact cut.split.1
  · rintro next inner rfl
    exact (Links.segment_cons.mp ring.split.2).2

/-- `list_swap` exchanges two entries, adjacent or not. -/
theorem listSwap_ring {node' : α} {middle : List α}
    (ring : m.Ring head (left ++ node :: (middle ++ node' :: right))) :
    ∃ m', listSwap m node node' = some m' ∧
      m'.Ring head (left ++ node' :: (middle ++ node :: right)) := by
  have nodup := ring.nodup
  simp only [List.nodup_cons, List.nodup_append, List.mem_append,
    List.mem_cons] at nodup
  have ring₀ : m.Ring head ((left ++ node :: middle) ++ node' :: right) := by
    simpa using ring
  obtain ⟨m₁, deleted, ring₁, -⟩ := listDel_ring ring₀
  have cut₁ : m₁.Ring head (left ++ node :: (middle ++ right)) := by
    simpa using ring₁
  have fresh' : node' ∉ head :: (left ++ node :: (middle ++ right)) := by grind
  obtain ⟨m₂, replaced, ring₂⟩ := listReplace_ring cut₁ fresh'
  have pos : m.prev node' = some ((left ++ node :: middle).getLastD head) :=
    ring₀.prev_mem
  rcases middle.eq_nil_or_concat with rfl | ⟨inner, last, rfl⟩
  · -- adjacent entries: the position to re-insert at is the replaced one
    have fresh : node ∉ head :: (left ++ node' :: ([] ++ right)) := by grind
    obtain ⟨m₃, added, ring₃⟩ := listAdd_ring ring₂ fresh
    refine ⟨m₃, ?_, by simpa using ring₃⟩
    simp [listSwap, deleted, replaced, pos, added]
  · have cut₂ : m₂.Ring head ((left ++ node' :: inner) ++ last :: right) := by
      simpa using ring₂
    have fresh : node ∉ head :: ((left ++ node' :: inner) ++ last :: right) := by
      grind
    obtain ⟨m₃, added, ring₃⟩ := listAdd_ring cut₂ fresh
    have ne : last ≠ node := by grind
    have posLast : m.prev node' = some last := by
      rw [pos, List.concat_eq_append, ← List.cons_append, ← List.append_assoc,
        List.getLastD_concat]
    refine ⟨m₃, ?_, by simpa using ring₃⟩
    simp [listSwap, deleted, replaced, posLast, added, ne]

/-- `list_for_each` visits the entries in list order. -/
theorem listForEach_ring {fuel : Nat} (ring : m.Ring head inner)
    (enough : inner.length < fuel) : listForEach m fuel head = some inner :=
  ring.collect enough

theorem listFind_ring {fuel : Nat} (found : α → Bool) (ring : m.Ring head inner)
    (enough : inner.length < fuel) :
    listFind m fuel head found = some ((inner.find? found).getD head) :=
  ring.seek found enough

theorem listIsLast_ring (ring : m.Ring head (left ++ node :: right)) :
    listIsLast m node head = right.isEmpty := by
  have notMem : head ∉ right := by
    have := ring.head_not_mem
    grind
  rw [listIsLast, ring.next_mem]
  cases right with
  | nil => simp
  | cons next after =>
      have ne : next ≠ head := fun same => notMem (by simp [same])
      simp [ne]

theorem listFirstOrNull_ring (ring : m.Ring head inner) :
    listFirstOrNull m head = inner.head? := by
  have notMem := ring.head_not_mem
  rw [listFirstOrNull, ring.next_head]
  cases inner with
  | nil => simp
  | cons first rest =>
      have ne : first ≠ head := fun same => notMem (by simp [same])
      simp [ne]

end Zsbl.Include
