/-
Module: Zsbl.Lib.Chain
Purpose: Singly linked, null-terminated lists in a memory whose cells may be
  unallocated, and what unlinking a node makes of them.
Trusted boundary: none
Main exports:
  Chain, Chain.functional, Chain.congr, Chain.unlink_first, Chain.unlink_next,
  UpToFirst, upToFirst_cons, upToFirst_map, find?_forall₂
-/
import Mathlib.Data.List.Forall2
import Mathlib.Logic.Function.Basic

namespace Zsbl.Lib

variable {α : Type*}

/-- Following links from a pointer visits exactly these nodes and ends at the
null pointer.  `next node` is missing when the node is not allocated. -/
inductive Chain (next : α → Option (Option α)) : Option α → List α → Prop where
  | nil : Chain next none []
  | cons {node : α} {link : Option α} {rest : List α}
      (allocated : next node = some link) (tail : Chain next link rest) :
      Chain next (some node) (node :: rest)

namespace Chain

variable {next next' : α → Option (Option α)} {start link : Option α}
  {nodes others before after : List α} {node prev : α}

/-- A pointer starts at most one chain. -/
theorem functional (chain : Chain next start nodes)
    (other : Chain next start others) : nodes = others := by
  induction chain generalizing others with
  | nil => cases other; rfl
  | cons allocated _ ih =>
      cases other with
      | cons allocated' tail =>
          have same := Option.some.inj (allocated.symm.trans allocated')
          subst same
          rw [ih tail]

theorem allocated (chain : Chain next start nodes) (member : node ∈ nodes) :
    ∃ link, next node = some link := by
  induction chain with
  | nil => cases member
  | @cons first link rest here _ ih =>
      rcases List.mem_cons.mp member with rfl | member
      · exact ⟨link, here⟩
      · exact ih member

theorem start_eq (chain : Chain next start nodes) : start = nodes.head? := by
  cases chain <;> rfl

/-- A chain depends on the links of its own nodes only. -/
theorem congr (chain : Chain next start nodes)
    (same : ∀ node ∈ nodes, next' node = next node) :
    Chain next' start nodes := by
  induction chain with
  | nil => exact .nil
  | cons allocated _ ih =>
      refine .cons ((same _ List.mem_cons_self).trans allocated) (ih ?_)
      intro node member
      exact same node (List.mem_cons_of_mem _ member)

/-- Unlink the first node: the list starts at its link. -/
theorem unlink_first (chain : Chain next start (node :: after))
    (link_eq : next node = some link)
    (same : ∀ other ∈ after, next' other = next other) :
    Chain next' link after := by
  cases chain with
  | cons allocated tail =>
      obtain rfl := Option.some.inj (link_eq.symm.trans allocated)
      exact tail.congr same

/-- Unlink the node behind `prev` by storing its link into `prev`. -/
theorem unlink_next (chain : Chain next start (before ++ prev :: node :: after))
    (link_eq : next node = some link) (relinked : next' prev = some link)
    (same : ∀ other ∈ before ++ after, next' other = next other) :
    Chain next' start (before ++ prev :: after) := by
  induction before generalizing start with
  | nil =>
      cases chain with
      | cons _ tail =>
          exact .cons relinked (tail.unlink_first link_eq same)
  | cons first before ih =>
      cases chain with
      | cons allocated tail =>
          refine .cons ((same first List.mem_cons_self).trans allocated) ?_
          refine ih tail ?_
          intro other member
          exact same other (List.mem_cons_of_mem _ member)

end Chain

/-! ## Searches -/

/-- A property of the nodes up to the first one that a search finds. -/
def UpToFirst (found visited : α → Prop) (nodes : List α) : Prop :=
  ∀ before node after, nodes = before ++ node :: after → (∀ other ∈ before, ¬ found other) →
    visited node

theorem upToFirst_nil (found visited : α → Prop) : UpToFirst found visited [] := by
  intro before node after split
  simp at split

theorem upToFirst_cons {found visited : α → Prop} {node : α} {nodes : List α} :
    UpToFirst found visited (node :: nodes) ↔
      visited node ∧ (¬ found node → UpToFirst found visited nodes) := by
  constructor
  · intro upTo
    constructor
    · exact upTo [] node nodes rfl (by simp)
    · intro passed before other after split notBefore
      apply upTo (node :: before) other after (by simp [split])
      intro earlier member
      rcases List.mem_cons.mp member with rfl | member
      · exact passed
      · exact notBefore earlier member
  · rintro ⟨first, rest⟩ before other after split notBefore
    cases before with
    | nil =>
        obtain ⟨rfl, -⟩ := List.cons.inj split
        exact first
    | cons earlier before =>
        obtain ⟨rfl, tail⟩ := List.cons.inj split
        apply rest (notBefore _ List.mem_cons_self) before other after tail
        intro third member
        exact notBefore third (List.mem_cons_of_mem _ member)

instance UpToFirst.decidable (found visited : α → Prop) [DecidablePred found]
    [DecidablePred visited] : (nodes : List α) → Decidable (UpToFirst found visited nodes)
  | [] => isTrue (upToFirst_nil found visited)
  | _ :: nodes =>
      have := UpToFirst.decidable found visited nodes
      decidable_of_iff _ upToFirst_cons.symm

theorem upToFirst_congr {found found' visited visited' : α → Prop} {nodes : List α}
    (finds : ∀ node, found node ↔ found' node) (visits : ∀ node, visited node ↔ visited' node) :
    UpToFirst found visited nodes ↔ UpToFirst found' visited' nodes := by
  simp only [UpToFirst, finds, visits]

theorem upToFirst_map {β : Type*} {found visited : β → Prop} (f : α → β) (nodes : List α) :
    UpToFirst found visited (nodes.map f) ↔
      UpToFirst (fun node => found (f node)) (fun node => visited (f node)) nodes := by
  induction nodes with
  | nil => exact iff_of_true (upToFirst_nil _ _) (upToFirst_nil _ _)
  | cons node nodes ih => rw [List.map_cons, upToFirst_cons, upToFirst_cons, ih]

/-- Two lists that agree element by element find elements that agree. -/
theorem find?_forall₂ {β : Type*} {agree : α → β → Prop} {p : α → Bool} {q : β → Bool}
    {nodes : List α} {others : List β} (all : List.Forall₂ agree nodes others)
    (same : ∀ node other, agree node other → p node = q other) :
    (nodes.find? p = none ∧ others.find? q = none) ∨
      ∃ node other, nodes.find? p = some node ∧ others.find? q = some other ∧
        agree node other := by
  induction all with
  | nil => exact Or.inl ⟨rfl, rfl⟩
  | @cons node other nodes others here _ ih =>
      have both := same node other here
      cases holds : p node with
      | true =>
          right
          exact ⟨node, other, List.find?_cons_of_pos holds,
            List.find?_cons_of_pos (both ▸ holds), here⟩
      | false =>
          have fails : ¬ p node = true := by simp [holds]
          have fails' : ¬ q other = true := by simp [← both, holds]
          rw [List.find?_cons_of_neg fails, List.find?_cons_of_neg fails']
          exact ih

end Zsbl.Lib
