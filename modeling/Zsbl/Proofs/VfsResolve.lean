/-
Module: Zsbl.Proofs.VfsResolve
Purpose: Path lookup computes what the path means, and finds the same again.
Trusted boundary: none
Main exports:
  resolveFrom, lookupFrom_eq, FsCode.Steady, resolveEx, vfsLookupNodeEx_eq, lookup_is_fold
-/
import Zsbl.Proofs.VfsNames

namespace Zsbl.Common

open Zsbl.Lib

variable {ω π : Type} {s s' : Vfs ω π} {code : FsCode ω π}

/-! ## Names one after the other -/

/-- The names of a path, of which the last may be left at its mountpoint. -/
def resolveFrom (code : FsCode ω π) (followLast : Bool) :
    Vfs ω π × Option (Nat × Option Nat) → List CStr → Vfs ω π × Option (Nat × Option Nat)
  | state, [] => state
  | state, [last] => resolveStep code followLast state last
  | state, name :: next :: names =>
      resolveFrom code followLast (resolveStep code true state name) (next :: names)

theorem resolveFrom_true (state : Vfs ω π × Option (Nat × Option Nat)) (names : List CStr) :
    resolveFrom code true state names = names.foldl (resolveStep code true) state := by
  induction names generalizing state with
  | nil => rfl
  | cons name names ih =>
      cases names with
      | nil => rfl
      | cons next names => exact ih _

theorem resolveFrom_cons {followLast : Bool} (state : Vfs ω π × Option (Nat × Option Nat))
    (name : CStr) (names : List CStr) :
    resolveFrom code followLast state (name :: names) =
      if names = [] then resolveStep code followLast state name
      else resolveFrom code followLast (resolveStep code true state name) names := by
  cases names <;> rfl

theorem resolveFrom_none {followLast : Bool} (s : Vfs ω π) (names : List CStr) :
    resolveFrom code followLast (s, none) names = (s, none) := by
  induction names with
  | nil => rfl
  | cons name names ih =>
      cases names with
      | nil => rfl
      | cons next names => exact ih

theorem resolveFrom_empty {followLast : Bool} (s : Vfs ω π) (position : Nat × Option Nat)
    (names : List CStr) :
    resolveFrom code followLast (s, some position) ([] :: names) = (s, none) := by
  cases names with
  | nil => simp [resolveFrom, resolveStep]
  | cons next names => simp [resolveFrom, resolveStep, resolveFrom_none]

/-- The node behind a name, and the nodes that were added for it. -/
theorem resolveStep_spec (materialises : code.Materialises) (names : Namespace s)
    (roomy : s.Roomy) {position : Nat × Option Nat} (here : Position s position) (follow : Bool)
    (name : CStr) :
    Builds s (resolveStep code follow (s, some position) name).1 ∧
      ∀ position', (resolveStep code follow (s, some position) name).2 = some position' →
        Position (resolveStep code follow (s, some position) name).1 position' := by
  unfold resolveStep
  by_cases empty : name = []
  · simp only [if_pos empty]
    exact ⟨.refl, by simp⟩
  · simp only [if_neg empty]
    obtain ⟨-, builds, child⟩ := childOr_spec materialises names roomy here name
    generalize childOr code s position.2 position.1 name = made at builds child
    obtain ⟨s', next⟩ := made
    refine ⟨builds, fun position' same => ?_⟩
    obtain ⟨id, isNext, rfl⟩ := Option.map_eq_some_iff.mp same
    obtain ⟨tree, grown⟩ := builds.tree names.tree
    obtain ⟨node, live, -⟩ := childNamed_spec tree (child id isNext)
    have at' : Position s' (id, position.2) :=
      ⟨Option.isSome_iff_exists.mpr ⟨node, live⟩, (here.extends grown).mount⟩
    cases follow with
    | true => exact (builds.names names).crossAll_position at'
    | false => exact at'

/-- The loop of the lookup goes along the names. -/
theorem lookupFrom_eq (materialises : code.Materialises) {followLast : Bool} {fuel : Nat}
    (names : Namespace s) (roomy : s.Roomy) {position : Nat × Option Nat}
    (here : Position s position) {cursor : CStr} (more : cursor ≠ [])
    (enough : cursor.length ≤ fuel) :
    lookupFrom code followLast fuel s position.1 position.2 cursor =
      some (resolveFrom code followLast (s, some position) (namesOf cursor)) := by
  induction fuel generalizing s position cursor with
  | zero => exact absurd (List.eq_nil_of_length_eq_zero (Nat.le_zero.mp enough)) more
  | succ fuel ih =>
      have shorter : (cursor.dropWhile (· ≠ slash)).tail.length ≤ fuel := by
        have le := (List.dropWhile_suffix (l := cursor) (· ≠ slash)).length_le
        rw [List.length_tail]
        omega
      rw [namesOf_cons more]
      obtain ⟨first, others, rfl⟩ := List.exists_cons_of_ne_nil more
      generalize segment : (first :: others).takeWhile (· ≠ slash) = name
      generalize rest : (first :: others).dropWhile (· ≠ slash) = behind at shorter
      simp only [lookupFrom, segment, rest]
      by_cases empty : name = []
      · subst empty
        rw [if_pos rfl, resolveFrom_empty]
        rfl
      · obtain ⟨segmentEq, builds, child⟩ := childOr_spec materialises names roomy here name
        rw [if_neg empty, roomy.malloc]
        simp only [segmentEq, Bool.not_true, Bool.false_eq_true, if_false, Option.bind_eq_bind,
          Option.bind_some]
        have step (follow : Bool) : resolveStep code follow (s, some position) name =
            ((childOr code s position.2 position.1 name).1,
              (childOr code s position.2 position.1 name).2.map fun id =>
                if follow then
                  crossAll (childOr code s position.2 position.1 name).1 (id, position.2)
                else (id, position.2)) := by
          simp [resolveStep, empty]
        have after (follow : Bool) := (resolveStep_spec materialises names roomy here follow name).2
        simp only [step] at after
        generalize childOr code s position.2 position.1 name = made at builds child step after
        obtain ⟨s₁, next⟩ := made
        cases next with
        | none =>
            have nowhere : some (s₁, (none : Option (Nat × Option Nat))) =
                some (resolveFrom code followLast (s, some position)
                  (name :: namesOf behind.tail)) := by
              rw [resolveFrom_cons, step, step]
              split
              · rfl
              · exact congrArg some (resolveFrom_none s₁ _).symm
            exact nowhere
        | some id =>
            have names₁ : Namespace s₁ := builds.names names
            have at₁ : Position s₁ (crossAll s₁ (id, position.2)) := after true _ rfl
            have live : (s₁.nodes id).isSome := (after false (id, position.2) rfl).node
            have follow : vfsFollowMountMnt s₁ id position.2 =
              some (crossAll s₁ (id, position.2)) := names₁.vfsFollowMountMnt_eq live
            rw [resolveFrom_cons, step, step]
            simp only [follow, Option.bind_some, Option.map_some, if_true]
            by_cases last : behind = [] ∨ behind = [slash]
            · have none : namesOf behind.tail = [] := by
                rcases last with rfl | rfl
                · exact namesOf_nil
                · exact namesOf_nil
              rw [if_pos last, if_pos none]
              cases followLast with
              | true => rfl
              | false => rfl
            · have more' : behind.tail ≠ [] := by
                rw [← rest] at last ⊢
                exact dropWhile_tail_ne_nil last
              rw [if_neg last, if_neg fun none => more' (namesOf_eq_nil.mp none)]
              exact ih names₁ (builds.roomy names.tree roomy) at₁ more' shorter

/-- A walk builds nodes and ends at a position of the new state. -/
theorem resolveFrom_spec (materialises : code.Materialises) {followLast : Bool}
    (names : List CStr) (ns : Namespace s) (roomy : s.Roomy) {position : Nat × Option Nat}
    (here : Position s position) :
    Builds s (resolveFrom code followLast (s, some position) names).1 ∧
      ∀ position', (resolveFrom code followLast (s, some position) names).2 = some position' →
        Position (resolveFrom code followLast (s, some position) names).1 position' := by
  induction names generalizing s position with
  | nil =>
      refine ⟨.refl, fun position' same => ?_⟩
      obtain rfl := Option.some.inj same
      exact here
  | cons name names ih =>
      have step (follow : Bool) := resolveStep_spec materialises ns roomy here follow name
      rw [resolveFrom_cons]
      split
      · exact step followLast
      · obtain ⟨builds, there⟩ := step true
        generalize resolveStep code true (s, some position) name = state at builds there
        obtain ⟨s₁, next⟩ := state
        cases next with
        | none =>
            rw [resolveFrom_none]
            exact ⟨builds, by simp⟩
        | some position₁ =>
            obtain ⟨builds', there'⟩ := ih (builds.names ns) (builds.roomy ns.tree roomy)
              (there position₁ rfl)
            exact ⟨builds.trans builds', there'⟩

/-- Where a name leads to once it has been looked up. -/
theorem resolveStep_again (materialises : code.Materialises) (ns : Namespace s) (roomy : s.Roomy)
    {position position' : Nat × Option Nat} (here : Position s position) {follow : Bool}
    {name : CStr} {s₁ t : Vfs ω π}
    (found : resolveStep code follow (s, some position) name = (s₁, some position'))
    (tree : TreeInv t) (grown : Extends s₁ t) :
    resolveStep code follow (t, some position) name = (t, some position') := by
  obtain ⟨-, builds, child⟩ := childOr_spec materialises ns roomy here name
  unfold resolveStep at found ⊢
  by_cases empty : name = []
  · simp [empty] at found
  · simp only [if_neg empty] at found ⊢
    generalize childOr code s position.2 position.1 name = made at found builds child
    obtain ⟨s₂, next⟩ := made
    obtain ⟨rfl, isNext⟩ := Prod.mk.inj found
    obtain ⟨id, rfl, rfl⟩ := Option.map_eq_some_iff.mp isNext
    obtain ⟨tree₂, grown₂⟩ := builds.tree ns.tree
    have there : childNamed t position.1 name = some id :=
      childNamed_extends tree grown tree₂ (child id rfl)
    have again : childOr code t position.2 position.1 name = (t, some id) := by
      unfold childOr
      rw [there]
    have at' : Position s₂ (id, position.2) := by
      obtain ⟨node, live, -⟩ := childNamed_spec tree₂ (child id rfl)
      exact ⟨Option.isSome_iff_exists.mpr ⟨node, live⟩, (here.extends grown₂).mount⟩
    have same : crossAll t (id, position.2) = crossAll s₂ (id, position.2) :=
      (builds.names ns).crossAll_extends grown at'
    simp only [again, Option.map_some, same]

/-- Names that were looked up lead to the same node as long as nodes are only added. -/
theorem resolveFrom_again (materialises : code.Materialises) {followLast : Bool}
    {names : List CStr} (ns : Namespace s) (roomy : s.Roomy)
    {position position' : Nat × Option Nat} (here : Position s position) {t : Vfs ω π}
    (found : resolveFrom code followLast (s, some position) names = (s', some position'))
    (tree : TreeInv t) (grown : Extends s' t) :
    resolveFrom code followLast (t, some position) names = (t, some position') := by
  induction names generalizing s position with
  | nil =>
      obtain ⟨-, same⟩ := Prod.mk.inj found
      obtain rfl := Option.some.inj same
      rfl
  | cons name names ih =>
      rw [resolveFrom_cons] at found ⊢
      split at found
      · next last =>
        rw [if_pos last]
        exact resolveStep_again materialises ns roomy here found tree grown
      · next notLast =>
        rw [if_neg notLast]
        obtain ⟨builds, there⟩ := resolveStep_spec materialises ns roomy here true name
        cases first : resolveStep code true (s, some position) name with
        | mk s₁ next =>
            rw [first] at builds there found
            cases next with
            | none =>
                rw [resolveFrom_none] at found
                cases found
            | some position₁ =>
                have ns₁ := builds.names ns
                have roomy₁ := builds.roomy ns.tree roomy
                have rest : Builds s₁ (resolveFrom code followLast (s₁, some position₁) names).1 :=
                  (resolveFrom_spec materialises names ns₁ roomy₁ (there position₁ rfl)).1
                rw [found] at rest
                have grown₁ := (rest.tree ns₁.tree).2.trans grown
                rw [resolveStep_again materialises ns roomy here first tree grown₁]
                exact ih ns₁ roomy₁ (there position₁ rfl) found

/-- A lookup that is refused leaves the name missing and is refused again. -/
def FsCode.Steady (code : FsCode ω π) : Prop :=
  ∀ address lookup s mount dir name s', code.lookup address = some lookup →
    lookup s mount dir name = some (s', none) →
    childNamed s' dir name = none ∧ lookup s' mount dir name = some (s', none)

/-- A step that fails fails again. -/
theorem resolveStep_refused (materialises : code.Materialises) (steady : code.Steady)
    (ns : Namespace s) (roomy : s.Roomy) {position : Nat × Option Nat}
    (here : Position s position) {follow : Bool} {name : CStr}
    (refused : resolveStep code follow (s, some position) name = (s', none)) :
    resolveStep code follow (s', some position) name = (s', none) := by
  by_cases empty : name = []
  · simp [resolveStep, empty]
  · have step (t : Vfs ω π) : resolveStep code follow (t, some position) name =
        ((childOr code t position.2 position.1 name).1,
          (childOr code t position.2 position.1 name).2.map fun id =>
            if follow then crossAll (childOr code t position.2 position.1 name).1 (id, position.2)
            else (id, position.2)) := by
      simp [resolveStep, empty]
    obtain ⟨-, builds, -⟩ := childOr_spec materialises ns roomy here name
    rw [step] at refused ⊢
    have isNone : childOr code s position.2 position.1 name = (s', none) := by
      obtain ⟨state, none⟩ := Prod.mk.inj refused
      exact Prod.ext state (Option.map_eq_none_iff.mp none)
    rw [isNone] at builds
    have mounts : s'.mounts = s.mounts := (builds.tree ns.tree).2.mounts
    suffices again : childOr code s' position.2 position.1 name = (s', none) by
      rw [again]
      rfl
    unfold childOr at isNone ⊢
    cases found : childNamed s position.1 name with
    | some id =>
        rw [found] at isNone
        cases isNone
    | none =>
        simp only [found] at isNone
        unfold materialise at isNone ⊢
        rw [mounts]
        cases shown : position.2.bind s.mounts with
        | none =>
            simp only [shown] at isNone
            obtain ⟨rfl, -⟩ := Prod.mk.inj isNone
            rw [found]
        | some mount =>
            simp only [shown] at isNone
            cases lookup : mount.sops.bind code.lookup with
            | none =>
                simp only [lookup] at isNone
                obtain ⟨rfl, -⟩ := Prod.mk.inj isNone
                simp only [found, lookup]
            | some lookupFn =>
                simp only [lookup] at isNone
                obtain ⟨address, -, isLookup⟩ := Option.bind_eq_some_iff.mp lookup
                obtain ⟨s₁, made, done, -⟩ := materialises address lookupFn s mount position.1
                  name isLookup ns roomy here.node found
                rw [done] at isNone
                obtain ⟨rfl, rfl⟩ := Prod.mk.inj isNone
                obtain ⟨missing, again⟩ := steady address lookupFn s mount position.1 name s₁
                  isLookup done
                rw [missing]
                simp only [lookup, again, Option.getD_some]

/-- Names that lead nowhere do so again. -/
theorem resolveFrom_refused (materialises : code.Materialises) (steady : code.Steady)
    {followLast : Bool} {names : List CStr} (ns : Namespace s) (roomy : s.Roomy)
    {position : Nat × Option Nat} (here : Position s position)
    (refused : resolveFrom code followLast (s, some position) names = (s', none)) :
    resolveFrom code followLast (s', some position) names = (s', none) := by
  induction names generalizing s position with
  | nil => cases refused
  | cons name names ih =>
      rw [resolveFrom_cons] at refused ⊢
      split at refused
      · next last =>
        rw [if_pos last]
        exact resolveStep_refused materialises steady ns roomy here refused
      · next notLast =>
        rw [if_neg notLast]
        obtain ⟨builds, there⟩ := resolveStep_spec materialises ns roomy here true name
        cases first : resolveStep code true (s, some position) name with
        | mk s₁ next =>
            rw [first] at builds there refused
            cases next with
            | none =>
                rw [resolveFrom_none] at refused
                obtain ⟨rfl, -⟩ := Prod.mk.inj refused
                rw [resolveStep_refused materialises steady ns roomy here first, resolveFrom_none]
            | some position₁ =>
                have ns₁ := builds.names ns
                have roomy₁ := builds.roomy ns.tree roomy
                have rest : Builds s₁ (resolveFrom code followLast (s₁, some position₁) names).1 :=
                  (resolveFrom_spec materialises names ns₁ roomy₁ (there position₁ rfl)).1
                rw [refused] at rest
                obtain ⟨tree', grown'⟩ := rest.tree ns₁.tree
                rw [resolveStep_again materialises ns roomy here first tree' grown']
                exact ih ns₁ roomy₁ (there position₁ rfl) refused

/-! ## Paths -/

/-- The node that a path names, of which the last may be left at its mountpoint. -/
def resolveEx (code : FsCode ω π) (followLast : Bool) (s : Vfs ω π) (path : CStr) :
    Vfs ω π × Option (Nat × Option Nat) :=
  match s.rootNode with
  | none => (s, none)
  | some root =>
      if pathNames path = [] then
        (s, some (if followLast then crossAll s (root, none) else (root, none)))
      else
        resolveFrom code followLast (s, some (crossAll s (root, none))) (pathNames path)

/-- Following the last mount too is what `vfs_lookup` does. -/
theorem resolveEx_true (s : Vfs ω π) (path : CStr) :
    resolveEx code true s path = resolve code s path := by
  unfold resolveEx resolve
  cases s.rootNode with
  | none =>
      have nowhere : resolveFrom code true (s, none) (pathNames path) = (s, none) :=
        resolveFrom_none s _
      rw [resolveFrom_true] at nowhere
      exact nowhere.symm
  | some root =>
      by_cases none : pathNames path = []
      · simp [none]
      · simp only [if_neg none, resolveFrom_true, Option.map_some]

theorem Namespace.root_position (ns : Namespace s) {root : Nat} (isRoot : s.rootNode = some root) :
    Position s (root, none) := by
  obtain ⟨node, live, -⟩ := ns.tree.root root isRoot
  exact ⟨Option.isSome_iff_exists.mpr ⟨node, live⟩, by simp⟩

/-- Path lookup finds the node that the path names. -/
theorem vfsLookupNodeEx_eq (materialises : code.Materialises) (ns : Namespace s)
    (roomy : s.Roomy) {path : CStr} (absolute : vfsIsPathValid path = true) (followLast : Bool) :
    vfsLookupNodeEx code s path followLast = some (resolveEx code followLast s path) := by
  unfold vfsLookupNodeEx resolveEx
  cases isRoot : s.rootNode with
  | none => rfl
  | some root =>
      obtain ⟨tail, rfl⟩ := absolute_cons absolute
      have here := ns.root_position isRoot
      have follow : vfsFollowMountMnt s root none = some (crossAll s (root, none)) :=
        ns.vfsFollowMountMnt_eq here.node
      simp only [follow, Option.bind_eq_bind, Option.bind_some]
      by_cases last : tail = []
      · subst last
        have none : pathNames [slash] = [] := namesOf_nil
        rw [if_pos rfl, if_pos none]
        cases followLast with
        | true => rfl
        | false => rfl
      · have more : ¬ slash :: tail = [slash] := fun same => last (List.cons.inj same).2
        have names : ¬ pathNames (slash :: tail) = [] := fun none => last (namesOf_eq_nil.mp none)
        rw [if_neg more, if_neg names]
        exact lookupFrom_eq materialises ns roomy (ns.crossAll_position here) last
          (Nat.le_succ _)

/-- Resolving a path builds nodes and ends at a position of the new state. -/
theorem resolveEx_spec (materialises : code.Materialises) (ns : Namespace s) (roomy : s.Roomy)
    (followLast : Bool) (path : CStr) :
    Builds s (resolveEx code followLast s path).1 ∧
      ∀ position, (resolveEx code followLast s path).2 = some position →
        Position (resolveEx code followLast s path).1 position := by
  unfold resolveEx
  cases isRoot : s.rootNode with
  | none => exact ⟨.refl, by simp⟩
  | some root =>
      have here := ns.root_position isRoot
      by_cases none : pathNames path = []
      · simp only [if_pos none]
        refine ⟨.refl, fun position same => ?_⟩
        obtain rfl := Option.some.inj same
        cases followLast with
        | true => exact ns.crossAll_position here
        | false => exact here
      · simp only [if_neg none]
        exact resolveFrom_spec materialises _ ns roomy (ns.crossAll_position here)

/-- A path that was looked up names the same node as long as nodes are only added. -/
theorem resolveEx_again (materialises : code.Materialises) (ns : Namespace s) (roomy : s.Roomy)
    {followLast : Bool} {path : CStr} {position : Nat × Option Nat} {t : Vfs ω π}
    (found : resolveEx code followLast s path = (s', some position)) (tree : TreeInv t)
    (grown : Extends s' t) : resolveEx code followLast t path = (t, some position) := by
  have builds := (resolveEx_spec materialises ns roomy followLast path).1
  rw [found] at builds
  have all := (builds.tree ns.tree).2.trans grown
  unfold resolveEx at found ⊢
  rw [all.rootNode]
  cases isRoot : s.rootNode with
  | none =>
      rw [isRoot] at found
      cases found
  | some root =>
      have here := ns.root_position isRoot
      have same : crossAll t (root, none) = crossAll s (root, none) :=
        ns.crossAll_extends all here
      simp only [isRoot] at found
      simp only [same]
      split at found
      · next none =>
        obtain ⟨-, result⟩ := Prod.mk.inj found
        rw [if_pos none, result]
      · next none =>
        rw [if_neg none]
        exact resolveFrom_again materialises ns roomy (ns.crossAll_position here) found tree grown

/-- A path that names nothing names nothing again. -/
theorem resolveEx_refused (materialises : code.Materialises) (steady : code.Steady)
    (ns : Namespace s) (roomy : s.Roomy) {followLast : Bool} {path : CStr}
    (refused : resolveEx code followLast s path = (s', none)) :
    resolveEx code followLast s' path = (s', none) := by
  have builds := (resolveEx_spec materialises ns roomy followLast path).1
  rw [refused] at builds
  have grown := (builds.tree ns.tree).2
  unfold resolveEx at refused ⊢
  rw [grown.rootNode]
  cases isRoot : s.rootNode with
  | none => rfl
  | some root =>
      have here := ns.root_position isRoot
      have same : crossAll s' (root, none) = crossAll s (root, none) :=
        ns.crossAll_extends grown here
      simp only [isRoot] at refused
      simp only [same]
      split at refused
      · cases (Prod.mk.inj refused).2
      · next none =>
        rw [if_neg none]
        exact resolveFrom_refused materialises steady ns roomy (ns.crossAll_position here) refused

theorem vfsLookup_eq (materialises : code.Materialises) (ns : Namespace s) (roomy : s.Roomy)
    {path : CStr} (absolute : vfsIsPathValid path = true) :
    vfsLookup code s (some path) =
      some ((resolve code s path).1, (resolve code s path).2.map Prod.fst) := by
  simp only [vfsLookup, absolute, Bool.not_true, Bool.false_eq_true, if_false, vfsLookupNode,
    vfsLookupNodeEx_eq materialises ns roomy absolute true, resolveEx_true]
  rfl

/-- `vfs_lookup` is the fold over the names of the path, it does nothing but add nodes, and
looking the path up again finds the same node, or nothing again. -/
theorem lookup_is_fold (materialises : code.Materialises) (ns : Namespace s) (roomy : s.Roomy)
    {path : CStr} (absolute : vfsIsPathValid path = true) :
    ∃ s' found, vfsLookup code s (some path) = some (s', found.map Prod.fst) ∧
      (pathNames path).foldl (resolveStep code true)
        (s, s.rootNode.map fun root => crossAll s (root, none)) = (s', found) ∧
      OnlyNewNodes s s' ∧ SameTables s s' ∧
      (∀ position, found = some position →
        vfsLookup code s' (some path) = some (s', some position.1)) ∧
      (code.Steady → found = none → vfsLookup code s' (some path) = some (s', none)) := by
  have search := vfsLookup_eq materialises ns roomy absolute
  have builds := (resolveEx_spec materialises ns roomy true path).1
  have found : resolveEx code true s path = resolve code s path := resolveEx_true s path
  generalize result : resolve code s path = outcome at search found
  obtain ⟨s', position⟩ := outcome
  rw [found] at builds
  obtain ⟨tree', grown⟩ := builds.tree ns.tree
  have ns' := builds.names ns
  have roomy' := builds.roomy ns.tree roomy
  have again := vfsLookup_eq materialises ns' roomy' absolute
  rw [← resolveEx_true] at again
  refine ⟨s', position, search, result, builds.onlyNewNodes ns.tree, builds.tables, ?_, ?_⟩
  · rintro position rfl
    have same := resolveEx_again materialises ns roomy found tree'
      (SameButHeap.refl s').quiet.extends
    rw [again, same]
    rfl
  · rintro steady rfl
    rw [again, resolveEx_refused materialises steady ns roomy found]
    rfl

/-- A file system whose lookup creates a directory of every name. -/
def dynFs : FsCode Unit Unit :=
  { dirFs with lookup := fun _ => some fun s _ dir name => vfsMkdir s (some dir) name }

/-- The lookup of the file system makes the node that it is asked for. -/
theorem dynFs_materialises : dynFs.Materialises := by
  intro address lookup s mount dir name isLookup names roomy live missing
  obtain rfl := Option.some.inj isLookup
  have isLive : s.Live (some dir) := by
    intro id same
    obtain rfl := Option.some.inj same
    exact live
  have answers : ∃ s' found, vfsMkdir s (some dir) name = some (s', found) := by
    rcases names.tree.vfsCreateNode isLive name .dir none none with
      ⟨s', done, -⟩ | ⟨s', -, -, -, done, -⟩
    · exact ⟨s', none, done⟩
    · exact ⟨s', some s.nextNode, done⟩
  obtain ⟨s', found, done⟩ := answers
  refine ⟨s', found, done, .single (.create isLive done), ?_⟩
  rintro id rfl
  obtain ⟨node, live', parent, same, -⟩ := names.tree.vfsCreateNode_created isLive done
  exact ⟨node, live', parent, same⟩

/-- The file system is mounted on /a. -/
def withDynFs : Vfs Unit Unit :=
  { withMount with
    mounts := fun m => (withMount.mounts m).map fun mount => { mount with sops := some 0 } }

/-- A file system that makes its nodes on demand is mounted on /a. -/
theorem withDynFs_names : Namespace withDynFs := by
  have names := (FileInv.reachable dirFs_honest withMount_reachable.reachable).names
  have mounts : ∀ m mount, withDynFs.mounts m = some mount →
      ∃ before, withMount.mounts m = some before ∧ mount = { before with sops := some 0 } := by
    intro m mount live
    obtain ⟨before, isMount, rfl⟩ := Option.map_eq_some_iff.mp live
    exact ⟨before, isMount, rfl⟩
  refine ⟨names.tree.of_same ⟨fun _ => rfl, rfl, rfl⟩, fun m mount live => ?_,
    fun id node m live mnt => ?_⟩
  · obtain ⟨before, live, -⟩ := mounts m mount live
    exact names.lt m before live
  · obtain ⟨before, mountLive, mountpoint, below, rootLive⟩ := names.mounted id node m live mnt
    refine ⟨{ before with sops := some 0 }, ?_, mountpoint, below, rootLive⟩
    exact Option.map_eq_some_iff.mpr ⟨before, mountLive, rfl⟩

/-- The path /a/b/ crosses the mount and makes a node inside it. -/
theorem lookup_is_fold_withDynFs : ∃ s' found,
    vfsLookup dynFs withDynFs (some [47, 97, 47, 98, 47]) = some (s', found.map Prod.fst) ∧
    (pathNames [47, 97, 47, 98, 47]).foldl (resolveStep dynFs true)
      (withDynFs, withDynFs.rootNode.map fun root => crossAll withDynFs (root, none)) =
        (s', found) ∧
    OnlyNewNodes withDynFs s' ∧ SameTables withDynFs s' ∧
    (∀ position, found = some position →
      vfsLookup dynFs s' (some [47, 97, 47, 98, 47]) = some (s', some position.1)) ∧
    (dynFs.Steady → found = none →
      vfsLookup dynFs s' (some [47, 97, 47, 98, 47]) = some (s', none)) :=
  lookup_is_fold dynFs_materialises withDynFs_names (fun _ => rfl) (by decide)

/-- The lookup creates /a/b in the mounted file system. -/
example : (vfsLookup dynFs withDynFs (some [47, 97, 47, 98, 47])).map Prod.snd = some (some 3) := by
  rfl

end Zsbl.Common
