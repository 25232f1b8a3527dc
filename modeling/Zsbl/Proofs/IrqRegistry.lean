/-
Module: Zsbl.Proofs.IrqRegistry
Purpose: The list of interrupt handlers against the registrations it stands for.
Trusted boundary: none
Main exports:
  IrqTriple, IrqRegistry, Registers, NamesLive, nextLive, irqLts, Handled, irq_registry
-/
import Mathlib.Data.List.Perm.Subperm
import Zsbl.Drivers.IrqRegistry
import Zsbl.Lib.Runs

namespace Zsbl.Drivers

open Zsbl.Lib Zsbl.Include

variable {σ : Type}

/-! ## Registrations -/

/-- What a handler is registered and freed by. -/
structure IrqTriple where
  irq : BitVec 32
  handler : BitVec 64
  handlerData : BitVec 64
deriving DecidableEq, Repr

def IrqDesc.triple (desc : IrqDesc) : IrqTriple := ⟨desc.irq, desc.handler, desc.handlerData⟩

/-- The handler list is a ring with one entry for each live registration, in their order. -/
def HoldsLive (s : Irqs σ) (live : List IrqTriple) : Prop :=
  ∃ ids : List Nat, s.irqDataList.Ring .head (ids.map .irqd) ∧
    live = ids.map fun id => (s.descs id).triple

/-- The call finds memory and a chip for the interrupt. -/
def Registers (s : Irqs σ) (irq : BitVec 32) (memory : Bool) : Prop :=
  memory = true ∧ (findIrqChip s irq).isSome = true

instance Registers.decidable (s : Irqs σ) (irq : BitVec 32) (memory : Bool) :
    Decidable (Registers s irq memory) :=
  inferInstanceAs (Decidable (_ ∧ _))

/-- The live registrations after a call: freeing takes the first of its triple away. -/
def nextLive (s : Irqs σ) (live : List IrqTriple) : IrqEvent σ → List IrqTriple
  | .registerChip _ => live
  | .request irq func priv memory =>
      if Registers s irq memory then live ++ [⟨irq, func, priv⟩] else live
  | .free irq func priv => live.erase ⟨irq, func, priv⟩

/-- A call that frees names a live registration. -/
def NamesLive (live : List IrqTriple) : IrqEvent σ → Prop
  | .free irq func priv => ⟨irq, func, priv⟩ ∈ live
  | _ => True

instance NamesLive.decidable (live : List IrqTriple) :
    (event : IrqEvent σ) → Decidable (NamesLive live event)
  | .free irq func priv => inferInstanceAs (Decidable (⟨irq, func, priv⟩ ∈ live))
  | .registerChip _ => .isTrue trivial
  | .request _ _ _ _ => .isTrue trivial

/-- The calls from the static initial values, with the live registrations. -/
def irqLts : Lts (Irqs σ × List IrqTriple) (IrqEvent σ) :=
  Lts.recording ⟨fun s => ∃ devs, s = .initial devs, fun s event s' => irqStep s event = some s'⟩
    [] nextLive

/-- The call comes to an end with the list of what is live then, and a request returns a
descriptor exactly when it registers. -/
def Handled (s : Irqs σ) (live : List IrqTriple) : IrqEvent σ → Prop
  | .registerChip irqc => HoldsLive (irqRegisterChip s irqc).1 live
  | .request irq func priv memory => ∃ s' ret, irqRequest s irq func priv memory = some (s', ret) ∧
      HoldsLive s' (nextLive s live (.request irq func priv memory)) ∧
      (ret ≠ none ↔ Registers s irq memory)
  | .free irq func priv => ∃ s', irqFree s irq func priv = some s' ∧
      HoldsLive s' (nextLive s live (.free irq func priv))

/-- The call frees a live registration, or it is a request that registers nothing. -/
def Manageable (s : Irqs σ) (live : List IrqTriple) : IrqEvent σ → Prop
  | .registerChip _ => True
  | .request irq _ _ memory => ¬ Registers s irq memory
  | .free irq func priv => ⟨irq, func, priv⟩ ∈ live

instance Manageable.decidable (s : Irqs σ) (live : List IrqTriple) :
    (event : IrqEvent σ) → Decidable (Manageable s live event)
  | .registerChip _ => .isTrue trivial
  | .request irq _ _ memory => inferInstanceAs (Decidable (¬ Registers s irq memory))
  | .free irq func priv => inferInstanceAs (Decidable (⟨irq, func, priv⟩ ∈ live))

/-! ## One call -/

/-- The list, with entries among the allocated structures. -/
structure IrqRegistry (s : Irqs σ) (live : List IrqTriple) (ids : List Nat) : Prop where
  ring : s.irqDataList.Ring .head (ids.map .irqd)
  live : live = ids.map fun id => (s.descs id).triple
  known : ∀ id ∈ ids, id < s.allocated

variable {s s' : Irqs σ} {live : List IrqTriple} {ids : List Nat} {irq : BitVec 32}
  {func priv : BitVec 64} {memory : Bool}

theorem IrqRegistry.holdsLive (registry : IrqRegistry s live ids) : HoldsLive s live :=
  ⟨ids, registry.ring, registry.live⟩

theorem IrqRegistry.initial (devs : σ) : IrqRegistry (.initial devs) [] [] :=
  ⟨initListHead_ring _ _, rfl, by simp⟩

/-- Registering a chip leaves the registered entries alone. -/
theorem irqRegisterChip_lists (s : Irqs σ) (irqc : RegisteredChip σ) :
    (irqRegisterChip s irqc).1.irqDataList = s.irqDataList ∧
      (irqRegisterChip s irqc).1.descs = s.descs ∧
      (irqRegisterChip s irqc).1.allocated = s.allocated := by
  unfold irqRegisterChip
  cases irqc.pdev with
  | none => exact ⟨rfl, rfl, rfl⟩
  | some pdev =>
      dsimp only
      split_ifs <;> exact ⟨rfl, rfl, rfl⟩

/-- The entries stay right when a chip is registered. -/
theorem IrqRegistry.registerChip (registry : IrqRegistry s live ids) (irqc : RegisteredChip σ) :
    IrqRegistry (irqRegisterChip s irqc).1 live ids := by
  obtain ⟨list, descs, allocated⟩ := irqRegisterChip_lists s irqc
  refine ⟨?_, ?_, ?_⟩
  · rw [list]
    exact registry.ring
  · rw [descs]
    exact registry.live
  · rw [allocated]
    exact registry.known

/-- A list as long as its entries are distinct and allocated is walked to its end. -/
theorem IrqRegistry.enough (registry : IrqRegistry s live ids) :
    (ids.map IrqNode.irqd).length < s.allocated + 1 := by
  have distinct : ids.Nodup := List.Nodup.of_map _ registry.ring.inner_nodup
  have inside : ids ⊆ List.range s.allocated := fun id member =>
    List.mem_range.mpr (registry.known id member)
  have short := (distinct.subperm inside).length_le
  rw [List.length_range] at short
  rw [List.length_map]
  omega

/-- A request returns the null pointer, and adds its entry at the end exactly when it
registers. -/
theorem IrqRegistry.request (registry : IrqRegistry s live ids) (irq : BitVec 32)
    (func priv : BitVec 64) (memory : Bool) :
    ∃ s' ids', irqRequest s irq func priv memory = some (s', none) ∧
      IrqRegistry s' (nextLive s live (.request irq func priv memory)) ids' := by
  cases memory with
  | false => exact ⟨s, ids, rfl, by simpa [nextLive, Registers] using registry⟩
  | true =>
      cases found : findIrqChip s irq with
      | none =>
          have found' : findIrqChip { s with allocated := s.allocated + 1 } irq = none := found
          refine ⟨{ s with allocated := s.allocated + 1 }, ids, ?_, ?_⟩
          · simp [irqRequest, found']
          · simp only [nextLive, Registers, found, Option.isSome_none, Bool.false_eq_true,
              and_false, if_false]
            exact ⟨registry.ring, registry.live,
              fun id member => Nat.lt_succ_of_lt (registry.known id member)⟩
      | some chip =>
          obtain ⟨parent, irqc, hwirq⟩ := chip
          have found' : findIrqChip { s with allocated := s.allocated + 1 } irq =
            some (parent, irqc, hwirq) := found
          have fresh : s.allocated ∉ ids := fun member =>
            Nat.lt_irrefl _ (registry.known _ member)
          have freshNode : IrqNode.irqd s.allocated ∉ IrqNode.head :: ids.map .irqd := by
            simpa using fresh
          obtain ⟨links, added, ring, -⟩ := listAddTail_ring registry.ring freshNode
          refine ⟨_, ids ++ [s.allocated], by simp [irqRequest, found', added]; rfl, ?_⟩
          simp only [nextLive, Registers, found, Option.isSome_some, and_self, if_true]
          refine ⟨by simpa using ring, ?_, ?_⟩
          · -- the new structure is none of those that are listed
            have same : ∀ id ∈ ids, Function.update s.descs s.allocated
                ⟨hwirq, irq, parent, func, priv⟩ id = s.descs id := fun id member =>
              Function.update_of_ne (fun isNew => fresh (by rwa [isNew] at member)) _ _
            rw [registry.live, List.map_append]
            refine congrArg₂ _ (List.map_congr_left fun id member => ?_) ?_
            · dsimp only
              rw [same id member]
            · simp [IrqDesc.triple]
          · intro id member
            rcases List.mem_append.mp member with old | isNew
            · exact Nat.lt_succ_of_lt (registry.known id old)
            · rw [List.mem_singleton.mp isNew]
              exact Nat.lt_succ_self _

theorem irqMatches_irqd (s : Irqs σ) (irq : BitVec 32) (func priv : BitVec 64) (id : Nat) :
    irqMatches s irq func priv (.irqd id) = true ↔ (s.descs id).triple = ⟨irq, func, priv⟩ := by
  simp [irqMatches, IrqDesc.triple, and_assoc]

/-- The live registration that is freed leaves the list. -/
theorem IrqRegistry.free (registry : IrqRegistry s live ids)
    (listed : ⟨irq, func, priv⟩ ∈ live) :
    ∃ s' ids', irqFree s irq func priv = some s' ∧
      IrqRegistry s' (live.erase ⟨irq, func, priv⟩) ids' := by
  have stops := listFind_ring (irqMatches s irq func priv) registry.ring registry.enough
  rw [List.find?_map] at stops
  cases found : ids.find? (irqMatches s irq func priv ∘ IrqNode.irqd) with
  | none =>
      rw [registry.live] at listed
      obtain ⟨id, member, same⟩ := List.mem_map.mp listed
      have misses := List.find?_eq_none.mp found id member
      exact absurd ((irqMatches_irqd s irq func priv id).mpr same) misses
  | some id =>
      rw [found] at stops
      obtain ⟨here, left, right, rfl, before⟩ := List.find?_eq_some_iff_append.mp found
      have ring : s.irqDataList.Ring .head
          (left.map .irqd ++ .irqd id :: right.map .irqd) := by
        simpa using registry.ring
      obtain ⟨links, deleted, rest, -⟩ := listDel_ring ring
      refine ⟨{ s with irqDataList := links }, left ++ right, ?_, by simpa using rest, ?_, ?_⟩
      · unfold irqFree
        rw [stops]
        simp [deleted]
      · have triple := (irqMatches_irqd s irq func priv id).mp here
        have others : ⟨irq, func, priv⟩ ∉ left.map fun id => (s.descs id).triple := by
          intro member
          obtain ⟨other, isLeft, same⟩ := List.mem_map.mp member
          have misses := before other isLeft
          simp [(irqMatches_irqd s irq func priv other).mpr same] at misses
        rw [registry.live, List.map_append, List.map_cons, triple,
          List.erase_append_right _ others, List.erase_cons_head, List.map_append]
      · intro other member
        refine registry.known other ?_
        rw [List.mem_append] at member
        rw [List.mem_append, List.mem_cons]
        tauto

/-- When nothing is found, the head leaves the list. -/
theorem IrqRegistry.free_missed (registry : IrqRegistry s live ids)
    (missing : ⟨irq, func, priv⟩ ∉ live) :
    ∃ s', irqFree s irq func priv = some s' ∧ s'.irqDataList.next .head = none := by
  have stops := listFind_ring (irqMatches s irq func priv) registry.ring registry.enough
  have found : (ids.map IrqNode.irqd).find? (irqMatches s irq func priv) = none := by
    rw [List.find?_eq_none]
    intro node member isMatch
    obtain ⟨id, listed, rfl⟩ := List.mem_map.mp member
    refine missing ?_
    rw [registry.live, ← (irqMatches_irqd s irq func priv id).mp isMatch]
    exact List.mem_map_of_mem listed
  rw [found] at stops
  obtain ⟨links, deleted, cleared⟩ := listDel_head registry.ring
  refine ⟨{ s with irqDataList := links }, ?_, cleared⟩
  unfold irqFree
  rw [stops]
  simp [deleted]

theorem HoldsLive.next_head (holds : HoldsLive s live) : s.irqDataList.next .head ≠ none := by
  obtain ⟨ids, ring, -⟩ := holds
  rw [ring.next_head]
  exact Option.some_ne_none _

/-! ## Runs -/

/-- As long as live registrations are freed only, the list holds what is live. -/
theorem IrqRegistry.reachable
    (reached : irqLts.ReachableWhile (fun s event => NamesLive s.2 event) (s, live)) :
    ∃ ids, IrqRegistry s live ids := by
  refine Lts.ReachableWhile.invariant
    (fun state : Irqs σ × List IrqTriple => ∃ ids, IrqRegistry state.1 state.2 ids)
    ?_ ?_ reached
  · rintro ⟨s, live⟩ ⟨⟨devs, rfl⟩, rfl⟩
    exact ⟨[], .initial devs⟩
  · rintro ⟨s, live⟩ event ⟨s', live'⟩ - ⟨ids, registry⟩ names ⟨taken, rfl⟩
    cases event with
    | registerChip irqc =>
        cases taken
        exact ⟨ids, registry.registerChip irqc⟩
    | request irq func priv memory =>
        obtain ⟨next, ids', called, after⟩ := registry.request irq func priv memory
        obtain rfl : next = s' := by simpa [irqStep, called] using taken
        exact ⟨ids', after⟩
    | free irq func priv =>
        obtain ⟨next, ids', called, after⟩ := registry.free names
        obtain rfl : next = s' := by simpa [irqStep, called] using taken
        exact ⟨ids', after⟩

/-- An event is handled as asked exactly if it names a live entry or a chip that is there. -/
theorem IrqRegistry.handled_iff (registry : IrqRegistry s live ids) (event : IrqEvent σ) :
    Handled s live event ↔ Manageable s live event := by
  cases event with
  | registerChip irqc => exact iff_of_true (registry.registerChip irqc).holdsLive trivial
  | request irq func priv memory =>
      obtain ⟨next, ids', called, after⟩ := registry.request irq func priv memory
      constructor
      · rintro ⟨s', ret, called', -, returned⟩ registers
        rw [called] at called'
        cases called'
        exact returned.mpr registers rfl
      · intro refused
        exact ⟨next, none, called, after.holdsLive, iff_of_false (fun ret => ret rfl) refused⟩
  | free irq func priv =>
      constructor
      · rintro ⟨s', called, holds⟩
        by_contra missing
        obtain ⟨next, called', cleared⟩ := registry.free_missed missing
        rw [called] at called'
        cases called'
        exact holds.next_head cleared
      · intro listed
        obtain ⟨next, ids', called, after⟩ := registry.free listed
        exact ⟨next, called, after.holdsLive⟩

/-- In every run that frees live registrations only, the list holds exactly what is live; and
from there a call is handled as it should be exactly when it frees a live registration, or
registers nothing. -/
theorem irq_registry (s : Irqs σ) (live : List IrqTriple)
    (reached : irqLts.ReachableWhile (fun s event => NamesLive s.2 event) (s, live)) :
    HoldsLive s live ∧ ∀ event, Handled s live event ↔ Manageable s live event := by
  obtain ⟨ids, registry⟩ := IrqRegistry.reachable reached
  exact ⟨registry.holdsLive, registry.handled_iff⟩

/-- A chip with one interrupt. -/
def oneIrqChip : RegisteredChip Unit := ⟨fun _ s => s, 1, 1, 0, [], [], some ⟨0, []⟩⟩

/-- Two shared registrations of its interrupt, the first of which is freed. -/
def sharedIrq : List (IrqEvent Unit) :=
  [.registerChip oneIrqChip, .request 0 1 2 true, .request 0 1 3 true, .free 0 1 2]

def liveStep (s : Irqs Unit × List IrqTriple) (event : IrqEvent Unit) :
    Option (Irqs Unit × List IrqTriple) :=
  (irqStep s.1 event).map fun s' => (s', nextLive s.1 s.2 event)

/-- Two entries share the line 3; one is freed and the other stays. -/
theorem irq_registry_sharedIrq : ∃ s, runSteps liveStep (.initial (), []) sharedIrq = some s ∧
    s.2 = [⟨0, 1, 3⟩] ∧ HoldsLive s.1 s.2 ∧
    ∀ event, Handled s.1 s.2 event ↔ Manageable s.1 s.2 event := by
  have live : (runSteps liveStep (.initial (), []) sharedIrq).map Prod.snd =
    some [⟨0, 1, 3⟩] := rfl
  obtain ⟨s, run, last⟩ := Option.map_eq_some_iff.mp live
  refine ⟨s, run, last, irq_registry s.1 s.2 ?_⟩
  have start : irqLts.ReachableWhile (fun s event => NamesLive s.2 event)
      (Irqs.initial (), []) := Lts.ReachableWhile.initial ⟨⟨(), rfl⟩, rfl⟩
  refine start.runSteps ?_ ?_ run
  · intro s event s' taken
    obtain ⟨next, called, rfl⟩ := Option.map_eq_some_iff.mp taken
    exact ⟨called, rfl⟩
  · decide

/-- Freeing what is not registered takes the head out of the list, and a request that registers
does not return its descriptor. -/
theorem missed_free_unlinks :
    ¬ Handled (Irqs.initial ()) [] (.free 0 1 2) ∧
      ¬ Handled (irqRegisterChip (Irqs.initial ()) oneIrqChip).1 [] (.request 0 1 2 true) := by
  have empty := IrqRegistry.initial ()
  refine ⟨fun handled => ?_, fun handled => ?_⟩
  · exact absurd ((empty.handled_iff _).mp handled) (by decide)
  · exact absurd (((empty.registerChip oneIrqChip).handled_iff _).mp handled) (by decide)

end Zsbl.Drivers
