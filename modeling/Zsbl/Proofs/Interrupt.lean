/-
Module: Zsbl.Proofs.Interrupt
Purpose: A claimed interrupt is completed exactly when no handler has handled
  it, and what that means for the controller.
Trusted boundary: none
Main exports:
  Completes, Unhandled, irqHandler_completes_iff, Idle, irq_completion,
  handled_not_completed
-/
import Zsbl.Drivers.Interrupt

namespace Zsbl.Drivers

open Zsbl.Lib

variable {σ ω : Type}

/-- The completions among the calls. -/
def eois (calls : List IrqCall) : List (Nat × BitVec 32) :=
  calls.filterMap fun
    | .eoi chip hwirq => some (chip, hwirq)
    | .ack _ _ => none

/-- The call of `irq_handler` completes what it has claimed, once and on the chip
that it has claimed it from, and nothing else. -/
def Completes (chips : List (IrqChip σ)) (entries : List (IrqData σ)) (s : σ) : Prop :=
  eois (irqHandler chips entries s).2 =
    match (claimFrom 0 chips s).2 with
    | none => []
    | some (i, _, hwirq) => [(i, BitVec.ofInt 32 hwirq)]

/-- No handler of the interrupt that is claimed answers `IRQ_HANDLED`. -/
def Unhandled (chips : List (IrqChip σ)) (entries : List (IrqData σ)) (s : σ) : Prop :=
  ∀ i irqc hwirq, (claimFrom 0 chips s).2 = some (i, irqc, hwirq) →
    (handleFrom (irqGet irqc (BitVec.ofInt 32 hwirq)) entries
      (ackIrq i irqc (BitVec.ofInt 32 hwirq) (claimFrom 0 chips s).1).1).2 = false

/-- A claimed source is one of a chip in the list. -/
theorem claimFrom_mem {i j : Nat} {chips : List (IrqChip σ)} {s : σ} {irqc : IrqChip σ}
    {hwirq : Int} (claimed : (claimFrom i chips s).2 = some (j, irqc, hwirq)) :
    irqc ∈ chips := by
  induction chips generalizing i s with
  | nil => cases claimed
  | cons first rest ih =>
      simp only [claimFrom] at claimed
      split at claimed
      · obtain ⟨-, same, -⟩ : i = j ∧ first = irqc ∧ _ := by simpa using claimed
        exact same ▸ List.mem_cons_self
      · exact List.mem_cons_of_mem _ (ih claimed)

theorem eois_ackIrq (i : Nat) (irqc : IrqChip σ) (hwirq : BitVec 32) (s : σ) :
    eois (ackIrq i irqc hwirq s).2 = [] := by
  unfold ackIrq
  split <;> rfl

theorem eois_append (calls more : List IrqCall) :
    eois (calls ++ more) = eois calls ++ eois more :=
  List.filterMap_append ..

/-- The completion is made exactly when the interrupt stays unhandled. -/
theorem irqHandler_completes_iff {chips : List (IrqChip σ)} (entries : List (IrqData σ))
    (s : σ) (provided : ∀ irqc ∈ chips, irqc.ops.irqEoi.isSome) :
    Completes chips entries s ↔ Unhandled chips entries s := by
  unfold Completes Unhandled irqHandler
  rcases claim : claimFrom 0 chips s with ⟨s₁, _ | ⟨i, irqc, hwirq⟩⟩
  · simp [eois]
  · have member : irqc ∈ chips := claimFrom_mem (by rw [claim])
    obtain ⟨eoi, isEoi⟩ := Option.isSome_iff_exists.mp (provided irqc member)
    have acks := eois_ackIrq i irqc (BitVec.ofInt 32 hwirq) s₁
    rcases ack : ackIrq i irqc (BitVec.ofInt 32 hwirq) s₁ with ⟨s₂, calls⟩
    rw [ack] at acks
    rcases handle : handleFrom (irqGet irqc (BitVec.ofInt 32 hwirq)) entries s₂ with
      ⟨s₃, _ | _⟩
    · simp [handle, ack, acks, eois_append, eoiIrq, isEoi]
      rfl
    · simp [handle, ack, acks]

/-! ## Runs on the controllers -/

/-- The claim register answers 0 or one of the sources behind the first. -/
theorem lowestPending_cases (pending : Nat → Bool) (first count : Nat) :
    lowestPending pending first count = 0 ∨
      first ≤ lowestPending pending first count ∧
        lowestPending pending first count < first + count := by
  induction count generalizing first with
  | zero => exact Or.inl rfl
  | succ count ih =>
      unfold lowestPending
      split
      · omega
      · rcases ih (first + 1) with none | found
        · exact Or.inl none
        · exact Or.inr (by omega)

/-- The controller once a source has been claimed. -/
def PlicDevice.serving (dev : PlicDevice) (src : Nat) : PlicDevice :=
  ⟨Function.update dev.pending src false, Function.update dev.inService src true⟩

/-- The machine once a source of a controller has been claimed. -/
def PlicMachine.claimed (s : PlicMachine ω) (plic src : Nat) : PlicMachine ω :=
  { s with devs := Function.update s.devs plic ((s.devs plic).serving src) }

/-- `plic_claim_irq` claims one source, or nothing is pending. -/
theorem plicClaimIrq_cases (plic : Nat) (s : PlicMachine ω) :
    plicClaimIrq plic s = (s, -1) ∨
      ∃ src, src ≤ PLIC_IRQ_MAX ∧ plicClaimIrq plic s = (s.claimed plic src, (src : Int)) := by
  unfold plicClaimIrq getClaim PlicDevice.claim
  rcases lowestPending_cases (s.devs plic).pending 1 PLIC_IRQ_MAX with none | found
  · left
    simp [none]
  · right
    generalize lowestPending (s.devs plic).pending 1 PLIC_IRQ_MAX = src at found
    unfold PLIC_IRQ_MAX at found ⊢
    have ne : src ≠ 0 := by omega
    have ne' : BitVec.ofNat 32 src ≠ 0 := by
      intro eq
      have toNat := congrArg BitVec.toNat eq
      rw [BitVec.toNat_ofNat, Nat.mod_eq_of_lt (by omega)] at toNat
      exact ne toNat
    have value : (BitVec.ofNat 32 src).toInt = src := by
      rw [BitVec.toInt_eq_toNat_of_lt (by rw [BitVec.toNat_ofNat]; omega),
        BitVec.toNat_ofNat, Nat.mod_eq_of_lt (by omega)]
    refine ⟨src, by omega, ?_⟩
    simp only [if_neg ne, if_neg ne', value, PlicMachine.claimed, PlicDevice.serving]

/-- The loop over the chips claims one source of one controller, or nothing. -/
theorem claimFrom_plicChips (plic : Nat) (starts : List (BitVec 32)) (s : PlicMachine ω) :
    claimFrom plic (plicChips plic starts) s = (s, none) ∨
      ∃ i irqStart src, src ≤ PLIC_IRQ_MAX ∧ claimFrom plic (plicChips plic starts) s =
        (s.claimed i src, some (i, plicChip i irqStart, (src : Int))) := by
  induction starts generalizing plic with
  | nil => exact Or.inl rfl
  | cons irqStart rest ih =>
      simp only [plicChips, claimFrom, plicChip, plicOps]
      rcases plicClaimIrq_cases plic s with none | ⟨src, le, claimed⟩
      · rw [none, if_neg (show ¬(-1 : Int) ≥ 0 by decide)]
        exact ih (plic + 1)
      · rw [claimed, if_pos (Int.natCast_nonneg src)]
        exact Or.inr ⟨plic, irqStart, src, le, rfl⟩

/-- The entries of the device drivers' handlers. -/
def deviceEntries (handlers : List (BitVec 32 × (ω → ω × Int))) :
    List (IrqData (PlicMachine ω)) :=
  handlers.map fun entry => ⟨entry.1, some (deviceHandler entry.2)⟩

/-- Device drivers leave the controllers alone. -/
theorem handleFrom_devs (irq : BitVec 32) (handlers : List (BitVec 32 × (ω → ω × Int)))
    (s : PlicMachine ω) :
    (handleFrom irq (deviceEntries handlers) s).1.devs = s.devs := by
  induction handlers generalizing s with
  | nil => rfl
  | cons entry rest ih =>
      simp only [deviceEntries, List.map_cons, handleFrom]
      split
      · rcases called : entry.2 s.world with ⟨world, ret⟩
        simp only [deviceHandler, called]
        by_cases handled : ret = IRQ_HANDLED
        · simp only [handled, if_true]
        · simp only [handled, if_false]
          exact ih _
      · exact ih s

/-- Nothing is in service between interrupts. -/
def Idle (s : PlicMachine ω) : Prop := ∀ plic src, (s.devs plic).inService src = false

/-- An interrupt that no handler has handled is completed. -/
theorem Idle.interrupt {starts : List (BitVec 32)}
    {handlers : List (BitVec 32 × (ω → ω × Int))} {s : PlicMachine ω} (idle : Idle s)
    (unhandled : Unhandled (plicChips 0 starts) (deviceEntries handlers) s) :
    Idle (irqHandler (plicChips 0 starts) (deviceEntries handlers) s).1 := by
  unfold irqHandler
  rcases claimFrom_plicChips 0 starts s with none | ⟨i, irqStart, src, le, claimed⟩
  · rw [none]
    exact idle
  · have answer := unhandled i _ _ (by rw [claimed])
    rw [claimed] at answer ⊢
    have same : BitVec.ofInt 32 (src : Int) = BitVec.ofNat 32 src := by simp
    have ack : ackIrq i (plicChip i irqStart) (BitVec.ofInt 32 (src : Int))
        (s.claimed i src) = (s.claimed i src, [.ack i (BitVec.ofInt 32 (src : Int))]) := rfl
    have devs := handleFrom_devs (irqGet (plicChip i irqStart : IrqChip (PlicMachine ω))
      (BitVec.ofInt 32 (src : Int))) handlers (s.claimed i src)
    rw [ack] at answer
    simp only [ack]
    rcases handle : handleFrom (irqGet (plicChip i irqStart : IrqChip (PlicMachine ω))
      (BitVec.ofInt 32 (src : Int))) (deviceEntries handlers) (s.claimed i src) with
      ⟨s₁, handled⟩
    rw [handle] at answer devs
    obtain rfl : handled = false := answer
    have devs : s₁.devs = (s.claimed i src).devs := devs
    intro plic other
    simp only [eoiIrq, plicChip, plicOps, plicEoiIrq, setClaim, devs, same,
      PlicMachine.claimed, PlicDevice.serving]
    have toNat : (BitVec.ofNat 32 src).toNat = src := by
      unfold PLIC_IRQ_MAX at le
      rw [BitVec.toNat_ofNat, Nat.mod_eq_of_lt (by omega)]
    by_cases here : plic = i
    · subst here
      simp only [Function.update_self, PlicDevice.complete, toNat]
      by_cases it : other = src
      · rw [it, Function.update_self]
      · rw [Function.update_of_ne it, Function.update_of_ne it]
        exact idle plic other
    · rw [Function.update_of_ne here, Function.update_of_ne here]
      exact idle plic other

/-- Handlers that decline leave every interrupt unhandled. -/
theorem Unhandled.of_declines {chips : List (IrqChip (PlicMachine ω))}
    {handlers : List (BitVec 32 × (ω → ω × Int))}
    (decline : ∀ entry ∈ handlers, ∀ world, (entry.2 world).2 ≠ IRQ_HANDLED)
    (s : PlicMachine ω) : Unhandled chips (deviceEntries handlers) s := by
  have unhandled (irq : BitVec 32) (s : PlicMachine ω) :
      (handleFrom irq (deviceEntries handlers) s).2 = false := by
    induction handlers generalizing s with
    | nil => rfl
    | cons entry rest ih =>
        have later := ih fun other member => decline other (List.mem_cons_of_mem _ member)
        simp only [deviceEntries, List.map_cons, handleFrom]
        split
        · have declined : (deviceHandler entry.2 s).2 ≠ IRQ_HANDLED :=
            decline entry (List.mem_cons_self ..) s.world
          rw [if_neg declined]
          exact later _
        · exact later s
  exact fun i irqc hwirq _ => unhandled _ _

/-- A source of an idle controller that is raised is pending. -/
theorem Idle.raise {s : PlicMachine ω} (idle : Idle s) (plic src : Nat) :
    ((s.devs plic).raise src).pending src = true ∧
      Idle { s with devs := Function.update s.devs plic ((s.devs plic).raise src) } := by
  have open' : (s.devs plic).raise src =
      { s.devs plic with pending := Function.update (s.devs plic).pending src true } := by
    simp [PlicDevice.raise, idle plic src]
  rw [open']
  refine ⟨Function.update_self .., fun other src' => ?_⟩
  by_cases here : other = plic
  · subst here
    simpa using idle other src'
  · simpa [Function.update_of_ne here] using idle other src'

/-- Every interrupt of the run stays unhandled. -/
def UnhandledRun (starts : List (BitVec 32)) (handlers : List (BitVec 32 × (ω → ω × Int)))
    (s : PlicMachine ω) : PlicEvent ω → Prop
  | .interrupt => Unhandled (plicChips 0 starts) (deviceEntries handlers) s
  | _ => True

/-- As long as every interrupt is completed no source stays claimed. -/
theorem Idle.reachable {starts : List (BitVec 32)}
    {handlers : List (BitVec 32 × (ω → ω × Int))} {s : PlicMachine ω}
    (reached : (plicLts starts handlers).ReachableWhile (UnhandledRun starts handlers) s) :
    Idle s := by
  apply reached.invariant Idle
  · exact fun s start => start
  · intro s event s' _ idle unhandled taken
    cases event with
    | raise plic src =>
        obtain rfl := taken
        exact (idle.raise plic src).2
    | run world =>
        obtain rfl := taken
        exact idle
    | interrupt =>
        obtain rfl := taken
        exact idle.interrupt unhandled

/-- A call completes what it claimed exactly when no handler has handled it; in
a run of such calls a source that is raised can always be claimed. -/
theorem irq_completion (chips : List (IrqChip σ)) (entries : List (IrqData σ)) (s : σ)
    (provided : ∀ irqc ∈ chips, irqc.ops.irqEoi.isSome) (starts : List (BitVec 32))
    (handlers : List (BitVec 32 × (ω → ω × Int))) (m : PlicMachine ω)
    (reached : (plicLts starts handlers).ReachableWhile (UnhandledRun starts handlers) m) :
    (Completes chips entries s ↔ Unhandled chips entries s) ∧
      ∀ plic src, ((m.devs plic).raise src).pending src = true :=
  ⟨irqHandler_completes_iff entries s provided,
    fun plic src => ((Idle.reachable reached).raise plic src).1⟩

/-! ## A handled interrupt -/

/-- One controller, whose source 5 waits. -/
def waiting : PlicMachine Unit := ⟨fun _ => ⟨fun src => src = 5, fun _ => false⟩, ()⟩

/-- The handler of source 5 does not handle it. -/
def declines : List (BitVec 32 × (Unit → Unit × Int)) := [(4, fun _ => ((), 0))]

/-- The handler of source 5 handles it. -/
def handles : List (BitVec 32 × (Unit → Unit × Int)) := [(4, fun _ => ((), IRQ_HANDLED))]

/-- What a device does when it raises a source. -/
def PlicMachine.raised (s : PlicMachine ω) (plic src : Nat) : PlicMachine ω :=
  { s with devs := Function.update s.devs plic ((s.devs plic).raise src) }

/-- Nothing waits, and nothing is in service. -/
def calm : PlicMachine Unit := ⟨fun _ => ⟨fun _ => false, fun _ => false⟩, ()⟩

/-- The machine behind an interrupt on it. -/
def interrupted (s : PlicMachine Unit) : PlicMachine Unit :=
  (irqHandler (plicChips 0 [0]) (deviceEntries declines) s).1

/-- Source 5 has been declined twice, and waits again. -/
def declinedTwice : PlicMachine Unit :=
  (interrupted ((interrupted (calm.raised 0 5)).raised 0 5)).raised 0 5

/-- A round of the run in which a source is raised and no handler takes the interrupt. -/
theorem declined_round {s : PlicMachine Unit}
    (reached : (plicLts [0] declines).ReachableWhile (UnhandledRun [0] declines) s) :
    (plicLts [0] declines).ReachableWhile (UnhandledRun [0] declines)
      (interrupted (s.raised 0 5)) := by
  have unhandled : Unhandled (plicChips 0 [0]) (deviceEntries declines) (s.raised 0 5) := by
    apply Unhandled.of_declines
    intro entry member world
    obtain rfl := List.mem_singleton.mp member
    exact show (0 : Int) ≠ IRQ_HANDLED by decide
  have raised := reached.step (by exact trivial)
    (show (plicLts [0] declines).step s (.raise 0 5) (s.raised 0 5) from rfl)
  exact raised.step (by exact unhandled)
    (show (plicLts [0] declines).step (s.raised 0 5) .interrupt (interrupted (s.raised 0 5))
      from rfl)

/-- Source 5 is claimed and completed a third time, and can be raised once more. -/
theorem irq_completion_declined :
    (irqHandler (plicChips 0 [0]) (deviceEntries declines) declinedTwice).2 =
        [.ack 0 5, .eoi 0 5] ∧
      (Completes (plicChips 0 [0]) (deviceEntries declines) declinedTwice ↔
        Unhandled (plicChips 0 [0]) (deviceEntries declines) declinedTwice) ∧
      ∀ plic src, ((declinedTwice.devs plic).raise src).pending src = true := by
  have start : (plicLts [0] declines).ReachableWhile (UnhandledRun [0] declines) calm :=
    .initial fun _ _ => rfl
  have reached := (declined_round (declined_round start)).step (by exact trivial)
    (show (plicLts [0] declines).step _ (.raise 0 5) declinedTwice from rfl)
  have provided : ∀ irqc ∈ (plicChips 0 [0] : List (IrqChip (PlicMachine Unit))),
      irqc.ops.irqEoi.isSome := by
    simp [plicChips, plicChip, plicOps]
  exact ⟨by decide, irq_completion (plicChips 0 [0]) (deviceEntries declines) declinedTwice
    provided [0] declines declinedTwice reached⟩

/-- A handler that answers `IRQ_HANDLED` ends the call before the completion. -/
theorem handled_not_completed :
    ¬ ∀ (chips : List (IrqChip (PlicMachine Unit))) entries s,
      (∀ irqc ∈ chips, irqc.ops.irqEoi.isSome) → Completes chips entries s := by
  intro completes
  have completed := completes (plicChips 0 [0]) (deviceEntries handles) waiting
    (by simp [plicChips, plicChip, plicOps])
  unfold Completes at completed
  revert completed
  decide

end Zsbl.Drivers
