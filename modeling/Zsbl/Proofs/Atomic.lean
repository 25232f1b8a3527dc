/-
Module: Zsbl.Proofs.Atomic
Purpose: When the atomic counters behave as one 64-bit counter.
Trusted boundary: none
Main exports:
  KeepsUpper, WithinWord, amoaddW_eq_iff, step_counts_iff, atomic_counts
-/
import Zsbl.Arch.Atomic
import Zsbl.Lib.Runs

namespace Zsbl.Arch

open Zsbl.Lib

/-! ## Sums of words -/

/-- The number is one of 32 bits, and a sum with it has the same upper half. -/
def KeepsUpper (counter value : Int) : Prop :=
  0 ≤ counter ∧ counter < 2 ^ 31 ∧ 0 ≤ counter + value ∧ counter + value < 2 ^ 32 ∨
    -2 ^ 31 ≤ counter ∧ counter < 0 ∧ -2 ^ 32 ≤ counter + value ∧ counter + value < 0

instance (counter value : Int) : Decidable (KeepsUpper counter value) := by
  unfold KeepsUpper
  infer_instance

/-- The loaded word is the doubleword exactly for a number of 32 bits. -/
theorem signExtend_word_iff (counter : BitVec 64) :
    (counter.setWidth 32).signExtend 64 = counter ↔
      -2 ^ 31 ≤ counter.toInt ∧ counter.toInt < 2 ^ 31 := by
  have bound := counter.isLt
  rw [← BitVec.toInt_inj, BitVec.toInt_signExtend_of_le (by decide), BitVec.toInt_setWidth,
    BitVec.toInt_eq_toNat_cond, Int.bmod_def]
  split <;> split <;> omega

/-- What `amoadd.w` stores, as a number. -/
theorem amoaddW_toNat (counter src : BitVec 64) :
    (amoaddW counter src).1.toNat =
      counter.toNat / 2 ^ 32 * 2 ^ 32 + (counter.toNat + src.toNat) % 2 ^ 32 := by
  have bound := counter.isLt
  simp only [amoaddW, BitVec.toNat_append, BitVec.extractLsb'_toNat, BitVec.toNat_add,
    BitVec.toNat_setWidth, Nat.shiftRight_eq_div_pow, Nat.shiftLeft_eq]
  have word : (counter.toNat % 2 ^ 32 + src.toNat % 2 ^ 32) % 2 ^ 32 < 2 ^ 32 :=
    Nat.mod_lt _ (by decide)
  rw [← Nat.shiftLeft_eq, ← Nat.shiftLeft_add_eq_or_of_lt word, Nat.shiftLeft_eq, ← Nat.add_mod]
  omega

/-- `amoadd.w` adds doublewords exactly where the upper half stays. -/
theorem amoaddW_eq_iff {counter src : BitVec 64}
    (isWord : -2 ^ 31 ≤ counter.toInt ∧ counter.toInt < 2 ^ 31) :
    (amoaddW counter src).1 = counter + src ↔ KeepsUpper counter.toInt src.toInt := by
  have bound := counter.isLt
  have bound' := src.isLt
  rw [← BitVec.toNat_inj, amoaddW_toNat, BitVec.toNat_add]
  unfold KeepsUpper
  rw [BitVec.toInt_eq_toNat_cond] at isWord ⊢
  rw [BitVec.toInt_eq_toNat_cond]
  split at isWord <;> split <;> omega

/-! ## Runs -/

/-- The call adds within a word, if it adds. -/
def WithinWord (counter : BitVec 64) : AtomicOp → Prop
  | .addReturn value => KeepsUpper counter.toInt value.toInt
  | .subReturn value => KeepsUpper counter.toInt (-value.toInt)
  | _ => True

instance (counter : BitVec 64) (op : AtomicOp) : Decidable (WithinWord counter op) := by
  cases op <;> unfold WithinWord <;> infer_instance

/-- What is returned is the sum exactly for a number of 32 bits. -/
theorem adds_iff (counter value : BitVec 64) :
    (amoaddW counter value).1 = counter + value ∧
        (amoaddW counter value).2 + value = counter + value ↔
      KeepsUpper counter.toInt value.toInt := by
  have returned : (amoaddW counter value).2 + value = counter + value ↔
      -2 ^ 31 ≤ counter.toInt ∧ counter.toInt < 2 ^ 31 := by
    rw [BitVec.add_left_inj]
    exact signExtend_word_iff counter
  rw [returned]
  constructor
  · intro ⟨stored, isWord⟩
    exact (amoaddW_eq_iff isWord).mp stored
  · intro keeps
    have isWord : -2 ^ 31 ≤ counter.toInt ∧ counter.toInt < 2 ^ 31 := by
      unfold KeepsUpper at keeps
      omega
    exact ⟨(amoaddW_eq_iff isWord).mpr keeps, isWord⟩

/-- A difference is the sum with the negated number. -/
theorem keepsUpper_neg (counter value : BitVec 64) :
    KeepsUpper counter.toInt (-value).toInt ↔ KeepsUpper counter.toInt (-value.toInt) := by
  have low := value.le_toInt
  have high := value.toInt_lt
  unfold KeepsUpper
  rw [BitVec.toInt_neg, Int.bmod_def]
  split <;> omega

theorem wrapLong_toInt_add (counter value : BitVec 64) :
    wrapLong (counter.toInt + value.toInt) = (counter + value).toInt := by
  rw [BitVec.toInt_add]
  rfl

theorem wrapLong_toInt_sub (counter value : BitVec 64) :
    wrapLong (counter.toInt - value.toInt) = (counter - value).toInt := by
  rw [BitVec.toInt_sub]
  rfl

/-- A call does what the 64-bit counter does exactly if it adds within a word. -/
theorem step_counts_iff (counter : BitVec 64) (op : AtomicOp) :
    op.count counter.toInt =
        ((op.step counter).1.toInt, (op.step counter).2.map BitVec.toInt) ↔
      WithinWord counter op := by
  cases op with
  | read => simp [AtomicOp.count, AtomicOp.step, WithinWord, atomicRead]
  | write value => simp [AtomicOp.count, AtomicOp.step, WithinWord, atomicWrite]
  | addReturn value =>
      simp only [WithinWord]
      rw [← adds_iff]
      simp only [AtomicOp.count, AtomicOp.step, atomicAddReturn, wrapLong_toInt_add, Prod.map,
        Option.map_some, Prod.mk.injEq, Option.some.injEq, BitVec.toInt_inj, id_eq,
        eq_comm (a := counter + value)]
  | subReturn value =>
      simp only [WithinWord]
      rw [← keepsUpper_neg, ← adds_iff]
      simp only [AtomicOp.count, AtomicOp.step, atomicSubReturn, wrapLong_toInt_sub, Prod.map,
        Option.map_some, Prod.mk.injEq, Option.some.injEq, BitVec.toInt_inj, id_eq,
        BitVec.sub_eq_add_neg, eq_comm (a := counter + -value)]
  | cmpxchg oldval newval =>
      simp only [AtomicOp.count, AtomicOp.step, WithinWord, atomicCmpxchg, casD, Prod.map,
        BitVec.toInt_inj, id_eq, Option.map_some, iff_true]
      split <;> rfl
  | xchg newval => simp [AtomicOp.count, AtomicOp.step, WithinWord, atomicXchg, amoswapD]

/-- The calls of a run on one counter leave and return what a single 64-bit counter does
as long as each addition is within a word, and only as long as that for each call. -/
theorem atomic_counts (counter : BitVec 64) (ops : List AtomicOp) :
    (∀ op, op.count counter.toInt =
        ((op.step counter).1.toInt, (op.step counter).2.map BitVec.toInt) ↔
      WithinWord counter op) ∧
    (RunsOk (fun counter op => some (op.step counter).1) WithinWord counter ops →
      outputs AtomicOp.count counter.toInt ops =
        ((outputs AtomicOp.step counter ops).1.toInt,
          (outputs AtomicOp.step counter ops).2.map (Option.map BitVec.toInt))) := by
  refine ⟨step_counts_iff counter, ?_⟩
  intro fine
  exact outputs_simulates (fun counter op => (step_counts_iff counter op).mpr) fine

/-- A counter that goes below zero and comes back within its word, and is exchanged. -/
theorem atomic_counts_exchanged :
    outputs AtomicOp.count 2
        [.subReturn 1, .cmpxchg 1 (-3), .addReturn 2, .xchg 5, .read] =
      (5, [some 1, some 1, some (-1), some (-1), some 5]) :=
  ((atomic_counts 2 [.subReturn 1, .cmpxchg 1 (-3), .addReturn 2, .xchg 5, .read]).2
    (by decide)).trans (by decide)

/-- A counter that is counted down from zero is read as 4294967295. -/
theorem counted_below_zero :
    ¬ ∀ (counter : BitVec 64) (ops : List AtomicOp),
      outputs AtomicOp.count counter.toInt ops =
        ((outputs AtomicOp.step counter ops).1.toInt,
          (outputs AtomicOp.step counter ops).2.map (Option.map BitVec.toInt)) := by
  intro counts
  have below := counts 0 [.subReturn 1, .read]
  revert below
  decide

end Zsbl.Arch
