/-
Module: Zsbl.Lib.ShiftRegister
Purpose: Shift registers with feedback, the divisions that check sums are made of.
Trusted boundary: none
Main exports:
  shiftRegister, shiftRegister_injective, shiftRegister_zero
-/
import Mathlib.Data.BitVec
import Mathlib.Logic.Function.Iterate

namespace Zsbl.Lib

variable {w : Nat}

/-- One shift: the bit that falls out is fed back where `poly` has bits. -/
def feedback (poly crc : BitVec w) : BitVec w :=
  if crc.msb then crc <<< 1 ^^^ poly else crc <<< 1

/-- Some shifts. -/
def shiftRegister (poly : BitVec w) (shifts : Nat) : BitVec w → BitVec w :=
  (feedback poly)^[shifts]

@[simp] theorem feedback_zero (poly : BitVec w) : feedback poly 0 = 0 := by
  simp [feedback]

/-- Where `poly` is odd, the bit that has fallen out is the lowest one. -/
theorem feedback_lowest {poly : BitVec w} (odd : poly.getLsbD 0 = true) (crc : BitVec w) :
    (feedback poly crc).getLsbD 0 = crc.msb := by
  unfold feedback
  split <;> simp_all

theorem feedback_injective {poly : BitVec w} (odd : poly.getLsbD 0 = true) :
    Function.Injective (feedback poly) := by
  intro first second same
  have upper : first.msb = second.msb := by
    rw [← feedback_lowest odd first, ← feedback_lowest odd second, same]
  have shifted : first <<< 1 = second <<< 1 := by
    unfold feedback at same
    rw [← upper] at same
    split at same
    · exact (BitVec.xor_left_inj _).mp same
    · exact same
  ext i inside
  by_cases last : i + 1 < w
  · have bit := congrArg (fun crc => crc.getLsbD (i + 1)) shifted
    simpa [last, BitVec.getLsbD_eq_getElem inside] using bit
  · have index : i = w - 1 := by omega
    rw [BitVec.msb_eq_getLsbD_last, BitVec.msb_eq_getLsbD_last, ← index] at upper
    simpa [BitVec.getLsbD_eq_getElem inside] using upper

theorem shiftRegister_injective {poly : BitVec w} (odd : poly.getLsbD 0 = true)
    (shifts : Nat) : Function.Injective (shiftRegister poly shifts) :=
  (feedback_injective odd).iterate shifts

@[simp] theorem shiftRegister_zero (poly : BitVec w) (shifts : Nat) :
    shiftRegister poly shifts 0 = 0 :=
  Function.iterate_fixed (feedback_zero poly) shifts

end Zsbl.Lib
