/-
Module: Zsbl.Include.Libc
Purpose: The error numbers of include/lib/libc/errno.h that the modelled
  functions return, and the C integer types that wrap around.
Trusted boundary: none
Main exports:
  IsLong, wrapLong, wrapInt, wrapLong_of_lt, wrapInt_of_lt, wrapLong_succ_le, wrapLong_range
-/
import Mathlib.Algebra.Order.Ring.Int

namespace Zsbl

/-! ## Error numbers -/

def ENOENT : Int := 2
def EIO : Int := 5
def EBADF : Int := 9
def ENOMEM : Int := 12
def EBUSY : Int := 16
def EEXIST : Int := 17
def ENODEV : Int := 19
def ENOTDIR : Int := 20
def EISDIR : Int := 21
def EINVAL : Int := 22
def EMFILE : Int := 24
def ENOTEMPTY : Int := 66
def ENOSYS : Int := 78

/-! ## Signed integers -/

/-- The values of a C `long`, which is 64 bits wide and wraps around. -/
def IsLong (value : Int) : Prop := -2 ^ 63 ≤ value ∧ value < 2 ^ 63

def wrapLong (value : Int) : Int := value.bmod (2 ^ 64)

/-- Conversion to a C `int`. -/
def wrapInt (value : Int) : Int := value.bmod (2 ^ 32)

theorem wrapLong_of_lt {value : Int} (low : -2 ^ 63 ≤ value)
    (high : value < 2 ^ 63) : wrapLong value = value := by
  unfold wrapLong
  rw [Int.bmod_eq_of_le] <;> omega

theorem wrapInt_of_lt {value : Int} (positive : 0 ≤ value) (short : value < 2 ^ 31) :
    wrapInt value = value := by
  apply Int.bmod_eq_of_le
  · omega
  · omega

/-- Counting up never makes the count too large. -/
theorem wrapLong_succ_le {value : Int} (low : -2 ^ 63 ≤ value) :
    wrapLong (value + 1) ≤ value + 1 := by
  by_cases high : value + 1 < 2 ^ 63
  · exact Int.le_of_eq (wrapLong_of_lt (by omega) high)
  · have upper := Int.bmod_lt (x := value + 1) (m := 2 ^ 64) (by omega)
    unfold wrapLong
    omega

theorem wrapLong_range (value : Int) :
    -2 ^ 63 ≤ wrapLong value ∧ wrapLong value < 2 ^ 63 := by
  have lower := Int.le_bmod (x := value) (m := 2 ^ 64) (by omega)
  have upper := Int.bmod_lt (x := value) (m := 2 ^ 64) (by omega)
  unfold wrapLong
  omega

end Zsbl
