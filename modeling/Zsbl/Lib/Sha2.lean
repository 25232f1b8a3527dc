/-
Module: Zsbl.Lib.Sha2
Purpose: The digest SHA-256 as its standard has it, with round constants that are
  defined by roots of prime numbers and not by a table.
Trusted boundary: the text of the standard, FIPS 180-4
Main exports:
  IsRootFraction, IsRootFraction.unique, nth_prime, Sha2.Constants, Sha2.schedule, Sha2.round,
  Sha2.hash, Sha2.sha256
-/
import Mathlib.Data.Nat.Prime.Nth
import Mathlib.Tactic.IntervalCases
import Zsbl.Lib.BlockHash
import Zsbl.Lib.Rounds

namespace Zsbl.Lib

/-- A word has the first bits of the fractional part of a root. -/
def IsRootFraction (degree radicand : Nat) (word : Word) : Prop :=
  ∃ whole : Nat, (whole * 2 ^ 32 + word.toNat) ^ degree ≤ radicand * 2 ^ (32 * degree) ∧
    radicand * 2 ^ (32 * degree) < (whole * 2 ^ 32 + word.toNat + 1) ^ degree

theorem IsRootFraction.unique {degree radicand : Nat} {first second : Word}
    (isFirst : IsRootFraction degree radicand first)
    (isSecond : IsRootFraction degree radicand second) : first = second := by
  obtain ⟨whole, low, high⟩ := isFirst
  obtain ⟨whole', low', high'⟩ := isSecond
  have below := lt_of_pow_lt_pow_left₀ degree (Nat.zero_le _) (low.trans_lt high')
  have above := lt_of_pow_lt_pow_left₀ degree (Nat.zero_le _) (low'.trans_lt high)
  apply BitVec.eq_of_toNat_eq
  have lt := first.isLt
  have lt' := second.isLt
  omega

/-! ## The first prime numbers -/

/-- A number below 324 without a divisor that could be below its root. -/
def Undivided (number : Nat) : Prop :=
  2 ≤ number ∧ ∀ divisor < 18, 2 ≤ divisor → divisor * divisor ≤ number → ¬ divisor ∣ number

instance : DecidablePred Undivided := fun _ => inferInstanceAs (Decidable (_ ∧ _))

theorem undivided_iff {number : Nat} (small : number < 324) :
    Undivided number ↔ number.Prime := by
  rw [Nat.prime_def_le_sqrt]
  refine and_congr_right fun _ =>
    ⟨fun free divisor two root => ?_, fun free divisor _ two root => ?_⟩
  · have square := Nat.le_sqrt.mp root
    have bound : divisor < 18 := by
      by_contra large
      have := Nat.mul_le_mul (Nat.le_of_not_lt large) (Nat.le_of_not_lt large)
      omega
    exact free divisor bound two square
  · exact free divisor two (Nat.le_sqrt.mpr root)

theorem count_undivided {number : Nat} (small : number ≤ 324) :
    number.count Undivided = number.count Nat.Prime := by
  induction number with
  | zero => rfl
  | succ number ih =>
      rw [Nat.count_succ, Nat.count_succ, ih (by omega)]
      simp only [undivided_iff (show number < 324 by omega)]

theorem nth_prime {number index : Nat} (small : number < 324) (undivided : Undivided number)
    (count : number.count Undivided = index) : Nat.nth Nat.Prime index = number := by
  rw [← count, count_undivided small.le]
  exact Nat.nth_count ((undivided_iff small).mp undivided)

namespace Sha2

/-! ## The standard -/

structure Constants where
  initial : Fin 8 → Word
  round : Fin 64 → Word
  initial_root : ∀ i : Fin 8, IsRootFraction 2 (Nat.nth Nat.Prime i) (initial i)
  round_root : ∀ i : Fin 64, IsRootFraction 3 (Nat.nth Nat.Prime i) (round i)

theorem Constants.unique (first second : Constants) : first = second := by
  have initial : first.initial = second.initial :=
    funext fun i => (first.initial_root i).unique (second.initial_root i)
  have round : first.round = second.round :=
    funext fun i => (first.round_root i).unique (second.round_root i)
  cases first
  cases second
  cases initial
  cases round
  rfl

def ch (x y z : Word) : Word := (x &&& y) ^^^ (~~~x &&& z)

def maj (x y z : Word) : Word := (x &&& y) ^^^ (x &&& z) ^^^ (y &&& z)

def bigSigma0 (x : Word) : Word := x.rotateRight 2 ^^^ x.rotateRight 13 ^^^ x.rotateRight 22

def bigSigma1 (x : Word) : Word := x.rotateRight 6 ^^^ x.rotateRight 11 ^^^ x.rotateRight 25

def smallSigma0 (x : Word) : Word := x.rotateRight 7 ^^^ x.rotateRight 18 ^^^ x >>> 3

def smallSigma1 (x : Word) : Word := x.rotateRight 17 ^^^ x.rotateRight 19 ^^^ x >>> 10

/-- The words of the message schedule. -/
def schedule (block : List UInt8) (t : Nat) : Word :=
  if t < 16 then Word.ofBytes ((block.drop (4 * t)).take 4)
  else smallSigma1 (schedule block (t - 2)) + schedule block (t - 7) +
    smallSigma0 (schedule block (t - 15)) + schedule block (t - 16)

def round (k w : Word) (registers : Registers Word) : Registers Word :=
  let t1 := registers.h + bigSigma1 registers.e + ch registers.e registers.f registers.g + k + w
  let t2 := bigSigma0 registers.a + maj registers.a registers.b registers.c
  ⟨t1 + t2, registers.a, registers.b, registers.c, registers.d + t1, registers.e, registers.f,
    registers.g⟩

def compress (constants : Constants) (state : Registers Word) (block : List UInt8) :
    Registers Word :=
  state.zipWith (· + ·) ((List.finRange 64).foldl
    (fun registers t => round (constants.round t) (schedule block t) registers) state)

def hash (constants : Constants) : BlockHash (Registers Word) UInt8 :=
  .bits64 (compress constants) (.of constants.initial)

@[simp] theorem hash_compress (constants : Constants) :
    (hash constants).compress = compress constants := rfl

def sha256 (constants : Constants) (message : List UInt8) : List UInt8 :=
  ((hash constants).digest message).bytes

end Sha2

end Zsbl.Lib
