/-
Module: Zsbl.Lib.Primality
Purpose: Lucas's test of primality with powers that the kernel can compute.
Trusted boundary: none
Main exports:
  powMod, powMod_eq, IsLucasWitness, prime_of_witness, Certified, Certified.prime
-/
import Mathlib.Data.List.Prime
import Mathlib.NumberTheory.LucasPrimality

namespace Zsbl.Lib

/-- A power by repeated squaring, for an exponent of at most so many bits. -/
def powMod (modulus : Nat) : Nat → Nat → Nat → Nat
  | 0, _, _ => 1
  | bits + 1, base, exponent =>
      base ^ (exponent % 2) * powMod modulus bits (base * base % modulus) (exponent / 2) % modulus

theorem powMod_eq {modulus : Nat} (large : 1 < modulus) {bits : Nat} {base exponent : Nat}
    (fits : exponent < 2 ^ bits) :
    powMod modulus bits base exponent = base ^ exponent % modulus := by
  induction bits generalizing base exponent with
  | zero =>
      rw [Nat.pow_zero, Nat.lt_one_iff] at fits
      rw [fits, Nat.pow_zero, Nat.mod_eq_of_lt large]
      rfl
  | succ bits ih =>
      have half : exponent / 2 < 2 ^ bits := by
        rw [Nat.pow_succ] at fits
        omega
      calc powMod modulus (bits + 1) base exponent
          = base ^ (exponent % 2) * ((base * base % modulus) ^ (exponent / 2) % modulus) %
              modulus := by rw [powMod, ih half]
        _ = base ^ (exponent % 2) * (base * base) ^ (exponent / 2) % modulus := by
              rw [← Nat.pow_mod, Nat.mul_mod_mod]
        _ = base ^ exponent % modulus := by
              rw [← Nat.pow_two, ← Nat.pow_mul, ← Nat.pow_add, Nat.mod_add_div]

/-- The powers of `a` show that the order of `a` is `p - 1`, which is the product of the
factors. -/
def IsLucasWitness (p a : Nat) (factors : List Nat) : Prop :=
  1 < p ∧ factors.prod = p - 1 ∧ powMod p (p.log2 + 1) a (p - 1) = 1 ∧
    ∀ q ∈ factors, powMod p (p.log2 + 1) a ((p - 1) / q) ≠ 1

instance (p a : Nat) (factors : List Nat) : Decidable (IsLucasWitness p a factors) :=
  inferInstanceAs (Decidable (_ ∧ _ ∧ _ ∧ ∀ q ∈ factors, _))

theorem prime_of_witness {p : Nat} (a : Nat) {factors : List Nat}
    (primes : ∀ q ∈ factors, q.Prime) (witness : IsLucasWitness p a factors) : p.Prime := by
  obtain ⟨large, product, one, others⟩ := witness
  have power {exponent : Nat} (fits : exponent ≤ p - 1) :
      (a : ZMod p) ^ exponent = 1 ↔ powMod p (p.log2 + 1) a exponent = 1 := by
    have small : exponent < 2 ^ (p.log2 + 1) :=
      Nat.lt_of_le_of_lt (Nat.le_trans fits (Nat.sub_le p 1)) Nat.lt_log2_self
    rw [powMod_eq large small, ← Nat.cast_pow, ← Nat.cast_one,
      ZMod.natCast_eq_natCast_iff', Nat.mod_eq_of_lt large]
  apply lucas_primality p (a : ZMod p)
  · exact (power (Nat.le_refl _)).mpr one
  · intro q isPrime divides
    rw [← product] at divides
    obtain ⟨factor, isFactor, divides'⟩ := (Prime.dvd_prod_iff isPrime.prime).mp divides
    obtain rfl : q = factor :=
      (Nat.prime_dvd_prime_iff_eq isPrime (primes factor isFactor)).mp divides'
    rw [Ne, power (Nat.div_le_self _ _)]
    exact others q isFactor

/-- Each number has a witness, and the factors below it are 2 or numbers behind it. -/
def Certified : List (Nat × Nat × List Nat) → Prop
  | [] => True
  | (p, a, factors) :: rest =>
      IsLucasWitness p a factors ∧ (∀ q ∈ factors, q = 2 ∨ q ∈ rest.map (·.1)) ∧ Certified rest

instance : (certificate : List (Nat × Nat × List Nat)) → Decidable (Certified certificate)
  | [] => inferInstanceAs (Decidable True)
  | (_, _, factors) :: rest =>
      let _ : Decidable (Certified rest) := instDecidableCertified rest
      inferInstanceAs (Decidable (_ ∧ (∀ q ∈ factors, _) ∧ Certified rest))

theorem Certified.prime {certificate : List (Nat × Nat × List Nat)}
    (certified : Certified certificate) : ∀ p ∈ certificate.map (·.1), p.Prime := by
  induction certificate with
  | nil => simp
  | cons entry rest ih =>
      obtain ⟨p, a, factors⟩ := entry
      obtain ⟨witness, below, certified⟩ := certified
      have behind := ih certified
      rw [List.map_cons, List.forall_mem_cons]
      refine ⟨prime_of_witness a ?_ witness, behind⟩
      intro q isFactor
      rcases below q isFactor with rfl | isBehind
      · exact Nat.prime_two
      · exact behind q isBehind

end Zsbl.Lib
