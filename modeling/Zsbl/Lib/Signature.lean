/-
Module: Zsbl.Lib.Signature
Purpose: What the standards call a valid signature: the encoding of PKCS #1 v1.5, and
  the equation of SM2 over any group of points.
Trusted boundary: none
Main exports:
  sha256Info, IsPkcs1, RsaSigns, PointGroup, PointGroup.Equation, PointGroup.Accepts,
  PointGroup.accepts_iff, PointGroup.exists_equation
-/
import Mathlib.Data.ZMod.Basic
import Mathlib.GroupTheory.OrderOfElement
import Zsbl.Lib.Der

namespace Zsbl.Lib

/-! ## RSA -/

/-- `DigestInfo` in front of a digest of SHA-256. -/
def sha256Info : List UInt8 := [
  0x30, 0x31, 0x30, 0x0d, 0x06, 0x09, 0x60, 0x86, 0x48, 0x01, 0x65, 0x03, 0x04, 0x02, 0x01,
  0x05, 0x00, 0x04, 0x20]

/-- The encoding of a digest of SHA-256, with a padding of eight bytes at least. -/
def IsPkcs1 (digest block : List UInt8) : Prop :=
  ∃ padding, 8 ≤ padding ∧
    block = [0x00, 0x01] ++ List.replicate padding 0xff ++ [0x00] ++ sha256Info ++ digest

/-- The power of a signature of `size` bytes encodes the digest. -/
def RsaSigns (size modulus exponent : Nat) (digest signature : List UInt8) : Prop :=
  IsPkcs1 digest (beBytes size (bigEndian signature ^ exponent % modulus))

theorem IsPkcs1.drop {digest block : List UInt8} (encodes : IsPkcs1 digest block) :
    block.drop (block.length - digest.length) = digest := by
  obtain ⟨padding, -, rfl⟩ := encodes
  apply List.drop_left'
  simp only [List.length_append]
  omega

theorem IsPkcs1.length {digest block : List UInt8} (encodes : IsPkcs1 digest block) :
    digest.length + 30 ≤ block.length := by
  obtain ⟨padding, enough, rfl⟩ := encodes
  simp only [List.length_append, List.length_cons, List.length_nil, List.length_replicate,
    sha256Info]
  omega

theorem IsPkcs1.pos {digest block : List UInt8} (encodes : IsPkcs1 digest block) :
    0 < bigEndian block := by
  obtain ⟨padding, -, rfl⟩ := encodes
  simp only [List.append_assoc, List.cons_append, List.nil_append, bigEndian_cons]
  apply Nat.add_pos_right
  apply Nat.add_pos_left
  exact Nat.mul_pos (by decide) (Nat.pow_pos (by decide))

/-! ## SM2 -/

/-- The points of a curve of prime order; each but the neutral one has coordinates. -/
structure PointGroup where
  Point : Type
  group : AddCommGroup Point
  affine : Point → Option (Nat × Nat)
  affine_eq_none : ∀ {P}, affine P = none ↔ P = 0
  order : Nat
  order_prime : order.Prime
  order_large : 2 < order
  order_nsmul : ∀ P : Point, order • P = 0
  base : Point
  base_ne_zero : base ≠ 0

namespace PointGroup

attribute [instance] PointGroup.group

variable (curve : PointGroup)

/-- The scalar of the public key. -/
def scalar (r s : Nat) : Nat := (r + s) % curve.order

/-- The equation of the verification, with finite points all along. -/
def Equation (P : curve.Point) (e r s : Nat) : Prop :=
  curve.scalar r s • P ≠ 0 ∧ s • curve.base ≠ 0 ∧
    ∃ x y, curve.affine (curve.scalar r s • P + s • curve.base) = some (x, y) ∧
      (e + x) % curve.order = r

/-- The verification of the standard. -/
def Accepts (P : curve.Point) (e r s : Nat) : Prop :=
  (1 ≤ r ∧ r ≤ curve.order - 1) ∧ (1 ≤ s ∧ s ≤ curve.order - 1) ∧ curve.scalar r s ≠ 0 ∧
    ∃ x y, curve.affine (s • curve.base + curve.scalar r s • P) = some (x, y) ∧
      (e + x) % curve.order = r

variable {curve}

theorem nsmul_eq_zero {k : Nat} {P : curve.Point} (nonzero : P ≠ 0) :
    k • P = 0 ↔ curve.order ∣ k := by
  have prime : Fact curve.order.Prime := ⟨curve.order_prime⟩
  rw [← addOrderOf_dvd_iff_nsmul_eq_zero, addOrderOf_eq_prime (curve.order_nsmul P) nonzero]

theorem order_pos : 0 < curve.order := Nat.lt_trans (by decide) curve.order_large

theorem scalar_lt (r s : Nat) : curve.scalar r s < curve.order := Nat.mod_lt _ order_pos

theorem scalar_nsmul_ne_zero {P : curve.Point} (nonzero : P ≠ 0) (r s : Nat) :
    curve.scalar r s • P ≠ 0 ↔ curve.scalar r s ≠ 0 := by
  rw [Ne, nsmul_eq_zero nonzero]
  apply not_congr
  constructor
  · exact fun divides => Nat.eq_zero_of_dvd_of_lt divides (scalar_lt r s)
  · intro zero
    rw [zero]
    exact Nat.dvd_zero _

/-- The ranges are what the equation leaves open. -/
theorem accepts_iff {P : curve.Point} (nonzero : P ≠ 0) {e r s : Nat} :
    curve.Accepts P e r s ↔ curve.Equation P e r s ∧ 1 ≤ r ∧ s < curve.order := by
  have positive := @order_pos curve
  unfold Accepts Equation
  rw [scalar_nsmul_ne_zero nonzero, Ne, Ne, nsmul_eq_zero curve.base_ne_zero,
    add_comm (s • curve.base)]
  constructor
  · rintro ⟨⟨rPos, -⟩, ⟨sPos, sLt⟩, scalar, sum⟩
    refine ⟨⟨scalar, ?_, sum⟩, rPos, by omega⟩
    intro divides
    have le := Nat.le_of_dvd sPos divides
    omega
  · rintro ⟨⟨scalar, notDvd, sum⟩, rPos, sLt⟩
    have rLt : r < curve.order := by
      obtain ⟨x, y, -, rfl⟩ := sum
      exact Nat.mod_lt _ positive
    have sPos : s ≠ 0 := by
      rintro rfl
      exact notDvd (Nat.dvd_zero _)
    exact ⟨⟨rPos, by omega⟩, ⟨by omega, by omega⟩, scalar, sum⟩

/-- The equation needs a reduced `r` and scalars that are not zero, -/
theorem Equation.bounds {P : curve.Point} {e r s : Nat} (equation : curve.Equation P e r s) :
    r < curve.order ∧ ¬ curve.order ∣ s ∧ ¬ curve.order ∣ r + s := by
  obtain ⟨scalar, base, x, y, -, rfl⟩ := equation
  refine ⟨Nat.mod_lt _ order_pos, ?_, ?_⟩
  · intro divides
    exact base ((nsmul_eq_zero curve.base_ne_zero).mpr divides)
  · intro divides
    apply scalar
    rw [PointGroup.scalar, Nat.mod_eq_zero_of_dvd divides, zero_nsmul]

/-- and then some key and digest meet it. -/
theorem exists_equation {r s : Nat} (reduced : r < curve.order) (base : ¬ curve.order ∣ s)
    (scalar : ¬ curve.order ∣ r + s) :
    ∃ P e, P ≠ 0 ∧ e < curve.order ∧ curve.Equation P e r s := by
  have positive := @order_pos curve
  have t : curve.scalar r s ≠ 0 := fun zero => scalar (Nat.dvd_of_mod_eq_zero zero)
  -- The sum is not the point at infinity for the base point or for its double.
  have finite : ∃ k : Nat, k • curve.base ≠ 0 ∧
      curve.scalar r s • k • curve.base + s • curve.base ≠ 0 := by
    have two : ¬ curve.order ∣ 2 := fun divides =>
      Nat.not_le.mpr curve.order_large (Nat.le_of_dvd (by decide) divides)
    have one : ¬ curve.order ∣ 1 := fun divides => two (Nat.dvd_trans divides (by decide))
    simp only [← mul_nsmul', ← add_nsmul, Ne, nsmul_eq_zero curve.base_ne_zero]
    by_cases sum : curve.order ∣ curve.scalar r s + s
    · refine ⟨2, two, fun double => ?_⟩
      have again : curve.order ∣ curve.scalar r s := by
        have difference := Nat.dvd_sub double sum
        rwa [show curve.scalar r s * 2 + s - (curve.scalar r s + s) = curve.scalar r s by omega]
          at difference
      exact t (Nat.eq_zero_of_dvd_of_lt again (scalar_lt r s))
    · exact ⟨1, one, by rwa [Nat.mul_one]⟩
  obtain ⟨k, nonzero, sum⟩ := finite
  cases coordinates : curve.affine (curve.scalar r s • k • curve.base + s • curve.base) with
  | none => exact absurd (curve.affine_eq_none.mp coordinates) sum
  | some point =>
      obtain ⟨x, y⟩ := point
      refine ⟨k • curve.base, (r + (curve.order - x % curve.order)) % curve.order, nonzero,
        Nat.mod_lt _ positive, (scalar_nsmul_ne_zero nonzero r s).mpr t,
        fun zero => base ((nsmul_eq_zero curve.base_ne_zero).mp zero), x, y, coordinates, ?_⟩
      have small := Nat.mod_lt x positive
      rw [Nat.mod_add_mod, ← Nat.add_mod_mod,
        show r + (curve.order - x % curve.order) + x % curve.order = r + curve.order by omega,
        Nat.add_mod_right, Nat.mod_eq_of_lt reduced]

/-! ### Numbers as points -/

section Cyclic

variable {n : Nat} (prime : n.Prime) (large : 2 < n) (coordinates : Nat × Nat)

/-- The numbers modulo `n`, with given coordinates of 1 and with each other number as both
of its coordinates. -/
def cyclic : PointGroup where
  Point := ZMod n
  group := inferInstance
  affine P :=
    if P = 0 then none else if P = 1 then some coordinates else some (P.val, P.val)
  affine_eq_none {P} := by split_ifs <;> simp_all
  order := n
  order_prime := prime
  order_large := large
  order_nsmul P := by simp
  base := 1
  base_ne_zero := by
    have isPrime : Fact n.Prime := ⟨prime⟩
    exact one_ne_zero

theorem cyclic_base : (cyclic prime large coordinates).affine
    (cyclic prime large coordinates).base = some coordinates := by
  have isPrime : Fact n.Prime := ⟨prime⟩
  exact (if_neg one_ne_zero).trans (if_pos rfl)

variable {prime large coordinates}

theorem cyclic_affine {P : (cyclic prime large coordinates).Point} {x y : Nat}
    (affine : (cyclic prime large coordinates).affine P = some (x, y)) :
    (x, y) = coordinates ∨ x < n ∧ y < n := by
  have nonzero : NeZero n := ⟨prime.ne_zero⟩
  have small : ZMod.val (n := n) P < n := ZMod.val_lt _
  unfold cyclic at affine
  simp only at affine
  split_ifs at affine
  · exact .inl (Option.some.inj affine).symm
  · obtain ⟨rfl, rfl⟩ := Prod.mk.inj (Option.some.inj affine)
    exact .inr ⟨small, small⟩

theorem cyclic_two : (cyclic prime large coordinates).affine
    (2 • (cyclic prime large coordinates).base) = some (2, 2) := by
  have nonzero : NeZero n := ⟨prime.ne_zero⟩
  have val : ZMod.val ((2 : Nat) : ZMod n) = 2 := ZMod.val_natCast_of_lt large
  have notZero : ((2 : Nat) : ZMod n) ≠ 0 := by
    intro zero
    rw [zero, ZMod.val_zero] at val
    cases val
  have notOne : ((2 : Nat) : ZMod n) ≠ 1 := by
    intro one
    have one' : ZMod.val (1 : ZMod n) = 1 := by
      rw [← Nat.cast_one, ZMod.val_natCast_of_lt (Nat.lt_of_succ_lt large)]
    rw [one, one'] at val
    cases val
  have double : 2 • (1 : ZMod n) = ((2 : Nat) : ZMod n) := by rw [nsmul_eq_mul, mul_one]
  have point : (cyclic prime large coordinates).affine ((2 : Nat) : ZMod n) = some (2, 2) := by
    apply (if_neg notZero).trans
    apply (if_neg notOne).trans
    rw [val]
  rw [← double] at point
  exact point

variable (prime large coordinates) in
/-- The point with given coordinates. -/
def cyclicPoint (point : Nat × Nat) : (cyclic prime large coordinates).Point :=
  if point = coordinates then (1 : ZMod n) else (point.1 : ZMod n)

theorem cyclicPoint_affine (differ : coordinates.1 ≠ coordinates.2)
    {P : (cyclic prime large coordinates).Point} {point : Nat × Nat}
    (affine : (cyclic prime large coordinates).affine P = some point) :
    cyclicPoint prime large coordinates point = P := by
  have nonzero : NeZero n := ⟨prime.ne_zero⟩
  have number : ((ZMod.val (n := n) P : Nat) : ZMod n) = P := ZMod.natCast_zmod_val P
  unfold cyclic at affine
  simp only at affine
  split_ifs at affine with _ one
  · rw [← Option.some.inj affine, one]
    exact if_pos rfl
  · have isNumber := Option.some.inj affine
    have notBase : point ≠ coordinates := by
      rintro rfl
      rw [← isNumber] at differ
      exact differ rfl
    apply (if_neg notBase).trans
    rw [← isNumber]
    exact number

end Cyclic

end PointGroup

end Zsbl.Lib
