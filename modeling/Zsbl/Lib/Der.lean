/-
Module: Zsbl.Lib.Der
Purpose: Fields of a tag, a length and a content, with lengths in the short or the
  long form.
Trusted boundary: none
Main exports:
  bigEndian, beBytes, bigEndian_beBytes, lengthSize, lengthValue, LengthOctets, Field,
  Field.read, derInteger, derField, bigEndian_derInteger, derInteger_lt, le_derInteger
-/
import Mathlib.Algebra.Order.Ring.Int
import Mathlib.Data.List.Basic
import Mathlib.Tactic.ByContra
import Mathlib.Tactic.Ring

namespace Zsbl.Lib

/-- A big-endian number. -/
def bigEndian (bytes : List UInt8) : Nat :=
  bytes.foldl (fun number byte => number * 256 + byte.toNat) 0

theorem bigEndian_append (first second : List UInt8) :
    bigEndian (first ++ second) = bigEndian first * 256 ^ second.length + bigEndian second := by
  have shift (bytes : List UInt8) (number : Nat) :
      bytes.foldl (fun number byte => number * 256 + byte.toNat) number =
        number * 256 ^ bytes.length + bigEndian bytes := by
    unfold bigEndian
    induction bytes generalizing number with
    | nil => simp
    | cons byte bytes ih =>
        rw [List.foldl_cons, List.foldl_cons, ih, ih (0 * 256 + byte.toNat), List.length_cons]
        ring
  unfold bigEndian
  rw [List.foldl_append, shift]
  rfl

theorem bigEndian_cons (byte : UInt8) (bytes : List UInt8) :
    bigEndian (byte :: bytes) = byte.toNat * 256 ^ bytes.length + bigEndian bytes := by
  have split := bigEndian_append [byte] bytes
  have one : bigEndian [byte] = byte.toNat := Nat.zero_add _
  rwa [one] at split

theorem bigEndian_lt (bytes : List UInt8) : bigEndian bytes < 256 ^ bytes.length := by
  induction bytes with
  | nil => decide
  | cons byte bytes ih =>
      have small : byte.toNat + 1 ≤ 256 := byte.toNat_lt
      have scaled := Nat.mul_le_mul_right (256 ^ bytes.length) small
      rw [bigEndian_cons, List.length_cons, Nat.pow_succ']
      rw [Nat.add_mul] at scaled
      omega

/-- Zeros in front do not count. -/
theorem bigEndian_zeros (count : Nat) (bytes : List UInt8) :
    bigEndian (List.replicate count 0 ++ bytes) = bigEndian bytes := by
  induction count with
  | zero => rfl
  | succ count ih =>
      rw [List.replicate_succ, List.cons_append, bigEndian_cons, ih]
      exact (congrArg (· + _) (Nat.zero_mul _)).trans (Nat.zero_add _)

/-- The high bytes of a number. -/
theorem bigEndian_take (bytes : List UInt8) (size : Nat) :
    bigEndian (bytes.take size) = bigEndian bytes / 256 ^ (bytes.length - size) := by
  have split := bigEndian_append (bytes.take size) (bytes.drop size)
  have low := bigEndian_lt (bytes.drop size)
  rw [List.take_append_drop, List.length_drop] at split
  rw [List.length_drop] at low
  rw [split, Nat.add_comm, Nat.add_mul_div_right _ _ (Nat.pow_pos (by decide)),
    Nat.div_eq_of_lt low, Nat.zero_add]

/-- A number as `size` bytes, the high ones first. -/
def beBytes : Nat → Nat → List UInt8
  | 0, _ => []
  | size + 1, value => beBytes size (value / 256) ++ [UInt8.ofNat value]

@[simp] theorem length_beBytes (size value : Nat) : (beBytes size value).length = size := by
  induction size generalizing value with
  | zero => rfl
  | succ size ih => simp [beBytes, ih]

theorem bigEndian_beBytes {size value : Nat} (fits : value < 256 ^ size) :
    bigEndian (beBytes size value) = value := by
  induction size generalizing value with
  | zero =>
      rw [Nat.pow_zero, Nat.lt_one_iff] at fits
      rw [fits]
      rfl
  | succ size ih =>
      rw [Nat.pow_succ] at fits
      have one : bigEndian [UInt8.ofNat value] = value % 256 := by
        simp [bigEndian]
      rw [beBytes, bigEndian_append, ih (by omega), one, List.length_singleton]
      omega

/-- Bytes are the only ones of their number. -/
theorem bigEndian_inj {first second : List UInt8} (length : first.length = second.length)
    (same : bigEndian first = bigEndian second) : first = second := by
  induction first generalizing second with
  | nil => exact (List.length_eq_zero_iff.mp length.symm).symm
  | cons byte first ih =>
      cases second with
      | nil => cases length
      | cons other second =>
          have length' : first.length = second.length := Nat.succ.inj length
          have low := bigEndian_lt first
          have low' := bigEndian_lt second
          rw [bigEndian_cons, bigEndian_cons, length'] at same
          rw [length'] at low
          have high : byte.toNat = other.toNat := by
            have quotient := congrArg (· / 256 ^ second.length) same
            have positive : 0 < 256 ^ second.length := Nat.pow_pos (by decide)
            simp only [Nat.add_comm _ (bigEndian first), Nat.add_comm _ (bigEndian second),
              Nat.add_mul_div_right _ _ positive, Nat.div_eq_of_lt low,
              Nat.div_eq_of_lt low', Nat.zero_add] at quotient
            exact quotient
          rw [high] at same
          rw [UInt8.toNat_inj.mp high, ih length' (Nat.add_left_cancel same)]

/-- The low bytes of a number. -/
theorem beBytes_bigEndian_drop {bytes : List UInt8} {size : Nat} (inside : size ≤ bytes.length)
    (small : bigEndian bytes < 256 ^ size) :
    bytes.drop (bytes.length - size) = beBytes size (bigEndian bytes) := by
  have split := bigEndian_append (bytes.take (bytes.length - size))
    (bytes.drop (bytes.length - size))
  have length : (bytes.drop (bytes.length - size)).length = size := by
    rw [List.length_drop]
    omega
  rw [List.take_append_drop, length] at split
  apply bigEndian_inj
  · rw [length, length_beBytes]
  · rw [bigEndian_beBytes small]
    have high : bigEndian (bytes.take (bytes.length - size)) = 0 := by
      by_contra positive
      have scaled := Nat.mul_le_mul_right (256 ^ size) (Nat.pos_of_ne_zero positive)
      omega
    rw [split, high, Nat.zero_mul, Nat.zero_add]

/-! ## Reading a length -/

/-- The number of octets of the length in front; of an absent one, its first. -/
def lengthSize : List UInt8 → Nat
  | [] => 1
  | first :: _ => if first &&& 0x80 ≠ 0 then 1 + (first &&& 0x7f).toNat else 1

/-- The length in front. -/
def lengthValue : List UInt8 → Nat
  | [] => 0
  | first :: rest =>
      if first &&& 0x80 ≠ 0 then bigEndian (rest.take (first &&& 0x7f).toNat)
      else first.toNat

/-! ## Writing a length -/

/-- The octets that state a length: one below 128, or the number of the octets that
follow and these. -/
inductive LengthOctets : Nat → List UInt8 → Prop where
  | short (length : UInt8) : length < 0x80 → LengthOctets length.toNat [length]
  | long (count : UInt8) (octets : List UInt8) : octets ≠ [] → count < 0x7f →
      count.toNat = octets.length → LengthOctets (bigEndian octets) ((0x80 ||| count) :: octets)

/-- The encoding of a content under a tag. -/
def Field (tag : UInt8) (content bytes : List UInt8) : Prop :=
  ∃ octets, LengthOctets content.length octets ∧ bytes = tag :: (octets ++ content)

theorem short_form (length : UInt8) (small : length < 0x80) : length &&& 0x80 = 0 := by
  have all : ∀ bits : BitVec 8, bits < 0x80 → bits &&& 0x80 = 0 := by decide
  exact UInt8.eq_of_toBitVec_eq (all length.toBitVec small)

theorem long_form (count : UInt8) (small : count < 0x7f) :
    (0x80 ||| count) &&& 0x80 ≠ 0 ∧ (0x80 ||| count) &&& 0x7f = count := by
  have all : ∀ bits : BitVec 8, bits < 0x7f →
      (0x80 ||| bits) &&& 0x80 ≠ 0 ∧ (0x80 ||| bits) &&& 0x7f = bits := by decide
  obtain ⟨long, digits⟩ := all count.toBitVec small
  constructor
  · exact fun zero => long (congrArg UInt8.toBitVec zero)
  · exact UInt8.eq_of_toBitVec_eq digits

/-- What is written as a length is read back as one. -/
theorem LengthOctets.size {length : Nat} {octets : List UInt8}
    (states : LengthOctets length octets) (rest : List UInt8) :
    lengthSize (octets ++ rest) = octets.length := by
  cases states with
  | short length small => simp [lengthSize, short_form length small]
  | long count octets nonempty small counted =>
      obtain ⟨long, digits⟩ := long_form count small
      simp only [List.cons_append, lengthSize, if_pos long, digits, counted, List.length_cons]
      omega

theorem LengthOctets.value {length : Nat} {octets : List UInt8}
    (states : LengthOctets length octets) (rest : List UInt8) :
    lengthValue (octets ++ rest) = length := by
  cases states with
  | short length small => simp [lengthValue, short_form length small]
  | long count octets nonempty small counted =>
      obtain ⟨long, digits⟩ := long_form count small
      simp only [List.cons_append, lengthValue, if_pos long, digits, counted]
      rw [List.take_append_of_le_length (Nat.le_refl _), List.take_length]

theorem LengthOctets.nonempty {length : Nat} {octets : List UInt8}
    (states : LengthOctets length octets) : 1 ≤ octets.length := by
  cases states with
  | short length small => exact Nat.le_refl 1
  | long count octets nonempty small counted => exact Nat.le_add_left 1 _

theorem Field.length {tag : UInt8} {content bytes : List UInt8}
    (field : Field tag content bytes) : 2 + content.length ≤ bytes.length := by
  obtain ⟨octets, states, rfl⟩ := field
  have nonempty := states.nonempty
  simp only [List.length_cons, List.length_append]
  omega

/-- Reading a field: its tag, its length, and what is behind these. -/
theorem Field.read {tag : UInt8} {content bytes : List UInt8} (field : Field tag content bytes)
    {data rest : List UInt8} {i : Nat} (here : data.drop i = bytes ++ rest) :
    data[i]? = some tag ∧ lengthValue (data.drop (i + 1)) = content.length ∧
      data.drop (i + 1 + lengthSize (data.drop (i + 1))) = content ++ rest := by
  obtain ⟨octets, states, rfl⟩ := field
  have first : data[i]? = some tag := by
    rw [← List.head?_drop, here]
    rfl
  have behind : data.drop (i + 1) = octets ++ (content ++ rest) := by
    rw [← List.drop_drop, here]
    simp
  have size := states.size (content ++ rest)
  have value := states.value (content ++ rest)
  rw [← behind] at size value
  constructor
  · exact first
  · constructor
    · exact value
    · rw [size, ← List.drop_drop, behind]
      simp

/-! ## Writing an integer -/

/-- The shortest two's complement of a number. -/
def derInteger (number : Nat) : List UInt8 :=
  if number < 128 then [UInt8.ofNat number]
  else derInteger (number / 256) ++ [UInt8.ofNat number]
termination_by number
decreasing_by omega

/-- A content of less than 128 bytes under a tag. -/
def derField (tag : UInt8) (content : List UInt8) : List UInt8 :=
  tag :: UInt8.ofNat content.length :: content

theorem bigEndian_derInteger (number : Nat) : bigEndian (derInteger number) = number := by
  fun_induction derInteger number with
  | case1 number small =>
      have fits : number < 256 := by omega
      simp [bigEndian, Nat.mod_eq_of_lt fits]
  | case2 number large ih =>
      rw [bigEndian_append, ih]
      simp only [bigEndian, List.length_singleton, List.foldl_cons, List.foldl_nil,
        UInt8.toNat_ofNat']
      omega

theorem derInteger_length_pos (number : Nat) : 1 ≤ (derInteger number).length := by
  rw [derInteger]
  split
  · exact Nat.le_refl 1
  · simp

/-- The number leaves the sign bit of its bytes clear. -/
theorem derInteger_lt (number : Nat) :
    number < 128 * 256 ^ ((derInteger number).length - 1) := by
  fun_induction derInteger number with
  | case1 number small => simpa using small
  | case2 number large ih =>
      have positive := derInteger_length_pos (number / 256)
      rw [List.length_append, List.length_singleton, Nat.add_sub_cancel,
        ← Nat.sub_add_cancel positive, Nat.pow_succ]
      omega

/-- In one byte less it would not. -/
theorem le_derInteger {number : Nat} (large : 128 ≤ number) :
    256 ^ (derInteger number).length ≤ 512 * number := by
  fun_induction derInteger number with
  | case1 number small => omega
  | case2 number _ ih =>
      rw [List.length_append, List.length_singleton, Nat.pow_succ]
      by_cases next : 128 ≤ number / 256
      · have scaled := ih next
        omega
      · have short : (derInteger (number / 256)).length = 1 := by
          rw [derInteger, if_pos (by omega)]
          rfl
        rw [short]
        omega

end Zsbl.Lib
