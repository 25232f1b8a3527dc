/-
Module: Zsbl.Proofs.SignatureReader
Purpose: What the signature reader writes, and for which signatures that is the pair
  of numbers they encode.
Trusted boundary: none
Main exports:
  getSR_eq, Component, derSignature, getSR_decodes_iff
-/
import Zsbl.Libs.AkcipherVerify
import Zsbl.Proofs.KeyFields
import Mathlib.Tactic.ByContra

namespace Zsbl.Libs

open Zsbl.Lib

/-! ## What the reader writes -/

/-- The bytes that are copied of the first integer, and of the second one. -/
def rPart (sig : Memory) : List UInt8 :=
  if sig 2 = 0x02 then
    fetch sig (4 + padding (sig 3).toNat) ((sig 3).toNat - padding (sig 3).toNat)
  else []

def sTag (sig : Memory) : Nat := if sig 2 = 0x02 then 4 + (sig 3).toNat else 4

def sPart (sig : Memory) : List UInt8 :=
  let length := (sig (sTag sig + 1)).toNat
  if sig (sTag sig) = 0x02 then
    fetch sig (sTag sig + 2 + padding length) (length - padding length)
  else []

/-- The loop copies the bytes, and faults on more than 32 of them. -/
theorem buffer_fill (sig : Memory) (start pad count : Nat) {old : List UInt8}
    (sized : old.length = 32) :
    buffer.fill (fun i => some (sig (start + i + pad))) count 0 old =
      if count ≤ 32 then some (overwrite old 0 (fetch sig (start + pad) count)) else none := by
  by_cases fits : count ≤ 32
  · rw [if_pos fits]
    have loop := @KeyField.fill_eq buffer (fun i => some (sig (start + i + pad)))
      (fetch sig (start + pad) count) 0 old
    rw [length_fetch] at loop
    apply loop
    · intro j lt
      have position : start + (0 + j) + pad = start + pad + j := by omega
      rw [position]
      simp [fetch, lt]
    · simpa [buffer] using fits
    · simp [buffer, sized]
  · rw [if_neg fits, ← Option.not_isSome_iff_eq_none, KeyField.fill_isSome]
    rintro ⟨empty | inside, -⟩
    · omega
    · simp only [buffer] at inside
      omega

/-- The second integer is copied to the start of its buffer, if it fits. -/
theorem getS_eq (sig : Memory) {s : List UInt8} (sized : s.length = 32) (r : List UInt8) :
    getS sig s r (sTag sig) = if (sPart sig).length ≤ 32 then
      some (0, overwrite s 0 (sPart sig), r) else none := by
  unfold getS sPart
  by_cases tagged : sig (sTag sig) = 0x02
  · simp only [if_pos tagged, length_fetch]
    rw [buffer_fill sig _ _ _ sized]
    split
    · rfl
    · rfl
  · simp [tagged, overwrite_nil]

/-- The reader copies both integers, whatever they are, to the starts of the buffers. -/
theorem getSR_eq (sig : Memory) {s r : List UInt8} (sSized : s.length = 32)
    (rSized : r.length = 32) :
    getSR sig s r = if sig 0 ≠ 0x30 then some (-1, s, r)
      else if (rPart sig).length ≤ 32 ∧ (sPart sig).length ≤ 32 then
        some (0, overwrite s 0 (sPart sig), overwrite r 0 (rPart sig))
      else none := by
  by_cases sequence : sig 0 ≠ 0x30
  · simp [getSR, sequence]
  · have second := getS_eq sig sSized
    unfold getSR
    rw [if_neg sequence, if_neg sequence]
    by_cases tagged : sig 2 = 0x02
    · have tag : sTag sig = 4 + (sig 3).toNat := if_pos tagged
      have part : rPart sig = fetch sig (4 + padding (sig 3).toNat)
        ((sig 3).toNat - padding (sig 3).toNat) := if_pos tagged
      simp only [if_pos tagged, Option.bind_eq_bind]
      rw [buffer_fill sig _ _ _ rSized, part, length_fetch]
      by_cases fits : (sig 3).toNat - padding (sig 3).toNat ≤ 32
      · rw [if_pos fits, Option.bind_some, ← tag, second]
        simp [fits]
      · simp [fits]
    · have tag : sTag sig = 4 := if_neg tagged
      have part : rPart sig = [] := if_neg tagged
      rw [if_neg tagged, ← tag, second, part, overwrite_nil]
      simp

/-! ## Signatures -/

/-- A number of a signature. -/
structure Component where
  number : Nat
  positive : 1 ≤ number
  fits : number < 2 ^ 256

/-- `SEQUENCE { INTEGER r, INTEGER s }`. -/
def derSignature (r s : Component) : List UInt8 :=
  derField 0x30 (derField 0x02 (derInteger r.number) ++ derField 0x02 (derInteger s.number))

/-- The part of an integer that the reader copies. -/
def Component.part (component : Component) : List UInt8 :=
  (derInteger component.number).drop (padding (derInteger component.number).length)

/-- A number below 2^256 takes 33 bytes at most. -/
theorem Component.length_le (component : Component) :
    (derInteger component.number).length ≤ 33 := by
  by_cases large : 128 ≤ component.number
  · have long := le_derInteger large
    have fits := component.fits
    by_contra longer
    have power := Nat.pow_le_pow_right (by decide : 0 < 256) (Nat.lt_of_not_le longer)
    omega
  · rw [derInteger, if_pos (Nat.lt_of_not_le large), List.length_singleton]
    decide

/-- What is copied is the number: a 33rd byte in front of it is zero. -/
theorem Component.bigEndian_part (component : Component) :
    bigEndian component.part = component.number := by
  unfold part padding
  split
  · next long =>
      have value := bigEndian_derInteger component.number
      have fits := component.fits
      cases digits : derInteger component.number with
      | nil => exact absurd (derInteger_length_pos component.number) (by simp [digits])
      | cons first rest =>
          rw [digits, List.length_cons] at long
          rw [digits, bigEndian_cons] at value
          have short : rest.length = 32 := by omega
          have zero : first.toNat = 0 := by
            rw [short] at value
            omega
          rw [zero, Nat.zero_mul, Nat.zero_add] at value
          exact value
  · exact bigEndian_derInteger component.number

theorem Component.length_part (component : Component) :
    component.part.length = (derInteger component.number).length -
      padding (derInteger component.number).length :=
  List.length_drop

/-- The sign byte is left out of what is copied. -/
theorem Component.part_prefix (component : Component) (rest : List UInt8) :
    component.part <+: (derInteger component.number ++ rest).drop
      (padding (derInteger component.number).length) := by
  have inside : padding (derInteger component.number).length ≤
      (derInteger component.number).length := by
    unfold padding
    split
    · omega
    · omega
  rw [List.drop_append_of_le_length inside]
  exact List.prefix_append _ _

theorem Component.part_length_le (component : Component) : component.part.length ≤ 32 := by
  have bound := component.length_le
  unfold part padding
  rw [List.length_drop]
  split
  · omega
  · omega

/-- It has all 32 bytes unless the number is small. -/
theorem Component.part_length_iff (component : Component) :
    component.part.length = 32 ↔ 2 ^ 247 ≤ component.number := by
  have bound := component.length_le
  have whole : component.part.length = 32 ↔ 32 ≤ (derInteger component.number).length := by
    unfold part padding
    rw [List.length_drop]
    split
    · omega
    · omega
  rw [whole]
  constructor
  · intro long
    have large : 128 ≤ component.number := by
      by_contra small
      rw [derInteger, if_pos (Nat.lt_of_not_le small), List.length_singleton] at long
      omega
    have power := Nat.pow_le_pow_right (by decide : 0 < 256) long
    have digits := le_derInteger large
    omega
  · intro large
    by_contra short
    have digits := derInteger_lt component.number
    have power := Nat.pow_le_pow_right (by decide : 0 < 256)
      (by omega : (derInteger component.number).length - 1 ≤ 30)
    omega

/-- A buffer that starts with a copied number holds it only if it is all of the
buffer. -/
theorem Component.overwrite_iff (component : Component) {old : List UInt8}
    (sized : old.length = 32) :
    bigEndian (overwrite old 0 component.part) = component.number ↔
      2 ^ 247 ≤ component.number := by
  rw [← component.part_length_iff]
  have value := component.bigEndian_part
  have positive := component.positive
  have bound := component.part_length_le
  have split : bigEndian (overwrite old 0 component.part) =
      component.number * 256 ^ (32 - component.part.length) +
        bigEndian (old.drop component.part.length) := by
    simp only [overwrite, List.take_zero, List.nil_append, Nat.zero_add]
    rw [bigEndian_append, value, List.length_drop, sized]
  rw [split]
  constructor
  · intro same
    by_contra short
    have power := Nat.pow_le_pow_right (by decide : 0 < 256)
      (by omega : 1 ≤ 32 - component.part.length)
    have scaled := Nat.mul_le_mul_left component.number power
    omega
  · intro full
    have nothing : old.drop component.part.length = [] :=
      List.drop_eq_nil_of_le (by omega)
    rw [nothing, full]
    simp [bigEndian]

/-! ## Signatures in memory -/

/-- A part of the bytes in memory is read at its place. -/
theorem fetch_part {memory : Memory} {bytes part : List UInt8} {i : Nat}
    (there : fetch memory 0 bytes.length = bytes) (here : part <+: bytes.drop i) :
    fetch memory i part.length = part := by
  apply fetch_eq_iff.mpr
  intro j byte read
  obtain ⟨rest, whole⟩ := here
  have inside : (bytes.drop i)[j]? = some byte := by
    obtain ⟨lt, -⟩ := List.getElem?_eq_some_iff.mp read
    rw [← whole, List.getElem?_append_left lt, read]
  rw [List.getElem?_drop] at inside
  have value := fetch_eq_iff.mp there (i + j) byte inside
  rwa [Nat.zero_add] at value

theorem toNat_length (component : Component) :
    (UInt8.ofNat (derInteger component.number).length).toNat =
      (derInteger component.number).length := by
  have bound := component.length_le
  rw [UInt8.toNat_ofNat']
  omega

/-- The reader finds the two numbers of a signature. -/
theorem derSignature_parts (r s : Component) {memory : Memory}
    (there : fetch memory 0 (derSignature r s).length = derSignature r s) :
    memory 0 = 0x30 ∧ rPart memory = r.part ∧ sPart memory = s.part := by
  have element (i : Nat) (byte : UInt8) (read : (derSignature r s)[i]? = some byte) :
      memory i = byte := by
    have value := fetch_eq_iff.mp there i byte read
    rwa [Nat.zero_add] at value
  have rLength := toNat_length r
  have sLength := toNat_length s
  have tag : memory 2 = 0x02 := element 2 _ rfl
  have length : (memory 3).toNat = (derInteger r.number).length := by
    rw [element 3 _ rfl, rLength]
  have behind : (derSignature r s).drop (4 + (derInteger r.number).length) =
      derField 0x02 (derInteger s.number) := by
    rw [← List.drop_drop]
    exact List.drop_left
  have tag' : sTag memory = 4 + (derInteger r.number).length := by
    unfold sTag
    rw [if_pos tag, length]
  have second (j : Nat) (byte : UInt8)
      (read : (derField 0x02 (derInteger s.number))[j]? = some byte) :
      memory (4 + (derInteger r.number).length + j) = byte := by
    apply element
    rw [← List.getElem?_drop, behind, read]
  constructor
  · exact element 0 _ rfl
  constructor
  · have copied := @fetch_part memory _ r.part
      (4 + padding (derInteger r.number).length) there
    unfold rPart
    rw [if_pos tag, length, ← r.length_part]
    apply copied
    rw [← List.drop_drop]
    exact r.part_prefix _
  · have copied := @fetch_part memory _ s.part
      (4 + (derInteger r.number).length + 2 + padding (derInteger s.number).length) there
    have first : memory (sTag memory) = 0x02 := by
      rw [tag']
      exact second 0 _ rfl
    have size : (memory (sTag memory + 1)).toNat = (derInteger s.number).length := by
      rw [tag', second 1 _ rfl, sLength]
    unfold sPart
    simp only [if_pos first, size]
    rw [tag', ← s.length_part]
    apply copied
    rw [← List.drop_drop, ← List.drop_drop, behind]
    have whole := s.part_prefix []
    rwa [List.append_nil] at whole

/-! ## Decoding -/

/-- The buffers get the numbers of the signature, in 32 bytes each. -/
def SignatureDecodes (r s : Component) (memory : Memory) (oldS oldR : Vector UInt8 32) : Prop :=
  ∃ s' r', getSR memory oldS.toList oldR.toList = some (0, s', r') ∧
    s'.length = 32 ∧ r'.length = 32 ∧ bigEndian s' = s.number ∧ bigEndian r' = r.number

def IsSignature (sig : List UInt8) : Prop := ∃ r s, sig = derSignature r s

/-- Whatever comes behind the bytes, the reader stays in its buffers, and rejects
bytes that are not a signature. -/
def SignatureChecked (sig : List UInt8) : Prop :=
  ∀ (rest : Memory) (oldS oldR : Vector UInt8 32), ∃ ret s' r',
    getSR (store rest 0 sig) oldS.toList oldR.toList = some (ret, s', r') ∧
      (ret = 0 → IsSignature sig)

theorem getSR_derSignature (r s : Component) (rest : Memory) (oldS oldR : Vector UInt8 32) :
    getSR (store rest 0 (derSignature r s)) oldS.toList oldR.toList =
      some (0, overwrite oldS.toList 0 s.part, overwrite oldR.toList 0 r.part) := by
  obtain ⟨sequence, rFound, sFound⟩ :=
    derSignature_parts r s (fetch_store rest 0 (derSignature r s))
  rw [getSR_eq _ Vector.length_toList Vector.length_toList, if_neg (by simp [sequence]),
    rFound, sFound, if_pos ⟨r.part_length_le, s.part_length_le⟩]

/-- A signature is decoded exactly if both integers take 32 bytes or more. -/
theorem decodes_iff (r s : Component) (rest : Memory) (oldS oldR : Vector UInt8 32) :
    SignatureDecodes r s (store rest 0 (derSignature r s)) oldS oldR ↔
      2 ^ 247 ≤ r.number ∧ 2 ^ 247 ≤ s.number := by
  have length (component : Component) (old : Vector UInt8 32) :
      (overwrite old.toList 0 component.part).length = 32 := by
    have short := component.part_length_le
    have sized : old.toList.length = 32 := Vector.length_toList
    rw [length_overwrite (by omega), sized]
  have rValue := r.overwrite_iff oldR.length_toList
  have sValue := s.overwrite_iff oldS.length_toList
  unfold SignatureDecodes
  rw [getSR_derSignature, ← rValue, ← sValue]
  constructor
  · rintro ⟨s', r', same, -, -, sNumber, rNumber⟩
    cases same
    exact ⟨rNumber, sNumber⟩
  · rintro ⟨rNumber, sNumber⟩
    exact ⟨_, _, rfl, length s oldS, length r oldR, sNumber, rNumber⟩

/-- With the first byte of a sequence nothing is rejected. -/
theorem getSR_ret {memory : Memory} (sequence : memory 0 = 0x30) {s r s' r' : List UInt8}
    (sSized : s.length = 32) (rSized : r.length = 32) {ret : Int}
    (returns : getSR memory s r = some (ret, s', r')) : ret = 0 := by
  rw [getSR_eq _ sSized rSized, if_neg (by simp [sequence])] at returns
  split at returns
  · cases returns
    rfl
  · cases returns

/-- Bytes that are not a signature are rejected by their first byte only. -/
theorem checked_iff (sig : List UInt8) :
    SignatureChecked sig ↔ (∃ first ∈ sig.head?, first ≠ 0x30) ∨ IsSignature sig := by
  constructor
  · intro checked
    by_cases rejected : ∃ first ∈ sig.head?, first ≠ 0x30
    · exact .inl rejected
    · obtain ⟨ret, s', r', returns, signature⟩ :=
        checked (fun _ => 0x30) (Vector.replicate 32 0) (Vector.replicate 32 0)
      have sequence : store (fun _ => 0x30) 0 sig 0 = 0x30 := by
        cases sig with
        | nil => rfl
        | cons first rest =>
            by_contra other
            exact rejected ⟨first, rfl, other⟩
      apply Or.inr
      exact signature (getSR_ret sequence Vector.length_toList Vector.length_toList returns)
  · rintro (⟨first, isFirst, other⟩ | ⟨r, s, rfl⟩) rest oldS oldR
    · cases sig with
      | nil => cases isFirst
      | cons byte bytes =>
          cases isFirst
          have rejects : getSR (store rest 0 (first :: bytes)) oldS.toList oldR.toList =
              some (-1, oldS.toList, oldR.toList) := if_pos other
          exact ⟨-1, _, _, rejects, fun zero => by cases zero⟩
    · exact ⟨0, _, _, getSR_derSignature r s rest oldS oldR, fun _ => ⟨r, s, rfl⟩⟩

/-- The reader decodes the signatures of large numbers, and treats rightly the byte
strings that are signatures or do not start like one. -/
theorem getSR_decodes_iff (r s : Component) (rest : Memory) (oldS oldR : Vector UInt8 32)
    (sig : List UInt8) :
    (SignatureDecodes r s (store rest 0 (derSignature r s)) oldS oldR ↔
      2 ^ 247 ≤ r.number ∧ 2 ^ 247 ≤ s.number) ∧
    (SignatureChecked sig ↔ (∃ first ∈ sig.head?, first ≠ 0x30) ∨ IsSignature sig) :=
  ⟨decodes_iff r s rest oldS oldR, checked_iff sig⟩

def one : Component := ⟨1, by decide, by decide⟩

/-- A one in both places is put at the wrong ends of the buffers, and an integer of 64
bytes leaves its own. -/
theorem one_misread :
    ¬ SignatureDecodes one one (store (fun _ => 0) 0 (derSignature one one))
        (Vector.replicate 32 0) (Vector.replicate 32 0) ∧
      ¬ SignatureChecked [0x30, 0x42, 0x02, 0x40] := by
  constructor
  · rw [decodes_iff]
    rintro ⟨large, -⟩
    exact absurd large (by decide)
  · intro checked
    obtain ⟨ret, s', r', returns, -⟩ :=
      checked (fun _ => 0) (Vector.replicate 32 0) (Vector.replicate 32 0)
    rw [getSR_eq _ Vector.length_toList Vector.length_toList, if_neg (by decide),
      if_neg (by decide)] at returns
    cases returns

end Zsbl.Libs
