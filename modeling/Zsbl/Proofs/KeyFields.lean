/-
Module: Zsbl.Proofs.KeyFields
Purpose: Where the fields of a public key file are, and when the key reader stays
  inside the file and its arrays.
Trusted boundary: none
Main exports:
  KeyField.fill_isSome, KeyField.fill_eq, RsaFits, Sm2Fits, KeyReached, KeyFits,
  extractKey_isSome, extractRsaKey_ret, keyHeader_isSome, keyHeader_ret
-/
import Zsbl.Libs.Akcipher

namespace Zsbl.Libs

open Zsbl.Lib

/-! ## The primitives -/

/-- A loop stays in the array, and each value it stores can be read. -/
theorem KeyField.fill_isSome (field : KeyField) (value : Nat → Option UInt8)
    (count i : Nat) (key : List UInt8) : (field.fill value count i key).isSome ↔
      (count = 0 ∨ i + count ≤ field.size) ∧ ∀ j, j < count → (value (i + j)).isSome := by
  induction count generalizing i key with
  | zero => simp [fill]
  | succ count ih =>
      unfold fill write
      have shift : (∀ j, j < count + 1 → (value (i + j)).isSome) ↔
          (value i).isSome ∧ ∀ j, j < count → (value (i + 1 + j)).isSome := by
        constructor
        · intro all
          constructor
          · exact all 0 (Nat.succ_pos _)
          · intro j lt
            have next := all (j + 1) (by omega)
            rwa [Nat.add_comm j 1, ← Nat.add_assoc] at next
        · rintro ⟨first, rest⟩ j lt
          cases j with
          | zero => exact first
          | succ j =>
              rw [Nat.add_comm j 1, ← Nat.add_assoc]
              exact rest j (by omega)
      rw [shift]
      cases value i with
      | none => simp
      | some byte =>
          by_cases inside : i < field.size
          · simp only [Option.bind_eq_bind, Option.bind_some, inside, if_true, ih,
              Option.isSome_some, true_and]
            apply and_congr_left
            intro _
            omega
          · simp [inside]
            omega

/-- A loop that finds its values overwrites a part of its array. -/
theorem KeyField.fill_eq {field : KeyField} {value : Nat → Option UInt8} {part : List UInt8}
    {i : Nat} {key : List UInt8} (values : ∀ j, j < part.length → value (i + j) = part[j]?)
    (fits : i + part.length ≤ field.size) (inside : field.start + field.size ≤ key.length) :
    field.fill value part.length i key = some (overwrite key (field.start + i) part) := by
  induction part generalizing i key with
  | nil => simp [fill, overwrite_nil]
  | cons byte part ih =>
      rw [List.length_cons] at fits
      have first : value i = some byte := values 0 (Nat.succ_pos _)
      have rest (j : Nat) (lt : j < part.length) : value (i + 1 + j) = part[j]? := by
        have next := values (j + 1) (Nat.succ_lt_succ lt)
        rw [List.getElem?_cons_succ] at next
        rwa [Nat.add_assoc, Nat.add_comm 1 j]
      have here : i < field.size := by omega
      have position : field.start + i < key.length := by omega
      rw [List.length_cons]
      unfold fill write
      simp only [first, if_pos here, Option.bind_eq_bind, Option.bind_some]
      rw [ih rest (by omega) (by rwa [List.length_set]), set_eq_overwrite position]
      have both := @overwrite_append key [byte] _ (Nat.succ_le_of_lt position) part
      rw [List.length_singleton, Nat.add_assoc] at both
      rw [both]
      rfl

/-- The long form of a length is its bytes as a big-endian number, wrapped to 32 bits. -/
theorem lengthLoop_eq (count : Nat) (data : List UInt8) (number : Nat) :
    lengthLoop count data (BitVec.ofNat 32 number) =
      if count ≤ data.length then
        some (BitVec.ofNat 32
          ((data.take count).foldl (fun number byte => number * 256 + byte.toNat) number))
      else none := by
  induction count generalizing data number with
  | zero => simp [lengthLoop]
  | succ count ih =>
      cases data with
      | nil => simp [lengthLoop]
      | cons byte data =>
          have next : BitVec.ofNat 32 number <<< 8 ||| byte.toBitVec.setWidth 32 =
              BitVec.ofNat 32 (number * 256 + byte.toNat) := by
            apply BitVec.eq_of_toNat_eq
            have lt := byte.toNat_lt
            have low : (number % 2 ^ 32) <<< 8 % 2 ^ 32 = 2 ^ 8 * (number % 2 ^ 24) := by
              rw [Nat.shiftLeft_eq]
              omega
            have small : byte.toNat % 2 ^ 32 = byte.toNat := Nat.mod_eq_of_lt (by omega)
            simp only [BitVec.toNat_or, BitVec.toNat_shiftLeft, BitVec.toNat_ofNat,
              BitVec.toNat_setWidth, UInt8.toNat_toBitVec, low, small]
            rw [← Nat.two_pow_add_eq_or_of_lt lt]
            omega
          simp [lengthLoop, next, ih]

theorem parseSeqLength_skip (data : List UInt8) : parseSeqLength data none =
    if 0 < data.length then some (lengthSize data, 0) else none := by
  cases data with
  | nil => rfl
  | cons first rest =>
      by_cases long : first &&& 0x80 ≠ 0
      · simp [parseSeqLength, lengthSize, long]
      · simp [parseSeqLength, lengthSize, long]

/-- A length is read with its first byte and the bytes that this one announces. -/
theorem parseSeqLength_read (data : List UInt8) : parseSeqLength data (some 0) =
    if lengthSize data ≤ data.length then
      some (lengthSize data, BitVec.ofNat 32 (lengthValue data))
    else none := by
  cases data with
  | nil => rfl
  | cons first rest =>
      have loop := lengthLoop_eq (first &&& 0x7f).toNat rest 0
      have fits : 1 + (first &&& 0x7f).toNat ≤ rest.length + 1 ↔
          (first &&& 0x7f).toNat ≤ rest.length := by omega
      have start : parseSeqLength (first :: rest) (some 0) =
          if first &&& 0x80 ≠ 0 then
            (lengthLoop (first &&& 0x7f).toNat rest (BitVec.ofNat 32 0)).bind fun ctxLen =>
              some (1 + (first &&& 0x7f).toNat, ctxLen)
          else some (1, first.toBitVec.setWidth 32) := rfl
      rw [start, loop]
      by_cases long : first &&& 0x80 ≠ 0
      · simp only [if_pos long, lengthSize, lengthValue, List.length_cons, fits]
        by_cases inside : (first &&& 0x7f).toNat ≤ rest.length
        · simp only [if_pos inside, Option.bind_some, bigEndian]
        · simp only [if_neg inside, Option.bind_none]
      · simp only [if_neg long, lengthSize, lengthValue, List.length_cons]
        rw [if_pos (Nat.le_add_left _ _)]
        congr 2
        apply BitVec.eq_of_toNat_eq
        simp

/-- The loop over the zeros runs out of the file if there are only zeros. -/
theorem stripZeros_eq (data : List UInt8) (offset : Nat) (modulusLength : BitVec 32) :
    stripZeros data offset modulusLength =
      if ∃ byte ∈ data, byte ≠ 0 then
        some (offset + (data.takeWhile (· = 0)).length,
          modulusLength - BitVec.ofNat 32 (data.takeWhile (· = 0)).length)
      else none := by
  induction data generalizing offset modulusLength with
  | nil => simp [stripZeros]
  | cons byte data ih =>
      by_cases zero : byte = 0
      · have count (zeros : Nat) (length : BitVec 32) :
            length - 1#32 - BitVec.ofNat 32 zeros = length - BitVec.ofNat 32 (zeros + 1) := by
          apply BitVec.eq_of_toNat_eq
          simp only [BitVec.toNat_sub, BitVec.toNat_ofNat]
          omega
        simp [stripZeros, zero, ih, count, Nat.add_assoc, Nat.add_comm 1]
      · simp [stripZeros, zero]

/-- The comparison with an identifier reads behind the end only where the file ends
inside the identifier. -/
theorem cmpAlgOid_eq (data oid : List UInt8) : cmpAlgOid data oid =
    if oid <+: data then some true
    else if data <+: oid then none else some false := by
  induction oid generalizing data with
  | nil => simp [cmpAlgOid]
  | cons char oid ih =>
      cases data with
      | nil => simp [cmpAlgOid]
      | cons byte data =>
          by_cases same : byte = char
          · simp [cmpAlgOid, same, ih]
          · simp [cmpAlgOid, same, List.cons_prefix_cons, Ne.symm same]

/-! ## The fields of a key -/

/-- Where the fields of an RSA key are, and their lengths as the reader computes them. -/
def modulusAt (data : List UInt8) : Nat := 1 + lengthSize (data.drop 1)

def modulusStart (data : List UInt8) : Nat :=
  modulusAt data + 1 + lengthSize (data.drop (modulusAt data + 1))

/-- The number of zeros in front of the modulus. -/
def modulusZeros (data : List UInt8) : Nat :=
  ((data.drop (modulusStart data)).takeWhile (· = 0)).length

/-- The number of the other bytes of the modulus, in 32 bits. -/
def modulusBytes (data : List UInt8) : BitVec 32 :=
  BitVec.ofNat 32 (lengthValue (data.drop (modulusAt data + 1))) -
    BitVec.ofNat 32 (modulusZeros data)

def exponentAt (data : List UInt8) : Nat :=
  modulusStart data + modulusZeros data + (modulusBytes data).toNat

def exponentStart (data : List UInt8) : Nat :=
  exponentAt data + 1 + lengthSize (data.drop (exponentAt data + 1))

def exponentBytes (data : List UInt8) : BitVec 32 :=
  BitVec.ofNat 32 (lengthValue (data.drop (exponentAt data + 1)))

/-- The tags in front of the modulus and of the exponent are right. -/
def ModulusReached (data : List UInt8) : Prop :=
  data[0]? = some 0x30 ∧ data[modulusAt data]? = some 0x02

def ExponentReached (data : List UInt8) : Prop :=
  ModulusReached data ∧ data[exponentAt data]? = some 0x02

instance (data : List UInt8) : Decidable (ModulusReached data) :=
  inferInstanceAs (Decidable (_ ∧ _))

instance (data : List UInt8) : Decidable (ExponentReached data) :=
  inferInstanceAs (Decidable (_ ∧ _))

/-- Each field of an RSA key that comes behind right tags lies inside the file, and
the two numbers fit into their arrays. -/
structure RsaFits (data : List UInt8) : Prop where
  sequence : 0 < data.length
  sequenceLength : data[0]? = some 0x30 → 1 < data.length
  modulusTag : data[0]? = some 0x30 → modulusAt data < data.length
  modulusLength : ModulusReached data → modulusStart data ≤ data.length
  nonzero : ModulusReached data → ∃ byte ∈ data.drop (modulusStart data), byte ≠ 0
  modulusRoom : ModulusReached data → (modulusBytes data).toNat ≤ 256
  exponentTag : ModulusReached data → exponentAt data < data.length
  exponentLength : ExponentReached data → exponentStart data ≤ data.length
  exponentRoom : ExponentReached data → (exponentBytes data).toNat ≤ 256
  exponent : ExponentReached data →
    exponentStart data + (exponentBytes data).toNat ≤ data.length

/-- The same of an SM2 key. -/
structure Sm2Fits (data : List UInt8) : Prop where
  form : 0 < data.length
  point : data[0]? = some 0x04 → 65 ≤ data.length

/-- A byte that is looked at has to be in the file, and the rest only if it is the one. -/
theorem tag_isSome {α : Type} (data : List UInt8) (i : Nat) (tag : UInt8) (failed : α)
    (rest : Option α) :
    (data[i]?.bind fun byte => if byte ≠ tag then some failed else rest).isSome ↔
      i < data.length ∧ (data[i]? = some tag → rest.isSome) := by
  cases read : data[i]? with
  | none =>
      have outside := List.getElem?_eq_none_iff.mp read
      simp
      omega
  | some byte =>
      obtain ⟨inside, -⟩ := List.getElem?_eq_some_iff.mp read
      by_cases right : byte = tag
      · simp [right, inside]
      · simp [right, inside]

theorem guard_isSome {α β : Type} (condition : Prop) [Decidable condition] (value : α)
    (rest : α → Option β) :
    ((if condition then some value else none).bind rest).isSome ↔
      condition ∧ (rest value).isSome := by
  by_cases holds : condition
  · simp [holds]
  · simp [holds]

/-- A check of one byte fails or goes on with the rest. -/
theorem tag_eq_some {α : Type} {data : List UInt8} {i : Nat} {tag : UInt8}
    {failed value : α} {rest : Option α} :
    (data[i]?.bind fun byte => if byte ≠ tag then some failed else rest) = some value ↔
      (∃ byte, data[i]? = some byte ∧ byte ≠ tag ∧ failed = value) ∨
        data[i]? = some tag ∧ rest = some value := by
  cases data[i]? with
  | none => simp
  | some byte =>
      by_cases right : byte = tag
      · simp [right]
      · simp [right]

theorem guard_eq_some {α β : Type} {condition : Prop} [Decidable condition] {value : α}
    {rest : α → Option β} {result : β} :
    ((if condition then some value else none).bind rest) = some result ↔
      condition ∧ rest value = some result := by
  by_cases holds : condition
  · simp [holds]
  · simp [holds]

theorem bind_isSome {α β : Type} (first : Option α) (rest : α → Option β) (all : Prop)
    (later : ∀ value, first = some value → ((rest value).isSome ↔ all)) :
    (first.bind rest).isSome ↔ first.isSome ∧ all := by
  cases read : first with
  | none => simp
  | some value => simp [later value read]

/-- The loops over the exponent: too long an exponent makes the unsigned number of
padding bytes larger than the array. -/
theorem exponentLoops_isSome (key data : List UInt8) (start : Nat) (size : BitVec 32)
    (modulusLength : BitVec 32) (inside : start ≤ data.length) :
    ((exponent.fill (fun _ => some 0) (256 - size).toNat 0 key).bind fun key =>
      (exponent.fill (fun i => data[start + i + size.toNat - 256]?)
        (256 - (256 - size).toNat) (256 - size).toNat key).bind fun key =>
          some (Extracted.mk 0 key (some modulusLength))).isSome ↔
      size.toNat ≤ 256 ∧ start + size.toNat ≤ data.length := by
  have lt := size.isLt
  have padding : (256 - size).toNat = (2 ^ 32 - size.toNat + 256) % 2 ^ 32 := by
    simp [BitVec.toNat_sub]
  have zeros : (exponent.fill (fun _ => some 0) (256 - size).toNat 0 key).isSome ↔
      size.toNat ≤ 256 := by
    rw [KeyField.fill_isSome]
    simp only [exponent, Option.isSome_some, implies_true, and_true]
    omega
  by_cases room : size.toNat ≤ 256
  · have pad : (256 - size).toNat = 256 - size.toNat := by omega
    have position (j : Nat) : start + (256 - size.toNat + j) + size.toNat - 256 = start + j := by
      omega
    have values : (∀ j, j < size.toNat → start + j < data.length) ↔
        start + size.toNat ≤ data.length := by
      constructor
      · intro all
        by_cases empty : size.toNat = 0
        · omega
        · have last := all (size.toNat - 1) (by omega)
          omega
      · intro enough j lt
        omega
    rw [bind_isSome _ _ (start + size.toNat ≤ data.length), zeros]
    intro key _
    rw [bind_isSome _ _ True (by simp), KeyField.fill_isSome, pad, Nat.sub_sub_self room]
    simp only [position, isSome_getElem?, exponent]
    rw [values, and_true]
    omega
  · have none := Option.not_isSome_iff_eq_none.mp (mt zeros.mp room)
    rw [none, Option.bind_none]
    simp [room]

/-- The exponent is read inside the file if the header of it and its bytes are there. -/
theorem extractExponent_isSome (key data : List UInt8) (modulusLength : BitVec 32) :
    (extractExponent key data (exponentAt data) modulusLength).isSome ↔
      exponentAt data < data.length ∧ (data[exponentAt data]? = some 0x02 →
        exponentStart data ≤ data.length ∧ (exponentBytes data).toNat ≤ 256 ∧
          exponentStart data + (exponentBytes data).toNat ≤ data.length) := by
  unfold extractExponent
  simp only [Option.bind_eq_bind, Option.pure_def]
  rw [tag_isSome, parseSeqLength_read, guard_isSome, List.length_drop]
  apply and_congr_right
  intro inside
  have field : lengthSize (data.drop (exponentAt data + 1)) ≤ data.length - (exponentAt data + 1) ↔
      exponentStart data ≤ data.length := by
    unfold exponentStart
    omega
  rw [field]
  apply imp_congr_right
  intro _
  apply and_congr_right
  intro start
  exact exponentLoops_isSome key data _ _ modulusLength start

/-- The RSA extractor stays inside the file and the arrays for these keys, and for
no others. -/
theorem extractRsaKey_isSome (key data : List UInt8) :
    (extractRsaKey key data).isSome ↔ RsaFits data := by
  have steps : (extractRsaKey key data).isSome ↔
      0 < data.length ∧ (data[0]? = some 0x30 →
        0 < (data.drop 1).length ∧ modulusAt data < data.length ∧
          (data[modulusAt data]? = some 0x02 →
            lengthSize (data.drop (modulusAt data + 1)) ≤
              (data.drop (modulusAt data + 1)).length ∧
            (∃ byte ∈ data.drop (modulusStart data), byte ≠ 0) ∧
            ((modulus.fill (fun i => data[modulusStart data + modulusZeros data + i]?)
              (modulusBytes data).toNat 0 key).bind fun key =>
                extractExponent key data (exponentAt data) (modulusBytes data)).isSome)) := by
    unfold extractRsaKey
    simp only [Option.bind_eq_bind, Option.pure_def, Nat.zero_add]
    rw [tag_isSome, parseSeqLength_skip, guard_isSome, tag_isSome, parseSeqLength_read,
      guard_isSome, stripZeros_eq, guard_isSome]
    rfl
  rw [steps, bind_isSome _ _ _ fun key _ => extractExponent_isSome key data _,
    KeyField.fill_isSome, List.length_drop, List.length_drop]
  constructor
  · rintro ⟨sequence, fields⟩
    have modulusFields (reached : ModulusReached data) :=
      (fields reached.1).2.2 reached.2
    constructor
    · exact sequence
    · intro tag
      have := (fields tag).1
      omega
    · exact fun tag => (fields tag).2.1
    · intro reached
      have inside := (fields reached.1).2.1
      have size := (modulusFields reached).1
      unfold modulusStart
      omega
    · exact fun reached => (modulusFields reached).2.1
    · intro reached
      have room := (modulusFields reached).2.2.1.1
      simp only [modulus] at room
      omega
    · exact fun reached => (modulusFields reached).2.2.2.1
    · exact fun reached => ((modulusFields reached.1).2.2.2.2 reached.2).1
    · exact fun reached => ((modulusFields reached.1).2.2.2.2 reached.2).2.1
    · exact fun reached => ((modulusFields reached.1).2.2.2.2 reached.2).2.2
  · intro fits
    refine ⟨fits.sequence, fun tag => ⟨?_, fits.modulusTag tag, fun tag' => ?_⟩⟩
    · have := fits.sequenceLength tag
      omega
    · have reached : ModulusReached data := ⟨tag, tag'⟩
      have start := fits.modulusLength reached
      have room := fits.modulusRoom reached
      have stop := fits.exponentTag reached
      refine ⟨?_, fits.nonzero reached, ⟨?_, ?_⟩, stop, fun tag'' => ?_⟩
      · unfold modulusStart at start
        omega
      · simp only [modulus]
        omega
      · intro j lt
        rw [isSome_getElem?]
        unfold exponentAt at stop
        omega
      · have reached' : ExponentReached data := ⟨reached, tag''⟩
        exact ⟨fits.exponentLength reached', fits.exponentRoom reached', fits.exponent reached'⟩

/-- The point is read inside the file exactly if it fits. -/
theorem extractSm2Key_isSome (key data : List UInt8) :
    (extractSm2Key key data).isSome ↔ Sm2Fits data := by
  have arrays : (pubx.fill (fun i => data[1 + i]?) 32 0 key |>.bind fun key =>
      puby.fill (fun i => data[33 + i]?) 32 0 key |>.bind fun key =>
        some (Extracted.mk 0 key (some 32))).isSome ↔ 65 ≤ data.length := by
    have second (key : List UInt8) : ((puby.fill (fun i => data[33 + i]?) 32 0 key).bind
        fun key => some (Extracted.mk 0 key (some 32))).isSome ↔ 65 ≤ data.length := by
      rw [bind_isSome _ _ True (by simp), KeyField.fill_isSome]
      simp only [isSome_getElem?, puby, Nat.le_refl, Nat.zero_add, or_true, true_and, and_true]
      constructor
      · exact fun all => all 31 (by omega)
      · intro enough j lt
        omega
    rw [bind_isSome _ _ _ fun key _ => second key, KeyField.fill_isSome]
    simp only [isSome_getElem?, pubx, Nat.le_refl, Nat.zero_add, or_true, true_and]
    constructor
    · exact And.right
    · intro enough
      constructor
      · intro j lt
        omega
      · exact enough
  unfold extractSm2Key
  simp only [Option.bind_eq_bind, Option.pure_def]
  rw [tag_isSome, arrays]
  constructor
  · exact fun fits => ⟨fits.1, fits.2⟩
  · exact fun fits => ⟨fits.form, fits.point⟩

/-- An extractor that returns 0 has seen the right tags. -/
theorem extractRsaKey_ret {key data : List UInt8} {extracted : Extracted}
    (returns : extractRsaKey key data = some extracted) :
    extracted.ret = 0 ↔ ExponentReached data := by
  have steps : (∃ byte, data[0]? = some byte ∧ byte ≠ 0x30 ∧
      Extracted.mk (-1) key (some 0) = extracted) ∨ data[0]? = some 0x30 ∧
        0 < (data.drop 1).length ∧ ((∃ byte, data[modulusAt data]? = some byte ∧ byte ≠ 0x02 ∧
          Extracted.mk (-1) key (some 0) = extracted) ∨ data[modulusAt data]? = some 0x02 ∧
            lengthSize (data.drop (modulusAt data + 1)) ≤
              (data.drop (modulusAt data + 1)).length ∧
            (∃ byte ∈ data.drop (modulusStart data), byte ≠ 0) ∧
            ((modulus.fill (fun i => data[modulusStart data + modulusZeros data + i]?)
              (modulusBytes data).toNat 0 key).bind fun key =>
                extractExponent key data (exponentAt data) (modulusBytes data)) =
                  some extracted) := by
    unfold extractRsaKey at returns
    simp only [Option.bind_eq_bind, Option.pure_def, Nat.zero_add] at returns
    rw [tag_eq_some, parseSeqLength_skip, guard_eq_some, tag_eq_some, parseSeqLength_read,
      guard_eq_some, stripZeros_eq, guard_eq_some] at returns
    exact returns
  unfold ExponentReached ModulusReached
  rcases steps with ⟨byte, read, wrong, rfl⟩ | ⟨tag, -, steps⟩
  · simp [read, wrong]
  rcases steps with ⟨byte, read, wrong, rfl⟩ | ⟨tag', -, -, steps⟩
  · simp [read, wrong]
  obtain ⟨key, -, steps⟩ := Option.bind_eq_some_iff.mp steps
  unfold extractExponent at steps
  simp only [Option.bind_eq_bind, Option.pure_def] at steps
  rw [tag_eq_some, parseSeqLength_read, guard_eq_some] at steps
  rcases steps with ⟨byte, read, wrong, rfl⟩ | ⟨tag'', -, steps⟩
  · simp [read, wrong]
  · obtain ⟨key, -, steps⟩ := Option.bind_eq_some_iff.mp steps
    obtain ⟨key, -, steps⟩ := Option.bind_eq_some_iff.mp steps
    obtain rfl := Option.some.inj steps
    simp [tag, tag', tag'']

/-! ## The fields in front of a key -/

def algorithmAt (der : List UInt8) : Nat := 1 + lengthSize (der.drop 1)

def oidAt (der : List UInt8) : Nat :=
  algorithmAt der + 1 + lengthSize (der.drop (algorithmAt der + 1))

def oidBytes (der : List UInt8) : BitVec 32 :=
  BitVec.ofNat 32 (lengthValue (der.drop (algorithmAt der + 1)))

def bitStringAt (der : List UInt8) : Nat := oidAt der + (oidBytes der).toNat

def keyAt (der : List UInt8) : Nat :=
  bitStringAt der + 1 + lengthSize (der.drop (bitStringAt der + 1)) + 1

/-- The file starts with the fields in front of the algorithm, its identifier, the
bit string, and the key. -/
def AlgorithmReached (der : List UInt8) : Prop := 15 ≤ der.length ∧ der[0]? = some 0x30

def OidReached (der : List UInt8) : Prop :=
  AlgorithmReached der ∧ der[algorithmAt der]? = some 0x30

def Names (der : List UInt8) (alg : Alg) : Prop :=
  OidReached der ∧ (oidBytes der).toNat = alg.oid.length ∧ alg.oid <+: der.drop (oidAt der)

def KeyReached (der : List UInt8) (alg : Alg) : Prop :=
  Names der alg ∧ der[bitStringAt der]? = some 0x03

theorem oid_length_injective {alg other : Alg}
    (same : alg.oid.length = other.oid.length) : alg = other := by
  cases alg <;> cases other <;> first | rfl | cases same

theorem KeyReached.unique {der : List UInt8} {alg other : Alg} (reached : KeyReached der alg)
    (reached' : KeyReached der other) : alg = other :=
  oid_length_injective (reached.1.2.1.symm.trans reached'.1.2.1)

def FieldsFit : Alg → List UInt8 → Prop
  | .rsa => RsaFits
  | .sm2 => Sm2Fits

/-- Each field that comes behind right tags lies inside the file, no identifier is
cut off at its end, and the numbers fit into their arrays. -/
structure KeyFits (der : List UInt8) : Prop where
  algorithm : AlgorithmReached der → algorithmAt der < der.length
  oidLength : OidReached der → oidAt der ≤ der.length
  oid : OidReached der → ∀ alg : Alg, (oidBytes der).toNat = alg.oid.length →
    der.drop (oidAt der) <+: alg.oid → alg.oid <+: der.drop (oidAt der)
  bitString : ∀ alg, Names der alg → bitStringAt der < der.length
  bitLength : ∀ alg, KeyReached der alg → bitStringAt der + 1 < der.length
  key : ∀ alg, KeyReached der alg → FieldsFit alg (der.drop (keyAt der))

/-- Only the object identifier of the same length is compared. -/
theorem parseAlgOid_known (data : List UInt8) (alg : Alg) :
    parseAlgOid data alg.oid.length =
      (cmpAlgOid data alg.oid).map fun same => if same then some alg else none := by
  have compares : parseAlgOid data alg.oid.length =
      (cmpAlgOid data alg.oid).bind fun same => some (if same then some alg else none) := by
    cases alg with
    | rsa => rfl
    | sm2 => rfl
  rw [compares, Option.map_eq_bind]
  rfl

/-- An object identifier of another length is not compared with anything. -/
theorem parseAlgOid_unknown (data : List UInt8) {len : Nat}
    (unknown : ∀ alg : Alg, len ≠ alg.oid.length) : parseAlgOid data len = some none := by
  have rsa : len ≠ 13 := unknown .rsa
  have sm2 : len ≠ 20 := unknown .sm2
  unfold parseAlgOid
  split
  · contradiction
  · contradiction
  · rfl

/-- An algorithm is recognised by its object identifier in front of the bytes. -/
theorem parseAlgOid_eq (data : List UInt8) (len : Nat) (alg : Alg) :
    parseAlgOid data len = some (some alg) ↔ len = alg.oid.length ∧ alg.oid <+: data := by
  by_cases known : ∃ other : Alg, len = other.oid.length
  · obtain ⟨other, rfl⟩ := known
    rw [parseAlgOid_known, cmpAlgOid_eq]
    by_cases same : other = alg
    · subst same
      by_cases found : other.oid <+: data
      · simp [found]
      · by_cases cut : data <+: other.oid
        · simp [found, cut]
        · simp [found, cut]
    · have differs : other.oid.length ≠ alg.oid.length := mt oid_length_injective same
      by_cases found : other.oid <+: data
      · simp [found, same, differs]
      · by_cases cut : data <+: other.oid
        · simp [found, cut, differs]
        · simp [found, cut, differs]
  · have unknown : ∀ other : Alg, len ≠ other.oid.length := fun other same => known ⟨other, same⟩
    rw [parseAlgOid_unknown data unknown]
    simp [unknown alg]

/-- The comparison stays inside the file unless the file ends within an equal prefix. -/
theorem parseAlgOid_isSome (data : List UInt8) (len : Nat) :
    (parseAlgOid data len).isSome ↔
      ∀ alg : Alg, len = alg.oid.length → data <+: alg.oid → alg.oid <+: data := by
  by_cases known : ∃ other : Alg, len = other.oid.length
  · obtain ⟨other, rfl⟩ := known
    have only : (∀ alg : Alg, other.oid.length = alg.oid.length → data <+: alg.oid →
        alg.oid <+: data) ↔ (data <+: other.oid → other.oid <+: data) := by
      constructor
      · exact fun all => all other rfl
      · intro this alg same
        rwa [← oid_length_injective same]
    rw [only, parseAlgOid_known, Option.isSome_map, cmpAlgOid_eq]
    by_cases found : other.oid <+: data
    · simp [found]
    · by_cases cut : data <+: other.oid
      · simp [found, cut]
      · simp [found, cut]
  · have unknown : ∀ other : Alg, len ≠ other.oid.length := fun other same => known ⟨other, same⟩
    rw [parseAlgOid_unknown data unknown]
    simp [unknown]

theorem extractKey_isSome (alg : Alg) (key data : List UInt8) :
    (extractKey alg key data).isSome ↔ FieldsFit alg data := by
  cases alg with
  | rsa => exact extractRsaKey_isSome key data
  | sm2 => exact extractSm2Key_isSome key data

/-- The header of the bit string is two bytes, of which the second is skipped. -/
theorem keyBitString_isSome (ctx : AkcipherCtx) (der : List UInt8) (alg : Alg) :
    (keyBitString ctx der alg (bitStringAt der)).isSome ↔ bitStringAt der < der.length ∧
      (der[bitStringAt der]? = some 0x03 → bitStringAt der + 1 < der.length) := by
  unfold keyBitString
  simp only [Option.bind_eq_bind, Option.pure_def]
  rw [tag_isSome, parseSeqLength_skip, guard_isSome, List.length_drop]
  simp only [Option.isSome_some, and_true]
  apply and_congr_right
  intro inside
  apply imp_congr_right
  intro _
  omega

/-- The identifier, and what comes behind it. -/
theorem identified_isSome (ctx : AkcipherCtx) (der : List UInt8) :
    ((parseAlgOid (der.drop (oidAt der)) (oidBytes der).toNat).bind fun found =>
      match found with
      | none => some (ctx, none)
      | some alg => keyBitString ctx der alg (bitStringAt der)).isSome ↔
    (parseAlgOid (der.drop (oidAt der)) (oidBytes der).toNat).isSome ∧
      ∀ alg : Alg, (oidBytes der).toNat = alg.oid.length → alg.oid <+: der.drop (oidAt der) →
        bitStringAt der < der.length ∧
          (der[bitStringAt der]? = some 0x03 → bitStringAt der + 1 < der.length) := by
  have names := parseAlgOid_eq (der.drop (oidAt der)) (oidBytes der).toNat
  cases found : parseAlgOid (der.drop (oidAt der)) (oidBytes der).toNat with
  | none => simp
  | some found' =>
      rw [found] at names
      cases found' with
      | none =>
          simp only [Option.bind_some, Option.isSome_some, true_and, true_iff]
          intro alg length isOid
          cases (names alg).mpr ⟨length, isOid⟩
      | some alg =>
          simp only [Option.bind_some, keyBitString_isSome, Option.isSome_some, true_and]
          obtain ⟨length, isOid⟩ := (names alg).mp rfl
          constructor
          · exact fun inside _ _ _ => inside
          · exact fun all => all alg length isOid

/-- The header is read inside the file if each field that is reached lies in it. -/
theorem keyHeader_isSome (ctx : AkcipherCtx) (der : List UInt8) :
    (keyHeader ctx der der.length).isSome ↔
      (AlgorithmReached der → algorithmAt der < der.length) ∧
      (OidReached der → oidAt der ≤ der.length ∧
        (∀ alg : Alg, (oidBytes der).toNat = alg.oid.length →
          der.drop (oidAt der) <+: alg.oid → alg.oid <+: der.drop (oidAt der))) ∧
      ∀ alg, Names der alg → bitStringAt der < der.length ∧
        (der[bitStringAt der]? = some 0x03 → bitStringAt der + 1 < der.length) := by
  by_cases short : der.length < 15
  · have unreached : ¬ AlgorithmReached der := fun reached => by
      have := reached.1
      omega
    have start : keyHeader ctx der der.length = some (ctx, none) := by
      unfold keyHeader
      rw [if_pos short]
      rfl
    rw [start]
    simp [OidReached, Names, unreached]
  · have steps : (keyHeader ctx der der.length).isSome ↔
        0 < der.length ∧ (der[0]? = some 0x30 →
          0 < (der.drop 1).length ∧ algorithmAt der < der.length ∧
            (der[algorithmAt der]? = some 0x30 →
              lengthSize (der.drop (algorithmAt der + 1)) ≤
                (der.drop (algorithmAt der + 1)).length ∧
              ((parseAlgOid (der.drop (oidAt der)) (oidBytes der).toNat).bind fun found =>
                match found with
                | none => some (ctx, none)
                | some alg => keyBitString ctx der alg (bitStringAt der)).isSome)) := by
      unfold keyHeader
      rw [if_neg short]
      simp only [Option.bind_eq_bind, Option.pure_def, Nat.zero_add]
      rw [tag_isSome, parseSeqLength_skip, guard_isSome, tag_isSome, parseSeqLength_read,
        guard_isSome]
      rfl
    rw [steps, identified_isSome, parseAlgOid_isSome, List.length_drop, List.length_drop]
    constructor
    · rintro ⟨-, fields⟩
      constructor
      · exact fun reached => (fields reached.2).2.1
      · constructor
        · intro reached
          have inside := (fields reached.1.2).2.1
          obtain ⟨size, oid, -⟩ := (fields reached.1.2).2.2 reached.2
          refine ⟨?_, oid⟩
          unfold oidAt
          omega
        · exact fun alg names => ((fields names.1.1.2).2.2 names.1.2).2.2 alg names.2.1 names.2.2
    · rintro ⟨algorithm, oid, bits⟩
      refine ⟨by omega, fun tag => ⟨by omega, ?_⟩⟩
      have reached : AlgorithmReached der := ⟨by omega, tag⟩
      have inside := algorithm reached
      refine ⟨inside, fun tag' => ?_⟩
      have reached' : OidReached der := ⟨reached, tag'⟩
      obtain ⟨size, whole⟩ := oid reached'
      refine ⟨?_, whole, fun alg length isOid => bits alg ⟨reached', length, isOid⟩⟩
      unfold oidAt at size
      omega

/-- The header is accepted for the algorithm that the file names. -/
theorem keyHeader_ret {ctx ctx' : AkcipherCtx} {der : List UInt8}
    {found : Option (Alg × Nat)} (returns : keyHeader ctx der der.length = some (ctx', found))
    (alg : Alg) (offset : Nat) :
    found = some (alg, offset) ↔ KeyReached der alg ∧ offset = keyAt der := by
  by_cases short : der.length < 15
  · have unreached : ¬ KeyReached der alg := fun reached => by
      have := reached.1.1.1.1
      omega
    unfold keyHeader at returns
    rw [if_pos short] at returns
    cases returns
    simp [unreached]
  · have steps : (∃ byte, der[0]? = some byte ∧ byte ≠ 0x30 ∧ (ctx, none) = (ctx', found)) ∨
        der[0]? = some 0x30 ∧ 0 < (der.drop 1).length ∧
          ((∃ byte, der[algorithmAt der]? = some byte ∧ byte ≠ 0x30 ∧
            (ctx, none) = (ctx', found)) ∨ der[algorithmAt der]? = some 0x30 ∧
              lengthSize (der.drop (algorithmAt der + 1)) ≤
                (der.drop (algorithmAt der + 1)).length ∧
              ((parseAlgOid (der.drop (oidAt der)) (oidBytes der).toNat).bind fun found =>
                match found with
                | none => some (ctx, none)
                | some alg => keyBitString ctx der alg (bitStringAt der)) =
                  some (ctx', found)) := by
      unfold keyHeader at returns
      rw [if_neg short] at returns
      simp only [Option.bind_eq_bind, Option.pure_def, Nat.zero_add] at returns
      rw [tag_eq_some, parseSeqLength_skip, guard_eq_some, tag_eq_some, parseSeqLength_read,
        guard_eq_some] at returns
      exact returns
    unfold KeyReached Names OidReached AlgorithmReached
    rcases steps with ⟨byte, read, wrong, same⟩ | ⟨tag, -, steps⟩
    · cases same
      simp [read, wrong]
    rcases steps with ⟨byte, read, wrong, same⟩ | ⟨tag', -, steps⟩
    · cases same
      simp [read, wrong]
    obtain ⟨identified, parsed, steps⟩ := Option.bind_eq_some_iff.mp steps
    have names := parseAlgOid_eq (der.drop (oidAt der)) (oidBytes der).toNat alg
    rw [parsed] at names
    cases identified with
    | none =>
        cases steps
        have unnamed := mt names.mpr (by simp)
        simp only [unnamed]
        simp
    | some other =>
        unfold keyBitString at steps
        simp only [Option.bind_eq_bind, Option.pure_def] at steps
        rw [tag_eq_some, parseSeqLength_skip, guard_eq_some] at steps
        rcases steps with ⟨byte, read, wrong, same⟩ | ⟨tag'', -, steps⟩
        · cases same
          simp [read, wrong]
        · cases steps
          rw [← names]
          have long : 15 ≤ der.length := by omega
          simp only [tag, tag', tag'', long, true_and, and_true, Option.some.injEq,
            Prod.mk.injEq]
          apply and_congr_right
          intro _
          exact eq_comm

end Zsbl.Libs
