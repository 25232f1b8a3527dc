/-
Module: Zsbl.Proofs.Akcipher
Purpose: Which public key files the key reader handles without leaving the file or
  its arrays, and which of them it accepts.
Trusted boundary: none
Main exports:
  WellFormed, KeyContract, akcipherInvokeKey_isSome, akcipherInvokeKey_ret,
  akcipherInvokeKey_contract_iff
-/
import Zsbl.Libs.Digests
import Zsbl.Proofs.KeyFields
import Mathlib.Tactic.ByContra

namespace Zsbl.Libs

open Zsbl.Lib

/-! ## Well-formed key files -/

/-- The contents of the bit string: an RSA key is a sequence of two integers, an SM2
key an uncompressed point. -/
inductive KeyBytes : Alg → List UInt8 → Prop where
  | rsa {modulus exponent first second bytes : List UInt8} : modulus ≠ [] → exponent ≠ [] →
      Field 0x02 modulus first → Field 0x02 exponent second →
      Field 0x30 (first ++ second) bytes → KeyBytes .rsa bytes
  | sm2 (point : List UInt8) : point.length = 64 → KeyBytes .sm2 (0x04 :: point)

/-- The file is a sequence of an algorithm identifier and a bit string with a key. -/
def WellFormed (alg : Alg) (der : List UInt8) : Prop :=
  ∃ key identifier bits, KeyBytes alg key ∧ Field 0x30 alg.oid identifier ∧
    Field 0x03 (0 :: key) bits ∧ Field 0x30 (identifier ++ bits) der

theorem oid_length_lt (alg : Alg) : 13 ≤ alg.oid.length ∧ alg.oid.length < 2 ^ 32 := by
  cases alg <;> decide

/-- The fields in front of the key are found, and the key behind them. -/
theorem keyReached_of_fields {alg : Alg} {key identifier bits der : List UInt8}
    (identifierField : Field 0x30 alg.oid identifier) (bitsField : Field 0x03 (0 :: key) bits)
    (field : Field 0x30 (identifier ++ bits) der) :
    KeyReached der alg ∧ der.drop (keyAt der) = key := by
  obtain ⟨oidLong, oidSmall⟩ := oid_length_lt alg
  have whole : der.drop 0 = der ++ [] := by simp
  obtain ⟨tag, -, inner⟩ := field.read whole
  rw [Nat.zero_add, List.append_nil] at inner
  obtain ⟨tag', oidLength, identified⟩ := identifierField.read inner
  have oidSize : (oidBytes der).toNat = alg.oid.length := by
    unfold oidBytes algorithmAt
    rw [oidLength, BitVec.toNat_ofNat]
    exact Nat.mod_eq_of_lt oidSmall
  have atBits : der.drop (bitStringAt der) = bits ++ [] := by
    unfold bitStringAt
    rw [← List.drop_drop, oidSize]
    unfold oidAt algorithmAt
    rw [identified, List.drop_left, List.append_nil]
  obtain ⟨tag'', -, atKey⟩ := bitsField.read atBits
  have long : 15 ≤ der.length := by
    have outer := field.length
    have middle := identifierField.length
    rw [List.length_append] at outer
    omega
  have isOid : alg.oid <+: der.drop (oidAt der) := by
    unfold oidAt algorithmAt
    rw [identified]
    exact List.prefix_append _ _
  constructor
  · exact ⟨⟨⟨⟨long, tag⟩, tag'⟩, oidSize, isOid⟩, tag''⟩
  · unfold keyAt
    rw [← List.drop_drop, atKey]
    simp

theorem WellFormed.reached {alg : Alg} {der : List UInt8} (wellFormed : WellFormed alg der) :
    KeyReached der alg ∧ KeyBytes alg (der.drop (keyAt der)) := by
  obtain ⟨key, identifier, bits, isKey, identifierField, bitsField, field⟩ := wellFormed
  obtain ⟨reached, rest⟩ := keyReached_of_fields identifierField bitsField field
  rw [rest]
  exact ⟨reached, isKey⟩

/-- The zeros in front of a modulus end at the tag behind it. -/
theorem zeros_le (modulus : List UInt8) {tag : UInt8} (rest : List UInt8) (nonzero : tag ≠ 0) :
    ((modulus ++ tag :: rest).takeWhile (· = 0)).length ≤ modulus.length := by
  induction modulus with
  | nil => simp [nonzero]
  | cons byte modulus ih =>
      by_cases zero : byte = 0
      · simp only [List.cons_append, List.takeWhile_cons, zero, decide_true, if_true,
          List.length_cons]
        omega
      · simp [zero]

/-- In a key that is whole every field up to the exponent is read inside the file. -/
theorem KeyBytes.exponentReached {data : List UInt8} (isKey : KeyBytes .rsa data)
    (small : data.length < 2 ^ 31) : ExponentReached data := by
  cases isKey with
  | @rsa modulus exponent first second _ _ _ modulusField exponentField field =>
      have whole : data.drop 0 = data ++ [] := by simp
      obtain ⟨tag, -, inner⟩ := field.read whole
      rw [Nat.zero_add, List.append_nil] at inner
      obtain ⟨tag', length, atModulus⟩ := modulusField.read inner
      have modulusSmall : modulus.length < 2 ^ 31 := by
        have outer := field.length
        have middle := modulusField.length
        rw [List.length_append] at outer
        omega
      have start : data.drop (modulusStart data) = modulus ++ second := atModulus
      have zeros : modulusZeros data ≤ modulus.length := by
        obtain ⟨octets, -, rfl⟩ := exponentField
        unfold modulusZeros
        rw [start]
        exact zeros_le modulus _ (by decide)
      have size : (modulusBytes data).toNat = modulus.length - modulusZeros data := by
        unfold modulusBytes modulusAt
        rw [length, BitVec.toNat_sub]
        simp only [BitVec.toNat_ofNat]
        omega
      have atExponent : data.drop (exponentAt data) = second ++ [] := by
        unfold exponentAt
        rw [size, Nat.add_assoc, Nat.add_sub_cancel' zeros, ← List.drop_drop, start]
        simp
      exact ⟨⟨tag, tag'⟩, (exponentField.read atExponent).1⟩

/-- A key that is whole is extracted without an error. -/
theorem KeyBytes.extracted {alg : Alg} {key data : List UInt8} {extracted : Extracted}
    (isKey : KeyBytes alg data) (small : data.length < 2 ^ 31)
    (returns : extractKey alg key data = some extracted) : extracted.ret = 0 := by
  cases alg with
  | rsa => exact (extractRsaKey_ret returns).mpr (isKey.exponentReached small)
  | sm2 =>
      cases isKey with
      | sm2 point length =>
          have steps : extractSm2Key key (0x04 :: point) = some extracted := returns
          unfold extractSm2Key at steps
          simp only [Option.bind_eq_bind, Option.pure_def] at steps
          rw [tag_eq_some] at steps
          rcases steps with ⟨byte, read, wrong, -⟩ | ⟨-, steps⟩
          · cases read
            exact absurd rfl wrong
          · obtain ⟨key, -, steps⟩ := Option.bind_eq_some_iff.mp steps
            obtain ⟨key, -, steps⟩ := Option.bind_eq_some_iff.mp steps
            obtain rfl := Option.some.inj steps
            rfl

/-! ## The contract of the reader -/

/-- What the reader has checked when it returns 0. -/
def Accepted (digests : Digests) (ctx : AkcipherCtx) (der : List UInt8) (derHash : Digest) :
    Prop :=
  ∃ found alg offset extracted, keyHeader ctx der der.length = some (found, some (alg, offset)) ∧
    extractKey alg found.key (der.drop offset) = some extracted ∧ extracted.ret = 0 ∧
    digests.of alg der = derHash

/-- The reader returns without an access outside of the file or the arrays; it
returns 0 only for an extracted key whose file has the digest; and it rejects all
files that are not well formed. -/
def KeyContract (digests : Digests) (ctx : AkcipherCtx) (der : List UInt8)
    (derHash : Digest) : Prop :=
  ∃ ret ctx', akcipherInvokeKey digests ctx der derHash = some (ret, ctx') ∧
    (ret = 0 → Accepted digests ctx der derHash) ∧
    ((¬ ∃ alg, WellFormed alg der) → ret ≠ 0)

theorem pubkeyVerify_eq_zero (digests : Digests) (derHash : Digest) (alg : Alg)
    (der : List UInt8) :
    pubkeyVerify digests derHash alg der = 0 ↔ digests.of alg der = derHash := by
  unfold pubkeyVerify
  rw [memcmp_eq_zero (by simp), Vector.toList_inj]
  exact eq_comm

/-- The call stays inside the file exactly if the fields that it walks over do. -/
theorem akcipherInvokeKey_isSome (digests : Digests) (ctx : AkcipherCtx) (der : List UInt8)
    (derHash : Digest) :
    (akcipherInvokeKey digests ctx der derHash).isSome ↔ KeyFits der := by
  have header := keyHeader_isSome ctx der
  have parts : KeyFits der ↔ (keyHeader ctx der der.length).isSome ∧
      ∀ alg, KeyReached der alg → FieldsFit alg (der.drop (keyAt der)) := by
    rw [header]
    constructor
    · intro fits
      exact ⟨⟨fits.algorithm, fun reached => ⟨fits.oidLength reached, fits.oid reached⟩,
        fun alg names => ⟨fits.bitString alg names, fun tag => fits.bitLength alg ⟨names, tag⟩⟩⟩,
        fits.key⟩
    · rintro ⟨⟨algorithm, oid, bits⟩, key⟩
      exact ⟨algorithm, fun reached => (oid reached).1, fun reached => (oid reached).2,
        fun alg names => (bits alg names).1,
        fun alg reached => (bits alg reached.1).2 reached.2, key⟩
  rw [parts]
  unfold akcipherInvokeKey akcipherInvokeKeyIn
  rw [List.take_length]
  cases start : keyHeader ctx der der.length with
  | none => simp
  | some value =>
      obtain ⟨found, key⟩ := value
      have ret := keyHeader_ret start
      cases key with
      | none =>
          have unreached : ∀ alg, ¬ KeyReached der alg := by
            intro alg reached
            cases (ret alg (keyAt der)).mpr ⟨reached, rfl⟩
          simp [unreached]
      | some key =>
          obtain ⟨alg, offset⟩ := key
          obtain ⟨reached, rfl⟩ := (ret alg offset).mp rfl
          have only : (∀ other, KeyReached der other →
              FieldsFit other (der.drop (keyAt der))) ↔
              FieldsFit alg (der.drop (keyAt der)) := by
            constructor
            · exact fun all => all alg reached
            · intro fits other reached'
              rwa [← reached.unique reached']
          rw [only, ← extractKey_isSome alg found.key]
          have returns := bind_isSome (extractKey alg found.key (der.drop (keyAt der)))
            (fun extracted => some (pubkeyVerify digests derHash alg der,
              { found with
                key := extracted.key
                keyLen := extracted.modulusLength.map BitVec.toInt })) True (by simp)
          rw [and_true] at returns
          simpa using returns

/-- It accepts exactly the keys whose fields are reached and whose digest is the one asked
for. -/
theorem akcipherInvokeKey_ret {digests : Digests} {ctx ctx' : AkcipherCtx}
    {der : List UInt8} {derHash : Digest} {ret : Int}
    (returns : akcipherInvokeKey digests ctx der derHash = some (ret, ctx')) :
    ret = 0 ↔ ∃ alg, KeyReached der alg ∧ digests.of alg der = derHash := by
  unfold akcipherInvokeKey akcipherInvokeKeyIn at returns
  rw [List.take_length] at returns
  obtain ⟨⟨found, key⟩, start, rest⟩ := Option.bind_eq_some_iff.mp returns
  have header := keyHeader_ret start
  cases key with
  | none =>
      cases rest
      have unreached : ∀ alg, ¬ KeyReached der alg := by
        intro alg reached
        cases (header alg (keyAt der)).mpr ⟨reached, rfl⟩
      simp [unreached]
  | some key =>
      obtain ⟨alg, offset⟩ := key
      obtain ⟨reached, rfl⟩ := (header alg offset).mp rfl
      obtain ⟨extracted, -, rest⟩ := Option.bind_eq_some_iff.mp rest
      cases rest
      rw [pubkeyVerify_eq_zero]
      constructor
      · exact fun same => ⟨alg, reached, same⟩
      · rintro ⟨other, reached', same⟩
        rwa [reached.unique reached']

/-! ## A file in an array -/

/-- The digests of the first bytes. -/
def Digests.ofFirst (digests : Digests) (size : Nat) : Digests :=
  ⟨fun der => digests.sha256 (der.take size), fun der => digests.sm3 (der.take size)⟩

theorem Digests.of_ofFirst (digests : Digests) (size : Nat) (alg : Alg) (der : List UInt8) :
    (digests.ofFirst size).of alg der = digests.of alg (der.take size) := by
  cases alg <;> rfl

theorem akcipherInvokeKeyIn_short (digests : Digests) (ctx : AkcipherCtx) (der : List UInt8)
    {derLen : Nat} (short : derLen < 15) (derHash : Digest) :
    akcipherInvokeKeyIn digests ctx der derLen derHash = some (-1, ctx) := by
  unfold akcipherInvokeKeyIn keyHeader
  rw [if_pos short]
  rfl

/-- The fields are looked for in the whole array. -/
theorem akcipherInvokeKeyIn_long (digests : Digests) (ctx : AkcipherCtx) {der : List UInt8}
    {derLen : Nat} (long : 15 ≤ derLen) (inside : derLen ≤ der.length) (derHash : Digest) :
    akcipherInvokeKeyIn digests ctx der derLen derHash =
      akcipherInvokeKey (digests.ofFirst derLen) ctx der derHash := by
  have header : keyHeader ctx der derLen = keyHeader ctx der der.length := by
    unfold keyHeader
    rw [if_neg (by omega), if_neg (by omega)]
  have verified (alg : Alg) : pubkeyVerify digests derHash alg (der.take derLen) =
      pubkeyVerify (digests.ofFirst derLen) derHash alg der := by
    unfold pubkeyVerify
    rw [Digests.of_ofFirst]
  unfold akcipherInvokeKey akcipherInvokeKeyIn
  rw [header, List.take_length]
  simp only [verified]

/-- Of an array of which less than 15 bytes were loaded nothing is read. -/
theorem akcipherInvokeKeyIn_isSome (digests : Digests) (ctx : AkcipherCtx) {der : List UInt8}
    {derLen : Nat} (inside : derLen ≤ der.length) (derHash : Digest) :
    (akcipherInvokeKeyIn digests ctx der derLen derHash).isSome ↔ (15 ≤ derLen → KeyFits der) := by
  by_cases long : 15 ≤ derLen
  · rw [akcipherInvokeKeyIn_long digests ctx long inside derHash,
      akcipherInvokeKey_isSome (digests.ofFirst derLen) ctx der derHash]
    exact ⟨fun fits _ => fits, fun fits => fits long⟩
  · rw [akcipherInvokeKeyIn_short digests ctx der (Nat.lt_of_not_le long) derHash]
    simp [long]

/-- A file in an array is accepted for its own digest, under the algorithm that the
array names. -/
theorem akcipherInvokeKeyIn_ret {digests : Digests} {ctx ctx' : AkcipherCtx} {der : List UInt8}
    {derLen : Nat} {derHash : Digest} {ret : Int} (inside : derLen ≤ der.length)
    (returns : akcipherInvokeKeyIn digests ctx der derLen derHash = some (ret, ctx')) :
    ret = 0 ↔ 15 ≤ derLen ∧
      ∃ alg, KeyReached der alg ∧ digests.of alg (der.take derLen) = derHash := by
  by_cases long : 15 ≤ derLen
  · rw [akcipherInvokeKeyIn_long digests ctx long inside derHash] at returns
    rw [akcipherInvokeKey_ret returns]
    simp only [Digests.of_ofFirst, long, true_and]
  · rw [akcipherInvokeKeyIn_short digests ctx der (Nat.lt_of_not_le long) derHash] at returns
    cases returns
    simp [long]

/-! ## The contract for a file -/

/-- The reader keeps its contract exactly for the files whose fields are all in
place, and which are well formed should they have the digest. -/
theorem akcipherInvokeKey_contract_iff (digests : Digests) (ctx : AkcipherCtx)
    {der : List UInt8} (small : der.length < 2 ^ 31) (derHash : Digest) :
    KeyContract digests ctx der derHash ↔ KeyFits der ∧
      ((∃ alg, KeyReached der alg ∧ digests.of alg der = derHash) →
        ∃ alg, WellFormed alg der) := by
  rw [← akcipherInvokeKey_isSome digests ctx der derHash]
  constructor
  · rintro ⟨ret, ctx', returns, -, rejects⟩
    constructor
    · simp [returns]
    · intro trusted
      by_contra malformed
      exact rejects malformed ((akcipherInvokeKey_ret returns).mpr trusted)
  · rintro ⟨inside, formed⟩
    obtain ⟨⟨ret, ctx'⟩, returns⟩ := Option.isSome_iff_exists.mp inside
    refine ⟨ret, ctx', returns, ?_, ?_⟩
    · intro zero
      obtain ⟨other, reached, digest⟩ := (akcipherInvokeKey_ret returns).mp zero
      obtain ⟨alg, wellFormed⟩ := formed ⟨other, reached, digest⟩
      obtain ⟨reached', isKey⟩ := wellFormed.reached
      obtain rfl := reached.unique reached'
      unfold akcipherInvokeKey akcipherInvokeKeyIn at returns
      obtain ⟨⟨found, key⟩, start, rest⟩ := Option.bind_eq_some_iff.mp returns
      obtain rfl := (keyHeader_ret start other (keyAt der)).mpr ⟨reached, rfl⟩
      obtain ⟨extracted, extracts, -⟩ := Option.bind_eq_some_iff.mp rest
      have short : (der.drop (keyAt der)).length < 2 ^ 31 := by
        rw [List.length_drop]
        omega
      exact ⟨found, other, keyAt der, extracted, start, extracts,
        isKey.extracted short extracts, digest⟩
    · intro malformed zero
      exact malformed (formed ((akcipherInvokeKey_ret returns).mp zero))

/-- An RSA key with the modulus 0xc501 and the exponent 3. -/
def rsaKeyFile : List UInt8 :=
  [0x30, 0x1c, 0x30, 0x0d] ++ Alg.rsa.oid ++
    [0x03, 0x0b, 0x00, 0x30, 0x08, 0x02, 0x03, 0x00, 0xc5, 0x01, 0x02, 0x01, 0x03]

/-- The sequence of its two integers. -/
def rsaKeySequence : List UInt8 := [0x30, 0x08, 0x02, 0x03, 0x00, 0xc5, 0x01, 0x02, 0x01, 0x03]

theorem short_field (tag length : UInt8) {content : List UInt8} (small : length < 0x80)
    (counted : length.toNat = content.length) :
    Field tag content (tag :: length :: content) := by
  exists [length]
  rw [← counted]
  exact ⟨.short length small, rfl⟩

theorem rsaKeySequence_fields :
    Field 0x02 [0x00, 0xc5, 0x01] [0x02, 0x03, 0x00, 0xc5, 0x01] ∧
      Field 0x02 [0x03] [0x02, 0x01, 0x03] ∧
      Field 0x30 ([0x02, 0x03, 0x00, 0xc5, 0x01] ++ [0x02, 0x01, 0x03]) rsaKeySequence :=
  ⟨short_field 0x02 0x03 (by decide) rfl, short_field 0x02 0x01 (by decide) rfl,
    short_field 0x30 0x08 (by decide) rfl⟩

theorem rsaKeyFile_fields :
    Field 0x30 Alg.rsa.oid ([0x30, 0x0d] ++ Alg.rsa.oid) ∧
      Field 0x03 (0 :: rsaKeySequence) ([0x03, 0x0b, 0x00] ++ rsaKeySequence) ∧
      Field 0x30 (([0x30, 0x0d] ++ Alg.rsa.oid) ++ ([0x03, 0x0b, 0x00] ++ rsaKeySequence))
        rsaKeyFile :=
  ⟨short_field 0x30 0x0d (by decide) rfl, short_field 0x03 0x0b (by decide) rfl,
    short_field 0x30 0x1c (by decide) rfl⟩

theorem rsaKeyFile_wellFormed : WellFormed .rsa rsaKeyFile := by
  obtain ⟨modulusField, exponentField, sequence⟩ := rsaKeySequence_fields
  obtain ⟨identifier, bits, file⟩ := rsaKeyFile_fields
  have isKey : KeyBytes .rsa rsaKeySequence :=
    .rsa (by decide) (by decide) modulusField exponentField sequence
  exact ⟨_, _, _, isKey, identifier, bits, file⟩

/-- The fields of the file of an RSA key are reached, whatever is behind it. -/
theorem rsaKeyFile_reached (rest : List UInt8) : KeyReached (rsaKeyFile ++ rest) .rsa := by
  have long : 15 ≤ (rsaKeyFile ++ rest).length := by
    rw [List.length_append]
    exact Nat.le_trans (by decide) (Nat.le_add_right _ _)
  have oid : (rsaKeyFile ++ rest).drop (oidAt (rsaKeyFile ++ rest)) =
      Alg.rsa.oid ++ ((rsaKeyFile ++ rest).drop 17) := rfl
  refine ⟨⟨⟨⟨long, rfl⟩, rfl⟩, rfl, ?_⟩, rfl⟩
  rw [oid]
  exact List.prefix_append _ _

/-- The walk over the sequence of an RSA key stays inside it. -/
theorem rsaKeySequence_fits (rest : List UInt8) : RsaFits (rsaKeySequence ++ rest) := by
  have length : (rsaKeySequence ++ rest).length = 10 + rest.length := by
    rw [List.length_append]
    rfl
  have modulus : modulusAt (rsaKeySequence ++ rest) = 2 ∧
      modulusStart (rsaKeySequence ++ rest) = 4 := ⟨rfl, rfl⟩
  have zeros : modulusZeros (rsaKeySequence ++ rest) = 1 := by
    have found : (rsaKeySequence ++ rest).drop 4 =
        0x00 :: 0xc5 :: (rsaKeySequence ++ rest).drop 6 := rfl
    rw [modulusZeros, modulus.2, found, List.takeWhile_cons_of_pos (by decide),
      List.takeWhile_cons_of_neg (by decide)]
    rfl
  have value : lengthValue ((rsaKeySequence ++ rest).drop 3) = 3 := rfl
  have size : modulusBytes (rsaKeySequence ++ rest) = 2 := by
    rw [modulusBytes, zeros, modulus.1, value]
    rfl
  have exponent : exponentAt (rsaKeySequence ++ rest) = 7 := by
    rw [exponentAt, modulus.2, zeros, size]
    rfl
  have behind : exponentStart (rsaKeySequence ++ rest) = 9 := by
    rw [exponentStart, exponent]
    rfl
  have size' : exponentBytes (rsaKeySequence ++ rest) = 1 := by
    rw [exponentBytes, exponent]
    rfl
  constructor
  · omega
  · exact fun _ => by omega
  · exact fun _ => by omega
  · exact fun _ => by omega
  · intro _
    refine ⟨0xc5, ?_, by decide⟩
    rw [modulus.2]
    exact List.mem_cons_of_mem _ List.mem_cons_self
  · intro _
    rw [size]
    decide
  · exact fun _ => by omega
  · exact fun _ => by omega
  · intro _
    rw [size']
    decide
  · intro _
    rw [behind, size', length]
    exact Nat.le_add_right 10 _

/-- Its fields lie inside the file, so that what comes behind it does not matter. -/
theorem rsaKeyFile_fits (rest : List UInt8) : KeyFits (rsaKeyFile ++ rest) := by
  have length : (rsaKeyFile ++ rest).length = 30 + rest.length := by
    rw [List.length_append]
    rfl
  have algorithm : algorithmAt (rsaKeyFile ++ rest) = 2 := rfl
  have oid : oidAt (rsaKeyFile ++ rest) = 4 := rfl
  have bitString : bitStringAt (rsaKeyFile ++ rest) = 17 := rfl
  have key : (rsaKeyFile ++ rest).drop (keyAt (rsaKeyFile ++ rest)) = rsaKeySequence ++ rest := rfl
  have only {alg : Alg} (same : (13 : Nat) = alg.oid.length) : alg = .rsa :=
    oid_length_injective same.symm
  constructor
  · exact fun _ => by omega
  · exact fun _ => by omega
  · intro _ alg same _
    obtain rfl := only same
    exact (rsaKeyFile_reached rest).1.2.2
  · exact fun _ _ => by omega
  · exact fun _ _ => by omega
  · intro alg named
    obtain rfl := only named.1.2.1
    rw [key]
    exact rsaKeySequence_fits rest

def emptyCtx : AkcipherCtx := ⟨.rsa, some 0, List.replicate 512 0⟩

theorem akcipherInvokeKey_contract_rsaKeyFile :
    KeyContract codeDigests emptyCtx rsaKeyFile (codeDigests.sha256 rsaKeyFile) := by
  apply (akcipherInvokeKey_contract_iff codeDigests emptyCtx (by decide) _).mpr
  rw [← List.append_nil rsaKeyFile]
  exact ⟨rsaKeyFile_fits [], fun _ => ⟨.rsa, rsaKeyFile_wellFormed⟩⟩

/-- The length of this file claims 127 octets, and the tag behind it is looked for
outside of the file. -/
theorem long_length_leaves_file :
    ¬ KeyContract codeDigests emptyCtx ([0x30, 0xff] ++ List.replicate 13 0)
      (Vector.replicate 32 0) := by
  rintro ⟨ret, ctx', returns, -⟩
  have outside : akcipherInvokeKey codeDigests emptyCtx ([0x30, 0xff] ++ List.replicate 13 0)
      (Vector.replicate 32 0) = none := by decide
  rw [outside] at returns
  cases returns

end Zsbl.Libs
