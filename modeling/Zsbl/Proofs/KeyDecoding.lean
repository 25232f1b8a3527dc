/-
Module: Zsbl.Proofs.KeyDecoding
Purpose: The key reader recovers the key that a file encodes.
Trusted boundary: none
Main exports:
  PublicKey, PublicKey.InFile, PublicKey.Loaded, akcipherInvokeKey_loads
-/
import Zsbl.Proofs.Akcipher

namespace Zsbl.Libs

open Zsbl.Lib

/-! ## Keys and their files -/

/-- An integer without its leading zeros. -/
def significant (integer : List UInt8) : List UInt8 := integer.dropWhile (· = 0)

/-- The contents of the two integers of a key; the modulus is positive and both fit
into their arrays. -/
structure RsaKey where
  modulus : List UInt8
  exponent : List UInt8
  modulusPos : 1 ≤ (significant modulus).length
  modulusFits : (significant modulus).length ≤ 256
  exponentPos : 1 ≤ exponent.length
  exponentFits : exponent.length ≤ 256

/-- The coordinates of a point. -/
structure Sm2Key where
  x : Vector UInt8 32
  y : Vector UInt8 32

inductive PublicKey where
  | rsa (key : RsaKey)
  | sm2 (key : Sm2Key)

def PublicKey.alg : PublicKey → Alg
  | .rsa _ => .rsa
  | .sm2 _ => .sm2

/-- What the bit string of a file holds: a sequence of the two integers, or an
uncompressed point. -/
def PublicKey.EncodedBy : PublicKey → List UInt8 → Prop
  | .rsa key, bytes => ∃ first second, Field 0x02 key.modulus first ∧
      Field 0x02 key.exponent second ∧ Field 0x30 (first ++ second) bytes
  | .sm2 key, bytes => bytes = 0x04 :: (key.x.toList ++ key.y.toList)

/-- The file of a key is not empty. -/
theorem PublicKey.EncodedBy.length_pos {key : PublicKey} {bytes : List UInt8}
    (encoded : key.EncodedBy bytes) : 1 ≤ bytes.length := by
  cases key with
  | rsa key =>
      obtain ⟨first, second, -, -, field⟩ := encoded
      exact Nat.le_trans (by omega) field.length
  | sm2 key =>
      cases encoded
      exact Nat.succ_pos _

/-- The file states the algorithm of the key, and the key. -/
def PublicKey.InFile (key : PublicKey) (der : List UInt8) : Prop :=
  ∃ bytes identifier bits, key.EncodedBy bytes ∧ Field 0x30 key.alg.oid identifier ∧
    Field 0x03 (0 :: bytes) bits ∧ Field 0x30 (identifier ++ bits) der

/-- The context holds the key: a modulus at the start of its array, an exponent at
the end of its own. -/
def PublicKey.Loaded : PublicKey → AkcipherCtx → Prop
  | .rsa key, ctx => ctx.alg = .rsa ∧
      ctx.keyLen = some ((significant key.modulus).length : Int) ∧
      (modulus.read ctx.key).take (significant key.modulus).length = significant key.modulus ∧
      exponent.read ctx.key = List.replicate (256 - key.exponent.length) 0 ++ key.exponent
  | .sm2 key, ctx => ctx.alg = .sm2 ∧ ctx.keyLen = some 32 ∧
      pubx.read ctx.key = key.x.toList ∧ puby.read ctx.key = key.y.toList

/-! ## The fields of an RSA key -/

/-- The zeros in front of an integer end at its significant bytes. -/
theorem significant_append {integer : List UInt8} (positive : 1 ≤ (significant integer).length)
    (rest : List UInt8) :
    ((integer ++ rest).takeWhile (· = 0)).length + (significant integer).length =
      integer.length ∧
    (integer ++ rest).drop ((integer ++ rest).takeWhile (· = 0)).length =
      significant integer ++ rest := by
  have nonempty : (integer.dropWhile (· = 0)).isEmpty = false :=
    List.isEmpty_eq_false_iff.mpr (List.ne_nil_of_length_pos positive)
  have kept : (integer ++ rest).dropWhile (· = 0) = significant integer ++ rest := by
    rw [List.dropWhile_append, nonempty]
    rfl
  have split := List.takeWhile_append_dropWhile (p := (· = 0)) (l := integer ++ rest)
  rw [kept] at split
  constructor
  · have lengths := congrArg List.length split
    simp only [List.length_append] at lengths
    omega
  · conv_lhs =>
      arg 2
      rw [← split]
    exact List.drop_left

/-- Where the fields of the key are found. -/
structure RsaKey.FoundIn (key : RsaKey) (data : List UInt8) : Prop where
  reached : ExponentReached data
  modulus : ∃ rest, data.drop (modulusStart data + modulusZeros data) =
    significant key.modulus ++ rest
  modulusLength : modulusBytes data = BitVec.ofNat 32 (significant key.modulus).length
  exponent : data.drop (exponentStart data) = key.exponent
  exponentLength : exponentBytes data = BitVec.ofNat 32 key.exponent.length

/-- The DER encoding of an RSA key puts its integers where the code looks for them. -/
theorem RsaKey.foundIn {key : RsaKey} {data : List UInt8}
    (encoded : (PublicKey.rsa key).EncodedBy data) (small : data.length < 2 ^ 31) :
    key.FoundIn data := by
  obtain ⟨first, second, modulusField, exponentField, field⟩ := encoded
  have positive := key.modulusPos
  have nonempty : key.modulus ≠ [] := by
    intro empty
    rw [empty] at positive
    cases positive
  have reached := KeyBytes.exponentReached
    (.rsa nonempty (List.ne_nil_of_length_pos key.exponentPos) modulusField exponentField field)
    small
  have whole : data.drop 0 = data ++ [] := by simp
  obtain ⟨-, -, inner⟩ := field.read whole
  rw [Nat.zero_add, List.append_nil] at inner
  obtain ⟨-, length, start⟩ := modulusField.read inner
  have modulusSmall : key.modulus.length < 2 ^ 31 := by
    have outer := field.length
    have middle := modulusField.length
    rw [List.length_append] at outer
    omega
  obtain ⟨zeros, dropped⟩ := significant_append positive second
  have behind : data.drop (modulusStart data) = key.modulus ++ second := start
  have atModulus : data.drop (modulusStart data + modulusZeros data) =
      significant key.modulus ++ second := by
    unfold modulusZeros
    rw [← List.drop_drop, behind, dropped]
  have size : modulusBytes data = BitVec.ofNat 32 (significant key.modulus).length := by
    unfold modulusBytes modulusAt modulusZeros
    rw [length, behind]
    apply BitVec.eq_of_toNat_eq
    simp only [BitVec.toNat_sub, BitVec.toNat_ofNat]
    omega
  have atExponent : data.drop (exponentAt data) = second ++ [] := by
    have fits := key.modulusFits
    have bytes : (modulusBytes data).toNat = (significant key.modulus).length := by
      rw [size, BitVec.toNat_ofNat]
      omega
    unfold exponentAt
    rw [← List.drop_drop, atModulus, bytes, List.drop_left, List.append_nil]
  obtain ⟨-, exponentLength, exponentStart⟩ := exponentField.read atExponent
  rw [List.append_nil] at exponentStart
  exact ⟨reached, ⟨second, atModulus⟩, size, exponentStart,
    congrArg (BitVec.ofNat 32) exponentLength⟩

/-! ## Extracting -/

theorem tag_eq {α : Type} {data : List UInt8} {i : Nat} {tag : UInt8}
    (here : data[i]? = some tag) (failed : α) (rest : Option α) :
    (data[i]?.bind fun byte => if byte ≠ tag then some failed else rest) = rest := by
  simp [here]

theorem lt_of_drop {data part : List UInt8} {start : Nat} (here : data.drop start = part)
    (nonempty : 1 ≤ part.length) : start < data.length := by
  have length := congrArg List.length here
  rw [List.length_drop] at length
  omega

/-- The exponent as its array holds it. -/
def RsaKey.padded (key : RsaKey) : List UInt8 :=
  List.replicate (256 - key.exponent.length) 0 ++ key.exponent

theorem RsaKey.padded_length (key : RsaKey) : key.padded.length = 256 := by
  have fits := key.exponentFits
  rw [padded, List.length_append, List.length_replicate]
  omega

/-- The exponent is padded with zeros to the size of the modulus. -/
theorem extractExponent_loads {key : RsaKey} {data : List UInt8}
    (found : key.FoundIn data) {memory : List UInt8} (sized : memory.length = 512)
    (modulusLength : BitVec 32) :
    extractExponent memory data (exponentAt data) modulusLength =
      some ⟨0, overwrite memory 256 key.padded, some modulusLength⟩ := by
  have positive := key.exponentPos
  have fits := key.exponentFits
  have inside := lt_of_drop found.exponent positive
  have size : lengthSize (data.drop (exponentAt data + 1)) ≤
      (data.drop (exponentAt data + 1)).length := by
    rw [List.length_drop]
    unfold exponentStart at inside
    omega
  have count : (exponentBytes data).toNat = key.exponent.length := by
    rw [found.exponentLength, BitVec.toNat_ofNat]
    omega
  have pad : (256 - exponentBytes data).toNat = 256 - key.exponent.length := by
    have padding : (256 - exponentBytes data).toNat =
        (2 ^ 32 - (exponentBytes data).toNat + 256) % 2 ^ 32 := by simp [BitVec.toNat_sub]
    omega
  have zeros : exponent.fill (fun _ => some 0) (256 - key.exponent.length) 0 memory =
      some (overwrite memory 256 (List.replicate (256 - key.exponent.length) 0)) := by
    have loop := @KeyField.fill_eq exponent (fun _ => some 0)
      (List.replicate (256 - key.exponent.length) 0) 0 memory
    rw [List.length_replicate] at loop
    apply loop
    · intro j lt
      rw [List.getElem?_replicate, if_pos lt]
    · simp [exponent]
    · simp [exponent, sized]
  have content : exponent.fill
      (fun i => data[exponentStart data + i + (exponentBytes data).toNat - 256]?)
      key.exponent.length (256 - key.exponent.length)
      (overwrite memory 256 (List.replicate (256 - key.exponent.length) 0)) =
      some (overwrite memory 256 key.padded) := by
    have room : 256 + (List.replicate (256 - key.exponent.length) (0 : UInt8)).length ≤
        memory.length := by
      rw [List.length_replicate, sized]
      omega
    have both := overwrite_append room key.exponent
    rw [List.length_replicate] at both
    unfold RsaKey.padded
    rw [← both]
    apply KeyField.fill_eq
    · intro j lt
      have position : exponentStart data + (256 - key.exponent.length + j) +
          (exponentBytes data).toNat - 256 = exponentStart data + j := by omega
      rw [position, ← List.getElem?_drop, found.exponent]
    · simp only [exponent]
      omega
    · rw [length_overwrite room, sized]
      exact Nat.le_refl 512
  have start : exponentAt data + 1 + lengthSize (data.drop (exponentAt data + 1)) =
    exponentStart data := rfl
  have length : BitVec.ofNat 32 (lengthValue (data.drop (exponentAt data + 1))) =
    exponentBytes data := rfl
  unfold extractExponent
  simp only [Option.bind_eq_bind, Option.pure_def]
  rw [tag_eq found.reached.2, parseSeqLength_read, if_pos size]
  simp only [Option.bind_some, start, length, pad]
  rw [zeros, Option.bind_some, Nat.sub_sub_self fits, content]
  rfl

/-- The modulus is loaded without its sign byte, the exponent behind it. -/
theorem extractRsaKey_loads {key : RsaKey} {data : List UInt8} (found : key.FoundIn data)
    {memory : List UInt8} (sized : memory.length = 512) :
    extractRsaKey memory data =
      some ⟨0, overwrite (overwrite memory 0 (significant key.modulus)) 256 key.padded,
        some (modulusBytes data)⟩ := by
  obtain ⟨⟨sequence, tag⟩, tag'⟩ := found.reached
  obtain ⟨rest, atModulus⟩ := found.modulus
  have fits := key.modulusFits
  have positive : 1 ≤ (significant key.modulus ++ rest).length := by
    rw [List.length_append]
    exact Nat.le_trans key.modulusPos (Nat.le_add_right _ _)
  have inside := lt_of_drop atModulus positive
  have first : 0 < (data.drop 1).length := by
    rw [List.length_drop]
    unfold modulusStart modulusAt at inside
    omega
  have size : lengthSize (data.drop (modulusAt data + 1)) ≤
      (data.drop (modulusAt data + 1)).length := by
    rw [List.length_drop]
    unfold modulusStart at inside
    omega
  have nonzero : ∃ byte ∈ data.drop (modulusStart data), byte ≠ 0 := by
    have behind : (data.drop (modulusStart data))[modulusZeros data +
        (modulusBytes data).toNat]? = some 0x02 := by
      rw [List.getElem?_drop, ← Nat.add_assoc]
      exact tag'
    exact ⟨0x02, List.mem_of_getElem? behind, by decide⟩
  have count : (modulusBytes data).toNat = (significant key.modulus).length := by
    rw [found.modulusLength, BitVec.toNat_ofNat]
    omega
  have start : modulusAt data + 1 + lengthSize (data.drop (modulusAt data + 1)) =
    modulusStart data := rfl
  have zeros : ((data.drop (modulusStart data)).takeWhile (· = 0)).length =
    modulusZeros data := rfl
  have bytes : BitVec.ofNat 32 (lengthValue (data.drop (modulusAt data + 1))) -
    BitVec.ofNat 32 (modulusZeros data) = modulusBytes data := rfl
  have loop : modulus.fill (fun i => data[modulusStart data + modulusZeros data + i]?)
      (significant key.modulus).length 0 memory =
      some (overwrite memory 0 (significant key.modulus)) := by
    apply KeyField.fill_eq
    · intro j lt
      rw [Nat.zero_add, ← List.getElem?_drop, atModulus, List.getElem?_append_left lt]
    · simpa [modulus] using fits
    · simp [modulus, sized]
  unfold extractRsaKey
  simp only [Option.bind_eq_bind, Option.pure_def, Nat.zero_add]
  rw [tag_eq sequence, parseSeqLength_skip, if_pos first]
  simp only [Option.bind_some]
  have at' : 1 + lengthSize (data.drop 1) = modulusAt data := rfl
  rw [at', tag_eq tag, parseSeqLength_read, if_pos size]
  simp only [Option.bind_some]
  rw [start, stripZeros_eq, if_pos nonzero, zeros, bytes]
  simp only [Option.bind_some]
  rw [count, loop, Option.bind_some, ← count]
  have length : (overwrite memory 0 (significant key.modulus)).length = 512 := by
    rw [length_overwrite (by omega), sized]
  exact extractExponent_loads found length _

/-- The two coordinates of the point are loaded side by side. -/
theorem extractSm2Key_loads {x y memory : List UInt8} (xLength : x.length = 32)
    (yLength : y.length = 32) (sized : memory.length = 512) :
    extractSm2Key memory (0x04 :: (x ++ y)) =
      some ⟨0, overwrite (overwrite memory 0 x) 32 y, some 32⟩ := by
  have xLoop : pubx.fill (fun i => (0x04 :: (x ++ y))[1 + i]?) 32 0 memory =
      some (overwrite memory 0 x) := by
    have loop := @KeyField.fill_eq pubx (fun i => (0x04 :: (x ++ y))[1 + i]?) x 0 memory
    rw [xLength] at loop
    apply loop
    · intro j lt
      rw [Nat.zero_add, Nat.add_comm, List.getElem?_cons_succ,
        List.getElem?_append_left (by rwa [xLength])]
    · exact Nat.le_refl 32
    · simp [pubx, sized]
  have length : (overwrite memory 0 x).length = 512 := by
    rw [length_overwrite (by omega), sized]
  have yLoop : puby.fill (fun i => (0x04 :: (x ++ y))[33 + i]?) 32 0 (overwrite memory 0 x) =
      some (overwrite (overwrite memory 0 x) 32 y) := by
    have loop := @KeyField.fill_eq puby (fun i => (0x04 :: (x ++ y))[33 + i]?) y 0
      (overwrite memory 0 x)
    rw [yLength] at loop
    apply loop
    · intro j lt
      have position : 33 + (0 + j) = x.length + j + 1 := by omega
      rw [position, List.getElem?_cons_succ, List.getElem?_append_right (by omega),
        Nat.add_sub_cancel_left]
    · exact Nat.le_refl 32
    · simp [puby, length]
  unfold extractSm2Key
  simp only [Option.bind_eq_bind, Option.pure_def]
  rw [tag_eq rfl, xLoop, Option.bind_some, yLoop]
  rfl

/-! ## The whole file -/

/-- The header of a key names its algorithm and leads to the bits of the key. -/
theorem keyHeader_loads {alg : Alg} {der : List UInt8} (reached : KeyReached der alg)
    (inside : keyAt der ≤ der.length) (ctx : AkcipherCtx) :
    keyHeader ctx der der.length = some ({ ctx with alg }, some (alg, keyAt der)) := by
  obtain ⟨⟨⟨⟨long, tag⟩, tag'⟩, named⟩, tag''⟩ := reached
  unfold keyAt at inside
  have bits : 0 < (der.drop (bitStringAt der + 1)).length := by
    rw [List.length_drop]
    omega
  unfold bitStringAt at inside
  have size : lengthSize (der.drop (algorithmAt der + 1)) ≤
      (der.drop (algorithmAt der + 1)).length := by
    rw [List.length_drop]
    unfold oidAt at inside
    omega
  have first : 0 < (der.drop 1).length := by
    rw [List.length_drop]
    omega
  have parsed := (parseAlgOid_eq (der.drop (oidAt der)) (oidBytes der).toNat alg).mpr named
  have algorithm : 1 + lengthSize (der.drop 1) = algorithmAt der := rfl
  have oid : algorithmAt der + 1 + lengthSize (der.drop (algorithmAt der + 1)) = oidAt der := rfl
  have oidLength : BitVec.ofNat 32 (lengthValue (der.drop (algorithmAt der + 1))) =
    oidBytes der := rfl
  have bitString : oidAt der + (oidBytes der).toNat = bitStringAt der := rfl
  unfold keyHeader
  rw [if_neg (Nat.not_lt.mpr long)]
  simp only [Option.bind_eq_bind, Option.pure_def, Nat.zero_add]
  rw [tag_eq tag, parseSeqLength_skip, if_pos first]
  simp only [Option.bind_some, algorithm]
  rw [tag_eq tag', parseSeqLength_read, if_pos size]
  simp only [Option.bind_some, oid, oidLength, parsed, bitString]
  unfold keyBitString
  simp only [Option.bind_eq_bind, Option.pure_def]
  rw [tag_eq tag'', parseSeqLength_skip, if_pos bits]
  rfl

/-- What the extractors leave in the union is the key. -/
theorem extractKey_loads (key : PublicKey) {data memory : List UInt8}
    (encoded : key.EncodedBy data) (small : data.length < 2 ^ 31) (sized : memory.length = 512) :
    ∃ extracted, extractKey key.alg memory data = some extracted ∧ key.Loaded
      ⟨key.alg, extracted.modulusLength.map BitVec.toInt, extracted.key⟩ := by
  cases key with
  | rsa key =>
      have found := key.foundIn encoded small
      have fits := key.modulusFits
      have length : (overwrite memory 0 (significant key.modulus)).length = 512 := by
        rw [length_overwrite (by omega), sized]
      refine ⟨_, extractRsaKey_loads found sized, rfl, ?_, ?_, ?_⟩
      · have count : (modulusBytes data).toNat = (significant key.modulus).length := by
          rw [found.modulusLength, BitVec.toNat_ofNat]
          omega
        simp only [Option.map_some]
        rw [BitVec.toInt_eq_toNat_of_lt (by omega), count]
      · unfold KeyField.read modulus
        rw [List.take_take, Nat.min_eq_left fits,
          drop_take_overwrite_of_le (by omega) (by simpa using fits)]
        exact drop_take_overwrite (Nat.zero_le _)
      · have here := @drop_take_overwrite _ key.padded 256 (by rw [length]; decide)
        rwa [key.padded_length] at here
  | sm2 key =>
      have xLength : key.x.toList.length = 32 := Vector.length_toList
      have yLength : key.y.toList.length = 32 := Vector.length_toList
      have length : (overwrite memory 0 key.x.toList).length = 512 := by
        rw [length_overwrite (by omega), sized]
      cases encoded
      refine ⟨_, extractSm2Key_loads xLength yLength sized, rfl, rfl, ?_, ?_⟩
      · unfold KeyField.read pubx
        rw [drop_take_overwrite_of_le (by omega) (Nat.le_refl 32)]
        have here := @drop_take_overwrite memory key.x.toList 0 (Nat.zero_le _)
        rwa [xLength] at here
      · have here := @drop_take_overwrite _ key.y.toList 32 (by rw [length]; decide)
        rwa [yLength] at here

/-- The reader loads the key of each file that encodes one. -/
theorem akcipherInvokeKey_inFile (key : PublicKey) {der : List UInt8} (inFile : key.InFile der)
    (small : der.length < 2 ^ 31) (digests : Digests) (derHash : Digest) (ctx : AkcipherCtx)
    (sized : ctx.key.length = 512) :
    ∃ ctx', akcipherInvokeKey digests ctx der derHash =
      some (pubkeyVerify digests derHash key.alg der, ctx') ∧ key.Loaded ctx' := by
  obtain ⟨bytes, identifier, bits, encoded, identifierField, bitsField, field⟩ := inFile
  obtain ⟨reached, atKey⟩ := keyReached_of_fields identifierField bitsField field
  have short : bytes.length < 2 ^ 31 := by
    rw [← atKey, List.length_drop]
    omega
  have inside : keyAt der ≤ der.length := by
    have positive := encoded.length_pos
    exact Nat.le_of_lt (lt_of_drop atKey positive)
  obtain ⟨extracted, extracts, loaded⟩ := extractKey_loads key encoded short sized
  refine ⟨_, ?_, loaded⟩
  unfold akcipherInvokeKey akcipherInvokeKeyIn
  rw [keyHeader_loads reached inside, List.take_length]
  simp only [Option.bind_eq_bind, Option.bind_some, Option.pure_def]
  rw [atKey, extracts, Option.bind_some]

/-- The reader accepts each file that encodes a key and has the digest, and the
context then holds the key. -/
theorem akcipherInvokeKey_loads (key : PublicKey) {der : List UInt8} (inFile : key.InFile der)
    (small : der.length < 2 ^ 31) (digests : Digests) {derHash : Digest}
    (same : digests.of key.alg der = derHash) (ctx : AkcipherCtx)
    (sized : ctx.key.length = 512) :
    ∃ ctx', akcipherInvokeKey digests ctx der derHash = some (0, ctx') ∧ key.Loaded ctx' := by
  have verified := (pubkeyVerify_eq_zero digests derHash key.alg der).mpr same
  have loads := akcipherInvokeKey_inFile key inFile small digests derHash ctx sized
  rwa [verified] at loads

/-- The key with the modulus 0xc501 and the exponent 3. -/
def smallKey : RsaKey where
  modulus := [0x00, 0xc5, 0x01]
  exponent := [0x03]
  modulusPos := by decide
  modulusFits := by decide
  exponentPos := by decide
  exponentFits := by decide

theorem smallKey_inFile : (PublicKey.rsa smallKey).InFile rsaKeyFile := by
  obtain ⟨identifier, bits, file⟩ := rsaKeyFile_fields
  exact ⟨rsaKeySequence, _, _, ⟨_, _, rsaKeySequence_fields⟩, identifier, bits, file⟩

theorem akcipherInvokeKey_loads_smallKey :
    ∃ ctx', akcipherInvokeKey codeDigests emptyCtx rsaKeyFile
      (codeDigests.sha256 rsaKeyFile) = some (0, ctx') ∧ (PublicKey.rsa smallKey).Loaded ctx' :=
  akcipherInvokeKey_loads (.rsa smallKey) smallKey_inFile (by decide) codeDigests rfl emptyCtx
    List.length_replicate

end Zsbl.Libs
