/-
Module: Zsbl.Proofs.Sha256
Purpose: The unrolled compression with its table computes the rounds of the standard, and
  the buffer and the padding of lib/hash/sha256.c make the standard's digest of a message.
Trusted boundary: none
Main exports:
  constants, rnd_named, ofVector_compress, Holds, absorb_holds, sha256Process_holds,
  sha256Done_eq, doSha256_eq_sha256, sha256_chunks
-/
import Zsbl.Lib.Sha2
import Zsbl.Libs.Sha256

namespace Zsbl.Libs.Sha256

open Zsbl.Lib

/-! ## Words -/

theorem ror_eq {y : Nat} (positive : 0 < y) (small : y < 32) (x : Word) :
    ror x y = x.rotateRight y := by
  have all (z : Word) : z &&& 0xFFFFFFFF = z := BitVec.and_allOnes
  have right : y &&& 31 = y := by
    rw [show 31 = 2 ^ 5 - 1 from rfl, Nat.and_two_pow_sub_one_eq_mod, Nat.mod_eq_of_lt small]
  have left : (32 - y) &&& 31 = 32 - y := by
    rw [show 31 = 2 ^ 5 - 1 from rfl, Nat.and_two_pow_sub_one_eq_mod, Nat.mod_eq_of_lt (by omega)]
  rw [ror, right, left, all, all, BitVec.rotateRight_def, Nat.mod_eq_of_lt small]

theorem shr_eq (x : Word) (n : Nat) : shr x n = x >>> n := by
  have all : x &&& 0xFFFFFFFF = x := BitVec.and_allOnes
  rw [shr, all]

theorem ch_eq (x y z : Word) : ch x y z = Sha2.ch x y z := by
  ext i
  simp only [ch, Sha2.ch, BitVec.getElem_xor, BitVec.getElem_and, BitVec.getElem_not]
  cases x[i] <;> cases y[i] <;> cases z[i] <;> rfl

theorem maj_eq (x y z : Word) : maj x y z = Sha2.maj x y z := by
  ext i
  simp only [maj, Sha2.maj, BitVec.getElem_xor, BitVec.getElem_and, BitVec.getElem_or]
  cases x[i] <;> cases y[i] <;> cases z[i] <;> rfl

theorem bigSigma0_eq (x : Word) : bigSigma0 x = Sha2.bigSigma0 x := by
  simp only [bigSigma0, Sha2.bigSigma0, ror_eq, Nat.reduceLT]

theorem bigSigma1_eq (x : Word) : bigSigma1 x = Sha2.bigSigma1 x := by
  simp only [bigSigma1, Sha2.bigSigma1, ror_eq, Nat.reduceLT]

theorem gamma0_eq (x : Word) : gamma0 x = Sha2.smallSigma0 x := by
  simp only [gamma0, Sha2.smallSigma0, ror_eq, shr_eq, Nat.reduceLT]

theorem gamma1_eq (x : Word) : gamma1 x = Sha2.smallSigma1 x := by
  simp only [gamma1, Sha2.smallSigma1, ror_eq, shr_eq, Nat.reduceLT]

theorem load32H_eq (bytes : List UInt8) (enough : 4 ≤ bytes.length) :
    load32H bytes = Word.ofBytes (bytes.take 4) := by
  obtain _ | ⟨b0, _ | ⟨b1, _ | ⟨b2, _ | ⟨b3, rest⟩⟩⟩⟩ := bytes
  all_goals simp only [List.length_cons, List.length_nil] at enough
  all_goals try omega
  exact Word.or_shifts b0 b1 b2 b3

/-! ## The table -/

theorem length_rounds : rounds.length = 64 := rfl

def roundConstant (t : Fin 64) : Word := (rounds.get (t.cast length_rounds.symm)).ki

/-- The names of the registers in a round. -/
def call (t : Fin 64) : Rnd :=
  let i := Fin.ofNat 8 t.val
  ⟨0 - i, 1 - i, 2 - i, 3 - i, 4 - i, 5 - i, 6 - i, 7 - i, t, roundConstant t⟩

/-- In each line of the table the registers have moved on by one. -/
theorem rounds_eq : rounds = (List.finRange 64).map call := by
  decide +kernel

theorem roundConstant_table : ∀ t : Fin 64, ∃ prime < 324, Undivided prime ∧
    prime.count Undivided = t ∧ ∃ whole < 8,
      (whole * 2 ^ 32 + (roundConstant t).toNat) ^ 3 ≤ prime * 2 ^ 96 ∧
      prime * 2 ^ 96 < (whole * 2 ^ 32 + (roundConstant t).toNat + 1) ^ 3 := by
  decide +kernel

theorem initialState_table : ∀ t : Fin 8, ∃ prime < 324, Undivided prime ∧
    prime.count Undivided = t ∧ ∃ whole < 8,
      (whole * 2 ^ 32 + (initialState.get t).toNat) ^ 2 ≤ prime * 2 ^ 64 ∧
      prime * 2 ^ 64 < (whole * 2 ^ 32 + (initialState.get t).toNat + 1) ^ 2 := by
  decide +kernel

/-- The constants of the code are the ones of the standard. -/
def constants : Sha2.Constants where
  initial := initialState.get
  round := roundConstant
  initial_root i := by
    obtain ⟨prime, small, undivided, count, whole, -, low, high⟩ := initialState_table i
    rw [nth_prime small undivided count]
    exact ⟨whole, low, high⟩
  round_root i := by
    obtain ⟨prime, small, undivided, count, whole, -, low, high⟩ := roundConstant_table i
    rw [nth_prime small undivided count]
    exact ⟨whole, low, high⟩

theorem constants_round : constants.round = roundConstant := rfl

/-! ## Rounds -/

/-- One call of the macro is one round of the standard, with the registers renamed. -/
theorem rnd_named (W : List Word) (S : Vector Word 8) (t : Fin 64) :
    Registers.of (named (rnd W S (call t)) (Fin.ofNat 8 (t.val + 1))) =
      Sha2.round (roundConstant t) (W.getD t 0) (.of (named S (Fin.ofNat 8 t.val))) := by
  have names : named (rnd W S (call t)) (Fin.ofNat 8 t.val) =
      let v := named S (Fin.ofNat 8 t.val)
      let t0 := v 7 + bigSigma1 (v 4) + ch (v 4) (v 5) (v 6) + roundConstant t + W.getD t 0
      Function.update (Function.update v 3 (v 3 + t0)) 7
        (t0 + (bigSigma0 (v 0) + maj (v 0) (v 1) (v 2))) := by
    unfold rnd call
    simp only [named_put]
    rfl
  rw [named_succ, names]
  simp only [bigSigma0_eq, bigSigma1_eq, ch_eq, maj_eq]
  rfl

/-! ## The schedule -/

theorem nextW_schedule (block : List UInt8) (filled : Nat) (enough : 16 ≤ filled) :
    nextW ((List.range filled).map (Sha2.schedule block)) = Sha2.schedule block filled := by
  rw [Sha2.schedule, if_neg (by omega), nextW, List.length_map, List.length_range,
    getD_range (by omega), getD_range (by omega), getD_range (by omega), getD_range (by omega),
    gamma0_eq, gamma1_eq]

/-- The words are those of the message schedule. -/
theorem schedule_words {block : List UInt8} (whole : block.length = 64) :
    extend nextW 48 ((List.range 16).map fun i => load32H (block.drop (4 * i))) =
      (List.range 64).map (Sha2.schedule block) := by
  rw [← extend_range (nextW_schedule block) 48 (Nat.le_refl 16)]
  congr 1
  apply List.map_congr_left
  intro i inside
  rw [List.mem_range] at inside
  rw [load32H_eq _ (by rw [List.length_drop]; omega), Sha2.schedule, if_pos inside]

/-- The compression is that of the standard. -/
theorem ofVector_compress (state : Vector Word 8) {block : List UInt8}
    (whole : block.length = 64) :
    Registers.ofVector (compress state block) =
      Sha2.compress constants (Registers.ofVector state) block := by
  have rounds := named_rounds Registers.of (show 8 ∣ 64 by decide) (fun registers t =>
      Sha2.round (roundConstant t) (((List.range 64).map (Sha2.schedule block)).getD t 0) registers)
    (fun S t => rnd_named _ S t) state
  have schedule (t : Fin 64) : ((List.range 64).map (Sha2.schedule block)).getD t 0 =
      Sha2.schedule block t := getD_range t.isLt 0
  simp only [schedule] at rounds
  simp only [compress, Sha2.compress, schedule_words whole, rounds_eq, List.foldl_map,
    constants_round, Registers.ofVector_zipWith]
  rw [Registers.ofVector, Registers.ofVector, rounds]

/-! ## Messages -/

/-- The state of a digest that has read a message. -/
structure Holds (md : HashState) (message : List UInt8) : Prop where
  room : md.curlen < 64
  absorbed : ∃ blocks, (Sha2.hash constants).Absorbed message blocks (Registers.ofVector md.state)
    (md.buf.take md.curlen) ∧ md.length = BitVec.ofNat 64 (512 * blocks)

theorem sha256Init_holds (md : HashState) : Holds (sha256Init md) [] where
  room := Nat.zero_lt_succ 63
  absorbed := ⟨0, BlockHash.absorbed_nil _, rfl⟩

theorem length_pending {md : HashState} (small : md.curlen ≤ 64) :
    (md.buf.take md.curlen).length = md.curlen := by
  rw [List.length_take, md.buf_length, Nat.min_eq_left small]

/-- The bytes that fit wait behind those that wait already. -/
theorem append_pending (md : HashState) (part : List UInt8)
    (fits : md.curlen + part.length ≤ 64) :
    (md.append part fits).buf.take (md.append part fits).curlen =
      md.buf.take md.curlen ++ part := by
  have before := length_pending (show md.curlen ≤ 64 by omega)
  have length : md.curlen + part.length = (md.buf.take md.curlen ++ part).length := by
    rw [List.length_append, before]
  simp only [HashState.append, overwrite]
  rw [length, List.take_left]

theorem length_block (blocks : Nat) :
    BitVec.ofNat 64 (512 * blocks) + 512 = BitVec.ofNat 64 (512 * (blocks + 1)) := by
  rw [Nat.mul_succ, BitVec.ofNat_add]
  rfl

/-- A block of the input goes past an empty buffer. -/
theorem Holds.block {md : HashState} {message block : List UInt8} (holds : Holds md message)
    (empty : md.curlen = 0) (whole : block.length = 64) :
    Holds (md.block block) (message ++ block) where
  room := by rw [HashState.block_curlen, empty]; decide
  absorbed := by
    obtain ⟨blocks, absorbed, length⟩ := holds.absorbed
    rw [empty, List.take_zero] at absorbed
    have filled := absorbed.fill block whole
    refine ⟨blocks + 1, ?_, by rw [HashState.block, length, length_block]⟩
    rw [HashState.block_curlen, empty, List.take_zero]
    simpa only [HashState.block, ofVector_compress _ whole, List.nil_append,
      Sha2.hash_compress] using filled

/-- A part that does not fill the block waits in the buffer. -/
theorem Holds.keep {md : HashState} {message part : List UInt8} (holds : Holds md message)
    (fits : md.curlen + part.length ≤ 64) (short : md.curlen + part.length < 64) :
    Holds (md.append part fits) (message ++ part) where
  room := short
  absorbed := by
    obtain ⟨blocks, absorbed, length⟩ := holds.absorbed
    refine ⟨blocks, ?_, length⟩
    rw [append_pending]
    refine absorbed.keep part (show _ < 64 from ?_)
    rwa [List.length_append, length_pending holds.room.le]

/-- The input fills the buffer. -/
theorem Holds.fill {md : HashState} {message part : List UInt8} (holds : Holds md message)
    (fits : md.curlen + part.length ≤ 64) (full : md.curlen + part.length = 64) :
    Holds { (md.append part fits).block (md.append part fits).buf with curlen := 0 }
      (message ++ part) where
  room := Nat.zero_lt_succ 63
  absorbed := by
    obtain ⟨blocks, absorbed, length⟩ := holds.absorbed
    have block : (md.append part fits).buf = md.buf.take md.curlen ++ part := by
      rw [← append_pending md part fits, List.take_of_length_le]
      rw [HashState.buf_length]
      exact full.ge
    have filled := absorbed.fill part (show _ = 64 by
      rw [List.length_append, length_pending holds.room.le, full])
    refine ⟨blocks + 1, ?_, ?_⟩
    · simp only [HashState.block, ofVector_compress _ (HashState.buf_length _)]
      rw [block, List.take_zero]
      exact filled
    · simp only [HashState.block, HashState.append, length, length_block]

/-- Absorbing an input is absorbing its bytes behind the message. -/
theorem absorb_holds {md : HashState} {message : List UInt8} (small : md.curlen ≤ 64)
    (holds : Holds md message) (input : List UInt8) :
    Holds (absorb md small input) (message ++ input) := by
  induction md, small, input using absorb.induct generalizing message with
  | case1 md small =>
      rw [absorb, dif_pos rfl, List.append_nil]
      exact holds
  | case2 md small input more whole ih =>
      have rest := ih (holds.block whole.1 (List.length_take_of_le whole.2))
      rw [List.append_assoc, List.take_append_drop] at rest
      rw [absorb, dif_neg more, if_pos whole]
      exact rest
  | case3 md small input more partly n fits filled full =>
      rename_i ih
      have rest := ih (holds.fill fits full)
      rw [List.append_assoc, List.take_append_drop] at rest
      rw [absorb, dif_neg more, if_neg partly]
      rw [if_pos full]
      exact rest
  | case4 md small input more partly n fits filled notFull =>
      rename_i ih
      have short : md.curlen + (input.take n).length < 64 := Nat.lt_of_le_of_ne fits notFull
      have rest := ih (holds.keep fits short)
      rw [List.append_assoc, List.take_append_drop] at rest
      rw [absorb, dif_neg more, if_neg partly]
      rw [if_neg notFull]
      exact rest

theorem sha256Process_holds {md : HashState} {message input : List UInt8} (holds : Holds md message)
    (fits : ¬ md.length + BitVec.ofNat 64 input.length * 8 < md.length) :
    ∃ next, sha256Process md input = .ok next ∧ Holds next (message ++ input) := by
  refine ⟨absorb md holds.room.le input, ?_, absorb_holds holds.room.le holds input⟩
  rw [sha256Process, dif_pos holds.room.le, if_neg fits]

/-! ## Padding -/

/-- The mask keeps the byte that the cast keeps. -/
theorem ofNat_mask {width : Nat} (x : BitVec width) (wide : 8 ≤ width) :
    UInt8.ofNat (x &&& 255).toNat = UInt8.ofNat x.toNat := by
  have mask : (255 : BitVec width).toNat = 2 ^ 8 - 1 :=
    Nat.mod_eq_of_lt (Nat.lt_of_lt_of_le (by decide) (Nat.pow_le_pow_right (by decide) wide))
  apply UInt8.toNat_inj.mp
  rw [BitVec.toNat_and, mask, Nat.and_two_pow_sub_one_eq_mod, UInt8.toNat_ofNat',
    UInt8.toNat_ofNat', Nat.mod_mod]

theorem store64H_eq (value : Nat) : store64H (BitVec.ofNat 64 value) = beBytes 8 value := by
  have inside : ∀ shift ∈ [56, 48, 40, 32, 24, 16, 8, 0], shift + 8 ≤ 64 := by decide
  have bytes := List.map_congr_left fun shift member => ofNat_byte value (inside shift member)
  simp only [store64H, ofNat_mask _ (show 8 ≤ 64 by decide)]
  rw [bytes]
  simp [beBytes, Nat.div_div_eq_div_mul]

theorem store32H_eq (word : Word) : store32H word = beBytes 4 word.toNat := by
  have inside : ∀ shift ∈ [24, 16, 8, 0], shift + 8 ≤ 32 := by decide
  have bytes := List.map_congr_left fun shift member =>
    ofNat_byte word.toNat (inside shift member)
  rw [BitVec.ofNat_toNat, BitVec.setWidth_eq] at bytes
  simp only [store32H, ofNat_mask _ (show 8 ≤ 32 by decide)]
  rw [bytes]
  simp [beBytes, Nat.div_div_eq_div_mul]

/-- Zeros are appended, and the rest stays. -/
theorem zeros_spec (md : HashState) {upto : Nat} (inside : upto ≤ 64) (room : md.curlen ≤ upto) :
    (zeros md upto inside).curlen = upto ∧ (zeros md upto inside).state = md.state ∧
      (zeros md upto inside).length = md.length ∧
      (zeros md upto inside).buf.take upto =
        md.buf.take md.curlen ++ List.replicate (upto - md.curlen) 0 := by
  induction md using zeros.induct upto inside with
  | case1 md more ih =>
      have fits : md.curlen + [(0 : UInt8)].length ≤ 64 := by
        rw [List.length_singleton]
        omega
      obtain ⟨curlen, state, length, buf⟩ := ih more
      rw [append_pending md [0] fits] at buf
      rw [zeros, dif_pos more]
      refine ⟨curlen, state, length, buf.trans ?_⟩
      have count : upto - md.curlen = (upto - (md.curlen + 1)) + 1 := by omega
      rw [count, List.replicate_succ, List.append_assoc]
      rfl
  | case2 md enough =>
      have same : md.curlen = upto := by omega
      rw [zeros, dif_neg enough, same, Nat.sub_self, List.replicate_zero, List.append_nil]
      exact ⟨rfl, rfl, rfl, rfl⟩

/-- The length of the whole message, as in the last block. -/
theorem Holds.bits {md : HashState} {message : List UInt8} (holds : Holds md message) :
    md.length + BitVec.ofNat 64 (md.curlen * 8) = BitVec.ofNat 64 (8 * message.length) := by
  obtain ⟨blocks, absorbed, length⟩ := holds.absorbed
  have total := absorbed.length
  rw [length_pending holds.room.le] at total
  rw [length, ← BitVec.ofNat_add, total]
  congr 1
  change 512 * blocks + md.curlen * 8 = 8 * (blocks * 64 + md.curlen)
  omega

/-- The last block holds the bytes that wait, zeros and the length. -/
theorem finish_eq (md : HashState) (room : md.curlen ≤ 56) :
    Registers.ofVector md.finish = Sha2.compress constants (Registers.ofVector md.state)
      (md.buf.take md.curlen ++ List.replicate (56 - md.curlen) 0 ++ store64H md.length) := by
  obtain ⟨-, state, length, buf⟩ := zeros_spec md (show 56 ≤ 64 by decide) room
  unfold HashState.finish
  generalize zeros md 56 _ = padded at state length buf ⊢
  have nothing : padded.buf.drop (56 + (store64H padded.length).length) = [] :=
    List.drop_eq_nil_of_le padded.buf_length.le
  have block : overwrite padded.buf 56 (store64H padded.length) =
      md.buf.take md.curlen ++ List.replicate (56 - md.curlen) 0 ++ store64H md.length := by
    rw [overwrite, nothing, List.append_nil, buf, length]
  have whole : (overwrite padded.buf 56 (store64H padded.length)).length = 64 := by
    rw [length_overwrite padded.buf_length.ge, padded.buf_length]
  rw [ofVector_compress _ whole, block, state]

/-- A block too full for the length is completed with zeros first. -/
theorem wrap_eq {md : HashState} (long : 56 < md.curlen) (small : md.curlen ≤ 64) :
    md.wrap.curlen = 0 ∧ md.wrap.length = md.length ∧
      Registers.ofVector md.wrap.state = Sha2.compress constants (Registers.ofVector md.state)
        (md.buf.take md.curlen ++ List.replicate (64 - md.curlen) 0) := by
  obtain ⟨-, state, length, buf⟩ := zeros_spec md (Nat.le_refl 64) small
  unfold HashState.wrap
  rw [if_pos long]
  generalize zeros md 64 _ = padded at state length buf ⊢
  rw [List.take_of_length_le padded.buf_length.le] at buf
  exact ⟨rfl, length, by rw [ofVector_compress _ padded.buf_length, state, buf]⟩

/-- The digest of what has been read. -/
theorem sha256Done_eq {md : HashState} {message : List UInt8} (holds : Holds md message) :
    sha256Done md = .ok (Sha2.sha256 constants message) := by
  obtain ⟨blocks, absorbed, -⟩ := holds.absorbed
  have room := holds.room
  have pending := length_pending room.le
  let counted := { md with length := md.length + BitVec.ofNat 64 (md.curlen * 8) }
  have done : sha256Done md =
      .ok ((counted.append [0x80] room).wrap.finish.toList.flatMap store32H) := dif_pos room
  rw [done, ← Registers.bytes_ofVector store32H_eq]
  generalize markedEq : counted.append [0x80] room = marked
  have curlen : marked.curlen = md.curlen + 1 := by
    rw [← markedEq]
    rfl
  have state : marked.state = md.state := by
    rw [← markedEq]
    rfl
  have length : marked.length = BitVec.ofNat 64 (8 * message.length) := by
    rw [← markedEq, ← holds.bits]
    rfl
  have buf : marked.buf.take (md.curlen + 1) = md.buf.take md.curlen ++ [0x80] := by
    rw [← curlen, ← markedEq]
    exact append_pending counted [0x80] room
  have finish : Registers.ofVector marked.wrap.finish = (Sha2.hash constants).digest message := by
    by_cases long : 56 < marked.curlen
    · obtain ⟨empty, lengthWrap, stateWrap⟩ := wrap_eq long (by omega)
      rw [finish_eq _ (by omega), stateWrap, lengthWrap, empty, length, store64H_eq, state, curlen,
        buf, absorbed.finish_long (by rw [pending]; change 64 < _ + 8; omega), pending]
      simp only [Sha2.hash_compress, List.append_assoc, List.singleton_append]
      rfl
    · have short : marked.wrap = marked := if_neg long
      rw [short, finish_eq _ (by omega), length, store64H_eq, state, curlen, buf,
        absorbed.finish_short (by rw [pending]; change _ + 8 ≤ 64; omega), pending]
      simp only [Sha2.hash_compress, List.append_assoc, List.singleton_append]
      rfl
  rw [finish, Sha2.sha256]

/-! ## Digests -/

/-- Every message has its digest of the standard, whatever was on the stack. -/
theorem doSha256_eq_sha256 (md : HashState) (msg : List UInt8) :
    doSha256 md msg = .ok (Sha2.sha256 constants msg) := by
  have fits : ¬ (sha256Init md).length + BitVec.ofNat 64 msg.length * 8 < (sha256Init md).length :=
    BitVec.not_lt_zero
  obtain ⟨next, processed, holds⟩ := sha256Process_holds (sha256Init_holds md) fits
  unfold doSha256
  rw [processed]
  exact sha256Done_eq holds

/-- No counter of bits that fit into 64 of them overflows. -/
theorem Holds.fits {md : HashState} {message : List UInt8} (holds : Holds md message)
    (input : List UInt8) (small : message.length + input.length < 2 ^ 61) :
    ¬ md.length + BitVec.ofNat 64 input.length * 8 < md.length := by
  obtain ⟨blocks, absorbed, length⟩ := holds.absorbed
  have total : message.length = blocks * 64 + _ := absorbed.length
  rw [length, BitVec.not_lt]
  apply BitVec.le_def.mpr
  have bits : (BitVec.ofNat 64 input.length * 8).toNat = input.length * 8 := by
    rw [BitVec.toNat_mul, BitVec.toNat_ofNat, Nat.mod_eq_of_lt (by omega : input.length < 2 ^ 64)]
    exact Nat.mod_eq_of_lt (by change input.length * 8 < 2 ^ 64; omega)
  rw [BitVec.toNat_add, bits, BitVec.toNat_ofNat, Nat.mod_eq_of_lt (by omega : _ < 2 ^ 64),
    Nat.mod_eq_of_lt (by omega)]
  exact Nat.le_add_right _ _

/-- Parts that are processed one after the other are processed as one message. -/
theorem sha256Process_chunks {md : HashState} {message : List UInt8} (holds : Holds md message)
    (chunks : List (List UInt8)) (small : message.length + chunks.flatten.length < 2 ^ 61) :
    ∃ next, chunks.foldlM sha256Process md = .ok next ∧
      Holds next (message ++ chunks.flatten) := by
  induction chunks generalizing md message with
  | nil => exact ⟨md, rfl, by simpa using holds⟩
  | cons chunk chunks ih =>
      rw [List.flatten_cons, List.length_append] at small
      obtain ⟨next, processed, nextHolds⟩ :=
        sha256Process_holds holds (holds.fits chunk (by omega))
      obtain ⟨last, others, lastHolds⟩ := ih nextHolds (by rw [List.length_append]; omega)
      refine ⟨last, ?_, by simpa using lastHolds⟩
      rw [List.foldlM_cons, processed]
      exact others

/-- A message may be handed over in any parts: the digest is the one of the whole. -/
theorem sha256_chunks (md : HashState) {chunks : List (List UInt8)}
    (small : chunks.flatten.length < 2 ^ 61) :
    (chunks.foldlM sha256Process (sha256Init md) >>= sha256Done) =
      .ok (Sha2.sha256 constants chunks.flatten) := by
  obtain ⟨last, processed, holds⟩ := sha256Process_chunks (sha256Init_holds md) chunks
    (by rwa [List.length_nil, Nat.zero_add])
  rw [processed]
  exact sha256Done_eq holds

theorem sha256_chunks_two :
    ([[1], [2, 3]].foldlM sha256Process (sha256Init ⟨0, initialState, 0, List.replicate 64 0,
      List.length_replicate⟩) >>= sha256Done) = .ok (Sha2.sha256 constants [1, 2, 3]) :=
  sha256_chunks _ (by decide)

end Zsbl.Libs.Sha256
