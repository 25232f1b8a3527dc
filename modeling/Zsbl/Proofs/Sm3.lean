/-
Module: Zsbl.Proofs.Sm3
Purpose: The unrolled compression of lib/hash/sm3.c computes the rounds of the standard, and
  a message may come in any parts.
Trusted boundary: none
Main exports:
  ofVector_compressBlock, Holds, sm3Process_holds, sm3Done_eq, sm3_chunks
-/
import Zsbl.Lib.Sm3
import Zsbl.Libs.Sm3

namespace Zsbl.Libs.Sm3

open Zsbl.Lib

/-! ## Words -/

theorem rol_eq {y : Nat} (positive : 0 < y) (small : y < 32) (x : Word) :
    rol x y = x.rotateLeft y := by
  have all (z : Word) : z &&& 0xFFFFFFFF = z := BitVec.and_allOnes
  have left : y &&& 31 = y := by
    rw [show 31 = 2 ^ 5 - 1 from rfl, Nat.and_two_pow_sub_one_eq_mod, Nat.mod_eq_of_lt small]
  have right : (32 - y) &&& 31 = 32 - y := by
    rw [show 31 = 2 ^ 5 - 1 from rfl, Nat.and_two_pow_sub_one_eq_mod, Nat.mod_eq_of_lt (by omega)]
  rw [rol, left, right, all, all, BitVec.rotateLeft_def, Nat.mod_eq_of_lt small]

theorem p0_eq (x : Word) : p0 x = Lib.Sm3.p0 x := by
  simp only [p0, Lib.Sm3.p0, rol_eq, Nat.reduceLT]

theorem p1_eq (x : Word) : p1 x = Lib.Sm3.p1 x := by
  simp only [p1, Lib.Sm3.p1, rol_eq, Nat.reduceLT]

/-- The functions of a round. -/
def kind (j : Nat) : Kind := if j < 16 then kind00 else kind16

theorem kind_ff (j : Nat) (x y z : Word) : (kind j).ff x y z = Lib.Sm3.ff j x y z := by
  unfold kind Lib.Sm3.ff
  split <;> rfl

theorem kind_gg (j : Nat) (x y z : Word) : (kind j).gg x y z = Lib.Sm3.gg j x y z := by
  unfold kind Lib.Sm3.gg
  split
  · rfl
  · ext i
    simp only [kind16, gg16, BitVec.getElem_xor, BitVec.getElem_and, BitVec.getElem_or,
      BitVec.getElem_not]
    cases x[i] <;> cases y[i] <;> cases z[i] <;> rfl

theorem getu32_eq (bytes : List UInt8) (enough : 4 ≤ bytes.length) :
    getu32 bytes = Word.ofBytes (bytes.take 4) := by
  obtain _ | ⟨b0, _ | ⟨b1, _ | ⟨b2, _ | ⟨b3, rest⟩⟩⟩⟩ := bytes
  all_goals simp only [List.length_cons, List.length_nil] at enough
  all_goals try omega
  exact Word.or_shifts b0 b1 b2 b3

/-- The table has the constants turned already. -/
theorem K_eq : ∀ j : Fin 64, K.getD j 0 = Lib.Sm3.t j := by
  decide +kernel

/-! ## Rounds -/

/-- A round with the names that come from the rounds before. -/
def turn (W : List Word) (regs : Vector Word 8) (j : Fin 64) : Vector Word 8 :=
  let i := Fin.ofNat 8 j.val
  (R (kind j) W ⟨regs, j⟩ (0 - i) (1 - i) (2 - i) (3 - i) (4 - i) (5 - i) (6 - i) (7 - i)).regs

/-- One turn of the loop is one round of the standard, with the registers renamed. -/
theorem turn_named {block : List UInt8} (regs : Vector Word 8) (j : Fin 64) :
    Registers.of (named (turn ((List.range 68).map (Lib.Sm3.schedule block)) regs j)
      (Fin.ofNat 8 (j.val + 1))) =
      Lib.Sm3.round block (.of (named regs (Fin.ofNat 8 j.val))) j := by
  have inside := j.isLt
  have read (file : Vector Word 8) (name : Fin 8) :
      file.get (name - Fin.ofNat 8 j.val) = named file (Fin.ofNat 8 j.val) name := rfl
  have constant := K_eq j
  rw [named_succ]
  simp only [turn, R, read, named_put, constant, getD_range (show j.val < 68 by omega),
    getD_range (show j.val + 4 < 68 by omega), rol_eq, Nat.reduceLT, p0_eq, kind_ff, kind_gg]
  generalize named regs (Fin.ofNat 8 j.val) = v
  simp [Registers.of, Lib.Sm3.round, Function.update]

/-- Eight rounds, after which the names have come back to their places. -/
def octet (k : Fin 8) : List (Fin 64) :=
  (List.finRange 8).map fun i => ⟨8 * k.val + i.val, by omega⟩

theorem finRange_octets : List.finRange 64 = (List.finRange 8).flatMap octet := by
  decide +kernel

theorem R8_eq_foldl (xx : Kind) (W : List Word) (vars : Vars) :
    R8 xx W vars 0 1 2 3 4 5 6 7 = (List.finRange 8).foldl (fun vars i =>
      R xx W vars (0 - i) (1 - i) (2 - i) (3 - i) (4 - i) (5 - i) (6 - i) (7 - i)) vars := rfl

/-- The macro renames the registers and leaves their values. -/
theorem R_turn (W : List Word) (regs : Vector Word 8) (k i : Fin 8) :
    R (kind (8 * k)) W ⟨regs, 8 * k + i⟩ (0 - i) (1 - i) (2 - i) (3 - i) (4 - i) (5 - i) (6 - i)
      (7 - i) = ⟨turn W regs ⟨8 * k.val + i.val, by omega⟩, 8 * k + (i + 1)⟩ := by
  have name : Fin.ofNat 8 (8 * k.val + i.val) = i := by
    apply Fin.ext
    simp only [Fin.ofNat]
    omega
  have sameKind : kind (8 * k) = kind (8 * k + i) := by
    unfold kind
    split <;> split <;> first | rfl | omega
  rw [sameKind]
  simp only [turn, name]
  rfl

theorem R8_octet (W : List Word) (regs : Vector Word 8) (k : Fin 8) :
    R8 (kind (8 * k)) W ⟨regs, 8 * k⟩ 0 1 2 3 4 5 6 7 =
      ⟨(octet k).foldl (turn W) regs, 8 * (k + 1)⟩ := by
  rw [R8_eq_foldl, octet, List.foldl_map]
  exact foldl_finRange (fun i regs => Vars.mk regs (8 * k + i))
    (fun regs i => R_turn W regs k i) regs

/-! ## The schedule -/

theorem nextW_schedule (block : List UInt8) (filled : Nat) (enough : 16 ≤ filled) :
    nextW ((List.range filled).map (Lib.Sm3.schedule block)) = Lib.Sm3.schedule block filled := by
  rw [Lib.Sm3.schedule, if_neg (by omega), nextW, List.length_map, List.length_range,
    getD_range (by omega), getD_range (by omega), getD_range (by omega), getD_range (by omega),
    getD_range (by omega), p1_eq, rol_eq (by decide) (by decide), rol_eq (by decide) (by decide)]

theorem schedule_take {data : List UInt8} (enough : 64 ≤ data.length) :
    (List.range 16).map (fun j => getu32 (data.drop (j * 4))) =
      (List.range 16).map (Lib.Sm3.schedule (data.take 64)) := by
  apply List.map_congr_left
  intro j inside
  rw [List.mem_range] at inside
  rw [getu32_eq _ (by rw [List.length_drop]; omega), Lib.Sm3.schedule, if_pos inside,
    List.drop_take, List.take_take, Nat.min_eq_left (by omega), Nat.mul_comm]

theorem compressBlock_eq_foldl (digest : Vector Word 8) (data : List UInt8) :
    compressBlock digest data =
      let W := extend nextW 52 ((List.range 16).map fun j => getu32 (data.drop (j * 4)))
      Vector.zipWith (· ^^^ ·) digest ((List.finRange 8).foldl
        (fun vars (k : Fin 8) => R8 (kind (8 * k)) W vars 0 1 2 3 4 5 6 7) ⟨digest, 0⟩).regs := rfl

/-- One block. -/
theorem ofVector_compressBlock (digest : Vector Word 8) {data : List UInt8}
    (enough : 64 ≤ data.length) :
    Registers.ofVector (compressBlock digest data) =
      Lib.Sm3.compress (Registers.ofVector digest) (data.take 64) := by
  have rounds := named_rounds Registers.of (show 8 ∣ 64 by decide)
    (fun registers (j : Fin 64) => Lib.Sm3.round (data.take 64) registers j)
    (fun regs j => turn_named regs j) digest
  have octets (W : List Word) :
      (List.finRange 8).foldl (fun vars (k : Fin 8) =>
          R8 (kind (8 * k)) W vars 0 1 2 3 4 5 6 7) ⟨digest, 0⟩ =
        ⟨(List.finRange 8).foldl (fun regs k => (octet k).foldl (turn W) regs) digest, 64⟩ :=
    foldl_finRange (fun k regs => Vars.mk regs (8 * k)) (fun regs k => R8_octet W regs k) digest
  have vars : compressBlock digest data = Vector.zipWith (· ^^^ ·) digest
      ((List.finRange 64).foldl (turn ((List.range 68).map (Lib.Sm3.schedule (data.take 64))))
        digest) := by
    rw [compressBlock_eq_foldl, schedule_take enough,
      extend_range (nextW_schedule _) 52 (Nat.le_refl 16), finRange_octets, List.foldl_flatMap]
    simp only [octets]
  rw [vars, Registers.ofVector_zipWith, Lib.Sm3.compress, Registers.ofVector, Registers.ofVector,
    rounds]

/-- `sm3_compress_blocks`. -/
theorem ofVector_compressBlocks (digest : Vector Word 8) {data : List UInt8} {blocks : Nat}
    (enough : blocks * 64 ≤ data.length) :
    Registers.ofVector (compressBlocks digest data blocks) =
      Lib.Sm3.hash.chain blocks (Registers.ofVector digest) data := by
  induction blocks generalizing digest data with
  | zero => rfl
  | succ blocks ih =>
      rw [Nat.succ_mul] at enough
      rw [compressBlocks, ih _ (by rw [List.length_drop]; omega),
        ofVector_compressBlock _ (by omega)]
      rfl

/-! ## Messages -/

/-- The state of a digest that has read a message. -/
def Holds (ctx : HashState) (message : List UInt8) : Prop :=
  ∃ blocks, Lib.Sm3.hash.Absorbed message blocks (Registers.ofVector ctx.digest)
    (ctx.block.take ctx.num) ∧ ctx.nblocks = BitVec.ofNat 64 blocks

theorem sm3Init_holds : Holds sm3Init [] :=
  ⟨0, BlockHash.absorbed_nil _, rfl⟩

theorem length_pending (ctx : HashState) : (ctx.block.take ctx.num).length = ctx.num := by
  rw [List.length_take, ctx.block_length, Nat.min_eq_left ctx.num_lt.le]

theorem take_overwrite {bytes : List UInt8} {position : Nat} (inside : position ≤ bytes.length)
    (part : List UInt8) :
    (overwrite bytes position part).take (position + part.length) =
      bytes.take position ++ part := by
  have length : position + part.length = (bytes.take position ++ part).length := by
    rw [List.length_append, List.length_take_of_le inside]
  rw [overwrite, length, List.take_left]

/-- Whole blocks are compressed and the rest waits. -/
theorem processBlocks_holds {ctx : HashState} {message : List UInt8} (blocks : Nat)
    (absorbed : Lib.Sm3.hash.Absorbed message blocks (Registers.ofVector ctx.digest) [])
    (counted : ctx.nblocks = BitVec.ofNat 64 blocks) (data : List UInt8) :
    Holds (processBlocks ctx data) (message ++ data) := by
  have enough : data.length / 64 * 64 ≤ data.length := Nat.div_mul_le_self _ _
  have whole := absorbed.whole_blocks (data.take (data.length / 64 * 64))
    (data.length / 64) (List.length_take_of_le enough)
  have chain : Lib.Sm3.hash.chain (data.length / 64) (Registers.ofVector ctx.digest)
      (data.take (data.length / 64 * 64)) = _ := Lib.Sm3.hash.chain_take _ _ enough
  rw [chain] at whole
  have kept := whole.keep (data.drop (data.length / 64 * 64))
    (show _ < 64 by rw [List.nil_append, List.length_drop]; omega)
  rw [List.append_assoc, List.take_append_drop, List.nil_append] at kept
  refine ⟨blocks + data.length / 64, ?_, by rw [processBlocks, counted, BitVec.ofNat_add]⟩
  have pending : (overwrite ctx.block 0 (data.drop (data.length / 64 * 64))).take
      (data.drop (data.length / 64 * 64)).length = data.drop (data.length / 64 * 64) := by
    have := take_overwrite (Nat.zero_le ctx.block.length) (data.drop (data.length / 64 * 64))
    rwa [Nat.zero_add, List.take_zero, List.nil_append] at this
  simp only [processBlocks, Nat.mul_comm 64 (data.length / 64), pending,
    ofVector_compressBlocks _ enough]
  exact kept

/-- What is handed over is behind what has been read. -/
theorem sm3Process_holds {ctx : HashState} {message : List UInt8} (holds : Holds ctx message)
    (data : List UInt8) : Holds (sm3Process ctx data) (message ++ data) := by
  obtain ⟨blocks, absorbed, counted⟩ := holds
  have room := ctx.num_lt
  have inside : ctx.num ≤ ctx.block.length := by
    rw [ctx.block_length]
    exact room.le
  unfold sm3Process
  split
  case isTrue empty =>
    rw [empty, List.take_zero] at absorbed
    exact processBlocks_holds blocks absorbed counted data
  case isFalse partly =>
    dsimp only
    split
    case isTrue short =>
      refine ⟨blocks, ?_, counted⟩
      rw [take_overwrite inside]
      exact absorbed.keep data (show _ < 64 by rw [List.length_append, length_pending]; omega)
    case isFalse long =>
      have part : (data.take (64 - ctx.num)).length = 64 - ctx.num :=
        List.length_take_of_le (by omega)
      have block : overwrite ctx.block ctx.num (data.take (64 - ctx.num)) =
          ctx.block.take ctx.num ++ data.take (64 - ctx.num) :=
        overwrite_of_length (by rw [part, ctx.block_length]; omega)
      have blockLength : (ctx.block.take ctx.num ++ data.take (64 - ctx.num)).length = 64 := by
        rw [List.length_append, length_pending, part]
        omega
      have filled := absorbed.fill (data.take (64 - ctx.num)) blockLength
      have split : message ++ data =
          message ++ data.take (64 - ctx.num) ++ data.drop (64 - ctx.num) := by
        rw [List.append_assoc, List.take_append_drop]
      rw [split]
      refine processBlocks_holds (blocks + 1) ?_ ?_ _
      · dsimp only
        rw [block, ofVector_compressBlocks _ blockLength.ge,
          Lib.Sm3.hash.chain_one blockLength]
        exact filled
      · dsimp only
        rw [counted, BitVec.ofNat_add]
        rfl

/-! ## Padding -/

theorem putu32_eq {width : Nat} (wide : 32 ≤ width) (value : Nat) :
    putu32 (BitVec.ofNat width value) = beBytes 4 value := by
  have inside : ∀ shift ∈ [24, 16, 8, 0], shift + 8 ≤ 32 := by decide
  rw [putu32, List.map_congr_left fun shift member =>
    ofNat_byte value ((inside shift member).trans wide)]
  simp [beBytes, Nat.div_div_eq_div_mul]

theorem putu32_word (word : Word) : putu32 word = beBytes 4 word.toNat := by
  have eq := putu32_eq (Nat.le_refl 32) word.toNat
  rwa [BitVec.ofNat_toNat, BitVec.setWidth_eq] at eq

/-- The two words of the length, of which the high one is made of the count of blocks. -/
theorem length_field {nblocks : BitVec 64} {blocks : Nat}
    (counted : nblocks = BitVec.ofNat 64 blocks) {num : Nat} (room : num < 64) :
    putu32 (nblocks >>> 23) ++ putu32 ((nblocks <<< 9) + BitVec.ofNat 64 (num <<< 3)) =
      beBytes 8 (8 * (blocks * 64 + num)) := by
  have low : (nblocks <<< 9) + BitVec.ofNat 64 (num <<< 3) =
      BitVec.ofNat 64 (8 * (blocks * 64 + num)) := by
    rw [counted]
    apply BitVec.eq_of_toNat_eq
    simp only [BitVec.toNat_add, BitVec.toNat_shiftLeft, BitVec.toNat_ofNat, Nat.shiftLeft_eq]
    omega
  have inside : ∀ shift ∈ [24, 16, 8, 0], 23 + shift + 8 ≤ 64 := by decide
  have high : putu32 (nblocks >>> 23) = beBytes 4 (8 * (blocks * 64 + num) / 2 ^ 32) := by
    have bytes := List.map_congr_left fun shift member => ofNat_byte blocks (inside shift member)
    simp only [putu32, ← BitVec.shiftRight_add, counted]
    rw [bytes]
    have part (shift : Nat) : 8 * (blocks * 64 + num) / 2 ^ 32 / 2 ^ shift =
        blocks / 2 ^ (23 + shift) := by
      have count : 8 * (blocks * 64 + num) / 2 ^ 9 = blocks := by omega
      rw [Nat.div_div_eq_div_mul, show 2 ^ 32 * 2 ^ shift = 2 ^ 9 * 2 ^ (23 + shift) by
        rw [← Nat.pow_add, ← Nat.pow_add]; congr 1; omega, ← Nat.div_div_eq_div_mul, count]
    simp only [← part]
    simp [beBytes, Nat.div_div_eq_div_mul]
  rw [high, low, putu32_eq (by decide)]
  simp [beBytes, Nat.div_div_eq_div_mul]

/-- The length behind the zeros. -/
theorem overwrite_last {block hi lo : List UInt8} {position count : Nat}
    (whole : block.length = 64) (inside : position + count = 56) (hiFour : hi.length = 4)
    (loFour : lo.length = 4) :
    overwrite (overwrite (overwrite block position (List.replicate count 0)) 56 hi) 60 lo =
      block.take position ++ List.replicate count 0 ++ (hi ++ lo) := by
  have zeros : (List.replicate count (0 : UInt8)).length = count := List.length_replicate
  have first : overwrite (overwrite block position (List.replicate count 0)) 56 hi =
      overwrite block position (List.replicate count 0 ++ hi) := by
    rw [← overwrite_append (by rw [zeros]; omega), zeros, inside]
  have both : position + (List.replicate count 0 ++ hi).length = 60 := by
    rw [List.length_append, zeros, hiFour]
    omega
  have second := overwrite_append (show _ ≤ block.length by rw [both, whole]; decide) lo
  rw [both] at second
  rw [first, second, overwrite_of_length (by
    rw [List.length_append, List.length_append, zeros, hiFour, loFour]
    omega)]
  simp only [List.append_assoc]

theorem marked_take (ctx : HashState) :
    (ctx.block.set ctx.num 0x80).take (ctx.num + 1) = ctx.block.take ctx.num ++ [0x80] := by
  rw [set_eq_overwrite (by rw [ctx.block_length]; exact ctx.num_lt)]
  exact take_overwrite (by rw [ctx.block_length]; exact ctx.num_lt.le) [0x80]

/-- The padded message gives the digest of the standard. -/
theorem sm3Done_eq {ctx : HashState} {message : List UInt8} (holds : Holds ctx message) :
    sm3Done ctx = Lib.Sm3.sm3 message := by
  obtain ⟨blocks, absorbed, counted⟩ := holds
  have room := ctx.num_lt
  have pending := length_pending ctx
  have total : message.length = blocks * 64 + ctx.num := by
    have := absorbed.length
    rwa [pending] at this
  have field := length_field counted room
  rw [← total] at field
  have whole : (ctx.block.set ctx.num 0x80).length = 64 := by rw [List.length_set, ctx.block_length]
  have one {digest : Vector Word 8} {block : List UInt8} (full : block.length = 64) :
      Registers.ofVector (compressBlocks digest block 1) =
        Lib.Sm3.compress (Registers.ofVector digest) block := by
    rw [ofVector_compressBlocks _ full.ge, Lib.Sm3.hash.chain_one full, Lib.Sm3.hash_compress]
  have hiFour : (putu32 (ctx.nblocks >>> 23)).length = 4 := rfl
  have loFour : (putu32 ((ctx.nblocks <<< 9) + BitVec.ofNat 64 (ctx.num <<< 3))).length = 4 := rfl
  have fieldLength := congrArg List.length field
  rw [List.length_append, hiFour, loFour] at fieldLength
  simp only [sm3Done, Lib.Sm3.sm3]
  rw [← Registers.bytes_ofVector putu32_word]
  congr 1
  by_cases fits : ctx.num + 9 ≤ 64
  · have padded : sm3Pad ctx = _ := if_pos fits
    rw [padded, overwrite_last whole (by omega) hiFour loFour, marked_take, field, one
      (by
        simp only [List.length_append, List.length_replicate, pending, List.length_singleton,
          ← fieldLength]
        omega),
      absorbed.finish_short (by rw [pending]; exact fits), pending]
    have count : Lib.Sm3.hash.size - Lib.Sm3.hash.width - (ctx.num + 1) = 64 - ctx.num - 9 := by
      change 64 - 8 - (ctx.num + 1) = _
      omega
    rw [count]
    simp only [List.append_assoc, List.singleton_append]
    rfl
  · have padded : sm3Pad ctx = _ := if_neg fits
    have first : overwrite (ctx.block.set ctx.num 0x80) (ctx.num + 1)
        (List.replicate (64 - ctx.num - 1) 0) =
        ctx.block.take ctx.num ++ [0x80] ++ List.replicate (64 - ctx.num - 1) 0 := by
      rw [overwrite_of_length (by rw [List.length_replicate, whole]; omega), marked_take]
    have firstLength : (ctx.block.take ctx.num ++ [0x80] ++
        List.replicate (64 - ctx.num - 1) 0).length = 64 := by
      simp only [List.length_append, List.length_replicate, pending, List.length_singleton]
      omega
    rw [padded, first, overwrite_last firstLength (by decide) hiFour loFour, field, one
      (by
        rw [List.length_append, ← fieldLength]
        rfl), one firstLength,
      absorbed.finish_long (by rw [pending]; change 64 < _ + 8; omega), pending]
    have count : Lib.Sm3.hash.size - (ctx.num + 1) = 64 - ctx.num - 1 := by
      change 64 - (ctx.num + 1) = _
      omega
    rw [count]
    simp only [List.append_assoc, List.singleton_append]
    rfl

/-! ## Digests -/

/-- A message may be handed over in any parts: the digest is the one of the whole. -/
theorem sm3_chunks (chunks : List (List UInt8)) :
    sm3Done (chunks.foldl sm3Process sm3Init) = Lib.Sm3.sm3 chunks.flatten := by
  have holds := BlockHash.absorbed_chunks (fun message ctx => Holds ctx message)
    (fun holds chunk => sm3Process_holds holds chunk) sm3Init_holds chunks
  rw [sm3Done_eq holds, List.nil_append]

end Zsbl.Libs.Sm3
