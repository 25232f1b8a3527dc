/-
Module: Zsbl.Libs.Sm3
Purpose: SM3 of lib/hash/sm3.c, and the digests that sign for a user of it.
Trusted boundary: none
Main exports:
  compressBlocks, HashState, sm3Init, sm3Process, sm3Done, doSm3, calculateHmsg, calculateZa
-/
import Zsbl.Lib.Rounds
import Zsbl.Libs.Ec

namespace Zsbl.Libs.Sm3

open Zsbl.Lib

/-! ## Macros -/

def getu32 (p : List UInt8) : Word :=
  BitVec.ofNat 32 (p.getD 0 0).toNat <<< 24 ||| BitVec.ofNat 32 (p.getD 1 0).toNat <<< 16 |||
    BitVec.ofNat 32 (p.getD 2 0).toNat <<< 8 ||| BitVec.ofNat 32 (p.getD 3 0).toNat

def putu32 {width : Nat} (v : BitVec width) : List UInt8 :=
  [24, 16, 8, 0].map fun shift => UInt8.ofNat (v >>> shift).toNat

def rol (x : Word) (y : Nat) : Word :=
  ((x <<< (y &&& 31)) ||| ((x &&& 0xFFFFFFFF) >>> ((32 - (y &&& 31)) &&& 31))) &&& 0xFFFFFFFF

def p0 (x : Word) : Word := x ^^^ rol x 9 ^^^ rol x 17

def p1 (x : Word) : Word := x ^^^ rol x 15 ^^^ rol x 23

def ff00 (x y z : Word) : Word := x ^^^ y ^^^ z

def ff16 (x y z : Word) : Word := (x &&& y) ||| (x &&& z) ||| (y &&& z)

def gg00 (x y z : Word) : Word := x ^^^ y ^^^ z

def gg16 (x y z : Word) : Word := ((y ^^^ z) &&& x) ^^^ z

/-! ## Compression -/

def K : List Word := [
  0x79cc4519, 0xf3988a32, 0xe7311465, 0xce6228cb, 0x9cc45197, 0x3988a32f, 0x7311465e, 0xe6228cbc,
  0xcc451979, 0x988a32f3, 0x311465e7, 0x6228cbce, 0xc451979c, 0x88a32f39, 0x11465e73, 0x228cbce6,
  0x9d8a7a87, 0x3b14f50f, 0x7629ea1e, 0xec53d43c, 0xd8a7a879, 0xb14f50f3, 0x629ea1e7, 0xc53d43ce,
  0x8a7a879d, 0x14f50f3b, 0x29ea1e76, 0x53d43cec, 0xa7a879d8, 0x4f50f3b1, 0x9ea1e762, 0x3d43cec5,
  0x7a879d8a, 0xf50f3b14, 0xea1e7629, 0xd43cec53, 0xa879d8a7, 0x50f3b14f, 0xa1e7629e, 0x43cec53d,
  0x879d8a7a, 0x0f3b14f5, 0x1e7629ea, 0x3cec53d4, 0x79d8a7a8, 0xf3b14f50, 0xe7629ea1, 0xcec53d43,
  0x9d8a7a87, 0x3b14f50f, 0x7629ea1e, 0xec53d43c, 0xd8a7a879, 0xb14f50f3, 0x629ea1e7, 0xc53d43ce,
  0x8a7a879d, 0x14f50f3b, 0x29ea1e76, 0x53d43cec, 0xa7a879d8, 0x4f50f3b1, 0x9ea1e762, 0x3d43cec5]

/-- The two boolean functions that `R` gets through the end of their names. -/
structure Kind where
  ff : Word → Word → Word → Word
  gg : Word → Word → Word → Word

def kind00 : Kind := ⟨ff00, gg00⟩

def kind16 : Kind := ⟨ff16, gg16⟩

/-- The variables `A` to `H`, and the round. -/
structure Vars where
  regs : Vector Word 8
  j : Nat

def R (xx : Kind) (W : List Word) (vars : Vars) (A B C D E F G H : Fin 8) : Vars :=
  let v := vars.regs
  let j := vars.j
  let SS1 := rol (rol (v.get A) 12 + v.get E + K.getD j 0) 7
  let SS2 := SS1 ^^^ rol (v.get A) 12
  let TT1 := xx.ff (v.get A) (v.get B) (v.get C) + v.get D + SS2 +
    (W.getD j 0 ^^^ W.getD (j + 4) 0)
  let TT2 := xx.gg (v.get E) (v.get F) (v.get G) + v.get H + SS1 + W.getD j 0
  let v := put v B (rol (v.get B) 9)
  let v := put v H TT1
  let v := put v F (rol (v.get F) 19)
  let v := put v D (p0 TT2)
  ⟨v, j + 1⟩

def R8 (xx : Kind) (W : List Word) (vars : Vars) (A B C D E F G H : Fin 8) : Vars :=
  let vars := R xx W vars A B C D E F G H
  let vars := R xx W vars H A B C D E F G
  let vars := R xx W vars G H A B C D E F
  let vars := R xx W vars F G H A B C D E
  let vars := R xx W vars E F G H A B C D
  let vars := R xx W vars D E F G H A B C
  let vars := R xx W vars C D E F G H A B
  R xx W vars B C D E F G H A

/-- The word of `W` behind the ones there are. -/
def nextW (W : List Word) : Word :=
  let j := W.length
  p1 (W.getD (j - 16) 0 ^^^ W.getD (j - 9) 0 ^^^ rol (W.getD (j - 3) 0) 15) ^^^
    rol (W.getD (j - 13) 0) 7 ^^^ W.getD (j - 6) 0

/-- A turn of the loop of `sm3_compress_blocks`. -/
def compressBlock (digest : Vector Word 8) (data : List UInt8) : Vector Word 8 :=
  let W := extend nextW 52 ((List.range 16).map fun j => getu32 (data.drop (j * 4)))
  let vars := R8 kind00 W ⟨digest, 0⟩ 0 1 2 3 4 5 6 7
  let vars := R8 kind00 W vars 0 1 2 3 4 5 6 7
  let vars := R8 kind16 W vars 0 1 2 3 4 5 6 7
  let vars := R8 kind16 W vars 0 1 2 3 4 5 6 7
  let vars := R8 kind16 W vars 0 1 2 3 4 5 6 7
  let vars := R8 kind16 W vars 0 1 2 3 4 5 6 7
  let vars := R8 kind16 W vars 0 1 2 3 4 5 6 7
  let vars := R8 kind16 W vars 0 1 2 3 4 5 6 7
  Vector.zipWith (· ^^^ ·) digest vars.regs

/-- `sm3_compress_blocks`. -/
def compressBlocks (digest : Vector Word 8) (data : List UInt8) : Nat → Vector Word 8
  | 0 => digest
  | blocks + 1 => compressBlocks (compressBlock digest data) (data.drop 64) blocks

/-! ## Messages -/

/-- `struct sm3_state`. -/
structure HashState where
  digest : Vector Word 8
  nblocks : BitVec 64
  block : List UInt8
  num : Nat
  block_length : block.length = 64
  num_lt : num < 64

def sm3Init : HashState where
  digest := #v[0x7380166F, 0x4914B2B9, 0x172442D7, 0xDA8A0600, 0xA96F30BC, 0x163138AA, 0xE38DEE4D,
    0xB0FB0E4E]
  nblocks := 0
  block := List.replicate 64 0
  num := 0
  block_length := List.length_replicate
  num_lt := by decide

/-- `sm3_process` from where the block is empty. -/
def processBlocks (ctx : HashState) (data : List UInt8) : HashState :=
  let blocks := data.length / 64
  have rest : (data.drop (64 * blocks)).length < 64 := by
    rw [List.length_drop]
    omega
  { digest := compressBlocks ctx.digest data blocks
    nblocks := ctx.nblocks + BitVec.ofNat 64 blocks
    block := overwrite ctx.block 0 (data.drop (64 * blocks))
    num := (data.drop (64 * blocks)).length
    block_length := by
      rw [length_overwrite (by rw [ctx.block_length]; omega), ctx.block_length]
    num_lt := rest }

def sm3Process (ctx : HashState) (data : List UInt8) : HashState :=
  if ctx.num = 0 then processBlocks ctx data
  else
    let left := 64 - ctx.num
    have inside (size : Nat) (le : size ≤ left) : ctx.num + (data.take size).length ≤ 64 := by
      have := ctx.num_lt
      rw [List.length_take]
      omega
    if short : data.length < left then
      { ctx with
        block := overwrite ctx.block ctx.num data
        num := ctx.num + data.length
        block_length := by
          rw [length_overwrite (by rw [ctx.block_length]; omega), ctx.block_length]
        num_lt := by omega }
    else
      let block := overwrite ctx.block ctx.num (data.take left)
      processBlocks { ctx with
        digest := compressBlocks ctx.digest block 1
        block := block
        nblocks := ctx.nblocks + 1
        block_length := by
          rw [length_overwrite (by rw [ctx.block_length]; exact inside left (Nat.le_refl _)),
            ctx.block_length] } (data.drop left)

/-- The end of the message is marked, and zeros fill the room up to the length, which is in
the next block where there is not enough. -/
def sm3Pad (ctx : HashState) : Vector Word 8 × List UInt8 :=
  let block := ctx.block.set ctx.num 0x80
  if ctx.num + 9 ≤ 64 then
    (ctx.digest, overwrite block (ctx.num + 1) (List.replicate (64 - ctx.num - 9) 0))
  else
    let block := overwrite block (ctx.num + 1) (List.replicate (64 - ctx.num - 1) 0)
    (compressBlocks ctx.digest block 1, overwrite block 0 (List.replicate (64 - 8) 0))

def sm3Done (ctx : HashState) : List UInt8 :=
  let padded := sm3Pad ctx
  let block := overwrite padded.2 56 (putu32 (ctx.nblocks >>> 23))
  let block := overwrite block 60 (putu32 ((ctx.nblocks <<< 9) + BitVec.ofNat 64 (ctx.num <<< 3)))
  (compressBlocks padded.1 block 1).toList.flatMap putu32

def doSm3 (msg : List UInt8) : List UInt8 := sm3Done (sm3Process sm3Init msg)

def calculateHmsg (za msg : List UInt8) : List UInt8 :=
  sm3Done (sm3Process (sm3Process sm3Init za) msg)

def calculateZa (pubx puby : List UInt8) : List UInt8 :=
  let idLength := userId.length * 8
  let entl := [UInt8.ofNat (idLength >>> 8), UInt8.ofNat (idLength &&& 0xFF)]
  let md := sm3Process sm3Init entl
  let md := sm3Process md userId
  let md := sm3Process md sm2p256v1A
  let md := sm3Process md sm2p256v1B
  let md := sm3Process md sm2p256v1Gx
  let md := sm3Process md sm2p256v1Gy
  let md := sm3Process md pubx
  let md := sm3Process md puby
  sm3Done md

end Zsbl.Libs.Sm3
