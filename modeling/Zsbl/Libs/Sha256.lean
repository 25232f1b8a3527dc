/-
Module: Zsbl.Libs.Sha256
Purpose: SHA-256 of lib/hash/sha256.c.
Trusted boundary: none
Main exports:
  CryptErr, HashState, compress, sha256Init, sha256Process, sha256Done, doSha256
-/
import Zsbl.Lib.Bytes
import Zsbl.Lib.Rounds

namespace Zsbl.Libs.Sha256

open Zsbl.Lib

/-! ## Macros -/

def load32H (y : List UInt8) : Word :=
  BitVec.ofNat 32 (y.getD 0 0).toNat <<< 24 ||| BitVec.ofNat 32 (y.getD 1 0).toNat <<< 16 |||
    BitVec.ofNat 32 (y.getD 2 0).toNat <<< 8 ||| BitVec.ofNat 32 (y.getD 3 0).toNat

def store32H (x : Word) : List UInt8 :=
  [24, 16, 8, 0].map fun shift => UInt8.ofNat ((x >>> shift) &&& 255).toNat

def store64H (x : BitVec 64) : List UInt8 :=
  [56, 48, 40, 32, 24, 16, 8, 0].map fun shift => UInt8.ofNat ((x >>> shift) &&& 255).toNat

def ror (x : Word) (y : Nat) : Word :=
  (((x &&& 0xFFFFFFFF) >>> (y &&& 31)) ||| (x <<< ((32 - (y &&& 31)) &&& 31))) &&& 0xFFFFFFFF

def ch (x y z : Word) : Word := z ^^^ (x &&& (y ^^^ z))

def maj (x y z : Word) : Word := ((x ||| y) &&& z) ||| (x &&& y)

def shr (x : Word) (n : Nat) : Word := (x &&& 0xFFFFFFFF) >>> n

def bigSigma0 (x : Word) : Word := ror x 2 ^^^ ror x 13 ^^^ ror x 22

def bigSigma1 (x : Word) : Word := ror x 6 ^^^ ror x 11 ^^^ ror x 25

def gamma0 (x : Word) : Word := ror x 7 ^^^ ror x 18 ^^^ shr x 3

def gamma1 (x : Word) : Word := ror x 17 ^^^ ror x 19 ^^^ shr x 10

/-! ## Compression -/

/-- The arguments of an `RND`. -/
structure Rnd where
  a : Fin 8
  b : Fin 8
  c : Fin 8
  d : Fin 8
  e : Fin 8
  f : Fin 8
  g : Fin 8
  h : Fin 8
  i : Nat
  ki : Word
deriving DecidableEq

def rnd (W : List Word) (S : Vector Word 8) (call : Rnd) : Vector Word 8 :=
  let t0 := S.get call.h + bigSigma1 (S.get call.e) +
    ch (S.get call.e) (S.get call.f) (S.get call.g) + call.ki + W.getD call.i 0
  let t1 := bigSigma0 (S.get call.a) + maj (S.get call.a) (S.get call.b) (S.get call.c)
  let S := put S call.d (S.get call.d + t0)
  put S call.h (t0 + t1)

def rounds : List Rnd := [
  ⟨0, 1, 2, 3, 4, 5, 6, 7, 0, 0x428a2f98⟩,
  ⟨7, 0, 1, 2, 3, 4, 5, 6, 1, 0x71374491⟩,
  ⟨6, 7, 0, 1, 2, 3, 4, 5, 2, 0xb5c0fbcf⟩,
  ⟨5, 6, 7, 0, 1, 2, 3, 4, 3, 0xe9b5dba5⟩,
  ⟨4, 5, 6, 7, 0, 1, 2, 3, 4, 0x3956c25b⟩,
  ⟨3, 4, 5, 6, 7, 0, 1, 2, 5, 0x59f111f1⟩,
  ⟨2, 3, 4, 5, 6, 7, 0, 1, 6, 0x923f82a4⟩,
  ⟨1, 2, 3, 4, 5, 6, 7, 0, 7, 0xab1c5ed5⟩,
  ⟨0, 1, 2, 3, 4, 5, 6, 7, 8, 0xd807aa98⟩,
  ⟨7, 0, 1, 2, 3, 4, 5, 6, 9, 0x12835b01⟩,
  ⟨6, 7, 0, 1, 2, 3, 4, 5, 10, 0x243185be⟩,
  ⟨5, 6, 7, 0, 1, 2, 3, 4, 11, 0x550c7dc3⟩,
  ⟨4, 5, 6, 7, 0, 1, 2, 3, 12, 0x72be5d74⟩,
  ⟨3, 4, 5, 6, 7, 0, 1, 2, 13, 0x80deb1fe⟩,
  ⟨2, 3, 4, 5, 6, 7, 0, 1, 14, 0x9bdc06a7⟩,
  ⟨1, 2, 3, 4, 5, 6, 7, 0, 15, 0xc19bf174⟩,
  ⟨0, 1, 2, 3, 4, 5, 6, 7, 16, 0xe49b69c1⟩,
  ⟨7, 0, 1, 2, 3, 4, 5, 6, 17, 0xefbe4786⟩,
  ⟨6, 7, 0, 1, 2, 3, 4, 5, 18, 0x0fc19dc6⟩,
  ⟨5, 6, 7, 0, 1, 2, 3, 4, 19, 0x240ca1cc⟩,
  ⟨4, 5, 6, 7, 0, 1, 2, 3, 20, 0x2de92c6f⟩,
  ⟨3, 4, 5, 6, 7, 0, 1, 2, 21, 0x4a7484aa⟩,
  ⟨2, 3, 4, 5, 6, 7, 0, 1, 22, 0x5cb0a9dc⟩,
  ⟨1, 2, 3, 4, 5, 6, 7, 0, 23, 0x76f988da⟩,
  ⟨0, 1, 2, 3, 4, 5, 6, 7, 24, 0x983e5152⟩,
  ⟨7, 0, 1, 2, 3, 4, 5, 6, 25, 0xa831c66d⟩,
  ⟨6, 7, 0, 1, 2, 3, 4, 5, 26, 0xb00327c8⟩,
  ⟨5, 6, 7, 0, 1, 2, 3, 4, 27, 0xbf597fc7⟩,
  ⟨4, 5, 6, 7, 0, 1, 2, 3, 28, 0xc6e00bf3⟩,
  ⟨3, 4, 5, 6, 7, 0, 1, 2, 29, 0xd5a79147⟩,
  ⟨2, 3, 4, 5, 6, 7, 0, 1, 30, 0x06ca6351⟩,
  ⟨1, 2, 3, 4, 5, 6, 7, 0, 31, 0x14292967⟩,
  ⟨0, 1, 2, 3, 4, 5, 6, 7, 32, 0x27b70a85⟩,
  ⟨7, 0, 1, 2, 3, 4, 5, 6, 33, 0x2e1b2138⟩,
  ⟨6, 7, 0, 1, 2, 3, 4, 5, 34, 0x4d2c6dfc⟩,
  ⟨5, 6, 7, 0, 1, 2, 3, 4, 35, 0x53380d13⟩,
  ⟨4, 5, 6, 7, 0, 1, 2, 3, 36, 0x650a7354⟩,
  ⟨3, 4, 5, 6, 7, 0, 1, 2, 37, 0x766a0abb⟩,
  ⟨2, 3, 4, 5, 6, 7, 0, 1, 38, 0x81c2c92e⟩,
  ⟨1, 2, 3, 4, 5, 6, 7, 0, 39, 0x92722c85⟩,
  ⟨0, 1, 2, 3, 4, 5, 6, 7, 40, 0xa2bfe8a1⟩,
  ⟨7, 0, 1, 2, 3, 4, 5, 6, 41, 0xa81a664b⟩,
  ⟨6, 7, 0, 1, 2, 3, 4, 5, 42, 0xc24b8b70⟩,
  ⟨5, 6, 7, 0, 1, 2, 3, 4, 43, 0xc76c51a3⟩,
  ⟨4, 5, 6, 7, 0, 1, 2, 3, 44, 0xd192e819⟩,
  ⟨3, 4, 5, 6, 7, 0, 1, 2, 45, 0xd6990624⟩,
  ⟨2, 3, 4, 5, 6, 7, 0, 1, 46, 0xf40e3585⟩,
  ⟨1, 2, 3, 4, 5, 6, 7, 0, 47, 0x106aa070⟩,
  ⟨0, 1, 2, 3, 4, 5, 6, 7, 48, 0x19a4c116⟩,
  ⟨7, 0, 1, 2, 3, 4, 5, 6, 49, 0x1e376c08⟩,
  ⟨6, 7, 0, 1, 2, 3, 4, 5, 50, 0x2748774c⟩,
  ⟨5, 6, 7, 0, 1, 2, 3, 4, 51, 0x34b0bcb5⟩,
  ⟨4, 5, 6, 7, 0, 1, 2, 3, 52, 0x391c0cb3⟩,
  ⟨3, 4, 5, 6, 7, 0, 1, 2, 53, 0x4ed8aa4a⟩,
  ⟨2, 3, 4, 5, 6, 7, 0, 1, 54, 0x5b9cca4f⟩,
  ⟨1, 2, 3, 4, 5, 6, 7, 0, 55, 0x682e6ff3⟩,
  ⟨0, 1, 2, 3, 4, 5, 6, 7, 56, 0x748f82ee⟩,
  ⟨7, 0, 1, 2, 3, 4, 5, 6, 57, 0x78a5636f⟩,
  ⟨6, 7, 0, 1, 2, 3, 4, 5, 58, 0x84c87814⟩,
  ⟨5, 6, 7, 0, 1, 2, 3, 4, 59, 0x8cc70208⟩,
  ⟨4, 5, 6, 7, 0, 1, 2, 3, 60, 0x90befffa⟩,
  ⟨3, 4, 5, 6, 7, 0, 1, 2, 61, 0xa4506ceb⟩,
  ⟨2, 3, 4, 5, 6, 7, 0, 1, 62, 0xbef9a3f7⟩,
  ⟨1, 2, 3, 4, 5, 6, 7, 0, 63, 0xc67178f2⟩]

/-- The word of `W` behind the ones there are. -/
def nextW (W : List Word) : Word :=
  let i := W.length
  gamma1 (W.getD (i - 2) 0) + W.getD (i - 7) 0 + gamma0 (W.getD (i - 15) 0) + W.getD (i - 16) 0

/-- `s_sha256_compress`. -/
def compress (state : Vector Word 8) (buf : List UInt8) : Vector Word 8 :=
  let W := extend nextW 48 ((List.range 16).map fun i => load32H (buf.drop (4 * i)))
  let S := rounds.foldl (rnd W) state
  Vector.zipWith (· + ·) state S

/-! ## Messages -/

inductive CryptErr where
  | invalidArg
  | hashOverflow
deriving DecidableEq

/-- `struct sha256_state`. -/
structure HashState where
  length : BitVec 64
  state : Vector Word 8
  curlen : Nat
  buf : List UInt8
  buf_length : buf.length = 64

def initialState : Vector Word 8 :=
  #v[0x6A09E667, 0xBB67AE85, 0x3C6EF372, 0xA54FF53A, 0x510E527F, 0x9B05688C, 0x1F83D9AB,
    0x5BE0CD19]

/-- `sha256_init`; the buffer stays as it is. -/
def sha256Init (md : HashState) : HashState :=
  { md with curlen := 0, length := 0, state := initialState }

/-- A `memcpy` to the buffer behind the bytes in it. -/
def HashState.append (md : HashState) (part : List UInt8) (fits : md.curlen + part.length ≤ 64) :
    HashState :=
  { md with
    buf := overwrite md.buf md.curlen part
    buf_length := by rw [length_overwrite (by rwa [md.buf_length]), md.buf_length]
    curlen := md.curlen + part.length }

/-- A block is behind the others; the length counts it. -/
def HashState.block (md : HashState) (block : List UInt8) : HashState :=
  { md with state := compress md.state block, length := md.length + 512 }

@[simp] theorem HashState.block_curlen (md : HashState) (block : List UInt8) :
    (md.block block).curlen = md.curlen := by
  simp only [HashState.block]

/-- The loop of `HASH_PROCESS`. -/
def absorb (md : HashState) (small : md.curlen ≤ 64) (input : List UInt8) : HashState :=
  if more : input = [] then md
  else if md.curlen = 0 ∧ 64 ≤ input.length then
    absorb (md.block (input.take 64)) (by rwa [HashState.block_curlen]) (input.drop 64)
  else
    let n := min input.length (64 - md.curlen)
    have fits : md.curlen + (input.take n).length ≤ 64 := by
      rw [List.length_take]
      omega
    let filled := md.append (input.take n) fits
    if filled.curlen = 64 then
      absorb { filled.block filled.buf with curlen := 0 } (Nat.zero_le _) (input.drop n)
    else absorb filled fits (input.drop n)
termination_by 2 * input.length + if md.curlen = 64 then 1 else 0
decreasing_by
  · have _positive := List.length_pos_iff.mpr more
    rw [HashState.block_curlen, List.length_drop]
    omega
  · have _positive := List.length_pos_iff.mpr more
    rw [List.length_drop, if_neg (by decide)]
    split <;> omega
  · rename_i partly
    have positive := List.length_pos_iff.mpr more
    simp only [filled, HashState.append, List.length_take, List.length_drop] at partly ⊢
    rw [if_neg partly]
    split <;> omega

/-- `sha256_process`. -/
def sha256Process (md : HashState) (input : List UInt8) : Except CryptErr HashState :=
  if small : md.curlen ≤ 64 then
    if md.length + BitVec.ofNat 64 input.length * 8 < md.length then .error .hashOverflow
    else .ok (absorb md small input)
  else .error .invalidArg

/-- Zeros behind the bytes in the buffer, up to a position. -/
def zeros (md : HashState) (upto : Nat) (inside : upto ≤ 64) : HashState :=
  if room : md.curlen < upto then
    zeros (md.append [0] (by rw [List.length_singleton]; omega)) upto inside
  else md
termination_by upto - md.curlen
decreasing_by
  simp only [HashState.append, List.length_singleton]
  omega

/-- Where the length does not fit behind the bytes in the buffer, a block ends before it. -/
def HashState.wrap (md : HashState) : HashState :=
  if 56 < md.curlen then
    let md := zeros md 64 (by decide)
    { md with state := compress md.state md.buf, curlen := 0 }
  else md

/-- The last block ends with the length. -/
def HashState.finish (md : HashState) : Vector Word 8 :=
  let md := zeros md 56 (by decide)
  compress md.state (overwrite md.buf 56 (store64H md.length))

/-- `sha256_done`. -/
def sha256Done (md : HashState) : Except CryptErr (List UInt8) :=
  if room : md.curlen < 64 then
    let md := { md with length := md.length + BitVec.ofNat 64 (md.curlen * 8) }
    let md := md.append [0x80] room
    .ok (md.wrap.finish.toList.flatMap store32H)
  else .error .invalidArg

/-- `do_sha256`; `md` is what is on the stack. -/
def doSha256 (md : HashState) (msg : List UInt8) : Except CryptErr (List UInt8) := do
  let md ← sha256Process (sha256Init md) msg
  sha256Done md

end Zsbl.Libs.Sha256
