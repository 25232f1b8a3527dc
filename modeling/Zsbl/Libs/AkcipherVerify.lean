/-
Module: Zsbl.Libs.AkcipherVerify
Purpose: The verifications of lib/akcipher/akcipher.c: SM2 up to the driver, with the
  reader of its signatures, and RSA with it.
Trusted boundary: the digests, the SM2 driver, and the accelerator, which are parameters
Main exports:
  getSR, Sm2Stack, Sm2Param, sm2Verify, rsaVerify
-/
import Zsbl.Drivers.PkaAlg
import Zsbl.Lib.Memory
import Zsbl.Libs.Ec

namespace Zsbl.Libs

open Zsbl.Lib

/-! ## Signatures

A signature comes without its length; it is the memory from its first byte on.  A
missing result is a write outside of the two buffers. -/

/-- A buffer on the stack of `sm2_verify`. -/
def buffer : KeyField := ⟨0, 32⟩

/-- How many bytes of an integer `get_s_r` skips. -/
def padding (length : Nat) : Nat := if length = 0x21 then 1 else 0

/-- `get_s_r` from the tag of the second integer on. -/
def getS (sig : Memory) (s r : List UInt8) (pos : Nat) :
    Option (Int × List UInt8 × List UInt8) :=
  if sig pos = 0x02 then do
    let sLen := (sig (pos + 1)).toNat
    let pad := padding sLen
    let pos := pos + 2
    let s ← buffer.fill (fun i => some (sig (pos + i + pad))) (sLen - pad) 0 s
    return (0, s, r)
  else return (0, s, r)

/-- `get_s_r`: what it returns, and the buffers `s` and `r`. -/
def getSR (sig : Memory) (s r : List UInt8) : Option (Int × List UInt8 × List UInt8) :=
  if sig 0 ≠ 0x30 then some (-1, s, r)
  else if sig 2 = 0x02 then do
    let rLen := (sig 3).toNat
    let pad := padding rLen
    let r ← buffer.fill (fun i => some (sig (4 + i + pad))) (rLen - pad) 0 r
    getS sig s r (4 + rLen)
  else getS sig s r 4

/-! ## SM2 -/

/-- What the variables of `sm2_verify` hold before it gives them a value. -/
structure Sm2Stack where
  pubx : Vector UInt8 32
  puby : Vector UInt8 32
  s : Vector UInt8 32
  r : Vector UInt8 32

/-- The part of `struct ecc_ctx` that `sm2_verify` fills in for the driver. -/
structure Sm2Param where
  size : Option Int
  e : List UInt8
  pubx : List UInt8
  puby : List UInt8
  r : List UInt8
  s : List UInt8
  cofactor : Nat

/-- What `sm2_verify` hands to the driver; nothing when it returns -1 before. -/
def sm2Param (digests : Digests) (ctx : AkcipherCtx) (stack : Sm2Stack) (msg : List UInt8)
    (sig : Memory) : Option (Option Sm2Param) := do
  let za := calculateZa digests stack.pubx.toList stack.puby.toList
  let hmsg := calculateHmsg digests za msg
  let (failed, s, r) ← getSR sig stack.s.toList stack.r.toList
  if failed ≠ 0 then return none
  return some {
    size := ctx.keyLen
    e := hmsg.toList
    pubx := pubx.read ctx.key
    puby := puby.read ctx.key
    r, s
    cofactor := 1 }

/-- `sm2_verify` with the algorithm that is registered, if any is. -/
def sm2Verify (digests : Digests) (alg : Option (Sm2Param → Int)) (ctx : AkcipherCtx)
    (stack : Sm2Stack) (msg : List UInt8) (sig : Memory) : Option Int :=
  match alg with
  | none => some (-1)
  | some verify => do
      let some param ← sm2Param digests ctx stack msg sig | return -1
      return if verify param ≠ 0 then -1 else 0

/-! ## RSA -/

/-- `rsa_verify` with the accelerator that is registered, if any is.  The context has
its union at the address `key`, and `y` is the array on the stack. -/
def rsaVerify (digests : Digests) (alg : Option Drivers.Pka) (ctx : AkcipherCtx)
    (key y : Nat) (msg : List UInt8) (sig : Nat) (dev : Drivers.PkaDev) (memory : Memory) :
    Option (Int × Drivers.PkaDev × Memory) :=
  match alg with
  | none => some (-1, dev, memory)
  | some pka => do
      let hmsg := digests.sha256 msg
      let keyLen ← ctx.keyLen
      let param : Drivers.RsaCtx := {
        size := (keyLen % 2 ^ 32).toNat
        x := sig
        m := key + modulus.start
        e := key + exponent.start
        y }
      let (ret, dev, memory) ← Drivers.rsaVerify pka param dev memory
      if ret ≠ 0 then return (-1, dev, memory)
      let ret := memcmp hmsg.toList (fetch memory (y + (256 - 32)) 32)
      return (if ret ≠ 0 then -1 else 0, dev, memory)

end Zsbl.Libs
