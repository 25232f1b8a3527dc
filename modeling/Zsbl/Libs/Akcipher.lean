/-
Module: Zsbl.Libs.Akcipher
Purpose: The public key reader of lib/akcipher/akcipher.c.
Trusted boundary: the digests, which are parameters
Main exports:
  Alg, AkcipherCtx, parseSeqLength, parseAlgOid, extractRsaKey, extractSm2Key,
  pubkeyVerify, akcipherInvokeKeyIn, akcipherInvokeKey
-/
import Zsbl.Include.Libc
import Zsbl.Lib.Bytes
import Zsbl.Lib.Der

namespace Zsbl.Libs

open Zsbl.Lib

inductive Alg where
  | rsa
  | sm2
deriving DecidableEq, Repr

/-- `rsa_oid` and `sm2_oid`. -/
def Alg.oid : Alg → List UInt8
  | .rsa => [0x06, 0x09, 0x2a, 0x86, 0x48, 0x86, 0xf7, 0x0d, 0x01, 0x01, 0x01, 0x05, 0x00]
  | .sm2 => [0x06, 0x08, 0x2a, 0x81, 0x1c, 0xcf, 0x55, 0x01, 0x82, 0x2d,
      0x06, 0x08, 0x2a, 0x81, 0x1c, 0xcf, 0x55, 0x01, 0x82, 0x2d]

/-- `struct akcipher_ctx`; `key` is the memory of the union.  A missing `keyLen` is
one that was copied from an uninitialised variable. -/
structure AkcipherCtx where
  alg : Alg
  keyLen : Option Int
  key : List UInt8
deriving DecidableEq, Repr

/-- An array in the union. -/
structure KeyField where
  start : Nat
  size : Nat

def modulus : KeyField := ⟨0, 256⟩

def exponent : KeyField := ⟨256, 256⟩

def pubx : KeyField := ⟨0, 32⟩

def puby : KeyField := ⟨32, 32⟩

/-- The array as the union holds it. -/
def KeyField.read (field : KeyField) (key : List UInt8) : List UInt8 :=
  (key.drop field.start).take field.size

/-! ## Memory

A missing result is an access outside of the file or of the array. -/

def KeyField.write (field : KeyField) (key : List UInt8) (i : Nat) (byte : UInt8) :
    Option (List UInt8) :=
  if i < field.size then some (key.set (field.start + i) byte) else none

/-- A loop that gives `count` elements of an array their values. -/
def KeyField.fill (field : KeyField) (value : Nat → Option UInt8) :
    Nat → Nat → List UInt8 → Option (List UInt8)
  | 0, _, key => some key
  | count + 1, i, key => do
      let byte ← value i
      let key ← field.write key i byte
      field.fill value count (i + 1) key

/-! ## Lengths and identifiers -/

def cmpAlgOid : List UInt8 → List UInt8 → Option Bool
  | _, [] => some true
  | [], _ :: _ => none
  | byte :: data, char :: oid => if byte ≠ char then some false else cmpAlgOid data oid

/-- The loop of `parse_seq_length`. -/
def lengthLoop : Nat → List UInt8 → BitVec 32 → Option (BitVec 32)
  | 0, _, ctxLen => some ctxLen
  | _ + 1, [], _ => none
  | count + 1, byte :: data, ctxLen =>
      lengthLoop count data (ctxLen <<< 8 ||| byte.toBitVec.setWidth 32)

/-- `parse_seq_length`: what it returns, and `*ctx_len`, which is missing where the
pointer is. -/
def parseSeqLength (data : List UInt8) (ctxLen : Option (BitVec 32)) :
    Option (Nat × BitVec 32) := do
  let first ← data[0]?
  if first &&& 0x80 ≠ 0 then
    let lengthBytes := (first &&& 0x7f).toNat
    match ctxLen with
    | none => return (1 + lengthBytes, 0)
    | some ctxLen =>
        let ctxLen ← lengthLoop lengthBytes (data.drop 1) ctxLen
        return (1 + lengthBytes, ctxLen)
  else
    match ctxLen with
    | none => return (1, 0)
    | some _ => return (1, first.toBitVec.setWidth 32)

/-- `parse_alg_oid`; the inner option is its return value and `*flag`. -/
def parseAlgOid (data : List UInt8) (len : Nat) : Option (Option Alg) :=
  match len with
  | 13 => do
      let same ← cmpAlgOid data Alg.rsa.oid
      return if same then some .rsa else none
  | 20 => do
      let same ← cmpAlgOid data Alg.sm2.oid
      return if same then some .sm2 else none
  | _ => some none

/-! ## Keys -/

/-- What an extractor returns, the union, and `*modulus_length` if it was written. -/
structure Extracted where
  ret : Int
  key : List UInt8
  modulusLength : Option (BitVec 32)
deriving DecidableEq, Repr

/-- The loop over leading zeros, with the offset and `*modulus_length`. -/
def stripZeros : List UInt8 → Nat → BitVec 32 → Option (Nat × BitVec 32)
  | [], _, _ => none
  | byte :: data, offset, modulusLength =>
      if byte = 0 then stripZeros data (offset + 1) (modulusLength - 1)
      else some (offset, modulusLength)

/-- `extract_rsa_key` from the head of the exponent on. -/
def extractExponent (key data : List UInt8) (offset : Nat) (modulusLength : BitVec 32) :
    Option Extracted := do
  if (← data[offset]?) ≠ 0x02 then return ⟨-1, key, some modulusLength⟩
  let offset := offset + 1
  let (size, exponentLength) ← parseSeqLength (data.drop offset) (some 0)
  let offset := offset + size
  let pad := (256 - exponentLength).toNat
  let key ← exponent.fill (fun _ => some 0) pad 0 key
  let key ← exponent.fill (fun i => data[offset + i + exponentLength.toNat - 256]?)
    (256 - pad) pad key
  return ⟨0, key, some modulusLength⟩

def extractRsaKey (key data : List UInt8) : Option Extracted := do
  let offset := 0
  if (← data[offset]?) ≠ 0x30 then return ⟨-1, key, some 0⟩
  let offset := offset + 1
  let (size, _) ← parseSeqLength (data.drop offset) none
  let offset := offset + size
  if (← data[offset]?) ≠ 0x02 then return ⟨-1, key, some 0⟩
  let offset := offset + 1
  let (size, modulusLength) ← parseSeqLength (data.drop offset) (some 0)
  let offset := offset + size
  let (offset, modulusLength) ← stripZeros (data.drop offset) offset modulusLength
  let key ← modulus.fill (fun i => data[offset + i]?) modulusLength.toNat 0 key
  extractExponent key data (offset + modulusLength.toNat) modulusLength

def extractSm2Key (key data : List UInt8) : Option Extracted := do
  if (← data[0]?) ≠ 0x04 then return ⟨-1, key, none⟩
  let key ← pubx.fill (fun i => data[1 + i]?) 32 0 key
  let key ← puby.fill (fun i => data[33 + i]?) 32 0 key
  return ⟨0, key, some 32⟩

/-- `extract_keys`. -/
def extractKey : Alg → List UInt8 → List UInt8 → Option Extracted
  | .rsa => extractRsaKey
  | .sm2 => extractSm2Key

/-! ## Accepting a key -/

abbrev Digest : Type := Vector UInt8 32

/-- `do_sha256` and `do_sm3`. -/
structure Digests where
  sha256 : List UInt8 → Digest
  sm3 : List UInt8 → Digest

def Digests.of (digests : Digests) : Alg → List UInt8 → Digest
  | .rsa => digests.sha256
  | .sm2 => digests.sm3

def pubkeyVerify (digests : Digests) (derHash : Digest) (alg : Alg) (der : List UInt8) : Int :=
  memcmp derHash.toList (digests.of alg der).toList

/-- `akcipher_invoke_key` from the bit string up to the choice of an extractor: the
algorithm and the offset of the key, or nothing when it returns -1. -/
def keyBitString (ctx : AkcipherCtx) (der : List UInt8) (alg : Alg) (offset : Nat) :
    Option (AkcipherCtx × Option (Alg × Nat)) := do
  let ctx := { ctx with alg }
  if (← der[offset]?) ≠ 0x03 then return (ctx, none)
  let offset := offset + 1
  let (size, _) ← parseSeqLength (der.drop offset) none
  return (ctx, some (alg, offset + size + 1))

/-- `akcipher_invoke_key` from its start on, for a file of `derLen` bytes; `der` is the memory
from its first byte on, as far as it may be read. -/
def keyHeader (ctx : AkcipherCtx) (der : List UInt8) (derLen : Nat) :
    Option (AkcipherCtx × Option (Alg × Nat)) := do
  if derLen < 15 then return (ctx, none)
  let offset := 0
  if (← der[offset]?) ≠ 0x30 then return (ctx, none)
  let offset := offset + 1
  let (size, _) ← parseSeqLength (der.drop offset) none
  let offset := offset + size
  if (← der[offset]?) ≠ 0x30 then return (ctx, none)
  let offset := offset + 1
  let (size, oidLen) ← parseSeqLength (der.drop offset) (some 0)
  let offset := offset + size
  match ← parseAlgOid (der.drop offset) oidLen.toNat with
  | none => return (ctx, none)
  | some alg => keyBitString ctx der alg (offset + oidLen.toNat)

/-- `akcipher_invoke_key` of a file that lies in a larger array: it may read on behind the file,
but only the file is hashed.  It does not look at what the extractor returns. -/
def akcipherInvokeKeyIn (digests : Digests) (ctx : AkcipherCtx) (der : List UInt8) (derLen : Nat)
    (derHash : Digest) : Option (Int × AkcipherCtx) := do
  let (ctx, some (alg, offset)) ← keyHeader ctx der derLen | return (-1, ctx)
  let extracted ← extractKey alg ctx.key (der.drop offset)
  let keyLen := extracted.modulusLength.map BitVec.toInt
  return (pubkeyVerify digests derHash alg (der.take derLen),
    { ctx with key := extracted.key, keyLen })

/-- `akcipher_invoke_key` of a file behind which nothing may be read. -/
def akcipherInvokeKey (digests : Digests) (ctx : AkcipherCtx) (der : List UInt8)
    (derHash : Digest) : Option (Int × AkcipherCtx) :=
  akcipherInvokeKeyIn digests ctx der der.length derHash

end Zsbl.Libs
