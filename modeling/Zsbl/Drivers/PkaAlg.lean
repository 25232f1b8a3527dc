/-
Module: Zsbl.Drivers.PkaAlg
Purpose: The verification drivers of drivers/alg/pka/pka_rsa.c and pka_sm2.c as
  computations of the accelerator.
Trusted boundary: the firmware and the hardware, which are parameters
Main exports:
  RsaCtx, doModexp, rsaVerify, EccCtx, PmultStack, doPmult, sm2Verify
-/
import Zsbl.Drivers.Pkadev
import Zsbl.Lib.Bytes

namespace Zsbl.Drivers

open Zsbl.Lib

/-! ## Names -/

def PkaBank.letter : PkaBank → UInt8
  | .a => 0x41
  | .b => 0x42
  | .c => 0x43
  | .d => 0x44

/-- `"%A0"` and the like, and the same behind `=`. -/
def VaParam.input (bank : PkaBank) (index : UInt8) (data : Nat) : VaParam :=
  ⟨[0x25, bank.letter, 0x30 + index], data⟩

def VaParam.output (bank : PkaBank) (index : UInt8) (data : Nat) : VaParam :=
  ⟨[0x3d, 0x25, bank.letter, 0x30 + index], data⟩

/-- `"calc_r_inv"`. -/
def calcRInv : List UInt8 := [0x63, 0x61, 0x6c, 0x63, 0x5f, 0x72, 0x5f, 0x69, 0x6e, 0x76]

/-- `"calc_mp"`. -/
def calcMp : List UInt8 := [0x63, 0x61, 0x6c, 0x63, 0x5f, 0x6d, 0x70]

/-- `"calc_r_sqr"`. -/
def calcRSqr : List UInt8 := [0x63, 0x61, 0x6c, 0x63, 0x5f, 0x72, 0x5f, 0x73, 0x71, 0x72]

/-- `"modexp"`. -/
def modexp : List UInt8 := [0x6d, 0x6f, 0x64, 0x65, 0x78, 0x70]

/-- `"modadd"`. -/
def modadd : List UInt8 := [0x6d, 0x6f, 0x64, 0x61, 0x64, 0x64]

/-- `"pmult"`. -/
def pmult : List UInt8 := [0x70, 0x6d, 0x75, 0x6c, 0x74]

/-- `"padd"`. -/
def padd : List UInt8 := [0x70, 0x61, 0x64, 0x64]

/-! ## Computations in a row -/

/-- Calls of `start_compute`, with -1 at the first that fails and 0 behind the last. -/
def computeAll (pka : Pka) (size : Nat) :
    List (List UInt8 × List VaParam) → PkaDev → Memory → Option (Int × PkaDev × Memory)
  | [], dev, memory => some (0, dev, memory)
  | (func, ap) :: rest, dev, memory => do
      let (done, dev, memory) ← startCompute pka dev memory size func ap
      if done = 0 then return (-1, dev, memory)
      else computeAll pka size rest dev memory

/-! ## RSA -/

/-- The pointers of `struct rsa_ctx` that are used. -/
structure RsaCtx where
  size : Nat
  m : Nat
  e : Nat
  x : Nat
  y : Nat

def doModexp (pka : Pka) (ctx : RsaCtx) (dev : PkaDev) (memory : Memory) :
    Option (Int × PkaDev × Memory) :=
  computeAll pka ctx.size [
    (calcRInv, [.input .d 0 ctx.m]),
    (calcMp, []),
    (calcRSqr, []),
    (modexp, [.input .a 0 ctx.x, .input .d 2 ctx.e, .input .d 0 ctx.m, .output .a 0 ctx.y])]
    dev memory

/-- `rsa_verify` of the driver. -/
def rsaVerify (pka : Pka) (ctx : RsaCtx) (dev : PkaDev) (memory : Memory) :
    Option (Int × PkaDev × Memory) := do
  let memory := store memory ctx.y (List.replicate ctx.size 0)
  let (ret, dev, memory) ← doModexp pka ctx dev memory
  if ret ≠ 0 then return (-1, dev, memory)
  else return (0, dev, memory)

/-! ## SM2 -/

/-- The pointers of `struct ecc_ctx` that `do_pmult` uses; `param_last_init` sets those
from `order` on. -/
structure EccCtx where
  size : Nat
  e : Nat
  pubx : Nat
  puby : Nat
  r : Nat
  s : Nat
  out : Nat
  order : Nat
  prime : Nat
  a : Nat
  gx : Nat
  gy : Nat
  mp : Nat
  rSqr : Nat

/-- The arrays on the stack of `do_pmult`. -/
structure PmultStack where
  r1 : Nat
  r2 : Nat
  r3 : Nat
  temp : Nat

def doPmult (pka : Pka) (ctx : EccCtx) (stack : PmultStack) (dev : PkaDev) (memory : Memory) :
    Option (Int × PkaDev × Memory) :=
  computeAll pka ctx.size [
    (modadd, [.input .a 0 ctx.r, .input .b 0 ctx.s, .input .d 0 ctx.order,
      .output .a 0 stack.r1]),
    (pmult, [.input .a 2 ctx.pubx, .input .b 2 ctx.puby, .input .a 6 ctx.a,
      .input .d 7 stack.r1, .input .d 0 ctx.prime, .input .d 1 ctx.mp, .input .d 3 ctx.rSqr,
      .output .a 2 stack.r1, .output .b 2 stack.r2]),
    (pmult, [.input .a 2 ctx.gx, .input .b 2 ctx.gy, .input .a 6 ctx.a,
      .input .d 7 ctx.s, .input .d 0 ctx.prime, .input .d 1 ctx.mp, .input .d 3 ctx.rSqr,
      .output .a 2 stack.r3, .output .b 2 stack.temp]),
    (padd, [.input .a 2 stack.r1, .input .b 2 stack.r2, .input .a 3 stack.r3,
      .input .b 3 stack.temp, .input .a 6 ctx.a, .input .d 0 ctx.prime, .input .d 1 ctx.mp,
      .input .d 3 ctx.rSqr, .output .a 2 stack.r1, .output .b 2 stack.r2]),
    (modadd, [.input .a 0 ctx.e, .input .b 0 stack.r1, .input .d 0 ctx.order,
      .output .a 0 ctx.out])]
    dev memory

/-- `sm2_verify` of the driver; `out` is what `malloc` gives. -/
def sm2Verify (pka : Pka) (ctx : EccCtx) (stack : PmultStack) (dev : PkaDev)
    (memory : Memory) : Option (Int × PkaDev × Memory) :=
  if ctx.out = 0 then some (-1, dev, memory)
  else do
    let (ret, dev, memory) ← doPmult pka ctx stack dev memory
    if ret ≠ 0 then return (ret, dev, memory)
    else
      let differs := memcmp (fetch memory ctx.out ctx.size) (fetch memory ctx.r ctx.size)
      return (if differs ≠ 0 then -1 else ret, dev, memory)

end Zsbl.Drivers
