/-
Module: Zsbl.Arch.Atomic
Purpose: The atomic counters of arch/riscv/src/atomic.c, and the counter that they
  stand for.
Trusted boundary: each function is one indivisible step
Main exports:
  amoaddW, amoswapD, casD, atomicRead, atomicWrite, atomicAddReturn, atomicSubReturn,
  atomicCmpxchg, atomicXchg, AtomicOp, AtomicOp.step, AtomicOp.count
-/
import Zsbl.Include.Libc

namespace Zsbl.Arch

/-! ## Instructions

Each gives what it leaves in the doubleword at its address and what it loads from there. -/

/-- `amoadd.w`: the word is the low half of a doubleword. -/
def amoaddW (counter src : BitVec 64) : BitVec 64 × BitVec 64 :=
  let word := counter.setWidth 32
  (counter.extractLsb' 32 32 ++ (word + src.setWidth 32), word.signExtend 64)

/-- `amoswap.d`. -/
def amoswapD (counter src : BitVec 64) : BitVec 64 × BitVec 64 := (src, counter)

/-- The loop of `lr.d` and `sc.d` behind a comparison. -/
def casD (counter old new : BitVec 64) : BitVec 64 × BitVec 64 :=
  (if counter = old then new else counter, counter)

/-! ## Functions

Each gives the counter behind it and what it returns. -/

def atomicRead (counter : BitVec 64) : BitVec 64 × BitVec 64 := (counter, counter)

def atomicWrite (_ value : BitVec 64) : BitVec 64 := value

def atomicAddReturn (counter value : BitVec 64) : BitVec 64 × BitVec 64 :=
  let (counter, ret) := amoaddW counter value
  (counter, ret + value)

def atomicSubReturn (counter value : BitVec 64) : BitVec 64 × BitVec 64 :=
  let (counter, ret) := amoaddW counter (-value)
  (counter, ret - value)

def atomicCmpxchg (counter oldval newval : BitVec 64) : BitVec 64 × BitVec 64 :=
  casD counter oldval newval

def atomicXchg (counter newval : BitVec 64) : BitVec 64 × BitVec 64 :=
  amoswapD counter newval

/-- A call on one `atomic_t`. -/
inductive AtomicOp where
  | read
  | write (value : BitVec 64)
  | addReturn (value : BitVec 64)
  | subReturn (value : BitVec 64)
  | cmpxchg (oldval newval : BitVec 64)
  | xchg (newval : BitVec 64)
deriving DecidableEq, Repr

/-- The call on the counter; nothing is returned by a write. -/
def AtomicOp.step (counter : BitVec 64) : AtomicOp → BitVec 64 × Option (BitVec 64)
  | .read => (atomicRead counter).map id some
  | .write value => (atomicWrite counter value, none)
  | .addReturn value => (atomicAddReturn counter value).map id some
  | .subReturn value => (atomicSubReturn counter value).map id some
  | .cmpxchg oldval newval => (atomicCmpxchg counter oldval newval).map id some
  | .xchg newval => (atomicXchg counter newval).map id some

/-! ## The counter -/

/-- What a call does to a single signed number that wraps around at 64 bits. -/
def AtomicOp.count (counter : Int) : AtomicOp → Int × Option Int
  | .read => (counter, some counter)
  | .write value => (value.toInt, none)
  | .addReturn value =>
      (wrapLong (counter + value.toInt), some (wrapLong (counter + value.toInt)))
  | .subReturn value =>
      (wrapLong (counter - value.toInt), some (wrapLong (counter - value.toInt)))
  | .cmpxchg oldval newval =>
      (if counter = oldval.toInt then newval.toInt else counter, some counter)
  | .xchg newval => (newval.toInt, some counter)

end Zsbl.Arch
