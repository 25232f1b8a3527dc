/-
Module: Zsbl.Common.Mmio
Purpose: The memory functions of common/mmio.c, which take care of how IO memory may be
  accessed.
Trusted boundary: `is_normal_memory` and the functions for normal memory, which are parameters
Main exports:
  Bus, NormalMemory, memcpyToIo, memmoveBetweenIo, memsetIo, memcpy, memmove, memset
-/
import Mathlib.Data.BitVec
import Zsbl.Lib.Bytes
import Zsbl.Lib.Memory

namespace Zsbl.Common

open Zsbl.Lib

/-! ## Accesses -/

/-- An access through a volatile pointer. -/
structure Access where
  isWrite : Bool
  address : BitVec 64
  size : Nat
deriving DecidableEq, Repr

/-- The memory, and the accesses through volatile pointers so far. -/
structure Bus where
  memory : Memory
  accesses : List Access

namespace Bus

def load (bus : Bus) (address : BitVec 64) (size : Nat) : Nat × Bus :=
  (le (fetch bus.memory address.toNat size),
    { bus with accesses := bus.accesses ++ [⟨false, address, size⟩] })

def store (bus : Bus) (address : BitVec 64) (size value : Nat) : Bus where
  memory := Lib.store bus.memory address.toNat (leBytes size value)
  accesses := bus.accesses ++ [⟨true, address, size⟩]

/-- An assignment from one pointer to another. -/
def move (bus : Bus) (d s : BitVec 64) (size : Nat) : Bus :=
  let (value, bus) := bus.load s size
  bus.store d size value

end Bus

/-! ## Loops over IO memory -/

/-- The width that the loops choose for an address, with `n` bytes left. -/
def ioWidth (address : BitVec 64) (n : Nat) : Nat :=
  if address &&& (16 - 1) = 0 ∧ n ≥ 16 then 16
  else if address &&& (8 - 1) = 0 ∧ n ≥ 8 then 8
  else if address &&& (4 - 1) = 0 ∧ n ≥ 4 then 4
  else 1

theorem ioWidth_pos (address : BitVec 64) (n : Nat) : 0 < ioWidth address n := by
  unfold ioWidth
  split_ifs <;> decide

/-- The loop of `memcpy_to_io` and `memcpy_from_io`; `side` is the pointer that decides on
the width. -/
def copyLoop (side : BitVec 64 → BitVec 64 → BitVec 64) (d s : BitVec 64) (n : Nat)
    (bus : Bus) : Bus :=
  if n = 0 then bus
  else
    let width := ioWidth (side d s) n
    copyLoop side (d + BitVec.ofNat 64 width) (s + BitVec.ofNat 64 width) (n - width)
      (bus.move d s width)
termination_by n
decreasing_by
  have positive := ioWidth_pos (side d s) n
  omega

/-- The loop of `memset_io`, given the bytes of `_tmp`. -/
def fillLoop (tmp : List UInt8) (c : UInt8) (s : BitVec 64) (n : Nat) (bus : Bus) : Bus :=
  if n = 0 then bus
  else
    let width := ioWidth s n
    let value := if width = 1 then c.toNat else le (tmp.take width)
    fillLoop tmp c (s + BitVec.ofNat 64 width) (n - width) (bus.store s width value)
termination_by n
decreasing_by
  have positive := ioWidth_pos s n
  omega

section

variable (dst src n : BitVec 64) (bus : Bus)

/-! The functions return `dst`. -/

def memcpyToIo : Bus := copyLoop (fun d _ => d) dst src n.toNat bus

def memcpyFromIo : Bus := copyLoop (fun _ s => s) dst src n.toNat bus

/-- The byte at an index. -/
def moveByte (bus : Bus) (i : Nat) : Bus :=
  bus.move (dst + BitVec.ofNat 64 i) (src + BitVec.ofNat 64 i) 1

def memcpyBetweenIo : Bus := (List.range n.toNat).foldl (moveByte dst src) bus

def memmoveBetweenIo : Bus :=
  if src ≥ dst ∨ src + n < dst then (List.range n.toNat).foldl (moveByte dst src) bus
  else (List.range n.toNat).foldl
    (fun bus i => moveByte dst src bus (n.toNat - 1 - i)) bus

end

/-! ## Dispatch -/

/-- The functions that are defined elsewhere: what they leave in memory, and the pointer that
they return. -/
structure NormalMemory where
  isNormalMemory : BitVec 64 → Bool
  memcpyBetweenNormal : BitVec 64 → BitVec 64 → BitVec 64 → Memory → Memory × BitVec 64
  memmoveBetweenNormal : BitVec 64 → BitVec 64 → BitVec 64 → Memory → Memory × BitVec 64
  memsetNormal : BitVec 64 → BitVec 32 → BitVec 64 → Memory → Memory × BitVec 64

section

variable (lib : NormalMemory)

/-- `memset_io`; the local variable `_tmp` is a memory of its own. -/
def memsetIo (b : BitVec 64) (c : BitVec 32) (n : BitVec 64) (bus : Bus) : Bus :=
  let tmp := (lib.memsetNormal 0 c 16 fun _ => 0).1
  fillLoop (fetch tmp 0 16) ⟨c.setWidth 8⟩ b n.toNat bus

def memcpy (dst src n : BitVec 64) (bus : Bus) : Bus × BitVec 64 :=
  if lib.isNormalMemory src && lib.isNormalMemory dst then
    ({ bus with memory := (lib.memcpyBetweenNormal dst src n bus.memory).1 }, dst)
  else if lib.isNormalMemory src && !lib.isNormalMemory dst then
    (memcpyToIo dst src n bus, dst)
  else if !lib.isNormalMemory src && lib.isNormalMemory dst then
    (memcpyFromIo dst src n bus, dst)
  else (memcpyBetweenIo dst src n bus, dst)

def memmove (dst src n : BitVec 64) (bus : Bus) : Bus × BitVec 64 :=
  if lib.isNormalMemory src && lib.isNormalMemory dst then
    let (memory, returned) := lib.memmoveBetweenNormal dst src n bus.memory
    ({ bus with memory }, returned)
  else if lib.isNormalMemory src && !lib.isNormalMemory dst then
    (memcpyToIo dst src n bus, dst)
  else if !lib.isNormalMemory src && lib.isNormalMemory dst then
    (memcpyFromIo dst src n bus, dst)
  else (memmoveBetweenIo dst src n bus, dst)

def memset (s : BitVec 64) (c : BitVec 32) (n : BitVec 64) (bus : Bus) : Bus × BitVec 64 :=
  if lib.isNormalMemory s then
    let (memory, returned) := lib.memsetNormal s c n bus.memory
    ({ bus with memory }, returned)
  else (memsetIo lib s c n bus, s)

end

end Zsbl.Common
