/-
Module: Zsbl.Drivers.Efuse
Purpose: Byte access to the fuses, drivers/nvmem/sophgo-efuse/sophgo-efuse.c.
Trusted boundary: a command is done when the busy bits of the mode are clear, and
  programming only sets fuses. The `int` counters of the loops are numbers, which
  nvmemRead and nvmemWrite cut to 32 bits.
Main exports:
  Efuse, Efuse.embeddedRead, Efuse.embeddedWrite, Efuse.read, Efuse.write,
  Efuse.nvmemRead, Efuse.nvmemWrite
-/
import Mathlib.Logic.Function.Basic
import Zsbl.Drivers.Nvmem
import Zsbl.Lib.Bytes
import Zsbl.Lib.Memory

namespace Zsbl.Drivers

open Zsbl.Lib

/-- The controller: its fuses and its registers and, for the record, the cells that it
has read or programmed. -/
structure Efuse where
  cells : BitVec 8 → BitVec 32
  adr : BitVec 32
  mode : BitVec 32
  rdData : BitVec 32
  touched : List (BitVec 8) := []

namespace Efuse

/-! ## Registers -/

/-- `efuse_mode_wait_ready`: the controller carries out what the low bits of the mode
ask for, on the fuse or the cell that the address register names, and clears them. -/
def modeWaitReady (dev : Efuse) : Efuse :=
  let idle := { dev with mode := dev.mode &&& 0xfffffffc#32 }
  let address := dev.adr.extractLsb' 0 8
  let bit := (dev.adr.extractLsb' 8 5).toNat
  if dev.mode &&& 0b11#32 = 0b10#32 then
    { idle with rdData := dev.cells address, touched := dev.touched ++ [address] }
  else if dev.mode &&& 0b11#32 = 0b11#32 then
    { idle with
      cells := Function.update dev.cells address (dev.cells address ||| BitVec.twoPow 32 bit)
      touched := dev.touched ++ [address] }
  else
    idle

def modeReset (dev : Efuse) : Efuse :=
  { dev with mode := 0 }.modeWaitReady

def modeMdWrite (dev : Efuse) (val : BitVec 32) : Efuse :=
  { dev with mode := (dev.mode &&& 0xfffffffc#32) ||| (val &&& 0b11#32) }

def makeAdrVal (address bitI : BitVec 32) : BitVec 32 :=
  let addressMask := (1#32 <<< NUM_ADDRESS_BITS) - 1
  (address &&& addressMask) ||| ((bitI &&& 0x1f#32) <<< NUM_ADDRESS_BITS)

def setBit (dev : Efuse) (address bitI : BitVec 32) : Efuse :=
  ({ dev with adr := makeAdrVal address bitI }.modeMdWrite 0b11#32).modeWaitReady

def embeddedRead (dev : Efuse) (address : BitVec 32) : BitVec 32 × Efuse :=
  let dev := dev.modeReset
  let dev := ({ dev with adr := makeAdrVal address 0 }.modeMdWrite 0b10#32).modeWaitReady
  (dev.rdData, dev)

def embeddedWrite (dev : Efuse) (address val : BitVec 32) : Efuse :=
  (List.range 32).foldl
    (fun dev i => if (val >>> i) &&& 1#32 ≠ 0 then dev.setBit address (BitVec.ofNat 32 i) else dev)
    dev

/-! ## Ranges of bytes -/

/-- The variables of `efuse_read` and `efuse_write` that move along a range. -/
structure Range where
  dst : Nat
  off : Nat
  left : Nat

def Range.advance (range : Range) (size : Nat) : Range :=
  { dst := range.dst + size, off := range.off + size, left := range.left - size }

/-- `MIN(4 - (off & 0x03), left)`. -/
def Range.headSize (range : Range) : Nat :=
  if 4 - (range.off &&& 0x03) < range.left then 4 - (range.off &&& 0x03) else range.left

section

-- The addresses that the caller lets the driver touch.
variable (accessible : Nat → Bool)

/-- Copying `size` bytes out of one cell, from its byte `start` on. -/
def readPart (start size : Nat) (range : Range) (dev : Efuse) (memory : Memory) :
    Option (Efuse × Memory) := do
  let (tmp, dev) := dev.embeddedRead (BitVec.ofNat 32 (range.off >>> 2))
  let bytes ← slice (leBytes 4 tmp.toNat) start size
  let memory ← storeIf accessible memory range.dst bytes
  some (dev, memory)

def readHead (range : Range) (dev : Efuse) (memory : Memory) :
    Option (Range × Efuse × Memory) :=
  if range.off &&& 0x03 ≠ 0 then do
    let size := range.headSize
    let (dev, memory) ← readPart accessible (range.off &&& 0x03) size range dev memory
    some (range.advance size, dev, memory)
  else
    some (range, dev, memory)

def readBody : Nat → Range → Efuse → Memory → Option (Range × Efuse × Memory)
  | 0, range, dev, memory => some (range, dev, memory)
  | rounds + 1, range, dev, memory => do
      let (dev, memory) ← readPart accessible 0 4 range dev memory
      readBody rounds (range.advance 4) dev memory

def readTail (range : Range) (dev : Efuse) (memory : Memory) : Option (Efuse × Memory) :=
  if range.left ≠ 0 then
    readPart accessible 0 range.left range dev memory
  else
    some (dev, memory)

/-- `efuse_read`; missing when it touches memory that the caller keeps. -/
def read (dev : Efuse) (memory : Memory) (off count val : Nat) :
    Option (Nat × Efuse × Memory) := do
  let (range, dev, memory) ← readHead accessible { dst := val, off, left := count } dev memory
  let (range, dev, memory) ← readBody accessible (range.left >>> 2) range dev memory
  let (dev, memory) ← readTail accessible range dev memory
  some (count, dev, memory)

/-- Programming `size` bytes into one cell, from its byte `start` on; the other bytes of
the word are 0. -/
def writePart (memory : Memory) (start size : Nat) (range : Range) (dev : Efuse) :
    Option Efuse := do
  let bytes ← fetchIf accessible memory range.dst size
  let tmp := le (overwrite (leBytes 4 0) start bytes)
  some (dev.embeddedWrite (BitVec.ofNat 32 (range.off >>> 2)) (BitVec.ofNat 32 tmp))

def writeHead (memory : Memory) (range : Range) (dev : Efuse) : Option (Range × Efuse) :=
  if range.off &&& 0x03 ≠ 0 then do
    let size := range.headSize
    let dev ← writePart accessible memory (range.off &&& 0x03) size range dev
    some (range.advance size, dev)
  else
    some (range, dev)

def writeBody (memory : Memory) : Nat → Range → Efuse → Option (Range × Efuse)
  | 0, range, dev => some (range, dev)
  | rounds + 1, range, dev => do
      let dev ← writePart accessible memory 0 4 range dev
      writeBody memory rounds (range.advance 4) dev

def writeTail (memory : Memory) (range : Range) (dev : Efuse) : Option Efuse :=
  if range.left ≠ 0 then writePart accessible memory 0 range.left range dev else some dev

/-- `efuse_write`, which reads the caller's memory and stores nothing in it. -/
def write (dev : Efuse) (memory : Memory) (off count val : Nat) : Option (Nat × Efuse) := do
  let (range, dev) ← writeHead accessible memory { dst := val, off, left := count } dev
  let (range, dev) ← writeBody accessible memory (range.left >>> 2) range dev
  let dev ← writeTail accessible memory range dev
  some (count, dev)

/-! ## Devices -/

/-- `cell_count` of the devices that the driver registers. -/
def cellCount : Nat := 256

/-- `nvmem_read` of such a device. A negative `left` reaches `memcpy` as a size beyond the
word. -/
def nvmemRead (dev : Efuse) (memory : Memory) (offset size : BitVec 64) (buf : Nat) :
    Option (BitVec 64 × Efuse × Memory) :=
  let left := (size.setWidth 32).toInt
  if left < 0 then none
  else do
    let (_, dev, memory) ← read accessible dev memory offset.toNat left.toNat buf
    some (size, dev, memory)

/-- `nvmem_write`. -/
def nvmemWrite (dev : Efuse) (memory : Memory) (offset size : BitVec 64) (buf : Nat) :
    Option (BitVec 64 × Efuse) :=
  let left := (size.setWidth 32).toInt
  if left < 0 then none
  else do
    let (_, dev) ← write accessible dev memory offset.toNat left.toNat buf
    some (size, dev)

end

end Efuse

end Zsbl.Drivers
