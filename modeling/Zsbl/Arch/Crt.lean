/-
Module: Zsbl.Arch.Crt
Purpose: The break of the heap, arch/riscv/src/crt.c.
Trusted boundary: the addresses that the linker script provides
Main exports:
  HeapLayout, Heap, roundUp, memset, sbrk, HeapSystem, HeapStep, heapLts
-/
import Zsbl.Lib.Runs
import Zsbl.Lib.Spans

namespace Zsbl.Arch

open Zsbl.Lib

/-- `ROUND_UP` to `MEMALIGN`. -/
def roundUp (x : BitVec 64) : BitVec 64 := (x + 15#64) &&& ~~~15#64

/-- `__ld_bss_end` and `__ld_ram_end`, in the RAM that the linker script describes. -/
structure HeapLayout where
  bssEnd : BitVec 64
  ramEnd : BitVec 64
  behindProgram : 0 < bssEnd.toNat
  inRam : (bssEnd.toNat + 15) / 16 * 16 ≤ ramEnd.toNat
  isPhysical : ramEnd.toNat < 2 ^ 63

/-- The static variables `heap_start` and `heap_end`. -/
structure Heap where
  heapStart : BitVec 64
  heapEnd : BitVec 64
deriving DecidableEq, Repr

abbrev Ram : Type := BitVec 64 → UInt8

/-- `memset` with 0; the pointer wraps around at the end of the address space. -/
def memset (ram : Ram) (s count : BitVec 64) : Ram := fun address =>
  if address - s < count then 0 else ram address

/-- The first lines of `_sbrk`. -/
def Heap.started (layout : HeapLayout) (heap : Heap) : Heap :=
  if heap.heapStart = 0 then ⟨roundUp layout.bssEnd, roundUp layout.bssEnd⟩ else heap

/-- `sbrk`: what it returns, the variables and the memory behind it. -/
def sbrk (layout : HeapLayout) (heap : Heap) (ram : Ram) (inc : BitVec 64) :
    BitVec 64 × Heap × Ram :=
  let heap := heap.started layout
  let last := heap.heapEnd
  let inc := roundUp inc
  let heap := { heap with heapEnd := heap.heapEnd + inc }
  if heap.heapEnd > layout.ramEnd then (-1, heap, ram)
  else (last, heap, memset ram last inc)

/-! ## The system -/

/-- The heap with the memory and, for the record, the regions that were granted and have
not been released. -/
structure HeapSystem where
  heap : Heap
  ram : Ram
  granted : List Span

/-- The regions behind a call that has returned. -/
def grantedBehind (layout : HeapLayout) (s : HeapSystem) (ret : BitVec 64) (heap : Heap) :
    List Span :=
  let before := (s.heap.started layout).heapEnd.toNat
  if ret = -1 then s.granted
  else if before < heap.heapEnd.toNat then
    s.granted ++ [⟨before, heap.heapEnd.toNat - before⟩]
  else keepBelow heap.heapEnd.toNat s.granted

/-- One call of `sbrk`; the program writes what it likes between the calls. -/
inductive HeapStep (layout : HeapLayout) : HeapSystem → BitVec 64 → HeapSystem → Prop where
  | sbrk {s : HeapSystem} (inc ret : BitVec 64) (heap : Heap) (ram ram' : Ram)
      (done : Arch.sbrk layout s.heap s.ram inc = (ret, heap, ram)) :
      HeapStep layout s inc ⟨heap, ram', grantedBehind layout s ret heap⟩

/-- The program from the start on. -/
def heapLts (layout : HeapLayout) : Lts HeapSystem (BitVec 64) where
  init := fun s => s.heap = ⟨0, 0⟩ ∧ s.granted = []
  step := HeapStep layout

end Zsbl.Arch
