/-
Module: Zsbl.Libs.Fdtput
Purpose: Rewriting one property of a device tree in a copy of it, of_modify_prop of
  lib/fdt/fdtput.c.
Trusted boundary: libfdt is a parameter, and so is whether malloc and realloc find space
Main exports:
  Libfdt, Block, Heap, PropType, storeKeyValue, ofModifyProp
-/
import Mathlib.Data.BitVec

namespace Zsbl.Libs

def FDT_ERR_NOSPACE : Int := 3

def FDT_ERR_MAX : Int := 19

def FDT_TAGSIZE : Int := 4

/-- `sizeof(struct fdt_property)`. -/
def sizeofFdtProperty : Int := 12

def ALIGN (x : Int) : Int := (x + (FDT_TAGSIZE - 1)) / FDT_TAGSIZE * FDT_TAGSIZE

/-- An `int` as a `size_t`. -/
def sizeT (len : Int) : Nat := (BitVec.ofInt 64 len).toNat

/-- libfdt on blobs `β`. A blob is what memory has from a pointer on, and a function that
writes has the new one as a result. Negative offsets of nodes are errors. -/
structure Libfdt (β : Type) where
  totalsize : β → BitVec 32
  /-- So many bytes of a blob at another place, by `memcpy`. -/
  copy : β → Nat → β
  pathOffset : β → List UInt8 → Int
  getProperty : β → Int → List UInt8 → Except Int (List UInt8)
  setprop : β → Int → List UInt8 → List UInt8 → β × Int
  addSubnode : β → Int → List UInt8 → β × Int
  appendpropAddrrange : β → Int → Int → List UInt8 → Nat → Nat → β × Int
  /-- The first blob at the place of the second one, in so many bytes. -/
  openInto : β → β → Int → β × Int
  pack : β → β
  overlayApply : β → β → β × β × Int

/-- A block of the heap, with the blob that is copied to its start. -/
structure Block (β : Type) where
  size : Nat
  blob : β

/-- The requests for memory. -/
inductive Request where
  | blob
  | store
  | larger
deriving DecidableEq, Repr

/-- Whether there is space for the requests of a call, and what the block for the value has
in it. -/
structure Heap where
  grants : Request → Bool
  fresh : List UInt8

/-- `malloc` and `realloc`: a size that is negative as a `long` yields no such block. -/
def malloc (granted : Bool) (size : Nat) : Option Nat :=
  if granted ∧ size < 2 ^ 63 then some size else none

/-- The types of properties; `other` is an error. -/
inductive PropType where
  | u32
  | u64
  | str
  | u8
  | other
deriving DecidableEq, Repr

/-- The words that `fdt32_ld` or `fdt64_ld` read, as they are stored. -/
def swapWords (width : Nat) : Nat → List UInt8 → List UInt8
  | 0, _ => []
  | step + 1, value => (value.take width).reverse ++ swapWords width step (value.drop width)

/-- What is handed to `fdt_setprop`. -/
def storeBuf (propType : PropType) (fresh value : List UInt8) : Option (List UInt8) :=
  match propType with
  | .u32 => some (swapWords 4 (value.length / 4) value ++ fresh.drop (value.length / 4 * 4))
  | .u64 => some (swapWords 8 (value.length / 8) value ++ fresh.drop (value.length / 8 * 8))
  | .u8 => some value
  | .str => some value
  | .other => none

section

variable {β : Type} (lib : Libfdt β) (heap : Heap)

/-! ## Copies

A missing result means that a null pointer is used, or that libfdt gets a blob that is longer
than the block it is in. -/

/-- Whether all of a blob is in its block. -/
def Block.Whole (block : Block β) : Prop := (lib.totalsize block.blob).toNat ≤ block.size

instance (block : Block β) : Decidable (block.Whole lib) := inferInstanceAs (Decidable (_ ≤ _))

def Block.setprop (block : Block β) (node : Int) (name value : List UInt8) :
    Option (Block β × Int) :=
  if block.Whole lib then
    let result := lib.setprop block.blob node name value
    some (⟨block.size, result.1⟩, result.2)
  else none

/-- `realloc_fdt` and the ignored error of `fdt_open_into`. -/
def reallocFdt (block : Block β) (delta : Int) : Option (Block β) :=
  if block.Whole lib then do
    let newSz := (lib.totalsize block.blob + BitVec.ofInt 32 delta).toInt
    let size ← malloc (heap.grants .larger) (sizeT newSz)
    let fdt : Block β := ⟨size, lib.copy block.blob (min block.size size)⟩
    if fdt.Whole lib then some ⟨size, (lib.openInto fdt.blob fdt.blob newSz).1⟩ else none
  else none

/-- How much `realloc_property` asks for. -/
def propertyDelta (block : Block β) (nodeoffset : Int) (name : List UInt8) (newlen : Nat) : Int :=
  let found := lib.getProperty block.blob nodeoffset name
  let oldlen : Int := match found with
    | .ok data => data.length
    | .error err => err
  let delta : Int := match found with
    | .ok _ => 0
    | .error _ => sizeofFdtProperty + name.length + 1
  if (newlen : Int) > oldlen then delta + (ALIGN newlen - ALIGN oldlen) else delta

def reallocProperty (block : Block β) (nodeoffset : Int) (name : List UInt8) (newlen : Nat) :
    Option (Block β) :=
  if block.Whole lib then
    reallocFdt lib heap block (propertyDelta lib block nodeoffset name newlen)
  else none

def storeKeyValue (block : Block β) (nodeName property buf : List UInt8) :
    Option (Block β × Int) :=
  if block.Whole lib then
    let node := lib.pathOffset block.blob nodeName
    if node < 0 then some (block, -1)
    else do
      let stored ← block.setprop lib node property buf
      let stored ←
        if stored.2 = -FDT_ERR_NOSPACE then do
          let larger ← reallocProperty lib heap stored.1 node property buf.length
          larger.setprop lib node property buf
        else some stored
      some (stored.1, if stored.2 = 0 then 0 else -1)
  else none

def utilfdtRead (originalFdt : β) (len : Nat) : Option (Block β) := do
  let size ← malloc (heap.grants .blob) len
  some ⟨size, lib.copy originalFdt size⟩

/-- `fdt_pack` and `utilfdt_write`. -/
def utilfdtWrite (block : Block β) : Option β :=
  if block.Whole lib then
    let blob := lib.pack block.blob
    some (lib.copy blob (lib.totalsize blob).toNat)
  else none

/-! ## Rewriting -/

/-- `of_modify_prop`, which yields the blob at `originalFdt` behind the call. -/
def ofModifyProp (originalFdt : β) (len : Int) (nodeName propName value : List UInt8)
    (propType : PropType) : Option (β × Int) := do
  let block ← utilfdtRead lib heap originalFdt (sizeT len)
  if propType ≠ .str ∧ heap.grants .store = false then some (originalFdt, -1)
  else
    match storeBuf propType heap.fresh value with
    | none => some (originalFdt, -1)
    | some buf => do
        let stored ← storeKeyValue lib heap block nodeName propName buf
        if stored.2 ≠ 0 then some (originalFdt, -1)
        else
          let written ← utilfdtWrite lib stored.1
          some (written, 0)

end

end Zsbl.Libs
