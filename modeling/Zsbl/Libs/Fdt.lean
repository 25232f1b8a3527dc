/-
Module: Zsbl.Libs.Fdt
Purpose: Reading a flattened device tree, lib/fdt/fdt.c and lib/fdt/fdt_ro.c. A blob is the
  bytes from an aligned pointer on, and nothing is assumed of it.
Trusted boundary: none
Main exports:
  fdtOffsetPtr, fdtNextTag, fdtNextNode, fdtSubnodeOffsetNamelen, fdtPathOffset,
  fdtGetString, fdtGetProperty, fdtGetprop
-/
import Zsbl.Include.Libc
import Zsbl.Lib.Bytes
import Zsbl.Lib.Der
import Zsbl.Libs.Fdtput

namespace Zsbl.Libs

open Zsbl.Lib

/-! ## Numbers -/

def FDT_MAGIC : Nat := 0xd00dfeed

/-- `~FDT_MAGIC` -/
def FDT_SW_MAGIC : Nat := 2 ^ 32 - 1 - FDT_MAGIC

def FDT_FIRST_SUPPORTED_VERSION : Nat := 0x02
def FDT_LAST_SUPPORTED_VERSION : Nat := 0x11

def FDT_BEGIN_NODE : Nat := 0x1
def FDT_END_NODE : Nat := 0x2
def FDT_PROP : Nat := 0x3
def FDT_NOP : Nat := 0x4
def FDT_END : Nat := 0x9

def FDT_ERR_NOTFOUND : Int := 1
def FDT_ERR_BADOFFSET : Int := 4
def FDT_ERR_BADPATH : Int := 5
def FDT_ERR_BADSTATE : Int := 7
def FDT_ERR_TRUNCATED : Int := 8
def FDT_ERR_BADMAGIC : Int := 9
def FDT_ERR_BADVERSION : Int := 10
def FDT_ERR_BADSTRUCTURE : Int := 11
def FDT_ERR_BADLAYOUT : Int := 12
def FDT_ERR_INTERNAL : Int := 13

/-- A conversion to `unsigned int`. -/
def toUint (value : Int) : Nat := (value % 2 ^ 32).toNat

/-- `FDT_TAGALIGN`, as an `int`. -/
def fdtTagAlign (x : Int) : Int := wrapInt ((x + 3) / 4 * 4)

/-- `fdt32_ld`. -/
def fdt32 (fdt : List UInt8) (position : Nat) : Nat := bigEndian ((fdt.drop position).take 4)

/-! ## Header -/

def fdtMagic (fdt : List UInt8) : Nat := fdt32 fdt 0
def fdtTotalsize (fdt : List UInt8) : Nat := fdt32 fdt 4
def fdtOffDtStruct (fdt : List UInt8) : Nat := fdt32 fdt 8
def fdtOffDtStrings (fdt : List UInt8) : Nat := fdt32 fdt 12
def fdtOffMemRsvmap (fdt : List UInt8) : Nat := fdt32 fdt 16
def fdtVersion (fdt : List UInt8) : Nat := fdt32 fdt 20
def fdtLastCompVersion (fdt : List UInt8) : Nat := fdt32 fdt 24
def fdtSizeDtStrings (fdt : List UInt8) : Nat := fdt32 fdt 32
def fdtSizeDtStruct (fdt : List UInt8) : Nat := fdt32 fdt 36

def INT32_MAX : Nat := 2 ^ 31 - 1

/-- `fdt_ro_probe_`: the total size or an error. -/
def fdtRoProbe (fdt : List UInt8) : Int :=
  let size : Int := if fdtTotalsize fdt < INT32_MAX then fdtTotalsize fdt else -FDT_ERR_TRUNCATED
  if fdtMagic fdt = FDT_MAGIC then
    if fdtVersion fdt < FDT_FIRST_SUPPORTED_VERSION then -FDT_ERR_BADVERSION
    else if fdtLastCompVersion fdt > FDT_LAST_SUPPORTED_VERSION then -FDT_ERR_BADVERSION
    else size
  else if fdtMagic fdt = FDT_SW_MAGIC then
    if fdtSizeDtStruct fdt = 0 then -FDT_ERR_BADSTATE else size
  else -FDT_ERR_BADMAGIC

/-! ## Tags -/

/-- `fdt_offset_ptr`: a position in the blob, or the null pointer. -/
def fdtOffsetPtr (fdt : List UInt8) (offset : Int) (len : Nat) : Option Nat :=
  let uoffset := toUint offset
  let absoffset := (uoffset + fdtOffDtStruct fdt) % 2 ^ 32
  if offset < 0 then none
  else if absoffset < uoffset ∨ (absoffset + len) % 2 ^ 32 < absoffset ∨
      (absoffset + len) % 2 ^ 32 > fdtTotalsize fdt then none
  else if fdtVersion fdt ≥ 0x11 ∧ ((uoffset + len) % 2 ^ 32 < uoffset ∨
      (uoffset + len) % 2 ^ 32 > fdtSizeDtStruct fdt) then none
  else some (fdtOffDtStruct fdt + uoffset)

theorem fdtOffsetPtr_lt {fdt : List UInt8} {offset : Int} {position : Nat}
    (isPointer : fdtOffsetPtr fdt offset 1 = some position) (small : offset < 2 ^ 32) :
    offset < fdtTotalsize fdt := by
  unfold fdtOffsetPtr toUint at isPointer
  dsimp only at isPointer
  split at isPointer
  · cases isPointer
  · split at isPointer
    · cases isPointer
    · omega

/-- The loop of `fdt_next_tag` that skips a name: where the terminator ends, or nothing where the
blob does. Offsets do not get to the end of an `int` before that. -/
def fdtSkipName (fdt : List UInt8) (offset : Int) : Option Int :=
  if _small : offset < 2 ^ 32 then
    match _isPointer : fdtOffsetPtr fdt offset 1 with
    | none => none
    | some p => if fdt.getD p 0 = 0 then some (offset + 1) else fdtSkipName fdt (offset + 1)
  else none
termination_by (fdtTotalsize fdt - offset).toNat
decreasing_by
  have inside := fdtOffsetPtr_lt _isPointer _small
  omega

/-- The `switch` of `fdt_next_tag`: the offset behind the body of a tag. -/
def fdtSkipBody (fdt : List UInt8) (tag : Nat) (offset : Int) : Option Int :=
  if tag = FDT_BEGIN_NODE then fdtSkipName fdt offset
  else if tag = FDT_PROP then
    (fdtOffsetPtr fdt offset 4).map fun lenp =>
      let len := fdt32 fdt lenp
      let offset := wrapInt (offset + 8 + len)
      -- values of eight bytes were aligned before version 16
      if fdtVersion fdt < 0x10 ∧ len ≥ 8 ∧ (offset - len) % 8 ≠ 0 then offset + 4 else offset
  else if tag = FDT_END ∨ tag = FDT_END_NODE ∨ tag = FDT_NOP then some offset
  else none

/-- `fdt_next_tag`: the tag, and where the next one is or an error. -/
def fdtNextTag (fdt : List UInt8) (startoffset : Int) : Nat × Int :=
  match fdtOffsetPtr fdt startoffset 4 with
  | none => (FDT_END, -FDT_ERR_TRUNCATED)
  | some tagp =>
      let tag := fdt32 fdt tagp
      match fdtSkipBody fdt tag (startoffset + 4) with
      | none => (FDT_END, -FDT_ERR_BADSTRUCTURE)
      | some offset =>
          if fdtOffsetPtr fdt startoffset (toUint (offset - startoffset)) = none then
            (FDT_END, -FDT_ERR_BADSTRUCTURE)
          else (tag, fdtTagAlign offset)

/-- `fdt_check_node_offset_` and `fdt_check_prop_offset_`. -/
def fdtCheckOffset (fdt : List UInt8) (tag : Nat) (offset : Int) : Int :=
  if offset < 0 ∨ offset % 4 ≠ 0 then -FDT_ERR_BADOFFSET
  else
    let next := fdtNextTag fdt offset
    if next.1 ≠ tag then -FDT_ERR_BADOFFSET else next.2

def fdtCheckNodeOffset (fdt : List UInt8) (offset : Int) : Int :=
  fdtCheckOffset fdt FDT_BEGIN_NODE offset

def fdtCheckPropOffset (fdt : List UInt8) (offset : Int) : Int :=
  fdtCheckOffset fdt FDT_PROP offset

/-! ## Nodes

A loop takes at most as many turns as the blob has bytes; a missing result means that it would
take more. -/

/-- The loop of `fdt_next_node`, whose depth may be missing. -/
def fdtNextNodeFrom (fdt : List UInt8) : Nat → Int → Option Int → Option (Int × Option Int)
  | 0, _, _ => none
  | turns + 1, offset, depth =>
      let (tag, nextoffset) := fdtNextTag fdt offset
      if tag = FDT_BEGIN_NODE then some (offset, depth.map (· + 1))
      else if tag = FDT_END_NODE then
        let depth := depth.map (· - 1)
        if depth.any (· < 0) then some (nextoffset, depth)
        else fdtNextNodeFrom fdt turns nextoffset depth
      else if tag = FDT_END then
        if nextoffset ≥ 0 ∨ (nextoffset = -FDT_ERR_TRUNCATED ∧ depth = none) then
          some (-FDT_ERR_NOTFOUND, depth)
        else some (nextoffset, depth)
      else fdtNextNodeFrom fdt turns nextoffset depth

def fdtNextNode (fdt : List UInt8) (offset : Int) (depth : Option Int) :
    Option (Int × Option Int) :=
  if offset ≥ 0 then
    let nextoffset := fdtCheckNodeOffset fdt offset
    if nextoffset < 0 then some (nextoffset, depth)
    else fdtNextNodeFrom fdt fdt.length nextoffset depth
  else fdtNextNodeFrom fdt fdt.length 0 depth

/-- `fdt_get_name`; before version 16 a name is a path. -/
def fdtGetName (fdt : List UInt8) (nodeoffset : Int) : Option (List UInt8) :=
  if fdtRoProbe fdt < 0 ∨ fdtCheckNodeOffset fdt nodeoffset < 0 then none
  else
    let name := cstr (fdt.drop (fdtOffDtStruct fdt + nodeoffset.toNat + 4))
    if fdtVersion fdt < 0x10 then
      if 0x2f ∈ name then some (name.reverse.takeWhile (· ≠ 0x2f)).reverse else none
    else some name

def fdtNodenameEq (fdt : List UInt8) (offset : Int) (s : List UInt8) : Bool :=
  match fdtGetName fdt offset with
  | none => false
  | some p =>
      if p.length < s.length then false
      else if p.take s.length ≠ s then false
      else if p.length = s.length then true
      else !s.contains 0x40 && p[s.length]? = some 0x40

/-- The loop of `fdt_subnode_offset_namelen`. -/
def fdtSubnodeFrom (fdt name : List UInt8) : Nat → Int → Int → Option Int
  | 0, _, _ => none
  | turns + 1, offset, depth =>
      if offset ≥ 0 ∧ depth ≥ 0 then
        if depth = 1 ∧ fdtNodenameEq fdt offset name then some offset
        else do
          let next ← fdtNextNode fdt offset (some depth)
          fdtSubnodeFrom fdt name turns next.1 (next.2.getD depth)
      else if depth < 0 then some (-FDT_ERR_NOTFOUND)
      else some offset

def fdtSubnodeOffsetNamelen (fdt : List UInt8) (offset : Int) (name : List UInt8) : Option Int :=
  if fdtRoProbe fdt < 0 then some (fdtRoProbe fdt)
  else fdtSubnodeFrom fdt name (fdt.length + 1) offset 0

/-- What is left of a path behind its first name. -/
theorem length_path_lt {p : List UInt8} (more : p.dropWhile (· = 0x2f) ≠ []) :
    ((p.dropWhile (· = 0x2f)).dropWhile (· ≠ 0x2f)).length < p.length := by
  have skipped := (List.dropWhile_sublist (l := p) (· = 0x2f)).length_le
  have head := List.head?_dropWhile_not (· = (0x2f : UInt8)) p
  obtain ⟨c, rest, split⟩ := List.exists_cons_of_ne_nil more
  rw [split] at skipped head ⊢
  have first : c ≠ 0x2f := by simpa using head
  have shorter := (List.dropWhile_sublist (l := rest) (· ≠ 0x2f)).length_le
  rw [List.dropWhile_cons_of_pos (by simpa using first)]
  rw [List.length_cons] at skipped
  omega

/-- The loop of `fdt_path_offset_namelen`, with what is left of the path. -/
def fdtPathFrom (fdt : List UInt8) (offset : Int) (p : List UInt8) : Option Int :=
  let name := p.dropWhile (· = 0x2f)
  if _more : name ≠ [] then
    match fdtSubnodeOffsetNamelen fdt offset (name.takeWhile (· ≠ 0x2f)) with
    | none => none
    | some offset =>
        if offset < 0 then some offset else fdtPathFrom fdt offset (name.dropWhile (· ≠ 0x2f))
  else some offset
termination_by p.length
decreasing_by exact length_path_lt _more

/-- `fdt_path_offset` for a path from the root; one that starts with an alias has no result. -/
def fdtPathOffset (fdt path : List UInt8) : Option Int :=
  if fdtRoProbe fdt < 0 then some (fdtRoProbe fdt)
  else if path.head? = some 0x2f then fdtPathFrom fdt 0 path
  else none

/-! ## Properties -/

/-- `nextprop_`. -/
def fdtNextprop (fdt : List UInt8) : Nat → Int → Option Int
  | 0, _ => none
  | turns + 1, offset =>
      let (tag, nextoffset) := fdtNextTag fdt offset
      if tag = FDT_END then
        some (if nextoffset ≥ 0 then -FDT_ERR_BADSTRUCTURE else nextoffset)
      else if tag = FDT_PROP then some offset
      else if tag = FDT_NOP then fdtNextprop fdt turns nextoffset
      else some (-FDT_ERR_NOTFOUND)

def fdtFirstPropertyOffset (fdt : List UInt8) (nodeoffset : Int) : Option Int :=
  let offset := fdtCheckNodeOffset fdt nodeoffset
  if offset < 0 then some offset else fdtNextprop fdt fdt.length offset

def fdtNextPropertyOffset (fdt : List UInt8) (offset : Int) : Option Int :=
  let offset := fdtCheckPropOffset fdt offset
  if offset < 0 then some offset else fdtNextprop fdt fdt.length offset

/-- `fdt_get_string`. -/
def fdtGetString (fdt : List UInt8) (stroffset : Int) : Except Int (List UInt8) :=
  let totalsize := fdtRoProbe fdt
  let absoffset := toUint (stroffset + fdtOffDtStrings fdt)
  if totalsize < 0 then .error totalsize
  else if (absoffset : Int) ≥ totalsize then .error (-FDT_ERR_BADOFFSET)
  else
    let len := totalsize.toNat - absoffset
    let room : Option Nat :=
      if fdtMagic fdt = FDT_MAGIC then
        if stroffset < 0 then none
        else if fdtVersion fdt ≥ 17 then
          if stroffset ≥ fdtSizeDtStrings fdt then none
          else some (min len (fdtSizeDtStrings fdt - stroffset.toNat))
        else some len
      else if stroffset ≥ 0 ∨ -stroffset > fdtSizeDtStrings fdt then none
      else some (min len (-stroffset).toNat)
    match room with
    | none => .error (-FDT_ERR_BADOFFSET)
    | some len =>
        let s := (fdt.drop absoffset).take len
        if 0 ∈ s then .ok (cstr s) else .error (-FDT_ERR_TRUNCATED)

def fdtStringEq (fdt : List UInt8) (stroffset : Int) (s : List UInt8) : Bool :=
  match fdtGetString fdt stroffset with
  | .error _ => false
  | .ok p => p = s

/-- Where a property with this offset is. -/
def fdtPropPosition (fdt : List UInt8) (offset : Int) : Nat := fdtOffDtStruct fdt + offset.toNat

/-- The loop of `fdt_get_property_namelen_`: the offset of the property, or what `lenp` says. -/
def fdtGetPropertyFrom (fdt name : List UInt8) : Nat → Int → Option (Except Int Int)
  | 0, _ => none
  | turns + 1, offset =>
      if offset < 0 then some (.error offset)
      else if fdtCheckPropOffset fdt offset < 0 then some (.error (-FDT_ERR_INTERNAL))
      else if fdtStringEq fdt (wrapInt (fdt32 fdt (fdtPropPosition fdt offset + 8))) name then
        some (.ok offset)
      else do
        let next ← fdtNextPropertyOffset fdt offset
        fdtGetPropertyFrom fdt name turns next

def fdtGetPropertyNamelen (fdt : List UInt8) (nodeoffset : Int) (name : List UInt8) :
    Option (Except Int Int) := do
  let first ← fdtFirstPropertyOffset fdt nodeoffset
  fdtGetPropertyFrom fdt name (fdt.length + 1) first

/-- `fdt_get_property`. -/
def fdtGetProperty (fdt : List UInt8) (nodeoffset : Int) (name : List UInt8) :
    Option (Except Int Int) :=
  if fdtVersion fdt < 0x10 then some (.error (-FDT_ERR_BADVERSION))
  else fdtGetPropertyNamelen fdt nodeoffset name

/-- `fdt_getprop`: where the value is and how long it is, or the error. -/
def fdtGetprop (fdt : List UInt8) (nodeoffset : Int) (name : List UInt8) :
    Option (Except Int (Nat × Int)) := do
  match ← fdtGetPropertyNamelen fdt nodeoffset name with
  | .error err => some (.error err)
  | .ok offset =>
      let len := fdt32 fdt (fdtPropPosition fdt offset + 4)
      let data := fdtPropPosition fdt offset + 12
      let data :=
        if fdtVersion fdt < 0x10 ∧ (offset + 12) % 8 ≠ 0 ∧ len ≥ 8 then data + 4 else data
      some (.ok (data, wrapInt len))

end Zsbl.Libs
