/-
Module: Zsbl.Libs.FdtRw
Purpose: Editing a flattened device tree in its place, lib/fdt/fdt_rw.c. An edit yields the blob
  behind it and what the function returns.
Trusted boundary: none
Main exports:
  fdtRwProbe, fdtSplice, fdtSpliceStruct, fdtFindAddString, fdtDelNode, fdtSetprop, fdtStores
-/
import Zsbl.Libs.Fdt

namespace Zsbl.Libs

open Zsbl.Lib

/-! ## Header -/

def fdtSetOffDtStrings (fdt : List UInt8) (number : Nat) : List UInt8 :=
  overwrite fdt 12 (beBytes 4 number)

def fdtSetVersion (fdt : List UInt8) (number : Nat) : List UInt8 :=
  overwrite fdt 20 (beBytes 4 number)

def fdtSetSizeDtStrings (fdt : List UInt8) (number : Nat) : List UInt8 :=
  overwrite fdt 32 (beBytes 4 number)

def fdtSetSizeDtStruct (fdt : List UInt8) (number : Nat) : List UInt8 :=
  overwrite fdt 36 (beBytes 4 number)

/-- `fdt_blocks_misordered_`, which adds as `uint32_t`. -/
def fdtBlocksMisordered (fdt : List UInt8) (memRsvSize structSize : Int) : Bool :=
  fdtOffMemRsvmap fdt < 40 ||
    fdtOffDtStruct fdt < toUint (fdtOffMemRsvmap fdt + memRsvSize) ||
    fdtOffDtStrings fdt < toUint (fdtOffDtStruct fdt + structSize) ||
    fdtTotalsize fdt < toUint (fdtOffDtStrings fdt + fdtSizeDtStrings fdt)

/-- `fdt_rw_probe_`, which makes a later version the one that it knows. -/
def fdtRwProbe (fdt : List UInt8) : List UInt8 × Int :=
  if fdtRoProbe fdt < 0 then (fdt, fdtRoProbe fdt)
  else if fdtVersion fdt < 17 then (fdt, -FDT_ERR_BADVERSION)
  else if fdtBlocksMisordered fdt 16 (wrapInt (fdtSizeDtStruct fdt)) then
    (fdt, -FDT_ERR_BADLAYOUT)
  else if fdtVersion fdt > 17 then (fdtSetVersion fdt 17, 0)
  else (fdt, 0)

/-! ## Splices -/

/-- `fdt_data_size_` -/
def fdtDataSize (fdt : List UInt8) : Nat := toUint (fdtOffDtStrings fdt + fdtSizeDtStrings fdt)

/-- `fdt_splice_`: what is behind so many old bytes goes behind so many new ones. -/
def fdtSplice (fdt : List UInt8) (splicepoint : Nat) (oldlen newlen : Int) : List UInt8 × Int :=
  let dsize := fdtDataSize fdt
  if oldlen < 0 ∨ splicepoint + oldlen > dsize then (fdt, -FDT_ERR_BADOFFSET)
  else if toUint (dsize + newlen) < toUint oldlen then (fdt, -FDT_ERR_BADOFFSET)
  else if toUint (dsize - oldlen + newlen) > fdtTotalsize fdt then (fdt, -FDT_ERR_NOSPACE)
  else
    let start := splicepoint + oldlen.toNat
    (overwrite fdt (splicepoint + newlen).toNat ((fdt.drop start).take (dsize - start)), 0)

/-- `fdt_splice_struct_` -/
def fdtSpliceStruct (fdt : List UInt8) (p : Nat) (oldlen newlen : Int) : List UInt8 × Int :=
  let spliced := fdtSplice fdt p oldlen newlen
  if spliced.2 ≠ 0 then spliced
  else
    let delta := wrapInt (newlen - oldlen)
    let fdt := fdtSetSizeDtStruct spliced.1 (toUint (fdtSizeDtStruct spliced.1 + delta))
    (fdtSetOffDtStrings fdt (toUint (fdtOffDtStrings fdt + delta)), 0)

/-- `fdt_splice_string_` -/
def fdtSpliceString (fdt : List UInt8) (newlen : Int) : List UInt8 × Int :=
  let spliced := fdtSplice fdt (fdtOffDtStrings fdt + fdtSizeDtStrings fdt) 0 newlen
  if spliced.2 ≠ 0 then spliced
  else (fdtSetSizeDtStrings spliced.1 (toUint (fdtSizeDtStrings spliced.1 + newlen)), 0)

/-- `fdt_del_last_string_` -/
def fdtDelLastString (fdt s : List UInt8) : List UInt8 :=
  fdtSetSizeDtStrings fdt (toUint (fdtSizeDtStrings fdt - wrapInt (s.length + 1)))

/-- `fdt_find_string_` of lib/fdt/fdt.c, in the bytes from the block of strings on. -/
def fdtFindString (strtab : List UInt8) (tabsize : Nat) (s : List UInt8) : Option Nat :=
  (List.range (tabsize + 1 - (s.length + 1))).find? fun p =>
    (strtab.drop p).take (s.length + 1) = s ++ [0]

/-- `fdt_find_add_string_`: also whether the string is a new one. -/
def fdtFindAddString (fdt s : List UInt8) : List UInt8 × Int × Bool :=
  let size := fdtSizeDtStrings fdt
  match fdtFindString (fdt.drop (fdtOffDtStrings fdt)) size s with
  | some p => (fdt, p, false)
  | none =>
      let new := fdtOffDtStrings fdt + size
      let spliced := fdtSpliceString fdt (wrapInt (s.length + 1))
      if spliced.2 ≠ 0 then (spliced.1, spliced.2, false)
      else (overwrite spliced.1 new (s ++ [0]), size, true)

/-! ## Nodes -/

/-- The loop of `fdt_node_end_offset_` of lib/fdt/fdt_wip.c. -/
def fdtNodeEndFrom (fdt : List UInt8) : Nat → Int → Int → Option Int
  | 0, _, _ => none
  | turns + 1, offset, depth =>
      if offset ≥ 0 ∧ depth ≥ 0 then do
        let next ← fdtNextNode fdt offset (some depth)
        fdtNodeEndFrom fdt turns next.1 (next.2.getD depth)
      else some offset

def fdtNodeEndOffset (fdt : List UInt8) (offset : Int) : Option Int :=
  fdtNodeEndFrom fdt (fdt.length + 1) offset 0

/-- `fdt_del_node` -/
def fdtDelNode (fdt : List UInt8) (nodeoffset : Int) : Option (List UInt8 × Int) :=
  let probed := fdtRwProbe fdt
  if probed.2 ≠ 0 then some probed
  else do
    let endoffset ← fdtNodeEndOffset probed.1 nodeoffset
    if endoffset < 0 then some (probed.1, endoffset)
    else
      let position := fdtOffDtStruct probed.1 + nodeoffset.toNat
      some (fdtSpliceStruct probed.1 position (wrapInt (endoffset - nodeoffset)) 0)

/-! ## Properties -/

/-- `fdt_resize_property_`: where the property is, or the error. -/
def fdtResizeProperty (fdt : List UInt8) (nodeoffset : Int) (name : List UInt8) (len : Int) :
    Option (List UInt8 × Except Int Nat) := do
  match ← fdtGetProperty fdt nodeoffset name with
  | .error oldlen => some (fdt, .error oldlen)
  | .ok offset =>
      let prop := fdtPropPosition fdt offset
      let oldlen := fdtTagAlign (wrapInt (fdt32 fdt (prop + 4)))
      let spliced := fdtSpliceStruct fdt (prop + 12) oldlen (fdtTagAlign len)
      if spliced.2 ≠ 0 then some (spliced.1, .error spliced.2)
      else some (overwrite spliced.1 (prop + 4) (beBytes 4 (toUint len)), .ok prop)

/-- `fdt_add_property_` -/
def fdtAddProperty (fdt : List UInt8) (nodeoffset : Int) (name : List UInt8) (len : Int) :
    List UInt8 × Except Int Nat :=
  let nextoffset := fdtCheckNodeOffset fdt nodeoffset
  if nextoffset < 0 then (fdt, .error nextoffset)
  else
    let (fdt, namestroff, allocated) := fdtFindAddString fdt name
    if namestroff < 0 then (fdt, .error namestroff)
    else
      let prop := fdtOffDtStruct fdt + nextoffset.toNat
      let proplen := wrapInt (12 + fdtTagAlign len)
      let spliced := fdtSpliceStruct fdt prop 0 proplen
      if spliced.2 ≠ 0 then
        (if allocated then fdtDelLastString spliced.1 name else spliced.1, .error spliced.2)
      else
        let fdt := overwrite spliced.1 prop (beBytes 4 FDT_PROP)
        let fdt := overwrite fdt (prop + 8) (beBytes 4 (toUint namestroff))
        (overwrite fdt (prop + 4) (beBytes 4 (toUint len)), .ok prop)

/-- `fdt_setprop_placeholder` -/
def fdtSetpropPlaceholder (fdt : List UInt8) (nodeoffset : Int) (name : List UInt8) (len : Int) :
    Option (List UInt8 × Except Int Nat) :=
  let probed := fdtRwProbe fdt
  if probed.2 ≠ 0 then some (probed.1, .error probed.2)
  else do
    let resized ← fdtResizeProperty probed.1 nodeoffset name len
    match resized.2 with
    | .ok prop => some (resized.1, .ok prop)
    | .error err =>
        if err = -FDT_ERR_NOTFOUND then some (fdtAddProperty resized.1 nodeoffset name len)
        else some (resized.1, .error err)

/-- `fdt_setprop` -/
def fdtSetprop (fdt : List UInt8) (nodeoffset : Int) (name value : List UInt8) :
    Option (List UInt8 × Int) := do
  let placed ← fdtSetpropPlaceholder fdt nodeoffset name value.length
  match placed.2 with
  | .error err => some (placed.1, err)
  | .ok prop => some (overwrite placed.1 (prop + 12) value, 0)

/-! ## Callers -/

/-- A property that a platform writes at a path. -/
structure FdtStore where
  path : List UInt8
  name : List UInt8
  value : List UInt8

/-- The path is looked up, and the property is written to the node that it leads to. -/
def FdtStore.run (store : FdtStore) (fdt : List UInt8) : Option (List UInt8 × Int) := do
  let node ← fdtPathOffset fdt store.path
  if node < 0 then some (fdt, node) else fdtSetprop fdt node store.name store.value

/-- One after the other, with what each returned. -/
def fdtStores : List FdtStore → List UInt8 → Option (List UInt8 × List Int)
  | [], fdt => some (fdt, [])
  | store :: stores, fdt => do
      let stored ← store.run fdt
      let rest ← fdtStores stores stored.1
      some (rest.1, stored.2 :: rest.2)

end Zsbl.Libs
