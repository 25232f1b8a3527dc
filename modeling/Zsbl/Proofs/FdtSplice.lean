/-
Module: Zsbl.Proofs.FdtSplice
Purpose: What the splices of lib/fdt/fdt_rw.c make of a blob that has a tree in it.
Trusted boundary: none
Main exports:
  fdtSplice_parts, fdtSplice_full, FdtImage.rwProbe_bytes, FdtImage.spliceStruct_bytes,
  FdtImage.edited, FdtImage.edited_bytes
-/
import Zsbl.Libs.FdtRw
import Zsbl.Proofs.FdtProp

namespace Zsbl.Libs

open Zsbl.Lib

theorem toUint_natCast {n : Nat} (small : n < 2 ^ 32) : toUint n = n := by
  unfold toUint
  omega

theorem wrapInt_of_range {value : Int} (low : -2 ^ 31 ≤ value) (high : value < 2 ^ 31) :
    wrapInt value = value := by
  apply Int.bmod_eq_of_le
  · omega
  · omega

/-! ## Bytes -/

section Splices

variable {fdt front old back slack : List UInt8} {len : Nat}
  (split : fdt = front ++ (old ++ (back ++ slack))) (total : fdtTotalsize fdt = fdt.length)
  (data : fdtDataSize fdt = front.length + old.length + back.length)
  (small : fdt.length < 2 ^ 31) (fits : len < 2 ^ 31)

include split total data small fits

/-- What is behind the old bytes is moved, and everything else stays where it is. -/
theorem fdtSplice_parts (room : len ≤ old.length + slack.length) :
    fdtSplice fdt front.length old.length len =
      (front ++ ((old ++ (back ++ slack)).take len ++
        (back ++ (old ++ (back ++ slack)).drop (len + back.length))), 0) := by
  have length : fdt.length = front.length + (old.length + (back.length + slack.length)) := by
    rw [split]
    simp only [List.length_append]
  have grown : toUint ((fdtDataSize fdt : Int) + len) = fdtDataSize fdt + len := by
    unfold toUint
    omega
  have asked : toUint ((fdtDataSize fdt : Int) - old.length + len) =
      front.length + back.length + len := by
    unfold toUint
    omega
  have oldLen : toUint (old.length : Int) = old.length := toUint_natCast (by omega)
  have start : ((front.length : Int) + len).toNat = front.length + len := by omega
  have moved : (fdt.drop (front.length + old.length)).take
      (fdtDataSize fdt - (front.length + old.length)) = back := by
    have behind : fdtDataSize fdt - (front.length + old.length) = back.length := by omega
    rw [behind, split, List.drop_length_add_append, List.drop_left, List.take_left]
  unfold fdtSplice
  dsimp only
  rw [grown, oldLen, asked, total, if_neg (by omega), if_neg (by omega), if_neg (by omega), start,
    Int.toNat_natCast, moved]
  unfold overwrite
  rw [split, Nat.add_assoc, List.take_length_add_append, List.drop_length_add_append]
  simp only [List.append_assoc]

/-- Without space nothing is moved. -/
theorem fdtSplice_full (full : old.length + slack.length < len) :
    fdtSplice fdt front.length old.length len = (fdt, -FDT_ERR_NOSPACE) := by
  have length : fdt.length = front.length + (old.length + (back.length + slack.length)) := by
    rw [split]
    simp only [List.length_append]
  have grown : toUint ((fdtDataSize fdt : Int) + len) = fdtDataSize fdt + len := by
    unfold toUint
    omega
  have asked : toUint ((fdtDataSize fdt : Int) - old.length + len) =
      front.length + back.length + len := by
    unfold toUint
    omega
  have oldLen : toUint (old.length : Int) = old.length := toUint_natCast (by omega)
  unfold fdtSplice
  dsimp only
  rw [grown, oldLen, asked, total, if_neg (by omega), if_neg (by omega), if_pos (by omega)]

end Splices

namespace FdtImage

variable (img : FdtImage)

theorem dataSize_bytes : fdtDataSize img.bytes = img.offDtStrings + img.strings.length := by
  have bounds := img.bounds
  unfold fdtDataSize
  rw [img.offDtStrings_bytes, img.sizeDtStrings_bytes, ← Int.natCast_add,
    toUint_natCast (by omega)]

/-- The blob is one that may be written. -/
theorem rwProbe_bytes : fdtRwProbe img.bytes = (img.bytes, 0) := by
  have bounds := img.bounds
  have front := img.offMemRsvmap_ge
  have reserved := img.reserved
  have strings : img.offDtStruct + img.struct.length ≤ img.offDtStrings :=
    Nat.le_add_right _ _
  have ordered :
      fdtBlocksMisordered img.bytes 16 (wrapInt (fdtSizeDtStruct img.bytes)) = false := by
    have struct : toUint ((img.offDtStruct : Int) + wrapInt img.struct.length) =
        img.offDtStruct + img.struct.length := by
      rw [wrapInt_of_lt (by omega) (by omega), ← Int.natCast_add, toUint_natCast (by omega)]
    have reserve : toUint ((img.offMemRsvmap : Int) + 16) = img.offMemRsvmap + 16 := by
      unfold toUint
      omega
    have data : toUint ((img.offDtStrings : Int) + img.strings.length) =
        img.offDtStrings + img.strings.length := by
      rw [← Int.natCast_add, toUint_natCast (by omega)]
    unfold fdtBlocksMisordered
    rw [img.sizeDtStruct_bytes, img.offMemRsvmap_bytes, img.offDtStruct_bytes,
      img.offDtStrings_bytes, img.totalsize_bytes, img.sizeDtStrings_bytes, struct, reserve, data]
    simp only [Bool.or_eq_false_iff, decide_eq_false_iff_not]
    omega
  unfold fdtRwProbe
  rw [img.roProbe_bytes, img.version_bytes, ordered, if_neg (by omega), if_neg (by decide),
    if_neg (by decide), if_neg (by decide)]

/-! ## The structure -/

/-- The header with so many bytes of the structure in place of others. -/
def splicedHeader (oldlen newlen : Nat) : List Nat :=
  [FDT_MAGIC, img.totalsize, img.offDtStruct, img.offDtStrings + newlen - oldlen,
    img.offMemRsvmap, 17, img.lastCompVersion, img.bootCpuidPhys, img.strings.length,
    img.struct.length + newlen - oldlen]

variable {img} {first old second : List UInt8}

theorem bytes_split (split : img.struct = first ++ (old ++ second)) :
    img.bytes = wordBytes img.header ++ (img.reserve ++ first) ++
      (old ++ ((second ++ (img.gap ++ img.strings)) ++ img.slack)) := by
  rw [FdtLayout.bytes, split, FdtLayout.tail]
  simp only [List.append_assoc]

theorem length_front : (wordBytes img.header ++ (img.reserve ++ first)).length =
    img.offDtStruct + first.length := by
  rw [List.length_append, img.length_header, List.length_append, FdtLayout.offDtStruct,
    Nat.add_assoc]

theorem dataSize_split (split : img.struct = first ++ (old ++ second)) :
    fdtDataSize img.bytes = (wordBytes img.header ++ (img.reserve ++ first)).length +
      old.length + (second ++ (img.gap ++ img.strings)).length := by
  have structLength := congrArg List.length split
  have offset : img.offDtStrings = img.offDtStruct + img.struct.length + img.gap.length := rfl
  rw [img.dataSize_bytes, length_front]
  simp only [List.length_append] at structLength ⊢
  omega

/-- A part of the structure is replaced by so many bytes, which hold what was there. -/
theorem spliceStruct_bytes (split : img.struct = first ++ (old ++ second)) {len : Nat}
    (room : len ≤ old.length + img.slack.length) :
    ∃ middle slack', middle.length = len ∧
      slack'.length + len = old.length + img.slack.length ∧
      fdtSpliceStruct img.bytes (img.offDtStruct + first.length) old.length len =
        (wordBytes (img.splicedHeader old.length len) ++ (img.reserve ++ (first ++ (middle ++
          (second ++ (img.gap ++ (img.strings ++ slack')))))), 0) := by
  have bounds := img.bounds
  have structLength : img.struct.length = first.length + (old.length + second.length) := by
    rw [split]
    simp only [List.length_append]
  have total : img.totalsize = img.offDtStrings + img.strings.length + img.slack.length := rfl
  have offset : img.offDtStrings = img.offDtStruct + img.struct.length + img.gap.length := rfl
  have data := dataSize_split split
  have spliced := fdtSplice_parts (bytes_split split)
    (by rw [img.totalsize_bytes, img.length_bytes]) data (by rw [img.length_bytes]; omega)
    (show len < 2 ^ 31 by omega) room
  generalize isMiddle : (old ++ ((second ++ (img.gap ++ img.strings)) ++ img.slack)).take len =
    middle at spliced
  generalize isSlack : (old ++ ((second ++ (img.gap ++ img.strings)) ++ img.slack)).drop
    (len + (second ++ (img.gap ++ img.strings)).length) = slack' at spliced
  have middleLength : middle.length = len := by
    rw [← isMiddle, List.length_take]
    simp only [List.length_append]
    omega
  have slackLength : slack'.length + len = old.length + img.slack.length := by
    rw [← isSlack, List.length_drop]
    simp only [List.length_append]
    omega
  refine ⟨middle, slack', middleLength, slackLength, ?_⟩
  rw [length_front] at spliced
  have delta : wrapInt ((len : Int) - old.length) = (len : Int) - old.length :=
    wrapInt_of_range (by omega) (by omega)
  have size : toUint ((img.struct.length : Int) + ((len : Int) - old.length)) =
      img.struct.length + len - old.length := by
    unfold toUint
    omega
  have strings : toUint ((img.offDtStrings : Int) + ((len : Int) - old.length)) =
      img.offDtStrings + len - old.length := by
    unfold toUint
    omega
  unfold fdtSpliceStruct
  rw [spliced]
  dsimp only
  rw [if_neg (by decide), delta]
  simp only [List.append_assoc]
  generalize img.reserve ++ (first ++ (middle ++ (second ++ (img.gap ++ (img.strings ++ slack')))))
    = blocks
  have nine : 9 < img.header.length := (by decide : 9 < 10)
  have three : 3 < (img.header.set 9 (img.struct.length + len - old.length)).length :=
    (by decide : 3 < 10)
  have readSize : fdtSizeDtStruct (wordBytes img.header ++ blocks) = img.struct.length :=
    fdt32_wordBytes (show img.header[9]? = some img.struct.length from rfl) (by omega) _
  have setSize : fdtSetSizeDtStruct (wordBytes img.header ++ blocks)
      (img.struct.length + len - old.length) =
        wordBytes (img.header.set 9 (img.struct.length + len - old.length)) ++ blocks :=
    overwrite_wordBytes nine _ _
  have readStrings : fdtOffDtStrings (wordBytes
      (img.header.set 9 (img.struct.length + len - old.length)) ++ blocks) = img.offDtStrings :=
    fdt32_wordBytes (i := 3) rfl (by omega) _
  have setStrings : fdtSetOffDtStrings (wordBytes
      (img.header.set 9 (img.struct.length + len - old.length)) ++ blocks)
        (img.offDtStrings + len - old.length) =
          wordBytes (img.splicedHeader old.length len) ++ blocks :=
    overwrite_wordBytes three _ _
  rw [readSize, size, setSize, readStrings, strings, setStrings]

/-- The splice fails when there is no space. -/
theorem spliceStruct_full (split : img.struct = first ++ (old ++ second)) {len : Nat}
    (fits : len < 2 ^ 31) (full : old.length + img.slack.length < len) :
    fdtSpliceStruct img.bytes (img.offDtStruct + first.length) old.length len =
      (img.bytes, -FDT_ERR_NOSPACE) := by
  have bounds := img.bounds
  have data := dataSize_split split
  have spliced := fdtSplice_full (bytes_split split)
    (by rw [img.totalsize_bytes, img.length_bytes]) data (by rw [img.length_bytes]; omega) fits full
  rw [length_front] at spliced
  unfold fdtSpliceStruct
  rw [spliced]
  exact if_pos (show -FDT_ERR_NOSPACE ≠ 0 by decide)

/-! ## Edited blobs -/

variable (img)

/-- The blob with another tree and as much space as is left. -/
def edited (root : FlatTree) (slack : List UInt8)
    (length : (tokenBytes (flatTokens root ++ [.done])).length + slack.length =
      img.struct.length + img.slack.length)
    (named : ∀ prop, .prop prop ∈ flatTokens root → prop.Named img.strings) : FdtImage where
  toFdtLayout := { img.toFdtLayout with root := root, slack := slack }
  lastComp_le := img.lastComp_le
  offMemRsvmap_ge := img.offMemRsvmap_ge
  reserved := img.reserved
  small := by
    have small := img.small
    simp only [FdtLayout.totalsize, FdtLayout.offDtStrings, FdtLayout.offDtStruct,
      FdtLayout.struct, FdtLayout.tokens] at small length ⊢
    omega
  named := named

variable {img}

/-- The blob that a splice leaves behind once the new part is written. -/
theorem edited_bytes {root : FlatTree} {slack new : List UInt8}
    (length : (tokenBytes (flatTokens root ++ [.done])).length + slack.length =
      img.struct.length + img.slack.length)
    (named : ∀ prop, .prop prop ∈ flatTokens root → prop.Named img.strings)
    (split : img.struct = first ++ (old ++ second))
    (split' : tokenBytes (flatTokens root ++ [.done]) = first ++ (new ++ second)) :
    (img.edited root slack length named).bytes =
      wordBytes (img.splicedHeader old.length new.length) ++ (img.reserve ++ (first ++ (new ++
        (second ++ (img.gap ++ (img.strings ++ slack)))))) ∧
      (img.edited root slack length named).totalsize = img.totalsize := by
  have struct : (img.edited root slack length named).struct = first ++ (new ++ second) := split'
  have structLength := congrArg List.length struct
  have oldLength := congrArg List.length split
  have same := length
  rw [split'] at same
  simp only [List.length_append] at structLength oldLength same
  have strings : (img.edited root slack length named).offDtStrings =
      img.offDtStrings + new.length - old.length := by
    change img.offDtStruct + (img.edited root slack length named).struct.length +
      img.gap.length = img.offDtStruct + img.struct.length + img.gap.length + _ - _
    omega
  have total : (img.edited root slack length named).totalsize = img.totalsize := by
    change (img.edited root slack length named).offDtStrings + img.strings.length +
      slack.length = img.offDtStrings + img.strings.length + img.slack.length
    have offset : img.offDtStrings = img.offDtStruct + img.struct.length + img.gap.length := rfl
    omega
  have header : (img.edited root slack length named).header =
      img.splicedHeader old.length new.length := by
    have size : (img.edited root slack length named).struct.length =
        img.struct.length + new.length - old.length := by omega
    unfold FdtLayout.header splicedHeader
    rw [total, strings, size]
    rfl
  refine ⟨?_, total⟩
  rw [FdtLayout.bytes, header, struct, FdtLayout.tail]
  simp only [List.append_assoc]
  rfl

end FdtImage

end Zsbl.Libs
