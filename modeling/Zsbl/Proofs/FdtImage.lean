/-
Module: Zsbl.Proofs.FdtImage
Purpose: Blobs that have a tree in them, as they are laid out, and how lib/fdt/fdt.c reads their
  header and their tags.
Trusted boundary: none
Main exports:
  FlatName, FlatProp, FlatTree, FdtToken, FdtImage, FdtImage.bytes, nextTag_bytes
-/
import Zsbl.Lib.OrderedTree
import Zsbl.Libs.Fdt

namespace Zsbl.Libs

open Zsbl.Lib

/-! ## Words -/

/-- Numbers as words, the high bytes first. -/
def wordBytes (numbers : List Nat) : List UInt8 := numbers.flatMap (beBytes 4)

@[simp] theorem length_wordBytes (numbers : List Nat) :
    (wordBytes numbers).length = 4 * numbers.length := by
  induction numbers with
  | nil => rfl
  | cons number numbers ih =>
      unfold wordBytes at ih ⊢
      rw [List.flatMap_cons, List.length_append, ih, length_beBytes, List.length_cons]
      omega

theorem wordBytes_append (numbers others : List Nat) :
    wordBytes (numbers ++ others) = wordBytes numbers ++ wordBytes others :=
  List.flatMap_append

theorem fdt32_of_drop {fdt rest : List UInt8} {position number : Nat} (fits : number < 2 ^ 32)
    (here : fdt.drop position = beBytes 4 number ++ rest) : fdt32 fdt position = number := by
  unfold fdt32
  rw [here, List.take_left' (length_beBytes 4 number), bigEndian_beBytes fits]

theorem length_wordBytes_take {numbers : List Nat} {i : Nat} (inside : i < numbers.length) :
    (wordBytes (numbers.take i)).length = 4 * i := by
  rw [length_wordBytes, List.length_take, Nat.min_eq_left (Nat.le_of_lt inside)]

theorem wordBytes_split {numbers : List Nat} {i : Nat} (inside : i < numbers.length) :
    wordBytes numbers = wordBytes (numbers.take i) ++
      (beBytes 4 numbers[i] ++ wordBytes (numbers.drop (i + 1))) := by
  have split : numbers = numbers.take i ++ numbers[i] :: numbers.drop (i + 1) := by
    rw [← List.drop_eq_getElem_cons inside, List.take_append_drop]
  conv_lhs => rw [split, wordBytes_append]
  rfl

/-- A word of a block is read. -/
theorem fdt32_wordBytes {numbers : List Nat} {i number : Nat}
    (isNumber : numbers[i]? = some number) (fits : number < 2 ^ 32) (rest : List UInt8) :
    fdt32 (wordBytes numbers ++ rest) (4 * i) = number := by
  obtain ⟨inside, rfl⟩ := List.getElem?_eq_some_iff.mp isNumber
  apply fdt32_of_drop fits
  rw [wordBytes_split inside, List.append_assoc, List.drop_left' (length_wordBytes_take inside),
    List.append_assoc]

/-- A word of a block is changed alone. -/
theorem overwrite_wordBytes {numbers : List Nat} {i : Nat} (inside : i < numbers.length)
    (number : Nat) (rest : List UInt8) :
    overwrite (wordBytes numbers ++ rest) (4 * i) (beBytes 4 number) =
      wordBytes (numbers.set i number) ++ rest := by
  have changed : wordBytes (numbers.set i number) = wordBytes (numbers.take i) ++
      (beBytes 4 number ++ wordBytes (numbers.drop (i + 1))) := by
    rw [List.set_eq_take_append_cons_drop, if_pos inside, wordBytes_append]
    rfl
  rw [changed, wordBytes_split inside, List.append_assoc, List.append_assoc,
    overwrite_middle (length_wordBytes_take inside) (by simp)]
  simp only [List.append_assoc]

/-! ## Layout -/

/-- The name of a node with its terminator, up to the next word. -/
structure FlatName where
  chars : List UInt8
  pad : List UInt8
  isString : 0 ∉ chars
  aligned : (chars.length + 1 + pad.length) % 4 = 0
  short : pad.length < 4

/-- A property, whose name is in the block of strings, up to the next word. -/
structure FlatProp where
  nameoff : Nat
  value : List UInt8
  pad : List UInt8
  aligned : (value.length + pad.length) % 4 = 0
  short : pad.length < 4

structure FlatLabel where
  name : FlatName
  props : List FlatProp

abbrev FlatTree : Type := OrderedTree FlatLabel

inductive FdtToken where
  | beginNode (name : FlatName)
  | prop (prop : FlatProp)
  | endNode
  | done

namespace FdtToken

def tag : FdtToken → Nat
  | beginNode _ => FDT_BEGIN_NODE
  | prop _ => FDT_PROP
  | endNode => FDT_END_NODE
  | done => FDT_END

/-- What stands behind the tag. -/
def body : FdtToken → List UInt8
  | beginNode name => name.chars ++ 0 :: name.pad
  | prop flat =>
      beBytes 4 flat.value.length ++ (beBytes 4 flat.nameoff ++ (flat.value ++ flat.pad))
  | endNode => []
  | done => []

/-- How many bytes it takes to the next word. -/
def padding : FdtToken → Nat
  | beginNode name => name.pad.length
  | prop flat => flat.pad.length
  | endNode => 0
  | done => 0

def bytes (token : FdtToken) : List UInt8 := beBytes 4 token.tag ++ token.body

theorem length_bytes (token : FdtToken) : token.bytes.length = 4 + token.body.length := by
  simp [bytes]

/-- The body of a token is padded to whole words. -/
theorem aligned (token : FdtToken) : token.body.length % 4 = 0 := by
  cases token with
  | beginNode name =>
      have aligned := name.aligned
      simp only [body, List.length_append, List.length_cons]
      omega
  | prop flat =>
      have aligned := flat.aligned
      simp only [body, List.length_append, length_beBytes]
      omega
  | endNode => rfl
  | done => rfl

/-- There are less than four bytes of padding, and they are in the body. -/
theorem padding_le (token : FdtToken) :
    token.padding ≤ token.body.length ∧ token.padding < 4 := by
  cases token with
  | beginNode name =>
      have short := name.short
      simp only [padding, body, List.length_append, List.length_cons]
      omega
  | prop flat =>
      have short := flat.short
      simp only [padding, body, List.length_append]
      omega
  | endNode => decide
  | done => decide

theorem tag_lt (token : FdtToken) : token.tag < 2 ^ 32 := by
  unfold tag
  split <;> decide

end FdtToken

def tokenBytes (tokens : List FdtToken) : List UInt8 := tokens.flatMap FdtToken.bytes

@[simp] theorem tokenBytes_append (tokens others : List FdtToken) :
    tokenBytes (tokens ++ others) = tokenBytes tokens ++ tokenBytes others := List.flatMap_append

@[simp] theorem tokenBytes_cons (token : FdtToken) (tokens : List FdtToken) :
    tokenBytes (token :: tokens) = token.bytes ++ tokenBytes tokens := List.flatMap_cons

@[simp] theorem tokenBytes_nil : tokenBytes [] = [] := rfl

theorem length_tokenBytes_mod (tokens : List FdtToken) : (tokenBytes tokens).length % 4 = 0 := by
  induction tokens with
  | nil => rfl
  | cons token tokens ih =>
      have aligned := token.aligned
      rw [tokenBytes_cons, List.length_append, token.length_bytes]
      omega

/-- The offset behind some tokens. -/
def tokenOffset (before : List FdtToken) : Int := ((tokenBytes before).length : Nat)

theorem tokenOffset_nonneg (before : List FdtToken) : 0 ≤ tokenOffset before :=
  Int.natCast_nonneg _

def FlatLabel.opening (label : FlatLabel) : List FdtToken :=
  .beginNode label.name :: label.props.map .prop

def flatTokens (tree : FlatTree) : List FdtToken := tree.brackets FlatLabel.opening [.endNode]

/-- The blocks of a blob, one behind the other: the header with the reserved memory, the
structure, and the strings. -/
structure FdtLayout where
  offMemRsvmap : Nat
  lastCompVersion : Nat
  bootCpuidPhys : Nat
  reserve : List UInt8
  root : FlatTree
  gap : List UInt8
  strings : List UInt8
  slack : List UInt8

namespace FdtLayout

variable (img : FdtLayout)

def tokens : List FdtToken := flatTokens img.root ++ [.done]

def struct : List UInt8 := tokenBytes img.tokens

def offDtStruct : Nat := 40 + img.reserve.length

def offDtStrings : Nat := img.offDtStruct + img.struct.length + img.gap.length

def totalsize : Nat := img.offDtStrings + img.strings.length + img.slack.length

def header : List Nat :=
  [FDT_MAGIC, img.totalsize, img.offDtStruct, img.offDtStrings, img.offMemRsvmap, 17,
    img.lastCompVersion, img.bootCpuidPhys, img.strings.length, img.struct.length]

/-- What is behind the structure. -/
def tail : List UInt8 := img.gap ++ (img.strings ++ img.slack)

def bytes : List UInt8 := wordBytes img.header ++ (img.reserve ++ (img.struct ++ img.tail))

end FdtLayout

/-- The name is terminated in the block of strings. -/
def FlatProp.Named (strings : List UInt8) (prop : FlatProp) : Prop :=
  0 ∈ strings.drop prop.nameoff

/-- A blob that libfdt may write to, with a tree without `FDT_NOP`. -/
structure FdtImage extends FdtLayout where
  lastComp_le : lastCompVersion ≤ 17
  offMemRsvmap_ge : 40 ≤ offMemRsvmap
  reserved : offMemRsvmap + 16 ≤ toFdtLayout.offDtStruct
  small : toFdtLayout.totalsize < INT32_MAX
  named : ∀ prop, .prop prop ∈ flatTokens root → prop.Named strings

namespace FdtImage

variable (img : FdtImage)

theorem length_header : (wordBytes img.header).length = 40 := by
  rw [length_wordBytes]
  rfl

theorem length_bytes : img.bytes.length = img.totalsize := by
  simp only [FdtLayout.bytes, FdtLayout.tail, List.length_append, img.length_header,
    FdtLayout.totalsize, FdtLayout.offDtStrings, FdtLayout.offDtStruct]
  omega

theorem bounds : img.offDtStruct + img.struct.length ≤ img.totalsize ∧
    img.offDtStrings + img.strings.length ≤ img.totalsize ∧ img.totalsize < 2 ^ 31 - 1 := by
  have small := img.small
  unfold INT32_MAX at small
  simp only [FdtLayout.totalsize, FdtLayout.offDtStrings] at small ⊢
  omega

/-! ## Header -/

theorem fdt32_header {i number : Nat} (isNumber : img.header[i]? = some number)
    (fits : number < 2 ^ 32) : fdt32 img.bytes (4 * i) = number :=
  fdt32_wordBytes isNumber fits _

@[simp] theorem magic_bytes : fdtMagic img.bytes = FDT_MAGIC :=
  img.fdt32_header (i := 0) rfl (by decide)

@[simp] theorem totalsize_bytes : fdtTotalsize img.bytes = img.totalsize :=
  img.fdt32_header (i := 1) rfl (by have := img.bounds; omega)

@[simp] theorem offDtStruct_bytes : fdtOffDtStruct img.bytes = img.offDtStruct :=
  img.fdt32_header (i := 2) rfl (by have := img.bounds; omega)

@[simp] theorem offDtStrings_bytes : fdtOffDtStrings img.bytes = img.offDtStrings :=
  img.fdt32_header (i := 3) rfl (by have := img.bounds; omega)

@[simp] theorem offMemRsvmap_bytes : fdtOffMemRsvmap img.bytes = img.offMemRsvmap :=
  img.fdt32_header (i := 4) rfl (by have := img.bounds; have := img.reserved; omega)

@[simp] theorem version_bytes : fdtVersion img.bytes = 17 :=
  img.fdt32_header (i := 5) rfl (by decide)

@[simp] theorem lastCompVersion_bytes : fdtLastCompVersion img.bytes = img.lastCompVersion :=
  img.fdt32_header (i := 6) rfl (by have := img.lastComp_le; omega)

@[simp] theorem sizeDtStrings_bytes : fdtSizeDtStrings img.bytes = img.strings.length :=
  img.fdt32_header (i := 8) rfl (by have := img.bounds; omega)

@[simp] theorem sizeDtStruct_bytes : fdtSizeDtStruct img.bytes = img.struct.length :=
  img.fdt32_header (i := 9) rfl (by have := img.bounds; omega)

@[simp] theorem roProbe_bytes : fdtRoProbe img.bytes = img.totalsize := by
  have version : ¬ 17 < FDT_FIRST_SUPPORTED_VERSION := by decide
  have lastComp : ¬ img.lastCompVersion > FDT_LAST_SUPPORTED_VERSION := not_lt.mpr img.lastComp_le
  unfold fdtRoProbe
  simp only [magic_bytes, totalsize_bytes, version_bytes, lastCompVersion_bytes, if_neg version,
    if_neg lastComp, if_pos img.small, if_true]

/-! ## Tags -/

theorem drop_bytes {offset : Nat} (inside : offset ≤ img.struct.length) :
    img.bytes.drop (img.offDtStruct + offset) = img.struct.drop offset ++ img.tail := by
  have front : (wordBytes img.header ++ img.reserve).length = img.offDtStruct := by
    rw [List.length_append, img.length_header]
    rfl
  rw [FdtLayout.bytes, ← List.append_assoc, ← front, List.drop_length_add_append,
    List.drop_append_of_le_length inside]

/-- An offset inside the structure block passes the checks. -/
theorem offsetPtr_bytes {offset len : Nat} (inside : offset + len ≤ img.struct.length) :
    fdtOffsetPtr img.bytes offset len = some (img.offDtStruct + offset) := by
  have bounds := img.bounds
  have uoffset : toUint offset = offset := by
    unfold toUint
    omega
  unfold fdtOffsetPtr
  simp only [uoffset, offDtStruct_bytes, totalsize_bytes, sizeDtStruct_bytes]
  rw [if_neg (by omega), if_neg (by omega), if_neg (by omega)]

theorem lt_of_drop {offset : Nat} {byte : UInt8} {rest : List UInt8}
    (here : img.struct.drop offset = byte :: rest) : offset < img.struct.length := by
  by_contra outside
  rw [List.drop_eq_nil_of_le (not_lt.mp outside)] at here
  cases here

/-- A byte of the structure block is one of the blob. -/
theorem getD_bytes {offset : Nat} {byte : UInt8} {rest : List UInt8}
    (here : img.struct.drop offset = byte :: rest) :
    img.bytes.getD (img.offDtStruct + offset) 0 = byte := by
  have inside := img.lt_of_drop here
  have first : (img.bytes.drop (img.offDtStruct + offset))[0]? = some byte := by
    rw [img.drop_bytes (Nat.le_of_lt inside), here]
    rfl
  rw [List.getElem?_drop, Nat.add_zero] at first
  rw [List.getD_eq_getElem?_getD, first, Option.getD_some]

/-- A round passes one character of the name. -/
theorem skipName_step {offset : Nat} {byte : UInt8} {rest : List UInt8}
    (here : img.struct.drop offset = byte :: rest) :
    fdtSkipName img.bytes offset =
      if byte = 0 then some ((offset + 1 : Nat) : Int)
      else fdtSkipName img.bytes (offset + 1 : Nat) := by
  have inside := img.lt_of_drop here
  have bounds := img.bounds
  have pointer := img.offsetPtr_bytes (show offset + 1 ≤ img.struct.length from inside)
  rw [fdtSkipName, dif_pos (by omega)]
  split
  case h_1 missing =>
    rw [pointer] at missing
    cases missing
  case h_2 position isPointer =>
    rw [pointer] at isPointer
    cases isPointer
    rw [img.getD_bytes here]
    rfl

/-- The name is passed with its NUL. -/
theorem skipName_bytes {chars rest : List UInt8} (isString : 0 ∉ chars) {offset : Nat}
    (here : img.struct.drop offset = chars ++ 0 :: rest) :
    fdtSkipName img.bytes offset = some ((offset + chars.length + 1 : Nat) : Int) := by
  induction chars generalizing offset with
  | nil => rw [img.skipName_step here, if_pos rfl, List.length_nil, Nat.add_zero]
  | cons c chars ih =>
      rw [List.mem_cons, not_or] at isString
      have later : img.struct.drop (offset + 1) = chars ++ 0 :: rest := by
        rw [← List.drop_drop, here]
        rfl
      rw [img.skipName_step here, if_neg (Ne.symm isString.1), ih isString.2 later,
        List.length_cons]
      congr 2
      omega

/-- A word of the structure block is read. -/
theorem fdt32_bytes {offset number : Nat} {rest : List UInt8} (fits : number < 2 ^ 32)
    (here : img.struct.drop offset = beBytes 4 number ++ rest) :
    fdt32 img.bytes (img.offDtStruct + offset) = number := by
  have inside : offset ≤ img.struct.length := by
    by_contra outside
    rw [List.drop_eq_nil_of_le (not_le.mp outside).le] at here
    have length := congrArg List.length here
    rw [List.length_nil, List.length_append, length_beBytes] at length
    omega
  have inBlob : img.bytes.drop (img.offDtStruct + offset) =
      beBytes 4 number ++ (rest ++ img.tail) := by
    rw [img.drop_bytes inside, here, List.append_assoc]
  exact fdt32_of_drop fits inBlob

/-- The bytes of the tokens in front of one. -/
theorem drop_struct {before after : List FdtToken} {token : FdtToken}
    (split : img.tokens = before ++ token :: after) :
    img.struct.drop (tokenBytes before).length =
      beBytes 4 token.tag ++ (token.body ++ tokenBytes after) := by
  rw [FdtLayout.struct, split, tokenBytes_append, List.drop_left, tokenBytes_cons,
    FdtToken.bytes, List.append_assoc]

theorem tagAlign_of_mod {offset : Nat} {pad : Nat} (short : pad < 4)
    (aligned : (offset + pad) % 4 = 0) (small : offset + pad < 2 ^ 31) :
    fdtTagAlign offset = ((offset + pad : Nat) : Int) := by
  unfold fdtTagAlign
  have value : ((offset : Int) + 3) / 4 * 4 = ((offset + pad : Nat) : Int) := by omega
  rw [value, wrapInt_of_lt (by omega) (by omega)]

/-- The body of a token is passed. -/
theorem skipBody_bytes {offset : Nat} {token : FdtToken} {rest : List UInt8}
    (here : img.struct.drop offset = token.body ++ rest)
    (inside : offset + token.body.length ≤ img.struct.length) :
    fdtSkipBody img.bytes token.tag offset =
      some ((offset + (token.body.length - token.padding) : Nat) : Int) := by
  have bounds := img.bounds
  cases token with
  | beginNode name =>
      have nameHere : img.struct.drop offset = name.chars ++ 0 :: (name.pad ++ rest) := by
        simpa [FdtToken.body] using here
      rw [fdtSkipBody, if_pos (by rfl), img.skipName_bytes name.isString nameHere]
      simp only [FdtToken.body, FdtToken.padding, List.length_append, List.length_cons]
      congr 2
      omega
  | prop flat =>
      simp only [FdtToken.body, List.length_append, length_beBytes] at inside
      have lenHere : img.struct.drop offset = beBytes 4 flat.value.length ++
          (beBytes 4 flat.nameoff ++ (flat.value ++ flat.pad) ++ rest) := by
        simpa [FdtToken.body] using here
      have lenp := img.offsetPtr_bytes (show offset + 4 ≤ img.struct.length by omega)
      have len := img.fdt32_bytes (by omega) lenHere
      have other : (FdtToken.prop flat).tag ≠ FDT_BEGIN_NODE :=
        (by decide : FDT_PROP ≠ FDT_BEGIN_NODE)
      rw [fdtSkipBody, if_neg other, if_pos (by rfl), lenp, Option.map_some, len,
        img.version_bytes, if_neg (by omega), wrapInt_of_lt (by omega) (by omega)]
      simp only [FdtToken.body, FdtToken.padding, List.length_append, length_beBytes]
      congr 1
      omega
  | endNode => rfl
  | done => rfl

/-- `fdt_next_tag` at a token yields its tag and goes to the next one. -/
theorem nextTag_bytes {before after : List FdtToken} {token : FdtToken}
    (split : img.tokens = before ++ token :: after) :
    fdtNextTag img.bytes (tokenOffset before) =
      (token.tag, tokenOffset (before ++ [token])) := by
  have padding := token.padding_le
  have total (start : Nat) : start + 4 + (token.body.length - token.padding) + token.padding =
      start + (4 + token.body.length) := by
    have inside := padding.1
    clear split padding
    omega
  have bounds := img.bounds
  have here := img.drop_struct split
  have whole : (tokenBytes before).length + (4 + token.body.length) ≤ img.struct.length := by
    have length := congrArg List.length here
    simp only [List.length_drop, List.length_append, length_beBytes] at length
    omega
  have aligned := length_tokenBytes_mod before
  have bodyAligned := token.aligned
  have behind : (tokenBytes (before ++ [token])).length =
      (tokenBytes before).length + (4 + token.body.length) := by
    simp [FdtToken.length_bytes]
  unfold tokenOffset
  generalize (tokenBytes before).length = start at here whole aligned behind ⊢
  have body : img.struct.drop (start + 4) = token.body ++ tokenBytes after := by
    rw [← List.drop_drop, here, List.drop_left' (length_beBytes 4 token.tag)]
  have tagp := img.offsetPtr_bytes (show start + 4 ≤ img.struct.length by omega)
  have tag := img.fdt32_bytes token.tag_lt here
  have skipped := img.skipBody_bytes body (by omega)
  have stop : toUint (((start + 4 + (token.body.length - token.padding) : Nat) : Int) - start) =
      4 + (token.body.length - token.padding) := by
    unfold toUint
    omega
  have endInside := img.offsetPtr_bytes
    (show start + (4 + (token.body.length - token.padding)) ≤ img.struct.length by omega)
  have next := tagAlign_of_mod padding.2
    (show (start + 4 + (token.body.length - token.padding) + token.padding) % 4 = 0 by omega)
    (by omega)
  have bodyStart : (start : Int) + 4 = ((start + 4 : Nat) : Int) := by simp
  unfold fdtNextTag
  rw [tagp]
  dsimp only
  rw [tag, bodyStart, skipped]
  dsimp only
  rw [stop, endInside, if_neg (by simp), next, behind, total]

end FdtImage

end Zsbl.Libs
