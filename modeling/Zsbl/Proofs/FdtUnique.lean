/-
Module: Zsbl.Proofs.FdtUnique
Purpose: The bytes of a blob have only one tree in them.
Trusted boundary: none
Main exports:
  FdtToken.bytes_inj, tokenBytes_inj, flatTokens_inj, FdtImage.dt_unique
-/
import Zsbl.Proofs.FdtProp

namespace Zsbl.Libs

open Zsbl.Lib

/-! ## Tokens -/

/-- The numbers that a property writes down are 32 bits wide. -/
def FdtToken.Fits : FdtToken → Prop
  | prop flat => flat.value.length < 2 ^ 32 ∧ flat.nameoff < 2 ^ 32
  | _ => True

theorem beBytes_inj {number number' : Nat} (fits : number < 2 ^ 32) (fits' : number' < 2 ^ 32)
    {rest rest' : List UInt8} (same : beBytes 4 number ++ rest = beBytes 4 number' ++ rest') :
    number = number' ∧ rest = rest' := by
  obtain ⟨words, behind⟩ := List.append_inj same (by rw [length_beBytes, length_beBytes])
  have numbers := congrArg bigEndian words
  rw [bigEndian_beBytes fits, bigEndian_beBytes fits'] at numbers
  exact ⟨numbers, behind⟩

/-- What is aligned in the same way takes as much. -/
theorem pad_inj {size : Nat} {pad pad' rest rest' : List UInt8}
    (aligned : (size + pad.length) % 4 = 0) (aligned' : (size + pad'.length) % 4 = 0)
    (short : pad.length < 4) (short' : pad'.length < 4) (same : pad ++ rest = pad' ++ rest') :
    pad = pad' ∧ rest = rest' :=
  List.append_inj same (by omega)

/-- The NUL tells where a name ends, and the padding follows from its length. -/
theorem name_inj {name name' : FlatName} {rest rest' : List UInt8}
    (same : name.chars ++ 0 :: (name.pad ++ rest) = name'.chars ++ 0 :: (name'.pad ++ rest')) :
    name = name' ∧ rest = rest' := by
  obtain ⟨chars, pad, isString, aligned, short⟩ := name
  obtain ⟨chars', pad', isString', aligned', short'⟩ := name'
  dsimp only at same
  have strings := congrArg cstr same
  rw [cstr_append_zero isString, cstr_append_zero isString'] at strings
  subst strings
  obtain ⟨rfl, behind⟩ := pad_inj aligned aligned' short short'
    (List.cons.inj (List.append_cancel_left same)).2
  exact ⟨rfl, behind⟩

/-- The length in front of a value tells where it ends. -/
theorem prop_inj {flat flat' : FlatProp} (fits : (FdtToken.prop flat).Fits)
    (fits' : (FdtToken.prop flat').Fits) {rest rest' : List UInt8}
    (same : (FdtToken.prop flat).body ++ rest = (FdtToken.prop flat').body ++ rest') :
    flat = flat' ∧ rest = rest' := by
  obtain ⟨nameoff, value, pad, aligned, short⟩ := flat
  obtain ⟨nameoff', value', pad', aligned', short'⟩ := flat'
  simp only [FdtToken.body, List.append_assoc] at same
  obtain ⟨length, named⟩ := beBytes_inj fits.1 fits'.1 same
  obtain ⟨sameName, valued⟩ := beBytes_inj fits.2 fits'.2 named
  obtain ⟨rfl, padded⟩ := List.append_inj valued length
  obtain ⟨rfl, behind⟩ := pad_inj aligned aligned' short short' padded
  dsimp only at sameName
  exact ⟨by rw [sameName], behind⟩

/-- A token can be read from what starts with its bytes. -/
theorem FdtToken.bytes_inj {token other : FdtToken} (fits : token.Fits) (fits' : other.Fits)
    {rest rest' : List UInt8} (same : token.bytes ++ rest = other.bytes ++ rest') :
    token = other ∧ rest = rest' := by
  unfold bytes at same
  rw [List.append_assoc, List.append_assoc] at same
  obtain ⟨sameTag, same⟩ := beBytes_inj token.tag_lt other.tag_lt same
  cases token <;> cases other <;> cases sameTag
  case beginNode.beginNode name name' =>
      simp only [body, List.append_assoc, List.cons_append] at same
      obtain ⟨rfl, behind⟩ := name_inj same
      exact ⟨rfl, behind⟩
  case prop.prop flat flat' =>
      obtain ⟨rfl, behind⟩ := prop_inj fits fits' same
      exact ⟨rfl, behind⟩
  case endNode.endNode => exact ⟨rfl, same⟩
  case done.done => exact ⟨rfl, same⟩

/-- Tokens are told apart by their bytes. -/
theorem tokenBytes_inj {tokens others : List FdtToken} (fits : ∀ token ∈ tokens, token.Fits)
    (fits' : ∀ token ∈ others, token.Fits) (same : tokenBytes tokens = tokenBytes others) :
    tokens = others := by
  induction tokens generalizing others with
  | nil =>
      cases others with
      | nil => rfl
      | cons other others =>
          have length := congrArg List.length same
          rw [tokenBytes_cons, List.length_append, other.length_bytes] at length
          change 0 = _ at length
          omega
  | cons token tokens ih =>
      cases others with
      | nil =>
          have length := congrArg List.length same
          rw [tokenBytes_cons, List.length_append, token.length_bytes] at length
          change _ = 0 at length
          omega
      | cons other others =>
          rw [tokenBytes_cons, tokenBytes_cons] at same
          rw [List.forall_mem_cons] at fits fits'
          obtain ⟨rfl, behind⟩ := FdtToken.bytes_inj fits.1 fits'.1 same
          rw [ih fits.2 fits'.2 behind]

/-! ## Trees -/

/-- What may be behind the properties of a node. -/
def StopsProps (tokens : List FdtToken) : Prop := ∀ flat, tokens.head? ≠ some (.prop flat)

/-- The properties of a node end where another token begins. -/
theorem props_inj {props props' : List FlatProp} {rest rest' : List FdtToken}
    (stops : StopsProps rest) (stops' : StopsProps rest')
    (same : props.map FdtToken.prop ++ rest = props'.map .prop ++ rest') :
    props = props' ∧ rest = rest' := by
  induction props generalizing props' with
  | nil =>
      cases props' with
      | nil => exact ⟨rfl, same⟩
      | cons flat props' => exact absurd (congrArg List.head? same) (stops flat)
  | cons flat props ih =>
      cases props' with
      | nil => exact absurd (congrArg List.head? same).symm (stops' flat)
      | cons flat' props' =>
          obtain ⟨first, later⟩ := List.cons.inj same
          obtain ⟨rfl, behind⟩ := ih later
          exact ⟨by rw [FdtToken.prop.inj first], behind⟩

/-- The tokens of a node are brackets around those of its children. -/
theorem delimited_flat : OrderedTree.Delimited FlatLabel.opening [.endNode] StopsProps where
  reads := by
    intro label label' rest rest' stops stops' same
    obtain ⟨name, props⟩ := label
    obtain ⟨name', props'⟩ := label'
    obtain ⟨first, later⟩ := List.cons.inj same
    obtain ⟨sameProps, behind⟩ := props_inj stops stops' later
    exact ⟨by rw [FlatLabel.mk.injEq]; exact ⟨FdtToken.beginNode.inj first, sameProps⟩, behind⟩
  stops_opening := nofun
  stops_closing := nofun
  apart := nofun

theorem flatTokens_inj {tree other : FlatTree} {rest rest' : List FdtToken}
    (same : flatTokens tree ++ rest = flatTokens other ++ rest') : tree = other :=
  (OrderedTree.brackets_inj delimited_flat tree other same).1

/-! ## Blobs -/

namespace FdtImage

variable {img img' : FdtImage}

/-- The numbers in a token of a blob fit into their words. -/
theorem token_fits (img : FdtImage) {token : FdtToken} (member : token ∈ img.tokens) :
    token.Fits := by
  cases token with
  | prop flat =>
      have bounds := img.bounds
      obtain ⟨before, after, split⟩ := List.append_of_mem member
      have here := congrArg List.length (img.drop_struct split)
      simp only [List.length_drop, List.length_append, length_beBytes, FdtToken.body] at here
      have inTree : .prop flat ∈ flatTokens img.root := by
        rcases List.mem_append.mp member with inside | last
        · exact inside
        · cases List.mem_singleton.mp last
      have named := (img.named flat inTree).lt
      exact ⟨by omega, by omega⟩
  | _ => trivial

theorem struct_bytes (img : FdtImage) :
    (img.bytes.drop (fdtOffDtStruct img.bytes)).take (fdtSizeDtStruct img.bytes) = img.struct := by
  have dropped := img.drop_bytes (Nat.zero_le _)
  rw [Nat.add_zero, List.drop_zero] at dropped
  rw [img.offDtStruct_bytes, img.sizeDtStruct_bytes, dropped, List.take_left]

/-- The strings block is read off the blob. -/
theorem strings_bytes (img : FdtImage) :
    (img.bytes.drop (fdtOffDtStrings img.bytes)).take (fdtSizeDtStrings img.bytes) =
      img.strings := by
  have front : (wordBytes img.header ++ (img.reserve ++ (img.struct ++ img.gap))).length =
      img.offDtStrings := by
    simp only [List.length_append, img.length_header, FdtLayout.offDtStrings,
      FdtLayout.offDtStruct]
    omega
  have split : img.bytes = wordBytes img.header ++ (img.reserve ++ (img.struct ++ img.gap)) ++
      (img.strings ++ img.slack) := by
    simp only [FdtLayout.bytes, FdtLayout.tail, List.append_assoc]
  rw [img.offDtStrings_bytes, img.sizeDtStrings_bytes, split, List.drop_left' front,
    List.take_left]

/-- The bytes of a blob have one tree and one block of strings in them. -/
theorem root_unique (same : img.bytes = img'.bytes) :
    img.root = img'.root ∧ img.strings = img'.strings := by
  have struct := img.struct_bytes
  have strings := img.strings_bytes
  rw [same] at struct strings
  rw [struct_bytes] at struct
  rw [strings_bytes] at strings
  have tokens : img'.tokens = img.tokens :=
    tokenBytes_inj (fun _ => img'.token_fits) (fun _ => img.token_fits) struct
  exact ⟨(flatTokens_inj tokens).symm, strings.symm⟩

theorem dt_unique (same : img.bytes = img'.bytes) : img.dt = img'.dt := by
  obtain ⟨root, strings⟩ := root_unique same
  unfold dt
  rw [root, strings]

end FdtImage

end Zsbl.Libs
