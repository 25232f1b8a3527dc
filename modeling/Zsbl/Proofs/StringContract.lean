/-
Module: Zsbl.Proofs.StringContract
Purpose: What the string functions promise their callers, and where they keep it.
Trusted boundary: none
Main exports:
  Holds, FirstPosition, LastPosition, deviceSetChildName_eq, string_contract
-/
import Zsbl.Drivers.Device
import Zsbl.Proofs.Stdio

namespace Zsbl.Drivers

open Zsbl.Lib Zsbl.Libs

/-! ## Writing -/

/-- A buffer starts with a string and its terminator. -/
def Holds (block string : List UInt8) : Prop := ∃ rest, block = string ++ 0 :: rest

/-- A block holds the string in front of its first terminator. -/
theorem holds_iff {front rest : List UInt8} :
    Holds (front ++ rest) front ↔ rest.head? = some 0 := by
  constructor
  · rintro ⟨behind, same⟩
    rw [List.append_cancel_left same]
    rfl
  · intro first
    obtain ⟨behind, rfl⟩ := List.head?_eq_some_iff.mp first
    exact ⟨behind, rfl⟩

theorem holds_cstr {block string : List UInt8} (isString : 0 ∉ string)
    (holds : Holds block string) : cstr block = string := by
  obtain ⟨rest, rfl⟩ := holds
  exact cstr_append_zero isString rest

/-- Bytes that are written behind a string end where the next old byte is 0. -/
theorem writeBlock_holds {front rest bytes : List UInt8} (fits : bytes.length ≤ rest.length) :
    (∃ block, writeBlock (front ++ rest) front.length bytes = some block ∧
      Holds block (front ++ bytes)) ↔ rest[bytes.length]? = some 0 := by
  rw [writeBlock_behind front fits]
  simp only [Option.some.injEq, exists_eq_left', holds_iff, List.head?_drop]

/-! ## Searching -/

/-- The first position of a byte, or none. -/
def FirstPosition (c : UInt8) (s : List UInt8) : Option Nat → Prop
  | none => c ∉ s
  | some i => s[i]? = some c ∧ ∀ j < i, s[j]? ≠ some c

def LastPosition (c : UInt8) (s : List UInt8) : Option Nat → Prop
  | none => c ∉ s
  | some i => s[i]? = some c ∧ ∀ j, i < j → s[j]? ≠ some c

/-- Another character in front moves the first position. -/
theorem FirstPosition.cons {c ch : UInt8} {s : List UInt8} {found : Option Nat}
    (other : ch ≠ c) (first : FirstPosition c s found) :
    FirstPosition c (ch :: s) (found.map (· + 1)) := by
  cases found with
  | none => simpa [FirstPosition] using ⟨other.symm, first⟩
  | some i =>
      refine ⟨first.1, fun j before => ?_⟩
      cases j with
      | zero => simpa using other
      | succ j => exact first.2 j (Nat.lt_of_succ_lt_succ before)

/-- For a character that is not 0, `strchr` finds the first position. -/
theorem strchr_first {c : UInt8} (nonzero : c ≠ 0) {s : List UInt8} (isString : 0 ∉ s) :
    ∃ found, strchr c (s ++ [0]) = some found ∧ FirstPosition c (s ++ [0]) found := by
  induction s with
  | nil => exact ⟨none, by simp [strchr], by simpa [FirstPosition] using nonzero⟩
  | cons ch s ih =>
      obtain ⟨first, others⟩ : 0 ≠ ch ∧ 0 ∉ s := by simpa using isString
      obtain ⟨found, search, position⟩ := ih others
      by_cases here : ch = c
      · subst here
        exact ⟨some 0, by simp [strchr, nonzero], rfl,
          fun j before => absurd before (Nat.not_lt_zero j)⟩
      · exact ⟨found.map (· + 1), by simp [strchr, first.symm, here, search], position.cons here⟩

/-- `strchr` never finds the terminator. -/
theorem strchr_zero {s : List UInt8} (isString : 0 ∉ s) : strchr 0 (s ++ [0]) = some none := by
  induction s with
  | nil => rfl
  | cons ch s ih =>
      obtain ⟨first, others⟩ : 0 ≠ ch ∧ 0 ∉ s := by simpa using isString
      simp [strchr, first.symm, ih others]

/-- The loop of `strrchr` stops at the last position, or at the first byte. -/
theorem strrchrFrom_spec (s : List UInt8) (c : UInt8) (last : Nat) :
    strrchrFrom s c last ≤ last ∧
      (∀ j, strrchrFrom s c last < j → j ≤ last → s[j]? ≠ some c) ∧
      (0 < strrchrFrom s c last → s[strrchrFrom s c last]? = some c) := by
  induction last with
  | zero => exact ⟨le_refl _, fun j above below => absurd below (Nat.not_le.mpr above), nofun⟩
  | succ last ih =>
      rw [strrchrFrom]
      split
      · rename_i here
        exact ⟨le_refl _, fun j above below => absurd below (Nat.not_le.mpr above), fun _ => here⟩
      · rename_i elsewhere
        obtain ⟨inside, behind, found⟩ := ih
        refine ⟨Nat.le_succ_of_le inside, fun j above below => ?_, found⟩
        rcases Nat.le_succ_iff.mp below with before | rfl
        · exact behind j above before
        · exact elsewhere

/-- The last occurrence is the one that no other follows. -/
theorem strrchr_last (c : UInt8) {s : List UInt8} (isString : 0 ∉ s) :
    ∃ found, strrchr (s ++ [0]) c = some found ∧ LastPosition c (s ++ [0]) found := by
  obtain ⟨inside, behind, found⟩ := strrchrFrom_spec (s ++ [0]) c s.length
  have beyond (j : Nat) (above : strrchrFrom (s ++ [0]) c s.length < j) :
      (s ++ [0])[j]? ≠ some c := by
    rcases Nat.lt_or_ge s.length j with outside | within
    · rw [List.getElem?_eq_none (by simpa using Nat.succ_le_of_lt outside)]
      nofun
    · exact behind j above within
  unfold strrchr
  rw [strlen_string isString []]
  simp only [Option.bind_eq_bind, Option.bind_some]
  split
  · rename_i here
    exact ⟨_, rfl, here, beyond⟩
  · rename_i missing
    refine ⟨none, rfl, fun member => ?_⟩
    obtain ⟨j, isChar⟩ := List.mem_iff_getElem?.mp member
    have start : strrchrFrom (s ++ [0]) c s.length = 0 := by
      by_contra more
      exact missing (found (Nat.pos_of_ne_zero more))
    rw [start] at missing beyond
    cases j with
    | zero => exact missing isChar
    | succ j => exact beyond (j + 1) (Nat.succ_pos j) isChar

/-- What `strstr` is to find: the first occurrence, or none. -/
def FirstOccurrence (ne hs : List UInt8) : Option Nat → Prop
  | none => ¬ ne <:+: hs
  | some i => FirstAt ne hs i

/-- The first occurrence is the one that no other precedes. -/
theorem strstr_first {ne hs : List UInt8} (isString : 0 ∉ ne) (isString' : 0 ∉ hs) :
    ∃ found, strstr (hs ++ [0]) ne = some found ∧ FirstOccurrence ne hs found := by
  by_cases empty : ne = []
  · subst empty
    exact ⟨some 0, rfl, List.nil_prefix, fun j before => absurd before (Nat.not_lt_zero j)⟩
  · unfold strstr
    rw [if_neg empty]
    rcases strstrFrom_string empty isString isString' with ⟨i, found, first⟩ | ⟨found, never⟩
    · exact ⟨some i, found, first⟩
    · refine ⟨none, found, fun inside => ?_⟩
      obtain ⟨before, behind, rfl⟩ := inside
      exact never before.length (by simp [List.append_assoc])

/-! ## Names of devices -/

/-- "sys:name", of which 127 characters fit. -/
def childName (sys : Text) (parent : Device) : List UInt8 :=
  (sys.chars ++ 0x3a :: cstr parent.name).take (DEVICE_NAME_MAX - 1)

theorem zero_notMem_childName (sys : Text) (parent : Device) : 0 ∉ childName sys parent := by
  intro member
  rcases List.mem_append.mp (List.mem_of_mem_take member) with inSys | inName
  · exact sys.isString inSys
  · rcases List.mem_cons.mp inName with colon | inParent
    · exact absurd colon (by decide)
    · exact zero_notMem_cstr parent.name inParent

def childNameDirectives (sys : Text) (parent : Device) : List Directive :=
  [.text ⟨false, false, false, 0⟩ sys.chars, .literal 0x3a,
    .text ⟨false, false, false, 0⟩ (cstr parent.name)]

theorem prints_plain (string : List UInt8) :
    prints ⟨false, false, false, 0⟩ string = string := by
  simp [prints]

/-- What `device_set_child_name` does to the arrays of the child. -/
theorem deviceSetChildName_eq {child parent : Device} (size : child.name.length = DEVICE_NAME_MAX)
    (sys : Text) :
    deviceSetChildName child parent sys =
      (strcpy child.aliasName 0 (cstr parent.aliasName)).map fun aliasName =>
        ⟨Out.filled ⟨child.name, 0, some DEVICE_NAME_MAX⟩ (childName sys parent), aliasName⟩ := by
  have scanned : directives (childNameStrings sys parent) childNameArgs 0 0
      childNameFormat.chars = some (childNameDirectives sys parent) := rfl
  have chars : allChars (childNameDirectives sys parent) =
      sys.chars ++ 0x3a :: cstr parent.name := by
    simp only [allChars, childNameDirectives, List.flatMap_cons, List.flatMap_nil, Directive.chars,
      prints_plain, List.append_nil]
    rfl
  unfold deviceSetChildName
  rw [snprintf_eq scanned (by decide) (Nat.le_of_eq size.symm), chars]
  cases strcpy child.aliasName 0 (cstr parent.aliasName) with
  | none => rfl
  | some aliasName => rfl

/-! ## The contract -/

/-- `strcpy` and `strcat` store no terminator: they leave the string behind exactly where the
buffer has one at its end already.  `strchr` finds the first position of every character but
0, which it never finds; `strrchr` and `strstr` always find theirs.  So the alias of a child
is that of its parent exactly where the array has a 0 at its end already. -/
theorem string_contract (src : Text) {block : List UInt8} (room : src.chars.length < block.length)
    (front : Text) {rest : List UInt8} (room' : src.chars.length ≤ rest.length)
    (s ne : Text) (c : UInt8) {child parent : Device} (sys : Text)
    (size : child.name.length = DEVICE_NAME_MAX)
    (aliasSize : child.aliasName.length = DEVICE_NAME_MAX)
    (fits : (cstr parent.aliasName).length < DEVICE_NAME_MAX) :
    ((∃ block', strcpy block 0 src.chars = some block' ∧ Holds block' src.chars) ↔
      block[src.chars.length]? = some 0) ∧
    ((∃ block', strcat (front.chars ++ 0 :: rest) src.chars = some block' ∧
        Holds block' (front.chars ++ src.chars)) ↔
      (0 :: rest)[src.chars.length]? = some 0) ∧
    ((∃ found, strchr c (s.chars ++ [0]) = some found ∧
        FirstPosition c (s.chars ++ [0]) found) ↔ c ≠ 0) ∧
    (∃ found, strrchr (s.chars ++ [0]) c = some found ∧
      LastPosition c (s.chars ++ [0]) found) ∧
    (∃ found, strstr (s.chars ++ [0]) ne.chars = some found ∧
      FirstOccurrence ne.chars s.chars found) ∧
    ((∃ child', deviceSetChildName child parent sys = some child' ∧
        Holds child'.aliasName (cstr parent.aliasName)) ↔
      child.aliasName[(cstr parent.aliasName).length]? = some 0) := by
  refine ⟨?_, ?_, ⟨?_, fun nonzero => strchr_first nonzero s.isString⟩, strrchr_last c s.isString,
    strstr_first ne.isString s.isString, ?_⟩
  · exact @writeBlock_holds [] block src.chars (Nat.le_of_lt room)
  · have found : cstr (front.chars ++ 0 :: rest) = front.chars :=
      cstr_append_zero front.isString rest
    unfold strcat
    rw [if_pos (by simp), found]
    exact writeBlock_holds (Nat.le_succ_of_le room')
  · rintro ⟨found, search, first⟩ rfl
    rw [strchr_zero s.isString] at search
    obtain rfl := Option.some.inj search
    exact first (by simp)
  · rw [deviceSetChildName_eq size]
    have copied := @writeBlock_holds [] child.aliasName (cstr parent.aliasName)
      (by rw [aliasSize]; exact Nat.le_of_lt fits)
    refine Iff.trans ?_ copied
    constructor
    · rintro ⟨child', done, holds⟩
      obtain ⟨aliasName, isAlias, rfl⟩ := Option.map_eq_some_iff.mp done
      exact ⟨aliasName, isAlias, holds⟩
    · rintro ⟨aliasName, isAlias, holds⟩
      exact ⟨_, Option.map_eq_some_iff.mpr ⟨aliasName, isAlias, rfl⟩, holds⟩

/-- "ab". -/
def shortText : Text := ⟨[0x61, 0x62], by decide⟩

/-- A device whose name is "soc" and whose alias is "eth". -/
def parentDevice : Device :=
  ⟨[0x73, 0x6f, 0x63] ++ List.replicate 125 0, [0x65, 0x74, 0x68, 0] ++ List.replicate 124 0x78⟩

/-- A device whose arrays are cleared. -/
def clearedDevice : Device := ⟨List.replicate 128 0, List.replicate 128 0⟩

/-- The cleared child gets the alias "eth" of its parent; "ab" is copied in front of a 0 and
appended in front of one. -/
theorem string_contract_cleared :
    (∃ child', deviceSetChildName clearedDevice parentDevice shortText = some child' ∧
        Holds child'.aliasName [0x65, 0x74, 0x68]) ∧
    (∃ block', strcpy [1, 2, 0, 3] 0 shortText.chars = some block' ∧
        Holds block' shortText.chars) ∧
    ∃ block', strcat (shortText.chars ++ [0, 7, 0]) shortText.chars = some block' ∧
      Holds block' (shortText.chars ++ shortText.chars) := by
  obtain ⟨copied, appended, -, -, -, named⟩ := string_contract shortText
    (show shortText.chars.length < [(1 : UInt8), 2, 0, 3].length by decide) shortText
    (show shortText.chars.length ≤ [(7 : UInt8), 0].length by decide) shortText shortText 0
    shortText (show clearedDevice.name.length = DEVICE_NAME_MAX from List.length_replicate)
    (show clearedDevice.aliasName.length = DEVICE_NAME_MAX from List.length_replicate)
    (show (cstr parentDevice.aliasName).length < DEVICE_NAME_MAX by decide)
  exact ⟨named.mpr (by decide), copied.mpr (by decide), appended.mpr (by decide)⟩

/-- What is left of the old contents follows the copied string; and the terminator of a string
is not found. -/
theorem string_contract_stale :
    strcpy [0x78, 0x78, 0x78, 0] 0 [0x61] = some [0x61, 0x78, 0x78, 0] ∧
      ¬ Holds [0x61, 0x78, 0x78, 0] [0x61] ∧
      strcat [0x61, 0, 0x78, 0] [0x62] = some [0x61, 0x62, 0x78, 0] ∧
      ¬ Holds [0x61, 0x62, 0x78, 0] [0x61, 0x62] ∧
      strchr 0 [0x61, 0] = some none ∧ ¬ FirstPosition 0 [0x61, 0] none := by
  refine ⟨by decide, ?_, by decide, ?_, by decide, ?_⟩
  · rintro ⟨rest, same⟩
    simp at same
  · rintro ⟨rest, same⟩
    simp at same
  · simp [FirstPosition]

end Zsbl.Drivers
