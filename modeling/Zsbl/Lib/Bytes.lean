/-
Module: Zsbl.Lib.Bytes
Purpose: Byte sequences as memory: slices, little-endian numbers, C strings in
  buffers that may lack a terminating NUL, and the words of a line.
Trusted boundary: none
Main exports:
  slice, overwrite, le, leBytes, le_leBytes, leBytes_le, leBytes_eq_map, cstr, strEq, memcmp,
  memcmp_eq_zero, strEq_of_terminated, strEq_overrun, words
-/
import Mathlib.Algebra.Order.Ring.Int
import Mathlib.Data.List.TakeWhile

namespace Zsbl.Lib

/-- The bytes at an offset, when all of them are inside. -/
def slice (bytes : List UInt8) (offset size : Nat) : Option (List UInt8) :=
  if offset + size ≤ bytes.length then some ((bytes.drop offset).take size) else none

/-- The bytes with others in the place of those at a position. -/
def overwrite (bytes : List UInt8) (position : Nat) (part : List UInt8) : List UInt8 :=
  bytes.take position ++ part ++ bytes.drop (position + part.length)

/-- A little-endian number. -/
def le : List UInt8 → Nat
  | [] => 0
  | byte :: bytes => byte.toNat + 256 * le bytes

/-- A number as `size` bytes, the low ones first. -/
def leBytes : Nat → Nat → List UInt8
  | 0, _ => []
  | size + 1, value => UInt8.ofNat value :: leBytes size (value / 256)

/-- The C string that starts a buffer. -/
def cstr (buffer : List UInt8) : List UInt8 := buffer.takeWhile (· ≠ 0)

/-- Whether `strcmp` of the string that starts a buffer with a string yields 0;
missing when it reads past the buffer. -/
def strEq : List UInt8 → List UInt8 → Option Bool
  | [], _ => none
  | byte :: _, [] => some (byte = 0)
  | byte :: buffer, char :: string =>
      if byte = char then strEq buffer string else some false

/-- `memcmp` of two buffers of one size. -/
def memcmp : List UInt8 → List UInt8 → Int
  | byte :: first, other :: second =>
      if byte = other then memcmp first second else (byte.toNat : Int) - other.toNat
  | _, _ => 0

theorem memcmp_eq_zero {first second : List UInt8} (same : first.length = second.length) :
    memcmp first second = 0 ↔ first = second := by
  induction first generalizing second with
  | nil => simp [memcmp, (List.length_eq_zero_iff.mp same.symm)]
  | cons byte first ih =>
      cases second with
      | nil => cases same
      | cons other second =>
          have rest := ih (Nat.succ.inj same)
          by_cases eq : byte = other
          · simp [memcmp, eq, rest]
          · have ne : byte.toNat ≠ other.toNat := fun eqNat => eq (UInt8.toNat_inj.mp eqNat)
            simp only [memcmp, eq, if_false, List.cons.injEq, false_and, iff_false]
            omega

theorem length_overwrite {bytes part : List UInt8} {position : Nat}
    (inside : position + part.length ≤ bytes.length) :
    (overwrite bytes position part).length = bytes.length := by
  simp only [overwrite, List.length_append, List.length_take, List.length_drop]
  omega

theorem overwrite_nil (bytes : List UInt8) (position : Nat) :
    overwrite bytes position [] = bytes := by
  simp [overwrite]

theorem set_eq_overwrite {bytes : List UInt8} {position : Nat} (inside : position < bytes.length)
    (byte : UInt8) : bytes.set position byte = overwrite bytes position [byte] := by
  rw [List.set_eq_take_append_cons_drop, if_pos inside]
  simp [overwrite]

/-- A part that ends where the bytes end. -/
theorem overwrite_of_length {bytes part : List UInt8} {position : Nat}
    (whole : position + part.length = bytes.length) :
    overwrite bytes position part = bytes.take position ++ part := by
  rw [overwrite, List.drop_eq_nil_of_le whole.ge, List.append_nil]

/-- A part between others. -/
theorem overwrite_middle {front old part : List UInt8} {position : Nat}
    (start : front.length = position) (same : part.length = old.length) (rest : List UInt8) :
    overwrite (front ++ (old ++ rest)) position part = front ++ (part ++ rest) := by
  have length : (front ++ old).length = position + part.length := by
    rw [List.length_append, start, same]
  unfold overwrite
  rw [List.take_left' start, ← List.append_assoc front old, List.drop_left' length,
    List.append_assoc]

/-- Two parts written one behind the other. -/
theorem overwrite_append {bytes first : List UInt8} {position : Nat}
    (inside : position + first.length ≤ bytes.length) (second : List UInt8) :
    overwrite (overwrite bytes position first) (position + first.length) second =
      overwrite bytes position (first ++ second) := by
  have length : (bytes.take position ++ first).length = position + first.length := by
    rw [List.length_append, List.length_take_of_le (by omega)]
  unfold overwrite
  rw [← length, List.take_left, ← List.drop_drop, List.drop_left, length, List.drop_drop,
    List.length_append, Nat.add_assoc, List.append_assoc (bytes.take position) first second]

/-- A part is where it was written, and the other bytes are as before. -/
theorem drop_take_overwrite {bytes part : List UInt8} {position : Nat}
    (inside : position ≤ bytes.length) :
    ((overwrite bytes position part).drop position).take part.length = part := by
  have before : (bytes.take position).length = position := List.length_take_of_le inside
  unfold overwrite
  rw [List.append_assoc, List.drop_append_of_le_length (Nat.le_of_eq before.symm),
    List.drop_eq_nil_of_le (Nat.le_of_eq before), List.nil_append, List.take_left]

theorem drop_take_overwrite_of_le {bytes part : List UInt8} {position start size : Nat}
    (inside : position ≤ bytes.length) (before : start + size ≤ position) :
    ((overwrite bytes position part).drop start).take size = (bytes.drop start).take size := by
  have length : (bytes.take position).length = position := List.length_take_of_le inside
  unfold overwrite
  rw [List.append_assoc, List.take_drop, List.take_append_of_le_length (by omega),
    List.take_take, Nat.min_eq_left before, List.take_drop]

theorem getElem?_overwrite {bytes part : List UInt8} {position : Nat}
    (inside : position + part.length ≤ bytes.length) (i : Nat) :
    (overwrite bytes position part)[i]? =
      if position ≤ i ∧ i < position + part.length then part[i - position]? else bytes[i]? := by
  have front : (bytes.take position).length = position := List.length_take_of_le (by omega)
  unfold overwrite
  rw [List.append_assoc]
  rcases Nat.lt_or_ge i position with before | start
  · rw [List.getElem?_append_left (by rwa [front]), List.getElem?_take_of_lt before,
      if_neg (by omega)]
  · rw [List.getElem?_append_right (by rwa [front]), front]
    rcases Nat.lt_or_ge (i - position) part.length with inPart | behind
    · rw [List.getElem?_append_left inPart, if_pos (by omega)]
    · rw [List.getElem?_append_right behind, List.getElem?_drop, if_neg (by omega)]
      congr 1
      omega

theorem slice_length {bytes part : List UInt8} {offset size : Nat}
    (inside : slice bytes offset size = some part) : part.length = size := by
  unfold slice at inside
  split at inside
  · obtain rfl := Option.some.inj inside
    simp
    omega
  · cases inside

theorem slice_le {bytes part : List UInt8} {offset size : Nat}
    (inside : slice bytes offset size = some part) : offset + size ≤ bytes.length := by
  unfold slice at inside
  split at inside
  · assumption
  · cases inside

/-- A number of `n` bytes is below `256 ^ n`. -/
theorem le_lt (bytes : List UInt8) : le bytes < 256 ^ bytes.length := by
  induction bytes with
  | nil => simp [le]
  | cons byte bytes ih =>
      have lt := byte.toNat_lt
      simp only [le, List.length_cons, Nat.pow_succ]
      omega

@[simp] theorem length_leBytes (size value : Nat) : (leBytes size value).length = size := by
  induction size generalizing value with
  | zero => rfl
  | succ size ih => simp [leBytes, ih]

theorem le_leBytes {size value : Nat} (fits : value < 256 ^ size) :
    le (leBytes size value) = value := by
  induction size generalizing value with
  | zero =>
      have zero : value = 0 := by simpa using fits
      simp [leBytes, le, zero]
  | succ size ih =>
      have upper : value / 256 < 256 ^ size := by
        rw [Nat.div_lt_iff_lt_mul (by decide), ← Nat.pow_succ]
        exact fits
      have low : (UInt8.ofNat value).toNat = value % 256 := UInt8.toNat_ofNat'
      simp only [leBytes, le, ih upper, low]
      exact Nat.mod_add_div value 256

/-- The bytes of a number, each by its weight. -/
theorem leBytes_eq_map (size value : Nat) :
    leBytes size value = (List.range size).map fun i => UInt8.ofNat (value / 256 ^ i) := by
  induction size generalizing value with
  | zero => rfl
  | succ size ih =>
      rw [leBytes, ih, List.range_succ_eq_map, List.map_cons, List.map_map]
      simp [Function.comp_def, Nat.pow_succ', Nat.div_div_eq_div_mul]

theorem leBytes_le (bytes : List UInt8) : leBytes bytes.length (le bytes) = bytes := by
  induction bytes with
  | nil => rfl
  | cons byte bytes ih =>
      have lt := byte.toNat_lt
      have high : (byte.toNat + 256 * le bytes) / 256 = le bytes := by omega
      have low : UInt8.ofNat (byte.toNat + 256 * le bytes) = byte := by
        apply UInt8.toNat_inj.mp
        rw [UInt8.toNat_ofNat']
        omega
      rw [List.length_cons, le, leBytes, high, low, ih]

theorem zero_notMem_cstr (buffer : List UInt8) : 0 ∉ cstr buffer := by
  intro member
  simpa using List.mem_takeWhile_imp member

/-- The string in front of a NUL. -/
theorem cstr_append_zero {string : List UInt8} (isString : 0 ∉ string) (rest : List UInt8) :
    cstr (string ++ 0 :: rest) = string := by
  have nonzero : ∀ byte ∈ string, decide (byte ≠ 0) = true := by
    intro byte member
    simpa using ne_of_mem_of_not_mem member isString
  unfold cstr
  rw [List.takeWhile_append_of_pos nonzero]
  simp

theorem cstr_of_notMem {string : List UInt8} (isString : 0 ∉ string) : cstr string = string := by
  have nonzero : ∀ byte ∈ string, decide (byte ≠ 0) = true := by
    intro byte member
    simpa using ne_of_mem_of_not_mem member isString
  exact List.takeWhile_eq_self_iff.mpr nonzero

/-- A buffer may be cut off where its string ends. -/
theorem cstr_take {buffer : List UInt8} {size : Nat} (terminated : 0 ∈ buffer.take (size + 1)) :
    cstr (buffer.take size) = cstr buffer := by
  obtain ⟨string, rest, split, isString⟩ := List.eq_append_cons_of_mem terminated
  have short : string.length ≤ size := by
    have := congrArg List.length split
    simp at this
    omega
  have whole : buffer = string ++ 0 :: (rest ++ buffer.drop (size + 1)) := by
    have := List.take_append_drop (size + 1) buffer
    rw [split] at this
    simpa using this.symm
  have nonzero : ∀ byte ∈ string, decide (byte ≠ 0) = true := by
    intro byte member
    simpa using ne_of_mem_of_not_mem member isString
  rw [whole, cstr_append_zero isString, List.take_append, List.take_of_length_le short]
  unfold cstr
  rw [List.takeWhile_append_of_pos nonzero]
  cases size - string.length with
  | zero => simp
  | succ more => simp

theorem cstr_length_le (buffer : List UInt8) : (cstr buffer).length ≤ buffer.length :=
  (List.takeWhile_sublist _).length_le

/-- In a buffer with a NUL, `strcmp` compares with the string before it. -/
theorem strEq_of_terminated {buffer string : List UInt8} (terminated : 0 ∈ buffer)
    (isString : 0 ∉ string) : strEq buffer string = some (decide (cstr buffer = string)) := by
  induction buffer generalizing string with
  | nil => cases terminated
  | cons byte buffer ih =>
      by_cases isNul : byte = 0
      · subst isNul
        cases string with
        | nil => simp [strEq, cstr]
        | cons char string =>
            have ne : (0 : UInt8) ≠ char := by
              rintro rfl
              exact isString List.mem_cons_self
            simp [strEq, cstr, ne]
      · have rest : 0 ∈ buffer := by
          rcases List.mem_cons.mp terminated with rfl | rest
          · exact absurd rfl isNul
          · exact rest
        cases string with
        | nil => simp [strEq, cstr, isNul]
        | cons char string =>
            have isString' : 0 ∉ string := fun member =>
              isString (List.mem_cons_of_mem _ member)
            by_cases same : byte = char
            · subst same
              have cons : cstr (byte :: buffer) = byte :: cstr buffer := by
                simp [cstr, isNul]
              simp [strEq, ih rest isString', cons]
            · have cons : cstr (byte :: buffer) = byte :: cstr buffer := by
                simp [cstr, isNul]
              simp [strEq, cons, same]

/-- Comparing a buffer without a NUL with its own bytes runs past it. -/
theorem strEq_overrun (buffer : List UInt8) : strEq buffer buffer = none := by
  induction buffer with
  | nil => rfl
  | cons byte buffer ih => simp [strEq, ih]

/-! ## Words -/

section Words

variable {α : Type*} {isSep : α → Bool}

/-- The longest parts of a line that have no separator, empty ones left out. -/
def words (isSep : α → Bool) (line : List α) : List (List α) :=
  (line.splitOnP isSep).filter fun word => !word.isEmpty

theorem words_separators {line : List α} (separators : ∀ ch ∈ line, isSep ch = true) :
    words isSep line = [] := by
  induction line with
  | nil => simp [words]
  | cons ch line ih =>
      have first : isSep ch = true := separators ch (by simp)
      have rest := ih fun other isRest => separators other (by simp [isRest])
      unfold words at rest ⊢
      rw [List.splitOnP_cons_eq_if_modifyHead, if_pos first]
      simpa using rest

theorem words_skip {spaces : List α} (separators : ∀ ch ∈ spaces, isSep ch = true)
    (line : List α) : words isSep (spaces ++ line) = words isSep line := by
  induction spaces with
  | nil => rfl
  | cons ch spaces ih =>
      have first : isSep ch = true := separators ch (by simp)
      have rest := ih fun other isRest => separators other (by simp [isRest])
      unfold words at rest ⊢
      rw [List.cons_append, List.splitOnP_cons_eq_if_modifyHead, if_pos first]
      simpa using rest

theorem words_last {word : List α} (nonempty : word ≠ [])
    (noSep : ∀ ch ∈ word, isSep ch = false) : words isSep word = [word] := by
  unfold words
  rw [List.splitOnP_eq_singleton noSep]
  simpa using nonempty

theorem words_first {word : List α} (nonempty : word ≠ [])
    (noSep : ∀ ch ∈ word, isSep ch = false) {sep : α} (isSeparator : isSep sep = true)
    (line : List α) : words isSep (word ++ sep :: line) = word :: words isSep line := by
  unfold words
  rw [List.splitOnP_append_cons_of_forall_mem noSep sep isSeparator,
    List.filter_cons_of_pos (by simpa using nonempty)]

/-- The first word, and those in what is left of the line behind it. -/
theorem words_dropWhile {line : List α} (more : line.dropWhile isSep ≠ []) :
    words isSep line =
      ((line.dropWhile isSep).takeWhile fun ch => !isSep ch) ::
        words isSep ((line.dropWhile isSep).dropWhile fun ch => !isSep ch) := by
  have skipped : words isSep line = words isSep (line.dropWhile isSep) := by
    conv_lhs => rw [← List.takeWhile_append_dropWhile (p := isSep) (l := line)]
    exact words_skip (fun ch member => List.mem_takeWhile_imp member) _
  obtain ⟨first, part, split⟩ := List.exists_cons_of_ne_nil more
  have black : isSep first = false := by
    have head := List.head?_dropWhile_not isSep line
    rw [split] at head
    exact head
  rw [skipped, split]
  have whole := List.takeWhile_append_dropWhile (p := fun ch => !isSep ch) (l := first :: part)
  have nonempty : (first :: part).takeWhile (fun ch => !isSep ch) ≠ [] := by simp [black]
  have noSep : ∀ ch ∈ (first :: part).takeWhile (fun ch => !isSep ch), isSep ch = false :=
    fun ch member => by simpa using List.mem_takeWhile_imp member
  generalize (first :: part).takeWhile (fun ch => !isSep ch) = word at whole nonempty noSep ⊢
  cases rest : (first :: part).dropWhile fun ch => !isSep ch with
  | nil =>
      rw [rest, List.append_nil] at whole
      rw [← whole, words_last nonempty noSep]
      rfl
  | cons sep others =>
      have isSeparator : isSep sep = true := by
        have head := List.head?_dropWhile_not (fun ch => !isSep ch) (first :: part)
        rw [rest] at head
        simpa using head
      rw [rest] at whole
      have alone : ∀ ch ∈ [sep], isSep ch = true := by simpa using isSeparator
      have behind : words isSep (sep :: others) = words isSep others := words_skip alone others
      rw [← whole, words_first nonempty noSep isSeparator, behind]

/-- A line starts with separators and then ends, or has its last word, or a word and a
separator behind it. -/
theorem line_cases (isSep : α → Bool) (line : List α) :
    ∃ spaces part, line = spaces ++ part ∧ (∀ ch ∈ spaces, isSep ch = true) ∧
      (part = [] ∨ ∃ word, word ≠ [] ∧ (∀ ch ∈ word, isSep ch = false) ∧
        (part = word ∨ ∃ sep others, isSep sep = true ∧ part = word ++ sep :: others)) := by
  cases found : line.find? fun ch => !isSep ch with
  | none =>
      have blank : ∀ ch ∈ line, isSep ch = true := by simpa using found
      exact ⟨line, [], by simp, blank, .inl rfl⟩
  | some first =>
      obtain ⟨isFirst, spaces, more, rfl, blank⟩ := List.find?_eq_some_iff_append.mp found
      have firstBlack : isSep first = false := by simpa using isFirst
      refine ⟨spaces, first :: more, rfl, by simpa using blank, .inr ?_⟩
      cases foundSep : more.find? isSep with
      | none =>
          have black : ∀ ch ∈ more, isSep ch = false := by simpa using foundSep
          exact ⟨first :: more, by simp, by simpa [firstBlack] using black, .inl rfl⟩
      | some sep =>
          obtain ⟨isSeparator, word, others, rfl, black⟩ :=
            List.find?_eq_some_iff_append.mp foundSep
          have black' : ∀ ch ∈ word, isSep ch = false := by simpa using black
          exact ⟨first :: word, by simp, by simpa [firstBlack] using black',
            .inr ⟨sep, others, isSeparator, by simp⟩⟩

end Words

end Zsbl.Lib
