/-
Module: Zsbl.Proofs.IniText
Purpose: Texts that are written for the parser of lib/ini/ini.c, and that it reads them as they
  were meant.
Trusted boundary: none
Main exports:
  NoComment, IniValue, IniMore, IniName, IniSection, IniItem, iniText, iniTextCalls,
  ini_round_trip
-/
import Zsbl.Proofs.Ini

namespace Zsbl.Libs

open Zsbl.Lib

/-! ## Blanks and comments -/

/-- No character behind a blank starts a comment. -/
def NoComment : Bool → List UInt8 → Prop
  | _, [] => True
  | wasSpace, c :: s =>
      ¬ (wasSpace ∧ c ∈ INI_INLINE_COMMENT_PREFIXES) ∧ NoComment (isspace c) s

/-- The search passes over a text without such characters and comments. -/
theorem findCharsFrom_append {chars s : List UInt8} {wasSpace : Bool}
    (outside : ∀ c ∈ s, c ∉ chars) (plain : NoComment wasSpace s) {stop : UInt8}
    (found : stop ∈ chars) (rest : List UInt8) :
    findCharsFrom chars wasSpace (s ++ stop :: rest) = s.length := by
  induction s generalizing wasSpace with
  | nil => simp [findCharsFrom, found]
  | cons c s ih =>
      have goesOn : c ∉ chars ∧ ¬ (wasSpace ∧ c ∈ INI_INLINE_COMMENT_PREFIXES) :=
        ⟨outside c List.mem_cons_self, plain.1⟩
      have later := ih (fun other member => outside other (List.mem_cons_of_mem c member)) plain.2
      rw [List.cons_append, findCharsFrom, if_pos goesOn, later, List.length_cons]

theorem findCharsFrom_all {s : List UInt8} {wasSpace : Bool} (plain : NoComment wasSpace s) :
    findCharsFrom [] wasSpace s = s.length := by
  induction s generalizing wasSpace with
  | nil => rfl
  | cons c s ih =>
      have goesOn : c ∉ ([] : List UInt8) ∧ ¬ (wasSpace ∧ c ∈ INI_INLINE_COMMENT_PREFIXES) :=
        ⟨List.not_mem_nil, plain.1⟩
      rw [findCharsFrom, if_pos goesOn, ih plain.2, List.length_cons]

theorem rstrip_blanks (s : List UInt8) {blanks : List UInt8}
    (blank : ∀ c ∈ blanks, isspace c = true) : rstrip (s ++ blanks) = rstrip s := by
  unfold rstrip List.rdropWhile
  rw [List.reverse_append, List.dropWhile_append_of_pos fun c member =>
    blank c (List.mem_reverse.mp member)]

theorem rstrip_concat (s : List UInt8) {c : UInt8} (last : isspace c = false) :
    rstrip (s ++ [c]) = s ++ [c] :=
  List.rdropWhile_concat_neg _ _ _ (by simp [last])

/-- What the characters of a line are: neither an end of the line nor the end of the text. -/
def isLine (s : List UInt8) : Prop := ∀ c ∈ s, c ≠ 0 ∧ isNewline c = false

/-- No blank is lost at the ends. -/
structure Trimmed (s : List UInt8) : Prop where
  front : ∀ c ∈ s.head?, isspace c = false
  back : ∀ c ∈ s.getLast?, isspace c = false

namespace Trimmed

variable {s : List UInt8} (trimmed : Trimmed s)

include trimmed

theorem lskip_eq : lskip s = s := by
  cases s with
  | nil => rfl
  | cons c s => exact List.dropWhile_cons_of_neg (by simp [trimmed.front c rfl])

theorem rstrip_append (front : List UInt8) (more : s ≠ []) :
    rstrip (front ++ s) = front ++ s := by
  obtain ⟨init, last, rfl⟩ := s.eq_nil_or_concat'.resolve_left more
  have back := trimmed.back last (by simp)
  rw [← List.append_assoc, rstrip_concat _ back]

theorem rstrip_eq : rstrip s = s := by
  by_cases more : s = []
  · rw [more]
    rfl
  · exact trimmed.rstrip_append [] more

end Trimmed

/-! ## Texts -/

structure IniValue where
  chars : List UInt8
  isLine : isLine chars
  trimmed : Trimmed chars
  plain : NoComment false chars

/-- A line that goes on with the value of the line before it. -/
structure IniMore extends IniValue where
  nonempty : chars ≠ []
  first : ∀ c ∈ chars.head?, c ∉ INI_START_COMMENT_PREFIXES

structure IniName extends IniMore where
  noHeader : ∀ c ∈ chars.head?, c ≠ 0x5b
  noMark : chars.take 3 ≠ [0xEF, 0xBB, 0xBF]
  noSeparator : ∀ c ∈ chars, c ∉ ([0x3d, 0x3a] : List UInt8)

structure IniSection where
  chars : List UInt8
  isLine : Libs.isLine chars
  plain : NoComment false chars
  noClose : ∀ c ∈ chars, c ∉ ([0x5d] : List UInt8)

inductive IniItem where
  | comment (mark : UInt8) (text : List UInt8)
      (marked : mark ∈ INI_START_COMMENT_PREFIXES) (inLine : isLine text)
  | header (name : IniSection)
  | entry (name : IniName) (value : IniValue) (more : List IniMore)

/-- The lines of an item without their ends. -/
def IniItem.lines : IniItem → List (List UInt8)
  | .comment mark text _ _ => [mark :: text]
  | .header name => [0x5b :: (name.chars ++ [0x5d])]
  | .entry name value more =>
      (name.chars ++ 0x3d :: value.chars) :: more.map fun value => 0x20 :: value.chars

def iniText (items : List IniItem) : List UInt8 :=
  (items.flatMap IniItem.lines).flatMap fun line => line ++ [0x0a]

/-- What the text says, line by line; names are kept as far as there is room for them. -/
def iniTextCalls : List UInt8 → List IniItem → List IniCall
  | _, [] => []
  | sectionName, .comment _ _ _ _ :: items => iniTextCalls sectionName items
  | _, .header name :: items => iniTextCalls (strncpy0 name.chars MAX_SECTION) items
  | sectionName, .entry name value more :: items =>
      ⟨sectionName, name.chars, value.chars⟩ ::
        (more.map fun value => ⟨sectionName, strncpy0 name.chars MAX_NAME, value.chars⟩) ++
        iniTextCalls sectionName items

/-! ## Lines as they are read -/

/-- What the handler is called with next, and that nothing has failed. -/
structure IniReads (sectionName : List UInt8) (calls : List IniCall)
    (st : IniState (List IniCall)) : Prop where
  sectionName : st.sectionName = sectionName
  user : st.user = calls
  error : st.error = 0

/-- A line with blanks behind it, whatever its number is, when it does not start with a blank and
has no mark of the byte order. -/
theorem iniParseLine_of_trimmed {σ : Type} (handler : IniHandler σ) (st : IniState σ)
    (line : List UInt8) {blanks : List UInt8} (blank : ∀ c ∈ blanks, isspace c = true)
    (noMark : (line ++ blanks).take 3 ≠ [0xEF, 0xBB, 0xBF])
    (first : ∀ c ∈ (rstrip line).head?, isspace c = false) :
    iniParseLine handler st (line ++ blanks) =
      iniParseStart handler { st with lineno := wrapInt (st.lineno + 1) } 0 (rstrip line) := by
  have skip : lskip (rstrip line) = rstrip line := by
    cases front : rstrip line with
    | nil => rfl
    | cons c rest => exact List.dropWhile_cons_of_neg (by simp [first c (by rw [front]; rfl)])
  unfold iniParseLine
  simp only [noMark, and_false, if_false, List.drop_zero, rstrip_blanks line blank, skip,
    Nat.sub_self, Nat.zero_add]

theorem take_three_ne (front : List UInt8) {a b c stop : UInt8}
    (noMark : front.take 3 ≠ [a, b, c]) (other : stop ≠ a ∧ stop ≠ b ∧ stop ≠ c)
    (rest : List UInt8) : (front ++ stop :: rest).take 3 ≠ [a, b, c] := by
  match front with
  | [] => simp [other.1]
  | [_] => simp [other.2.1]
  | [_, _] => simp [other.2.2]
  | _ :: _ :: _ :: _ => simpa using noMark

/-- A line with a name, a mark and a value is an entry. -/
theorem iniParseStart_pair {σ : Type} (handler : IniHandler σ) (st : IniState σ)
    {start : List UInt8} (more : start ≠ [])
    (first : ∀ c ∈ start.head?, c ∉ INI_START_COMMENT_PREFIXES ∧ c ≠ 0x5b) {stop : Nat}
    (found : findCharsOrComment start [0x3d, 0x3a] = stop) (separator : start[stop]? = some 0x3d) :
    iniParseStart handler st 0 start = iniParsePair handler st start stop := by
  obtain ⟨c, rest, rfl⟩ := List.exists_cons_of_ne_nil more
  obtain ⟨noComment, noHeader⟩ := first c rfl
  simp only [iniParseStart, if_neg noComment, gt_iff_lt, Nat.lt_irrefl, and_false, if_false,
    if_neg noHeader, found, if_pos (Or.inl separator)]

section Steps

variable {sectionName : List UInt8} {calls : List IniCall} {st : IniState (List IniCall)}
  (reads : IniReads sectionName calls st) {blanks : List UInt8}
  (blank : ∀ c ∈ blanks, isspace c = true)

include reads

theorem IniReads.call (name value : List UInt8) (lineno : Int) (prevName : List UInt8) :
    IniReads sectionName (calls ++ [⟨sectionName, name, value⟩])
      ({ st with lineno := lineno, prevName := prevName }.call recordCall name value) := by
  rw [call_recordCall]
  exact ⟨reads.sectionName, by simp only [reads.user, reads.sectionName], reads.error⟩

include blank

/-- A blank line says nothing. -/
theorem IniReads.blank_line :
    IniReads sectionName calls (iniParseLine recordCall st blanks) ∧
      (iniParseLine recordCall st blanks).prevName = st.prevName := by
  have nothing : rstrip ([] : List UInt8) = [] := rfl
  have noMark : ([] ++ blanks).take 3 ≠ [0xEF, 0xBB, 0xBF] := by
    intro mark
    have member : (0xEF : UInt8) ∈ blanks.take 3 := by
      rw [List.nil_append] at mark
      simp [mark]
    exact absurd (blank _ (List.mem_of_mem_take member)) (by decide)
  have parse := iniParseLine_of_trimmed recordCall st [] blank noMark (by simp [nothing])
  rw [List.nil_append, nothing] at parse
  rw [parse]
  exact ⟨⟨reads.sectionName, reads.user, reads.error⟩, rfl⟩

/-- A comment says nothing. -/
theorem IniReads.comment {mark : UInt8} (marked : mark ∈ INI_START_COMMENT_PREFIXES)
    (text : List UInt8) :
    IniReads sectionName calls (iniParseLine recordCall st (mark :: text ++ blanks)) := by
  have dark : isspace mark = false ∧ mark ≠ 0xEF := by
    revert marked mark
    decide +kernel
  obtain ⟨rest, stripped⟩ : ∃ rest, rstrip (mark :: text) = mark :: rest := by
    have front := List.rdropWhile_prefix isspace (mark :: text)
    cases stripped : rstrip (mark :: text) with
    | nil =>
        have blank := List.rdropWhile_eq_nil_iff.mp stripped mark List.mem_cons_self
        rw [dark.1] at blank
        cases blank
    | cons c rest =>
        have same := (stripped ▸ front : c :: rest <+: mark :: text)
        rw [(List.cons_prefix_cons.mp same).1]
        exact ⟨rest, rfl⟩
  have parse := iniParseLine_of_trimmed recordCall st (mark :: text) blank
    (by simp [dark.2]) (by simp [stripped, dark.1])
  rw [parse, stripped]
  simp only [iniParseStart, if_pos marked]
  exact ⟨reads.sectionName, reads.user, reads.error⟩

/-- A header sets the section. -/
theorem IniReads.header (name : IniSection) :
    IniReads (strncpy0 name.chars MAX_SECTION) calls
      (iniParseLine recordCall st (0x5b :: (name.chars ++ [0x5d]) ++ blanks)) := by
  have stripped : rstrip (0x5b :: (name.chars ++ [0x5d])) = 0x5b :: (name.chars ++ [0x5d]) :=
    rstrip_concat (0x5b :: name.chars) (by decide)
  have parse := iniParseLine_of_trimmed recordCall st (0x5b :: (name.chars ++ [0x5d]))
    blank (by simp) (by rw [stripped]; simp; decide)
  have stop : findCharsOrComment (name.chars ++ [0x5d]) [0x5d] = name.chars.length :=
    findCharsFrom_append name.noClose name.plain List.mem_cons_self []
  have noComment : (0x5b : UInt8) ∉ INI_START_COMMENT_PREFIXES := by decide
  rw [parse, stripped]
  simp only [iniParseStart, if_neg noComment, Nat.lt_irrefl, gt_iff_lt, and_false, if_false,
    if_true, stop, List.getElem?_concat_length, List.take_left]
  exact ⟨rfl, reads.user, reads.error⟩

/-- An entry is passed on with the section. -/
theorem IniReads.entry (name : IniName) (value : IniValue) :
    IniReads sectionName (calls ++ [⟨sectionName, name.chars, value.chars⟩])
        (iniParseLine recordCall st (name.chars ++ 0x3d :: value.chars ++ blanks)) ∧
      (iniParseLine recordCall st (name.chars ++ 0x3d :: value.chars ++ blanks)).prevName =
        strncpy0 name.chars MAX_NAME := by
  have stripped : rstrip (name.chars ++ 0x3d :: value.chars) =
      name.chars ++ 0x3d :: value.chars := by
    by_cases empty : value.chars = []
    · rw [empty]
      exact rstrip_concat _ (by decide)
    · rw [List.append_cons]
      exact value.trimmed.rstrip_append _ empty
  have noMark : (name.chars ++ 0x3d :: (value.chars ++ blanks)).take 3 ≠ [0xEF, 0xBB, 0xBF] :=
    take_three_ne name.chars name.noMark (by decide) (value.chars ++ blanks)
  have parse := iniParseLine_of_trimmed recordCall st (name.chars ++ 0x3d :: value.chars) blank
    (by simpa using noMark) (by
      rw [stripped, List.head?_append_of_ne_nil _ name.nonempty]
      exact name.trimmed.front)
  have stop : findCharsOrComment (name.chars ++ 0x3d :: value.chars) [0x3d, 0x3a] =
      name.chars.length := findCharsFrom_append name.noSeparator name.plain List.mem_cons_self _
  have all : findCharsOrComment value.chars [] = value.chars.length := findCharsFrom_all value.plain
  have separator : (name.chars ++ 0x3d :: value.chars)[name.chars.length]? = some 0x3d := by
    rw [List.getElem?_append_right (le_refl _), Nat.sub_self, List.getElem?_cons_zero]
  have taken : (name.chars ++ 0x3d :: value.chars).take name.chars.length = name.chars :=
    List.take_left
  have dropped : (name.chars ++ 0x3d :: value.chars).drop (name.chars.length + 1) =
      value.chars := by
    rw [List.append_cons]
    exact List.drop_left' (by simp)
  rw [parse, stripped, iniParseStart_pair recordCall _ (by simp) (by
    rw [List.head?_append_of_ne_nil _ name.nonempty]
    exact fun c first => ⟨name.first c first, name.noHeader c first⟩) stop separator]
  simp only [iniParsePair, taken, dropped, all, List.take_length, name.trimmed.rstrip_eq,
    value.trimmed.lskip_eq, value.trimmed.rstrip_eq]
  refine ⟨reads.call _ _ _ _, ?_⟩
  rw [call_recordCall]

/-- A further value is passed on with the last name. -/
theorem IniReads.more (value : IniMore) (named : st.prevName ≠ []) :
    IniReads sectionName (calls ++ [⟨sectionName, st.prevName, value.chars⟩])
        (iniParseLine recordCall st (0x20 :: value.chars ++ blanks)) ∧
      (iniParseLine recordCall st (0x20 :: value.chars ++ blanks)).prevName = st.prevName := by
  obtain ⟨c, rest, chars⟩ := List.exists_cons_of_ne_nil value.nonempty
  have first : c ∉ INI_START_COMMENT_PREFIXES := value.first c (by rw [chars]; rfl)
  have stripped : rstrip (0x20 :: value.chars ++ blanks) = 0x20 :: value.chars := by
    rw [rstrip_blanks _ blank]
    exact value.trimmed.rstrip_append [0x20] value.nonempty
  have skipped : lskip (0x20 :: value.chars) = value.chars := by
    have step : lskip (0x20 :: value.chars) = lskip value.chars :=
      List.dropWhile_cons_of_pos (by decide)
    rw [step, value.trimmed.lskip_eq]
  have all : findCharsOrComment value.chars [] = value.chars.length := findCharsFrom_all value.plain
  have parse : iniParseLine recordCall st (0x20 :: value.chars ++ blanks) =
      { st with lineno := wrapInt (st.lineno + 1) }.call recordCall st.prevName value.chars := by
    unfold iniParseLine
    have noMark : (0x20 :: value.chars ++ blanks).take 3 ≠ [0xEF, 0xBB, 0xBF] := by simp
    simp only [noMark, and_false, if_false, List.drop_zero, stripped, skipped,
      List.length_cons, Nat.add_sub_cancel_left, Nat.zero_add]
    simp only [chars] at all ⊢
    simp only [iniParseStart, if_neg first, all, List.take_length]
    rw [if_pos ⟨named, Nat.one_pos⟩, ← chars, value.trimmed.rstrip_eq]
  rw [parse]
  exact ⟨reads.call _ _ _ _, rfl⟩

end Steps

/-! ## Texts as they are read -/

/-- A line that leaves no room for its end is followed by a line that has nothing else. -/
inductive IniNext (st : IniState (List IniCall)) (line : List UInt8) :
    IniState (List IniCall) → Prop where
  | whole : IniNext st line (iniParseLine recordCall st (line ++ [0x0a]))
  | split : IniNext st line
      (iniParseLine recordCall (iniParseLine recordCall st (line ++ [])) [0x0a])

/-- A line that fits is parsed, and the parser goes on behind it. -/
theorem iniParseStream_line {line : List UInt8} (inLine : isLine line)
    (fits : line.length ≤ INI_MAX_LINE - 1) (st : IniState (List IniCall)) (text : List UInt8) :
    ∃ st', IniNext st line st' ∧
      iniParseStream recordCall st (line ++ 0x0a :: text) =
        iniParseStream recordCall st' text := by
  have inner : ∀ c ∈ line, isNewline c = false := fun c member => (inLine c member).2
  simp only [iniParseStream_eq]
  rcases Nat.lt_or_eq_of_le fits with short | full
  · refine ⟨_, .whole, ?_⟩
    rw [readLines_line inner short (by decide), List.foldl_cons]
  · refine ⟨_, .split, ?_⟩
    rw [readLines_full inner full (by decide) (by decide), List.foldl_cons, List.foldl_cons,
      List.append_nil]

theorem newline_blank : ∀ c ∈ ([0x0a] : List UInt8), isspace c = true :=
  List.forall_mem_singleton.mpr (by decide)

section Next

variable {sectionName : List UInt8} {calls : List IniCall} {st st' : IniState (List IniCall)}
  {line : List UInt8}

/-- What holds behind a line, with or without its end, holds of the next state. -/
theorem IniNext.reads (next : IniNext st line st') {P : IniState (List IniCall) → Prop}
    (parsed : ∀ blanks : List UInt8, (∀ c ∈ blanks, isspace c = true) →
      P (iniParseLine recordCall st (line ++ blanks)))
    (kept : ∀ st, P st → P (iniParseLine recordCall st [0x0a])) : P st' := by
  cases next with
  | whole => exact parsed [0x0a] newline_blank
  | split => exact kept _ (parsed [] (List.forall_mem_nil _))

theorem IniNext.comment (next : IniNext st line st') (reads : IniReads sectionName calls st)
    {mark : UInt8} (marked : mark ∈ INI_START_COMMENT_PREFIXES) {text : List UInt8}
    (isComment : line = mark :: text) : IniReads sectionName calls st' := by
  subst isComment
  exact next.reads (fun _ blank => reads.comment blank marked text)
    fun _ reads => (reads.blank_line newline_blank).1

theorem IniNext.header {name : IniSection} (next : IniNext st (0x5b :: (name.chars ++ [0x5d])) st')
    (reads : IniReads sectionName calls st) :
    IniReads (strncpy0 name.chars MAX_SECTION) calls st' :=
  next.reads (fun _ blank => reads.header blank name)
    fun _ reads => (reads.blank_line newline_blank).1

/-- So is the entry with its line feed. -/
theorem IniNext.entry {name : IniName} {value : IniValue}
    (next : IniNext st (name.chars ++ 0x3d :: value.chars) st')
    (reads : IniReads sectionName calls st) :
    IniReads sectionName (calls ++ [⟨sectionName, name.chars, value.chars⟩]) st' ∧
      st'.prevName = strncpy0 name.chars MAX_NAME := by
  refine next.reads (P := fun st => IniReads sectionName
      (calls ++ [⟨sectionName, name.chars, value.chars⟩]) st ∧
        st.prevName = strncpy0 name.chars MAX_NAME)
    (fun _ blank => reads.entry blank name value) fun st behind => ?_
  have kept := behind.1.blank_line newline_blank
  exact ⟨kept.1, kept.2.trans behind.2⟩

/-- So is the further value with its line feed. -/
theorem IniNext.more {value : IniMore} (next : IniNext st (0x20 :: value.chars) st')
    (reads : IniReads sectionName calls st) (named : st.prevName ≠ []) :
    IniReads sectionName (calls ++ [⟨sectionName, st.prevName, value.chars⟩]) st' ∧
      st'.prevName = st.prevName := by
  refine next.reads (P := fun st' => IniReads sectionName
      (calls ++ [⟨sectionName, st.prevName, value.chars⟩]) st' ∧ st'.prevName = st.prevName)
    (fun _ blank => reads.more blank value named) fun st behind => ?_
  have kept := behind.1.blank_line newline_blank
  exact ⟨kept.1, kept.2.trans behind.2⟩

end Next

/-- No line of an item has a line feed inside. -/
theorem IniItem.isLine_lines (item : IniItem) : ∀ line ∈ item.lines, isLine line := by
  have cons {c : UInt8} (inner : c ≠ 0 ∧ isNewline c = false) {s : List UInt8} (rest : isLine s) :
      isLine (c :: s) := List.forall_mem_cons.mpr ⟨inner, rest⟩
  have append {s t : List UInt8} (front : isLine s) (back : isLine t) : isLine (s ++ t) :=
    List.forall_mem_append.mpr ⟨front, back⟩
  have nil : isLine [] := List.forall_mem_nil _
  cases item with
  | comment mark text marked inLine =>
      have inner : mark ≠ 0 ∧ isNewline mark = false := by
        revert marked mark
        decide +kernel
      exact List.forall_mem_singleton.mpr (cons inner inLine)
  | header name =>
      exact List.forall_mem_singleton.mpr
        (cons (by decide) (append name.isLine (cons (by decide) nil)))
  | entry name value more =>
      refine List.forall_mem_cons.mpr ⟨append name.isLine (cons (by decide) value.isLine), ?_⟩
      refine List.forall_mem_map.mpr fun value _ => ?_
      exact cons (by decide) value.isLine

theorem iniText_cons (item : IniItem) (items : List IniItem) :
    iniText (item :: items) =
      (item.lines.flatMap fun line => line ++ [0x0a]) ++ iniText items := by
  simp [iniText]

/-- The further values of an entry are passed on, in their order. -/
theorem iniParseStream_more {sectionName prevName : List UInt8} {calls : List IniCall}
    {st : IniState (List IniCall)} (values : List IniMore)
    (fits : ∀ value ∈ values, (0x20 :: value.chars).length ≤ INI_MAX_LINE - 1)
    (reads : IniReads sectionName calls st) (named : st.prevName = prevName)
    (more : prevName ≠ []) (text : List UInt8) :
    ∃ st', IniReads sectionName
        (calls ++ values.map fun value => ⟨sectionName, prevName, value.chars⟩) st' ∧
      iniParseStream recordCall st
          (((values.map fun value => 0x20 :: value.chars).flatMap fun line => line ++ [0x0a]) ++
            text) =
        iniParseStream recordCall st' text := by
  induction values generalizing st calls with
  | nil => exact ⟨st, by simpa using reads, rfl⟩
  | cons value values ih =>
      have inLine : isLine (0x20 :: value.chars) :=
        List.forall_mem_cons.mpr ⟨by decide, value.isLine⟩
      obtain ⟨st', next, step⟩ := iniParseStream_line inLine (fits value List.mem_cons_self) st
        (((values.map fun value => 0x20 :: value.chars).flatMap fun line => line ++ [0x0a]) ++ text)
      have behind := next.more reads (named ▸ more)
      rw [named] at behind
      obtain ⟨st'', reads', rest⟩ := ih (fun value member => fits value
        (List.mem_cons_of_mem _ member)) behind.1 behind.2
      refine ⟨st'', by simpa using reads', ?_⟩
      rw [← rest, ← step]
      simp

/-- A document is read item by item, and each entry passed on. -/
theorem iniParseStream_items {sectionName : List UInt8} {calls : List IniCall}
    {st : IniState (List IniCall)} (items : List IniItem)
    (fits : ∀ line ∈ items.flatMap IniItem.lines, line.length ≤ INI_MAX_LINE - 1)
    (reads : IniReads sectionName calls st) (text : List UInt8) :
    ∃ sectionName' st', IniReads sectionName' (calls ++ iniTextCalls sectionName items) st' ∧
      iniParseStream recordCall st (iniText items ++ text) =
        iniParseStream recordCall st' text := by
  induction items generalizing st calls sectionName with
  | nil => exact ⟨sectionName, st, by simpa [iniTextCalls] using reads, rfl⟩
  | cons item items ih =>
      rw [List.flatMap_cons, List.forall_mem_append] at fits
      rw [iniText_cons, List.append_assoc]
      have inLine := item.isLine_lines
      cases item with
      | comment mark line marked _ =>
          obtain ⟨st', next, step⟩ := iniParseStream_line (inLine _ List.mem_cons_self)
            (fits.1 _ List.mem_cons_self) st (iniText items ++ text)
          obtain ⟨sectionName', st'', reads', rest⟩ := ih fits.2 (next.comment reads marked rfl)
          refine ⟨sectionName', st'', by simpa [iniTextCalls] using reads', ?_⟩
          rw [← rest, ← step]
          simp [IniItem.lines]
      | header name =>
          obtain ⟨st', next, step⟩ := iniParseStream_line (inLine _ List.mem_cons_self)
            (fits.1 _ List.mem_cons_self) st (iniText items ++ text)
          obtain ⟨sectionName', st'', reads', rest⟩ := ih fits.2 (next.header reads)
          refine ⟨sectionName', st'', by simpa [iniTextCalls] using reads', ?_⟩
          rw [← rest, ← step]
          simp [IniItem.lines]
      | entry name value more =>
          obtain ⟨st', next, step⟩ := iniParseStream_line (inLine _ List.mem_cons_self)
            (fits.1 _ List.mem_cons_self) st
            (((more.map fun value => 0x20 :: value.chars).flatMap fun line => line ++ [0x0a]) ++
              (iniText items ++ text))
          have behind := next.entry reads
          have named : strncpy0 name.chars MAX_NAME ≠ [] := by
            have front := name.nonempty
            unfold strncpy0
            simp [front]
            decide
          obtain ⟨st'', reads', steps⟩ := iniParseStream_more more (fun value member =>
            fits.1 _ (List.mem_cons_of_mem _ (List.mem_map_of_mem member))) behind.1 behind.2 named
            (iniText items ++ text)
          obtain ⟨sectionName', last, readsLast, rest⟩ := ih fits.2 reads'
          refine ⟨sectionName', last, by simpa [iniTextCalls] using readsLast, ?_⟩
          rw [← rest, ← steps, ← step]
          simp [IniItem.lines]

theorem iniText_isString (items : List IniItem) : 0 ∉ iniText items := by
  intro member
  obtain ⟨line, ofItems, inLine⟩ := List.mem_flatMap.mp member
  obtain ⟨item, _, ofItem⟩ := List.mem_flatMap.mp ofItems
  rcases List.mem_append.mp inLine with inner | stop
  · exact (item.isLine_lines line ofItem 0 inner).1 rfl
  · exact absurd stop (by decide)

theorem iniReads_start : IniReads [] [] (⟨[], [], 0, 0, []⟩ : IniState (List IniCall)) :=
  ⟨rfl, rfl, rfl⟩

theorem iniParseString_text (items : List IniItem)
    (fits : ∀ line ∈ items.flatMap IniItem.lines, line.length ≤ INI_MAX_LINE - 1) :
    iniParseString recordCall (iniText items) [] = (iniTextCalls [] items, 0) := by
  obtain ⟨_, st, reads, parsed⟩ := iniParseStream_items items fits iniReads_start []
  unfold iniParseString
  rw [cstr_of_notMem (iniText_isString items), ← (iniText items).append_nil, parsed,
    iniParseStream_none recordCall rfl]
  exact Prod.ext reads.user reads.error

/-- A text whose lines fit is read as it was meant: the handler is called with its entries in
their order, and when it takes them all, the result is 0. -/
theorem ini_round_trip (items : List IniItem)
    (fits : ∀ line ∈ items.flatMap IniItem.lines, line.length ≤ INI_MAX_LINE - 1) :
    iniParseString recordCall (iniText items) [] = (iniTextCalls [] items, 0) ∧
      ∀ {σ : Type} (handler : IniHandler σ) (user : σ),
        (iniParseString handler (iniText items) user).1 =
            (iniTextCalls [] items).foldl (IniCall.after handler) user ∧
          (Accepts handler user (iniTextCalls [] items) →
            (iniParseString handler (iniText items) user).2 = 0) := by
  have text := iniParseString_text items fits
  have calls : iniCalls (iniText items) = iniTextCalls [] items := congrArg Prod.fst text
  refine ⟨text, fun handler user => ⟨?_, fun accepts => ?_⟩⟩
  · rw [iniParseString_user, calls]
  · rw [iniParseString_accepts handler (calls ▸ accepts), text]

/-! ### Words -/

/-- The characters that end a string or a line, are blank, or mean something in a line. -/
def iniSpecial : List UInt8 :=
  [0, 0x09, 0x0a, 0x0b, 0x0c, 0x0d, 0x20, 0x23, 0x3a, 0x3b, 0x3d, 0x5b, 0x5d, 0xEF]

/-- Text without such characters. -/
structure IniWord where
  chars : List UInt8
  nonempty : chars ≠ []
  plain : ∀ c ∈ chars, c ∉ iniSpecial

namespace IniWord

variable (word : IniWord)

theorem outside {chars : List UInt8} (special : chars ⊆ iniSpecial) :
    ∀ c ∈ word.chars, c ∉ chars :=
  fun c member inside => word.plain c member (special inside)

theorem isLine : isLine word.chars := by
  intro c member
  have plain := word.plain c member
  simp only [iniSpecial, List.mem_cons, not_or] at plain
  simp [isNewline, plain]

theorem noSpace : ∀ c ∈ word.chars, isspace c = false := by
  intro c member
  have plain := word.plain c member
  simp only [iniSpecial, List.mem_cons, not_or] at plain
  simp [isspace, plain]

theorem trimmed : Trimmed word.chars :=
  ⟨fun c member => word.noSpace c (List.mem_of_mem_head? member),
    fun c member => word.noSpace c (List.mem_of_mem_getLast? member)⟩

/-- No comment begins in a word. -/
theorem noComment : NoComment false word.chars := by
  have noPrefix := word.outside (show INI_INLINE_COMMENT_PREFIXES ⊆ iniSpecial by decide)
  have anywhere (wasSpace : Bool) (chars : List UInt8)
      (outside : ∀ c ∈ chars, c ∉ INI_INLINE_COMMENT_PREFIXES) : NoComment wasSpace chars := by
    induction chars generalizing wasSpace with
    | nil => trivial
    | cons c chars ih =>
        rw [List.forall_mem_cons] at outside
        exact ⟨fun comment => outside.1 comment.2, ih _ outside.2⟩
  exact anywhere false word.chars noPrefix

def toIniName : IniName where
  chars := word.chars
  isLine := word.isLine
  trimmed := word.trimmed
  plain := word.noComment
  nonempty := word.nonempty
  first c member := word.outside (by decide) c (List.mem_of_mem_head? member)
  noHeader c member := by
    rintro rfl
    exact word.plain _ (List.mem_of_mem_head? member) (by decide)
  noMark mark := by
    have inside : (0xEF : UInt8) ∈ word.chars.take 3 := by simp [mark]
    exact word.plain _ (List.mem_of_mem_take inside) (by decide)
  noSeparator := word.outside (by decide)

def toIniSection : IniSection where
  chars := word.chars
  isLine := word.isLine
  plain := word.noComment
  noClose := word.outside (by decide)

end IniWord

/-- "x". -/
def iniLetter : IniName := IniWord.toIniName ⟨[0x78], by decide +kernel, by decide +kernel⟩

/-- "x=x", and a line that goes on with it. -/
theorem ini_round_trip_letter :
    iniParseString recordCall (iniText [.entry iniLetter iniLetter.toIniValue
        [iniLetter.toIniMore]]) [] =
      (iniTextCalls [] [.entry iniLetter iniLetter.toIniValue [iniLetter.toIniMore]], 0) :=
  (ini_round_trip _ (by simp [IniItem.lines, iniLetter, IniWord.toIniName, INI_MAX_LINE])).1

end Zsbl.Libs
