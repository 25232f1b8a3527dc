/-
Module: Zsbl.Proofs.Ini
Purpose: What ini_parse_string makes of a text: which calls of the handler, and which result.
Trusted boundary: none
Main exports:
  iniParseStream_eq, IniCall, iniCalls, Accepts, Alongside, iniFailures, ini_effect_and_result
-/
import Zsbl.Libs.Ini

namespace Zsbl.Libs

open Zsbl.Lib

variable {σ τ : Type} (handler : IniHandler σ)

/-! ## Runs -/

/-- Without a line the parser stops. -/
theorem iniParseStream_none {st : IniState σ} {stream : List UInt8}
    (stop : iniReaderString INI_MAX_LINE stream = none) :
    iniParseStream handler st stream = st := by
  rw [iniParseStream]
  split
  case h_1 => rfl
  case h_2 line rest read =>
    rw [stop] at read
    cases read

/-- With a line it goes on behind it. -/
theorem iniParseStream_some {st : IniState σ} {stream line rest : List UInt8}
    (read : iniReaderString INI_MAX_LINE stream = some (line, rest)) :
    iniParseStream handler st stream =
      iniParseStream handler (iniParseLine handler st line) rest := by
  rw [iniParseStream]
  split
  case h_1 stop =>
    rw [read] at stop
    cases stop
  case h_2 line' rest' read' =>
    rw [read] at read'
    cases read'
    rfl

theorem iniReaderString_eq {stream : List UInt8} (more : stream ≠ []) :
    iniReaderString INI_MAX_LINE stream =
      some (cutLine isNewline (INI_MAX_LINE - 1) stream) := by
  rw [iniReaderString, if_neg (by simp [more, INI_MAX_LINE])]

/-- The parser takes the lines one by one. -/
theorem iniParseStream_eq (st : IniState σ) (stream : List UInt8) :
    iniParseStream handler st stream =
      (readLines isNewline (INI_MAX_LINE - 1) stream).foldl (iniParseLine handler) st := by
  induction st, stream using iniParseStream.induct handler with
  | case1 st stream stop =>
      have empty : stream = [] := by
        by_contra more
        rw [iniReaderString_eq more] at stop
        cases stop
      rw [iniParseStream_none handler stop, empty, readLines_nil, List.foldl_nil]
  | case2 st stream line rest read ih =>
      have more : stream ≠ [] := by
        rintro rfl
        cases read
      have cut : cutLine isNewline (INI_MAX_LINE - 1) stream = (line, rest) :=
        Option.some.inj ((iniReaderString_eq more).symm.trans read)
      rw [iniParseStream_some handler read, ih, readLines_cons (by decide) more, cut,
        List.foldl_cons]

/-! ## What a line can do -/

inductive IniLine where
  | skip
  | malformed
  | header (name : List UInt8)
  | call (prevName name value : List UInt8)

def IniLine.run (st : IniState σ) : IniLine → IniState σ
  | .skip => st
  | .malformed => st.fail
  | .header name => { st with sectionName := name, prevName := [] }
  | .call prevName name value => { st with prevName := prevName }.call handler name value

/-- The previous name and the text decide it, and neither the handler nor the user's data. -/
theorem iniParseStart_cases (prevName : List UInt8) (offset : Nat) (start : List UInt8) :
    ∃ does : IniLine, ∀ {σ : Type} (handler : IniHandler σ) (st : IniState σ),
      st.prevName = prevName → iniParseStart handler st offset start = does.run handler st := by
  cases start with
  | nil => exact ⟨.skip, fun handler st _ => rfl⟩
  | cons c rest =>
      simp only [iniParseStart]
      by_cases comment : c ∈ INI_START_COMMENT_PREFIXES
      · exact ⟨.skip, fun handler st _ => if_pos comment⟩
      simp only [if_neg comment]
      by_cases continues : prevName ≠ [] ∧ offset > 0
      · refine ⟨.call prevName prevName
          (rstrip ((c :: rest).take (findCharsOrComment (c :: rest) []))),
          fun handler st same => ?_⟩
        rw [same, if_pos continues, ← same]
        rfl
      by_cases opened : c = 0x5b
      · by_cases closed : rest[findCharsOrComment rest [0x5d]]? = some 0x5d
        · refine ⟨.header (strncpy0 (rest.take (findCharsOrComment rest [0x5d])) MAX_SECTION),
            fun handler st same => ?_⟩
          rw [same, if_neg continues, if_pos opened, if_pos closed]
          rfl
        · refine ⟨.malformed, fun handler st same => ?_⟩
          rw [same, if_neg continues, if_pos opened, if_neg closed]
          rfl
      · by_cases pair : (c :: rest)[findCharsOrComment (c :: rest) [0x3d, 0x3a]]? = some 0x3d ∨
            (c :: rest)[findCharsOrComment (c :: rest) [0x3d, 0x3a]]? = some 0x3a
        · let start := c :: rest
          let stop := findCharsOrComment start [0x3d, 0x3a]
          let name := rstrip (start.take stop)
          let value := start.drop (stop + 1)
          refine ⟨.call (strncpy0 name MAX_NAME) name
            (rstrip (lskip (value.take (findCharsOrComment value [])))), fun handler st same => ?_⟩
          rw [same, if_neg continues, if_neg opened, if_pos pair]
          rfl
        · refine ⟨.malformed, fun handler st same => ?_⟩
          rw [same, if_neg continues, if_neg opened, if_neg pair]
          rfl

/-- What a line does depends on the last name and the number of the line only. -/
theorem iniParseLine_cases (prevName : List UInt8) (lineno : Int) (line : List UInt8) :
    ∃ does : IniLine, ∀ {σ : Type} (handler : IniHandler σ) (st : IniState σ),
      st.prevName = prevName → st.lineno = lineno →
      iniParseLine handler st line =
        does.run handler { st with lineno := wrapInt (lineno + 1) } := by
  let mark := if wrapInt (lineno + 1) = 1 ∧ line.take 3 = [0xEF, 0xBB, 0xBF] then 3 else 0
  let stripped := rstrip (line.drop mark)
  obtain ⟨does, run⟩ := iniParseStart_cases prevName
    (mark + (stripped.length - (lskip stripped).length)) (lskip stripped)
  refine ⟨does, ?_⟩
  rintro σ handler st same rfl
  exact run handler _ same

/-! ## The effect -/

structure IniCall where
  sectionName : List UInt8
  name : List UInt8
  value : List UInt8
deriving DecidableEq

/-- What a call leaves of the user's data. -/
def IniCall.after (user : σ) (call : IniCall) : σ :=
  (handler user call.sectionName call.name call.value).1

/-- The handler takes every one of the calls. -/
def Accepts : σ → List IniCall → Prop
  | _, [] => True
  | user, call :: calls =>
      (handler user call.sectionName call.name call.value).2 ≠ 0 ∧
        Accepts (call.after handler user) calls

theorem accepts_concat (user : σ) (calls : List IniCall) (call : IniCall) :
    Accepts handler user (calls ++ [call]) ↔ Accepts handler user calls ∧
      (handler (calls.foldl (IniCall.after handler) user) call.sectionName call.name
        call.value).2 ≠ 0 := by
  induction calls generalizing user with
  | nil => simp [Accepts]
  | cons first calls ih => simp [Accepts, ih, and_assoc]

/-- A handler that writes down how it is called. -/
def recordCall : IniHandler (List IniCall) :=
  fun calls sectionName name value => (calls ++ [⟨sectionName, name, value⟩], 1)

/-- The calls of the handler for a text. -/
def iniCalls (string : List UInt8) : List IniCall := (iniParseString recordCall string []).1

/-- The parser with a handler and the parser that only writes down the calls; they come to the
same error as long as the handler takes what it is called with. -/
structure Alongside (user : σ) (st : IniState σ) (record : IniState (List IniCall)) : Prop where
  sectionName : st.sectionName = record.sectionName
  prevName : st.prevName = record.prevName
  lineno : st.lineno = record.lineno
  error : Accepts handler user record.user → st.error = record.error
  user : st.user = record.user.foldl (IniCall.after handler) user

theorem call_recordCall (record : IniState (List IniCall)) (name value : List UInt8) :
    record.call recordCall name value =
      { record with user := record.user ++ [⟨record.sectionName, name, value⟩] } := rfl

namespace Alongside

variable {handler} {user : σ} {st : IniState σ} {record : IniState (List IniCall)}

theorem fail (along : Alongside handler user st record) :
    Alongside handler user st.fail record.fail := by
  refine ⟨along.sectionName, along.prevName, along.lineno, fun accepts => ?_, along.user⟩
  simp only [IniState.fail, along.error accepts, along.lineno]

/-- A call reaches both handlers. -/
theorem call (along : Alongside handler user st record) (name value : List UInt8) :
    Alongside handler user (st.call handler name value) (record.call recordCall name value) := by
  let call : IniCall := ⟨record.sectionName, name, value⟩
  have after : (handler st.user st.sectionName name value).1 =
      (record.user ++ [call]).foldl (IniCall.after handler) user := by
    rw [List.foldl_concat, ← along.user, along.sectionName]
    rfl
  have answer (accepts : Accepts handler user (record.user ++ [call])) :
      (handler st.user st.sectionName name value).2 ≠ 0 ∧ st.error = record.error := by
    obtain ⟨before, last⟩ := (accepts_concat handler user record.user _).mp accepts
    rw [along.user, along.sectionName]
    exact ⟨last, along.error before⟩
  rw [call_recordCall]
  simp only [IniState.call]
  split
  case isTrue rejects =>
    exact ⟨along.sectionName, along.prevName, along.lineno,
      fun accepts => absurd rejects (answer accepts).1, after⟩
  case isFalse =>
    exact ⟨along.sectionName, along.prevName, along.lineno,
      fun accepts => (answer accepts).2, after⟩

/-- A line does the same for both handlers. -/
theorem run (along : Alongside handler user st record) (does : IniLine) :
    Alongside handler user (does.run handler st) (does.run recordCall record) := by
  cases does with
  | skip => exact along
  | malformed => exact along.fail
  | header name => exact ⟨rfl, rfl, along.lineno, along.error, along.user⟩
  | call prevName name value =>
      apply Alongside.call
      exact ⟨along.sectionName, rfl, along.lineno, along.error, along.user⟩

theorem parseLine (along : Alongside handler user st record) (line : List UInt8) :
    Alongside handler user (iniParseLine handler st line)
      (iniParseLine recordCall record line) := by
  obtain ⟨does, run⟩ := iniParseLine_cases record.prevName record.lineno line
  rw [run handler st along.prevName along.lineno, run recordCall record rfl rfl]
  apply Alongside.run
  exact ⟨along.sectionName, along.prevName, rfl, along.error, along.user⟩

theorem parseLines (along : Alongside handler user st record) (lines : List (List UInt8)) :
    Alongside handler user (lines.foldl (iniParseLine handler) st)
      (lines.foldl (iniParseLine recordCall) record) := by
  induction lines generalizing st record with
  | nil => exact along
  | cons line lines ih => exact ih (along.parseLine line)

end Alongside

theorem iniParseString_alongside (string : List UInt8) (user : σ) :
    Alongside handler user (iniParseStream handler ⟨[], [], 0, 0, user⟩ (cstr string))
      (iniParseStream recordCall ⟨[], [], 0, 0, []⟩ (cstr string)) := by
  have start : Alongside handler user ⟨[], [], 0, 0, user⟩ ⟨[], [], 0, 0, []⟩ :=
    ⟨rfl, rfl, rfl, fun _ => rfl, rfl⟩
  simp only [iniParseStream_eq]
  exact start.parseLines _

/-- The effect is the one of the calls, which do not depend on the handler. -/
theorem iniParseString_user (string : List UInt8) (user : σ) :
    (iniParseString handler string user).1 =
      (iniCalls string).foldl (IniCall.after handler) user :=
  (iniParseString_alongside handler string user).user

/-- A handler that takes what it is called with does not change the result. -/
theorem iniParseString_accepts {string : List UInt8} {user : σ}
    (accepts : Accepts handler user (iniCalls string)) :
    (iniParseString handler string user).2 = (iniParseString recordCall string []).2 :=
  (iniParseString_alongside handler string user).error accepts

/-! ## The result -/

namespace IniState

/-- The state with an error that an earlier line has left, unless that is 0. -/
def behind (error : Int) (st : IniState σ) : IniState σ :=
  { st with error := if error = 0 then st.error else error }

def clear (st : IniState σ) : IniState σ := { st with error := 0 }

theorem clear_behind (st : IniState σ) : st.clear.behind st.error = st := by
  unfold clear behind
  by_cases none : st.error = 0
  · simp [← none]
  · simp [none]

theorem fail_behind (error : Int) (st : IniState σ) :
    (st.behind error).fail = st.fail.behind error := by
  unfold fail behind
  by_cases none : error = 0
  · simp [none]
  · simp [none]

/-- An error that was there before changes no call. -/
theorem call_behind (error : Int) (st : IniState σ) (name value : List UInt8) :
    (st.behind error).call handler name value = (st.call handler name value).behind error := by
  have called : (st.behind error).call handler name value =
      if (handler st.user st.sectionName name value).2 = 0 then
        ({ st with user := (handler st.user st.sectionName name value).1 }.behind error).fail
      else { st with user := (handler st.user st.sectionName name value).1 }.behind error := rfl
  rw [called, fail_behind]
  unfold call
  dsimp only
  split <;> rfl

end IniState

theorem IniLine.run_behind (error : Int) (st : IniState σ) (does : IniLine) :
    does.run handler (st.behind error) = (does.run handler st).behind error := by
  cases does with
  | skip => rfl
  | malformed => exact st.fail_behind error
  | header name => rfl
  | call prevName name value =>
      exact IniState.call_behind handler error { st with prevName := prevName } name value

/-- A line does its own, and keeps the error of an earlier one. -/
theorem iniParseLine_clear (st : IniState σ) (line : List UInt8) :
    iniParseLine handler st line =
      (iniParseLine handler st.clear line).behind st.error := by
  obtain ⟨does, run⟩ := iniParseLine_cases st.prevName st.lineno line
  rw [run handler st rfl rfl, run handler st.clear rfl rfl, ← does.run_behind]
  congr 1
  conv_lhs => rw [← st.clear_behind]
  rfl

namespace IniState

/-- An error is the number of the line. -/
structure Numbered (st st' : IniState σ) : Prop where
  lineno : st'.lineno = st.lineno
  error : st'.error = st.error ∨ st'.error = st.lineno

theorem fail_numbered (st : IniState σ) : Numbered st st.fail := by
  refine ⟨rfl, ?_⟩
  unfold fail
  dsimp only
  split
  · exact .inr rfl
  · exact .inl rfl

theorem call_numbered (st : IniState σ) (name value : List UInt8) :
    Numbered st (st.call handler name value) := by
  unfold call
  dsimp only
  split
  · have failed := fail_numbered { st with user := (handler st.user st.sectionName name value).1 }
    exact ⟨failed.lineno, failed.error⟩
  · exact ⟨rfl, .inl rfl⟩

end IniState

/-- Every line is counted, and the first error kept. -/
theorem IniLine.run_numbered (st : IniState σ) (does : IniLine) :
    st.Numbered (does.run handler st) := by
  cases does with
  | skip => exact ⟨rfl, .inl rfl⟩
  | malformed => exact st.fail_numbered
  | header name => exact ⟨rfl, .inl rfl⟩
  | call prevName name value =>
      have called := IniState.call_numbered handler { st with prevName := prevName } name value
      exact ⟨called.lineno, called.error⟩

/-- What a line leaves when no line before it has failed. -/
theorem iniParseLine_numbered {st : IniState σ} (error : st.error = 0) (line : List UInt8) :
    (iniParseLine handler st line).lineno = wrapInt (st.lineno + 1) ∧
      ((iniParseLine handler st line).error = 0 ∨
        (iniParseLine handler st line).error = wrapInt (st.lineno + 1)) := by
  obtain ⟨does, run⟩ := iniParseLine_cases st.prevName st.lineno line
  rw [run handler st rfl rfl]
  have numbered := does.run_numbered handler { st with lineno := wrapInt (st.lineno + 1) }
  exact ⟨numbered.lineno, error ▸ numbered.error⟩

/-- Which lines would give an error if no line before them had. -/
def iniFailures : IniState σ → List (List UInt8) → List Bool
  | _, [] => []
  | st, line :: lines =>
      decide ((iniParseLine handler st.clear line).error ≠ 0) ::
        iniFailures (iniParseLine handler st line) lines

/-- The first error stays. -/
theorem iniParseLines_failed (lines : List (List UInt8)) {st : IniState σ}
    (failed : st.error ≠ 0) :
    (lines.foldl (iniParseLine handler) st).error = st.error := by
  induction lines generalizing st with
  | nil => rfl
  | cons line lines ih =>
      have keeps : (iniParseLine handler st line).error = st.error := by
        rw [iniParseLine_clear]
        exact if_neg failed
      rw [List.foldl_cons, ih (keeps ▸ failed), keeps]

/-- The error is the number of the first line that fails. -/
theorem iniParseLines_error (lines : List (List UInt8)) (st : IniState σ)
    (error : st.error = 0) (positive : 0 ≤ st.lineno)
    (short : st.lineno + lines.length < 2 ^ 31) :
    (lines.foldl (iniParseLine handler) st).error =
      match (iniFailures handler st lines).findIdx? id with
      | none => 0
      | some line => st.lineno + line + 1 := by
  induction lines generalizing st with
  | nil => exact error
  | cons line lines ih =>
      have clear : st.clear = st := by
        unfold IniState.clear
        rw [← error]
      rw [List.length_cons] at short
      have next := iniParseLine_numbered handler error line
      rw [wrapInt_of_lt (by omega) (by omega)] at next
      rw [List.foldl_cons, iniFailures, clear, List.findIdx?_cons]
      by_cases fails : (iniParseLine handler st line).error = 0
      · rw [ih _ fails (by omega) (by omega), next.1]
        cases (iniFailures handler (iniParseLine handler st line) lines).findIdx? id with
        | none => simp [fails]
        | some first =>
            simp [fails]
            omega
      · rw [iniParseLines_failed handler lines fails, id_eq, if_pos (decide_eq_true fails),
          next.2.resolve_left fails]
        simp

/-- The result is the number of the first line that fails, or 0. -/
theorem iniParseString_error (string : List UInt8) (short : string.length < 2 ^ 31) (user : σ) :
    (iniParseString handler string user).2 =
      match (iniFailures handler ⟨[], [], 0, 0, user⟩
        (readLines isNewline (INI_MAX_LINE - 1) (cstr string))).findIdx? id with
      | none => 0
      | some line => line + 1 := by
  have lines := readLines_count_le isNewline (INI_MAX_LINE - 1) (cstr string)
  have text := cstr_length_le string
  have error := iniParseLines_error handler
    (readLines isNewline (INI_MAX_LINE - 1) (cstr string)) ⟨[], [], 0, 0, user⟩ rfl
    (le_refl 0) (by dsimp only; omega)
  dsimp only at error
  unfold iniParseString
  rw [iniParseStream_eq]
  dsimp only
  rw [error]
  split <;> simp

theorem iniParseString_nonneg (string : List UInt8) (short : string.length < 2 ^ 31) (user : σ) :
    0 ≤ (iniParseString handler string user).2 := by
  rw [iniParseString_error handler string short user]
  split
  · exact le_refl 0
  · exact Int.add_nonneg (Int.natCast_nonneg _) (by decide)

/-- For every handler and every string: what the handler is called with does not depend on what
it answers, and the result is the number of the first line that fails. -/
theorem ini_effect_and_result (string : List UInt8) (short : string.length < 2 ^ 31) (user : σ) :
    (iniParseString handler string user).1 =
        (iniCalls string).foldl (IniCall.after handler) user ∧
      (iniParseString handler string user).2 =
        match (iniFailures handler ⟨[], [], 0, 0, user⟩
          (readLines isNewline (INI_MAX_LINE - 1) (cstr string))).findIdx? id with
        | none => 0
        | some line => line + 1 :=
  ⟨iniParseString_user handler string user, iniParseString_error handler string short user⟩

/-- "[a]", a line without a separator, and "x=1". -/
theorem ini_effect_and_result_lines :
    (iniParseString recordCall [0x5b, 0x61, 0x5d, 0x0a, 0x79, 0x0a, 0x78, 0x3d, 0x31] []).2 =
      match (iniFailures recordCall ⟨[], [], 0, 0, []⟩ (readLines isNewline (INI_MAX_LINE - 1)
        (cstr [0x5b, 0x61, 0x5d, 0x0a, 0x79, 0x0a, 0x78, 0x3d, 0x31]))).findIdx? id with
      | none => 0
      | some line => line + 1 :=
  (ini_effect_and_result recordCall _ (by decide) []).2

end Zsbl.Libs
