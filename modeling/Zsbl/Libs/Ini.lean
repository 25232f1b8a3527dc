/-
Module: Zsbl.Libs.Ini
Purpose: The parser of lib/ini/ini.c for a string, as include/lib/ini.h configures it. The
  strings in its buffers are the bytes in front of their terminators.
Trusted boundary: the handler, which is a parameter
Main exports:
  rstrip, lskip, findCharsOrComment, strncpy0, IniHandler, IniState, iniParseLine,
  iniReaderString, iniParseStream, iniParseString
-/
import Mathlib.Data.List.DropRight
import Zsbl.Include.Libc
import Zsbl.Lib.Bytes
import Zsbl.Lib.Lines

namespace Zsbl.Libs

open Zsbl.Lib

/-- `isspace` of lib/libc/string.c. -/
def isspace (c : UInt8) : Bool :=
  c = 0x20 || c = 0x0c || c = 0x0a || c = 0x0d || c = 0x09 || c = 0x0b

/-- '\n' and '\r'. -/
def isNewline (c : UInt8) : Bool := c = 0x0a || c = 0x0d

def INI_MAX_LINE : Nat := 200

def MAX_SECTION : Nat := 50

def MAX_NAME : Nat := 50

/-- ";#" -/
def INI_START_COMMENT_PREFIXES : List UInt8 := [0x3b, 0x23]

/-- ";" -/
def INI_INLINE_COMMENT_PREFIXES : List UInt8 := [0x3b]

/-! ## Strings -/

def rstrip (s : List UInt8) : List UInt8 := s.rdropWhile isspace

def lskip (s : List UInt8) : List UInt8 := s.dropWhile isspace

/-- The loop of `find_chars_or_comment`. -/
def findCharsFrom (chars : List UInt8) : Bool → List UInt8 → Nat
  | _, [] => 0
  | wasSpace, c :: s =>
      if c ∉ chars ∧ ¬ (wasSpace ∧ c ∈ INI_INLINE_COMMENT_PREFIXES) then
        findCharsFrom chars (isspace c) s + 1
      else 0

/-- How far the returned pointer is behind `s`; without characters to look for the list is
empty. -/
def findCharsOrComment (s chars : List UInt8) : Nat := findCharsFrom chars false s

/-- The string in the destination. -/
def strncpy0 (src : List UInt8) (size : Nat) : List UInt8 := src.take (size - 1)

/-! ## Lines -/

/-- User data, section, name and value; the result is zero on an error. -/
abbrev IniHandler (σ : Type) : Type := σ → List UInt8 → List UInt8 → List UInt8 → σ × Int

/-- The variables of `ini_parse_stream` that outlive a line, and the user's data. -/
structure IniState (σ : Type) where
  sectionName : List UInt8
  prevName : List UInt8
  lineno : Int
  error : Int
  user : σ

namespace IniState

variable {σ : Type}

def fail (st : IniState σ) : IniState σ :=
  { st with error := if st.error = 0 then st.lineno else st.error }

/-- `HANDLER`, and the error of a line that it does not accept. -/
def call (handler : IniHandler σ) (st : IniState σ) (name value : List UInt8) : IniState σ :=
  let (user, accepted) := handler st.user st.sectionName name value
  let st := { st with user := user }
  if accepted = 0 then st.fail else st

end IniState

variable {σ : Type} (handler : IniHandler σ)

/-- A line with a name and a value; `stop` is how far the separator is behind `start`. -/
def iniParsePair (st : IniState σ) (start : List UInt8) (stop : Nat) : IniState σ :=
  let name := rstrip (start.take stop)
  let value := start.drop (stop + 1)
  let value := value.take (findCharsOrComment value [])
  let value := rstrip (lskip value)
  let st := { st with prevName := strncpy0 name MAX_NAME }
  st.call handler name value

/-- A line that starts behind `start` bytes of the buffer, which are a mark of the byte order or
blanks. -/
def iniParseStart (st : IniState σ) (offset : Nat) : List UInt8 → IniState σ
  | [] => st
  | c :: rest =>
      if c ∈ INI_START_COMMENT_PREFIXES then st
      else if st.prevName ≠ [] ∧ offset > 0 then
        let start := c :: rest
        let stop := findCharsOrComment start []
        st.call handler st.prevName (rstrip (start.take stop))
      else if c = 0x5b then
        let stop := findCharsOrComment rest [0x5d]
        if rest[stop]? = some 0x5d then
          { st with sectionName := strncpy0 (rest.take stop) MAX_SECTION, prevName := [] }
        else st.fail
      else
        let start := c :: rest
        let stop := findCharsOrComment start [0x3d, 0x3a]
        if start[stop]? = some 0x3d ∨ start[stop]? = some 0x3a then
          iniParsePair handler st start stop
        else st.fail

/-- A turn of the loop of `ini_parse_stream`. -/
def iniParseLine (st : IniState σ) (line : List UInt8) : IniState σ :=
  let st := { st with lineno := wrapInt (st.lineno + 1) }
  let mark := if st.lineno = 1 ∧ line.take 3 = [0xEF, 0xBB, 0xBF] then 3 else 0
  let stripped := rstrip (line.drop mark)
  let start := lskip stripped
  iniParseStart handler st (mark + (stripped.length - start.length)) start

/-- `ini_reader_string`: the line in the buffer, and what is left of the string. -/
def iniReaderString (num : Nat) (stream : List UInt8) : Option (List UInt8 × List UInt8) :=
  if stream = [] ∨ num < 2 then none else some (cutLine isNewline (num - 1) stream)

theorem iniReaderString_lt {num : Nat} {stream line rest : List UInt8}
    (read : iniReaderString num stream = some (line, rest)) : rest.length < stream.length := by
  unfold iniReaderString at read
  split at read
  case isTrue => cases read
  case isFalse more =>
    have cut : (cutLine isNewline (num - 1) stream).2 = rest :=
      congrArg Prod.snd (Option.some.inj read)
    rw [← cut]
    exact cutLine_lt (by omega) fun empty => more (.inl empty)

def iniParseStream (st : IniState σ) (stream : List UInt8) : IniState σ :=
  match _read : iniReaderString INI_MAX_LINE stream with
  | none => st
  | some (line, rest) => iniParseStream (iniParseLine handler st line) rest
termination_by stream.length
decreasing_by exact iniReaderString_lt _read

def iniParseString (string : List UInt8) (user : σ) : σ × Int :=
  let st := iniParseStream handler ⟨[], [], 0, 0, user⟩ (cstr string)
  (st.user, st.error)

end Zsbl.Libs
