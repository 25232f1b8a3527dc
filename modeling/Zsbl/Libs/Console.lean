/-
Module: Zsbl.Libs.Console
Purpose: The state machine of lib/cli/console.c, which reads a line from a serial
  device and calls the command it names.
Trusted boundary: a command's callback changes nothing but the registered commands
Main exports:
  Console, consoleAllocConsole, stateReadInput, stateReadEscapeSequence,
  stateParseInput, consolePumpConsole
-/
import Zsbl.Lib.Bytes

namespace Zsbl.Libs

open Zsbl.Lib

def CS_BUFFER_SIZE : Nat := 16
def DEFAULT_PROMPT : List UInt8 := [0x23, 0x20]

/-- The functions that `console->state` points to. -/
inductive ConsoleState where
  | startNewCommand
  | readInput
  | readEscapeSequence
  | parseEscapeSequenceAnsi
  | parseInput
deriving DecidableEq, Repr

/-- A call of a command: its name and `argv`. -/
structure Dispatch where
  name : List UInt8
  argv : List (List UInt8)
deriving DecidableEq, Repr

/-- `struct console`; `root` has the names of the commands.  The device counts how
often it was polled and keeps what was written to it.  `dispatched` is history. -/
structure Console where
  root : List (List UInt8)
  argLine : List UInt8
  argLineSize : Nat
  argLineWriteIndex : Nat
  maxArgc : Nat
  polled : Nat
  output : List UInt8
  snoopChar : Option UInt8
  state : ConsoleState
  csBuffer : List UInt8
  csWriteIndex : Nat
  fLocalEcho : Bool
  prompt : Option (List UInt8)
  dispatched : List Dispatch
deriving DecidableEq, Repr

/-- `console_alloc_console`, given what the memory behind `malloc` holds. -/
def consoleAllocConsole (memory : Nat → UInt8) (maxArgLineLength maxArgCount : Nat) :
    Console where
  root := []
  argLine := (List.range (max maxArgLineLength 16 + 1)).map memory
  argLineSize := max maxArgLineLength 16
  argLineWriteIndex := 0
  maxArgc := max maxArgCount 1
  polled := 0
  output := []
  snoopChar := none
  state := .startNewCommand
  csBuffer := List.replicate CS_BUFFER_SIZE 0
  csWriteIndex := 0
  fLocalEcho := true
  prompt := none
  dispatched := []

/-- `locate_command`. -/
def locateCommand (root : List (List UInt8)) (name : List UInt8) : Option (List UInt8) :=
  root.find? fun command => command = name

/-! ## Terminal functions -/

namespace Console

/-- `serial_output` of some characters. -/
def put (c : Console) (chars : List UInt8) : Console :=
  { c with output := c.output ++ chars }

/-- `term_put_newline`. -/
def putNewline (c : Console) : Console := c.put [0x0D, 0x0A]

/-- `term_backspace`. -/
def backspace (c : Console) : Console := c.put [0x08, 0x20, 0x08]

/-- What `term_puts` writes for a character. -/
def shown (ch : UInt8) : List UInt8 :=
  if ch = 0x0A then [0x0D, 0x0A] else if ch = 0x08 then [0x08, 0x20, 0x08] else [ch]

/-- `term_puts`. -/
def puts (c : Console) (str : List UInt8) : Console := c.put (str.flatMap shown)

/-- `term_getc_raw`, given what each poll of the device returns; missing is `EOF`. -/
def getcRaw (input : Nat → Option UInt8) (c : Console) : Option UInt8 × Console :=
  match c.snoopChar with
  | some ch => (some ch, { c with snoopChar := none })
  | none => (input c.polled, { c with polled := c.polled + 1 })

end Console

/-! ## Splitting the argument line -/

/-- The characters that separate arguments. -/
def isWhitespace (ch : UInt8) : Bool :=
  ch = 0x20 ∨ ch = 0x09 ∨ ch = 0x0A ∨ ch = 0x0B ∨ ch = 0x0C ∨ ch = 0x0D

/-- Where the first wanted character of a string is that starts at `position`. -/
def findFirst (wanted : UInt8 → Bool) : List UInt8 → Nat → Option Nat
  | [], _ => none
  | ch :: str, position =>
      if ch = 0 then none
      else if wanted ch then some position
      else findFirst wanted str (position + 1)

/-- `find_first_non_whitesapce` of the string at a position of the line. -/
def findFirstNonWhitesapce (argLine : List UInt8) (position : Nat) : Option Nat :=
  findFirst (fun ch => !isWhitespace ch) (argLine.drop position) position

/-- `find_fist_whitespace` of the string at a position of the line. -/
def findFistWhitespace (argLine : List UInt8) (position : Nat) : Option Nat :=
  findFirst isWhitespace (argLine.drop position) position

/-- The loop of `state_parse_input` for a number of arguments: where they start, and
the line with its NULs. -/
def splitArgLine : Nat → List UInt8 → Nat → List Nat × List UInt8
  | 0, argLine, _ => ([], argLine)
  | argc + 1, argLine, position =>
      match findFirstNonWhitesapce argLine position with
      | none => ([], argLine)
      | some start =>
          match findFistWhitespace argLine start with
          | none => ([start], argLine)
          | some stop =>
              let (argv, argLine) := splitArgLine argc (argLine.set stop 0) (stop + 1)
              (start :: argv, argLine)

/-! ## State machine functions -/

/-- The loop of `state_read_input` for one character. -/
def readInputChar (c : Console) (ch : UInt8) : Console :=
  if ch = 0x0D then { c.putNewline with state := .parseInput }
  else if ch = 0x00 then c
  else if ch = 0x08 ∨ ch = 0x7F then
    if 0 < c.argLineWriteIndex then
      { c.backspace with argLineWriteIndex := c.argLineWriteIndex - 1 }
    else c
  else if ch = 0x1B then
    { c with snoopChar := some ch, csWriteIndex := 0, state := .readEscapeSequence }
  else if 0x1F < ch then
    if c.argLineWriteIndex < c.argLineSize then
      { c.put (if c.fLocalEcho then [ch] else []) with
        argLine := c.argLine.set c.argLineWriteIndex ch
        argLineWriteIndex := c.argLineWriteIndex + 1 }
    else c
  else c

/-- The loop of `state_read_input` for the rest of `loop_limit`. -/
def readInputLoop (input : Nat → Option UInt8) : Nat → Console → Console
  | 0, c => c
  | limit + 1, c =>
      match c.getcRaw input with
      | (none, c) => c
      | (some ch, c) =>
          if ch = 0x0D then readInputChar c ch
          else readInputLoop input limit (readInputChar c ch)

/-- `abort_sequence`, `parse_sequence`, or neither. -/
inductive SequenceFlag where
  | abort
  | parse
  | pending
deriving DecidableEq, Repr

/-- Whether a character ends the sequence, stored at an index of `cs_buffer`. -/
def sequenceFlag (index : Nat) (ch : UInt8) : SequenceFlag :=
  if index = 1 then
    if ch = 0x5B then .pending
    else if 0x40 ≤ ch ∧ ch ≤ 0x5F then .parse
    else .pending
  else if 1 < index then
    if 0x40 ≤ ch ∧ ch ≤ 0x7E then .parse else .pending
  else .pending

/-- The loop of `state_read_escape_sequence` for one character. -/
def readEscapeChar (c : Console) (ch : UInt8) : SequenceFlag × Console :=
  if ch = 0x18 ∨ ch = 0x1A then (.abort, c)
  else if c.csWriteIndex < CS_BUFFER_SIZE then
    (sequenceFlag c.csWriteIndex ch, { c with
      csBuffer := c.csBuffer.set c.csWriteIndex ch
      csWriteIndex := c.csWriteIndex + 1 })
  else (.abort, { c with snoopChar := some ch })

/-- The loop of `state_read_escape_sequence` for the rest of `loop_limit`. -/
def readEscapeLoop (input : Nat → Option UInt8) : Nat → Console → SequenceFlag × Console
  | 0, c => (.pending, c)
  | limit + 1, c =>
      match c.getcRaw input with
      | (none, c) => (.pending, c)
      | (some ch, c) =>
          match readEscapeChar c ch with
          | (.pending, c) => readEscapeLoop input limit c
          | (flag, c) => (flag, c)

/-- `state_read_escape_sequence` behind its loop. -/
def endEscape (flag : SequenceFlag) (c : Console) : Console :=
  match flag with
  | .abort =>
      { c.put (c.csBuffer.take c.csWriteIndex) with csWriteIndex := 0, state := .readInput }
  | .parse => { c with state := .parseEscapeSequenceAnsi }
  | .pending => c

def stateReadInput (input : Nat → Option UInt8) (c : Console) : Console :=
  readInputLoop input 8 c

def stateReadEscapeSequence (input : Nat → Option UInt8) (c : Console) : Console :=
  let (flag, c) := readEscapeLoop input 8 c
  endEscape flag c

def stateParseEscapeSequenceAnsi (c : Console) : Console :=
  { c with state := .readInput }

/-- `state_parse_input`, given which commands are registered once the last of some
calls has returned. -/
def stateParseInput (callback : List Dispatch → List (List UInt8)) (c : Console) : Console :=
  let (argv, argLine) := splitArgLine c.maxArgc (c.argLine.set c.argLineWriteIndex 0) 0
  let c := { c with argLine := argLine, state := .startNewCommand }
  match argv.map fun start => cstr (argLine.drop start) with
  | [] => c
  | name :: args =>
      match locateCommand c.root name with
      | some command =>
          let dispatched := c.dispatched ++ [⟨command, name :: args⟩]
          { c with root := callback dispatched, dispatched := dispatched }
      | none => ((c.puts [0x27]).puts name).puts ("' not found\n".toUTF8.toList)

def stateStartNewCommand (c : Console) : Console :=
  { c.puts (c.prompt.getD DEFAULT_PROMPT) with argLineWriteIndex := 0, state := .readInput }

/-- `console_pump_console`. -/
def consolePumpConsole (input : Nat → Option UInt8)
    (callback : List Dispatch → List (List UInt8)) (c : Console) : Console :=
  match c.state with
  | .startNewCommand => stateStartNewCommand c
  | .readInput => stateReadInput input c
  | .readEscapeSequence => stateReadEscapeSequence input c
  | .parseEscapeSequenceAnsi => stateParseEscapeSequenceAnsi c
  | .parseInput => stateParseInput callback c

end Zsbl.Libs
