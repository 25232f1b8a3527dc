/-
Module: Zsbl.Libs.Stdio
Purpose: The formatted output of lib/libc/stdio.c: what a format asks for, and where the
  characters go.
Trusted boundary: the memory that a string is read from is not written meanwhile
Main exports:
  Spec, Directive, directives, printc, print, sprintf, snprintf, printf
-/
import Mathlib.Data.Nat.Digits.Defs
import Zsbl.Include.Libc
import Zsbl.Libs.CString

namespace Zsbl.Libs

open Zsbl.Lib

def CONSOLE_TBUF_MAX : Nat := 256

/-- A string, without its terminator. -/
structure Text where
  chars : List UInt8
  isString : 0 ∉ chars

def Text.empty : Text := ⟨[], List.not_mem_nil⟩

/-! ## Directives -/

/-- The flags and the width of a directive. -/
structure Spec where
  padRight : Bool
  padZero : Bool
  padAlternate : Bool
  width : Int
deriving DecidableEq, Repr

/-- What a round of the loop of `print` is about: the calls of `printc`, `prints` and
`printi` with the arguments they get. -/
inductive Directive where
  | literal (ch : UInt8)
  | text (spec : Spec) (string : List UInt8)
  | number (spec : Spec) (i : BitVec 64) (b : Nat) (sg : Bool) (letbase : UInt8)
  | unknown
deriving DecidableEq, Repr

/-- A variable argument as an `int` and as an `unsigned int`, passed as `long long`. -/
def vaInt (arg : BitVec 64) : BitVec 64 := (arg.setWidth 32).signExtend 64

def vaUnsigned (arg : BitVec 64) : BitVec 64 := (arg.setWidth 32).setWidth 64

/-- Skip a character that may be there. -/
def skipChar (ch : UInt8) (format : List UInt8) : Bool × List UInt8 :=
  if format.head? = some ch then (true, format.tail) else (false, format)

/-- Flags and width, how many arguments they take, and the rest of the format. -/
def scanSpec (arg : BitVec 64) (format : List UInt8) : Spec × Nat × List UInt8 :=
  let (padRight, format) := skipChar 0x2d format
  let (padAlternate, format) := skipChar 0x23 format
  let (star, format) := skipChar 0x2a format
  let width := if star then (vaInt arg).toInt else 0
  let padZero := format.head? = some 0x30
  let format := format.dropWhile (· = 0x30)
  let isDigit (ch : UInt8) : Bool := 0x30 ≤ ch ∧ ch ≤ 0x39
  let width := (format.takeWhile isDigit).foldl
    (fun width ch => wrapInt (width * 10 + (ch.toNat - 0x30))) width
  (⟨padRight, padZero, padAlternate, width⟩, if star then 1 else 0, format.dropWhile isDigit)

/-- "(null)". -/
def nullText : List UInt8 := [0x28, 0x6e, 0x75, 0x6c, 0x6c, 0x29]

/-- What follows the last `l`; without a letter that it knows, `print` takes a `long`. -/
def scanLong (spec : Spec) (arg : BitVec 64) (format : List UInt8) : Directive × List UInt8 :=
  match format with
  | 0x75 :: rest => (.number spec arg 10 false 0x61, rest)
  | 0x78 :: rest => (.number spec arg 16 false 0x61, rest)
  | 0x58 :: rest => (.number spec arg 16 false 0x41, rest)
  | 0x64 :: rest => (.number spec arg 10 true 0x30, rest)
  | _ => (.number spec arg 10 true 0x30, format)

/-- The conversion, how many arguments it takes, and the rest of the format; there is none
when the format ends in front of it, and `print` reads on behind the terminator. -/
def scanConversion (strings : BitVec 64 → Text) (spec : Spec) (arg : BitVec 64) :
    List UInt8 → Option (Directive × Nat × List UInt8)
  | [] => none
  | 0x73 :: rest =>
      some (.text spec (if arg = 0 then nullText else (strings arg).chars), 1, rest)
  | 0x64 :: rest | 0x69 :: rest => some (.number spec (vaInt arg) 10 true 0x30, 1, rest)
  | 0x78 :: rest => some (.number spec (vaUnsigned arg) 16 false 0x61, 1, rest)
  | 0x58 :: rest => some (.number spec (vaUnsigned arg) 16 false 0x41, 1, rest)
  | 0x75 :: rest => some (.number spec (vaUnsigned arg) 10 false 0x61, 1, rest)
  | 0x70 :: rest => some (.number spec arg 16 false 0x61, 1, rest)
  | 0x50 :: rest => some (.number spec arg 16 false 0x41, 1, rest)
  | 0x6c :: rest =>
      let (directive, rest) := scanLong spec arg (skipChar 0x6c rest).2
      some (directive, 1, rest)
  | 0x63 :: rest =>
      let ch := UInt8.ofNat arg.toNat
      -- the string `scr` ends in front of a character 0
      some (.text spec (if ch = 0 then [] else [ch]), 1, rest)
  | _ :: rest => some (.unknown, 0, rest)

/-- The rounds of the loop of `print`, from one position in the format on: `skip`
characters belong to the last directive, and `taken` arguments are used up. -/
def directives (strings : BitVec 64 → Text) (args : Nat → BitVec 64) :
    Nat → Nat → List UInt8 → Option (List Directive)
  | _, _, [] => some []
  | skip + 1, taken, _ :: format => directives strings args skip taken format
  | 0, taken, ch :: format =>
      if ch ≠ 0x25 then
        (directives strings args 0 taken format).map (Directive.literal ch :: ·)
      else if format = [] then some [.unknown]
      else if format.head? = some 0x25 then
        (directives strings args 1 taken format).map (Directive.literal 0x25 :: ·)
      else do
        let (spec, stars, rest) := scanSpec (args taken) format
        let (directive, used, rest) ←
          scanConversion strings spec (args (taken + stars)) rest
        let others ← directives strings args (format.length - rest.length)
          (taken + stars + used) format
        some (directive :: others)

/-! ## Characters -/

/-- The characters that `prints` passes to `printc`. -/
def prints (spec : Spec) (string : List UInt8) : List UInt8 :=
  let fill := List.replicate (spec.width.toNat - string.length)
    (if spec.padZero then 0x30 else 0x20)
  if spec.padRight then string ++ fill else fill ++ string

/-- A digit of `printi`. -/
def printiDigit (letbase : UInt8) (t : Nat) : UInt8 :=
  if t ≥ 10 then letbase + UInt8.ofNat (t - 10) else 0x30 + UInt8.ofNat t

def printiDigits (u b : Nat) (letbase : UInt8) : List UInt8 :=
  if u = 0 then [0x30] else (Nat.digits b u).reverse.map (printiDigit letbase)

/-- The prefix of `PAD_ALTERNATE`. -/
def printiPrefix (b : Nat) (letbase : UInt8) : List UInt8 :=
  if b = 16 ∧ letbase = 0x41 then [0x30, 0x58]
  else if b = 16 ∧ letbase = 0x61 then [0x30, 0x78]
  else [0x30]

/-- The characters that `printi` passes to `printc`. -/
def printi (spec : Spec) (i : BitVec 64) (b : Nat) (sg : Bool) (letbase : UInt8) :
    List UInt8 :=
  let neg := sg ∧ b = 10 ∧ i.msb
  let u := if neg then (-i).toNat else i.toNat
  let s := (if spec.padAlternate then printiPrefix b letbase else []) ++
    printiDigits u b letbase
  if neg then
    if spec.width ≠ 0 ∧ spec.padZero then
      0x2d :: prints { spec with width := spec.width - 1 } s
    else prints spec (0x2d :: s)
  else prints spec s

def Directive.chars : Directive → List UInt8
  | .literal ch => [ch]
  | .text spec string => prints spec string
  | .number spec i b sg letbase => printi spec i b sg letbase
  | .unknown => []

/-! ## Output -/

/-- The block that `*out` points into, with the position, and `*out_len` unless `out_len` is
the null pointer. -/
structure Out where
  buf : List UInt8
  pos : Nat
  len : Option Nat
deriving DecidableEq, Repr

/-- `printc` into a block, behind which it must not write. -/
def printc (o : Out) (ch : UInt8) : Option Out := do
  let o ←
    if o.len.all (1 < ·) then do
      let buf ← writeBlock o.buf o.pos [ch, 0]
      some { o with buf, pos := o.pos + 1 }
    else some o
  some { o with len := o.len.map (· - 1) }

/-- `print` at work: where it prints to, what `nputs_all` has sent to the console, and `pc`. -/
structure Printing where
  useTbuf : Bool
  out : Out
  console : List UInt8
  pc : Int
deriving DecidableEq, Repr

namespace Printing

/-- What has been stored in front of the terminator. -/
def stored (p : Printing) : List UInt8 := p.out.buf.take p.out.pos

/-- The head of the loop. -/
def flush (p : Printing) : Printing :=
  if p.useTbuf ∧ p.out.len = some 0 then
    { p with
      out := { p.out with pos := 0, len := some CONSOLE_TBUF_MAX }
      console := p.console ++ p.out.buf.take CONSOLE_TBUF_MAX }
  else p

/-- A round of the loop. -/
def round (p : Printing) (directive : Directive) : Option Printing := do
  let p := p.flush
  let out ← directive.chars.foldlM printc p.out
  some { p with out, pc := wrapInt (p.pc + directive.chars.length) }

/-- What `print` does behind the loop. -/
def finish (p : Printing) : Printing :=
  match p.out.len with
  | some len =>
      if p.useTbuf ∧ len < CONSOLE_TBUF_MAX then
        { p with console := p.console ++ p.out.buf.take (CONSOLE_TBUF_MAX - len) }
      else p
  | none => p

end Printing

/-- `print`, which stores through `out` or, when `useTbuf`, into `console_tbuf`. -/
def print (strings : BitVec 64 → Text) (useTbuf : Bool) (out : Out) (format : Text)
    (args : Nat → BitVec 64) : Option Printing := do
  let ds ← directives strings args 0 0 format.chars
  let p ← ds.foldlM Printing.round ⟨useTbuf, out, [], 0⟩
  some p.finish

def sprintf (strings : BitVec 64 → Text) (block : List UInt8) (format : Text)
    (args : Nat → BitVec 64) : Option Printing :=
  print strings false ⟨block, 0, none⟩ format args

def snprintf (strings : BitVec 64 → Text) (block : List UInt8) (outSz : Nat) (format : Text)
    (args : Nat → BitVec 64) : Option Printing :=
  print strings false ⟨block, 0, some outSz⟩ format args

/-- `printf`, given what the last call has left in `console_tbuf`. -/
def printf (strings : BitVec 64 → Text) (tbuf : Vector UInt8 CONSOLE_TBUF_MAX) (format : Text)
    (args : Nat → BitVec 64) : Option Printing :=
  print strings true ⟨tbuf.toList, 0, some CONSOLE_TBUF_MAX⟩ format args

end Zsbl.Libs
