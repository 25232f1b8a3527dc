/-
Module: Zsbl.Libs.CString
Purpose: The string functions of lib/libc/string.c on the bytes that may be read or written.
Trusted boundary: none
Main exports:
  strchr, strrchr, strncmp, strstr, strtoul, strncpy, strcpy, strcat, hexadecimal
-/
import Mathlib.Data.BitVec
import Zsbl.Lib.Bytes

namespace Zsbl.Libs

open Zsbl.Lib

/-! ## Reading

The lists are the bytes from a pointer on that may be read, and a missing result means that
the function reads behind them. -/

def strlen : List UInt8 → Option Nat
  | [] => none
  | c :: str => if c = 0 then some 0 else (strlen str).map (· + 1)

/-- `strchr` with `(char)c`; the inner result is missing when it returns the null pointer, and
else how far the returned pointer is behind the first one. -/
def strchr (c : UInt8) : List UInt8 → Option (Option Nat)
  | [] => none
  | ch :: s =>
      if ch ≠ 0 ∧ ch ≠ c then (strchr c s).map fun found => found.map (· + 1)
      else if ch = 0 then some none
      else some (some 0)

/-- The loop of `strrchr`, which goes back from `last`. -/
def strrchrFrom (s : List UInt8) (c : UInt8) : Nat → Nat
  | 0 => 0
  | last + 1 => if s[last + 1]? = some c then last + 1 else strrchrFrom s c last

/-- `strrchr` with `(char)c`. -/
def strrchr (s : List UInt8) (c : UInt8) : Option (Option Nat) := do
  let last := strrchrFrom s c (← strlen s)
  if s[last]? = some c then some (some last) else some none

def strncmp : List UInt8 → List UInt8 → Nat → Option Int
  | _, _, 0 => some 0
  | a :: as, b :: bs, count + 1 =>
      if a = b ∧ a ≠ 0 then strncmp as bs count else some (a.toNat - b.toNat)
  | _, _, _ + 1 => none

/-- The comparison of `strstr` at one position. -/
def startsWith : List UInt8 → List UInt8 → Option Bool
  | [], _ => some true
  | _ :: _, [] => none
  | n :: ne, h :: hs => if n = h then startsWith ne hs else some false

/-- The loop of `strstr`; the inner result is missing when it returns the null pointer, and
else how far the returned pointer is behind the first one. -/
def strstrFrom (ne : List UInt8) : List UInt8 → Option (Option Nat)
  | [] => none
  | h :: hs =>
      if h = 0 then some none
      else do
        if ← startsWith ne (h :: hs) then some (some 0)
        else (strstrFrom ne hs).map fun found => found.map (· + 1)

def strstr (hs ne : List UInt8) : Option (Option Nat) :=
  if ne = [] then some (some 0) else strstrFrom ne hs

/-- `c` as a digit, of whatever base. -/
def digitValue (c : UInt8) : Option Nat :=
  if 0x30 ≤ c ∧ c ≤ 0x39 then some (c.toNat - 0x30)
  else if 0x41 ≤ c ∧ c ≤ 0x5a then some (c.toNat - (0x41 - 10))
  else if 0x61 ≤ c ∧ c ≤ 0x7a then some (c.toNat - (0x61 - 10))
  else none

def ULONG_MAX : Nat := 2 ^ 64 - 1

/-- The loop of `strtoul`, with the number of digits it has met. -/
def strtoulFrom (base : Nat) : List UInt8 → Nat → Int → Nat → Option (Nat × Int × Nat)
  | [], _, _, _ => none
  | c :: s, acc, any, digits =>
      match digitValue c with
      | none => some (acc, any, digits)
      | some digit =>
          if digit ≥ base then some (acc, any, digits)
          else if any < 0 ∨ acc > ULONG_MAX / base ∨
              (acc = ULONG_MAX / base ∧ digit > ULONG_MAX % base) then
            strtoulFrom base s acc (-1) (digits + 1)
          else strtoulFrom base s (acc * base + digit) 1 (digits + 1)

/-- Whether there is a sign, and whether it negates. -/
def strtoulSign (nptr : List UInt8) : Nat × Bool :=
  if nptr.head? = some 0x2d then (1, true)
  else if nptr.head? = some 0x2b then (1, false)
  else (0, false)

/-- The length of a prefix "0x" and the base. -/
def strtoulBase (base : Nat) : List UInt8 → Option (Nat × Nat)
  | [] => none
  | c :: s =>
      if (base = 0 ∨ base = 16) ∧ c = 0x30 then do
        let x ← s.head?
        if x = 0x78 ∨ x = 0x58 then some (2, 16)
        else some (0, if base = 0 then 8 else base)
      else some (0, if base = 0 then 10 else base)

/-- `strtoul`, with how far `endptr` is behind `nptr`. -/
def strtoul (nptr : List UInt8) (base : Nat) : Option (BitVec 64 × Nat) := do
  let (sign, neg) := strtoulSign nptr
  let s := nptr.drop sign
  let (skipped, base) ← strtoulBase base s
  let (acc, any, digits) ← strtoulFrom base (s.drop skipped) 0 0 0
  let value : BitVec 64 :=
    if any < 0 then BitVec.ofNat 64 ULONG_MAX
    else if neg then - BitVec.ofNat 64 acc
    else BitVec.ofNat 64 acc
  some (value, if any ≠ 0 then sign + skipped + digits else 0)

/-! ## Writing

The first list is the block that is written to, from the given position on; a missing result
means that the function writes or reads behind it. -/

def writeBlock (block : List UInt8) (position : Nat) (bytes : List UInt8) :
    Option (List UInt8) :=
  if position + bytes.length ≤ block.length then some (overwrite block position bytes) else none

/-- `strncpy` of a string. -/
def strncpy (block : List UInt8) (dest : Nat) (src : List UInt8) (count : Nat) :
    Option (List UInt8) :=
  let chars := src.take count
  writeBlock block dest (chars ++ List.replicate (count - chars.length) 0)

/-- `strcpy` of a string, which stores no terminator. -/
def strcpy (block : List UInt8) (dest : Nat) (src : List UInt8) : Option (List UInt8) :=
  writeBlock block dest src

/-- `strcat` of a string, which stores no terminator either. -/
def strcat (block : List UInt8) (src : List UInt8) : Option (List UInt8) :=
  if 0 ∈ block then writeBlock block (cstr block).length src else none

/-! ## Printing -/

/-- `%llx`. -/
def hexadecimal (number : Nat) : List UInt8 :=
  (Nat.toDigits 16 number).map fun char => UInt8.ofNat char.toNat

end Zsbl.Libs
