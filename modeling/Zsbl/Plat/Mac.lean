/-
Module: Zsbl.Plat.Mac
Purpose: MAC addresses as text, lib/mac/mac.c, and where the sg2042 prints them.
Trusted boundary: none
Main exports:
  isxdigit, str2mac, mac2str, showConfigMac
-/
import Zsbl.Libs.Stdio
import Zsbl.Plat.Sg2042Dtb

namespace Zsbl.Plat.Sg2042

open Zsbl.Lib Zsbl.Libs Sg2044

def isxdigit (c : UInt8) : Bool :=
  (0x30 ≤ c && c ≤ 0x39) || (0x61 ≤ c && c ≤ 0x66) || (0x41 ≤ c && c ≤ 0x46)

/-- The first digit of a string, or its terminator. -/
def skipToDigit : List UInt8 → Option (List UInt8)
  | [] => none
  | c :: s => if c = 0 ∨ isxdigit c then some (c :: s) else skipToDigit s

/-- `str2mac` of the null pointer or of the bytes from a pointer on; a missing result means
that it reads behind them. -/
def str2mac : Option (List UInt8) → Option (BitVec 64)
  | none => some 0
  | some s => do
      match ← strchr 0x3a s with
      | none => (strtoul s 16).map Prod.fst
      | some _ =>
          let p ← skipToDigit s
          if (← strlen p) < 17 then some 0
          else
            -- the first byte of the text is the last one in memory
            let bytes ← [0, 3, 6, 9, 12, 15].mapM fun position =>
              (strtoul (p.drop position) 16).map fun read => UInt8.ofNat read.1.toNat
            some (BitVec.ofNat 64 (le bytes.reverse))

section

variable (strings : BitVec 64 → Text)

def macFormat : Text := ⟨ascii "%02llx:%02llx:%02llx:%02llx:%02llx:%02llx", by decide⟩

def macArgs (mac : BitVec 64) (i : Nat) : BitVec 64 := (mac >>> (40 - 8 * i)) &&& 0xff#64

/-- `mac2str` into the buffer that the caller provides; there is no result when it writes
behind it. -/
def mac2str (mac : BitVec 64) (s : List UInt8) : Option (List UInt8) :=
  (sprintf strings s macFormat (macArgs mac)).map fun p => p.out.buf

/-- The `char mac[7]` of `show_config`, once both addresses are printed. -/
def showConfigMac (cfg : BootConfig) (mac : Vector UInt8 7) : Option (List UInt8) := do
  let mac ← mac2str strings cfg.mac0 mac.toList
  mac2str strings cfg.mac1 mac

end

end Zsbl.Plat.Sg2042
