/-
Module: Zsbl.Plat.ConfigFile
Purpose: How the sg2042 and the sg2044 read conf.ini, parse_config_file of their config.c.
Trusted boundary: the boot devices and ini_parse_string, which are parameters
Main exports:
  ConfDevice, confFileSize, confLoad, parseConfigFile2042, parseConfigFile2044
-/
import Zsbl.Include.Libc
import Zsbl.Libs.CString

namespace Zsbl.Plat

open Zsbl.Lib Zsbl.Libs

/-- What a boot device answers when it is asked for `conf.ini`: a size or an error, and the
bytes that it loads unless it fails. -/
structure ConfDevice where
  disabled : Bool
  fileSize : Int
  load : Option (List UInt8)
deriving DecidableEq, Repr

/-- `bdm_get_file_size`, which asks disabled devices too. -/
def confFileSize (devices : List ConfDevice) : Int :=
  devices.foldl (fun maxSize dev => if dev.fileSize > maxSize then dev.fileSize else maxSize)
    (-ENOENT)

/-- The bytes that `bdm_load` has loaded when it returns their number; missing when it returns
an error. -/
def confLoad : List ConfDevice → Option (List UInt8)
  | [] => none
  | dev :: rest =>
      if dev.disabled then confLoad rest
      else
        match dev.load with
        | none => confLoad rest
        | some bytes => if bytes.length > 0 then some bytes else confLoad rest

/-- "[sophgo-config]". -/
def confHeader : List UInt8 :=
  [0x5b, 0x73, 0x6f, 0x70, 0x68, 0x67, 0x6f, 0x2d, 0x63, 0x6f, 0x6e, 0x66, 0x69, 0x67, 0x5d]

/-- "[eof]". -/
def confTail : List UInt8 := [0x5b, 0x65, 0x6f, 0x66, 0x5d]

/-- The tests of the header and the tail on the buffer: an error, or where the tail is. The
result is missing when they read bytes that were not loaded. -/
def confScan (buf : List UInt8) : Option (Except Int Nat) := do
  if (← strncmp confHeader buf confHeader.length) ≠ 0 then some (.error (-EINVAL))
  else
    match ← strstr buf confTail with
    | none => some (.error (-EINVAL))
    | some eof => some (.ok eof)

section

variable {σ : Type} (iniParseString : List UInt8 → σ → σ × Int)

/-- What `ini_parse_string` makes of a string. -/
def confParse (cfg : σ) (string : List UInt8) : σ × Int :=
  let (cfg, err) := iniParseString string cfg
  if err < 0 then (cfg, -EINVAL) else (cfg, 0)

/-- What follows the tests, with the end of the string that is parsed. -/
def confOutcome (cfg : σ) (string : Nat → List UInt8) :
    Option (Except Int Nat) → Option (σ × Int)
  | none => none
  | some (.error err) => some (cfg, err)
  | some (.ok eof) => some (confParse iniParseString cfg (cstr (string eof)))

/-- `parse_config_file` of the sg2042, where `memory` says whether `malloc` succeeds. The result
of `bdm_load` is not looked at; without a file nothing in the buffer was loaded.  A load of
more bytes than `malloc` was asked for, which overwrites the heap behind the buffer, is outside
the model: the buffer here has the bytes that are loaded. -/
def parseConfigFile2042 (devices : List ConfDevice) (memory : Bool) (cfg : σ) :
    Option (σ × Int) :=
  let size := confFileSize devices
  if size ≤ 0 then some (cfg, -ENOENT)
  -- the test behind `malloc` is of the size, which is not 0
  else if !memory then none
  else
    let buf := (confLoad devices).getD []
    confOutcome iniParseString cfg (fun eof => buf.take eof) (confScan buf)

/-- `parse_config_file` of the sg2044, whose buffer is at a fixed address and keeps the tail. -/
def parseConfigFile2044 (devices : List ConfDevice) (cfg : σ) : Option (σ × Int) :=
  let size := confFileSize devices
  if size ≤ 0 then some (cfg, -ENOENT)
  else
    let buf := (confLoad devices).getD []
    confOutcome iniParseString cfg (fun eof => buf.take (eof + confTail.length)) (confScan buf)

end

end Zsbl.Plat
