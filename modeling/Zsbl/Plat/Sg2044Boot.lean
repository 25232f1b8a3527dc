/-
Module: Zsbl.Plat.Sg2044Boot
Purpose: The FAT boot devices of lib/sgfat/sgfat.c, and what a run of load_images
  writes to the arrays of fixed size on its stack and on theirs.
Trusted boundary: FatFs, whose answers are parameters
Main exports:
  FatDrive, Sgfat, getFileName, sgfatLoad, sgfatMedia, FixedBuffer, runWrites
-/
import Zsbl.Plat.Sg2044

namespace Zsbl.Plat.Sg2044

open Zsbl.Lib Zsbl.Libs

/-! ## FAT boot devices -/

/-- What FatFs returns: `f_mount` an error, `f_open` one for each path, `f_stat` also
the size of the file, and `f_read` also the bytes that it stored of those asked for. -/
structure FatDrive where
  mount : Int
  openRead : List UInt8 → Int
  stat : List UInt8 → Int × Nat
  read : List UInt8 → Nat → Int × List UInt8

/-- `struct sgfat`, with the `id` of its `fatio_dev`. -/
structure Sgfat where
  id : Nat
  drive : FatDrive

/-- `%d` of a number that is not negative. -/
def decimal (number : Nat) : List UInt8 :=
  (Nat.toDigits 10 number).map fun char => UInt8.ofNat char.toNat

/-- `get_file_name`. -/
def getFileName (id : Nat) (file : List UInt8) : List UInt8 :=
  if file.take 1 = ascii "/" then decimal id ++ ascii ":" ++ file
  else decimal id ++ ascii ":" ++ ascii "riscv64" ++ ascii "/" ++ file

/-- `load` of sgfat; `sprintf` puts the path into the 128 bytes of `fatfs_name`. -/
def sgfatLoad (sgfat : Sgfat) (file : List UInt8) : Answer :=
  let fatfsName := getFileName sgfat.id file
  let overflows : Bool := 128 < fatfsName.length + 1
  if sgfat.drive.mount ≠ 0 then ⟨[], true, overflows⟩
  else if sgfat.drive.openRead fatfsName ≠ 0 then ⟨[], true, overflows⟩
  else
    let (err, fsize) := sgfat.drive.stat fatfsName
    if err ≠ 0 then ⟨[], true, overflows⟩
    else
      let (err, bytes) := sgfat.drive.read fatfsName fsize
      ⟨bytes, err ≠ 0, overflows⟩

/-- The answers of enabled boot devices that are all of this kind. -/
def sgfatMedia (devices : List Sgfat) (name : List UInt8) : List Answer :=
  devices.map fun sgfat => sgfatLoad sgfat name

/-- The machine with these boot devices. -/
def Machine.withSgfat (m : Machine) (devices : List Sgfat) : Machine :=
  { m with media := sgfatMedia devices }

/-! ## Arrays of fixed size -/

inductive FixedBuffer where
  | sigName
  | sigData
  | pubkeyDer
  | fatfsName
deriving DecidableEq, Repr

def FixedBuffer.size : FixedBuffer → Nat
  | sigName => 64
  | sigData => SIG_SIZE
  | pubkeyDer => 512
  | fatfsName => 128

/-- A write of so many bytes from the start of an array on. -/
abbrev BufferWrite : Type := FixedBuffer × Nat

/-- The writes of `bdm_load`, which loads to an array or, for an image, to none. -/
def bdmWrites (buffer : Option FixedBuffer) (name : List UInt8) : List Sgfat → List BufferWrite
  | [] => []
  | sgfat :: rest =>
      let answer := sgfatLoad sgfat name
      (.fatfsName, (getFileName sgfat.id name).length + 1) ::
        (buffer.toList.map fun buffer => (buffer, answer.bytes.length)) ++
        if answer.fails ∨ answer.bytes = [] then bdmWrites buffer name rest else []

/-- The writes of `load` of an image. -/
def imageWrites (m : Machine) (devices : List Sgfat) (cfg : Config) (image : Image)
    (s : BootState) : List BufferWrite :=
  let file := cfg.file image
  match file.name with
  | none => []
  | some name =>
      if file.addr = 0 ∨ name = [] then []
      else
        bdmWrites none name devices ++
          match bdmLoad m.free s.memory file.addr (sgfatMedia devices name) with
          | .error _ => []
          | .ok (_, err) =>
              if err ≤ 0 then []
              else if !cfg.secure then []
              else (.sigName, name.length + 5) ::
                if 64 < name.length + 5 then []
                else bdmWrites (some .sigData) (name ++ ascii ".sig") devices

/-- The writes of `load_images` from the images on, as long as each `load` returns. -/
def allWrites (m : Machine) (devices : List Sgfat) :
    List Image → Config → BootState → List BufferWrite
  | [], _, _ => []
  | image :: rest, cfg, s =>
      imageWrites m devices cfg image s ++
        match load (m.withSgfat devices) cfg image s with
        | .error _ => []
        | .ok (cfg, s) => allWrites m devices rest cfg s

/-- The writes of a run of `load_images`. -/
def runWrites (m : Machine) (devices : List Sgfat) (cfg : Config) (memory : Memory) :
    List BufferWrite :=
  let cfg := moveDtbo cfg
  if cfg.secure then
    bdmWrites (some .pubkeyDer) (ascii "public_key.der") devices ++
      match loadKey (m.withSgfat devices) cfg.akcipherCtx with
      | .error _ => []
      | .ok akcipherCtx =>
          allWrites m devices Image.all { cfg with akcipherCtx } ⟨memory, []⟩
  else allWrites m devices Image.all cfg ⟨memory, []⟩

end Zsbl.Plat.Sg2044
