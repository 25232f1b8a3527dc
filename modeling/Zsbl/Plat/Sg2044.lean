/-
Module: Zsbl.Plat.Sg2044
Purpose: The configuration of the sg2044 and how it loads and verifies the images,
  plat/sg2044/mp/zsbl: efuse.c, config.c, plat.c.
Trusted boundary: the boot devices, the digests, the verification of a signature and
  `strtoul`, which are parameters
Main exports:
  Config, getInfoInEfuse, readPubkeyHash, configInit, handlerImg, parseEfiVariable,
  Machine, load, loadKey, loadImages
-/
import Mathlib.Logic.Function.Basic
import Zsbl.Lib.Memory
import Zsbl.Libs.Akcipher
import Zsbl.Libs.Efi
import Zsbl.Drivers.Nvmem

namespace Zsbl.Plat.Sg2044

open Zsbl.Lib Zsbl.Libs Zsbl.Drivers

/-- The bytes of a string literal. -/
def ascii (literal : String) : List UInt8 :=
  literal.toList.map fun char => UInt8.ofNat char.toNat

/-! ## Configuration -/

/-- `struct boot_file`. -/
structure BootFile where
  name : Option (List UInt8)
  addr : Nat
  size : Nat
deriving DecidableEq, Repr

/-- `struct dram_info`. -/
structure DramInfo where
  vendor : Option String
  capacity : Nat
  dataRate : Nat
  channelNumber : Nat
  channelMap : Nat
deriving DecidableEq, Repr

/-- The images, in the order in which they are loaded. -/
inductive Image where
  | dtb
  | dtbo
  | sbi
  | kernel
  | ramfs
deriving DecidableEq, Repr

def Image.all : List Image := [.dtb, .dtbo, .sbi, .kernel, .ramfs]

inductive WorkMode where
  | cpu
  | soc
  | pcie
deriving DecidableEq, Repr

/-- `struct config`. -/
structure Config where
  dram : DramInfo
  mode : WorkMode
  bootargs : Option (List UInt8)
  reservedMemorySize : Nat
  tpuAvl : Bool
  conner : Nat
  secure : Bool
  file : Image → BootFile
  cfg : BootFile
  akcipherCtx : AkcipherCtx

def Config.setFile (cfg : Config) (image : Image) (file : BootFile) : Config :=
  { cfg with file := Function.update cfg.file image file }

/-- The static `cfg` before `config_init`. -/
def Config.static : Config where
  dram := ⟨none, 0, 0, 0, 0⟩
  mode := .cpu
  bootargs := none
  reservedMemorySize := 0
  tpuAvl := false
  conner := 0
  secure := false
  file := fun _ => ⟨none, 0, 0⟩
  cfg := ⟨none, 0, 0⟩
  akcipherCtx := ⟨.rsa, some 0, List.replicate 512 0⟩

/-! ## eFuse -/

def SCS_CONFIG : Nat := 0x804

def PUBKEY_HASH : Nat := 0x830

/-- Some bits of a word. -/
def field (flags : BitVec 32) (shift width : Nat) : Nat :=
  flags.toNat >>> shift % 2 ^ width

/-- The secure boot enable bits. -/
def secureBits (efuse0 : Nvmem) : BitVec 32 :=
  (nvmemReadWord efuse0 SCS_CONFIG &&& 0xc) >>> 2

/-- `secure_boot`; a missing result is a read through a null pointer. -/
def secureBoot (devices : List Nvmem) : Option Bool := do
  let efuse0 ← nvmemFindByName devices "efuse0"
  return secureBits efuse0 ≠ 0

def defaultDram : DramInfo where
  vendor := some "Micron"
  capacity := 16 * 2 ^ 30
  dataRate := 8533 * 1000 * 1000
  channelNumber := 8
  channelMap := 0xff

/-- The DRAM information of the fuses, from the tables of efuse.c. -/
def fusedDram (flags : BitVec 32) : DramInfo :=
  let channelNumber := [8, 4, 0, 0].getD (field flags 6 2) 0
  { vendor := ["Micron", "Hynix", "CXMT", ""][field flags 0 2]?
    capacity := [16 * 2 ^ 30, 8 * 2 ^ 30, 0, 0].getD (field flags 2 2) 0
    dataRate := [8533 * 1000 * 1000, 9600 * 1000 * 1000, 0, 0].getD (field flags 4 2) 0
    channelNumber
    channelMap :=
      if channelNumber = 4 then [0x66, 0x99, 0, 0].getD (field flags 10 2) 0 else 0xff }

def CHIP_CONNER_MAX : Nat := 5

/-- `get_info_in_efuse`. -/
def getInfoInEfuse (devices : List Nvmem) (cfg : Config) : Option (Config × Int) := do
  let some efuse1 := nvmemFindByName devices "efuse1"
    | return ({ cfg with dram := ⟨none, 0, 0, 0, 0⟩ }, - ENODEV)
  let flags := nvmemReadWord efuse1 (94 * 4) ||| nvmemReadWord efuse1 (95 * 4)
  let conner := field flags 16 4
  let conner := if conner ≥ CHIP_CONNER_MAX then 0 else conner
  let tpuAvl := field flags 15 1 = 0
  let dram :=
    if field flags 14 1 = 1 then defaultDram
    else
      let flags := nvmemReadWord efuse1 (88 * 4) ||| nvmemReadWord efuse1 (89 * 4)
      if field flags 12 2 = 0 ∨ field flags 12 2 = 3 then defaultDram else fusedDram flags
  let secure ← secureBoot devices
  return ({ cfg with conner, tpuAvl, dram, secure }, 0)

/-- The bytes of a word in memory. -/
def wordBytes (word : BitVec 32) : List UInt8 :=
  [⟨word.setWidth 8⟩, ⟨(word >>> 8).setWidth 8⟩, ⟨(word >>> 16).setWidth 8⟩,
    ⟨(word >>> 24).setWidth 8⟩]

/-- The eight words at `PUBKEY_HASH`. -/
def fusedHash (efuse0 : Nvmem) : Digest :=
  Vector.ofFn fun i => (wordBytes (nvmemReadWord efuse0 (PUBKEY_HASH + i / 4 * 4))).getD (i % 4) 0

/-- The constant in `read_pubkey_hash`. -/
def builtinHash : Digest :=
  #v[0x40, 0xdb, 0xfb, 0x30, 0x89, 0xc4, 0xc7, 0xb6,
    0x49, 0x2e, 0x15, 0xd3, 0x2d, 0xf3, 0xa4, 0x5f,
    0x8a, 0x3e, 0xc0, 0xc4, 0xb1, 0x8c, 0xd9, 0x03,
    0xf0, 0x57, 0x7e, 0xf9, 0x49, 0x13, 0x3c, 0x5c]

/-- `read_pubkey_hash`: what it reads from the fuses is overwritten. -/
def readPubkeyHash (devices : List Nvmem) : Option Digest := do
  let efuse0 ← nvmemFindByName devices "efuse0"
  let _ := fusedHash efuse0
  return builtinHash

/-! ## config_init and conf.ini -/

def BOOT_FROM_SRAM : BitVec 32 := 1#32 <<< 2

def getWorkMode (bootsel : BitVec 32) : WorkMode :=
  if bootsel &&& BOOT_FROM_SRAM ≠ 0 then .pcie else .cpu

/-- The default name and offset of an image. -/
def defaultFile (ramBase : Nat) : Image → BootFile
  | .sbi => ⟨some (ascii "fw_dynamic.bin"), ramBase, 0⟩
  | .dtb => ⟨none, ramBase + 0x08000000, 0⟩
  | .dtbo => ⟨some (ascii "sg2044-evb.dtbo"), ramBase + 0x08800000, 0⟩
  | .kernel => ⟨some (ascii "SG2044.fd"), ramBase + 0x00200000, 0⟩
  | .ramfs => ⟨none, 0, 0⟩

/-- `config_init`; the result of `get_info_in_efuse` is not looked at. -/
def configInit (ramBase : Nat) (bootsel : BitVec 32) (devices : List Nvmem) :
    Option Config := do
  let cfg := { Config.static with
    mode := getWorkMode bootsel
    file := defaultFile ramBase
    cfg := ⟨some (ascii "conf.ini"), ramBase + 0x09000000, 0⟩
    conner := 0
    tpuAvl := true }
  let (cfg, _) ← getInfoInEfuse devices cfg
  return cfg

def Image.sectionName : Image → List UInt8
  | .dtb => ascii "devicetree"
  | .dtbo => ascii "devicetree-overlay"
  | .kernel => ascii "kernel"
  | .sbi => ascii "firmware"
  | .ramfs => ascii "ramfs"

/-- `handler_img`, with a `strdup` that succeeds. -/
def handlerImg (strtoul : List UInt8 → Nat) (cfg : Config)
    (sectionName name value : List UInt8) : Config × Int :=
  match Image.all.find? fun image => image.sectionName = sectionName with
  | some image =>
      if name = ascii "name" then
        (cfg.setFile image { cfg.file image with name := some value }, -1)
      else if name = ascii "addr" then
        (cfg.setFile image { cfg.file image with addr := strtoul value }, -1)
      else (cfg, 0)
  | none =>
      if sectionName = ascii "boot" ∧ name = ascii "cmdline" then
        ({ cfg with bootargs := some value }, -1)
      else (cfg, 0)

/-! ## EFI variables -/

def sophgoVariableGuid : EfiGuid :=
  ⟨0x570CF83D, 0x5A8D, 0x4F79, #v[0x91, 0xA9, 0xBA, 0x82, 0x8F, 0x05, 0x79, 0xF6]⟩

/-- `L"ReservedMemorySize"`. -/
def rmsVarName : WStr where
  chars := "ReservedMemorySize".toList.map fun char => UInt16.ofNat char.toNat
  isString := by decide

/-- What `parse_efi_variable` meets: whether `flash0` is there, the address that `malloc`
returns, what `mtd_read` returns, and the memory from the buffer on after it. -/
structure FlashVolume where
  found : Bool
  buffer : Option Nat
  read : Int
  memory : Memory

/-- `parse_efi_variable` behind the search. -/
def parseFound (readable : Nat → Bool) (vz : EfiVariableZone) (cfg : Config)
    (answer : Int × EfiVariable) : Option (Config × Int) :=
  if answer.1 ≠ 0 then return (cfg, 0)
  else do
    let data ← efiVariableData readable vz answer.2
    let rmsInGb ← efiRead readable vz data 4
    let cfg := { cfg with reservedMemorySize := rmsInGb * 1024 * 1024 * 1024 }
    if cfg.reservedMemorySize ≠ 0 then return ({ cfg with mode := .soc }, 0)
    else return (cfg, 0)

/-- `parse_efi_variable`. -/
def parseEfiVariable (readable : EfiVariableZone → Nat → Bool) (fuel : Nat)
    (flash0 : FlashVolume) (cfg : Config) : Option (Config × Int) := do
  if !flash0.found then return (cfg, 0)
  else
    match flash0.buffer with
    | none => return (cfg, - ENOMEM)
    | some fv =>
        if flash0.read < 0 then return (cfg, - EIO)
        else
          match efiVzInit flash0.memory fv with
          | .error err => return (cfg, err)
          | .ok vz =>
              let answer ←
                efiVzFindVariable (readable vz) fuel vz sophgoVariableGuid rmsVarName
              parseFound (readable vz) vz cfg answer

/-! ## Loading -/

/-- What an enabled boot device does when it is asked for a file: it stores some
bytes, and fails or returns their number, unless the name overflows one of its own arrays. -/
structure Answer where
  bytes : List UInt8
  fails : Bool
  overflows : Bool
deriving DecidableEq, Repr

/-- What the loader runs on.  The addresses that are `free` are memory, and not that
of the loader itself; `stack` is what its arrays hold before they are written;
`verify` is `akcipher_verify` of a context, a message and a signature. -/
structure Machine where
  media : List UInt8 → List Answer
  free : Nat → Bool
  stack : Memory
  devices : List Nvmem
  digests : Digests
  verify : AkcipherCtx → List UInt8 → List UInt8 → Int

/-- Why a run does not come back: an endless loop, or an access to memory that is
not there or not meant. -/
inductive Stop where
  | hang
  | fault
deriving DecidableEq, Repr

/-- `bdm_load` for these answers of the boot devices, in the order of the list. -/
def bdmLoad (room : Nat → Bool) (memory : Memory) (address : Nat) :
    List Answer → Except Stop (Memory × Int)
  | [] => .ok (memory, - EIO)
  | answer :: rest =>
      if answer.overflows then .error .fault
      else if (List.range answer.bytes.length).all fun i => room (address + i) then
        let memory := store memory address answer.bytes
        if answer.fails ∨ answer.bytes = [] then bdmLoad room memory address rest
        else .ok (memory, answer.bytes.length)
      else .error .fault

def SIG_SIZE : Nat := 256

/-- The memory of the images, and, as history, the images that were verified with
the bytes that `akcipher_verify` accepted. -/
structure BootState where
  memory : Memory
  accepted : List (Image × List UInt8)

/-- The verification of an image in `load`. -/
def verifyImage (m : Machine) (ctx : AkcipherCtx) (image : Image) (name : List UInt8)
    (file : BootFile) (s : BootState) : Except Stop BootState := do
  -- `sprintf` into the 64 bytes of `sig_name`
  if 64 < name.length + 5 then throw .fault
  else
    let (sigData, err) ← bdmLoad (· < SIG_SIZE) m.stack 0 (m.media (name ++ ascii ".sig"))
    let bytes := fetch s.memory file.addr file.size
    if err ≤ 0 then throw .hang
    else if m.verify ctx bytes (fetch sigData 0 SIG_SIZE) ≠ 0 then throw .hang
    else return { s with accepted := s.accepted ++ [(image, bytes)] }

/-- `load` of an image, without its result, at which no caller looks. -/
def load (m : Machine) (cfg : Config) (image : Image) (s : BootState) :
    Except Stop (Config × BootState) := do
  let file := cfg.file image
  match file.name with
  | none => return (cfg, s)
  | some name =>
      if file.addr = 0 ∨ name = [] then return (cfg, s)
      else
        let (memory, err) ← bdmLoad m.free s.memory file.addr (m.media name)
        if err ≤ 0 then throw .hang
        else
          let file := { file with size := err.toNat }
          let cfg := cfg.setFile image file
          let s := { s with memory }
          if cfg.secure then
            let s ← verifyImage m cfg.akcipherCtx image name file s
            return (cfg, s)
          else return (cfg, s)

def fileIsDtbo (name : Option (List UInt8)) : Bool :=
  match name with
  | none => false
  | some name =>
      if name.length < (ascii ".dtbo").length then false
      else name.drop (name.length - (ascii ".dtbo").length) = ascii ".dtbo"

/-- The public key in `load_images`: its file goes into an array of 512 bytes, in which
`akcipher_invoke_key` reads on behind a short file. -/
def loadKey (m : Machine) (ctx : AkcipherCtx) : Except Stop AkcipherCtx := do
  let (pubkeyDer, size) ← bdmLoad (· < 512) m.stack 0 (m.media (ascii "public_key.der"))
  if size ≤ 0 then throw .hang
  else
    match readPubkeyHash m.devices with
    | none => throw .fault
    | some pubkeyDgst =>
        match akcipherInvokeKeyIn m.digests ctx (fetch pubkeyDer 0 512) size.toNat pubkeyDgst with
        | none => throw .fault
        | some (err, ctx) => if err ≠ 0 then throw .hang else return ctx

/-- A device tree overlay in the place of the device tree moves to its own place. -/
def moveDtbo (cfg : Config) : Config :=
  if fileIsDtbo (cfg.file .dtb).name then
    let cfg := cfg.setFile .dtbo { cfg.file .dtbo with name := (cfg.file .dtb).name }
    cfg.setFile .dtb { cfg.file .dtb with name := none }
  else cfg

/-- `load_images` from the images on. -/
def loadAll (m : Machine) : List Image → Config → BootState → Except Stop (Config × BootState)
  | [], cfg, s => return (cfg, s)
  | image :: rest, cfg, s => do
      let (cfg, s) ← load m cfg image s
      loadAll m rest cfg s

def loadImages (m : Machine) (cfg : Config) (memory : Memory) :
    Except Stop (Config × BootState) := do
  let cfg := moveDtbo cfg
  let cfg ← if cfg.secure then do
      let akcipherCtx ← loadKey m cfg.akcipherCtx
      pure { cfg with akcipherCtx }
    else pure cfg
  loadAll m Image.all cfg ⟨memory, []⟩

end Zsbl.Plat.Sg2044
