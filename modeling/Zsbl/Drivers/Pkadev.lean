/-
Module: Zsbl.Drivers.Pkadev
Purpose: The public key accelerator of drivers/alg/pka/pkadev.c: operands, its
  semaphore, and one computation from its operand list on.
Trusted boundary: the firmware and the hardware, which are parameters
Main exports:
  PkaConfig, Pka, PkaDev, VaParam, elppkaLoadOperand, elppkaUnloadOperand, pkaCall,
  pkaWait, doCall, loadInputs, unloadOutputs, startCompute, devInit
-/
import Zsbl.Lib.Memory

namespace Zsbl.Drivers

open Zsbl.Lib

/-! ## Operands -/

inductive PkaBank where
  | a
  | b
  | c
  | d
deriving DecidableEq, Repr

/-- `PKA_OPERAND_A_BASE` and the others: offsets in words. -/
def PkaBank.base : PkaBank → Nat
  | .a => 0x100
  | .b => 0x200
  | .c => 0x300
  | .d => 0x400

/-- The widths in bits of `struct pka_config`. -/
structure PkaConfig where
  rsaSize : Nat
  eccSize : Nat

def cryptoInvalidSize : Int := -5

def cryptoNotFound : Int := -110

def enoent : Int := 2

def elppkaBaseRadix (size : Nat) : Nat :=
  if size ≤ 16 then 0
  else if size ≤ 32 then 2
  else if size ≤ 64 then 3
  else if size ≤ 128 then 4
  else if size ≤ 256 then 5
  else if size ≤ 512 then 6
  else 0

def elppkaPageSize (size : Nat) : Nat :=
  let ret := elppkaBaseRadix size
  if ret = 0 then ret else 8 <<< ret

def indexIsValid (cfg : PkaConfig) (bank : PkaBank) (index size : Nat) : Bool :=
  let eccMaxBytes := cfg.eccSize >>> 3
  let rsaMaxBytes := cfg.rsaSize >>> 3
  if size > eccMaxBytes ∧ size > rsaMaxBytes then false
  else if index > 7 then false
  else
    let abcStorage := max (eccMaxBytes * 8) (rsaMaxBytes * 2)
    let dStorage := max (eccMaxBytes * 8) (rsaMaxBytes * 4)
    if bank = .d then index < dStorage / size else index < abcStorage / size

/-- `operand_base_offset`: a negative code, or an offset in words. -/
def operandBaseOffset (cfg : PkaConfig) (bank : PkaBank) (index size : Nat) : Except Int Nat :=
  let pagesize := elppkaPageSize size
  if pagesize = 0 then .error cryptoInvalidSize
  else if ¬ indexIsValid cfg bank index pagesize then .error cryptoNotFound
  else .ok (bank.base + index * (pagesize >>> 2))

/-- The stores of `elppka_load_operand` behind its check: it clears the page, then puts
the last word of the data first; an incomplete word is at the start of the data. -/
def loadStores (memory : Memory) (opbase size data : Nat) : List (Nat × List UInt8) :=
  let n := size / 4
  let rest := size % 4
  (List.range (2 <<< elppkaBaseRadix size)).map (fun i => (opbase + 4 * i, [0, 0, 0, 0])) ++
    (List.range n).map (fun i =>
      (opbase + 4 * i, fetch memory (data + 4 * (n - i - 1) + rest) 4)) ++
    if rest ≠ 0 then
      [(opbase + 4 * n, List.replicate (4 - rest) 0 ++ fetch memory data rest)]
    else []

/-- The stores of `elppka_unload_operand`. -/
def unloadStores (regs : Memory) (opbase size data : Nat) : List (Nat × List UInt8) :=
  let n := size / 4
  let rest := size % 4
  (List.range n).map (fun i =>
      (data + 4 * (n - i - 1) + rest, fetch regs (opbase + 4 * i) 4)) ++
    if rest ≠ 0 then [(data, fetch regs (opbase + 4 * n + (4 - rest)) rest)] else []

/-- `elppka_load_operand`: its result, and the registers. -/
def elppkaLoadOperand (cfg : PkaConfig) (memory regs : Memory) (bank : PkaBank)
    (index size data : Nat) : Int × Memory :=
  match operandBaseOffset cfg bank index size with
  | .error rc => (rc, regs)
  | .ok offset => (0, storeAll regs (loadStores memory (4 * offset) size data))

/-- `elppka_unload_operand`: its result, and the memory of the caller. -/
def elppkaUnloadOperand (cfg : PkaConfig) (memory regs : Memory) (bank : PkaBank)
    (index size data : Nat) : Int × Memory :=
  match operandBaseOffset cfg bank index size with
  | .error rc => (rc, memory)
  | .ok offset => (0, storeAll memory (unloadStores regs (4 * offset) size data))

def PkaBank.ofName : UInt8 → Option PkaBank
  | 0x41 => some .a
  | 0x42 => some .b
  | 0x43 => some .c
  | 0x44 => some .d
  | _ => none

/-- `pka_lookup_param`: a letter and a digit; what follows is only printed. -/
def pkaLookupParam : List UInt8 → Option (PkaBank × Nat)
  | letter :: digit :: _ => do
      let bank ← PkaBank.ofName letter
      if 0x30 ≤ digit ∧ digit ≤ 0x39 then some (bank, digit.toNat - 0x30) else none
  | _ => none

/-! ## The device -/

/-- What `elppka_get_status` finds: the accelerator is busy, or why it stopped. -/
inductive PkaStatus where
  | busy
  | stopped (reason : UInt8)
deriving DecidableEq, Repr

/-- The firmware and the hardware during a call: the entry of a function or a negative
code, and what the function leaves in the registers. -/
structure Pka where
  cfg : PkaConfig
  lookupEntry : List UInt8 → Int
  run : Nat → Nat → Memory → PkaStatus × Memory

/-- The state of `struct pka_dev`. -/
structure PkaDev where
  sem : Int
  regs : Memory
  status : PkaStatus

def pkaSemInit (dev : PkaDev) : PkaDev := { dev with sem := 0 }

def pkaSemPost (dev : PkaDev) : PkaDev := { dev with sem := dev.sem + 1 }

/-- `pka_sem_wait`; nobody else posts, so it is missing where it waits forever. -/
def pkaSemWait (dev : PkaDev) : Option PkaDev :=
  if dev.sem ≤ 0 then none else some { dev with sem := dev.sem - 1 }

/-- The semaphore at the end of `dev_init`. -/
def devInit (dev : PkaDev) : PkaDev := pkaSemPost (pkaSemInit dev)

/-- `elppka_start`: the function runs until its interrupt. -/
def elppkaStart (pka : Pka) (dev : PkaDev) (entry size : Nat) : Int × PkaDev :=
  if elppkaBaseRadix size = 0 then (cryptoInvalidSize, dev)
  else
    let (status, regs) := pka.run entry size dev.regs
    (0, { dev with regs, status })

def pkaCall (pka : Pka) (dev : PkaDev) (func : List UInt8) (size : Nat) :
    Option (Int × PkaDev) := do
  let dev ← pkaSemWait dev
  let rc := pka.lookupEntry func
  if rc < 0 then return (rc, dev)
  else
    let (rc, dev) := elppkaStart pka dev rc.toNat size
    if rc < 0 then return (rc, dev)
    else return (0, dev)

/-- `wait_pka_done`. -/
def waitPkaDone (dev : PkaDev) : PkaDev := pkaSemPost dev

def pkaWait (dev : PkaDev) : Option (Int × PkaDev) := do
  let dev ← pkaSemWait dev
  let dev := pkaSemPost dev
  match dev.status with
  | .busy => return (-1, dev)
  | .stopped reason => return (reason.toNat, dev)

def doCall (pka : Pka) (dev : PkaDev) (func : List UInt8) (size : Nat) :
    Option (Int × PkaDev) := do
  let (rc, dev) ← pkaCall pka dev func size
  if rc < 0 then return (-1, dev)
  else pkaWait (waitPkaDone dev)

/-! ## Computations -/

/-- A pair of a variable argument list: a string, and a pointer that is 0 for NULL. -/
structure VaParam where
  name : List UInt8
  data : Nat
deriving DecidableEq, Repr

/-- The name starts with `=`. -/
def VaParam.isOutput (param : VaParam) : Bool := param.name.head? = some 0x3d

/-- The name without `=`. -/
def VaParam.plainName (param : VaParam) : List UInt8 :=
  if param.isOutput then param.name.drop 1 else param.name

/-- What `read_va_param` leaves in `ret_name`: of a name without `%`, the old one. -/
def VaParam.retName (param : VaParam) (retName : List UInt8) : List UInt8 :=
  if param.plainName.head? = some 0x25 then (param.plainName.drop 1).take 7 else retName

/-- The loop over the parameters of one direction: those of the other are skipped, and
a NULL pointer ends it like the end of the list. -/
def paramLoop {σ : Type} (output : Bool) (fails : Int → Bool)
    (act : List UInt8 → Nat → σ → Int × σ) : List UInt8 → List VaParam → σ → Int × σ
  | _, [], state => (0, state)
  | name, param :: ap, state =>
      if param.isOutput ≠ output then paramLoop output fails act name ap state
      else if param.data = 0 then (0, state)
      else
        let name := param.retName name
        let (rc, state) := act name param.data state
        if fails rc then (-1, state) else paramLoop output fails act name ap state

def setParam (pka : Pka) (memory : Memory) (size : Nat) (name : List UInt8) (value : Nat)
    (regs : Memory) : Int × Memory :=
  match pkaLookupParam name with
  | none => (-enoent, regs)
  | some (bank, index) => elppkaLoadOperand pka.cfg memory regs bank index size value

def getParam (pka : Pka) (regs : Memory) (size : Nat) (name : List UInt8) (value : Nat)
    (memory : Memory) : Int × Memory :=
  match pkaLookupParam name with
  | none => (-enoent, memory)
  | some (bank, index) => elppkaUnloadOperand pka.cfg memory regs bank index size value

/-- `load_inputs`: each code but 0 is a failure. -/
def loadInputs (pka : Pka) (memory : Memory) (size : Nat) (ap : List VaParam) (regs : Memory) :
    Int × Memory :=
  paramLoop false (· ≠ 0) (setParam pka memory size) [] ap regs

/-- `unload_outputs`: only -1 is. -/
def unloadOutputs (pka : Pka) (regs : Memory) (size : Nat) (ap : List VaParam)
    (memory : Memory) : Int × Memory :=
  paramLoop true (· = -1) (getParam pka regs size) [] ap memory

/-- `parse_and_compute`. -/
def parseAndCompute (pka : Pka) (dev : PkaDev) (memory : Memory) (size : Nat)
    (func : List UInt8) (ap : List VaParam) : Option (Int × PkaDev × Memory) := do
  let (rc, regs) := loadInputs pka memory size ap dev.regs
  let dev := { dev with regs }
  if rc ≠ 0 then return (rc, dev, memory)
  else
    let (rc, dev) ← doCall pka dev func size
    if rc ≠ 0 then return (rc, dev, memory)
    else
      let (rc, memory) := unloadOutputs pka dev.regs size ap memory
      return (rc, dev, memory)

/-- `start_compute`, which returns 1 for success. -/
def startCompute (pka : Pka) (dev : PkaDev) (memory : Memory) (size : Nat)
    (func : List UInt8) (ap : List VaParam) : Option (Int × PkaDev × Memory) := do
  let (rc, dev, memory) ← parseAndCompute pka dev memory size func ap
  if rc = -1 then return (0, dev, memory)
  else if rc > 0 then return (0, dev, memory)
  else return (1, dev, memory)

end Zsbl.Drivers
