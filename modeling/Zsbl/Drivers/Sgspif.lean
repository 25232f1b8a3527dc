/-
Module: Zsbl.Drivers.Sgspif
Purpose: Reading from the SPI flash, drivers/mtd/spifmc-sophgo/sgspif.c.
Trusted boundary: the controller delivers the bytes of the medium from the commanded address
  on; which bytes a word has beyond those in the FIFO is left open
Main exports:
  SpiEnv, SpiController, spiDataInTran, spiDataRead, bmSpiFlashRead, Sgspif.read
-/
import Zsbl.Include.Libc
import Zsbl.Lib.Bytes
import Zsbl.Lib.Memory

namespace Zsbl.Drivers

open Zsbl.Lib

/-! ## The controller -/

/-- What is around the driver: the medium, the bytes of a word that is read beyond what is
in the FIFO, the memory behind `cmd_buf`, and which transactions deliver data before the
driver gives up. -/
structure SpiEnv where
  medium : Memory
  stale : Nat → UInt8
  behind : Nat → UInt8
  starts : Nat → Bool

/-- The registers, the flash address of the next byte, the bytes of the transaction that are
still to come, and the addresses that were fetched so far. -/
structure SpiController where
  tranCsr : BitVec 32
  tranNum : Nat
  fifo : List UInt8
  next : Nat
  remaining : Nat
  transactions : Nat
  fetched : List Nat

def SPI_CMD_READ : UInt8 := 0x03

/-- The command for addresses of four bytes. -/
def SPI_CMD_READ4 : UInt8 := 0x13

def SPI_MAX_FIFO_DEPTH : Nat := 8

def BIT_SPI_TRAN_CSR_TRAN_MODE_RX : BitVec 32 := 0x0001

def BIT_SPI_TRAN_CSR_WITH_CMD : BitVec 32 := 0x0800

def BIT_SPI_TRAN_CSR_FIFO_TRG_LVL_8_BYTE : BitVec 32 := 0x3000

def BIT_SPI_TRAN_CSR_GO_BUSY : BitVec 32 := 0x8000

def BIT_SPI_TRAN_CSR_TRAN_MODE_MASK : BitVec 32 := 0x0003

def BIT_SPI_TRAN_CSR_ADDR_BYTES_MASK : BitVec 32 := 0x0700

def BIT_SPI_TRAN_CSR_FIFO_TRG_LVL_MASK : BitVec 32 := 0x3000

namespace SpiController

/-- A write to `REG_SPI_FIFO_PT`. -/
def flush (c : SpiController) : SpiController := { c with fifo := [] }

/-- A write to `REG_SPI_FIFO_PORT`. -/
def push (c : SpiController) (word : List UInt8) : SpiController :=
  { c with fifo := c.fifo ++ word }

/-- A big-endian number. -/
def be (bytes : List UInt8) : Nat := le bytes.reverse

/-- The address in a command for the number of address bytes that is set. -/
def commanded (csr : BitVec 32) (command : List UInt8) : Option Nat :=
  let addrBytes := ((csr &&& BIT_SPI_TRAN_CSR_ADDR_BYTES_MASK) >>> 8).toNat
  match command with
  | [] => none
  | opcode :: rest =>
      if opcode = SPI_CMD_READ ∧ addrBytes = 3 ∨ opcode = SPI_CMD_READ4 ∧ addrBytes = 4 then
        some (be (rest.take addrBytes))
      else none

/-- The write to `REG_SPI_TRAN_CSR` that starts a transaction: with a command in the FIFO and
set to receive, the controller reads from the address on. -/
def issue (c : SpiController) (csr : BitVec 32) : Option SpiController := do
  if csr &&& BIT_SPI_TRAN_CSR_TRAN_MODE_MASK ≠ BIT_SPI_TRAN_CSR_TRAN_MODE_RX then none
  if csr &&& BIT_SPI_TRAN_CSR_WITH_CMD = 0 then none
  let address ← commanded csr c.fifo
  some { c with
    tranCsr := csr, fifo := [], next := address, remaining := c.tranNum
    transactions := c.transactions + 1 }

/-- What goes on while the driver polls `REG_SPI_FIFO_PT`: the FIFO fills up as far as there
are bytes to come. -/
def fill (env : SpiEnv) (c : SpiController) : SpiController :=
  let size := min (SPI_MAX_FIFO_DEPTH - c.fifo.length) c.remaining
  { c with
    fifo := c.fifo ++ fetch env.medium c.next size
    next := c.next + size, remaining := c.remaining - size
    fetched := c.fetched ++ (List.range size).map (c.next + ·) }

/-- A read of `REG_SPI_FIFO_PORT`. -/
def pop (env : SpiEnv) (c : SpiController) : BitVec 32 × SpiController :=
  let bytes := c.fifo.take 4 ++ ((List.range 4).drop (c.fifo.take 4).length).map env.stale
  (BitVec.ofNat 32 (le bytes), { c with fifo := c.fifo.drop 4 })

end SpiController

/-! ## Transactions -/

/-- The value of an `int` expression; missing when it overflows. -/
def intOf (value : Nat) : Option Nat := if value < 2 ^ 31 then some value else none

/-- `mmio_write_32(spi_base + REG_SPI_FIFO_PORT, p_data[i])` for a number of words of the
command. -/
def writeCommand (env : SpiEnv) (cmdBuf : List UInt8) : Nat → SpiController → SpiController
  | 0, c => c
  | words + 1, c =>
      let c := writeCommand env cmdBuf words c
      c.push ((List.range 4).map fun i =>
        cmdBuf.getD (4 * words + i) (env.behind (4 * words + i - cmdBuf.length)))

/-- `p_data[off / 4 + i] = mmio_read_32(spi_base + REG_SPI_FIFO_PORT)` for a number of words
from an index on. -/
def readWords (env : SpiEnv) (dstBuf : Nat) : Nat → Nat → SpiController → Memory →
    SpiController × Memory
  | 0, _, c, memory => (c, memory)
  | words + 1, index, c, memory =>
      let (word, c) := c.pop env
      readWords env dstBuf words (index + 1) c
        (store memory (dstBuf + 4 * index) (leBytes 4 word.toNat))

/-- The loop of `spi_data_in_tran`, which takes at least one byte in a round.  A missing
result is an overflow, or a wait that does not end. -/
def getData (env : SpiEnv) (dstBuf dataBytes : Nat) : Nat → Nat → SpiController → Memory →
    Option (SpiController × Memory)
  | 0, _, _, _ => none
  | fuel + 1, off, c, memory =>
      if off < dataBytes then do
        let xferSize :=
          if dataBytes - off ≥ SPI_MAX_FIFO_DEPTH then SPI_MAX_FIFO_DEPTH else dataBytes - off
        let c := c.fill env
        if c.fifo.length &&& 0xf ≠ xferSize then none
        let words := (xferSize - 1) / 4 + 1
        let _ ← intOf (off / 4 + words)
        let (c, memory) := readWords env dstBuf words (off / 4) c memory
        let off ← intOf (off + xferSize)
        getData env dstBuf dataBytes fuel off c memory
      else some (c, memory)

def spiDataInTran (env : SpiEnv) (dstBuf : Nat) (cmdBuf : List UInt8) (withCmd : Bool)
    (addrBytes dataBytes : Nat) (c : SpiController) (memory : Memory) :
    Option (Int × SpiController × Memory) := do
  let cmdBytes ← intOf (addrBytes + if withCmd then 1 else 0)
  if dataBytes > 65536 then return (-1, c, memory)
  let csr := c.tranCsr &&& ~~~(BIT_SPI_TRAN_CSR_TRAN_MODE_MASK |||
    BIT_SPI_TRAN_CSR_ADDR_BYTES_MASK ||| BIT_SPI_TRAN_CSR_FIFO_TRG_LVL_MASK |||
    BIT_SPI_TRAN_CSR_WITH_CMD)
  let csr := csr ||| (BitVec.ofNat 32 addrBytes <<< 8)
  let csr := csr ||| if withCmd then BIT_SPI_TRAN_CSR_WITH_CMD else 0
  let csr := csr ||| BIT_SPI_TRAN_CSR_FIFO_TRG_LVL_8_BYTE
  let csr := csr ||| BIT_SPI_TRAN_CSR_TRAN_MODE_RX
  let c := c.flush
  let c := if withCmd then writeCommand env cmdBuf ((cmdBytes - 1) / 4 + 1) c else c
  let c := { c with tranNum := dataBytes }
  let c ← c.issue (csr ||| BIT_SPI_TRAN_CSR_GO_BUSY)
  if !env.starts c.transactions then return (-1, c, memory)
  let (c, memory) ← getData env dstBuf dataBytes (dataBytes + 1) 0 c memory
  if c.remaining ≠ 0 then none
  return (0, c.flush, memory)

/-- A byte of an address. -/
def addrByte (addr : BitVec 32) (shift : Nat) : UInt8 := ⟨(addr >>> shift).setWidth 8⟩

def spiDataRead (env : SpiEnv) (dstBuf : Nat) (addr : BitVec 32) (size : Nat) (c : SpiController)
    (memory : Memory) : Option (Int × SpiController × Memory) :=
  if addr &&& 0xff000000#32 ≠ 0 then
    let cmdBuf := [SPI_CMD_READ4, addrByte addr 24, addrByte addr 16, addrByte addr 8,
      addrByte addr 0]
    spiDataInTran env dstBuf cmdBuf true 4 size c memory
  else
    let cmdBuf := [SPI_CMD_READ, addrByte addr 16, addrByte addr 8, addrByte addr 0]
    spiDataInTran env dstBuf cmdBuf true 3 size c memory

/-! ## Reads -/

def TRAN_NUM : Nat := 65536

/-- The loop of `bm_spi_flash_read`, of which a number of rounds is left. -/
def readFrames (env : SpiEnv) (dstBuf : Nat) (addr : BitVec 32) : Nat → Nat → SpiController →
    Memory → Option (Int × SpiController × Memory)
  | 0, _, c, memory => some (0, c, memory)
  | left + 1, i, c, memory => do
      let offset ← intOf (i * TRAN_NUM)
      let (ret, c, memory) ← spiDataRead env (dstBuf + offset) (addr + BitVec.ofNat 32 offset)
        TRAN_NUM c memory
      if ret ≠ 0 then return (ret, c, memory)
      readFrames env dstBuf addr left (i + 1) c memory

def bmSpiFlashRead (env : SpiEnv) (dstBuf : Nat) (addr size : BitVec 32) (c : SpiController)
    (memory : Memory) : Option (Int × SpiController × Memory) := do
  let nrFrame := size.toNat / TRAN_NUM
  let bytes := size.toNat % TRAN_NUM
  let (ret, c, memory) ← readFrames env dstBuf addr nrFrame 0 c memory
  if ret ≠ 0 then return (ret, c, memory)
  if bytes ≠ 0 then
    let offset ← intOf (nrFrame * TRAN_NUM)
    let (ret, c, memory) ← spiDataRead env (dstBuf + offset) (addr + BitVec.ofNat 32 offset)
      bytes c memory
    if ret ≠ 0 then return (ret, c, memory)
    return (0, c, memory)
  return (0, c, memory)

/-- `mdev->total_size`. -/
def Sgspif.totalSize : Nat := 64 * 1024 * 1024

/-- `read`, the operation of the mtd device. -/
def Sgspif.read (env : SpiEnv) (offset size : BitVec 64) (buf : Nat) (c : SpiController)
    (memory : Memory) : Option (Int × SpiController × Memory) := do
  let (err, c, memory) ← bmSpiFlashRead env buf (offset.setWidth 32) (size.setWidth 32) c memory
  return (if err ≠ 0 then - EIO else size.toInt, c, memory)

end Zsbl.Drivers
