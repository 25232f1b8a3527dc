/-
Module: Zsbl.Proofs.Sgspif
Purpose: What a read from the SPI flash stores, for every address and size in the flash.
Trusted boundary: none
Main exports:
  padding, readWords_eq, getData_eq, FlashRead, FlashRead.andThen, bmSpiFlashRead_flashRead,
  read_eq, ReadsFramed, spi_read_framed
-/
import Zsbl.Drivers.Sgspif

namespace Zsbl.Drivers

open Zsbl.Lib

variable {env : SpiEnv}

/-- The bytes that the last word stores behind a number of bytes. -/
def padding (stale : Nat → UInt8) (size : Nat) : List UInt8 :=
  if size % 4 = 0 then [] else ((List.range 4).drop (size % 4)).map stale

theorem length_padding (stale : Nat → UInt8) (size : Nat) :
    (padding stale size).length = if size % 4 = 0 then 0 else 4 - size % 4 := by
  unfold padding
  split
  · rfl
  · simp

theorem padding_add_four (stale : Nat → UInt8) (size : Nat) :
    padding stale (size + 4) = padding stale size := by
  unfold padding
  rw [Nat.add_mod_right]

theorem length_leBytes_word (bytes : List UInt8) (isWord : bytes.length = 4) :
    leBytes 4 (BitVec.ofNat 32 (le bytes)).toNat = bytes := by
  have bound : le bytes < 256 ^ bytes.length := le_lt bytes
  have bound' : le bytes < 2 ^ 32 := by rwa [isWord] at bound
  rw [BitVec.toNat_ofNat, Nat.mod_eq_of_lt bound', ← isWord, leBytes_le]

/-- A word is popped from four bytes of the queue. -/
theorem pop_whole {size : Nat} (whole : 4 ≤ size) {c : SpiController} {address : Nat}
    (full : c.fifo = fetch env.medium address size) :
    c.pop env = (BitVec.ofNat 32 (le (fetch env.medium address 4)),
      { c with fifo := fetch env.medium (address + 4) (size - 4) }) := by
  have split : c.fifo =
      fetch env.medium address 4 ++ fetch env.medium (address + 4) (size - 4) := by
    rw [full, ← fetch_append, Nat.add_sub_cancel' whole]
  unfold SpiController.pop
  rw [split, List.take_left' (length_fetch _ _ _), List.drop_left' (length_fetch _ _ _),
    length_fetch]
  have noStale : ((List.range 4).drop 4).map env.stale = [] := rfl
  rw [noStale, List.append_nil]

/-- A word popped from less than four bytes is filled up with what was there before. -/
theorem pop_short {size : Nat} (short : size < 4) (nonempty : 0 < size) {c : SpiController}
    {address : Nat} (full : c.fifo = fetch env.medium address size) :
    c.pop env = (BitVec.ofNat 32 (le (fetch env.medium address size ++ padding env.stale size)),
      { c with fifo := [] }) := by
  have taken : c.fifo.take 4 = fetch env.medium address size := by
    rw [full, List.take_of_length_le (by rw [length_fetch]; omega)]
  have dropped : c.fifo.drop 4 = [] := by
    rw [full, List.drop_eq_nil_of_le (by rw [length_fetch]; omega)]
  have part : size % 4 = size := Nat.mod_eq_of_lt short
  have notWhole : ¬ size % 4 = 0 := by omega
  unfold SpiController.pop
  rw [taken, dropped, length_fetch, padding, if_neg notWhole, part]

/-- The words of the bytes in the FIFO. -/
theorem readWords_eq (dst : Nat) {words size : Nat} (enough : words = (size + 3) / 4) (index : Nat)
    {c : SpiController} {address : Nat} (full : c.fifo = fetch env.medium address size)
    (memory : Memory) :
    readWords env dst words index c memory =
      ({ c with fifo := [] }, store memory (dst + 4 * index)
        (fetch env.medium address size ++ padding env.stale size)) := by
  induction words generalizing size index c address memory with
  | zero =>
      obtain rfl : size = 0 := by omega
      have none : fetch env.medium address 0 ++ padding env.stale 0 = [] := rfl
      have same : c = { c with fifo := [] } := by
        rw [show ([] : List UInt8) = c.fifo from full.symm]
      rw [none, store_nil, ← same]
      rfl
  | succ words ih =>
      rcases Nat.lt_or_ge size 4 with short | whole
      · have last : words = 0 := by omega
        have isWord : (fetch env.medium address size ++ padding env.stale size).length = 4 := by
          rw [List.length_append, length_fetch, length_padding, if_neg (by omega)]
          omega
        subst last
        simp only [readWords, pop_short short (by omega) full, length_leBytes_word _ isWord]
      · have isWord : (fetch env.medium address 4).length = 4 := length_fetch _ _ _
        have rest : words = (size - 4 + 3) / 4 := by omega
        have next : dst + 4 * (index + 1) = dst + 4 * index + 4 := by omega
        have split : fetch env.medium address size =
            fetch env.medium address 4 ++ fetch env.medium (address + 4) (size - 4) := by
          rw [← fetch_append, Nat.add_sub_cancel' whole]
        have samePadding : padding env.stale size = padding env.stale (size - 4) := by
          rw [← padding_add_four env.stale (size - 4), Nat.sub_add_cancel whole]
        have stored := store_append memory (dst + 4 * index) (fetch env.medium address 4)
          (fetch env.medium (address + 4) (size - 4) ++ padding env.stale (size - 4))
        rw [isWord, ← next, ← List.append_assoc, ← split, ← samePadding] at stored
        simp only [readWords, pop_whole whole full, length_leBytes_word _ isWord]
        rw [@ih (size - 4) rest (index + 1)
          { c with fifo := fetch env.medium (address + 4) (size - 4) } (address + 4) rfl,
          ← samePadding, stored]

/-! ## A transaction -/

theorem intOf_small {value : Nat} (small : value < 2 ^ 31) : intOf value = some value :=
  if_pos small

/-- A transaction of which some bytes are in memory and the others are still to come. -/
structure Delivering (c : SpiController) (address dataBytes off : Nat) : Prop where
  fifo : c.fifo = []
  next : c.next = address + off
  remaining : c.remaining = dataBytes - off

/-- The controller behind a transaction. -/
def SpiController.delivered (c : SpiController) (address dataBytes off : Nat) : SpiController :=
  { c with
    next := address + dataBytes, remaining := 0
    fetched := c.fetched ++ (List.range (dataBytes - off)).map (address + off + ·) }

/-- The controller fills its queue with up to eight bytes of the medium. -/
theorem fill_delivering {c : SpiController} {address dataBytes off : Nat}
    (delivering : Delivering c address dataBytes off) :
    c.fill env =
      { c with
        fifo := fetch env.medium (address + off) (min 8 (dataBytes - off))
        next := address + off + min 8 (dataBytes - off)
        remaining := dataBytes - off - min 8 (dataBytes - off)
        fetched := c.fetched ++
          (List.range (min 8 (dataBytes - off))).map (address + off + ·) } := by
  unfold SpiController.fill
  rw [delivering.fifo, delivering.next, delivering.remaining]
  rfl

/-- The loop ends when all the bytes have arrived. -/
theorem getData_done {c : SpiController} {address dataBytes off : Nat}
    (delivering : Delivering c address dataBytes off) (done : off = dataBytes) (fuel dst : Nat)
    (memory : Memory) :
    getData env dst dataBytes (fuel + 1) off c memory =
      some (c.delivered address dataBytes off, store memory (dst + off)
        (fetch env.medium (address + off) (dataBytes - off) ++
          padding env.stale (dataBytes - off))) := by
  obtain rfl := done
  have nothing : fetch env.medium (address + off) 0 ++ padding env.stale 0 = [] := rfl
  have same : c.delivered address off off = c := by
    obtain ⟨-, next, remaining⟩ := delivering
    rw [Nat.sub_self] at remaining
    unfold SpiController.delivered
    rw [← next, ← remaining, Nat.sub_self]
    simp
  unfold getData
  rw [if_neg (Nat.lt_irrefl off), Nat.sub_self, nothing, store_nil, same]

/-- A round: the FIFO fills up and its bytes go to memory. -/
theorem getData_round {c : SpiController} {address dataBytes off : Nat}
    (delivering : Delivering c address dataBytes off) (left : off < dataBytes)
    (small : dataBytes ≤ 65536) (aligned : 8 ∣ off) (fuel dst : Nat) (memory : Memory) :
    getData env dst dataBytes (fuel + 1) off c memory =
      getData env dst dataBytes fuel (off + min 8 (dataBytes - off))
        { c with
          next := address + off + min 8 (dataBytes - off)
          remaining := dataBytes - off - min 8 (dataBytes - off)
          fetched := c.fetched ++
            (List.range (min 8 (dataBytes - off))).map (address + off + ·) }
        (store memory (dst + off)
          (fetch env.medium (address + off) (min 8 (dataBytes - off)) ++
            padding env.stale (min 8 (dataBytes - off)))) := by
  obtain ⟨fifo, -, -⟩ := id delivering
  have xfer : (if dataBytes - off ≥ SPI_MAX_FIFO_DEPTH then SPI_MAX_FIFO_DEPTH
      else dataBytes - off) = min 8 (dataBytes - off) := by
    unfold SPI_MAX_FIFO_DEPTH
    split <;> omega
  have masked : min 8 (dataBytes - off) &&& 0xf = min 8 (dataBytes - off) := by
    rw [show 0xf = 2 ^ 4 - 1 from rfl, Nat.and_two_pow_sub_one_eq_mod, Nat.mod_eq_of_lt]
    omega
  have words : (min 8 (dataBytes - off) - 1) / 4 + 1 = (min 8 (dataBytes - off) + 3) / 4 := by
    omega
  have start : dst + 4 * (off / 4) = dst + off := by omega
  conv_lhs => unfold getData
  simp only [if_pos left, xfer, fill_delivering delivering, length_fetch, masked, ne_eq,
    not_true_eq_false, if_false]
  rw [intOf_small (by omega), intOf_small (by omega)]
  simp only [Option.bind_eq_bind, Option.bind_some, words]
  rw [readWords_eq dst rfl (off / 4) rfl memory, start, ← fifo]

/-- A round delivers the bytes behind those of the round before. -/
theorem delivered_round {c : SpiController} {address dataBytes off size : Nat}
    (inside : off + size ≤ dataBytes) (next remaining : Nat) :
    SpiController.delivered { c with
        next := next, remaining := remaining
        fetched := c.fetched ++ (List.range size).map (address + off + ·) }
      address dataBytes (off + size) = c.delivered address dataBytes off := by
  have rest : dataBytes - off = size + (dataBytes - (off + size)) := by omega
  unfold SpiController.delivered
  rw [rest, List.range_add, List.map_append, List.map_map, List.append_assoc]
  simp only [Function.comp_def, Nat.add_assoc]

/-- The bytes of a round in front of those that are stored behind it. -/
theorem store_round (env : SpiEnv) (memory : Memory) (address dst : Nat) {left size : Nat}
    (round : size = min 8 left) :
    store (store memory dst (fetch env.medium address size ++ padding env.stale size))
        (dst + size) (fetch env.medium (address + size) (left - size) ++
          padding env.stale (left - size)) =
      store memory dst (fetch env.medium address left ++ padding env.stale left) := by
  rcases Nat.lt_or_ge left 8 with last | more
  · obtain rfl : size = left := by omega
    have nothing : fetch env.medium (address + size) 0 ++ padding env.stale 0 = [] := rfl
    rw [Nat.sub_self, nothing, store_nil]
  · obtain rfl : size = 8 := by omega
    have noPadding : padding env.stale 8 = [] := rfl
    have split : fetch env.medium address left =
        fetch env.medium address 8 ++ fetch env.medium (address + 8) (left - 8) := by
      rw [← fetch_append, Nat.add_sub_cancel' more]
    have samePadding : padding env.stale left = padding env.stale (left - 8) := by
      rw [← padding_add_four env.stale (left - 8), ← padding_add_four env.stale (left - 8 + 4),
        Nat.add_assoc, Nat.sub_add_cancel more]
    have stored := store_append memory dst (fetch env.medium address 8)
      (fetch env.medium (address + 8) (left - 8) ++ padding env.stale (left - 8))
    rw [length_fetch, ← List.append_assoc, ← split, ← samePadding] at stored
    rw [noPadding, List.append_nil, ← samePadding, stored]

/-- The loop stores the bytes that are still to come, and fills up the last word. -/
theorem getData_eq (env : SpiEnv) {dataBytes : Nat} (small : dataBytes ≤ 65536)
    (address dst : Nat) :
    ∀ (fuel off : Nat) (c : SpiController) (memory : Memory),
      Delivering c address dataBytes off → off ≤ dataBytes → dataBytes - off < fuel →
      (off < dataBytes → 8 ∣ off) →
      getData env dst dataBytes fuel off c memory =
        some (c.delivered address dataBytes off, store memory (dst + off)
          (fetch env.medium (address + off) (dataBytes - off) ++
            padding env.stale (dataBytes - off))) := by
  intro fuel
  induction fuel with
  | zero =>
      intro off c memory _ _ enough
      omega
  | succ fuel ih =>
      intro off c memory delivering inside enough aligned
      rcases Nat.eq_or_lt_of_le inside with done | left
      · exact getData_done delivering done fuel dst memory
      · rw [getData_round delivering left small (aligned left) fuel dst memory]
        generalize round : min 8 (dataBytes - off) = size
        have next : address + off + size = address + (off + size) := by omega
        have stored := store_round env memory (address + off) (dst + off) round.symm
        rw [next, Nat.add_assoc dst, Nat.sub_sub] at stored
        apply (ih (off + size) _ _ ⟨?_, ?_, ?_⟩ ?_ ?_ ?_).trans
        · rw [delivered_round (by omega), stored]
        · exact delivering.fifo
        · exact next
        · exact Nat.sub_sub dataBytes off size
        · omega
        · omega
        · intro _
          obtain ⟨rounds, rfl⟩ := aligned left
          omega

/-! ## The command -/

/-- A field of the control register that is cleared before it is set. -/
theorem csr_field {keep mask : BitVec 32} (cleared : keep &&& mask = 0#32) (old bits : BitVec 32) :
    (old &&& keep ||| bits) &&& mask = bits &&& mask := by
  rw [BitVec.and_or_distrib_right, BitVec.and_assoc, cleared, BitVec.and_zero, BitVec.zero_or]

theorem addrByte_toNat (addr : BitVec 32) (shift : Nat) :
    (addrByte addr shift).toNat = addr.toNat / 2 ^ shift % 256 := by
  simp [addrByte, UInt8.toNat, Nat.shiftRight_eq_div_pow]

theorem commanded_four (csr addr : BitVec 32) (behind : List UInt8)
    (field : (csr &&& BIT_SPI_TRAN_CSR_ADDR_BYTES_MASK) >>> 8 = 4#32) :
    SpiController.commanded csr ([SPI_CMD_READ4, addrByte addr 24, addrByte addr 16,
      addrByte addr 8, addrByte addr 0] ++ behind) = some addr.toNat := by
  have bound := addr.isLt
  simp [SpiController.commanded, field, SPI_CMD_READ, SPI_CMD_READ4, SpiController.be, le,
    addrByte_toNat]
  omega

theorem commanded_three (csr addr : BitVec 32) (low : addr.toNat < 2 ^ 24)
    (field : (csr &&& BIT_SPI_TRAN_CSR_ADDR_BYTES_MASK) >>> 8 = 3#32) :
    SpiController.commanded csr [SPI_CMD_READ, addrByte addr 16, addrByte addr 8,
      addrByte addr 0] = some addr.toNat := by
  simp [SpiController.commanded, field, SPI_CMD_READ, SPI_CMD_READ4, SpiController.be, le,
    addrByte_toNat]
  omega

/-- What `spi_data_in_tran` writes to `REG_SPI_TRAN_CSR` behind the fields that it keeps. -/
def tranBits (addrBytes : Nat) : BitVec 32 :=
  BitVec.ofNat 32 addrBytes <<< 8 ||| (BIT_SPI_TRAN_CSR_WITH_CMD |||
    (BIT_SPI_TRAN_CSR_FIFO_TRG_LVL_8_BYTE |||
      (BIT_SPI_TRAN_CSR_TRAN_MODE_RX ||| BIT_SPI_TRAN_CSR_GO_BUSY)))

/-- The fields that it clears. -/
def tranMask : BitVec 32 :=
  BIT_SPI_TRAN_CSR_TRAN_MODE_MASK ||| BIT_SPI_TRAN_CSR_ADDR_BYTES_MASK |||
    BIT_SPI_TRAN_CSR_FIFO_TRG_LVL_MASK ||| BIT_SPI_TRAN_CSR_WITH_CMD

theorem tran_field {mask : BitVec 32} (cleared : ~~~tranMask &&& mask = 0#32) (old : BitVec 32)
    (addrBytes : Nat) :
    (old &&& ~~~tranMask ||| tranBits addrBytes) &&& mask = tranBits addrBytes &&& mask :=
  csr_field cleared old _

/-- A transaction starts, at the commanded address. -/
theorem issue_eq {c : SpiController} {addrBytes address : Nat}
    (width : addrBytes = 3 ∨ addrBytes = 4) (old : BitVec 32)
    (command : ∀ csr : BitVec 32,
      (csr &&& BIT_SPI_TRAN_CSR_ADDR_BYTES_MASK) >>> 8 = BitVec.ofNat 32 addrBytes →
        SpiController.commanded csr c.fifo = some address) :
    c.issue (old &&& ~~~tranMask ||| tranBits addrBytes) = some { c with
      tranCsr := old &&& ~~~tranMask ||| tranBits addrBytes, fifo := [], next := address
      remaining := c.tranNum, transactions := c.transactions + 1 } := by
  have mode : (old &&& ~~~tranMask ||| tranBits addrBytes) &&&
      BIT_SPI_TRAN_CSR_TRAN_MODE_MASK = BIT_SPI_TRAN_CSR_TRAN_MODE_RX := by
    rw [tran_field (by decide)]
    rcases width with rfl | rfl <;> decide
  have withCmd : ¬ (old &&& ~~~tranMask ||| tranBits addrBytes) &&&
      BIT_SPI_TRAN_CSR_WITH_CMD = 0#32 := by
    rw [tran_field (by decide)]
    rcases width with rfl | rfl <;> decide
  have field : ((old &&& ~~~tranMask ||| tranBits addrBytes) &&&
      BIT_SPI_TRAN_CSR_ADDR_BYTES_MASK) >>> 8 = BitVec.ofNat 32 addrBytes := by
    rw [tran_field (by decide)]
    rcases width with rfl | rfl <;> decide
  unfold SpiController.issue
  rw [command _ field]
  simp [mode, withCmd]

/-- A read that ends, and that stores the bytes from an address on, and what fills up their
last word, when it succeeds; it does so when all its transactions start. -/
def FlashRead (env : SpiEnv) (dst address size : Nat) (c : SpiController) (memory : Memory)
    (result : Option (Int × SpiController × Memory)) : Prop :=
  ∃ ret c' memory', result = some (ret, c', memory') ∧
    ((∀ transaction, env.starts transaction = true) → ret = 0) ∧
    (ret = 0 → c'.fetched = c.fetched ++ (List.range size).map (address + ·) ∧
      memory' = store memory dst (fetch env.medium address size ++ padding env.stale size))

/-- One transaction reads up to 65536 bytes from the flash. -/
theorem spiDataInTran_flashRead {addrBytes address size : Nat} {cmdBuf written : List UInt8}
    (width : addrBytes = 3 ∨ addrBytes = 4) (small : size ≤ 65536)
    (pushed : ∀ c : SpiController, c.fifo = [] →
      writeCommand env cmdBuf (addrBytes / 4 + 1) c = { c with fifo := written })
    (command : ∀ csr : BitVec 32,
      (csr &&& BIT_SPI_TRAN_CSR_ADDR_BYTES_MASK) >>> 8 = BitVec.ofNat 32 addrBytes →
        SpiController.commanded csr written = some address)
    (dst : Nat) (c : SpiController) (memory : Memory) :
    FlashRead env dst address size c memory
      (spiDataInTran env dst cmdBuf true addrBytes size c memory) := by
  have cmdBytes : intOf (addrBytes + if true = true then 1 else 0) = some (addrBytes + 1) := by
    rw [if_pos rfl]
    exact intOf_small (by omega)
  have csr : c.tranCsr &&& ~~~tranMask ||| BitVec.ofNat 32 addrBytes <<< 8 |||
      BIT_SPI_TRAN_CSR_WITH_CMD ||| BIT_SPI_TRAN_CSR_FIFO_TRG_LVL_8_BYTE |||
      BIT_SPI_TRAN_CSR_TRAN_MODE_RX ||| BIT_SPI_TRAN_CSR_GO_BUSY =
        c.tranCsr &&& ~~~tranMask ||| tranBits addrBytes := by
    unfold tranBits
    simp only [BitVec.or_assoc]
  have masks : tranMask = BIT_SPI_TRAN_CSR_TRAN_MODE_MASK ||| BIT_SPI_TRAN_CSR_ADDR_BYTES_MASK |||
    BIT_SPI_TRAN_CSR_FIFO_TRG_LVL_MASK ||| BIT_SPI_TRAN_CSR_WITH_CMD := rfl
  have notOver : ¬ size > 65536 := by omega
  have words : (addrBytes + 1 - 1) / 4 + 1 = addrBytes / 4 + 1 := rfl
  have started := issue_eq (c := { c with tranNum := size, fifo := written }) width c.tranCsr
    command
  unfold spiDataInTran
  rw [cmdBytes]
  simp only [Option.bind_eq_bind, Option.bind_some, if_neg notOver, ← masks, words,
    pushed c.flush rfl, if_true, csr]
  simp only [SpiController.flush, started, Option.bind_some]
  cases starts : env.starts (c.transactions + 1) with
  | false =>
      refine ⟨-1, _, memory, rfl, fun all => ?_, fun done => ?_⟩
      · rw [all] at starts
        cases starts
      · cases done
  | true =>
      have loop := getData_eq env small address dst (size + 1) 0
        { c with
          tranCsr := c.tranCsr &&& ~~~tranMask ||| tranBits addrBytes, tranNum := size
          fifo := [], next := address, remaining := size, transactions := c.transactions + 1 }
        memory ⟨rfl, rfl, rfl⟩ (Nat.zero_le _) (Nat.lt_succ_self _) (fun _ => ⟨0, rfl⟩)
      simp only [loop, Option.bind_some]
      exact ⟨0, _, _, rfl, fun _ => rfl, fun _ => ⟨rfl, rfl⟩⟩

theorem writeCommand_four (a b d e : UInt8) {c : SpiController} (flushed : c.fifo = []) :
    writeCommand env [a, b, d, e] 1 c = { c with fifo := [a, b, d, e] } := by
  simp [writeCommand, SpiController.push, flushed, List.range_succ]

theorem writeCommand_five (a b d e f : UInt8) {c : SpiController} (flushed : c.fifo = []) :
    writeCommand env [a, b, d, e, f] 2 c =
      { c with fifo := [a, b, d, e, f] ++ [env.behind 0, env.behind 1, env.behind 2] } := by
  simp [writeCommand, SpiController.push, flushed, List.range_succ]

/-- An address whose high byte is zero fits into three bytes. -/
theorem low_address {addr : BitVec 32} (low : addr &&& 0xff000000#32 = 0) :
    addr.toNat < 2 ^ 24 := by
  have high : (0xff000000#32 >>> 24 : BitVec 32) = 255#32 := by decide
  have shifted : addr >>> 24 &&& 255#32 = 0#32 := by
    rw [← high, ← BitVec.ushiftRight_and_distrib, low]
    rfl
  have byte : (addr.toNat >>> 24) &&& 255 = 0 := congrArg BitVec.toNat shifted
  rw [show 255 = 2 ^ 8 - 1 from rfl, Nat.and_two_pow_sub_one_eq_mod,
    Nat.shiftRight_eq_div_pow] at byte
  omega

/-- The address in the command has as many bytes as it needs. -/
theorem spiDataRead_flashRead (env : SpiEnv) (dst : Nat) (addr : BitVec 32) {size : Nat}
    (small : size ≤ 65536) (c : SpiController) (memory : Memory) :
    FlashRead env dst addr.toNat size c memory (spiDataRead env dst addr size c memory) := by
  unfold spiDataRead
  split
  · apply spiDataInTran_flashRead (.inr rfl) small
    · exact fun c flushed => writeCommand_five _ _ _ _ _ flushed
    · exact fun csr field => commanded_four csr addr _ field
  · next high =>
    have low : addr.toNat < 2 ^ 24 := low_address (Decidable.not_not.mp high)
    apply spiDataInTran_flashRead (.inl rfl) small
    · exact fun c flushed => writeCommand_four _ _ _ _ flushed
    · exact fun csr field => commanded_three csr addr low field

/-! ## Reads -/

/-- A read behind one of whole words, which is left out when that fails. -/
theorem FlashRead.andThen {dst address first second : Nat} {c : SpiController} {memory : Memory}
    {before both : Option (Int × SpiController × Memory)} (words : 4 ∣ first)
    (reads : FlashRead env dst address first c memory before)
    (fails : ∀ ret c' memory', ret ≠ 0 → before = some (ret, c', memory') →
      both = some (ret, c', memory'))
    (behind : ∀ c' memory', before = some (0, c', memory') →
      FlashRead env (dst + first) (address + first) second c' memory' both) :
    FlashRead env dst address (first + second) c memory both := by
  obtain ⟨ret, c', memory', done, starts, reads⟩ := reads
  by_cases failed : ret = 0
  · subst failed
    obtain ⟨fetched, stored⟩ := reads rfl
    obtain ⟨ret', c'', memory'', done', starts', reads'⟩ := behind c' memory' done
    refine ⟨ret', c'', memory'', done', starts', fun succeeds => ?_⟩
    obtain ⟨fetched', stored'⟩ := reads' succeeds
    have noPadding : padding env.stale first = [] := if_pos (Nat.mod_eq_zero_of_dvd words)
    have samePadding : padding env.stale (first + second) = padding env.stale second := by
      unfold padding
      rw [Nat.add_mod, Nat.mod_eq_zero_of_dvd words, Nat.zero_add, Nat.mod_mod]
    have joined := store_append memory dst (fetch env.medium address first)
      (fetch env.medium (address + first) second ++ padding env.stale second)
    rw [length_fetch] at joined
    constructor
    · rw [fetched', fetched, List.range_add, List.map_append, List.map_map, List.append_assoc]
      simp only [Function.comp_def, Nat.add_assoc]
    · rw [stored', stored, noPadding, List.append_nil, samePadding, fetch_append,
        List.append_assoc, joined]
  · exact ⟨ret, c', memory', fails ret c' memory' failed done, starts,
      fun succeeds => absurd succeeds failed⟩

theorem flashRead_nothing (dst address : Nat) (c : SpiController) (memory : Memory) :
    FlashRead env dst address 0 c memory (some (0, c, memory)) := by
  refine ⟨0, c, memory, rfl, fun _ => rfl, fun _ => ⟨?_, ?_⟩⟩
  · simp
  · exact (store_nil memory dst).symm

/-- The addresses of a read inside of the flash do not wrap around. -/
theorem address_inside {addr : BitVec 32} {offset : Nat}
    (inside : addr.toNat + offset ≤ Sgspif.totalSize) :
    (addr + BitVec.ofNat 32 offset).toNat = addr.toNat + offset := by
  unfold Sgspif.totalSize at inside
  rw [BitVec.toNat_add, BitVec.toNat_ofNat]
  omega

/-- The frames of 65536 bytes are read one behind the other. -/
theorem readFrames_flashRead (env : SpiEnv) (dst : Nat) (addr : BitVec 32) (left : Nat) :
    ∀ (i : Nat) (c : SpiController) (memory : Memory),
      addr.toNat + (i + left) * TRAN_NUM ≤ Sgspif.totalSize →
      FlashRead env (dst + i * TRAN_NUM) (addr.toNat + i * TRAN_NUM) (left * TRAN_NUM) c memory
        (readFrames env dst addr left i c memory) := by
  induction left with
  | zero =>
      intro i c memory _
      rw [Nat.zero_mul]
      exact flashRead_nothing _ _ c memory
  | succ left ih =>
      intro i c memory inside
      have rest : i + 1 + left = i + (left + 1) := by omega
      have frames : (i + (left + 1)) * TRAN_NUM = i * TRAN_NUM + (left + 1) * TRAN_NUM :=
        Nat.add_mul _ _ _
      have full : TRAN_NUM ≤ 65536 := Nat.le_refl _
      have frame := spiDataRead_flashRead env (dst + i * TRAN_NUM)
        (addr + BitVec.ofNat 32 (i * TRAN_NUM)) full c memory
      have offset : intOf (i * TRAN_NUM) = some (i * TRAN_NUM) := by
        apply intOf_small
        unfold Sgspif.totalSize at inside
        omega
      have size : (left + 1) * TRAN_NUM = TRAN_NUM + left * TRAN_NUM := by
        rw [Nat.add_mul, Nat.one_mul, Nat.add_comm]
      rw [address_inside (by omega)] at frame
      rw [size]
      have whole : 4 ∣ TRAN_NUM := ⟨16384, rfl⟩
      apply frame.andThen whole
      · intro ret c' memory' failed done
        rw [readFrames, offset, Option.bind_eq_bind, Option.bind_some, Option.bind_eq_bind, done,
          Option.bind_some]
        exact if_pos failed
      · intro c' memory' done
        have behind := ih (i + 1) c' memory' (by rwa [rest])
        rw [Nat.add_mul i 1, Nat.one_mul, ← Nat.add_assoc, ← Nat.add_assoc] at behind
        rw [readFrames, offset, Option.bind_eq_bind, Option.bind_some, Option.bind_eq_bind, done,
          Option.bind_some]
        exact behind

/-- A read is cut into frames and a rest. -/
theorem bmSpiFlashRead_flashRead (env : SpiEnv) (dst : Nat) {addr size : BitVec 32}
    (inside : addr.toNat + size.toNat ≤ Sgspif.totalSize) (c : SpiController) (memory : Memory) :
    FlashRead env dst addr.toNat size.toNat c memory
      (bmSpiFlashRead env dst addr size c memory) := by
  have parts : size.toNat / TRAN_NUM * TRAN_NUM + size.toNat % TRAN_NUM = size.toNat :=
    Nat.div_add_mod' _ _
  have whole : 4 ∣ size.toNat / TRAN_NUM * TRAN_NUM := ⟨size.toNat / TRAN_NUM * 16384, by
    unfold TRAN_NUM
    omega⟩
  have offset : intOf (size.toNat / TRAN_NUM * TRAN_NUM) =
      some (size.toNat / TRAN_NUM * TRAN_NUM) := by
    apply intOf_small
    unfold Sgspif.totalSize at inside
    omega
  have frames := readFrames_flashRead env dst addr (size.toNat / TRAN_NUM) 0 c memory
    (by rw [Nat.zero_add]; omega)
  rw [Nat.zero_mul, Nat.add_zero, Nat.add_zero] at frames
  have small : size.toNat % TRAN_NUM ≤ 65536 :=
    Nat.le_of_lt (Nat.mod_lt _ (Nat.zero_lt_succ 65535))
  rw [← parts]
  apply frames.andThen whole
  · intro ret c' memory' failed done
    simp [bmSpiFlashRead, done, failed]
  · intro c' memory' done
    by_cases none : size.toNat % TRAN_NUM = 0
    · rw [none]
      simpa [bmSpiFlashRead, done, none] using flashRead_nothing _ _ c' memory'
    · have last := spiDataRead_flashRead env (dst + size.toNat / TRAN_NUM * TRAN_NUM)
        (addr + BitVec.ofNat 32 (size.toNat / TRAN_NUM * TRAN_NUM)) small c' memory'
      rw [address_inside (by omega)] at last
      obtain ⟨ret, c'', memory'', read, starts, reads⟩ := last
      refine ⟨ret, c'', memory'', ?_, starts, reads⟩
      unfold bmSpiFlashRead
      dsimp only
      rw [Option.bind_eq_bind, done, Option.bind_some]
      dsimp only
      rw [if_neg (not_not_intro rfl), if_pos none, offset, Option.bind_eq_bind, Option.bind_some,
        read, Option.bind_some]
      by_cases failed : ret = 0
      · subst failed
        exact if_neg (not_not_intro rfl)
      · exact if_pos failed

/-- `size` bytes are read, no other byte of the memory changes, and each byte of the medium
is fetched once, whenever the read succeeds. -/
def ReadsFramed (offset size : BitVec 64) : Prop :=
  ∀ (env : SpiEnv) (buf : Nat) (c : SpiController) (memory : Memory), ∃ ret c' memory',
    Sgspif.read env offset size buf c memory = some (ret, c', memory') ∧
    (0 ≤ ret →
      (∀ i < size.toNat, memory' (buf + i) = env.medium (offset.toNat + i)) ∧
      (∀ at', at' < buf ∨ buf + size.toNat ≤ at' → memory' at' = memory at') ∧
      c'.fetched = c.fetched ++ (List.range size.toNat).map (offset.toNat + ·))

/-- A read inside of the flash delivers its bytes and returns their number. -/
theorem read_eq (env : SpiEnv) (buf : Nat) {offset size : BitVec 64}
    (inside : offset.toNat + size.toNat ≤ Sgspif.totalSize) (c : SpiController)
    (memory : Memory) :
    ∃ ret c' memory', Sgspif.read env offset size buf c memory = some (ret, c', memory') ∧
      ((∀ transaction, env.starts transaction = true) → ret = size.toNat) ∧
      (0 ≤ ret → c'.fetched = c.fetched ++ (List.range size.toNat).map (offset.toNat + ·) ∧
        memory' = store memory buf
          (fetch env.medium offset.toNat size.toNat ++ padding env.stale size.toNat)) := by
  have sameOffset : (offset.setWidth 32).toNat = offset.toNat := by
    unfold Sgspif.totalSize at inside
    rw [BitVec.toNat_setWidth, Nat.mod_eq_of_lt (by omega)]
  have sameSize : (size.setWidth 32).toNat = size.toNat := by
    unfold Sgspif.totalSize at inside
    rw [BitVec.toNat_setWidth, Nat.mod_eq_of_lt (by omega)]
  have positive : size.toInt = size.toNat := by
    unfold Sgspif.totalSize at inside
    rw [BitVec.toInt_eq_toNat_of_lt (by omega)]
  have flash : FlashRead env buf (offset.setWidth 32).toNat (size.setWidth 32).toNat c memory
      (bmSpiFlashRead env buf (offset.setWidth 32) (size.setWidth 32) c memory) :=
    bmSpiFlashRead_flashRead env buf (by rwa [sameOffset, sameSize]) c memory
  rw [sameOffset, sameSize] at flash
  obtain ⟨err, c', memory', done, starts, reads⟩ := flash
  unfold Sgspif.read
  rw [done]
  refine ⟨if err ≠ 0 then - EIO else size.toInt, c', memory', rfl, fun all => ?_,
    fun succeeds => ?_⟩
  · rw [starts all, if_neg (fun changed => changed rfl), positive]
  · apply reads
    by_contra failed
    rw [if_pos failed] at succeeds
    exact absurd succeeds (by decide)

/-- Whole words are written where they were asked for. -/
theorem whole_words_framed {offset size : BitVec 64}
    (inside : offset.toNat + size.toNat ≤ Sgspif.totalSize) (words : size.toNat % 4 = 0) :
    ReadsFramed offset size := by
  intro env buf c memory
  obtain ⟨ret, c', memory', done, -, reads⟩ := read_eq env buf inside c memory
  refine ⟨ret, c', memory', done, fun succeeds => ?_⟩
  obtain ⟨fetched, stored⟩ := reads succeeds
  have noPadding : padding env.stale size.toNat = [] := if_pos words
  rw [noPadding, List.append_nil] at stored
  have size' := length_fetch env.medium offset.toNat size.toNat
  refine ⟨fun i lt => ?_, fun at' outside => ?_, fetched⟩
  · have there := fetch_store memory buf (fetch env.medium offset.toNat size.toNat)
    rw [← stored] at there
    apply fetch_eq_iff.mp there i
    simp [fetch, lt]
  · rw [stored]
    apply store_outside
    rwa [size']

/-- The bytes behind a part of a word are those of the register. -/
theorem part_of_word_overwrites (env : SpiEnv) (buf : Nat) {offset size : BitVec 64}
    (inside : offset.toNat + size.toNat ≤ Sgspif.totalSize) (part : size.toNat % 4 ≠ 0)
    (starts : ∀ transaction, env.starts transaction = true) (c : SpiController)
    (memory : Memory) :
    ∃ c' memory', Sgspif.read env offset size buf c memory = some (↑size.toNat, c', memory') ∧
      memory' (buf + size.toNat) = env.stale (size.toNat % 4) := by
  obtain ⟨ret, c', memory', done, succeeds, reads⟩ := read_eq env buf inside c memory
  have all := succeeds starts
  obtain ⟨-, stored⟩ := reads (by omega)
  subst all
  refine ⟨c', memory', done, ?_⟩
  have there := fetch_store memory buf
    (fetch env.medium offset.toNat size.toNat ++ padding env.stale size.toNat)
  rw [← stored] at there
  apply fetch_eq_iff.mp there size.toNat
  have inWord : size.toNat % 4 < 4 := Nat.mod_lt _ (Nat.zero_lt_succ 3)
  rw [List.getElem?_append_right (by rw [length_fetch]), length_fetch, Nat.sub_self, padding,
    if_neg part, List.getElem?_map, List.getElem?_drop, Nat.add_zero,
    List.getElem?_range inWord]
  rfl

/-- A controller that delivers ones in the bytes of a word that are not in the FIFO. -/
def onesEnv : SpiEnv :=
  { medium := fun _ => 0, stale := fun _ => 1, behind := fun _ => 0, starts := fun _ => true }

def idleController : SpiController :=
  { tranCsr := 0, tranNum := 0, fifo := [], next := 0, remaining := 0, transactions := 0
    fetched := [] }

/-- A part of a word is written as a whole one, beyond the end. -/
theorem part_of_word_not_framed {offset size : BitVec 64}
    (inside : offset.toNat + size.toNat ≤ Sgspif.totalSize) (part : size.toNat % 4 ≠ 0) :
    ¬ ReadsFramed offset size := by
  intro framed
  obtain ⟨c', memory', done, overwritten⟩ :=
    part_of_word_overwrites onesEnv 0 inside part (fun _ => rfl) idleController (fun _ => 0)
  obtain ⟨ret, c'', memory'', done', reads⟩ := framed onesEnv 0 idleController (fun _ => 0)
  rw [done] at done'
  obtain ⟨rfl, rest⟩ := Prod.mk.inj (Option.some.inj done')
  obtain ⟨rfl, rfl⟩ := Prod.mk.inj rest
  obtain ⟨-, frame, -⟩ := reads (by omega)
  rw [frame _ (.inr (Nat.le_refl _))] at overwritten
  cases overwritten

/-- A read inside of the flash keeps to its bytes exactly when they are whole words. -/
theorem spi_read_framed {offset size : BitVec 64}
    (inside : offset.toNat + size.toNat ≤ Sgspif.totalSize) :
    ReadsFramed offset size ↔ size.toNat % 4 = 0 := by
  constructor
  · intro framed
    by_contra part
    exact part_of_word_not_framed inside part framed
  · exact whole_words_framed inside

theorem spi_read_framed_twoWords : ReadsFramed 0x1fffffc#64 8#64 ↔ (8#64).toNat % 4 = 0 :=
  spi_read_framed (by decide)

/-- The configuration is read up to its last byte, which is to stay zero. -/
theorem configuration_terminator_lost :
    (∃ c' memory', Sgspif.read onesEnv 0#64 8191#64 0 idleController (fun _ => 0) =
      some (8191, c', memory') ∧ memory' 8191 ≠ 0) ∧ ¬ ReadsFramed 0#64 8191#64 := by
  have inside : (0#64).toNat + (8191#64).toNat ≤ Sgspif.totalSize := by decide
  have part : (8191#64).toNat % 4 ≠ 0 := by decide
  refine ⟨?_, part_of_word_not_framed inside part⟩
  obtain ⟨c', memory', done, overwritten⟩ :=
    part_of_word_overwrites onesEnv 0 inside part (fun _ => rfl) idleController (fun _ => 0)
  refine ⟨c', memory', done, fun kept => ?_⟩
  rw [Nat.zero_add] at overwritten
  have changed : onesEnv.stale ((8191#64).toNat % 4) = 0 := overwritten.symm.trans kept
  cases changed

end Zsbl.Drivers
