/-
Module: Zsbl.Proofs.Efuse
Purpose: Byte access to the fuses over whole ranges: what is read is the cells' bytes, and
  what is written is added to the fuses that are set.
Trusted boundary: none
Main exports:
  cellByte, byteAt, bytesAt, Programmed, read_eq, write_eq, efuse_byte_access
-/
import Zsbl.Drivers.Efuse

namespace Zsbl.Drivers.Efuse

open Zsbl.Lib

/-! ## Registers -/

theorem mode_command (mode val : BitVec 32) :
    ((mode &&& 0xfffffffc#32) ||| (val &&& 0b11#32)) &&& 0b11#32 = val &&& 0b11#32 := by
  have apart : 0xfffffffc#32 &&& 0b11#32 = 0#32 := by decide
  rw [BitVec.and_or_distrib_right, BitVec.and_assoc, apart, BitVec.and_assoc, BitVec.and_zero,
    BitVec.and_self, BitVec.zero_or]

theorem adr_address (address bitI : BitVec 32) :
    (makeAdrVal address bitI).extractLsb' 0 8 = address.setWidth 8 := by
  have mask : ∀ i < 8, (255#32).getLsbD i = true := by decide
  apply BitVec.eq_of_getLsbD_eq
  intro i lt
  simp [makeAdrVal, NUM_ADDRESS_BITS, lt]
  exact fun _ => mask i lt

/-- The number of the bit is in the upper field of the address register. -/
theorem adr_bit (address bitI : BitVec 32) :
    (makeAdrVal address bitI).extractLsb' 8 5 = bitI.setWidth 5 := by
  have mask : (255#32).extractLsb' 8 5 = 0#5 := by decide
  have low : (31#32).setWidth 5 = BitVec.allOnes 5 := by decide
  have shifted (bits : BitVec 32) : (bits <<< 8).extractLsb' 8 5 = bits.setWidth 5 := by
    apply BitVec.eq_of_getLsbD_eq
    intro i lt
    have inside : 8 + i < 32 := by omega
    rw [BitVec.getLsbD_extractLsb', BitVec.getLsbD_shiftLeft, BitVec.getLsbD_setWidth,
      Nat.add_sub_cancel_left]
    simp [lt, inside]
  have bit : (makeAdrVal address bitI).extractLsb' 8 5 =
      address.extractLsb' 8 5 &&& (255#32).extractLsb' 8 5 |||
        bitI.setWidth 5 &&& (31#32).setWidth 5 := by
    rw [← BitVec.extractLsb'_and, ← BitVec.setWidth_and, ← shifted, ← BitVec.extractLsb'_or]
    rfl
  rw [bit, mask, low, BitVec.and_zero, BitVec.and_allOnes, BitVec.zero_or]

theorem embeddedRead_fst (dev : Efuse) (address : BitVec 32) :
    (dev.embeddedRead address).1 = dev.cells (address.setWidth 8) := by
  have bits : (0b10#32 : BitVec 32) &&& 0b11#32 = 0b10#32 := by decide
  simp [embeddedRead, modeReset, modeMdWrite, modeWaitReady, adr_address, bits]

/-- Reading leaves the fuses alone. -/
theorem embeddedRead_cells (dev : Efuse) (address : BitVec 32) :
    (dev.embeddedRead address).2.cells = dev.cells := by
  have bits : (0b10#32 : BitVec 32) &&& 0b11#32 = 0b10#32 := by decide
  simp [embeddedRead, modeReset, modeMdWrite, modeWaitReady, bits]

theorem setBit_cells (dev : Efuse) (address bitI : BitVec 32) :
    (dev.setBit address bitI).cells = Function.update dev.cells (address.setWidth 8)
      (dev.cells (address.setWidth 8) ||| BitVec.twoPow 32 (bitI.setWidth 5).toNat) := by
  have command := mode_command dev.mode 0b11#32
  rw [BitVec.and_self] at command
  simp [setBit, modeMdWrite, modeWaitReady, adr_address, adr_bit, command]

/-! ## Programming a cell -/

/-- The low bits of a number, one more at a time. -/
theorem lowBits_succ (val : BitVec 32) {n : Nat} (lt : n < 32) :
    (val.setWidth (n + 1)).setWidth 32 =
      (val.setWidth n).setWidth 32 ||| if val.getLsbD n then BitVec.twoPow 32 n else 0#32 := by
  apply BitVec.eq_of_getLsbD_eq
  intro i inside
  have new : (if val.getLsbD n then BitVec.twoPow 32 n else 0#32).getLsbD i =
      (decide (n = i) && val.getLsbD i) := by
    by_cases same : n = i
    · subst same
      cases bit : val.getLsbD n with
      | false => simp
      | true => simp [lt]
    · cases val.getLsbD n with
      | false => simp [same]
      | true => simp [BitVec.getLsbD_twoPow, same]
  have bound : decide (i < n + 1) = (decide (i < n) || decide (n = i)) := by
    rw [← Bool.decide_or]
    apply decide_eq_decide.mpr
    omega
  rw [BitVec.getLsbD_or, new, BitVec.getLsbD_setWidth, BitVec.getLsbD_setWidth,
    BitVec.getLsbD_setWidth, BitVec.getLsbD_setWidth, decide_eq_true inside, bound,
    Bool.and_or_distrib_right, Bool.true_and, Bool.true_and]

/-- `n` rounds of the loop program the `n` low bits. -/
theorem embeddedWrite_rounds (dev : Efuse) (address val : BitVec 32) {n : Nat} (le32 : n ≤ 32) :
    ((List.range n).foldl
      (fun dev i =>
        if (val >>> i) &&& 1#32 ≠ 0 then dev.setBit address (BitVec.ofNat 32 i) else dev)
      dev).cells = Function.update dev.cells (address.setWidth 8)
        (dev.cells (address.setWidth 8) ||| (val.setWidth n).setWidth 32) := by
  induction n with
  | zero =>
      have none : (val.setWidth 0).setWidth 32 = 0#32 := by
        rw [BitVec.eq_nil (val.setWidth 0)]
        rfl
      rw [none, BitVec.or_zero, Function.update_eq_self]
      rfl
  | succ n ih =>
      have lt : n < 32 := by omega
      have sameBit : ((BitVec.ofNat 32 n).setWidth 5).toNat = n := by
        rw [BitVec.toNat_setWidth, BitVec.toNat_ofNat, Nat.mod_eq_of_lt (by omega),
          Nat.mod_eq_of_lt (by omega)]
      have isSet : (val >>> n) &&& 1#32 ≠ 0 ↔ val.getLsbD n = true := by
        have low := BitVec.and_one_eq_setWidth_ofBool_getLsbD (x := val >>> n)
        rw [BitVec.getLsbD_ushiftRight, Nat.add_zero] at low
        rw [low]
        cases val.getLsbD n with
        | false => decide
        | true => decide
      rw [List.range_succ, List.foldl_append, List.foldl_cons, List.foldl_nil, lowBits_succ val lt]
      by_cases bit : val.getLsbD n = true
      · rw [if_pos (isSet.mpr bit), if_pos bit, setBit_cells, ih (Nat.le_of_lt lt), sameBit,
          Function.update_self, Function.update_idem, BitVec.or_assoc]
      · rw [if_neg (fun set => bit (isSet.mp set)), if_neg bit, ih (Nat.le_of_lt lt),
          BitVec.or_zero]

theorem embeddedWrite_cells (dev : Efuse) (address val : BitVec 32) :
    (dev.embeddedWrite address val).cells = Function.update dev.cells (address.setWidth 8)
      (dev.cells (address.setWidth 8) ||| val) := by
  have rounds := embeddedWrite_rounds dev address val (Nat.le_refl 32)
  rw [BitVec.setWidth_eq, BitVec.setWidth_eq] at rounds
  exact rounds

/-! ## The cells as bytes -/

def cellByte (cell : BitVec 32) (i : Nat) : UInt8 :=
  ⟨cell.extractLsb' (8 * i) 8⟩

/-- The little-endian byte view of the cells. -/
def byteAt (cells : BitVec 8 → BitVec 32) (i : Nat) : UInt8 :=
  cellByte (cells (BitVec.ofNat 8 (i / 4))) (i % 4)

def bytesAt (cells : BitVec 8 → BitVec 32) (off size : Nat) : List UInt8 :=
  (List.range size).map fun i => byteAt cells (off + i)

@[simp] theorem length_bytesAt (cells : BitVec 8 → BitVec 32) (off size : Nat) :
    (bytesAt cells off size).length = size := by
  simp [bytesAt]

theorem bytesAt_append (cells : BitVec 8 → BitVec 32) (off first second : Nat) :
    bytesAt cells off (first + second) =
      bytesAt cells off first ++ bytesAt cells (off + first) second := by
  simp only [bytesAt, List.range_add, List.map_append, List.map_map, Function.comp_def,
    Nat.add_assoc]

theorem cellByte_or (cell val : BitVec 32) (i : Nat) :
    cellByte (cell ||| val) i = cellByte cell i ||| cellByte val i := by
  unfold cellByte
  rw [BitVec.extractLsb'_or]
  rfl

/-- The bytes of a word in memory. -/
theorem leBytes_cell (cell : BitVec 32) :
    leBytes 4 cell.toNat = (List.range 4).map (cellByte cell) := by
  rw [leBytes_eq_map]
  apply List.map_congr_left
  intro i inside
  apply UInt8.toNat_inj.mp
  have weight : 256 ^ i = 2 ^ (8 * i) := by
    rw [Nat.pow_mul]
  simp [cellByte, weight, Nat.shiftRight_eq_div_pow]

/-- The bytes of a cell are those that were put together. -/
theorem cellByte_le {bytes : List UInt8} (isWord : bytes.length = 4) {i : Nat} (inside : i < 4) :
    bytes[i]? = some (cellByte (BitVec.ofNat 32 (le bytes)) i) := by
  have bound : le bytes < 256 ^ bytes.length := le_lt bytes
  have bound' : le bytes < 2 ^ 32 := by rwa [isWord] at bound
  have same := leBytes_cell (BitVec.ofNat 32 (le bytes))
  rw [BitVec.toNat_ofNat, Nat.mod_eq_of_lt bound', ← isWord, leBytes_le, isWord] at same
  calc bytes[i]?
      = ((List.range 4).map (cellByte (BitVec.ofNat 32 (le bytes))))[i]? := congrArg (·[i]?) same
    _ = some (cellByte (BitVec.ofNat 32 (le bytes)) i) := by simp [inside]

/-- The cell of an address register and the cell of a byte. -/
theorem cell_index (off : Nat) :
    (BitVec.ofNat 32 (off >>> 2)).setWidth 8 = BitVec.ofNat 8 (off / 4) := by
  rw [BitVec.setWidth_ofNat_of_le (by decide), Nat.shiftRight_eq_div_pow]

theorem drop_take_range {start size total : Nat} (inside : start + size ≤ total) :
    ((List.range total).drop start).take size = (List.range size).map (start + ·) := by
  have split : total = start + (size + (total - start - size)) := by omega
  rw [split, List.range_add, List.drop_left' List.length_range, List.range_add, List.map_append,
    List.take_left' (by rw [List.length_map, List.length_range])]

/-- A range inside one cell. -/
theorem bytesAt_cell (cells : BitVec 8 → BitVec 32) {off size : Nat}
    (inside : off % 4 + size ≤ 4) :
    bytesAt cells off size =
      (List.range size).map fun i => cellByte (cells (BitVec.ofNat 8 (off / 4))) (off % 4 + i) := by
  apply List.map_congr_left
  intro i isByte
  have lt := List.mem_range.mp isByte
  have sameCell : (off + i) / 4 = off / 4 := by omega
  have sameByte : (off + i) % 4 = off % 4 + i := by omega
  rw [byteAt, sameCell, sameByte]

theorem store_bytesAt (memory : Memory) (address : Nat) (cells : BitVec 8 → BitVec 32)
    (off first second : Nat) :
    store (store memory address (bytesAt cells off first)) (address + first)
        (bytesAt cells (off + first) second) =
      store memory address (bytesAt cells off (first + second)) := by
  have both := store_append memory address (bytesAt cells off first)
    (bytesAt cells (off + first) second)
  rwa [length_bytesAt, ← bytesAt_append] at both

/-! ## Reading -/

theorem Range.advance_advance (range : Range) (first second : Nat) :
    (range.advance first).advance second = range.advance (first + second) := by
  simp only [Range.advance, Nat.add_assoc, Nat.sub_sub]

variable {accessible : Nat → Bool}

/-- A part is in one cell; its bytes go to the destination. -/
theorem readPart_eq {start size : Nat} {range : Range} (isStart : range.off % 4 = start)
    (inside : start + size ≤ 4) (buffer : Readable accessible range.dst size) (dev : Efuse)
    (memory : Memory) :
    ∃ dev', dev'.cells = dev.cells ∧ readPart accessible start size range dev memory =
      some (dev', store memory range.dst (bytesAt dev.cells range.off size)) := by
  obtain rfl := isStart
  have tmp := dev.embeddedRead_fst (BitVec.ofNat 32 (range.off >>> 2))
  rw [cell_index] at tmp
  have part : slice (leBytes 4 (dev.cells (BitVec.ofNat 8 (range.off / 4))).toNat)
      (range.off % 4) size = some (bytesAt dev.cells range.off size) := by
    have fits : range.off % 4 + size ≤ ((List.range 4).map
        (cellByte (dev.cells (BitVec.ofNat 8 (range.off / 4))))).length := by
      rwa [List.length_map, List.length_range]
    rw [leBytes_cell, slice, if_pos fits, bytesAt_cell dev.cells inside, ← List.map_drop,
      ← List.map_take, drop_take_range inside, List.map_map]
    rfl
  refine ⟨_, dev.embeddedRead_cells (BitVec.ofNat 32 (range.off >>> 2)), ?_⟩
  simp [readPart, tmp, part, storeIf, buffer]

theorem and_three (off : Nat) : off &&& 0x03 = off % 4 :=
  Nat.and_two_pow_sub_one_eq_mod off 2

/-- The head ends where a cell does, or the range ends. -/
theorem headSize_spec (range : Range) :
    range.headSize ≤ range.left ∧ range.off % 4 + range.headSize ≤ 4 ∧
      ((range.off + range.headSize) % 4 = 0 ∨ range.headSize = range.left) := by
  unfold Range.headSize
  rw [and_three]
  split
  · omega
  · omega

/-- The head reads up to the next cell, or all there is. -/
theorem readHead_eq {range : Range} (buffer : Readable accessible range.dst range.left)
    (dev : Efuse) (memory : Memory) :
    ∃ size dev', size ≤ range.left ∧ ((range.off + size) % 4 = 0 ∨ size = range.left) ∧
      dev'.cells = dev.cells ∧ readHead accessible range dev memory =
        some (range.advance size, dev',
          store memory range.dst (bytesAt dev.cells range.off size)) := by
  unfold readHead
  rw [and_three]
  obtain ⟨inRange, inCell, atEnd⟩ := headSize_spec range
  by_cases aligned : range.off % 4 = 0
  · rw [if_neg (not_not_intro aligned)]
    refine ⟨0, dev, Nat.zero_le _, .inl aligned, rfl, ?_⟩
    rw [show bytesAt dev.cells range.off 0 = [] from rfl, store_nil]
    rfl
  · obtain ⟨dev', sameCells, done⟩ :=
      readPart_eq rfl inCell (fun i lt => buffer i (Nat.lt_of_lt_of_le lt inRange)) dev memory
    refine ⟨range.headSize, dev', inRange, atEnd, sameCells, ?_⟩
    rw [if_pos aligned]
    simp [done]

/-- Each round of the body reads a whole cell. -/
theorem readBody_eq (rounds : Nat) {range : Range} (aligned : range.off % 4 = 0 ∨ rounds = 0)
    (buffer : Readable accessible range.dst (4 * rounds)) (dev : Efuse) (memory : Memory) :
    ∃ dev', dev'.cells = dev.cells ∧ readBody accessible rounds range dev memory =
      some (range.advance (4 * rounds), dev',
        store memory range.dst (bytesAt dev.cells range.off (4 * rounds))) := by
  induction rounds generalizing range dev memory with
  | zero =>
      refine ⟨dev, rfl, ?_⟩
      rw [show bytesAt dev.cells range.off (4 * 0) = [] from rfl, store_nil]
      rfl
  | succ rounds ih =>
      have isStart : range.off % 4 = 0 := by omega
      have size : 4 * (rounds + 1) = 4 + 4 * rounds := by omega
      rw [size] at buffer ⊢
      obtain ⟨first, rest⟩ := (readable_append accessible range.dst 4 (4 * rounds)).mp buffer
      obtain ⟨dev₁, cells₁, done₁⟩ := readPart_eq isStart (Nat.le_refl 4) first dev memory
      have next : (range.advance 4).off % 4 = 0 := by
        show (range.off + 4) % 4 = 0
        omega
      obtain ⟨dev₂, cells₂, done₂⟩ := @ih (range.advance 4) (.inl next) rest dev₁
        (store memory range.dst (bytesAt dev.cells range.off 4))
      refine ⟨dev₂, cells₂.trans cells₁, ?_⟩
      rw [cells₁] at done₂
      rw [← store_bytesAt, ← Range.advance_advance]
      simp only [readBody, done₁, Option.bind_eq_bind, Option.bind_some]
      exact done₂

/-- The tail reads what is left, less than a cell. -/
theorem readTail_eq {range : Range} (aligned : range.off % 4 = 0 ∨ range.left = 0)
    (short : range.left < 4) (buffer : Readable accessible range.dst range.left) (dev : Efuse)
    (memory : Memory) :
    ∃ dev', dev'.cells = dev.cells ∧ readTail accessible range dev memory =
      some (dev', store memory range.dst (bytesAt dev.cells range.off range.left)) := by
  unfold readTail
  by_cases done : range.left = 0
  · rw [if_neg (not_not_intro done), done, show bytesAt dev.cells range.off 0 = [] from rfl,
      store_nil]
    exact ⟨dev, rfl, rfl⟩
  · rw [if_pos done]
    have isStart : range.off % 4 = 0 := by omega
    exact readPart_eq isStart (by omega) buffer dev memory

/-- The head, the cells and the tail make up the range. -/
theorem range_parts {head count : Nat} (inRange : head ≤ count) :
    ∃ body tail, (count - head) >>> 2 = body ∧ count - head - 4 * body = tail ∧ tail < 4 ∧
      count = head + (4 * body + tail) ∧ (head = count → body = 0 ∧ tail = 0) := by
  refine ⟨(count - head) / 4, (count - head) % 4, Nat.shiftRight_eq_div_pow _ 2, ?_⟩
  omega

/-- What `efuse_read` stores, and that it touches no other memory. -/
theorem read_eq (dev : Efuse) (memory : Memory) (off : Nat) {count val : Nat}
    (buffer : Readable accessible val count) :
    ∃ dev', dev'.cells = dev.cells ∧ read accessible dev memory off count val =
      some (count, dev', store memory val (bytesAt dev.cells off count)) := by
  obtain ⟨head, dev₁, inRange, aligned, cells₁, done₁⟩ :=
    @readHead_eq accessible { dst := val, off, left := count } buffer dev memory
  dsimp only at inRange aligned
  obtain ⟨body, tail, isBody, isTail, short, parts, all⟩ := range_parts inRange
  have buffers : Readable accessible val (head + (4 * body + tail)) := by rwa [← parts]
  rw [readable_append, readable_append] at buffers
  obtain ⟨-, bodyBuffer, tailBuffer⟩ := buffers
  obtain ⟨dev₂, cells₂, done₂⟩ :=
    @readBody_eq accessible body { dst := val + head, off := off + head, left := count - head }
      (by dsimp only; omega) bodyBuffer dev₁ (store memory val (bytesAt dev.cells off head))
  obtain ⟨dev₃, cells₃, done₃⟩ :=
    @readTail_eq accessible
      { dst := val + head + 4 * body, off := off + head + 4 * body, left := tail }
      (by dsimp only; omega) short tailBuffer dev₂
      (store memory val (bytesAt dev.cells off (head + 4 * body)))
  refine ⟨dev₃, cells₃.trans (cells₂.trans cells₁), ?_⟩
  rw [cells₁] at done₂
  rw [cells₂, cells₁] at done₃
  dsimp only at done₂ done₃
  rw [store_bytesAt] at done₂
  rw [Nat.add_assoc, Nat.add_assoc, store_bytesAt, Nat.add_assoc, ← parts] at done₃
  simp [read, done₁, Range.advance, isBody, done₂, isTail, done₃, Nat.add_assoc]

/-! ## Writing -/

/-- Bytes are programmed from an offset on: they are added to those of the array, whose
other bytes stay. -/
def Programmed (cells : BitVec 8 → BitVec 32) (off : Nat) (bytes : List UInt8)
    (cells' : BitVec 8 → BitVec 32) : Prop :=
  ∀ i < 1024, byteAt cells' i = byteAt cells i ||| (storedAt (off, bytes) i).getD 0

theorem programmed_nil (cells : BitVec 8 → BitVec 32) (off : Nat) :
    Programmed cells off [] cells := by
  intro i _
  simp [storedAt]

/-- Bytes written in two parts are written. -/
theorem Programmed.append {cells cells₁ cells₂ : BitVec 8 → BitVec 32} {off : Nat}
    {first second : List UInt8} (one : Programmed cells off first cells₁)
    (two : Programmed cells₁ (off + first.length) second cells₂) :
    Programmed cells off (first ++ second) cells₂ := by
  intro i inArray
  rw [two i inArray, one i inArray, storedAt_append, UInt8.or_assoc]
  cases inFirst : storedAt (off, first) i with
  | none => simp
  | some byte =>
      have notSecond : storedAt (off + first.length, second) i = none := by
        have bound := (storedAt_isSome (off, first) i).mp (by rw [inFirst]; rfl)
        apply storedAt_eq_none.mpr
        exact .inl bound.2
      simp [notSecond]

/-- The word that programs a part of a cell. -/
theorem part_word {start : Nat} {bytes : List UInt8} (inside : start + bytes.length ≤ 4) {k : Nat}
    (isByte : k < 4) :
    cellByte (BitVec.ofNat 32 (le (overwrite (leBytes 4 0) start bytes))) k =
      (storedAt (start, bytes) k).getD 0 := by
  have isWord : (overwrite (leBytes 4 0) start bytes).length = 4 := by
    rw [length_overwrite (by rwa [length_leBytes]), length_leBytes]
  have byte := cellByte_le isWord isByte
  rw [getElem?_overwrite (by rwa [length_leBytes])] at byte
  have zeros : leBytes 4 0 = List.replicate 4 0 := by decide
  have zero : (leBytes 4 0)[k]? = some 0 := by
    rw [zeros, List.getElem?_replicate_of_lt isByte]
  unfold storedAt
  dsimp only
  by_cases part : start ≤ k ∧ k < start + bytes.length
  · rw [if_pos part] at byte
    rw [if_pos part.1, byte]
    rfl
  · rw [if_neg part, zero] at byte
    rw [← Option.some.inj byte]
    by_cases behind : start ≤ k
    · rw [if_pos behind, List.getElem?_eq_none (by omega)]
      rfl
    · rw [if_neg behind]
      rfl

/-- A part of a cell is written without touching its other bytes. -/
theorem writePart_eq {memory : Memory} {start size : Nat} {range : Range}
    (isStart : range.off % 4 = start) (inside : start + size ≤ 4) (inArray : range.off < 1024)
    (buffer : Readable accessible range.dst size) (dev : Efuse) :
    ∃ dev', Programmed dev.cells range.off (fetch memory range.dst size) dev'.cells ∧
      writePart accessible memory start size range dev = some dev' := by
  obtain rfl := isStart
  generalize isBytes : fetch memory range.dst size = bytes
  have length : bytes.length = size := by rw [← isBytes, length_fetch]
  have inside' : range.off % 4 + bytes.length ≤ 4 := by rwa [length]
  refine ⟨_, ?_, by rw [writePart, fetchIf, if_pos buffer, isBytes]; rfl⟩
  intro i isByte
  rw [embeddedWrite_cells, cell_index]
  by_cases sameCell : i / 4 = range.off / 4
  · have word := part_word inside' (Nat.mod_lt i (by decide : 0 < 4))
    have shifted : storedAt (range.off % 4, bytes) (i % 4) = storedAt (range.off, bytes) i := by
      have order : range.off % 4 ≤ i % 4 ↔ range.off ≤ i := by omega
      have index : i % 4 - range.off % 4 = i - range.off := by omega
      rw [storedAt, storedAt]
      dsimp only
      rw [index, if_congr order rfl rfl]
    rw [byteAt, byteAt, sameCell, Function.update_self, cellByte_or, word, shifted]
  · have otherCell : BitVec.ofNat 8 (i / 4) ≠ BitVec.ofNat 8 (range.off / 4) := by
      intro same
      have index := congrArg BitVec.toNat same
      rw [BitVec.toNat_ofNat, BitVec.toNat_ofNat] at index
      omega
    have outside : storedAt (range.off, bytes) i = none := by
      apply storedAt_eq_none.mpr
      dsimp only
      omega
    rw [byteAt, byteAt, Function.update_of_ne otherCell, outside]
    simp

/-- The head writes up to the next cell, or all there is. -/
theorem writeHead_eq {memory : Memory} {range : Range} (inArray : range.off + range.left ≤ 1024)
    (buffer : Readable accessible range.dst range.left) (dev : Efuse) :
    ∃ size dev', size ≤ range.left ∧ ((range.off + size) % 4 = 0 ∨ size = range.left) ∧
      Programmed dev.cells range.off (fetch memory range.dst size) dev'.cells ∧
        writeHead accessible memory range dev = some (range.advance size, dev') := by
  unfold writeHead
  rw [and_three]
  obtain ⟨inRange, inCell, atEnd⟩ := headSize_spec range
  by_cases aligned : range.off % 4 = 0
  · rw [if_neg (not_not_intro aligned)]
    exact ⟨0, dev, Nat.zero_le _, .inl aligned, programmed_nil _ _, rfl⟩
  · have isByte : range.off < 1024 := by omega
    obtain ⟨dev', programmed, done⟩ := @writePart_eq _ memory _ _ range rfl inCell isByte
      (fun i lt => buffer i (Nat.lt_of_lt_of_le lt inRange)) dev
    refine ⟨range.headSize, dev', inRange, atEnd, programmed, ?_⟩
    rw [if_pos aligned]
    simp [done]

/-- Each round of the body writes a whole cell. -/
theorem writeBody_eq {memory : Memory} (rounds : Nat) {range : Range}
    (aligned : range.off % 4 = 0 ∨ rounds = 0) (inArray : range.off + 4 * rounds ≤ 1024)
    (buffer : Readable accessible range.dst (4 * rounds)) (dev : Efuse) :
    ∃ dev', Programmed dev.cells range.off (fetch memory range.dst (4 * rounds)) dev'.cells ∧
      writeBody accessible memory rounds range dev =
        some (range.advance (4 * rounds), dev') := by
  induction rounds generalizing range dev with
  | zero => exact ⟨dev, programmed_nil _ _, rfl⟩
  | succ rounds ih =>
      have isStart : range.off % 4 = 0 := by omega
      have isByte : range.off < 1024 := by omega
      have size : 4 * (rounds + 1) = 4 + 4 * rounds := by omega
      rw [size] at buffer ⊢
      obtain ⟨first, rest⟩ := (readable_append accessible range.dst 4 (4 * rounds)).mp buffer
      obtain ⟨dev₁, one, done₁⟩ :=
        @writePart_eq _ memory _ _ range isStart (Nat.le_refl 4) isByte first dev
      obtain ⟨dev₂, two, done₂⟩ := @ih (range.advance 4)
        (by dsimp only [Range.advance]; omega) (by dsimp only [Range.advance]; omega) rest dev₁
      refine ⟨dev₂, ?_, ?_⟩
      · rw [fetch_append]
        apply one.append
        rwa [length_fetch]
      · rw [← Range.advance_advance]
        simp only [writeBody, done₁, Option.bind_eq_bind, Option.bind_some]
        exact done₂

/-- The tail writes what is left, less than a cell. -/
theorem writeTail_eq {memory : Memory} {range : Range}
    (aligned : range.off % 4 = 0 ∨ range.left = 0) (short : range.left < 4)
    (inArray : range.off + range.left ≤ 1024)
    (buffer : Readable accessible range.dst range.left) (dev : Efuse) :
    ∃ dev', Programmed dev.cells range.off (fetch memory range.dst range.left) dev'.cells ∧
      writeTail accessible memory range dev = some dev' := by
  unfold writeTail
  by_cases done : range.left = 0
  · rw [if_neg (not_not_intro done), done]
    exact ⟨dev, programmed_nil _ _, rfl⟩
  · rw [if_pos done]
    have isStart : range.off % 4 = 0 := by omega
    exact writePart_eq isStart (by omega) (by omega) buffer dev

/-- What `efuse_write` programs, and that it touches no other memory. -/
theorem write_eq (dev : Efuse) (memory : Memory) {off count val : Nat}
    (inArray : off + count ≤ 1024) (buffer : Readable accessible val count) :
    ∃ dev', Programmed dev.cells off (fetch memory val count) dev'.cells ∧
      write accessible dev memory off count val = some (count, dev') := by
  obtain ⟨head, dev₁, inRange, aligned, one, done₁⟩ :=
    @writeHead_eq accessible memory { dst := val, off, left := count } inArray buffer dev
  dsimp only at inRange aligned one
  obtain ⟨body, tail, isBody, isTail, short, parts, all⟩ := range_parts inRange
  have buffers : Readable accessible val (head + (4 * body + tail)) := by rwa [← parts]
  rw [readable_append, readable_append] at buffers
  obtain ⟨-, bodyBuffer, tailBuffer⟩ := buffers
  obtain ⟨dev₂, two, done₂⟩ := @writeBody_eq accessible memory body
    { dst := val + head, off := off + head, left := count - head } (by dsimp only; omega)
    (by dsimp only; omega) bodyBuffer dev₁
  obtain ⟨dev₃, three, done₃⟩ := @writeTail_eq accessible memory
    { dst := val + head + 4 * body, off := off + head + 4 * body, left := tail }
    (by dsimp only; omega) short (by dsimp only; omega) tailBuffer dev₂
  refine ⟨dev₃, ?_, ?_⟩
  · rw [parts, fetch_append, fetch_append]
    apply one.append
    apply Programmed.append
    · rwa [length_fetch]
    · rwa [length_fetch, length_fetch]
  · simp [write, done₁, Range.advance, isBody, done₂, isTail, done₃]

/-! ## The law -/

theorem store_bytesAt_apply (memory : Memory) (val : Nat) (cells : BitVec 8 → BitVec 32)
    (off : Nat) {count i : Nat} (inside : i < count) :
    store memory val (bytesAt cells off count) (val + i) = byteAt cells (off + i) := by
  simp [store, bytesAt, inside]

/-- Bytes in the range are added to, the others stay. -/
theorem Programmed.byteAt_eq {cells cells' : BitVec 8 → BitVec 32} {off count val : Nat}
    {memory : Memory} (programmed : Programmed cells off (fetch memory val count) cells') {i : Nat}
    (inArray : i < 1024) :
    byteAt cells' i =
      if off ≤ i ∧ i < off + count then byteAt cells i ||| memory (val + (i - off))
      else byteAt cells i := by
  rw [programmed i inArray]
  by_cases written : off ≤ i ∧ i < off + count
  · have inRange : i - off < count := by omega
    rw [if_pos written]
    simp [storedAt, written.1, fetch, inRange]
  · have outside : storedAt (off, fetch memory val count) i = none := by
      apply storedAt_eq_none.mpr
      rw [length_fetch]
      omega
    rw [if_neg written, outside]
    simp

/-- For every alignment and length of a range in the array, `efuse_read` yields the bytes of
the cells, and a range that is read behind `efuse_write` holds the old bytes, with those
that were written added. The accessible addresses may be those of the buffer alone. -/
theorem efuse_byte_access (accessible : Nat → Bool) (dev : Efuse) (memory : Memory)
    {off count val : Nat} (inArray : off + count ≤ 1024)
    (buffer : Readable accessible val count) :
    (∃ dev' memory', read accessible dev memory off count val = some (count, dev', memory') ∧
      dev'.cells = dev.cells ∧
      (∀ i < count, memory' (val + i) = byteAt dev.cells (off + i)) ∧
      ∀ at', at' < val ∨ val + count ≤ at' → memory' at' = memory at') ∧
    ∃ dev', write accessible dev memory off count val = some (count, dev') ∧
      ∀ (readable : Nat → Bool) (before : Memory) (start size buf : Nat), start + size ≤ 1024 →
        Readable readable buf size →
        ∃ dev'' after, read readable dev' before start size buf = some (size, dev'', after) ∧
          (∀ i < size, after (buf + i) =
            if off ≤ start + i ∧ start + i < off + count then
              byteAt dev.cells (start + i) ||| memory (val + (start + i - off))
            else
              byteAt dev.cells (start + i)) ∧
          ∀ at', at' < buf ∨ buf + size ≤ at' → after at' = before at' := by
  have frame (kept : Memory) (cells : BitVec 8 → BitVec 32) (first size address : Nat) :
      ∀ at', at' < address ∨ address + size ≤ at' →
        store kept address (bytesAt cells first size) at' = kept at' := by
    intro at' outside
    apply store_outside
    rwa [length_bytesAt]
  constructor
  · obtain ⟨dev', sameCells, done⟩ := read_eq dev memory off buffer
    exact ⟨dev', _, done, sameCells,
      fun i inside => store_bytesAt_apply memory val dev.cells off inside, frame _ _ _ _ _⟩
  · obtain ⟨dev', programmed, done⟩ := write_eq dev memory inArray buffer
    refine ⟨dev', done, ?_⟩
    intro readable before start size buf inArray' buffer'
    obtain ⟨dev'', -, done'⟩ := read_eq dev' before start buffer'
    refine ⟨dev'', _, done', ?_, frame _ _ _ _ _⟩
    intro i inside
    rw [store_bytesAt_apply before buf dev'.cells start inside]
    exact programmed.byteAt_eq (by omega)

/-- The addresses of one buffer. -/
def within (val count : Nat) : Nat → Bool := fun at' => decide (val ≤ at' ∧ at' < val + count)

theorem readable_within (val count : Nat) : Readable (within val count) val count := by
  intro i inside
  apply decide_eq_true
  omega

/-- Two bytes are written across a boundary of two cells, each with a fuse set. -/
theorem efuse_byte_access_acrossCells :
    ∃ dev' dev'' after,
      write (within 100 2) { cells := fun _ => 0x01000080#32, adr := 0, mode := 0, rdData := 0 }
        (store (fun _ => 0) 100 [0x0e, 0x7f]) 3 2 100 = some (2, dev') ∧
      read (within 200 4) dev' (fun _ => 0) 2 4 200 = some (4, dev'', after) ∧
      after 200 = 0 ∧ after 201 = 0x0f ∧ after 202 = 0xff ∧ after 203 = 0 := by
  obtain ⟨-, dev', written, reads⟩ := efuse_byte_access (within 100 2)
    { cells := fun _ => 0x01000080#32, adr := 0, mode := 0, rdData := 0 }
    (store (fun _ => 0) 100 [0x0e, 0x7f]) (by decide : 3 + 2 ≤ 1024) (readable_within 100 2)
  obtain ⟨dev'', after, done, bytes, -⟩ :=
    reads (within 200 4) (fun _ => 0) 2 4 200 (by decide) (readable_within 200 4)
  refine ⟨dev', dev'', after, written, done, ?_⟩
  exact ⟨(bytes 0 (by decide)).trans (by decide), (bytes 1 (by decide)).trans (by decide),
    (bytes 2 (by decide)).trans (by decide), (bytes 3 (by decide)).trans (by decide)⟩

/-- The device that the other drivers see. -/
def nvmem (dev : Efuse) (name aliasName : String) : Nvmem :=
  { name, aliasName, cells := fun address => dev.cells (BitVec.ofNat 8 address) }

end Zsbl.Drivers.Efuse
