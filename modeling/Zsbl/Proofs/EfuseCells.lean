/-
Module: Zsbl.Proofs.EfuseCells
Purpose: Which cells of the fuses an access through the nvmem interface reads or programs.
Trusted boundary: none
Main exports:
  Touches, read_touches, write_touches, InArray, Concerned, NeverAliases, efuse_never_aliases
-/
import Zsbl.Proofs.Efuse
import Zsbl.Plat.Sg2044

namespace Zsbl.Drivers.Efuse

open Zsbl.Lib

/-! ## Cells that are touched -/

/-- The cells that were read or programmed in between are among some. -/
def Touches (among : BitVec 8 → Prop) (before after : Efuse) : Prop :=
  ∃ cells, after.touched = before.touched ++ cells ∧ ∀ cell ∈ cells, among cell

variable {among : BitVec 8 → Prop} {dev dev' dev'' : Efuse}

theorem Touches.refl (dev : Efuse) : Touches among dev dev :=
  ⟨[], (List.append_nil _).symm, by simp⟩

/-- Two steps that touch only these cells. -/
theorem Touches.trans (first : Touches among dev dev') (second : Touches among dev' dev'') :
    Touches among dev dev'' := by
  obtain ⟨cells, added, all⟩ := first
  obtain ⟨cells', added', all'⟩ := second
  refine ⟨cells ++ cells', by rw [added', added, List.append_assoc], ?_⟩
  intro cell member
  rcases List.mem_append.mp member with isFirst | isSecond
  · exact all cell isFirst
  · exact all' cell isSecond

theorem embeddedRead_touched (dev : Efuse) (address : BitVec 32) :
    (dev.embeddedRead address).2.touched = dev.touched ++ [address.setWidth 8] := by
  have bits : (0b10#32 : BitVec 32) &&& 0b11#32 = 0b10#32 := by decide
  simp [embeddedRead, modeReset, modeMdWrite, modeWaitReady, adr_address, bits]

theorem setBit_touched (dev : Efuse) (address bitI : BitVec 32) :
    (dev.setBit address bitI).touched = dev.touched ++ [address.setWidth 8] := by
  have command := mode_command dev.mode 0b11#32
  rw [BitVec.and_self] at command
  simp [setBit, modeMdWrite, modeWaitReady, adr_address, command]

/-- A write touches the one cell that its address leaves. -/
theorem embeddedWrite_touches (dev : Efuse) {address : BitVec 32} (val : BitVec 32)
    (inside : among (address.setWidth 8)) : Touches among dev (dev.embeddedWrite address val) := by
  unfold embeddedWrite
  generalize List.range 32 = bits
  induction bits generalizing dev with
  | nil => exact .refl dev
  | cons i rest ih =>
      rw [List.foldl_cons]
      split
      · have one : Touches among dev (dev.setBit address (BitVec.ofNat 32 i)) :=
          ⟨[address.setWidth 8], setBit_touched _ _ _, by simpa using inside⟩
        exact one.trans (ih _)
      · exact ih dev

/-! ## Parts of a range -/

/-- The cells of the bytes of a range. -/
def Range.Inside (among : BitVec 8 → Prop) (range : Range) : Prop :=
  ∀ i, range.off ≤ i → i < range.off + range.left → among (BitVec.ofNat 8 (i / 4))

variable {accessible : Nat → Bool} {memory memory' : Memory} {range range' : Range}

theorem Range.Inside.first (inside : range.Inside among) (more : 0 < range.left) :
    among (BitVec.ofNat 8 (range.off / 4)) :=
  inside range.off (Nat.le_refl _) (Nat.lt_add_of_pos_right more)

theorem Range.Inside.advance (inside : range.Inside among) {size : Nat} (fits : size ≤ range.left) :
    (range.advance size).Inside among := by
  intro i from' below
  dsimp only [Range.advance] at from' below
  exact inside i (by omega) (by omega)

/-- Reading a part touches its cell. -/
theorem readPart_touches {start size : Nat} (inside : among (BitVec.ofNat 8 (range.off / 4)))
    (done : readPart accessible start size range dev memory = some (dev', memory')) :
    Touches among dev dev' := by
  have touched := dev.embeddedRead_touched (BitVec.ofNat 32 (range.off >>> 2))
  unfold readPart at done
  obtain ⟨bytes, -, done⟩ := Option.bind_eq_some_iff.mp done
  obtain ⟨stored, -, done⟩ := Option.bind_eq_some_iff.mp done
  cases done
  rw [cell_index] at touched
  exact ⟨_, touched, by simpa using inside⟩

/-- The head touches the cell in which it begins. -/
theorem readHead_touches (inside : range.Inside among) (some' : 0 < range.left ∨ range.off % 4 = 0)
    (done : readHead accessible range dev memory = some (range', dev', memory')) :
    Touches among dev dev' ∧ ∃ size ≤ range.left, range' = range.advance size := by
  unfold readHead at done
  rw [and_three] at done
  obtain ⟨inRange, -⟩ := headSize_spec range
  split at done
  · next unaligned =>
    have more : 0 < range.left := some'.resolve_right unaligned
    obtain ⟨⟨dev₁, memory₁⟩, part, done⟩ := Option.bind_eq_some_iff.mp done
    cases done
    exact ⟨readPart_touches (inside.first more) part, _, inRange, rfl⟩
  · cases done
    exact ⟨.refl _, 0, Nat.zero_le _, rfl⟩

/-- The body touches the cells of its rounds. -/
theorem readBody_touches (rounds : Nat) (inside : range.Inside among)
    (fits : 4 * rounds ≤ range.left)
    (done : readBody accessible rounds range dev memory = some (range', dev', memory')) :
    Touches among dev dev' ∧ range' = range.advance (4 * rounds) := by
  induction rounds generalizing range dev memory with
  | zero =>
      cases done
      exact ⟨.refl _, rfl⟩
  | succ rounds ih =>
      obtain ⟨⟨dev₁, memory₁⟩, part, done⟩ := Option.bind_eq_some_iff.mp done
      have one := readPart_touches (inside.first (by omega)) part
      obtain ⟨rest, isEnd⟩ := ih (inside.advance (by omega))
        (by dsimp only [Range.advance]; omega) done
      refine ⟨one.trans rest, ?_⟩
      rw [isEnd, Range.advance_advance]
      congr 1
      omega

theorem readTail_touches (inside : range.Inside among)
    (done : readTail accessible range dev memory = some (dev', memory')) :
    Touches among dev dev' := by
  unfold readTail at done
  split at done
  · next more => exact readPart_touches (inside.first (Nat.pos_of_ne_zero more)) done
  · cases done
    exact .refl _

theorem four_shiftRight_le (left : Nat) : 4 * (left >>> 2) ≤ left := by
  rw [Nat.shiftRight_eq_div_pow]
  omega

/-- `efuse_read` reads the cells of its range, and no other ones unless the range is
empty. -/
theorem read_touches {off count val ret : Nat}
    (inside : ∀ i, off ≤ i → i < off + count → among (BitVec.ofNat 8 (i / 4)))
    (some' : 0 < count ∨ off % 4 = 0)
    (done : read accessible dev memory off count val = some (ret, dev', memory')) :
    Touches among dev dev' := by
  unfold read at done
  obtain ⟨⟨range₁, dev₁, memory₁⟩, head, done⟩ := Option.bind_eq_some_iff.mp done
  obtain ⟨⟨range₂, dev₂, memory₂⟩, body, done⟩ := Option.bind_eq_some_iff.mp done
  obtain ⟨⟨dev₃, memory₃⟩, tail, done⟩ := Option.bind_eq_some_iff.mp done
  cases done
  have whole : Range.Inside among ⟨val, off, count⟩ := inside
  obtain ⟨first, size, fits, rfl⟩ := readHead_touches whole some' head
  have behindHead := whole.advance fits
  obtain ⟨second, rfl⟩ := readBody_touches _ behindHead (four_shiftRight_le _) body
  have third := readTail_touches (behindHead.advance (four_shiftRight_le _)) tail
  exact first.trans (second.trans third)

theorem writePart_touches {start size : Nat} (inside : among (BitVec.ofNat 8 (range.off / 4)))
    (done : writePart accessible memory start size range dev = some dev') :
    Touches among dev dev' := by
  unfold writePart at done
  obtain ⟨bytes, -, done⟩ := Option.bind_eq_some_iff.mp done
  cases done
  apply embeddedWrite_touches
  rwa [cell_index]

/-- The head of a write touches the cell in which it begins. -/
theorem writeHead_touches (inside : range.Inside among)
    (some' : 0 < range.left ∨ range.off % 4 = 0)
    (done : writeHead accessible memory range dev = some (range', dev')) :
    Touches among dev dev' ∧ ∃ size ≤ range.left, range' = range.advance size := by
  unfold writeHead at done
  rw [and_three] at done
  obtain ⟨inRange, -⟩ := headSize_spec range
  split at done
  · next unaligned =>
    have more : 0 < range.left := some'.resolve_right unaligned
    obtain ⟨dev₁, part, done⟩ := Option.bind_eq_some_iff.mp done
    cases done
    exact ⟨writePart_touches (inside.first more) part, _, inRange, rfl⟩
  · cases done
    exact ⟨.refl _, 0, Nat.zero_le _, rfl⟩

/-- The body of a write touches the cells of its rounds. -/
theorem writeBody_touches (rounds : Nat) (inside : range.Inside among)
    (fits : 4 * rounds ≤ range.left)
    (done : writeBody accessible memory rounds range dev = some (range', dev')) :
    Touches among dev dev' ∧ range' = range.advance (4 * rounds) := by
  induction rounds generalizing range dev with
  | zero =>
      cases done
      exact ⟨.refl _, rfl⟩
  | succ rounds ih =>
      obtain ⟨dev₁, part, done⟩ := Option.bind_eq_some_iff.mp done
      have one := writePart_touches (inside.first (by omega)) part
      obtain ⟨rest, isEnd⟩ := ih (inside.advance (by omega))
        (by dsimp only [Range.advance]; omega) done
      refine ⟨one.trans rest, ?_⟩
      rw [isEnd, Range.advance_advance]
      congr 1
      omega

theorem writeTail_touches (inside : range.Inside among)
    (done : writeTail accessible memory range dev = some dev') : Touches among dev dev' := by
  unfold writeTail at done
  split at done
  · next more => exact writePart_touches (inside.first (Nat.pos_of_ne_zero more)) done
  · cases done
    exact .refl _

/-- `efuse_write` programs the cells of its range only. -/
theorem write_touches {off count val ret : Nat}
    (inside : ∀ i, off ≤ i → i < off + count → among (BitVec.ofNat 8 (i / 4)))
    (some' : 0 < count ∨ off % 4 = 0)
    (done : write accessible dev memory off count val = some (ret, dev')) :
    Touches among dev dev' := by
  unfold write at done
  obtain ⟨⟨range₁, dev₁⟩, head, done⟩ := Option.bind_eq_some_iff.mp done
  obtain ⟨⟨range₂, dev₂⟩, body, done⟩ := Option.bind_eq_some_iff.mp done
  obtain ⟨dev₃, tail, done⟩ := Option.bind_eq_some_iff.mp done
  cases done
  have whole : Range.Inside among ⟨val, off, count⟩ := inside
  obtain ⟨first, size, fits, rfl⟩ := writeHead_touches whole some' head
  have behindHead := whole.advance fits
  obtain ⟨second, rfl⟩ := writeBody_touches _ behindHead (four_shiftRight_le _) body
  have third := writeTail_touches (behindHead.advance (four_shiftRight_le _)) tail
  exact first.trans (second.trans third)

/-- Nothing is programmed for no bytes. -/
theorem writePart_empty (start : Nat) :
    writePart accessible memory start 0 range dev = some dev := by
  have none : fetchIf accessible memory range.dst 0 = some [] :=
    if_pos fun i inside => absurd inside (Nat.not_lt_zero i)
  have zero : BitVec.ofNat 32 (le (overwrite (leBytes 4 0) start [])) = 0 := by
    rw [overwrite_nil]
    rfl
  have rest (bits : List Nat) (address : BitVec 32) : bits.foldl
      (fun dev i =>
        if ((0 : BitVec 32) >>> i) &&& 1#32 ≠ 0 then dev.setBit address (BitVec.ofNat 32 i)
        else dev) dev = dev := by
    simp
  simp only [writePart, none, Option.bind_eq_bind, Option.bind_some, zero, embeddedWrite, rest]

/-- Writing no bytes touches no cell. -/
theorem write_empty (off val : Nat) : write accessible dev memory off 0 val = some (0, dev) := by
  have size : Range.headSize ⟨val, off, 0⟩ = 0 :=
    Nat.eq_zero_of_le_zero (headSize_spec ⟨val, off, 0⟩).1
  have head : writeHead accessible memory ⟨val, off, 0⟩ dev = some (⟨val, off, 0⟩, dev) := by
    unfold writeHead
    split
    · simp [size, writePart_empty, Range.advance]
    · rfl
  simp [write, head, writeBody, writeTail]

/-! ## Accesses through the interface -/

/-- Every byte of the range is in the array. -/
def InArray (offset size : BitVec 64) : Prop :=
  ∀ i < size.toNat, (offset.toNat + i) / 4 < cellCount

/-- The cell holds a byte of the range. -/
def Concerned (offset size : BitVec 64) (cell : BitVec 8) : Prop :=
  ∃ i < size.toNat, (offset.toNat + i) / 4 = cell.toNat

/-- The access comes to an end, succeeds only inside of the array, and reads and programs
no cells but those of its range. -/
def NeverAliases (offset size : BitVec 64) (dev : Efuse)
    (result : Option (BitVec 64 × Efuse)) : Prop :=
  ∃ ret dev', result = some (ret, dev') ∧ (ret = size → InArray offset size) ∧
    Touches (Concerned offset size) dev dev'

/-- `nvmem_read` for every memory, buffer and state of the device. -/
def ReadNeverAliases (offset size : BitVec 64) : Prop :=
  ∀ accessible dev memory buf, Readable accessible buf size.toNat →
    NeverAliases offset size dev ((nvmemRead accessible dev memory offset size buf).map
      fun result => (result.1, result.2.1))

def WriteNeverAliases (offset size : BitVec 64) : Prop :=
  ∀ accessible dev memory buf, Readable accessible buf size.toNat →
    NeverAliases offset size dev (nvmemWrite accessible dev memory offset size buf)

variable {offset size : BitVec 64}

/-- Some bytes are in the array exactly if their end is. -/
theorem inArray_iff (more : size ≠ 0) :
    InArray offset size ↔ offset.toNat + size.toNat ≤ 1024 := by
  have positive : size.toNat ≠ 0 := fun none => more (BitVec.eq_of_toNat_eq none)
  unfold InArray cellCount
  constructor
  · intro inside
    have last := inside (size.toNat - 1) (by omega)
    omega
  · intro inside i below
    omega

/-- The `int` of a size in the array. -/
theorem left_eq (inside : size.toNat ≤ 1024) : (size.setWidth 32).toInt = size.toNat := by
  have same : (size.setWidth 32).toNat = size.toNat := by
    rw [BitVec.toNat_setWidth]
    omega
  rw [BitVec.toInt_eq_toNat_of_lt (by omega), same]

/-- An empty range that does not start at a cell makes the driver read one. -/
theorem read_empty_touched {off val ret : Nat} (unaligned : off % 4 ≠ 0)
    (done : read accessible dev memory off 0 val = some (ret, dev', memory')) :
    dev'.touched = dev.touched ++ [BitVec.ofNat 8 (off / 4)] := by
  have touched := dev.embeddedRead_touched (BitVec.ofNat 32 (off >>> 2))
  rw [cell_index] at touched
  unfold read readHead at done
  rw [and_three, if_pos unaligned] at done
  obtain ⟨⟨range₁, dev₁, memory₁⟩, head, done⟩ := Option.bind_eq_some_iff.mp done
  obtain ⟨⟨dev₂, memory₂⟩, part, head⟩ := Option.bind_eq_some_iff.mp head
  cases head
  obtain ⟨bytes, -, part⟩ := Option.bind_eq_some_iff.mp part
  obtain ⟨stored, -, part⟩ := Option.bind_eq_some_iff.mp part
  cases part
  simp [Range.advance, readBody, readTail] at done
  obtain ⟨-, rfl, -⟩ := done
  exact touched

/-- The size goes through an `int` on its way to the driver. -/
theorem nvmemRead_inv {buf : Nat} {ret : BitVec 64}
    (done : nvmemRead accessible dev memory offset size buf = some (ret, dev', memory')) :
    ret = size ∧ ∃ count, read accessible dev memory offset.toNat
      (size.setWidth 32).toInt.toNat buf = some (count, dev', memory') := by
  unfold nvmemRead at done
  dsimp only at done
  split at done
  · cases done
  · obtain ⟨⟨count, dev₁, memory₁⟩, called, done⟩ := Option.bind_eq_some_iff.mp done
    cases done
    exact ⟨rfl, count, called⟩

/-- So it does for a write. -/
theorem nvmemWrite_inv {buf : Nat} {ret : BitVec 64}
    (done : nvmemWrite accessible dev memory offset size buf = some (ret, dev')) :
    ret = size ∧ ∃ count, write accessible dev memory offset.toNat
      (size.setWidth 32).toInt.toNat buf = some (count, dev') := by
  unfold nvmemWrite at done
  dsimp only at done
  split at done
  · cases done
  · obtain ⟨⟨count, dev₁⟩, called, done⟩ := Option.bind_eq_some_iff.mp done
    cases done
    exact ⟨rfl, count, called⟩

/-- A read of a size in the array comes to an end. -/
theorem nvmemRead_returns {buf : Nat} (small : size.toNat ≤ 1024)
    (buffer : Readable accessible buf size.toNat) (dev : Efuse) (memory : Memory)
    (offset : BitVec 64) : ∃ dev' memory',
      nvmemRead accessible dev memory offset size buf = some (size, dev', memory') := by
  obtain ⟨dev', -, done⟩ := read_eq dev memory offset.toNat buffer
  have left := left_eq small
  have fits : ¬ (size.setWidth 32).toInt < 0 := by omega
  have count : (size.setWidth 32).toInt.toNat = size.toNat := by omega
  refine ⟨dev', store memory buf (bytesAt dev.cells offset.toNat size.toNat), ?_⟩
  unfold nvmemRead
  dsimp only
  rw [if_neg fits, count, done]
  rfl

/-- A write inside the array returns its size. -/
theorem nvmemWrite_returns {buf : Nat}
    (inside : size = 0 ∨ offset.toNat + size.toNat ≤ 1024)
    (buffer : Readable accessible buf size.toNat) (dev : Efuse) (memory : Memory) :
    ∃ dev', nvmemWrite accessible dev memory offset size buf = some (size, dev') := by
  rcases inside with rfl | inside
  · exact ⟨dev, by simp [nvmemWrite, write_empty]⟩
  · obtain ⟨dev', -, done⟩ := write_eq dev memory inside buffer
    have left := left_eq (Nat.le_trans (Nat.le_add_left _ _) inside)
    have fits : ¬ (size.setWidth 32).toInt < 0 := by omega
    have count : (size.setWidth 32).toInt.toNat = size.toNat := by omega
    refine ⟨dev', ?_⟩
    unfold nvmemWrite
    dsimp only
    rw [if_neg fits, count, done]
    rfl

theorem ReadNeverAliases.inArray (never : ReadNeverAliases offset size) :
    InArray offset size := by
  obtain ⟨ret, dev', done, inside, -⟩ := never everywhere ⟨fun _ => 0, 0, 0, 0, []⟩ (fun _ => 0)
    0 (readable_everywhere _ _)
  obtain ⟨⟨ret₁, dev₁, memory₁⟩, called, same⟩ := Option.map_eq_some_iff.mp done
  cases same
  exact inside (nvmemRead_inv called).1

theorem WriteNeverAliases.inArray (never : WriteNeverAliases offset size) :
    InArray offset size := by
  obtain ⟨ret, dev', done, inside, -⟩ := never everywhere ⟨fun _ => 0, 0, 0, 0, []⟩ (fun _ => 0)
    0 (readable_everywhere _ _)
  exact inside (nvmemWrite_inv done).1

/-- An empty read that is confined starts at a cell. -/
theorem ReadNeverAliases.aligned (never : ReadNeverAliases offset 0) : offset.toNat % 4 = 0 := by
  by_contra unaligned
  obtain ⟨ret, dev', done, -, cells, added, all⟩ := never everywhere ⟨fun _ => 0, 0, 0, 0, []⟩
    (fun _ => 0) 0 (readable_everywhere _ _)
  obtain ⟨⟨ret₁, dev₁, memory₁⟩, called, same⟩ := Option.map_eq_some_iff.mp done
  cases same
  obtain ⟨-, count, done⟩ := nvmemRead_inv called
  have touched := read_empty_touched unaligned done
  have member : BitVec.ofNat 8 (offset.toNat / 4) ∈ cells := by
    rw [touched] at added
    simp [← List.append_cancel_left added]
  obtain ⟨i, below, -⟩ := all _ member
  exact absurd below (Nat.not_lt_zero i)

theorem inArray_of_inside (inside : size = 0 ∨ offset.toNat + size.toNat ≤ 1024) :
    InArray offset size := by
  rcases inside with rfl | inside
  · intro i below
    exact absurd below (Nat.not_lt_zero i)
  · intro i below
    unfold cellCount
    omega

/-- Inside the array each byte's cell is one that the call names. -/
theorem concerned_of_inside (inside : size = 0 ∨ offset.toNat + size.toNat ≤ 1024) :
    ∀ i, offset.toNat ≤ i → i < offset.toNat + size.toNat →
      Concerned offset size (BitVec.ofNat 8 (i / 4)) := by
  intro i from' below
  rcases inside with rfl | inside
  · exact absurd below (Nat.not_lt.mpr from')
  · refine ⟨i - offset.toNat, by omega, ?_⟩
    rw [BitVec.toNat_ofNat]
    omega

theorem count_eq (inside : size = 0 ∨ offset.toNat + size.toNat ≤ 1024) :
    (size.setWidth 32).toInt.toNat = size.toNat := by
  rcases inside with rfl | inside
  · rfl
  · rw [left_eq (Nat.le_trans (Nat.le_add_left _ _) inside), Int.toNat_natCast]

theorem some_or_aligned (begun : size ≠ 0 ∨ offset.toNat % 4 = 0) :
    0 < size.toNat ∨ offset.toNat % 4 = 0 := by
  rcases begun with more | aligned
  · exact .inl (Nat.pos_of_ne_zero fun none => more (BitVec.eq_of_toNat_eq none))
  · exact .inr aligned

/-- Inside the array a read touches the cells that it names. -/
theorem readNeverAliases_of_inside (inside : size = 0 ∨ offset.toNat + size.toNat ≤ 1024)
    (begun : size ≠ 0 ∨ offset.toNat % 4 = 0) : ReadNeverAliases offset size := by
  intro accessible dev memory buf buffer
  have small : size.toNat ≤ 1024 := by
    rcases inside with rfl | inside
    · decide
    · omega
  obtain ⟨dev', memory', done⟩ := nvmemRead_returns small buffer dev memory offset
  obtain ⟨-, count, called⟩ := nvmemRead_inv done
  rw [count_eq inside] at called
  exact ⟨size, dev', by rw [done]; rfl, fun _ => inArray_of_inside inside,
    read_touches (concerned_of_inside inside) (some_or_aligned begun) called⟩

/-- Inside the array a write touches the cells that it names. -/
theorem writeNeverAliases_of_inside (inside : size = 0 ∨ offset.toNat + size.toNat ≤ 1024) :
    WriteNeverAliases offset size := by
  intro accessible dev memory buf buffer
  obtain ⟨dev', done⟩ := nvmemWrite_returns inside buffer dev memory
  obtain ⟨-, count, called⟩ := nvmemWrite_inv done
  rw [count_eq inside] at called
  refine ⟨size, dev', done, fun _ => inArray_of_inside inside, ?_⟩
  by_cases none : size = 0
  · subst none
    rw [show (0 : BitVec 64).toNat = 0 from rfl, write_empty] at called
    cases called
    exact .refl _
  · exact write_touches (concerned_of_inside inside) (some_or_aligned (.inl none)) called

/-- Reads are confined to their cells exactly in the array, and if no cell is begun for no
bytes; writes exactly in the array, or if there are no bytes. -/
theorem efuse_never_aliases (offset size : BitVec 64) :
    (ReadNeverAliases offset size ↔
      if size = 0 then offset.toNat % 4 = 0 else offset.toNat + size.toNat ≤ 1024) ∧
    (WriteNeverAliases offset size ↔ size = 0 ∨ offset.toNat + size.toNat ≤ 1024) := by
  by_cases none : size = 0
  · subst none
    rw [if_pos rfl]
    refine ⟨⟨fun never => never.aligned, fun aligned => ?_⟩, ?_⟩
    · exact readNeverAliases_of_inside (.inl rfl) (.inr aligned)
    · exact iff_of_true (writeNeverAliases_of_inside (.inl rfl)) (.inl rfl)
  · rw [if_neg none, or_iff_right none]
    have array := @inArray_iff offset size none
    refine ⟨⟨fun never => array.mp never.inArray, fun inside => ?_⟩,
      ⟨fun never => array.mp never.inArray, fun inside => ?_⟩⟩
    · exact readNeverAliases_of_inside (.inr inside) (.inl none)
    · exact writeNeverAliases_of_inside (.inr inside)

/-- The word that `secure_boot` asks for is behind the array: cell 1 is read in its place.
So it is with the first word of the hash of the public key, and cell 12. -/
theorem scs_config_aliases :
    ¬ ReadNeverAliases (BitVec.ofNat 64 Plat.Sg2044.SCS_CONFIG) 4 ∧
      ¬ ReadNeverAliases (BitVec.ofNat 64 Plat.Sg2044.PUBKEY_HASH) 4 ∧
      ∀ dev : Efuse, efuseEmbeddedRead (dev.nvmem "efuse0" "") (Plat.Sg2044.SCS_CONFIG >>> 2) =
        dev.cells 1 := by
  refine ⟨fun never => ?_, fun never => ?_, fun dev => rfl⟩
  · exact absurd ((inArray_iff (by decide)).mp never.inArray) (by decide)
  · exact absurd ((inArray_iff (by decide)).mp never.inArray) (by decide)

end Zsbl.Drivers.Efuse
