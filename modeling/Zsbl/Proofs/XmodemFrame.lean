/-
Module: Zsbl.Proofs.XmodemFrame
Purpose: The check of a received frame: which trailers leave no remainder.
Trusted boundary: none
Main exports:
  IsTrailer, crc16_residue, recvPack_received, Frame, frame_check
-/
import Zsbl.Libs.Xmodem
import Zsbl.Lib.ShiftRegister

namespace Zsbl.Libs

open Zsbl.Lib

/-! ## The remainder -/

/-- The loop only shifts a value whose upper byte is zero. -/
theorem crcBits_low : ∀ low : BitVec 8,
    crcBits 8 (low.setWidth 16) = low.setWidth 16 <<< 8 := by
  decide +kernel

theorem crc16_append (front back : List UInt8) :
    crc16 (front ++ back) = back.foldl crcByte (crc16 front) :=
  List.foldl_append ..

/-- The upper byte cancels itself. -/
theorem xor_upper (crc : BitVec 16) :
    crc ^^^ ((crc >>> 8).setWidth 8).setWidth 16 <<< 8 = (crc.setWidth 8).setWidth 16 := by
  ext i inside
  by_cases upper : i < 8
  · simp [upper, BitVec.getLsbD_eq_getElem inside]
  · have index : 8 + (i - 8) = i := by omega
    have few : i - 8 < 8 := by omega
    simp [upper, index, few, inside]

theorem top_bit (crc : BitVec 16) : crc &&& 0x8000 ≠ 0 ↔ crc.msb = true := by
  have top : (0x8000 : BitVec 16) = BitVec.twoPow 16 15 := by decide
  rw [top, BitVec.and_twoPow, BitVec.msb_eq_getLsbD_last]
  cases crc.getLsbD 15 <;> decide

theorem crcBits_shiftRegister (bits : Nat) (crc : BitVec 16) :
    crcBits bits crc = shiftRegister 0x1021 bits crc := by
  induction bits generalizing crc with
  | zero => rfl
  | succ bits ih =>
      rw [crcBits, ih, shiftRegister, shiftRegister, Function.iterate_succ_apply]
      simp only [top_bit, feedback]

theorem crcBits_injective (bits : Nat) : Function.Injective (crcBits bits) := by
  intro first second same
  rw [crcBits_shiftRegister, crcBits_shiftRegister] at same
  exact shiftRegister_injective (by decide) bits same

theorem crcBits_eq_zero {bits : Nat} {crc : BitVec 16} : crcBits bits crc = 0 ↔ crc = 0 := by
  have zero : crcBits bits 0 = 0 := by rw [crcBits_shiftRegister, shiftRegister_zero]
  constructor
  · intro same
    exact crcBits_injective bits (same.trans zero.symm)
  · rintro rfl
    exact zero

/-- `hi` and `lo` are the check bytes that belong behind `payload`. -/
def IsTrailer (payload : List UInt8) (hi lo : UInt8) : Prop :=
  hi.toBitVec = (crc16 payload >>> 8).setWidth 8 ∧ lo.toBitVec = (crc16 payload).setWidth 8

instance (payload : List UInt8) (hi lo : UInt8) : Decidable (IsTrailer payload hi lo) :=
  inferInstanceAs (Decidable (_ ∧ _))

/-- A register without its upper byte has that byte and the other one. -/
theorem xor_bytes (crc : BitVec 16) (hi lo : BitVec 8) :
    crc ^^^ hi.setWidth 16 <<< 8 = lo.setWidth 16 ↔
      hi = (crc >>> 8).setWidth 8 ∧ lo = crc.setWidth 8 := by
  constructor
  · intro same
    have bit (i : Nat) : (crc ^^^ hi.setWidth 16 <<< 8).getLsbD i =
        (lo.setWidth 16).getLsbD i := by rw [same]
    constructor
    · ext i inside
      have upper := bit (8 + i)
      have inWord : 8 + i < 16 := by omega
      have above : ¬ 8 + i < 8 := by omega
      simp [inWord, above] at upper
      simp [BitVec.getLsbD_eq_getElem inWord, upper, BitVec.getLsbD_eq_getElem inside]
    · ext i inside
      have lower := bit i
      have inWord : i < 16 := by omega
      simpa [inWord, inside, eq_comm] using lower
  · rintro ⟨rfl, rfl⟩
    exact xor_upper crc

/-- The check bytes are the only ones behind which no remainder is left. -/
theorem crc16_residue (payload : List UInt8) (hi lo : UInt8) :
    crc16 (payload ++ [hi, lo]) = 0 ↔ IsTrailer payload hi lo := by
  have behind : crc16 (payload ++ [hi, lo]) =
      crcBits 8 (crcByte (crc16 payload) hi ^^^ lo.toBitVec.setWidth 16 <<< 8) := by
    rw [crc16_append]
    rfl
  have noRemainder : crcByte (crc16 payload) hi ^^^ lo.toBitVec.setWidth 16 <<< 8 = 0 ↔
      crcByte (crc16 payload) hi = lo.toBitVec.setWidth 16 <<< 8 := BitVec.xor_eq_zero_iff
  rw [behind, crcBits_eq_zero, noRemainder, ← crcBits_low, crcByte,
    (crcBits_injective 8).eq_iff, xor_bytes]
  rfl

theorem crc16_body (payload : List UInt8) : crc16 (body payload) = 0 :=
  (crc16_residue payload _ _).mpr ⟨rfl, rfl⟩

theorem isTrailer_unique {payload : List UInt8} {hi lo hi' lo' : UInt8}
    (one : IsTrailer payload hi lo) (two : IsTrailer payload hi' lo') :
    (hi, lo) = (hi', lo') :=
  congrArg₂ Prod.mk (UInt8.toBitVec_inj.mp (one.1.trans two.1.symm))
    (UInt8.toBitVec_inj.mp (one.2.trans two.2.symm))

/-! ## Frames -/

theorem uartRecvs_append (bytes rest : List UInt8) :
    uartRecvs bytes.length (bytes ++ rest) = (bytes, rest) := by
  induction bytes with
  | nil => rfl
  | cons byte bytes ih => simp [uartRecvs, ih]

/-- A frame of the right length is taken off the line as a whole; its checks decide. -/
theorem recvPack_received {start first second : UInt8} {packLen : Nat} {bytes : List UInt8}
    (sized : start = SOH ∧ packLen = 128 ∨ start = STX ∧ packLen = 1024)
    (length : bytes.length = packLen + 2) (rest : List UInt8) :
    recvPack (start :: first :: second :: (bytes ++ rest)) =
      (if first.toNat + second.toNat = 0xff ∧ crc16 bytes = 0 then (packLen : Int)
        else code CRC, bytes.take packLen, rest) := by
  have received : recvBody packLen (first :: second :: (bytes ++ rest)) =
      (if first.toNat + second.toNat = 0xff ∧ crc16 bytes = 0 then (packLen : Int)
        else code CRC, bytes.take packLen, rest) := by
    have taken : uartRecvs (packLen + 4) (first :: second :: (bytes ++ rest)) =
        (first :: second :: bytes, rest) := by
      have all := uartRecvs_append (first :: second :: bytes) rest
      simpa [length] using all
    unfold recvBody
    rw [taken]
    simp only [List.getD_cons_zero, List.getD_cons_succ, List.drop_succ_cons, List.drop_zero]
    by_cases complement : first.toNat + second.toNat = 0xff
    · by_cases residue : crc16 bytes = 0
      · simp only [complement, residue, ne_eq, not_true_eq_false, if_false, if_true, and_self]
      · simp only [complement, residue, ne_eq, not_true_eq_false, if_false, and_false]
    · simp only [complement, ne_eq, not_false_eq_true, if_true, false_and, if_false]
  rcases sized with ⟨rfl, short⟩ | ⟨rfl, long⟩
  · simpa [recvPack, short] using received
  · simpa [recvPack, long, STX, SOH] using received

theorem code_ne_length (ch : UInt8) {length : Nat} (positive : 0 < length) :
    (length : Int) ≠ code ch := by
  unfold code
  omega

/-- A frame that arrives as a whole: what `recv_pack` reads when no byte times out. -/
structure Frame where
  start : UInt8
  number : UInt8
  complement : UInt8
  payload : List UInt8
  hi : UInt8
  lo : UInt8
  sized : start = SOH ∧ payload.length = 128 ∨ start = STX ∧ payload.length = 1024

namespace Frame

def bytes (frame : Frame) : List UInt8 :=
  frame.start :: frame.number :: frame.complement ::
    (frame.payload ++ [frame.hi, frame.lo])

/-- What `recv_pack` returns for the frame in front of what else is on the line. -/
def received (frame : Frame) (rest : List UInt8) : Int := (recvPack (frame.bytes ++ rest)).1

def Complementary (frame : Frame) : Prop := frame.complement = ~~~frame.number

/-- The frame with other check bytes. -/
def withTrailer (frame : Frame) (hi lo : UInt8) : Frame := { frame with hi := hi, lo := lo }

theorem complementary_iff (frame : Frame) :
    frame.Complementary ↔ frame.number.toNat + frame.complement.toNat = 0xff := by
  have number := frame.number.toNat_lt
  have complement := frame.complement.toNat_lt
  unfold Complementary
  rw [← UInt8.toNat_inj, UInt8.toNat_not]
  simp only [UInt8.size]
  omega

instance (frame : Frame) : Decidable frame.Complementary :=
  inferInstanceAs (Decidable (_ = _))

/-- A frame is accepted if its number and its CRC are right. -/
theorem received_eq (frame : Frame) (rest : List UInt8) :
    frame.received rest =
      if frame.Complementary ∧ IsTrailer frame.payload frame.hi frame.lo
      then (frame.payload.length : Int) else code CRC := by
  have length : (frame.payload ++ [frame.hi, frame.lo]).length = frame.payload.length + 2 := by
    simp
  have checked : recvPack (frame.bytes ++ rest) = _ := recvPack_received frame.sized length rest
  rw [received, checked]
  simp only [complementary_iff, crc16_residue]

end Frame

/-- The first frame of a transfer, full of one letter. -/
def letterFrame : Frame where
  start := SOH
  number := 1
  complement := 0xfe
  payload := List.replicate 128 0x41
  hi := 0x1c
  lo := 0xce
  sized := .inl ⟨rfl, List.length_replicate⟩

set_option maxRecDepth 20000 in
theorem letterFrame_isTrailer :
    IsTrailer letterFrame.payload letterFrame.hi letterFrame.lo := by
  decide +kernel

/-- The remainder vanishes behind the check bytes only; a frame is accepted if and
only if its header bytes are complementary and its trailer is the one of its payload;
so a frame that is accepted with one trailer is rejected with every other. -/
theorem frame_check :
    (∀ (payload : List UInt8) (hi lo : UInt8),
      crc16 (payload ++ [hi, lo]) = 0 ↔ IsTrailer payload hi lo) ∧
    (∀ (frame : Frame) (rest : List UInt8),
      frame.received rest = frame.payload.length ↔
        frame.Complementary ∧ IsTrailer frame.payload frame.hi frame.lo) ∧
    ∀ (frame : Frame) (rest rest' : List UInt8) (hi lo : UInt8),
      frame.received rest = frame.payload.length → (hi, lo) ≠ (frame.hi, frame.lo) →
        (frame.withTrailer hi lo).received rest' = code CRC := by
  have accepted (frame : Frame) (rest : List UInt8) :
      frame.received rest = frame.payload.length ↔
        frame.Complementary ∧ IsTrailer frame.payload frame.hi frame.lo := by
    rw [frame.received_eq]
    split
    · simp [*]
    · simp only [*, iff_false]
      intro accept
      rcases frame.sized with ⟨-, short⟩ | ⟨-, long⟩
      · exact code_ne_length CRC (by omega) accept.symm
      · exact code_ne_length CRC (by omega) accept.symm
  refine ⟨crc16_residue, accepted, ?_⟩
  intro frame rest rest' hi lo accept other
  obtain ⟨-, trailer⟩ := (accepted frame rest).mp accept
  rw [Frame.received_eq, if_neg]
  rintro ⟨-, changed⟩
  exact other (isTrailer_unique changed trailer)

/-- The frame is accepted, and with one bit of its trailer changed it is not. -/
theorem frame_check_letters :
    letterFrame.received [EOT] = 128 ∧
      (letterFrame.withTrailer 0x1c 0xcf).received [] = code CRC := by
  have accepted : letterFrame.received [EOT] = letterFrame.payload.length :=
    (frame_check.2.1 letterFrame [EOT]).mpr ⟨by decide, letterFrame_isTrailer⟩
  exact ⟨accepted, frame_check.2.2 letterFrame [EOT] [] 0x1c 0xcf accepted (by decide)⟩

end Zsbl.Libs
