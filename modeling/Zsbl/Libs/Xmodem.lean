/-
Module: Zsbl.Libs.Xmodem
Purpose: The receiver of lib/xmodem/xmodem.c, and a sender and a channel for it.
Trusted boundary: frames arrive whole and in order; a byte that is not there times out
Main exports:
  crc16, recvPack, Receiver, receiveStep, Sender, XmodemEvent, xmodemStep,
  xmodemLts
-/
import Zsbl.Include.Libc
import Zsbl.Lib.Runs

namespace Zsbl.Libs

open Zsbl.Lib

def SOH : UInt8 := 0x01
def STX : UInt8 := 0x02
def EOT : UInt8 := 0x04
def ACK : UInt8 := 0x06
def NAK : UInt8 := 0x15
def CAN : UInt8 := 0x18
def CRC : UInt8 := 0x43

def TMO : UInt8 := 0xff
def UND : UInt8 := 0xfe

/-- The negative code of a control character. -/
def code (ch : UInt8) : Int := -(ch.toNat : Int)

/-! ## Packets -/

/-- The inner loop of `crc16`, for a number of bits. -/
def crcBits : Nat → BitVec 16 → BitVec 16
  | 0, crc => crc
  | bits + 1, crc =>
      crcBits bits (if crc &&& 0x8000 ≠ 0 then crc <<< 1 ^^^ 0x1021 else crc <<< 1)

def crcByte (crc : BitVec 16) (byte : UInt8) : BitVec 16 :=
  crcBits 8 (crc ^^^ byte.toBitVec.setWidth 16 <<< 8)

def crc16 (buf : List UInt8) : BitVec 16 := buf.foldl crcByte 0

/-- Some calls of `xmodem_uart_recv` in a row; after a time out the byte is that
of -1. -/
def uartRecvs : Nat → List UInt8 → List UInt8 × List UInt8
  | 0, line => ([], line)
  | n + 1, [] =>
      let (bytes, line) := uartRecvs n []
      (0xff :: bytes, line)
  | n + 1, byte :: line =>
      let (bytes, line) := uartRecvs n line
      (byte :: bytes, line)

/-- `recv_pack` behind the first byte. -/
def recvBody (packLen : Nat) (line : List UInt8) : Int × List UInt8 × List UInt8 :=
  let (pack, line) := uartRecvs (packLen + 4) line
  let data := (pack.drop 2).take packLen
  if (pack.getD 0 0).toNat + (pack.getD 1 0).toNat ≠ 0xff then (code CRC, data, line)
  else if crc16 (pack.drop 2) = 0 then (packLen, data, line)
  else (code CRC, data, line)

/-- `recv_pack`: what it returns, the data, and what is left on the line. -/
def recvPack : List UInt8 → Int × List UInt8 × List UInt8
  | [] => (code TMO, [], [])
  | ch :: line =>
      if ch = SOH then recvBody 128 line
      else if ch = STX then recvBody 1024 line
      else if ch = EOT then (code EOT, [], line)
      else (code UND, [], line)

/-! ## The receiver -/

/-- `xmodem_receive` at the head of its loop, or in front of `recv_pack`; the
buffers that it has passed to `save`; and what it has returned. -/
structure Receiver where
  prompted : Bool
  recvLen : Int
  saved : List (List UInt8)
  result : Option Int
deriving DecidableEq, Repr

/-- The loop of `xmodem_receive` up to `recv_pack`, and the bytes it sends. -/
def promptStep (r : Receiver) : Receiver × List UInt8 :=
  ({ r with prompted := true }, if r.recvLen = 0 then [CRC] else [])

/-- The rest of the loop, given what `save` returns. -/
def receiveStep (r : Receiver) (line : List UInt8) (saveFails : Bool) :
    Receiver × List UInt8 × List UInt8 :=
  let (packLen, data, line) := recvPack line
  let r := { r with prompted := false }
  if packLen = code EOT then ({ r with result := some r.recvLen }, line, [ACK])
  else if packLen = code TMO then
    if r.recvLen = 0 then (r, line, [])
    else ({ r with result := some (-1) }, line, [CAN, CAN])
  else if packLen = code UND ∨ packLen = code CRC then (r, line, [NAK])
  else
    let r := { r with saved := r.saved ++ [data] }
    if saveFails then ({ r with result := some (-1) }, line, [CAN, CAN])
    else ({ r with recvLen := wrapLong (r.recvLen + packLen) }, line, [ACK])

/-! ## The sender -/

/-- The payload and its check bytes. -/
def body (payload : List UInt8) : List UInt8 :=
  let crc := crc16 payload
  payload ++ [⟨(crc >>> 8).setWidth 8⟩, ⟨crc.setWidth 8⟩]

/-- The bytes in front of the payload of a block. -/
def header (number : Nat) (payload : List UInt8) : List UInt8 :=
  [if payload.length = 128 then SOH else STX, UInt8.ofNat number, 255 - UInt8.ofNat number]

inductive SenderPhase where
  | start
  | block
  | eot
  | done
deriving DecidableEq, Repr

/-- The sender and the block it works on.  `good` is history: whether a copy of
that block has been sent that was not damaged. -/
structure Sender where
  phase : SenderPhase
  index : Nat
  good : Bool
deriving DecidableEq, Repr

/-! ## The system -/

/-- The two parties, the bytes on the line to the receiver, and the replies on
their way back. -/
structure XmodemState where
  sender : Sender
  line : List UInt8
  replies : List UInt8
  receiver : Receiver
deriving DecidableEq, Repr

/-- What takes the place of payload and check bytes is noticed. -/
def Damages (payload : List UInt8) (damage : Option (List UInt8)) : Prop :=
  ∀ bytes, damage = some bytes → bytes.length = payload.length + 2 ∧ crc16 bytes ≠ 0

instance (payload : List UInt8) (damage : Option (List UInt8)) :
    Decidable (Damages payload damage) :=
  match damage with
  | none => .isTrue (by simp [Damages])
  | some bytes =>
      decidable_of_iff (bytes.length = payload.length + 2 ∧ crc16 bytes ≠ 0)
        (by simp [Damages])

/-- The sender sends a block, or `EOT` behind the last one; numbers start at 1. -/
def XmodemState.send (blocks : List (List UInt8)) (s : XmodemState) (index : Nat)
    (good : Bool) (damage : Option (List UInt8)) : Option XmodemState :=
  match blocks[index]? with
  | none => some { s with sender := ⟨.eot, index, false⟩, line := s.line ++ [EOT] }
  | some payload =>
      if Damages payload damage then
        some { s with
          sender := ⟨.block, index, good || damage.isNone⟩
          line := s.line ++ (header (index + 1) payload ++ damage.getD (body payload)) }
      else none

/-- The sender takes a reply: the first `CRC` starts the transfer, `ACK` moves on,
`NAK` repeats. -/
def XmodemState.answer (blocks : List (List UInt8)) (s : XmodemState) (ch : UInt8)
    (damage : Option (List UInt8)) : Option XmodemState :=
  match s.sender.phase with
  | .start => if ch = CRC then s.send blocks 0 false damage else some s
  | .block =>
      if ch = ACK then s.send blocks (s.sender.index + 1) false damage
      else if ch = NAK then s.send blocks s.sender.index s.sender.good damage
      else some s
  | .eot =>
      if ch = ACK then some { s with sender := ⟨.done, s.sender.index, false⟩ }
      else if ch = NAK then some { s with line := s.line ++ [EOT] }
      else some s
  | .done => some s

/-- The sender takes the next reply or has waited for it too long, sending with or
without damage; the channel loses a reply; or the receiver goes on. -/
inductive XmodemEvent where
  | reply (damage : Option (List UInt8))
  | timeout (damage : Option (List UInt8))
  | lose (position : Nat)
  | prompt
  | receive (saveFails : Bool)
deriving DecidableEq, Repr

def xmodemStep (blocks : List (List UInt8)) (s : XmodemState) :
    XmodemEvent → Option XmodemState
  | .reply damage =>
      match s.replies with
      | [] => none
      | ch :: replies => { s with replies := replies }.answer blocks ch damage
  | .timeout damage =>
      match s.sender.phase with
      | .block => s.send blocks s.sender.index s.sender.good damage
      | .eot => some { s with line := s.line ++ [EOT] }
      | _ => none
  | .lose position =>
      match s.replies[position]? with
      | none => none
      | some ch =>
          if ch = ACK ∨ ch = NAK then some { s with replies := s.replies.eraseIdx position }
          else none
  | .prompt =>
      if s.receiver.result = none ∧ s.receiver.prompted = false then
        let (receiver, sent) := promptStep s.receiver
        some { s with receiver := receiver, replies := s.replies ++ sent }
      else none
  | .receive saveFails =>
      if s.receiver.result = none ∧ s.receiver.prompted = true then
        let (receiver, line, sent) := receiveStep s.receiver s.line saveFails
        some { s with receiver := receiver, line := line, replies := s.replies ++ sent }
      else none

def xmodemInit : XmodemState where
  sender := ⟨.start, 0, false⟩
  line := []
  replies := []
  receiver := ⟨false, 0, [], none⟩

def xmodemLts (blocks : List (List UInt8)) : Lts XmodemState XmodemEvent where
  init s := s = xmodemInit
  step s event s' := xmodemStep blocks s event = some s'

end Zsbl.Libs
