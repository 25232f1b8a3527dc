/-
Module: Zsbl.Proofs.Xmodem
Purpose: A transfer delivers each block once, in order, as long as no block is sent
  undamaged twice.
Trusted boundary: none
Main exports:
  recvPack_frame, Repeats, Delivered, xmodem_delivers, ack_lost
-/
import Zsbl.Proofs.XmodemFrame
import Mathlib.Data.List.Basic

namespace Zsbl.Libs

open Zsbl.Lib

/-! ## Packets -/

/-- A number and its complement add up to 255. -/
theorem number_complement (number : UInt8) :
    number.toNat + (255 - number).toNat = 0xff := by
  have le : number ≤ 255 := UInt8.le_iff_toNat_le.mpr (by
    have lt := number.toNat_lt
    simp only [UInt8.reduceToNat]
    omega)
  rw [UInt8.toNat_sub_of_le _ _ le]
  have lt := number.toNat_lt
  simp only [UInt8.reduceToNat]
  omega

/-- The length of a block. -/
def IsBlock (payload : List UInt8) : Prop := payload.length = 128 ∨ payload.length = 1024

/-- A block is taken off the line as a whole; its check bytes decide. -/
theorem recvPack_frame {payload bytes : List UInt8} (isBlock : IsBlock payload)
    (length : bytes.length = payload.length + 2) (number : Nat) (rest : List UInt8) :
    recvPack (header number payload ++ bytes ++ rest) =
      (if crc16 bytes = 0 then (payload.length : Int) else code CRC,
        bytes.take payload.length, rest) := by
  have sized : (if payload.length = 128 then SOH else STX) = SOH ∧ payload.length = 128 ∨
      (if payload.length = 128 then SOH else STX) = STX ∧ payload.length = 1024 := by
    rcases isBlock with short | long
    · simp [short]
    · simp [long]
  have received : recvPack (header number payload ++ bytes ++ rest) = _ :=
    recvPack_received sized length rest
  rw [received]
  simp only [number_complement, true_and]

/-! ## The properties -/

/-- The step sends an undamaged copy of a block of which one has been sent before. -/
def Repeats (s : XmodemState) : XmodemEvent → Prop
  | .reply none =>
      s.sender.phase = .block ∧ s.replies.head? = some NAK ∧ s.sender.good = true
  | .timeout none => s.sender.phase = .block ∧ s.sender.good = true
  | _ => False

/-- If `xmodem_receive` has returned a length, the buffers are the blocks, and the
length is theirs. -/
def Delivered (blocks : List (List UInt8)) (s : XmodemState) : Prop :=
  ∀ n, s.receiver.result = some n → 0 ≤ n →
    s.receiver.saved = blocks ∧ n = (blocks.map List.length).sum

/-! ## The invariant -/

/-- What is on the line. -/
inductive Message where
  | good (index : Nat)
  | damaged (index : Nat) (bytes : List UInt8)
  | eot

namespace Message

def bytes (blocks : List (List UInt8)) : Message → List UInt8
  | .good index =>
      header (index + 1) (blocks.getD index []) ++ body (blocks.getD index [])
  | .damaged index bytes => header (index + 1) (blocks.getD index []) ++ bytes
  | .eot => [EOT]

def Valid (blocks : List (List UInt8)) : Message → Prop
  | .good index => index < blocks.length
  | .damaged index bytes =>
      index < blocks.length ∧ Damages (blocks.getD index []) (some bytes)
  | .eot => True

/-- The number of the block that the message delivers. -/
def delivers : Message → Option Nat
  | .good index => some index
  | _ => none

end Message

/-- A whole frame is received as its payload. -/
theorem Message.recvPack_good {blocks : List (List UInt8)} {index : Nat}
    (conforms : ∀ payload ∈ blocks, IsBlock payload) (inside : index < blocks.length)
    (rest : List UInt8) : recvPack ((Message.good index).bytes blocks ++ rest) =
      ((blocks[index].length : Int), blocks[index], rest) := by
  have isBlock : blocks.getD index [] = blocks[index] := by simp [inside]
  have length : (body blocks[index]).length = blocks[index].length + 2 := by simp [body]
  have received := recvPack_frame (conforms blocks[index] (List.getElem_mem inside))
    length (index + 1) rest
  rw [Message.bytes, isBlock, received, if_pos (crc16_body _)]
  simp [body]

/-- A damaged frame is received as a wrong CRC. -/
theorem Message.recvPack_damaged {blocks : List (List UInt8)} {index : Nat}
    {bytes : List UInt8} (conforms : ∀ payload ∈ blocks, IsBlock payload)
    (valid : (Message.damaged index bytes).Valid blocks) (rest : List UInt8) :
    ∃ data, recvPack ((Message.damaged index bytes).bytes blocks ++ rest) =
      (code CRC, data, rest) := by
  obtain ⟨inside, damages⟩ := valid
  have isBlock : blocks.getD index [] = blocks[index] := by simp [inside]
  rw [isBlock] at damages
  obtain ⟨length, noticed⟩ := damages bytes rfl
  have received := recvPack_frame (conforms blocks[index] (List.getElem_mem inside))
    length (index + 1) rest
  rw [if_neg noticed] at received
  refine ⟨bytes.take blocks[index].length, ?_⟩
  rw [Message.bytes, isBlock]
  exact received

theorem sum_take_le (blocks : List (List UInt8)) (count : Nat) :
    ((blocks.take count).map List.length).sum ≤ (blocks.map List.length).sum := by
  have split := congrArg List.sum (List.take_append_drop count (blocks.map List.length))
  rw [List.sum_append, ← List.map_take] at split
  omega

/-- How many blocks have been sent undamaged. -/
def Sender.sent (sender : Sender) : Nat := sender.index + if sender.good then 1 else 0

/-- While the receiver runs: it has saved the blocks in order; the line holds the
others that have been sent undamaged, once each; and the acknowledged blocks,
together with the `ACK`s under way, are saved ones. -/
structure Transfer (blocks : List (List UInt8)) (s : XmodemState) (msgs : List Message) :
    Prop where
  line : s.line = msgs.flatMap (Message.bytes blocks)
  valid : ∀ msg ∈ msgs, msg.Valid blocks
  saved : s.receiver.saved = blocks.take s.receiver.saved.length
  onLine : msgs.filterMap Message.delivers =
    List.range' s.receiver.saved.length (s.sender.sent - s.receiver.saved.length)
  acked : s.sender.index + s.replies.count ACK ≤ s.receiver.saved.length
  ahead : s.receiver.saved.length ≤ s.sender.sent
  recvLen : s.receiver.recvLen = (s.receiver.saved.map List.length).sum
  phase : match s.sender.phase with
    | .start => s.sender.index = 0 ∧ s.sender.good = false
    | .block => s.sender.index < blocks.length
    | .eot | .done => s.sender.index = blocks.length ∧ s.sender.good = false
  noEot : s.sender.phase = .start ∨ s.sender.phase = .block → Message.eot ∉ msgs

def XmodemInv (blocks : List (List UInt8)) (s : XmodemState) : Prop :=
  (s.receiver.result = none → ∃ msgs, Transfer blocks s msgs) ∧ Delivered blocks s

theorem XmodemInv.init (blocks : List (List UInt8)) : XmodemInv blocks xmodemInit := by
  refine ⟨fun _ => ⟨[], ?_⟩, fun n returned => by simp [xmodemInit] at returned⟩
  constructor <;> simp [xmodemInit, Sender.sent]

namespace Transfer

variable {blocks : List (List UInt8)} {s s' : XmodemState} {msgs : List Message}

/-- The sender puts one more message on the line. -/
theorem append (transfer : Transfer blocks s msgs) (msg : Message) (sender : Sender)
    (valid : msg.Valid blocks) (grows : s.sender.sent ≤ sender.sent)
    (delivers : [msg].filterMap Message.delivers =
      List.range' s.sender.sent (sender.sent - s.sender.sent))
    (acked : sender.index + s.replies.count ACK ≤ s.receiver.saved.length)
    (phase : match sender.phase with
      | .start => sender.index = 0 ∧ sender.good = false
      | .block => sender.index < blocks.length
      | .eot | .done => sender.index = blocks.length ∧ sender.good = false)
    (noEot : sender.phase = .start ∨ sender.phase = .block →
      Message.eot ∉ msgs ++ [msg]) :
    Transfer blocks { s with sender := sender, line := s.line ++ msg.bytes blocks }
      (msgs ++ [msg]) where
  line := by simp [transfer.line]
  valid other isMsg := by
    rcases List.mem_append.mp isMsg with before | new
    · exact transfer.valid other before
    · obtain rfl := List.mem_singleton.mp new
      exact valid
  saved := transfer.saved
  onLine := by
    have ahead := transfer.ahead
    have start : s.sender.sent =
        s.receiver.saved.length + 1 * (s.sender.sent - s.receiver.saved.length) := by omega
    have count : s.sender.sent - s.receiver.saved.length + (sender.sent - s.sender.sent) =
        sender.sent - s.receiver.saved.length := by omega
    rw [List.filterMap_append, transfer.onLine, delivers]
    nth_rewrite 2 [start]
    rw [List.range'_append, count]
  acked := acked
  ahead := Nat.le_trans transfer.ahead grows
  recvLen := transfer.recvLen
  phase := phase
  noEot := noEot

/-- The sender sends a block, the next one or the one in progress. -/
theorem send (transfer : Transfer blocks s msgs) {index : Nat} {good : Bool}
    {damage : Option (List UInt8)} (sent : index + (if good then 1 else 0) = s.sender.sent)
    (acked : index + s.replies.count ACK ≤ s.receiver.saved.length)
    (fresh : damage = none → good = false) (noEot : Message.eot ∉ msgs)
    (last : index ≤ blocks.length) (ended : index = blocks.length → good = false)
    (taken : s.send blocks index good damage = some s') :
    ∃ msgs', Transfer blocks s' msgs' := by
  unfold XmodemState.send at taken
  split at taken
  · rename_i noBlock
    obtain rfl := Option.some.inj taken
    have atEnd : index = blocks.length :=
      Nat.le_antisymm last (List.getElem?_eq_none_iff.mp noBlock)
    have same : s.sender.sent = index := by simpa [ended atEnd] using sent.symm
    refine ⟨msgs ++ [Message.eot], transfer.append .eot ⟨.eot, index, false⟩ trivial ?_ ?_ acked
      ⟨atEnd, rfl⟩ (by simp)⟩
    · rw [same]
      simp [Sender.sent]
    · rw [same]
      simp [Sender.sent, Message.delivers]
  · rename_i payload isBlock
    obtain ⟨inside, isPayload⟩ := List.getElem?_eq_some_iff.mp isBlock
    have payloadEq : blocks.getD index [] = payload := by simp [isBlock]
    split at taken
    · rename_i damages
      obtain rfl := Option.some.inj taken
      cases damage with
      | none =>
          have off := fresh rfl
          have same : s.sender.sent = index := by simpa [off] using sent.symm
          refine ⟨msgs ++ [.good index], ?_⟩
          have appended := transfer.append (.good index) ⟨.block, index, true⟩ inside
            (by rw [same]; simp [Sender.sent])
            (by rw [same]; simp [Sender.sent, Message.delivers]) acked inside
            (by simpa using noEot)
          rw [Message.bytes, payloadEq] at appended
          simpa [off] using appended
      | some bytes =>
          refine ⟨msgs ++ [.damaged index bytes], ?_⟩
          have valid : (Message.damaged index bytes).Valid blocks := by
            refine ⟨inside, ?_⟩
            rw [payloadEq]
            exact damages
          have appended := transfer.append (.damaged index bytes) ⟨.block, index, good⟩ valid
            (by rw [← sent]; simp [Sender.sent])
            (by rw [← sent]; simp [Sender.sent, Message.delivers]) acked inside
            (by simpa using noEot)
          rw [Message.bytes, payloadEq] at appended
          simpa using appended
    · simp at taken

/-- `EOT` is sent again. -/
theorem sendEot (transfer : Transfer blocks s msgs) (phase : s.sender.phase = .eot) :
    ∃ msgs', Transfer blocks { s with line := s.line ++ [EOT] } msgs' := by
  refine ⟨msgs ++ [Message.eot], transfer.append .eot s.sender trivial (Nat.le_refl _) ?_
    transfer.acked transfer.phase ?_⟩
  · simp [Message.delivers]
  · simp [phase]

/-- The sender drops a reply. -/
theorem dropReply (transfer : Transfer blocks s msgs) {replies : List UInt8}
    (fewer : replies.count ACK ≤ s.replies.count ACK) :
    Transfer blocks { s with replies := replies } msgs :=
  { transfer with acked := Nat.le_trans (Nat.add_le_add_left fewer _) transfer.acked }

/-- The receiver sends something that is no `ACK`. -/
theorem addReply (transfer : Transfer blocks s msgs) {receiver : Receiver}
    {sent : List UInt8} (noAck : sent.count ACK = 0)
    (saved : receiver.saved = s.receiver.saved)
    (recvLen : receiver.recvLen = s.receiver.recvLen) :
    Transfer blocks { s with receiver := receiver, replies := s.replies ++ sent } msgs where
  line := transfer.line
  valid := transfer.valid
  saved := by
    simp only [saved]
    exact transfer.saved
  onLine := by
    simp only [saved]
    exact transfer.onLine
  acked := by
    simp only [saved, List.count_append, noAck]
    exact transfer.acked
  ahead := by
    simp only [saved]
    exact transfer.ahead
  recvLen := by
    simp only [saved, recvLen]
    exact transfer.recvLen
  phase := transfer.phase
  noEot := transfer.noEot

/-! ### The sender -/

/-- The sender answers one prompt of the receiver. -/
theorem answer (transfer : Transfer blocks s msgs) {ch : UInt8} {replies : List UInt8}
    {damage : Option (List UInt8)} (next : s.replies = ch :: replies)
    (once : ¬ Repeats s (.reply damage))
    (taken : { s with replies := replies }.answer blocks ch damage = some s') :
    ∃ msgs', Transfer blocks s' msgs' := by
  have counted : s.replies.count ACK = replies.count ACK + if ch = ACK then 1 else 0 := by
    rw [next, List.count_cons]
    simp
  have acked := transfer.acked
  have ahead := transfer.ahead
  have phase := transfer.phase
  have dropped : Transfer blocks { s with replies := replies } msgs :=
    transfer.dropReply (by omega)
  unfold XmodemState.answer at taken
  cases isPhase : s.sender.phase with
  | start =>
      simp only [isPhase] at taken phase
      split at taken
      · apply dropped.send _ _ (fun _ => rfl) (transfer.noEot (.inl isPhase)) (by omega)
          (fun _ => rfl) taken
        · simp [Sender.sent, phase.1, phase.2]
        · show 0 + replies.count ACK ≤ s.receiver.saved.length
          omega
      · obtain rfl := Option.some.inj taken
        exact ⟨msgs, dropped⟩
  | block =>
      simp only [isPhase] at taken phase
      split at taken
      · rename_i isAck
        have good : s.sender.good = true := by
          by_contra notGood
          simp only [Sender.sent, notGood, isAck, if_true] at ahead counted
          simp at ahead
          omega
        apply dropped.send _ _ (fun _ => rfl) (transfer.noEot (.inr isPhase)) phase
          (fun _ => rfl) taken
        · simp [Sender.sent, good]
        · show s.sender.index + 1 + replies.count ACK ≤ s.receiver.saved.length
          simp only [isAck, if_true] at counted
          omega
      · split at taken
        · rename_i isNak
          apply dropped.send rfl _ _ (transfer.noEot (.inr isPhase)) (Nat.le_of_lt phase)
            (fun atEnd => absurd atEnd (Nat.ne_of_lt phase)) taken
          · exact dropped.acked
          · rintro rfl
            by_contra again
            exact once ⟨isPhase, by rw [next, isNak]; rfl, by simpa using again⟩
        · obtain rfl := Option.some.inj taken
          exact ⟨msgs, dropped⟩
  | eot =>
      simp only [isPhase] at taken phase
      split at taken
      · obtain rfl := Option.some.inj taken
        have same : Sender.sent ⟨.done, s.sender.index, false⟩ = s.sender.sent := by
          simp [Sender.sent, phase.2]
        exact ⟨msgs,
          { line := dropped.line
            valid := dropped.valid
            saved := dropped.saved
            onLine := by
              rw [same]
              exact dropped.onLine
            acked := dropped.acked
            ahead := by
              rw [same]
              exact dropped.ahead
            recvLen := dropped.recvLen
            phase := ⟨phase.1, rfl⟩
            noEot := by simp }⟩
      · split at taken
        · obtain rfl := Option.some.inj taken
          exact dropped.sendEot isPhase
        · obtain rfl := Option.some.inj taken
          exact ⟨msgs, dropped⟩
  | done =>
      simp only [isPhase] at taken
      obtain rfl := Option.some.inj taken
      exact ⟨msgs, dropped⟩

/-- The sender repeats a frame that no answer came to. -/
theorem timeout (transfer : Transfer blocks s msgs) {damage : Option (List UInt8)}
    (once : ¬ Repeats s (.timeout damage))
    (taken : xmodemStep blocks s (.timeout damage) = some s') :
    ∃ msgs', Transfer blocks s' msgs' := by
  have phase := transfer.phase
  cases isPhase : s.sender.phase with
  | block =>
      simp only [xmodemStep, isPhase] at taken phase
      apply transfer.send rfl transfer.acked _ (transfer.noEot (.inr isPhase))
        (Nat.le_of_lt phase) (fun atEnd => absurd atEnd (Nat.ne_of_lt phase)) taken
      rintro rfl
      by_contra again
      exact once ⟨isPhase, by simpa using again⟩
  | eot =>
      simp only [xmodemStep, isPhase] at taken
      obtain rfl := Option.some.inj taken
      exact transfer.sendEot isPhase
  | _ => simp [xmodemStep, isPhase] at taken

/-! ### The receiver -/

/-- When `EOT` arrives, all blocks have been saved. -/
theorem complete (transfer : Transfer blocks s msgs) (isEot : Message.eot ∈ msgs) :
    s.receiver.saved = blocks := by
  have acked := transfer.acked
  have ahead := transfer.ahead
  have phase := transfer.phase
  have ended : s.sender.index = blocks.length ∧ s.sender.good = false := by
    cases isPhase : s.sender.phase with
    | start => exact absurd isEot (transfer.noEot (.inl isPhase))
    | block => exact absurd isEot (transfer.noEot (.inr isPhase))
    | eot => simpa [isPhase] using phase
    | done => simpa [isPhase] using phase
  have all : s.receiver.saved.length = blocks.length := by
    have sent : s.sender.sent = blocks.length := by simp [Sender.sent, ended]
    omega
  rw [transfer.saved, all, List.take_length]

/-- The messages behind the first one. -/
theorem tail {msg : Message} {rest : List Message}
    (transfer : Transfer blocks s (msg :: rest)) (line : List UInt8)
    (isLine : line = rest.flatMap (Message.bytes blocks))
    (nothing : msg.delivers = none) : Transfer blocks { s with line := line } rest where
  line := isLine
  valid other isRest := transfer.valid other (List.mem_cons_of_mem msg isRest)
  saved := transfer.saved
  onLine := by
    rw [← transfer.onLine, List.filterMap_cons_none nothing]
  acked := transfer.acked
  ahead := transfer.ahead
  recvLen := transfer.recvLen
  phase := transfer.phase
  noEot running isEot := transfer.noEot running (List.mem_cons_of_mem msg isEot)

/-- An undamaged block is the next one; it is saved. -/
theorem save {index : Nat} {rest : List Message}
    (transfer : Transfer blocks s (.good index :: rest)) (inside : index < blocks.length)
    (fits : (blocks.map List.length).sum < 2 ^ 63) :
    index = s.receiver.saved.length ∧
      Transfer blocks
        { s with
          line := rest.flatMap (Message.bytes blocks)
          replies := s.replies ++ [ACK]
          receiver :=
            { s.receiver with
              prompted := false
              saved := s.receiver.saved ++ [blocks[index]]
              recvLen := wrapLong (s.receiver.recvLen + blocks[index].length) } }
        rest := by
  have onLine := transfer.onLine
  have ahead := transfer.ahead
  obtain ⟨left, more⟩ : ∃ left, s.sender.sent - s.receiver.saved.length = left + 1 := by
    cases count : s.sender.sent - s.receiver.saved.length with
    | zero => simp [count, Message.delivers] at onLine
    | succ left => exact ⟨left, rfl⟩
  have first : Message.delivers (.good index) = some index := rfl
  rw [more, List.range'_succ, List.filterMap_cons_some first] at onLine
  obtain ⟨rfl, others⟩ := List.cons.inj onLine
  have saved : s.receiver.saved ++ [blocks[s.receiver.saved.length]] =
      blocks.take (s.receiver.saved.length + 1) := by
    rw [List.take_succ_eq_append_getElem inside, ← transfer.saved]
  have total := sum_take_le blocks (s.receiver.saved.length + 1)
  rw [← saved, List.map_append, List.sum_append] at total
  simp only [List.map_cons, List.map_nil, List.sum_cons, List.sum_nil, Nat.add_zero] at total
  refine ⟨rfl,
    { line := rfl
      valid := fun other isRest => transfer.valid other (List.mem_cons_of_mem _ isRest)
      saved := ?_
      onLine := ?_
      acked := ?_
      ahead := ?_
      recvLen := ?_
      phase := transfer.phase
      noEot := fun running isEot => transfer.noEot running (List.mem_cons_of_mem _ isEot) }⟩
  · simpa using saved
  · simp only [List.length_append, List.length_singleton]
    rw [others]
    congr 1
    omega
  · have acked := transfer.acked
    simp only [List.count_append, List.length_append, List.length_singleton,
      List.count_singleton_self]
    omega
  · simp only [List.length_append, List.length_singleton]
    omega
  · rw [transfer.recvLen, wrapLong_of_lt (by omega) (by omega)]
    simp

end Transfer

/-! ## Steps -/

section Receive

variable {r : Receiver} {line rest data : List UInt8}

theorem receiveStep_timeout (received : recvPack line = (code TMO, data, rest))
    (saveFails : Bool) : receiveStep r line saveFails =
      if r.recvLen = 0 then ({ r with prompted := false }, rest, [])
      else ({ r with prompted := false, result := some (-1) }, rest, [CAN, CAN]) := by
  have other : code TMO ≠ code EOT := by decide
  simp only [receiveStep, received, other, if_false, if_true]

theorem receiveStep_eot (received : recvPack line = (code EOT, data, rest))
    (saveFails : Bool) : receiveStep r line saveFails =
      ({ r with prompted := false, result := some r.recvLen }, rest, [ACK]) := by
  simp only [receiveStep, received, if_true]

theorem receiveStep_damaged (received : recvPack line = (code CRC, data, rest))
    (saveFails : Bool) : receiveStep r line saveFails =
      ({ r with prompted := false }, rest, [NAK]) := by
  have notEot : code CRC ≠ code EOT := by decide
  have notTmo : code CRC ≠ code TMO := by decide
  simp only [receiveStep, received, notEot, notTmo, if_false, or_true, if_true]

/-- A block is saved and acknowledged, or the transfer cancelled. -/
theorem receiveStep_block {length : Nat} (positive : 0 < length)
    (received : recvPack line = ((length : Int), data, rest)) (saveFails : Bool) :
    receiveStep r line saveFails =
      if saveFails then
        ({ r with
            prompted := false
            saved := r.saved ++ [data]
            result := some (-1) }, rest, [CAN, CAN])
      else
        ({ r with
            prompted := false
            saved := r.saved ++ [data]
            recvLen := wrapLong (r.recvLen + length) }, rest, [ACK]) := by
  have notCode := fun ch => code_ne_length ch positive
  simp only [receiveStep, received, notCode, or_self, if_false]

end Receive

/-- A transfer that was given up promises nothing more. -/
theorem XmodemInv.failed {blocks : List (List UInt8)} {s : XmodemState}
    (returned : s.receiver.result = some (-1)) : XmodemInv blocks s := by
  constructor
  · intro running
    simp [returned] at running
  · intro n isResult nonneg
    rw [returned] at isResult
    obtain rfl := Option.some.inj isResult
    omega

/-- A transfer that goes on has returned nothing. -/
theorem XmodemInv.goesOn {blocks : List (List UInt8)} {s : XmodemState}
    {msgs : List Message} (running : s.receiver.result = none)
    (transfer : Transfer blocks s msgs) : XmodemInv blocks s := by
  refine ⟨fun _ => ⟨msgs, transfer⟩, fun n returned => ?_⟩
  simp [running] at returned

/-- The receiver saves the block that comes next and no other. -/
theorem XmodemInv.receive {blocks : List (List UInt8)} {s s' : XmodemState}
    {saveFails : Bool} (conforms : ∀ payload ∈ blocks, IsBlock payload)
    (fits : (blocks.map List.length).sum < 2 ^ 63) (inv : XmodemInv blocks s)
    (taken : xmodemStep blocks s (.receive saveFails) = some s') : XmodemInv blocks s' := by
  simp only [xmodemStep] at taken
  split at taken
  · rename_i running
    obtain rfl := Option.some.inj taken
    obtain ⟨msgs, transfer⟩ := inv.1 running.1
    rw [transfer.line]
    cases msgs with
    | nil =>
        have received : recvPack [] = (code TMO, [], []) := rfl
        rw [List.flatMap_nil, receiveStep_timeout received]
        split
        · have waited : Transfer blocks
              { s with
                receiver := { s.receiver with prompted := false }, replies := s.replies ++ [] }
              [] := transfer.addReply rfl rfl rfl
          have silent : s.line = [] := transfer.line
          rw [silent] at waited
          exact .goesOn running.1 waited
        · exact .failed rfl
    | cons msg rest =>
        have valid := transfer.valid msg (List.mem_cons_self ..)
        rw [List.flatMap_cons]
        cases msg with
        | good index =>
            have inside : index < blocks.length := valid
            have positive : 0 < blocks[index].length := by
              rcases conforms blocks[index] (List.getElem_mem inside) with short | long <;> omega
            rw [receiveStep_block positive (Message.recvPack_good conforms inside _)]
            cases saveFails with
            | true => exact .failed rfl
            | false => exact .goesOn running.1 (transfer.save inside fits).2
        | damaged index bytes =>
            obtain ⟨data, received⟩ := Message.recvPack_damaged conforms valid
              (rest.flatMap (Message.bytes blocks))
            rw [receiveStep_damaged received]
            have behind := transfer.tail (rest.flatMap (Message.bytes blocks)) rfl rfl
            have noAck : [NAK].count ACK = 0 := by decide
            exact .goesOn running.1 (behind.addReply noAck rfl rfl)
        | eot =>
            have received : recvPack ((Message.eot).bytes blocks ++
                rest.flatMap (Message.bytes blocks)) =
                (code EOT, [], rest.flatMap (Message.bytes blocks)) := rfl
            rw [receiveStep_eot received]
            have all := transfer.complete (List.mem_cons_self ..)
            refine ⟨fun running => by simp at running, fun n returned _ => ⟨all, ?_⟩⟩
            obtain rfl := Option.some.inj returned
            rw [transfer.recvLen, all]
  · simp at taken

/-- A step that the receiver does not take part in. -/
theorem XmodemInv.elsewhere {blocks : List (List UInt8)} {s s' : XmodemState}
    (inv : XmodemInv blocks s) (same : s'.receiver = s.receiver)
    (goesOn : ∀ msgs, Transfer blocks s msgs → ∃ msgs', Transfer blocks s' msgs') :
    XmodemInv blocks s' := by
  constructor
  · intro running
    obtain ⟨msgs, transfer⟩ := inv.1 (same ▸ running)
    exact goesOn msgs transfer
  · unfold Delivered
    rw [same]
    exact inv.2

/-- Sending leaves the receiver alone. -/
theorem send_receiver {blocks : List (List UInt8)} {s s' : XmodemState} {index : Nat}
    {good : Bool} {damage : Option (List UInt8)}
    (taken : s.send blocks index good damage = some s') : s'.receiver = s.receiver := by
  unfold XmodemState.send at taken
  split at taken
  · obtain rfl := Option.some.inj taken
    rfl
  · split at taken
    · obtain rfl := Option.some.inj taken
      rfl
    · simp at taken

/-- The answer of the sender leaves the receiver alone. -/
theorem answer_receiver {blocks : List (List UInt8)} {s s' : XmodemState} {ch : UInt8}
    {damage : Option (List UInt8)} (taken : s.answer blocks ch damage = some s') :
    s'.receiver = s.receiver := by
  unfold XmodemState.answer at taken
  split at taken
  · split at taken
    · exact send_receiver taken
    · obtain rfl := Option.some.inj taken
      rfl
  · split at taken
    · exact send_receiver taken
    · split at taken
      · exact send_receiver taken
      · obtain rfl := Option.some.inj taken
        rfl
  · split at taken
    · obtain rfl := Option.some.inj taken
      rfl
    · split at taken
      · obtain rfl := Option.some.inj taken
        rfl
      · obtain rfl := Option.some.inj taken
        rfl
  · obtain rfl := Option.some.inj taken
    rfl

/-- A timeout of the sender leaves the receiver alone. -/
theorem timeout_receiver {blocks : List (List UInt8)} {s s' : XmodemState}
    {damage : Option (List UInt8)} (taken : xmodemStep blocks s (.timeout damage) = some s') :
    s'.receiver = s.receiver := by
  simp only [xmodemStep] at taken
  split at taken
  · exact send_receiver taken
  · obtain rfl := Option.some.inj taken
    rfl
  · simp at taken

/-- Without a second undamaged copy every step keeps the blocks in order. -/
theorem XmodemInv.step {blocks : List (List UInt8)} {s s' : XmodemState}
    {event : XmodemEvent} (conforms : ∀ payload ∈ blocks, IsBlock payload)
    (fits : (blocks.map List.length).sum < 2 ^ 63) (inv : XmodemInv blocks s)
    (once : ¬ Repeats s event) (taken : xmodemStep blocks s event = some s') :
    XmodemInv blocks s' := by
  cases event with
  | reply damage =>
      simp only [xmodemStep] at taken
      split at taken
      · simp at taken
      · rename_i ch replies next
        have same := answer_receiver taken
        exact inv.elsewhere same fun msgs transfer => transfer.answer next once taken
  | timeout damage =>
      exact inv.elsewhere (timeout_receiver taken) fun msgs transfer =>
        transfer.timeout once taken
  | lose position =>
      simp only [xmodemStep] at taken
      split at taken
      · simp at taken
      · split at taken
        · obtain rfl := Option.some.inj taken
          exact inv.elsewhere rfl fun msgs transfer =>
            ⟨msgs, transfer.dropReply ((List.eraseIdx_sublist ..).count_le _)⟩
        · simp at taken
  | prompt =>
      simp only [xmodemStep] at taken
      split at taken
      · rename_i running
        obtain rfl := Option.some.inj taken
        obtain ⟨msgs, transfer⟩ := inv.1 running.1
        have noAck : (promptStep s.receiver).2.count ACK = 0 := by
          unfold promptStep
          split <;> rfl
        exact .goesOn running.1 (transfer.addReply noAck rfl rfl)
      · simp at taken
  | receive saveFails => exact inv.receive conforms fits taken

/-- In every run in which no block is sent undamaged twice, a length that
`xmodem_receive` returns is that of the blocks, each of which has been saved once and
in order. -/
theorem xmodem_delivers {blocks : List (List UInt8)}
    (conforms : ∀ payload ∈ blocks, IsBlock payload)
    (fits : (blocks.map List.length).sum < 2 ^ 63) {s : XmodemState}
    (reached : (xmodemLts blocks).ReachableWhile (fun s event => ¬ Repeats s event) s) :
    Delivered blocks s := by
  have inv : XmodemInv blocks s := by
    apply reached.invariant (XmodemInv blocks)
    · rintro s rfl
      exact .init blocks
    · intro s event s' _ inv once taken
      exact inv.step conforms fits once taken
  exact inv.2

/-! ## A file of two blocks -/

/-- A short block. -/
def shortBlock : List UInt8 := List.replicate 128 0x41

/-- A long block. -/
def longBlock : List UInt8 := List.replicate 1024 0x42

/-- A short block and a long one. -/
def twoBlocks : List (List UInt8) := [shortBlock, longBlock]

/-- The short block arrives with zeros for check bytes, and again after the `NAK`; the
long one arrives at once. -/
def damagedFirst : List XmodemEvent :=
  [.prompt, .reply (some (shortBlock ++ [0, 0])), .receive false,
    .prompt, .reply none, .receive false,
    .reply none, .reply none, .prompt, .receive false,
    .reply none, .prompt, .receive false]

instance (payload : List UInt8) : Decidable (IsBlock payload) :=
  inferInstanceAs (Decidable (_ ∨ _))

instance (s : XmodemState) : (event : XmodemEvent) → Decidable (Repeats s event)
  | .reply none => inferInstanceAs (Decidable (_ ∧ _ ∧ _))
  | .timeout none => inferInstanceAs (Decidable (_ ∧ _))
  | .reply (some _) | .timeout (some _) | .prompt | .lose _ | .receive _ => .isFalse id

set_option maxRecDepth 20000 in
/-- Both blocks are delivered though the first one was damaged on the way. -/
theorem xmodem_delivers_damaged :
    ∃ s, runSteps (xmodemStep twoBlocks) xmodemInit damagedFirst = some s ∧
      s.receiver.result = some 1152 ∧ Delivered twoBlocks s := by
  have finished : (runSteps (xmodemStep twoBlocks) xmodemInit damagedFirst).map
      (·.receiver.result) = some (some 1152) := by decide +kernel
  obtain ⟨s, run, returned⟩ := Option.map_eq_some_iff.mp finished
  have once : RunsOk (xmodemStep twoBlocks) (fun s event => ¬ Repeats s event) xmodemInit
      damagedFirst := by decide +kernel
  have start : (xmodemLts twoBlocks).ReachableWhile (fun s event => ¬ Repeats s event)
      xmodemInit := .initial rfl
  have reached := start.runSteps (fun _ _ _ => id) once run
  exact ⟨s, run, returned,
    xmodem_delivers (by decide +kernel) (by decide +kernel) reached⟩

/-! ## A file of one block -/

section OneBlock

variable {payload : List UInt8}

/-- The block has been sent, and the receiver waits for it. -/
def blockSent (payload : List UInt8) (saved : List (List UInt8)) : XmodemState where
  sender := ⟨.block, 0, true⟩
  line := (Message.good 0).bytes [payload]
  replies := []
  receiver := ⟨true, 128 * saved.length, saved, none⟩

/-- The receiver has saved the block, and its `ACK` is under way. -/
def blockSaved (saved : List (List UInt8)) : XmodemState where
  sender := ⟨.block, 0, true⟩
  line := []
  replies := [ACK]
  receiver := ⟨false, 128 * saved.length, saved, none⟩

/-- The transfer has ended. -/
def ended (saved : List (List UInt8)) : XmodemState where
  sender := ⟨.eot, 1, false⟩
  line := []
  replies := [ACK]
  receiver := ⟨false, 128 * saved.length, saved, some (128 * saved.length)⟩

/-- The transfer up to the block on the line. -/
def opening : List XmodemEvent := [.prompt, .reply none]

/-- The `ACK` arrives, and `EOT` ends the transfer. -/
def closing : List XmodemEvent := [.reply none, .prompt, .receive false]

/-- The `ACK` is lost, and the block sent again. -/
def repetition : List XmodemEvent := [.lose 0, .timeout none, .prompt]

theorem run_opening (payload : List UInt8) :
    runSteps (xmodemStep [payload]) xmodemInit opening = some (blockSent payload []) := by
  rfl

/-- The receiver saves the block once more when it comes again. -/
theorem run_receive (length : payload.length = 128) (saved : List (List UInt8))
    (few : saved.length ≤ 1) : xmodemStep [payload] (blockSent payload saved) (.receive false) =
      some (blockSaved (saved ++ [payload])) := by
  have conforms : ∀ block ∈ [payload], IsBlock block := by
    intro block isBlock
    obtain rfl := List.mem_singleton.mp isBlock
    exact .inl length
  have received := Message.recvPack_good conforms (by simp : 0 < [payload].length) []
  rw [List.append_nil] at received
  have positive : 0 < payload.length := by omega
  have total : wrapLong (128 * saved.length + payload.length) =
      128 * (saved ++ [payload]).length := by
    rw [length, List.length_append, List.length_singleton, wrapLong_of_lt (by omega) (by omega)]
    omega
  simp [xmodemStep, blockSent, blockSaved, receiveStep_block positive received, total]

/-- The sender ends the transfer and the receiver returns. -/
theorem run_closing (payload : List UInt8) {saved : List (List UInt8)}
    (nonempty : 0 < saved.length) :
    runSteps (xmodemStep [payload]) (blockSaved saved) closing = some (ended saved) := by
  have notFirst : (128 * saved.length : Int) ≠ 0 := by omega
  have received : recvPack [EOT] = (code EOT, [], []) := rfl
  have acknowledged : xmodemStep [payload] (blockSaved saved) (.reply none) = some
      { blockSaved saved with sender := ⟨.eot, 1, false⟩, line := [EOT], replies := [] } := by
    rfl
  have prompted : xmodemStep [payload]
      { blockSaved saved with sender := ⟨.eot, 1, false⟩, line := [EOT], replies := [] }
      .prompt = some
      { blockSaved saved with
        sender := ⟨.eot, 1, false⟩
        line := [EOT]
        replies := []
        receiver := ⟨true, 128 * saved.length, saved, none⟩ } := by
    simp [xmodemStep, blockSaved, promptStep, notFirst]
  simp only [closing, runSteps, acknowledged, prompted, Option.bind_some]
  simp [xmodemStep, ended, receiveStep_eot received]

theorem run_repetition (payload : List UInt8) :
    runSteps (xmodemStep [payload]) (blockSaved [payload]) repetition =
      some (blockSent payload [payload]) := by
  rfl

theorem blockSaved_reached (length : payload.length = 128) :
    (xmodemLts [payload]).Reachable (blockSaved [payload]) := by
  have start : (xmodemLts [payload]).Reachable xmodemInit := .initial rfl
  have sent := start.runSteps (fun _ _ _ => id) (.of_forall (fun _ _ _ => trivial) _)
    (run_opening payload)
  exact sent.step trivial (run_receive length [] (Nat.zero_le 1))

end OneBlock

/-- A short block of zeros. -/
def zeros : List UInt8 := List.replicate 128 0

/-- The receiver saves a block twice when its `ACK` is lost. -/
theorem ack_lost :
    ¬ ∀ s, (xmodemLts [zeros]).Reachable s → Delivered [zeros] s := by
  intro delivered
  have length : zeros.length = 128 := List.length_replicate
  have saved := blockSaved_reached length
  have again := saved.runSteps (fun _ _ _ => id) (.of_forall (fun _ _ _ => trivial) _)
    (run_repetition zeros)
  have twice := again.step trivial (run_receive length [zeros] (Nat.le_refl 1))
  have ends := twice.runSteps (fun _ _ _ => id) (.of_forall (fun _ _ _ => trivial) _)
    (run_closing zeros (Nat.zero_lt_two))
  obtain ⟨blocks, -⟩ := delivered _ ends 256 rfl (by decide)
  have count := congrArg List.length blocks
  simp [ended] at count

end Zsbl.Libs
