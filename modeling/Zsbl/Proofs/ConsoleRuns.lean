/-
Module: Zsbl.Proofs.ConsoleRuns
Purpose: The console calls the commands that the editor calls, however the bytes arrive.
Trusted boundary: none
Main exports:
  pump_polls, Tracks.polls, Tracks.settles, console_refines_editor
-/
import Zsbl.Proofs.Console

namespace Zsbl.Libs

open Zsbl.Lib

/-! ## Progress -/

section Progress

variable {callback : List Dispatch → List (List UInt8)} {input : Nat → Option UInt8}
  {e : Editor} {c : Console} {ch : UInt8}

/-- How many pumps may pass before the device is polled. -/
def Console.patience (c : Console) : Nat :=
  match c.state with
  | .startNewCommand => 1
  | .readInput => if c.snoopChar = none then 0 else 3
  | .readEscapeSequence => 0
  | .parseEscapeSequenceAnsi => 1
  | .parseInput => 2

theorem getcRaw_polled_le (input : Nat → Option UInt8) (c : Console) :
    c.polled ≤ (c.getcRaw input).2.polled := by
  rcases Console.getcRaw_cases input c with ⟨ch, -, read⟩ | ⟨-, read⟩ <;> rw [read]
  exact Nat.le_succ _

/-- A loop reads at least one character. -/
theorem readInputLoop_polled (input : Nat → Option UInt8) (limit : Nat) (c : Console) :
    (c.getcRaw input).2.polled ≤ (readInputLoop input (limit + 1) c).polled := by
  induction limit generalizing c with
  | zero =>
      unfold readInputLoop
      rcases c.getcRaw input with ⟨_ | ch, c'⟩
      · exact Nat.le_refl c'.polled
      · have used := readInputChar_polled c' ch
        simp only
        split <;> exact used.ge
  | succ limit ih =>
      rw [readInputLoop]
      rcases c.getcRaw input with ⟨_ | ch, c'⟩
      · exact Nat.le_refl c'.polled
      · have used := readInputChar_polled c' ch
        have read := getcRaw_polled_le input (readInputChar c' ch)
        have rest := ih (readInputChar c' ch)
        simp only
        split <;> omega

theorem readEscapeChar_polled (c : Console) (ch : UInt8) :
    (readEscapeChar c ch).2.polled = c.polled := by
  unfold readEscapeChar
  repeat' split
  all_goals rfl

theorem endEscape_polled (flag : SequenceFlag) (c : Console) :
    (endEscape flag c).polled = c.polled := by
  cases flag <;> rfl

/-- The loop polls at least once. -/
theorem readEscapeLoop_polled (input : Nat → Option UInt8) (limit : Nat) (c : Console) :
    (c.getcRaw input).2.polled ≤ (readEscapeLoop input (limit + 1) c).2.polled := by
  induction limit generalizing c with
  | zero =>
      unfold readEscapeLoop
      rcases c.getcRaw input with ⟨_ | ch, c'⟩
      · exact Nat.le_refl c'.polled
      · have used := readEscapeChar_polled c' ch
        rcases taken : readEscapeChar c' ch with ⟨_ | _ | _, c''⟩ <;> rw [taken] at used <;>
          simpa only [taken, readEscapeLoop] using used.ge
  | succ limit ih =>
      rw [readEscapeLoop]
      rcases c.getcRaw input with ⟨_ | ch, c'⟩
      · exact Nat.le_refl c'.polled
      · have used := readEscapeChar_polled c' ch
        rcases taken : readEscapeChar c' ch with ⟨_ | _ | _, c''⟩ <;> rw [taken] at used
        · simpa only [taken] using used.ge
        · simpa only [taken] using used.ge
        · have read := getcRaw_polled_le input c''
          have rest := ih c''
          simp only [taken] at used ⊢
          omega

theorem getcRaw_polled (input : Nat → Option UInt8) (empty : c.snoopChar = none) :
    (c.getcRaw input).2.polled = c.polled + 1 := by
  simp [Console.getcRaw, empty]

/-- With nothing put back, the loops poll the device. -/
theorem readInputLoop_polls {limit : Nat} (rounds : 0 < limit) (empty : c.snoopChar = none) :
    c.polled < (readInputLoop input limit c).polled := by
  cases limit with
  | zero => cases rounds
  | succ limit =>
      have read := getcRaw_polled input empty
      have loop := readInputLoop_polled input limit c
      omega

theorem readEscapeLoop_polls {limit : Nat} (rounds : 0 < limit) (empty : c.snoopChar = none) :
    c.polled < (readEscapeLoop input limit c).2.polled := by
  cases limit with
  | zero => cases rounds
  | succ limit =>
      have read := getcRaw_polled input empty
      have loop := readEscapeLoop_polled input limit c
      omega

theorem readInputChar_snoop (notEscape : ch ≠ 0x1B) :
    (readInputChar c ch).snoopChar = c.snoopChar := by
  unfold readInputChar
  rw [if_neg notEscape]
  repeat' split
  all_goals rfl

/-- An `ESC` that was put back is put back again. -/
theorem readInputLoop_escape (limit : Nat) (escapes : c.state = .readEscapeSequence)
    (start : c.csWriteIndex = 0) (putBack : c.snoopChar = some 0x1B) :
    readInputLoop input limit c = c := by
  induction limit with
  | zero => rfl
  | succ limit ih =>
      have again : readInputChar { c with snoopChar := none } 0x1B = c := by
        calc readInputChar { c with snoopChar := none } 0x1B
          _ = { c with snoopChar := some 0x1B, csWriteIndex := 0,
                       state := .readEscapeSequence } := rfl
          _ = c := by rw [← escapes, ← start, ← putBack]
      unfold readInputLoop
      simp only [Console.getcRaw, putBack, again, ih]
      simp

theorem stateParseInput_state (c : Console) :
    (stateParseInput callback c).state = .startNewCommand := by
  unfold stateParseInput
  simp only
  repeat' split
  all_goals rfl

theorem stateParseInput_polled (c : Console) :
    (stateParseInput callback c).polled = c.polled := by
  unfold stateParseInput
  simp only
  repeat' split
  all_goals rfl

/-- No call takes a poll back. -/
theorem pump_polled_le (c : Console) :
    c.polled ≤ (consolePumpConsole input callback c).polled := by
  have read := getcRaw_polled_le input c
  unfold consolePumpConsole
  cases c.state with
  | startNewCommand => exact Nat.le_refl c.polled
  | readInput => exact read.trans (readInputLoop_polled input 7 c)
  | readEscapeSequence =>
      simp only [stateReadEscapeSequence, endEscape_polled]
      exact read.trans (readEscapeLoop_polled input 7 c)
  | parseEscapeSequenceAnsi => exact Nat.le_refl c.polled
  | parseInput => exact (stateParseInput_polled c).ge

theorem run_polled_le (pumps : Nat) (c : Console) :
    c.polled ≤ ((consolePumpConsole input callback)^[pumps] c).polled := by
  induction pumps generalizing c with
  | zero => exact le_rfl
  | succ pumps ih => exact (pump_polled_le c).trans (ih _)

/-- Each pump polls the device or brings the console nearer to it. -/
theorem pump_polls (input : Nat → Option UInt8)
    (callback : List Dispatch → List (List UInt8)) (inv : ConsoleInv c) :
    c.polled < (consolePumpConsole input callback c).polled ∨
      (consolePumpConsole input callback c).patience < c.patience := by
  have snoop := inv.snoop
  unfold consolePumpConsole
  cases state : c.state with
  | startNewCommand =>
      have empty : c.snoopChar = none := by simpa only [SnoopOk, state] using snoop
      right
      simp [Console.patience, state, stateStartNewCommand, Console.puts, Console.put, empty]
  | parseEscapeSequenceAnsi =>
      have empty : c.snoopChar = none := by simpa only [SnoopOk, state] using snoop
      right
      simp [Console.patience, state, stateParseEscapeSequenceAnsi, empty]
  | parseInput =>
      right
      simp [Console.patience, state, stateParseInput_state]
  | readInput =>
      cases putBack : c.snoopChar with
      | none =>
          left
          exact readInputLoop_polls (Nat.succ_pos 7) putBack
      | some ch =>
          have patience : c.patience = 3 := by simp [Console.patience, state, putBack]
          have read : c.getcRaw input = (some ch, { c with snoopChar := none }) := by
            simp [Console.getcRaw, putBack]
          rw [stateReadInput, readInputLoop, read]
          simp only
          by_cases isReturn : ch = 0x0D
          · right
            rw [if_pos isReturn, patience]
            simp [readInputChar, isReturn, Console.patience]
          rw [if_neg isReturn]
          by_cases isEscape : ch = 0x1B
          · subst isEscape
            have spins : readInputLoop input 7 (readInputChar { c with snoopChar := none } 0x1B) =
                readInputChar { c with snoopChar := none } 0x1B :=
              readInputLoop_escape 7 rfl rfl rfl
            right
            rw [spins, patience]
            simp [readInputChar, Console.patience]
          · have next : (readInputChar { c with snoopChar := none } ch).snoopChar = none :=
              readInputChar_snoop isEscape
            have used : (readInputChar { c with snoopChar := none } ch).polled = c.polled :=
              readInputChar_polled _ ch
            left
            exact used.symm.trans_lt (readInputLoop_polls (Nat.succ_pos 6) next)
  | readEscapeSequence =>
      left
      simp only [stateReadEscapeSequence, endEscape_polled]
      rcases by simpa only [SnoopOk, state] using snoop with ⟨start, putBack⟩ | ⟨-, empty⟩
      · have first : c.getcRaw input = (some 0x1B, { c with snoopChar := none }) := by
          simp [Console.getcRaw, putBack]
        have stored : readEscapeChar { c with snoopChar := none } 0x1B = (.pending, { c with
            snoopChar := none, csBuffer := c.csBuffer.set 0 0x1B, csWriteIndex := 1 }) := by
          simp [readEscapeChar, start, sequenceFlag, CS_BUFFER_SIZE]
        rw [readEscapeLoop, first]
        simp only [stored]
        change Console.polled { c with
          snoopChar := none, csBuffer := c.csBuffer.set 0 0x1B, csWriteIndex := 1 } < _
        exact readEscapeLoop_polls (Nat.succ_pos 6) rfl
      · exact readEscapeLoop_polls (Nat.succ_pos 7) empty

/-- Sooner or later the device is polled. -/
theorem Tracks.polls (tracks : Tracks callback input e c) :
    ∃ pumps, c.polled < ((consolePumpConsole input callback)^[pumps] c).polled := by
  induction patience : c.patience using Nat.strong_induction_on generalizing c with
  | _ patience ih =>
      rcases pump_polls input callback tracks.inv with polls | nearer
      · exact ⟨1, polls⟩
      · obtain ⟨pumps, later⟩ := ih _ (patience ▸ nearer) tracks.pump rfl
        exact ⟨pumps + 1, (pump_polled_le c).trans_lt later⟩

/-- Everything that the device has is read. -/
theorem Tracks.reads (tracks : Tracks callback input e c) (polls : Nat) :
    ∃ pumps, polls ≤ ((consolePumpConsole input callback)^[pumps] c).polled := by
  induction polls with
  | zero => exact ⟨0, Nat.zero_le _⟩
  | succ polls ih =>
      obtain ⟨pumps, read⟩ := ih
      obtain ⟨more, further⟩ := (tracks.run pumps).polls
      refine ⟨more + pumps, ?_⟩
      rw [Function.iterate_add_apply]
      omega

/-- No call is due: those of the editor have been made. -/
def Settled (callback : List Dispatch → List (List UInt8)) (c : Console) : Prop :=
  (c.editor callback).dispatched = c.dispatched

/-- Without a character put back the line is settled. -/
theorem settled_of_empty (empty : c.snoopChar = none) (state : c.state ≠ .parseInput) :
    Settled callback c := by
  unfold Settled
  rw [Console.editor_of_none empty]
  unfold Console.base
  cases found : c.state with
  | readEscapeSequence =>
      simp only
      split <;> rfl
  | parseInput => exact absurd found state
  | _ => rfl

/-- Only the two reading states have a character that was put back. -/
theorem putBack_cases (inv : ConsoleInv c) (putBack : c.snoopChar = some ch) :
    c.state = .readInput ∨
      c.state = .readEscapeSequence ∧ c.csWriteIndex = 0 ∧ ch = 0x1B := by
  have snoop := inv.snoop
  unfold SnoopOk at snoop
  rw [putBack] at snoop
  cases state : c.state with
  | readInput => exact .inl rfl
  | readEscapeSequence =>
      rw [state] at snoop
      rcases snoop with ⟨start, isEscape⟩ | ⟨-, empty⟩
      · exact .inr ⟨rfl, start, Option.some.inj isEscape⟩
      · cases empty
  | _ =>
      rw [state] at snoop
      cases snoop

theorem edit_dispatched (notReturn : ch ≠ 0x0D) :
    (e.edit callback ch).dispatched = e.dispatched := by
  unfold Editor.edit
  rw [if_neg notReturn]
  repeat' split
  all_goals rfl

/-- Sooner or later no call is due. -/
theorem Tracks.settles (tracks : Tracks callback input e c) :
    ∃ pumps, Settled callback ((consolePumpConsole input callback)^[pumps] c) := by
  have parsed {c : Console} (tracks : Tracks callback input e c)
      (parses : c.state = .parseInput) :
      Settled callback (consolePumpConsole input callback c) := by
    have next : (consolePumpConsole input callback c).state = .startNewCommand := by
      simp [consolePumpConsole, parses, stateParseInput_state]
    have snoop := tracks.pump.inv.snoop
    have empty : (consolePumpConsole input callback c).snoopChar = none := by
      simpa only [SnoopOk, next] using snoop
    exact settled_of_empty empty (by simp [next])
  by_cases parses : c.state = .parseInput
  · exact ⟨1, parsed tracks parses⟩
  cases putBack : c.snoopChar with
  | none => exact ⟨0, settled_of_empty putBack parses⟩
  | some ch =>
      rcases putBack_cases tracks.inv putBack with reads | ⟨escapes, start, isEscape⟩
      · by_cases isReturn : ch = 0x0D
        · have read : c.getcRaw input = (some ch, { c with snoopChar := none }) := by
            simp [Console.getcRaw, putBack]
          have next : (consolePumpConsole input callback c).state = .parseInput := by
            rw [consolePumpConsole, reads]
            simp only [stateReadInput]
            rw [Libs.readInputLoop, read]
            simp [isReturn, Libs.readInputChar]
          exact ⟨2, parsed tracks.pump next⟩
        · refine ⟨0, (congrArg Editor.dispatched (Console.editor_of_some putBack)).trans ?_⟩
          have base : (c.base callback).mode = .input := by simp [Console.base, reads]
          rw [Editor.step, base]
          refine (edit_dispatched isReturn).trans ?_
          simp [Console.base, reads]
      · refine ⟨0, (congrArg Editor.dispatched (Console.editor_of_some putBack)).trans ?_⟩
        simp [Console.base, escapes, start, isEscape, Editor.step, Editor.edit]

end Progress

/-! ## The console and the editor -/

section Refinement

variable {callback : List Dispatch → List (List UInt8)} {input : Nat → Option UInt8}

theorem Editor.submit_dispatched (e : Editor) :
    e.dispatched <+: (e.submit callback).dispatched := by
  unfold submit
  split
  · exact List.prefix_rfl
  · split
    · exact List.prefix_append _ _
    · exact List.prefix_rfl

/-- What has been dispatched stays. -/
theorem Editor.step_dispatched (e : Editor) (ch : UInt8) :
    e.dispatched <+: (e.step callback ch).dispatched := by
  have edits (e : Editor) : e.dispatched <+: (e.edit callback ch).dispatched := by
    by_cases isReturn : ch = 0x0D
    · simpa [edit, isReturn] using e.submit_dispatched
    · exact (edit_dispatched isReturn).symm ▸ List.prefix_rfl
  unfold step
  split
  · exact edits e
  · split
    · exact List.prefix_rfl
    split
    · exact edits { e with mode := .input }
    split <;> exact List.prefix_rfl

/-- More polls dispatch more. -/
theorem Editor.after_mono (e : Editor) {first second : Nat} (later : first ≤ second) :
    (e.after callback input first).dispatched <+: (e.after callback input second).dispatched := by
  induction later with
  | refl => exact List.prefix_rfl
  | step _ ih =>
      rw [Editor.after_succ]
      split
      · exact ih
      · exact ih.trans (Editor.step_dispatched _ _)

/-- The console has made no call that the editor has not made. -/
theorem Console.dispatched_isPrefix (callback : List Dispatch → List (List UInt8))
    (c : Console) :
    c.dispatched <+: (c.editor callback).dispatched := by
  have ofBase : c.dispatched <+: (c.base callback).dispatched := by
    unfold base
    cases c.state with
    | readEscapeSequence =>
        simp only
        split <;> exact List.prefix_rfl
    | parseInput =>
        exact Editor.submit_dispatched
          ⟨c.root, c.argLineSize, c.maxArgc, c.line, .input, c.dispatched⟩
    | _ => exact List.prefix_rfl
  unfold editor
  cases c.snoopChar with
  | none => exact ofBase
  | some ch => exact ofBase.trans (Editor.step_dispatched _ ch)

theorem getElem?_of_isPrefix {α : Type*} {first second : List α} (start : first <+: second)
    {index : Nat} {value : α} (found : first[index]? = some value) :
    second[index]? = some value := by
  obtain ⟨rest, rfl⟩ := start
  obtain ⟨inside, -⟩ := List.getElem?_eq_some_iff.mp found
  rwa [List.getElem?_append_left inside]

/-- `console_alloc_console`, with commands, echo and prompt. -/
theorem tracks_alloc (memory : Nat → UInt8) (maxArgLineLength maxArgCount : Nat)
    (root : List (List UInt8)) (fLocalEcho : Bool) (prompt : Option (List UInt8)) :
    Tracks callback input
      ⟨root, max maxArgLineLength 16, max maxArgCount 1, [], .input, []⟩
      { consoleAllocConsole memory maxArgLineLength maxArgCount with
        root := root, fLocalEcho := fLocalEcho, prompt := prompt } := by
  refine ⟨⟨⟨?_, ?_, ?_, ?_⟩, ?_, ?_⟩, ?_⟩
  · simp [consoleAllocConsole]
  · simp [consoleAllocConsole]
  · simp [consoleAllocConsole]
  · simp [consoleAllocConsole]
  · simp [consoleAllocConsole, Console.line]
  · rfl
  · rfl

/-- Whatever the polls return, the console makes the calls that the editor makes on the
bytes among it, and stays in its buffers. -/
theorem console_refines_editor (callback : List Dispatch → List (List UInt8))
    (input : Nat → Option UInt8) (memory : Nat → UInt8) (maxArgLineLength maxArgCount : Nat)
    (root : List (List UInt8)) (fLocalEcho : Bool) (prompt : Option (List UInt8)) :
    let console (pumps : Nat) := (consolePumpConsole input callback)^[pumps]
      { consoleAllocConsole memory maxArgLineLength maxArgCount with
        root := root, fLocalEcho := fLocalEcho, prompt := prompt }
    let editor : Editor :=
      ⟨root, max maxArgLineLength 16, max maxArgCount 1, [], .input, []⟩
    (∀ pumps, InBuffers (console pumps)) ∧
      ∀ (index : Nat) (call : Dispatch),
        (∃ pumps, (console pumps).dispatched[index]? = some call) ↔
          ∃ polls, (editor.after callback input polls).dispatched[index]? = some call := by
  intro console editor
  have start : Tracks callback input editor (console 0) := tracks_alloc _ _ _ _ _ _
  have along (pumps : Nat) : Tracks callback input editor (console pumps) := start.run pumps
  refine ⟨fun pumps => (along pumps).inv.inBuffers, fun index call => ⟨?_, ?_⟩⟩
  · rintro ⟨pumps, called⟩
    have made := getElem?_of_isPrefix (Console.dispatched_isPrefix callback _) called
    rw [(along pumps).editor] at made
    exact ⟨_, made⟩
  · rintro ⟨polls, called⟩
    obtain ⟨pumps, read⟩ := start.reads polls
    obtain ⟨more, settled⟩ := (along pumps).settles
    have whole : (consolePumpConsole input callback)^[more] (console pumps) =
        console (more + pumps) := (Function.iterate_add_apply _ _ _ _).symm
    rw [whole] at settled
    have further : polls ≤ (console (more + pumps)).polled := by
      rw [← whole]
      exact read.trans (run_polled_le more _)
    have made := getElem?_of_isPrefix (Editor.after_mono editor further) called
    rw [← (along (more + pumps)).editor, settled] at made
    exact ⟨_, made⟩

end Refinement

end Zsbl.Libs
