/-
Module: Zsbl.Proofs.Console
Purpose: An editor that takes its input byte by byte, and the console's pumps, which
  stay with it.
Trusted boundary: none
Main exports:
  Editor, Editor.step, splitArgLine_words, ConsoleInv, Tracks, Tracks.pump, Tracks.run
-/
import Zsbl.Libs.Console
import Mathlib.Logic.Function.Iterate

namespace Zsbl.Libs

open Zsbl.Lib

/-! ## The reference editor -/

/-- Editing the line, or in a control sequence some bytes of which were taken. -/
inductive EditorMode where
  | input
  | escape (taken : Nat)
deriving DecidableEq, Repr

/-- An editor without buffers. -/
structure Editor where
  root : List (List UInt8)
  size : Nat
  maxArgc : Nat
  line : List UInt8
  mode : EditorMode
  dispatched : List Dispatch
deriving DecidableEq, Repr

namespace Editor

/-- Call the command that the line names, and start a new line. -/
def submit (callback : List Dispatch → List (List UInt8)) (e : Editor) : Editor :=
  match (words isWhitespace e.line).take e.maxArgc with
  | [] => { e with line := [] }
  | name :: args =>
      if name ∈ e.root then
        let dispatched := e.dispatched ++ [⟨name, name :: args⟩]
        { e with root := callback dispatched, line := [], dispatched := dispatched }
      else { e with line := [] }

/-- A byte of ordinary input. -/
def edit (callback : List Dispatch → List (List UInt8)) (e : Editor) (ch : UInt8) : Editor :=
  if ch = 0x0D then e.submit callback
  else if ch = 0x08 ∨ ch = 0x7F then { e with line := e.line.dropLast }
  else if ch = 0x1B then { e with mode := .escape 1 }
  else if 0x1F < ch ∧ e.line.length < e.size then { e with line := e.line ++ [ch] }
  else e

/-- Whether a byte ends a control sequence of which some bytes were taken. -/
def IsFinal (taken : Nat) (ch : UInt8) : Prop :=
  if taken = 1 then ch ≠ 0x5B ∧ 0x40 ≤ ch ∧ ch ≤ 0x5F else 0x40 ≤ ch ∧ ch ≤ 0x7E

instance (taken : Nat) (ch : UInt8) : Decidable (IsFinal taken ch) := by
  unfold IsFinal
  infer_instance

/-- Any byte. -/
def step (callback : List Dispatch → List (List UInt8)) (e : Editor) (ch : UInt8) : Editor :=
  match e.mode with
  | .input => e.edit callback ch
  | .escape taken =>
      if ch = 0x18 ∨ ch = 0x1A then { e with mode := .input }
      else if CS_BUFFER_SIZE ≤ taken then { e with mode := .input }.edit callback ch
      else if IsFinal taken ch then { e with mode := .input }
      else { e with mode := .escape (taken + 1) }

/-- The editor behind the bytes that some polls of the device have returned. -/
def after (callback : List Dispatch → List (List UInt8)) (input : Nat → Option UInt8)
    (e : Editor) (polls : Nat) : Editor :=
  ((List.range polls).filterMap input).foldl (step callback) e

/-- The next poll edits the line, if there is a character. -/
theorem after_succ (callback : List Dispatch → List (List UInt8))
    (input : Nat → Option UInt8) (e : Editor) (polls : Nat) :
    e.after callback input (polls + 1) = match input polls with
      | none => e.after callback input polls
      | some ch => (e.after callback input polls).step callback ch := by
  unfold after
  rw [List.range_succ, List.filterMap_append, List.foldl_append]
  cases returned : input polls with
  | none => simp [returned]
  | some ch => simp [returned]

end Editor

/-! ## Splitting the argument line -/

/-- In a string without such a character the search ends at the NUL. -/
theorem findFirst_none {wanted : UInt8 → Bool} {str : List UInt8}
    (unwanted : ∀ ch ∈ str, wanted ch = false) (rest : List UInt8) (position : Nat) :
    findFirst wanted (str ++ 0 :: rest) position = none := by
  induction str generalizing position with
  | nil => simp [findFirst]
  | cons ch str ih =>
      have first : wanted ch = false := unwanted ch (by simp)
      have others := fun other isRest => unwanted other (List.mem_cons_of_mem ch isRest)
      simp [findFirst, first, ih others]

/-- The first such character of a string is found. -/
theorem findFirst_some {wanted : UInt8 → Bool} {str : List UInt8} (isString : 0 ∉ str)
    (unwanted : ∀ ch ∈ str, wanted ch = false) {ch : UInt8} (nonzero : ch ≠ 0)
    (isWanted : wanted ch = true) (rest : List UInt8) (position : Nat) :
    findFirst wanted (str ++ ch :: rest) position = some (position + str.length) := by
  induction str generalizing position with
  | nil => simp [findFirst, nonzero, isWanted]
  | cons first str ih =>
      have isFirst : wanted first = false := unwanted first (by simp)
      have others := fun other isRest => unwanted other (List.mem_cons_of_mem first isRest)
      have firstNonzero : first ≠ 0 := by
        rintro rfl
        exact isString List.mem_cons_self
      have isString' : 0 ∉ str := fun member => isString (List.mem_cons_of_mem first member)
      simp only [List.cons_append, findFirst, if_neg firstNonzero, isFirst, Bool.false_eq_true,
        if_false, ih isString' others, List.length_cons]
      congr 1
      omega

/-- Splitting stores NULs in the line and does not change its length. -/
theorem splitArgLine_length (argc : Nat) (argLine : List UInt8) (position : Nat) :
    (splitArgLine argc argLine position).2.length = argLine.length := by
  induction argc generalizing argLine position with
  | zero => rfl
  | succ argc ih =>
      unfold splitArgLine
      split
      · rfl
      · split
        · rfl
        · simp [ih]

/-- Behind the blanks the word begins. -/
theorem findFirstNonWhitesapce_word {spaces word : List UInt8} (spacesString : 0 ∉ spaces)
    (blank : ∀ ch ∈ spaces, isWhitespace ch = true) (wordString : 0 ∉ word)
    (nonempty : word ≠ []) (black : ∀ ch ∈ word, isWhitespace ch = false)
    (front rest : List UInt8) :
    findFirstNonWhitesapce (front ++ (spaces ++ (word ++ rest))) front.length =
      some (front.length + spaces.length) := by
  obtain ⟨first, more, rfl⟩ := List.exists_cons_of_ne_nil nonempty
  have firstNonzero : first ≠ 0 := by
    rintro rfl
    exact wordString List.mem_cons_self
  have firstBlack : isWhitespace first = false := black first List.mem_cons_self
  unfold findFirstNonWhitesapce
  rw [List.drop_left, List.cons_append]
  exact findFirst_some spacesString (by simpa using blank) firstNonzero (by simp [firstBlack])
    _ _

/-- The parts that the loop finds in the rest of the line are its first words. -/
theorem splitArgLine_words (argc : Nat) (front line rest : List UInt8) (isString : 0 ∉ line) :
    ∃ argv tail,
      splitArgLine argc (front ++ (line ++ 0 :: rest)) front.length = (argv, front ++ tail) ∧
        argv.map (fun start => cstr ((front ++ tail).drop start)) =
          (words isWhitespace line).take argc := by
  induction argc generalizing front line with
  | zero => exact ⟨[], _, rfl, rfl⟩
  | succ argc ih =>
      obtain ⟨spaces, part, rfl, blank, rfl | ⟨word, nonempty, black, isPart⟩⟩ :=
        line_cases isWhitespace line
      · -- nothing is left
        unfold splitArgLine findFirstNonWhitesapce
        rw [List.drop_left, List.append_nil, findFirst_none (by simpa using blank)]
        exact ⟨[], _, rfl, by simp [words_separators blank]⟩
      · have spacesString : 0 ∉ spaces := fun member => isString (by simp [member])
        have wordString : 0 ∉ word := by
          rcases isPart with rfl | ⟨sep, others, isSep, rfl⟩ <;>
            exact fun member => isString (by simp [member])
        have start (tail : List UInt8) :
            (front ++ (spaces ++ tail)).drop (front.length + spaces.length) = tail := by
          rw [← List.append_assoc, ← List.length_append, List.drop_left]
        rcases isPart with rfl | ⟨sep, others, isSep, rfl⟩
        · -- the last word ends at the NUL of the line
          unfold splitArgLine findFistWhitespace
          rw [List.append_assoc, findFirstNonWhitesapce_word spacesString blank wordString
            nonempty black]
          simp only [start, findFirst_none black]
          refine ⟨_, _, rfl, ?_⟩
          rw [words_skip blank, words_last nonempty black]
          simp [start, cstr_append_zero wordString]
        · -- the character behind the word becomes a NUL
          have othersString : 0 ∉ others := fun member => isString (by simp [member])
          have sepNonzero : sep ≠ 0 := by
            rintro rfl
            exact isString (by simp)
          have stopped : (front ++ (spaces ++ (word ++ sep :: (others ++ 0 :: rest)))).set
              (front.length + spaces.length + word.length) 0 =
                (front ++ spaces ++ word ++ [0]) ++ (others ++ 0 :: rest) := by
            simp only [← List.append_assoc, ← List.length_append]
            rw [List.set_append_right _ _ le_rfl]
            simp
          have length : (front ++ spaces ++ word ++ [0]).length =
              front.length + spaces.length + word.length + 1 := by
            simp
            omega
          obtain ⟨argv, tail, split, found⟩ :=
            ih (front ++ spaces ++ word ++ [0]) others othersString
          have whole : front ++ spaces ++ word ++ [0] ++ tail =
              front ++ (spaces ++ (word ++ 0 :: tail)) := by
            simp
          rw [length, whole] at split
          rw [whole] at found
          unfold splitArgLine findFistWhitespace
          rw [List.append_assoc, List.append_assoc, List.cons_append,
            findFirstNonWhitesapce_word spacesString blank wordString nonempty black]
          simp only [start, findFirst_some wordString black sepNonzero isSep, stopped, split]
          refine ⟨_, _, rfl, ?_⟩
          rw [words_skip blank, words_first nonempty black isSep, List.take_succ_cons,
            List.map_cons, found, start, cstr_append_zero wordString]

/-! ## The editor that a console has become -/

namespace Console

/-- What has been typed of the line. -/
def line (c : Console) : List UInt8 := c.argLine.take c.argLineWriteIndex

/-- The editor, but for a character that was put back. -/
def base (callback : List Dispatch → List (List UInt8)) (c : Console) : Editor :=
  let typing : Editor := ⟨c.root, c.argLineSize, c.maxArgc, c.line, .input, c.dispatched⟩
  match c.state with
  | .startNewCommand => { typing with line := [] }
  | .readInput => typing
  | .readEscapeSequence =>
      if c.csWriteIndex = 0 then typing else { typing with mode := .escape c.csWriteIndex }
  | .parseEscapeSequenceAnsi => typing
  | .parseInput => typing.submit callback

/-- The editor, with that character taken. -/
def editor (callback : List Dispatch → List (List UInt8)) (c : Console) : Editor :=
  match c.snoopChar with
  | none => c.base callback
  | some ch => (c.base callback).step callback ch

end Console

/-- Nothing is written past the buffers. -/
structure InBuffers (c : Console) : Prop where
  length_argLine : c.argLine.length = c.argLineSize + 1
  length_csBuffer : c.csBuffer.length = CS_BUFFER_SIZE
  argLineWriteIndex_le : c.argLineWriteIndex ≤ c.argLineSize
  csWriteIndex_le : c.csWriteIndex ≤ CS_BUFFER_SIZE

/-- Where a character may have been put back: only `ESC` in front of a sequence. -/
def SnoopOk (c : Console) : Prop :=
  match c.state with
  | .readInput => True
  | .readEscapeSequence =>
      c.csWriteIndex = 0 ∧ c.snoopChar = some 0x1B ∨ 0 < c.csWriteIndex ∧ c.snoopChar = none
  | _ => c.snoopChar = none

structure ConsoleInv (c : Console) : Prop where
  inBuffers : InBuffers c
  noNul : c.state ≠ .startNewCommand → 0 ∉ c.line
  snoop : SnoopOk c

namespace Console

variable {input : Nat → Option UInt8} {callback : List Dispatch → List (List UInt8)}
  {c : Console}

/-- A character comes from the one that was put back, or from the line. -/
theorem getcRaw_cases (input : Nat → Option UInt8) (c : Console) :
    (∃ ch, c.snoopChar = some ch ∧
      c.getcRaw input = (some ch, { c with snoopChar := none })) ∨
    (c.snoopChar = none ∧
      c.getcRaw input = (input c.polled, { c with polled := c.polled + 1 })) := by
  unfold getcRaw
  cases c.snoopChar with
  | some ch => exact .inl ⟨ch, rfl, rfl⟩
  | none => exact .inr ⟨rfl, rfl⟩

theorem editor_of_none (empty : c.snoopChar = none) : c.editor callback = c.base callback := by
  simp [editor, empty]

theorem editor_of_some {ch : UInt8} (putBack : c.snoopChar = some ch) :
    c.editor callback = (c.base callback).step callback ch := by
  simp [editor, putBack]

end Console

/-! ## Characters of a line -/

/-- A character has been read that is for `state_read_input`. -/
structure Typed (c : Console) (ch : UInt8) : Prop where
  inBuffers : InBuffers c
  noNul : 0 ∉ c.line
  snoop : c.snoopChar = none
  state : c.state = .readInput ∨
    c.state = .readEscapeSequence ∧ c.csWriteIndex = 0 ∧ ch = 0x1B

section Typed

variable {callback : List Dispatch → List (List UInt8)} {c : Console} {ch : UInt8}

theorem Typed.base_eq (callback : List Dispatch → List (List UInt8))
    (typed : Typed c ch) :
    c.base callback = ⟨c.root, c.argLineSize, c.maxArgc, c.line, .input, c.dispatched⟩ := by
  rcases typed.state with reads | ⟨escapes, start, -⟩
  · simp [Console.base, reads]
  · simp [Console.base, escapes, start]

/-- Changing the line changes it in the editor, and nothing else. -/
theorem Typed.editor_line (typed : Typed c ch) (argLine : List UInt8) (index : Nat)
    (output : List UInt8) :
    ({ c with argLine := argLine, argLineWriteIndex := index, output := output }).editor
      callback = { c.base callback with line := argLine.take index } := by
  rw [typed.base_eq]
  rcases typed.state with reads | ⟨escapes, start, -⟩
  · simp [Console.editor, Console.base, Console.line, typed.snoop, reads]
  · simp [Console.editor, Console.base, Console.line, typed.snoop, escapes, start]

theorem line_length (inside : InBuffers c) : c.line.length = c.argLineWriteIndex := by
  have := inside.length_argLine
  have := inside.argLineWriteIndex_le
  simp [Console.line]
  omega

/-- Storing a character at the end of the line. -/
theorem take_set_succ {bytes : List UInt8} {index : Nat} (inside : index < bytes.length)
    (byte : UInt8) : (bytes.set index byte).take (index + 1) = bytes.take index ++ [byte] := by
  rw [List.take_add_one]
  simp [inside, List.take_set_of_le]

theorem readInputChar_polled (c : Console) (ch : UInt8) :
    (readInputChar c ch).polled = c.polled := by
  unfold readInputChar
  repeat' split
  all_goals rfl

/-- A character does to the line what it does in the editor. -/
theorem readInputChar_editor (typed : Typed c ch) :
    (readInputChar c ch).editor callback = (c.base callback).step callback ch := by
  have length := line_length typed.inBuffers
  have inside := typed.inBuffers.argLineWriteIndex_le
  have room := typed.inBuffers.length_argLine
  have unchanged : c.editor callback = c.base callback := Console.editor_of_none typed.snoop
  have base := typed.base_eq callback
  have sameLine : (c.base callback).line = c.line := by rw [base]
  have sameSize : (c.base callback).size = c.argLineSize := by rw [base]
  have step : (c.base callback).step callback ch = (c.base callback).edit callback ch := by
    simp [Editor.step, base]
  rw [step]
  unfold readInputChar Editor.edit
  by_cases isReturn : ch = 0x0D
  · -- the line is parsed when the console is pumped next
    rw [if_pos isReturn, if_pos isReturn, base]
    simp [Console.editor, Console.base, Console.putNewline, Console.put, typed.snoop,
      Console.line]
  rw [if_neg isReturn, if_neg isReturn]
  by_cases isNul : ch = 0x00
  · subst isNul
    simpa using unchanged
  rw [if_neg isNul]
  by_cases isDelete : ch = 0x08 ∨ ch = 0x7F
  · rw [if_pos isDelete, if_pos isDelete]
    split
    · have shorter : c.argLine.take (c.argLineWriteIndex - 1) = c.line.dropLast := by
        rw [Console.line, List.dropLast_take]
        omega
      rw [sameLine, ← shorter]
      exact typed.editor_line _ _ _
    · rename_i empty
      have isEmpty : c.line = [] := by
        rw [← List.length_eq_zero_iff]
        omega
      rw [unchanged, base]
      simp [isEmpty]
  rw [if_neg isDelete, if_neg isDelete]
  by_cases isEscape : ch = 0x1B
  · rw [if_pos isEscape, if_pos isEscape]
    rw [base]
    simp [Console.editor, Console.base, Editor.step, Editor.edit, isEscape, Console.line]
  rw [if_neg isEscape, if_neg isEscape]
  by_cases isText : 0x1F < ch
  · rw [if_pos isText]
    by_cases fits : c.argLineWriteIndex < c.argLineSize
    · have longer : (c.argLine.set c.argLineWriteIndex ch).take (c.argLineWriteIndex + 1) =
          c.line ++ [ch] := take_set_succ (by omega) ch
      have fits' : 0x1F < ch ∧ (c.base callback).line.length < (c.base callback).size := by
        rw [sameLine, sameSize, length]
        exact ⟨isText, fits⟩
      rw [if_pos fits, if_pos fits', sameLine, ← longer]
      exact typed.editor_line _ _ _
    · have full : ¬ (0x1F < ch ∧ (c.base callback).line.length < (c.base callback).size) := by
        rw [sameLine, sameSize, length]
        exact fun both => fits both.2
      rw [if_neg fits, if_neg full]
      exact unchanged
  · rw [if_neg isText, if_neg (fun both => isText both.1)]
    exact unchanged

/-- A character keeps the line in its buffer and free of NULs. -/
theorem readInputChar_inv (typed : Typed c ch) : ConsoleInv (readInputChar c ch) := by
  have inside := typed.inBuffers
  have noNul := typed.noNul
  have room := inside.length_argLine
  have fitting := inside.argLineWriteIndex_le
  by_cases isEscape : ch = 0x1B
  · subst isEscape
    exact ⟨⟨room, inside.length_csBuffer, fitting, Nat.zero_le _⟩, fun _ => noNul,
      .inl ⟨rfl, rfl⟩⟩
  have reads : c.state = .readInput := by
    rcases typed.state with reads | ⟨-, -, starts⟩
    · exact reads
    · exact absurd starts isEscape
  have same : ConsoleInv c := ⟨inside, fun _ => noNul, by simp [SnoopOk, reads]⟩
  unfold readInputChar
  split
  · exact ⟨⟨room, inside.length_csBuffer, fitting, inside.csWriteIndex_le⟩, fun _ => noNul,
      typed.snoop⟩
  split
  · exact same
  split
  · split
    · have shorter : c.argLine.take (c.argLineWriteIndex - 1) ⊆ c.line :=
        List.take_subset_take_left _ (by omega)
      exact ⟨⟨room, inside.length_csBuffer, (Nat.sub_le _ _).trans fitting,
        inside.csWriteIndex_le⟩, fun _ member => noNul (shorter member), by
          simp [SnoopOk, Console.backspace, Console.put, reads]⟩
    · exact same
  split
  · rename_i nonzero _ _
    split
    · rename_i fits
      have longer : (c.argLine.set c.argLineWriteIndex ch).take (c.argLineWriteIndex + 1) =
          c.line ++ [ch] := take_set_succ (by omega) ch
      refine ⟨⟨(List.length_set).trans room, inside.length_csBuffer, fits,
        inside.csWriteIndex_le⟩, fun _ member => ?_, by simp [SnoopOk, Console.put, reads]⟩
      have member' : 0 ∈ c.line ++ [ch] := longer ▸ member
      rcases List.mem_append.mp member' with inLine | isLast
      · exact noNul inLine
      · exact nonzero (List.mem_singleton.mp isLast).symm
    · exact same
  · exact same

/-- A character other than the return goes on reading, or starts an escape sequence. -/
theorem readInputChar_state (typed : Typed c ch) (goesOn : ch ≠ 0x0D) :
    (readInputChar c ch).state = .readInput ∨
      (readInputChar c ch).state = .readEscapeSequence ∧
        (readInputChar c ch).csWriteIndex = 0 := by
  have same : c.state = .readInput ∨ c.state = .readEscapeSequence ∧ c.csWriteIndex = 0 :=
    typed.state.imp id fun escapes => ⟨escapes.1, escapes.2.1⟩
  unfold readInputChar
  rw [if_neg goesOn]
  split
  · exact same
  split
  · split <;> exact same
  split
  · exact .inr ⟨rfl, rfl⟩
  split
  · split <;> exact same
  · exact same

end Typed

/-! ## Pumping -/

section Tracks

variable {callback : List Dispatch → List (List UInt8)} {input : Nat → Option UInt8}
  {e : Editor} {c : Console} {ch : UInt8}

/-- The console is where the editor is behind what the polls have returned. -/
structure Tracks (callback : List Dispatch → List (List UInt8)) (input : Nat → Option UInt8)
    (e : Editor) (c : Console) : Prop where
  inv : ConsoleInv c
  editor : c.editor callback = e.after callback input c.polled

/-- The console has read a character and not used it yet. -/
structure Received (callback : List Dispatch → List (List UInt8))
    (input : Nat → Option UInt8) (e : Editor) (c : Console) (ch : UInt8) : Prop where
  inBuffers : InBuffers c
  noNul : 0 ∉ c.line
  snoop : c.snoopChar = none
  escape : c.state = .readEscapeSequence → c.csWriteIndex = 0 → ch = 0x1B
  editor : (c.base callback).step callback ch = e.after callback input c.polled

/-- The states that read characters. -/
def ReadsInput (c : Console) : Prop :=
  c.state = .readInput ∨ c.state = .readEscapeSequence ∧ c.csWriteIndex = 0

/-- `term_getc_raw` finds nothing, or a character that was put back or polled. -/
theorem Tracks.getcRaw (tracks : Tracks callback input e c)
    (reads : c.state = .readInput ∨ c.state = .readEscapeSequence) :
    (∃ c', c.getcRaw input = (none, c') ∧ Tracks callback input e c') ∨
    (∃ ch c', c.getcRaw input = (some ch, c') ∧ Received callback input e c' ch ∧
      c'.state = c.state ∧ c'.csWriteIndex = c.csWriteIndex) := by
  have inside := tracks.inv.inBuffers
  have inside' (polled : Nat) (snoopChar : Option UInt8) :
      InBuffers { c with polled := polled, snoopChar := snoopChar } :=
    ⟨inside.1, inside.2, inside.3, inside.4⟩
  have noNul : 0 ∉ c.line := tracks.inv.noNul (by
    rcases reads with reads | reads <;> simp [reads])
  have atStart (escapes : c.state = .readEscapeSequence) (start : c.csWriteIndex = 0) :
      c.snoopChar = some 0x1B := by
    have snoop := tracks.inv.snoop
    rcases by simpa only [SnoopOk, escapes] using snoop with ⟨-, putBack⟩ | ⟨later, -⟩
    · exact putBack
    · omega
  rcases Console.getcRaw_cases input c with ⟨ch, putBack, read⟩ | ⟨empty, read⟩
  · refine .inr ⟨ch, _, read, ⟨inside' _ _, noNul, rfl, ?_, ?_⟩, rfl, rfl⟩
    · intro escapes start
      exact Option.some.inj (putBack.symm.trans (atStart escapes start))
    · exact (Console.editor_of_some putBack).symm.trans tracks.editor
  · have editor := (Console.editor_of_none empty).symm.trans tracks.editor
    have polled : (e.after callback input (c.polled + 1)) = match input c.polled with
        | none => c.base callback
        | some ch => (c.base callback).step callback ch := by
      rw [Editor.after_succ, ← editor]
    rw [read]
    cases returned : input c.polled with
    | none =>
        rw [returned] at polled
        refine .inl ⟨_, rfl, ⟨inside' _ _, tracks.inv.noNul, tracks.inv.snoop⟩, ?_⟩
        exact (Console.editor_of_none empty).trans polled.symm
    | some ch =>
        rw [returned] at polled
        refine .inr ⟨ch, _, rfl, ⟨inside' _ _, noNul, empty, ?_, polled.symm⟩, rfl, rfl⟩
        intro escapes start
        cases empty.symm.trans (atStart escapes start)

theorem Received.typed (received : Received callback input e c ch) (reads : ReadsInput c) :
    Typed c ch :=
  ⟨received.inBuffers, received.noNul, received.snoop,
    reads.imp id fun escapes => ⟨escapes.1, escapes.2, received.escape escapes.1 escapes.2⟩⟩

theorem Received.readInputChar (received : Received callback input e c ch)
    (reads : ReadsInput c) : Tracks callback input e (readInputChar c ch) where
  inv := readInputChar_inv (received.typed reads)
  editor := by
    rw [readInputChar_polled, readInputChar_editor (received.typed reads), received.editor]

/-- The loop over the characters keeps to the editor. -/
theorem Tracks.readInputLoop (limit : Nat) (tracks : Tracks callback input e c)
    (reads : ReadsInput c) : Tracks callback input e (readInputLoop input limit c) := by
  induction limit generalizing c with
  | zero => exact tracks
  | succ limit ih =>
      unfold Libs.readInputLoop
      rcases tracks.getcRaw (reads.imp id And.left) with
        ⟨c', read, tracks'⟩ | ⟨ch, c', read, received, sameState, sameIndex⟩
      · rw [read]
        exact tracks'
      · have reads' : ReadsInput c' := by
          unfold ReadsInput
          rwa [sameState, sameIndex]
        have next := received.readInputChar reads'
        simp only [read]
        split
        · exact next
        · rename_i goesOn
          exact ih next (readInputChar_state (received.typed reads') goesOn)

theorem sequenceFlag_later {index : Nat} (later : 0 < index) (ch : UInt8) :
    sequenceFlag index ch = if Editor.IsFinal index ch then .parse else .pending := by
  unfold sequenceFlag Editor.IsFinal
  by_cases second : index = 1
  · by_cases introducer : ch = 0x5B
    · simp [second, introducer]
    · simp [second, introducer]
  · simp [second, show 1 < index by omega]

/-- A character does to a control sequence what it does in the editor. -/
theorem Received.readEscapeChar (received : Received callback input e c ch)
    (escapes : c.state = .readEscapeSequence) :
    Tracks callback input e
      (endEscape (readEscapeChar c ch).1 (readEscapeChar c ch).2) := by
  have inside := received.inBuffers
  have editor := received.editor
  by_cases start : c.csWriteIndex = 0
  · -- the `ESC` in front of the sequence
    have isEscape := received.escape escapes start
    subst isEscape
    have stored : endEscape (readEscapeChar c 0x1B).1 (readEscapeChar c 0x1B).2 =
        { c with csBuffer := c.csBuffer.set 0 0x1B, csWriteIndex := 1 } := by
      simp [Libs.readEscapeChar, start, sequenceFlag, endEscape, CS_BUFFER_SIZE]
    rw [stored]
    refine ⟨⟨⟨inside.1, by simpa using inside.2, inside.3, by simp [CS_BUFFER_SIZE]⟩,
      fun _ => received.noNul, ?_⟩, ?_⟩
    · simp [SnoopOk, escapes, received.snoop]
    · rw [← editor]
      simp [Console.editor, Console.base, Console.line, received.snoop, escapes, start,
        Editor.step, Editor.edit]
  have later : 0 < c.csWriteIndex := by omega
  have mode : (c.base callback).mode = .escape c.csWriteIndex := by
    simp [Console.base, escapes, start]
  have aborted (snoopChar : Option UInt8) (output : List UInt8) :
      ({ c with snoopChar := snoopChar, output := output, csWriteIndex := 0,
                state := .readInput } : Console).base callback =
        { c.base callback with mode := .input } := by
    simp [Console.base, Console.line, escapes, start]
  rw [Editor.step, mode] at editor
  simp only at editor
  unfold Libs.readEscapeChar
  split at editor
  · -- `CAN` or `SUB`
    rename_i cancels
    rw [if_pos cancels]
    refine ⟨⟨⟨inside.1, inside.2, inside.3, Nat.zero_le _⟩, fun _ => received.noNul,
      trivial⟩, ?_⟩
    refine (Console.editor_of_none ?_).trans ((aborted _ _).trans editor)
    exact received.snoop
  rename_i goesOn
  rw [if_neg goesOn]
  split at editor
  · -- the buffer is full, the character is read again
    rename_i full
    rw [if_neg (by omega)]
    refine ⟨⟨⟨inside.1, inside.2, inside.3, Nat.zero_le _⟩, fun _ => received.noNul,
      trivial⟩, ?_⟩
    refine (Console.editor_of_some rfl).trans (Eq.trans ?_ editor)
    exact congrArg (fun editor => Editor.step callback editor ch) (aborted (some ch) _)
  rename_i room
  rw [if_pos (by omega), sequenceFlag_later later]
  split at editor
  · rename_i final
    rw [if_pos final]
    refine ⟨⟨⟨inside.1, by simpa [endEscape] using inside.2, inside.3,
      Nat.lt_of_not_le room⟩, fun _ => received.noNul, received.snoop⟩, ?_⟩
    refine (Console.editor_of_none ?_).trans (Eq.trans ?_ editor)
    · exact received.snoop
    · simp [Console.base, Console.line, endEscape, escapes, start]
  · rename_i notFinal
    rw [if_neg notFinal]
    refine ⟨⟨⟨inside.1, by simpa [endEscape] using inside.2, inside.3,
      Nat.lt_of_not_le room⟩, fun _ => received.noNul, ?_⟩, ?_⟩
    · simp [SnoopOk, endEscape, escapes, received.snoop]
    refine (Console.editor_of_none ?_).trans (Eq.trans ?_ editor)
    · exact received.snoop
    · simp [Console.base, Console.line, endEscape, escapes, start]

theorem readEscapeChar_state (ch : UInt8) (escapes : c.state = .readEscapeSequence) :
    (readEscapeChar c ch).2.state = .readEscapeSequence := by
  unfold readEscapeChar
  repeat' split
  all_goals exact escapes

/-- So does the loop over an escape sequence. -/
theorem Tracks.readEscapeLoop (limit : Nat) (tracks : Tracks callback input e c)
    (escapes : c.state = .readEscapeSequence) :
    Tracks callback input e
      (endEscape (readEscapeLoop input limit c).1 (readEscapeLoop input limit c).2) := by
  induction limit generalizing c with
  | zero => exact tracks
  | succ limit ih =>
      unfold Libs.readEscapeLoop
      rcases tracks.getcRaw (.inr escapes) with
        ⟨c', read, tracks'⟩ | ⟨ch, c', read, received, sameState, sameIndex⟩
      · rw [read]
        exact tracks'
      · have escapes' : c'.state = .readEscapeSequence := sameState.trans escapes
        have next := received.readEscapeChar escapes'
        have nextState := readEscapeChar_state ch escapes'
        simp only [read]
        rcases taken : Libs.readEscapeChar c' ch with ⟨flag, c''⟩
        rw [taken] at next nextState
        cases flag with
        | pending => exact ih next nextState
        | abort => exact next
        | parse => exact next

/-- A command is found by its whole name. -/
theorem locateCommand_eq (root : List (List UInt8)) (name : List UInt8) :
    locateCommand root name = if name ∈ root then some name else none := by
  unfold locateCommand
  cases found : root.find? fun command => command = name with
  | none =>
      have unknown : name ∉ root := by
        intro member
        simpa using List.find?_eq_none.mp found name member
      rw [if_neg unknown]
  | some command =>
      have same : command = name := by simpa using List.find?_some found
      subst same
      rw [if_pos (List.mem_of_find?_eq_some found)]

/-- The line is split and its command called as in the editor. -/
theorem Tracks.parseInput (tracks : Tracks callback input e c) (parses : c.state = .parseInput) :
    Tracks callback input e (stateParseInput callback c) := by
  have inside := tracks.inv.inBuffers
  have room := inside.length_argLine
  have fitting := inside.argLineWriteIndex_le
  have noNul : 0 ∉ c.line := tracks.inv.noNul (by simp [parses])
  have empty : c.snoopChar = none := by simpa only [SnoopOk, parses] using tracks.inv.snoop
  have editor := (Console.editor_of_none empty).symm.trans tracks.editor
  have ended : c.argLine.set c.argLineWriteIndex 0 =
      c.line ++ 0 :: c.argLine.drop (c.argLineWriteIndex + 1) := by
    rw [List.set_eq_take_append_cons_drop, if_pos (by omega), Console.line]
  obtain ⟨argv, argLine, split, found⟩ := splitArgLine_words c.maxArgc [] c.line
    (c.argLine.drop (c.argLineWriteIndex + 1)) noNul
  rw [List.nil_append, ← ended, List.length_nil, List.nil_append] at split
  rw [List.nil_append] at found
  have length : argLine.length = c.argLineSize + 1 := by
    have := splitArgLine_length c.maxArgc (c.argLine.set c.argLineWriteIndex 0) 0
    rw [split] at this
    simpa [room] using this
  unfold stateParseInput
  rw [split]
  simp only [found]
  simp only [Console.base, parses, Editor.submit] at editor
  cases parts : (words isWhitespace c.line).take c.maxArgc with
  | nil =>
      simp only [parts] at editor ⊢
      refine ⟨⟨⟨length, inside.2, inside.3, inside.4⟩, by simp, empty⟩, ?_⟩
      rw [← editor]
      simp [Console.editor, Console.base, empty]
  | cons name args =>
      simp only [parts] at editor
      simp only [locateCommand_eq]
      by_cases registered : name ∈ c.root
      · rw [if_pos registered] at editor ⊢
        refine ⟨⟨⟨length, inside.2, inside.3, inside.4⟩, by simp, empty⟩, ?_⟩
        rw [← editor]
        simp [Console.editor, Console.base, empty]
      · rw [if_neg registered] at editor ⊢
        refine ⟨⟨⟨length, inside.2, inside.3, inside.4⟩, fun notStart => absurd rfl notStart,
          empty⟩, ?_⟩
        refine (Console.editor_of_none ?_).trans (Eq.trans ?_ editor)
        · exact empty
        · simp [Console.base, Console.puts, Console.put]

/-- The console stays with the editor. -/
theorem Tracks.pump (tracks : Tracks callback input e c) :
    Tracks callback input e (consolePumpConsole input callback c) := by
  have inside := tracks.inv.inBuffers
  unfold consolePumpConsole
  cases state : c.state with
  | startNewCommand =>
      have empty : c.snoopChar = none := by
        simpa only [SnoopOk, state] using tracks.inv.snoop
      have editor := (Console.editor_of_none empty).symm.trans tracks.editor
      refine ⟨⟨⟨inside.1, inside.2, Nat.zero_le _, inside.4⟩, ?_, trivial⟩, ?_⟩
      · simp [Console.line, stateStartNewCommand]
      · refine (Console.editor_of_none ?_).trans (Eq.trans ?_ editor)
        · exact empty
        · simp [Console.base, Console.line, stateStartNewCommand, Console.puts, Console.put,
            state]
  | readInput => exact tracks.readInputLoop 8 (.inl state)
  | readEscapeSequence => exact tracks.readEscapeLoop 8 state
  | parseEscapeSequenceAnsi =>
      have empty : c.snoopChar = none := by
        simpa only [SnoopOk, state] using tracks.inv.snoop
      have editor := (Console.editor_of_none empty).symm.trans tracks.editor
      refine ⟨⟨⟨inside.1, inside.2, inside.3, inside.4⟩, fun _ => tracks.inv.noNul
        (by simp [state]), trivial⟩, ?_⟩
      refine (Console.editor_of_none ?_).trans (Eq.trans ?_ editor)
      · exact empty
      · simp [Console.base, Console.line, stateParseEscapeSequenceAnsi, state]
  | parseInput => exact tracks.parseInput state

theorem Tracks.run (tracks : Tracks callback input e c) (pumps : Nat) :
    Tracks callback input e ((consolePumpConsole input callback)^[pumps] c) := by
  induction pumps with
  | zero => exact tracks
  | succ pumps ih =>
      rw [Function.iterate_succ_apply']
      exact ih.pump

end Tracks

end Zsbl.Libs
