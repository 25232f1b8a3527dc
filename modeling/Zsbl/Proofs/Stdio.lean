/-
Module: Zsbl.Proofs.Stdio
Purpose: What `printf` sends to the console is what `sprintf` stores, as long as it fits
  into `console_tbuf`.
Trusted boundary: none
Main exports:
  Out.kept, foldlM_printc, print_block, requested, printf_eq_sprintf, printf_drops
-/
import Zsbl.Proofs.CString
import Zsbl.Libs.Stdio

namespace Zsbl.Libs

open Zsbl.Lib

/-! ## Storing -/

/-- A longer text over a shorter one at the same place. -/
theorem overwrite_again {bytes first second : List UInt8} {position : Nat}
    (inside : position ≤ bytes.length) (longer : first.length ≤ second.length) :
    overwrite (overwrite bytes position first) position second =
      overwrite bytes position second := by
  have front : (bytes.take position).length = position := List.length_take_of_le inside
  have behind : (overwrite bytes position first).drop (position + second.length) =
      bytes.drop (position + second.length) := by
    unfold overwrite
    rw [← List.drop_drop, List.append_assoc, List.drop_append_of_le_length (by omega),
      List.drop_of_length_le (Nat.le_of_eq front), List.nil_append, List.drop_append,
      List.drop_of_length_le longer, List.nil_append, List.drop_drop]
    congr 1
    omega
  have before : (overwrite bytes position first).take position = bytes.take position := by
    unfold overwrite
    rw [List.append_assoc, List.take_append_of_le_length (by omega), List.take_take,
      Nat.min_self]
  unfold overwrite at behind before ⊢
  rw [behind, before]

namespace Out

/-- The characters that `printc` stores. -/
def kept (o : Out) (chars : List UInt8) : List UInt8 :=
  o.len.elim chars fun len => chars.take (len - 1)

/-- The bytes of the block once some characters are stored, with a terminator. -/
def filled (o : Out) (chars : List UInt8) : List UInt8 :=
  if chars = [] then o.buf else overwrite o.buf o.pos (chars ++ [0])

/-- The block keeps its length. -/
theorem length_filled {o : Out} {chars : List UInt8}
    (fits : o.pos + chars.length < o.buf.length) :
    (o.filled chars).length = o.buf.length := by
  unfold filled
  split
  · rfl
  · refine length_overwrite ?_
    simp only [List.length_append, List.length_singleton]
    omega

/-- The block and the count behind one character. -/
theorem printc_kept {o : Out} {ch : UInt8} {chars : List UInt8} (fits : o.pos + 1 < o.buf.length)
    (keeps : o.kept (ch :: chars) ≠ []) :
    printc o ch = some ⟨overwrite o.buf o.pos [ch, 0], o.pos + 1, o.len.map (· - 1)⟩ := by
  have stores : o.len.all (1 < ·) = true := by
    cases len : o.len with
    | none => rfl
    | some n =>
        have many : 1 < n := by
          by_contra few
          have zero : n - 1 = 0 := by omega
          simp [kept, len, zero] at keeps
        simpa using many
  unfold printc
  rw [if_pos stores, writeBlock, if_pos (by simp only [List.length_cons, List.length_nil]; omega)]
  rfl

/-- A character that does not fit is counted and dropped. -/
theorem printc_dropped {o : Out} {ch : UInt8} {chars : List UInt8}
    (drops : o.kept (ch :: chars) = []) :
    printc o ch = some ⟨o.buf, o.pos, o.len.map (· - 1)⟩ := by
  have full : o.len.all (1 < ·) = false := by
    cases len : o.len with
    | none => simp [kept, len] at drops
    | some n =>
        have few : n - 1 = 0 := by simpa [kept, len] using drops
        simp only [Option.all_some, decide_eq_false_iff_not]
        omega
  unfold printc
  rw [if_neg (by simp [full])]
  rfl

/-- The characters that are stored behind the first one. -/
theorem kept_cons {o : Out} {ch : UInt8} {chars : List UInt8} (keeps : o.kept (ch :: chars) ≠ [])
    (buf : List UInt8) (pos : Nat) :
    o.kept (ch :: chars) = ch :: kept ⟨buf, pos, o.len.map (· - 1)⟩ chars := by
  unfold kept at keeps ⊢
  cases len : o.len with
  | none => rfl
  | some n =>
      rw [len] at keeps
      obtain ⟨more, isMore⟩ : ∃ more, n - 1 = more + 1 :=
        Nat.exists_eq_add_one_of_ne_zero fun zero => keeps (by simp [zero])
      simp only [Option.elim_some, Option.map_some, isMore, List.take_succ_cons]
      congr 1

/-- The first character is written and the rest follow it. -/
theorem filled_cons {o : Out} {ch : UInt8} {chars : List UInt8} {len : Option Nat}
    (inside : o.pos + (ch :: chars).length < o.buf.length) :
    filled ⟨overwrite o.buf o.pos [ch, 0], o.pos + 1, len⟩ chars = o.filled (ch :: chars) := by
  rw [List.length_cons] at inside
  cases chars with
  | nil => rfl
  | cons next chars =>
      have room : o.pos + [ch].length ≤ o.buf.length := by
        rw [List.length_singleton]
        omega
      have first : overwrite o.buf o.pos [ch, 0] =
          overwrite (overwrite o.buf o.pos [ch]) (o.pos + 1) [0] :=
        (overwrite_append room [0]).symm
      have shorter : o.pos + 1 ≤ (overwrite o.buf o.pos [ch]).length := by
        rw [length_overwrite room]
        exact room
      unfold filled
      rw [if_neg (List.cons_ne_nil _ _), if_neg (List.cons_ne_nil _ _), first,
        overwrite_again shorter (by simp)]
      exact overwrite_append room _

end Out

/-- Some characters, one behind the other. -/
theorem foldlM_printc {chars : List UInt8} {o : Out}
    (fits : o.pos + (o.kept chars).length < o.buf.length) :
    chars.foldlM printc o =
      some ⟨o.filled (o.kept chars), o.pos + (o.kept chars).length,
        o.len.map (· - chars.length)⟩ := by
  induction chars generalizing o with
  | nil =>
      have nothing : o.kept [] = [] := by
        unfold Out.kept
        cases o.len <;> simp
      rw [nothing]
      cases o
      simp [Out.filled]
  | cons ch chars ih =>
      rw [List.foldlM_cons, List.length_cons]
      by_cases keeps : o.kept (ch :: chars) = []
      · have dropped : Out.kept ⟨o.buf, o.pos, o.len.map (· - 1)⟩ chars = [] := by
          cases len : o.len with
          | none => simp [Out.kept, len] at keeps
          | some n =>
              have few : n - 1 = 0 := by simpa [Out.kept, len] using keeps
              simp [Out.kept, few]
        have rest := ih (o := ⟨o.buf, o.pos, o.len.map (· - 1)⟩)
          (by simpa [dropped, keeps] using fits)
        rw [Out.printc_dropped keeps, Option.bind_eq_bind, Option.bind_some, rest, dropped, keeps]
        simp [Out.filled, Function.comp_def, Nat.sub_sub, Nat.add_comm 1]
      · have more := Out.kept_cons keeps (overwrite o.buf o.pos [ch, 0]) (o.pos + 1)
        rw [more, List.length_cons] at fits
        have room : o.pos + [ch, 0].length ≤ o.buf.length := by
          simp only [List.length_cons, List.length_nil]
          omega
        have rest := ih (o := ⟨overwrite o.buf o.pos [ch, 0], o.pos + 1, o.len.map (· - 1)⟩) (by
          simp only [length_overwrite room]
          omega)
        rw [Out.printc_kept (by omega) keeps, Option.bind_eq_bind, Option.bind_some, rest,
          Out.filled_cons (by simpa using fits), more]
        rw [List.length_cons, Option.map_map, Nat.add_assoc, Nat.add_comm 1]
        simp only [Function.comp_def, Nat.sub_sub, Nat.add_comm 1]

/-- Without `out_len`, characters that do not fit are written behind the block. -/
theorem foldlM_printc_overrun {chars : List UInt8} {o : Out} (noLen : o.len = none)
    (nonempty : chars ≠ []) (long : o.buf.length ≤ o.pos + chars.length) :
    chars.foldlM printc o = none := by
  induction chars generalizing o with
  | nil => exact absurd rfl nonempty
  | cons ch chars ih =>
      have keeps : o.kept (ch :: chars) ≠ [] := by simp [Out.kept, noLen]
      rw [List.length_cons] at long
      rw [List.foldlM_cons]
      by_cases fits : o.pos + 1 < o.buf.length
      · have room : o.pos + [ch, 0].length ≤ o.buf.length := by
          simp only [List.length_cons, List.length_nil]
          omega
        rw [Out.printc_kept fits keeps, Option.bind_eq_bind, Option.bind_some]
        refine ih (by simp [noLen]) ?_ ?_
        · rintro rfl
          simp only [List.length_nil] at long
          omega
        · simp only [length_overwrite room]
          omega
      · have outside : printc o ch = none := by
          unfold printc
          rw [if_pos (by simp [noLen]), writeBlock, if_neg (by
            simp only [List.length_cons, List.length_nil]
            omega)]
          rfl
        rw [outside]
        rfl

/-! ## Rounds -/

def allChars (ds : List Directive) : List UInt8 := ds.flatMap Directive.chars

/-- `pc` behind some rounds. -/
def counted (pc : Int) (ds : List Directive) : Int :=
  ds.foldl (fun pc d => wrapInt (pc + d.chars.length)) pc

namespace Printing

/-- Printing into a block is printing all the characters one by one. -/
theorem foldlM_round_block {p : Printing} (toBlock : p.useTbuf = false) (ds : List Directive) :
    ds.foldlM round p =
      ((allChars ds).foldlM printc p.out).map fun out =>
        { p with out, pc := counted p.pc ds } := by
  induction ds generalizing p with
  | nil => rfl
  | cons d ds ih =>
      have flushed : p.flush = p := by simp [flush, toBlock]
      rw [List.foldlM_cons, round, flushed, allChars, List.flatMap_cons, List.foldlM_append]
      cases stored : d.chars.foldlM printc p.out with
      | none => rfl
      | some out => exact ih toBlock

end Printing

/-- What is printed into a block is the characters of the directives. -/
theorem print_block (strings : BitVec 64 → Text) (out : Out) (format : Text)
    (args : Nat → BitVec 64) :
    print strings false out format args =
      (directives strings args 0 0 format.chars).bind fun ds =>
        ((allChars ds).foldlM printc out).map fun out => ⟨false, out, [], counted 0 ds⟩ := by
  unfold print
  cases directives strings args 0 0 format.chars with
  | none => rfl
  | some ds =>
      rw [Option.bind_eq_bind, Option.bind_some, Option.bind_some,
        Printing.foldlM_round_block rfl]
      cases (allChars ds).foldlM printc out with
      | none => rfl
      | some out => cases len : out.len <;> simp [Printing.finish, len]

/-- `sprintf` into a block that has room. -/
theorem sprintf_eq {strings : BitVec 64 → Text} {block : List UInt8} {format : Text}
    {args : Nat → BitVec 64} {ds : List Directive}
    (scanned : directives strings args 0 0 format.chars = some ds)
    (fits : (allChars ds).length < block.length) :
    sprintf strings block format args =
      some ⟨false, ⟨Out.filled ⟨block, 0, none⟩ (allChars ds), (allChars ds).length, none⟩, [],
        counted 0 ds⟩ := by
  have all : Out.kept ⟨block, 0, none⟩ (allChars ds) = allChars ds := rfl
  unfold sprintf
  rw [print_block, scanned, Option.bind_some,
    foldlM_printc (by rw [all]; simpa using fits), all]
  simp

/-- `snprintf` cuts what does not fit. -/
theorem snprintf_eq {strings : BitVec 64 → Text} {block : List UInt8} {outSz : Nat} {format : Text}
    {args : Nat → BitVec 64} {ds : List Directive}
    (scanned : directives strings args 0 0 format.chars = some ds)
    (some' : 0 < outSz) (fits : outSz ≤ block.length) :
    snprintf strings block outSz format args =
      some ⟨false, ⟨Out.filled ⟨block, 0, some outSz⟩ ((allChars ds).take (outSz - 1)),
        ((allChars ds).take (outSz - 1)).length, some (outSz - (allChars ds).length)⟩, [],
        counted 0 ds⟩ := by
  have cut : Out.kept ⟨block, 0, some outSz⟩ (allChars ds) = (allChars ds).take (outSz - 1) := rfl
  have short := List.length_take_le (outSz - 1) (allChars ds)
  unfold snprintf
  rw [print_block, scanned, Option.bind_some, foldlM_printc (by rw [cut]; simp only; omega), cut]
  simp

/-- A block that has been filled holds a string. -/
theorem cstr_filled {block chars : List UInt8} (isString : 0 ∉ chars) (nonempty : chars ≠ [])
    (len : Option Nat) : cstr (Out.filled ⟨block, 0, len⟩ chars) = chars := by
  unfold Out.filled overwrite
  rw [if_neg nonempty, List.take_zero, List.nil_append, List.append_assoc]
  exact cstr_append_zero isString _

/-- What is stored by then. -/
theorem stored_filled (block chars : List UInt8) (len : Option Nat) :
    (Out.filled ⟨block, 0, len⟩ chars).take chars.length = chars := by
  unfold Out.filled
  split
  · rename_i empty
    simp [empty]
  · simp [overwrite]

/-! ## The buffer of the console -/

/-- The console has got a NUL in the place of a character. -/
def Damaged (console all : List UInt8) : Prop :=
  console[CONSOLE_TBUF_MAX - 1]? = some 0 ∧ CONSOLE_TBUF_MAX ≤ all.length

theorem Damaged.append {console all : List UInt8} (damaged : Damaged console all)
    (more chars : List UInt8) : Damaged (console ++ more) (all ++ chars) := by
  obtain ⟨nul, long⟩ := damaged
  have inside := (List.getElem?_eq_some_iff.mp nul).1
  refine ⟨by rwa [List.getElem?_append_left inside], ?_⟩
  rw [List.length_append]
  omega

/-- `all` has been printed, and `fill` of it since the buffer was empty: the buffer starts
with it, but for what does not fit in front of the terminator. -/
structure Buffered (all fill : List UInt8) (p : Printing) : Prop where
  useTbuf : p.useTbuf = true
  size : p.out.buf.length = CONSOLE_TBUF_MAX
  len : p.out.len = some (CONSOLE_TBUF_MAX - fill.length)
  pos : p.out.pos = (fill.take (CONSOLE_TBUF_MAX - 1)).length
  stored : p.stored = fill.take (CONSOLE_TBUF_MAX - 1)
  terminated : fill ≠ [] → p.out.buf[p.out.pos]? = some 0
  shown : (p.console = [] ∧ fill = all) ∨ Damaged p.console all

namespace Buffered

variable {all fill : List UInt8} {p : Printing}

/-- A full buffer ends in a terminator. -/
theorem take_full (buffered : Buffered all fill p) (full : CONSOLE_TBUF_MAX ≤ fill.length) :
    p.out.buf.take CONSOLE_TBUF_MAX = fill.take (CONSOLE_TBUF_MAX - 1) ++ [0] := by
  have pos : p.out.pos = CONSOLE_TBUF_MAX - 1 := by
    rw [buffered.pos, List.length_take_of_le (by omega)]
  have nul := buffered.terminated (by
    rintro rfl
    exact absurd full (by decide))
  rw [← buffered.stored, Printing.stored]
  rw [pos] at nul ⊢
  obtain ⟨inside, isNul⟩ := List.getElem?_eq_some_iff.mp nul
  have split := List.take_succ_eq_append_getElem inside
  rw [isNul] at split
  exact split

/-- A buffer that is full loses the characters behind it. -/
theorem damaged_full (buffered : Buffered all fill p) (full : CONSOLE_TBUF_MAX ≤ fill.length) :
    Damaged (p.console ++ p.out.buf.take CONSOLE_TBUF_MAX) all := by
  rcases buffered.shown with ⟨nothing, rfl⟩ | damaged
  · have front : (fill.take (CONSOLE_TBUF_MAX - 1)).length = CONSOLE_TBUF_MAX - 1 :=
      List.length_take_of_le (by omega)
    refine ⟨?_, full⟩
    rw [nothing, List.nil_append, buffered.take_full full,
      List.getElem?_append_right (Nat.le_of_eq front), front, Nat.sub_self]
    rfl
  · simpa using damaged.append (p.out.buf.take CONSOLE_TBUF_MAX) []

/-- At the head of the loop a full buffer is sent. -/
theorem flush (buffered : Buffered all fill p) :
    ∃ fill', fill'.length < CONSOLE_TBUF_MAX ∧ Buffered all fill' p.flush := by
  by_cases full : CONSOLE_TBUF_MAX ≤ fill.length
  · have isZero : p.out.len = some 0 := by rw [buffered.len, Nat.sub_eq_zero_of_le full]
    have flushed : p.flush = { p with
        out := { p.out with pos := 0, len := some CONSOLE_TBUF_MAX }
        console := p.console ++ p.out.buf.take CONSOLE_TBUF_MAX } :=
      if_pos ⟨buffered.useTbuf, isZero⟩
    refine ⟨[], by decide, ?_⟩
    rw [flushed]
    exact ⟨buffered.useTbuf, buffered.size, rfl, rfl, rfl, fun nonempty => absurd rfl nonempty,
      .inr (buffered.damaged_full full)⟩
  · have notZero : p.out.len ≠ some 0 := by
      rw [buffered.len]
      intro zero
      have := Option.some.inj zero
      omega
    have same : p.flush = p := if_neg fun both => notZero both.2
    refine ⟨fill, by omega, ?_⟩
    rwa [same]

/-- The characters of a directive behind those in the buffer. -/
theorem emit (buffered : Buffered all fill p) (room : fill.length < CONSOLE_TBUF_MAX)
    (chars : List UInt8) (pc : Int) :
    ∃ out, chars.foldlM printc p.out = some out ∧
      Buffered (all ++ chars) (fill ++ chars) { p with out, pc } := by
  have short : fill.length ≤ CONSOLE_TBUF_MAX - 1 := by omega
  have pos : p.out.pos = fill.length := by rw [buffered.pos, List.take_of_length_le short]
  have stored : p.out.buf.take fill.length = fill := by
    have := buffered.stored
    rwa [Printing.stored, pos, List.take_of_length_le short] at this
  have size := buffered.size
  -- what `printc` stores of the characters is what the new prefix has of them
  have kept : p.out.kept chars = chars.take (CONSOLE_TBUF_MAX - 1 - fill.length) := by
    rw [Out.kept, buffered.len, Option.elim_some]
    congr 1
    omega
  have front : (fill ++ chars).take (CONSOLE_TBUF_MAX - 1) = fill ++ p.out.kept chars := by
    rw [kept, List.take_append, List.take_of_length_le short]
  have few : (p.out.kept chars).length ≤ CONSOLE_TBUF_MAX - 1 - fill.length := by
    rw [kept]
    exact List.length_take_le _ _
  have fits : p.out.pos + (p.out.kept chars).length < p.out.buf.length := by omega
  have length : (fill ++ p.out.kept chars).length = fill.length + (p.out.kept chars).length :=
    List.length_append
  refine ⟨_, foldlM_printc fits, buffered.useTbuf, ?_, ?_, ?_, ?_, ?_, ?_⟩
  · exact (Out.length_filled fits).trans size
  · simp only [buffered.len, Option.map_some, List.length_append, Nat.sub_sub]
  · simp only [front, pos, List.length_append]
  · simp only [Printing.stored, front, pos, Out.filled]
    split
    · rename_i nothing
      simp [nothing, stored]
    · rw [overwrite, stored, ← List.append_assoc, ← List.length_append,
        List.append_assoc _ _ (List.drop _ _), List.take_left]
  · intro nonempty
    simp only [pos, Out.filled]
    split
    · rename_i nothing
      rw [nothing, List.length_nil, Nat.add_zero, ← pos]
      refine buffered.terminated ?_
      rintro rfl
      have isEmpty : chars = [] := by simpa [nothing, CONSOLE_TBUF_MAX] using kept.symm
      exact nonempty (by simp [isEmpty])
    · rw [overwrite, stored, ← List.append_assoc, List.append_assoc _ [0],
        List.getElem?_append_right (Nat.le_of_eq length), length, Nat.sub_self]
      rfl
  · rcases buffered.shown with ⟨nothing, same⟩ | damaged
    · exact .inl ⟨nothing, by rw [same]⟩
    · exact .inr (by simpa using damaged.append [] chars)

/-- What a round does. -/
theorem round (buffered : Buffered all fill p) (d : Directive) :
    ∃ fill' p', p.round d = some p' ∧ Buffered (all ++ d.chars) fill' p' ∧
      p'.pc = wrapInt (p.pc + d.chars.length) := by
  obtain ⟨fill', room, flushed⟩ := buffered.flush
  obtain ⟨out, stored, buffered'⟩ :=
    flushed.emit room d.chars (wrapInt (p.flush.pc + d.chars.length))
  have pc : p.flush.pc = p.pc := by
    unfold Printing.flush
    split <;> rfl
  refine ⟨fill' ++ d.chars, _, ?_, buffered', by rw [pc]⟩
  change (d.chars.foldlM printc p.flush.out).bind _ = _
  rw [stored]
  rfl

/-- Each directive prints its characters and flushes the buffer when it has to. -/
theorem rounds (buffered : Buffered all fill p) (ds : List Directive) :
    ∃ fill' p', ds.foldlM Printing.round p = some p' ∧ Buffered (all ++ allChars ds) fill' p' ∧
      p'.pc = counted p.pc ds := by
  induction ds generalizing all fill p with
  | nil => exact ⟨fill, p, rfl, by simpa [allChars] using buffered, rfl⟩
  | cons d ds ih =>
      obtain ⟨fill', p', first, buffered', pc⟩ := buffered.round d
      obtain ⟨fill'', p'', others, buffered'', pc'⟩ := ih buffered'
      refine ⟨fill'', p'', ?_, ?_, ?_⟩
      · rw [List.foldlM_cons, first, Option.bind_eq_bind, Option.bind_some, others]
      · rwa [allChars, List.flatMap_cons, ← List.append_assoc]
      · rw [pc', pc]
        rfl

/-- The rest of the buffer is sent behind the loop. -/
theorem finish (buffered : Buffered all fill p) :
    (all.length < CONSOLE_TBUF_MAX → p.finish.console = all) ∧
      (CONSOLE_TBUF_MAX ≤ all.length → Damaged p.finish.console all) := by
  have sent : p.finish.console =
      p.console ++ p.out.buf.take (CONSOLE_TBUF_MAX - (CONSOLE_TBUF_MAX - fill.length)) := by
    unfold Printing.finish
    rw [buffered.len]
    by_cases empty : CONSOLE_TBUF_MAX - fill.length < CONSOLE_TBUF_MAX
    · simp [buffered.useTbuf, empty]
    · have nothing : CONSOLE_TBUF_MAX - (CONSOLE_TBUF_MAX - fill.length) = 0 := by omega
      simp [empty, nothing]
  rw [sent]
  rcases Nat.lt_or_ge fill.length CONSOLE_TBUF_MAX with room | full
  · have short : fill.length ≤ CONSOLE_TBUF_MAX - 1 := by omega
    have part : p.out.buf.take (CONSOLE_TBUF_MAX - (CONSOLE_TBUF_MAX - fill.length)) = fill := by
      have stored := buffered.stored
      rw [Printing.stored, buffered.pos, List.take_of_length_le short] at stored
      rwa [Nat.sub_sub_self (Nat.le_of_lt room)]
    rw [part]
    rcases buffered.shown with ⟨nothing, rfl⟩ | damaged
    · exact ⟨fun _ => by simp [nothing], fun long => absurd room (Nat.not_lt.mpr long)⟩
    · exact ⟨fun short => absurd short (Nat.not_lt.mpr damaged.2),
        fun _ => by simpa using damaged.append fill []⟩
  · have damaged := buffered.damaged_full full
    rw [Nat.sub_eq_zero_of_le full, Nat.sub_zero]
    exact ⟨fun short => absurd short (Nat.not_lt.mpr damaged.2), fun _ => damaged⟩

end Buffered

/-! ## The characters of a directive -/

/-- A string is printed without its terminator. -/
theorem zero_notMem_prints {spec : Spec} {string : List UInt8} (isString : 0 ∉ string) :
    0 ∉ prints spec string := by
  have fill (count : Nat) :
      0 ∉ List.replicate count (if spec.padZero then (0x30 : UInt8) else 0x20) := by
    intro member
    have isZero := List.eq_of_mem_replicate member
    split at isZero <;> exact absurd isZero (by decide)
  simp only [prints]
  split
  · exact fun member => (List.mem_append.mp member).elim isString (fill _)
  · exact fun member => (List.mem_append.mp member).elim (fill _) isString

/-- The bases of `printi` and the letters behind 9. -/
def Directive.Sound : Directive → Prop
  | .literal ch => ch ≠ 0
  | .text _ string => 0 ∉ string
  | .number _ _ b _ letbase =>
      (b = 10 ∨ b = 16) ∧ (letbase = 0x30 ∨ letbase = 0x41 ∨ letbase = 0x61)
  | .unknown => True

theorem printiDigit_ne_zero {letbase : UInt8} {t : Nat} (small : t < 16)
    (known : letbase = 0x30 ∨ letbase = 0x41 ∨ letbase = 0x61) : printiDigit letbase t ≠ 0 := by
  have all : ∀ t < 16, printiDigit 0x30 t ≠ 0 ∧ printiDigit 0x41 t ≠ 0 ∧
      printiDigit 0x61 t ≠ 0 := by decide
  rcases known with rfl | rfl | rfl
  · exact (all t small).1
  · exact (all t small).2.1
  · exact (all t small).2.2

/-- The digits of a number hold no terminator. -/
theorem zero_notMem_printiDigits {u b : Nat} {letbase : UInt8} (base : b = 10 ∨ b = 16)
    (known : letbase = 0x30 ∨ letbase = 0x41 ∨ letbase = 0x61) :
    0 ∉ printiDigits u b letbase := by
  unfold printiDigits
  split
  · decide
  · intro member
    obtain ⟨t, isDigit, isZero⟩ := List.mem_map.mp member
    have small := Nat.digits_lt_base (by omega : 1 < b) (List.mem_reverse.mp isDigit)
    exact printiDigit_ne_zero (by omega) known isZero

theorem zero_notMem_printiPrefix (b : Nat) (letbase : UInt8) :
    0 ∉ printiPrefix b letbase := by
  unfold printiPrefix
  split_ifs <;> decide

/-- A sound directive prints no terminator. -/
theorem Directive.Sound.zero_notMem {d : Directive} (sound : d.Sound) : 0 ∉ d.chars := by
  cases d with
  | literal ch => simpa [Directive.chars] using Ne.symm sound
  | text spec string => exact zero_notMem_prints sound
  | number spec i b sg letbase =>
      have digits (u : Nat) : 0 ∉ (if spec.padAlternate then printiPrefix b letbase else []) ++
          printiDigits u b letbase := by
        rw [List.mem_append]
        rintro (inPrefix | inDigits)
        · split at inPrefix
          · exact zero_notMem_printiPrefix b letbase inPrefix
          · cases inPrefix
        · exact zero_notMem_printiDigits sound.1 sound.2 inDigits
      have minus {string : List UInt8} (isString : 0 ∉ string) : 0 ∉ 0x2d :: string := by
        simpa using isString
      simp only [Directive.chars, printi]
      generalize (if spec.padAlternate then printiPrefix b letbase else []) = marks at digits ⊢
      split_ifs
      · exact minus (zero_notMem_prints (digits _))
      · exact zero_notMem_prints (minus (digits _))
      · exact zero_notMem_prints (digits _)
  | unknown => simp [Directive.chars]

theorem scanLong_sound (spec : Spec) (arg : BitVec 64) (format : List UInt8) :
    (scanLong spec arg format).1.Sound := by
  unfold scanLong
  split <;> simp [Directive.Sound]

/-- What is scanned is a sound directive. -/
theorem scanConversion_sound {strings : BitVec 64 → Text} {spec : Spec} {arg : BitVec 64}
    {format rest : List UInt8} {d : Directive} {used : Nat}
    (scanned : scanConversion strings spec arg format = some (d, used, rest)) : d.Sound := by
  unfold scanConversion at scanned
  split at scanned
  · cases scanned
  · obtain ⟨rfl, -⟩ := Prod.mk.inj (Option.some.inj scanned)
    have isString : 0 ∉ if arg = 0 then nullText else (strings arg).chars := by
      split
      · decide
      · exact (strings arg).isString
    exact isString
  case h_10 =>
    obtain ⟨rfl, -⟩ := Prod.mk.inj (Option.some.inj scanned)
    exact scanLong_sound spec arg _
  all_goals
    obtain ⟨rfl, -⟩ := Prod.mk.inj (Option.some.inj scanned)
    simp [Directive.Sound, eq_comm]

/-- Every directive of a format is sound. -/
theorem directives_sound {strings : BitVec 64 → Text} {args : Nat → BitVec 64}
    {format : List UInt8} (isString : 0 ∉ format) {skip taken : Nat} {ds : List Directive}
    (scanned : directives strings args skip taken format = some ds) : ∀ d ∈ ds, d.Sound := by
  induction format generalizing skip taken ds with
  | nil =>
      unfold directives at scanned
      obtain rfl := Option.some.inj scanned
      simp
  | cons ch format ih =>
      obtain ⟨first, others⟩ : 0 ≠ ch ∧ 0 ∉ format := by simpa using isString
      have cons {skip taken : Nat} {d : Directive} (sound : d.Sound)
          (scanned : (directives strings args skip taken format).map (d :: ·) = some ds) :
          ∀ d ∈ ds, d.Sound := by
        obtain ⟨rest, isRest, rfl⟩ := Option.map_eq_some_iff.mp scanned
        exact List.forall_mem_cons.mpr ⟨sound, ih others isRest⟩
      cases skip with
      | succ skip =>
          unfold directives at scanned
          exact ih others scanned
      | zero =>
          unfold directives at scanned
          split_ifs at scanned
          · exact cons (show (Directive.literal ch).Sound from first.symm) scanned
          · obtain rfl := Option.some.inj scanned
            simp [Directive.Sound]
          · exact cons (by simp [Directive.Sound]) scanned
          · obtain ⟨spec, stars, rest⟩ := scanSpec (args taken) format
            obtain ⟨⟨d, used, rest'⟩, conversion, more⟩ := Option.bind_eq_some_iff.mp scanned
            obtain ⟨following, isFollowing, isAll⟩ := Option.bind_eq_some_iff.mp more
            exact cons (scanConversion_sound conversion)
              (Option.map_eq_some_iff.mpr ⟨following, isFollowing, Option.some.inj isAll⟩)

theorem zero_notMem_allChars {strings : BitVec 64 → Text} {args : Nat → BitVec 64} {format : Text}
    {ds : List Directive} (scanned : directives strings args 0 0 format.chars = some ds) :
    0 ∉ allChars ds := by
  intro nul
  obtain ⟨d, isDirective, isChar⟩ := List.mem_flatMap.mp nul
  exact (directives_sound format.isString scanned d isDirective).zero_notMem isChar

/-! ## How much is asked for -/

/-- The number of characters that a directive asks for: the width, or more when the text of
its argument is longer. -/
def Directive.requested : Directive → Nat
  | .literal _ => 1
  | .text spec string => max spec.width.toNat string.length
  | .number spec i b sg letbase =>
      let neg := sg ∧ b = 10 ∧ i.msb
      let u := if neg then (-i).toNat else i.toNat
      max spec.width.toNat ((if neg then 1 else 0) +
        (if spec.padAlternate then (printiPrefix b letbase).length else 0) +
        max 1 (Nat.digits b u).length)
  | .unknown => 0

def requested (ds : List Directive) : Nat := (ds.map Directive.requested).sum

theorem length_prints (spec : Spec) (string : List UInt8) :
    (prints spec string).length = max spec.width.toNat string.length := by
  simp only [prints]
  split
  · rw [List.length_append, List.length_replicate]
    omega
  · rw [List.length_append, List.length_replicate]
    omega

/-- A number takes as many digits as it has in its base, and one at least. -/
theorem length_printiDigits (u b : Nat) (letbase : UInt8) :
    (printiDigits u b letbase).length = max 1 (Nat.digits b u).length := by
  unfold printiDigits
  split
  · rename_i zero
    simp [zero]
  · rename_i nonzero
    have nonempty : 0 < (Nat.digits b u).length :=
      List.length_pos_of_ne_nil (Nat.digits_ne_nil_iff_ne_zero.mpr nonzero)
    rw [List.length_map, List.length_reverse]
    omega

/-- A directive prints as many characters as it requests. -/
theorem Directive.length_chars (d : Directive) : d.chars.length = d.requested := by
  cases d with
  | literal ch => rfl
  | text spec string => exact length_prints spec string
  | number spec i b sg letbase =>
      have marks : (if spec.padAlternate then printiPrefix b letbase else []).length =
          if spec.padAlternate then (printiPrefix b letbase).length else 0 := by
        split <;> rfl
      simp only [Directive.chars, Directive.requested, printi]
      by_cases neg : sg = true ∧ b = 10 ∧ i.msb = true
      · simp only [if_pos neg]
        split
        · simp only [List.length_cons, length_prints, List.length_append, marks,
            length_printiDigits]
          omega
        · simp only [List.length_cons, length_prints, List.length_append, marks,
            length_printiDigits]
          omega
      · simp only [if_neg neg, length_prints, List.length_append, marks,
          length_printiDigits]
        omega
  | unknown => rfl

theorem length_allChars (ds : List Directive) : (allChars ds).length = requested ds := by
  simp only [allChars, requested, List.length_flatMap, Directive.length_chars]

/-! ## Both ways of output -/

/-- What reaches the console: the characters themselves, or a NUL among the first 256. -/
theorem printf_console {strings : BitVec 64 → Text} {format : Text} {args : Nat → BitVec 64}
    {ds : List Directive} (scanned : directives strings args 0 0 format.chars = some ds)
    (tbuf : Vector UInt8 CONSOLE_TBUF_MAX) :
    ∃ shown, printf strings tbuf format args = some shown ∧ shown.pc = counted 0 ds ∧
      (requested ds < CONSOLE_TBUF_MAX → shown.console = allChars ds) ∧
      (CONSOLE_TBUF_MAX ≤ requested ds → Damaged shown.console (allChars ds)) := by
  have empty : Buffered [] [] ⟨true, ⟨tbuf.toList, 0, some CONSOLE_TBUF_MAX⟩, [], 0⟩ :=
    ⟨rfl, tbuf.length_toList, rfl, rfl, rfl, fun nonempty => absurd rfl nonempty, .inl ⟨rfl, rfl⟩⟩
  obtain ⟨fill, p, run, buffered, pc⟩ := empty.rounds ds
  have finished := buffered.finish
  rw [List.nil_append, length_allChars] at finished
  refine ⟨p.finish, ?_, ?_, finished⟩
  · unfold printf print
    rw [scanned, Option.bind_eq_bind, Option.bind_some, run]
    rfl
  · unfold Printing.finish
    split
    · split <;> exact pc
    · exact pc

/-- `printf` shows what `sprintf` stores, and returns the same, if and only if the format and
its arguments ask for fewer characters than `console_tbuf` has bytes. -/
theorem printf_eq_sprintf {strings : BitVec 64 → Text} {format : Text} {args : Nat → BitVec 64}
    {ds : List Directive} (scanned : directives strings args 0 0 format.chars = some ds)
    (tbuf : Vector UInt8 CONSOLE_TBUF_MAX) {block : List UInt8}
    (room : requested ds < block.length) :
    ∃ shown stored, printf strings tbuf format args = some shown ∧
      sprintf strings block format args = some stored ∧
      (shown.console = stored.stored ∧ shown.pc = stored.pc ↔
        requested ds < CONSOLE_TBUF_MAX) := by
  obtain ⟨shown, printed, pc, short, long⟩ := printf_console scanned tbuf
  rw [← length_allChars] at room
  refine ⟨shown, _, printed, sprintf_eq scanned room, ?_⟩
  simp only [Printing.stored, stored_filled, pc, and_true]
  constructor
  · intro same
    by_contra full
    obtain ⟨nul, -⟩ := long (Nat.not_lt.mp full)
    rw [same] at nul
    exact zero_notMem_allChars scanned (List.mem_of_getElem? nul)
  · exact short

/-- "[%5s] %-6d%04x". -/
def mixedFormat : Text :=
  ⟨[0x5b, 0x25, 0x35, 0x73, 0x5d, 0x20, 0x25, 0x2d, 0x36, 0x64, 0x25, 0x30, 0x34, 0x78],
    by decide⟩

/-- "ok" at every address. -/
def okStrings : BitVec 64 → Text := fun _ => ⟨[0x6f, 0x6b], by decide⟩

/-- The address of a string, -42 and 31. -/
def mixedArgs : Nat → BitVec 64
  | 0 => 0x8000
  | 1 => -42
  | _ => 0x1f

def mixedDirectives : List Directive :=
  [.literal 0x5b, .text ⟨false, false, false, 5⟩ [0x6f, 0x6b], .literal 0x5d, .literal 0x20,
    .number ⟨true, false, false, 6⟩ (-42) 10 true 0x30,
    .number ⟨false, true, false, 4⟩ 0x1f 16 false 0x61]

/-- A string and two numbers, padded in three ways. -/
theorem printf_eq_sprintf_mixed :
    ∃ shown stored,
      printf okStrings (Vector.replicate CONSOLE_TBUF_MAX 0) mixedFormat mixedArgs =
        some shown ∧
      sprintf okStrings (List.replicate 32 1) mixedFormat mixedArgs = some stored ∧
      shown.console = stored.stored ∧ shown.pc = stored.pc := by
  have scanned : directives okStrings mixedArgs 0 0 mixedFormat.chars = some mixedDirectives := by
    decide
  obtain ⟨shown, stored, printed, kept, same⟩ := printf_eq_sprintf scanned
    (Vector.replicate CONSOLE_TBUF_MAX 0)
    (show requested mixedDirectives < (List.replicate 32 (1 : UInt8)).length by decide)
  exact ⟨shown, stored, printed, kept, same.mpr (by decide)⟩

/-- The directive of "%256d" for 0. -/
def wideDirective : Directive := .number ⟨false, false, false, 256⟩ 0 10 true 0x30

/-- "%256d". -/
def wideFormat : Text := ⟨[0x25, 0x32, 0x35, 0x36, 0x64], by decide⟩

def noStrings : BitVec 64 → Text := fun _ => .empty

/-- "%256d" with 0: the digit is the character that the console does not get. -/
theorem printf_drops :
    ∃ shown stored,
      printf noStrings (Vector.replicate CONSOLE_TBUF_MAX 0) wideFormat (fun _ => 0) =
        some shown ∧
      sprintf noStrings (List.replicate 257 0) wideFormat (fun _ => 0) = some stored ∧
      shown.console ≠ stored.stored ∧ shown.console[255]? = some 0 ∧
      stored.stored[255]? = some 0x30 := by
  have scanned : directives noStrings (fun _ => 0) 0 0 wideFormat.chars = some [wideDirective] := by
    decide
  have asked : requested [wideDirective] = 256 := by decide
  have length : (allChars [wideDirective]).length < (List.replicate 257 (0 : UInt8)).length := by
    rw [length_allChars, asked, List.length_replicate]
    decide
  obtain ⟨shown, printed, -, -, long⟩ := printf_console scanned (Vector.replicate _ 0)
  have nul : shown.console[255]? = some 0 := (long (Nat.le_of_eq asked.symm)).1
  have digit : (allChars [wideDirective])[255]? = some 0x30 := by
    have fill : ∃ count, count = 255 ∧
        allChars [wideDirective] = List.replicate count 0x20 ++ [0x30] :=
      ⟨255, rfl, List.append_nil _⟩
    obtain ⟨count, isCount, text⟩ := fill
    have front : (List.replicate count (0x20 : UInt8)).length = 255 :=
      List.length_replicate.trans isCount
    rw [text, List.getElem?_append_right (Nat.le_of_eq front), front]
    rfl
  refine ⟨shown, _, printed, sprintf_eq scanned length, ?_, nul, ?_⟩
  · rw [Printing.stored, stored_filled]
    intro same
    rw [same, digit] at nul
    exact absurd nul (by decide)
  · rwa [Printing.stored, stored_filled]

end Zsbl.Libs
