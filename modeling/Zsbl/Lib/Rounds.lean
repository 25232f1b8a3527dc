/-
Module: Zsbl.Lib.Rounds
Purpose: What the rounds of a compression function work on: words of four bytes, lists
  that a recurrence extends, and registers that change their names from round to round, so
  that a rotation of the contents need not be carried out.
Trusted boundary: none
Main exports:
  foldl_finRange, put, named, named_put, named_succ, named_of_dvd, named_rounds, extend,
  extend_range, Word, Word.ofBytes, Word.or_shifts, ofNat_byte, Registers, Registers.of,
  Registers.zipWith, Registers.bytes
-/
import Mathlib.Data.ZMod.Defs
import Mathlib.Tactic.Abel
import Mathlib.Tactic.IntervalCases
import Zsbl.Lib.Der

namespace Zsbl.Lib

/-- Two loops over the same indices that stay in step, where one of them has the number of
the turn in its state. -/
theorem foldl_finRange {σ τ : Type*} {n : Nat} (pack : Nat → σ → τ) {f : τ → Fin n → τ}
    {g : σ → Fin n → σ} (step : ∀ state i, f (pack i.val state) i = pack (i.val + 1) (g state i))
    (state : σ) :
    (List.finRange n).foldl f (pack 0 state) = pack n ((List.finRange n).foldl g state) := by
  have prefixes {count : Nat} (le : count ≤ n) :
      ((List.finRange n).take count).foldl f (pack 0 state) =
        pack count (((List.finRange n).take count).foldl g state) := by
    induction count with
    | zero => rfl
    | succ count ih =>
        have next : (List.finRange n)[count]? = some ⟨count, le⟩ := by
          rw [List.getElem?_eq_getElem (by rwa [List.length_finRange]), List.getElem_finRange]
          rfl
        simp only [List.take_add_one, next, Option.toList_some, List.foldl_append,
          List.foldl_cons, List.foldl_nil, ih (by omega)]
        exact step _ ⟨count, le⟩
  have whole : (List.finRange n).take n = List.finRange n := List.take_of_length_le (by simp)
  rw [← whole]
  exact prefixes (Nat.le_refl n)

section Named

open Fin.CommRing

variable {α : Type*} {n : Nat} [NeZero n]

/-- A register gets a value. -/
def put (file : Vector α n) (place : Fin n) (value : α) : Vector α n := file.set place.val value

/-- The registers by their names in a round, which are `round` behind their places. -/
def named (file : Vector α n) (round : Fin n) : Fin n → α :=
  fun name => file.get (name - round)

omit [NeZero n] in
theorem get_put (file : Vector α n) (place other : Fin n) (value : α) :
    (put file place value).get other = if other = place then value else file.get other := by
  have cases : (file.set place.val value)[other.val] =
      if place.val = other.val then value else file[other.val] :=
    Vector.getElem_set place.isLt other.isLt
  simp only [Fin.val_inj, eq_comm (a := place)] at cases
  exact cases

theorem named_put (file : Vector α n) (round name : Fin n) (value : α) :
    named (put file (name - round) value) round =
      Function.update (named file round) name value := by
  funext other
  rw [named, get_put, Function.update_apply, named]
  simp only [sub_left_inj]

/-- In the next round each register has the name after its own. -/
theorem named_succ (file : Vector α n) (round : Nat) :
    named file (Fin.ofNat n (round + 1)) =
      fun name => named file (Fin.ofNat n round) (name - 1) := by
  have next : Fin.ofNat n (round + 1) = Fin.ofNat n round + 1 := by
    apply Fin.ext
    rw [Fin.val_add, Fin.val_one']
    exact Nat.add_mod round 1 n
  funext name
  have place : name - (Fin.ofNat n round + 1) = name - 1 - Fin.ofNat n round := by abel
  simp only [named, next, place]

theorem named_of_dvd {round : Nat} (whole : n ∣ round) (file : Vector α n) :
    named file (Fin.ofNat n round) = file.get := by
  have zero : Fin.ofNat n round = 0 := Fin.ext (Nat.mod_eq_zero_of_dvd whole)
  funext name
  rw [named, zero, sub_zero]

/-- Rounds on the registers under their names are rounds on registers that are turned. -/
theorem named_rounds {β : Type*} (read : (Fin n → α) → β) {rounds : Nat} (whole : n ∣ rounds)
    {turn : Vector α n → Fin rounds → Vector α n} (plain : β → Fin rounds → β)
    (step : ∀ file t, read (named (turn file t) (Fin.ofNat n (t.val + 1))) =
      plain (read (named file (Fin.ofNat n t.val))) t) (file : Vector α n) :
    read ((List.finRange rounds).foldl turn file).get =
      (List.finRange rounds).foldl plain (read file.get) := by
  rw [← named_of_dvd whole, ← named_of_dvd (Nat.dvd_zero n) file]
  exact (foldl_finRange (fun round file => read (named file (Fin.ofNat n round)))
    (fun file t => (step file t).symm) file).symm

end Named

section Extend

variable {α : Type*}

/-- A list with elements that each depend on the ones before. -/
def extend (next : List α → α) : Nat → List α → List α
  | 0, list => list
  | count + 1, list => extend next count (list ++ [next list])

theorem extend_range {next : List α → α} {f : Nat → α} {start : Nat}
    (step : ∀ filled, start ≤ filled → next ((List.range filled).map f) = f filled)
    (count : Nat) {filled : Nat} (le : start ≤ filled) :
    extend next count ((List.range filled).map f) = (List.range (filled + count)).map f := by
  induction count generalizing filled with
  | zero => rfl
  | succ count ih =>
      rw [extend, step filled le, ← List.map_singleton, ← List.map_append, ← List.range_succ,
        ih (by omega), Nat.succ_add_eq_add_succ]

theorem getD_range {f : Nat → α} {filled i : Nat} (lt : i < filled) (default : α) :
    ((List.range filled).map f).getD i default = f i := by
  simp [List.getD_eq_getElem?_getD, lt]

end Extend

abbrev Word : Type := BitVec 32

/-- Four bytes as a word, the high one first. -/
def Word.ofBytes (bytes : List UInt8) : Word := BitVec.ofNat 32 (bigEndian bytes)

/-- Four bytes shifted to their places. -/
theorem Word.or_shifts (b0 b1 b2 b3 : UInt8) :
    BitVec.ofNat 32 b0.toNat <<< 24 ||| BitVec.ofNat 32 b1.toNat <<< 16 |||
      BitVec.ofNat 32 b2.toNat <<< 8 ||| BitVec.ofNat 32 b3.toNat = ofBytes [b0, b1, b2, b3] := by
  have lt0 := b0.toNat_lt
  have lt1 := b1.toNat_lt
  have lt2 := b2.toNat_lt
  have lt3 := b3.toNat_lt
  have number : bigEndian [b0, b1, b2, b3] =
      ((b0.toNat <<< 8 + b1.toNat) <<< 8 + b2.toNat) <<< 8 + b3.toNat := by
    simp [bigEndian, Nat.shiftLeft_eq]
  have place {value : Nat} (lt : value < 256) (shift : Nat) (inside : shift ≤ 24) :
      (BitVec.ofNat 32 value <<< shift).toNat = value <<< shift := by
    have bound : value <<< shift < 2 ^ 32 := by
      rw [Nat.shiftLeft_eq]
      calc value * 2 ^ shift < 256 * 2 ^ shift :=
            Nat.mul_lt_mul_of_pos_right lt (Nat.pow_pos (by decide))
        _ ≤ 256 * 2 ^ 24 := Nat.mul_le_mul_left _ (Nat.pow_le_pow_right (by decide) inside)
        _ = 2 ^ 32 := by decide
    rw [BitVec.toNat_shiftLeft, BitVec.toNat_ofNat, Nat.mod_eq_of_lt (by omega : value < 2 ^ 32),
      Nat.mod_eq_of_lt bound]
  apply BitVec.eq_of_toNat_eq
  simp only [ofBytes, BitVec.toNat_or, place lt0 24 (by decide), place lt1 16 (by decide),
    place lt2 8 (by decide), BitVec.toNat_ofNat, number,
    Nat.mod_eq_of_lt (by omega : b3.toNat < 2 ^ 32)]
  rw [Nat.shiftLeft_add_eq_or_of_lt lt1, Nat.shiftLeft_add_eq_or_of_lt lt2,
    Nat.shiftLeft_add_eq_or_of_lt lt3, Nat.mod_eq_of_lt]
  · simp only [Nat.shiftLeft_or_distrib, ← Nat.shiftLeft_add]
  · rw [← Nat.shiftLeft_add_eq_or_of_lt lt3, ← Nat.shiftLeft_add_eq_or_of_lt lt2,
      ← Nat.shiftLeft_add_eq_or_of_lt lt1]
    simp only [Nat.shiftLeft_eq]
    omega

/-- A byte of a number in a register. -/
theorem ofNat_byte {width : Nat} (value : Nat) {shift : Nat} (inside : shift + 8 ≤ width) :
    UInt8.ofNat (BitVec.ofNat width value >>> shift).toNat = UInt8.ofNat (value / 2 ^ shift) := by
  have cut : value % 2 ^ width / 2 ^ shift % 2 ^ 8 = value / 2 ^ shift % 2 ^ 8 := by
    rw [show width = shift + (width - shift) by omega, Nat.pow_add, Nat.mod_mul_right_div_self,
      Nat.mod_mod_of_dvd _ (Nat.pow_dvd_pow 2 (by omega))]
  apply UInt8.toNat_inj.mp
  rw [BitVec.toNat_ushiftRight, BitVec.toNat_ofNat, Nat.shiftRight_eq_div_pow, UInt8.toNat_ofNat',
    UInt8.toNat_ofNat', cut]

instance neZeroEight : NeZero 8 := ⟨by decide⟩

/-- Eight registers. -/
@[ext] structure Registers (α : Type*) where
  a : α
  b : α
  c : α
  d : α
  e : α
  f : α
  g : α
  h : α
deriving DecidableEq

namespace Registers

variable {α : Type*}

def of (register : Fin 8 → α) : Registers α :=
  ⟨register 0, register 1, register 2, register 3, register 4, register 5, register 6, register 7⟩

def ofVector (file : Vector α 8) : Registers α := of file.get

def toList (registers : Registers α) : List α :=
  [registers.a, registers.b, registers.c, registers.d, registers.e, registers.f, registers.g,
    registers.h]

def zipWith (f : α → α → α) (first second : Registers α) : Registers α :=
  ⟨f first.a second.a, f first.b second.b, f first.c second.c, f first.d second.d,
    f first.e second.e, f first.f second.f, f first.g second.g, f first.h second.h⟩

/-- The registers as bytes, the high byte of each first. -/
def bytes (registers : Registers Word) : List UInt8 :=
  registers.toList.flatMap fun word => beBytes 4 word.toNat

theorem ofVector_zipWith (f : α → α → α) (first second : Vector α 8) :
    ofVector (Vector.zipWith f first second) = (ofVector first).zipWith f (ofVector second) := by
  have get (i : Fin 8) : (Vector.zipWith f first second).get i = f (first.get i) (second.get i) :=
    Vector.getElem_zipWith i.isLt
  simp only [ofVector, of, zipWith, get]

theorem toList_ofVector (file : Vector α 8) : (ofVector file).toList = file.toList := by
  apply List.ext_getElem
  · simp [toList]
  · intro i inside _
    have lt : i < 8 := inside
    interval_cases i <;> simp [ofVector, of, toList, Vector.get]

theorem bytes_ofVector {store : Word → List UInt8} (eq : ∀ word, store word = beBytes 4 word.toNat)
    (file : Vector Word 8) : (ofVector file).bytes = file.toList.flatMap store := by
  rw [bytes, toList_ofVector]
  exact congrArg (List.flatMap · file.toList) (funext fun word => (eq word).symm)

theorem length_bytes (registers : Registers Word) : registers.bytes.length = 32 := by
  simp [bytes, toList]

end Registers

end Zsbl.Lib
