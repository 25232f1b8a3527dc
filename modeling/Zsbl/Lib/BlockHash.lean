/-
Module: Zsbl.Lib.BlockHash
Purpose: Digests that fold whole blocks of a padded message into a chaining value, and
  readers of a message that keep the bytes that do not fill a block yet.
Trusted boundary: none
Main exports:
  BlockHash, BlockHash.bits64, BlockHash.chain, BlockHash.pad, BlockHash.digest, BlockHash.Absorbed,
  Absorbed.keep, Absorbed.fill, Absorbed.whole_blocks, Absorbed.finish_short,
  Absorbed.finish_long, absorbed_chunks
-/
import Mathlib.Data.List.Basic
import Mathlib.Tactic.Ring
import Zsbl.Lib.Der

namespace Zsbl.Lib

/-- How a message is cut into blocks, padded and compressed. The last `width` elements of
the padding depend on the length of the message. -/
structure BlockHash (σ α : Type*) where
  size : Nat
  compress : σ → List α → σ
  init : σ
  marker : α
  filler : α
  width : Nat
  field : Nat → List α
  field_length : ∀ length, (field length).length = width
  width_lt : width < size

namespace BlockHash

/-- Blocks of 64 bytes, of which the last ends with the length in bits, as in a counter of 64
bits. -/
def bits64 {σ : Type*} (compress : σ → List UInt8 → σ) (init : σ) : BlockHash σ UInt8 where
  size := 64
  compress := compress
  init := init
  marker := 0x80
  filler := 0
  width := 8
  field := fun length => beBytes 8 (8 * length)
  field_length := fun _ => length_beBytes ..
  width_lt := by decide

variable {σ α : Type*} (hash : BlockHash σ α)

/-- The chaining value behind some blocks. -/
def chain : Nat → σ → List α → σ
  | 0, state, _ => state
  | blocks + 1, state, message =>
      chain blocks (hash.compress state (message.take hash.size)) (message.drop hash.size)

/-- The fillers that a message of a length needs. -/
def fill (length : Nat) : Nat :=
  (hash.size - (length + 1 + hash.width) % hash.size) % hash.size

/-- A message with its padding. -/
def pad (message : List α) : List α :=
  message ++ hash.marker :: List.replicate (hash.fill message.length) hash.filler ++
    hash.field message.length

/-- The chaining value behind all blocks of the padded message. -/
def digest (message : List α) : σ :=
  hash.chain ((hash.pad message).length / hash.size) hash.init (hash.pad message)

theorem size_pos : 0 < hash.size := Nat.zero_lt_of_lt hash.width_lt

theorem chain_append {front : List α} {blocks : Nat} (whole : front.length = blocks * hash.size)
    (more : Nat) (state : σ) (rest : List α) :
    hash.chain (blocks + more) state (front ++ rest) =
      hash.chain more (hash.chain blocks state front) rest := by
  induction blocks generalizing state front with
  | zero =>
      have empty : front = [] := by simpa using whole
      simp [empty, chain]
  | succ blocks ih =>
      have enough : hash.size ≤ front.length := by
        rw [whole, Nat.succ_mul]
        omega
      have others : (front.drop hash.size).length = blocks * hash.size := by
        rw [List.length_drop, whole, Nat.succ_mul, Nat.add_sub_cancel]
      rw [Nat.add_right_comm, chain, chain, List.take_append_of_le_length enough,
        List.drop_append_of_le_length enough, ih others]

theorem chain_one {block : List α} (whole : block.length = hash.size) (state : σ) :
    hash.chain 1 state block = hash.compress state block := by
  rw [chain, chain, List.take_of_length_le whole.le]

/-- Only the blocks count. -/
theorem chain_take (blocks : Nat) (state : σ) {message : List α}
    (enough : blocks * hash.size ≤ message.length) :
    hash.chain blocks state (message.take (blocks * hash.size)) =
      hash.chain blocks state message := by
  have split := hash.chain_append (List.length_take_of_le enough) 0 state
    (message.drop (blocks * hash.size))
  rw [List.take_append_drop] at split
  exact split.symm

/-- The digest by any cut of the padded message into blocks. -/
theorem digest_eq_chain {message : List α} (blocks : Nat)
    (whole : (hash.pad message).length = blocks * hash.size) :
    hash.digest message = hash.chain blocks hash.init (hash.pad message) := by
  rw [digest, whole, Nat.mul_div_cancel _ hash.size_pos]

/-- The fillers are the only count below the size that completes a block. -/
theorem fill_eq {length count : Nat} (blocks : Nat) (small : count < hash.size)
    (whole : length + 1 + count + hash.width = blocks * hash.size) :
    hash.fill length = count := by
  have pos := hash.size_pos
  have sum : (length + 1 + hash.width + count) % hash.size = 0 := by
    rw [show length + 1 + hash.width + count = blocks * hash.size by omega, Nat.mul_mod_left]
  rw [Nat.add_mod, Nat.mod_eq_of_lt small] at sum
  have lt := Nat.mod_lt (length + 1 + hash.width) pos
  unfold fill
  generalize (length + 1 + hash.width) % hash.size = rest at sum lt
  have cases : rest + count = 0 ∨ rest + count = hash.size := by
    rcases Nat.lt_or_ge (rest + count) hash.size with below | above
    · left
      rwa [Nat.mod_eq_of_lt below] at sum
    · right
      rw [Nat.mod_eq_sub_mod above, Nat.mod_eq_of_lt (by omega)] at sum
      omega
  rcases cases with none | full
  · rw [show rest = 0 by omega, Nat.sub_zero, Nat.mod_self]
    omega
  · rw [show hash.size - rest = count by omega, Nat.mod_eq_of_lt small]

/-- A message has been read up to here: its whole blocks are in the chaining value, and
`pending` is what is left of it. -/
structure Absorbed (message : List α) (blocks : Nat) (state : σ) (pending : List α) : Prop where
  short : pending.length < hash.size
  cut : ∃ front, message = front ++ pending ∧ front.length = blocks * hash.size ∧
    state = hash.chain blocks hash.init front

theorem absorbed_nil : hash.Absorbed [] 0 hash.init [] where
  short := hash.size_pos
  cut := ⟨[], rfl, by simp, rfl⟩

namespace Absorbed

variable {hash} {message pending : List α} {blocks : Nat} {state : σ}

theorem length (absorbed : hash.Absorbed message blocks state pending) :
    message.length = blocks * hash.size + pending.length := by
  obtain ⟨front, rfl, whole, -⟩ := absorbed.cut
  rw [List.length_append, whole]

theorem keep (absorbed : hash.Absorbed message blocks state pending) (more : List α)
    (short : (pending ++ more).length < hash.size) :
    hash.Absorbed (message ++ more) blocks state (pending ++ more) where
  short := short
  cut := by
    obtain ⟨front, rfl, whole, chained⟩ := absorbed.cut
    exact ⟨front, List.append_assoc .., whole, chained⟩

theorem fill (absorbed : hash.Absorbed message blocks state pending) (more : List α)
    (full : (pending ++ more).length = hash.size) :
    hash.Absorbed (message ++ more) (blocks + 1) (hash.compress state (pending ++ more)) [] where
  short := hash.size_pos
  cut := by
    obtain ⟨front, rfl, whole, rfl⟩ := absorbed.cut
    refine ⟨front ++ (pending ++ more), by simp, ?_, ?_⟩
    · rw [List.length_append, whole, full, Nat.succ_mul]
    · rw [hash.chain_append whole, hash.chain_one full]

theorem whole_blocks (absorbed : hash.Absorbed message blocks state []) (more : List α)
    (count : Nat) (whole : more.length = count * hash.size) :
    hash.Absorbed (message ++ more) (blocks + count) (hash.chain count state more) [] where
  short := hash.size_pos
  cut := by
    obtain ⟨front, rfl, before, rfl⟩ := absorbed.cut
    refine ⟨front ++ more, by simp, ?_, ?_⟩
    · rw [List.length_append, before, whole, Nat.add_mul]
    · rw [hash.chain_append before]

/-- The padding fits behind what is pending. -/
theorem finish_short (absorbed : hash.Absorbed message blocks state pending)
    (fits : pending.length + 1 + hash.width ≤ hash.size) :
    hash.digest message = hash.compress state
      (pending ++ hash.marker ::
        List.replicate (hash.size - hash.width - (pending.length + 1)) hash.filler ++
        hash.field message.length) := by
  have length := absorbed.length
  have count : hash.fill message.length = hash.size - hash.width - (pending.length + 1) := by
    refine hash.fill_eq (blocks + 1) (by omega) ?_
    rw [length, Nat.succ_mul]
    omega
  obtain ⟨front, split, whole, rfl⟩ := absorbed.cut
  have padded : hash.pad message = front ++ (pending ++ hash.marker ::
      List.replicate (hash.size - hash.width - (pending.length + 1)) hash.filler ++
        hash.field message.length) := by
    unfold pad
    rw [count, split]
    simp only [List.append_assoc, List.cons_append]
  generalize tailEq : pending ++ hash.marker ::
      List.replicate (hash.size - hash.width - (pending.length + 1)) hash.filler ++
        hash.field message.length = last at padded ⊢
  have lastSize : last.length = hash.size := by
    rw [← tailEq]
    simp only [List.length_append, List.length_cons, List.length_replicate, hash.field_length]
    omega
  rw [hash.digest_eq_chain (blocks + 1)
    (by rw [padded, List.length_append, whole, lastSize, Nat.succ_mul]), padded,
    hash.chain_append whole, hash.chain_one lastSize]

/-- The padding needs one more block. -/
theorem finish_long (absorbed : hash.Absorbed message blocks state pending)
    (long : hash.size < pending.length + 1 + hash.width) :
    hash.digest message = hash.compress
      (hash.compress state (pending ++ hash.marker ::
        List.replicate (hash.size - (pending.length + 1)) hash.filler))
      (List.replicate (hash.size - hash.width) hash.filler ++ hash.field message.length) := by
  have length := absorbed.length
  have short := absorbed.short
  have widthLt := hash.width_lt
  have count : hash.fill message.length =
      hash.size - (pending.length + 1) + (hash.size - hash.width) := by
    refine hash.fill_eq (blocks + 2) (by omega) ?_
    rw [length, Nat.add_mul]
    omega
  obtain ⟨front, split, whole, rfl⟩ := absorbed.cut
  have padded : hash.pad message = front ++ ((pending ++ hash.marker ::
      List.replicate (hash.size - (pending.length + 1)) hash.filler) ++
      (List.replicate (hash.size - hash.width) hash.filler ++ hash.field message.length)) := by
    unfold pad
    rw [count, List.replicate_add, split]
    simp only [List.append_assoc, List.cons_append]
  generalize firstEq : pending ++ hash.marker ::
      List.replicate (hash.size - (pending.length + 1)) hash.filler = first at padded ⊢
  generalize lastEq : List.replicate (hash.size - hash.width) hash.filler ++
      hash.field message.length = last at padded ⊢
  have firstSize : first.length = hash.size := by
    rw [← firstEq]
    simp only [List.length_append, List.length_cons, List.length_replicate]
    omega
  have lastSize : last.length = hash.size := by
    rw [← lastEq]
    simp only [List.length_append, List.length_replicate, hash.field_length]
    omega
  rw [hash.digest_eq_chain (blocks + (1 + 1)) (by
      rw [padded, List.length_append, List.length_append, whole, firstSize, lastSize, Nat.add_mul]
      omega), padded, hash.chain_append whole,
    hash.chain_append (by rw [firstSize, Nat.one_mul]), hash.chain_one firstSize,
    hash.chain_one lastSize]

end Absorbed

/-- A reader that takes any chunk to where it should be takes any chunks there. -/
theorem absorbed_chunks {τ : Type*} (Reads : List α → τ → Prop) {process : τ → List α → τ}
    (step : ∀ {message reader}, Reads message reader → ∀ chunk,
      Reads (message ++ chunk) (process reader chunk))
    {message : List α} {reader : τ} (start : Reads message reader) (chunks : List (List α)) :
    Reads (message ++ chunks.flatten) (chunks.foldl process reader) := by
  induction chunks generalizing message reader with
  | nil => simpa using start
  | cons chunk chunks ih =>
      have next := ih (step start chunk)
      rwa [List.append_assoc] at next

end BlockHash

end Zsbl.Lib
