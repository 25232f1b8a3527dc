/-
Module: Zsbl.Proofs.PkaOperands
Purpose: The numbers that the operands of the accelerator hold, and the calls that
  compute with them.
Trusted boundary: the firmware and the hardware, which are parameters
Main exports:
  operandAt, operandBytes, operandBytes_load, operandNumber, setOperand, fetch_unload,
  startCompute_computes
-/
import Zsbl.Drivers.PkaAlg
import Zsbl.Lib.Der
import Zsbl.Proofs.PkaCalls

namespace Zsbl.Drivers

open Zsbl.Lib

/-! ## Pages -/

/-- Where an operand is in the registers, in bytes. -/
def operandAt (bank : PkaBank) (index size : Nat) : Nat :=
  4 * (bank.base + index * (elppkaPageSize size >>> 2))

/-- The bytes of an operand from the high ones to the low ones: the words come in the
other order, and the accelerator swaps the bytes of each. -/
def operandBytes (regs : Memory) (opbase page : Nat) : List UInt8 :=
  (List.range page).map fun j => regs (opbase + 4 * ((page - 1 - j) / 4) + j % 4)

theorem page_facts {size : Nat} (valid : elppkaBaseRadix size ≠ 0) :
    elppkaPageSize size = 4 * (2 <<< elppkaBaseRadix size) ∧ size ≤ elppkaPageSize size := by
  unfold elppkaPageSize elppkaBaseRadix at *
  split_ifs at * <;> simp_all

theorem size_pos {size : Nat} (valid : elppkaBaseRadix size ≠ 0) : 16 < size := by
  by_contra small
  exact valid (if_pos (Nat.le_of_not_lt small))

theorem length_operandBytes (regs : Memory) (opbase page : Nat) :
    (operandBytes regs opbase page).length = page := by
  simp [operandBytes]

/-- The bytes of an operand are those of its words, the last word first. -/
theorem operandBytes_eq {regs : Memory} {opbase page : Nat} {bytes : List UInt8}
    (length : bytes.length = page)
    (all : ∀ j byte, bytes[j]? = some byte →
      regs (opbase + 4 * ((page - 1 - j) / 4) + j % 4) = byte) :
    operandBytes regs opbase page = bytes := by
  apply List.ext_getElem?
  intro j
  by_cases inside : j < page
  · have read := List.getElem?_eq_getElem (length.symm ▸ inside : j < bytes.length)
    rw [read, ← all j _ read]
    simp [operandBytes, inside]
  · rw [List.getElem?_eq_none (by rw [length_operandBytes]; omega),
      List.getElem?_eq_none (by omega)]

/-! ## Loading -/

section Load

variable (memory regs : Memory) (opbase size data : Nat)

/-- A load stays in the page of its operand. -/
theorem loadStores_untouched (valid : elppkaBaseRadix size ≠ 0) {at' : Nat}
    (outside : at' < opbase ∨ opbase + elppkaPageSize size ≤ at') :
    storeAll regs (loadStores memory opbase size data) at' = regs at' := by
  obtain ⟨page, fits⟩ := page_facts valid
  apply storeAll_untouched
  intro entry isStore
  rw [storedAt_eq_none]
  unfold loadStores at isStore
  simp only [List.mem_append, List.mem_map, List.mem_range] at isStore
  obtain (⟨i, inside, rfl⟩ | ⟨i, inside, rfl⟩) | isLast := isStore
  · simp only [List.length_cons, List.length_nil]
    omega
  · simp only [length_fetch]
    omega
  · split at isLast
    · simp only [List.mem_singleton] at isLast
      subst isLast
      simp only [List.length_append, List.length_replicate, length_fetch]
      omega
    · cases isLast

/-- The words of the operand hold: the complete words of the data, -/
theorem load_word {i b : Nat} (inside : i < size / 4) (byte : b < 4) :
    storeAll regs (loadStores memory opbase size data) (opbase + 4 * i + b) =
      memory (data + 4 * (size / 4 - i - 1) + size % 4 + b) := by
  have here : storedAt (opbase + 4 * i, fetch memory (data + 4 * (size / 4 - i - 1) + size % 4) 4)
      (opbase + 4 * i + b) = some (memory (data + 4 * (size / 4 - i - 1) + size % 4 + b)) := by
    simp [storedAt, fetch, byte]
  have words := lastStored_map
    (fun i => (opbase + 4 * i, fetch memory (data + 4 * (size / 4 - i - 1) + size % 4) 4))
    (List.mem_range.mpr inside) here fun k _ other => by
      rw [storedAt_eq_none, length_fetch]
      omega
  unfold loadStores
  simp only [storeAll_append]
  rw [storeAll_untouched, storeAll_apply, words]
  · rfl
  · intro entry isLast
    split at isLast
    · simp only [List.mem_singleton] at isLast
      subst isLast
      rw [storedAt_eq_none]
      simp only
      omega
    · cases isLast

/-- the incomplete word of the data behind zeros, -/
theorem load_rest {b : Nat} (incomplete : size % 4 ≠ 0) (byte : b < 4) :
    storeAll regs (loadStores memory opbase size data) (opbase + 4 * (size / 4) + b) =
      if b < 4 - size % 4 then 0 else memory (data + (b - (4 - size % 4))) := by
  have small : size % 4 < 4 := Nat.mod_lt _ (by decide)
  unfold loadStores
  simp only [storeAll_append, if_pos incomplete]
  rw [storeAll_apply]
  have last : lastStored [(opbase + 4 * (size / 4),
      List.replicate (4 - size % 4) 0 ++ fetch memory data (size % 4))]
      (opbase + 4 * (size / 4) + b) =
        some (if b < 4 - size % 4 then 0 else memory (data + (b - (4 - size % 4)))) := by
    by_cases zero : b < 4 - size % 4
    · simp [lastStored, zero, List.getElem?_append_left]
    · have behind : b - (4 - size % 4) < size % 4 := by omega
      rw [if_neg zero]
      simp [lastStored, List.getElem?_append_right, Nat.le_of_not_lt zero, fetch, behind]
  rw [last]
  rfl

/-- and zeros. -/
theorem load_zero (valid : elppkaBaseRadix size ≠ 0) {i b : Nat}
    (inside : 4 * i < elppkaPageSize size) (byte : b < 4)
    (behind : size / 4 < i ∨ size / 4 = i ∧ size % 4 = 0) :
    storeAll regs (loadStores memory opbase size data) (opbase + 4 * i + b) = 0 := by
  obtain ⟨page, -⟩ := page_facts valid
  have here : storedAt (opbase + 4 * i, [0, 0, 0, 0]) (opbase + 4 * i + b) = some 0 := by
    have zero : ([0, 0, 0, 0] : List UInt8)[b]? = some 0 :=
      (List.getElem?_replicate (n := 4)).trans (if_pos byte)
    simpa [storedAt] using zero
  have zeros := lastStored_map (fun i => (opbase + 4 * i, [0, 0, 0, 0]))
    (List.mem_range.mpr (by omega : i < 2 <<< elppkaBaseRadix size)) here fun k _ other => by
      rw [storedAt_eq_none]
      simp only [List.length_cons, List.length_nil]
      omega
  unfold loadStores
  simp only [storeAll_append]
  rw [storeAll_untouched, storeAll_untouched, storeAll_apply, zeros]
  · rfl
  · intro entry isWord
    obtain ⟨k, inRange, rfl⟩ := List.mem_map.mp isWord
    have before := List.mem_range.mp inRange
    rw [storedAt_eq_none, length_fetch]
    omega
  · intro entry isLast
    split at isLast
    · simp only [List.mem_singleton] at isLast
      subst isLast
      rw [storedAt_eq_none, List.length_append, List.length_replicate, length_fetch]
      omega
    · cases isLast

/-- A load puts the data at the low end of the operand and zeros in front. -/
theorem operandBytes_load (valid : elppkaBaseRadix size ≠ 0) :
    operandBytes (storeAll regs (loadStores memory opbase size data)) opbase
        (elppkaPageSize size) =
      List.replicate (elppkaPageSize size - size) 0 ++ fetch memory data size := by
  obtain ⟨page, fits⟩ := page_facts valid
  apply operandBytes_eq
  · rw [List.length_append, List.length_replicate, length_fetch]
    omega
  · intro j byte read
    have inside := (List.getElem?_eq_some_iff.mp read).1
    rw [List.length_append, List.length_replicate, length_fetch] at inside
    have small : j % 4 < 4 := Nat.mod_lt _ (by decide)
    by_cases isZero : j < elppkaPageSize size - size
    · rw [List.getElem?_append_left (by rwa [List.length_replicate]), List.getElem?_replicate,
        if_pos isZero] at read
      obtain rfl := Option.some.inj read
      by_cases last : size / 4 = (elppkaPageSize size - 1 - j) / 4 ∧ size % 4 ≠ 0
      · rw [← last.1, load_rest _ _ _ _ _ last.2 small]
        exact if_pos (by omega)
      · exact load_zero _ _ _ _ _ valid (by omega) small (by omega)
    · rw [List.getElem?_append_right (by rw [List.length_replicate]; omega),
        List.length_replicate] at read
      have value : memory (data + (j - (elppkaPageSize size - size))) = byte := by
        have lt : j - (elppkaPageSize size - size) < size := by omega
        simpa [fetch, lt] using read
      rw [← value]
      by_cases whole : (elppkaPageSize size - 1 - j) / 4 < size / 4
      · rw [load_word _ _ _ _ _ whole small]
        congr 1
        omega
      · have last : size / 4 = (elppkaPageSize size - 1 - j) / 4 := by omega
        rw [← last, load_rest _ _ _ _ _ (by omega) small, if_neg (by omega)]
        congr 1
        omega

end Load

/-! ## Numbers -/

/-- The number in a register. -/
def operandNumber (regs : Memory) (bank : PkaBank) (index size : Nat) : Nat :=
  bigEndian (operandBytes regs (operandAt bank index size) (elppkaPageSize size))

theorem operandNumber_lt (regs : Memory) (bank : PkaBank) (index size : Nat) :
    operandNumber regs bank index size < 256 ^ elppkaPageSize size := by
  have bound := bigEndian_lt (operandBytes regs (operandAt bank index size) (elppkaPageSize size))
  rwa [length_operandBytes] at bound

/-- The registers with a number in one. -/
def setOperand (regs : Memory) (bank : PkaBank) (index size number : Nat) : Memory :=
  let page := elppkaPageSize size
  storeAll regs (loadStores (store (fun _ => 0) 0 (beBytes page number))
    (operandAt bank index size) page 0)

/-- The size of a page is a page of its own size. -/
theorem page_page {size : Nat} (valid : elppkaBaseRadix size ≠ 0) :
    elppkaBaseRadix (elppkaPageSize size) ≠ 0 ∧
      elppkaPageSize (elppkaPageSize size) = elppkaPageSize size := by
  have page : elppkaPageSize size ∈ [32, 64, 128, 256, 512] := by
    unfold elppkaPageSize elppkaBaseRadix at *
    split_ifs at * <;> simp_all
  revert page
  generalize elppkaPageSize size = page
  revert page
  decide

/-- A number that fits is read back as it was set. -/
theorem operandNumber_set {regs : Memory} {bank : PkaBank} {index size number : Nat}
    (valid : elppkaBaseRadix size ≠ 0) (fits : number < 256 ^ elppkaPageSize size) :
    operandNumber (setOperand regs bank index size number) bank index size = number := by
  obtain ⟨valid', same⟩ := page_page valid
  have load := operandBytes_load (store (fun _ => 0) 0 (beBytes (elppkaPageSize size) number))
    regs (operandAt bank index size) (elppkaPageSize size) 0 valid'
  have stored := fetch_store (fun _ => 0) 0 (beBytes (elppkaPageSize size) number)
  rw [length_beBytes] at stored
  rw [same, stored, Nat.sub_self, List.replicate_zero, List.nil_append] at load
  exact (congrArg bigEndian load).trans (bigEndian_beBytes fits)

/-- A register apart from it. -/
theorem operandNumber_set_other {regs : Memory} {bank bank' : PkaBank}
    {index index' size number : Nat} (valid : elppkaBaseRadix size ≠ 0)
    (apart : operandAt bank' index' size + elppkaPageSize size ≤ operandAt bank index size ∨
      operandAt bank index size + elppkaPageSize size ≤ operandAt bank' index' size) :
    operandNumber (setOperand regs bank index size number) bank' index' size =
      operandNumber regs bank' index' size := by
  obtain ⟨valid', same⟩ := page_page valid
  have words := (page_facts valid).1
  apply congrArg bigEndian
  apply List.map_congr_left
  intro j inside
  have lt := List.mem_range.mp inside
  apply loadStores_untouched _ _ _ _ _ valid'
  rw [same]
  omega

/-! ## Unloading -/

section Unload

variable (memory regs : Memory) (opbase size data : Nat)

/-- An unload stays in the buffer of the caller. -/
theorem unloadStores_untouched {at' : Nat} (outside : at' < data ∨ data + size ≤ at') :
    storeAll memory (unloadStores regs opbase size data) at' = memory at' := by
  apply storeAll_untouched
  intro entry isStore
  rw [storedAt_eq_none]
  unfold unloadStores at isStore
  simp only [List.mem_append, List.mem_map, List.mem_range] at isStore
  obtain ⟨i, inside, rfl⟩ | isLast := isStore
  · simp only [length_fetch]
    omega
  · split at isLast
    · simp only [List.mem_singleton] at isLast
      subst isLast
      simp only [length_fetch]
      omega
    · cases isLast

/-- Each whole word goes to its place in the data, the last one first. -/
theorem unload_word {q b : Nat} (inside : q < size / 4) (byte : b < 4) :
    storeAll memory (unloadStores regs opbase size data) (data + (4 * q + size % 4 + b)) =
      regs (opbase + 4 * (size / 4 - q - 1) + b) := by
  have place : size / 4 - (size / 4 - q - 1) - 1 = q := by omega
  have here : storedAt (data + 4 * (size / 4 - (size / 4 - q - 1) - 1) + size % 4,
      fetch regs (opbase + 4 * (size / 4 - q - 1)) 4) (data + (4 * q + size % 4 + b)) =
        some (regs (opbase + 4 * (size / 4 - q - 1) + b)) := by
    have start : data + 4 * q + size % 4 ≤ data + (4 * q + size % 4 + b) := by omega
    have offset : data + (4 * q + size % 4 + b) - (data + 4 * q + size % 4) = b := by omega
    rw [place]
    simp [storedAt, start, offset, fetch, byte]
  have words := lastStored_map
    (fun i => (data + 4 * (size / 4 - i - 1) + size % 4, fetch regs (opbase + 4 * i) 4))
    (List.mem_range.mpr (by omega : size / 4 - q - 1 < size / 4)) here fun k isWord other => by
      have before := List.mem_range.mp isWord
      rw [storedAt_eq_none, length_fetch]
      omega
  unfold unloadStores
  simp only [storeAll_append]
  rw [storeAll_untouched, storeAll_apply, words]
  · rfl
  · intro entry isLast
    split at isLast
    · simp only [List.mem_singleton] at isLast
      subst isLast
      rw [storedAt_eq_none]
      simp only [length_fetch]
      omega
    · cases isLast

/-- The bytes left over come from the top of the last word. -/
theorem unload_rest {p : Nat} (inside : p < size % 4) :
    storeAll memory (unloadStores regs opbase size data) (data + p) =
      regs (opbase + 4 * (size / 4) + (4 - size % 4) + p) := by
  have incomplete : size % 4 ≠ 0 := by omega
  have last : lastStored [(data, fetch regs (opbase + 4 * (size / 4) + (4 - size % 4)) (size % 4))]
      (data + p) = some (regs (opbase + 4 * (size / 4) + (4 - size % 4) + p)) := by
    simp [lastStored, fetch, inside]
  unfold unloadStores
  simp only [storeAll_append, if_pos incomplete]
  rw [storeAll_apply, last]
  rfl

/-- An unload gives the low end of the operand. -/
theorem fetch_unload (valid : elppkaBaseRadix size ≠ 0) :
    fetch (storeAll memory (unloadStores regs opbase size data)) data size =
      (operandBytes regs opbase (elppkaPageSize size)).drop (elppkaPageSize size - size) := by
  obtain ⟨page, fits⟩ := page_facts valid
  apply List.ext_getElem?
  intro p
  by_cases inside : p < size
  · have left : (fetch (storeAll memory (unloadStores regs opbase size data)) data size)[p]? =
        some (storeAll memory (unloadStores regs opbase size data) (data + p)) := by
      simp [fetch, inside]
    have right : ((operandBytes regs opbase (elppkaPageSize size)).drop
        (elppkaPageSize size - size))[p]? =
        some (regs (opbase + 4 * ((size - 1 - p) / 4) + (4 - size % 4 + p) % 4)) := by
      have index : elppkaPageSize size - size + p < elppkaPageSize size := by omega
      have word : elppkaPageSize size - 1 - (elppkaPageSize size - size + p) = size - 1 - p := by
        omega
      have byte : (elppkaPageSize size - size + p) % 4 = (4 - size % 4 + p) % 4 := by omega
      rw [List.getElem?_drop]
      simp [operandBytes, index, word, byte]
    rw [left, right]
    by_cases rest : p < size % 4
    · rw [unload_rest _ _ _ _ _ rest]
      congr 2
      omega
    · have split : p = 4 * ((p - size % 4) / 4) + size % 4 + (p - size % 4) % 4 := by omega
      have word := unload_word memory regs opbase size data
        (by omega : (p - size % 4) / 4 < size / 4) (Nat.mod_lt (p - size % 4) (by decide : 0 < 4))
      rw [← split] at word
      rw [word]
      congr 2
      omega
  · rw [List.getElem?_eq_none (by rw [length_fetch]; omega),
      List.getElem?_eq_none (by rw [List.length_drop, length_operandBytes]; omega)]

end Unload

/-! ## Operands by name -/

/-- The accelerator has the register for the size. -/
def Available (cfg : PkaConfig) (bank : PkaBank) (index size : Nat) : Prop :=
  elppkaBaseRadix size ≠ 0 ∧ indexIsValid cfg bank index (elppkaPageSize size) = true

/-- An operand lies behind those of its bank before it. -/
theorem operandBaseOffset_eq {cfg : PkaConfig} {bank : PkaBank} {index size : Nat}
    (available : Available cfg bank index size) : operandBaseOffset cfg bank index size =
      .ok (bank.base + index * (elppkaPageSize size >>> 2)) := by
  obtain ⟨valid, register⟩ := available
  have page : elppkaPageSize size ≠ 0 := by
    have fits := (page_facts valid).2
    have positive := size_pos valid
    omega
  simp [operandBaseOffset, page, register]

theorem Available.index_le {cfg : PkaConfig} {bank : PkaBank} {index size : Nat}
    (available : Available cfg bank index size) : index ≤ 7 := by
  have register := available.2
  unfold indexIsValid at register
  by_contra large
  simp [Nat.lt_of_not_le large] at register

/-- A name is the letter of a bank and a digit up to 7. -/
theorem pkaLookupParam_name (bank : PkaBank) {index : UInt8} (digit : index.toNat ≤ 7) :
    pkaLookupParam [bank.letter, 0x30 + index] = some (bank, index.toNat) := by
  have digits : ∀ bits : BitVec 8, bits ≤ 7 → 0x30 ≤ 0x30 + bits ∧ 0x30 + bits ≤ 0x39 ∧
      (0x30 + bits).toNat - 0x30 = bits.toNat := by decide
  obtain ⟨low, high, value⟩ := digits index.toBitVec digit
  have isDigit : (0x30 : UInt8) ≤ 0x30 + index ∧ 0x30 + index ≤ 0x39 := ⟨low, high⟩
  have number : (0x30 + index).toNat - 0x30 = index.toNat := value
  have letter : PkaBank.ofName bank.letter = some bank := by
    cases bank <;> rfl
  simp only [pkaLookupParam, letter, Option.bind_eq_bind, Option.bind_some, if_pos isDigit, number]

/-- An input that is available is found at its place. -/
theorem operand_input {cfg : PkaConfig} {bank : PkaBank} {index : UInt8} {size : Nat}
    (available : Available cfg bank index.toNat size) (data : Nat) :
    (VaParam.input bank index data).operand cfg size =
      some (operandAt bank index.toNat size) := by
  have name : (VaParam.input bank index data).plainName = [0x25, bank.letter, 0x30 + index] := rfl
  unfold VaParam.operand
  rw [name]
  simp only [List.head?_cons, if_true, List.drop_succ_cons, List.drop_zero]
  rw [List.take_of_length_le (by simp), pkaLookupParam_name bank available.index_le]
  simp only [Option.bind_some, operandBaseOffset_eq available]
  rfl

theorem operand_output {cfg : PkaConfig} {bank : PkaBank} {index : UInt8} {size : Nat}
    (available : Available cfg bank index.toNat size) (data : Nat) :
    (VaParam.output bank index data).operand cfg size =
      some (operandAt bank index.toNat size) :=
  operand_input available data

/-! ## Lists of operands -/

theorem PkaBank.base_apart {first second : PkaBank} (other : first ≠ second) :
    first.base + 0x100 ≤ second.base ∨ second.base + 0x100 ≤ first.base := by
  cases first <;> cases second <;> first | exact absurd rfl other | simp [base]

/-- A register, and a buffer for it. -/
structure Operand where
  bank : PkaBank
  index : UInt8
  data : Nat

namespace Operand

def input (operand : Operand) : VaParam := .input operand.bank operand.index operand.data

def output (operand : Operand) : VaParam := .output operand.bank operand.index operand.data

def place (operand : Operand) (size : Nat) : Nat :=
  operandAt operand.bank operand.index.toNat size

/-- The accelerator has the register, inside its bank, and the buffer is not NULL. -/
structure Usable (cfg : PkaConfig) (size : Nat) (operand : Operand) : Prop where
  available : Available cfg operand.bank operand.index.toNat size
  inside : (operand.index.toNat + 1) * elppkaPageSize size ≤ 0x400
  pointer : operand.data ≠ 0

variable {cfg : PkaConfig} {size : Nat}

/-- Two registers do not overlap. -/
theorem place_apart {first second : Operand} (usable : first.Usable cfg size)
    (usable' : second.Usable cfg size)
    (other : (first.bank, first.index) ≠ (second.bank, second.index)) :
    first.place size + elppkaPageSize size ≤ second.place size ∨
      second.place size + elppkaPageSize size ≤ first.place size := by
  have words := (page_facts usable.available.1).1
  have inside := usable.inside
  have inside' := usable'.inside
  rw [Nat.add_mul, Nat.one_mul] at inside inside'
  have start (operand : Operand) : operand.place size =
      4 * operand.bank.base + operand.index.toNat * elppkaPageSize size := by
    have quarter : 4 * (elppkaPageSize size >>> 2) = elppkaPageSize size := by
      rw [Nat.shiftRight_eq_div_pow]
      omega
    unfold place operandAt
    rw [Nat.mul_add, Nat.mul_left_comm, quarter]
  rw [start, start]
  by_cases bank : first.bank = second.bank
  · have index : first.index.toNat ≠ second.index.toNat := by
      intro same
      exact other (Prod.ext bank (UInt8.toNat_inj.mp same))
    rw [bank]
    obtain below | above := Nat.lt_or_gt_of_ne index
    · have pages := Nat.mul_le_mul_right (elppkaPageSize size) below
      rw [Nat.succ_mul] at pages
      omega
    · have pages := Nat.mul_le_mul_right (elppkaPageSize size) above
      rw [Nat.succ_mul] at pages
      omega
  · have bases : first.bank.base + 0x100 ≤ second.bank.base ∨
        second.bank.base + 0x100 ≤ first.bank.base := PkaBank.base_apart bank
    omega

/-- Registers apart from those of the inputs keep their bytes, -/
theorem load_keeps {memory regs regs' : Memory} {operands : List Operand}
    (usable : ∀ operand ∈ operands, operand.Usable cfg size)
    (transfers : Transfers cfg size (fun opbase data => loadStores memory opbase size data)
      (operands.map input) regs regs') {at' : Nat}
    (apart : ∀ operand ∈ operands, at' < operand.place size ∨
      operand.place size + elppkaPageSize size ≤ at') : regs' at' = regs at' := by
  induction operands generalizing regs with
  | nil =>
      cases transfers
      rfl
  | cons operand rest ih =>
      have here := usable operand List.mem_cons_self
      cases transfers with
      | cons _ place rest' =>
          rw [input, operand_input here.available] at place
          obtain rfl := Option.some.inj place
          rw [ih (fun other isRest => usable other (.tail _ isRest)) rest'
            fun other isRest => apart other (.tail _ isRest)]
          exact loadStores_untouched _ _ _ _ _ here.available.1 (apart operand List.mem_cons_self)

/-- and each input is in its own. -/
theorem load_holds {memory regs regs' : Memory} {operands : List Operand}
    (usable : ∀ operand ∈ operands, operand.Usable cfg size)
    (distinct : (operands.map fun operand => (operand.bank, operand.index)).Nodup)
    (transfers : Transfers cfg size (fun opbase data => loadStores memory opbase size data)
      (operands.map input) regs regs') {operand : Operand} (isInput : operand ∈ operands) :
    operandBytes regs' (operand.place size) (elppkaPageSize size) =
      List.replicate (elppkaPageSize size - size) 0 ++ fetch memory operand.data size := by
  induction operands generalizing regs with
  | nil => cases isInput
  | cons first rest ih =>
      have here := usable first List.mem_cons_self
      obtain ⟨notRest, distinct⟩ := List.nodup_cons.mp distinct
      cases transfers with
      | cons _ place rest' =>
          rw [input, operand_input here.available] at place
          obtain rfl := Option.some.inj place
          cases isInput with
          | head =>
              rw [← operandBytes_load memory regs (operand.place size) size operand.data
                here.available.1]
              apply List.map_congr_left
              intro j inside
              have lt := List.mem_range.mp inside
              apply load_keeps (fun other isRest => usable other (.tail _ isRest)) rest'
              intro other isRest
              have words := (page_facts here.available.1).1
              have apart := place_apart here (usable other (.tail _ isRest)) fun same =>
                notRest (List.mem_map.mpr ⟨other, isRest, same.symm⟩)
              omega
          | tail _ isRest =>
              exact ih (fun other isOther => usable other (.tail _ isOther)) distinct rest' isRest

/-- Memory apart from the buffers of the outputs is kept, -/
theorem unload_keeps {memory memory' regs : Memory} {operands : List Operand}
    (transfers : Transfers cfg size (fun opbase data => unloadStores regs opbase size data)
      (operands.map output) memory memory') {at' : Nat}
    (apart : ∀ operand ∈ operands, at' < operand.data ∨ operand.data + size ≤ at') :
    memory' at' = memory at' := by
  induction operands generalizing memory with
  | nil =>
      cases transfers
      rfl
  | cons operand rest ih =>
      cases transfers with
      | cons _ _ rest' =>
          rw [ih rest' fun other isRest => apart other (.tail _ isRest)]
          exact unloadStores_untouched _ _ _ _ _ (apart operand List.mem_cons_self)

/-- Two buffers do not overlap. -/
def Apart (size : Nat) (first second : Operand) : Prop :=
  first.data + size ≤ second.data ∨ second.data + size ≤ first.data

/-- and each buffer gets its operand. -/
theorem unload_holds {memory memory' regs : Memory} {operands : List Operand}
    (usable : ∀ operand ∈ operands, operand.Usable cfg size)
    (distinct : operands.Pairwise (Apart size))
    (transfers : Transfers cfg size (fun opbase data => unloadStores regs opbase size data)
      (operands.map output) memory memory') {operand : Operand} (isOutput : operand ∈ operands) :
    fetch memory' operand.data size =
      (operandBytes regs (operand.place size) (elppkaPageSize size)).drop
        (elppkaPageSize size - size) := by
  induction operands generalizing memory with
  | nil => cases isOutput
  | cons first rest ih =>
      have here := usable first List.mem_cons_self
      obtain ⟨apart, distinct⟩ := List.pairwise_cons.mp distinct
      cases transfers with
      | cons _ place rest' =>
          rw [output, operand_output here.available] at place
          obtain rfl := Option.some.inj place
          cases isOutput with
          | head =>
              rw [← fetch_unload memory regs (operand.place size) size operand.data
                here.available.1]
              apply fetch_congr
              intro i inside
              apply unload_keeps rest'
              intro other isRest
              have buffers := apart other isRest
              unfold Apart at buffers
              omega
          | tail _ isRest =>
              exact ih (fun other isOther => usable other (.tail _ isOther)) distinct rest' isRest

end Operand

/-! ## Computing -/

/-- The parameters of a computation. -/
def params (inputs outputs : List Operand) : List VaParam :=
  inputs.map Operand.input ++ outputs.map Operand.output

/-- The inputs among the parameters are those of the call, in their order. -/
theorem params_inputs (inputs outputs : List Operand) :
    (params inputs outputs).filter (·.isOutput = false) = inputs.map Operand.input := by
  have keeps : (inputs.map Operand.input).filter (·.isOutput = false) =
      inputs.map Operand.input := by
    apply List.filter_eq_self.mpr
    intro param isParam
    obtain ⟨operand, -, rfl⟩ := List.mem_map.mp isParam
    rfl
  have drops : (outputs.map Operand.output).filter (·.isOutput = false) = [] := by
    apply List.filter_eq_nil_iff.mpr
    intro param isParam
    obtain ⟨operand, -, rfl⟩ := List.mem_map.mp isParam
    simp [Operand.output, VaParam.output, VaParam.isOutput]
  rw [params, List.filter_append, keeps, drops, List.append_nil]

/-- The outputs among the parameters are those of the call, in their order. -/
theorem params_outputs (inputs outputs : List Operand) :
    (params inputs outputs).filter (·.isOutput = true) = outputs.map Operand.output := by
  have drops : (inputs.map Operand.input).filter (·.isOutput = true) = [] := by
    apply List.filter_eq_nil_iff.mpr
    intro param isParam
    obtain ⟨operand, -, rfl⟩ := List.mem_map.mp isParam
    simp [Operand.input, VaParam.input, VaParam.isOutput]
  have keeps : (outputs.map Operand.output).filter (·.isOutput = true) =
      outputs.map Operand.output := by
    apply List.filter_eq_self.mpr
    intro param isParam
    obtain ⟨operand, -, rfl⟩ := List.mem_map.mp isParam
    rfl
  rw [params, List.filter_append, keeps, drops, List.nil_append]

/-- Usable operands give parameters that transfer. -/
theorem params_named {cfg : PkaConfig} {size : Nat} {inputs outputs : List Operand}
    (usable : ∀ operand ∈ inputs ++ outputs, operand.Usable cfg size) :
    ∀ param ∈ params inputs outputs, param.data ≠ 0 ∧ (param.operand cfg size).isSome := by
  intro param isParam
  rcases List.mem_append.mp isParam with isInput | isOutput
  · obtain ⟨operand, isOperand, rfl⟩ := List.mem_map.mp isInput
    have here := usable operand (List.mem_append_left _ isOperand)
    refine ⟨here.pointer, ?_⟩
    rw [Operand.input, operand_input here.available]
    rfl
  · obtain ⟨operand, isOperand, rfl⟩ := List.mem_map.mp isOutput
    have here := usable operand (List.mem_append_right _ isOperand)
    refine ⟨here.pointer, ?_⟩
    rw [Operand.output, operand_output here.available]
    rfl

theorem start_eq_some {call : PkaCall} {s s' : PkaState} {ret : Int}
    (returns : call.start s = some (ret, s')) :
    startCompute call.pka s.dev s.memory call.size call.func call.ap =
      some (ret, s'.dev, s'.memory) := by
  obtain ⟨result, computes, same⟩ := Option.map_eq_some_iff.mp returns
  cases same
  exact computes

/-- A computation on usable operands: its function finds each input in its register.
When it ends with status 0, each output is in its buffer and the rest of the memory is
as before; otherwise nothing is. -/
theorem startCompute_computes {pka : Pka} {dev : PkaDev} (idle : dev.sem = 1) (memory : Memory)
    {size : Nat} (valid : elppkaBaseRadix size ≠ 0) {func : List UInt8}
    (found : 0 ≤ pka.lookupEntry func) {inputs outputs : List Operand}
    (usable : ∀ operand ∈ inputs ++ outputs, operand.Usable pka.cfg size)
    (distinct : (inputs.map fun operand => (operand.bank, operand.index)).Nodup)
    (apart : outputs.Pairwise (Operand.Apart size)) :
    ∃ regs, (∀ operand ∈ inputs,
      operandBytes regs (operand.place size) (elppkaPageSize size) =
        List.replicate (elppkaPageSize size - size) 0 ++ fetch memory operand.data size) ∧
    ∀ status regs', pka.run (pka.lookupEntry func).toNat size regs = (status, regs') →
      (status ≠ .stopped 0 → startCompute pka dev memory size func (params inputs outputs) =
        some (0, ⟨1, regs', status⟩, memory)) ∧
      (status = .stopped 0 → ∃ memory',
        startCompute pka dev memory size func (params inputs outputs) =
          some (1, ⟨1, regs', status⟩, memory') ∧
        (∀ operand ∈ outputs, fetch memory' operand.data size =
          (operandBytes regs' (operand.place size) (elppkaPageSize size)).drop
            (elppkaPageSize size - size)) ∧
        ∀ at', (∀ operand ∈ outputs, at' < operand.data ∨ operand.data + size ≤ at') →
          memory' at' = memory at') := by
  have named := params_named usable
  have inputsUsable : ∀ operand ∈ inputs, operand.Usable pka.cfg size :=
    fun operand isInput => usable operand (List.mem_append_left _ isInput)
  have outputsUsable : ∀ operand ∈ outputs, operand.Usable pka.cfg size :=
    fun operand isOutput => usable operand (List.mem_append_right _ isOutput)
  let call : PkaCall := ⟨pka, size, func, params inputs outputs⟩
  let s : PkaState := ⟨dev, memory⟩
  obtain ⟨loads, loaded⟩ := call.inputs_transferred s named
  have isInputs : call.inputs = inputs.map Operand.input := params_inputs inputs outputs
  have isOutputs : call.outputs = outputs.map Operand.output := params_outputs inputs outputs
  rw [isInputs] at loaded
  refine ⟨(call.loaded s).2, fun operand isInput =>
    Operand.load_holds inputsUsable distinct loaded isInput, ?_⟩
  intro status regs' runs
  have ran : call.ran s = (status, regs') := runs
  have starts : call.Starts := ⟨found, valid⟩
  have ended : call.stopped s = ⟨1, regs', status⟩ := by
    unfold PkaCall.stopped
    rw [ran]
  constructor
  · intro failed
    have returns := call.start_of_not_stopped s idle loads starts (by rwa [ran])
    rw [ended] at returns
    have computes := start_eq_some returns
    exact computes
  · intro stopped
    have returns := call.start_of_stopped s idle loads starts (by rw [ran, stopped])
    have unloaded := call.outputs_transferred s named
    rw [isOutputs, ran] at unloaded
    rw [ended, ran] at returns
    have computes := start_eq_some returns
    refine ⟨_, computes, ?_, ?_⟩
    · exact fun operand isOutput =>
        Operand.unload_holds outputsUsable apart unloaded isOutput
    · exact fun at' outside => Operand.unload_keeps unloaded outside

/-- A computation without outputs, of a function that always ends with status 0. -/
theorem startCompute_prepares {pka : Pka} {dev : PkaDev} (idle : dev.sem = 1) (memory : Memory)
    {size : Nat} (valid : elppkaBaseRadix size ≠ 0) {func : List UInt8}
    (found : 0 ≤ pka.lookupEntry func) {inputs : List Operand}
    (usable : ∀ operand ∈ inputs, operand.Usable pka.cfg size)
    (distinct : (inputs.map fun operand => (operand.bank, operand.index)).Nodup)
    (ends : ∀ regs, (pka.run (pka.lookupEntry func).toNat size regs).1 = .stopped 0) :
    ∃ dev', dev'.sem = 1 ∧ startCompute pka dev memory size func (params inputs []) =
      some (1, dev', memory) := by
  obtain ⟨regs, -, runs⟩ := startCompute_computes idle memory valid found
    (by simpa using usable) distinct List.Pairwise.nil
  obtain ⟨-, computes⟩ := runs _ _ rfl
  obtain ⟨memory', returns, -, kept⟩ := computes (ends regs)
  have same : memory' = memory := funext fun at' => kept at' (by simp)
  rw [same] at returns
  exact ⟨_, rfl, returns⟩

theorem computeAll_done {pka : Pka} {dev dev' : PkaDev} {memory memory' : Memory} {size : Nat}
    {func : List UInt8} {ap : List VaParam}
    (computes : startCompute pka dev memory size func ap = some (1, dev', memory'))
    (rest : List (List UInt8 × List VaParam)) :
    computeAll pka size ((func, ap) :: rest) dev memory =
      computeAll pka size rest dev' memory' := by
  rw [computeAll, computes]
  rfl

theorem computeAll_failed {pka : Pka} {dev dev' : PkaDev} {memory memory' : Memory} {size : Nat}
    {func : List UInt8} {ap : List VaParam}
    (fails : startCompute pka dev memory size func ap = some (0, dev', memory'))
    (rest : List (List UInt8 × List VaParam)) :
    computeAll pka size ((func, ap) :: rest) dev memory = some (-1, dev', memory') := by
  rw [computeAll, fails]
  rfl

end Zsbl.Drivers
