/-
Module: Zsbl.Lib.Memory
Purpose: A flat memory of bytes: storing and fetching ranges, and what is left of a
  range behind later stores.
Trusted boundary: none
Main exports:
  Memory, store, fetch, Readable, everywhere, fetchIf, storeIf, storedAt, lastStored, storeAll,
  fetch_append, fetch_congr, fetch_store, store_append, store_outside,
  storedAt_append, fetch_storeAll, fetch_store_apart, fetch_storeAll_apart, lastStored_map,
  lastStored_eq_none
-/
import Mathlib.Data.List.Basic

namespace Zsbl.Lib

abbrev Memory : Type := Nat → UInt8

def store (memory : Memory) (address : Nat) (bytes : List UInt8) : Memory := fun at' =>
  if address ≤ at' then (bytes[at' - address]?).getD (memory at') else memory at'

def fetch (memory : Memory) (address size : Nat) : List UInt8 :=
  (List.range size).map fun i => memory (address + i)

/-- A range whose bytes may all be read. -/
def Readable (readable : Nat → Bool) (address size : Nat) : Prop :=
  ∀ i < size, readable (address + i) = true

instance (readable : Nat → Bool) (address size : Nat) :
    Decidable (Readable readable address size) :=
  inferInstanceAs (Decidable (∀ i < size, _))

/-- Nothing is kept from being read. -/
def everywhere : Nat → Bool := fun _ => true

def fetchIf (readable : Nat → Bool) (memory : Memory) (address size : Nat) :
    Option (List UInt8) :=
  if Readable readable address size then some (fetch memory address size) else none

def storeIf (writable : Nat → Bool) (memory : Memory) (address : Nat) (bytes : List UInt8) :
    Option Memory :=
  if Readable writable address bytes.length then some (store memory address bytes) else none

/-- A store is an address and the bytes from there on. -/
def storeAll (memory : Memory) (stores : List (Nat × List UInt8)) : Memory :=
  stores.foldl (fun memory entry => store memory entry.1 entry.2) memory

/-- What the last of the stores that reach an address puts there. -/
def lastStored : List (Nat × List UInt8) → Nat → Option UInt8
  | [], _ => none
  | (address, bytes) :: rest, at' =>
      (lastStored rest at').or (if address ≤ at' then bytes[at' - address]? else none)

/-- What a store puts at an address. -/
def storedAt (entry : Nat × List UInt8) (at' : Nat) : Option UInt8 :=
  if entry.1 ≤ at' then entry.2[at' - entry.1]? else none

theorem readable_append (readable : Nat → Bool) (address first second : Nat) :
    Readable readable address (first + second) ↔
      Readable readable address first ∧ Readable readable (address + first) second := by
  constructor
  · intro both
    constructor
    · intro i inside
      exact both i (by omega)
    · intro i inside
      rw [Nat.add_assoc]
      exact both (first + i) (by omega)
  · rintro ⟨low, high⟩ i inside
    by_cases isLow : i < first
    · exact low i isLow
    · have there := high (i - first) (by omega)
      rwa [Nat.add_assoc, Nat.add_sub_cancel' (Nat.le_of_not_lt isLow)] at there

theorem readable_everywhere (address size : Nat) : Readable everywhere address size :=
  fun _ _ => rfl

theorem fetch_append (memory : Memory) (address first second : Nat) :
    fetch memory address (first + second) =
      fetch memory address first ++ fetch memory (address + first) second := by
  simp only [fetch, List.range_add, List.map_append, List.map_map, Function.comp_def,
    Nat.add_assoc]

@[simp] theorem length_fetch (memory : Memory) (address size : Nat) :
    (fetch memory address size).length = size := by
  simp [fetch]

theorem storeAll_apply (memory : Memory) (stores : List (Nat × List UInt8)) (at' : Nat) :
    storeAll memory stores at' = (lastStored stores at').getD (memory at') := by
  induction stores generalizing memory with
  | nil => rfl
  | cons entry rest ih =>
      obtain ⟨address, bytes⟩ := entry
      have first : storeAll memory ((address, bytes) :: rest) at' =
          (lastStored rest at').getD (store memory address bytes at') := ih _
      have last : lastStored ((address, bytes) :: rest) at' =
          (lastStored rest at').or (if address ≤ at' then bytes[at' - address]? else none) := rfl
      rw [first, last]
      cases lastStored rest at' with
      | some byte => rfl
      | none =>
          by_cases reached : address ≤ at'
          · simp [store, reached]
          · simp [store, reached]

theorem storeAll_append (memory : Memory) (stores others : List (Nat × List UInt8)) :
    storeAll memory (stores ++ others) = storeAll (storeAll memory stores) others :=
  List.foldl_append

theorem fetch_eq_iff {memory : Memory} {address : Nat} {bytes : List UInt8} :
    fetch memory address bytes.length = bytes ↔
      ∀ i byte, bytes[i]? = some byte → memory (address + i) = byte := by
  have element (i : Nat) (inside : i < bytes.length) :
      (fetch memory address bytes.length)[i]? = some (memory (address + i)) := by
    simp [fetch, inside]
  constructor
  · intro same i byte read
    obtain ⟨inside, -⟩ := List.getElem?_eq_some_iff.mp read
    have there := element i inside
    rw [same, read] at there
    exact (Option.some.inj there).symm
  · intro all
    apply List.ext_getElem?
    intro i
    by_cases inside : i < bytes.length
    · rw [element i inside, List.getElem?_eq_getElem inside]
      exact congrArg some (all i _ (List.getElem?_eq_getElem inside))
    · have outside : bytes.length ≤ i := Nat.le_of_not_lt inside
      rw [List.getElem?_eq_none outside, List.getElem?_eq_none]
      simpa [fetch] using outside

theorem fetch_store (memory : Memory) (address : Nat) (bytes : List UInt8) :
    fetch (store memory address bytes) address bytes.length = bytes := by
  apply fetch_eq_iff.mpr
  intro i byte read
  simp [store, read]

/-- Bytes that are in memory stay there when the last of the later stores that reach
one of them stores the same. -/
theorem fetch_storeAll {memory : Memory} {address : Nat} {bytes : List UInt8}
    (there : fetch memory address bytes.length = bytes) (stores : List (Nat × List UInt8)) :
    fetch (storeAll memory stores) address bytes.length = bytes ↔
      ∀ i byte, bytes[i]? = some byte → ∀ other, lastStored stores (address + i) = some other →
        other = byte := by
  rw [fetch_eq_iff]
  apply forall_congr'
  intro i
  apply forall_congr'
  intro byte
  apply imp_congr_right
  intro read
  rw [storeAll_apply]
  cases lastStored stores (address + i) with
  | none =>
      have same := fetch_eq_iff.mp there i byte read
      simp [same]
  | some other => simp

theorem store_nil (memory : Memory) (address : Nat) : store memory address [] = memory := by
  funext at'
  simp [store]

/-- A store directly behind another. -/
theorem store_append (memory : Memory) (address : Nat) (first second : List UInt8) :
    store (store memory address first) (address + first.length) second =
      store memory address (first ++ second) := by
  funext at'
  by_cases reached : address + first.length ≤ at'
  · have behind : first.length ≤ at' - address := by omega
    have index : at' - (address + first.length) = at' - address - first.length := by omega
    have start : address ≤ at' := by omega
    simp [store, reached, start, index, List.getElem?_append_right behind,
      List.getElem?_eq_none behind]
  · by_cases start : address ≤ at'
    · have inFirst : at' - address < first.length := by omega
      simp [store, reached, start, List.getElem?_append_left inFirst]
    · simp [store, reached, start]

/-- A store directly in front of another. -/
theorem store_front (memory : Memory) (address : Nat) (first second : List UInt8) :
    store (store memory (address + first.length) second) address first =
      store memory address (first ++ second) := by
  rw [← store_append]
  funext at'
  by_cases start : address ≤ at'
  · by_cases reached : address + first.length ≤ at'
    · have behind : first.length ≤ at' - address := by omega
      simp [store, start, reached, List.getElem?_eq_none behind]
    · have inFirst : at' - address < first.length := by omega
      simp [store, start, reached, List.getElem?_eq_getElem inFirst]
  · have before : ¬ address + first.length ≤ at' := by omega
    simp [store, start, before]

/-- Addresses outside of a store. -/
theorem store_outside {memory : Memory} {address at' : Nat} {bytes : List UInt8}
    (outside : at' < address ∨ address + bytes.length ≤ at') :
    store memory address bytes at' = memory at' := by
  by_cases start : address ≤ at'
  · have behind : bytes.length ≤ at' - address := by omega
    simp [store, start, List.getElem?_eq_none behind]
  · simp [store, start]

theorem storedAt_append (address : Nat) (first second : List UInt8) (at' : Nat) :
    storedAt (address, first ++ second) at' =
      (storedAt (address, first) at').or (storedAt (address + first.length, second) at') := by
  unfold storedAt
  by_cases start : address ≤ at'
  · by_cases behind : address + first.length ≤ at'
    · have out : first.length ≤ at' - address := by omega
      have index : at' - address - first.length = at' - (address + first.length) := by omega
      simp [start, behind, List.getElem?_append_right out, List.getElem?_eq_none out, index]
    · have inFirst : at' - address < first.length := by omega
      simp [start, behind, List.getElem?_append_left inFirst]
  · have before : ¬ address + first.length ≤ at' := by omega
    simp [start, before]

/-! ## Stores that do not overlap -/

theorem storedAt_isSome (entry : Nat × List UInt8) (at' : Nat) :
    (storedAt entry at').isSome ↔ entry.1 ≤ at' ∧ at' < entry.1 + entry.2.length := by
  unfold storedAt
  split
  · next behind =>
      rw [isSome_getElem?]
      omega
  · next before => simp [before]

theorem storedAt_eq_none {entry : Nat × List UInt8} {at' : Nat} :
    storedAt entry at' = none ↔ at' < entry.1 ∨ entry.1 + entry.2.length ≤ at' := by
  rw [← Option.not_isSome_iff_eq_none, storedAt_isSome]
  omega

theorem lastStored_eq_none {stores : List (Nat × List UInt8)} {at' : Nat} :
    lastStored stores at' = none ↔ ∀ entry ∈ stores, storedAt entry at' = none := by
  induction stores with
  | nil => simp [lastStored]
  | cons entry rest ih =>
      have first : lastStored (entry :: rest) at' = (lastStored rest at').or (storedAt entry at') :=
        rfl
      rw [first, Option.or_eq_none_iff, ih, List.forall_mem_cons]
      exact And.comm

/-- An address that one store of a family reaches and no other does. -/
theorem lastStored_map {ι : Type} {list : List ι} (entry : ι → Nat × List UInt8) {j : ι}
    (isStore : j ∈ list) {at' : Nat} {byte : UInt8} (here : storedAt (entry j) at' = some byte)
    (apart : ∀ i ∈ list, i ≠ j → storedAt (entry i) at' = none) :
    lastStored (list.map entry) at' = some byte := by
  induction list with
  | nil => cases isStore
  | cons i rest ih =>
      have first : lastStored ((i :: rest).map entry) at' =
          (lastStored (rest.map entry) at').or (storedAt (entry i) at') := rfl
      rw [first]
      by_cases again : j ∈ rest
      · rw [ih again fun i isRest => apart i (.tail _ isRest)]
        rfl
      · have same : i = j := by
          cases isStore with
          | head => rfl
          | tail _ isRest => exact absurd isRest again
        have others : lastStored (rest.map entry) at' = none := by
          apply lastStored_eq_none.mpr
          intro other isOther
          obtain ⟨k, isRest, rfl⟩ := List.mem_map.mp isOther
          apply apart k (.tail _ isRest)
          rintro rfl
          exact again isRest
        rw [others, same, here]
        rfl

/-- Addresses that are not stored to. -/
theorem storeAll_untouched {memory : Memory} {stores : List (Nat × List UInt8)} {at' : Nat}
    (apart : ∀ entry ∈ stores, storedAt entry at' = none) :
    storeAll memory stores at' = memory at' := by
  rw [storeAll_apply, lastStored_eq_none.mpr apart]
  rfl

theorem fetch_congr {memory memory' : Memory} {address size : Nat}
    (same : ∀ i < size, memory (address + i) = memory' (address + i)) :
    fetch memory address size = fetch memory' address size := by
  apply List.map_congr_left
  intro i inside
  exact same i (List.mem_range.mp inside)

theorem drop_take_fetch (memory : Memory) (address : Nat) {total start size : Nat}
    (inside : start + size ≤ total) :
    ((fetch memory address total).drop start).take size = fetch memory (address + start) size := by
  have split : total = start + (size + (total - start - size)) := by omega
  rw [split, fetch_append, fetch_append, List.drop_left' (length_fetch _ _ _),
    List.take_left' (length_fetch _ _ _)]

/-- Two stores that do not overlap. -/
def StoresApart (first second : Nat × List UInt8) : Prop :=
  first.1 + first.2.length ≤ second.1 ∨ second.1 + second.2.length ≤ first.1

/-- A range apart from a store. -/
theorem fetch_store_apart {memory : Memory} {address size at' : Nat} {bytes : List UInt8}
    (apart : at' + size ≤ address ∨ address + bytes.length ≤ at') :
    fetch (store memory address bytes) at' size = fetch memory at' size := by
  apply fetch_congr
  intro i inside
  have outside : storedAt (address, bytes) (at' + i) = none := by
    apply storedAt_eq_none.mpr
    simp only
    omega
  exact @storeAll_untouched memory [(address, bytes)] (at' + i) (by simpa using outside)

/-- Stores that do not overlap are all there. -/
theorem fetch_storeAll_apart {stores : List (Nat × List UInt8)}
    (apart : stores.Pairwise StoresApart) {entry : Nat × List UInt8} (isStore : entry ∈ stores)
    (memory : Memory) :
    fetch (storeAll memory stores) entry.1 entry.2.length = entry.2 := by
  induction stores generalizing memory with
  | nil => cases isStore
  | cons first rest ih =>
      obtain ⟨fromRest, apart⟩ := List.pairwise_cons.mp apart
      cases isStore with
      | tail _ isRest => exact ih apart isRest _
      | head =>
          apply Eq.trans _ (fetch_store memory entry.1 entry.2)
          apply fetch_congr
          intro i inside
          apply @storeAll_untouched (store memory entry.1 entry.2) rest
          intro other isOther
          have disjoint := fromRest other isOther
          unfold StoresApart at disjoint
          rw [storedAt_eq_none]
          omega

end Zsbl.Lib
