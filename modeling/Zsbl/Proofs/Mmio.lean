/-
Module: Zsbl.Proofs.Mmio
Purpose: The memory functions have the effect of their C specification on operands of either
  kind, and access IO memory aligned.
Trusted boundary: none
Main exports:
  Logs, copyLoop_spec, forward_spec, backward_spec, NormalMemory.Lawful, OfOneKind, Meets,
  memory_functions
-/
import Zsbl.Common.Mmio

namespace Zsbl.Common

open Zsbl.Lib

/-! ## Widths -/

/-- An address is aligned if its low bits are zero. -/
theorem and_low (address : BitVec 64) (bits : Nat) (few : bits < 64) :
    address &&& BitVec.ofNat 64 (2 ^ bits - 1) = 0 ↔ 2 ^ bits ∣ address.toNat := by
  have small : 2 ^ bits - 1 < 2 ^ 64 := by
    have := Nat.pow_le_pow_right (show 0 < 2 by decide) (Nat.le_of_lt few)
    have := Nat.two_pow_pos bits
    omega
  rw [← BitVec.toNat_inj, BitVec.toNat_and, BitVec.toNat_ofNat, Nat.mod_eq_of_lt small,
    Nat.and_two_pow_sub_one_eq_mod, Nat.dvd_iff_mod_eq_zero]
  simp

/-- A chosen width fits and suits the address. -/
theorem ioWidth_spec (address : BitVec 64) {n : Nat} (some : n ≠ 0) :
    ioWidth address n ≤ n ∧ ioWidth address n ∣ address.toNat := by
  unfold ioWidth
  split_ifs with wide word half
  · exact ⟨wide.2, (and_low address 4 (by decide)).mp wide.1⟩
  · exact ⟨word.2, (and_low address 3 (by decide)).mp word.1⟩
  · exact ⟨half.2, (and_low address 2 (by decide)).mp half.1⟩
  · exact ⟨Nat.one_le_iff_ne_zero.mpr some, Nat.one_dvd _⟩

/-! ## Ranges -/

/-- The bytes from an address on are in the address space. -/
def InSpace (start : BitVec 64) (n : Nat) : Prop := start.toNat + n ≤ 2 ^ 64

theorem toNat_add_ofNat {start : BitVec 64} {i : Nat} (inside : start.toNat + i < 2 ^ 64) :
    (start + BitVec.ofNat 64 i).toNat = start.toNat + i := by
  rw [BitVec.toNat_add, BitVec.toNat_ofNat]
  omega

/-- The rest of a range; it may be empty at the end of the address space. -/
theorem InSpace.rest {start : BitVec 64} {n i : Nat} (inside : InSpace start n) (le : i ≤ n) :
    n - i = 0 ∨ (start + BitVec.ofNat 64 i).toNat = start.toNat + i ∧
      InSpace (start + BitVec.ofNat 64 i) (n - i) := by
  unfold InSpace at inside ⊢
  rcases Nat.eq_or_lt_of_le le with rfl | more
  · exact .inl (Nat.sub_self _)
  · have next : (start + BitVec.ofNat 64 i).toNat = start.toNat + i :=
      toNat_add_ofNat (by omega)
    exact .inr ⟨next, by omega⟩

def Disjoint (first second : BitVec 64) (n : Nat) : Prop :=
  first.toNat + n ≤ second.toNat ∨ second.toNat + n ≤ first.toNat

/-! ## Accesses -/

/-- The accesses since `before` are all as they should be. -/
def Logs (ok : Access → Prop) (before after : Bus) : Prop :=
  ∃ new, after.accesses = before.accesses ++ new ∧ ∀ access ∈ new, ok access

namespace Logs

variable {ok : Access → Prop} {first second third : Bus}

theorem refl (bus : Bus) : Logs ok bus bus := ⟨[], by simp, by simp⟩

theorem trans (one : Logs ok first second) (two : Logs ok second third) :
    Logs ok first third := by
  obtain ⟨new, logged, good⟩ := one
  obtain ⟨new', logged', good'⟩ := two
  refine ⟨new ++ new', by rw [logged', logged, List.append_assoc], ?_⟩
  intro access member
  exact (List.mem_append.mp member).elim (good access) (good' access)

theorem mono {ok' : Access → Prop} (logs : Logs ok first second)
    (weaker : ∀ access, ok access → ok' access) : Logs ok' first second := by
  obtain ⟨new, logged, good⟩ := logs
  exact ⟨new, logged, fun access member => weaker access (good access member)⟩

end Logs

def Access.Within (access : Access) (start : BitVec 64) (n : Nat) : Prop :=
  start.toNat ≤ access.address.toNat ∧ access.address.toNat + access.size ≤ start.toNat + n

def Access.Aligned (access : Access) : Prop := access.size ∣ access.address.toNat

namespace Bus

/-- An assignment copies bytes. -/
theorem move_memory (bus : Bus) (d s : BitVec 64) (size : Nat) :
    (bus.move d s size).memory =
      Lib.store bus.memory d.toNat (fetch bus.memory s.toNat size) := by
  have same := leBytes_le (fetch bus.memory s.toNat size)
  rw [length_fetch] at same
  simp only [move, load, store, same]

theorem move_logs {ok : Access → Prop} {d s : BitVec 64} {size : Nat} (bus : Bus)
    (read : ok ⟨false, s, size⟩) (written : ok ⟨true, d, size⟩) :
    Logs ok bus (bus.move d s size) :=
  ⟨[⟨false, s, size⟩, ⟨true, d, size⟩], by simp [move, load, store], by simp [read, written]⟩

end Bus

/-! ## The loops -/

theorem copyLoop_eq (side : BitVec 64 → BitVec 64 → BitVec 64) (d s : BitVec 64) (n : Nat)
    (bus : Bus) :
    copyLoop side d s n bus =
      if n = 0 then bus
      else copyLoop side (d + BitVec.ofNat 64 (ioWidth (side d s) n))
        (s + BitVec.ofNat 64 (ioWidth (side d s) n)) (n - ioWidth (side d s) n)
        (bus.move d s (ioWidth (side d s) n)) := by
  rw [copyLoop]

/-- Between ranges that do not overlap, the loop copies; the pointer that decides on the width
is aligned in every access. -/
theorem copyLoop_spec {side : BitVec 64 → BitVec 64 → BitVec 64} {ok : Access → Prop}
    {d s : BitVec 64} {n : Nat} (bus : Bus) (inD : InSpace d n) (inS : InSpace s n)
    (disjoint : Disjoint d s n)
    (good : ∀ d' s' : BitVec 64, ∀ size, 0 < size → size ∣ (side d' s').toNat →
      Access.Within ⟨false, s', size⟩ s n → Access.Within ⟨true, d', size⟩ d n →
      ok ⟨false, s', size⟩ ∧ ok ⟨true, d', size⟩) :
    (copyLoop side d s n bus).memory =
        Lib.store bus.memory d.toNat (fetch bus.memory s.toNat n) ∧
      Logs ok bus (copyLoop side d s n bus) := by
  induction n using Nat.strongRecOn generalizing d s bus with
  | ind n ih =>
      rw [copyLoop_eq]
      split
      · rename_i none
        subst none
        exact ⟨(store_nil _ _).symm, .refl bus⟩
      · rename_i some
        obtain ⟨fits, divides⟩ := ioWidth_spec (side d s) some
        have positive := ioWidth_pos (side d s) n
        generalize ioWidth (side d s) n = width at fits divides positive ⊢
        have moved := bus.move_memory d s width
        have logged : Logs ok bus (bus.move d s width) := by
          obtain ⟨read, written⟩ := good d s width positive divides ⟨le_refl _, by simp only; omega⟩
            ⟨le_refl _, by simp only; omega⟩
          exact bus.move_logs read written
        by_cases last : n - width = 0
        · have all : n = width := by omega
          rw [last, copyLoop_eq, if_pos rfl, all]
          exact ⟨moved, logged⟩
        · obtain ⟨nextD, inD'⟩ := (inD.rest fits).resolve_left last
          obtain ⟨nextS, inS'⟩ := (inS.rest fits).resolve_left last
          have disjoint' : Disjoint (d + BitVec.ofNat 64 width) (s + BitVec.ofNat 64 width)
              (n - width) := by
            unfold Disjoint at disjoint ⊢
            omega
          obtain ⟨copied, logged'⟩ := ih (n - width) (by omega) (bus.move d s width) inD' inS'
            disjoint' fun d' s' size positive divides read written =>
              good d' s' size positive divides
              ⟨by have := read.1; simp only at this ⊢; omega,
                by have := read.2; simp only at this ⊢; omega⟩
              ⟨by have := written.1; simp only at this ⊢; omega,
                by have := written.2; simp only at this ⊢; omega⟩
          refine ⟨?_, logged.trans logged'⟩
          -- the rest of the source is apart from what has been written
          have unread : fetch (Lib.store bus.memory d.toNat (fetch bus.memory s.toNat width))
              (s.toNat + width) (n - width) = fetch bus.memory (s.toNat + width) (n - width) := by
            apply fetch_store_apart
            rw [length_fetch]
            unfold Disjoint at disjoint
            omega
          have split : fetch bus.memory s.toNat n =
              fetch bus.memory s.toNat width ++
                fetch bus.memory (s.toNat + width) (n - width) := by
            rw [← fetch_append, Nat.add_sub_cancel' fits]
          have behind := store_append bus.memory d.toNat (fetch bus.memory s.toNat width)
            (fetch bus.memory (s.toNat + width) (n - width))
          rw [length_fetch] at behind
          rw [copied, moved, nextD, nextS, unread, behind, split]

/-- One byte after the other, from the first one on: right unless a byte of the source is
overwritten before it is read. -/
theorem forward_spec {dst src : BitVec 64} {n : Nat} (bus : Bus) (inD : InSpace dst n)
    (inS : InSpace src n) (order : dst.toNat ≤ src.toNat ∨ src.toNat + n ≤ dst.toNat) :
    ((List.range n).foldl (moveByte dst src) bus).memory =
      Lib.store bus.memory dst.toNat (fetch bus.memory src.toNat n) := by
  suffices steps : ∀ k ≤ n, ((List.range k).foldl (moveByte dst src) bus).memory =
      Lib.store bus.memory dst.toNat (fetch bus.memory src.toNat k) from steps n (le_refl n)
  intro k inside
  induction k with
  | zero => exact (store_nil _ _).symm
  | succ k ih =>
      have before := ih (Nat.le_of_succ_le inside)
      have nextD : (dst + BitVec.ofNat 64 k).toNat = dst.toNat + k :=
        toNat_add_ofNat (by unfold InSpace at inD; omega)
      have nextS : (src + BitVec.ofNat 64 k).toNat = src.toNat + k :=
        toNat_add_ofNat (by unfold InSpace at inS; omega)
      have unread : fetch (Lib.store bus.memory dst.toNat (fetch bus.memory src.toNat k))
          (src.toNat + k) 1 = fetch bus.memory (src.toNat + k) 1 := by
        apply fetch_store_apart
        rw [length_fetch]
        omega
      have behind := store_append bus.memory dst.toNat (fetch bus.memory src.toNat k)
        (fetch bus.memory (src.toNat + k) 1)
      rw [length_fetch] at behind
      rw [List.range_succ, List.foldl_append, List.foldl_cons, List.foldl_nil, moveByte,
        Bus.move_memory, before, nextD, nextS, unread, behind, fetch_append]

/-- From the last one down. -/
theorem backward_spec {dst src : BitVec 64} {n : Nat} (bus : Bus) (inD : InSpace dst n)
    (inS : InSpace src n) (order : src.toNat ≤ dst.toNat) :
    ((List.range n).foldl (fun bus i => moveByte dst src bus (n - 1 - i)) bus).memory =
      Lib.store bus.memory dst.toNat (fetch bus.memory src.toNat n) := by
  suffices steps : ∀ k ≤ n,
      ((List.range k).foldl (fun bus i => moveByte dst src bus (n - 1 - i)) bus).memory =
        Lib.store bus.memory (dst.toNat + (n - k)) (fetch bus.memory (src.toNat + (n - k)) k) by
    simpa using steps n (le_refl n)
  intro k inside
  induction k with
  | zero => exact (store_nil _ _).symm
  | succ k ih =>
      have before := ih (Nat.le_of_succ_le inside)
      have nextD : (dst + BitVec.ofNat 64 (n - 1 - k)).toNat = dst.toNat + (n - (k + 1)) := by
        rw [toNat_add_ofNat (by unfold InSpace at inD; omega)]
        omega
      have nextS : (src + BitVec.ofNat 64 (n - 1 - k)).toNat = src.toNat + (n - (k + 1)) := by
        rw [toNat_add_ofNat (by unfold InSpace at inS; omega)]
        omega
      have upD : dst.toNat + (n - k) = dst.toNat + (n - (k + 1)) + 1 := by omega
      have upS : src.toNat + (n - k) = src.toNat + (n - (k + 1)) + 1 := by omega
      have unread : fetch (Lib.store bus.memory (dst.toNat + (n - k))
            (fetch bus.memory (src.toNat + (n - k)) k)) (src.toNat + (n - (k + 1))) 1 =
          fetch bus.memory (src.toNat + (n - (k + 1))) 1 := by
        apply fetch_store_apart
        omega
      rw [List.range_succ, List.foldl_append, List.foldl_cons, List.foldl_nil, moveByte,
        Bus.move_memory, before, nextD, nextS, unread]
      have front := store_front bus.memory (dst.toNat + (n - (k + 1)))
        (fetch bus.memory (src.toNat + (n - (k + 1))) 1)
        (fetch bus.memory (src.toNat + (n - (k + 1)) + 1) k)
      rw [length_fetch] at front
      rw [upD, upS, front, Nat.add_comm k 1, fetch_append]

/-- Byte accesses at indices of the ranges. -/
theorem moveBytes_logs {ok : Access → Prop} {dst src : BitVec 64} {n : Nat}
    (good : ∀ i < n, ok ⟨false, src + BitVec.ofNat 64 i, 1⟩ ∧ ok ⟨true, dst + BitVec.ofNat 64 i, 1⟩)
    {index : Nat → Nat} {list : List Nat} (inside : ∀ i ∈ list, index i < n) (bus : Bus) :
    Logs ok bus (list.foldl (fun bus i => moveByte dst src bus (index i)) bus) := by
  induction list generalizing bus with
  | nil => exact .refl bus
  | cons i list ih =>
      obtain ⟨first, others⟩ := List.forall_mem_cons.mp inside
      obtain ⟨read, written⟩ := good (index i) first
      exact (bus.move_logs read written).trans (ih others _)

theorem fillLoop_eq (tmp : List UInt8) (c : UInt8) (s : BitVec 64) (n : Nat) (bus : Bus) :
    fillLoop tmp c s n bus =
      if n = 0 then bus
      else fillLoop tmp c (s + BitVec.ofNat 64 (ioWidth s n)) (n - ioWidth s n)
        (bus.store s (ioWidth s n)
          (if ioWidth s n = 1 then c.toNat else le (tmp.take (ioWidth s n)))) := by
  rw [fillLoop]

theorem ioWidth_le (address : BitVec 64) (n : Nat) : ioWidth address n ≤ 16 := by
  unfold ioWidth
  split_ifs <;> decide

/-- Where `_tmp` is filled with a byte, every store is. -/
theorem fillLoop_spec {ok : Access → Prop} {c : UInt8} {s : BitVec 64} {n : Nat} (bus : Bus)
    (inside : InSpace s n)
    (good : ∀ s' : BitVec 64, ∀ size, size ∣ s'.toNat → Access.Within ⟨true, s', size⟩ s n →
      ok ⟨true, s', size⟩) :
    (fillLoop (List.replicate 16 c) c s n bus).memory =
        Lib.store bus.memory s.toNat (List.replicate n c) ∧
      Logs ok bus (fillLoop (List.replicate 16 c) c s n bus) := by
  induction n using Nat.strongRecOn generalizing s bus with
  | ind n ih =>
      rw [fillLoop_eq]
      split
      · rename_i none
        subst none
        exact ⟨(store_nil _ _).symm, .refl bus⟩
      · rename_i some
        obtain ⟨fits, divides⟩ := ioWidth_spec s some
        have positive := ioWidth_pos s n
        have wide := ioWidth_le s n
        generalize ioWidth s n = width at fits divides positive wide ⊢
        have value : leBytes width
            (if width = 1 then c.toNat else le ((List.replicate 16 c).take width)) =
              List.replicate width c := by
          have filled := leBytes_le (List.replicate width c)
          rw [List.length_replicate] at filled
          split
          · rename_i one
            rw [one] at filled ⊢
            simpa [le] using filled
          · rw [List.take_replicate, Nat.min_eq_left wide]
            exact filled
        generalize (if width = 1 then c.toNat else le ((List.replicate 16 c).take width)) = word
          at value ⊢
        have stored : (bus.store s width word).memory =
            Lib.store bus.memory s.toNat (List.replicate width c) := by
          simp only [Bus.store, value]
        have logged : Logs ok bus (bus.store s width word) :=
          ⟨[⟨true, s, width⟩], rfl, by
            simpa using good s width divides ⟨le_refl _, by simp only; omega⟩⟩
        by_cases last : n - width = 0
        · have all : n = width := by omega
          rw [last, fillLoop_eq, if_pos rfl, all]
          exact ⟨stored, logged⟩
        · obtain ⟨next, inside'⟩ := (inside.rest fits).resolve_left last
          obtain ⟨filled, logged'⟩ := ih (n - width) (by omega) (bus.store s width word) inside'
            fun s' size divides written => good s' size divides
              ⟨by have := written.1; simp only at this ⊢; omega,
                by have := written.2; simp only at this ⊢; omega⟩
          have behind := store_append bus.memory s.toNat (List.replicate width c)
            (List.replicate (n - width) c)
          rw [List.length_replicate, List.replicate_append_replicate, Nat.add_sub_cancel' fits]
            at behind
          exact ⟨by rw [filled, stored, next, behind], logged.trans logged'⟩

/-! ## The specification -/

/-- The functions for normal memory do byte by byte what the C standard says. -/
structure NormalMemory.Lawful (lib : NormalMemory) : Prop where
  memcpy : ∀ dst src n memory, InSpace dst n.toNat → InSpace src n.toNat →
    Disjoint dst src n.toNat → (lib.memcpyBetweenNormal dst src n memory).1 =
      store memory dst.toNat (fetch memory src.toNat n.toNat)
  memmove : ∀ dst src n memory, InSpace dst n.toNat → InSpace src n.toNat →
    lib.memmoveBetweenNormal dst src n memory =
      (store memory dst.toNat (fetch memory src.toNat n.toNat), dst)
  memset : ∀ s c n memory, InSpace s n.toNat → lib.memsetNormal s c n memory =
    (store memory s.toNat (List.replicate n.toNat ⟨c.setWidth 8⟩), s)

/-- An operand: a range of the address space that is all normal memory or all IO memory. -/
structure OfOneKind (lib : NormalMemory) (start : BitVec 64) (n : Nat) : Prop where
  inside : InSpace start n
  kind : ∀ i < n, lib.isNormalMemory (start + BitVec.ofNat 64 i) = lib.isNormalMemory start

/-- An access belongs to its operand, and is aligned where it reaches IO memory. -/
structure Proper (lib : NormalMemory) (dst src : BitVec 64) (n : Nat) (access : Access) :
    Prop where
  aligned : lib.isNormalMemory access.address = false → access.Aligned
  within : access.Within (if access.isWrite then dst else src) n

/-- The byte-wise effect: `bytes` are at `dst`, and nothing else has changed. -/
structure Meets (lib : NormalMemory) (dst src : BitVec 64) (n : Nat) (bytes : List UInt8)
    (bus : Bus) (result : Bus × BitVec 64) : Prop where
  effect : fetch result.1.memory dst.toNat n = bytes
  frame : ∀ address, address < dst.toNat ∨ dst.toNat + n ≤ address →
    result.1.memory address = bus.memory address
  accesses : Logs (Proper lib dst src n) bus result.1
  returned : result.2 = dst

/-- A call meets its contract if it stores the bytes and makes proper accesses only. -/
theorem Meets.of_store {lib : NormalMemory} {dst src : BitVec 64} {n : Nat}
    {bytes : List UInt8} {bus after : Bus} (length : bytes.length = n)
    (stored : after.memory = store bus.memory dst.toNat bytes)
    (accesses : Logs (Proper lib dst src n) bus after) :
    Meets lib dst src n bytes bus (after, dst) where
  effect := by
    simp only [stored, ← length]
    exact fetch_store bus.memory dst.toNat bytes
  frame address outside := by
    rw [← length] at outside
    simp only [stored]
    exact store_outside outside
  accesses := accesses
  returned := rfl

/-- An access inside a range of one kind is of this kind. -/
theorem OfOneKind.of_within {lib : NormalMemory} {start : BitVec 64} {n : Nat}
    (kind : OfOneKind lib start n) {access : Access} (nonempty : 0 < access.size)
    (within : access.Within start n) :
    lib.isNormalMemory access.address = lib.isNormalMemory start := by
  obtain ⟨low, high⟩ := within
  have index := kind.kind (access.address.toNat - start.toNat) (by omega)
  have same : start + BitVec.ofNat 64 (access.address.toNat - start.toNat) = access.address := by
    have small := access.address.isLt
    apply BitVec.eq_of_toNat_eq
    rw [toNat_add_ofNat (by omega)]
    omega
  rwa [same] at index

/-- Operands of different kinds do not overlap. -/
theorem disjoint_of_kinds {lib : NormalMemory} {dst src : BitVec 64} {n : Nat}
    (toKind : OfOneKind lib dst n) (fromKind : OfOneKind lib src n)
    (differ : lib.isNormalMemory src ≠ lib.isNormalMemory dst) : Disjoint dst src n := by
  unfold Disjoint
  by_contra overlap
  have common : ∃ access : Access, 0 < access.size ∧ access.Within dst n ∧ access.Within src n := by
    have inDst := toKind.inside
    have inSrc := fromKind.inside
    unfold InSpace at inDst inSrc
    by_cases order : dst.toNat ≤ src.toNat
    · exact ⟨⟨false, src, 1⟩, Nat.one_pos, ⟨order, by simp only; omega⟩,
        ⟨le_refl _, by simp only; omega⟩⟩
    · exact ⟨⟨false, dst, 1⟩, Nat.one_pos, ⟨le_refl _, by simp only; omega⟩,
        ⟨by simp only; omega, by simp only; omega⟩⟩
  obtain ⟨access, nonempty, inDst, inSrc⟩ := common
  exact differ ((fromKind.of_within nonempty inSrc).symm.trans (toKind.of_within nonempty inDst))

/-! ## The functions -/

section

variable {lib : NormalMemory} {dst src n : BitVec 64} (bus : Bus)

/-- An access to an operand in normal memory need not be aligned. -/
theorem proper_of_normal {start : BitVec 64} {access : Access} (nonempty : 0 < access.size)
    (kind : OfOneKind lib start n.toNat) (isNormal : lib.isNormalMemory start = true)
    (operand : (if access.isWrite then dst else src) = start)
    (within : access.Within start n.toNat) : Proper lib dst src n.toNat access where
  aligned isIo := by
    rw [kind.of_within nonempty within, isNormal] at isIo
    cases isIo
  within := by rwa [operand]

theorem meets_of_copy {after : Bus} (copied : after.memory =
      store bus.memory dst.toNat (fetch bus.memory src.toNat n.toNat) ∧
    Logs (Proper lib dst src n.toNat) bus after) :
    Meets lib dst src n.toNat (fetch bus.memory src.toNat n.toNat) bus (after, dst) :=
  .of_store (length_fetch _ _ _) copied.1 copied.2

/-- Copying to device memory reads normal memory and writes with aligned accesses. -/
theorem memcpyToIo_meets (toKind : OfOneKind lib dst n.toNat)
    (fromKind : OfOneKind lib src n.toNat) (isNormal : lib.isNormalMemory src = true)
    (isIo : lib.isNormalMemory dst = false) :
    Meets lib dst src n.toNat (fetch bus.memory src.toNat n.toNat) bus
      (memcpyToIo dst src n bus, dst) := by
  refine meets_of_copy bus (copyLoop_spec bus toKind.inside fromKind.inside
    (disjoint_of_kinds toKind fromKind (by simp [isNormal, isIo])) ?_)
  intro d' s' size positive divides read written
  exact ⟨proper_of_normal positive fromKind isNormal rfl read, fun _ => divides, written⟩

/-- Copying from device memory reads with aligned accesses. -/
theorem memcpyFromIo_meets (toKind : OfOneKind lib dst n.toNat)
    (fromKind : OfOneKind lib src n.toNat) (isIo : lib.isNormalMemory src = false)
    (isNormal : lib.isNormalMemory dst = true) :
    Meets lib dst src n.toNat (fetch bus.memory src.toNat n.toNat) bus
      (memcpyFromIo dst src n bus, dst) := by
  refine meets_of_copy bus (copyLoop_spec bus toKind.inside fromKind.inside
    (disjoint_of_kinds toKind fromKind (by simp [isNormal, isIo])) ?_)
  intro d' s' size positive divides read written
  exact ⟨⟨fun _ => divides, read⟩, proper_of_normal positive toKind isNormal rfl written⟩

/-- Single bytes are always aligned. -/
theorem proper_bytes (toKind : OfOneKind lib dst n.toNat) (fromKind : OfOneKind lib src n.toNat) :
    ∀ i < n.toNat, Proper lib dst src n.toNat ⟨false, src + BitVec.ofNat 64 i, 1⟩ ∧
      Proper lib dst src n.toNat ⟨true, dst + BitVec.ofNat 64 i, 1⟩ := by
  intro i inside
  have within (isWrite : Bool) {start : BitVec 64} (kind : OfOneKind lib start n.toNat) :
      Access.Within ⟨isWrite, start + BitVec.ofNat 64 i, 1⟩ start n.toNat := by
    have range := kind.inside
    unfold InSpace at range
    have index : (start + BitVec.ofNat 64 i).toNat = start.toNat + i :=
      toNat_add_ofNat (by omega)
    exact ⟨by simp only [index]; omega, by simp only [index]; omega⟩
  exact ⟨⟨fun _ => Nat.one_dvd _, within false fromKind⟩,
    ⟨fun _ => Nat.one_dvd _, within true toKind⟩⟩

/-- Copying between device memories is right as long as they do not overlap. -/
theorem memcpyBetweenIo_meets (toKind : OfOneKind lib dst n.toNat)
    (fromKind : OfOneKind lib src n.toNat) (disjoint : Disjoint dst src n.toNat) :
    Meets lib dst src n.toNat (fetch bus.memory src.toNat n.toNat) bus
      (memcpyBetweenIo dst src n bus, dst) := by
  refine meets_of_copy bus ⟨forward_spec bus toKind.inside fromKind.inside ?_, ?_⟩
  · unfold Disjoint at disjoint
    omega
  · exact moveBytes_logs (proper_bytes toKind fromKind)
      (fun i member => List.mem_range.mp member) bus

/-- Whatever the overlap, the chosen direction reads every byte before it is overwritten. -/
theorem memmoveBetweenIo_meets (toKind : OfOneKind lib dst n.toNat)
    (fromKind : OfOneKind lib src n.toNat) :
    Meets lib dst src n.toNat (fetch bus.memory src.toNat n.toNat) bus
      (memmoveBetweenIo dst src n bus, dst) := by
  have inDst := toKind.inside
  have inSrc := fromKind.inside
  unfold InSpace at inDst inSrc
  refine meets_of_copy bus ?_
  unfold memmoveBetweenIo
  split
  · rename_i forward
    refine ⟨forward_spec bus toKind.inside fromKind.inside ?_, ?_⟩
    · rcases forward with above | below
      · exact .inl (BitVec.le_def.mp above)
      · by_cases order : dst.toNat ≤ src.toNat
        · exact .inl order
        · -- `src + n` does not wrap around, since `dst + n` is not beyond the address space
          have sum : (src + n).toNat = src.toNat + n.toNat := by
            rw [BitVec.toNat_add]
            omega
          have lt := BitVec.lt_def.mp below
          omega
    · exact moveBytes_logs (proper_bytes toKind fromKind)
        (fun i member => List.mem_range.mp member) bus
  · rename_i backward
    have below : ¬ src ≥ dst := fun above => backward (.inl above)
    refine ⟨backward_spec bus toKind.inside fromKind.inside ?_, ?_⟩
    · have := BitVec.not_le.mp below
      exact Nat.le_of_lt (BitVec.lt_def.mp this)
    · refine moveBytes_logs (proper_bytes toKind fromKind) (fun i member => ?_) bus
      have := List.mem_range.mp member
      omega

/-- Filling device memory writes the byte with aligned accesses. -/
theorem memsetIo_meets (lawful : lib.Lawful) (toKind : OfOneKind lib dst n.toNat)
    (c : BitVec 32) :
    Meets lib dst dst n.toNat (List.replicate n.toNat ⟨c.setWidth 8⟩) bus
      (memsetIo lib dst c n bus, dst) := by
  have whole : InSpace 0 (BitVec.toNat (16 : BitVec 64)) :=
    show (0 : BitVec 64).toNat + BitVec.toNat (16 : BitVec 64) ≤ 2 ^ 64 by decide
  have tmp : fetch (lib.memsetNormal 0 c 16 fun _ => 0).1 0 16 =
      List.replicate 16 ⟨c.setWidth 8⟩ := by
    rw [lawful.memset 0 c 16 _ whole]
    exact fetch_store (fun _ => 0) 0 (List.replicate 16 _)
  have isLoop : memsetIo lib dst c n bus =
      fillLoop (List.replicate 16 ⟨c.setWidth 8⟩) ⟨c.setWidth 8⟩ dst n.toNat bus := by
    simp only [memsetIo, tmp]
  have good : ∀ s' : BitVec 64, ∀ size, size ∣ s'.toNat →
      Access.Within ⟨true, s', size⟩ dst n.toNat → Proper lib dst dst n.toNat ⟨true, s', size⟩ :=
    fun s' size divides written => ⟨fun _ => divides, written⟩
  obtain ⟨filled, logged⟩ := fillLoop_spec bus toKind.inside good
  rw [isLoop]
  exact .of_store List.length_replicate filled logged

end

/-- On operands that lie in one kind of memory each, `memcpy`, `memmove` and `memset` have
their byte-wise effect. -/
theorem memory_functions {lib : NormalMemory} (lawful : lib.Lawful) {dst src n : BitVec 64}
    (toKind : OfOneKind lib dst n.toNat) (fromKind : OfOneKind lib src n.toNat)
    (c : BitVec 32) (bus : Bus) :
    (Disjoint dst src n.toNat →
      Meets lib dst src n.toNat (fetch bus.memory src.toNat n.toNat) bus
        (memcpy lib dst src n bus)) ∧
      Meets lib dst src n.toNat (fetch bus.memory src.toNat n.toNat) bus
        (memmove lib dst src n bus) ∧
      Meets lib dst dst n.toNat (List.replicate n.toNat ⟨c.setWidth 8⟩) bus
        (memset lib dst c n bus) := by
  refine ⟨fun disjoint => ?_, ?_, ?_⟩
  · unfold memcpy
    cases isSrc : lib.isNormalMemory src <;> cases isDst : lib.isNormalMemory dst
    · exact memcpyBetweenIo_meets bus toKind fromKind disjoint
    · exact memcpyFromIo_meets bus toKind fromKind isSrc isDst
    · exact memcpyToIo_meets bus toKind fromKind isSrc isDst
    · exact .of_store (length_fetch _ _ _)
        (lawful.memcpy dst src n bus.memory toKind.inside fromKind.inside disjoint) (.refl bus)
  · unfold memmove
    cases isSrc : lib.isNormalMemory src <;> cases isDst : lib.isNormalMemory dst
    · exact memmoveBetweenIo_meets bus toKind fromKind
    · exact memcpyFromIo_meets bus toKind fromKind isSrc isDst
    · exact memcpyToIo_meets bus toKind fromKind isSrc isDst
    · have moved := lawful.memmove dst src n bus.memory toKind.inside fromKind.inside
      simp only [Bool.and_self, if_true, moved]
      exact .of_store (length_fetch _ _ _) rfl (.refl bus)
  · unfold memset
    cases isDst : lib.isNormalMemory dst
    · exact memsetIo_meets bus lawful toKind c
    · have filled := lawful.memset dst c n bus.memory toKind.inside
      simp only [if_true, filled]
      exact .of_store List.length_replicate rfl (.refl bus)

/-- Normal memory from 2^31 on; below it, IO memory. -/
def upperMemory : NormalMemory where
  isNormalMemory address := address ≥ 0x80000000
  memcpyBetweenNormal dst src n memory :=
    (store memory dst.toNat (fetch memory src.toNat n.toNat), dst)
  memmoveBetweenNormal dst src n memory :=
    (store memory dst.toNat (fetch memory src.toNat n.toNat), dst)
  memsetNormal s c n memory :=
    (store memory s.toNat (List.replicate n.toNat ⟨c.setWidth 8⟩), s)

theorem upperMemory_lawful : upperMemory.Lawful where
  memcpy _ _ _ _ _ _ _ := rfl
  memmove _ _ _ _ _ _ := rfl
  memset _ _ _ _ _ := rfl

/-- Every byte is the low byte of its address. -/
def countingBus : Bus := ⟨fun address => UInt8.ofNat address, []⟩

/-- Nine bytes to IO memory, from a source that is not aligned as the destination is. -/
theorem memory_functions_nine :
    Meets upperMemory 0x1003 0x80000001 9 (fetch countingBus.memory 0x80000001 9) countingBus
        (memcpy upperMemory 0x1003 0x80000001 9 countingBus) ∧
      Meets upperMemory 0x1003 0x80000001 9 (fetch countingBus.memory 0x80000001 9) countingBus
        (memmove upperMemory 0x1003 0x80000001 9 countingBus) ∧
      Meets upperMemory 0x1003 0x1003 9 (List.replicate 9 0x55) countingBus
        (memset upperMemory 0x1003 0x155 9 countingBus) := by
  have toKind : OfOneKind upperMemory 0x1003 (BitVec.toNat (9 : BitVec 64)) :=
    ⟨show BitVec.toNat (0x1003 : BitVec 64) + BitVec.toNat (9 : BitVec 64) ≤ 2 ^ 64 by decide,
      by decide⟩
  have fromKind : OfOneKind upperMemory 0x80000001 (BitVec.toNat (9 : BitVec 64)) :=
    ⟨show BitVec.toNat (0x80000001 : BitVec 64) + BitVec.toNat (9 : BitVec 64) ≤ 2 ^ 64 by decide,
      by decide⟩
  have all := memory_functions upperMemory_lawful toKind fromKind 0x155 countingBus
  exact ⟨all.1 (.inl (by decide)), all.2⟩

end Zsbl.Common
