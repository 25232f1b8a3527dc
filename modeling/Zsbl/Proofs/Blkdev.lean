/-
Module: Zsbl.Proofs.Blkdev
Purpose: Which requests a block device answers with the bytes at the offset.
Trusted boundary: none
Main exports:
  ReadContract, Served, blkdevRead_contract_iff, virtio_reads_elsewhere
-/
import Zsbl.Drivers.Blkdev
import Mathlib.Tactic.ByContra

namespace Zsbl.Drivers

/-- Whatever the medium holds, a positive answer is at most the size and so many
bytes of the buffer are those of the medium at the offset. -/
def ReadContract (kind : BlkdevKind) (offset size : BitVec 64) : Prop :=
  ∀ medium buf, 0 < (blkdevRead kind medium offset size buf).1 →
    (blkdevRead kind medium offset size buf).1 ≤ size.toNat ∧
      ∀ i : Nat, i < (blkdevRead kind medium offset size buf).1 →
        (blkdevRead kind medium offset size buf).2 i = medium.bytes (offset.toNat + i)

/-- The requests that a device of the kind serves.  The first two conditions of
the sector devices are answered with 0 or with a negative number. -/
def Served : BlkdevKind → BitVec 64 → BitVec 64 → Prop
  | .virtioBlk, offset, size =>
      size.toNat < 512 ∨ 2 ^ 63 ≤ size.toNat ∨
        offset.toNat % 512 = 0 ∧ size.toNat < 2 ^ 32
  | .sdhciDwc, offset, size =>
      size.toNat = 0 ∨ 2 ^ 63 ≤ size.toNat ∨
        offset.toNat % 512 = 0 ∧ size.toNat % 512 = 0 ∧ offset.toNat < 2 ^ 41
  | .mtdblock, _, _ => True

/-- A transfer from elsewhere, or of too few bytes, is told apart by some medium. -/
theorem transfer_elsewhere (start len offset i : Nat) (wrong : start ≠ offset ∨ len ≤ i) :
    ∃ bytes buf, transfer ⟨bytes, false⟩ start len buf i ≠ bytes (offset + i) := by
  refine ⟨fun position => if position = offset + i then 1 else 0, fun _ => 0, ?_⟩
  unfold transfer
  split
  · have ne : start ≠ offset := by omega
    simp [ne]
  · simp

/-- When a read keeps the contract, from what it returns and transfers. -/
theorem contract_iff {read : Medium → Buffer → Int × Buffer} {ret : Int}
    {start len : Nat} (failed : ∀ bytes buf, (read ⟨bytes, true⟩ buf).1 ≤ 0)
    (done : ∀ bytes buf,
      read ⟨bytes, false⟩ buf = (ret, transfer ⟨bytes, false⟩ start len buf))
    (offset size : Nat) :
    (∀ medium buf, 0 < (read medium buf).1 → (read medium buf).1 ≤ size ∧
      ∀ i : Nat, i < (read medium buf).1 →
        (read medium buf).2 i = medium.bytes (offset + i)) ↔
      (0 < ret → ret ≤ size ∧ start = offset ∧ ret ≤ len) := by
  constructor
  · intro contract positive
    have answer : ∀ bytes buf, ret ≤ size ∧ ∀ i : Nat, i < ret →
        transfer ⟨bytes, false⟩ start len buf i = bytes (offset + i) := by
      intro bytes buf
      have kept := contract ⟨bytes, false⟩ buf
      rw [done] at kept
      exact kept positive
    have exact' : ∀ i : Nat, i < ret → start = offset ∧ i < len := by
      intro i inside
      by_contra wrong
      obtain ⟨bytes, buf, differs⟩ := transfer_elsewhere start len offset i (by omega)
      exact differs ((answer bytes buf).2 i inside)
    refine ⟨(answer (fun _ => 0) fun _ => 0).1, (exact' 0 positive).1, ?_⟩
    by_contra short
    have last := exact' len (by omega)
    omega
  · rintro served ⟨bytes, fails⟩ buf positive
    cases fails with
    | true =>
        have le := failed bytes buf
        omega
    | false =>
        rw [done] at positive ⊢
        obtain ⟨le, rfl, enough⟩ := served positive
        refine ⟨le, fun i inside => ?_⟩
        have covered : i < len := by
          have lt : (i : Int) < len := Int.lt_of_lt_of_le inside enough
          omega
        simp [transfer, covered]

theorem virtioBlkRead_done (offset size : BitVec 64) (bytes : Nat → UInt8)
    (buf : Buffer) : virtioBlkRead ⟨bytes, false⟩ offset size buf =
      ((size / 512 * 512).toInt, transfer ⟨bytes, false⟩ (offset.toNat / 512 * 512)
        ((size.toNat / 512 * 512) % 2 ^ 32) buf) := by
  have fits : size.toNat / 512 * 512 < 2 ^ 64 := by omega
  simp [virtioBlkRead, virtioBlkRw, BitVec.toNat_setWidth, BitVec.toNat_mul,
    BitVec.toNat_udiv]

theorem sdRead_done (offset size : BitVec 64) (bytes : Nat → UInt8) (buf : Buffer) :
    sdRead ⟨bytes, false⟩ offset size buf =
      (size.toInt, transfer ⟨bytes, false⟩ (offset.toNat / 512 % 2 ^ 32 * 512)
        (size.toNat / 512 * 512) buf) := by
  simp [sdRead, mmcReadBlocks, BitVec.toNat_setWidth, BitVec.toNat_udiv]

theorem mtdblockRead_done (offset size : BitVec 64) (bytes : Nat → UInt8)
    (buf : Buffer) : mtdblockRead ⟨bytes, false⟩ offset size buf =
      (size.toInt, transfer ⟨bytes, false⟩ offset.toNat size.toNat buf) :=
  rfl

/-- The value of a `long` whose bits are those of an `unsigned long`. -/
theorem toInt_cases (value : BitVec 64) :
    value.toNat < 2 ^ 63 ∧ value.toInt = value.toNat ∨
      2 ^ 63 ≤ value.toNat ∧ value.toInt < 0 := by
  rw [BitVec.toInt_eq_toNat_cond]
  split <;> omega

/-- A request gets the bytes at its offset, or no bytes, exactly when the device
serves it. -/
theorem blkdevRead_contract_iff (kind : BlkdevKind) (offset size : BitVec 64) :
    ReadContract kind offset size ↔ Served kind offset size := by
  have sizeLt := size.isLt
  have offsetLt := offset.isLt
  cases kind with
  | virtioBlk =>
      have whole : (size / 512 * 512).toNat = size.toNat / 512 * 512 := by
        rw [BitVec.toNat_mul, BitVec.toNat_udiv]
        exact Nat.mod_eq_of_lt (by simp; omega)
      have answer := toInt_cases (size / 512 * 512)
      rw [whole] at answer
      unfold ReadContract Served
      simp only [blkdevRead]
      rw [contract_iff (fun bytes buf => by simp [virtioBlkRead, virtioBlkRw, EIO])
        (virtioBlkRead_done offset size)]
      omega
  | sdhciDwc =>
      have answer := toInt_cases size
      unfold ReadContract Served
      simp only [blkdevRead]
      rw [contract_iff (fun bytes buf => by simp [sdRead, mmcReadBlocks])
        (sdRead_done offset size)]
      omega
  | mtdblock =>
      have answer := toInt_cases size
      unfold ReadContract Served
      simp only [blkdevRead]
      rw [contract_iff (fun bytes buf => by simp [mtdblockRead, mtdRead, EIO])
        (mtdblockRead_done offset size), iff_true]
      omega

/-- A read of the second half of the first sector gets the first half. -/
theorem virtio_reads_elsewhere : ¬ ∀ kind offset size, ReadContract kind offset size := by
  intro contract
  have read := (contract .virtioBlk 256 512 ⟨fun position => if position = 256 then 1 else 0,
    false⟩ fun _ => 0) (by decide)
  have first := read.2 0 (by decide)
  revert first
  decide

end Zsbl.Drivers
