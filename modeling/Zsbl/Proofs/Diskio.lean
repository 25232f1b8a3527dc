/-
Module: Zsbl.Proofs.Diskio
Purpose: Which sectors of a FAT drive the block device is asked for.
Trusted boundary: none
Main exports:
  IsDrive, Exact, diskRw_drive, disk_io_exact
-/
import Zsbl.Libs.Diskio
import Zsbl.Proofs.Fatio
import Mathlib.Data.BitVec

namespace Zsbl.Libs

variable {σ : Type} {serve : BlkRequest → σ → BitVec 64 × σ}

/-- A drive is registered. -/
def IsDrive (s : FatioState) (pdrv : BitVec 8) (fdev : Nat) : Prop :=
  s.fatioList[pdrv.toNat]? = some (some fdev) ∧ ∃ id, s.devs fdev = some ⟨some fatOps, id⟩

/-- A call of `disk_read` or `disk_write` makes one request, for the bytes of its sectors,
and its success means that the device transferred all of them. -/
def Exact (io : Blkdevs σ → Option (Nat × Blkdevs σ)) (isWrite : Bool)
    (blkdev buff sector count : Nat) (devs : Blkdevs σ) : Prop :=
  ∃ res devs' request ret, io devs = some (res, devs') ∧
    devs'.calls = devs.calls ++ [(request, ret)] ∧
    request.blkdev = blkdev ∧ request.isWrite = isWrite ∧ request.buf = buff ∧
    request.offset.toNat = sector * 512 ∧
    request.offset.toNat + request.size.toNat = (sector + count) * 512 ∧
    (res = RES_OK → ret.toNat = count * 512)

theorem toNat_bytes (sectors : BitVec 32) :
    ((sectors * FF_MAX_SS).setWidth 64).toNat = sectors.toNat * 512 % 2 ^ 32 := by
  rw [BitVec.toNat_setWidth, BitVec.toNat_mul]
  show sectors.toNat * 512 % 2 ^ 32 % 2 ^ 64 = sectors.toNat * 512 % 2 ^ 32
  omega

/-- Products that do not wrap. -/
theorem toNat_bytes_eq_iff (sectors : BitVec 32) :
    ((sectors * FF_MAX_SS).setWidth 64).toNat = sectors.toNat * 512 ↔ sectors.toNat < 2 ^ 23 := by
  rw [toNat_bytes]
  omega

/-- The request of a call, and what its result says about the answer. -/
theorem diskRw_drive {s : FatioState} {pdrv : BitVec 8} {fdev : Nat}
    (isDrive : IsDrive s pdrv fdev) (isWrite : Bool) (data : Nat → FatioData) (buff : Nat)
    (sector count : BitVec 32) (devs : Blkdevs σ) :
    ∃ res devs' ret, diskRw serve isWrite s data pdrv buff sector count devs = some (res, devs') ∧
      devs'.calls = devs.calls ++
        [({ blkdev := (data fdev).device, isWrite, offset := (sector * FF_MAX_SS).setWidth 64,
            size := (count * FF_MAX_SS).setWidth 64, buf := buff }, ret)] ∧
      (res = RES_OK ↔ ret = (count * FF_MAX_SS).setWidth 64) := by
  obtain ⟨entry, id, live⟩ := isDrive
  have below : ¬ pdrv.toNat ≥ FF_VOLUMES := by
    obtain ⟨inside, -⟩ := Vector.getElem?_eq_some_iff.mp entry
    exact Nat.not_le_of_lt inside
  have reads : fatOps.read = true := rfl
  have writes : fatOps.write = true := rfl
  unfold diskRw fatRw blkdevRw
  rw [if_neg below, entry]
  generalize isRequest : BlkRequest.mk (data fdev).device isWrite
    ((sector * FF_MAX_SS).setWidth 64) ((count * FF_MAX_SS).setWidth 64) buff = request
  cases answer : serve request devs.state with
  | mk ret state =>
      by_cases whole : ret = (count * FF_MAX_SS).setWidth 64
      · refine ⟨RES_OK, ⟨state, devs.calls ++ [(request, ret)]⟩, ret, ?_, rfl, by simp [whole]⟩
        simp [live, reads, writes, isRequest, answer, whole]
      · refine ⟨RES_ERROR, ⟨state, devs.calls ++ [(request, ret)]⟩, ret, ?_, rfl, ?_⟩
        · simp [live, reads, writes, isRequest, answer, whole]
        · simp [whole, RES_OK, RES_ERROR]

/-- The request reaches the drive with its sector and count as bytes. -/
theorem diskRw_exact {s : FatioState} {pdrv : BitVec 8} {fdev : Nat}
    (isDrive : IsDrive s pdrv fdev) (isWrite : Bool) (data : Nat → FatioData) (buff : Nat)
    (sector count : BitVec 32) (devs : Blkdevs σ) :
    Exact (diskRw serve isWrite s data pdrv buff sector count) isWrite (data fdev).device buff
        sector.toNat count.toNat devs ↔
      sector.toNat < 2 ^ 23 ∧ count.toNat < 2 ^ 23 := by
  obtain ⟨res, devs', ret, done, calls, success⟩ :=
    @diskRw_drive σ serve s pdrv fdev isDrive isWrite data buff sector count devs
  rw [← toNat_bytes_eq_iff sector, ← toNat_bytes_eq_iff count]
  constructor
  · rintro ⟨res', devs'', request, ret', done', calls', -, -, -, start, stop, -⟩
    obtain ⟨rfl, rfl⟩ := Prod.mk.inj (Option.some.inj (done.symm.trans done'))
    obtain ⟨rfl, rfl⟩ : request = _ ∧ ret' = ret := by simpa using calls'.symm.trans calls
    dsimp only at start stop
    omega
  · rintro ⟨start, bytes⟩
    refine ⟨res, devs', _, ret, done, calls, rfl, rfl, rfl, start, ?_, ?_⟩
    · dsimp only
      omega
    · intro isOk
      rw [success.mp isOk]
      exact bytes

/-- The byte range of a request is the one of its sectors when it starts and is counted
below 4 GiB, and for no other. -/
theorem disk_io_exact {s : FatioState} {pdrv : BitVec 8} {fdev : Nat}
    (isDrive : IsDrive s pdrv fdev) (data : Nat → FatioData) (buff : Nat)
    (sector count : BitVec 32) (devs : Blkdevs σ) :
    (Exact (diskRead serve s data pdrv buff sector count) false (data fdev).device buff
        sector.toNat count.toNat devs ↔ sector.toNat < 2 ^ 23 ∧ count.toNat < 2 ^ 23) ∧
    (Exact (diskWrite serve s data pdrv buff sector count) true (data fdev).device buff
        sector.toNat count.toNat devs ↔ sector.toNat < 2 ^ 23 ∧ count.toNat < 2 ^ 23) :=
  ⟨diskRw_exact isDrive false data buff sector count devs,
    diskRw_exact isDrive true data buff sector count devs⟩

/-! ## A card of 8 GiB -/

/-- A device that transfers what it is asked for as long as that is inside of it. -/
def blkdevOfSize (totalSize : Nat) (request : BlkRequest) (_ : Unit) : BitVec 64 × Unit :=
  (if request.offset.toNat + request.size.toNat ≤ totalSize then request.size else -5#64, ())

theorem oneDrive_isDrive : IsDrive oneDrive 0 16 := by
  constructor
  · rfl
  · exact ⟨some 0, by simp [oneDrive, FatioState.registered]⟩

/-- The last sector below 4 GiB. -/
theorem disk_io_exact_lastBelow :
    Exact (diskRead (blkdevOfSize (2 ^ 33)) oneDrive (fun _ => .fatfs 7) 0 100 (2 ^ 23 - 1) 1)
      false 7 100 (2 ^ 23 - 1) 1 ⟨(), []⟩ := by
  have both := @disk_io_exact _ (blkdevOfSize (2 ^ 33)) _ _ _ oneDrive_isDrive
    (fun _ => .fatfs 7) 100 (2 ^ 23 - 1) 1 ⟨(), []⟩
  exact both.1.mpr (by decide)

/-- The first sector behind it is read at the start of the card. -/
theorem sector_offset_wraps :
    ¬ ∀ (totalSize : Nat) (s : FatioState) (pdrv : BitVec 8) (fdev : Nat),
      IsDrive s pdrv fdev → ∀ (data : Nat → FatioData) (buff : Nat) (sector count : BitVec 32)
        (devs : Blkdevs Unit), (sector.toNat + count.toNat) * 512 ≤ totalSize →
        Exact (diskRead (blkdevOfSize totalSize) s data pdrv buff sector count) false
            (data fdev).device buff sector.toNat count.toNat devs ∧
          Exact (diskWrite (blkdevOfSize totalSize) s data pdrv buff sector count) true
            (data fdev).device buff sector.toNat count.toNat devs := by
  intro exact
  obtain ⟨failing, -⟩ := exact (2 ^ 33) oneDrive 0 16 oneDrive_isDrive (fun _ => .fatfs 7) 100
    (2 ^ 23) 1 ⟨(), []⟩ (by decide)
  have below := (diskRw_exact oneDrive_isDrive false _ _ _ _ _).mp failing
  exact absurd below.1 (by decide)

end Zsbl.Libs
