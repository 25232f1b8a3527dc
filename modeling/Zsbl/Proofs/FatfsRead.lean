/-
Module: Zsbl.Proofs.FatfsRead
Purpose: Reading files of a FAT volume through the VFS, for every position and length.
Trusted boundary: none
Main exports:
  FatFs.ReadsFiles, FatFile, ReadFits, window_fits_iff, FatFile.read, fatfs_reads
-/
import Zsbl.Fs.Fatfs
import Zsbl.Proofs.VfsCursor

namespace Zsbl.Fs

open Zsbl.Lib Zsbl.Common

variable {ω φ δ : Type} {fat : FatFs ω φ δ} {Opened : ω → φ → List UInt8 → Nat → Prop}

/-- What the adapter relies on, for a file that is open for reading: `f_lseek` clips to the
size of the file, and `f_read` yields what there is from the file pointer on. -/
structure FatFs.ReadsFiles (fat : FatFs ω φ δ) (Opened : ω → φ → List UInt8 → Nat → Prop) :
    Prop where
  size : ∀ {world fil content fptr}, Opened world fil content fptr → content.length < 2 ^ 32
  fLseek : ∀ {world fil content fptr}, Opened world fil content fptr → ∀ ofs, ∃ world' fil',
    fat.fLseek world fil ofs = (world', fil', FR_OK) ∧
      Opened world' fil' content (min ofs.toNat content.length)
  fRead : ∀ {world fil content fptr}, Opened world fil content fptr → ∀ btr, ∃ world' fil',
    fat.fRead world fil btr = (world', fil', FR_OK, window content fptr btr.toNat) ∧
      Opened world' fil' content (fptr + (window content fptr btr.toNat).length)

/-- A descriptor is open on a file of the volume, at a position. -/
def FatFile (fat : FatFs ω φ δ) (Opened : ω → φ → List UInt8 → Nat → Prop)
    (content : List UInt8) (fd : Int) (s : Vfs ω (FatfsPriv φ)) (pos : Nat) : Prop :=
  ∃ node file fil fptr, FileAt s fd node file ∧ node.fops = some (fatfsFops fat) ∧
    file.privateData = some (.fil fil) ∧ Opened s.world fil content fptr ∧ file.pos = pos

/-- The position and the length fit what FatFs takes, or the difference does not show. -/
def ReadFits (size pos len : Nat) : Prop :=
  pos < 2 ^ 32 ∧ (len < 2 ^ 32 ∨ size ≤ pos + len % 2 ^ 32) ∨
    2 ^ 32 ≤ pos ∧ (len % 2 ^ 32 = 0 ∨ size ≤ pos % 2 ^ 32)

instance (size pos len : Nat) : Decidable (ReadFits size pos len) :=
  inferInstanceAs (Decidable (_ ∨ _))

/-- The window that FatFs is asked for is the one that the VFS is asked for. -/
theorem window_fits_iff {content : List UInt8} (small : content.length < 2 ^ 32) (pos len : Nat) :
    window content (pos % 2 ^ 32) (len % 2 ^ 32) = window content pos len ↔
      ReadFits content.length pos len := by
  constructor
  · intro same
    have lengths := congrArg List.length same
    rw [length_window, length_window] at lengths
    unfold ReadFits
    omega
  · rintro (⟨low, short | whole⟩ | ⟨high, none | past⟩)
    · rw [Nat.mod_eq_of_lt low, Nat.mod_eq_of_lt short]
    · rw [Nat.mod_eq_of_lt low, window_all whole, window_all]
      have := Nat.mod_le len (2 ^ 32)
      omega
    · rw [none, window_past (by omega : content.length ≤ pos)]
      rfl
    · rw [window_past past, window_past (by omega : content.length ≤ pos)]

/-- What a read returns, whatever its position and length. -/
theorem FatFile.read {content : List UInt8} {fd : Int} {s : Vfs ω (FatfsPriv φ)} {pos : Nat}
    (reads : fat.ReadsFiles Opened) (here : FatFile fat Opened content fd s pos) (len : Nat) :
    ∃ s' bytes, bytes = window content (pos % 2 ^ 32) (len % 2 ^ 32) ∧
      vfsExec fd s (.read len) = some (s', (bytes.length : Int), bytes) ∧
      (pos + bytes.length < 2 ^ 63 →
        FatFile fat Opened content fd s' (pos + bytes.length)) := by
  obtain ⟨node, file, fil, fptr, at', fops, priv, opened, rfl⟩ := here
  obtain ⟨world₁, fil₁, sought, opened₁⟩ := reads.fLseek opened (BitVec.ofNat 32 file.pos)
  obtain ⟨world₂, fil₂, read, opened₂⟩ := reads.fRead opened₁ (BitVec.ofNat 32 len)
  have clipped : window content (min (file.pos % 2 ^ 32) content.length) (len % 2 ^ 32) =
      window content (file.pos % 2 ^ 32) (len % 2 ^ 32) := by
    rcases Nat.le_total (file.pos % 2 ^ 32) content.length with inside | past
    · rw [Nat.min_eq_left inside]
    · rw [Nat.min_eq_right past, window_past (Nat.le_refl _), window_past past]
  rw [BitVec.toNat_ofNat, BitVec.toNat_ofNat, clipped] at read opened₂
  have done : fatfsRead fat s.world node.priv file len = (world₂, some (.fil fil₂),
      ((window content (file.pos % 2 ^ 32) (len % 2 ^ 32)).length : Int),
      window content (file.pos % 2 ^ 32) (len % 2 ^ 32)) := by
    simp [fatfsRead, priv, sought, read]
  obtain ⟨s', exec, rfl, next⟩ := at'.read (by rw [fops]; rfl) done
  refine ⟨s', _, rfl, exec, ?_⟩
  intro inRange
  exact ⟨node, _, fil₂, _, next inRange, fops, rfl, opened₂, rfl⟩

/-- A seek moves the position of the file as it does that of the reference. -/
theorem FatFile.seek {content : List UInt8} {fd : Int} {s : Vfs ω (FatfsPriv φ)} {pos : Nat}
    (here : FatFile fat Opened content fd s pos) (op : CursorOp)
    (isSeek : ∀ len, op ≠ .read len) (fits : SizesFit op) :
    ∃ s', vfsExec fd s op = some (s', (cursorStep (2 ^ 63) (-EINVAL) content pos op).2) ∧
      FatFile fat Opened content fd s' (cursorStep (2 ^ 63) (-EINVAL) content pos op).1 := by
  obtain ⟨node, file, fil, fptr, at', fops, priv, opened, rfl⟩ := here
  obtain ⟨s', exec, world, next⟩ := at'.exec isSeek fits content
  refine ⟨s', exec, node, _, fil, fptr, next, fops, priv, ?_, rfl⟩
  rwa [world]

/-- A read whose position and length fit. -/
theorem FatFile.read_fits {content : List UInt8} {fd : Int} {s : Vfs ω (FatfsPriv φ)}
    {pos len : Nat} (reads : fat.ReadsFiles Opened) (here : FatFile fat Opened content fd s pos)
    (fits : ReadFits content.length pos len) :
    ∃ s', vfsExec fd s (.read len) = some (s', (cursorStep (2 ^ 63) (-EINVAL) content pos
        (.read len)).2) ∧
      FatFile fat Opened content fd s' (pos + (window content pos len).length) := by
  obtain ⟨s', bytes, isBytes, exec, next⟩ := here.read reads len
  obtain ⟨_, _, _, _, at', _, _, opened, isPos⟩ := id here
  have small := reads.size opened
  have below := at'.below
  rw [(window_fits_iff small pos len).mpr fits] at isBytes
  obtain rfl := isBytes
  refine ⟨s', exec, next ?_⟩
  rw [length_window, ← isPos]
  omega

/-- The condition for one operation at a position. -/
def OpFits (size pos : Nat) : CursorOp → Prop
  | .read len => len < 2 ^ 64 ∧ ReadFits size pos len
  | op => SizesFit op

/-- A call does to the file what it does to the reference. -/
theorem FatFile.step {content : List UInt8} {fd : Int} (reads : fat.ReadsFiles Opened)
    (s : Vfs ω (FatfsPriv φ)) (pos : Nat) (op : CursorOp)
    (here : FatFile fat Opened content fd s pos) (fits : OpFits content.length pos op) :
    ∃ s', vfsExec fd s op = some (s', (cursorStep (2 ^ 63) (-EINVAL) content pos op).2) ∧
      FatFile fat Opened content fd s' (cursorStep (2 ^ 63) (-EINVAL) content pos op).1 := by
  cases op with
  | read len => exact here.read_fits reads fits.2
  | seekSet off => exact here.seek _ (by simp) fits
  | seekCur off => exact here.seek _ (by simp) fits

/-- A read returns the window at its position exactly when the position and the length
fit; runs whose reads all do follow the cursor, and read until the end they yield all that
is left of the file. -/
theorem fatfs_reads (reads : fat.ReadsFiles Opened) {content : List UInt8} {fd : Int}
    {s : Vfs ω (FatfsPriv φ)} {pos : Nat} (here : FatFile fat Opened content fd s pos) :
    (∀ off : Nat, off < 2 ^ 63 → ∃ s', vfsLseek s fd off .set = (s', (off : Int)) ∧
      FatFile fat Opened content fd s' off) ∧
    (∀ len < 2 ^ 64,
      (∃ s', vfsRead s fd true len =
          some (s', ((window content pos len).length : Int), window content pos len) ∧
        FatFile fat Opened content fd s' (pos + (window content pos len).length)) ↔
      ReadFits content.length pos len) ∧
    (∀ ops, CursorOk (2 ^ 63) (-EINVAL) content (OpFits content.length) pos ops →
      ∃ s', execRun (vfsExec fd) s ops =
          some (s', (cursorRun (2 ^ 63) (-EINVAL) content pos ops).2) ∧
        FatFile fat Opened content fd s' (cursorRun (2 ^ 63) (-EINVAL) content pos ops).1) ∧
    (∀ lens : List Nat,
      CursorOk (2 ^ 63) (-EINVAL) content (OpFits content.length) pos (lens.map .read) →
      ∃ s' outs, execRun (vfsExec fd) s (lens.map .read) = some (s', outs) ∧
        ∀ len s'', 0 < len →
          ReadFits content.length (pos + (window content pos lens.sum).length) len →
          vfsRead s' fd true len = some (s'', 0, []) →
            outs.flatMap Prod.snd = content.drop pos) := by
  obtain ⟨_, _, _, _, _, _, _, opened, _⟩ := id here
  have small := reads.size opened
  refine ⟨?_, ?_, ?_, ?_⟩
  · intro off below
    have low : (0 : Int) ≤ off := Int.natCast_nonneg off
    have high : (off : Int) < ((2 ^ 63 : Nat) : Int) := Int.ofNat_lt.mpr below
    obtain ⟨s', exec, there⟩ := here.seek (.seekSet off) (by simp)
      ⟨by omega, by omega⟩
    rw [cursorStep_seekSet, cursorSeek_inside _ _ pos low high] at exec there
    have done : vfsLseek s fd off .set = (s', (off : Int)) := by
      have pair := Option.some.inj exec
      exact Prod.ext (Prod.mk.inj pair).1 (Prod.mk.inj (Prod.mk.inj pair).2).1
    exact ⟨s', done, there⟩
  · intro len _
    constructor
    · rintro ⟨s', done, -⟩
      obtain ⟨s'', bytes, isBytes, exec, -⟩ := here.read reads len
      have same := exec.symm.trans done
      have sameBytes := (Prod.mk.inj (Prod.mk.inj (Option.some.inj same)).2).2
      exact (window_fits_iff small pos len).mp (isBytes.symm.trans sameBytes)
    · intro fits
      exact here.read_fits reads fits
  · intro ops fine
    exact execRun_follows (FatFile.step reads) here fine
  · intro lens fine
    obtain ⟨s', run, there⟩ := execRun_follows (FatFile.step reads) here fine
    refine ⟨s', _, run, ?_⟩
    intro len s'' nonzero fits done
    apply cursorRun_untilEmpty nonzero
    have isPos := (@cursorRun_reads _ (2 ^ 63) (-EINVAL) content pos lens).2
    rw [← isPos] at fits
    obtain ⟨s₁, exec, -⟩ := there.read_fits reads fits
    have same := Option.some.inj (exec.symm.trans done)
    exact (Prod.mk.inj (Prod.mk.inj same).2).2

/-! ## A volume with one file -/

/-- A `FIL` is what its file holds and the file pointer. -/
def oneFile (content : List UInt8) : FatFs Unit (List UInt8 × Nat) Unit where
  mallocFil world := (world, true)
  fOpen world _ _ := (world, (content, 0), FR_OK)
  fLseek world fil ofs := (world, (fil.1, min ofs.toNat fil.1.length), FR_OK)
  fRead world fil btr :=
    let bytes := window fil.1 fil.2 btr.toNat
    (world, (fil.1, fil.2 + bytes.length), FR_OK, bytes)
  fClose world _ := world
  fStat world path := (world, ⟨path, 0⟩, FR_OK)
  fOpendir world _ := (world, (), FR_OK)
  fReaddir world dir := (world, dir, ⟨[], 0⟩, FR_OK)
  fClosedir world _ := world

/-- A file that the volume can hold, with the file pointer where the `FIL` has it. -/
def FilAt (_ : Unit) (fil : List UInt8 × Nat) (content : List UInt8) (fptr : Nat) : Prop :=
  fil = (content, fptr) ∧ content.length < 2 ^ 32

theorem oneFile_reads (content : List UInt8) : (oneFile content).ReadsFiles FilAt where
  size := fun opened => opened.2
  fLseek := by
    rintro _ _ content fptr ⟨rfl, small⟩ ofs
    exact ⟨(), _, rfl, rfl, small⟩
  fRead := by
    rintro _ _ content fptr ⟨rfl, small⟩ btr
    exact ⟨(), _, rfl, rfl, small⟩

/-- The file A with the byte `A` has been opened. -/
def withFatFile : Vfs Unit (FatfsPriv (List UInt8 × Nat)) :=
  let code : FsCode Unit (FatfsPriv (List UInt8 × Nat)) :=
    ⟨fun _ _ _ _ => none, fun _ => none, fun _ => none⟩
  let s := (vfsInit (vfsStatic (fun _ => true) ())).1
  let s := ((vfsMknod s (some 0) [65] .reg (some (fatfsFops (oneFile [65])))
    (some (.path [48, 58, 47, 65]))).get (by rfl)).1
  ((vfsOpen code s (some [47, 65]) 0).get (by rfl)).1

theorem withFatFile_at : FatFile (oneFile [65]) FilAt [65] 0 withFatFile 0 :=
  ⟨_, _, _, _, ⟨rfl, rfl, by decide⟩, rfl, rfl, ⟨rfl, by decide⟩, rfl⟩

/-- The whole file is read, and then nothing. -/
theorem fatfs_reads_oneFile :
    ∃ s', execRun (vfsExec 0) withFatFile [.read 10, .read 10] = some (s', [(1, [65]), (0, [])]) ∧
      FatFile (oneFile [65]) FilAt [65] 0 s' 1 := by
  obtain ⟨-, -, runs, -⟩ := fatfs_reads (oneFile_reads [65]) withFatFile_at
  exact runs [.read 10, .read 10] ⟨⟨by decide, by decide⟩, ⟨by decide, by decide⟩, trivial⟩

/-- At 4 GiB, where there is nothing of a file of one byte, its byte is read again. -/
theorem fat_position_wraps :
    ¬ ∀ (fat : FatFs Unit (List UInt8 × Nat) Unit)
      (Opened : Unit → List UInt8 × Nat → List UInt8 → Nat → Prop), fat.ReadsFiles Opened →
      ∀ content fd s pos, FatFile fat Opened content fd s pos → ∀ len < 2 ^ 64,
        ∃ s', vfsRead s fd true len =
          some (s', ((window content pos len).length : Int), window content pos len) ∧
            FatFile fat Opened content fd s' (pos + (window content pos len).length) := by
  intro exact
  obtain ⟨s', -, sought⟩ := withFatFile_at.seek (.seekSet (2 ^ 32)) (by simp) (by decide)
  obtain ⟨s'', done, -⟩ := exact _ _ (oneFile_reads [65]) [65] 0 s' (2 ^ 32) sought 1 (by decide)
  obtain ⟨s₁, bytes, isBytes, exec, -⟩ := FatFile.read (oneFile_reads [65]) sought 1
  have same := exec.symm.trans done
  have sameBytes := (Prod.mk.inj (Prod.mk.inj (Option.some.inj same)).2).2
  rw [isBytes] at sameBytes
  exact absurd sameBytes (by decide)

end Zsbl.Fs
