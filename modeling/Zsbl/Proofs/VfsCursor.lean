/-
Module: Zsbl.Proofs.VfsCursor
Purpose: vfs_lseek and vfs_read of an open file as the operations of a cursor.
Trusted boundary: none
Main exports:
  vfsExec, SizesFit, FileAt, FileAt.seek, FileAt.read
-/
import Zsbl.Common.Vfs
import Zsbl.Lib.Cursor

namespace Zsbl.Common

open Zsbl.Lib

variable {ω π : Type} {s : Vfs ω π} {fd : Int}

/-- The operations of a cursor on a file descriptor, with a buffer for what is read. -/
def vfsExec (fd : Int) (s : Vfs ω π) : CursorOp → Option (Vfs ω π × Int × List UInt8)
  | .seekSet off =>
      let (s, ret) := vfsLseek s fd off .set
      some (s, ret, [])
  | .seekCur off =>
      let (s, ret) := vfsLseek s fd off .cur
      some (s, ret, [])
  | .read len => vfsRead s fd true len

/-- Offsets are of `off_t`, lengths of `size_t`. -/
def SizesFit : CursorOp → Prop
  | .seekSet off => -2 ^ 63 ≤ off ∧ off < 2 ^ 63
  | .seekCur off => -2 ^ 63 ≤ off ∧ off < 2 ^ 63
  | .read len => len < 2 ^ 64

instance (op : CursorOp) : Decidable (SizesFit op) := by
  cases op <;> unfold SizesFit <;> infer_instance

/-- A descriptor is open on a node, at a position that `off_t` holds. -/
structure FileAt (s : Vfs ω π) (fd : Int) (node : VfsNode ω π) (file : VfsFile π) : Prop where
  isOpen : vfsFindFile s fd = some ⟨fd, file⟩
  live : s.nodes file.node = some node
  below : file.pos < 2 ^ 63

/-- The file that was set is the one that is found under its descriptor. -/
theorem find_setFile {items : List (VfsFileItem π)} {item : VfsFileItem π}
    (isOpen : items.find? (·.fd = fd) = some item) (file : VfsFile π) :
    (setFile fd file items).find? (·.fd = fd) = some ⟨fd, file⟩ := by
  induction items with
  | nil => simp at isOpen
  | cons first rest ih =>
      by_cases same : first.fd = fd
      · simp [setFile, same]
      · have inRest : rest.find? (·.fd = fd) = some item := by simpa [same] using isOpen
        simpa [setFile, same] using ih inRest

/-- The file of a descriptor is stored into. -/
theorem FileAt.move {node : VfsNode ω π} {file : VfsFile π} (at' : FileAt s fd node file)
    (file' : VfsFile π) (sameNode : file'.node = file.node) (below : file'.pos < 2 ^ 63)
    (world : ω) :
    FileAt { s with world := world, fileHead := setFile fd file' s.fileHead } fd node file' where
  isOpen := find_setFile at'.isOpen file'
  live := by
    rw [sameNode]
    exact at'.live
  below := below

/-- Positions that `off_t` does not hold wrap to negative ones. -/
theorem wrapLong_neg {value : Int} (low : -2 ^ 63 ≤ value) (high : value < 2 ^ 64)
    (outside : ¬ (0 ≤ value ∧ value < 2 ^ 63)) : wrapLong value < 0 := by
  by_cases negative : value < 0
  · rwa [wrapLong_of_lt low (by omega)]
  · unfold wrapLong
    rw [Int.bmod_def]
    split
    · omega
    · omega

/-- A seek moves the file as the cursor moves. -/
theorem FileAt.seek {node : VfsNode ω π} {file : VfsFile π} (at' : FileAt s fd node file)
    {base : Int} (low : 0 ≤ base) (high : base < 2 ^ 63) {off : Int} (lowOff : -2 ^ 63 ≤ off)
    (highOff : off < 2 ^ 63) :
    ∃ s', vfsLseek.seek s fd off ⟨fd, file⟩ base =
        (s', (cursorSeek (α := UInt8) (2 ^ 63) (-EINVAL) file.pos (base + off)).2.1) ∧
      s'.world = s.world ∧ FileAt s' fd node { file with
        pos := (cursorSeek (α := UInt8) (2 ^ 63) (-EINVAL) file.pos (base + off)).1 } := by
  unfold vfsLseek.seek cursorSeek
  by_cases inRange : 0 ≤ base + off ∧ base + off < 2 ^ 63
  · have exact' : wrapLong (base + off) = base + off :=
      wrapLong_of_lt (by omega) inRange.2
    have nonneg : ¬ base + off < 0 := by omega
    have inRange' : 0 ≤ base + off ∧ base + off < ((2 ^ 63 : Nat) : Int) := inRange
    simp only [exact', if_neg nonneg, if_pos inRange']
    exact ⟨_, rfl, rfl, at'.move { file with pos := (base + off).toNat } rfl
      (by dsimp only; omega) s.world⟩
  · have negative : wrapLong (base + off) < 0 :=
      wrapLong_neg (by omega) (by omega) inRange
    have outside : ¬ (0 ≤ base + off ∧ base + off < ((2 ^ 63 : Nat) : Int)) := inRange
    simp only [if_pos negative, if_neg outside]
    exact ⟨s, rfl, rfl, at'⟩

/-- What a call of the node's `read` yields moves the file on. -/
theorem FileAt.read {node : VfsNode ω π} {file : VfsFile π} (at' : FileAt s fd node file)
    {readFn : ω → Option π → VfsFile π → Nat → ω × Option π × Int × List UInt8}
    (isRead : node.fops.bind FileOps.readFn = some readFn) {len : Nat} {world : ω}
    {priv : Option π} {bytes : List UInt8}
    (done : readFn s.world node.priv file len = (world, priv, (bytes.length : Int), bytes)) :
    ∃ s', vfsExec fd s (.read len) = some (s', (bytes.length : Int), bytes) ∧ s'.world = world ∧
      (file.pos + bytes.length < 2 ^ 63 →
        FileAt s' fd node
          { file with privateData := priv, pos := file.pos + bytes.length }) := by
  unfold vfsExec vfsRead
  simp only [at'.isOpen, at'.live, isRead, done, Option.bind_eq_bind, Option.bind_some]
  refine ⟨_, rfl, rfl, ?_⟩
  intro inRange
  have moved : (if (bytes.length : Int) > 0 then (file.pos + (bytes.length : Int).toNat) % 2 ^ 64
      else file.pos) = file.pos + bytes.length := by
    split
    · rw [Int.toNat_natCast, Nat.mod_eq_of_lt (by omega)]
    · omega
  rw [moved]
  exact at'.move { file with privateData := priv, pos := file.pos + bytes.length } rfl inRange
    world

/-- Seeks of an open file, whatever the file holds. -/
theorem FileAt.exec {node : VfsNode ω π} {file : VfsFile π} (at' : FileAt s fd node file)
    {op : CursorOp} (isSeek : ∀ len, op ≠ .read len) (fits : SizesFit op) (content : List UInt8) :
    ∃ s', vfsExec fd s op = some (s', (cursorStep (2 ^ 63) (-EINVAL) content file.pos op).2) ∧
      s'.world = s.world ∧ FileAt s' fd node
        { file with pos := (cursorStep (2 ^ 63) (-EINVAL) content file.pos op).1 } := by
  have below := at'.below
  cases op with
  | read len => exact absurd rfl (isSeek len)
  | seekSet off =>
      obtain ⟨s', done, world, next⟩ :=
        at'.seek (Int.le_refl 0) (by omega) fits.1 fits.2
      rw [Int.zero_add] at done next
      rw [cursorStep_seekSet]
      refine ⟨s', ?_, world, next⟩
      simp only [vfsExec, vfsLseek, at'.isOpen, done]
      rw [cursorSeek_snd]
  | seekCur off =>
      obtain ⟨s', done, world, next⟩ :=
        at'.seek (Int.natCast_nonneg file.pos) (by omega) fits.1 fits.2
      have base : wrapLong file.pos = file.pos := wrapLong_of_lt (by omega) (by omega)
      rw [cursorStep_seekCur]
      refine ⟨s', ?_, world, next⟩
      simp only [vfsExec, vfsLseek, at'.isOpen, base, done]
      rw [cursorSeek_snd]

end Zsbl.Common
