/-
Module: Zsbl.Proofs.VfsAccess
Purpose: The calls that look paths up and use open files: each looks one path up,
  and does nothing else to the tree and the mounts.
Trusted boundary: none
Main exports:
  FilesOnly, VfsOp.path, VfsStep.access, Filling.access
-/
import Zsbl.Proofs.VfsFilled

namespace Zsbl.Common

open Zsbl.Lib

variable {ω π : Type} {s s' t u : Vfs ω π} {code : FsCode ω π} {contents : Contents ω π}

/-- The call has changed nothing but the table of open files and the media. -/
def FilesOnly (s s' : Vfs ω π) : Prop :=
  ∃ world files next, s' = { s with world := world, fileHead := files, nextFd := next }

theorem FilesOnly.refl (s : Vfs ω π) : FilesOnly s s := ⟨s.world, s.fileHead, s.nextFd, rfl⟩

theorem FilesOnly.filled (only : FilesOnly s s') : Filled code contents s s' := by
  obtain ⟨world, files, next, rfl⟩ := only
  exact .of_same rfl rfl rfl rfl rfl

theorem FilesOnly.roomy (only : FilesOnly s s') (roomy : s.Roomy) : s'.Roomy := by
  obtain ⟨world, files, next, rfl⟩ := only
  exact roomy

/-- Reading moves the position of a file and nothing else. -/
theorem vfsRead_only {fd : Int} {buf : Bool} {len : Nat} {ret : Int} {bytes : List UInt8}
    (done : vfsRead s fd buf len = some (s', ret, bytes)) : FilesOnly s s' := by
  unfold vfsRead at done
  split at done
  · obtain ⟨rfl, -⟩ := Prod.mk.inj (Option.some.inj done)
    exact .refl s
  · split at done
    · obtain ⟨rfl, -⟩ := Prod.mk.inj (Option.some.inj done)
      exact .refl s
    · obtain ⟨node, -, done⟩ := Option.bind_eq_some_iff.mp done
      split at done
      · obtain ⟨rfl, -⟩ := Prod.mk.inj (Option.some.inj done)
        exact .refl s
      · obtain ⟨rfl, -⟩ := Prod.mk.inj (Option.some.inj done)
        exact ⟨_, _, s.nextFd, rfl⟩

/-- Seeking moves the position of a file and nothing else. -/
theorem vfsLseek_only {fd off : Int} {whence : Whence} {ret : Int}
    (done : vfsLseek s fd off whence = (s', ret)) : FilesOnly s s' := by
  have seek {item : VfsFileItem π} {base : Int}
      (done : vfsLseek.seek s fd off item base = (s', ret)) : FilesOnly s s' := by
    unfold vfsLseek.seek at done
    simp only at done
    split at done
    · obtain ⟨rfl, -⟩ := Prod.mk.inj done
      exact .refl s
    · obtain ⟨rfl, -⟩ := Prod.mk.inj done
      exact ⟨s.world, _, s.nextFd, rfl⟩
  unfold vfsLseek at done
  split at done
  · obtain ⟨rfl, -⟩ := Prod.mk.inj done
    exact .refl s
  · cases whence with
    | fin =>
        obtain ⟨rfl, -⟩ := Prod.mk.inj done
        exact .refl s
    | other =>
        obtain ⟨rfl, -⟩ := Prod.mk.inj done
        exact .refl s
    | set => exact seek done
    | cur => exact seek done

/-- Closing takes a file off the list and nothing else. -/
theorem vfsClose_only {fd ret : Int} (done : vfsClose s fd = some (s', ret)) :
    FilesOnly s s' := by
  unfold vfsClose at done
  split at done
  · obtain ⟨rfl, -⟩ := Prod.mk.inj (Option.some.inj done)
    exact .refl s
  · obtain ⟨node, -, done⟩ := Option.bind_eq_some_iff.mp done
    split at done
    · obtain ⟨rfl, -⟩ := Prod.mk.inj (Option.some.inj done)
      exact ⟨s.world, _, s.nextFd, rfl⟩
    · obtain ⟨rfl, -⟩ := Prod.mk.inj (Option.some.inj done)
      exact ⟨_, _, s.nextFd, rfl⟩

/-- `vfs_open` looks its path up and may open a file of the node it finds. -/
theorem vfsOpen_only {path : Option CStr} {flags : Nat} {ret : Int}
    (done : vfsOpen code s path flags = some (s', ret)) :
    ∃ t found, vfsLookup code s path = some (t, found) ∧ (t.Roomy → FilesOnly t s' ∧
      ∀ item ∈ s'.fileHead, item ∈ t.fileHead ∨ found = some item.file.node) := by
  obtain ⟨⟨t, found⟩, search, done⟩ := Option.bind_eq_some_iff.mp done
  refine ⟨t, found, search, fun roomy => ?_⟩
  cases found with
  | none =>
      obtain ⟨rfl, -⟩ := Prod.mk.inj (Option.some.inj done)
      exact ⟨.refl t, fun item => Or.inl⟩
  | some id =>
      obtain ⟨node, live, done⟩ := Option.bind_eq_some_iff.mp done
      split at done
      · obtain ⟨rfl, -⟩ := Prod.mk.inj (Option.some.inj done)
        exact ⟨.refl t, fun item => Or.inl⟩
      · obtain ⟨⟨t₁, fd⟩, alloc, done⟩ := Option.bind_eq_some_iff.mp done
        obtain ⟨next, rfl⟩ := allocFdFrom_eq alloc
        have room : Vfs.Roomy { t with nextFd := next } := roomy
        have opened {file : VfsFile π} (same : file.node = id) (item : VfsFileItem π)
            (member : item ∈ (⟨fd, file⟩ :: t.fileHead : List (VfsFileItem π))) :
            item ∈ t.fileHead ∨ some id = some item.file.node := by
          rcases List.mem_cons.mp member with rfl | member
          · exact Or.inr (by rw [same])
          · exact Or.inl member
        simp only [room.malloc] at done
        split at done
        · obtain ⟨rfl, -⟩ := Prod.mk.inj (Option.some.inj done)
          exact ⟨⟨t.world, t.fileHead, next, rfl⟩, fun item => Or.inl⟩
        · simp only [Bool.not_true, Bool.false_eq_true, if_false] at done
          split at done
          · obtain ⟨rfl, -⟩ := Prod.mk.inj (Option.some.inj done)
            exact ⟨⟨t.world, _, next, rfl⟩, opened rfl⟩
          · split at done
            · obtain ⟨rfl, -⟩ := Prod.mk.inj (Option.some.inj done)
              exact ⟨⟨_, t.fileHead, next, rfl⟩, fun item => Or.inl⟩
            · obtain ⟨rfl, -⟩ := Prod.mk.inj (Option.some.inj done)
              exact ⟨⟨_, _, next, rfl⟩, opened rfl⟩

/-- The path that a call looks up, if it does. -/
def VfsOp.path : VfsOp ω π → Option CStr
  | .lookup path => path
  | .openPath path _ => path
  | _ => none

theorem FileInv.only (inv : FileInv s) (only : FilesOnly s s')
    (files : ∀ item ∈ s'.fileHead, (s.nodes item.file.node).isSome) : FileInv s' := by
  obtain ⟨world, fileHead, next, rfl⟩ := only
  exact inv.refiled ⟨rfl, rfl, rfl, rfl, rfl, files⟩

/-- A lookup from outside is a lookup of an absolute path, or nothing. -/
theorem vfsLookup_cases (materialises : code.Materialises) (inv : FileInv s) (roomy : s.Roomy)
    {path : Option CStr} {found : Option Nat} (done : vfsLookup code s path = some (s', found)) :
    FileInv s' ∧ s'.Roomy ∧ (∀ id, found = some id → (s'.nodes id).isSome) ∧
      (s' = s ∨ ∃ name, path = some name ∧ vfsIsPathValid path = true ∧
        s' = (resolve code s name).1) := by
  have same (unchanged : some (s, none) = some (s', found)) :
      FileInv s' ∧ s'.Roomy ∧ (∀ id, found = some id → (s'.nodes id).isSome) ∧
        (s' = s ∨ ∃ name, path = some name ∧ vfsIsPathValid path = true ∧
          s' = (resolve code s name).1) := by
    obtain ⟨rfl, rfl⟩ := Prod.mk.inj (Option.some.inj unchanged)
    exact ⟨inv, roomy, by simp, Or.inl rfl⟩
  cases path with
  | none => exact same done
  | some name =>
      by_cases absolute : vfsIsPathValid (some name) = true
      · rw [vfsLookup_eq materialises inv.names roomy absolute] at done
        obtain ⟨rfl, rfl⟩ := Prod.mk.inj (Option.some.inj done)
        obtain ⟨builds, position⟩ := resolveEx_spec materialises inv.names roomy true name
        rw [resolveEx_true] at builds position
        refine ⟨(builds.files inv).1, builds.roomy inv.tree roomy, fun id isFound => ?_,
          Or.inr ⟨name, rfl, absolute, rfl⟩⟩
        obtain ⟨there, isThere, rfl⟩ := Option.map_eq_some_iff.mp isFound
        exact (position there isThere).node
      · rw [Bool.not_eq_true] at absolute
        simp only [vfsLookup, absolute, Bool.not_false, if_true] at done
        exact same done

/-- Such a call looks its path up, and then changes the open files at most. -/
theorem VfsStep.access (materialises : code.Materialises) (inv : FileInv s) (roomy : s.Roomy)
    {op : VfsOp ω π} (access : op.Access) (taken : VfsStep code s op s') :
    ∃ t found, vfsLookup code s op.path = some (t, found) ∧ FilesOnly t s' ∧ FileInv s' ∧
      s'.Roomy := by
  have stays (refiled : Refiled s s') (only : FilesOnly s s') (isPath : op.path = none) :
      ∃ t found, vfsLookup code s op.path = some (t, found) ∧ FilesOnly t s' ∧ FileInv s' ∧
        s'.Roomy :=
    ⟨s, none, by rw [isPath]; rfl, only, inv.refiled refiled, only.roomy roomy⟩
  cases taken with
  | lookup done =>
      obtain ⟨inv', roomy', -⟩ := vfsLookup_cases materialises inv roomy done
      exact ⟨s', _, done, .refl s', inv', roomy'⟩
  | openPath done =>
      obtain ⟨t, found, search, rest⟩ := vfsOpen_only done
      obtain ⟨inv', roomy', live, -⟩ := vfsLookup_cases materialises inv roomy search
      obtain ⟨only, files⟩ := rest roomy'
      refine ⟨t, found, search, only, inv'.only only fun item member => ?_, only.roomy roomy'⟩
      rcases files item member with old | isFound
      · exact inv'.links.files item old
      · exact live _ isFound
  | read done => exact stays (vfsRead_refiled inv done) (vfsRead_only done) rfl
  | lseek done => exact stays (vfsLseek_refiled inv done) (vfsLseek_only done) rfl
  | close done => exact stays (vfsClose_refiled inv done) (vfsClose_only done) rfl
  | _ => exact absurd access id

theorem Filling.world (filling : Filling code contents s t) (world : ω) :
    Filling code contents s { t with world := world } where
  filled := filling.filled.trans (.of_same rfl rfl rfl rfl rfl)
  inv := filling.inv.only ⟨world, t.fileHead, t.nextFd, rfl⟩ filling.inv.links.files
  roomy := filling.roomy

/-- Lookups, opens, reads, seeks and closes fill the tree. -/
theorem Filling.access (serves : code.Serves contents) (filling : Filling code contents s t)
    {op : VfsOp ω π} (access : op.Access) (taken : VfsStep code t op u) :
    Filling code contents s u := by
  obtain ⟨filled, inv, roomy⟩ := filling
  obtain ⟨t₁, found, search, only, inv', roomy'⟩ :=
    taken.access serves.materialises inv roomy access
  refine ⟨(filled.trans ?_).trans only.filled, inv', roomy'⟩
  rcases (vfsLookup_cases serves.materialises inv roomy search).2.2.2 with
    rfl | ⟨path, -, -, rfl⟩
  · exact .refl t₁
  · rw [← resolveEx_true]
    exact resolveEx_filled serves inv roomy true path

end Zsbl.Common
