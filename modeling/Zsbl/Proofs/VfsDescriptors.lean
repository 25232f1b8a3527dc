/-
Module: Zsbl.Proofs.VfsDescriptors
Purpose: The numbers of open files: they stay different when the counter wraps
  around, and only opening and closing changes which are in use.
Trusted boundary: none
Main exports:
  SameTables, Builds.tables, Descriptors, vfsAllocFd_spec, vfsOpen_cases,
  DescriptorsServed, vfs_descriptors
-/
import Zsbl.Proofs.VfsOpenFiles
import Zsbl.Lib.Probe

namespace Zsbl.Common

open Zsbl.Lib

variable {ω π : Type} {s s' : Vfs ω π} {code : FsCode ω π}

/-! ## What callbacks leave alone -/

/-- The open files, the registered file systems and the counter are the same. -/
structure SameTables (s s' : Vfs ω π) : Prop where
  fileHead : s'.fileHead = s.fileHead
  fsTypes : s'.fsTypes = s.fsTypes
  nextFd : s'.nextFd = s.nextFd

theorem SameTables.refl (s : Vfs ω π) : SameTables s s := ⟨rfl, rfl, rfl⟩

theorem SameTables.trans {s'' : Vfs ω π} (first : SameTables s s')
    (second : SameTables s' s'') : SameTables s s'' where
  fileHead := second.fileHead.trans first.fileHead
  fsTypes := second.fsTypes.trans first.fsTypes
  nextFd := second.nextFd.trans first.nextFd

/-- Only nodes are added and changed. -/
def NodesOnly (s s' : Vfs ω π) : Prop :=
  ∃ nodes mem next, s' = { s with nodes := nodes, mem := mem, nextNode := next }

theorem NodesOnly.refl (s : Vfs ω π) : NodesOnly s s := ⟨s.nodes, s.mem, s.nextNode, rfl⟩

theorem NodesOnly.trans {s'' : Vfs ω π} (first : NodesOnly s s') (second : NodesOnly s' s'') :
    NodesOnly s s'' := by
  obtain ⟨nodes, mem, next, rfl⟩ := first
  obtain ⟨nodes', mem', next', rfl⟩ := second
  exact ⟨nodes', mem', next', rfl⟩

theorem NodesOnly.malloc (s : Vfs ω π) : NodesOnly s s.malloc.1 :=
  ⟨s.nodes, s.malloc.1.mem, s.nextNode, rfl⟩

theorem NodesOnly.tables (only : NodesOnly s s') : SameTables s s' := by
  obtain ⟨nodes, mem, next, rfl⟩ := only
  exact ⟨rfl, rfl, rfl⟩

theorem NodesOnly.world (only : NodesOnly s s') : s'.world = s.world := by
  obtain ⟨nodes, mem, next, rfl⟩ := only
  rfl

/-- Allocating a node leaves mounts, files and file systems alone. -/
theorem vfsAllocNode_nodesOnly (s : Vfs ω π) (name : CStr) (type : VfsNodeType)
    (fops : Option (FileOps ω π)) (priv : Option π) :
    NodesOnly s (vfsAllocNode s name type fops priv).1 := by
  unfold vfsAllocNode
  simp only
  split
  · exact .malloc s
  · split
    · exact (NodesOnly.malloc s).trans (.malloc _)
    · exact ⟨_, _, _, rfl⟩

/-- Creating a node leaves mounts, files and file systems alone. -/
theorem vfsCreateNode_nodesOnly {parent created : Option Nat} {name : CStr}
    {type : VfsNodeType} {fops : Option (FileOps ω π)} {priv : Option π}
    (done : vfsCreateNode s parent name type fops priv = some (s', created)) :
    NodesOnly s s' := by
  have alloc := vfsAllocNode_nodesOnly s name type fops priv
  unfold vfsCreateNode at done
  split at done
  · obtain ⟨rfl, -⟩ := Prod.mk.inj (Option.some.inj done)
    exact .refl s
  · split at done
    · obtain ⟨rfl, -⟩ := Prod.mk.inj (Option.some.inj done)
      exact .refl s
    · split at done
      · obtain ⟨rfl, -⟩ := Prod.mk.inj (Option.some.inj done)
        exact .refl s
      · obtain ⟨dir, -, done⟩ := Option.bind_eq_some_iff.mp done
        split at done
        · obtain ⟨rfl, -⟩ := Prod.mk.inj (Option.some.inj done)
          exact .refl s
        · obtain ⟨present, -, done⟩ := Option.bind_eq_some_iff.mp done
          split at done
          · obtain ⟨rfl, -⟩ := Prod.mk.inj (Option.some.inj done)
            exact .refl s
          · split at done
            · obtain ⟨rfl, -⟩ := Prod.mk.inj (Option.some.inj done)
              exact .refl s
            · split at done
              · rename_i s₁ result
                obtain ⟨rfl, -⟩ := Prod.mk.inj (Option.some.inj done)
                rwa [result] at alloc
              · rename_i s₁ id result
                rw [result] at alloc
                obtain ⟨above, -, done⟩ := Option.bind_eq_some_iff.mp done
                obtain ⟨node, -, done⟩ := Option.bind_eq_some_iff.mp done
                obtain ⟨rfl, -⟩ := Prod.mk.inj (Option.some.inj done)
                exact alloc.trans ⟨_, _, _, rfl⟩

/-- A step of a build leaves the tables alone. -/
theorem BuildStep.tables (step : BuildStep s s') : SameTables s s' := by
  cases step with
  | malloc => exact ⟨rfl, rfl, rfl⟩
  | world => exact ⟨rfl, rfl, rfl⟩
  | allocDir name =>
      unfold vfsAllocDirNode
      split
      · exact .refl s
      · exact (vfsAllocNode_nodesOnly s name .dir none none).tables
  | create _ done => exact (vfsCreateNode_nodesOnly done).tables
  | setPriv => exact ⟨rfl, rfl, rfl⟩

/-- Callbacks only build: the tables of common/vfs.c stay as they are. -/
theorem Builds.tables (builds : Builds s s') : SameTables s s' := by
  induction builds with
  | refl => exact .refl s
  | tail _ step ih => exact ih.trans step.tables

/-! ## The counter -/

/-- One more than `INT_MAX`. -/
def intBound : Int := 2 ^ 31

/-- The counter starts over at 0 behind the largest `int`. -/
theorem nextFdAfter_eq {fd : Int} (nonneg : 0 ≤ fd) (below : fd < intBound) :
    nextFdAfter fd = (fd + 1) % intBound := by
  unfold intBound at below ⊢
  unfold nextFdAfter wrapInt
  rcases lt_or_ge (fd + 1) (2 ^ 31) with inside | last
  · rw [Int.bmod_eq_of_le (by omega) (by omega)]
    omega
  · obtain rfl : fd = 2 ^ 31 - 1 := by omega
    decide

theorem nextFdAfter_range {fd : Int} (nonneg : 0 ≤ fd) (below : fd < intBound) :
    0 ≤ nextFdAfter fd ∧ nextFdAfter fd < intBound := by
  rw [nextFdAfter_eq nonneg below]
  unfold intBound
  omega

/-- Counting wraps around at `INT_MAX`. -/
theorem nextFdAfter_iterate {start : Int} (nonneg : 0 ≤ start) (below : start < intBound)
    (steps : Nat) : nextFdAfter^[steps] start = (start + steps) % intBound := by
  induction steps with
  | zero => simpa using (Int.emod_eq_of_lt nonneg below).symm
  | succ steps ih =>
      have range : 0 ≤ (start + steps) % intBound ∧ (start + steps) % intBound < intBound := by
        unfold intBound
        omega
      rw [Function.iterate_succ_apply', ih, nextFdAfter_eq range.1 range.2]
      unfold intBound
      omega

/-- The counter comes back to where it was after 2^31 numbers. -/
theorem nextFdAfter_returns {start : Int} (nonneg : 0 ≤ start) (below : start < intBound) :
    Returns nextFdAfter start (2 ^ 31) := by
  constructor
  · rw [nextFdAfter_iterate nonneg below]
    unfold intBound at below ⊢
    omega
  · intro steps pos inside
    rw [nextFdAfter_iterate nonneg below]
    unfold intBound at below ⊢
    omega

/-- One round of the counter meets every non-negative `int`. -/
theorem nextFdAfter_meets {start fd : Int} (nonneg : 0 ≤ start) (below : start < intBound)
    (nonneg' : 0 ≤ fd) (below' : fd < intBound) :
    ∃ steps < 2 ^ 31, nextFdAfter^[steps] start = fd := by
  unfold intBound at below below'
  refine ⟨((fd - start) % 2 ^ 31).toNat, by omega, ?_⟩
  rw [nextFdAfter_iterate nonneg below]
  unfold intBound
  omega

/-- The loop of `vfs_alloc_fd` is a search for a number that is not in use. -/
theorem allocFdFrom_probe (s : Vfs ω π) (start fd : Int) (fuel : Nat) :
    allocFdFrom s start fuel fd =
      (probeFrom (fun fd => (vfsFindFile s fd).isSome) nextFdAfter start fuel fd).map
        fun result => ({ s with nextFd := nextFdAfter result.1 },
          if result.2 then result.1 else -EMFILE) := by
  induction fuel generalizing fd with
  | zero => rfl
  | succ fuel ih =>
      unfold allocFdFrom probeFrom
      cases found : vfsFindFile s fd with
      | none => simp
      | some item =>
          by_cases last : nextFdAfter fd = start
          · simp [last]
          · simp [last, ih]

/-- `vfs_alloc_fd` ends: it finds a number that is not in use, or every one is. -/
theorem vfsAllocFd_spec (s : Vfs ω π) (counter : s.nextFd < intBound) :
    ∃ next fd, vfsAllocFd s = some ({ s with nextFd := next }, fd) ∧ 0 ≤ next ∧
      next < intBound ∧
      (0 ≤ fd ∧ fd < intBound ∧ vfsFindFile s fd = none ∨
        fd = -EMFILE ∧ ∀ used, 0 ≤ used → used < intBound → (vfsFindFile s used).isSome) := by
  have startRange : 0 ≤ (if s.nextFd < 0 then 0 else s.nextFd) ∧
      (if s.nextFd < 0 then 0 else s.nextFd) < intBound := by
    unfold intBound at counter ⊢
    split <;> omega
  unfold vfsAllocFd
  generalize (if s.nextFd < 0 then 0 else s.nextFd) = start at startRange
  obtain ⟨nonneg, below⟩ := startRange
  obtain ⟨i, inside, found⟩ := @probeFrom_spec _ _ (fun fd => (vfsFindFile s fd).isSome) _ _ _
    (nextFdAfter_returns nonneg below) 0 (2 ^ 31) (by decide) (by omega) (by omega)
  have range : 0 ≤ nextFdAfter^[i] start ∧ nextFdAfter^[i] start < intBound := by
    rw [nextFdAfter_iterate nonneg below]
    unfold intBound
    omega
  obtain ⟨nonneg', below'⟩ := nextFdAfter_range range.1 range.2
  simp only [allocFdFrom_probe]
  rcases found with ⟨free, result⟩ | ⟨all, result⟩
  · rw [Function.iterate_zero_apply] at result
    rw [result]
    exact ⟨_, _, rfl, nonneg', below', Or.inl ⟨range.1, range.2, by simpa using free⟩⟩
  · rw [Function.iterate_zero_apply] at result
    rw [result]
    refine ⟨_, _, rfl, nonneg', below', Or.inr ⟨rfl, fun used low high => ?_⟩⟩
    obtain ⟨steps, early, rfl⟩ := nextFdAfter_meets nonneg below low high
    exact all steps early

/-! ## The numbers of open files -/

/-- The counter is an `int`; the open files have different numbers, none negative. -/
structure Descriptors (s : Vfs ω π) : Prop where
  counter : s.nextFd < intBound
  range : ∀ item ∈ s.fileHead, 0 ≤ item.fd ∧ item.fd < intBound
  distinct : (s.fileHead.map VfsFileItem.fd).Nodup

/-- The number is what the `open` of some file answers when it fails. -/
def FailedOpen (ω π : Type) (ret : Int) : Prop :=
  ∃ (node : VfsNode ω π) (world : ω) (file : VfsFile π)
    (openFn : ω → Option π → VfsFile π → ω × Option π × Int),
    node.fops.bind FileOps.openFn = some openFn ∧
      (openFn world node.priv file).2.2 = ret ∧ ret ≠ 0

/-- The `open` of the file's node, if it has one, has answered 0. -/
def OpenSucceeded (s' : Vfs ω π) (file : VfsFile π) : Prop :=
  ∀ node openFn, s'.nodes file.node = some node →
    node.fops.bind FileOps.openFn = some openFn →
    ∃ world, openFn world node.priv { file with pos := 0, privateData := node.priv } =
      (s'.world, file.privateData, 0)

/-- A file has been opened under a number that was not in use. -/
structure Opened (s s' : Vfs ω π) (fd : Int) : Prop where
  nonneg : 0 ≤ fd
  below : fd < intBound
  fresh : vfsFindFile s fd = none
  added : ∃ file, s'.fileHead = ⟨fd, file⟩ :: s.fileHead ∧ OpenSucceeded s' file

/-- No file has been opened. -/
structure Refused (s s' : Vfs ω π) (ret : Int) : Prop where
  fileHead : s'.fileHead = s.fileHead
  error : ret < 0 ∨ FailedOpen ω π ret

/-- Behind a lookup that comes back `vfs_open` comes back. -/
theorem vfsOpen_isSome (honest : code.Honest) (inv : FileInv s)
    (counter : s.nextFd < intBound) {path : Option CStr} {found : Vfs ω π × Option Nat}
    (search : vfsLookup code s path = some found) (flags : Nat) :
    (vfsOpen code s path flags).isSome := by
  obtain ⟨s₁, found⟩ := found
  obtain ⟨builds, live⟩ := vfsLookup_builds honest live_route inv search
  unfold vfsOpen
  rw [search, Option.bind_eq_bind, Option.bind_some]
  cases found with
  | none => rfl
  | some id =>
      obtain ⟨node, isNode⟩ := Option.isSome_iff_exists.mp (live id rfl)
      obtain ⟨next, fd, alloc, -⟩ :=
        vfsAllocFd_spec s₁ (by rw [builds.tables.nextFd]; exact counter)
      simp only [isNode, alloc, Option.bind_eq_bind, Option.bind_some]
      repeat' split
      all_goals rfl

/-- `vfs_open` opens a file under a fresh number, or leaves the open files. -/
theorem vfsOpen_cases (honest : code.Honest) (inv : FileInv s)
    (counter : s.nextFd < intBound) {path : Option CStr} {flags : Nat} {ret : Int}
    (done : vfsOpen code s path flags = some (s', ret)) :
    s'.nextFd < intBound ∧ (Opened s s' ret ∨ Refused s s' ret) := by
  obtain ⟨⟨s₁, found⟩, search, done⟩ := Option.bind_eq_some_iff.mp done
  have tables := (vfsLookup_builds honest live_route inv search).1.tables
  have counter₁ : s₁.nextFd < intBound := by rwa [tables.nextFd]
  cases found with
  | none =>
      obtain ⟨rfl, rfl⟩ := Prod.mk.inj (Option.some.inj done)
      exact ⟨counter₁, Or.inr ⟨tables.fileHead, Or.inl (by decide)⟩⟩
  | some id =>
      obtain ⟨node, live, done⟩ := Option.bind_eq_some_iff.mp done
      split at done
      · obtain ⟨rfl, rfl⟩ := Prod.mk.inj (Option.some.inj done)
        exact ⟨counter₁, Or.inr ⟨tables.fileHead, Or.inl (by decide)⟩⟩
      · obtain ⟨⟨s₂, fd⟩, alloc, done⟩ := Option.bind_eq_some_iff.mp done
        obtain ⟨next, fd', result, -, counter₂, number⟩ := vfsAllocFd_spec s₁ counter₁
        obtain ⟨rfl, rfl⟩ := Prod.mk.inj (Option.some.inj (result.symm.trans alloc))
        simp only at done
        split at done
        · rename_i negative
          obtain ⟨rfl, rfl⟩ := Prod.mk.inj (Option.some.inj done)
          exact ⟨counter₂, Or.inr ⟨tables.fileHead, Or.inl negative⟩⟩
        · rename_i notNegative
          have free : 0 ≤ fd' ∧ fd' < intBound ∧ vfsFindFile s fd' = none := by
            rcases number with ⟨low, high, free⟩ | ⟨rfl, -⟩
            · unfold vfsFindFile at free ⊢
              exact ⟨low, high, by rwa [tables.fileHead] at free⟩
            · exact absurd (by decide) notNegative
          split at done
          · obtain ⟨rfl, rfl⟩ := Prod.mk.inj (Option.some.inj done)
            exact ⟨counter₂, Or.inr ⟨tables.fileHead, Or.inl (by decide)⟩⟩
          · split at done
            · rename_i noOpen
              obtain ⟨rfl, rfl⟩ := Prod.mk.inj (Option.some.inj done)
              refine ⟨counter₂, Or.inl ⟨free.1, free.2.1, free.2.2, _,
                congrArg (_ :: ·) tables.fileHead, fun other openFn otherLive hasOpen => ?_⟩⟩
              obtain rfl := Option.some.inj (live.symm.trans otherLive)
              cases noOpen.symm.trans hasOpen
            · rename_i openFn hasOpen
              split at done
              · rename_i failed
                obtain ⟨rfl, rfl⟩ := Prod.mk.inj (Option.some.inj done)
                exact ⟨counter₂, Or.inr ⟨tables.fileHead,
                  Or.inr ⟨node, _, _, openFn, hasOpen, rfl, failed⟩⟩⟩
              · rename_i answer
                obtain ⟨rfl, rfl⟩ := Prod.mk.inj (Option.some.inj done)
                refine ⟨counter₂, Or.inl ⟨free.1, free.2.1, free.2.2, _,
                  congrArg (_ :: ·) tables.fileHead, fun other fn otherLive hasFn => ?_⟩⟩
                obtain rfl := Option.some.inj (live.symm.trans otherLive)
                obtain rfl := Option.some.inj (hasOpen.symm.trans hasFn)
                exact ⟨_, Prod.ext rfl (Prod.ext rfl (not_not.mp answer))⟩

/-- Of distinct descriptors removing the first is removing every one. -/
theorem eraseP_fd {items : List (VfsFileItem π)}
    (distinct : (items.map VfsFileItem.fd).Nodup) (fd : Int) :
    items.eraseP (·.fd = fd) = items.filter (·.fd ≠ fd) := by
  induction items with
  | nil => rfl
  | cons item rest ih =>
      obtain ⟨fresh, distinct⟩ := List.nodup_cons.mp distinct
      by_cases here : item.fd = fd
      · have others : ∀ other ∈ rest, decide (other.fd ≠ fd) = true := by
          intro other member
          have ne : other.fd ≠ fd := by
            rintro same
            exact fresh (here.trans same.symm ▸ List.mem_map_of_mem member)
          simpa using ne
        rw [List.eraseP_cons_of_pos (by simpa using here),
          List.filter_cons_of_neg (by simpa using here), List.filter_eq_self.mpr others]
      · rw [List.eraseP_cons_of_neg (by simpa using here),
          List.filter_cons_of_pos (by simpa using here), ih distinct]

/-- `vfs_close` takes away the file with the number and no other. -/
theorem vfsClose_fileHead (distinct : (s.fileHead.map VfsFileItem.fd).Nodup) {fd ret : Int}
    (done : vfsClose s fd = some (s', ret)) :
    s'.nextFd = s.nextFd ∧ s'.fileHead = s.fileHead.filter (·.fd ≠ fd) := by
  have erased := eraseP_fd distinct fd
  unfold vfsClose at done
  split at done
  · rename_i missing
    obtain ⟨rfl, -⟩ := Prod.mk.inj (Option.some.inj done)
    refine ⟨rfl, (List.filter_eq_self.mpr fun item member => ?_).symm⟩
    simpa using List.find?_eq_none.mp missing item member
  · obtain ⟨node, -, done⟩ := Option.bind_eq_some_iff.mp done
    split at done
    · obtain ⟨rfl, -⟩ := Prod.mk.inj (Option.some.inj done)
      exact ⟨rfl, erased⟩
    · obtain ⟨rfl, -⟩ := Prod.mk.inj (Option.some.inj done)
      exact ⟨rfl, erased⟩

/-- Setting a file keeps the descriptors. -/
theorem setFile_fds (fd : Int) (file : VfsFile π) (items : List (VfsFileItem π)) :
    (setFile fd file items).map VfsFileItem.fd = items.map VfsFileItem.fd := by
  induction items with
  | nil => rfl
  | cons item rest ih =>
      unfold setFile
      split
      · rfl
      · rw [List.map_cons, List.map_cons, ih]

/-- Reading keeps the descriptors. -/
theorem vfsRead_fds {fd : Int} {buf : Bool} {len : Nat} {ret : Int} {bytes : List UInt8}
    (done : vfsRead s fd buf len = some (s', ret, bytes)) :
    s'.nextFd = s.nextFd ∧
      s'.fileHead.map VfsFileItem.fd = s.fileHead.map VfsFileItem.fd := by
  unfold vfsRead at done
  split at done
  · obtain ⟨rfl, -⟩ := Prod.mk.inj (Option.some.inj done)
    exact ⟨rfl, rfl⟩
  · split at done
    · obtain ⟨rfl, -⟩ := Prod.mk.inj (Option.some.inj done)
      exact ⟨rfl, rfl⟩
    · obtain ⟨node, -, done⟩ := Option.bind_eq_some_iff.mp done
      split at done
      · obtain ⟨rfl, -⟩ := Prod.mk.inj (Option.some.inj done)
        exact ⟨rfl, rfl⟩
      · obtain ⟨rfl, -⟩ := Prod.mk.inj (Option.some.inj done)
        exact ⟨rfl, setFile_fds ..⟩

/-- Seeking keeps the descriptors. -/
theorem vfsLseek_fds {fd off : Int} {whence : Whence} {ret : Int}
    (done : vfsLseek s fd off whence = (s', ret)) :
    s'.nextFd = s.nextFd ∧
      s'.fileHead.map VfsFileItem.fd = s.fileHead.map VfsFileItem.fd := by
  have seek : ∀ {item : VfsFileItem π} {base : Int},
      vfsLseek.seek s fd off item base = (s', ret) → s'.nextFd = s.nextFd ∧
        s'.fileHead.map VfsFileItem.fd = s.fileHead.map VfsFileItem.fd := by
    intro item base done
    unfold vfsLseek.seek at done
    simp only at done
    split at done
    · obtain ⟨rfl, -⟩ := Prod.mk.inj done
      exact ⟨rfl, rfl⟩
    · obtain ⟨rfl, -⟩ := Prod.mk.inj done
      exact ⟨rfl, setFile_fds ..⟩
  unfold vfsLseek at done
  split at done
  · obtain ⟨rfl, -⟩ := Prod.mk.inj done
    exact ⟨rfl, rfl⟩
  · cases whence with
    | fin =>
        obtain ⟨rfl, -⟩ := Prod.mk.inj done
        exact ⟨rfl, rfl⟩
    | other =>
        obtain ⟨rfl, -⟩ := Prod.mk.inj done
        exact ⟨rfl, rfl⟩
    | set => exact seek done
    | cur => exact seek done

/-! ## Runs -/

/-- The calls that open, use and close files. -/
def VfsOp.OnFiles : VfsOp ω π → Prop
  | .openPath .. | .read .. | .lseek .. | .close _ | .world _ => True
  | _ => False

/-- Numbers that are the same stay different. -/
theorem Descriptors.of_fds (numbered : Descriptors s) (counter : s'.nextFd = s.nextFd)
    (fds : s'.fileHead.map VfsFileItem.fd = s.fileHead.map VfsFileItem.fd) :
    Descriptors s' where
  counter := by rw [counter]; exact numbered.counter
  range := by
    intro item member
    have isFd : item.fd ∈ s'.fileHead.map VfsFileItem.fd := List.mem_map_of_mem member
    rw [fds] at isFd
    obtain ⟨other, wasMember, same⟩ := List.mem_map.mp isFd
    rw [← same]
    exact numbered.range other wasMember
  distinct := by rw [fds]; exact numbered.distinct

/-- A new descriptor is not among the old ones. -/
theorem Descriptors.opened (numbered : Descriptors s) {fd : Int}
    (counter : s'.nextFd < intBound) (opened : Opened s s' fd) : Descriptors s' := by
  obtain ⟨file, added, -⟩ := opened.added
  refine ⟨counter, ?_, ?_⟩ <;> rw [added]
  · intro item member
    rcases List.mem_cons.mp member with rfl | member
    · exact ⟨opened.nonneg, opened.below⟩
    · exact numbered.range item member
  · refine List.nodup_cons.mpr ⟨fun inUse => ?_, numbered.distinct⟩
    obtain ⟨item, member, same⟩ := List.mem_map.mp inUse
    have absent := List.find?_eq_none.mp opened.fresh item member
    exact absent (by simpa using same)

theorem Descriptors.closed (numbered : Descriptors s) {fd ret : Int}
    (done : vfsClose s fd = some (s', ret)) : Descriptors s' := by
  obtain ⟨counter, fileHead⟩ := vfsClose_fileHead numbered.distinct done
  refine ⟨by rw [counter]; exact numbered.counter, ?_, ?_⟩ <;> rw [fileHead]
  · exact fun item member => numbered.range item (List.mem_of_mem_filter member)
  · exact numbered.distinct.sublist (List.filter_sublist.map _)

/-- Opening, using and closing files keeps their numbers different. -/
theorem Descriptors.step (honest : code.Honest) (inv : FileInv s) (numbered : Descriptors s)
    {op : VfsOp ω π} (onFiles : op.OnFiles) (taken : VfsStep code s op s') :
    Descriptors s' := by
  cases taken with
  | openPath done =>
      obtain ⟨counter, opened | refused⟩ := vfsOpen_cases honest inv numbered.counter done
      · exact numbered.opened counter opened
      · exact ⟨counter, by rw [refused.fileHead]; exact numbered.range,
          by rw [refused.fileHead]; exact numbered.distinct⟩
  | read done => exact numbered.of_fds (vfsRead_fds done).1 (vfsRead_fds done).2
  | lseek done => exact numbered.of_fds (vfsLseek_fds done).1 (vfsLseek_fds done).2
  | close done => exact numbered.closed done
  | world world => exact numbered.of_fds rfl rfl
  | _ => exact onFiles.elim

/-- What callers may rely on in a state: an allocation ends and fails only when
every number is in use; `vfs_open` comes back where the lookup of its path does, with
the file under a fresh number or not at all; and `vfs_close` comes back and takes away
the file with the number and no other. -/
structure DescriptorsServed (code : FsCode ω π) (s : Vfs ω π) : Prop where
  descriptors : Descriptors s
  alloc : ∃ s' fd, vfsAllocFd s = some (s', fd) ∧
    (0 ≤ fd ∧ vfsFindFile s fd = none ∨
      fd = -EMFILE ∧ ∀ used, 0 ≤ used → used < intBound → (vfsFindFile s used).isSome)
  opens : ∀ path flags, (vfsLookup code s path).isSome →
    ∃ s' ret, vfsOpen code s path flags = some (s', ret) ∧
      (Opened s s' ret ∨ Refused s s' ret)
  closes : ∀ fd, ∃ s' ret, vfsClose s fd = some (s', ret) ∧
    s'.fileHead = s.fileHead.filter (·.fd ≠ fd)

/-- However many files are opened and closed, from any state with an `int` as its
counter, and so also behind `INT_MAX`. -/
theorem vfs_descriptors (honest : code.Honest) (start : Vfs ω π) (inv : FileInv start)
    (numbered : Descriptors start) (s : Vfs ω π)
    (run : (vfsLts code).Run (fun _ op => op.OnFiles) start s) : DescriptorsServed code s := by
  obtain ⟨inv, numbered⟩ : FileInv s ∧ Descriptors s := by
    refine run.invariant (fun s => FileInv s ∧ Descriptors s) ?_ ⟨inv, numbered⟩
    rintro s op s' ⟨inv, numbered⟩ onFiles taken
    exact ⟨inv.step honest taken, numbered.step honest inv onFiles taken⟩
  refine ⟨numbered, ?_, ?_, ?_⟩
  · obtain ⟨next, fd, result, -, -, number⟩ := vfsAllocFd_spec s numbered.counter
    refine ⟨_, fd, result, ?_⟩
    rcases number with ⟨low, -, free⟩ | full
    · exact Or.inl ⟨low, free⟩
    · exact Or.inr full
  · intro path flags search
    obtain ⟨found, search⟩ := Option.isSome_iff_exists.mp search
    obtain ⟨⟨s', ret⟩, done⟩ := Option.isSome_iff_exists.mp
      (vfsOpen_isSome honest inv numbered.counter search flags)
    exact ⟨s', ret, done, (vfsOpen_cases honest inv numbered.counter done).2⟩
  · intro fd
    obtain ⟨⟨s', ret⟩, done⟩ := Option.isSome_iff_exists.mp (vfsClose_isSome inv fd)
    exact ⟨s', ret, done, (vfsClose_fileHead numbered.distinct done).2⟩

/-! ## Behind `INT_MAX` -/

/-- The file /f is open under the number 0, and the counter is at `INT_MAX`. -/
def atLastFd : Vfs Unit Unit := { withOpenFile with nextFd := intBound - 1 }

/-- The file is opened for the second time. -/
def openTwice : Vfs Unit Unit :=
  ((vfsOpen dirFs atLastFd (some [47, 102]) 0).get (by rfl)).1

/-- The file is opened for the third time. -/
def openThrice : Vfs Unit Unit :=
  ((vfsOpen dirFs openTwice (some [47, 102]) 0).get (by rfl)).1

/-- The second file is closed. -/
def closedSecond : Vfs Unit Unit := ((vfsClose openThrice 2147483647).get (by rfl)).1

/-- The second file gets the number `INT_MAX`; then the counter wraps around to 0,
which is in use, and the third file gets the number 1. -/
theorem vfs_descriptors_openThrice :
    DescriptorsServed dirFs closedSecond ∧
      openThrice.fileHead.map VfsFileItem.fd = [1, 2147483647, 0] ∧
      closedSecond.fileHead.map VfsFileItem.fd = [1, 0] := by
  have inv : FileInv atLastFd :=
    (FileInv.reachable dirFs_honest withOpenFile_reachable).refiled
      ⟨rfl, rfl, rfl, rfl, rfl,
        (FileInv.reachable dirFs_honest withOpenFile_reachable).links.files⟩
  have second : VfsStep dirFs atLastFd (.openPath (some [47, 102]) 0) openTwice :=
    .openPath (show vfsOpen dirFs atLastFd (some [47, 102]) 0 =
      some (openTwice, 2147483647) from rfl)
  have third : VfsStep dirFs openTwice (.openPath (some [47, 102]) 0) openThrice :=
    .openPath (show vfsOpen dirFs openTwice (some [47, 102]) 0 = some (openThrice, 1) from rfl)
  have closed : VfsStep dirFs openThrice (.close 2147483647) closedSecond :=
    .close (show vfsClose openThrice 2147483647 = some (closedSecond, 0) from rfl)
  have run : (vfsLts dirFs).Run (fun _ op => op.OnFiles) atLastFd closedSecond :=
    ((Relation.ReflTransGen.single ⟨_, by trivial, second⟩).tail ⟨_, by trivial, third⟩).tail
      ⟨_, by trivial, closed⟩
  have numbered : Descriptors atLastFd := by
    have files : atLastFd.fileHead.map VfsFileItem.fd = [0] := rfl
    refine ⟨by decide, fun item member => ?_, by rw [files]; decide⟩
    have isFd : item.fd ∈ atLastFd.fileHead.map VfsFileItem.fd := List.mem_map_of_mem member
    rw [files, List.mem_singleton] at isFd
    rw [isFd]
    decide
  exact ⟨vfs_descriptors dirFs_honest atLastFd inv numbered closedSecond run, rfl, rfl⟩

end Zsbl.Common
