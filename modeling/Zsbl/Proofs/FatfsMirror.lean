/-
Module: Zsbl.Proofs.FatfsMirror
Purpose: Runs of lookups, opens and listings: two spellings of one name are the only way to two
  nodes for one entry of a FAT volume.
Trusted boundary: the contract FatFs.Shows of FatFs
Main exports:
  OneSpelling, StaysMirrored, fatLts, fatfs_mirrors
-/
import Zsbl.Proofs.FatfsListing

namespace Zsbl.Fs

open Zsbl.Common Zsbl.Lib

variable {ω φ δ ε : Type} {fat : FatFs ω φ δ} {volume : FatVolume ε}
  {Reading : δ → List (ε × FilInfo) → Prop} {s₀ s s' t : Vfs ω (FatfsPriv φ)}
  {mount : Nat → Vfs ω (FatfsPriv φ) → Option CStr → Option (FatfsPriv φ) →
      Option (Vfs ω (FatfsPriv φ) × MountSetup (FatfsPriv φ) × Int)}

/-! ## Runs -/

/-- The spellings that the code can stand: no name of a path is another spelling of the name of
an entry that has a node, and the nodes of a directory that is listed stand for its entries and
have their stored names. -/
def OneSpelling (volume : FatVolume ε) (code : FsCode ω (FatfsPriv φ)) (s : Vfs ω (FatfsPriv φ)) :
    FatOp ω (FatfsPriv φ) → Prop
  | .call op => ∀ path, op.path = some path → vfsIsPathValid (some path) = true →
      AlongPath code (fun s dir name => ¬Respells volume s dir name) s path
  | .list path => vfsIsPathValid (some path) = true →
      AlongPath code (fun s dir name => ¬Respells volume s dir name) s path ∧
        ∀ position, (resolve code s path).2 = some position →
          NamedAsStored volume (resolve code s path).1 position.1 ∧
            OwnEntries volume (resolve code s path).1 position.1

/-- What is to hold behind a step: one node for each entry, and a listed directory is mirrored. -/
def StaysMirrored (volume : FatVolume ε) (code : FsCode ω (FatfsPriv φ))
    (s s' : Vfs ω (FatfsPriv φ)) : FatOp ω (FatfsPriv φ) → Prop
  | .call _ => OneEach volume s'
  | .list path => OneEach volume s' ∧ (vfsIsPathValid (some path) = true → ∀ position,
      (resolve code s path).2 = some position → Mirrored volume s' position.1)

def fatLts (code : FsCode ω (FatfsPriv φ)) (fat : FatFs ω φ δ) :
    Lts (Vfs ω (FatfsPriv φ)) (FatOp ω (FatfsPriv φ)) where
  init := FatStart
  step := FatStep code fat

theorem StaysMirrored.oneEach {code : FsCode ω (FatfsPriv φ)} {op : FatOp ω (FatfsPriv φ)}
    (stays : StaysMirrored volume code s s' op) : OneEach volume s' := by
  cases op with
  | call op => exact stays
  | list path => exact stays.1

/-- A call keeps one node for each entry exactly if it looks no entry up in a second spelling.
-/
theorem call_oneEach (shows : fat.Shows volume Reading) (start : FatStart s₀)
    (filling : Filling (fatfsCode fat mount) (fatContents fat volume) s₀ s)
    (each : OneEach volume s) {op : VfsOp ω (FatfsPriv φ)} (access : op.Access)
    (taken : VfsStep (fatfsCode fat mount) s op s') :
    OneEach volume s' ↔ OneSpelling volume (fatfsCode fat mount) s (.call op) := by
  have materialises := (fatfsCode_serves mount shows).materialises
  obtain ⟨t, found, search, only, -⟩ := taken.access materialises filling.inv filling.roomy access
  rw [oneEach_only only]
  unfold OneSpelling
  cases isPath : op.path with
  | none =>
      rw [isPath] at search
      obtain ⟨rfl, -⟩ := Prod.mk.inj (Option.some.inj search)
      simp [each, isPath]
  | some path =>
      rw [isPath] at search
      by_cases absolute : vfsIsPathValid (some path) = true
      · rw [vfsLookup_eq materialises filling.inv.names filling.roomy absolute] at search
        obtain ⟨rfl, -⟩ := Prod.mk.inj (Option.some.inj search)
        rw [resolve_oneEach shows start.ready start.root filling each]
        simp [absolute, isPath]
      · rw [Bool.not_eq_true] at absolute
        simp only [vfsLookup, absolute, Bool.not_false, if_true] at search
        obtain ⟨rfl, -⟩ := Prod.mk.inj (Option.some.inj search)
        simp [each, absolute, isPath]

/-- So does a listing, if the nodes of the directory are named as stored. -/
theorem list_oneEach (shows : fat.Shows volume Reading) (start : FatStart s₀)
    (filling : Filling (fatfsCode fat mount) (fatContents fat volume) s₀ s)
    (each : OneEach volume s) {path : CStr} {fuel : Nat}
    (done : commandLs (fatfsCode fat mount) (fatfsIterateAt fat fuel) s path = some s') :
    Filling (fatfsCode fat mount) (fatContents fat volume) s₀ s' ∧
      (StaysMirrored volume (fatfsCode fat mount) s s' (.list path) ↔
        OneSpelling volume (fatfsCode fat mount) s (.list path)) := by
  by_cases absolute : vfsIsPathValid (some path) = true
  · have walk := resolve_oneEach shows start.ready start.root filling each path
    have filling₁ := (resolve_filling shows start.inv filling path).1
    have listing := commandLs_listing shows start filling absolute done
    simp only [OneSpelling, StaysMirrored, absolute, forall_true_left, ← walk]
    clear walk
    generalize resolve (fatfsCode fat mount) s path = result at filling₁ listing ⊢
    obtain ⟨t, found⟩ := result
    cases found with
    | none =>
        obtain rfl : s' = t := listing
        exact ⟨filling₁, by simp⟩
    | some position =>
        obtain ⟨filling', each', mirrored⟩ := listing
        refine ⟨filling', ?_⟩
        simp only [Option.some.injEq, forall_eq']
        constructor
        · rintro ⟨kept, mirrors⟩
          obtain ⟨before, named⟩ := each'.mp kept
          exact ⟨before, named, (mirrored kept).mp mirrors⟩
        · rintro ⟨before, named, own⟩
          have kept := each'.mpr ⟨before, named⟩
          exact ⟨kept, (mirrored kept).mpr own⟩
  · have unchanged : s' = s := by
      simp only [commandLs, absolute, Bool.not_false, if_true] at done
      exact (Option.some.inj done).symm
    subst unchanged
    exact ⟨filling, by simp [OneSpelling, StaysMirrored, absolute, each]⟩

theorem FatStart.oneEach (start : FatStart s) : OneEach volume s := by
  rintro dir id id' entry ⟨m, mnt, mntLive, sops, under⟩ ⟨node, path, info, live, parent, -⟩ -
  have top := start.bare id node ⟨m, mnt, mntLive, sops, .child live parent under⟩ live
  rw [top] at parent
  cases parent

/-- At the start no entry has a node. -/
theorem FatStart.not_respells (start : FatStart s) (dir : Nat) (name : CStr) :
    ¬Respells volume s dir name := by
  rintro ⟨-, -, m, path, entry, id, fatDir, -, -, node, path', info, live, parent, -⟩
  obtain ⟨m', mnt, mntLive, sops, under⟩ := fatDir.inFat
  have top := start.bare id node ⟨m', mnt, mntLive, sops, .child live parent under⟩ live
  rw [top] at parent
  cases parent

/-- In runs of lookups, opens and listings, each entry has one node as long as it has one
spelling: a step keeps to one node for each entry, and a listing leaves the nodes of the directory
one to one with its entries, if and only if no entry gets a second spelling and the nodes of a
listed directory stand for its entries. -/
theorem fatfs_mirrors (shows : fat.Shows volume Reading) (s : Vfs ω (FatfsPriv φ))
    (reached : (fatLts (fatfsCode fat mount) fat).ReachableWhile
      (OneSpelling volume (fatfsCode fat mount)) s) :
    OneEach volume s ∧
      (∀ op s', FatStep (fatfsCode fat mount) fat s op s' →
        (StaysMirrored volume (fatfsCode fat mount) s s' op ↔
          OneSpelling volume (fatfsCode fat mount) s op)) ∧
      ∀ m dir path list, FatDir s m dir path → volume.entries path = some list →
        ∃ s', (∀ fuel mnt, fatfsIterate fat fuel s mnt dir =
            if list.length < fuel then some (s', 0) else none) ∧
          (Mirrors volume s' dir path list ↔
            NamedAsStored volume s dir ∧ OwnEntries volume s dir) := by
  have step {s₀ s s' : Vfs ω (FatfsPriv φ)} {op : FatOp ω (FatfsPriv φ)} (start : FatStart s₀)
      (filling : Filling (fatfsCode fat mount) (fatContents fat volume) s₀ s)
      (each : OneEach volume s) (taken : FatStep (fatfsCode fat mount) fat s op s') :
      Filling (fatfsCode fat mount) (fatContents fat volume) s₀ s' ∧
        (StaysMirrored volume (fatfsCode fat mount) s s' op ↔
          OneSpelling volume (fatfsCode fat mount) s op) := by
    cases taken with
    | call access taken =>
        exact ⟨filling.access (fatfsCode_serves mount shows) access taken,
          call_oneEach shows start filling each access taken⟩
    | list done => exact list_oneEach shows start filling each done
  have there : ∃ s₀, FatStart s₀ ∧
      Filling (fatfsCode fat mount) (fatContents fat volume) s₀ s ∧ OneEach volume s := by
    apply reached.invariant fun s => ∃ s₀, FatStart s₀ ∧
      Filling (fatfsCode fat mount) (fatContents fat volume) s₀ s ∧ OneEach volume s
    · intro s start
      exact ⟨s, start, ⟨.refl s, start.inv, start.roomy⟩, start.oneEach⟩
    · rintro s op s' - ⟨s₀, start, filling, each⟩ spelled taken
      obtain ⟨filling', iff⟩ := step start filling each taken
      exact ⟨s₀, start, filling', (iff.mpr spelled).oneEach⟩
  obtain ⟨s₀, start, filling, each⟩ := there
  refine ⟨each, fun op s' taken => (step start filling each taken).2, ?_⟩
  intro m dir path list fatDir listed
  obtain ⟨s', done, -, mirrors⟩ := fatfsIterate_listing shows start listed filling fatDir
  exact ⟨s', done, mirrors each⟩

/-! ## A volume with one file -/

/-- FatFs on a volume; a `DIR` has the entries that are yet to come. -/
def showing (volume : FatVolume ε) : FatFs Unit Unit (List (ε × FilInfo)) where
  mallocFil world := (world, true)
  fOpen world _ _ := (world, (), FR_OK)
  fLseek world fil _ := (world, fil, FR_OK)
  fRead world fil _ := (world, fil, FR_OK, [])
  fClose world _ := world
  fStat world path :=
    match volume.stat path with
    | some entry => (world, entry.2, FR_OK)
    | none => (world, ⟨[], 0⟩, FR_OK + 1)
  fOpendir world path :=
    match volume.entries path with
    | some list => (world, list, FR_OK)
    | none => (world, [], FR_OK + 1)
  fReaddir world dir :=
    match dir with
    | [] => (world, [], ⟨[], 0⟩, FR_OK)
    | entry :: rest => (world, rest, entry.2, FR_OK)
  fClosedir world _ := world

/-- The contract of FatFs has an instance. -/
theorem showing_shows (volume : FatVolume ε) : (showing volume).Shows volume Eq where
  found world path entry found := ⟨world, by simp [showing, found]⟩
  missing world path missing := by simp [showing, missing]
  opened world path list listed := ⟨world, list, by simp [showing, listed], rfl⟩
  unopened world path unlisted := by simp [showing, unlisted]
  next := by
    rintro world _ entry rest rfl
    exact ⟨world, rest, rfl, rfl⟩
  fin := by
    rintro world _ rfl
    rfl

/-- The file X in the root directory of the volume 0:, under any case of its path. -/
def fileX : FatVolume Unit where
  stat path := if path.map upper = [48, 58, 47, 88] then some ((), ⟨[88], 0⟩) else none
  entries path := if path.map upper = [48, 58] then some [((), ⟨[88], 0⟩)] else none
  once := by
    intro dir list listed
    obtain ⟨-, same⟩ := Option.ite_none_right_eq_some.mp listed
    obtain rfl := Option.some.inj same
    decide
  stored := by
    intro dir list entry listed member
    obtain ⟨isRoot, same⟩ := Option.ite_none_right_eq_some.mp listed
    obtain rfl := Option.some.inj same
    obtain rfl := List.mem_singleton.mp member
    refine ⟨by decide, if_pos ?_⟩
    simp only [entryPath, List.map_append, List.map_cons, isRoot]
    decide

/-- The one file has a plain name. -/
theorem fileX_keepsPlain : fileX.KeepsPlain := by
  intro dir name entry valid plain found
  obtain ⟨isX, same⟩ := Option.ite_none_right_eq_some.mp found
  obtain rfl := Option.some.inj same
  have isRoot : dir.map upper = [48, 58] := by
    have isSlash : upper slash = 47 := by decide
    simp only [entryPath, List.map_append, List.map_cons, isSlash] at isX
    generalize dir.map upper = start at isX ⊢
    match start with
    | [] => simp at isX
    | [a] => simp at isX
    | [a, b] => simp_all
    | [a, b, c] => simp at isX
    | a :: b :: c :: d :: rest => simp at isX
  exact ⟨_, if_pos isRoot, List.mem_singleton_self _⟩

theorem fileX_foldsCase : fileX.FoldsCase := by
  intro path path' same
  simp only [fileX, same]

/-- `fatfs_mount`, when the volume has been mounted as 0:. -/
def mountVolume0 (_ : Nat) (s : Vfs Unit (FatfsPriv Unit)) (_ : Option CStr)
    (_ : Option (FatfsPriv Unit)) :
    Option (Vfs Unit (FatfsPriv Unit) × MountSetup (FatfsPriv Unit) × Int) :=
  match vfsAllocDirNode s [102, 97, 116, 102, 115] with
  | (s, none) => some (s, ⟨none, none, none⟩, -ENOMEM)
  | (s, some root) => do
      let node ← s.nodes root
      return (s.setNode root { node with priv := some (.path [48, 58]) },
        ⟨some root, some fatfsSops, none⟩, 0)

/-- The VFS with the directory /a and the file system. -/
def withFatfs : Vfs Unit (FatfsPriv Unit) :=
  let s := (vfsInit (vfsStatic (fun _ => true) ())).1
  let s := ((vfsMkdir s (some 0) [97]).get (by rfl)).1
  (vfsRegisterFilesystem s (some ⟨some [102], 1, some 0⟩)).1

/-- The volume is mounted on /a. -/
def withFat : Vfs Unit (FatfsPriv Unit) :=
  ((vfsMount (fatfsCode (showing fileX) mountVolume0) withFatfs none (some [47, 97]) none
    none).get (by rfl)).1

/-- /a/x has been looked up. -/
def withLower : Vfs Unit (FatfsPriv Unit) :=
  ((vfsLookup (fatfsCode (showing fileX) mountVolume0) withFat (some [47, 97, 47, 120])).get
    (by rfl)).1

/-- And then /a/X. -/
def withBoth : Vfs Unit (FatfsPriv Unit) :=
  ((vfsLookup (fatfsCode (showing fileX) mountVolume0) withLower (some [47, 97, 47, 88])).get
    (by rfl)).1

/-- The mount alone, without lookups. -/
def mounting : FsCode Unit (FatfsPriv Unit) := ⟨mountVolume0, fun _ => none, fun _ => none⟩

/-- The mount callback keeps the contract. -/
theorem mounting_honest : mounting.Honest where
  mount := by
    intro address s source data s' setup ret done
    have builds : Builds s (vfsAllocDirNode s [102, 97, 116, 102, 115]).1 := .single (.allocDir s _)
    unfold mounting mountVolume0 at done
    rcases vfsAllocNode_cases s [102, 97, 116, 102, 115] .dir none none with
      ⟨s₁, result, -⟩ | ⟨s₁, result, grown⟩
    · have alloc : vfsAllocDirNode s [102, 97, 116, 102, 115] = (s₁, none) := result
      simp only [alloc] at done builds
      obtain ⟨rfl, same⟩ := Prod.mk.inj (Option.some.inj done)
      obtain ⟨rfl, -⟩ := Prod.mk.inj same
      exact ⟨builds, by simp⟩
    · have alloc : vfsAllocDirNode s [102, 97, 116, 102, 115] = (s₁, some s.nextNode) := result
      have live : s₁.nodes s.nextNode =
          some (freshNode [102, 97, 116, 102, 115] .dir none none) := by
        rw [grown.nodes, Function.update_self]
      simp only [alloc, live] at done builds
      obtain ⟨rfl, same⟩ := Prod.mk.inj (Option.some.inj done)
      obtain ⟨rfl, -⟩ := Prod.mk.inj same
      refine ⟨builds.tail (.setPriv _ live), fun root isRoot => ?_⟩
      obtain rfl := Option.some.inj isRoot
      exact ⟨Nat.le_refl _, _, Function.update_self .., rfl, rfl⟩
  lookup := by simp [mounting]
  umount := by simp [mounting]

/-- The state after the mount is well formed. -/
theorem withFat_inv : FileInv withFat := by
  apply FileInv.reachable mounting_honest
  let s₀ : Vfs Unit (FatfsPriv Unit) := (vfsInit (vfsStatic (fun _ => true) ())).1
  have start : (vfsLts mounting).Reachable s₀ := .initial ⟨_, _, rfl⟩
  let s₁ : Vfs Unit (FatfsPriv Unit) := ((vfsMkdir s₀ (some 0) [97]).get (by rfl)).1
  have mkdir : VfsStep mounting s₀ (.mkdir (some 0) [97]) s₁ := by
    refine .mkdir (fun id same => ?_) (show vfsMkdir s₀ (some 0) [97] = some (s₁, some 1) from rfl)
    obtain rfl := Option.some.inj same
    rfl
  have register : VfsStep mounting s₁ (.registerFilesystem (some ⟨some [102], 1, some 0⟩))
      withFatfs := .registerFilesystem rfl
  have mount : VfsStep mounting withFatfs (.mount none (some [47, 97]) none none) withFat :=
    .mount (show vfsMount mounting withFatfs none (some [47, 97]) none none =
      some (withFat, 0) from rfl)
  exact ((start.step trivial mkdir).step trivial register).step trivial mount

/-- The mounted volume is a start of the runs considered. -/
theorem withFat_start : FatStart withFat where
  inv := withFat_inv
  roomy _ := rfl
  ready := rfl
  root := rfl
  bare := by
    rintro id node ⟨m, mnt, mntLive, -, under⟩ live
    have isMount : m = 0 := by
      by_contra other
      have gone : withFat.mounts m = none := Function.update_of_ne other ..
      rw [gone] at mntLive
      cases mntLive
    subst isMount
    obtain rfl : mnt = ⟨1, 2, some fatfsSops, none⟩ := (Option.some.inj mntLive).symm
    rcases under.root_or_kid withFat_inv.tree with rfl | ⟨kid, member, -⟩
    · obtain rfl := Option.some.inj live
      rfl
    · have childless : withFat.kids 2 = [] := by rfl
      rw [childless] at member
      cases member

/-- After the first lookup, with another case than is stored, the entry has its one node. -/
theorem fatfs_mirrors_withLower : OneEach fileX withLower ∧
    ∃ s', fatfsIterate (showing fileX) 2 withLower ⟨1, 2, some fatfsSops, none⟩ 2 = some (s', 0) ∧
      (Mirrors fileX s' 2 [48, 58] [((), ⟨[88], 0⟩)] ↔
        NamedAsStored fileX withLower 2 ∧ OwnEntries fileX withLower 2) := by
  have look : vfsLookup (fatfsCode (showing fileX) mountVolume0) withFat
    (some [47, 97, 47, 120]) = some (withLower, some 3) := rfl
  have spelled : OneSpelling fileX (fatfsCode (showing fileX) mountVolume0) withFat
      (.call (.lookup (some [47, 97, 47, 120]))) := by
    rintro path same -
    obtain rfl := Option.some.inj same
    exact ⟨withFat_start.not_respells 0 [97], withFat_start.not_respells 2 [120], trivial⟩
  have reached : (fatLts (fatfsCode (showing fileX) mountVolume0) (showing fileX)).ReachableWhile
      (OneSpelling fileX (fatfsCode (showing fileX) mountVolume0)) withLower :=
    .step (.initial withFat_start) spelled (.call trivial (.lookup look))
  obtain ⟨each, -, lists⟩ := fatfs_mirrors (showing_shows fileX) withLower reached
  have fatDir : FatDir withLower 0 2 [48, 58] := ⟨⟨_, rfl, rfl, rfl⟩, _, rfl, rfl, .self⟩
  obtain ⟨s', done, mirrors⟩ := lists 0 2 [48, 58] _ fatDir rfl
  exact ⟨each, s', done 2 _, mirrors⟩

/-- The lookups of /a/x and /a/X leave two nodes for the one entry. -/
theorem spellings_collide :
    ¬ ∀ (volume : FatVolume Unit) (fat : FatFs Unit Unit (List (Unit × FilInfo)))
      (Reading : List (Unit × FilInfo) → List (Unit × FilInfo) → Prop),
      volume.FoldsCase → volume.KeepsPlain → fat.Shows volume Reading →
      ∀ mount s, (fatLts (fatfsCode fat mount) fat).Reachable s → OneEach volume s := by
  intro unique
  have lower : vfsLookup (fatfsCode (showing fileX) mountVolume0) withFat
    (some [47, 97, 47, 120]) = some (withLower, some 3) := rfl
  have both : vfsLookup (fatfsCode (showing fileX) mountVolume0) withLower
    (some [47, 97, 47, 88]) = some (withBoth, some 4) := rfl
  have start : (fatLts (fatfsCode (showing fileX) mountVolume0) (showing fileX)).Reachable
      withFat := .initial withFat_start
  have first : FatStep (fatfsCode (showing fileX) mountVolume0) (showing fileX) withFat
      (.call (.lookup (some [47, 97, 47, 120]))) withLower := .call trivial (.lookup lower)
  have second : FatStep (fatfsCode (showing fileX) mountVolume0) (showing fileX) withLower
      (.call (.lookup (some [47, 97, 47, 88]))) withBoth := .call trivial (.lookup both)
  have reached := (start.step trivial first).step trivial second
  have each := unique fileX (showing fileX) Eq fileX_foldsCase fileX_keepsPlain
    (showing_shows fileX) mountVolume0 withBoth reached
  have inFat : InFat withBoth 2 := ⟨0, _, rfl, rfl, .self⟩
  have same := each 2 3 4 () inFat ⟨_, _, ⟨[88], 0⟩, rfl, rfl, rfl, rfl⟩
    ⟨_, _, ⟨[88], 0⟩, rfl, rfl, rfl, rfl⟩
  exact absurd same (by decide)

end Zsbl.Fs
