/-
Module: Zsbl.Proofs.FatfsTree
Purpose: The nodes that lookups create for the entries of FAT volumes, and when a lookup creates
  a second node for an entry.
Trusted boundary: the contract FatFs.Shows of FatFs
Main exports:
  fatfsCode_serves, FatDir, Respells, childOutcome_oneEach, AlongPath, resolve_oneEach
-/
import Zsbl.Fs.FatVolume
import Zsbl.Proofs.VfsAccess

namespace Zsbl.Fs

open Zsbl.Common Zsbl.Lib

variable {ω φ δ ε : Type} {fat : FatFs ω φ δ} {volume : FatVolume ε}
  {Reading : δ → List (ε × FilInfo) → Prop} {s₀ s s' t : Vfs ω (FatfsPriv φ)}
  {mount : Nat → Vfs ω (FatfsPriv φ) → Option CStr → Option (FatfsPriv φ) →
      Option (Vfs ω (FatfsPriv φ) × MountSetup (FatfsPriv φ) × Int)}

/-! ## What the adapter serves -/

/-- A short path at which there is an entry is served. -/
theorem fatContents_some {address : Nat} {mnt : VfsMount (FatfsPriv φ)}
    {priv : Option (FatfsPriv φ)} {name : CStr} {entry : Entry ω (FatfsPriv φ)} :
    fatContents fat volume address mnt priv name = some entry ↔
      ∃ path found, priv = some (.path path) ∧ (entryPath path name).length < FATFS_PATH_MAX ∧
        volume.stat (entryPath path name) = some found ∧
        entry = entryNode fat (entryPath path name) found.2 := by
  constructor
  · intro has
    unfold fatContents at has
    split at has
    · next path =>
      split at has
      · cases has
      · next short =>
        obtain ⟨found, isFound, rfl⟩ := Option.map_eq_some_iff.mp has
        exact ⟨path, found, rfl, Nat.lt_of_not_ge short, isFound, rfl⟩
    · cases has
  · rintro ⟨path, found, rfl, short, isFound, rfl⟩
    simp [fatContents, Nat.not_le.mpr short, isFound]

theorem entryNode_hasOps (path : CStr) (info : FilInfo) :
    (entryNode fat path info).type = .dir ∨ (entryNode fat path info).fops.isSome := by
  cases isDir : info.isDir <;> simp [entryNode, isDir]

theorem fatfsMakeNode_eq (roomy : s.Roomy) (dir : Nat) (name path : CStr) (info : FilInfo) :
    fatfsMakeNode fat s dir name path info.isDir =
      vfsMknod s (some dir) name (entryNode fat path info).type (entryNode fat path info).fops
        (entryNode fat path info).priv := by
  simp [fatfsMakeNode, roomy.malloc, entryNode]

theorem fatfsCode_lookup {address : Nat} : ((fatfsCode fat mount).lookup address).isSome ↔
    address = fatfsSops := by
  by_cases isSops : address = fatfsSops <;> simp [fatfsCode, isSops]

variable (mount) in
/-- The lookups of fatfs.c serve the contents of the volume. -/
theorem fatfsCode_serves (shows : fat.Shows volume Reading) :
    (fatfsCode fat mount).Serves (fatContents fat volume) := by
  intro address lookup s mnt dir node name isLookup roomy unused live
  have isSops := fatfsCode_lookup.mp (Option.isSome_iff_exists.mpr ⟨lookup, isLookup⟩)
  subst isSops
  obtain rfl := Option.some.inj isLookup
  simp only [fatfsLookup, live, Option.bind_eq_bind, Option.bind_some, fatContents]
  generalize node.priv = priv
  cases priv with
  | none => exact ⟨s.world, rfl⟩
  | some priv =>
    cases priv with
    | fil fil => exact ⟨s.world, rfl⟩
    | path parent =>
      by_cases long : (entryPath parent name).length ≥ FATFS_PATH_MAX
      · exact ⟨s.world, by simp only [if_pos long]; rfl⟩
      · cases found : volume.stat (entryPath parent name) with
        | none =>
            have failed := shows.missing s.world _ found
            exact ⟨(fat.fStat s.world (entryPath parent name)).1,
              by simp [if_neg long, failed, found]⟩
        | some entry =>
            obtain ⟨world, isFound⟩ := shows.found s.world _ entry found
            have room : Vfs.Roomy { s with world := world } := roomy
            refine ⟨world, ?_⟩
            simp only [if_neg long, found, isFound, ne_eq, not_true, if_false, Option.map_some]
            exact fatfsMakeNode_eq room dir name _ entry.2

/-! ## A name that is looked up -/

/-- The node is a directory of a FAT volume with a path. -/
structure FatDir (s : Vfs ω (FatfsPriv φ)) (m dir : Nat) (path : CStr) : Prop where
  node : ∃ node, s.nodes dir = some node ∧ node.type = .dir ∧ node.priv = some (.path path)
  mount : ∃ mnt, s.mounts m = some mnt ∧ mnt.sops = some fatfsSops ∧ Under s mnt.root dir

/-- Another spelling of the name of an entry that has a node in the directory. -/
def Respells (volume : FatVolume ε) (s : Vfs ω (FatfsPriv φ)) (dir : Nat) (name : CStr) : Prop :=
  vfsNameValid name = true ∧ childNamed s dir name = none ∧
    ∃ m path entry id, FatDir s m dir path ∧ (entryPath path name).length < FATFS_PATH_MAX ∧
      volume.stat (entryPath path name) = some entry ∧ StandsFor volume s dir id entry.1

section Filled

variable {code : FsCode ω (FatfsPriv φ)} {contents : Contents ω (FatfsPriv φ)}

theorem InFat.filled (filled : Filled code contents s t) {id : Nat} (inFat : InFat s id) :
    InFat t id := by
  obtain ⟨m, mnt, live, sops, under⟩ := inFat
  exact ⟨m, mnt, by rw [filled.mounts, live], sops, filled.under under⟩

theorem InFat.filled_old (filled : Filled code contents s t) (inv : TreeInv s) {id : Nat}
    (inFat : InFat t id) (old : (s.nodes id).isSome) : InFat s id := by
  obtain ⟨m, mnt, live, sops, under⟩ := inFat
  rw [filled.mounts] at live
  exact ⟨m, mnt, live, sops, filled.under_old inv under old⟩

/-- Lookups leave a directory one of the volume. -/
theorem FatDir.filled (filled : Filled code contents s t) {m dir : Nat} {path : CStr}
    (fatDir : FatDir s m dir path) : FatDir t m dir path where
  node := by
    obtain ⟨node, live, isDir, priv⟩ := fatDir.node
    obtain ⟨child, live'⟩ := filled.old dir node live
    exact ⟨_, live', isDir, priv⟩
  mount := by
    obtain ⟨mnt, live, sops, under⟩ := fatDir.mount
    exact ⟨mnt, by rw [filled.mounts, live], sops, filled.under under⟩

theorem FatDir.inFat {m dir : Nat} {path : CStr} (fatDir : FatDir s m dir path) : InFat s dir := by
  obtain ⟨mnt, live, sops, under⟩ := fatDir.mount
  exact ⟨m, mnt, live, sops, under⟩

theorem FatDir.path_eq {m m' dir : Nat} {path path' : CStr} (fatDir : FatDir s m dir path)
    (fatDir' : FatDir s m' dir path') : path' = path := by
  obtain ⟨node, live, -, priv⟩ := fatDir.node
  obtain ⟨node', live', -, priv'⟩ := fatDir'.node
  obtain rfl := Option.some.inj (live.symm.trans live')
  rw [priv] at priv'
  cases priv'
  rfl

theorem StandsFor.filled (filled : Filled code contents s t) {dir id : Nat} {entry : ε}
    (stands : StandsFor volume s dir id entry) : StandsFor volume t dir id entry := by
  obtain ⟨node, path, info, live, parent, priv, found⟩ := stands
  obtain ⟨child, live'⟩ := filled.old id node live
  exact ⟨_, path, info, live', parent, priv, found⟩

theorem StandsFor.filled_old (filled : Filled code contents s t) {dir id : Nat} {entry : ε}
    (stands : StandsFor volume t dir id entry) (old : (s.nodes id).isSome) :
    StandsFor volume s dir id entry := by
  obtain ⟨node, path, info, live, parent, priv, found⟩ := stands
  obtain ⟨before, was⟩ := Option.isSome_iff_exists.mp old
  obtain ⟨child, same⟩ := filled.old id before was
  obtain rfl := Option.some.inj (live.symm.trans same)
  exact ⟨before, path, info, was, parent, priv, found⟩

/-- Two nodes for one entry stay two. -/
theorem OneEach.before (filled : Filled code contents s t) (each : OneEach volume t) :
    OneEach volume s := by
  intro dir id id' entry inFat stands stands'
  exact each dir id id' entry (inFat.filled filled) (stands.filled filled) (stands'.filled filled)

end Filled

/-- Open files, the media and the drivers make no difference. -/
theorem oneEach_only (only : FilesOnly s s') : OneEach volume s' ↔ OneEach volume s := by
  obtain ⟨world, files, next, rfl⟩ := only
  let code : FsCode ω (FatfsPriv φ) := ⟨fun _ _ _ _ => none, fun _ => none, fun _ => none⟩
  have aside : Filled code (fun _ _ _ _ => none) s
      { s with world := world, fileHead := files, nextFd := next } := .of_same rfl rfl rfl rfl rfl
  have back : Filled code (fun _ _ _ _ => none)
      { s with world := world, fileHead := files, nextFd := next } s := .of_same rfl rfl rfl rfl rfl
  exact ⟨.before aside, .before back⟩

/-- The node that is created for an entry stands for it, and the others stand for what they
stood for. -/
theorem standsFor_grown (inv : TreeInv s) {world : ω} {above : Nat}
    {dir : VfsNode ω (FatfsPriv φ)} (live : s.nodes above = some dir) {name path : CStr}
    {type : VfsNodeType} {fops : Option (FileOps ω (FatfsPriv φ))}
    (grown : Grown { s with world := world } s'
      (withChild s above dir (freshNode name type fops (some (.path path)))))
    {found : ε × FilInfo} (isFound : volume.stat path = some found) {dir' id : Nat} {entry : ε} :
    StandsFor volume s' dir' id entry ↔
      StandsFor volume s dir' id entry ∨ (id = s.nextNode ∧ dir' = above ∧ entry = found.1) := by
  have isNew := @withChild_new _ _ s above dir (freshNode name type fops (some (.path path)))
    (Nat.ne_of_gt (inv.lt above dir live))
  constructor
  · rintro ⟨node, path', info, is, parent, priv, isFound'⟩
    rw [grown.nodes] at is
    by_cases ne : id = s.nextNode
    · subst ne
      obtain rfl := Option.some.inj (is.symm.trans isNew)
      cases priv
      rw [isFound] at isFound'
      cases isFound'
      exact Or.inr ⟨rfl, (Option.some.inj parent).symm, rfl⟩
    · obtain ⟨child, same⟩ := withChild_old (freshNode name type fops (some (.path path))) live ne
      rw [same] at is
      obtain ⟨before, was, rfl⟩ := Option.map_eq_some_iff.mp is
      exact Or.inl ⟨before, path', info, was, parent, priv, isFound'⟩
  · rintro (⟨node, path', info, was, parent, priv, isFound'⟩ | ⟨rfl, rfl, rfl⟩)
    · obtain ⟨child, same⟩ := withChild_old (freshNode name type fops (some (.path path))) live
        (Nat.ne_of_lt (inv.lt id node was))
      rw [was, ← grown.nodes] at same
      exact ⟨_, path', info, same, parent, priv, isFound'⟩
    · rw [← grown.nodes] at isNew
      exact ⟨_, path, found.2, isNew, rfl, rfl, isFound⟩

theorem StandsFor.live {dir id : Nat} {entry : ε} (stands : StandsFor volume s dir id entry) :
    (s.nodes id).isSome := by
  obtain ⟨node, path, info, live, -⟩ := stands
  simp [live]

theorem StandsFor.dir_live (inv : TreeInv s) {dir id : Nat} {entry : ε}
    (stands : StandsFor volume s dir id entry) : (s.nodes dir).isSome := by
  obtain ⟨node, path, info, live, parent, -⟩ := stands
  obtain ⟨-, above, aboveLive, -⟩ := inv.parent id node dir live parent
  simp [aboveLive]

/-- A name that is spelled in another way is on offer. -/
theorem Respells.offered {mnt : Option Nat} {above : Nat} {dir : VfsNode ω (FatfsPriv φ)}
    {name : CStr} (respells : Respells volume s above name) (inv : FileInv s)
    (live : s.nodes above = some dir) (inside : Inside s mnt above) (ready : s.ready = true)
    (root : s.rootNode.isSome) :
    ∃ entry, Offered (fatfsCode fat mount) (fatContents fat volume) s mnt dir name entry := by
  obtain ⟨valid, -, m, path, entry, id, fatDir, short, found, -⟩ := respells
  obtain ⟨mnt', mntLive, sops, under⟩ := fatDir.mount
  obtain ⟨node, nodeLive, isDir, priv⟩ := fatDir.node
  obtain rfl := Option.some.inj (live.symm.trans nodeLive)
  have isMnt : mnt = some m := inv.inside_eq inside ⟨mnt', mntLive, under⟩
  refine ⟨entryNode fat (entryPath path name) entry.2,
    ⟨m, mnt', fatfsSops, isMnt, mntLive, sops, fatfsCode_lookup.mpr rfl, ?_⟩,
    ready, root, valid, isDir, entryNode_hasOps _ _⟩
  exact fatContents_some.mpr ⟨path, entry, priv, short, found, rfl⟩

/-- A lookup in a directory keeps to one node for each entry, but for another spelling of
the name of an entry that has one. -/
theorem childOutcome_oneEach {mnt : Option Nat} {above : Nat}
    {dir : VfsNode ω (FatfsPriv φ)} {name : CStr}
    {result : Vfs ω (FatfsPriv φ) × Option Nat}
    (outcome : ChildOutcome (fatfsCode fat mount) (fatContents fat volume) s mnt above dir name
      result)
    (inv : FileInv s) (live : s.nodes above = some dir) (inside : Inside s mnt above)
    (ready : s.ready = true) (root : s.rootNode.isSome) (each : OneEach volume s) :
    OneEach volume result.1 ↔ ¬Respells volume s above name := by
  have filled := outcome.filled inv.tree live inside
  cases outcome with
  | there found =>
      refine ⟨fun _ respells => ?_, fun _ => each⟩
      rw [respells.2.1] at found
      cases found
  | refused missing nothing world =>
      refine ⟨fun _ respells => ?_, fun _ => ?_⟩
      · obtain ⟨entry, offered⟩ := respells.offered inv live inside ready root
        exact nothing entry offered
      · exact (oneEach_only ⟨world, s.fileHead, s.nextFd, rfl⟩).mpr each
  | @served entry world s' missing offered grown =>
      obtain ⟨m, mnt', address, rfl, mntLive, sops, isLookup, has⟩ := offered.has
      obtain rfl := fatfsCode_lookup.mp isLookup
      obtain ⟨path, found, priv, short, isFound, rfl⟩ := fatContents_some.mp has
      obtain ⟨mnt'', mntLive', under⟩ := inside
      obtain rfl := Option.some.inj (mntLive.symm.trans mntLive')
      have fatDir : FatDir s m above path :=
        ⟨⟨dir, live, offered.creatable.isDir, priv⟩, mnt', mntLive, sops, under⟩
      have stands {dir' id : Nat} {entry : ε} := @standsFor_grown _ _ _ volume _ _ inv.tree world
        above dir live name _ _ _ grown found isFound dir' id entry
      have notNew {dir' : Nat} {entry : ε} (isNew : StandsFor volume s dir' s.nextNode entry) :
          False := by
        have live := isNew.live
        rw [inv.tree.fresh] at live
        cases live
      constructor
      · rintro each' ⟨-, -, m', path', entry, id, fatDir', -, isFound', already⟩
        obtain rfl := fatDir.path_eq fatDir'
        obtain rfl := Option.some.inj (isFound.symm.trans isFound')
        have same : id = s.nextNode := each' above id s.nextNode found.1
          (fatDir.inFat.filled filled) (stands.mpr (Or.inl already))
          (stands.mpr (Or.inr ⟨rfl, rfl, rfl⟩))
        subst same
        exact notNew already
      · intro unspelled dir' id id' entry inFat' first second
        have respelled {id : Nat} (already : StandsFor volume s above id found.1) : False :=
          unspelled ⟨offered.creatable.valid, missing, m, path, found, id, fatDir, short, isFound,
            already⟩
        rcases stands.mp first with first | ⟨rfl, rfl, rfl⟩
        · rcases stands.mp second with second | ⟨rfl, rfl, rfl⟩
          · exact each dir' id id' entry (inFat'.filled_old filled inv.tree
              (first.dir_live inv.tree)) first second
          · exact absurd first respelled
        · rcases stands.mp second with second | ⟨rfl, -, -⟩
          · exact absurd second respelled
          · rfl

/-! ## A path that is looked up -/

/-- Each name of a walk meets the condition, in the state and the directory where it is
looked up. -/
def Along (code : FsCode ω (FatfsPriv φ)) (ok : Vfs ω (FatfsPriv φ) → Nat → CStr → Prop) :
    Vfs ω (FatfsPriv φ) × Option (Nat × Option Nat) → List CStr → Prop
  | _, [] => True
  | (_, none), _ :: _ => True
  | (s, some position), name :: names =>
      ok s position.1 name ∧ Along code ok (resolveStep code true (s, some position) name) names

variable (mount) in
/-- A step of a path keeps one node for each entry, unless it respells one. -/
theorem resolveStep_oneEach (shows : fat.Shows volume Reading) (inv : FileInv s) (roomy : s.Roomy)
    (ready : s.ready = true) (root : s.rootNode.isSome) {position : Nat × Option Nat}
    (homed : Homed s position) (name : CStr) (each : OneEach volume s) :
    OneEach volume (resolveStep (fatfsCode fat mount) true (s, some position) name).1 ↔
      ¬Respells volume s position.1 name := by
  unfold resolveStep
  by_cases empty : name = []
  · subst empty
    simp only [if_true]
    exact ⟨fun _ respells => absurd respells.1 (by decide), fun _ => each⟩
  · simp only [if_neg empty]
    obtain ⟨dir, live⟩ := Option.isSome_iff_exists.mp homed.node
    have outcome := childOr_outcome (fatfsCode_serves mount shows) inv.tree roomy
      position.2 live name
    exact childOutcome_oneEach outcome inv live homed.inside ready root each

/-- A walk keeps to one node for each entry if and only if no name on the way is another
spelling. -/
theorem walk_oneEach (shows : fat.Shows volume Reading) (ready : s₀.ready = true)
    (root : s₀.rootNode.isSome) (names : List CStr) {found : Option (Nat × Option Nat)}
    (filling : Filling (fatfsCode fat mount) (fatContents fat volume) s₀ s)
    (homed : ∀ position, found = some position → Homed s position) (each : OneEach volume s) :
    OneEach volume (names.foldl (resolveStep (fatfsCode fat mount) true) (s, found)).1 ↔
      Along (fatfsCode fat mount) (fun s dir name => ¬Respells volume s dir name) (s, found)
        names := by
  induction names generalizing s found with
  | nil => exact iff_of_true each trivial
  | cons name names ih =>
      have serves := fatfsCode_serves mount shows
      cases found with
      | none =>
          rw [← resolveFrom_true, resolveFrom_none]
          exact iff_of_true each trivial
      | some position =>
          have here := homed position rfl
          have step := resolveStep_oneEach mount shows filling.inv filling.roomy
            (filling.filled.ready.trans ready) (by rw [filling.filled.rootNode]; exact root) here
            name each
          have filling' := filling.step serves here name
          have homed' := (resolveStep_filled serves filling.inv filling.roomy here true name).2
          rw [List.foldl_cons]
          unfold Along
          generalize resolveStep (fatfsCode fat mount) true (s, some position) name = next
            at step filling' homed' ⊢
          obtain ⟨s', found'⟩ := next
          rw [← step]
          constructor
          · intro final
            have each' : OneEach volume s' := by
              cases found' with
              | none =>
                  rw [← resolveFrom_true, resolveFrom_none] at final
                  exact final
              | some position' =>
                  rw [← resolveFrom_true] at final
                  exact final.before (resolveFrom_filled serves names filling'.inv filling'.roomy
                    (homed' position' rfl))
            exact ⟨each', (ih filling' homed' each').mp final⟩
          · rintro ⟨each', along⟩
            exact (ih filling' homed' each').mpr along

/-- Each name of the path meets the condition. -/
def AlongPath (code : FsCode ω (FatfsPriv φ)) (ok : Vfs ω (FatfsPriv φ) → Nat → CStr → Prop)
    (s : Vfs ω (FatfsPriv φ)) (path : CStr) : Prop :=
  Along code ok (s, s.rootNode.map fun root => crossAll s (root, none)) (pathNames path)

/-- A whole path keeps one node for each entry exactly if no step respells one. -/
theorem resolve_oneEach (shows : fat.Shows volume Reading) (ready : s₀.ready = true)
    (root : s₀.rootNode.isSome)
    (filling : Filling (fatfsCode fat mount) (fatContents fat volume) s₀ s)
    (each : OneEach volume s) (path : CStr) :
    OneEach volume (resolve (fatfsCode fat mount) s path).1 ↔
      AlongPath (fatfsCode fat mount) (fun s dir name => ¬Respells volume s dir name) s path := by
  apply walk_oneEach shows ready root _ filling _ each
  intro position isStart
  obtain ⟨id, isRoot, rfl⟩ := Option.map_eq_some_iff.mp isStart
  exact filling.inv.crossAll_homed (filling.inv.root_homed isRoot)

/-- A path that is looked up fills the tree, and leads to a node in the tree of its mount. -/
theorem resolve_filling (shows : fat.Shows volume Reading) (base : FileInv s₀)
    (filling : Filling (fatfsCode fat mount) (fatContents fat volume) s₀ s) (path : CStr) :
    Filling (fatfsCode fat mount) (fatContents fat volume) s₀
        (resolve (fatfsCode fat mount) s path).1 ∧
      ∀ position, (resolve (fatfsCode fat mount) s path).2 = some position →
        Homed (resolve (fatfsCode fat mount) s path).1 position := by
  have along := resolve_alongside (fatfsCode_serves mount shows) base filling filling path
  refine ⟨along.first, fun position found => ?_⟩
  have same := along.same
  rw [found] at same
  cases same with
  | some same => exact same.1

end Zsbl.Fs
