/-
Module: Zsbl.Proofs.FatfsListing
Purpose: The listing of a directory of a FAT volume brings its entries into the tree, one node
  for each as long as the nodes that are there have the stored names.
Trusted boundary: the contract FatFs.Shows of FatFs
Main exports:
  NamedAsStored, FatStart, fatfsIterateFrom_spec, child_path, Listing, fatfsIterate_listing,
  commandLs_listing
-/
import Zsbl.Proofs.FatfsTree

namespace Zsbl.Fs

open Zsbl.Common Zsbl.Lib

variable {ω φ δ ε : Type} {fat : FatFs ω φ δ} {volume : FatVolume ε}
  {Reading : δ → List (ε × FilInfo) → Prop} {s₀ s s' t : Vfs ω (FatfsPriv φ)}
  {mount : Nat → Vfs ω (FatfsPriv φ) → Option CStr → Option (FatfsPriv φ) →
      Option (Vfs ω (FatfsPriv φ) × MountSetup (FatfsPriv φ) × Int)}

/-! ## A directory that is listed -/

/-- The nodes of a directory have the names that are stored for their entries. -/
def NamedAsStored (volume : FatVolume ε) (s : Vfs ω (FatfsPriv φ)) (dir : Nat) : Prop :=
  ∀ m path list, FatDir s m dir path → volume.entries path = some list → ∀ entry ∈ list,
    (entryPath path entry.2.fname).length < FATFS_PATH_MAX → ∀ id node, s.nodes id = some node →
      StandsFor volume s dir id entry.1 → node.name = entry.2.fname

/-- The nodes of a directory stand for entries of that directory. -/
def OwnEntries (volume : FatVolume ε) (s : Vfs ω (FatfsPriv φ)) (dir : Nat) : Prop :=
  ∀ m path list, FatDir s m dir path → volume.entries path = some list → ∀ id node,
    s.nodes id = some node → node.parent = some dir →
      ∃ entry ∈ list, StandsFor volume s dir id entry.1

/-- What is new has the stored name of an entry. -/
def NewAsStored (list : List (ε × FilInfo)) (s s' : Vfs ω (FatfsPriv φ)) : Prop :=
  ∀ id node, s'.nodes id = some node → s.nodes id = none → ∃ entry ∈ list, node.name = entry.2.fname

theorem NewAsStored.of_same (list : List (ε × FilInfo)) (nodes : s'.nodes = s.nodes) :
    NewAsStored list s s' := by
  intro id node live fresh
  rw [nodes, fresh] at live
  cases live

/-- Two steps that add only nodes named as stored. -/
theorem NewAsStored.trans {code : FsCode ω (FatfsPriv φ)} {contents : Contents ω (FatfsPriv φ)}
    {list : List (ε × FilInfo)} (first : NewAsStored list s s') (second : NewAsStored list s' t)
    (filled : Filled code contents s' t) : NewAsStored list s t := by
  intro id node live fresh
  cases was : s'.nodes id with
  | none => exact second id node live was
  | some before =>
      obtain ⟨child, same⟩ := filled.old id before was
      obtain rfl := Option.some.inj (live.symm.trans same)
      exact first id before was fresh

theorem FatVolume.entry_eq (volume : FatVolume ε) {path : CStr} {list : List (ε × FilInfo)}
    (listed : volume.entries path = some list) {entry entry' : ε × FilInfo}
    (member : entry ∈ list) (member' : entry' ∈ list) (same : entry'.1 = entry.1) :
    entry' = entry :=
  List.inj_on_of_nodup_map (volume.once path list listed) member' member same

/-- A node that was served in a directory has the path of its name, which leads to an entry. -/
theorem served_path {m dir : Nat} {path : CStr} (fatDir : FatDir s m dir path)
    {node : VfsNode ω (FatfsPriv φ)}
    (served : Served (fatfsCode fat mount) (fatContents fat volume) s node)
    (parent : node.parent = some dir) :
    vfsNameValid node.name = true ∧ (entryPath path node.name).length < FATFS_PATH_MAX ∧
      node.priv = some (.path (entryPath path node.name)) ∧
      ∃ entry, volume.stat (entryPath path node.name) = some entry := by
  obtain ⟨mnt, above, dirNode, entry, parent', dirLive, -, offered, -, -, priv⟩ := served.offered
  obtain rfl := Option.some.inj (parent'.symm.trans parent)
  obtain ⟨m', mnt', address, -, -, -, -, has⟩ := offered.has
  obtain ⟨path', found, dirPriv, short, isFound, rfl⟩ := fatContents_some.mp has
  obtain ⟨dirNode', dirLive', -, dirPriv'⟩ := fatDir.node
  obtain rfl := Option.some.inj (dirLive'.symm.trans dirLive)
  rw [dirPriv'] at dirPriv
  cases dirPriv
  exact ⟨offered.creatable.valid, short, priv, found, isFound⟩

/-- A directory that was there has been one of the volume all along. -/
theorem FatDir.filled_old {code : FsCode ω (FatfsPriv φ)} {contents : Contents ω (FatfsPriv φ)}
    (filled : Filled code contents s t) (inv : TreeInv s) {m dir : Nat} {path : CStr}
    (fatDir : FatDir t m dir path) (old : (s.nodes dir).isSome) : FatDir s m dir path where
  node := by
    obtain ⟨node, live, isDir, priv⟩ := fatDir.node
    obtain ⟨before, was⟩ := Option.isSome_iff_exists.mp old
    obtain ⟨child, same⟩ := filled.old dir before was
    obtain rfl := Option.some.inj (live.symm.trans same)
    exact ⟨before, was, isDir, priv⟩
  mount := by
    obtain ⟨mnt, live, sops, under⟩ := fatDir.mount
    rw [filled.mounts] at live
    exact ⟨mnt, live, sops, filled.under_old inv under old⟩

/-- Nodes under their stored names keep a directory as it should be. -/
theorem NamedAsStored.filled (filled : Filled (fatfsCode fat mount) (fatContents fat volume) s t)
    (inv : TreeInv s) {dir : Nat} (old : (s.nodes dir).isSome)
    (named : NamedAsStored volume s dir)
    (stored : ∀ id node m path list, t.nodes id = some node → s.nodes id = none →
      FatDir t m dir path → volume.entries path = some list →
      ∃ entry ∈ list, node.name = entry.2.fname) : NamedAsStored volume t dir := by
  intro m path list fatDir listed entry member short id node live stands
  cases was : s.nodes id with
  | some before =>
      obtain ⟨child, same⟩ := filled.old id before was
      obtain rfl := Option.some.inj (live.symm.trans same)
      exact named m path list (fatDir.filled_old filled inv old) listed entry member short id before
        was (stands.filled_old filled (by simp [was]))
  | none =>
      obtain ⟨entry', member', name⟩ := stored id node m path list live was fatDir listed
      obtain ⟨node', path', info, live', parent, priv, found⟩ := stands
      obtain rfl := Option.some.inj (live.symm.trans live')
      obtain ⟨-, -, priv', -⟩ := served_path fatDir (filled.served id node live was) parent
      rw [priv'] at priv
      cases priv
      rw [name, (volume.stored path list entry' listed member').2] at found
      have same : entry'.1 = entry.1 := by rw [Option.some.inj found]
      rw [name, volume.entry_eq listed member member' same]

/-- New nodes under stored names are entries of the directory. -/
theorem OwnEntries.filled (filled : Filled (fatfsCode fat mount) (fatContents fat volume) s t)
    (inv : TreeInv s) {dir : Nat} (old : (s.nodes dir).isSome) (own : OwnEntries volume s dir)
    (stored : ∀ path list, volume.entries path = some list → (∃ m, FatDir t m dir path) →
      NewAsStored list s t) : OwnEntries volume t dir := by
  intro m path list fatDir listed id node live parent
  cases was : s.nodes id with
  | some before =>
      obtain ⟨child, same⟩ := filled.old id before was
      obtain rfl := Option.some.inj (live.symm.trans same)
      obtain ⟨entry, member, stands⟩ := own m path list (fatDir.filled_old filled inv old) listed id
        before was parent
      exact ⟨entry, member, stands.filled filled⟩
  | none =>
      obtain ⟨entry, member, name⟩ := stored path list listed ⟨m, fatDir⟩ id node live was
      obtain ⟨-, -, priv, -⟩ := served_path fatDir (filled.served id node live was) parent
      have found := (volume.stored path list entry listed member).2
      rw [← name] at found
      exact ⟨entry, member, node, _, entry.2, live, parent, priv, found⟩

theorem NamedAsStored.world {dir : Nat} (named : NamedAsStored volume s dir) (world : ω) :
    NamedAsStored volume { s with world := world } dir := by
  let code : FsCode ω (FatfsPriv φ) := ⟨fun _ _ _ _ => none, fun _ => none, fun _ => none⟩
  have back : Filled code (fun _ _ _ _ => none) { s with world := world } s :=
    .of_same rfl rfl rfl rfl rfl
  intro m path list fatDir listed entry member short id node live stands
  exact named m path list (fatDir.filled back) listed entry member short id node live
    (stands.filled back)

/-- Where all names are as stored, none is another spelling of an entry. -/
theorem NamedAsStored.not_respells (inv : TreeInv s) {m dir : Nat} {path : CStr}
    (fatDir : FatDir s m dir path) {list : List (ε × FilInfo)}
    (listed : volume.entries path = some list) (named : NamedAsStored volume s dir)
    {entry : ε × FilInfo} (member : entry ∈ list) : ¬Respells volume s dir entry.2.fname := by
  rintro ⟨-, missing, m', path', entry', id, fatDir', short, found, stands⟩
  obtain rfl := fatDir.path_eq fatDir'
  rw [(volume.stored _ list entry listed member).2] at found
  obtain rfl := Option.some.inj found
  obtain ⟨node, live⟩ := Option.isSome_iff_exists.mp stands.live
  have name := named m _ list fatDir listed entry member short id node live stands
  obtain ⟨node', _, _, live', parent, -⟩ := stands
  obtain rfl := Option.some.inj (live.symm.trans live')
  exact (childNamed_eq_none inv).mp missing id node live parent name

variable (fat mount) in
/-- `fatfs_make_node` of a stored entry: its node is there, or it is created. -/
theorem fatfsMakeNode_outcome (inv : FileInv s) (roomy : s.Roomy) (ready : s.ready = true)
    (root : s.rootNode.isSome) {m dir : Nat} {path : CStr} (fatDir : FatDir s m dir path)
    {node : VfsNode ω (FatfsPriv φ)} (live : s.nodes dir = some node) {entry : ε × FilInfo}
    (valid : vfsNameValid entry.2.fname = true)
    (found : volume.stat (entryPath path entry.2.fname) = some entry)
    (short : (entryPath path entry.2.fname).length < FATFS_PATH_MAX) :
    ∃ s' made id, fatfsMakeNode fat s dir entry.2.fname (entryPath path entry.2.fname)
        entry.2.isDir = some (s', made) ∧ FileInv s' ∧ s'.Roomy ∧
      ChildOutcome (fatfsCode fat mount) (fatContents fat volume) s (some m) dir node
        entry.2.fname (s', some id) := by
  obtain ⟨mnt, mntLive, sops, under⟩ := fatDir.mount
  obtain ⟨node', live', isDir, priv⟩ := fatDir.node
  obtain rfl := Option.some.inj (live.symm.trans live')
  rw [fatfsMakeNode_eq roomy]
  cases there : childNamed s dir entry.2.fname with
  | some id =>
      exact ⟨s, none, id, vfsMknod_present inv.tree live there _, inv, roomy, .there there⟩
  | none =>
      have can : Creatable s node entry.2.fname (entryNode fat (entryPath path entry.2.fname)
          entry.2) := ⟨ready, root, valid, isDir, entryNode_hasOps _ _⟩
      obtain ⟨s', made, grown⟩ := vfsMknod_creatable inv.tree roomy live there can
      have isLive : s.Live (some dir) := by
        intro id same
        obtain rfl := Option.some.inj same
        simp [live]
      have builds : Builds s s' := .single (.create isLive made)
      refine ⟨s', some s.nextNode, s.nextNode, made, (builds.files inv).1,
        builds.roomy inv.tree roomy, ?_⟩
      refine @ChildOutcome.served _ _ _ _ _ _ _ _ _ _ s.world _ there ⟨⟨m, mnt, fatfsSops, rfl,
        mntLive, sops, fatfsCode_lookup.mpr rfl, ?_⟩, can⟩ grown
      exact fatContents_some.mpr ⟨path, entry, priv, short, found, rfl⟩

/-- What has been created in a directory under a stored name is named as stored. -/
theorem childOutcome_stored {mnt : Option Nat} {m dir : Nat} {path : CStr}
    {node : VfsNode ω (FatfsPriv φ)} {result : Vfs ω (FatfsPriv φ) × Option Nat}
    {list : List (ε × FilInfo)} {entry : ε × FilInfo}
    (outcome : ChildOutcome (fatfsCode fat mount) (fatContents fat volume) s mnt dir node
      entry.2.fname result)
    (inv : FileInv s) (live : s.nodes dir = some node) (inside : Inside s mnt dir)
    (ready : s.ready = true) (root : s.rootNode.isSome) (fatDir : FatDir s m dir path)
    (listed : volume.entries path = some list) (member : entry ∈ list)
    (each : OneEach volume s) (named : NamedAsStored volume s dir) :
    OneEach volume result.1 ∧ NamedAsStored volume result.1 dir := by
  have filled := outcome.filled inv.tree live inside
  constructor
  · rw [childOutcome_oneEach outcome inv live inside ready root each]
    exact named.not_respells inv.tree fatDir listed member
  · apply named.filled filled inv.tree (by simp [live])
    intro id child m' path' list' is isNew fatDir' listed'
    obtain rfl := (fatDir.filled filled).path_eq fatDir'
    obtain rfl := Option.some.inj (listed.symm.trans listed')
    exact ⟨entry, member, (outcome.named inv.tree live).2 id child is isNew⟩

/-- A round of the loop brings an entry into the tree, if its path is short enough. -/
theorem fatfsIterateFrom_round (shows : fat.Shows volume Reading) (ready : s₀.ready = true)
    (root : s₀.rootNode.isSome) {m dir : Nat} {path : CStr} {list rest : List (ε × FilInfo)}
    (listed : volume.entries path = some list) {entry : ε × FilInfo} (member : entry ∈ list)
    {dp : δ} (reading : Reading dp (entry :: rest))
    (filling : Filling (fatfsCode fat mount) (fatContents fat volume) s₀ s)
    (fatDir : FatDir s m dir path) :
    ∃ s' dp', Reading dp' rest ∧
      (∀ fuel, fatfsIterateFrom fat dir path (fuel + 1) s dp =
        fatfsIterateFrom fat dir path fuel s' dp') ∧
      Filling (fatfsCode fat mount) (fatContents fat volume) s₀ s' ∧
      Filled (fatfsCode fat mount) (fatContents fat volume) s s' ∧ NewAsStored list s s' ∧
      ((entryPath path entry.2.fname).length < FATFS_PATH_MAX →
        (childNamed s' dir entry.2.fname).isSome) ∧
      (OneEach volume s → NamedAsStored volume s dir →
        OneEach volume s' ∧ NamedAsStored volume s' dir) := by
  obtain ⟨world, dp', read, reading'⟩ := shows.next s.world dp entry rest reading
  obtain ⟨valid, found⟩ := volume.stored path list entry listed member
  have name : entry.2.fname ≠ [] := by
    rintro empty
    simp [vfsNameValid, empty] at valid
  have filling₁ := filling.world world
  have aside : Filled (fatfsCode fat mount) (fatContents fat volume) s { s with world := world } :=
    .of_same rfl rfl rfl rfl rfl
  have fatDir₁ := fatDir.filled aside
  obtain ⟨node, live, -⟩ := fatDir.node
  have keeps (each : OneEach volume s) (named : NamedAsStored volume s dir) :
      OneEach volume { s with world := world } ∧
        NamedAsStored volume { s with world := world } dir :=
    ⟨(oneEach_only ⟨world, s.fileHead, s.nextFd, rfl⟩).mpr each, named.world world⟩
  by_cases long : (entryPath path entry.2.fname).length ≥ FATFS_PATH_MAX
  · refine ⟨_, dp', reading', fun fuel => ?_, filling₁, aside, .of_same list rfl, fun short => ?_,
      keeps⟩
    · simp [fatfsIterateFrom, read, name, long]
    · exact absurd short (Nat.not_lt.mpr long)
  · have ready₁ : s.ready = true := filling.filled.ready.trans ready
    have root₁ : s.rootNode.isSome := by
      rw [filling.filled.rootNode]
      exact root
    obtain ⟨s', made, id, make, inv', roomy', outcome⟩ := fatfsMakeNode_outcome fat mount
      filling₁.inv filling₁.roomy ready₁ root₁ fatDir₁ live valid found (Nat.lt_of_not_ge long)
    obtain ⟨mnt, mntLive, sops, under⟩ := fatDir₁.mount
    have inside : Inside { s with world := world } (some m) dir := ⟨mnt, mntLive, under⟩
    have filled := outcome.filled filling₁.inv.tree live inside
    have new : NewAsStored list { s with world := world } s' := fun id child is fresh =>
      ⟨entry, member, (outcome.named filling₁.inv.tree live).2 id child is fresh⟩
    have same : NewAsStored list s { s with world := world } := .of_same list rfl
    refine ⟨s', dp', reading', fun fuel => ?_, ⟨filling₁.filled.trans filled, inv', roomy'⟩,
      aside.trans filled, same.trans new filled, fun _ => ?_, fun each named => ?_⟩
    · simp [fatfsIterateFrom, read, name, long, make]
    · obtain ⟨child, is, parent, same⟩ := (outcome.named filling₁.inv.tree live).1 id rfl
      rw [← same, childNamed_child inv'.tree is parent]
      rfl
    · obtain ⟨each₁, named₁⟩ := keeps each named
      exact childOutcome_stored outcome filling₁.inv live inside ready₁ root₁ fatDir₁ listed member
        each₁ named₁

/-- The loop brings one entry after the other into the tree. -/
theorem fatfsIterateFrom_spec (shows : fat.Shows volume Reading) (ready : s₀.ready = true)
    (root : s₀.rootNode.isSome) {m dir : Nat} {path : CStr} {list rest : List (ε × FilInfo)}
    (listed : volume.entries path = some list) (sub : ∀ entry ∈ rest, entry ∈ list) {dp : δ}
    (reading : Reading dp rest)
    (filling : Filling (fatfsCode fat mount) (fatContents fat volume) s₀ s)
    (fatDir : FatDir s m dir path) :
    ∃ s' dp', (∀ fuel, fatfsIterateFrom fat dir path fuel s dp =
        if rest.length < fuel then some (s', dp') else none) ∧
      Filling (fatfsCode fat mount) (fatContents fat volume) s₀ s' ∧
      Filled (fatfsCode fat mount) (fatContents fat volume) s s' ∧ NewAsStored list s s' ∧
      (∀ entry ∈ rest, (entryPath path entry.2.fname).length < FATFS_PATH_MAX →
        (childNamed s' dir entry.2.fname).isSome) ∧
      (OneEach volume s → NamedAsStored volume s dir → OneEach volume s') := by
  induction rest generalizing s dp with
  | nil =>
      have last := shows.fin s.world dp reading
      refine ⟨{ s with world := (fat.fReaddir s.world dp).1 }, (fat.fReaddir s.world dp).2.1,
        fun fuel => ?_, filling.world _, .of_same rfl rfl rfl rfl rfl, .of_same list rfl, by simp,
        fun each _ => ?_⟩
      · cases fuel with
        | zero => rfl
        | succ fuel => simp [fatfsIterateFrom, last]
      · exact (oneEach_only ⟨_, s.fileHead, s.nextFd, rfl⟩).mpr each
  | cons entry rest ih =>
      obtain ⟨s₁, dp₁, reading₁, round, filling₁, filled₁, new₁, present₁, keeps₁⟩ :=
        fatfsIterateFrom_round shows ready root listed (sub entry List.mem_cons_self) reading
          filling fatDir
      obtain ⟨s', dp', loop, filling', filled', new', present', keeps'⟩ :=
        ih (fun entry member => sub entry (List.mem_cons_of_mem _ member)) reading₁ filling₁
          (fatDir.filled filled₁)
      refine ⟨s', dp', fun fuel => ?_, filling', filled₁.trans filled', new₁.trans new' filled', ?_,
        fun each named => ?_⟩
      · cases fuel with
        | zero => rfl
        | succ fuel =>
            rw [round, loop]
            simp only [List.length_cons, Nat.add_lt_add_iff_right]
      · intro other member short
        rcases List.mem_cons.mp member with rfl | member
        · obtain ⟨id, there⟩ := Option.isSome_iff_exists.mp (present₁ short)
          obtain ⟨node, live, parent, same⟩ := childNamed_spec filling₁.inv.tree there
          obtain ⟨child, live'⟩ := filled'.old id node live
          rw [← same, childNamed_child filling'.inv.tree live' parent]
          rfl
        · exact present' other member short
      · obtain ⟨each₁, named₁⟩ := keeps₁ each named
        exact keeps' each₁ named₁

/-- The listing comes back, and adds a node for each entry that has none. -/
theorem fatfsIterate_spec (shows : fat.Shows volume Reading) (ready : s₀.ready = true)
    (root : s₀.rootNode.isSome) {m dir : Nat} {path : CStr} {list : List (ε × FilInfo)}
    (listed : volume.entries path = some list)
    (filling : Filling (fatfsCode fat mount) (fatContents fat volume) s₀ s)
    (fatDir : FatDir s m dir path) :
    ∃ s', (∀ fuel mnt, fatfsIterate fat fuel s mnt dir =
        if list.length < fuel then some (s', 0) else none) ∧
      Filling (fatfsCode fat mount) (fatContents fat volume) s₀ s' ∧
      Filled (fatfsCode fat mount) (fatContents fat volume) s s' ∧ NewAsStored list s s' ∧
      (∀ entry ∈ list, (entryPath path entry.2.fname).length < FATFS_PATH_MAX →
        (childNamed s' dir entry.2.fname).isSome) ∧
      (OneEach volume s → NamedAsStored volume s dir → OneEach volume s') := by
  obtain ⟨node, live, -, priv⟩ := fatDir.node
  obtain ⟨world, dp, opened, reading⟩ := shows.opened s.world path list listed
  have aside : Filled (fatfsCode fat mount) (fatContents fat volume) s { s with world := world } :=
    .of_same rfl rfl rfl rfl rfl
  obtain ⟨s', dp', loop, filling', filled', new, present, keeps⟩ :=
    fatfsIterateFrom_spec shows ready root listed (fun _ => id) reading (filling.world world)
      (fatDir.filled aside)
  refine ⟨{ s' with world := fat.fClosedir s'.world dp' }, fun fuel mnt => ?_, filling'.world _,
    (aside.trans filled').trans (.of_same rfl rfl rfl rfl rfl), new, present,
    fun each named => ?_⟩
  · simp only [fatfsIterate, live, priv, opened, loop, Option.bind_eq_bind, Option.bind_some,
      ne_eq, not_true, if_false]
    split <;> rfl
  · apply (oneEach_only ⟨_, s'.fileHead, s'.nextFd, rfl⟩).mpr
    exact keeps ((oneEach_only ⟨world, s.fileHead, s.nextFd, rfl⟩).mpr each) (named.world world)

/-- The directory is one to one with its entries. -/
def Mirrored (volume : FatVolume ε) (s : Vfs ω (FatfsPriv φ)) (dir : Nat) : Prop :=
  ∀ m path list, FatDir s m dir path → volume.entries path = some list →
    Mirrors volume s dir path list

/-- The start of a run: FAT volumes may have been mounted, but nothing of them has been looked
up yet. -/
structure FatStart (s : Vfs ω (FatfsPriv φ)) : Prop where
  inv : FileInv s
  roomy : s.Roomy
  ready : s.ready = true
  root : s.rootNode.isSome
  bare : ∀ id node, InFat s id → s.nodes id = some node → node.parent = none

/-- A child in a directory of a FAT volume has the path of its name, which leads to an entry. -/
theorem child_path (start : FatStart s₀)
    (filling : Filling (fatfsCode fat mount) (fatContents fat volume) s₀ s) {m dir : Nat}
    {path : CStr} (fatDir : FatDir s m dir path) {id : Nat} {node : VfsNode ω (FatfsPriv φ)}
    (live : s.nodes id = some node) (parent : node.parent = some dir) :
    vfsNameValid node.name = true ∧ (entryPath path node.name).length < FATFS_PATH_MAX ∧
      node.priv = some (.path (entryPath path node.name)) ∧
      ∃ entry, volume.stat (entryPath path node.name) = some entry := by
  obtain ⟨filled, -, -⟩ := filling
  cases was : s₀.nodes id with
  | none => exact served_path fatDir (filled.served id node live was) parent
  | some before =>
      -- what was there at the start is no child
      obtain ⟨child, same⟩ := filled.old id before was
      obtain rfl := Option.some.inj (live.symm.trans same)
      obtain ⟨-, above, aboveLive, -⟩ := start.inv.tree.parent id before dir was parent
      obtain ⟨m', mnt, mntLive, sops, under⟩ :=
        fatDir.inFat.filled_old filled start.inv.tree (by simp [aboveLive])
      rw [start.bare id before ⟨m', mnt, mntLive, sops, .child was parent under⟩ was] at parent
      cases parent

/-- Nodes that were looked up under plain names stand for entries of their directory. -/
theorem ownEntries_of_plain (keeps : volume.KeepsPlain) (start : FatStart s₀)
    (filling : Filling (fatfsCode fat mount) (fatContents fat volume) s₀ s) {dir : Nat}
    (plain : ∀ id node, s.nodes id = some node → node.parent = some dir → PlainName node.name) :
    OwnEntries volume s dir := by
  intro m path list fatDir listed id node live parent
  obtain ⟨valid, -, priv, entry, found⟩ := child_path start filling fatDir live parent
  obtain ⟨list', listed', member⟩ :=
    keeps path node.name entry valid (plain id node live parent) found
  obtain rfl := Option.some.inj (listed.symm.trans listed')
  exact ⟨entry, member, node, _, entry.2, live, parent, priv, found⟩

/-- With all short entries there, one node for each, and no other nodes, the directory is
mirrored. -/
theorem mirrors_of_present (start : FatStart s₀)
    (filling : Filling (fatfsCode fat mount) (fatContents fat volume) s₀ s) {m dir : Nat}
    {path : CStr} (fatDir : FatDir s m dir path) {list : List (ε × FilInfo)}
    (listed : volume.entries path = some list)
    (present : ∀ entry ∈ list, (entryPath path entry.2.fname).length < FATFS_PATH_MAX →
      (childNamed s dir entry.2.fname).isSome)
    (own : OwnEntries volume s dir) (each : OneEach volume s) :
    Mirrors volume s dir path list where
  child entry member short := by
    obtain ⟨id, there⟩ := Option.isSome_iff_exists.mp (present entry member short)
    obtain ⟨node, live, parent, name⟩ := childNamed_spec filling.inv.tree there
    obtain ⟨-, -, priv, -⟩ := child_path start filling fatDir live parent
    have found := (volume.stored path list entry listed member).2
    rw [← name] at found
    have stands : StandsFor volume s dir id entry.1 := ⟨node, _, entry.2, live, parent, priv, found⟩
    exact ⟨id, stands, fun id' stands' => each dir id' id entry.1 fatDir.inFat stands' stands⟩
  entry id node live parent := by
    obtain ⟨entry, member, stands⟩ := own m path list fatDir listed id node live parent
    refine ⟨entry, ⟨member, stands⟩, ?_⟩
    rintro other ⟨member', node', path', info, live', parent', priv', found'⟩
    obtain ⟨node'', path'', info'', live'', -, priv, found⟩ := stands
    obtain rfl := Option.some.inj (live'.symm.trans live'')
    rw [priv] at priv'
    cases priv'
    rw [found] at found'
    exact volume.entry_eq listed member member' (congrArg Prod.fst (Option.some.inj found')).symm

/-! ## `ls` -/

/-- What a listing of a node has done. -/
structure Listing (fat : FatFs ω φ δ)
    (mount : Nat → Vfs ω (FatfsPriv φ) → Option CStr → Option (FatfsPriv φ) →
      Option (Vfs ω (FatfsPriv φ) × MountSetup (FatfsPriv φ) × Int))
    (volume : FatVolume ε) (s₀ s s' : Vfs ω (FatfsPriv φ)) (dir : Nat) : Prop where
  filling : Filling (fatfsCode fat mount) (fatContents fat volume) s₀ s'
  each : OneEach volume s' ↔ OneEach volume s ∧ NamedAsStored volume s dir
  mirrored : OneEach volume s' → (Mirrored volume s' dir ↔ OwnEntries volume s dir)

/-- A listing keeps to one node for each entry if and only if the nodes that are there have
the stored names, and then the directory is mirrored if and only if they stand for its entries. -/
theorem fatfsIterate_listing (shows : fat.Shows volume Reading) (start : FatStart s₀)
    {m dir : Nat} {path : CStr} {list : List (ε × FilInfo)}
    (listed : volume.entries path = some list)
    (filling : Filling (fatfsCode fat mount) (fatContents fat volume) s₀ s)
    (fatDir : FatDir s m dir path) :
    ∃ s', (∀ fuel mnt, fatfsIterate fat fuel s mnt dir =
        if list.length < fuel then some (s', 0) else none) ∧
      Listing fat mount volume s₀ s s' dir ∧
      (OneEach volume s → (Mirrors volume s' dir path list ↔
        NamedAsStored volume s dir ∧ OwnEntries volume s dir)) := by
  obtain ⟨s', done, filling', filled, new, present, keeps⟩ :=
    fatfsIterate_spec shows start.ready start.root listed filling fatDir
  have fatDir' := fatDir.filled filled
  have mirrors := mirrors_of_present start filling' fatDir' listed present
  obtain ⟨dirNode, dirLive, -⟩ := fatDir.node
  have named (only : ∀ entry ∈ list, (entryPath path entry.2.fname).length < FATFS_PATH_MAX →
      ∀ id id', StandsFor volume s' dir id entry.1 → StandsFor volume s' dir id' entry.1 →
        id = id') : NamedAsStored volume s dir := by
    intro m' path' list' fatDir₁ listed' entry member short id node live stands
    obtain rfl := fatDir.path_eq fatDir₁
    obtain rfl := Option.some.inj (listed.symm.trans listed')
    obtain ⟨id', there⟩ := Option.isSome_iff_exists.mp (present entry member short)
    obtain ⟨node', live', parent, name⟩ := childNamed_spec filling'.inv.tree there
    obtain ⟨-, -, priv, -⟩ := child_path start filling' fatDir' live' parent
    have found := (volume.stored _ list entry listed member).2
    rw [← name] at found
    obtain rfl := only entry member short id id' (stands.filled filled)
      ⟨node', _, entry.2, live', parent, priv, found⟩
    obtain ⟨child, same⟩ := filled.old id node live
    obtain rfl := Option.some.inj (live'.symm.trans same)
    exact name
  have ownAfter (own : OwnEntries volume s dir) : OwnEntries volume s' dir := by
    refine own.filled filled filling.inv.tree (by simp [dirLive]) ?_
    rintro path' list' listed' ⟨m', fatDir₁⟩
    obtain rfl := fatDir'.path_eq fatDir₁
    obtain rfl := Option.some.inj (listed.symm.trans listed')
    exact new
  have ownBefore (mirrored : Mirrors volume s' dir path list) : OwnEntries volume s dir := by
    intro m' path' list' fatDir₁ listed' id node live parent
    obtain rfl := fatDir.path_eq fatDir₁
    obtain rfl := Option.some.inj (listed.symm.trans listed')
    obtain ⟨child, same⟩ := filled.old id node live
    obtain ⟨entry, ⟨member, stands⟩, -⟩ := mirrored.entry id _ same parent
    exact ⟨entry, member, stands.filled_old filled (by simp [live])⟩
  refine ⟨s', done, ⟨filling', ⟨fun each' => ⟨each'.before filled, ?_⟩, fun before =>
    keeps before.1 before.2⟩, fun each' => ⟨fun mirrored => ?_, fun own => ?_⟩⟩, fun each =>
    ⟨fun mirrored => ⟨?_, ownBefore mirrored⟩, fun both => ?_⟩⟩
  · exact named fun entry _ _ id id' => each' dir id id' entry.1 fatDir'.inFat
  · exact ownBefore (mirrored m path list fatDir' listed)
  · intro m' path' list' fatDir₁ listed'
    obtain rfl := fatDir'.path_eq fatDir₁
    obtain rfl := Option.some.inj (listed.symm.trans listed')
    exact mirrors (ownAfter own) each'
  · apply named
    intro entry member short id id' stands stands'
    exact (mirrored.child entry member short).unique stands stands'
  · exact mirrors (ownAfter both.2) (keeps each both.1)

/-- Nothing is listed of a node that is no directory with entries. -/
theorem listing_nothing (filling : Filling (fatfsCode fat mount) (fatContents fat volume) s₀ s)
    (world : ω) {dir : Nat}
    (nothing : ∀ m path list, FatDir s m dir path → volume.entries path ≠ some list) :
    Listing fat mount volume s₀ s { s with world := world } dir where
  filling := filling.world world
  each := by
    rw [oneEach_only ⟨world, s.fileHead, s.nextFd, rfl⟩]
    refine (and_iff_left fun m path list fatDir listed => ?_).symm
    exact absurd listed (nothing m path list fatDir)
  mirrored := by
    intro _
    apply iff_of_true
    · intro m path list fatDir listed
      have back : Filled (fatfsCode fat mount) (fatContents fat volume)
          { s with world := world } s := .of_same rfl rfl rfl rfl rfl
      exact absurd listed (nothing m path list (fatDir.filled back))
    · exact fun m path list fatDir listed => absurd listed (nothing m path list fatDir)

/-- The callback, if the mount of a directory has one. -/
theorem fatfsIterateAt_listing (shows : fat.Shows volume Reading) (start : FatStart s₀)
    (filling : Filling (fatfsCode fat mount) (fatContents fat volume) s₀ s)
    {id m address fuel : Nat} {mnt : VfsMount (FatfsPriv φ)} {node : VfsNode ω (FatfsPriv φ)}
    (live : s.nodes id = some node) (isDir : node.type = .dir) (mntLive : s.mounts m = some mnt)
    (sops : mnt.sops = some address) (under : Under s mnt.root id)
    {iterate : Vfs ω (FatfsPriv φ) → VfsMount (FatfsPriv φ) → Nat →
      Option (Vfs ω (FatfsPriv φ) × Int)} {ret : Int}
    (isIterate : fatfsIterateAt fat fuel address = some iterate)
    (done : iterate s mnt id = some (s', ret)) : Listing fat mount volume s₀ s s' id := by
  unfold fatfsIterateAt at isIterate
  split at isIterate
  · next isSops =>
    subst isSops
    obtain rfl := Option.some.inj isIterate
    have nothing (noEntries : ∀ path list, node.priv = some (.path path) →
        volume.entries path ≠ some list) (world : ω) :
        Listing fat mount volume s₀ s { s with world := world } id := by
      refine listing_nothing filling world fun m' path list fatDir => ?_
      obtain ⟨node', live', -, priv⟩ := fatDir.node
      obtain rfl := Option.some.inj (live.symm.trans live')
      exact noEntries path list priv
    cases isPriv : node.priv with
    | none =>
        simp only [fatfsIterate, live, isPriv, Option.bind_eq_bind, Option.bind_some] at done
        obtain ⟨rfl, -⟩ := Prod.mk.inj (Option.some.inj done)
        exact nothing (by simp [isPriv]) s.world
    | some priv =>
        cases priv with
        | fil fil =>
            simp only [fatfsIterate, live, isPriv, Option.bind_eq_bind, Option.bind_some] at done
            obtain ⟨rfl, -⟩ := Prod.mk.inj (Option.some.inj done)
            exact nothing (by simp [isPriv]) s.world
        | path path =>
            cases listed : volume.entries path with
            | none =>
                have failed := shows.unopened s.world path listed
                simp only [fatfsIterate, live, isPriv, Option.bind_eq_bind, Option.bind_some,
                  failed, ne_eq, not_false_eq_true, if_true] at done
                obtain ⟨rfl, -⟩ := Prod.mk.inj (Option.some.inj done)
                refine nothing (fun path' list priv => ?_) _
                rw [isPriv] at priv
                cases priv
                simp [listed]
            | some list =>
                have fatDir : FatDir s m id path :=
                  ⟨⟨node, live, isDir, isPriv⟩, mnt, mntLive, sops, under⟩
                obtain ⟨s₁, run, listing, -⟩ :=
                  fatfsIterate_listing shows start listed filling fatDir
                rw [run] at done
                split at done
                · obtain ⟨rfl, -⟩ := Prod.mk.inj (Option.some.inj done)
                  exact listing
                · cases done
  · cases isIterate

/-- `ls` lists the node that its path leads to. -/
theorem commandLs_listing (shows : fat.Shows volume Reading) (start : FatStart s₀)
    (filling : Filling (fatfsCode fat mount) (fatContents fat volume) s₀ s) {path : CStr}
    {fuel : Nat} (absolute : vfsIsPathValid (some path) = true)
    (done : commandLs (fatfsCode fat mount) (fatfsIterateAt fat fuel) s path = some s') :
    match (resolve (fatfsCode fat mount) s path).2 with
    | none => s' = (resolve (fatfsCode fat mount) s path).1
    | some (dir, _) =>
        Listing fat mount volume s₀ (resolve (fatfsCode fat mount) s path).1 s' dir := by
  have materialises := (fatfsCode_serves mount shows).materialises
  obtain ⟨filling₁, homed⟩ := resolve_filling shows start.inv filling path
  simp only [commandLs, absolute, Bool.not_true, Bool.false_eq_true, if_false,
    vfsLookupNodeEx_eq materialises filling.inv.names filling.roomy absolute true,
    resolveEx_true, Option.bind_eq_bind, Option.bind_some] at done
  generalize resolve (fatfsCode fat mount) s path = result at filling₁ homed done ⊢
  obtain ⟨t, found⟩ := result
  cases found with
  | none => exact (Option.some.inj done).symm
  | some position =>
      obtain ⟨id, mnt⟩ := position
      have here : Homed t (id, mnt) := homed _ rfl
      have same (noDir : ∀ m path, ¬FatDir t m id path) (unchanged : t = s') :
          Listing fat mount volume s₀ t s' id := by
        subst unchanged
        exact listing_nothing filling₁ t.world fun m path _ fatDir => absurd fatDir (noDir m path)
      have isMnt {m : Nat} {path : CStr} (fatDir : FatDir t m id path) : mnt = some m := by
        obtain ⟨mount', live, -, under⟩ := fatDir.mount
        exact filling₁.inv.inside_eq here.inside ⟨mount', live, under⟩
      obtain ⟨node, live, done⟩ := Option.bind_eq_some_iff.mp done
      by_cases isDir : node.type = .dir
      · simp only [isDir, ne_eq, not_true, if_false] at done
        cases mnt with
        | none => exact same (fun m path fatDir => by cases isMnt fatDir) (Option.some.inj done)
        | some m =>
            obtain ⟨mount', mntLive, under⟩ := here.inside
            simp only [mntLive, Option.bind_some] at done
            cases isIterate : mount'.sops.bind (fatfsIterateAt fat fuel) with
            | none =>
                simp only [isIterate] at done
                refine same (fun m' path fatDir => ?_) (Option.some.inj done)
                obtain ⟨mount'', live', sops, -⟩ := fatDir.mount
                obtain rfl := Option.some.inj (isMnt fatDir)
                obtain rfl := Option.some.inj (mntLive.symm.trans live')
                simp [sops, fatfsIterateAt] at isIterate
            | some iterate =>
                simp only [isIterate] at done
                obtain ⟨address, sops, isIterate⟩ := Option.bind_eq_some_iff.mp isIterate
                obtain ⟨⟨u, ret⟩, called, done⟩ := Option.bind_eq_some_iff.mp done
                obtain rfl := Option.some.inj done
                exact fatfsIterateAt_listing shows start filling₁ live isDir mntLive sops under
                  isIterate called
      · simp only [isDir, ne_eq, not_false_eq_true, if_true] at done
        refine same (fun m path fatDir => ?_) (Option.some.inj done)
        obtain ⟨node', live', isDir', -⟩ := fatDir.node
        obtain rfl := Option.some.inj (live.symm.trans live')
        exact isDir isDir'

end Zsbl.Fs
