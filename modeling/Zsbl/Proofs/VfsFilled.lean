/-
Module: Zsbl.Proofs.VfsFilled
Purpose: File systems that serve contents fill the tree on demand; two states
  that were filled from the same tree look the same through every path.
Trusted boundary: none
Main exports:
  Offered, Inside, Served, Filled, Filled.trans, SamePlace, lookup_samePlace
-/
import Mathlib.Data.Option.Basic
import Zsbl.Common.VfsContents
import Zsbl.Proofs.VfsInvariant
import Zsbl.Proofs.VfsResolve

namespace Zsbl.Common

open Zsbl.Lib

variable {ω π : Type} {s s' t : Vfs ω π} {code : FsCode ω π} {contents : Contents ω π}

theorem TreeInv.unused (inv : TreeInv s) : s.Unused := by
  intro id le
  cases live : s.nodes id with
  | none => rfl
  | some node => exact absurd (inv.lt id node live) (Nat.not_lt.mpr le)

/-! ## Where a file system serves -/

/-- The node is in the tree of the mount, or in the tree of the VFS itself. -/
def Inside (s : Vfs ω π) : Option Nat → Nat → Prop
  | none, id => ∃ root, s.rootNode = some root ∧ Under s root id
  | some m, id => ∃ mount, s.mounts m = some mount ∧ Under s mount.root id

/-- A node is under one root only. -/
theorem Under.top_eq {root root' id : Nat} {node node' : VfsNode ω π} (under : Under s root id)
    (under' : Under s root' id) (live : s.nodes root = some node) (top : node.parent = none)
    (live' : s.nodes root' = some node') (top' : node'.parent = none) : root = root' := by
  induction under with
  | self => exact under'.eq_of_top live top
  | @child id above child childLive parent _ ih =>
      apply ih
      apply under'.parent _ childLive parent
      rintro rfl
      obtain rfl := Option.some.inj (childLive.symm.trans live')
      rw [top'] at parent
      cases parent

/-- Each node is in one tree. -/
theorem FileInv.inside_eq (inv : FileInv s) {mnt mnt' : Option Nat} {id : Nat}
    (inside : Inside s mnt id) (inside' : Inside s mnt' id) : mnt = mnt' := by
  have apart (m : Nat) (ofRoot : Inside s none id) (ofMount : Inside s (some m) id) : False := by
    obtain ⟨root, isRoot, under⟩ := ofRoot
    obtain ⟨mount, mountLive, under'⟩ := ofMount
    obtain ⟨node, live, -, top⟩ := inv.tree.root root isRoot
    obtain ⟨dir, rootLive, -, noParent, -⟩ := inv.links.root m mount mountLive
    apply inv.links.notRoot m mount mountLive
    rw [isRoot, under.top_eq under' live top rootLive noParent]
  cases mnt with
  | none =>
      cases mnt' with
      | none => rfl
      | some m => exact absurd inside' (apart m inside)
  | some m =>
      cases mnt' with
      | none => exact absurd inside (apart m inside')
      | some m' =>
          obtain ⟨mount, mountLive, under⟩ := inside
          obtain ⟨mount', mountLive', under'⟩ := inside'
          obtain ⟨dir, rootLive, -, top, -⟩ := inv.links.root m mount mountLive
          obtain ⟨dir', rootLive', -, top', -⟩ := inv.links.root m' mount' mountLive'
          rw [inv.links.distinct m m' mount mount' mountLive mountLive'
            (under.top_eq under' rootLive top rootLive' top')]

/-- `vfs_mknod` can create the node of the entry in the directory. -/
structure Creatable (s : Vfs ω π) (dir : VfsNode ω π) (name : CStr) (entry : Entry ω π) :
    Prop where
  ready : s.ready = true
  root : s.rootNode.isSome
  valid : vfsNameValid name = true
  isDir : dir.type = .dir
  hasOps : entry.type = .dir ∨ entry.fops.isSome

/-- The innermost mount has this entry for a name in the directory. -/
structure Offered (code : FsCode ω π) (contents : Contents ω π) (s : Vfs ω π)
    (mnt : Option Nat) (dir : VfsNode ω π) (name : CStr) (entry : Entry ω π) : Prop where
  has : ∃ m mount address, mnt = some m ∧ s.mounts m = some mount ∧
    mount.sops = some address ∧ (code.lookup address).isSome ∧
    contents address mount dir.priv name = some entry
  creatable : Creatable s dir name entry

/-- A file system offers one entry for a name. -/
theorem Offered.unique {mnt : Option Nat} {dir : VfsNode ω π} {name : CStr}
    {entry entry' : Entry ω π} (offered : Offered code contents s mnt dir name entry)
    (offered' : Offered code contents s mnt dir name entry') : entry = entry' := by
  obtain ⟨m, mount, address, rfl, mountLive, sops, -, has⟩ := offered.has
  obtain ⟨m', mount', address', same, mountLive', sops', -, has'⟩ := offered'.has
  obtain rfl := Option.some.inj same
  obtain rfl := Option.some.inj (mountLive.symm.trans mountLive')
  obtain rfl := Option.some.inj (sops.symm.trans sops')
  exact Option.some.inj (has.symm.trans has')

/-- The offer depends on the mounts and on what is stored in the directory. -/
theorem Offered.congr {mnt : Option Nat} {dir dir' : VfsNode ω π} {name : CStr}
    {entry : Entry ω π} (offered : Offered code contents s mnt dir name entry)
    (mounts : ∀ m, mnt = some m → s'.mounts m = s.mounts m) (rootNode : s'.rootNode = s.rootNode)
    (ready : s'.ready = s.ready) (priv : dir'.priv = dir.priv) (type : dir'.type = dir.type) :
    Offered code contents s' mnt dir' name entry where
  has := by
    obtain ⟨m, mount, address, rfl, mountLive, sops, lookup, has⟩ := offered.has
    exact ⟨m, mount, address, rfl, (mounts m rfl).trans mountLive, sops, lookup, priv ▸ has⟩
  creatable := by
    obtain ⟨wasReady, root, valid, isDir, hasOps⟩ := offered.creatable
    exact ⟨ready.trans wasReady, rootNode ▸ root, valid, type.trans isDir, hasOps⟩

/-- The outcome of a lookup in one directory: the child is there, or the file
system offers none, or the node of the entry on offer has been created. -/
inductive ChildOutcome (code : FsCode ω π) (contents : Contents ω π) (s : Vfs ω π)
    (mnt : Option Nat) (above : Nat) (dir : VfsNode ω π) (name : CStr) :
    Vfs ω π × Option Nat → Prop where
  | there {id : Nat} (found : childNamed s above name = some id) :
      ChildOutcome code contents s mnt above dir name (s, some id)
  | refused (missing : childNamed s above name = none)
      (nothing : ∀ entry, ¬Offered code contents s mnt dir name entry) (world : ω) :
      ChildOutcome code contents s mnt above dir name ({ s with world := world }, none)
  | served {entry : Entry ω π} {world : ω} {s' : Vfs ω π}
      (missing : childNamed s above name = none)
      (offered : Offered code contents s mnt dir name entry)
      (grown : Grown { s with world := world } s' (withChild s above dir
        (freshNode name entry.type entry.fops entry.priv))) :
      ChildOutcome code contents s mnt above dir name (s', some s.nextNode)

theorem TreeInv.world (inv : TreeInv s) (world : ω) : TreeInv { s with world := world } :=
  inv.of_same ⟨fun _ => rfl, rfl, rfl⟩

/-- With room on the heap, `vfs_mknod` creates every node that can be created
under a new name. -/
theorem vfsMknod_creatable (inv : TreeInv s) (roomy : s.Roomy) {above : Nat}
    {dir : VfsNode ω π} (live : s.nodes above = some dir) {name : CStr}
    (missing : childNamed s above name = none) {entry : Entry ω π}
    (can : Creatable s dir name entry) :
    ∃ s', vfsMknod s (some above) name entry.type entry.fops entry.priv =
        some (s', some s.nextNode) ∧
      Grown s s' (withChild s above dir (freshNode name entry.type entry.fops entry.priv)) := by
  have absent := inv.vfsFindChildByName_eq (Option.isSome_iff_exists.mpr ⟨dir, live⟩) name
  rw [missing] at absent
  exact inv.vfsCreateNode_roomy roomy can.ready can.root live can.isDir can.valid absent
    can.hasOps entry.priv

/-- An entry that cannot be created changes nothing. -/
theorem vfsMknod_refused (inv : TreeInv s) {above : Nat} {dir : VfsNode ω π}
    (live : s.nodes above = some dir) {name : CStr} (missing : childNamed s above name = none)
    {entry : Entry ω π} (cannot : ¬Creatable s dir name entry) :
    vfsMknod s (some above) name entry.type entry.fops entry.priv = some (s, none) := by
  have absent := inv.vfsFindChildByName_eq (Option.isSome_iff_exists.mpr ⟨dir, live⟩) name
  rw [missing] at absent
  unfold vfsMknod vfsCreateNode
  by_cases ready : s.ready = true
  · cases root : s.rootNode with
    | none => simp
    | some id =>
        by_cases valid : vfsNameValid name = true
        · by_cases isDir : dir.type = .dir
          · have noOps : ¬(entry.type = .dir ∨ entry.fops.isSome) :=
              fun hasOps => cannot ⟨ready, by simp [root], valid, isDir, hasOps⟩
            rw [not_or] at noOps
            simp [ready, valid, live, absent, noOps.1, Option.not_isSome_iff_eq_none.mp noOps.2]
          · simp [ready, valid, live, isDir]
        · simp [ready, valid]
  · simp [ready]

/-- `vfs_mknod` refuses a name that is there. -/
theorem vfsMknod_present (inv : TreeInv s) {above id : Nat} {dir : VfsNode ω π}
    (live : s.nodes above = some dir) {name : CStr} (found : childNamed s above name = some id)
    (entry : Entry ω π) :
    vfsMknod s (some above) name entry.type entry.fops entry.priv = some (s, none) := by
  have present := inv.vfsFindChildByName_eq (Option.isSome_iff_exists.mpr ⟨dir, live⟩) name
  rw [found] at present
  simp [vfsMknod, vfsCreateNode, live, present]

/-- The file system of the innermost mount is asked, if it has a lookup. -/
theorem materialise_eq {m address : Nat} {mount : VfsMount π}
    (mountLive : s.mounts m = some mount) (sops : mount.sops = some address)
    {lookup : Vfs ω π → VfsMount π → Nat → CStr → Option (Vfs ω π × Option Nat)}
    (isLookup : code.lookup address = some lookup) (above : Nat) (name : CStr) :
    materialise code s (some m) above name = (lookup s mount above name).getD (s, none) := by
  simp [materialise, mountLive, sops, isLookup]

/-- Where no file system answers nothing is created. -/
theorem materialise_unasked {mnt : Option Nat} (unasked : ∀ m mount address, mnt = some m →
      s.mounts m = some mount → mount.sops = some address → code.lookup address = none)
    (above : Nat) (name : CStr) : materialise code s mnt above name = (s, none) := by
  unfold materialise
  cases isMount : mnt.bind s.mounts with
  | none => rfl
  | some mount =>
      obtain ⟨m, isMnt, mountLive⟩ := Option.bind_eq_some_iff.mp isMount
      have isLookup : mount.sops.bind code.lookup = none := by
        cases sops : mount.sops with
        | none => rfl
        | some address => exact unasked m mount address isMnt mountLive sops
      simp only [isLookup]

/-- A lookup in one directory has one of these outcomes. -/
theorem childOr_outcome (serves : code.Serves contents) (inv : TreeInv s) (roomy : s.Roomy)
    (mnt : Option Nat) {above : Nat} {dir : VfsNode ω π} (live : s.nodes above = some dir)
    (name : CStr) :
    ChildOutcome code contents s mnt above dir name (childOr code s mnt above name) := by
  unfold childOr
  cases found : childNamed s above name with
  | some id => exact .there found
  | none =>
      by_cases asked : ∃ m mount address, mnt = some m ∧ s.mounts m = some mount ∧
          mount.sops = some address ∧ (code.lookup address).isSome
      · obtain ⟨m, mount, address, rfl, mountLive, sops, isLookup⟩ := asked
        obtain ⟨lookup, isLookup⟩ := Option.isSome_iff_exists.mp isLookup
        obtain ⟨world, answer⟩ :=
          serves address lookup s mount above dir name isLookup roomy inv.unused live
        have has {entry : Entry ω π} (offered : Offered code contents s (some m) dir name entry) :
            contents address mount dir.priv name = some entry := by
          obtain ⟨m', mount', address', same, mountLive', sops', -, has⟩ := offered.has
          obtain rfl := Option.some.inj same
          obtain rfl := Option.some.inj (mountLive.symm.trans mountLive')
          obtain rfl := Option.some.inj (sops.symm.trans sops')
          exact has
        have invW := inv.world world
        have missing : childNamed { s with world := world } above name = none := found
        simp only [materialise_eq mountLive sops isLookup, answer]
        cases holds : contents address mount dir.priv name with
        | none =>
            refine .refused found (fun entry offered => ?_) world
            rw [has offered] at holds
            cases holds
        | some entry =>
            by_cases can : Creatable s dir name entry
            · have canW : Creatable { s with world := world } dir name entry :=
                ⟨can.ready, can.root, can.valid, can.isDir, can.hasOps⟩
              obtain ⟨s', made, grown⟩ := vfsMknod_creatable invW roomy live missing canW
              simp only [made, Option.getD_some]
              exact .served found
                ⟨⟨m, mount, address, rfl, mountLive, sops, by simp [isLookup], holds⟩, can⟩ grown
            · have cannot : ¬Creatable { s with world := world } dir name entry :=
                fun canW => can ⟨canW.ready, canW.root, canW.valid, canW.isDir, canW.hasOps⟩
              simp only [vfsMknod_refused invW live missing cannot, Option.getD_some]
              refine .refused found (fun other offered => ?_) world
              obtain rfl := Option.some.inj (holds.symm.trans (has offered))
              exact can offered.creatable
      · have unasked : ∀ m mount address, mnt = some m → s.mounts m = some mount →
            mount.sops = some address → code.lookup address = none := by
          intro m mount address isMnt mountLive sops
          by_contra isLookup
          exact asked ⟨m, mount, address, isMnt, mountLive, sops,
            Option.isSome_iff_ne_none.mpr isLookup⟩
        simp only [materialise_unasked unasked]
        refine .refused found (fun entry offered => ?_) s.world
        obtain ⟨m, mount, address, isMnt, mountLive, sops, isLookup, -⟩ := offered.has
        exact asked ⟨m, mount, address, isMnt, mountLive, sops, isLookup⟩

/-! ## Trees that have been filled -/

/-- A node that the lookup of a file system has created in its directory. -/
structure Served (code : FsCode ω π) (contents : Contents ω π) (s : Vfs ω π)
    (node : VfsNode ω π) : Prop where
  unmounted : node.mnt = none
  offered : ∃ mnt above dir entry, node.parent = some above ∧ s.nodes above = some dir ∧
    Inside s mnt above ∧ Offered code contents s mnt dir node.name entry ∧
    node.type = entry.type ∧ node.fops = entry.fops ∧ node.priv = entry.priv

/-- Nodes that file systems serve have been added, and nothing else. -/
structure Filled (code : FsCode ω π) (contents : Contents ω π) (s t : Vfs ω π) : Prop where
  old : ∀ id node, s.nodes id = some node →
    ∃ child, t.nodes id = some { node with child := child }
  served : ∀ id node, t.nodes id = some node → s.nodes id = none → Served code contents t node
  mounts : t.mounts = s.mounts
  rootNode : t.rootNode = s.rootNode
  ready : t.ready = s.ready
  nextMount : s.nextMount ≤ t.nextMount

/-- The relation speaks of the nodes and mounts alone. -/
theorem Filled.of_same (nodes : s'.nodes = s.nodes) (mounts : s'.mounts = s.mounts)
    (rootNode : s'.rootNode = s.rootNode) (ready : s'.ready = s.ready)
    (nextMount : s'.nextMount = s.nextMount) : Filled code contents s s' where
  old id node live := ⟨node.child, by rw [nodes, live]⟩
  served id node live fresh := by
    rw [nodes, fresh] at live
    cases live
  mounts := mounts
  rootNode := rootNode
  ready := ready
  nextMount := Nat.le_of_eq nextMount.symm

theorem Filled.refl (s : Vfs ω π) : Filled code contents s s := .of_same rfl rfl rfl rfl rfl

theorem Filled.under (filled : Filled code contents s t) {root id : Nat}
    (under : Under s root id) : Under t root id := by
  induction under with
  | self => exact .self
  | child live parent _ ih =>
      obtain ⟨child, live'⟩ := filled.old _ _ live
      exact .child live' parent ih

/-- A node that was there is under what it was under. -/
theorem Filled.under_old (filled : Filled code contents s t) (inv : TreeInv s) {root id : Nat}
    (under : Under t root id) (old : (s.nodes id).isSome) : Under s root id := by
  induction under with
  | self => exact .self
  | @child id above node live parent _ ih =>
      obtain ⟨before, was⟩ := Option.isSome_iff_exists.mp old
      obtain ⟨child, same⟩ := filled.old id before was
      obtain rfl := Option.some.inj (live.symm.trans same)
      obtain ⟨-, dir, aboveLive, -⟩ := inv.parent id before above was parent
      exact .child was parent (ih (by simp [aboveLive]))

/-- What is inside a mount stays inside it. -/
theorem Filled.inside (filled : Filled code contents s t) {mnt : Option Nat} {id : Nat}
    (inside : Inside s mnt id) : Inside t mnt id := by
  cases mnt with
  | none =>
      obtain ⟨root, isRoot, under⟩ := inside
      exact ⟨root, filled.rootNode.trans isRoot, filled.under under⟩
  | some m =>
      obtain ⟨mount, mountLive, under⟩ := inside
      exact ⟨mount, by rw [filled.mounts, mountLive], filled.under under⟩

/-- A node that was served is one in the filled tree too. -/
theorem Served.filled {node : VfsNode ω π} (served : Served code contents s node)
    (filled : Filled code contents s t) (child : Option Nat) :
    Served code contents t { node with child := child } where
  unmounted := served.unmounted
  offered := by
    obtain ⟨mnt, above, dir, entry, parent, live, inside, offered, same⟩ := served.offered
    obtain ⟨first, live'⟩ := filled.old above dir live
    refine ⟨mnt, above, _, entry, parent, live', filled.inside inside, ?_, same⟩
    exact offered.congr (fun m _ => by rw [filled.mounts]) filled.rootNode filled.ready rfl rfl

/-- Fillings compose. -/
theorem Filled.trans {u : Vfs ω π} (first : Filled code contents s t)
    (second : Filled code contents t u) : Filled code contents s u where
  old id node live := by
    obtain ⟨child, live'⟩ := first.old id node live
    obtain ⟨child', live''⟩ := second.old id _ live'
    exact ⟨child', live''⟩
  served id node live fresh := by
    cases between : t.nodes id with
    | none => exact second.served id node live between
    | some before =>
        obtain ⟨child, live'⟩ := second.old id before between
        obtain rfl := Option.some.inj (live.symm.trans live')
        exact (first.served id before between fresh).filled second child
  mounts := second.mounts.trans first.mounts
  rootNode := second.rootNode.trans first.rootNode
  ready := second.ready.trans first.ready
  nextMount := first.nextMount.trans second.nextMount

/-- The node that has been added. -/
theorem Grown.new_eq {above id : Nat} {dir fresh node : VfsNode ω π} {world : ω} (inv : TreeInv s)
    (live : s.nodes above = some dir)
    (grown : Grown { s with world := world } s' (withChild s above dir fresh))
    (is : s'.nodes id = some node) (isNew : s.nodes id = none) :
    id = s.nextNode ∧ node = { fresh with parent := some above, sibling := dir.child } := by
  have isNext : id = s.nextNode := by
    by_contra notNext
    obtain ⟨child, same⟩ := withChild_old fresh live notNext
    rw [grown.nodes, same, isNew] at is
    cases is
  subst isNext
  rw [grown.nodes, withChild_new (Nat.ne_of_gt (inv.lt above dir live))] at is
  exact ⟨rfl, (Option.some.inj is).symm⟩

/-- A lookup in one directory fills the tree. -/
theorem ChildOutcome.filled {mnt : Option Nat} {above : Nat} {dir : VfsNode ω π} {name : CStr}
    {result : Vfs ω π × Option Nat}
    (outcome : ChildOutcome code contents s mnt above dir name result) (inv : TreeInv s)
    (live : s.nodes above = some dir) (inside : Inside s mnt above) :
    Filled code contents s result.1 := by
  cases outcome with
  | there => exact .refl s
  | refused => exact .of_same rfl rfl rfl rfl rfl
  | @served entry world s' missing offered grown =>
      have ne : s.nextNode ≠ above := Nat.ne_of_gt (inv.lt above dir live)
      have old (id : Nat) (node : VfsNode ω π) (was : s.nodes id = some node) :
          ∃ child, s'.nodes id = some { node with child := child } := by
        obtain ⟨child, same⟩ := withChild_old (freshNode name entry.type entry.fops entry.priv)
          live (Nat.ne_of_lt (inv.lt id node was))
        rw [grown.nodes, same, was]
        exact ⟨_, rfl⟩
      have under {root id : Nat} (under : Under s root id) : Under s' root id := by
        induction under with
        | self => exact .self
        | child live parent _ ih =>
            obtain ⟨child, live'⟩ := old _ _ live
            exact .child live' parent ih
      refine ⟨old, fun id node is fresh => ?_, grown.mounts, grown.rootNode, grown.ready,
        Nat.le_of_eq grown.nextMount.symm⟩
      obtain ⟨rfl, rfl⟩ := grown.new_eq inv live is fresh
      refine ⟨rfl, mnt, above, { dir with child := some s.nextNode }, entry, rfl, ?_, ?_, ?_,
        rfl, rfl, rfl⟩
      · rw [grown.nodes, withChild_above]
      · cases mnt with
        | none =>
            obtain ⟨root, isRoot, below⟩ := inside
            exact ⟨root, grown.rootNode.trans isRoot, under below⟩
        | some m =>
            obtain ⟨mount, mountLive, below⟩ := inside
            exact ⟨mount, by rw [grown.mounts]; exact mountLive, under below⟩
      · exact offered.congr (fun m _ => by rw [grown.mounts]) grown.rootNode grown.ready rfl rfl

/-- A node that a lookup in one directory returns or adds has the name. -/
theorem ChildOutcome.named {mnt : Option Nat} {above : Nat} {dir : VfsNode ω π} {name : CStr}
    {result : Vfs ω π × Option Nat}
    (outcome : ChildOutcome code contents s mnt above dir name result) (inv : TreeInv s)
    (live : s.nodes above = some dir) :
    (∀ id, result.2 = some id →
      ∃ node, result.1.nodes id = some node ∧ node.parent = some above ∧ node.name = name) ∧
    ∀ id node, result.1.nodes id = some node → s.nodes id = none → node.name = name := by
  cases outcome with
  | @there id found =>
      refine ⟨fun id' same => ?_, fun id node is isNew => ?_⟩
      · obtain rfl := Option.some.inj same
        exact childNamed_spec inv found
      · rw [isNew] at is
        cases is
  | refused =>
      refine ⟨by simp, fun id node is isNew => ?_⟩
      rw [isNew] at is
      cases is
  | @served entry world s' missing offered grown =>
      refine ⟨fun id same => ?_, fun id node is isNew => ?_⟩
      · obtain rfl := Option.some.inj same
        have isNew := @withChild_new _ _ s above dir (freshNode name entry.type entry.fops
          entry.priv) (Nat.ne_of_gt (inv.lt above dir live))
        rw [← grown.nodes] at isNew
        exact ⟨_, isNew, rfl, rfl⟩
      · obtain ⟨-, rfl⟩ := grown.new_eq inv live is isNew
        rfl

/-! ## Lookups fill the tree -/

/-- A lookup that serves entries materialises them. -/
theorem FsCode.Serves.materialises (serves : code.Serves contents) : code.Materialises := by
  intro address lookup s mount dir name isLookup names roomy live missing
  obtain ⟨node, nodeLive⟩ := Option.isSome_iff_exists.mp live
  obtain ⟨world, answer⟩ :=
    serves address lookup s mount dir node name isLookup roomy names.tree.unused nodeLive
  have world' : Builds s { s with world := world } := .single (.world s world)
  cases has : contents address mount node.priv name with
  | none =>
      rw [has] at answer
      exact ⟨_, none, answer, world', by simp⟩
  | some entry =>
      rw [has] at answer
      have isLive : Vfs.Live { s with world := world } (some dir) := by
        intro id same
        obtain rfl := Option.some.inj same
        exact live
      obtain ⟨s', found, done⟩ : ∃ s' found, vfsMknod { s with world := world } (some dir) name
          entry.type entry.fops entry.priv = some (s', found) := by
        rcases (names.tree.world world).vfsCreateNode isLive name entry.type entry.fops
            entry.priv with ⟨s', done, -⟩ | ⟨s', -, -, -, done, -⟩
        · exact ⟨s', none, done⟩
        · exact ⟨s', some s.nextNode, done⟩
      refine ⟨s', found, answer.trans done, world'.tail (.create isLive done), ?_⟩
      rintro id rfl
      obtain ⟨made, live', parent, same, -⟩ :=
        (names.tree.world world).vfsCreateNode_created isLive done
      exact ⟨made, live', parent, same⟩

/-- A position in the tree of its mount. -/
structure Homed (s : Vfs ω π) (position : Nat × Option Nat) : Prop where
  node : (s.nodes position.1).isSome
  inside : Inside s position.2 position.1

theorem Homed.position {position : Nat × Option Nat} (homed : Homed s position) :
    Position s position where
  node := homed.node
  mount m isMnt := by
    have inside := homed.inside
    rw [isMnt] at inside
    obtain ⟨mount, mountLive, -⟩ := inside
    simp [mountLive]

theorem Homed.filled {position : Nat × Option Nat} (homed : Homed s position)
    (filled : Filled code contents s t) : Homed t position where
  node := by
    obtain ⟨node, live⟩ := Option.isSome_iff_exists.mp homed.node
    obtain ⟨child, live'⟩ := filled.old _ node live
    simp [live']
  inside := filled.inside homed.inside

theorem FileInv.crossAll_homed (inv : FileInv s) {position : Nat × Option Nat}
    (homed : Homed s position) : Homed s (crossAll s position) := by
  apply climb_along _ _ homed
  intro before after _ step
  have there := inv.names.crossing_position before after step
  obtain ⟨node, m, mount, -, -, mountLive, rfl⟩ := crossing_eq_some step
  exact ⟨there.node, mount, mountLive, .self⟩

theorem FileInv.root_homed (inv : FileInv s) {root : Nat} (isRoot : s.rootNode = some root) :
    Homed s (root, none) :=
  ⟨(inv.names.root_position isRoot).node, root, isRoot, .self⟩

/-- A name that is looked up fills the tree when the lookup in its directory does. -/
theorem resolveStep_fills (materialises : code.Materialises) (inv : FileInv s) (roomy : s.Roomy)
    {position : Nat × Option Nat} (homed : Homed s position) (follow : Bool) {name : CStr}
    (filled : Filled code contents s (childOr code s position.2 position.1 name).1) :
    Filled code contents s (resolveStep code follow (s, some position) name).1 ∧
      ∀ position', (resolveStep code follow (s, some position) name).2 = some position' →
        Homed (resolveStep code follow (s, some position) name).1 position' := by
  obtain ⟨-, builds, child⟩ := childOr_spec materialises inv.names roomy homed.position name
  unfold resolveStep
  by_cases empty : name = []
  · simp only [if_pos empty]
    exact ⟨.refl s, by simp⟩
  · simp only [if_neg empty]
    generalize childOr code s position.2 position.1 name = made at filled builds child
    obtain ⟨s', next⟩ := made
    refine ⟨filled, fun position' same => ?_⟩
    obtain ⟨id, isNext, rfl⟩ := Option.map_eq_some_iff.mp same
    have inv' := (builds.files inv).1
    obtain ⟨node, nodeLive, parent, -⟩ := childNamed_spec inv'.tree (child id isNext)
    have inside : Inside s' position.2 id := by
      have above := filled.inside homed.inside
      generalize position.2 = mnt at above
      cases mnt with
      | none =>
          obtain ⟨root, isRoot, under⟩ := above
          exact ⟨root, isRoot, .child nodeLive parent under⟩
      | some m =>
          obtain ⟨mount, mountLive, under⟩ := above
          exact ⟨mount, mountLive, .child nodeLive parent under⟩
    have homed' : Homed s' (id, position.2) :=
      ⟨Option.isSome_iff_exists.mpr ⟨node, nodeLive⟩, inside⟩
    cases follow with
    | true => exact inv'.crossAll_homed homed'
    | false => exact homed'

theorem childOr_filled (serves : code.Serves contents) (inv : TreeInv s) (roomy : s.Roomy)
    {position : Nat × Option Nat} (homed : Homed s position) (name : CStr) :
    Filled code contents s (childOr code s position.2 position.1 name).1 := by
  obtain ⟨dir, live⟩ := Option.isSome_iff_exists.mp homed.node
  exact (childOr_outcome serves inv roomy position.2 live name).filled inv live homed.inside

theorem resolveStep_filled (serves : code.Serves contents) (inv : FileInv s) (roomy : s.Roomy)
    {position : Nat × Option Nat} (homed : Homed s position) (follow : Bool) (name : CStr) :
    Filled code contents s (resolveStep code follow (s, some position) name).1 ∧
      ∀ position', (resolveStep code follow (s, some position) name).2 = some position' →
        Homed (resolveStep code follow (s, some position) name).1 position' :=
  resolveStep_fills serves.materialises inv roomy homed follow
    (childOr_filled serves inv.tree roomy homed name)

/-- Resolving a path creates only what the file systems hold. -/
theorem resolveFrom_filled (serves : code.Serves contents) {followLast : Bool}
    (names : List CStr) (inv : FileInv s) (roomy : s.Roomy) {position : Nat × Option Nat}
    (homed : Homed s position) :
    Filled code contents s (resolveFrom code followLast (s, some position) names).1 := by
  induction names generalizing s position with
  | nil => exact .refl s
  | cons name names ih =>
      have step (follow : Bool) := resolveStep_filled serves inv roomy homed follow name
      have builds :=
        (resolveStep_spec serves.materialises inv.names roomy homed.position true name).1
      rw [resolveFrom_cons]
      split
      · exact (step followLast).1
      · obtain ⟨filled, homed'⟩ := step true
        generalize resolveStep code true (s, some position) name = made at filled homed' builds
        obtain ⟨s', next⟩ := made
        cases next with
        | none =>
            rw [resolveFrom_none]
            exact filled
        | some next =>
            exact filled.trans (ih (builds.files inv).1 (builds.roomy inv.tree roomy)
              (homed' next rfl))

/-- A path that is looked up fills the tree. -/
theorem resolveEx_filled (serves : code.Serves contents) (inv : FileInv s) (roomy : s.Roomy)
    (followLast : Bool) (path : CStr) :
    Filled code contents s (resolveEx code followLast s path).1 := by
  unfold resolveEx
  cases isRoot : s.rootNode with
  | none => exact .refl s
  | some root =>
      simp only
      split
      · exact .refl s
      · exact resolveFrom_filled serves _ inv roomy (inv.crossAll_homed (inv.root_homed isRoot))

/-! ## The same place in two states -/

/-- A node that was there, or in each state a new one for the same entry, in
the same place. -/
inductive SamePlace (s a b : Vfs ω π) : Nat → Nat → Prop where
  | old {id : Nat} (live : (s.nodes id).isSome) : SamePlace s a b id id
  | new {id id' above above' : Nat} {node node' : VfsNode ω π} (fresh : s.nodes id = none)
      (fresh' : s.nodes id' = none) (live : a.nodes id = some node)
      (live' : b.nodes id' = some node') (name : node'.name = node.name)
      (type : node'.type = node.type) (fops : node'.fops = node.fops)
      (priv : node'.priv = node.priv) (parent : node.parent = some above)
      (parent' : node'.parent = some above') (place : SamePlace s a b above above') :
      SamePlace s a b id id'

/-- A node that was there is in the place of no other. -/
theorem SamePlace.eq_of_old {a b : Vfs ω π} {id id' : Nat} (same : SamePlace s a b id id')
    (live : (s.nodes id).isSome) : id' = id := by
  cases same with
  | old => rfl
  | new fresh =>
      rw [fresh] at live
      cases live

/-- Two lookups of one place stay at one place. -/
theorem SamePlace.filled {a b a' b' : Vfs ω π} {id id' : Nat} (same : SamePlace s a b id id')
    (first : Filled code contents a a') (second : Filled code contents b b') :
    SamePlace s a' b' id id' := by
  induction same with
  | old live => exact .old live
  | new fresh fresh' live live' name type fops priv parent parent' _ ih =>
      obtain ⟨child, after⟩ := first.old _ _ live
      obtain ⟨child', after'⟩ := second.old _ _ live'
      exact .new fresh fresh' after after' name type fops priv parent parent' ih

/-- A state that has been filled from another one. -/
structure Filling (code : FsCode ω π) (contents : Contents ω π) (s t : Vfs ω π) : Prop where
  filled : Filled code contents s t
  inv : FileInv t
  roomy : t.Roomy

/-- The lookup of a name in a filled state finds what was there, or a node for
the entry on offer. -/
theorem Filling.childOr_seen (serves : code.Serves contents) (base : TreeInv s)
    (filling : Filling code contents s t) {position : Nat × Option Nat}
    (homed : Homed t position) {dir : VfsNode ω π} (live : t.nodes position.1 = some dir)
    (name : CStr) :
    (∀ id, childNamed s position.1 name = some id →
      childOr code t position.2 position.1 name = (t, some id)) ∧
    (childNamed s position.1 name = none →
      (childOr code t position.2 position.1 name).2 = none ∧
        (∀ entry, ¬Offered code contents t position.2 dir name entry) ∨
      ∃ entry id node, Offered code contents t position.2 dir name entry ∧
        (childOr code t position.2 position.1 name).2 = some id ∧ s.nodes id = none ∧
        (childOr code t position.2 position.1 name).1.nodes id = some node ∧
        node.name = name ∧ node.type = entry.type ∧ node.fops = entry.fops ∧
        node.priv = entry.priv ∧ node.parent = some position.1) := by
  obtain ⟨filled, inv, roomy⟩ := filling
  constructor
  · intro id found
    obtain ⟨node, nodeLive, parent, rfl⟩ := childNamed_spec base found
    obtain ⟨child, nodeLive'⟩ := filled.old id node nodeLive
    have there := childNamed_child inv.tree nodeLive' parent
    unfold childOr
    rw [there]
  · intro missing
    have outcome := childOr_outcome serves inv.tree roomy position.2 live name
    generalize childOr code t position.2 position.1 name = result at outcome
    cases outcome with
    | refused _ nothing => exact Or.inl ⟨rfl, nothing⟩
    | @there id found =>
        obtain ⟨node, nodeLive, parent, rfl⟩ := childNamed_spec inv.tree found
        have fresh : s.nodes id = none := by
          by_contra old
          obtain ⟨before, was⟩ := Option.ne_none_iff_exists'.mp old
          obtain ⟨child, same⟩ := filled.old id before was
          obtain rfl := Option.some.inj (nodeLive.symm.trans same)
          exact (childNamed_eq_none base).mp missing id before was parent rfl
        obtain ⟨mnt, above, dir', entry, parent', live', inside, offered, type, fops, priv⟩ :=
          (filled.served id node nodeLive fresh).offered
        obtain rfl := Option.some.inj (parent'.symm.trans parent)
        obtain rfl := Option.some.inj (live'.symm.trans live)
        rw [inv.inside_eq inside homed.inside] at offered
        exact Or.inr ⟨entry, id, node, offered, rfl, fresh, nodeLive, rfl, type, fops, priv, parent⟩
    | @served entry world t' _ offered grown =>
        have fresh : s.nodes t.nextNode = none := by
          by_contra old
          obtain ⟨before, was⟩ := Option.ne_none_iff_exists'.mp old
          obtain ⟨child, same⟩ := filled.old _ before was
          rw [inv.tree.fresh] at same
          cases same
        refine Or.inr ⟨entry, t.nextNode, { freshNode name entry.type entry.fops entry.priv with
          parent := some position.1, sibling := dir.child }, offered, rfl, fresh, ?_, rfl, rfl,
          rfl, rfl, rfl⟩
        rw [grown.nodes]
        exact withChild_new (Nat.ne_of_gt (inv.tree.lt _ dir live))

/-- Directories in the same place hold the same and have the same old children. -/
theorem SamePlace.dir {a b : Vfs ω π} {id id' : Nat} (same : SamePlace s a b id id')
    (base : TreeInv s) (first : Filled code contents s a) (second : Filled code contents s b)
    {dir dir' : VfsNode ω π} (live : a.nodes id = some dir) (live' : b.nodes id' = some dir') :
    dir'.type = dir.type ∧ dir'.priv = dir.priv ∧
      ∀ name, childNamed s id' name = childNamed s id name := by
  cases same with
  | old was =>
      obtain ⟨node, was⟩ := Option.isSome_iff_exists.mp was
      obtain ⟨child, same⟩ := first.old id node was
      obtain ⟨child', same'⟩ := second.old id node was
      obtain rfl := Option.some.inj (live.symm.trans same)
      obtain rfl := Option.some.inj (live'.symm.trans same')
      exact ⟨rfl, rfl, fun _ => rfl⟩
  | new fresh fresh' nodeLive nodeLive' _ type _ priv =>
      obtain rfl := Option.some.inj (live.symm.trans nodeLive)
      obtain rfl := Option.some.inj (live'.symm.trans nodeLive')
      have childless {other : Nat} (isNew : s.nodes other = none) (name : CStr) :
          childNamed s other name = none := by
        rw [childNamed_eq_none base]
        intro child node childLive parent
        obtain ⟨-, above, aboveLive, -⟩ := base.parent child node other childLive parent
        rw [isNew] at aboveLive
        cases aboveLive
      exact ⟨type, priv, fun name => by rw [childless fresh, childless fresh']⟩

/-- Crossing mounts in a filled state. -/
theorem Filled.crossAll (filled : Filled code contents s t) (base : Namespace s)
    {position : Nat × Option Nat} (here : Position s position) :
    Zsbl.Common.crossAll t position = Zsbl.Common.crossAll s position := by
  unfold Zsbl.Common.crossAll
  rw [← climb_enough base.crossing_falls (mountsFrom_card_le position.1) filled.nextMount]
  apply climb_congr _ (fun before after _ => base.crossing_position before after) _ here
  intro before there
  obtain ⟨node, live⟩ := Option.isSome_iff_exists.mp there.node
  obtain ⟨child, live'⟩ := filled.old _ node live
  simp [crossing, live, live', filled.mounts]

/-- Crossing mounts from the same place leads to the same place. -/
theorem SamePlace.crossAll {a b : Vfs ω π} {id id' : Nat} (same : SamePlace s a b id id')
    (base : Namespace s) (first : Filled code contents s a) (second : Filled code contents s b)
    {mnt : Option Nat} (mounted : ∀ m, mnt = some m → (s.mounts m).isSome) :
    (Zsbl.Common.crossAll b (id', mnt)).2 = (Zsbl.Common.crossAll a (id, mnt)).2 ∧
      SamePlace s a b (Zsbl.Common.crossAll a (id, mnt)).1
        (Zsbl.Common.crossAll b (id', mnt)).1 := by
  cases same with
  | old live =>
      have here : Position s (id, mnt) := ⟨live, mounted⟩
      rw [first.crossAll base here, second.crossAll base here]
      exact ⟨rfl, .old (base.crossAll_position here).node⟩
  | new fresh fresh' live live' name type fops priv parent parent' place =>
      have unmounted := (first.served id _ live fresh).unmounted
      have unmounted' := (second.served id' _ live' fresh').unmounted
      have stop : crossing a (id, mnt) = none := by simp [crossing, live, unmounted]
      have stop' : crossing b (id', mnt) = none := by simp [crossing, live', unmounted']
      unfold Zsbl.Common.crossAll
      rw [climb_stop stop, climb_stop stop']
      exact ⟨rfl, .new fresh fresh' live live' name type fops priv parent parent' place⟩

/-- A name leads from the same place to the same place. -/
theorem childOr_samePlace {a b : Vfs ω π} (serves : code.Serves contents) (base : TreeInv s)
    (first : Filling code contents s a) (second : Filling code contents s b)
    {position position' : Nat × Option Nat} (homed : Homed a position)
    (homed' : Homed b position') (mnt : position'.2 = position.2)
    (place : SamePlace s a b position.1 position'.1) (name : CStr) :
    Option.Rel (SamePlace s (childOr code a position.2 position.1 name).1
        (childOr code b position'.2 position'.1 name).1)
      (childOr code a position.2 position.1 name).2
      (childOr code b position'.2 position'.1 name).2 := by
  obtain ⟨dir, live⟩ := Option.isSome_iff_exists.mp homed.node
  obtain ⟨dir', live'⟩ := Option.isSome_iff_exists.mp homed'.node
  obtain ⟨type, priv, old⟩ := place.dir base first.filled second.filled live live'
  have above := place.filled (childOr_filled serves first.inv.tree first.roomy homed name)
    (childOr_filled serves second.inv.tree second.roomy homed' name)
  obtain ⟨there, fresh⟩ := first.childOr_seen serves base homed live name
  obtain ⟨there', fresh'⟩ := second.childOr_seen serves base homed' live' name
  have mounts : b.mounts = a.mounts := second.filled.mounts.trans first.filled.mounts.symm
  have rootNode : b.rootNode = a.rootNode := second.filled.rootNode.trans first.filled.rootNode.symm
  have ready : b.ready = a.ready := second.filled.ready.trans first.filled.ready.symm
  have offered {entry : Entry ω π} (offer : Offered code contents a position.2 dir name entry) :
      Offered code contents b position'.2 dir' name entry := by
    rw [mnt]
    exact offer.congr (fun m _ => by rw [mounts]) rootNode ready priv type
  have offered' {entry : Entry ω π} (offer : Offered code contents b position'.2 dir' name entry) :
      Offered code contents a position.2 dir name entry := by
    rw [mnt] at offer
    exact offer.congr (fun m _ => by rw [mounts]) rootNode.symm ready.symm priv.symm type.symm
  cases found : childNamed s position.1 name with
  | some id =>
      obtain ⟨node, nodeLive, -⟩ := childNamed_spec base found
      rw [there id found, there' id ((old name).trans found)]
      exact .some (.old (by simp [nodeLive]))
  | none =>
      rcases fresh found with ⟨result, nothing⟩ |
        ⟨entry, id, node, offer, result, isNew, nodeLive, named, type, fops, priv, parent⟩ <;>
      rcases fresh' ((old name).trans found) with ⟨result', nothing'⟩ |
        ⟨entry', id', node', offer', result', isNew', nodeLive', named', type', fops', priv',
          parent'⟩
      · rw [result, result']
        exact .none
      · exact absurd (offered' offer') (nothing entry')
      · exact absurd (offered offer) (nothing' entry)
      · obtain rfl := (offered offer).unique offer'
        rw [result, result']
        exact .some (.new isNew isNew' nodeLive nodeLive' (named'.trans named.symm)
          (type'.trans type.symm) (fops'.trans fops.symm) (priv'.trans priv.symm) parent parent'
          above)

/-- Two filled states whose positions are the same place. -/
structure Alongside (code : FsCode ω π) (contents : Contents ω π) (s : Vfs ω π)
    (left right : Vfs ω π × Option (Nat × Option Nat)) : Prop where
  first : Filling code contents s left.1
  second : Filling code contents s right.1
  same : Option.Rel (fun position position' => Homed left.1 position ∧
    Homed right.1 position' ∧ position'.2 = position.2 ∧
    SamePlace s left.1 right.1 position.1 position'.1) left.2 right.2

theorem Filling.step (serves : code.Serves contents) (filling : Filling code contents s t)
    {position : Nat × Option Nat} (homed : Homed t position) (name : CStr) :
    Filling code contents s (resolveStep code true (t, some position) name).1 := by
  have builds := (resolveStep_spec serves.materialises filling.inv.names filling.roomy
    homed.position true name).1
  exact ⟨filling.filled.trans
    (resolveStep_filled serves filling.inv filling.roomy homed true name).1,
    (builds.files filling.inv).1, builds.roomy filling.inv.tree filling.roomy⟩

/-- One name on, from the same place to the same place. -/
theorem Alongside.step (serves : code.Serves contents) (base : FileInv s)
    {left right : Vfs ω π × Option (Nat × Option Nat)}
    (along : Alongside code contents s left right) (name : CStr) :
    Alongside code contents s (resolveStep code true left name)
      (resolveStep code true right name) := by
  obtain ⟨a, found⟩ := left
  obtain ⟨b, found'⟩ := right
  obtain ⟨first, second, same⟩ := along
  cases same with
  | none => exact ⟨first, second, .none⟩
  | @some position position' same =>
      obtain ⟨above, mnt⟩ := position
      obtain ⟨above', mnt'⟩ := position'
      obtain ⟨homed, homed', sameMnt, place⟩ := same
      obtain rfl : mnt' = mnt := sameMnt
      have first' := first.step serves homed name
      have second' := second.step serves homed' name
      have leads := (resolveStep_filled serves first.inv first.roomy homed true name).2
      have leads' := (resolveStep_filled serves second.inv second.roomy homed' true name).2
      have next := childOr_samePlace serves base.tree first second homed homed' rfl place name
      refine ⟨first', second', ?_⟩
      by_cases empty : name = []
      · simp only [resolveStep, if_pos empty]
        exact .none
      · simp only [resolveStep, if_neg empty, if_true] at first' second' leads leads' ⊢
        generalize childOr code a mnt' above name = made at first' leads next ⊢
        generalize childOr code b mnt' above' name = made' at second' leads' next ⊢
        obtain ⟨a', found⟩ := made
        obtain ⟨b', found'⟩ := made'
        cases next with
        | none => exact .none
        | @some id id' next =>
            have mounted : ∀ m, mnt' = some m → (s.mounts m).isSome := by
              intro m isMnt
              rw [← first.filled.mounts]
              exact homed.position.mount m isMnt
            have crossed := next.crossAll base.names first'.filled second'.filled mounted
            exact .some ⟨leads _ rfl, leads' _ rfl, crossed⟩

/-- Looking a path up in two filled states leads to the same place. -/
theorem resolve_alongside {a b : Vfs ω π} (serves : code.Serves contents) (base : FileInv s)
    (first : Filling code contents s a) (second : Filling code contents s b) (path : CStr) :
    Alongside code contents s (resolve code a path) (resolve code b path) := by
  apply List.foldl_rel
  · refine ⟨first, second, ?_⟩
    rw [first.filled.rootNode, second.filled.rootNode]
    cases isRoot : s.rootNode with
    | none => exact .none
    | some root =>
        have homed := base.root_homed isRoot
        have place : SamePlace s a b root root := .old homed.node
        have crossed := place.crossAll base.names first.filled second.filled homed.position.mount
        exact .some ⟨first.inv.crossAll_homed (homed.filled first.filled),
          second.inv.crossAll_homed (homed.filled second.filled), crossed⟩
  · intro name _ left right along
    exact along.step serves base name

/-- `vfs_lookup` finds the same in a state and in what has been filled from it:
the same node where it was there, a new one in the same place where the file
system serves it, and otherwise nothing. -/
theorem lookup_samePlace (serves : code.Serves contents) (base : FileInv s) (roomy : s.Roomy)
    (filling : Filling code contents s t) (path : Option CStr) :
    ∃ a found b found', vfsLookup code s path = some (a, found) ∧
      vfsLookup code t path = some (b, found') ∧ Option.Rel (SamePlace s a b) found found' := by
  cases path with
  | none => exact ⟨s, none, t, none, rfl, rfl, .none⟩
  | some path =>
      by_cases absolute : vfsIsPathValid path = true
      · have along := resolve_alongside serves base ⟨.refl s, base, roomy⟩ filling path
        refine ⟨_, _, _, _, vfsLookup_eq serves.materialises base.names roomy absolute,
          vfsLookup_eq serves.materialises filling.inv.names filling.roomy absolute, ?_⟩
        generalize resolve code s path = left at along ⊢
        generalize resolve code t path = right at along ⊢
        obtain ⟨a, found⟩ := left
        obtain ⟨b, found'⟩ := right
        cases along.same with
        | none => exact .none
        | some same => exact .some same.2.2.2
      · rw [Bool.not_eq_true] at absolute
        exact ⟨s, none, t, none, by simp [vfsLookup, absolute], by simp [vfsLookup, absolute],
          .none⟩

end Zsbl.Common
