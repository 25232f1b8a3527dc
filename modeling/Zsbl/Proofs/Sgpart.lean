/-
Module: Zsbl.Proofs.Sgpart
Purpose: What the file system of a partition table shows: a file for the first
  record of each name, which reads as the record's part of the medium.
Trusted boundary: a device reads the bytes inside its medium and fails outside
Main exports:
  ExactReads, TableAt, Shows, sgpartAdd_shows, sgpartMount_shows
-/
import Zsbl.Fs.Sgpart
import Zsbl.Proofs.Vfs

namespace Zsbl.Fs

open Zsbl.Lib Zsbl.Common

/-- Reads return the bytes inside the medium, and an error outside. -/
structure ExactReads (read : Nat → Nat → Int × List UInt8) (medium : List UInt8) : Prop where
  inside : ∀ offset size bytes, slice medium offset size = some bytes →
    read offset size = ((size : Int), bytes)
  outside : ∀ offset size, slice medium offset size = none → (read offset size).1 < 0

/-- The name of the file for a record. -/
def PartInfo.fileName (pi : PartInfo) : List UInt8 := cstr pi.name

/-- Records at an offset, followed by one without the magic number. -/
def TableAt (medium : List UInt8) : Nat → List PartInfo → Prop
  | offset, [] => ∃ last, slice medium offset PartInfo.sizeof = some last ∧
      PartInfo.magic ⟨last⟩ ≠ DPT_MAGIC
  | offset, pi :: recs =>
      slice medium offset PartInfo.sizeof = some pi.bytes ∧ pi.magic = DPT_MAGIC ∧
        (pi.fileName ≠ [] ∧ slash ∉ pi.fileName) ∧
        TableAt medium (offset + PartInfo.sizeof) recs

/-- The first of the records with a name. -/
def firstRecord (recs : List PartInfo) (name : List UInt8) : Option PartInfo :=
  recs.find? fun pi => pi.fileName = name

/-! ## The files of a mount -/

variable {s s' : Vfs Media SgpartPriv} {root blkdev : Nat}

/-- The node is the file of a record. -/
structure FileOf (node : VfsNode Media SgpartPriv) (blkdev : Nat) (pi : PartInfo) : Prop where
  name : node.name = pi.fileName
  type : node.type = .reg
  fops : node.fops = some sgpartFops
  priv : node.priv = some (.file blkdev pi.offset pi.size)

/-- The children of the root are the files of the first records. -/
structure Shows (s : Vfs Media SgpartPriv) (root blkdev : Nat) (recs : List PartInfo) :
    Prop where
  child : ∀ id node, s.nodes id = some node → node.parent = some root →
    ∃ pi, firstRecord recs node.name = some pi ∧ FileOf node blkdev pi
  made : ∀ name pi, firstRecord recs name = some pi →
    ∃ id node, s.nodes id = some node ∧ node.parent = some root ∧ node.name = name

/-- A mount is being built: nodes can be made below its root. -/
structure Building (s : Vfs Media SgpartPriv) (root : Nat) : Prop where
  tree : TreeInv s
  roomy : s.Roomy
  ready : s.ready = true
  rootNode : s.rootNode.isSome
  dir : ∃ node, s.nodes root = some node ∧ node.type = .dir

theorem firstRecord_append (recs : List PartInfo) (pi : PartInfo) (name : List UInt8) :
    firstRecord (recs ++ [pi]) name =
      (firstRecord recs name).or (if pi.fileName = name then some pi else none) := by
  unfold firstRecord
  rw [List.find?_append]
  by_cases same : pi.fileName = name
  · simp [same]
  · simp [same]

theorem firstRecord_name {recs : List PartInfo} {name : List UInt8} {pi : PartInfo}
    (first : firstRecord recs name = some pi) : pi.fileName = name := by
  simpa using List.find?_some first

theorem roomy_of_mem (roomy : s.Roomy)
    (mem : ∃ calls, s'.mem = fun call => s.mem (call + calls)) : s'.Roomy := by
  obtain ⟨calls, mem⟩ := mem
  intro call
  rw [mem]
  exact roomy _

/-- What leaves the nodes alone leaves the files of a mount. -/
theorem Building.quiet (building : Building s root) (quiet : Quiet s s') : Building s' root where
  tree := building.tree.of_same quiet.sameTree
  roomy := roomy_of_mem building.roomy quiet.mem
  ready := quiet.ready.trans building.ready
  rootNode := by rw [quiet.rootNode]; exact building.rootNode
  dir := by rw [quiet.nodes]; exact building.dir

theorem Shows.quiet {recs : List PartInfo} (shows : Shows s root blkdev recs)
    (quiet : Quiet s s') : Shows s' root blkdev recs where
  child := by rw [quiet.nodes]; exact shows.child
  made := by rw [quiet.nodes]; exact shows.made

/-- A new node below the root. -/
theorem Building.create (building : Building s root) {dir node : VfsNode Media SgpartPriv}
    (dirLive : s.nodes root = some dir) (isDir : dir.type = .dir)
    (valid : vfsNameValid node.name = true) (childless : node.child = none)
    (absent : ∀ id other, s.nodes id = some other → other.parent = some root →
      other.name ≠ node.name)
    (grown : Grown s s' (withChild s root dir node)) : Building s' root where
  tree := building.tree.create dirLive isDir valid childless absent grown
  roomy := roomy_of_mem building.roomy grown.mem
  ready := grown.ready.trans building.ready
  rootNode := by rw [grown.rootNode]; exact building.rootNode
  dir := ⟨{ dir with child := some s.nextNode }, by rw [grown.nodes, withChild_above], isDir⟩

/-- The file of a record with a new name. -/
theorem Shows.create {recs : List PartInfo} (shows : Shows s root blkdev recs)
    (tree : TreeInv s) {dir node : VfsNode Media SgpartPriv} {pi : PartInfo}
    (dirLive : s.nodes root = some dir) (file : FileOf node blkdev pi)
    (absent : firstRecord recs pi.fileName = none)
    (grown : Grown s s' (withChild s root dir node)) :
    Shows s' root blkdev (recs ++ [pi]) where
  child := by
    intro id node' live above
    by_cases isNew : id = s.nextNode
    · subst isNew
      rw [grown.nodes, withChild_new (Nat.ne_of_gt (tree.lt root dir dirLive))] at live
      obtain rfl := Option.some.inj live
      refine ⟨pi, ?_, ⟨file.name, file.type, file.fops, file.priv⟩⟩
      simp only [firstRecord_append, file.name, absent, Option.none_or, if_pos]
    · obtain ⟨child, same⟩ := withChild_old node dirLive isNew
      rw [grown.nodes, same] at live
      obtain ⟨old, wasLive, rfl⟩ := Option.map_eq_some_iff.mp live
      obtain ⟨first, found, isFile⟩ := shows.child id old wasLive above
      refine ⟨first, ?_, ⟨isFile.name, isFile.type, isFile.fops, isFile.priv⟩⟩
      simp only [firstRecord_append, found, Option.some_or]
  made := by
    intro name first found
    rw [firstRecord_append] at found
    cases before : firstRecord recs name with
    | some earlier =>
        obtain ⟨id, node', live, above, named⟩ := shows.made name earlier before
        obtain ⟨child, same⟩ := withChild_old node dirLive
          (Nat.ne_of_lt (tree.lt id node' live))
        rw [live] at same
        refine ⟨id, { node' with child := child.getD node'.child }, ?_, above, named⟩
        rw [grown.nodes, same]
        rfl
    | none =>
        rw [before, Option.none_or] at found
        split at found
        · rename_i named
          refine ⟨s.nextNode, { node with parent := some root, sibling := dir.child }, ?_, rfl,
            file.name.trans named⟩
          rw [grown.nodes, withChild_new (Nat.ne_of_gt (tree.lt root dir dirLive))]
        · cases found

/-- A second record of a name changes nothing. -/
theorem Shows.append_old {recs : List PartInfo} (shows : Shows s root blkdev recs)
    {pi earlier : PartInfo} (present : firstRecord recs pi.fileName = some earlier) :
    Shows s root blkdev (recs ++ [pi]) := by
  have same (name : List UInt8) : firstRecord (recs ++ [pi]) name = firstRecord recs name := by
    rw [firstRecord_append]
    by_cases named : pi.fileName = name
    · rw [← named, present, Option.some_or]
    · rw [if_neg named, Option.or_none]
  exact ⟨fun id node live above => by rw [same]; exact shows.child id node live above,
    fun name pi found => shows.made name pi (by rwa [same] at found)⟩

/-- `sgpart_add` makes the file of a record, unless an earlier one has its name. -/
theorem sgpartAdd_shows {recs : List PartInfo} {pi : PartInfo} (building : Building s root)
    (shows : Shows s root blkdev recs) (named : pi.fileName ≠ [])
    (plain : slash ∉ pi.fileName) :
    ∃ s' ret, sgpartAdd s root pi blkdev = some (s', ret) ∧ Building s' root ∧
      Shows s' root blkdev (recs ++ [pi]) ∧ s'.world = s.world := by
  have heap := SameButHeap.malloc s
  have building' : Building s.malloc.1 root := building.quiet heap.quiet
  have shows' : Shows s.malloc.1 root blkdev recs := shows.quiet heap.quiet
  obtain ⟨dir, dirLive, isDir⟩ := building'.dir
  have enough : s.malloc.2 = true := building.roomy 0
  have name : cstr pi.name ≠ [] := named
  unfold sgpartAdd
  simp only [if_neg name, enough, vfsMknod]
  cases present : firstRecord recs pi.fileName with
  | some earlier =>
      obtain ⟨id, node, live, above, sameName⟩ := shows'.made _ _ present
      have rootLive : s.malloc.1.Live (some root) := by
        intro other same
        obtain rfl := Option.some.inj same
        simp [dirLive]
      rcases building'.tree.vfsCreateNode rootLive pi.fileName .reg (some sgpartFops)
          (some (.file blkdev pi.offset pi.size)) with
        ⟨s₂, refused, same⟩ | ⟨s₂, above', dir', isRoot, -, -, -, -, absent, -⟩
      · refine ⟨s₂, -EEXIST, ?_, building'.quiet same.quiet,
          (shows'.quiet same.quiet).append_old present, same.world.trans heap.world⟩
        rw [show cstr pi.name = pi.fileName from rfl, refused]
        rfl
      · obtain rfl := Option.some.inj isRoot
        exact absurd sameName (absent id node live above)
  | none =>
      have valid : vfsNameValid pi.fileName = true := by
        simp [vfsNameValid, named, plain]
      have hasOps : VfsNodeType.reg = .dir ∨ (some sgpartFops).isSome := .inr rfl
      rcases building'.tree.findChild (Option.isSome_iff_exists.mpr ⟨dir, dirLive⟩)
        pi.fileName with
        ⟨missing, absent⟩ | ⟨id, node, -, live, above, sameName⟩
      · obtain ⟨s₂, created, grown⟩ := building'.tree.vfsCreateNode_roomy building'.roomy
          building'.ready building'.rootNode dirLive isDir valid missing hasOps
          (some (.file blkdev pi.offset pi.size))
        refine ⟨s₂, 0, ?_, building'.create dirLive isDir valid rfl absent grown,
          shows'.create building'.tree dirLive ⟨rfl, rfl, rfl, rfl⟩ present grown,
          grown.world.trans heap.world⟩
        rw [show cstr pi.name = pi.fileName from rfl, created]
        rfl
      · obtain ⟨first, found, -⟩ := shows'.child id node live above
        rw [sameName, present] at found
        cases found

theorem TableAt.first {medium : List UInt8} {offset : Nat} {recs : List PartInfo}
    (table : TableAt medium offset recs) :
    ∃ pi : PartInfo, slice medium offset PartInfo.sizeof = some pi.bytes := by
  cases recs with
  | nil =>
      obtain ⟨last, inside, -⟩ := table
      exact ⟨⟨last⟩, inside⟩
  | cons pi recs => exact ⟨pi, table.1⟩

/-- Each record of a table takes its full size. -/
theorem TableAt.length {medium : List UInt8} {offset : Nat} {recs : List PartInfo}
    (table : TableAt medium offset recs) :
    ∀ pi ∈ recs, pi.bytes.length = PartInfo.sizeof := by
  induction recs generalizing offset with
  | nil => simp
  | cons head recs ih =>
      intro pi member
      rcases List.mem_cons.mp member with rfl | isRest
      · exact slice_length table.1
      · exact ih table.2.2.2 pi isRest

/-- The loop makes the files of the records of the table. -/
theorem sgpartEntries_shows {medium : List UInt8} {recs more : List PartInfo}
    {count offset : Nat} {pi : PartInfo} (exact' : ExactReads (s.world blkdev) medium)
    (table : TableAt medium offset more)
    (first : slice medium offset PartInfo.sizeof = some pi.bytes)
    (enough : more.length ≤ count) (unwrapped : offset + 56 * more.length < 2 ^ 64)
    (building : Building s root) (shows : Shows s root blkdev recs) :
    ∃ s', sgpartEntries blkdev root count s offset pi = some s' ∧ Building s' root ∧
      Shows s' root blkdev (recs ++ more) ∧ s'.world = s.world := by
  induction more generalizing s recs count offset pi with
  | nil =>
      obtain ⟨last, inside, ended⟩ := table
      have same : last = pi.bytes := Option.some.inj (inside.symm.trans first)
      subst same
      rw [List.append_nil]
      cases count with
      | zero => exact ⟨s, rfl, building, shows, rfl⟩
      | succ count => exact ⟨s, by simp [sgpartEntries, ended], building, shows, rfl⟩
  | cons head more ih =>
      obtain ⟨inside, hasMagic, ⟨named, plain⟩, table⟩ := table
      have same : head = pi := by
        cases head
        cases pi
        exact congrArg PartInfo.mk (Option.some.inj (inside.symm.trans first))
      subst same
      obtain ⟨next, nextInside⟩ := table.first
      obtain ⟨s₁, ret, added, building₁, shows₁, world⟩ :=
        sgpartAdd_shows building shows named plain
      cases count with
      | zero => simp at enough
      | succ count =>
          have shorter : more.length ≤ count := by simpa using enough
          have address : (offset + PartInfo.sizeof) % 2 ^ 64 = offset + PartInfo.sizeof := by
            apply Nat.mod_eq_of_lt
            simp only [List.length_cons] at unwrapped
            simp only [PartInfo.sizeof]
            omega
          have read := exact'.inside _ _ _ nextInside
          rw [← world] at exact' read
          obtain ⟨s₂, looped, building₂, shows₂, world₂⟩ := ih exact' table nextInside shorter
            (by simp only [List.length_cons] at unwrapped; simp only [PartInfo.sizeof]; omega)
            building₁ shows₁
          refine ⟨s₂, ?_, building₂, ?_, world₂.trans world⟩
          · simp only [sgpartEntries, hasMagic, ne_eq, not_true_eq_false, if_false, added,
              Option.bind_eq_bind, Option.bind_some, address, blkdevRead, read, looped]
          · simpa using shows₂

/-- A fresh root shows no file. -/
theorem sgpartMount_shows {medium : List UInt8} {recs : List PartInfo} {offset : Nat}
    (exact' : ExactReads (s.world blkdev) medium) (table : TableAt medium offset recs)
    (nonempty : recs ≠ []) (few : recs.length ≤ SGPART_MAX_ENTRIES)
    (unwrapped : offset + 56 * recs.length < 2 ^ 64) (tree : TreeInv s) (roomy : s.Roomy)
    (ready : s.ready = true) (rootNode : s.rootNode.isSome) :
    ∃ s' root, sgpartMount s (some (.data (some blkdev) offset)) =
        some (s', ⟨some root, none, none⟩, 0) ∧
      Building s' root ∧ Shows s' root blkdev recs ∧ s'.world = s.world := by
  obtain ⟨pi, first⟩ := table.first
  have hasMagic : pi.magic = DPT_MAGIC := by
    cases recs with
    | nil => exact absurd rfl nonempty
    | cons head recs =>
        obtain ⟨inside, isRecord, -⟩ := table
        rw [← isRecord]
        exact congrArg (fun bytes => PartInfo.magic ⟨bytes⟩)
          (Option.some.inj (first.symm.trans inside))
  obtain ⟨s₁, allocated, grown⟩ := vfsAllocNode_roomy roomy sgpartName .dir none none
  have fresh : s₁.nodes s.nextNode = some (freshNode sgpartName .dir none none) := by
    rw [grown.nodes, Function.update_self]
  have building : Building s₁ s.nextNode :=
    ⟨tree.alloc grown, roomy_of_mem roomy grown.mem, grown.ready.trans ready,
      by rw [grown.rootNode]; exact rootNode, _, fresh, rfl⟩
  have shows : Shows s₁ s.nextNode blkdev [] := by
    refine ⟨fun id node live above => ?_, fun name pi found => by cases found⟩
    have older := building.tree.lt id node live
    have newer := (building.tree.parent id node _ live above).1
    have next := grown.nextNode
    omega
  rw [← grown.world] at exact'
  obtain ⟨s₂, looped, building₂, shows₂, world⟩ :=
    sgpartEntries_shows exact' table first few unwrapped building shows
  have read := exact'.inside _ _ _ first
  rw [grown.world] at read
  refine ⟨s₂, s.nextNode, ?_, building₂, shows₂, world.trans grown.world⟩
  have validName : vfsNameValid sgpartName = true := by decide
  have hasMagic' : PartInfo.magic ⟨pi.bytes⟩ = DPT_MAGIC := hasMagic
  simp only [sgpartMount, blkdevRead, read, ne_eq, not_true_eq_false, if_false, hasMagic',
    vfsAllocDirNode, validName, Bool.not_true, Bool.false_eq_true, allocated,
    Option.bind_eq_bind, looped, Option.bind_some]
  rfl

end Zsbl.Fs
