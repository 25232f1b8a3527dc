/-
Module: Zsbl.Proofs.Sysfs
Purpose: When sysfs shows a directory for each registered device.
Trusted boundary: none
Main exports:
  Granted, TreeInv.vfsMkdir_outcome, mkdirDevices_spec, sysfsMount_spec, MountedOnSys,
  sysfsSetup_spec, ShowsDevices, GetsPath, Registry, sysfs_shows_devices
-/
import Zsbl.Fs.Sysfs
import Zsbl.Proofs.StringContract
import Zsbl.Proofs.VfsMkdirPath

namespace Zsbl.Common

open Zsbl.Lib

variable {ω π : Type} {s s' : Vfs ω π}

/-! ## One directory -/

/-- What `vfs_mkdir` needs: a valid name that is not there yet, and room for the node and
the copy of its name. -/
structure Granted (s : Vfs ω π) (above : Nat) (name : CStr) : Prop where
  valid : vfsNameValid name = true
  absent : childNamed s above name = none
  item : s.mem 0 = true
  copy : s.mem 1 = true

/-- `vfs_mkdir` in a directory, whatever the heap is like. -/
theorem TreeInv.vfsMkdir_outcome (inv : TreeInv s) (ready : s.ready = true)
    (root : s.rootNode.isSome) {above : Nat} {dir : VfsNode ω π}
    (live : s.nodes above = some dir) (isDir : dir.type = .dir) (name : CStr) :
    (∃ s', vfsMkdir s (some above) name = some (s', none) ∧ ¬Granted s above name ∧
        SameButHeap s s') ∨
      ∃ s', vfsMkdir s (some above) name = some (s', some s.nextNode) ∧
        Granted s above name ∧ s'.mem = (fun call => s.mem (call + 2)) ∧
        Grown s s' (withChild s above dir (freshNode name .dir none none)) := by
  have search := inv.vfsFindChildByName_eq (Option.isSome_iff_exists.mpr ⟨dir, live⟩) name
  have present := Option.isSome_iff_ne_none.mp root
  have ne : above ≠ s.nextNode := Nat.ne_of_lt (inv.lt above dir live)
  by_cases valid : vfsNameValid name = true
  · cases found : childNamed s above name with
    | some id =>
        left
        refine ⟨s, ?_, fun granted => ?_, SameButHeap.refl s⟩
        · simp [vfsMkdir, Zsbl.Common.vfsCreateNode, ready, present, valid, live, search, found]
        · rw [granted.absent] at found
          cases found
    | none =>
        cases item : s.mem 0 with
        | false =>
            left
            refine ⟨s.malloc.1, ?_, fun granted => ?_, SameButHeap.malloc s⟩
            · simp [vfsMkdir, Zsbl.Common.vfsCreateNode, ready, present, valid, live, isDir,
                search, found, vfsAllocNode, Vfs.malloc, item]
            · exact absurd granted.item (by simp [item])
        | true =>
            cases copy : s.mem 1 with
            | false =>
                left
                refine ⟨s.malloc.1.malloc.1, ?_, fun granted => ?_,
                  (SameButHeap.malloc s).trans (SameButHeap.malloc _)⟩
                · simp [vfsMkdir, Zsbl.Common.vfsCreateNode, ready, present, valid, live, isDir,
                    search, found, vfsAllocNode, Vfs.malloc, item, copy]
                · exact absurd granted.copy (by simp [copy])
            | true =>
                right
                refine ⟨{ s with
                    nodes := withChild s above dir (freshNode name .dir none none)
                    nextNode := s.nextNode + 1
                    mem := fun call => s.mem (call + 2) }, ?_, ⟨valid, found, item, copy⟩, rfl,
                  ⟨rfl, ⟨2, rfl⟩, rfl, rfl, rfl, rfl, rfl, rfl, rfl⟩⟩
                simp [vfsMkdir, Zsbl.Common.vfsCreateNode, ready, present, valid, live, isDir,
                  search, found, vfsAllocNode, Vfs.malloc, item, copy, ne, Vfs.setNode, withChild,
                  freshNode]
  · left
    refine ⟨s, ?_, fun granted => absurd granted.valid valid, SameButHeap.refl s⟩
    simp [vfsMkdir, Zsbl.Common.vfsCreateNode, ready, present, valid]

/-- The children of a directory that has got one more. -/
theorem TreeInv.childNamed_withChild (inv : TreeInv s) (inv' : TreeInv s') {above : Nat}
    {dir node : VfsNode ω π} (live : s.nodes above = some dir)
    (grown : Grown s s' (withChild s above dir node)) (name : CStr) :
    childNamed s' above name = none ↔ name ≠ node.name ∧ childNamed s above name = none := by
  have ne := Nat.ne_of_lt (inv.lt above dir live)
  have new : s'.nodes s.nextNode =
      some { node with parent := some above, sibling := dir.child } := by
    rw [grown.nodes, withChild_new ne.symm]
  rw [childNamed_eq_none inv', childNamed_eq_none inv]
  constructor
  · intro absent
    refine ⟨fun same => absent _ _ new rfl same.symm, fun id old oldLive parent => ?_⟩
    obtain ⟨child, same⟩ := withChild_old node live (Nat.ne_of_lt (inv.lt id old oldLive))
    rw [← grown.nodes, oldLive] at same
    exact absent id { old with child := child.getD old.child } same parent
  · rintro ⟨other, absent⟩ id node' live' parent
    by_cases isNew : id = s.nextNode
    · subst isNew
      obtain rfl := Option.some.inj (new.symm.trans live')
      exact fun same => other same.symm
    · obtain ⟨child, same⟩ := withChild_old node live isNew
      rw [grown.nodes, same] at live'
      obtain ⟨old, oldLive, rfl⟩ := Option.map_eq_some_iff.mp live'
      exact absent id old oldLive parent

/-- A new node takes two allocations, for itself and its name. -/
theorem vfsAllocNode_mem {name : CStr} {type : VfsNodeType} {fops : Option (FileOps ω π)}
    {priv : Option π} {id : Nat} (done : vfsAllocNode s name type fops priv = (s', some id)) :
    s'.mem = fun call => s.mem (call + 2) := by
  cases item : s.mem 0 with
  | false => simp [vfsAllocNode, Vfs.malloc, item] at done
  | true =>
      cases copy : s.mem 1 with
      | false => simp [vfsAllocNode, Vfs.malloc, item, copy] at done
      | true =>
          simp only [vfsAllocNode, Vfs.malloc, item, copy, Bool.not_true, Bool.false_eq_true,
            if_false] at done
          obtain rfl := (Prod.mk.inj done).1
          rfl

theorem vfsMkdir_ready {parent : Option Nat} {name : CStr} {id : Nat}
    (made : vfsMkdir s parent name = some (s', some id)) :
    s.ready = true ∧ s.rootNode.isSome := by
  by_cases missing : (!s.ready || s.rootNode.isNone) = true
  · simp [vfsMkdir, vfsCreateNode, missing] at made
  · simpa [Option.isSome_iff_ne_none] using missing

/-- The lookup of a name in the root directory, which takes a copy of the name. -/
theorem Namespace.lookup_child (ns : Namespace s) (code : FsCode ω π) {root id : Nat}
    {top node : VfsNode ω π} (isRoot : s.rootNode = some root) (rootLive : s.nodes root = some top)
    (bare : top.mnt = none) (live : s.nodes id = some node) (parent : node.parent = some root) :
    vfsLookupNodeEx code s (slash :: node.name) false =
      some (s.malloc.1, if s.mem 0 then some (id, none) else none) := by
  obtain ⟨ne, absent⟩ := vfsNameValid_iff.mp (ns.tree.valid id node root live parent)
  obtain ⟨first, rest⟩ := takeWhile_last absent
  have notRoot : slash :: node.name ≠ [slash] := fun same => ne (List.cons.inj same).2
  have follow : vfsFollowMountMnt s root none = some (root, none) := by
    rw [ns.vfsFollowMountMnt_eq (by simp [rootLive]), crossAll_uncovered rootLive bare]
  have inv' : TreeInv s.malloc.1 := ns.tree.of_same (SameButHeap.malloc s).quiet.sameTree
  have search := inv'.findChild_self (show s.malloc.1.nodes id = some node from live) parent
  unfold vfsLookupNodeEx
  simp only [isRoot, if_neg notRoot, follow, Option.bind_eq_bind, Option.bind_some, List.tail_cons]
  generalize name : node.name = segment at ne first rest search
  obtain ⟨char, chars, rfl⟩ := List.exists_cons_of_ne_nil ne
  simp only [List.length_cons, lookupFrom, first, rest, if_neg ne]
  cases item : s.mem 0 with
  | false => simp [Vfs.malloc, item]
  | true =>
      have granted : s.malloc = (s.malloc.1, true) := Prod.ext rfl item
      rw [granted]
      simp [lookupSegment, search]

/-! ## Directories one after the other -/

/-- What it takes to create a directory of every name. -/
structure AllGranted (s : Vfs ω π) (above : Nat) (names : List CStr) : Prop where
  valid : ∀ name ∈ names, vfsNameValid name = true
  distinct : names.Nodup
  absent : ∀ name ∈ names, childNamed s above name = none
  room : ∀ call < 2 * names.length, s.mem call = true

theorem AllGranted.first {above : Nat} {name : CStr} {names : List CStr}
    (all : AllGranted s above (name :: names)) : Granted s above name where
  valid := all.valid name List.mem_cons_self
  absent := all.absent name List.mem_cons_self
  item := all.room 0 (by simp)
  copy := all.room 1 (by simp; omega)

/-- Once the first has been created, the others are as they were. -/
theorem allGranted_cons (inv : TreeInv s) (inv' : TreeInv s') {above : Nat}
    {dir : VfsNode ω π} (live : s.nodes above = some dir) {name : CStr}
    (granted : Granted s above name) (mem : s'.mem = fun call => s.mem (call + 2))
    (grown : Grown s s' (withChild s above dir (freshNode name .dir none none)))
    (names : List CStr) :
    AllGranted s above (name :: names) ↔ AllGranted s' above names := by
  have absent (other : CStr) := inv.childNamed_withChild inv' live grown other
  constructor
  · intro all
    obtain ⟨notLater, distinct⟩ := List.nodup_cons.mp all.distinct
    refine ⟨fun other member => all.valid other (List.mem_cons_of_mem _ member), distinct,
      fun other member => (absent other).mpr ⟨?_, all.absent other (List.mem_cons_of_mem _ member)⟩,
      fun call lt => ?_⟩
    · rintro rfl
      exact notLater member
    · rw [mem]
      exact all.room (call + 2) (by rw [List.length_cons]; omega)
  · intro all
    refine ⟨List.forall_mem_cons.mpr ⟨granted.valid, all.valid⟩,
      List.nodup_cons.mpr ⟨fun later => ?_, all.distinct⟩,
      List.forall_mem_cons.mpr ⟨granted.absent, fun other member =>
        ((absent other).mp (all.absent other member)).2⟩, fun call lt => ?_⟩
    · exact ((absent name).mp (all.absent name later)).1 rfl
    · rw [List.length_cons] at lt
      match call, lt with
      | 0, _ => exact granted.item
      | 1, _ => exact granted.copy
      | call + 2, lt =>
          have later := all.room call (by omega)
          rwa [mem] at later

end Zsbl.Common

namespace Zsbl.Fs

open Zsbl.Common Zsbl.Drivers Zsbl.Lib Zsbl.Libs

variable {ω π : Type} {s s' : Vfs ω π}

/-- The loop of `sysfs_mount` makes one directory for each device exactly where every single
one can be made, and never one with another name. -/
theorem mkdirDevices_spec (inv : TreeInv s) (ready : s.ready = true) (root : s.rootNode.isSome)
    {above : Nat} {dir : VfsNode ω π} (live : s.nodes above = some dir) (isDir : dir.type = .dir)
    (devices : List Device) :
    ∃ s' added, mkdirDevices s above devices = some s' ∧ Builds s s' ∧
      s'.kids above = added ++ s.kids above ∧ added.length ≤ devices.length ∧
      (added.length = devices.length ↔
        AllGranted s above (devices.map fun dev => cstr dev.name)) ∧
      (∀ id node, s'.nodes id = some node → node.parent = some above →
        (s.nodes id).isSome ∨ ∃ dev ∈ devices, cstr dev.name = node.name) ∧
      (AllGranted s above (devices.map fun dev => cstr dev.name) →
        ∀ dev ∈ devices, (childNamed s' above (cstr dev.name)).isSome) := by
  induction devices generalizing s dir with
  | nil =>
      refine ⟨s, [], rfl, .refl, rfl, Nat.le_refl _, iff_of_true rfl ?_,
        fun id node live _ => Or.inl (by simp [live]), by simp⟩
      exact ⟨by simp, List.nodup_nil, by simp, by simp⟩
  | cons dev devices ih =>
      have passed : s.Live (some above) := by
        intro id same
        obtain rfl := Option.some.inj same
        simp [live]
      rcases inv.vfsMkdir_outcome ready root live isDir (cstr dev.name) with
        ⟨s₁, failed, refused, same⟩ | ⟨s₁, made, granted, mem, grown⟩
      · have step : Builds s s₁ := .single (.create passed failed)
        obtain ⟨inv₁, -⟩ := step.tree inv
        obtain ⟨s', added, done, builds, kids, le, -, named, -⟩ := ih inv₁
          (same.quiet.ready.trans ready) (by rw [same.quiet.rootNode]; exact root)
          (by rw [same.quiet.nodes]; exact live) isDir
        refine ⟨s', added, by simp [mkdirDevices, failed, done], step.trans builds, ?_,
          le.trans (by simp), iff_of_false ?_ fun all => refused all.first, ?_,
          fun all => absurd all.first refused⟩
        · rw [kids, same.quiet.sameTree.kids]
        · rw [List.length_cons]
          omega
        · intro id node live' parent
          rcases named id node live' parent with old | ⟨other, member, isName⟩
          · rw [same.quiet.nodes] at old
            exact Or.inl old
          · exact Or.inr ⟨other, List.mem_cons_of_mem _ member, isName⟩
      · have step : Builds s s₁ := .single (.create passed made)
        obtain ⟨inv₁, extends₁⟩ := step.tree inv
        have live₁ : s₁.nodes above = some { dir with child := some s.nextNode } := by
          rw [grown.nodes, withChild_above]
        obtain ⟨s', added, done, builds, kids, le, iff, named, each⟩ := ih inv₁
          (grown.ready.trans ready) (by rw [grown.rootNode]; exact root) live₁ isDir
        obtain ⟨inv', extends'⟩ := builds.tree inv₁
        obtain ⟨new, newLive, newParent, newName, -⟩ := inv.vfsCreateNode_created passed made
        have first := inv.kids_withChild live grown above
        rw [if_pos rfl] at first
        have all := allGranted_cons inv inv₁ live granted mem grown
          (devices.map fun dev => cstr dev.name)
        refine ⟨s', added ++ [s.nextNode], by simp [mkdirDevices, made, done], step.trans builds,
          by simp [kids, first], by simpa using le, ?_, ?_, ?_⟩
        · rw [List.map_cons, all, ← iff]
          simp
        · intro id node live' parent
          rcases named id node live' parent with old | ⟨other, member, isName⟩
          · by_cases isNew : id = s.nextNode
            · subst isNew
              obtain ⟨node', live'', name', -⟩ := extends'.node _ new newLive
              obtain rfl := Option.some.inj (live'.symm.trans live'')
              exact Or.inr ⟨dev, List.mem_cons_self, newName.symm.trans name'.symm⟩
            · obtain ⟨child, same⟩ := withChild_old (freshNode (cstr dev.name) .dir none none) live
                isNew
              rw [grown.nodes, same, Option.isSome_map] at old
              exact Or.inl old
          · exact Or.inr ⟨other, List.mem_cons_of_mem _ member, isName⟩
        · rw [List.map_cons, all]
          intro all' other member
          rcases List.mem_cons.mp member with rfl | member
          · have there := childNamed_child inv₁ newLive newParent
            rw [newName] at there
            rw [childNamed_extends inv' extends' inv₁ there]
            rfl
          · exact each all' other member

/-- The names of the registered devices can stand in a path and are distinct, and the heap has
room for a directory for each. -/
structure Showable (mem : Nat → Bool) (devices : List Device) : Prop where
  noSlash : ∀ dev ∈ devices, slash ∉ cstr dev.name
  distinct : (devices.map fun dev => cstr dev.name).Nodup
  room : ∀ call < 2 * devices.length, mem call = true

/-- In an empty directory only the names themselves can be in each other's way. -/
theorem allGranted_iff {above : Nat} (empty : s.kids above = []) {devices : List Device}
    (nonempty : ∀ dev ∈ devices, cstr dev.name ≠ []) :
    AllGranted s above (devices.map fun dev => cstr dev.name) ↔ Showable s.mem devices := by
  have absent (name : CStr) : childNamed s above name = none := by
    rw [childNamed, empty, List.find?_nil]
  constructor
  · intro all
    refine ⟨fun dev member => ?_, all.distinct, by simpa using all.room⟩
    exact (vfsNameValid_iff.mp (all.valid _ (List.mem_map_of_mem member))).2
  · intro showable
    refine ⟨?_, showable.distinct, fun name _ => absent name, by simpa using showable.room⟩
    intro name member
    obtain ⟨dev, isDev, rfl⟩ := List.mem_map.mp member
    exact vfsNameValid_iff.mpr ⟨nonempty dev isDev, showable.noSlash dev isDev⟩

/-- The children of a directory have names of devices; they are as many as the devices exactly
where each device can have one, and then each has. -/
structure Entries (s : Vfs ω π) (dir : Nat) (devices : List Device) (each : Prop) : Prop where
  le : (s.kids dir).length ≤ devices.length
  all : (s.kids dir).length = devices.length ↔ each
  named : ∀ id node, s.nodes id = some node → node.parent = some dir →
    ∃ dev ∈ devices, cstr dev.name = node.name
  found : each → ∀ dev ∈ devices, ∃ id node, s.nodes id = some node ∧
    node.parent = some dir ∧ node.name = cstr dev.name

/-- The entries depend on the tree alone. -/
theorem Entries.same {dir : Nat} {devices : List Device} {each : Prop}
    (entries : Entries s dir devices each) (same : SameTree s s') :
    Entries s' dir devices each where
  le := by
    rw [same.kids]
    exact entries.le
  all := by
    rw [same.kids]
    exact entries.all
  named id node' live' parent' := by
    obtain ⟨node, live, shape⟩ := same.node live'
    obtain ⟨name, -, parent, -⟩ := VfsNode.shape_eq.mp shape
    rw [← name]
    exact entries.named id node live (parent.trans parent')
  found shows dev member := by
    obtain ⟨id, node, live, parent, name⟩ := entries.found shows dev member
    obtain ⟨node', live', shape⟩ := same.symm.node live
    obtain ⟨name', -, parent', -⟩ := VfsNode.shape_eq.mp shape
    exact ⟨id, node', live', parent'.trans parent, name'.trans name⟩

/-- What `sysfs_mount` builds: a root, the directory "devices" in it, and the directories of
the devices in that one. -/
theorem sysfsMount_spec (inv : TreeInv s) {devices : List Device}
    (nonempty : ∀ dev ∈ devices, cstr dev.name ≠ []) {source : Option CStr} {data : Option π}
    {setup : MountSetup π}
    (done : sysfsMount devices s source data = some (s', setup, 0)) :
    ∃ top dir topNode dirNode, setup = ⟨some top, none, none⟩ ∧ Builds s s' ∧
      s.nextNode ≤ top ∧ s'.nodes top = some topNode ∧ topNode.type = .dir ∧
      topNode.parent = none ∧ s'.nodes dir = some dirNode ∧ dirNode.parent = some top ∧
      dirNode.name = devicesName ∧
      Entries s' dir devices (Showable (fun call => s.mem (call + 4)) devices) := by
  unfold sysfsMount at done
  have built : Builds s (vfsAllocDirNode s sysfsName).1 := .single (.allocDir s sysfsName)
  have valid : vfsNameValid sysfsName = true := by decide
  simp only [vfsAllocDirNode, valid, Bool.not_true, Bool.false_eq_true, if_false] at done built
  rcases vfsAllocNode_cases s sysfsName .dir none none with
    ⟨s₁, failed, -⟩ | ⟨s₁, allocated, grown⟩
  · rw [failed] at done
    cases (Prod.mk.inj (Option.some.inj done)).2
  · rw [allocated] at done built
    obtain ⟨inv₁, -⟩ : TreeInv s₁ ∧ Extends s s₁ := built.tree inv
    have mem₁ := vfsAllocNode_mem allocated
    have topLive : s₁.nodes s.nextNode = some (freshNode sysfsName .dir none none) := by
      rw [grown.nodes, Function.update_self]
    obtain ⟨⟨s₂, made⟩, mkdir, done⟩ := Option.bind_eq_some_iff.mp done
    cases made with
    | none => cases (Prod.mk.inj (Option.some.inj done)).2
    | some dir =>
        have passed : s₁.Live (some s.nextNode) := by
          intro id same
          obtain rfl := Option.some.inj same
          simp [topLive]
        have created : Builds s₁ s₂ := .single (.create passed mkdir)
        obtain ⟨inv₂, extends₂⟩ := created.tree inv₁
        obtain ⟨ready, root⟩ := vfsMkdir_ready mkdir
        rcases inv₁.vfsMkdir_outcome ready root topLive rfl devicesName with
          ⟨t, failed, -⟩ | ⟨t, made, -, mem₂, grown₂⟩
        · cases (Prod.mk.inj (Option.some.inj (mkdir.symm.trans failed))).2
        · obtain ⟨rfl, same⟩ := Prod.mk.inj (Option.some.inj (mkdir.symm.trans made))
          obtain rfl := Option.some.inj same
          have dirLive : s₂.nodes s₁.nextNode = some { freshNode devicesName .dir none none with
              parent := some s.nextNode, sibling := none } := by
            rw [grown₂.nodes, withChild_new (Nat.ne_of_gt (inv₁.lt _ _ topLive))]
            rfl
          have empty : s₂.kids s₁.nextNode = [] := by
            rw [inv₁.kids_withChild topLive grown₂, if_neg, inv₁.kids_fresh]
            exact Nat.ne_of_gt (inv₁.lt _ _ topLive)
          obtain ⟨t, added, loop, builds, kids, le, iff, named, each⟩ := mkdirDevices_spec inv₂
            (extends₂.ready.trans ready) (by rw [extends₂.rootNode]; exact root) dirLive rfl devices
          simp only [loop, Option.bind_eq_bind, Option.bind_some] at done
          obtain ⟨rfl, same⟩ := Prod.mk.inj (Option.some.inj done)
          obtain ⟨rfl, -⟩ := Prod.mk.inj same
          obtain ⟨inv₃, extends₃⟩ := builds.tree inv₂
          obtain ⟨topNode, topLive', -, type, parent, -⟩ :=
            (extends₂.trans extends₃).node _ _ topLive
          obtain ⟨dirNode, dirLive', name, -, parent', -⟩ := extends₃.node _ _ dirLive
          refine ⟨s.nextNode, s₁.nextNode, topNode, dirNode, rfl,
            (built.trans created).trans builds, Nat.le_refl _, topLive', type, parent, dirLive',
            parent', name, ?_⟩
          have condition := allGranted_iff empty nonempty
          rw [mem₂, mem₁] at condition
          rw [empty, List.append_nil] at kids
          rw [condition] at iff each
          refine ⟨kids ▸ le, kids ▸ iff, fun id node live above => ?_, fun shows dev member => ?_⟩
          · rcases named id node live above with old | isName
            · obtain ⟨before, wasLive⟩ := Option.isSome_iff_exists.mp old
              obtain ⟨other, same, -, -, parent, -⟩ := extends₃.node id before wasLive
              obtain rfl := Option.some.inj (live.symm.trans same)
              have member := inv₂.mem_kids.mpr ⟨before, wasLive, parent.symm.trans above⟩
              rw [empty] at member
              cases member
            · exact isName
          · obtain ⟨id, isChild⟩ := Option.isSome_iff_exists.mp (each shows dev member)
            exact ⟨id, childNamed_spec inv₃ isChild⟩

/-! ## Mounted -/

/-- The file system is mounted on /sys, and the way to its directory "devices" is as follows. -/
structure MountedOnSys (s : Vfs ω π) (root sys m top dir : Nat) : Prop where
  inv : FileInv s
  isRoot : s.rootNode = some root
  bare : ∃ node, s.nodes root = some node ∧ node.mnt = none
  mount : s.mounts m = some ⟨sys, top, none, none⟩
  mountpoint : ∃ node, s.nodes sys = some node ∧ node.parent = some root ∧ node.name = sysName ∧
    node.mnt = some m
  devices : ∃ node, s.nodes dir = some node ∧ node.parent = some top ∧ node.name = devicesName
  plain : ∀ id node, s.nodes id = some node → top ≤ id → node.mnt = none

/-- The tree that `sysfs_mount` has built is shown at a directory "sys" of the root
directory. -/
theorem mountedOnSys {t : Vfs ω π} {root sys top dir : Nat}
    {rootNode sysNode dirNode node : VfsNode ω π} (inv : FileInv s) (builds : Builds s t)
    (isRoot : s.rootNode = some root) (rootLive : s.nodes root = some rootNode)
    (bare : rootNode.mnt = none) (live : s.nodes sys = some sysNode)
    (parent : sysNode.parent = some root) (name : sysNode.name = sysName)
    (fresh : s.nextNode ≤ top) (dirLive : t.nodes dir = some dirNode)
    (dirParent : dirNode.parent = some top) (dirName : dirNode.name = devicesName)
    (able : Mountable t node ⟨sys, top, none, none⟩) :
    MountedOnSys (t.mounted node ⟨sys, top, none, none⟩) root sys t.nextMount top dir := by
  obtain ⟨inv', grown⟩ := builds.files inv
  have below := inv.tree.lt sys sysNode live
  have under := (inv.tree.parent sys sysNode root live parent).1
  have inside := (inv'.tree.parent dir dirNode top dirLive dirParent).1
  constructor
  · exact inv'.mounted able
  · exact grown.rootNode.trans isRoot
  · obtain ⟨rootNode', rootLive', -, -, -, mnt⟩ := grown.node root rootNode rootLive
    refine ⟨rootNode', ?_, mnt.trans bare⟩
    rw [Vfs.mounted_nodes_of_ne (Nat.ne_of_lt under), rootLive']
  · exact Vfs.mounted_mounts_self
  · obtain ⟨node', live', name', -, parent', -⟩ := grown.node sys sysNode live
    obtain rfl := Option.some.inj (live'.symm.trans able.live)
    exact ⟨_, Vfs.mounted_nodes_self, parent'.trans parent, name'.trans name, rfl⟩
  · refine ⟨dirNode, ?_, dirParent, dirName⟩
    rw [Vfs.mounted_nodes_of_ne (show dir ≠ sys by omega), dirLive]
  · intro id other otherLive later
    rw [Vfs.mounted_nodes_of_ne (show id ≠ sys by omega)] at otherLive
    rcases grown.new id other otherLive with old | ⟨-, unmounted⟩
    · obtain ⟨before, wasLive⟩ := Option.isSome_iff_exists.mp old
      have lt := inv.tree.lt id before wasLive
      omega
    · exact unmounted

/-- `vfs_mount` of sysfs on a directory "sys" of the root directory. -/
theorem vfsMount_sysfs {code : FsCode ω π} {address root sys : Nat} {devices : List Device}
    (nonempty : ∀ dev ∈ devices, cstr dev.name ≠ []) {rootNode sysNode : VfsNode ω π}
    (isMount : code.mount address = sysfsMount devices)
    (inv : FileInv s) (isRoot : s.rootNode = some root) (rootLive : s.nodes root = some rootNode)
    (bare : rootNode.mnt = none) (live : s.nodes sys = some sysNode)
    (parent : sysNode.parent = some root) (name : sysNode.name = sysName)
    (isDir : sysNode.type = .dir) (free : sysNode.mnt = none)
    (registered : vfsFindFilesystem s sysfsName = some (sysfsType address))
    (done : vfsMount code s none (some (slash :: sysName)) (some sysfsName) none =
      some (s', 0)) :
    ∃ m top dir, MountedOnSys s' root sys m top dir ∧
      Entries s' dir devices (Showable (fun call => s.mem (call + 6)) devices) := by
  have search := inv.names.lookup_child code isRoot rootLive bare live parent
  rw [name] at search
  have absolute : vfsIsPathValid (some (slash :: sysName)) = true := by decide
  simp only [vfsMount, absolute, Bool.not_true, Bool.false_eq_true, if_false, search,
    Option.bind_eq_bind, Option.bind_some] at done
  cases copy : s.mem 0 with
  | false =>
      simp only [copy, Bool.false_eq_true, if_false] at done
      cases (Prod.mk.inj (Option.some.inj done)).2
  | true =>
      have found : vfsFindFilesystem s.malloc.1 sysfsName = some (sysfsType address) := registered
      have live₁ : s.malloc.1.nodes sys = some sysNode := live
      simp only [copy, if_true, live₁, Option.bind_some, isDir, ne_eq, not_true_eq_false, if_false,
        free, Option.isSome_none, Bool.false_eq_true, found] at done
      unfold vfsTryMount at done
      cases item : s.malloc.1.mem 0 with
      | false =>
          have refused : s.malloc.1.malloc = (s.malloc.1.malloc.1, false) := Prod.ext rfl item
          rw [refused] at done
          cases (Prod.mk.inj (Option.some.inj done)).2
      | true =>
          have granted : s.malloc.1.malloc = (s.malloc.1.malloc.1, true) := Prod.ext rfl item
          rw [granted] at done
          simp only [Bool.not_true, Bool.false_eq_true, if_false, sysfsType, isMount,
            Option.bind_eq_bind, Option.bind_some] at done
          have copies : Builds s s.malloc.1.malloc.1 := .tail (.single (.malloc s)) (.malloc _)
          have mem : s.malloc.1.malloc.1.mem = fun call => s.mem (call + 2) := rfl
          obtain ⟨inv₁, -⟩ := copies.files inv
          have live₂ : s.malloc.1.malloc.1.nodes sys = some sysNode := live
          have rootLive₂ : s.malloc.1.malloc.1.nodes root = some rootNode := rootLive
          have isRoot₂ : s.malloc.1.malloc.1.rootNode = some root := isRoot
          generalize s.malloc.1.malloc.1 = s₁ at done inv₁ live₂ rootLive₂ isRoot₂ mem
          obtain ⟨⟨t, setup, ret⟩, called, done⟩ := Option.bind_eq_some_iff.mp done
          by_cases zero : ret = 0
          · subst zero
            obtain ⟨top, dir, topNode, dirNode, rfl, builds, le, topLive, topDir, topParent,
              dirLive, dirParent, dirName, entries⟩ := sysfsMount_spec inv₁.tree nonempty called
            obtain ⟨inv₂, grown⟩ := builds.files inv₁
            have freePoint : FreeMountpoint s₁ sys :=
              ⟨Or.inr ⟨sysNode, root, live₂, parent⟩, sysNode, live₂, isDir, free⟩
            obtain ⟨node, nodeLive, able⟩ := freePoint.mountable inv₁ grown inv₂ le topLive topDir
              topParent none none
            simp only [ne_eq, not_true_eq_false, if_false, nodeLive, Option.bind_some] at done
            obtain rfl : t.mounted node ⟨sys, top, none, none⟩ = s' :=
              (Prod.mk.inj (Option.some.inj done)).1
            refine ⟨t.nextMount, top, dir, mountedOnSys inv₁ builds isRoot₂ rootLive₂ bare live₂
              parent name le dirLive dirParent dirName able, ?_⟩
            rw [mem] at entries
            exact entries.same (SameTree.mounted able.live)
          · simp only [ne_eq, zero, not_false_eq_true, if_true] at done
            exact absurd (Prod.mk.inj (Option.some.inj done)).2 zero

/-- Once /sys is mounted a directory stands there for each name without a slash. -/
theorem sysfsSetup_spec {code : FsCode ω π} {address : Nat} {devices : List Device}
    (nonempty : ∀ dev ∈ devices, cstr dev.name ≠ [])
    (isMount : code.mount address = sysfsMount devices) (inv : FileInv s)
    (bare : NoMountOn s [slash]) (done : sysfsSetup code s address = some (s', 0)) :
    ∃ root sys m top dir, MountedOnSys s' root sys m top dir ∧
      Entries s' dir devices (Showable (fun call => s.mem (call + 8)) devices) := by
  unfold sysfsSetup at done
  simp only [vfsRegisterFilesystem, sysfsType] at done
  split at done
  · have failed : (-EEXIST : Int) ≠ 0 := by decide
    rw [if_pos failed] at done
    exact absurd (Prod.mk.inj (Option.some.inj done)).2 failed
  · simp only [ne_eq, not_true_eq_false, if_false] at done
    generalize registered : ({ s with fsTypes := _ } : Vfs ω π) = s₁ at done
    obtain ⟨inv₁, types, mem₁, root₁, nodes₁⟩ : FileInv s₁ ∧
        s₁.fsTypes = sysfsType address :: s.fsTypes ∧ s₁.mem = s.mem ∧
        s₁.rootNode = s.rootNode ∧ s₁.nodes = s.nodes := by
      subst registered
      exact ⟨inv.refiled ⟨rfl, rfl, rfl, rfl, rfl, inv.links.files⟩, rfl, rfl, rfl, rfl⟩
    clear registered
    obtain ⟨⟨s₂, made⟩, mkdir, done⟩ := Option.bind_eq_some_iff.mp done
    cases made with
    | none => cases (Prod.mk.inj (Option.some.inj done)).2
    | some sys =>
        obtain ⟨ready, root⟩ := vfsMkdir_ready mkdir
        obtain ⟨root, isRoot⟩ := Option.isSome_iff_exists.mp root
        obtain ⟨rootNode, rootLive, isDir, -⟩ := inv₁.tree.root root isRoot
        have uncovered := bare root [] root rootNode (root₁.symm.trans isRoot) List.nil_prefix .root
          (nodes₁ ▸ rootLive)
        rw [← root₁, isRoot] at mkdir
        rcases inv₁.tree.vfsMkdir_outcome ready (by simp [isRoot]) rootLive isDir sysName with
          ⟨t, failed, -⟩ | ⟨t, created, -, mem₂, grown₂⟩
        · cases (Prod.mk.inj (Option.some.inj (mkdir.symm.trans failed))).2
        · obtain ⟨rfl, same⟩ := Prod.mk.inj (Option.some.inj (mkdir.symm.trans created))
          obtain rfl := Option.some.inj same
          have passed : s₁.Live (some root) := by
            intro id same
            obtain rfl := Option.some.inj same
            simp [rootLive]
          have step : Builds s₁ s₂ := .single (.create passed mkdir)
          have inv₂ := (step.files inv₁).1
          have sysLive : s₂.nodes s₁.nextNode = some { freshNode sysName .dir none none with
              parent := some root, sibling := rootNode.child } := by
            rw [grown₂.nodes, withChild_new (Nat.ne_of_gt (inv₁.tree.lt _ _ rootLive))]
          have rootLive₂ : s₂.nodes root = some { rootNode with child := some s₁.nextNode } := by
            rw [grown₂.nodes, withChild_above]
          have found : vfsFindFilesystem s₂ sysfsName = some (sysfsType address) := by
            rw [vfsFindFilesystem, (vfsCreateNode_nodesOnly mkdir).tables.fsTypes, types]
            simp [sysfsType]
          obtain ⟨m, top, dir, mounted, entries⟩ := vfsMount_sysfs nonempty isMount inv₂
            (grown₂.rootNode.trans isRoot) rootLive₂ uncovered sysLive rfl rfl rfl rfl found done
          rw [mem₂, mem₁] at entries
          exact ⟨root, s₁.nextNode, m, top, dir, mounted, entries⟩

/-! ## Lookup -/

/-- "/sys/devices". -/
def sysDevices : CStr := slash :: sysName ++ slash :: devicesName

theorem pathNames_entry {name : CStr} (valid : vfsNameValid name = true) :
    pathNames (sysDevices ++ slash :: name) = [sysName, devicesName, name] := by
  obtain ⟨ne, absent⟩ := vfsNameValid_iff.mp valid
  have split : (sysDevices ++ slash :: name).tail =
      sysName ++ slash :: (devicesName ++ slash :: name) := rfl
  rw [pathNames, split, namesOf_name _ (by decide), namesOf_name _ (by decide),
    namesOf_last ne absent]

/-- The state, with room on the heap from now on. -/
def withRoom (s : Vfs ω π) : Vfs ω π := { s with mem := fun _ => true }

namespace MountedOnSys

variable {root sys m top dir : Nat} {code : FsCode ω π}

theorem withRoom (mounted : MountedOnSys s root sys m top dir) :
    MountedOnSys (withRoom s) root sys m top dir :=
  { mounted with inv := mounted.inv.refiled ⟨rfl, rfl, rfl, rfl, rfl, mounted.inv.links.files⟩ }

/-- The lookup crosses the mount on /sys. -/
theorem toDevices (mounted : MountedOnSys s root sys m top dir) (code : FsCode ω π) :
    [sysName, devicesName].foldl (resolveStep code true)
      (s, s.rootNode.map fun root => crossAll s (root, none)) = (s, some (dir, some m)) := by
  obtain ⟨rootNode, rootLive, bare⟩ := mounted.bare
  obtain ⟨sysNode, sysLive, sysParent, isSys, covered⟩ := mounted.mountpoint
  obtain ⟨dirNode, dirLive, dirParent, isDevices⟩ := mounted.devices
  obtain ⟨topNode, topLive, -⟩ := mounted.inv.links.root m _ mounted.mount
  have tree := mounted.inv.tree
  have inside := (tree.parent dir dirNode top dirLive dirParent).1
  have first := tree.resolveStep_child code sysLive sysParent none true
  have second := tree.resolveStep_child code dirLive dirParent (some m) true
  rw [isSys, if_pos rfl, mounted.inv.names.crossAll_covered sysLive covered mounted.mount,
    crossAll_uncovered topLive (mounted.plain top topNode topLive (Nat.le_refl _))] at first
  rw [isDevices, if_pos rfl, crossAll_uncovered dirLive
    (mounted.plain dir dirNode dirLive (Nat.le_of_lt inside))] at second
  rw [mounted.isRoot, Option.map_some, crossAll_uncovered rootLive bare, List.foldl_cons, first,
    List.foldl_cons, second, List.foldl_nil]

theorem lookup_devices (mounted : MountedOnSys s root sys m top dir)
    (materialises : code.Materialises) (roomy : s.Roomy) :
    vfsLookup code s (some sysDevices) = some (s, some dir) := by
  have names : pathNames sysDevices = [sysName, devicesName] := by decide
  rw [vfsLookup_eq materialises mounted.inv.names roomy (by decide), resolve, names,
    mounted.toDevices]
  rfl

/-- An entry is found by its path. -/
theorem lookup_entry (mounted : MountedOnSys s root sys m top dir)
    (materialises : code.Materialises) (roomy : s.Roomy) {id : Nat} {node : VfsNode ω π}
    (live : s.nodes id = some node) (parent : node.parent = some dir) :
    vfsLookup code s (some (sysDevices ++ slash :: node.name)) = some (s, some id) := by
  have tree := mounted.inv.tree
  obtain ⟨dirNode, dirLive, dirParent, -⟩ := mounted.devices
  have inside := (tree.parent dir dirNode top dirLive dirParent).1
  have below := (tree.parent id node dir live parent).1
  have third := tree.resolveStep_child code live parent (some m) true
  rw [if_pos rfl, crossAll_uncovered live (mounted.plain id node live (by omega))] at third
  have along := mounted.toDevices code
  rw [List.foldl_cons, List.foldl_cons, List.foldl_nil] at along
  rw [vfsLookup_eq materialises mounted.inv.names roomy rfl, resolve,
    pathNames_entry (tree.valid id node dir live parent), List.foldl_cons, List.foldl_cons, along,
    List.foldl_cons, third]
  rfl

end MountedOnSys

/-! ## One for each device -/

/-- The children of the directory are in a one-to-one correspondence with the devices: each has
the name of its device, and a lookup of /sys/devices/ with this name leads to it. -/
def ShowsDevices (code : FsCode ω π) (s : Vfs ω π) (dir : Nat) (devices : List Device) : Prop :=
  ∃ entry : Fin devices.length → Nat, Function.Injective entry ∧
    (∀ id, id ∈ s.kids dir ↔ ∃ i, entry i = id) ∧
    ∀ i, ∃ node, s.nodes (entry i) = some node ∧ node.name = cstr devices[i].name ∧
      vfsLookup code s (some (sysDevices ++ slash :: node.name)) = some (s, some (entry i))

/-- There is one directory for each device. -/
theorem ShowsDevices.count {code : FsCode ω π} {dir : Nat} {devices : List Device}
    (shows : ShowsDevices code s dir devices) : (s.kids dir).length = devices.length := by
  obtain ⟨entry, injective, onto, -⟩ := shows
  have same : (s.kids dir).Perm (List.ofFn entry) := by
    rw [List.perm_ext_iff_of_nodup (s.kids_nodup dir) (List.nodup_ofFn_ofInjective injective)]
    intro id
    rw [onto, List.mem_ofFn']
    rfl
  rw [same.length_eq, List.length_ofFn]

/-- Distinct names show every device once. -/
theorem Entries.shows {code : FsCode ω π} {root sys m top dir : Nat} {devices : List Device}
    {each : Prop} (entries : Entries s dir devices each)
    (mounted : MountedOnSys s root sys m top dir) (materialises : code.Materialises)
    (roomy : s.Roomy) (distinct : each → (devices.map fun dev => cstr dev.name).Nodup) :
    ShowsDevices code s dir devices ↔ each := by
  have tree := mounted.inv.tree
  constructor
  · exact fun shows => entries.all.mp shows.count
  · intro all
    choose! entry found using entries.found all
    have member (i : Fin devices.length) : devices[i] ∈ devices := List.getElem_mem i.isLt
    refine ⟨fun i => entry devices[i], fun i j eq => ?_, fun id => ⟨fun isKid => ?_, ?_⟩,
      fun i => ?_⟩
    · obtain ⟨node, live, -, name⟩ := found _ (member i)
      obtain ⟨node', live', -, name'⟩ := found _ (member j)
      obtain rfl := Option.some.inj (live.symm.trans ((congrArg s.nodes eq).trans live'))
      have same : cstr devices[i].name = cstr devices[j].name := name.symm.trans name'
      have inside : i.val < (devices.map fun dev => cstr dev.name).length := by simp
      exact Fin.ext ((List.getElem?_inj inside (distinct all)).mp (by simpa using same))
    · obtain ⟨other, otherLive, above⟩ := tree.mem_kids.mp isKid
      obtain ⟨dev, isDev, isName⟩ := entries.named id other otherLive above
      obtain ⟨node, live, parent, name⟩ := found dev isDev
      obtain ⟨i, lt, rfl⟩ := List.getElem_of_mem isDev
      exact ⟨⟨i, lt⟩, tree.unique _ id node other dir live otherLive parent above
        (name.trans isName)⟩
    · rintro ⟨i, rfl⟩
      obtain ⟨node, live, parent, -⟩ := found _ (member i)
      exact tree.mem_kids.mpr ⟨node, live, parent⟩
    · obtain ⟨node, live, parent, name⟩ := found _ (member i)
      exact ⟨node, live, name, mounted.lookup_entry materialises roomy live parent⟩

/-! ## The registry -/

/-- What libfdt.h promises of `fdt_get_path`: it keeps to the buffer, and where it succeeds the
buffer holds an absolute path. -/
structure GetsPath (fdtGetPath : FdtGetPath) : Prop where
  size : ∀ buf, (fdtGetPath buf).1.length = buf.length
  path : ∀ buf, (fdtGetPath buf).2 = 0 →
    ∃ path, 0 ∉ path ∧ Drivers.Holds (fdtGetPath buf).1 (slash :: path)

/-- The registries that platform devices and children with names of their own make up. -/
inductive Registry : List Device → Prop where
  | empty : Registry []
  | platform {deviceGlobalList : List Device} {fdtGetPath : FdtGetPath} {compatible : Text}
      {regBase : BitVec 64} {aliasProperty : Option Text} {dev : Device}
      (before : Registry deviceGlobalList) (gets : GetsPath fdtGetPath)
      (created : platformDeviceCreate fdtGetPath compatible regBase aliasProperty = some dev) :
      Registry (deviceRegister deviceGlobalList (some dev)).1
  | child {deviceGlobalList : List Device} {child parent dev : Device} {sys : Text}
      (before : Registry deviceGlobalList) (size : child.name.length = DEVICE_NAME_MAX)
      (named : deviceSetChildName child parent sys = some dev) :
      Registry (deviceRegister deviceGlobalList (some dev)).1

/-- A device that is named by its path has a slash in its name. -/
theorem platformDeviceCreate_path {fdtGetPath : FdtGetPath} (gets : GetsPath fdtGetPath)
    {compatible : Text} {regBase : BitVec 64} {aliasProperty : Option Text} {dev : Device}
    (success : (fdtGetPath (List.replicate DEVICE_NAME_MAX 0)).2 = 0)
    (created : platformDeviceCreate fdtGetPath compatible regBase aliasProperty = some dev) :
    slash ∈ cstr dev.name := by
  obtain ⟨path, isString, holds⟩ := gets.path _ success
  unfold platformDeviceCreate at created
  simp only [success, if_true, Option.bind_eq_bind, Option.bind_some] at created
  obtain ⟨aliasName, -, isDev⟩ := Option.bind_eq_some_iff.mp created
  obtain rfl := Option.some.inj isDev
  rw [holds_cstr (by simpa using ⟨by decide, isString⟩) holds]
  exact List.mem_cons_self

/-- A device that was created has a name. -/
theorem platformDeviceCreate_nonempty {fdtGetPath : FdtGetPath} (gets : GetsPath fdtGetPath)
    {compatible : Text} {regBase : BitVec 64} {aliasProperty : Option Text} {dev : Device}
    (created : platformDeviceCreate fdtGetPath compatible regBase aliasProperty = some dev) :
    cstr dev.name ≠ [] := by
  by_cases success : (fdtGetPath (List.replicate DEVICE_NAME_MAX 0)).2 = 0
  · exact List.ne_nil_of_mem (platformDeviceCreate_path gets success created)
  · have size := gets.size (List.replicate DEVICE_NAME_MAX 0)
    rw [List.length_replicate] at size
    have scanned : directives (fun _ => compatible) (platformNameArgs regBase) 0 0
        platformNameFormat.chars = some [.text ⟨false, false, false, 0⟩ compatible.chars,
          .literal 0x2e, .number ⟨false, false, false, 0⟩ regBase 16 false 0x61] := rfl
    have printed := snprintf_eq scanned (by decide) (Nat.le_of_eq size.symm)
    unfold platformDeviceCreate at created
    simp only [success, if_false, printed, Option.map_some, Option.bind_eq_bind, Option.bind_some]
      at created
    obtain ⟨aliasName, -, isDev⟩ := Option.bind_eq_some_iff.mp created
    obtain rfl := Option.some.inj isDev
    have isString := zero_notMem_allChars scanned
    have some' : allChars [.text ⟨false, false, false, 0⟩ compatible.chars, .literal 0x2e,
        .number ⟨false, false, false, 0⟩ regBase 16 false 0x61] ≠ [] := by
      simp [allChars, Directive.chars]
    have cut := List.take_eq_nil_iff.not.mpr
      (not_or.mpr ⟨show DEVICE_NAME_MAX - 1 ≠ 0 by decide, some'⟩)
    rw [cstr_filled (fun nul => isString (List.mem_of_mem_take nul)) cut]
    exact cut

/-- Every registered device has a name. -/
theorem Registry.nonempty {devices : List Device} (registry : Registry devices) :
    ∀ dev ∈ devices, cstr dev.name ≠ [] := by
  have last {devices : List Device} {new : Device} (before : ∀ dev ∈ devices, cstr dev.name ≠ [])
      (isNew : cstr new.name ≠ []) :
      ∀ dev ∈ (deviceRegister devices (some new)).1, cstr dev.name ≠ [] := by
    intro dev member
    rcases List.mem_append.mp member with old | new
    · exact before dev old
    · obtain rfl := List.mem_singleton.mp new
      exact isNew
  induction registry with
  | empty => simp
  | platform before gets created ih => exact last ih (platformDeviceCreate_nonempty gets created)
  | @child devices child parent dev sys before size named ih =>
      refine last ih ?_
      rw [deviceSetChildName_eq size] at named
      obtain ⟨aliasName, -, rfl⟩ := Option.map_eq_some_iff.mp named
      have some' : childName sys parent ≠ [] := by
        simp [childName, DEVICE_NAME_MAX]
      rw [cstr_filled (zero_notMem_childName sys parent) some']
      exact some'

/-- sysfs shows a directory for each registered device exactly where the names have no slash
and are distinct and the heap has room for the directories; elsewhere there are fewer
directories than devices. -/
theorem sysfs_shows_devices {code : FsCode ω π} {address : Nat} {devices : List Device}
    (registry : Registry devices) (isMount : code.mount address = sysfsMount devices)
    (materialises : code.Materialises) (inv : FileInv s) (bare : NoMountOn s [slash])
    (done : sysfsSetup code s address = some (s', 0)) :
    ∃ dir, vfsLookup code (withRoom s') (some sysDevices) = some (withRoom s', some dir) ∧
      (ShowsDevices code (withRoom s') dir devices ↔
        Showable (fun call => s.mem (call + 8)) devices) ∧
      (¬Showable (fun call => s.mem (call + 8)) devices →
        ((withRoom s').kids dir).length < devices.length) := by
  obtain ⟨root, sys, m, top, dir, mounted, entries⟩ :=
    sysfsSetup_spec registry.nonempty isMount inv bare done
  have entries' : Entries (withRoom s') dir devices _ := entries.same ⟨fun _ => rfl, rfl, rfl⟩
  refine ⟨dir, mounted.withRoom.lookup_devices materialises fun _ => rfl,
    entries'.shows mounted.withRoom materialises (fun _ => rfl) Showable.distinct, fun hidden => ?_⟩
  exact Nat.lt_of_le_of_ne entries'.le fun all => hidden (entries'.all.mp all)

/-- `fdt_get_path` of the node "/soc". -/
def socPath : FdtGetPath := fun buf =>
  if buf.length < 5 then (buf, -3)
  else ([0x2f, 0x73, 0x6f, 0x63, 0] ++ buf.drop 5, 0)

/-- The node of the device is found at its path. -/
theorem socPath_gets : GetsPath socPath where
  size buf := by
    unfold socPath
    split
    · rfl
    · simp
      omega
  path buf success := by
    unfold socPath at success ⊢
    split at success
    · cases success
    · next long =>
      rw [if_neg long]
      exact ⟨[0x73, 0x6f, 0x63], by decide, buf.drop 5, rfl⟩

/-- `fdt_get_path` where the path does not fit. -/
def noPath : FdtGetPath := fun buf => (buf, -3)

theorem noPath_gets : GetsPath noPath where
  size _ := rfl
  path _ success := by cases success

theorem copyAlias_none {size : Nat} (some' : 0 < size) :
    copyAlias (List.replicate size 0) none = some (List.replicate size 0) := by
  obtain ⟨size, rfl⟩ := Nat.exists_eq_succ_of_ne_zero (Nat.ne_of_gt some')
  simp [copyAlias, writeBlock, overwrite, List.replicate_succ]

/-- The device with its path for a name. -/
def socDevice : Device :=
  ⟨[0x2f, 0x73, 0x6f, 0x63, 0] ++ (List.replicate DEVICE_NAME_MAX 0).drop 5,
    List.replicate DEVICE_NAME_MAX 0⟩

theorem socDevice_created (compatible : Text) (regBase : BitVec 64) :
    platformDeviceCreate socPath compatible regBase none = some socDevice := by
  have long : ¬(List.replicate DEVICE_NAME_MAX (0 : UInt8)).length < 5 := by simp [DEVICE_NAME_MAX]
  have cleared := copyAlias_none (show 0 < DEVICE_NAME_MAX by decide)
  simp only [platformDeviceCreate, socPath, if_neg long, cleared, if_true, Option.bind_eq_bind,
    Option.bind_some, socDevice]

/-- "a". -/
def compatibleA : Text := ⟨[0x61], by decide⟩

/-- The device with the name "a.0". -/
def plainDevice : Device :=
  ⟨Out.filled ⟨List.replicate DEVICE_NAME_MAX 0, 0, some DEVICE_NAME_MAX⟩ [0x61, 0x2e, 0x30],
    List.replicate DEVICE_NAME_MAX 0⟩

/-- A device without a path is named after what it is compatible with. -/
theorem plainDevice_created :
    platformDeviceCreate noPath compatibleA 0 none = some plainDevice := by
  have scanned : directives (fun _ => compatibleA) (platformNameArgs 0) 0 0
      platformNameFormat.chars = some [.text ⟨false, false, false, 0⟩ compatibleA.chars,
        .literal 0x2e, .number ⟨false, false, false, 0⟩ 0 16 false 0x61] := rfl
  have printed := snprintf_eq scanned (show 0 < DEVICE_NAME_MAX by decide)
    (show DEVICE_NAME_MAX ≤ (List.replicate DEVICE_NAME_MAX (0 : UInt8)).length by simp)
  have chars : allChars [.text ⟨false, false, false, 0⟩ compatibleA.chars,
      .literal 0x2e, .number ⟨false, false, false, 0⟩ 0 16 false 0x61] = [0x61, 0x2e, 0x30] := by
    decide
  have cleared := copyAlias_none (show 0 < DEVICE_NAME_MAX by decide)
  have failed : ¬(-3 : Int) = 0 := by decide
  rw [chars] at printed
  simp only [platformDeviceCreate, noPath, printed, failed, cleared, if_false, Option.map_some,
    Option.bind_eq_bind, Option.bind_some]
  rfl

/-- sysfs over a registry, as the only file system. -/
def sysfsCode (devices : List Device) : FsCode Unit Unit where
  mount _ := sysfsMount devices
  lookup _ := none
  umount _ := none

theorem sysfsCode_materialises (devices : List Device) : (sysfsCode devices).Materialises := by
  intro address lookup s mount dir name isLookup
  cases isLookup

/-- One device, whose name has no slash. -/
theorem sysfs_shows_devices_plain : ∃ s',
    sysfsSetup (sysfsCode [plainDevice]) started 0 = some (s', 0) ∧
    ∃ dir, vfsLookup (sysfsCode [plainDevice]) (withRoom s') (some sysDevices) =
        some (withRoom s', some dir) ∧
      ShowsDevices (sysfsCode [plainDevice]) (withRoom s') dir [plainDevice] := by
  have registry : Registry [plainDevice] := .platform .empty noPath_gets plainDevice_created
  obtain ⟨s', done⟩ : ∃ s', sysfsSetup (sysfsCode [plainDevice]) started 0 = some (s', 0) :=
    ⟨_, rfl⟩
  obtain ⟨dir, found, shows, -⟩ := sysfs_shows_devices registry rfl
    (sysfsCode_materialises [plainDevice]) (FileInv.reachable dirFs_honest started_reachable)
    (started_noMountOn [slash]) done
  have name : cstr plainDevice.name = [0x61, 0x2e, 0x30] := by
    unfold plainDevice
    exact cstr_filled (show 0 ∉ [0x61, 0x2e, 0x30] by decide) (List.cons_ne_nil _ _) _
  refine ⟨s', done, dir, found, shows.mpr ⟨fun dev member => ?_, by simp, fun _ _ => rfl⟩⟩
  obtain rfl := List.mem_singleton.mp member
  rw [name]
  decide

/-- A platform device is named by its path, and sysfs does not show it. -/
theorem sysfs_hides_soc : ∃ s',
    platformDeviceCreate socPath compatibleA 0 none = some socDevice ∧ Registry [socDevice] ∧
    sysfsSetup (sysfsCode [socDevice]) started 0 = some (s', 0) ∧
    vfsLookup (sysfsCode [socDevice]) s' (some sysDevices) = some (s', some 3) ∧
    ¬ShowsDevices (sysfsCode [socDevice]) s' 3 [socDevice] := by
  have created := socDevice_created compatibleA 0
  refine ⟨_, created, .platform .empty socPath_gets created, rfl, rfl,
    fun shows => ?_⟩
  exact absurd shows.count (by decide +kernel)

end Zsbl.Fs
