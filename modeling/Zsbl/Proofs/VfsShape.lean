/-
Module: Zsbl.Proofs.VfsShape
Purpose: In every reachable state the nodes form trees of sibling lists, and a
  call that fails leaves them as they were but for new nodes.
Trusted boundary: none
Main exports:
  Visits, TreeShape, TreeInv.visits, OnlyNewNodes, Builds.onlyNewNodes,
  FailsClean, vfs_treeShape
-/
import Zsbl.Proofs.VfsMountGraph
import Zsbl.Proofs.VfsPath

namespace Zsbl.Common

open Zsbl.Lib

variable {ω π : Type} {s s' : Vfs ω π} {code : FsCode ω π}

/-! ## Following the links -/

/-- Following the child and sibling links from a pointer visits these nodes:
each node before those below it, and these before its next siblings. -/
inductive Visits (s : Vfs ω π) : Option Nat → List Nat → Prop where
  | nil : Visits s none []
  | node {id : Nat} {node : VfsNode ω π} {below after : List Nat}
      (live : s.nodes id = some node) (children : Visits s node.child below)
      (siblings : Visits s node.sibling after) :
      Visits s (some id) (id :: (below ++ after))

/-- The nodes of a file system, and of the directories that are no part of one
yet: from each parentless node the links lead once to every node below it, each
directory's list holds exactly its children, under distinct valid names, and
only directories have children. -/
structure TreeShape (s : Vfs ω π) : Prop where
  root : ∀ id, s.rootNode = some id →
    ∃ node, s.nodes id = some node ∧ node.type = .dir ∧ node.parent = none
  mountRoot : ∀ m mount, s.mounts m = some mount →
    ∃ node, s.nodes mount.root = some node ∧ node.type = .dir ∧ node.parent = none
  visits : ∀ root node, s.nodes root = some node → node.parent = none →
    ∃ nodes, Visits s node.child nodes ∧ (root :: nodes).Nodup ∧
      ∀ id, id ∈ root :: nodes ↔ Under s root id
  lists : ∀ above dir, s.nodes above = some dir →
    ∃ ids, Chain s.siblingOf dir.child ids ∧ ids.Nodup ∧
      ∀ id, id ∈ ids ↔ ∃ node, s.nodes id = some node ∧ node.parent = some above
  names : ∀ id node above, s.nodes id = some node → node.parent = some above →
    node.name ≠ [] ∧ slash ∉ node.name ∧
      ∀ id' node', s.nodes id' = some node' → node'.parent = some above →
        node'.name = node.name → id' = id
  dirs : ∀ id node, s.nodes id = some node → node.child ≠ none → node.type = .dir

/-- A sibling list is visited once, with everything below its nodes. -/
theorem TreeInv.visits_list (inv : TreeInv s) {above : Nat} {kids : List Nat}
    (among : ∀ kid ∈ kids, kid ∈ s.kids above) (nodup : kids.Nodup)
    (below : ∀ kid ∈ kids, ∀ node, s.nodes kid = some node →
      ∃ nodes, Visits s node.child nodes ∧ (kid :: nodes).Nodup ∧
        ∀ id, id ∈ kid :: nodes ↔ Under s kid id)
    {start : Option Nat} (list : Chain s.siblingOf start kids) :
    ∃ nodes, Visits s start nodes ∧ nodes.Nodup ∧
      ∀ id, id ∈ nodes ↔ ∃ kid ∈ kids, Under s kid id := by
  induction list with
  | nil => exact ⟨[], .nil, List.nodup_nil, by simp⟩
  | @cons kid link rest allocated _ ih =>
      obtain ⟨node, live, rfl⟩ := Option.map_eq_some_iff.mp allocated
      obtain ⟨notRest, nodupRest⟩ := List.nodup_cons.mp nodup
      obtain ⟨nodes, visits, nodupKid, isUnder⟩ := below kid List.mem_cons_self node live
      obtain ⟨after, visitsRest, nodupAfter, isRest⟩ := ih
        (fun other member => among other (List.mem_cons_of_mem _ member)) nodupRest
        (fun other member => below other (List.mem_cons_of_mem _ member))
      have apart : (kid :: nodes).Disjoint after := by
        intro id inKid inRest
        obtain ⟨other, member, under⟩ := (isRest id).mp inRest
        have eq := Under.sibling_eq inv (among kid List.mem_cons_self)
          (among other (List.mem_cons_of_mem _ member)) ((isUnder id).mp inKid) under
        exact notRest (eq ▸ member)
      refine ⟨(kid :: nodes) ++ after, .node live visits visitsRest,
        List.nodup_append'.mpr ⟨nodupKid, nodupAfter, apart⟩, fun id => ?_⟩
      rw [List.mem_append, isUnder, isRest]
      simp

/-- The links from a node lead once to every node below it. -/
theorem TreeInv.visits (inv : TreeInv s) {root : Nat} {node : VfsNode ω π}
    (live : s.nodes root = some node) :
    ∃ nodes, Visits s node.child nodes ∧ (root :: nodes).Nodup ∧
      ∀ id, id ∈ root :: nodes ↔ Under s root id := by
  -- children are allocated after their parents
  induction height : s.nextNode - root using Nat.strong_induction_on
    generalizing root node with
  | _ height ih =>
      subst height
      have rootLt := inv.lt root node live
      have below : ∀ kid ∈ s.kids root, ∀ kidNode, s.nodes kid = some kidNode →
          ∃ nodes, Visits s kidNode.child nodes ∧ (kid :: nodes).Nodup ∧
            ∀ id, id ∈ kid :: nodes ↔ Under s kid id := by
        intro kid member kidNode kidLive
        obtain ⟨other, same, parent⟩ := inv.mem_kids.mp member
        obtain rfl := Option.some.inj (kidLive.symm.trans same)
        have lt := (inv.parent kid kidNode root kidLive parent).1
        exact ih _ (by omega) kidLive rfl
      obtain ⟨nodes, visits, nodup, isUnder⟩ := inv.visits_list (fun _ member => member)
        (s.kids_nodup root) below (inv.list root node live)
      refine ⟨nodes, visits, List.nodup_cons.mpr ⟨?_, nodup⟩, fun id => ?_⟩
      · intro member
        obtain ⟨kid, isKid, under⟩ := (isUnder root).mp member
        obtain ⟨kidNode, kidLive, parent⟩ := inv.mem_kids.mp isKid
        have lt := (inv.parent kid kidNode root kidLive parent).1
        have le := under.le inv
        omega
      · rw [List.mem_cons, isUnder]
        constructor
        · rintro (rfl | ⟨kid, member, under⟩)
          · exact .self
          · exact .of_kid inv member under
        · exact fun under => under.root_or_kid inv

/-- The nodes of an invariant state have the shape of a tree. -/
theorem FileInv.treeShape (inv : FileInv s) : TreeShape s where
  root := inv.tree.root
  mountRoot := by
    intro m mount live
    obtain ⟨dir, rootLive, isDir, top, -⟩ := inv.links.root m mount live
    exact ⟨dir, rootLive, isDir, top⟩
  visits := fun root node live _ => inv.tree.visits live
  lists := fun above dir live =>
    ⟨s.kids above, inv.tree.list above dir live, s.kids_nodup above,
      fun _ => inv.tree.mem_kids⟩
  names := by
    intro id node above live parent
    obtain ⟨ne, noSlash⟩ := vfsNameValid_iff.mp (inv.tree.valid id node above live parent)
    exact ⟨ne, noSlash, fun id' node' live' parent' same =>
      inv.tree.unique id' id node' node above live' live parent' parent same⟩
  dirs := by
    intro id node live hasChild
    obtain ⟨kid, first⟩ := Option.ne_none_iff_exists'.mp hasChild
    have member : kid ∈ s.kids id := by
      have start := (inv.tree.list id node live).start_eq
      exact List.mem_of_mem_head? (by rw [← start, first]; rfl)
    obtain ⟨kidNode, kidLive, parent⟩ := inv.tree.mem_kids.mp member
    obtain ⟨-, dir, dirLive, isDir⟩ := inv.tree.parent kid kidNode id kidLive parent
    obtain rfl := Option.some.inj (live.symm.trans dirLive)
    exact isDir

/-! ## Calls that only add nodes -/

/-- The old nodes, mounts and open files are as they were; new nodes may have
been put at the heads of the sibling lists. -/
structure OnlyNewNodes (s s' : Vfs ω π) : Prop where
  node : ∀ id node, s.nodes id = some node → ∃ node', s'.nodes id = some node' ∧
    node'.name = node.name ∧ node'.type = node.type ∧ node'.fops = node.fops ∧
    node'.parent = node.parent ∧ node'.mnt = node.mnt
  new : ∀ id, (s'.nodes id).isSome → s.nodes id = none → s.nextNode ≤ id
  lists : ∀ above dir dir' ids, s.nodes above = some dir → s'.nodes above = some dir' →
    Chain s.siblingOf dir.child ids →
    ∃ added, (∀ id ∈ added, s.nextNode ≤ id) ∧
      Chain s'.siblingOf dir'.child (added ++ ids)
  mounts : s'.mounts = s.mounts
  rootNode : s'.rootNode = s.rootNode
  fileHead : s'.fileHead = s.fileHead

/-- Building leaves the operations of the files that are there. -/
theorem BuildStep.fops (step : BuildStep s s') (inv : TreeInv s) {id : Nat}
    {node : VfsNode ω π} (live : s.nodes id = some node) :
    ∃ node', s'.nodes id = some node' ∧ node'.fops = node.fops := by
  have ne : id ≠ s.nextNode := Nat.ne_of_lt (inv.lt id node live)
  cases step with
  | malloc => exact ⟨node, live, rfl⟩
  | world => exact ⟨node, live, rfl⟩
  | allocDir name =>
      unfold vfsAllocDirNode
      split
      · exact ⟨node, live, rfl⟩
      · rcases vfsAllocNode_cases s name .dir none none with
          ⟨s₁, result, same⟩ | ⟨s₁, result, grown⟩
        · rw [result]
          exact ⟨node, by rw [same.quiet.nodes, live], rfl⟩
        · rw [result]
          exact ⟨node, by rw [grown.nodes, Function.update_of_ne ne, live], rfl⟩
  | @create _ parent name type fops priv created liveParent done =>
      rcases inv.vfsCreateNode liveParent name type fops priv with
        ⟨s₁, result, same⟩ | ⟨s₁, above, dir, -, result, dirLive, -, -, -, grown⟩
      · obtain ⟨rfl, -⟩ := Prod.mk.inj (Option.some.inj (done.symm.trans result))
        exact ⟨node, by rw [same.quiet.nodes, live], rfl⟩
      · obtain ⟨rfl, -⟩ := Prod.mk.inj (Option.some.inj (done.symm.trans result))
        obtain ⟨child, old⟩ := withChild_old (freshNode name type fops priv) dirLive ne
        exact ⟨{ node with child := child.getD node.child },
          by rw [grown.nodes, old, live]; rfl, rfl⟩
  | @setPriv other before priv otherLive =>
      by_cases eq : id = other
      · subst eq
        obtain rfl := Option.some.inj (live.symm.trans otherLive)
        exact ⟨_, Function.update_self .., rfl⟩
      · exact ⟨node, by simp [Function.update_of_ne eq, live], rfl⟩

/-- A build leaves the operations of the nodes alone. -/
theorem Builds.fops (builds : Builds s s') (inv : TreeInv s) {id : Nat}
    {node : VfsNode ω π} (live : s.nodes id = some node) :
    ∃ node', s'.nodes id = some node' ∧ node'.fops = node.fops := by
  induction builds with
  | refl => exact ⟨node, live, rfl⟩
  | tail before step ih =>
      obtain ⟨node', live', same⟩ := ih
      obtain ⟨node'', live'', same'⟩ := step.fops (Builds.tree before inv).1 live'
      exact ⟨node'', live'', same'.trans same⟩

/-- The children of an old node are the old ones, behind new ones. -/
theorem Extends.kids (grown : Extends s s') (above : Nat) :
    ∃ added, (∀ id ∈ added, s.nextNode ≤ id) ∧ s'.kids above = added ++ s.kids above := by
  obtain ⟨more, count⟩ := Nat.exists_eq_add_of_le grown.nextNode
  refine ⟨((List.range more).map (s.nextNode + ·)).reverse.filter
    fun id => s'.parentOf id = some above, ?_, ?_⟩
  · intro id member
    simp only [List.mem_filter, List.mem_reverse, List.mem_map] at member
    obtain ⟨⟨offset, -, rfl⟩, -⟩ := member
    exact Nat.le_add_right _ _
  · unfold Vfs.kids
    rw [count, List.range_add, List.reverse_append, List.filter_append]
    congr 1
    apply List.filter_congr
    intro id member
    have lt : id < s.nextNode := by simpa using member
    have same : s'.parentOf id = some above ↔ s.parentOf id = some above := by
      rw [Vfs.parentOf_eq_some, Vfs.parentOf_eq_some]
      constructor
      · rintro ⟨node', live', parent⟩
        rcases grown.new id node' live' with old | ⟨le, -⟩
        · obtain ⟨node, live⟩ := Option.isSome_iff_exists.mp old
          obtain ⟨other, otherLive, -, -, parent', -⟩ := grown.node id node live
          obtain rfl := Option.some.inj (live'.symm.trans otherLive)
          exact ⟨node, live, parent'.symm.trans parent⟩
        · omega
      · rintro ⟨node, live, parent⟩
        obtain ⟨node', live', -, -, parent', -⟩ := grown.node id node live
        exact ⟨node', live', parent'.trans parent⟩
    simp [same]

/-- A build adds nodes and changes nothing of the old ones but their links. -/
theorem Builds.onlyNewNodes (builds : Builds s s') (inv : TreeInv s) :
    OnlyNewNodes s s' := by
  obtain ⟨inv', grown⟩ := builds.tree inv
  constructor
  · intro id node live
    obtain ⟨node', live', name, type, parent, mnt⟩ := grown.node id node live
    obtain ⟨other, otherLive, fops⟩ := builds.fops inv live
    obtain rfl := Option.some.inj (live'.symm.trans otherLive)
    exact ⟨node', live', name, type, fops, parent, mnt⟩
  · intro id alive fresh
    obtain ⟨node', live'⟩ := Option.isSome_iff_exists.mp alive
    rcases grown.new id node' live' with old | ⟨le, -⟩
    · simp [fresh] at old
    · exact le
  · intro above dir dir' ids live live' list
    obtain rfl := list.functional (inv.list above dir live)
    obtain ⟨added, new, kids⟩ := grown.kids above
    exact ⟨added, new, kids ▸ inv'.list above dir' live'⟩
  · exact grown.mounts
  · exact grown.rootNode
  · exact grown.fileHead

/-! ## Directories created along a path -/

/-- These names lead from the root of the VFS down its own tree to a node. -/
inductive NamedPath (s : Vfs ω π) (root : Nat) : List CStr → Nat → Prop where
  | root : NamedPath s root [] root
  | child {names : List CStr} {above id : Nat} {node : VfsNode ω π}
      (way : NamedPath s root names above) (live : s.nodes id = some node)
      (parent : node.parent = some above) : NamedPath s root (names ++ [node.name]) id

/-- Nodes have been added, all of them directories that a prefix of the names
leads to. -/
structure CreatedAlong (s s' : Vfs ω π) (names : List CStr) : Prop where
  onlyNew : OnlyNewNodes s s'
  new : ∀ id node, s'.nodes id = some node → s.nodes id = none → node.type = .dir ∧
    ∃ root way, s.rootNode = some root ∧ way <+: names ∧ NamedPath s' root way id

/-- A way stays one when nodes are added. -/
theorem NamedPath.extends {root id : Nat} {names : List CStr}
    (way : NamedPath s root names id) (grown : Extends s s') :
    NamedPath s' root names id := by
  induction way with
  | root => exact .root
  | child _ live parent ih =>
      obtain ⟨node', live', name', -, parent', -⟩ := grown.node _ _ live
      rw [← name']
      exact .child ih live' (parent'.trans parent)

/-- A new node that a step created is the one it returns. -/
theorem TreeInv.vfsMkdir_new (inv : TreeInv s) {cur : Nat} {name : CStr}
    {created : Option Nat} (live : s.Live (some cur))
    (made : vfsMkdir s (some cur) name = some (s', created)) {id : Nat}
    {node : VfsNode ω π} (live' : s'.nodes id = some node) (fresh : s.nodes id = none) :
    created = some id ∧ node.type = .dir ∧ node.name = name ∧ node.parent = some cur := by
  rcases inv.vfsCreateNode live name .dir none none with
    ⟨s₁, result, same⟩ | ⟨s₁, above, dir, isAbove, result, dirLive, -, -, -, grown⟩
  · obtain ⟨rfl, -⟩ := Prod.mk.inj (Option.some.inj (made.symm.trans result))
    rw [same.quiet.nodes, fresh] at live'
    cases live'
  · obtain ⟨rfl, rfl⟩ := Prod.mk.inj (Option.some.inj (made.symm.trans result))
    obtain rfl := Option.some.inj isAbove
    have neAbove : s.nextNode ≠ cur := Nat.ne_of_gt (inv.lt cur dir dirLive)
    rw [grown.nodes] at live'
    by_cases eq : id = s.nextNode
    · subst eq
      rw [withChild_new neAbove] at live'
      obtain rfl := Option.some.inj live'
      exact ⟨rfl, rfl, rfl, rfl⟩
    · obtain ⟨child, old⟩ := withChild_old (freshNode name .dir none none) dirLive eq
      rw [old, fresh] at live'
      cases live'

/-- The loop of `vfs_mkdir_p` creates directories along the rest of the path. -/
theorem mkdirPFrom_created {fuel cur root : Nat} {p : CStr} {found : Option Nat}
    {names : List CStr} (inv : TreeInv s) (live : (s.nodes cur).isSome)
    (way : NamedPath s root names cur)
    (done : mkdirPFrom fuel s cur p = some (s', found)) {id : Nat} {node : VfsNode ω π}
    (live' : s'.nodes id = some node) (fresh : s.nodes id = none) :
    node.type = .dir ∧
      ∃ more, more <+: segments p ∧ NamedPath s' root (names ++ more) id := by
  induction fuel generalizing s cur p names with
  | zero =>
      cases p with
      | nil =>
          obtain ⟨rfl, -⟩ := Prod.mk.inj (Option.some.inj done)
          cases fresh.symm.trans live'
      | cons _ _ => cases done
  | succ fuel ih =>
      cases p with
      | nil =>
          obtain ⟨rfl, -⟩ := Prod.mk.inj (Option.some.inj done)
          cases fresh.symm.trans live'
      | cons first p =>
          simp only [mkdirPFrom] at done
          split at done
          · obtain ⟨rfl, -⟩ := Prod.mk.inj (Option.some.inj done)
            cases fresh.symm.trans live'
          · rename_i more
            rw [segments_cons more]
            have malloc : Builds s s.malloc.1 := .single (.malloc s)
            obtain ⟨inv₁, grown₁⟩ := malloc.tree inv
            split at done
            · obtain ⟨rfl, -⟩ := Prod.mk.inj (Option.some.inj done)
              cases fresh.symm.trans live'
            · obtain ⟨found', search, done⟩ := Option.bind_eq_some_iff.mp done
              have live₁ : s.malloc.1.Live (some cur) := by
                intro id same
                obtain rfl := Option.some.inj same
                exact live
              cases found' with
              | some next =>
                  obtain ⟨nextNode, nextLive, done⟩ := Option.bind_eq_some_iff.mp done
                  split at done
                  · obtain ⟨rfl, -⟩ := Prod.mk.inj (Option.some.inj done)
                    cases fresh.symm.trans live'
                  · rcases inv₁.findChild (live₁ cur rfl)
                        (((first :: p).dropWhile (· = slash)).takeWhile (· ≠ slash)) with
                      ⟨absent, -⟩ | ⟨kid, kidNode, isKid, kidLive, parent, name⟩
                    · cases absent.symm.trans search
                    · obtain rfl := Option.some.inj (Option.some.inj (isKid.symm.trans search))
                      have way' := (way.extends grown₁).child kidLive parent
                      rw [name] at way'
                      obtain ⟨isDir, more, isPrefix, way''⟩ := ih inv₁
                        (by simp [kidLive]) way' done fresh
                      refine ⟨isDir, _ :: more, List.cons_prefix_cons.mpr ⟨rfl, isPrefix⟩, ?_⟩
                      simpa using way''
              | none =>
                  obtain ⟨⟨s₂, created⟩, made, done⟩ := Option.bind_eq_some_iff.mp done
                  have build : Builds s.malloc.1 s₂ := .single (.create live₁ made)
                  obtain ⟨inv₂, grown₂⟩ := build.tree inv₁
                  have isNew := fun {node' : VfsNode ω π} (live₂ : s₂.nodes id = some node') =>
                    inv₁.vfsMkdir_new live₁ made live₂ fresh
                  cases created with
                  | none =>
                      obtain ⟨rfl, -⟩ := Prod.mk.inj (Option.some.inj done)
                      cases (isNew live').1
                  | some next =>
                      obtain ⟨nextNode, nextLive, parent, name, -⟩ :=
                        inv₁.vfsCreateNode_created live₁ made
                      have way' := ((way.extends grown₁).extends grown₂).child nextLive parent
                      rw [name] at way'
                      cases before : s₂.nodes id with
                      | none =>
                          obtain ⟨isDir, more, isPrefix, way''⟩ :=
                            ih inv₂ (by simp [nextLive]) way' done before
                          refine ⟨isDir, _ :: more,
                            List.cons_prefix_cons.mpr ⟨rfl, isPrefix⟩, ?_⟩
                          simpa using way''
                      | some node₂ =>
                          obtain ⟨same, isDir, -⟩ := isNew before
                          obtain rfl := Option.some.inj same
                          have rest := mkdirPFrom_builds inv₂ (by simp [nextLive]) done
                          obtain ⟨-, grown⟩ := rest.tree inv₂
                          obtain ⟨node', live₃, -, type, -⟩ := grown.node _ node₂ before
                          obtain rfl := Option.some.inj (live'.symm.trans live₃)
                          refine ⟨type.trans isDir, [_],
                            List.cons_prefix_cons.mpr ⟨rfl, List.nil_prefix⟩, ?_⟩
                          exact way'.extends grown

/-! ## Calls that fail -/

/-- The calls that fail leave the tree as it was; `vfs_mkdir_p` leaves new
directories along its path. -/
structure FailsClean (s : Vfs ω π) : Prop where
  mkdir : ∀ parent name s', s.Live parent → vfsMkdir s parent name = some (s', none) →
    SameButHeap s s'
  mknod : ∀ parent name type fops priv s', s.Live parent →
    vfsMknod s parent name type fops priv = some (s', none) → SameButHeap s s'
  unlink : ∀ parent name s' ret, s.Live parent →
    vfsUnlink s parent name = some (s', ret) → ret ≠ 0 → s' = s
  mkdirP : ∀ path s', vfsMkdirP s (some path) = some (s', none) →
    CreatedAlong s s' (segments path)

/-- A failing call changes nothing but the memory. -/
theorem TreeInv.vfsCreateNode_fails (inv : TreeInv s) {parent : Option Nat} {name : CStr}
    {type : VfsNodeType} {fops : Option (FileOps ω π)} {priv : Option π}
    (live : s.Live parent)
    (failed : Zsbl.Common.vfsCreateNode s parent name type fops priv = some (s', none)) :
    SameButHeap s s' := by
  rcases inv.vfsCreateNode live name type fops priv with
    ⟨s₁, result, same⟩ | ⟨s₁, above, dir, -, result, -⟩
  · obtain ⟨rfl, -⟩ := Prod.mk.inj (Option.some.inj (failed.symm.trans result))
    exact same
  · cases (Prod.mk.inj (Option.some.inj (failed.symm.trans result))).2

theorem TreeInv.vfsUnlink_fails (inv : TreeInv s) {parent : Option Nat} {name : CStr}
    {ret : Int} (live : s.Live parent)
    (failed : Zsbl.Common.vfsUnlink s parent name = some (s', ret)) (error : ret ≠ 0) :
    s' = s := by
  rcases inv.vfsUnlink live name with ⟨ret', result, -⟩ | ⟨s₁, _, _, _, -, result, -⟩
  · exact (Prod.mk.inj (Option.some.inj (failed.symm.trans result))).1
  · exact absurd (Prod.mk.inj (Option.some.inj (failed.symm.trans result))).2 error

/-- Every call that fails leaves the tree as it was. -/
theorem TreeInv.failsClean (inv : TreeInv s) : FailsClean s where
  mkdir := fun _ _ _ live failed => inv.vfsCreateNode_fails live failed
  mknod := fun _ _ _ _ _ _ live failed => inv.vfsCreateNode_fails live failed
  unlink := fun _ _ _ _ live failed error => inv.vfsUnlink_fails live failed error
  mkdirP := by
    intro path s' failed
    refine ⟨(vfsMkdirP_builds inv failed).onlyNewNodes inv, fun id node live' fresh => ?_⟩
    unfold vfsMkdirP at failed
    simp only at failed
    split at failed
    · obtain ⟨rfl, -⟩ := Prod.mk.inj (Option.some.inj failed)
      cases fresh.symm.trans live'
    · split at failed
      · obtain ⟨rfl, -⟩ := Prod.mk.inj (Option.some.inj failed)
        cases fresh.symm.trans live'
      · rename_i root isRoot
        obtain ⟨rootNode, rootLive, -⟩ := inv.root root isRoot
        obtain ⟨isDir, way, isPrefix, named⟩ := mkdirPFrom_created inv (by simp [rootLive])
          .root failed live' fresh
        exact ⟨isDir, root, way, isRoot, isPrefix, named⟩

/-- In every reachable state the nodes form trees, and calls that fail leave
them as they were. -/
theorem vfs_treeShape (honest : code.Honest) (s : Vfs ω π)
    (reached : (vfsLts code).Reachable s) : TreeShape s ∧ FailsClean s :=
  ⟨(FileInv.reachable honest reached).treeShape,
    (FileInv.reachable honest reached).tree.failsClean⟩

/-- The trees with one file system mounted. -/
theorem vfs_treeShape_withMount :
    (TreeShape withMount ∧ FailsClean withMount) ∧ (withMount.nodes 2).isSome :=
  ⟨vfs_treeShape dirFs_honest withMount withMount_reachable.reachable, by rfl⟩

end Zsbl.Common
