/-
Module: Zsbl.Proofs.VfsOwnTree
Purpose: Creating directories, mounting on them and unlinking them in the VFS's own tree.
Trusted boundary: none
Main exports:
  OwnTree, OwnTree.vfsMkdirP, OwnTree.vfsMkdir, OwnTree.vfsMount_cases,
  OwnTree.vfsMount_placed, OwnTree.vfsUnlink
-/
import Zsbl.Proofs.VfsLayout
import Zsbl.Proofs.VfsMountUndo
import Zsbl.Proofs.VfsSlots

namespace Zsbl.Common

open Zsbl.Lib

variable {ω π : Type} {s s' t : Vfs ω π} {code : FsCode ω π} {contents : Contents ω π}
  {types : List FsType} {root id m : Nat} {names : List CStr} {places : List (List CStr × Nat)}
  {bare bare' : List CStr}

/-- With room on the heap and no open file, the VFS's own tree consists of directories.  The
mounts cover exactly the ones at these places, and what they leave bare in the root directory
has one of these names; the mounts are in the order in which they were made. -/
structure OwnTree (s : Vfs ω π) (types : List FsType) (root : Nat)
    (places : List (List CStr × Nat)) (bare : List CStr) : Prop where
  inv : FileInv s
  roomy : s.Roomy
  ready : s.ready = true
  closed : s.fileHead = []
  fsTypes : s.fsTypes = types
  isRoot : s.rootNode = some root
  dirs : ∀ names id node, NamedPath s root names id → s.nodes id = some node → node.type = .dir
  shown : ∀ names m, Shown s root names m ↔ (names, m) ∈ places
  tops : ∀ name id node, NamedPath s root [name] id → s.nodes id = some node →
    node.mnt = none → name ∈ bare
  ordered : places.Pairwise fun place place' => place.2 < place'.2

namespace OwnTree

theorem rootLive (own : OwnTree s types root places bare) : (s.nodes root).isSome := by
  obtain ⟨top, live, -⟩ := own.inv.tree.root root own.isRoot
  simp [live]

theorem clearWay_iff (own : OwnTree s types root places bare) :
    ClearWay s root names ↔ ∀ place ∈ places, place.1 <+: names → place.1 = names := by
  constructor
  · intro clear place member isPrefix
    by_contra ne
    exact clear place.1 place.2 isPrefix ne ((own.shown _ _).mpr member)
  · intro clear before m isPrefix ne shown
    exact ne (clear (before, m) ((own.shown _ _).mp shown) isPrefix)

/-- New directories change nothing else. -/
theorem grown (own : OwnTree s types root places bare) (builds : Builds s s')
    (new : ∀ names id node, NamedPath s' root names id → s'.nodes id = some node →
      s.nodes id = none → node.type = .dir ∧ ∀ name, names = [name] → name ∈ bare')
    (more : bare ⊆ bare') : OwnTree s' types root places bare' := by
  obtain ⟨inv', grown⟩ := builds.tree own.inv.tree
  have old {names : List CStr} {id : Nat} {node' : VfsNode ω π}
      (way : NamedPath s' root names id) (live' : s'.nodes id = some node')
      (was : s.nodes id ≠ none) : ∃ node, NamedPath s root names id ∧ s.nodes id = some node ∧
        node'.type = node.type ∧ node'.mnt = node.mnt := by
    obtain ⟨node, live⟩ := Option.ne_none_iff_exists'.mp was
    obtain ⟨other, otherLive, -, type, -, mnt⟩ := grown.node id node live
    obtain rfl := Option.some.inj (live'.symm.trans otherLive)
    exact ⟨node, way.old own.inv.tree grown (by simp [live]), live, type, mnt⟩
  refine ⟨(builds.files own.inv).1, builds.roomy own.inv.tree own.roomy,
    grown.ready.trans own.ready, grown.fileHead.trans own.closed,
    builds.tables.fsTypes.trans own.fsTypes, grown.rootNode.trans own.isRoot,
    fun names id node' way live' => ?_, fun names m => ?_,
    fun name id node' way live' unmounted => ?_, own.ordered⟩
  · by_cases fresh : s.nodes id = none
    · exact (new names id node' way live' fresh).1
    · obtain ⟨node, was, live, type, -⟩ := old way live' fresh
      exact type.trans (own.dirs names id node was live)
  · rw [grown.shown own.inv.tree]
    exact own.shown names m
  · by_cases fresh : s.nodes id = none
    · exact (new [name] id node' way live' fresh).2 name rfl
    · obtain ⟨node, was, live, -, mnt⟩ := old way live' fresh
      exact more (own.tops name id node was live (mnt.symm.trans unmounted))

/-- What is built outside the tree is no concern of it. -/
theorem outside (own : OwnTree s types root places bare) (builds : Builds s s')
    (elsewhere : ∀ id, Under s' root id → (s'.nodes id).isSome → (s.nodes id).isSome) :
    OwnTree s' types root places bare := by
  refine own.grown builds (fun names id node way live fresh => ?_) (List.Subset.refl bare)
  have was := elsewhere id way.under (by simp [live])
  simp [fresh] at was

end OwnTree

/-- A file system serves nothing in the VFS's own tree. -/
theorem Filled.own_old (filled : Filled code contents s s') (inv' : FileInv s')
    (isRoot : s'.rootNode = some root) (rootLive : (s.nodes root).isSome)
    (under : Under s' root id) (live : (s'.nodes id).isSome) : (s.nodes id).isSome := by
  by_contra fresh
  obtain ⟨node, live⟩ := Option.isSome_iff_exists.mp live
  obtain ⟨mnt, above, dir, entry, parent, dirLive, inside, offered, -⟩ :=
    (filled.served id node live (by simpa using fresh)).offered
  obtain ⟨m, mount, address, isMnt, -⟩ := offered.has
  have notRoot : id ≠ root := by
    rintro rfl
    exact fresh rootLive
  have own : Inside s' none above := ⟨root, isRoot, under.parent notRoot live parent⟩
  rw [inv'.inside_eq inside own] at isMnt
  cases isMnt

/-- Neither is the tree of a new mount. -/
theorem FreshTree.own_old {top : Nat} (fresh : FreshTree s t top) (inv : TreeInv s)
    (isRoot : s.rootNode = some root) (under : Under t root id) (live : (t.nodes id).isSome) :
    (s.nodes id).isSome := by
  obtain ⟨node, rootLive, -, noParent⟩ := inv.root root isRoot
  obtain ⟨dir, topLive, -, topParent⟩ := fresh.dir
  rcases fresh.under id live with old | under'
  · exact old
  · have same := under.top_eq under' (fresh.kept root node rootLive) noParent topLive topParent
    have below := inv.lt root node rootLive
    have above := fresh.fresh
    omega

/-! ## Directories -/

namespace OwnTree

/-- `vfs_mkdir` makes a directory of every new name. -/
theorem vfsMkdir (own : OwnTree s types root places bare) {above : Nat}
    (way : NamedPath s root names above) {name : CStr} (valid : vfsNameValid name = true)
    (absent : childNamed s above name = none) (noted : names = [] → name ∈ bare')
    (more : bare ⊆ bare') :
    ∃ s' dir, vfsMkdir s (some above) name = some (s', some s.nextNode) ∧ Builds s s' ∧
      s.nodes above = some dir ∧
      Grown s s' (withChild s above dir (freshNode name .dir none none)) ∧
      OwnTree s' types root places bare' ∧ NamedPath s' root (names ++ [name]) s.nextNode ∧
      ∀ id, (s'.nodes id).isSome → s.nodes id = none → Under s' root id := by
  have tree := own.inv.tree
  obtain ⟨dir, live⟩ := Option.isSome_iff_exists.mp (way.live own.rootLive)
  have isDir := own.dirs names above dir way live
  have passed : s.Live (some above) := by
    intro id same
    obtain rfl := Option.some.inj same
    simp [live]
  have search := tree.vfsFindChildByName_eq (Option.isSome_iff_exists.mpr ⟨dir, live⟩) name
  rw [absent] at search
  obtain ⟨s', made, grown⟩ := tree.vfsCreateNode_roomy own.roomy own.ready (by simp [own.isRoot])
    live isDir valid search (show VfsNodeType.dir = .dir ∨ _ from Or.inl rfl) none
  have builds : Builds s s' := .single (.create passed made)
  obtain ⟨new, newLive, parent, rfl, type, -⟩ := tree.vfsCreateNode_created passed made
  have way' := (way.extends (builds.tree tree).2).child newLive parent
  refine ⟨s', dir, made, builds, live, grown, own.grown builds ?_ more, way', ?_⟩
  · intro names' id node there live' fresh
    obtain ⟨same, -⟩ := tree.vfsMkdir_new passed made live' fresh
    obtain rfl := Option.some.inj same
    obtain rfl := Option.some.inj (newLive.symm.trans live')
    have isRoot' := ((builds.tree tree).2.rootNode).trans own.isRoot
    obtain rfl := there.names_eq (builds.tree tree).1 isRoot' way'
    refine ⟨type, fun name single => ?_⟩
    obtain ⟨empty, last⟩ :=
      List.append_inj' (show names ++ [new.name] = [] ++ [name] from single) rfl
    obtain rfl := (List.cons.inj last).1
    exact noted empty
  · intro id live' fresh
    obtain ⟨node, live'⟩ := Option.isSome_iff_exists.mp live'
    obtain ⟨same, -⟩ := tree.vfsMkdir_new passed made live' fresh
    obtain rfl := Option.some.inj same
    exact way'.under

/-- The loop of `vfs_mkdir_p` reaches the end of its path. -/
theorem mkdirPFrom (own : OwnTree s types root places bare) {fuel cur : Nat} {p : CStr}
    (way : NamedPath s root names cur) (enough : p.length ≤ fuel) :
    ∃ s' id, mkdirPFrom fuel s cur p = some (s', some id) := by
  induction fuel generalizing s cur p names bare with
  | zero =>
      obtain rfl := List.eq_nil_of_length_eq_zero (Nat.le_zero.mp enough)
      exact ⟨s, cur, rfl⟩
  | succ fuel ih =>
      cases p with
      | nil => exact ⟨s, cur, rfl⟩
      | cons first p =>
          simp only [Zsbl.Common.mkdirPFrom]
          by_cases more : (first :: p).dropWhile (· = slash) = []
          · exact ⟨s, cur, by rw [if_pos more]; rfl⟩
          · obtain ⟨ne, absent, less⟩ := segment_valid more
            rw [if_neg more, own.roomy.malloc]
            generalize ((first :: p).dropWhile (· = slash)).takeWhile (· ≠ slash) = name
              at ne absent
            generalize ((first :: p).dropWhile (· = slash)).dropWhile (· ≠ slash) = rest at less
            simp only [own.inv.tree.vfsFindChildByName_eq (way.live own.rootLive), Bool.not_true,
              Bool.false_eq_true, if_false, Option.bind_eq_bind, Option.bind_some]
            cases found : childNamed s cur name with
            | some next =>
                obtain ⟨node, live, parent, -⟩ := childNamed_spec own.inv.tree found
                have way' := way.child live parent
                have isDir := own.dirs _ next node way' live
                simp only [live, isDir, Option.bind_some, ne_eq, not_true_eq_false, if_false]
                exact ih own way' (by omega)
            | none =>
                obtain ⟨s', -, made, -, -, -, own', way', -⟩ := own.vfsMkdir way
                  (vfsNameValid_iff.mpr ⟨ne, absent⟩) found
                  (fun _ => show name ∈ name :: bare from List.mem_cons_self)
                  (List.subset_cons_self name bare)
                simp only [made, Option.bind_some]
                exact ih own' way' (by omega)

/-- `vfs_mkdir_p` leads to a directory along the names of its path. -/
theorem vfsMkdirP (own : OwnTree s types root places bare) {path : CStr}
    (absolute : vfsIsPathValid path = true)
    (noted : ∀ name, (segments path).head? = some name → name ∈ bare) :
    ∃ s' id, vfsMkdirP s (some path) = some (s', some id) ∧ Builds s s' ∧
      OwnTree s' types root places bare ∧ NamedPath s' root (segments path) id ∧
      ∀ id, (s'.nodes id).isSome → s.nodes id = none → Under s' root id := by
  obtain ⟨s', id, made⟩ := own.mkdirPFrom .root (Nat.le_refl path.length)
  have done : Zsbl.Common.vfsMkdirP s (some path) = some (s', some id) := by
    simp [Zsbl.Common.vfsMkdirP, absolute, own.isRoot, made]
  have builds := vfsMkdirP_builds own.inv.tree done
  obtain ⟨inv', grown⟩ := builds.tree own.inv.tree
  have isRoot' := grown.rootNode.trans own.isRoot
  have way := (mkdirPFrom_way own.inv.tree own.rootLive made).named .root
  have created {id : Nat} {node : VfsNode ω π} (live : s'.nodes id = some node)
      (fresh : s.nodes id = none) :=
    mkdirPFrom_created own.inv.tree own.rootLive .root made live fresh
  refine ⟨s', id, done, builds, own.grown builds ?_ (List.Subset.refl bare), way, ?_⟩
  · intro names id node there live fresh
    obtain ⟨isDir, more, isPrefix, along⟩ := created live fresh
    refine ⟨isDir, fun name single => noted name ?_⟩
    obtain ⟨rest, split⟩ : names <+: segments path := there.names_eq inv' isRoot' along ▸ isPrefix
    simp [← split, single]
  · intro id live fresh
    obtain ⟨node, live⟩ := Option.isSome_iff_exists.mp live
    obtain ⟨-, more, -, along⟩ := created live fresh
    exact along.under

end OwnTree

/-! ## Mounting -/

/-- A way speaks of the nodes alone. -/
theorem NamedPath.same (way : NamedPath s root names id) (same : SameTree s s') :
    NamedPath s' root names id := by
  induction way with
  | root => exact .root
  | child _ live parent ih =>
      obtain ⟨node', live', shape⟩ := same.symm.node live
      obtain ⟨name, -, parent', -⟩ := VfsNode.shape_eq.mp shape
      rw [← name]
      exact ih.child live' (parent'.trans parent)

namespace OwnTree

/-- A mount that takes effect covers one more directory. -/
theorem mounted (own : OwnTree s types root places bare) {node : VfsNode ω π}
    {mount : VfsMount π} (able : Mountable s node mount)
    (way : NamedPath s root names mount.mountpoint)
    (kept : ∀ name ∈ bare, names ≠ [name] → name ∈ bare') :
    OwnTree (s.mounted node mount) types root (places ++ [(names, s.nextMount)]) bare' := by
  have same := SameTree.mounted able.live
  have back {names : List CStr} {id : Nat} (way : NamedPath (s.mounted node mount) root names id) :
      NamedPath s root names id := way.same same.symm
  refine ⟨own.inv.mounted able, own.roomy, own.ready, own.closed, own.fsTypes, own.isRoot,
    fun names' id node' way' live' => ?_, fun names' m => ?_,
    fun name id node' way' live' unmounted => ?_, ?_⟩
  · obtain ⟨before, live, shape⟩ := same.node live'
    obtain ⟨-, type, -⟩ := VfsNode.shape_eq.mp shape
    exact type.symm.trans (own.dirs names' id before (back way') live)
  · rw [List.mem_append, List.mem_singleton, Prod.mk.injEq, ← own.shown]
    constructor
    · rintro ⟨id, node', way', live', mnt⟩
      by_cases here : id = mount.mountpoint
      · subst here
        rw [Vfs.mounted_nodes_self] at live'
        obtain rfl := Option.some.inj live'
        exact Or.inr ⟨(back way').names_eq own.inv.tree own.isRoot way, (Option.some.inj mnt).symm⟩
      · rw [Vfs.mounted_nodes_of_ne here] at live'
        exact Or.inl ⟨id, node', back way', live', mnt⟩
    · rintro (⟨id, node', way', live', mnt⟩ | ⟨rfl, rfl⟩)
      · have elsewhere : id ≠ mount.mountpoint := by
          rintro rfl
          obtain rfl := Option.some.inj (able.live.symm.trans live')
          rw [able.unmounted] at mnt
          cases mnt
        exact ⟨id, node', way'.same same, (Vfs.mounted_nodes_of_ne elsewhere).trans live', mnt⟩
      · exact ⟨mount.mountpoint, _, way.same same, Vfs.mounted_nodes_self, rfl⟩
  · by_cases here : id = mount.mountpoint
    · subst here
      rw [Vfs.mounted_nodes_self] at live'
      obtain rfl := Option.some.inj live'
      cases unmounted
    · rw [Vfs.mounted_nodes_of_ne here] at live'
      refine kept name (own.tops name id node' (back way') live' unmounted) ?_
      rintro rfl
      exact here ((back way').id_eq own.inv.tree way)
  · refine List.pairwise_append.mpr ⟨own.ordered, List.pairwise_singleton _ _, ?_⟩
    intro place member last isLast
    obtain rfl := List.mem_singleton.mp isLast
    obtain ⟨-, other, otherLive, -⟩ := ((own.shown _ _).mpr member).mounted own.inv
    exact own.inv.links.lt _ other otherLive

end OwnTree

namespace OwnTree

variable {slots : ω → Nat} {takes : Nat → π → Bool} {accepted : π → Bool} {path : CStr} {data : π}

/-- What the media and the drivers keep is no concern of the tree. -/
theorem world (own : OwnTree s types root places bare) (world : ω) :
    OwnTree { s with world := world } types root places bare :=
  own.outside (.single (.world s world)) fun _ _ live => live

/-- A lookup leaves the tree alone. -/
theorem resolveEx (own : OwnTree s types root places bare)
    (known : Recognises code contents types slots takes accepted)
    {found : Option (Nat × Option Nat)} (search : resolveEx code false s path = (s', found)) :
    Builds s s' ∧ Filled code contents s s' ∧ OwnTree s' types root places bare := by
  have builds := (resolveEx_spec known.serves.materialises own.inv.names own.roomy false path).1
  have filled := resolveEx_filled known.serves own.inv own.roomy false path
  rw [search] at builds filled
  refine ⟨builds, filled, own.outside builds fun id under live => ?_⟩
  exact filled.own_old (builds.files own.inv).1 (filled.rootNode.trans own.isRoot) own.rootLive
    under live

theorem registered (own : OwnTree s types root places bare)
    (known : Recognises code contents types slots takes accepted) : s.Registered := by
  intro type member
  rw [own.fsTypes] at member
  exact known.registered type member

/-- What the lookup of a free target leaves. -/
theorem target (own : OwnTree s types root places bare)
    (known : Recognises code contents types slots takes accepted) {s₁ : Vfs ω π} {mp : Nat}
    (free : FreeTarget code s (some path) s₁ mp) :
    (∃ inner, Zsbl.Common.resolveEx code false s path = (s₁, some (mp, inner))) ∧
      Builds s s₁ ∧ Filled code contents s s₁ ∧ OwnTree s₁ types root places bare ∧
      slots s₁.world = slots s.world := by
  obtain ⟨path', inner, same, absolute, search⟩ := free.found
  obtain rfl := Option.some.inj same
  have kept := known.spends.vfsLookupNodeEx search
  rw [vfsLookupNodeEx_eq known.serves.materialises own.inv.names own.roomy absolute] at search
  have search := Option.some.inj search
  obtain ⟨builds, filled, own₁⟩ := own.resolveEx known search
  exact ⟨⟨inner, search⟩, builds, filled, own₁, kept⟩

/-- A mount on a free target comes to the file systems. -/
theorem vfsMount_silent (own : OwnTree s types root places bare)
    (known : Recognises code contents types slots takes accepted) {other : FsCode ω π}
    (same : other.lookup = code.lookup) {s₁ : Vfs ω π} {mp : Nat}
    (free : FreeTarget code s (some path) s₁ mp) (tries : 0 < devTypes types)
    (silent : ∀ address, Tried types address → other.mount address s₁ none (some data) = none) :
    vfsMount other s none (some path) none (some data) = none := by
  obtain ⟨-, -, -, own₁, -⟩ := own.target known free
  obtain ⟨path', inner, isPath, absolute, search⟩ := free.found
  obtain rfl := Option.some.inj isPath
  obtain ⟨node, live, isDir, unmounted⟩ := free.free
  rw [← vfsLookupNodeEx_congr same] at search
  simp only [vfsMount, absolute, Bool.not_true, Bool.false_eq_true, if_false, search,
    Option.bind_eq_bind, Option.bind_some, live, isDir, unmounted, ne_eq, not_true_eq_false,
    Option.isSome_none]
  rw [own₁.fsTypes]
  exact autoMount_silent own₁.roomy known.registered tries silent

/-- `vfs_mount` fails without a free target; on one it mounts what is recognised while slots
are left for a call that comes to the file systems. -/
theorem vfsMount_cases (own : OwnTree s types root places bare)
    (known : Recognises code contents types slots takes accepted) (path : CStr) (data : π)
    (room : vfsMount code.mute s none (some path) none (some data) = none →
      devTypes types ≤ slots s.world) :
    (∃ s' ret, vfsMount code s none (some path) none (some data) = some (s', ret) ∧ ret ≠ 0 ∧
      TargetResolved code s (some path) s' ∧ ∀ s₁ mp, ¬FreeTarget code s (some path) s₁ mp) ∨
    ∃ s₁ mp world, FreeTarget code s (some path) s₁ mp ∧
      ((accepted data = false ∧ vfsMount code s none (some path) none (some data) =
          some ({ s₁ with world := world }, -ENODEV)) ∨
        (accepted data = true ∧ ∃ type s',
          vfsMount code s none (some path) none (some data) = some (s', 0) ∧
            MountedAs code { s₁ with world := world } mp type none (some data) s')) := by
  rcases vfsMount_target known.serves.materialises own.inv.names own.roomy none (some path) none
      (some data) with ⟨s', ret, done, failed, -, resolved, nowhere⟩ | ⟨s₁, mp, -, -, free, done⟩
  · exact Or.inl ⟨s', ret, done, failed, resolved, nowhere⟩
  · right
    obtain ⟨-, -, -, own₁, kept⟩ := own.target known free
    obtain ⟨node, live, -⟩ := free.free
    have left : devTypes types ≤ slots s₁.world := by
      rcases Nat.eq_zero_or_pos (devTypes types) with none | tries
      · omega
      · rw [kept]
        exact room (own.vfsMount_silent known rfl free tries fun _ _ => rfl)
    rw [own₁.fsTypes] at done
    rcases known.autoMount own₁.roomy own₁.inv.tree.unused live (List.Subset.refl types) left
      data with ⟨nobody, world, tried⟩ | ⟨takes, world, type, s', tried, mounted⟩
    · refine ⟨s₁, mp, world, free, Or.inl ⟨?_, done.trans tried⟩⟩
      by_contra isAccepted
      obtain ⟨type, member, takes⟩ := (known.accepts data).mp (by simpa using isAccepted)
      exact nobody type member takes
    · exact ⟨s₁, mp, world, free,
        Or.inr ⟨(known.accepts data).mpr takes, type, s', done.trans tried, mounted⟩⟩

/-- `vfs_mount` returns, and it mounts only what is recognised. -/
theorem vfsMount_returns (own : OwnTree s types root places bare)
    (known : Recognises code contents types slots takes accepted) (path : CStr) (data : π)
    (room : vfsMount code.mute s none (some path) none (some data) = none →
      devTypes types ≤ slots s.world) :
    ∃ s' ret, vfsMount code s none (some path) none (some data) = some (s', ret) ∧
      (ret = 0 ↔ accepted data = true ∧ ∃ s₁ mp, FreeTarget code s (some path) s₁ mp) := by
  rcases own.vfsMount_cases known path data room with
    ⟨s', ret, done, failed, -, nowhere⟩ | ⟨s₁, mp, world, free, ⟨unknown, done⟩ |
      ⟨isAccepted, type, s', done, -⟩⟩
  · refine ⟨s', ret, done, fun zero => absurd zero failed, ?_⟩
    rintro ⟨-, s₁, mp, free⟩
    exact absurd free (nowhere s₁ mp)
  · refine ⟨_, _, done, fun zero => absurd zero (by decide), ?_⟩
    rintro ⟨isAccepted, -⟩
    rw [unknown] at isAccepted
    cases isAccepted
  · exact ⟨s', 0, done, fun _ => ⟨isAccepted, s₁, mp, free⟩, fun _ => rfl⟩

/-- Where it fails, the tree is as the lookup leaves it. -/
theorem vfsMount_failed (own : OwnTree s types root places bare)
    (known : Recognises code contents types slots takes accepted)
    (absolute : vfsIsPathValid path = true)
    (room : vfsMount code.mute s none (some path) none (some data) = none →
      devTypes types ≤ slots s.world) {ret : Int}
    (done : vfsMount code s none (some path) none (some data) = some (s', ret))
    (failed : ret ≠ 0) :
    (∃ t world, (t = s ∨ t = (Zsbl.Common.resolveEx code false s path).1) ∧
      s' = { t with world := world }) ∧ Filled code contents s s' ∧
      OwnTree s' types root places bare := by
  rcases own.vfsMount_cases known path data room with
    ⟨t, ret', done', -, resolved, -⟩ | ⟨s₁, mp, world, free, ⟨-, done'⟩ | ⟨-, type, t, done', -⟩⟩
  · obtain ⟨rfl, -⟩ := Prod.mk.inj (Option.some.inj (done.symm.trans done'))
    rcases resolved with rfl | ⟨path', found, same, search⟩
    · exact ⟨⟨s', s'.world, Or.inl rfl, rfl⟩, .refl _, own⟩
    · obtain rfl := Option.some.inj same
      rw [vfsLookupNodeEx_eq known.serves.materialises own.inv.names own.roomy absolute] at search
      have search := Option.some.inj search
      exact ⟨⟨s', s'.world, Or.inr (by rw [search]), rfl⟩, (own.resolveEx known search).2⟩
  · obtain ⟨rfl, -⟩ := Prod.mk.inj (Option.some.inj (done.symm.trans done'))
    obtain ⟨⟨inner, search⟩, -, filled, own₁, -⟩ := own.target known free
    exact ⟨⟨s₁, world, Or.inr (by rw [search]), rfl⟩,
      filled.trans (.of_same rfl rfl rfl rfl rfl), own₁.world world⟩
  · obtain ⟨-, zero⟩ := Prod.mk.inj (Option.some.inj (done.symm.trans done'))
    exact absurd zero failed

/-- A mount that takes effect in the tree covers one more directory. -/
theorem vfsMount_done (own : OwnTree s types root places bare)
    (known : Recognises code contents types slots takes accepted)
    (room : vfsMount code.mute s none (some path) none (some data) = none →
      devTypes types ≤ slots s.world)
    (done : vfsMount code s none (some path) none (some data) = some (s', 0)) :
    ∃ s₁ world mp inner, Zsbl.Common.resolveEx code false s path = (s₁, some (mp, inner)) ∧
      (∃ type, MountedAs code { s₁ with world := world } mp type none (some data) s') ∧
      ∀ names bare', NamedPath s₁ root names mp → (∀ name ∈ bare, names ≠ [name] → name ∈ bare') →
        OwnTree s' types root (places ++ [(names, s.nextMount)]) bare' := by
  obtain ⟨s₁, mp, world, free, type, mountedAs⟩ : ∃ s₁ mp world,
      FreeTarget code s (some path) s₁ mp ∧ ∃ type,
        MountedAs code { s₁ with world := world } mp type none (some data) s' := by
    rcases own.vfsMount_cases known path data room with
      ⟨t, ret, done', failed, -⟩ | ⟨s₁, mp, world, free, ⟨-, done'⟩ | ⟨-, type, t, done', mounted⟩⟩
    · obtain ⟨-, zero⟩ := Prod.mk.inj (Option.some.inj (done.symm.trans done'))
      exact absurd zero.symm failed
    · obtain ⟨-, zero⟩ := Prod.mk.inj (Option.some.inj (done.symm.trans done'))
      exact absurd zero (by decide)
    · obtain ⟨rfl, -⟩ := Prod.mk.inj (Option.some.inj (done.symm.trans done'))
      exact ⟨s₁, mp, world, free, type, mounted⟩
  obtain ⟨⟨inner, search⟩, builds, -, own₁, -⟩ := own.target known free
  refine ⟨s₁, world, mp, inner, search, ⟨type, mountedAs⟩, fun names bare' way kept => ?_⟩
  have keeps : Builds s₁ { s₁ with world := world } := .single (.world s₁ world)
  have ownW := own₁.world world
  obtain ⟨address, t, setup, top, node, -, -, -, fresh, live, rfl⟩ := mountedAs
  have grown := (fresh.builds.tree ownW.inv.tree).2
  have ownT := ownW.outside fresh.builds fun id under live =>
    fresh.own_old ownW.inv.tree ownW.isRoot under live
  have wayW := way.extends (keeps.tree own₁.inv.tree).2
  have placed : Placed { s₁ with world := world } mp := by
    cases way with
    | root => exact Or.inl own₁.isRoot
    | child _ live parent => exact Or.inr ⟨_, _, live, parent⟩
  obtain ⟨dir, topLive, isDir, noParent⟩ := fresh.dir
  obtain ⟨node', live', able⟩ := FreeMountpoint.mountable ⟨placed, free.free⟩ ownW.inv grown
    ownT.inv fresh.fresh topLive isDir noParent setup.sops setup.priv
  obtain rfl := Option.some.inj ((fresh.kept mp node live).symm.trans live')
  have taken := ownT.mounted able (wayW.extends grown) kept
  rw [grown.nextMount] at taken
  have numbered := (builds.tree own.inv.tree).2.nextMount
  exact numbered ▸ taken

/-- A directory of the tree past which no mount is can be mounted on. -/
theorem freeTarget (own : OwnTree s types root places bare)
    (known : Recognises code contents types slots takes accepted)
    (absolute : vfsIsPathValid path = true)
    (clear : ClearWay s root (pathNames path)) (way : NamedPath s root (pathNames path) id)
    (uncovered : ∀ m, ¬Shown s root (pathNames path) m) :
    FreeTarget code s (some path) s id := by
  obtain ⟨node, live⟩ := Option.isSome_iff_exists.mp (way.live own.rootLive)
  have search := vfsLookupNodeEx_eq known.serves.materialises own.inv.names own.roomy absolute false
  rw [clear.resolveEx own.inv.tree own.isRoot way] at search
  refine ⟨⟨path, none, rfl, absolute, search⟩, node, live, own.dirs _ id node way live, ?_⟩
  cases covered : node.mnt with
  | none => rfl
  | some m => exact absurd ⟨id, node, way, live, covered⟩ (uncovered m)

/-- What is recognised is mounted there. -/
theorem vfsMount_placed (own : OwnTree s types root places bare)
    (known : Recognises code contents types slots takes accepted)
    (isAccepted : accepted data = true)
    (room : vfsMount code.mute s none (some path) none (some data) = none →
      devTypes types ≤ slots s.world)
    (absolute : vfsIsPathValid path = true) (clear : ClearWay s root (pathNames path))
    (way : NamedPath s root (pathNames path) id)
    (uncovered : ∀ m, ¬Shown s root (pathNames path) m) :
    ∃ s', vfsMount code s none (some path) none (some data) = some (s', 0) ∧
      (∃ world type, MountedAs code { s with world := world } id type none (some data) s') ∧
      ∀ bare', (∀ name ∈ bare, pathNames path ≠ [name] → name ∈ bare') →
        OwnTree s' types root (places ++ [(pathNames path, s.nextMount)]) bare' := by
  have target := own.freeTarget known absolute clear way uncovered
  obtain ⟨s', ret, done, returns⟩ := own.vfsMount_returns known path data room
  obtain rfl := returns.mpr ⟨isAccepted, s, id, target⟩
  obtain ⟨s₁, world, mp, inner, search, ⟨type, mountedAs⟩, covers⟩ :=
    own.vfsMount_done known room done
  rw [clear.resolveEx own.inv.tree own.isRoot way] at search
  obtain ⟨rfl, same⟩ := Prod.mk.inj search
  obtain ⟨rfl, -⟩ := Prod.mk.inj (Option.some.inj same)
  exact ⟨s', done, ⟨world, type, mountedAs⟩, fun bare' => covers _ bare' way⟩

/-- Where no slot is left and nothing returns without one, a call that comes to the file systems
does not return. -/
theorem vfsMount_starved (own : OwnTree s types root places bare)
    (known : Recognises code contents types slots takes accepted)
    (exhausts : code.Exhausts types slots) (spent : slots s.world = 0) (tries : 0 < devTypes types) {s₁ : Vfs ω π} {mp : Nat}
    (free : FreeTarget code s (some path) s₁ mp) :
    vfsMount code s none (some path) none (some data) = none := by
  obtain ⟨-, -, -, own₁, kept⟩ := own.target known free
  refine own.vfsMount_silent known rfl free tries fun address tried => ?_
  exact exhausts address s₁ data tried own₁.roomy own₁.inv.tree.unused (kept.trans spent)

/-- What does not return without the file systems comes to them. -/
theorem vfsMount_calls (own : OwnTree s types root places bare)
    (known : Recognises code contents types slots takes accepted)
    (calls : vfsMount code.mute s none (some path) none (some data) = none) :
    ∃ s₁ mp, FreeTarget code s (some path) s₁ mp := by
  have materialises : code.mute.Materialises := known.serves.materialises
  rcases vfsMount_target materialises own.inv.names own.roomy none (some path) none (some data) with
    ⟨s', ret, done, -⟩ | ⟨s₁, mp, -, -, free, -⟩
  · rw [calls] at done
    cases done
  · exact ⟨s₁, mp, free.congr (show code.mute.lookup = code.lookup from rfl)⟩

/-- A call of `vfs_mount` takes as many slots as there are types to try, at most. -/
theorem vfsMount_slots (own : OwnTree s types root places bare)
    (known : Recognises code contents types slots takes accepted) {ret : Int}
    (done : vfsMount code s none (some path) none (some data) = some (s', ret)) :
    slots s.world ≤ slots s'.world + devTypes types := by
  rcases vfsMount_target known.serves.materialises own.inv.names own.roomy none (some path) none
      (some data) with ⟨t, ret', done', -, -, resolved, -⟩ | ⟨s₁, mp, -, -, free, done'⟩
  · obtain ⟨rfl, -⟩ := Prod.mk.inj (Option.some.inj (done.symm.trans done'))
    rcases resolved with rfl | ⟨path', found, -, search⟩
    · exact Nat.le_add_right _ _
    · rw [known.spends.vfsLookupNodeEx search]
      exact Nat.le_add_right _ _
  · obtain ⟨-, -, -, own₁, kept⟩ := own.target known free
    rw [own₁.fsTypes] at done'
    rw [← kept]
    exact known.spends.autoMount (List.Subset.refl types) (done'.symm.trans done)

end OwnTree

/-! ## Unlinking -/

section Unlink

variable {leaf : VfsNode ω π}

theorem NamedPath.before_unlink (unlinked : Unlinked s s' id) {other : Nat}
    (way : NamedPath s' root names other) : NamedPath s root names other := by
  induction way with
  | root => exact .root
  | child _ live' parent' ih =>
      obtain ⟨-, node, live, name, -, parent, -⟩ := unlinked.node live'
      rw [name]
      exact ih.child live (parent.symm.trans parent')

/-- No way leads past a leaf. -/
theorem NamedPath.unlinked (way : NamedPath s root names m) (inv : TreeInv s)
    (unlinked : Unlinked s s' id) (live : s.nodes id = some leaf) (childless : leaf.child = none)
    (ne : m ≠ id) : NamedPath s' root names m := by
  have noKids : s.kids id = [] := (inv.list id leaf live).functional (childless ▸ .nil)
  induction way with
  | root => exact .root
  | @child names above kid node _ kidLive parent ih =>
      have aboveNe : above ≠ id := by
        rintro rfl
        have member := inv.mem_kids.mpr ⟨node, kidLive, parent⟩
        rw [noKids] at member
        cases member
      obtain ⟨node', kidLive', name, -, parent', -⟩ := unlinked.survives kidLive ne
      rw [← name]
      exact (ih aboveNe).child kidLive' (parent'.trans parent)

/-- `vfs_unlink` takes a bare directory without entries off the root directory. -/
theorem OwnTree.vfsUnlink (own : OwnTree s types root places bare)
    (live : s.nodes id = some leaf) (parent : leaf.parent = some root)
    (childless : leaf.child = none) (unmounted : leaf.mnt = none)
    (kept : ∀ name ∈ bare, name ≠ leaf.name → name ∈ bare') :
    ∃ s', vfsUnlink s (some root) leaf.name = some (s', 0) ∧ Unlinked s s' id ∧
      OwnTree s' types root places bare' := by
  have tree := own.inv.tree
  have unopened : ∀ item ∈ s.fileHead, item.file.node ≠ id := by simp [own.closed]
  obtain ⟨nodes, done, unlinked, tree'⟩ :=
    tree.vfsUnlink_leaf live parent childless unopened
  refine ⟨_, done, unlinked, own.inv.unlinked unlinked tree' live parent unopened, own.roomy,
    own.ready, own.closed, own.fsTypes, own.isRoot, fun names other node' way live' => ?_,
    fun names m => ?_, fun name other node' way live' bare => ?_, own.ordered⟩
  · obtain ⟨-, node, was, -, type, -⟩ := unlinked.node live'
    exact type.trans (own.dirs names other node (way.before_unlink unlinked) was)
  · rw [← own.shown]
    constructor
    · rintro ⟨other, node', way, live', mnt'⟩
      obtain ⟨-, node, was, -, -, -, mnt⟩ := unlinked.node live'
      exact ⟨other, node, way.before_unlink unlinked, was, mnt.symm.trans mnt'⟩
    · rintro ⟨other, node, way, was, mnt⟩
      have ne : other ≠ id := by
        rintro rfl
        obtain rfl := Option.some.inj (live.symm.trans was)
        rw [unmounted] at mnt
        cases mnt
      obtain ⟨node', live', -, -, -, mnt'⟩ := unlinked.survives was ne
      exact ⟨other, node', way.unlinked tree unlinked live childless ne, live', mnt'.trans mnt⟩
  · obtain ⟨ne, node, was, -, -, -, mnt⟩ := unlinked.node live'
    have way' := way.before_unlink unlinked
    refine kept name (own.tops name other node way' was (mnt.symm.trans bare)) ?_
    rintro rfl
    exact ne (way'.id_eq tree ((NamedPath.root).child live parent))

end Unlink

/-! ## Nothing behind the mounts -/

/-- File systems whose volumes are empty: the `mount` callback makes the root of the tree only,
and there is no `lookup`. -/
structure FsCode.Hollow (code : FsCode ω π) : Prop where
  lookup : ∀ address, code.lookup address = none
  mount : ∀ address s source data t setup ret,
    code.mount address s source data = some (t, setup, ret) →
    ∀ id node, t.nodes id = some node → s.nodes id = none → node.parent = none

namespace Barren

/-- New nodes under the root leave nothing to answer a lookup. -/
theorem grown (barren : Barren code s) (inv' : FileInv s') (isRoot : s'.rootNode = some root)
    (rootLive : (s.nodes root).isSome) (grown : Extends s s')
    (new : ∀ id, (s'.nodes id).isSome → s.nodes id = none → Under s' root id) :
    Barren code s' where
  lookup := barren.lookup
  roots m mount id node' mountLive live' parent := by
    rw [grown.mounts] at mountLive
    by_cases fresh : s.nodes id = none
    · have notRoot : id ≠ root := by
        rintro rfl
        simp [fresh] at rootLive
      have under := (new id (by simp [live']) fresh).parent notRoot live' parent
      have inside : Inside s' none mount.root := ⟨root, isRoot, under⟩
      have inside' : Inside s' (some m) mount.root :=
        ⟨mount, by rw [grown.mounts, mountLive], .self⟩
      cases inv'.inside_eq inside inside'
    · obtain ⟨node, live⟩ := Option.ne_none_iff_exists'.mp fresh
      obtain ⟨other, otherLive, -, -, same, -⟩ := grown.node id node live
      obtain rfl := Option.some.inj (live'.symm.trans otherLive)
      exact barren.roots m mount id node mountLive live (same.symm.trans parent)

/-- A lookup creates nothing where nothing answers. -/
theorem filled (barren : Barren code s) (filled : Filled code contents s s') :
    Barren code s' where
  lookup := barren.lookup
  roots m mount id node' mountLive live' parent := by
    rw [filled.mounts] at mountLive
    by_cases fresh : s.nodes id = none
    · obtain ⟨mnt, above, dir, entry, -, -, -, offered, -⟩ :=
        (filled.served id node' live' fresh).offered
      obtain ⟨m', mount', address, -, -, -, isLookup, -⟩ := offered.has
      rw [barren.lookup address] at isLookup
      cases isLookup
    · obtain ⟨node, live⟩ := Option.ne_none_iff_exists'.mp fresh
      obtain ⟨child, same⟩ := filled.old id node live
      obtain rfl := Option.some.inj (live'.symm.trans same)
      exact barren.roots m mount id node mountLive live parent

theorem world (barren : Barren code s) (world : ω) : Barren code { s with world := world } where
  lookup := barren.lookup
  roots := barren.roots

theorem unlinked (barren : Barren code s) (unlinked : Unlinked s s' id) : Barren code s' where
  lookup := barren.lookup
  roots m mount other node' mountLive live' parent := by
    rw [unlinked.mounts] at mountLive
    obtain ⟨-, node, live, -, -, same, -⟩ := unlinked.node live'
    exact barren.roots m mount other node mountLive live (same.symm.trans parent)

/-- A hollow volume that is mounted answers nothing. -/
theorem mountedAs (barren : Barren code s) (inv : TreeInv s) (hollow : code.Hollow) {mp : Nat}
    {type : FsType} {source : Option CStr} {data : Option π}
    (mounted : MountedAs code s mp type source data s') : Barren code s' where
  lookup := barren.lookup
  roots m mount id node' mountLive live' parent := by
    obtain ⟨address, t, setup, top, node, -, called, -, fresh, mpLive, rfl⟩ := mounted
    have same : SameTree t (t.mounted node ⟨mp, top, setup.sops, setup.priv⟩) :=
      SameTree.mounted (fresh.kept mp node mpLive)
    obtain ⟨before, live, shape⟩ := same.node live'
    obtain ⟨-, -, sameParent, -⟩ := VfsNode.shape_eq.mp shape
    have above := sameParent.trans parent
    -- a node with a parent is an old one
    obtain ⟨old, was⟩ : ∃ old, s.nodes id = some old := by
      apply Option.ne_none_iff_exists'.mp
      intro isNew
      rw [hollow.mount address s source data t setup 0 called id before live isNew] at above
      cases above
    obtain rfl := Option.some.inj (live.symm.trans (fresh.kept id old was))
    rcases Vfs.mounted_mounts_cases mountLive with ⟨-, rfl⟩ | ⟨-, mountLive⟩
    · obtain ⟨-, dir, topLive, -⟩ := inv.parent id before top was above
      exact absurd (inv.lt top dir topLive) (Nat.not_lt.mpr fresh.fresh)
    · rw [(fresh.builds.tree inv).2.mounts] at mountLive
      exact barren.roots m mount id before mountLive was above

end Barren

end Zsbl.Common
