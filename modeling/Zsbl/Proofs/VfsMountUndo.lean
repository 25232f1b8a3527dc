/-
Module: Zsbl.Proofs.VfsMountUndo
Purpose: Unmounting what has been mounted on a path restores what every path
  leads to, whatever was looked up, opened, read and closed meanwhile.
Trusted boundary: none
Main exports:
  KeptBelow, resolveEx_below, Filled.unmounted, mount_outcome_and_undo
-/
import Zsbl.Proofs.VfsMountGraph
import Zsbl.Proofs.VfsRegistered

namespace Zsbl.Common

open Zsbl.Lib

variable {ω π : Type} {s s' t u : Vfs ω π} {code : FsCode ω π} {contents : Contents ω π}

/-! ## The way to a mountpoint -/

/-- Up to a node, the tree and the mounts are as they were; the node itself may
be covered. -/
structure KeptBelow (bound : Nat) (s u : Vfs ω π) : Prop where
  node : ∀ id node, s.nodes id = some node → id ≤ bound → ∃ node', u.nodes id = some node' ∧
    node'.name = node.name ∧ node'.parent = node.parent ∧ (id < bound → node'.mnt = node.mnt)
  mounts : ∀ m mount, s.mounts m = some mount → u.mounts m = some mount
  nextMount : s.nextMount ≤ u.nextMount
  rootNode : u.rootNode = s.rootNode

/-- What is kept from a later state on is kept from an earlier one. -/
theorem KeptBelow.before {bound : Nat} (kept : KeptBelow bound t u) (grown : Extends s t) :
    KeptBelow bound s u where
  node id node live le := by
    obtain ⟨node', live', name, -, parent, mnt⟩ := grown.node id node live
    obtain ⟨node'', live'', name', parent', mnt'⟩ := kept.node id node' live' le
    exact ⟨node'', live'', name'.trans name, parent'.trans parent,
      fun lt => (mnt' lt).trans mnt⟩
  mounts := by
    rw [← grown.mounts]
    exact kept.mounts
  nextMount := grown.nextMount ▸ kept.nextMount
  rootNode := kept.rootNode.trans grown.rootNode

/-- Mounts are crossed upwards. -/
theorem Namespace.le_crossAll (ns : Namespace s) (position : Nat × Option Nat) :
    position.1 ≤ (crossAll s position).1 := by
  have rises (before after : Nat × Option Nat) (le : position.1 ≤ before.1)
      (step : crossing s before = some after) : position.1 ≤ after.1 := by
    obtain ⟨node, m, mount, live, mnt, mountLive, rfl⟩ := crossing_eq_some step
    obtain ⟨mount', mountLive', mountpoint, below, -⟩ := ns.mounted before.1 node m live mnt
    obtain rfl := Option.some.inj (mountLive.symm.trans mountLive')
    exact le.trans (Nat.le_of_lt below)
  exact climb_along rises _ (Nat.le_refl _)

/-- Below the bound the same mounts are crossed. -/
theorem KeptBelow.crossAll {bound : Nat} (kept : KeptBelow bound s u) (ns : Namespace s)
    {position : Nat × Option Nat} (here : Position s position)
    (below : (Zsbl.Common.crossAll s position).1 < bound) :
    Zsbl.Common.crossAll u position = Zsbl.Common.crossAll s position := by
  have way (before : Nat × Option Nat)
      (there : Position s before ∧ (Zsbl.Common.crossAll s before).1 < bound) :
      crossing u before = crossing s before := by
    obtain ⟨node, live⟩ := Option.isSome_iff_exists.mp there.1.node
    have lt := Nat.lt_of_le_of_lt (ns.le_crossAll before) there.2
    obtain ⟨node', live', -, -, mnt⟩ := kept.node before.1 node live (Nat.le_of_lt lt)
    cases inner : node.mnt with
    | none => simp [crossing, live, live', mnt lt, inner]
    | some m =>
        obtain ⟨mount, mountLive, -⟩ := ns.mounted before.1 node m live inner
        simp [crossing, live, live', mnt lt, inner, mountLive, kept.mounts m mount mountLive]
  have stays (before after : Nat × Option Nat)
      (there : Position s before ∧ (Zsbl.Common.crossAll s before).1 < bound)
      (step : crossing s before = some after) :
      Position s after ∧ (Zsbl.Common.crossAll s after).1 < bound := by
    refine ⟨ns.crossing_position before after step, ?_⟩
    have same : Zsbl.Common.crossAll s before = Zsbl.Common.crossAll s after :=
      climb_next ns.crossing_falls (mountsFrom_card_le before.1) step
    rw [← same]
    exact there.2
  have climbed : climb (crossing s) u.nextMount position = Zsbl.Common.crossAll s position :=
    climb_enough ns.crossing_falls (mountsFrom_card_le position.1) kept.nextMount
  rw [← climbed]
  exact climb_congr way stays _ ⟨here, below⟩

/-- A name leads to the same child. -/
theorem KeptBelow.childOr {bound id : Nat} (kept : KeptBelow bound s u) (code : FsCode ω π)
    (mnt : Option Nat) (tree : TreeInv s) (tree' : TreeInv u) {above : Nat} {name : CStr}
    (found : childNamed s above name = some id) (le : id ≤ bound) :
    above < id ∧ Zsbl.Common.childOr code u mnt above name = (u, some id) := by
  obtain ⟨node, live, parent, rfl⟩ := childNamed_spec tree found
  obtain ⟨node', live', name', parent', -⟩ := kept.node id node live le
  refine ⟨(tree.parent id node above live parent).1, ?_⟩
  have there := childNamed_child tree' live' (parent'.trans parent)
  unfold Zsbl.Common.childOr
  rw [← name', there]

/-- A name that was found is found where its node is kept; the node is behind
the directory it was looked up in. -/
theorem resolveStep_below (materialises : code.Materialises) (ns : Namespace s)
    (roomy : s.Roomy) {position next : Nat × Option Nat} (here : Position s position)
    {follow : Bool} {name : CStr}
    (found : resolveStep code follow (s, some position) name = (s', some next)) {bound : Nat}
    (kept : KeptBelow bound s' u) (tree : TreeInv u)
    (below : if follow then next.1 < bound else next.1 ≤ bound) :
    position.1 < next.1 ∧ resolveStep code follow (u, some position) name = (u, some next) := by
  obtain ⟨-, builds, child⟩ := childOr_spec materialises ns roomy here name
  unfold resolveStep at found ⊢
  by_cases empty : name = []
  · simp [empty] at found
  · simp only [if_neg empty] at found ⊢
    generalize childOr code s position.2 position.1 name = made at found builds child
    obtain ⟨s₁, id⟩ := made
    obtain ⟨rfl, same⟩ := Prod.mk.inj found
    obtain ⟨id, rfl, rfl⟩ := Option.map_eq_some_iff.mp same
    have ns' := builds.names ns
    obtain ⟨node, live, -⟩ := childNamed_spec ns'.tree (child id rfl)
    cases follow with
    | false =>
        obtain ⟨lt, there⟩ := kept.childOr code position.2 ns'.tree tree (child id rfl) below
        simp only [there]
        exact ⟨lt, rfl⟩
    | true =>
        have at' : Position s₁ (id, position.2) :=
          ⟨Option.isSome_iff_exists.mpr ⟨node, live⟩, (here.extends (builds.tree ns.tree).2).mount⟩
        have le := ns'.le_crossAll (id, position.2)
        simp only [if_true] at below
        obtain ⟨lt, there⟩ := kept.childOr code position.2 ns'.tree tree (child id rfl)
          (le.trans (Nat.le_of_lt below))
        simp only [there, if_true, Option.map_some, kept.crossAll ns' at' below]
        exact ⟨Nat.lt_of_lt_of_le lt le, trivial⟩

/-- Names that led to a node lead there again while all up to it is kept. -/
theorem resolveFrom_below (materialises : code.Materialises) {names : List CStr}
    (ns : Namespace s) (roomy : s.Roomy) {position final : Nat × Option Nat}
    (here : Position s position) (more : names ≠ [])
    (found : resolveFrom code false (s, some position) names = (s', some final))
    (kept : KeptBelow final.1 s' u) (tree : TreeInv u) :
    position.1 < final.1 ∧
      resolveFrom code false (u, some position) names = (u, some final) := by
  induction names generalizing s position with
  | nil => exact absurd rfl more
  | cons name names ih =>
      rw [resolveFrom_cons] at found ⊢
      split at found
      · next last =>
        rw [if_pos last]
        exact resolveStep_below materialises ns roomy here found kept tree (Nat.le_refl _)
      · next notLast =>
        rw [if_neg notLast]
        obtain ⟨builds, position'⟩ := resolveStep_spec materialises ns roomy here true name
        generalize step : resolveStep code true (s, some position) name = made
          at found builds position'
        obtain ⟨s₁, next⟩ := made
        cases next with
        | none =>
            rw [resolveFrom_none] at found
            cases (Prod.mk.inj found).2
        | some next =>
            have ns₁ := builds.names ns
            have roomy₁ := builds.roomy ns.tree roomy
            obtain ⟨lt, rest⟩ := ih ns₁ roomy₁ (position' next rfl) notLast found
            have later : Builds s₁ (resolveFrom code false (s₁, some next) names).1 :=
              (resolveFrom_spec materialises names ns₁ roomy₁ (position' next rfl)).1
            rw [found] at later
            obtain ⟨lt', first⟩ := resolveStep_below materialises ns roomy here step
              (kept.before (later.tree ns₁.tree).2) tree lt
            rw [first]
            exact ⟨lt'.trans lt, rest⟩

/-- A path that led to a mountpoint leads there again, also when it is covered. -/
theorem resolveEx_below (materialises : code.Materialises) (ns : Namespace s) (roomy : s.Roomy)
    {path : CStr} {final : Nat × Option Nat}
    (found : resolveEx code false s path = (s', some final)) (kept : KeptBelow final.1 s' u)
    (tree : TreeInv u) : resolveEx code false u path = (u, some final) := by
  have builds := (resolveEx_spec materialises ns roomy false path).1
  rw [found] at builds
  have grown := (builds.tree ns.tree).2
  unfold resolveEx at found ⊢
  rw [kept.rootNode, grown.rootNode]
  cases isRoot : s.rootNode with
  | none =>
      rw [isRoot] at found
      cases (Prod.mk.inj found).2
  | some root =>
      simp only [isRoot] at found ⊢
      split at found
      · next none =>
        rw [if_pos none]
        obtain ⟨-, same⟩ := Prod.mk.inj found
        rw [← same]
        rfl
      · next more =>
        have here := ns.root_position isRoot
        obtain ⟨lt, rest⟩ := resolveFrom_below materialises ns roomy
          (ns.crossAll_position here) more found kept tree
        rw [if_neg more, (kept.before grown).crossAll ns here lt]
        exact rest

/-! ## Unmounting with no file open -/

/-- The climb from a node outside of the tree ends without its root. -/
theorem TreeInv.nodeUnderRoot_outside (inv : TreeInv s) {root fuel id : Nat}
    (live : (s.nodes id).isSome) (enough : id < fuel) (outside : ¬Under s root id) :
    nodeUnderRoot s root fuel (some id) = some false := by
  induction fuel generalizing id with
  | zero => cases enough
  | succ fuel ih =>
      obtain ⟨node, live⟩ := Option.isSome_iff_exists.mp live
      have ne : id ≠ root := by
        rintro rfl
        exact outside .self
      cases parent : node.parent with
      | none => simp [nodeUnderRoot, ne, live, parent]
      | some above =>
          obtain ⟨lt, dir, dirLive, -⟩ := inv.parent id node above live parent
          have goesOn := ih (Option.isSome_iff_exists.mpr ⟨dir, dirLive⟩) (by omega)
            (fun under => outside (.child live parent under))
          simp [nodeUnderRoot, ne, live, parent, goesOn]

/-- Without an open file below it no file holds the mount. -/
theorem TreeInv.anyUnderRoot_closed (inv : TreeInv s) {root : Nat}
    {items : List (VfsFileItem π)} (live : ∀ item ∈ items, (s.nodes item.file.node).isSome)
    (closed : ∀ item ∈ items, ¬Under s root item.file.node) :
    anyUnderRoot s root items = some false := by
  induction items with
  | nil => rfl
  | cons item items ih =>
      have isLive := live item List.mem_cons_self
      obtain ⟨node, nodeLive⟩ := Option.isSome_iff_exists.mp isLive
      have first := inv.nodeUnderRoot_outside isLive (inv.lt _ node nodeLive)
        (closed item List.mem_cons_self)
      have rest := ih (fun other member => live other (List.mem_cons_of_mem _ member))
        fun other member => closed other (List.mem_cons_of_mem _ member)
      simp [anyUnderRoot, first, rest]

/-- `vfs_umount` of a path that leads to a mountpoint frees the mount when no
file in it is open. -/
theorem vfsUmount_closed (honest : code.Honest) {path : CStr} {mp m : Nat}
    {inner : Option Nat} {dir : VfsNode ω π} {mount : VfsMount π}
    (absolute : vfsIsPathValid path = true)
    (search : vfsLookupNodeEx code s path false = some (t, some (mp, inner))) (inv : FileInv t)
    (live : t.nodes mp = some dir) (mnt : dir.mnt = some m) (mountLive : t.mounts m = some mount)
    (closed : ∀ item ∈ t.fileHead, ¬Under t mount.root item.file.node) :
    ∃ s', vfsUmount code s (some path) = some (s', 0) ∧ mount.mountpoint = mp ∧ FileInv s' ∧
      Unmounted t s' m mount := by
  obtain ⟨mount', mountLive', rfl⟩ := inv.links.mounted mp dir m live mnt
  obtain rfl := Option.some.inj (mountLive.symm.trans mountLive')
  obtain ⟨t₁, ret, t₂, called, nodeLive, freed, tree, gone⟩ :=
    inv.umount_found honest mountLive live
  have unopened := inv.tree.anyUnderRoot_closed inv.links.files closed
  refine ⟨{ t₂ with mounts := Function.update t₂.mounts m none }, ?_, rfl, ?_, gone⟩
  · simp [vfsUmount, absolute, search, live, mnt, mountLive, unopened, called, nodeLive, freed]
  · exact inv.unmounted gone (tree.of_same ⟨fun _ => rfl, rfl, rfl⟩) mountLive
      ⟨dir, live, mnt⟩ closed

/-! ## The tree behind the mount -/

section Undo

variable {root : Nat} {node : VfsNode ω π} {mount : VfsMount π}

/-- What has been mounted keeps everything up to the mountpoint. -/
theorem FreshTree.keptBelow (inv : FileInv s) (fresh : FreshTree s t mount.root)
    (live : s.nodes mount.mountpoint = some node)
    (filled : Filled code contents (t.mounted node mount) u) :
    KeptBelow mount.mountpoint s u := by
  have grown := (fresh.builds.tree inv.tree).2
  constructor
  · intro id before was _
    have was' := fresh.kept id before was
    by_cases eq : id = mount.mountpoint
    · subst eq
      obtain rfl := Option.some.inj (live.symm.trans was)
      obtain ⟨child, live'⟩ := filled.old _ _ Vfs.mounted_nodes_self
      exact ⟨_, live', rfl, rfl, fun lt => absurd lt (Nat.lt_irrefl _)⟩
    · obtain ⟨child, live'⟩ := filled.old id before ((Vfs.mounted_nodes_of_ne eq).trans was')
      exact ⟨_, live', rfl, rfl, fun _ => rfl⟩
  · intro m other otherLive
    have ne : m ≠ t.nextMount := by
      rw [grown.nextMount]
      exact Nat.ne_of_lt (inv.links.lt m other otherLive)
    rw [filled.mounts, Vfs.mounted_mounts_of_ne ne, grown.mounts, otherLive]
  · have le := filled.nextMount
    have next : (t.mounted node mount).nextMount = s.nextMount + 1 := by
      rw [← grown.nextMount]
      rfl
    omega
  · exact filled.rootNode.trans grown.rootNode

/-- Mounting leaves the trees as they are. -/
theorem Under.mounted {other id : Nat} (live : s.nodes mount.mountpoint = some node)
    (under : Under s other id) : Under (s.mounted node mount) other id := by
  induction under with
  | self => exact .self
  | @child id parent child childLive parent_eq _ ih =>
      by_cases eq : id = mount.mountpoint
      · subst eq
        obtain rfl := Option.some.inj (live.symm.trans childLive)
        exact .child Vfs.mounted_nodes_self parent_eq ih
      · exact .child ((Vfs.mounted_nodes_of_ne eq).trans childLive) parent_eq ih

/-- A node outside the freed tree stays where it was. -/
theorem Unmounted.under {m other id : Nat} (gone : Unmounted s s' m mount)
    (under : Under s other id) (outside : ¬Under s mount.root id) : Under s' other id := by
  induction under with
  | self => exact .self
  | child live parent above ih =>
      obtain ⟨node', live', parent', -⟩ := gone.survives live outside
      exact .child live' (parent'.trans parent) (ih fun under => outside (.child live parent under))

/-- A node that another file system serves is still served. -/
theorem Unmounted.served {m : Nat} {node : VfsNode ω π} (gone : Unmounted s s' m mount)
    (mountLive : s.mounts m = some mount) (served : Served code contents s node)
    (outside : ∀ above, node.parent = some above → ¬Under s mount.root above) :
    Served code contents s' node where
  unmounted := served.unmounted
  offered := by
    obtain ⟨mnt, above, dir, entry, parent, live, inside, offered, same⟩ := served.offered
    have apart := outside above parent
    -- the directory is in the tree of another mount
    have elsewhere : ∀ k, mnt = some k → k ≠ m := by
      rintro k rfl rfl
      obtain ⟨mount', mountLive', under⟩ := inside
      obtain rfl := Option.some.inj (mountLive.symm.trans mountLive')
      exact apart under
    have mounts (k : Nat) (isMnt : mnt = some k) : s'.mounts k = s.mounts k := by
      rw [gone.mounts, Function.update_of_ne (elsewhere k isMnt)]
    have inside' : Inside s' mnt above := by
      cases mnt with
      | none =>
          obtain ⟨root, isRoot, under⟩ := inside
          exact ⟨root, gone.rootNode.trans isRoot, gone.under under apart⟩
      | some k =>
          obtain ⟨mount', mountLive', under⟩ := inside
          exact ⟨mount', (mounts k rfl).trans mountLive', gone.under under apart⟩
    by_cases eq : above = mount.mountpoint
    · subst eq
      obtain ⟨dir', was, cleared⟩ := gone.cleared
      obtain rfl := Option.some.inj (live.symm.trans was)
      exact ⟨mnt, _, _, entry, parent, cleared, inside',
        offered.congr mounts gone.rootNode gone.ready rfl rfl, same⟩
    · exact ⟨mnt, above, dir, entry, parent, (gone.kept above apart eq).trans live, inside',
        offered.congr mounts gone.rootNode gone.ready rfl rfl, same⟩

/-- Freeing the mount leaves what was there before it, filled. -/
theorem FreshTree.unmounted (inv : FileInv s) (fresh : FreshTree s t mount.root)
    (live : s.nodes mount.mountpoint = some node) (unmounted : node.mnt = none)
    (filled : Filled code contents (t.mounted node mount) u) (inv' : TreeInv u)
    (gone : Unmounted u s' t.nextMount mount) : Filled code contents s s' := by
  have grown := (fresh.builds.tree inv.tree).2
  have outside {id : Nat} {before : VfsNode ω π} (was : s.nodes id = some before) :
      ¬Under u mount.root id := by
    intro under
    have lt := inv.tree.lt id before was
    have le := fresh.fresh.trans (under.le inv')
    omega
  have mountLive : u.mounts t.nextMount = some mount := by
    rw [filled.mounts, Vfs.mounted_mounts_self]
  have ready : (t.mounted node mount).ready = s.ready := grown.ready
  have rootNode : (t.mounted node mount).rootNode = s.rootNode := grown.rootNode
  constructor
  · intro id before was
    have was' := fresh.kept id before was
    by_cases eq : id = mount.mountpoint
    · subst eq
      obtain rfl := Option.some.inj (live.symm.trans was)
      obtain ⟨child, covered⟩ := filled.old _ _ Vfs.mounted_nodes_self
      obtain ⟨dir, covered', cleared⟩ := gone.cleared
      obtain rfl := Option.some.inj (covered.symm.trans covered')
      refine ⟨child, ?_⟩
      rw [cleared, ← unmounted]
    · obtain ⟨child, live'⟩ := filled.old id before ((Vfs.mounted_nodes_of_ne eq).trans was')
      exact ⟨child, (gone.kept id (outside was) eq).trans live'⟩
  · intro id after is isNew
    have ne : id ≠ mount.mountpoint := by
      rintro rfl
      rw [live] at isNew
      cases isNew
    have apart : ¬Under u mount.root id := by
      intro under
      rw [gone.gone id under] at is
      cases is
    rw [gone.kept id apart ne] at is
    cases was : (t.mounted node mount).nodes id with
    | some before =>
        rw [Vfs.mounted_nodes_of_ne ne] at was
        rcases fresh.under id (by simp [was]) with old | under
        · simp [isNew] at old
        · exact absurd (filled.under (under.mounted (fresh.kept _ node live))) apart
    | none =>
        exact gone.served mountLive (filled.served id after is was) fun above parent under =>
          apart (.child is parent under)
  · rw [gone.mounts, filled.mounts]
    funext m
    by_cases eq : m = t.nextMount
    · subst eq
      rw [Function.update_self]
      by_contra ne
      obtain ⟨other, otherLive⟩ := Option.ne_none_iff_exists'.mp (Ne.symm ne)
      have lt := inv.links.lt _ other otherLive
      rw [grown.nextMount] at lt
      exact absurd lt (Nat.lt_irrefl _)
    · rw [Function.update_of_ne eq, Vfs.mounted_mounts_of_ne eq, grown.mounts]
  · exact gone.rootNode.trans (filled.rootNode.trans rootNode)
  · exact gone.ready.trans (filled.ready.trans ready)
  · have le := filled.nextMount
    have next : (t.mounted node mount).nextMount = s.nextMount + 1 := by
      rw [← grown.nextMount]
      rfl
    rw [gone.nextMount]
    omega

end Undo

/-! ## Mounting and unmounting -/

/-- A successful `vfs_mount` shows the fresh tree of some type at its target. -/
theorem vfsMount_mountedAs (materialises : code.Materialises) (decides : code.Decides)
    (ns : Namespace s) (roomy : s.Roomy) (registered : s.Registered)
    {source target fstype : Option CStr} {data : Option π}
    (done : vfsMount code s source target fstype data = some (s', 0)) :
    ∃ s₁ mp type, FreeTarget code s target s₁ mp ∧ MountedAs code s₁ mp type source data s' := by
  rcases vfsMount_target materialises ns roomy source target fstype data with
    ⟨t, ret, done', failed, -⟩ | ⟨s₁, mp, builds, -, free, done'⟩
  · obtain ⟨-, zero⟩ := Prod.mk.inj (Option.some.inj (done.symm.trans done'))
    exact absurd zero.symm failed
  · obtain ⟨node, live, -⟩ := free.free
    have roomy₁ := builds.roomy ns.tree roomy
    have unused := (builds.tree ns.tree).1.unused
    have types : s₁.fsTypes = s.fsTypes := builds.tables.fsTypes
    rw [done'] at done
    cases fstype with
    | none =>
        simp only [types] at done
        rcases autoMount_decides decides roomy₁ unused live registered source data with
          ⟨tried, -⟩ | ⟨type, t, tried, -, mounted⟩
        · obtain ⟨-, zero⟩ := Prod.mk.inj (Option.some.inj (done.symm.trans tried))
          exact absurd zero (by decide)
        · obtain ⟨rfl, -⟩ := Prod.mk.inj (Option.some.inj (done.symm.trans tried))
          exact ⟨s₁, mp, type, free, mounted⟩
    | some fstype =>
        simp only at done
        cases found : vfsFindFilesystem s₁ fstype with
        | none =>
            rw [found] at done
            obtain ⟨-, zero⟩ := Prod.mk.inj (Option.some.inj done)
            exact absurd zero (by decide)
        | some type =>
            rw [found] at done
            have member : type ∈ s.fsTypes := types ▸ List.mem_of_find?_eq_some found
            rcases vfsTryMount_decides decides roomy₁ unused live (registered type member)
                source data with ⟨ret, tried, failed, -⟩ | ⟨t, tried, -, mounted⟩
            · obtain ⟨-, zero⟩ := Prod.mk.inj (Option.some.inj (done.symm.trans tried))
              exact absurd zero.symm failed
            · obtain ⟨rfl, -⟩ := Prod.mk.inj (Option.some.inj (done.symm.trans tried))
              exact ⟨s₁, mp, type, free, mounted⟩

/-- No file is open in a mount that was not there before. -/
def ClosedSince (s t : Vfs ω π) : Prop :=
  ∀ m mount, s.mounts m = none → t.mounts m = some mount →
    ∀ item ∈ t.fileHead, ¬Under t mount.root item.file.node

/-- Unmounting after any calls that use what is mounted leaves the state before
the mount, filled. -/
theorem vfsUmount_filling (honest : code.Honest) (serves : code.Serves contents)
    (decides : code.Decides) (inv : FileInv s) (roomy : s.Roomy) (registered : s.Registered)
    {source target fstype : Option CStr} {data : Option π} {s₁ s₂ : Vfs ω π}
    (mounts : vfsMount code s source target fstype data = some (s₁, 0))
    (run : (vfsLts code).Run (fun _ op => op.Access) s₁ s₂) (closed : ClosedSince s s₂) :
    ∃ s', vfsUmount code s₂ target = some (s', 0) ∧ Filling code contents s s' := by
  have materialises := serves.materialises
  obtain ⟨s₀, mp, type, free, address, t, setup, root, node, -, -, -, fresh, live, rfl⟩ :=
    vfsMount_mountedAs materialises decides inv.names roomy registered mounts
  obtain ⟨path, inner, rfl, absolute, search⟩ := free.found
  obtain ⟨node', live', -, unmounted⟩ := free.free
  obtain rfl := Option.some.inj (live.symm.trans live')
  have found : resolveEx code false s path = (s₀, some (mp, inner)) :=
    Option.some.inj ((vfsLookupNodeEx_eq materialises inv.names roomy absolute false).symm.trans
      search)
  have builds := (resolveEx_spec materialises inv.names roomy false path).1
  have filled := resolveEx_filled serves inv roomy false path
  rw [found] at builds filled
  obtain ⟨inv₀, grown⟩ := builds.files inv
  have roomy₀ := builds.roomy inv.tree roomy
  -- the state with the mount, and what the calls make of it
  generalize isMount : (⟨mp, root, setup.sops, setup.priv⟩ : VfsMount π) = mount at mounts run
  obtain rfl : mount.mountpoint = mp := by rw [← isMount]
  obtain rfl : mount.root = root := by rw [← isMount]
  have inv₁ : FileInv (t.mounted node mount) := inv.step honest (.mount mounts)
  have roomy₁ : (t.mounted node mount).Roomy := fresh.builds.roomy inv₀.tree roomy₀
  have later : Filling code contents (t.mounted node mount) s₂ := by
    apply run.invariant (Filling code contents (t.mounted node mount))
    · exact fun u op u' filling access taken => filling.access serves access taken
    · exact ⟨.refl _, inv₁, roomy₁⟩
  -- the target leads to the mountpoint again
  have again : resolveEx code false s₂ path = (s₂, some (mount.mountpoint, inner)) :=
    resolveEx_below materialises inv.names roomy found (fresh.keptBelow inv₀ live later.filled)
      later.inv.tree
  have search' := vfsLookupNodeEx_eq materialises later.inv.names later.roomy absolute false
  rw [again] at search'
  obtain ⟨child, covered⟩ := later.filled.old _ _ Vfs.mounted_nodes_self
  have mountLive : s₂.mounts t.nextMount = some mount := by
    rw [later.filled.mounts, Vfs.mounted_mounts_self]
  have isNew : s.mounts t.nextMount = none := by
    rw [(fresh.builds.tree inv₀.tree).2.nextMount, grown.nextMount]
    by_contra old
    obtain ⟨other, otherLive⟩ := Option.ne_none_iff_exists'.mp old
    exact absurd (inv.links.lt _ other otherLive) (Nat.lt_irrefl _)
  obtain ⟨s', done, -, inv', gone⟩ := vfsUmount_closed honest absolute search' later.inv covered
    rfl mountLive (closed _ mount isNew mountLive)
  exact ⟨s', done, filled.trans (fresh.unmounted inv₀ live unmounted later.filled later.inv.tree
    gone), inv', gone.roomy later.roomy⟩

/-- `vfs_mount` mounts the first file system on a block device that accepts the
source, or changes nothing; and `vfs_umount` of the same target takes the mount
back, whatever was looked up, opened, read and closed meanwhile: every path
leads where it led before, to the same node where that was there. -/
theorem mount_outcome_and_undo (honest : code.Honest) (serves : code.Serves contents)
    (decides : code.Decides) (keeps : code.KeepsRegistered)
    (reached : (vfsLts code).Reachable s) (roomy : s.Roomy) (source target : Option CStr)
    (data : Option π) :
    MountOutcome code s source target data ∧
    ∀ fstype s₁ s₂, vfsMount code s source target fstype data = some (s₁, 0) →
      (vfsLts code).Run (fun _ op => op.Access) s₁ s₂ → ClosedSince s s₂ →
      ∃ s', vfsUmount code s₂ target = some (s', 0) ∧
        ∀ path, ∃ a found b found', vfsLookup code s path = some (a, found) ∧
          vfsLookup code s' path = some (b, found') ∧ Option.Rel (SamePlace s a b) found found' ∧
          ∀ id, found = some id → (s.nodes id).isSome → found' = some id := by
  have inv := FileInv.reachable honest reached
  have registered := Vfs.Registered.reachable honest keeps reached
  refine ⟨vfsMount_outcome serves.materialises decides inv.names roomy registered source target
    data, fun fstype s₁ s₂ mounts run closed => ?_⟩
  obtain ⟨s', done, filling⟩ :=
    vfsUmount_filling honest serves decides inv roomy registered mounts run closed
  refine ⟨s', done, fun path => ?_⟩
  obtain ⟨a, found, b, found', before, after, same⟩ :=
    lookup_samePlace serves inv roomy filling path
  refine ⟨a, found, b, found', before, after, same, ?_⟩
  rintro id rfl live
  cases same with
  | some place => rw [place.eq_of_old live]

/-- File systems of which the one at address 0 accepts every source; it has an
empty directory under one name in every directory. -/
def diskFs : FsCode Unit Unit where
  mount := fun address s source data =>
    if address = 0 then
      (dirFs.mount address s source data).map fun (s, setup, ret) =>
        (s, { setup with sops := some 0 }, ret)
    else some (s, ⟨none, none, none⟩, -EINVAL)
  lookup := fun address =>
    if address = 0 then
      some fun s _ dir name =>
        if name = [120] ∧ (s.nodes dir).isSome ∧ (s.nodes s.nextNode).isNone then
          vfsMkdir s (some dir) name
        else some (s, none)
    else none
  umount := fun _ => none

def diskContents : Contents Unit Unit := fun _ _ _ name =>
  if name = [120] then some ⟨.dir, none, none⟩ else none

/-- The disk serves the entries that it holds. -/
theorem diskFs_serves : diskFs.Serves diskContents := by
  intro address lookup s mount dir node name isLookup roomy unused live
  simp only [diskFs] at isLookup
  split at isLookup
  · obtain rfl := Option.some.inj isLookup
    refine ⟨(), ?_⟩
    by_cases isEntry : name = [120]
    · simp only [diskContents, isEntry, live, unused _ (Nat.le_refl _), if_true, true_and,
        Option.isSome_some, Option.isNone_none]
      rfl
    · simp [diskContents, isEntry]
  · cases isLookup

/-- The node that is created is a child of the directory, if its number was free. -/
theorem vfsCreateNode_parent {dir id : Nat} {name : CStr} {type : VfsNodeType}
    {fops : Option (FileOps ω π)} {priv : Option π} (live : (s.nodes dir).isSome)
    (free : s.nodes s.nextNode = none)
    (done : vfsCreateNode s (some dir) name type fops priv = some (s', some id)) :
    ∃ node, s'.nodes id = some node ∧ node.parent = some dir := by
  have ne : s.nextNode ≠ dir := by
    rintro rfl
    simp [free] at live
  simp only [vfsCreateNode] at done
  split at done
  · cases (Prod.mk.inj (Option.some.inj done)).2
  · split at done
    · cases (Prod.mk.inj (Option.some.inj done)).2
    · obtain ⟨above, -, done⟩ := Option.bind_eq_some_iff.mp done
      split at done
      · cases (Prod.mk.inj (Option.some.inj done)).2
      · obtain ⟨present, -, done⟩ := Option.bind_eq_some_iff.mp done
        split at done
        · cases (Prod.mk.inj (Option.some.inj done)).2
        · split at done
          · cases (Prod.mk.inj (Option.some.inj done)).2
          · rcases vfsAllocNode_cases s name type fops priv with
              ⟨s₁, result, -⟩ | ⟨s₁, result, -⟩
            · rw [result] at done
              cases (Prod.mk.inj (Option.some.inj done)).2
            · rw [result] at done
              obtain ⟨before, -, done⟩ := Option.bind_eq_some_iff.mp done
              obtain ⟨node, -, done⟩ := Option.bind_eq_some_iff.mp done
              obtain ⟨rfl, same⟩ := Prod.mk.inj (Option.some.inj done)
              obtain rfl := Option.some.inj same
              refine ⟨{ node with parent := some dir, sibling := before.child }, ?_, rfl⟩
              simp only [Vfs.setNode_nodes, Function.update_of_ne ne, Function.update_self]

/-- The disk keeps to the rules. -/
theorem diskFs_honest : diskFs.Honest where
  mount := by
    intro address s source data s' setup ret done
    simp only [diskFs] at done
    split at done
    · obtain ⟨⟨t, before, ret'⟩, called, same⟩ := Option.map_eq_some_iff.mp done
      cases same
      exact dirFs_honest.mount address s source data t before ret' called
    · obtain ⟨rfl, same⟩ := Prod.mk.inj (Option.some.inj done)
      obtain ⟨rfl, rfl⟩ := Prod.mk.inj same
      exact ⟨.refl, by simp⟩
  lookup := by
    intro address lookup s mount dir name s' found isLookup done
    simp only [diskFs] at isLookup
    split at isLookup
    · obtain rfl := Option.some.inj isLookup
      simp only at done
      split at done
      · next can =>
        have live : s.Live (some dir) := by
          intro id same
          obtain rfl := Option.some.inj same
          exact can.2.1
        refine ⟨.single (.create live done), ?_⟩
        rintro id rfl
        exact vfsCreateNode_parent can.2.1 (Option.isNone_iff_eq_none.mp can.2.2) done
      · obtain ⟨rfl, rfl⟩ := Prod.mk.inj (Option.some.inj done)
        exact ⟨.refl, by simp⟩
    · cases isLookup
  umount := by simp [diskFs]

/-- The disk accepts or rejects by its source alone. -/
theorem diskFs_decides : diskFs.Decides := by
  intro address s source data roomy unused
  by_cases accepts : address = 0
  · right
    obtain ⟨s', alloc, fresh, -⟩ :=
      vfsAllocDirNode_fresh roomy unused (show vfsNameValid [109] = true by decide)
    refine ⟨s', ⟨some s.nextNode, some 0, none⟩, s.nextNode, ?_, rfl, fresh⟩
    simp [diskFs, dirFs, accepts, alloc]
  · left
    exact ⟨⟨none, none, none⟩, -EINVAL, by simp [diskFs, accepts], Or.inl (by decide)⟩

/-- The directory /a, and three registered file systems: two that live on a
block device, of which the first rejects, and one that does not. -/
def withDisks : Vfs Unit Unit :=
  { withDirectory with
    fsTypes := [⟨some [112], 1, some 1⟩, ⟨some [113], 0, some 0⟩, ⟨some [114], 1, some 0⟩] }

/-- The third type has been mounted on /a. -/
def withDisk : Vfs Unit Unit :=
  ((vfsMount diskFs withDisks none (some [47, 97]) none none).get (by rfl)).1

/-- The lookup of /a/x has created a node. -/
def withDiskFile : Vfs Unit Unit :=
  ((vfsLookup diskFs withDisk (some [47, 97, 47, 120])).get (by rfl)).1

/-- A directory is made and the three types are registered. -/
theorem withDisks_reachable : (vfsLts diskFs).Reachable withDisks := by
  have start : (vfsLts diskFs).Reachable started := .initial ⟨_, _, rfl⟩
  have mkdir : VfsStep diskFs started (.mkdir (some 0) [97]) withDirectory := by
    refine .mkdir (fun id same => ?_)
      (show vfsMkdir started (some 0) [97] = some (withDirectory, some 1) from rfl)
    obtain rfl := Option.some.inj same
    rfl
  have made := start.step trivial mkdir
  have register {s : Vfs Unit Unit} (type : FsType) :
      VfsStep diskFs s (.registerFilesystem (some type))
        (vfsRegisterFilesystem s (some type)).1 :=
    .registerFilesystem rfl
  have first := made.step trivial (register ⟨some [114], 1, some 0⟩)
  have second := first.step trivial (register ⟨some [113], 0, some 0⟩)
  exact second.step trivial (register ⟨some [112], 1, some 1⟩)

/-- The first type on a block device that accepts is mounted on /a, and after a
lookup of /a/x it is unmounted again. -/
theorem mount_outcome_and_undo_withDisks :
    MountOutcome diskFs withDisks none (some [47, 97]) none ∧
    ∃ s', vfsMount diskFs withDisks none (some [47, 97]) none none = some (withDisk, 0) ∧
      vfsLookup diskFs withDisk (some [47, 97, 47, 120]) = some (withDiskFile, some 3) ∧
      vfsUmount diskFs withDiskFile (some [47, 97]) = some (s', 0) ∧
      ∀ path, ∃ a found b found', vfsLookup diskFs withDisks path = some (a, found) ∧
        vfsLookup diskFs s' path = some (b, found') ∧
        Option.Rel (SamePlace withDisks a b) found found' ∧
        ∀ id, found = some id → (withDisks.nodes id).isSome → found' = some id := by
  have keeps : diskFs.KeepsRegistered := by simp [FsCode.KeepsRegistered, diskFs]
  obtain ⟨outcome, undo⟩ := mount_outcome_and_undo diskFs_honest diskFs_serves diskFs_decides
    keeps withDisks_reachable (fun _ => rfl) none (some [47, 97]) none
  have mounts : vfsMount diskFs withDisks none (some [47, 97]) none none =
    some (withDisk, 0) := rfl
  have look : vfsLookup diskFs withDisk (some [47, 97, 47, 120]) =
    some (withDiskFile, some 3) := rfl
  obtain ⟨s', done, restored⟩ := undo none withDisk withDiskFile mounts
    (.single ⟨.lookup _, trivial, .lookup look⟩) (fun m mount _ _ item member => by cases member)
  exact ⟨outcome, s', mounts, look, done, restored⟩

end Zsbl.Common
