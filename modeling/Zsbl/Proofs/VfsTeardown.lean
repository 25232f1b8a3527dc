/-
Module: Zsbl.Proofs.VfsTeardown
Purpose: The newest mount can be reached by a path and unmounted, and with it,
  one after the other, every mount.
Trusted boundary: none
Main exports:
  Trail, lookupFrom_trail, Reach, VfsInv.walk_reach, VfsInv.newest_reach,
  VfsInv.close_all, VfsInv.teardown
-/
import Zsbl.Proofs.VfsInvariant
import Zsbl.Proofs.VfsPath

namespace Zsbl.Common

open Zsbl.Lib

variable {ω π : Type} {s s' : Vfs ω π} {code : FsCode ω π}

/-! ## Paths -/

/-- One mount crossing, or none. -/
def Follows (s : Vfs ω π) (id next : Nat) : Prop :=
  ∃ node, s.nodes id = some node ∧ (node.mnt = none ∧ next = id ∨
    ∃ m mount, node.mnt = some m ∧ s.mounts m = some mount ∧ next = mount.root)

/-- From the node the lookup stands on, these names lead to a node, which is
not followed. -/
inductive Trail (s : Vfs ω π) : Nat → List CStr → Nat → Prop where
  | last {cur id : Nat} {node : VfsNode ω π} (live : s.nodes id = some node)
      (parent : node.parent = some cur) : Trail s cur [node.name] id
  | step {cur id next stop : Nat} {node : VfsNode ω π} {names : List CStr}
      (live : s.nodes id = some node) (parent : node.parent = some cur)
      (follows : Follows s id next) (rest : Trail s next names stop) :
      Trail s cur (node.name :: names) stop

/-- The names with slashes between them. -/
def joinNames : List CStr → CStr
  | [] => []
  | [name] => name
  | name :: names => name ++ slash :: joinNames names

theorem Trail.snoc {cur stop next id : Nat} {names : List CStr} {node : VfsNode ω π}
    (trail : Trail s cur names stop) (follows : Follows s stop next)
    (live : s.nodes id = some node) (parent : node.parent = some next) :
    Trail s cur (names ++ [node.name]) id := by
  induction trail with
  | last live' parent' => exact .step live' parent' follows (.last live parent)
  | step live' parent' follows' _ ih => exact .step live' parent' follows' (ih follows)

theorem Trail.names_ne {cur stop : Nat} {names : List CStr}
    (trail : Trail s cur names stop) : names ≠ [] := by
  cases trail <;> simp

theorem Quiet.roomy (quiet : Quiet s s') (roomy : s.Roomy) : s'.Roomy := by
  obtain ⟨calls, mem⟩ := quiet.mem
  intro call
  rw [mem]
  exact roomy _

theorem Quiet.inv (quiet : Quiet s s') (inv : VfsInv s) : VfsInv s' :=
  ⟨inv.tree.of_same quiet.sameTree, inv.mounts.extends quiet.extends⟩

/-- `vfs_follow_mount_mnt` crosses the mount on a node. -/
theorem Follows.done (inv : MountInv s) {id next : Nat} (follows : Follows s id next)
    (mnt : Option Nat) : ∃ inner, vfsFollowMountMnt s id mnt = some (next, inner) := by
  obtain ⟨node, live, ⟨unmounted, rfl⟩ | ⟨m, mount, mounted, mountLive, rfl⟩⟩ := follows
  · exact ⟨mnt, by simp [vfsFollowMountMnt, followMountMnt, live, unmounted]⟩
  · have lt := inv.lt m mount mountLive
    obtain ⟨dir, rootLive, -, -, unmounted⟩ := inv.root m mount mountLive
    obtain ⟨fuel, enough⟩ : ∃ fuel, s.nextMount = fuel + 1 :=
      Nat.exists_eq_succ_of_ne_zero (by omega)
    exact ⟨some m, by
      simp [vfsFollowMountMnt, followMountMnt, enough, live, mounted, mountLive, rootLive,
        unmounted]⟩

/-- The path of a node is not empty. -/
theorem joinNames_ne_nil (inv : TreeInv s) {cur stop : Nat} {names : List CStr}
    (trail : Trail s cur names stop) : joinNames names ≠ [] := by
  cases trail with
  | last live parent => exact (vfsNameValid_iff.mp (inv.valid _ _ _ live parent)).1
  | @step _ _ _ _ node names live parent _ rest =>
      have ne := (vfsNameValid_iff.mp (inv.valid _ _ _ live parent)).1
      cases names with
      | nil => exact absurd rfl rest.names_ne
      | cons name names => simp [joinNames]

/-- One round of the lookup, for a segment whose child is there. -/
theorem lookupFrom_segment {followLast : Bool} {fuel cur id : Nat} {mnt : Option Nat}
    {cursor : CStr} (roomy : s.Roomy) (name : cursor.takeWhile (· ≠ slash) ≠ [])
    (found : vfsFindChildByName s.malloc.1 cur (cursor.takeWhile (· ≠ slash)) =
      some (some id)) :
    lookupFrom code followLast (fuel + 1) s cur mnt cursor =
      if cursor.dropWhile (· ≠ slash) = [] ∨ cursor.dropWhile (· ≠ slash) = [slash] then
        if followLast then
          (vfsFollowMountMnt s.malloc.1 id mnt).map fun found => (s.malloc.1, some found)
        else some (s.malloc.1, some (id, mnt))
      else (vfsFollowMountMnt s.malloc.1 id mnt).bind fun found =>
        lookupFrom code followLast fuel s.malloc.1 found.1 found.2
          (cursor.dropWhile (· ≠ slash)).tail := by
  have room : s.malloc.2 = true := roomy 0
  cases cursor with
  | nil => exact absurd rfl name
  | cons first cursor =>
      simp only [lookupFrom, if_neg name, room, lookupSegment, found,
        Option.bind_eq_bind, Option.bind_some, Option.pure_def, Bool.not_true,
        Bool.false_eq_true, if_false]
      split
      · split
        · cases vfsFollowMountMnt s.malloc.1 id mnt <;> rfl
        · rfl
      · rfl

/-- The lookup of existing names ends at the node the trail leads to and builds
nothing. -/
theorem lookupFrom_trail (code : FsCode ω π) {cur stop : Nat} {names : List CStr}
    (trail : Trail s cur names stop) (inv : VfsInv s) {t : Vfs ω π}
    (same : SameButHeap s t) (roomy : t.Roomy) (mnt : Option Nat) {fuel : Nat}
    (enough : (joinNames names).length ≤ fuel) :
    ∃ t' inner, lookupFrom code false fuel t cur mnt (joinNames names) =
      some (t', some (stop, inner)) ∧ SameButHeap s t' := by
  induction trail generalizing t mnt fuel with
  | @last cur id node live parent =>
      obtain ⟨ne, absent⟩ := vfsNameValid_iff.mp (inv.tree.valid _ _ _ live parent)
      obtain ⟨seg, rest⟩ := takeWhile_last absent
      obtain ⟨fuel, rfl⟩ : ∃ less, fuel = less + 1 := by
        have pos := List.length_pos_of_ne_nil ne
        exact Nat.exists_eq_succ_of_ne_zero (by simp [joinNames] at enough; omega)
      have same' := same.trans (SameButHeap.malloc t)
      have found := (same'.quiet.inv inv).tree.findChild_self
        (by rw [same'.quiet.nodes, live]) parent
      refine ⟨t.malloc.1, mnt, ?_, same'⟩
      simp only [joinNames]
      rw [lookupFrom_segment roomy (by rwa [seg]) (by rwa [seg]), rest]
      simp
  | @step cur id next stop node names live parent follows trail ih =>
      obtain ⟨ne, absent⟩ := vfsNameValid_iff.mp (inv.tree.valid _ _ _ live parent)
      have join : joinNames (node.name :: names) = node.name ++ slash :: joinNames names := by
        cases names with
        | nil => exact absurd rfl trail.names_ne
        | cons _ _ => rfl
      obtain ⟨seg, rest⟩ := takeWhile_name (joinNames names) absent
      have more := joinNames_ne_nil inv.tree trail
      rw [join] at enough ⊢
      obtain ⟨fuel, rfl⟩ : ∃ less, fuel = less + 1 :=
        Nat.exists_eq_succ_of_ne_zero (by simp at enough; omega)
      have malloc := SameButHeap.malloc t
      have same' := same.trans malloc
      have inv' := same'.quiet.inv inv
      have found := inv'.tree.findChild_self (by rw [same'.quiet.nodes, live]) parent
      have follows' : Follows t.malloc.1 id next := by
        unfold Follows at follows ⊢
        rwa [same'.quiet.nodes, same'.quiet.mounts]
      obtain ⟨inner, followed⟩ := follows'.done inv'.mounts mnt
      obtain ⟨t', inner', done, same''⟩ := ih same' (malloc.quiet.roomy roomy) inner
        (show (joinNames names).length ≤ fuel by simp at enough; omega)
      refine ⟨t', inner', ?_, same''⟩
      rw [lookupFrom_segment roomy (by rwa [seg]) (by rwa [seg]), rest,
        if_neg (by simp [more]), followed]
      exact done

/-- A path leads to the node, which is not followed. -/
def Reach (s : Vfs ω π) (id : Nat) : Prop :=
  s.rootNode = some id ∨ ∃ root cur names, s.rootNode = some root ∧
    Follows s root cur ∧ Trail s cur names id

/-- `vfs_lookup_node_ex` finds a node that a path leads to. -/
theorem Reach.path (code : FsCode ω π) {id : Nat} (reach : Reach s id) (inv : VfsInv s)
    (roomy : s.Roomy) :
    ∃ (path : CStr) (s' : Vfs ω π) (inner : Option Nat), vfsIsPathValid path = true ∧
      vfsLookupNodeEx code s path false = some (s', some (id, inner)) ∧
      SameButHeap s s' := by
  rcases reach with isRoot | ⟨root, cur, names, isRoot, follows, trail⟩
  · exact ⟨[slash], s, none, rfl, by simp [vfsLookupNodeEx, isRoot], SameButHeap.refl s⟩
  · obtain ⟨inner, followed⟩ := follows.done inv.mounts none
    obtain ⟨s', inner', done, same⟩ := lookupFrom_trail code trail inv
      (SameButHeap.refl s) roomy inner
      (show (joinNames names).length ≤ (slash :: joinNames names).length by simp)
    have more : slash :: joinNames names ≠ [slash] := by
      simpa using joinNames_ne_nil inv.tree trail
    refine ⟨slash :: joinNames names, s', inner', rfl, ?_, same⟩
    simp only [vfsLookupNodeEx, isRoot, if_neg more, followed, Option.bind_eq_bind,
      Option.bind_some]
    exact done

/-- A file system's root is not a mountpoint. -/
theorem MountInv.root_ne (inv : MountInv s) {m k : Nat} {mount other : VfsMount π}
    (live : s.mounts m = some mount) (otherLive : s.mounts k = some other) :
    other.mountpoint ≠ mount.root := by
  intro eq
  obtain ⟨dir, dirLive, -, -, unmounted⟩ := inv.root m mount live
  obtain ⟨dir', dirLive', -, mnt⟩ := inv.mountpoint k other otherLive
  rw [eq] at dirLive'
  obtain rfl := Option.some.inj (dirLive.symm.trans dirLive')
  rw [unmounted] at mnt
  cases mnt

/-- On a walk over the mounts there are, a path leads to every node or to the
mountpoint that shows it. -/
theorem Walk.reach (inv : VfsInv s) {id : Nat} (walk : Walk s s.nextMount id) :
    Reach s id ∨ ∃ m mount, s.mounts m = some mount ∧ mount.root = id ∧
      Reach s mount.mountpoint := by
  induction walk with
  | root isRoot => exact Or.inl (Or.inl isRoot)
  | @child id parent node dir live parent_eq dirLive uncovered _ ih =>
      left
      have unmounted : dir.mnt = none := by
        cases mnt : dir.mnt with
        | none => rfl
        | some m =>
            obtain ⟨mount, mountLive, -⟩ := inv.mounts.mounted parent dir m dirLive mnt
            have lt := inv.mounts.lt m mount mountLive
            have le := uncovered m mnt
            omega
      have extend : ∀ {stop}, Follows s stop parent → Reach s stop → Reach s id := by
        intro stop follows reach
        rcases reach with isRoot | ⟨root, cur, names, isRoot, start, trail⟩
        · exact Or.inr ⟨stop, parent, _, isRoot, follows, .last live parent_eq⟩
        · exact Or.inr ⟨root, cur, _, isRoot, start, trail.snoc follows live parent_eq⟩
      rcases ih with reach | ⟨m, mount, mountLive, rfl, reach⟩
      · exact extend ⟨dir, dirLive, Or.inl ⟨unmounted, rfl⟩⟩ reach
      · obtain ⟨mp, mpLive, -, mnt⟩ := inv.mounts.mountpoint m mount mountLive
        exact extend ⟨mp, mpLive, Or.inr ⟨m, mount, mnt, mountLive, rfl⟩⟩ reach
  | @cross m mount mountLive _ _ ih =>
      rcases ih with reach | ⟨m', mount', mountLive', eq, -⟩
      · exact Or.inr ⟨m, mount, mountLive, rfl, reach⟩
      · exact absurd eq.symm (inv.mounts.root_ne mountLive' mountLive)

/-- A path leads to the mountpoint of a mount that no mount on the way
covers. -/
theorem VfsInv.walk_reach (inv : VfsInv s) {m : Nat} {mount : VfsMount π}
    (live : s.mounts m = some mount) (walk : Walk s s.nextMount mount.mountpoint) :
    Reach s mount.mountpoint := by
  rcases walk.reach inv with reach | ⟨k, other, otherLive, eq, -⟩
  · exact reach
  · exact absurd eq.symm (inv.mounts.root_ne otherLive live)

section Newest

variable {m : Nat} {mount : VfsMount π}

/-- The walk to the newest mount's mountpoint is one over all mounts. -/
theorem Walk.of_newest (inv : VfsInv s) (live : s.mounts m = some mount)
    (newest : ∀ k other, s.mounts k = some other → k ≤ m) {id : Nat}
    (walk : Walk s m id) (le : id ≤ mount.mountpoint) : Walk s s.nextMount id := by
  induction walk with
  | root isRoot => exact .root isRoot
  | @child id parent node dir childLive parent_eq dirLive uncovered _ ih =>
      have lt := (inv.tree.parent id node parent childLive parent_eq).1
      refine .child childLive parent_eq dirLive (fun k mnt => ?_) (ih (by omega))
      -- the covering mount would be the newest, whose mountpoint is further on
      obtain ⟨other, otherLive, rfl⟩ := inv.mounts.mounted parent dir k dirLive mnt
      obtain rfl := Nat.le_antisymm (newest k other otherLive) (uncovered k mnt)
      obtain rfl := Option.some.inj (live.symm.trans otherLive)
      omega
  | @cross k other otherLive _ _ ih =>
      have below := inv.mounts.below k other otherLive
      exact .cross otherLive (inv.mounts.lt k other otherLive) (ih (by omega))

/-- A path leads to the mountpoint of the newest mount. -/
theorem VfsInv.newest_reach (inv : VfsInv s) (live : s.mounts m = some mount)
    (newest : ∀ k other, s.mounts k = some other → k ≤ m) :
    Reach s mount.mountpoint :=
  inv.walk_reach live
    ((inv.mounts.walk m mount live).of_newest inv live newest (Nat.le_refl _))

/-- A walk enters a file system through its mount. -/
theorem Walk.below_root (inv : VfsInv s) (live : s.mounts m = some mount)
    {bound id : Nat} (walk : Walk s bound id) (under : Under s mount.root id) :
    m < bound := by
  obtain ⟨dir, rootLive, -, top, -⟩ := inv.mounts.root m mount live
  induction walk with
  | root isRoot =>
      obtain ⟨node, nodeLive, -, nodeTop⟩ := inv.tree.root _ isRoot
      have eq := under.eq_of_top nodeLive nodeTop
      exact absurd (eq ▸ isRoot) (inv.mounts.notRoot m mount live)
  | child childLive parent_eq _ _ _ ih =>
      refine ih (under.parent ?_ childLive parent_eq)
      rintro rfl
      obtain rfl := Option.some.inj (rootLive.symm.trans childLive)
      rw [top] at parent_eq
      cases parent_eq
  | @cross k other otherLive lt _ _ =>
      obtain ⟨node, nodeLive, -, nodeTop, -⟩ := inv.mounts.root k other otherLive
      have eq := under.eq_of_top nodeLive nodeTop
      exact inv.mounts.distinct k m other mount otherLive live eq ▸ lt

/-- The newest mount's tree holds no mountpoint. -/
theorem VfsInv.newest_flat (inv : VfsInv s) (live : s.mounts m = some mount)
    (newest : ∀ k other, s.mounts k = some other → k ≤ m) {id : Nat}
    {node : VfsNode ω π} (under : Under s mount.root id)
    (nodeLive : s.nodes id = some node) : node.mnt = none := by
  cases mnt : node.mnt with
  | none => rfl
  | some k =>
      obtain ⟨other, otherLive, rfl⟩ := inv.mounts.mounted id node k nodeLive mnt
      have lt := (inv.mounts.walk k other otherLive).below_root inv live under
      have le := newest k other otherLive
      omega

end Newest

/-! ## Taking the mounts down -/

theorem Unmounted.roomy {m : Nat} {mount : VfsMount π} (gone : Unmounted s s' m mount)
    (roomy : s.Roomy) : s'.Roomy := by
  obtain ⟨calls, mem⟩ := gone.mem
  intro call
  rw [mem]
  exact roomy _

/-- With no file open, `vfs_umount` of the newest mount succeeds. -/
theorem VfsInv.umount_newest (honest : code.Honest) (inv : VfsInv s) (roomy : s.Roomy)
    (closed : s.fileHead = []) {m : Nat} {mount : VfsMount π}
    (live : s.mounts m = some mount)
    (newest : ∀ k other, s.mounts k = some other → k ≤ m) :
    ∃ path s' s₁ inner,
      vfsLookupNodeEx code s path false = some (s', some (mount.mountpoint, inner)) ∧
      vfsUmount code s (some path) = some (s₁, 0) ∧
      KeepsMountpoints code s (.umount (some path)) ∧ VfsInv s₁ ∧ s₁.Roomy ∧
      s₁.fileHead = [] ∧ s₁.mounts = Function.update s.mounts m none := by
  obtain ⟨path, s', inner, valid, search, same⟩ :=
    (inv.newest_reach live newest).path code inv roomy
  have inv' := same.quiet.inv inv
  have live' : s'.mounts m = some mount := by rw [same.quiet.mounts, live]
  have closed' : s'.fileHead = [] := by rw [same.quiet.fileHead, closed]
  have newest' : ∀ k other, s'.mounts k = some other → k ≤ m := by
    rw [same.quiet.mounts]
    exact newest
  obtain ⟨dir, dirLive, -, mnt⟩ := inv'.mounts.mountpoint m mount live'
  obtain ⟨s₂, ret, s₃, called, nodeLive, freed, tree, gone⟩ :=
    inv'.files.umount_found honest live' dirLive
  have flat : ∀ id node, Under s' mount.root id → s'.nodes id = some node →
      node.mnt = none := fun id node under nodeLive =>
    inv'.newest_flat live' newest' under nodeLive
  refine ⟨path, s', { s₃ with mounts := Function.update s₃.mounts m none }, inner, search,
    ?_, ?_, ?_, gone.roomy (same.quiet.roomy roomy), ?_, ?_⟩
  · simp [vfsUmount, valid, search, dirLive, mnt, live', closed', anyUnderRoot, called,
      nodeLive, freed]
  · intro t mp inner' dir' k other search' dirLive' mnt' otherLive _ id node under
      nodeLive'
    obtain ⟨rfl, same'⟩ := Prod.mk.inj (Option.some.inj (search.symm.trans search'))
    obtain ⟨rfl, -⟩ := Prod.mk.inj (Option.some.inj same')
    obtain rfl := Option.some.inj (dirLive.symm.trans dirLive')
    obtain rfl := Option.some.inj (mnt.symm.trans mnt')
    obtain rfl := Option.some.inj (live'.symm.trans otherLive)
    exact flat id node under nodeLive'
  · exact inv'.unmounted gone (tree.of_same ⟨fun _ => rfl, rfl, rfl⟩) live' flat
      (by simp [closed'])
  · rw [gone.fileHead, closed']
  · rw [gone.mounts, same.quiet.mounts]

/-- The calls of a teardown, which free no mountpoint. -/
def TearsDown (code : FsCode ω π) (s : Vfs ω π) (op : VfsOp ω π) : Prop :=
  KeepsMountpoints code s op ∧ op.Teardown

/-- Every open file can be closed. -/
theorem VfsInv.close_all (code : FsCode ω π) (inv : VfsInv s) (roomy : s.Roomy) :
    ∃ s', (vfsLts code).Run (TearsDown code) s s' ∧ VfsInv s' ∧ s'.Roomy ∧
      s'.fileHead = [] ∧ s'.mounts = s.mounts := by
  induction files : s.fileHead generalizing s with
  | nil => exact ⟨s, .refl, inv, roomy, files, rfl⟩
  | cons item rest ih =>
      obtain ⟨node, live⟩ := Option.isSome_iff_exists.mp
        (inv.mounts.files item (by simp [files]))
      obtain ⟨s₁, ret, done, mounts, mem, fewer⟩ : ∃ s₁ ret,
          vfsClose s item.fd = some (s₁, ret) ∧ s₁.mounts = s.mounts ∧
            s₁.mem = s.mem ∧ s₁.fileHead = rest := by
        cases close : node.fops.bind FileOps.closeFn with
        | none =>
            exact ⟨{ s with fileHead := rest }, 0,
              by simp [vfsClose, vfsFindFile, files, live, close], rfl, rfl, rfl⟩
        | some closeFn =>
            exact ⟨{ s with
                world := (closeFn s.world node.priv item.file).1
                fileHead := rest }, (closeFn s.world node.priv item.file).2.2,
              by simp [vfsClose, vfsFindFile, files, live, close], rfl, rfl, rfl⟩
      obtain ⟨s', run, inv', roomy', closed, mounts'⟩ :=
        ih (inv.refiled (vfsClose_refiled inv.files done))
          (by intro call; rw [mem]; exact roomy call) fewer
      have step : (vfsLts code).Guarded (TearsDown code) s s₁ :=
        ⟨.close item.fd, ⟨trivial, trivial⟩, .close done⟩
      exact ⟨s', .head step run, inv', roomy', closed, mounts'.trans mounts⟩

/-- Unmounting from the newest mount on reaches every mount: a path leads to
its mountpoint and `vfs_umount` of that path frees it. -/
theorem VfsInv.teardown (honest : code.Honest) (inv : VfsInv s) (roomy : s.Roomy)
    (closed : s.fileHead = []) {m : Nat} {mount : VfsMount π}
    (live : s.mounts m = some mount) {bound : Nat}
    (below : ∀ k other, s.mounts k = some other → k < bound) :
    ∃ s₁ path s₂ s₃ inner, (vfsLts code).Run (TearsDown code) s s₁ ∧
      s₁.mounts m = some mount ∧
      vfsLookupNodeEx code s₁ path false = some (s₂, some (mount.mountpoint, inner)) ∧
      vfsUmount code s₁ (some path) = some (s₃, 0) ∧
      KeepsMountpoints code s₁ (.umount (some path)) ∧ s₃.mounts m = none := by
  induction bound generalizing s with
  | zero =>
      have lt := below m mount live
      omega
  | succ bound ih =>
      cases last : s.mounts bound with
      | none =>
          refine ih inv roomy closed live fun k other otherLive => ?_
          have lt := below k other otherLive
          have ne : k ≠ bound := by
            rintro rfl
            rw [last] at otherLive
            cases otherLive
          omega
      | some newestMount =>
          obtain ⟨path, s', s₁, inner, search, done, keeps, inv₁, roomy₁, closed₁,
              mounts⟩ :=
            inv.umount_newest honest roomy closed last fun k other otherLive =>
              Nat.le_of_lt_succ (below k other otherLive)
          by_cases eq : m = bound
          · subst eq
            obtain rfl := Option.some.inj (live.symm.trans last)
            exact ⟨s, path, s', s₁, inner, .refl, live, search, done, keeps,
              by rw [mounts, Function.update_self]⟩
          · have live₁ : s₁.mounts m = some mount := by
              rw [mounts, Function.update_of_ne eq, live]
            obtain ⟨s₂, path₂, s₃, s₄, inner₂, run, rest⟩ :=
              ih inv₁ roomy₁ closed₁ live₁ fun k other otherLive => by
                rw [mounts] at otherLive
                have ne : k ≠ bound := by
                  rintro rfl
                  rw [Function.update_self] at otherLive
                  cases otherLive
                rw [Function.update_of_ne ne] at otherLive
                have lt := below k other otherLive
                omega
            have step : (vfsLts code).Guarded (TearsDown code) s s₁ :=
              ⟨.umount (some path), ⟨keeps, trivial⟩, .umount done⟩
            exact ⟨s₂, path₂, s₃, s₄, inner₂, .head step run, rest⟩

end Zsbl.Common
