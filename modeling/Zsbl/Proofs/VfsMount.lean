/-
Module: Zsbl.Proofs.VfsMount
Purpose: A file system that takes effect on an unmounted directory keeps the
  VFS invariant, whether vfs_mount is told its type or finds one.
Trusted boundary: none
Main exports:
  Vfs.mounted, Mountable, FileInv.mounted, VfsInv.mounted, TakesEffect,
  vfsMount_cases
-/
import Zsbl.Proofs.VfsMounts

namespace Zsbl.Common

open Zsbl.Lib

variable {ω π : Type} {s s' : Vfs ω π} {code : FsCode ω π}
  {holds : Vfs ω π → Nat → Prop}

/-! ## Mounting -/

/-- The state once a mount has taken effect on its mountpoint. -/
def Vfs.mounted (s : Vfs ω π) (node : VfsNode ω π) (mount : VfsMount π) : Vfs ω π :=
  { s.setNode mount.mountpoint { node with mnt := some s.nextMount } with
    mounts := Function.update s.mounts s.nextMount (some mount)
    nextMount := s.nextMount + 1 }

section Mounted

variable {node : VfsNode ω π} {mount : VfsMount π}

theorem Vfs.mounted_nodes_of_ne {id : Nat} (ne : id ≠ mount.mountpoint) :
    (s.mounted node mount).nodes id = s.nodes id := by
  simp [Vfs.mounted, Function.update_of_ne ne]

theorem Vfs.mounted_nodes_self : (s.mounted node mount).nodes mount.mountpoint =
    some { node with mnt := some s.nextMount } := by
  simp [Vfs.mounted]

theorem Vfs.mounted_mounts_self :
    (s.mounted node mount).mounts s.nextMount = some mount := by
  simp [Vfs.mounted]

theorem Vfs.mounted_mounts_of_ne {m : Nat} (ne : m ≠ s.nextMount) :
    (s.mounted node mount).mounts m = s.mounts m := by
  simp [Vfs.mounted, Function.update_of_ne ne]

/-- A mount of the new state is the new one or was there. -/
theorem Vfs.mounted_mounts_cases {m : Nat} {other : VfsMount π}
    (live : (s.mounted node mount).mounts m = some other) :
    m = s.nextMount ∧ other = mount ∨ m ≠ s.nextMount ∧ s.mounts m = some other := by
  by_cases eq : m = s.nextMount
  · subst eq
    rw [Vfs.mounted_mounts_self] at live
    exact Or.inl ⟨rfl, (Option.some.inj live).symm⟩
  · rw [Vfs.mounted_mounts_of_ne eq] at live
    exact Or.inr ⟨eq, live⟩

theorem SameTree.mounted (live : s.nodes mount.mountpoint = some node) :
    SameTree s (s.mounted node mount) := by
  refine ⟨fun id => ?_, rfl, rfl⟩
  by_cases eq : id = mount.mountpoint
  · subst eq
    rw [Vfs.mounted_nodes_self, live]
    rfl
  · rw [Vfs.mounted_nodes_of_ne eq]

theorem TreeInv.mounted (inv : TreeInv s) (live : s.nodes mount.mountpoint = some node) :
    TreeInv (s.mounted node mount) := inv.of_same (.mounted live)

/-- A new mount does not change the walks over older ones. -/
theorem Walk.mounted (live : s.nodes mount.mountpoint = some node)
    {bound id : Nat} (le : bound ≤ s.nextMount) (walk : Walk s bound id) :
    Walk (s.mounted node mount) bound id := by
  induction walk with
  | root isRoot => exact .root isRoot
  | @child id parent child dir childLive parent_eq dirLive uncovered _ ih =>
      obtain ⟨child', childLive', parent'⟩ : ∃ child',
          (s.mounted node mount).nodes id = some child' ∧
            child'.parent = some parent := by
        by_cases eq : id = mount.mountpoint
        · subst eq
          obtain rfl := Option.some.inj (live.symm.trans childLive)
          exact ⟨_, Vfs.mounted_nodes_self, parent_eq⟩
        · exact ⟨child, by rw [Vfs.mounted_nodes_of_ne eq, childLive], parent_eq⟩
      by_cases eq : parent = mount.mountpoint
      · subst eq
        refine .child childLive' parent' Vfs.mounted_nodes_self (fun m mnt => ?_) ih
        obtain rfl := Option.some.inj mnt
        exact le
      · exact .child childLive' parent'
          ((Vfs.mounted_nodes_of_ne eq).trans dirLive) uncovered ih
  | @cross m other otherLive lt _ ih =>
      exact .cross ((Vfs.mounted_mounts_of_ne (by omega)).trans otherLive) lt ih

/-- A file system can take effect: its root is fresh, and its mountpoint is an
unmounted directory that no file system shows as its root. -/
structure Mountable (s : Vfs ω π) (node : VfsNode ω π) (mount : VfsMount π) : Prop where
  live : s.nodes mount.mountpoint = some node
  isDir : node.type = .dir
  unmounted : node.mnt = none
  placed : Placed s mount.mountpoint
  below : mount.mountpoint < mount.root
  older : ∀ m other, s.mounts m = some other → other.root < mount.root
  rootBelow : ∀ id, s.rootNode = some id → id < mount.root
  root : ∃ dir, s.nodes mount.root = some dir ∧ dir.type = .dir ∧ dir.parent = none ∧
    dir.mnt = none

/-- The mountpoint is no file system's root. -/
theorem Mountable.ne_root (able : Mountable s node mount) {id : Nat}
    {top : VfsNode ω π} (live : s.nodes id = some top) (noParent : top.parent = none)
    (notRoot : s.rootNode ≠ some id) : id ≠ mount.mountpoint := by
  rintro rfl
  rcases able.placed with isRoot | ⟨placedNode, parent, placedLive, parent_eq⟩
  · exact notRoot isRoot
  · obtain rfl := Option.some.inj (live.symm.trans placedLive)
    rw [noParent] at parent_eq
    cases parent_eq

/-- A mount that takes effect keeps the links. -/
theorem FileInv.mounted (inv : FileInv s) (able : Mountable s node mount) :
    FileInv (s.mounted node mount) := by
  refine ⟨inv.tree.mounted able.live, ?_⟩
  constructor
  · intro m other otherLive
    rcases Vfs.mounted_mounts_cases otherLive with ⟨rfl, -⟩ | ⟨-, otherLive⟩
    · exact Nat.lt_succ_self _
    · exact Nat.lt_succ_of_lt (inv.links.lt m other otherLive)
  · intro id other m otherLive mnt
    by_cases eq : id = mount.mountpoint
    · subst eq
      rw [Vfs.mounted_nodes_self] at otherLive
      obtain rfl := Option.some.inj otherLive
      obtain rfl := Option.some.inj mnt
      exact ⟨mount, Vfs.mounted_mounts_self, rfl⟩
    · rw [Vfs.mounted_nodes_of_ne eq] at otherLive
      obtain ⟨known, knownLive, same⟩ := inv.links.mounted id other m otherLive mnt
      have lt := inv.links.lt m known knownLive
      exact ⟨known, (Vfs.mounted_mounts_of_ne (Nat.ne_of_lt lt)).trans knownLive, same⟩
  · intro m other otherLive
    rcases Vfs.mounted_mounts_cases otherLive with ⟨rfl, rfl⟩ | ⟨-, otherLive⟩
    · obtain ⟨dir, rootLive, rest⟩ := able.root
      exact ⟨dir, (Vfs.mounted_nodes_of_ne (Nat.ne_of_gt able.below)).trans rootLive, rest⟩
    · obtain ⟨above, aboveLive, aboveDir, noParent, mnt⟩ :=
        inv.links.root m other otherLive
      have ne := able.ne_root aboveLive noParent (inv.links.notRoot m other otherLive)
      exact ⟨above, (Vfs.mounted_nodes_of_ne ne).trans aboveLive, aboveDir, noParent,
        mnt⟩
  · intro m other otherLive
    rcases Vfs.mounted_mounts_cases otherLive with ⟨rfl, rfl⟩ | ⟨-, otherLive⟩
    · exact able.below
    · exact inv.links.below m other otherLive
  · intro m m' other other' otherLive otherLive' same
    rcases Vfs.mounted_mounts_cases otherLive with ⟨rfl, rfl⟩ | ⟨-, wasLive⟩ <;>
      rcases Vfs.mounted_mounts_cases otherLive' with ⟨rfl, rfl⟩ | ⟨-, wasLive'⟩
    · rfl
    · have lt := able.older m' other' wasLive'
      omega
    · have lt := able.older m other wasLive
      omega
    · exact inv.links.distinct m m' other other' wasLive wasLive' same
  · intro m other otherLive
    rcases Vfs.mounted_mounts_cases otherLive with ⟨rfl, rfl⟩ | ⟨-, otherLive⟩
    · intro isRoot
      have lt := able.rootBelow _ isRoot
      omega
    · exact inv.links.notRoot m other otherLive
  · intro item member
    have old := inv.links.files item member
    by_cases eq : item.file.node = mount.mountpoint
    · rw [eq, Vfs.mounted_nodes_self]
      rfl
    · rw [Vfs.mounted_nodes_of_ne eq]
      exact old

/-- A mount that takes effect where a walk leads keeps the walks. -/
theorem VfsInv.mounted (inv : VfsInv s) (able : Mountable s node mount)
    (walk : Walk s s.nextMount mount.mountpoint) : VfsInv (s.mounted node mount) := by
  obtain ⟨tree, links⟩ := inv.files.mounted able
  refine ⟨tree, links.mounts ?_ ?_⟩
  · intro m other otherLive
    rcases Vfs.mounted_mounts_cases otherLive with ⟨rfl, rfl⟩ | ⟨-, otherLive⟩
    · exact ⟨_, Vfs.mounted_nodes_self, able.isDir, rfl⟩
    · obtain ⟨mp, mpLive, mpDir, mnt⟩ := inv.mounts.mountpoint m other otherLive
      have ne : other.mountpoint ≠ mount.mountpoint := by
        intro eq
        rw [eq] at mpLive
        obtain rfl := Option.some.inj (able.live.symm.trans mpLive)
        rw [able.unmounted] at mnt
        cases mnt
      exact ⟨mp, (Vfs.mounted_nodes_of_ne ne).trans mpLive, mpDir, mnt⟩
  · intro m other otherLive
    rcases Vfs.mounted_mounts_cases otherLive with ⟨rfl, rfl⟩ | ⟨-, otherLive⟩
    · exact walk.mounted able.live (Nat.le_refl _)
    · have lt := inv.mounts.lt m other otherLive
      exact (inv.mounts.walk m other otherLive).mounted able.live (Nat.le_of_lt lt)

end Mounted

/-- A directory without a mount that is in the tree of a file system. -/
structure FreeMountpoint (s : Vfs ω π) (mp : Nat) : Prop where
  placed : Placed s mp
  dir : ∃ node, s.nodes mp = some node ∧ node.type = .dir ∧ node.mnt = none

theorem FreeMountpoint.extends {mp : Nat} (free : FreeMountpoint s mp)
    (grown : Extends s s') : FreeMountpoint s' mp := by
  obtain ⟨node, live, isDir, unmounted⟩ := free.dir
  obtain ⟨node', live', -, type', -, mnt'⟩ := grown.node mp node live
  exact ⟨free.placed.extends grown, node', live', type'.trans isDir, mnt'.trans unmounted⟩

/-- A fresh parentless directory can be shown at a free mountpoint. -/
theorem FreeMountpoint.mountable {mp root : Nat} (free : FreeMountpoint s mp)
    (inv : FileInv s) (grown : Extends s s') (inv' : FileInv s') (le : s.nextNode ≤ root)
    {dir : VfsNode ω π} (rootLive : s'.nodes root = some dir) (isDir : dir.type = .dir)
    (top : dir.parent = none) (sops : Option Nat) (priv : Option π) :
    ∃ node, s'.nodes mp = some node ∧ Mountable s' node ⟨mp, root, sops, priv⟩ := by
  obtain ⟨before, wasLive, -⟩ := free.dir
  obtain ⟨node, live, mpDir, unmounted⟩ := (free.extends grown).dir
  have mpLt := inv.tree.lt mp before wasLive
  have older : ∀ m other, s'.mounts m = some other → other.root < root := by
    intro m other otherLive
    rw [grown.mounts] at otherLive
    obtain ⟨above, aboveLive, -⟩ := inv.links.root m other otherLive
    exact Nat.lt_of_lt_of_le (inv.tree.lt _ above aboveLive) le
  have rootUnmounted : dir.mnt = none := by
    cases mnt : dir.mnt with
    | none => rfl
    | some m =>
        obtain ⟨other, otherLive, same⟩ := inv'.links.mounted _ dir m rootLive mnt
        have lt := inv'.links.below m other otherLive
        have lt' := older m other otherLive
        omega
  refine ⟨node, live, live, mpDir, unmounted, (free.extends grown).placed,
    Nat.lt_of_lt_of_le mpLt le, older, ?_, dir, rootLive, isDir, top, rootUnmounted⟩
  intro id isRoot
  rw [grown.rootNode] at isRoot
  obtain ⟨above, aboveLive, -⟩ := inv.tree.root id isRoot
  exact Nat.lt_of_lt_of_le (inv.tree.lt _ above aboveLive) le

/-- A mount on the node took effect after some building. -/
def TakesEffect (s s' : Vfs ω π) (mp : Nat) : Prop :=
  ∃ s₁ node mount, Builds s s₁ ∧ mount.mountpoint = mp ∧ Mountable s₁ node mount ∧
    s' = s₁.mounted node mount

/-- `vfs_try_mount` only builds when it fails. -/
theorem vfsTryMount_cases (honest : code.Honest) (inv : FileInv s) {mp : Nat}
    (free : FreeMountpoint s mp) {type : FsType} {source : Option CStr}
    {data : Option π} {ret : Int}
    (done : vfsTryMount code s mp type source data = some (s', ret)) :
    ret ≠ 0 ∧ Builds s s' ∨ ret = 0 ∧ TakesEffect s s' mp := by
  unfold vfsTryMount at done
  have malloc : Builds s s.malloc.1 := .single (.malloc s)
  simp only at done
  split at done
  · obtain ⟨rfl, rfl⟩ := Prod.mk.inj (Option.some.inj done)
    exact Or.inl ⟨by decide, malloc⟩
  · obtain ⟨address, -, done⟩ := Option.bind_eq_some_iff.mp done
    obtain ⟨⟨s₁, setup, code'⟩, called, done⟩ := Option.bind_eq_some_iff.mp done
    obtain ⟨builds, fresh⟩ := honest.mount _ _ _ _ _ _ _ called
    have built : Builds s s₁ := malloc.trans builds
    obtain ⟨inv₁, grown⟩ := built.files inv
    simp only at done
    split at done
    · rename_i failed
      obtain ⟨rfl, rfl⟩ := Prod.mk.inj (Option.some.inj done)
      exact Or.inl ⟨failed, built⟩
    · cases root : setup.root with
      | none =>
          simp only [root, Option.pure_def, Option.some.injEq, Prod.mk.injEq] at done
          obtain ⟨rfl, rfl⟩ := done
          exact Or.inl ⟨by decide, built⟩
      | some root' =>
          obtain ⟨le, dir, rootLive, rootDir, top⟩ := fresh root' root
          obtain ⟨node, live, able⟩ := free.mountable inv grown inv₁ le rootLive rootDir
            top setup.sops setup.priv
          simp only [root, live, Option.bind_eq_bind, Option.bind_some, Option.pure_def,
            Option.some.injEq, Prod.mk.injEq] at done
          obtain ⟨rfl, rfl⟩ := done
          exact Or.inr ⟨rfl, s₁, node, _, built, rfl, able, rfl⟩

theorem TakesEffect.after {s₁ : Vfs ω π} {mp : Nat} (builds : Builds s s₁)
    (effect : TakesEffect s₁ s' mp) : TakesEffect s s' mp := by
  obtain ⟨s₂, node, mount, built, rest⟩ := effect
  exact ⟨s₂, node, mount, builds.trans built, rest⟩

/-- Trying the types one by one builds nodes only, until one is mounted. -/
theorem autoMount_cases (honest : code.Honest) {mp : Nat} {types : List FsType}
    {source : Option CStr} {data : Option π} {ret : Int} (inv : FileInv s)
    (free : FreeMountpoint s mp)
    (done : autoMount code mp source data types s = some (s', ret)) :
    Builds s s' ∨ TakesEffect s s' mp := by
  induction types generalizing s with
  | nil =>
      obtain ⟨rfl, -⟩ := Prod.mk.inj (Option.some.inj done)
      exact Or.inl .refl
  | cons type rest ih =>
      simp only [autoMount] at done
      split at done
      · exact ih inv free done
      · obtain ⟨⟨s₁, ret₁⟩, tried, done⟩ := Option.bind_eq_some_iff.mp done
        simp only at done
        rcases vfsTryMount_cases honest inv free tried with ⟨failed, builds⟩ | ⟨rfl, effect⟩
        · rw [if_neg failed] at done
          obtain ⟨inv₁, grown⟩ := builds.files inv
          rcases ih inv₁ (free.extends grown) done with builds' | effect
          · exact Or.inl (builds.trans builds')
          · exact Or.inr (effect.after builds)
        · obtain ⟨rfl, -⟩ := Prod.mk.inj (Option.some.inj done)
          exact Or.inr effect

/-- `vfs_mount` only builds, or a mount takes effect on a node that its lookup
leads to. -/
theorem vfsMount_cases (honest : code.Honest) (route : Route holds) (inv : FileInv s)
    {source target fstype : Option CStr} {data : Option π} {ret : Int}
    (done : vfsMount code s source target fstype data = some (s', ret)) :
    Builds s s' ∨ ∃ s₁ mp, Builds s s₁ ∧ holds s₁ mp ∧ TakesEffect s₁ s' mp := by
  unfold vfsMount at done
  split at done
  · obtain ⟨rfl, -⟩ := Prod.mk.inj (Option.some.inj done)
    exact Or.inl .refl
  · split at done
    · obtain ⟨rfl, -⟩ := Prod.mk.inj (Option.some.inj done)
      exact Or.inl .refl
    · rename_i valid
      obtain ⟨⟨s₁, found⟩, search, done⟩ := Option.bind_eq_some_iff.mp done
      have resolved :=
        vfsLookupNodeEx_resolved honest route inv (by simpa using valid) search
      have inv₁ := (resolved.builds.files inv).1
      cases found with
      | none =>
          obtain ⟨rfl, -⟩ := Prod.mk.inj (Option.some.inj done)
          exact Or.inl resolved.builds
      | some found =>
          obtain ⟨mp, inner⟩ := found
          obtain ⟨node, live, done⟩ := Option.bind_eq_some_iff.mp done
          split at done
          · obtain ⟨rfl, -⟩ := Prod.mk.inj (Option.some.inj done)
            exact Or.inl resolved.builds
          · split at done
            · obtain ⟨rfl, -⟩ := Prod.mk.inj (Option.some.inj done)
              exact Or.inl resolved.builds
            · rename_i isDir unmounted
              have free : FreeMountpoint s₁ mp :=
                ⟨resolved.placed mp inner rfl rfl, node, live, by simpa using isDir,
                  by simpa using unmounted⟩
              have way := resolved.way mp inner rfl
              split at done
              · split at done
                · obtain ⟨rfl, -⟩ := Prod.mk.inj (Option.some.inj done)
                  exact Or.inl resolved.builds
                · rcases vfsTryMount_cases honest inv₁ free done with
                    ⟨-, builds⟩ | ⟨-, effect⟩
                  · exact Or.inl (resolved.builds.trans builds)
                  · exact Or.inr ⟨s₁, mp, resolved.builds, way, effect⟩
              · rcases autoMount_cases honest inv₁ free done with builds | effect
                · exact Or.inl (resolved.builds.trans builds)
                · exact Or.inr ⟨s₁, mp, resolved.builds, way, effect⟩

end Zsbl.Common
