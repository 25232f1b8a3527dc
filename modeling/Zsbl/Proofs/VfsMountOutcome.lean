/-
Module: Zsbl.Proofs.VfsMountOutcome
Purpose: The first registered file system that accepts the source is mounted on
  an unmounted directory; in every other case vfs_mount changes nothing but what
  the lookup of its target adds.
Trusted boundary: none
Main exports:
  FsType.Accepts, MountedAs, FreeTarget, MountOutcome, vfsMount_outcome
-/
import Zsbl.Proofs.VfsFilled
import Zsbl.Proofs.VfsDescriptors

namespace Zsbl.Common

open Zsbl.Lib

variable {ω π : Type} {s s' t : Vfs ω π} {code : FsCode ω π} {contents : Contents ω π}

/-- The `mount` callback of the type accepts the source. -/
def FsType.Accepts (type : FsType) (code : FsCode ω π) (s : Vfs ω π) (source : Option CStr)
    (data : Option π) : Prop :=
  ∃ address, type.mount = some address ∧ code.Accepts s address source data

/-- The `mount` callback of the type has built a fresh tree, which is now shown
at the mountpoint. -/
def MountedAs (code : FsCode ω π) (s : Vfs ω π) (mp : Nat) (type : FsType)
    (source : Option CStr) (data : Option π) (s' : Vfs ω π) : Prop :=
  ∃ address t setup root node, type.mount = some address ∧
    code.mount address s source data = some (t, setup, 0) ∧ setup.root = some root ∧
    FreshTree s t root ∧ s.nodes mp = some node ∧
    s' = t.mounted node ⟨mp, root, setup.sops, setup.priv⟩

/-- Every registered file system has a `mount` callback. -/
def Vfs.Registered (s : Vfs ω π) : Prop := ∀ type ∈ s.fsTypes, type.mount.isSome

/-- A type is registered once, with its callback. -/
theorem vfsRegisterFilesystem_registered (registered : s.Registered) (type : Option FsType) :
    (vfsRegisterFilesystem s type).1.Registered := by
  unfold vfsRegisterFilesystem
  split
  · exact registered
  · split
    · split
      · exact registered
      · next mount _ =>
        intro other member
        rcases List.mem_cons.mp member with rfl | member
        · rw [mount]
          rfl
        · exact registered other member
    · exact registered

/-! ## One file system -/

/-- `vfs_alloc_dir_node` starts a fresh tree. -/
theorem vfsAllocDirNode_fresh (roomy : s.Roomy) (unused : s.Unused) {name : CStr}
    (valid : vfsNameValid name = true) :
    ∃ s', vfsAllocDirNode s name = (s', some s.nextNode) ∧ FreshTree s s' s.nextNode ∧
      Grown s s'
        (Function.update s.nodes s.nextNode (some (freshNode name .dir none none))) := by
  obtain ⟨s', allocated, grown⟩ := vfsAllocNode_roomy roomy name .dir none none
  have alloc : vfsAllocDirNode s name = (s', some s.nextNode) := by
    rw [vfsAllocDirNode, valid]
    exact allocated
  have builds : Builds s (vfsAllocDirNode s name).1 := .single (.allocDir s name)
  rw [alloc] at builds
  refine ⟨s', alloc, ⟨builds, Nat.le_refl _, ⟨freshNode name .dir none none, ?_, rfl, rfl⟩,
    ?_, ?_⟩, grown⟩
  · rw [grown.nodes, Function.update_self]
  · intro id node live
    have ne : id ≠ s.nextNode := by
      rintro rfl
      rw [unused _ (Nat.le_refl _)] at live
      cases live
    rw [grown.nodes, Function.update_of_ne ne, live]
  · intro id live
    by_cases eq : id = s.nextNode
    · subst eq
      exact Or.inr .self
    · rw [grown.nodes, Function.update_of_ne eq] at live
      exact Or.inl live

/-- `vfs_try_mount` shows the tree of a callback that accepts, and changes
nothing where it rejects. -/
theorem vfsTryMount_decides (decides : code.Decides) (roomy : s.Roomy) (unused : s.Unused)
    {mp : Nat} {node : VfsNode ω π} (live : s.nodes mp = some node) {type : FsType}
    (registered : type.mount.isSome) (source : Option CStr) (data : Option π) :
    (∃ ret, vfsTryMount code s mp type source data = some (s, ret) ∧ ret ≠ 0 ∧
      ¬type.Accepts code s source data) ∨
    ∃ s', vfsTryMount code s mp type source data = some (s', 0) ∧
      type.Accepts code s source data ∧ MountedAs code s mp type source data s' := by
  obtain ⟨address, isMount⟩ := Option.isSome_iff_exists.mp registered
  unfold vfsTryMount
  simp only [roomy.malloc, isMount, Option.bind_eq_bind, Option.bind_some]
  rcases decides address s source data roomy unused with
    ⟨setup, ret, called, failed⟩ | ⟨t, setup, root, called, isRoot, fresh⟩
  · left
    have rejects : ¬type.Accepts code s source data := by
      rintro ⟨address', isMount', t, setup', root, called', isRoot, -⟩
      obtain rfl := Option.some.inj (isMount.symm.trans isMount')
      obtain ⟨rfl, same⟩ := Prod.mk.inj (Option.some.inj (called.symm.trans called'))
      obtain ⟨rfl, rfl⟩ := Prod.mk.inj same
      rcases failed with nonzero | noRoot
      · exact nonzero rfl
      · rw [noRoot] at isRoot
        cases isRoot
    by_cases nonzero : ret = 0
    · subst nonzero
      have noRoot : setup.root = none := failed.resolve_left (fun ne => ne rfl)
      exact ⟨-EINVAL, by simp [called, noRoot], by decide, rejects⟩
    · exact ⟨ret, by simp [called, nonzero], nonzero, rejects⟩
  · right
    have node' : t.nodes mp = some node := fresh.kept mp node live
    refine ⟨t.mounted node ⟨mp, root, setup.sops, setup.priv⟩, ?_,
      ⟨address, isMount, t, setup, root, called, isRoot, fresh⟩,
      address, t, setup, root, node, isMount, called, isRoot, fresh, live, rfl⟩
    simp only [called, isRoot, node', Option.bind_some, ne_eq, not_true_eq_false, if_false]
    rfl

/-! ## The first that accepts -/

/-- Of the types in a list, this one is the first that lives on a block device
and accepts the source. -/
structure FirstAccepting (code : FsCode ω π) (s : Vfs ω π) (source : Option CStr)
    (data : Option π) (types : List FsType) (type : FsType) : Prop where
  accepts : type.requiresDev = true ∧ type.Accepts code s source data
  first : ∃ before after, types = before ++ type :: after ∧
    ∀ other ∈ before, other.requiresDev = true → ¬other.Accepts code s source data

/-- A type that rejects, or is not tried, is passed over. -/
theorem FirstAccepting.cons {types : List FsType} {source : Option CStr} {data : Option π}
    {type other : FsType} (first : FirstAccepting code s source data types type)
    (rejects : other.requiresDev = true → ¬other.Accepts code s source data) :
    FirstAccepting code s source data (other :: types) type where
  accepts := first.accepts
  first := by
    obtain ⟨before, after, rfl, earlier⟩ := first.first
    refine ⟨other :: before, after, rfl, fun earlierType member => ?_⟩
    rcases List.mem_cons.mp member with rfl | member
    · exact rejects
    · exact earlier earlierType member

/-- The loop of `vfs_mount` mounts the first type that accepts, or fails and
changes nothing. -/
theorem autoMount_decides (decides : code.Decides) (roomy : s.Roomy) (unused : s.Unused)
    {mp : Nat} {node : VfsNode ω π} (live : s.nodes mp = some node) {types : List FsType}
    (registered : ∀ type ∈ types, type.mount.isSome) (source : Option CStr) (data : Option π) :
    (autoMount code mp source data types s = some (s, -ENODEV) ∧
      ∀ type ∈ types, type.requiresDev = true → ¬type.Accepts code s source data) ∨
    ∃ type s', autoMount code mp source data types s = some (s', 0) ∧
      FirstAccepting code s source data types type ∧ MountedAs code s mp type source data s' := by
  induction types with
  | nil => exact Or.inl ⟨rfl, by simp⟩
  | cons type types ih =>
      have rest := ih fun other member => registered other (List.mem_cons_of_mem _ member)
      -- a type that is not tried or rejects leaves the loop in the same state
      have skip (rejects : type.requiresDev = true → ¬type.Accepts code s source data)
          (goesOn : autoMount code mp source data (type :: types) s =
            autoMount code mp source data types s) :
          (autoMount code mp source data (type :: types) s = some (s, -ENODEV) ∧
            ∀ other ∈ type :: types, other.requiresDev = true →
              ¬other.Accepts code s source data) ∨
          ∃ other s', autoMount code mp source data (type :: types) s = some (s', 0) ∧
            FirstAccepting code s source data (type :: types) other ∧
            MountedAs code s mp other source data s' := by
        rw [goesOn]
        rcases rest with ⟨failed, nobody⟩ | ⟨other, s', done, first, mounted⟩
        · refine Or.inl ⟨failed, fun other member => ?_⟩
          rcases List.mem_cons.mp member with rfl | member
          · exact rejects
          · exact nobody other member
        · exact Or.inr ⟨other, s', done, first.cons rejects, mounted⟩
      by_cases device : type.requiresDev = true
      · rcases vfsTryMount_decides decides roomy unused live
            (registered type List.mem_cons_self) source data with
          ⟨ret, tried, failed, rejects⟩ | ⟨s', tried, accepts, mounted⟩
        · exact skip (fun _ => rejects) (by simp [autoMount, device, tried, failed])
        · refine Or.inr ⟨type, s', by simp [autoMount, device, tried], ⟨⟨device, accepts⟩, ?_⟩,
            mounted⟩
          exact ⟨[], types, rfl, by simp⟩
      · exact skip (fun is => absurd is device) (by simp [autoMount, device])

/-! ## Mounting on a target -/

/-- The target leads to a directory on which nothing is mounted. -/
structure FreeTarget (code : FsCode ω π) (s : Vfs ω π) (target : Option CStr) (s₁ : Vfs ω π)
    (mp : Nat) : Prop where
  found : ∃ path inner, target = some path ∧ vfsIsPathValid path = true ∧
    vfsLookupNodeEx code s path false = some (s₁, some (mp, inner))
  free : ∃ node, s₁.nodes mp = some node ∧ node.type = .dir ∧ node.mnt = none

/-- What the lookup of the target leaves. -/
def TargetResolved (code : FsCode ω π) (s : Vfs ω π) (target : Option CStr) (s' : Vfs ω π) :
    Prop :=
  s' = s ∨ ∃ path found, target = some path ∧ vfsLookupNodeEx code s path false = some (s', found)

theorem FreeTarget.unique {target : Option CStr} {s₁ s₂ : Vfs ω π} {mp mp' : Nat}
    (free : FreeTarget code s target s₁ mp) (free' : FreeTarget code s target s₂ mp') :
    s₂ = s₁ ∧ mp' = mp := by
  obtain ⟨path, inner, rfl, -, found⟩ := free.found
  obtain ⟨path', inner', same, -, found'⟩ := free'.found
  obtain rfl := Option.some.inj same
  obtain ⟨rfl, position⟩ := Prod.mk.inj (Option.some.inj (found.symm.trans found'))
  exact ⟨rfl, (Prod.mk.inj (Option.some.inj position)).1.symm⟩

/-- What `vfs_mount` does up to the choice of the file system. -/
theorem vfsMount_target (materialises : code.Materialises) (ns : Namespace s) (roomy : s.Roomy)
    (source target fstype : Option CStr) (data : Option π) :
    (∃ s' ret, vfsMount code s source target fstype data = some (s', ret) ∧ ret ≠ 0 ∧
      Builds s s' ∧ TargetResolved code s target s' ∧ ∀ s₁ mp, ¬FreeTarget code s target s₁ mp) ∨
    ∃ s₁ mp, Builds s s₁ ∧ TargetResolved code s target s₁ ∧ FreeTarget code s target s₁ mp ∧
      vfsMount code s source target fstype data =
        match fstype with
        | some fstype =>
            match vfsFindFilesystem s₁ fstype with
            | none => some (s₁, -ENODEV)
            | some type => vfsTryMount code s₁ mp type source data
        | none => autoMount code mp source data s₁.fsTypes s₁ := by
  cases target with
  | none =>
      left
      refine ⟨s, -EINVAL, rfl, by decide, .refl, Or.inl rfl, fun s₁ mp free => ?_⟩
      obtain ⟨path, -, same, -⟩ := free.found
      cases same
  | some path =>
      by_cases absolute : vfsIsPathValid path = true
      · have search := vfsLookupNodeEx_eq materialises ns roomy absolute false
        obtain ⟨builds, position⟩ := resolveEx_spec materialises ns roomy false path
        generalize resolveEx code false s path = result at search builds position
        obtain ⟨s₁, found⟩ := result
        have resolved : TargetResolved code s (some path) s₁ :=
          Or.inr ⟨path, found, rfl, search⟩
        have only {t : Vfs ω π} {mp : Nat} (free : FreeTarget code s (some path) t mp) :
            t = s₁ ∧ ∃ inner, found = some (mp, inner) := by
          obtain ⟨path', inner, same, -, search'⟩ := free.found
          obtain rfl := Option.some.inj same
          obtain ⟨rfl, isFound⟩ := Prod.mk.inj (Option.some.inj (search.symm.trans search'))
          exact ⟨rfl, inner, isFound⟩
        cases found with
        | none =>
            left
            refine ⟨s₁, -ENOENT, by simp [vfsMount, absolute, search], by decide, builds, resolved,
              fun t mp free => ?_⟩
            obtain ⟨-, inner, same⟩ := only free
            cases same
        | some found =>
            obtain ⟨mp, inner⟩ := found
            obtain ⟨node, live⟩ := Option.isSome_iff_exists.mp (position _ rfl).node
            simp only at live
            have onlyNode {t : Vfs ω π} {mp' : Nat} (free : FreeTarget code s (some path) t mp') :
                node.type = .dir ∧ node.mnt = none := by
              obtain ⟨rfl, inner', same⟩ := only free
              obtain ⟨rfl, -⟩ := Prod.mk.inj (Option.some.inj same)
              obtain ⟨node', live', isDir, unmounted⟩ := free.free
              obtain rfl := Option.some.inj (live.symm.trans live')
              exact ⟨isDir, unmounted⟩
            by_cases isDir : node.type = .dir
            · by_cases unmounted : node.mnt = none
              · right
                refine ⟨s₁, mp, builds, resolved, ⟨⟨path, inner, rfl, absolute, search⟩, node, live,
                  isDir, unmounted⟩, ?_⟩
                simp only [vfsMount, absolute, Bool.not_true, Bool.false_eq_true, if_false, search,
                  Option.bind_eq_bind, Option.bind_some, live, isDir, unmounted, ne_eq,
                  not_true_eq_false, Option.isSome_none]
                cases fstype with
                | none => rfl
                | some fstype => cases vfsFindFilesystem s₁ fstype <;> rfl
              · left
                refine ⟨s₁, -EBUSY, ?_, by decide, builds, resolved,
                  fun t mp' free => unmounted (onlyNode free).2⟩
                simp [vfsMount, absolute, search, live, isDir,
                  Option.isSome_iff_ne_none.mpr unmounted]
            · left
              refine ⟨s₁, -ENOTDIR, ?_, by decide, builds, resolved,
                fun t mp' free => isDir (onlyNode free).1⟩
              simp [vfsMount, absolute, search, live, isDir]
      · left
        refine ⟨s, -EINVAL, by simp [vfsMount, absolute], by decide, .refl, Or.inl rfl,
          fun s₁ mp free => ?_⟩
        obtain ⟨path', -, same, valid, -⟩ := free.found
        obtain rfl := Option.some.inj same
        exact absolute valid

/-! ## The outcome -/

/-- What `vfs_mount` does with a target when it is not told the type: it
mounts the first type that accepts the source and fails when there is none; a
failed call, also with a type, leaves what the lookup of the target leaves;
and types that do not live on a block device are not called, whatever is at
their addresses. -/
structure MountOutcome (code : FsCode ω π) (s : Vfs ω π) (source target : Option CStr)
    (data : Option π) : Prop where
  detects : ∃ s' ret, vfsMount code s source target none data = some (s', ret) ∧
    (ret = 0 ↔ ∃ s₁ mp, FreeTarget code s target s₁ mp ∧
      ∃ type ∈ s.fsTypes, type.requiresDev = true ∧ type.Accepts code s₁ source data) ∧
    (ret = 0 → ∃ s₁ mp type, FreeTarget code s target s₁ mp ∧
      FirstAccepting code s₁ source data s.fsTypes type ∧
      MountedAs code s₁ mp type source data s')
  fails : ∀ fstype s' ret, vfsMount code s source target fstype data = some (s', ret) →
    ret ≠ 0 → TargetResolved code s target s' ∧ OnlyNewNodes s s'
  uncalled : ∀ other : FsCode ω π, other.lookup = code.lookup →
    (∀ type ∈ s.fsTypes, type.requiresDev = true → ∀ address, type.mount = some address →
      other.mount address = code.mount address) →
    vfsMount other s source target none data = vfsMount code s source target none data

/-- Without a type the first one that accepts is mounted. -/
theorem vfsMount_detects (materialises : code.Materialises) (decides : code.Decides)
    (ns : Namespace s) (roomy : s.Roomy) (registered : s.Registered)
    (source target : Option CStr) (data : Option π) :
    ∃ s' ret, vfsMount code s source target none data = some (s', ret) ∧
      (ret = 0 ↔ ∃ s₁ mp, FreeTarget code s target s₁ mp ∧
        ∃ type ∈ s.fsTypes, type.requiresDev = true ∧ type.Accepts code s₁ source data) ∧
      (ret = 0 → ∃ s₁ mp type, FreeTarget code s target s₁ mp ∧
        FirstAccepting code s₁ source data s.fsTypes type ∧
        MountedAs code s₁ mp type source data s') := by
  rcases vfsMount_target materialises ns roomy source target none data with
    ⟨s', ret, done, failed, -, -, nowhere⟩ | ⟨s₁, mp, builds, -, free, done⟩
  · refine ⟨s', ret, done, ⟨fun zero => absurd zero failed, ?_⟩, fun zero => absurd zero failed⟩
    rintro ⟨s₁, mp, free, -⟩
    exact absurd free (nowhere s₁ mp)
  · have types : s₁.fsTypes = s.fsTypes := builds.tables.fsTypes
    rw [types] at done
    obtain ⟨node, live, -⟩ := free.free
    rcases autoMount_decides decides (builds.roomy ns.tree roomy)
        (builds.tree ns.tree).1.unused live registered source data with
      ⟨failed, nobody⟩ | ⟨type, s', mounts, first, mounted⟩
    · refine ⟨s₁, -ENODEV, done.trans failed, ⟨fun zero => absurd zero (by decide), ?_⟩,
        fun zero => absurd zero (by decide)⟩
      rintro ⟨s₂, mp', free', type, member, device, accepts⟩
      obtain ⟨rfl, -⟩ := free.unique free'
      exact absurd accepts (nobody type member device)
    · obtain ⟨before, after, split, -⟩ := first.first
      have member : type ∈ s.fsTypes := by
        rw [split]
        exact List.mem_append_right _ List.mem_cons_self
      exact ⟨s', 0, done.trans mounts,
        ⟨fun _ => ⟨s₁, mp, free, type, member, first.accepts⟩, fun _ => rfl⟩,
        fun _ => ⟨s₁, mp, type, free, first, mounted⟩⟩

/-- A mount that fails leaves nothing but what the lookup of its target created. -/
theorem vfsMount_fails (materialises : code.Materialises) (decides : code.Decides)
    (ns : Namespace s) (roomy : s.Roomy) (registered : s.Registered)
    {source target fstype : Option CStr} {data : Option π} {ret : Int}
    (done : vfsMount code s source target fstype data = some (s', ret)) (failed : ret ≠ 0) :
    TargetResolved code s target s' ∧ OnlyNewNodes s s' := by
  rcases vfsMount_target materialises ns roomy source target fstype data with
    ⟨t, ret', done', -, builds, resolved, -⟩ | ⟨s₁, mp, builds, resolved, free, done'⟩
  · obtain ⟨rfl, -⟩ := Prod.mk.inj (Option.some.inj (done.symm.trans done'))
    exact ⟨resolved, builds.onlyNewNodes ns.tree⟩
  · -- a file system that does not accept leaves the state
    have same : s' = s₁ := by
      obtain ⟨node, live, -⟩ := free.free
      have roomy₁ := builds.roomy ns.tree roomy
      have unused := (builds.tree ns.tree).1.unused
      have types : s₁.fsTypes = s.fsTypes := builds.tables.fsTypes
      rw [done'] at done
      cases fstype with
      | none =>
          simp only [types] at done
          rcases autoMount_decides decides roomy₁ unused live registered source data with
            ⟨tried, -⟩ | ⟨type, t, tried, -⟩
          · exact (Prod.mk.inj (Option.some.inj (done.symm.trans tried))).1
          · obtain ⟨-, zero⟩ := Prod.mk.inj (Option.some.inj (done.symm.trans tried))
            exact absurd zero failed
      | some fstype =>
          simp only at done
          cases found : vfsFindFilesystem s₁ fstype with
          | none =>
              rw [found] at done
              exact (Prod.mk.inj (Option.some.inj done)).1.symm
          | some type =>
              rw [found] at done
              have member : type ∈ s.fsTypes := types ▸ List.mem_of_find?_eq_some found
              rcases vfsTryMount_decides decides roomy₁ unused live (registered type member)
                  source data with ⟨ret', tried, -⟩ | ⟨t, tried, -⟩
              · exact (Prod.mk.inj (Option.some.inj (done.symm.trans tried))).1
              · obtain ⟨-, zero⟩ := Prod.mk.inj (Option.some.inj (done.symm.trans tried))
                exact absurd zero failed
    subst same
    exact ⟨resolved, builds.onlyNewNodes ns.tree⟩

/-! ## What is not called -/

/-- The lookup calls no `mount` callback. -/
theorem vfsLookupNodeEx_congr {other : FsCode ω π} (same : other.lookup = code.lookup)
    (s : Vfs ω π) (path : CStr) (followLast : Bool) :
    vfsLookupNodeEx other s path followLast = vfsLookupNodeEx code s path followLast := by
  have segment : lookupSegment other = lookupSegment code := by
    funext s mnt cur seg
    simp only [lookupSegment, lookupOnDemand, same]
  have loop (fuel : Nat) (s : Vfs ω π) (cur : Nat) (mnt : Option Nat) (cursor : CStr) :
      lookupFrom other followLast fuel s cur mnt cursor =
        lookupFrom code followLast fuel s cur mnt cursor := by
    induction fuel generalizing s cur mnt cursor with
    | zero => cases cursor <;> rfl
    | succ fuel ih =>
        cases cursor with
        | nil => rfl
        | cons char cursor => simp only [lookupFrom, segment, ih]
  simp only [vfsLookupNodeEx, loop]

/-- The loop of `vfs_mount` depends on the callbacks of types that live on a
block device only. -/
theorem autoMount_congr {other : FsCode ω π} {types : List FsType}
    (same : ∀ type ∈ types, type.requiresDev = true → ∀ address, type.mount = some address →
      other.mount address = code.mount address) (mp : Nat) (source : Option CStr)
    (data : Option π) (s : Vfs ω π) :
    autoMount other mp source data types s = autoMount code mp source data types s := by
  induction types generalizing s with
  | nil => rfl
  | cons type types ih =>
      have rest := ih fun type member => same type (List.mem_cons_of_mem _ member)
      simp only [autoMount, rest]
      by_cases device : type.requiresDev = true
      · have tried : vfsTryMount other s mp type source data =
            vfsTryMount code s mp type source data := by
          unfold vfsTryMount
          cases isMount : type.mount with
          | none => rfl
          | some address => simp only [same type List.mem_cons_self device address isMount,
              Option.bind_eq_bind, Option.bind_some]
        rw [tried]
      · simp [device]

/-- Types that are not tried do not matter. -/
theorem vfsMount_uncalled {other : FsCode ω π} (materialises : code.Materialises)
    (ns : Namespace s) (roomy : s.Roomy) (sameLookup : other.lookup = code.lookup)
    (same : ∀ type ∈ s.fsTypes, type.requiresDev = true → ∀ address, type.mount = some address →
      other.mount address = code.mount address) (source target : Option CStr)
    (data : Option π) :
    vfsMount other s source target none data = vfsMount code s source target none data := by
  cases target with
  | none => rfl
  | some path =>
      simp only [vfsMount, vfsLookupNodeEx_congr sameLookup]
      by_cases absolute : vfsIsPathValid path = true
      · have search := vfsLookupNodeEx_eq materialises ns roomy absolute false
        have builds := (resolveEx_spec materialises ns roomy false path).1
        generalize resolveEx code false s path = result at search builds
        obtain ⟨s₁, found⟩ := result
        have types : s₁.fsTypes = s.fsTypes := builds.tables.fsTypes
        cases found with
        | none => simp [search]
        | some found => simp only [search, Option.bind_eq_bind, Option.bind_some, types,
            autoMount_congr same]
      · simp [absolute]

theorem vfsMount_outcome (materialises : code.Materialises) (decides : code.Decides)
    (ns : Namespace s) (roomy : s.Roomy) (registered : s.Registered)
    (source target : Option CStr) (data : Option π) : MountOutcome code s source target data where
  detects := vfsMount_detects materialises decides ns roomy registered source target data
  fails _ _ _ := vfsMount_fails materialises decides ns roomy registered
  uncalled _ sameLookup same :=
    vfsMount_uncalled materialises ns roomy sameLookup same source target data

end Zsbl.Common
