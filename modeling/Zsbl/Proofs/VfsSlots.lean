/-
Module: Zsbl.Proofs.VfsSlots
Purpose: File systems that keep a slot for every source that they are tried on, and what
  vfs_mount does while slots are left.
Trusted boundary: none
Main exports:
  FsCode.Spends, Recognises, Recognises.autoMount, FsCode.mute, FsCode.Exhausts
-/
import Zsbl.Proofs.VfsMountOutcome

namespace Zsbl.Common

open Zsbl.Lib

variable {ω π : Type} {s s' : Vfs ω π} {code : FsCode ω π} {contents : Contents ω π}
  {types : List FsType} {slots : ω → Nat} {takes : Nat → π → Bool} {accepted : π → Bool}

/-! ## Calls that leave the media and the drivers alone -/

/-- Making the missing directories leaves mounts, files and file systems alone. -/
theorem mkdirPFrom_nodesOnly {fuel cur : Nat} {p : CStr} {found : Option Nat}
    (done : mkdirPFrom fuel s cur p = some (s', found)) : NodesOnly s s' := by
  induction fuel generalizing s cur p with
  | zero =>
      cases p with
      | nil =>
          obtain ⟨rfl, -⟩ := Prod.mk.inj (Option.some.inj done)
          exact .refl s
      | cons _ _ => cases done
  | succ fuel ih =>
      cases p with
      | nil =>
          obtain ⟨rfl, -⟩ := Prod.mk.inj (Option.some.inj done)
          exact .refl s
      | cons first p =>
          simp only [mkdirPFrom] at done
          split at done
          · obtain ⟨rfl, -⟩ := Prod.mk.inj (Option.some.inj done)
            exact .refl s
          · split at done
            · obtain ⟨rfl, -⟩ := Prod.mk.inj (Option.some.inj done)
              exact .malloc s
            · obtain ⟨child, -, done⟩ := Option.bind_eq_some_iff.mp done
              cases child with
              | some next =>
                  obtain ⟨node, -, done⟩ := Option.bind_eq_some_iff.mp done
                  split at done
                  · obtain ⟨rfl, -⟩ := Prod.mk.inj (Option.some.inj done)
                    exact .malloc s
                  · exact (NodesOnly.malloc s).trans (ih done)
              | none =>
                  obtain ⟨⟨s₂, created⟩, made, done⟩ := Option.bind_eq_some_iff.mp done
                  have built := (NodesOnly.malloc s).trans (vfsCreateNode_nodesOnly made)
                  cases created with
                  | none =>
                      obtain ⟨rfl, -⟩ := Prod.mk.inj (Option.some.inj done)
                      exact built
                  | some next => exact built.trans (ih done)

/-- Making a path leaves mounts, files and file systems alone. -/
theorem vfsMkdirP_nodesOnly {path : Option CStr} {found : Option Nat}
    (done : vfsMkdirP s path = some (s', found)) : NodesOnly s s' := by
  unfold vfsMkdirP at done
  split at done
  · obtain ⟨rfl, -⟩ := Prod.mk.inj (Option.some.inj done)
    exact .refl s
  · split at done
    · obtain ⟨rfl, -⟩ := Prod.mk.inj (Option.some.inj done)
      exact .refl s
    · split at done
      · obtain ⟨rfl, -⟩ := Prod.mk.inj (Option.some.inj done)
        exact .refl s
      · exact mkdirPFrom_nodesOnly done

/-- Unlinking a node leaves mounts, files and file systems alone. -/
theorem vfsUnlink_nodesOnly {parent : Option Nat} {name : CStr} {ret : Int}
    (done : vfsUnlink s parent name = some (s', ret)) : NodesOnly s s' := by
  have stays {t : Vfs ω π} {ret' : Int} (same : some (t, ret') = some (s', ret))
      (only : NodesOnly s t) : NodesOnly s s' := by
    obtain ⟨rfl, -⟩ := Prod.mk.inj (Option.some.inj same)
    exact only
  unfold vfsUnlink at done
  split at done
  · exact stays done (.refl s)
  · split at done
    · exact stays done (.refl s)
    · obtain ⟨dir, -, done⟩ := Option.bind_eq_some_iff.mp done
      split at done
      · exact stays done (.refl s)
      · obtain ⟨child, -, done⟩ := Option.bind_eq_some_iff.mp done
        split at done
        · exact stays done (.refl s)
        · obtain ⟨node, -, done⟩ := Option.bind_eq_some_iff.mp done
          split at done
          · exact stays done (.refl s)
          · split at done
            · exact stays done (.refl s)
            · split at done
              · exact stays done (.refl s)
              · obtain ⟨above, -, done⟩ := Option.bind_eq_some_iff.mp done
                obtain ⟨⟨found, prev⟩, -, done⟩ := Option.bind_eq_some_iff.mp done
                simp only at done
                split at done
                · exact stays done (.refl s)
                · split at done
                  · obtain ⟨before, -, done⟩ := Option.bind_eq_some_iff.mp done
                    exact stays done ⟨_, _, _, rfl⟩
                  · exact stays done ⟨_, _, _, rfl⟩

/-! ## Slots -/

/-- The address of the `mount` callback of a type that lives on a block device. -/
def Tried (types : List FsType) (address : Nat) : Prop :=
  ∃ type ∈ types, type.requiresDev = true ∧ type.mount = some address

/-- No lookup takes a slot, and trying a type takes one at most. -/
structure FsCode.Spends (code : FsCode ω π) (types : List FsType) (slots : ω → Nat) : Prop where
  lookup : ∀ address lookup s mount dir name s' found, code.lookup address = some lookup →
    lookup s mount dir name = some (s', found) → slots s'.world = slots s.world
  mount : ∀ address s source data s' setup ret, Tried types address →
    code.mount address s source data = some (s', setup, ret) →
    slots s.world ≤ slots s'.world + 1

/-- Looking up a name takes no slot. -/
theorem FsCode.Spends.lookupSegment (spends : code.Spends types slots) {mnt found : Option Nat}
    {cur : Nat} {seg : CStr} (done : lookupSegment code s mnt cur seg = some (s', found)) :
    slots s'.world = slots s.world := by
  obtain ⟨child, -, done⟩ := Option.bind_eq_some_iff.mp done
  cases child with
  | some child =>
      obtain ⟨rfl, -⟩ := Prod.mk.inj (Option.some.inj done)
      rfl
  | none =>
      cases mnt with
      | none =>
          obtain ⟨rfl, -⟩ := Prod.mk.inj (Option.some.inj done)
          rfl
      | some mnt =>
          obtain ⟨mount, -, done⟩ := Option.bind_eq_some_iff.mp done
          cases sops : mount.sops.bind code.lookup with
          | none =>
              simp only [sops] at done
              obtain ⟨rfl, -⟩ := Prod.mk.inj (Option.some.inj done)
              rfl
          | some lookup =>
              simp only [sops] at done
              obtain ⟨address, -, isLookup⟩ := Option.bind_eq_some_iff.mp sops
              exact spends.lookup address lookup _ _ _ _ _ _ isLookup done

/-- Looking up the names one by one takes no slot. -/
theorem FsCode.Spends.lookupFrom (spends : code.Spends types slots) {followLast : Bool}
    {fuel cur : Nat} {mnt : Option Nat} {cursor : CStr} {found : Option (Nat × Option Nat)}
    (done : lookupFrom code followLast fuel s cur mnt cursor = some (s', found)) :
    slots s'.world = slots s.world := by
  induction fuel generalizing s cur mnt cursor with
  | zero =>
      cases cursor with
      | nil =>
          obtain ⟨rfl, -⟩ := Prod.mk.inj (Option.some.inj done)
          rfl
      | cons _ _ => cases done
  | succ fuel ih =>
      cases cursor with
      | nil =>
          obtain ⟨rfl, -⟩ := Prod.mk.inj (Option.some.inj done)
          rfl
      | cons first cursor =>
          simp only [Zsbl.Common.lookupFrom] at done
          split at done
          · obtain ⟨rfl, -⟩ := Prod.mk.inj (Option.some.inj done)
            rfl
          · split at done
            · obtain ⟨rfl, -⟩ := Prod.mk.inj (Option.some.inj done)
              rfl
            · obtain ⟨⟨s₁, next⟩, segment, done⟩ := Option.bind_eq_some_iff.mp done
              have same : slots s₁.world = slots s.malloc.1.world := spends.lookupSegment segment
              cases next with
              | none =>
                  obtain ⟨rfl, -⟩ := Prod.mk.inj (Option.some.inj done)
                  exact same
              | some next =>
                  simp only at done
                  split at done
                  · split at done
                    · obtain ⟨last, -, done⟩ := Option.bind_eq_some_iff.mp done
                      obtain ⟨rfl, -⟩ := Prod.mk.inj (Option.some.inj done)
                      exact same
                    · obtain ⟨rfl, -⟩ := Prod.mk.inj (Option.some.inj done)
                      exact same
                  · obtain ⟨⟨cur', mnt'⟩, -, done⟩ := Option.bind_eq_some_iff.mp done
                    exact (ih done).trans same

/-- Looking up a path takes no slot. -/
theorem FsCode.Spends.vfsLookupNodeEx (spends : code.Spends types slots) {path : CStr}
    {followLast : Bool} {found : Option (Nat × Option Nat)}
    (done : vfsLookupNodeEx code s path followLast = some (s', found)) :
    slots s'.world = slots s.world := by
  unfold Zsbl.Common.vfsLookupNodeEx at done
  split at done
  · obtain ⟨rfl, -⟩ := Prod.mk.inj (Option.some.inj done)
    rfl
  · split at done
    · split at done
      · obtain ⟨last, -, done⟩ := Option.bind_eq_some_iff.mp done
        obtain ⟨rfl, -⟩ := Prod.mk.inj (Option.some.inj done)
        rfl
      · obtain ⟨rfl, -⟩ := Prod.mk.inj (Option.some.inj done)
        rfl
    · obtain ⟨⟨cur, mnt⟩, -, done⟩ := Option.bind_eq_some_iff.mp done
      exact spends.lookupFrom done

/-- Trying a type takes one slot at most. -/
theorem FsCode.Spends.vfsTryMount (spends : code.Spends types slots) {mp : Nat} {type : FsType}
    (member : type ∈ types) (device : type.requiresDev = true) {source : Option CStr}
    {data : Option π} {ret : Int}
    (done : vfsTryMount code s mp type source data = some (s', ret)) :
    slots s.world ≤ slots s'.world + 1 := by
  unfold Zsbl.Common.vfsTryMount at done
  simp only at done
  split at done
  · obtain ⟨rfl, -⟩ := Prod.mk.inj (Option.some.inj done)
    exact Nat.le_succ _
  · obtain ⟨address, isMount, done⟩ := Option.bind_eq_some_iff.mp done
    obtain ⟨⟨s₁, setup, ret'⟩, called, done⟩ := Option.bind_eq_some_iff.mp done
    have spent : slots s.world ≤ slots s₁.world + 1 :=
      spends.mount address s.malloc.1 source data s₁ setup ret' ⟨type, member, device, isMount⟩
        called
    simp only at done
    split at done
    · obtain ⟨rfl, -⟩ := Prod.mk.inj (Option.some.inj done)
      exact spent
    · cases root : setup.root with
      | none =>
          simp only [root, Option.pure_def, Option.some.injEq, Prod.mk.injEq] at done
          obtain ⟨rfl, -⟩ := done
          exact spent
      | some root' =>
          simp only [root] at done
          obtain ⟨node, -, done⟩ := Option.bind_eq_some_iff.mp done
          obtain ⟨rfl, -⟩ := Prod.mk.inj (Option.some.inj done)
          exact spent

/-- How many of the types `vfs_mount` tries when it is not told one. -/
def devTypes (types : List FsType) : Nat := types.countP FsType.requiresDev

theorem devTypes_device {type : FsType} (device : type.requiresDev = true) :
    devTypes (type :: types) = devTypes types + 1 :=
  List.countP_cons_of_pos device

theorem devTypes_other {type : FsType} (device : type.requiresDev ≠ true) :
    devTypes (type :: types) = devTypes types :=
  List.countP_cons_of_neg device

/-- Trying the types takes one slot at most for each that needs a device. -/
theorem FsCode.Spends.autoMount (spends : code.Spends types slots) {mp : Nat} {source : Option CStr}
    {data : Option π} {ret : Int} {tried : List FsType} (sub : tried ⊆ types)
    (done : autoMount code mp source data tried s = some (s', ret)) :
    slots s.world ≤ slots s'.world + devTypes tried := by
  induction tried generalizing s with
  | nil =>
      obtain ⟨rfl, -⟩ := Prod.mk.inj (Option.some.inj done)
      exact Nat.le_add_right _ _
  | cons type tried ih =>
      obtain ⟨member, sub⟩ := List.cons_subset.mp sub
      simp only [Zsbl.Common.autoMount] at done
      by_cases device : type.requiresDev = true
      · rw [if_neg (by simp [device])] at done
        obtain ⟨⟨s₁, ret₁⟩, taken, done⟩ := Option.bind_eq_some_iff.mp done
        have spent := spends.vfsTryMount member device taken
        rw [devTypes_device device]
        simp only at done
        split at done
        · obtain ⟨rfl, -⟩ := Prod.mk.inj (Option.some.inj done)
          omega
        · have rest := ih sub done
          omega
      · rw [if_pos (by simp [device])] at done
        rw [devTypes_other device]
        exact ih sub done

/-! ## What is recognised -/

/-- The type takes the source. -/
def FsType.Takes (type : FsType) (takes : Nat → π → Bool) (data : π) : Prop :=
  type.requiresDev = true ∧ ∃ address, type.mount = some address ∧ takes address data = true

/-- Registered file systems that recognise these sources: with a slot left a `mount` callback
mounts what it takes, and of any other source it leaves nothing but what the media and the
drivers have kept. -/
structure Recognises (code : FsCode ω π) (contents : Contents ω π) (types : List FsType)
    (slots : ω → Nat) (takes : Nat → π → Bool) (accepted : π → Bool) : Prop where
  serves : code.Serves contents
  spends : code.Spends types slots
  registered : ∀ type ∈ types, type.mount.isSome
  mounts : ∀ address s data, Tried types address → s.Roomy → s.Unused → 0 < slots s.world →
    takes address data = true → code.Accepts s address none (some data)
  refuses : ∀ address s data, Tried types address → s.Roomy → s.Unused → 0 < slots s.world →
    takes address data = false → ∃ world setup ret,
      code.mount address s none (some data) = some ({ s with world := world }, setup, ret) ∧
        (ret ≠ 0 ∨ setup.root = none)
  accepts : ∀ data, accepted data = true ↔ ∃ type ∈ types, type.Takes takes data

/-- With a slot left, a type mounts the source that it takes, and refuses any other. -/
theorem Recognises.vfsTryMount (known : Recognises code contents types slots takes accepted)
    (roomy : s.Roomy) (unused : s.Unused) (left : 0 < slots s.world) {mp : Nat}
    {node : VfsNode ω π} (live : s.nodes mp = some node) {type : FsType}
    (member : type ∈ types) (device : type.requiresDev = true) (data : π) :
    (¬type.Takes takes data ∧ ∃ world ret,
      vfsTryMount code s mp type none (some data) = some ({ s with world := world }, ret) ∧
        ret ≠ 0) ∨
    (type.Takes takes data ∧ ∃ s', vfsTryMount code s mp type none (some data) = some (s', 0) ∧
      MountedAs code s mp type none (some data) s') := by
  obtain ⟨address, isMount⟩ := Option.isSome_iff_exists.mp (known.registered type member)
  have tried : Tried types address := ⟨type, member, device, isMount⟩
  unfold Zsbl.Common.vfsTryMount
  simp only [roomy.malloc, isMount, Option.bind_eq_bind, Option.bind_some]
  cases taken : takes address data with
  | false =>
      left
      obtain ⟨world, setup, ret, called, failed⟩ :=
        known.refuses address s data tried roomy unused left taken
      refine ⟨?_, world, if ret = 0 then -EINVAL else ret, ?_, ?_⟩
      · rintro ⟨-, address', isMount', takes'⟩
        obtain rfl := Option.some.inj (isMount.symm.trans isMount')
        rw [taken] at takes'
        cases takes'
      · by_cases zero : ret = 0
        · have noRoot := failed.resolve_left (not_not.mpr zero)
          simp [called, zero, noRoot]
        · simp [called, zero]
      · split
        · decide
        · assumption
  | true =>
      right
      obtain ⟨t, setup, root, called, isRoot, fresh⟩ :=
        known.mounts address s data tried roomy unused left taken
      have node' : t.nodes mp = some node := fresh.kept mp node live
      refine ⟨⟨device, address, isMount, taken⟩,
        t.mounted node ⟨mp, root, setup.sops, setup.priv⟩, ?_,
        address, t, setup, root, node, isMount, called, isRoot, fresh, live, rfl⟩
      simp only [called, isRoot, node', Option.bind_some, ne_eq, not_true_eq_false, if_false]
      rfl

/-- The loop of `vfs_mount` mounts a source that is recognised, while slots are left; another
one changes nothing but what the media and the drivers keep. -/
theorem Recognises.autoMount (known : Recognises code contents types slots takes accepted)
    (roomy : s.Roomy) (unused : s.Unused) {mp : Nat} {node : VfsNode ω π}
    (live : s.nodes mp = some node) {tried : List FsType} (sub : tried ⊆ types)
    (left : devTypes tried ≤ slots s.world) (data : π) :
    ((∀ type ∈ tried, ¬type.Takes takes data) ∧ ∃ world,
      autoMount code mp none (some data) tried s = some ({ s with world := world }, -ENODEV)) ∨
    ((∃ type ∈ tried, type.Takes takes data) ∧ ∃ world type s',
      autoMount code mp none (some data) tried s = some (s', 0) ∧
        MountedAs code { s with world := world } mp type none (some data) s') := by
  induction tried generalizing s with
  | nil => exact Or.inl ⟨fun type member => absurd member List.not_mem_nil, s.world, rfl⟩
  | cons type tried ih =>
      obtain ⟨member, sub⟩ := List.cons_subset.mp sub
      simp only [Zsbl.Common.autoMount]
      by_cases device : type.requiresDev = true
      · rw [devTypes_device device] at left
        rw [if_neg (by simp [device])]
        rcases known.vfsTryMount roomy unused (by omega) live member device data with
          ⟨refused, world, ret, done, failed⟩ | ⟨takes, s', done, mounted⟩
        · -- what is tried next finds a slot less at most
          have spent := known.spends.vfsTryMount member device done
          simp only [done, Option.bind_eq_bind, Option.bind_some, if_neg failed]
          rcases ih (s := { s with world := world }) roomy unused live sub
              (by simp only at spent ⊢; omega) with
            ⟨nobody, world', rest⟩ | ⟨⟨other, later, takes⟩, rest⟩
          · exact Or.inl ⟨List.forall_mem_cons.mpr ⟨refused, nobody⟩, world', rest⟩
          · exact Or.inr ⟨⟨other, List.mem_cons_of_mem _ later, takes⟩, rest⟩
        · simp only [done, Option.bind_eq_bind, Option.bind_some, if_true]
          exact Or.inr ⟨⟨type, List.mem_cons_self, takes⟩, s.world, type, s', rfl, mounted⟩
      · rw [devTypes_other device] at left
        rw [if_pos (by simp [device])]
        rcases ih roomy unused live sub left with
          ⟨nobody, rest⟩ | ⟨⟨other, later, takes⟩, rest⟩
        · exact Or.inl ⟨List.forall_mem_cons.mpr ⟨fun takes => device takes.1, nobody⟩, rest⟩
        · exact Or.inr ⟨⟨other, List.mem_cons_of_mem _ later, takes⟩, rest⟩

/-! ## Calls that come to the file systems -/

/-- The same file systems with `mount` callbacks that do not return. -/
def FsCode.mute (code : FsCode ω π) : FsCode ω π :=
  { code with mount := fun _ _ _ _ => none }

/-- Without a slot the `mount` callbacks do not return. -/
def FsCode.Exhausts (code : FsCode ω π) (types : List FsType) (slots : ω → Nat) : Prop :=
  ∀ address s data, Tried types address → s.Roomy → s.Unused → slots s.world = 0 →
    code.mount address s none (some data) = none

/-- What calls a callback that does not return does not return either. -/
theorem autoMount_silent (roomy : s.Roomy) {mp : Nat} {data : Option π}
    (registered : ∀ type ∈ types, type.mount.isSome) (tries : 0 < devTypes types)
    (silent : ∀ address, Tried types address → code.mount address s none data = none) :
    autoMount code mp none data types s = none := by
  induction types with
  | nil => cases tries
  | cons type types ih =>
      simp only [autoMount]
      by_cases device : type.requiresDev = true
      · obtain ⟨address, isMount⟩ :=
          Option.isSome_iff_exists.mp (registered type List.mem_cons_self)
        rw [if_neg (by simp [device])]
        simp [vfsTryMount, roomy.malloc, isMount,
          silent address ⟨type, List.mem_cons_self, device, isMount⟩]
      · rw [devTypes_other device] at tries
        rw [if_pos (by simp [device])]
        refine ih (fun other member => registered other (List.mem_cons_of_mem type member)) tries ?_
        rintro address ⟨other, member, rest⟩
        exact silent address ⟨other, List.mem_cons_of_mem type member, rest⟩

theorem FreeTarget.congr {other : FsCode ω π} (same : other.lookup = code.lookup)
    {target : Option CStr} {s₁ : Vfs ω π} {mp : Nat} (free : FreeTarget other s target s₁ mp) :
    FreeTarget code s target s₁ mp where
  found := by
    obtain ⟨path, inner, isPath, absolute, search⟩ := free.found
    rw [vfsLookupNodeEx_congr same] at search
    exact ⟨path, inner, isPath, absolute, search⟩
  free := free.free

end Zsbl.Common
