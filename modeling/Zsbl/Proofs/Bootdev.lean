/-
Module: Zsbl.Proofs.Bootdev
Purpose: The boot device list keeps every registered device, sort_device orders
  it, and bdm_load takes the first device that can serve.
Trusted boundary: none
Main exports:
  smallestFrom_spec, bdmLoadFrom_spec, bdmGetFileSizeFrom_spec, BdmInv, BdmInv.step
-/
import Zsbl.Drivers.Bootdev
import Mathlib.Data.List.Perm.Subperm
import Mathlib.Data.List.Nodup

namespace Zsbl.Drivers

open Zsbl.Lib Zsbl.Include
open scoped List

variable {ω : Type}

/-! ## Walking the list -/

/-- The device list holds the devices `devices`, in this order. -/
def Devices (m : Links DevNode) (devices : List Nat) : Prop :=
  m.Ring .head (devices.map .dev)

namespace Devices

variable {m : Links DevNode} {devices left right : List Nat} {id : Nat}

theorem nodup (listed : Devices m devices) : devices.Nodup :=
  listed.inner_nodup.of_map _

theorem cut (listed : Devices m (left ++ id :: right)) :
    m.Ring .head (left.map .dev ++ .dev id :: right.map .dev) := by
  simpa [Devices] using listed

theorem bootdevFirst (listed : Devices m devices) :
    bootdevFirst m = devices.head? := by
  rw [Zsbl.Drivers.bootdevFirst, listFirstOrNull_ring listed]
  cases devices <;> simp [devEntry]

theorem bootdevNext (listed : Devices m (left ++ id :: right)) :
    bootdevNext m id = right.head? := by
  have next := listed.cut.next_mem
  rw [Zsbl.Drivers.bootdevNext, listIsLast_ring listed.cut, next]
  cases right <;> simp [devEntry]

/-- The walk that is at `id` goes on with the rest of the list. -/
theorem next_cons (listed : Devices m (left ++ id :: right)) :
    Devices m ((left ++ [id]) ++ right) := by
  simpa using listed

end Devices

/-! ## sort_device -/

section SortDevice

variable {s : Bdm ω} {m : Links DevNode}

/-- The inner loop finds a device of smallest priority from `smallest` on. -/
theorem smallestFrom_spec (s : Bdm ω) {right : List Nat} :
    ∀ (smallest : Nat) {left : List Nat} {fuel : Nat},
      Devices m (left ++ right) → right.length ≤ fuel →
      ∃ found ∈ smallest :: right,
        smallestFrom s m fuel right.head? smallest = some found ∧
        ∀ other ∈ smallest :: right,
          (s.dev found).priority ≤ (s.dev other).priority := by
  induction right with
  | nil =>
      intro smallest left fuel _ _
      exact ⟨smallest, by simp, by cases fuel <;> rfl, by simp⟩
  | cons next rest ih =>
      intro smallest left fuel listed enough
      obtain ⟨fuel, rfl⟩ := Nat.exists_eq_succ_of_ne_zero
        (Nat.ne_of_gt (Nat.lt_of_lt_of_le (Nat.succ_pos _) enough))
      have step := listed.bootdevNext
      obtain ⟨found, member, walked, least⟩ :=
        ih (if (s.dev next).priority < (s.dev smallest).priority
          then next else smallest) listed.next_cons (by simpa using enough)
      refine ⟨found, ?_, ?_, ?_⟩
      · split at member <;> simp only [List.mem_cons] at member ⊢ <;> tauto
      · simp only [List.head?_cons, smallestFrom, step]
        exact walked
      · intro other inside
        have first := least _ List.mem_cons_self
        rcases List.mem_cons.mp inside with rfl | inside
        · split at first <;> omega
        · rcases List.mem_cons.mp inside with rfl | late
          · split at first <;> omega
          · exact least other (by simp [late])

/-- The outer loop sorts what it still has in front of it. -/
theorem sortFrom_spec {size : Nat} :
    ∀ {left right : List Nat} {fuel : Nat} {m : Links DevNode},
      right.length = size → Devices m (left ++ right) → size ≤ fuel →
      (left ++ right).length ≤ s.fuel →
      ∃ m' sorted, sortFrom s fuel m right.head? = some m' ∧
        sorted.Perm right ∧ Devices m' (left ++ sorted) ∧
        sorted.Pairwise fun first second =>
          (s.dev first).priority ≤ (s.dev second).priority := by
  induction size with
  | zero =>
      intro left right fuel m empty listed _ _
      obtain rfl := List.eq_nil_of_length_eq_zero empty
      exact ⟨m, [], by cases fuel <;> rfl, List.Perm.nil, listed, List.Pairwise.nil⟩
  | succ size ih =>
      intro left right fuel m length listed enough short
      obtain ⟨cur, rest, rfl⟩ := List.exists_cons_of_length_eq_add_one length
      obtain ⟨fuel, rfl⟩ := Nat.exists_eq_succ_of_ne_zero
        (Nat.ne_of_gt (Nat.lt_of_lt_of_le (Nat.succ_pos _) enough))
      have step := listed.bootdevNext
      have shortRest : rest.length ≤ s.fuel := by
        simp only [List.length_append, List.length_cons] at short
        omega
      obtain ⟨smallest, member, found, least⟩ :=
        smallestFrom_spec s cur listed.next_cons shortRest
      have sizeEq : rest.length = size := by simpa using length
      have enough : size ≤ fuel := by omega
      by_cases same : smallest = cur
      · subst same
        obtain ⟨m', sorted, ran, perm, listed', ordered⟩ :=
          ih sizeEq listed.next_cons enough (by simpa using short)
        refine ⟨m', smallest :: sorted, ?_, perm.cons _, by simpa using listed', ?_⟩
        · simp only [List.head?_cons, sortFrom, step, found, Option.bind_eq_bind,
            Option.bind_some, ne_eq, not_true_eq_false, if_false, ran]
        · refine List.pairwise_cons.mpr ⟨fun other late => ?_, ordered⟩
          exact least other (List.mem_cons_of_mem _ (perm.mem_iff.mp late))
      · have inRest : smallest ∈ rest := by
          rcases List.mem_cons.mp member with eq | late
          · exact absurd eq same
          · exact late
        obtain ⟨middle, after, rfl⟩ := List.append_of_mem inRest
        have ring : m.Ring .head (left.map .dev ++ .dev cur ::
            (middle.map .dev ++ .dev smallest :: after.map .dev)) := by
          simpa [Devices] using listed
        obtain ⟨m₁, swapped, ring₁⟩ := listSwap_ring ring
        have listed₁ : Devices m₁
            (left ++ smallest :: (middle ++ cur :: after)) := by
          simpa [Devices] using ring₁
        have length₁ : (middle ++ cur :: after).length = size := by
          simpa using sizeEq
        obtain ⟨m', sorted, ran, perm, listed', ordered⟩ :=
          ih length₁ listed₁.next_cons enough (by simpa using short)
        have perm₁ : (smallest :: (middle ++ cur :: after)).Perm
            (cur :: (middle ++ smallest :: after)) := by
          calc smallest :: (middle ++ cur :: after)
              _ ~ smallest :: cur :: (middle ++ after) := List.perm_middle.cons _
              _ ~ cur :: smallest :: (middle ++ after) := List.Perm.swap _ _ _
              _ ~ cur :: (middle ++ smallest :: after) :=
                List.perm_middle.symm.cons _
        refine ⟨m', smallest :: sorted, ?_, (perm.cons _).trans perm₁,
          by simpa using listed', ?_⟩
        · simp only [List.head?_cons, sortFrom, step, found, Option.bind_eq_bind,
            Option.bind_some, ne_eq, same, not_false_eq_true, if_true, swapped,
            listed₁.bootdevNext, ran]
        · refine List.pairwise_cons.mpr ⟨fun other late => ?_, ordered⟩
          exact least other
            (perm₁.mem_iff.mp (List.mem_cons_of_mem _ (perm.mem_iff.mp late)))

end SortDevice

/-! ## Loading -/

/-- Loading the file from the device gives a positive length. -/
def Bootdev.CanLoad (dev : Bootdev ω) (w : ω) (file : String) : Prop :=
  ∃ length, bootdevLoad dev w file = some length ∧ 0 < length

/-- `bdm_load` skips a device that is disabled or cannot load the file. -/
def Bootdev.Skipped (dev : Bootdev ω) (w : ω) (file : String) : Prop :=
  dev.disabled = 1 ∨ ¬ dev.CanLoad w file

section Load

variable {s : Bdm ω} {w : ω} {file : String}

/-- The walk of `bdm_load` ends at the first device it does not skip. -/
theorem bdmLoadFrom_spec (w : ω) (file : String) {right : List Nat} :
    ∀ {left : List Nat} {fuel : Nat}, Devices s.deviceList (left ++ right) →
      right.length ≤ fuel → (∀ id ∈ right, (s.dev id).HasOps) →
      (bdmLoadFrom s w file fuel right.head? = some ⟨- EIO, none⟩ ∧
        ∀ id ∈ right, (s.dev id).Skipped w file) ∨
      ∃ before id after length, right = before ++ id :: after ∧
        bdmLoadFrom s w file fuel right.head? = some ⟨length, some id⟩ ∧
        (s.dev id).disabled ≠ 1 ∧ 0 < length ∧
        bootdevLoad (s.dev id) w file = some length ∧
        ∀ other ∈ before, (s.dev other).Skipped w file := by
  induction right with
  | nil =>
      intro left fuel _ _ _
      exact Or.inl ⟨by cases fuel <;> rfl, by simp⟩
  | cons cur rest ih =>
      intro left fuel listed enough hasOps
      obtain ⟨fuel, rfl⟩ := Nat.exists_eq_succ_of_ne_zero
        (Nat.ne_of_gt (Nat.lt_of_lt_of_le (Nat.succ_pos _) enough))
      have enough : rest.length ≤ fuel := by simpa using enough
      have step := listed.bootdevNext
      have later := ih listed.next_cons enough
        (fun id member => hasOps id (by simp [member]))
      obtain ⟨load, size, ops⟩ := hasOps cur (by simp)
      have loaded : bootdevLoad (s.dev cur) w file = some (load w file) := by
        simp [bootdevLoad, ops]
      have skip : (s.dev cur).Skipped w file →
          bdmLoadFrom s w file (fuel + 1) (some cur) =
            bdmLoadFrom s w file fuel rest.head? := by
        rintro (disabled | unable)
        · simp [bdmLoadFrom, disabled, step]
        · have notPositive : ¬ load w file > 0 := fun positive =>
            unable ⟨_, loaded, positive⟩
          simp [bdmLoadFrom, loaded, notPositive, step]
      by_cases skipped : (s.dev cur).Skipped w file
      · rcases later with ⟨none_found, all⟩ |
          ⟨before, id, after, length, rfl, found, fine, positive, result, skips⟩
        · refine Or.inl ⟨(skip skipped).trans none_found, ?_⟩
          intro id member
          rcases List.mem_cons.mp member with rfl | late
          · exact skipped
          · exact all id late
        · refine Or.inr ⟨cur :: before, id, after, length, rfl,
            (skip skipped).trans found, fine, positive, result, ?_⟩
          intro other member
          rcases List.mem_cons.mp member with rfl | late
          · exact skipped
          · exact skips other late
      · have enabled : (s.dev cur).disabled ≠ 1 := fun disabled =>
          skipped (Or.inl disabled)
        have positive : 0 < load w file := by
          by_contra notPositive
          refine skipped (Or.inr ?_)
          rintro ⟨length, result, positive⟩
          obtain rfl := Option.some.inj (loaded.symm.trans result)
          exact notPositive positive
        refine Or.inr ⟨[], cur, rest, load w file, rfl, ?_, enabled, positive,
          loaded, by simp⟩
        simp [bdmLoadFrom, enabled, loaded, positive]

/-- The walk of `bdm_get_file_size` ends with the greatest size. -/
theorem bdmGetFileSizeFrom_spec (w : ω) (file : String) {right : List Nat} :
    ∀ {left : List Nat} {fuel : Nat} (maxSize : Int),
      Devices s.deviceList (left ++ right) → right.length ≤ fuel →
      (∀ id ∈ right, (s.dev id).HasOps) →
      ∃ greatest, bdmGetFileSizeFrom s w file fuel right.head? maxSize =
          some greatest ∧ maxSize ≤ greatest ∧
        ∀ id ∈ right, ∀ size, bootdevGetFileSize (s.dev id) w file = some size →
          size ≤ greatest := by
  induction right with
  | nil =>
      intro left fuel maxSize _ _ _
      exact ⟨maxSize, by cases fuel <;> rfl, Int.le_refl _, by simp⟩
  | cons cur rest ih =>
      intro left fuel maxSize listed enough hasOps
      obtain ⟨fuel, rfl⟩ := Nat.exists_eq_succ_of_ne_zero
        (Nat.ne_of_gt (Nat.lt_of_lt_of_le (Nat.succ_pos _) enough))
      have enough : rest.length ≤ fuel := by simpa using enough
      obtain ⟨load, size, ops⟩ := hasOps cur (by simp)
      have asked : bootdevGetFileSize (s.dev cur) w file =
          some (size w file) := by
        simp [bootdevGetFileSize, ops]
      obtain ⟨greatest, walked, above, all⟩ :=
        ih (if size w file > maxSize then size w file else maxSize)
          listed.next_cons enough (fun id member => hasOps id (by simp [member]))
      refine ⟨greatest, ?_, ?_, ?_⟩
      · simp only [List.head?_cons, bdmGetFileSizeFrom, asked,
          listed.bootdevNext, Option.bind_eq_bind, Option.bind_some, walked]
      · split at above <;> omega
      · intro id member z result
        rcases List.mem_cons.mp member with rfl | late
        · obtain rfl := Option.some.inj (asked.symm.trans result)
          split at above <;> omega
        · exact all id late z result

end Load

/-! ## The invariant -/

/-- `devices` is the content of the device list: the registered devices in some
order, each with its operations. -/
structure BdmInv (s : Bdm ω) (devices : List Nat) : Prop where
  listed : Devices s.deviceList devices
  global : Devices s.globalList s.registered
  perm : devices.Perm s.registered
  short : s.registered.length ≤ s.added
  hasOps : ∀ id ∈ s.registered, (s.dev id).HasOps

/-- No device stands behind one of greater priority value. -/
def Bdm.Ordered (s : Bdm ω) (devices : List Nat) : Prop :=
  devices.Pairwise fun first second =>
    (s.dev first).priority ≤ (s.dev second).priority

namespace BdmInv

variable {s : Bdm ω} {devices : List Nat} {id : Nat}

theorem mem_iff (inv : BdmInv s devices) : id ∈ devices ↔ id ∈ s.registered :=
  inv.perm.mem_iff

theorem length_le (inv : BdmInv s devices) : devices.length ≤ s.fuel := by
  have same := inv.perm.length_eq
  have short := inv.short
  unfold Bdm.fuel
  omega

/-- Changing one device keeps the lists. -/
theorem setDev (inv : BdmInv s devices) {dev : Bootdev ω}
    (hasOps : id ∈ s.registered → dev.HasOps) :
    BdmInv (s.setDev id dev) devices where
  listed := inv.listed
  global := inv.global
  perm := inv.perm
  short := inv.short
  hasOps := by
    intro other member
    by_cases same : other = id
    · subst same
      simpa [Bdm.setDev] using hasOps member
    · simpa [Bdm.setDev, Function.update_of_ne same] using
        inv.hasOps other member

/-- `bootdev_add` appends the device, whatever its priority. -/
theorem add (inv : BdmInv s devices) (fresh : id ∉ s.registered)
    (hasOps : (s.dev id).HasOps) :
    ∃ s', bootdevAdd s id = some s' ∧ BdmInv s' (devices ++ [id]) ∧
      s'.dev = s.dev := by
  have offList : DevNode.dev id ∉ DevNode.head :: devices.map DevNode.dev := by
    simpa [inv.mem_iff] using fresh
  have offGlobal : DevNode.dev id ∉
      DevNode.head :: s.registered.map DevNode.dev := by simpa using fresh
  obtain ⟨deviceList, added, ring, -⟩ := listAddTail_ring inv.listed offList
  obtain ⟨globalList, addedGlobal, ringGlobal, -⟩ :=
    listAddTail_ring inv.global offGlobal
  refine ⟨{ s with
      deviceList := deviceList
      globalList := globalList
      added := s.added + 1
      registered := s.registered ++ [id] },
    by simp [bootdevAdd, added, addedGlobal], ?_, rfl⟩
  exact
    { listed := by simpa [Devices] using ring
      global := by simpa [Devices] using ringGlobal
      perm := inv.perm.append_right _
      short := by simpa using inv.short
      hasOps := by
        intro other member
        rcases List.mem_append.mp member with old | new
        · exact inv.hasOps other old
        · obtain rfl := List.mem_singleton.mp new
          exact hasOps }

/-- `bootdev_remove` takes the device out and leaves the order of the others. -/
theorem remove (inv : BdmInv s devices) (member : id ∈ s.registered) :
    ∃ s', bootdevRemove s id = some s' ∧ BdmInv s' (devices.erase id) ∧
      s'.dev = s.dev ∧ s'.registered = s.registered.erase id := by
  have unlinks : ∀ {m : Links DevNode} {entries : List Nat},
      Devices m entries → id ∈ entries →
      ∃ m', listDel m (.dev id) = some m' ∧ Devices m' (entries.erase id) := by
    intro m entries listed inside
    obtain ⟨left, right, rfl⟩ := List.append_of_mem inside
    have fresh : id ∉ left := by
      have nodup := listed.nodup
      simp only [List.nodup_append, List.mem_cons] at nodup
      grind
    obtain ⟨m', deleted, ring, -⟩ := listDel_ring listed.cut
    refine ⟨m', deleted, ?_⟩
    simpa [Devices, List.erase_append_right _ fresh] using ring
  obtain ⟨globalList, deletedGlobal, ringGlobal⟩ := unlinks inv.global member
  obtain ⟨deviceList, deleted, ring⟩ :=
    unlinks inv.listed (inv.mem_iff.mpr member)
  refine ⟨{ s with
      deviceList := deviceList
      globalList := globalList
      registered := s.registered.erase id },
    by simp [bootdevRemove, deleted, deletedGlobal], ?_, rfl, rfl⟩
  exact
    { listed := ring
      global := ringGlobal
      perm := inv.perm.erase id
      short := (List.length_erase_le).trans inv.short
      hasOps := fun other inside =>
        inv.hasOps other (List.mem_of_mem_erase inside) }

/-- `device_find_by_name` finds a listed device or none. -/
theorem find (inv : BdmInv s devices) (name : String) :
    ∃ found, bootdevFindByName s name = some found ∧
      ∀ id, found = some id → id ∈ s.registered := by
  have walk : ∀ {right left : List Nat} {fuel : Nat},
      Devices s.deviceList (left ++ right) → right.length ≤ fuel →
      ∃ found, findByNameFrom s name fuel right.head? = some found ∧
        ∀ id, found = some id → id ∈ right := by
    intro right
    induction right with
    | nil =>
        intro left fuel _ _
        exact ⟨none, by cases fuel <;> rfl, by simp⟩
    | cons cur rest ih =>
        intro left fuel listed enough
        obtain ⟨fuel, rfl⟩ := Nat.exists_eq_succ_of_ne_zero
          (Nat.ne_of_gt (Nat.lt_of_lt_of_le (Nat.succ_pos _) enough))
        obtain ⟨found, walked, inside⟩ :=
          ih listed.next_cons (by simpa using enough : rest.length ≤ fuel)
        by_cases named : (s.dev cur).name = name ∨ (s.dev cur).aliasName = name
        · exact ⟨some cur, by simp [findByNameFrom, named], by simp⟩
        · refine ⟨found, ?_, fun id eq => by simp [inside id eq]⟩
          simp only [List.head?_cons, findByNameFrom, named, if_false,
            listed.bootdevNext, walked]
  have listed : Devices s.deviceList ([] ++ devices) := by
    simpa using inv.listed
  obtain ⟨found, walked, inside⟩ := walk listed inv.length_le
  refine ⟨found, ?_, fun id eq => inv.mem_iff.mp (inside id eq)⟩
  rw [bootdevFindByName, inv.listed.bootdevFirst, walked]

/-- `sort_device` ends, keeps every device and orders the list. -/
theorem sort (inv : BdmInv s devices) :
    ∃ s' sorted, sortDevice s = some s' ∧ BdmInv s' sorted ∧
      s'.Ordered sorted ∧ s'.dev = s.dev ∧ s'.registered = s.registered := by
  have listed : Devices s.deviceList ([] ++ devices) := by
    simpa using inv.listed
  obtain ⟨m', sorted, ran, perm, listed', ordered⟩ := sortFrom_spec (s := s)
    rfl listed inv.length_le (by simpa using inv.length_le)
  refine ⟨{ s with deviceList := m' }, sorted, ?_, ?_, ordered, rfl, rfl⟩
  · simp [sortDevice, inv.listed.bootdevFirst, ran]
  · exact
      { listed := by simpa using listed'
        global := inv.global
        perm := perm.trans inv.perm
        short := inv.short
        hasOps := inv.hasOps }

/-- `bdm_load` takes the first enabled device that loads more than nothing, or none does. -/
theorem load (inv : BdmInv s devices) (w : ω) (file : String) :
    (bdmLoad s w file = some ⟨- EIO, none⟩ ∧
        ∀ id ∈ devices, (s.dev id).Skipped w file) ∨
      ∃ before id after length, devices = before ++ id :: after ∧
        bdmLoad s w file = some ⟨length, some id⟩ ∧
        (s.dev id).disabled ≠ 1 ∧ 0 < length ∧
        bootdevLoad (s.dev id) w file = some length ∧
        ∀ other ∈ before, (s.dev other).Skipped w file := by
  have listed : Devices s.deviceList ([] ++ devices) := by
    simpa using inv.listed
  have result := bdmLoadFrom_spec w file listed inv.length_le
    (fun id member => inv.hasOps id (inv.mem_iff.mp member))
  simpa only [bdmLoad, inv.listed.bootdevFirst] using result

/-- `bdm_load` never returns more than `bdm_get_file_size` when no device loads
more than it says. -/
theorem load_le_size (inv : BdmInv s devices) (w : ω) (file : String)
    (honest : ∀ id ∈ s.registered, ∀ length size,
      bootdevLoad (s.dev id) w file = some length →
      bootdevGetFileSize (s.dev id) w file = some size → length ≤ size) :
    ∃ result size, bdmLoad s w file = some result ∧
      bdmGetFileSize s w file = some size ∧ result.value ≤ size := by
  have listed : Devices s.deviceList ([] ++ devices) := by
    simpa using inv.listed
  obtain ⟨greatest, asked, above, all⟩ :=
    bdmGetFileSizeFrom_spec w file (-ENOENT) listed
      inv.length_le (fun id member => inv.hasOps id (inv.mem_iff.mp member))
  have sized : bdmGetFileSize s w file = some greatest := by
    simpa only [bdmGetFileSize, inv.listed.bootdevFirst] using asked
  rcases inv.load w file with
    ⟨failed, -⟩ | ⟨before, id, after, length, rfl, found, -, -, loaded, -⟩
  · refine ⟨_, greatest, failed, sized, ?_⟩
    simp only [ EIO, ENOENT] at above ⊢
    omega
  · refine ⟨_, greatest, found, sized, ?_⟩
    have member : id ∈ before ++ id :: after := by simp
    obtain ⟨load, size, ops⟩ := inv.hasOps id (inv.mem_iff.mp member)
    have asked : bootdevGetFileSize (s.dev id) w file =
        some (size w file) := by simp [bootdevGetFileSize, ops]
    exact Int.le_trans (honest id (inv.mem_iff.mp member) _ _ loaded asked)
      (all id member _ asked)

end BdmInv

/-! ## Runs -/

/-- A device is added behind all others in priority, and is either enabled or
disabled. -/
def OrderSafe (s : Bdm ω) : BdmOp ω → Prop
  | .register _ dev => dev.valid →
      (∀ id ∈ s.registered, (s.dev id).priority ≤ dev.priority) ∧
        (dev.disabled = 0 ∨ dev.disabled = 1)
  | .add _ dev =>
      (∀ id ∈ s.registered, (s.dev id).priority ≤ dev.priority) ∧
        (dev.disabled = 0 ∨ dev.disabled = 1)
  | .setDisabled _ disabled => disabled = 0 ∨ disabled = 1
  | _ => True

/-- The list is in order of priority, and every device is either enabled or
disabled. -/
structure Sorted (s : Bdm ω) (devices : List Nat) : Prop where
  ordered : s.Ordered devices
  flags : ∀ id ∈ devices, (s.dev id).disabled = 0 ∨ (s.dev id).disabled = 1

namespace Sorted

variable {s s' : Bdm ω} {devices : List Nat} {id : Nat}

/-- Only priorities and flags matter for the order. -/
theorem congr (sorted : Sorted s devices)
    (priority : ∀ id ∈ devices, (s'.dev id).priority = (s.dev id).priority)
    (disabled : ∀ id ∈ devices, (s'.dev id).disabled = 0 ∨
      (s'.dev id).disabled = 1) : Sorted s' devices where
  ordered := by
    refine sorted.ordered.imp_of_mem ?_
    intro first second early late le
    rwa [priority first early, priority second late]
  flags := disabled

/-- A device of greatest priority may be appended. -/
theorem append (sorted : Sorted s devices)
    (last : ∀ other ∈ devices, (s.dev other).priority ≤ (s.dev id).priority)
    (flag : (s.dev id).disabled = 0 ∨ (s.dev id).disabled = 1) :
    Sorted s (devices ++ [id]) where
  ordered := by
    refine List.pairwise_append.mpr ⟨sorted.ordered, by simp, ?_⟩
    intro first early second late
    obtain rfl := List.mem_singleton.mp late
    exact last first early
  flags := by
    intro other member
    rcases List.mem_append.mp member with early | late
    · exact sorted.flags other early
    · obtain rfl := List.mem_singleton.mp late
      exact flag

end Sorted

/-- A device that is filled in and added. -/
theorem BdmInv.fill {s : Bdm ω} {devices : List Nat} {id : Nat}
    {dev : Bootdev ω} (inv : BdmInv s devices) (fresh : id ∉ s.registered)
    (hasOps : dev.HasOps) :
    ∃ s', bootdevAdd (s.setDev id dev) id = some s' ∧
      BdmInv s' (devices ++ [id]) ∧
      (Sorted s devices →
        (∀ other ∈ s.registered, (s.dev other).priority ≤ dev.priority) →
        (dev.disabled = 0 ∨ dev.disabled = 1) → Sorted s' (devices ++ [id])) := by
  have filled : BdmInv (s.setDev id dev) devices :=
    inv.setDev fun member => absurd member fresh
  have self : (s.setDev id dev).dev id = dev := by simp [Bdm.setDev]
  have others : ∀ other ∈ devices,
      (s.setDev id dev).dev other = s.dev other := by
    intro other member
    have ne : other ≠ id := by
      rintro rfl
      exact fresh (inv.mem_iff.mp member)
    simp [Bdm.setDev, Function.update_of_ne ne]
  obtain ⟨s', added, inv', devEq⟩ := filled.add fresh
    (by rw [self]; exact hasOps)
  refine ⟨s', added, inv', fun sorted last flag => ?_⟩
  have moved : Sorted s' devices := by
    refine sorted.congr (fun other member => ?_) (fun other member => ?_)
    · rw [devEq, others other member]
    · rw [devEq, others other member]
      exact sorted.flags other member
  refine moved.append (fun other member => ?_) ?_
  · rw [devEq, others other member, self]
    exact last other (inv.mem_iff.mp member)
  · rw [devEq, self]
    exact flag

/-- A device that is enabled or disabled. -/
theorem BdmInv.flag {s : Bdm ω} {devices : List Nat} (inv : BdmInv s devices)
    (id : Nat) (disabled : Int) :
    BdmInv (s.setDev id { s.dev id with disabled := disabled }) devices ∧
      (Sorted s devices → (disabled = 0 ∨ disabled = 1) →
        Sorted (s.setDev id { s.dev id with disabled := disabled }) devices) := by
  refine ⟨inv.setDev fun member => ?_, fun sorted flag => ?_⟩
  · obtain ⟨load, size, ops⟩ := inv.hasOps id member
    exact ⟨load, size, ops⟩
  · refine sorted.congr (fun other member => ?_) (fun other member => ?_)
    · by_cases same : other = id
      · subst same
        simp [Bdm.setDev]
      · simp [Bdm.setDev, Function.update_of_ne same]
    · by_cases same : other = id
      · subst same
        simpa [Bdm.setDev] using flag
      · simpa [Bdm.setDev, Function.update_of_ne same] using
          sorted.flags other member

/-- A changed priority, and the sorting that follows it. -/
theorem BdmInv.prioritize {s : Bdm ω} {devices : List Nat}
    (inv : BdmInv s devices) (id : Nat) (priority : Int) :
    ∃ s' devices', sortDevice (s.setDev id { s.dev id with
        priority := priority }) = some s' ∧ BdmInv s' devices' ∧
      (Sorted s devices → Sorted s' devices') := by
  have changed : BdmInv (s.setDev id { s.dev id with priority := priority })
      devices := by
    refine inv.setDev fun member => ?_
    obtain ⟨load, size, ops⟩ := inv.hasOps id member
    exact ⟨load, size, ops⟩
  obtain ⟨s', devices', ran, inv', ordered, devEq, registeredEq⟩ := changed.sort
  refine ⟨s', devices', ran, inv', fun sorted => ⟨ordered, ?_⟩⟩
  intro other member
  have listed : other ∈ devices := by
    rw [inv.mem_iff]
    have := inv'.mem_iff.mp member
    rwa [registeredEq] at this
  rw [devEq]
  by_cases same : other = id
  · subst same
    simpa [Bdm.setDev] using sorted.flags other listed
  · simpa [Bdm.setDev, Function.update_of_ne same] using
      sorted.flags other listed

/-- Every operation keeps the devices, and the order too when it is safe. -/
theorem BdmInv.step {s s' : Bdm ω} {devices : List Nat} {op : BdmOp ω}
    (inv : BdmInv s devices) (taken : BdmStep s op s') :
    ∃ devices', BdmInv s' devices' ∧
      (OrderSafe s op → Sorted s devices → Sorted s' devices') := by
  cases taken with
  | register id dev fresh done =>
      by_cases valid : dev.valid
      · have hasOps : dev.HasOps := by
          simp only [Bootdev.valid, Bool.and_eq_true] at valid
          cases ops : dev.ops with
          | none => simp [ops] at valid
          | some table =>
              obtain ⟨load, size⟩ := table
              cases load <;> cases size <;> simp_all [Bootdev.HasOps]
        obtain ⟨s₁, added, inv₁, sorted₁⟩ := inv.fill fresh hasOps
        have registered : bootdevRegister (s.setDev id dev) id = some (s₁, 0) := by
          have self : (s.setDev id dev).dev id = dev := by simp [Bdm.setDev]
          simp only [bootdevRegister, self, valid, if_true, added,
            Option.bind_eq_bind, Option.bind_some, Option.pure_def]
        obtain ⟨rfl, -⟩ : s₁ = s' ∧ (0 : Int) = _ := by
          simpa using registered.symm.trans done
        exact ⟨_, inv₁, fun safe sorted =>
          sorted₁ sorted (safe valid).1 (safe valid).2⟩
      · have refused : bootdevRegister (s.setDev id dev) id =
            some (s.setDev id dev, -EINVAL) := by
          simp [bootdevRegister, Bdm.setDev, valid]
        obtain ⟨rfl, -⟩ : s.setDev id dev = s' ∧ -EINVAL = _ := by
          simpa using refused.symm.trans done
        have others : ∀ other ∈ devices,
            (s.setDev id dev).dev other = s.dev other := by
          intro other member
          have ne : other ≠ id := by
            rintro rfl
            exact fresh (inv.mem_iff.mp member)
          simp [Bdm.setDev, Function.update_of_ne ne]
        refine ⟨devices, inv.setDev fun member => absurd member fresh,
          fun _ sorted => sorted.congr ?_ ?_⟩
        · exact fun other member => by rw [others other member]
        · exact fun other member => by
            rw [others other member]
            exact sorted.flags other member
  | add id dev fresh hasOps done =>
      obtain ⟨s₁, added, inv₁, sorted₁⟩ := inv.fill fresh hasOps
      obtain rfl := Option.some.inj (added.symm.trans done)
      exact ⟨_, inv₁, fun safe sorted => sorted₁ sorted safe.1 safe.2⟩
  | remove id listed done =>
      obtain ⟨s₁, removed, inv₁, devEq, -⟩ := inv.remove listed
      obtain rfl := Option.some.inj (removed.symm.trans done)
      refine ⟨_, inv₁, fun _ sorted => ⟨?_, fun other member => ?_⟩⟩
      · show (devices.erase id).Pairwise _
        rw [devEq]
        exact sorted.ordered.sublist List.erase_sublist
      · rw [devEq]
        exact sorted.flags other (List.mem_of_mem_erase member)
  | setPriority devname priority done =>
      obtain ⟨found, search, -⟩ := inv.find devname
      cases found with
      | none =>
          simp only [bdmSetPriority, search, Option.bind_eq_bind,
            Option.bind_some, Option.pure_def, Option.some.injEq,
            Prod.mk.injEq] at done
          obtain ⟨rfl, -⟩ := done
          exact ⟨devices, inv, fun _ sorted => sorted⟩
      | some id =>
          obtain ⟨s₁, devices', ran, inv₁, sorted₁⟩ :=
            inv.prioritize id priority
          simp only [bdmSetPriority, search, ran, Option.bind_eq_bind,
            Option.bind_some, Option.pure_def, Option.some.injEq,
            Prod.mk.injEq] at done
          obtain ⟨rfl, -⟩ := done
          exact ⟨devices', inv₁, fun _ sorted => sorted₁ sorted⟩
  | setDisabled devname disabled done =>
      obtain ⟨found, search, -⟩ := inv.find devname
      cases found with
      | none =>
          simp only [bdmSetDisabled, search, Option.bind_eq_bind,
            Option.bind_some, Option.pure_def, Option.some.injEq,
            Prod.mk.injEq] at done
          obtain ⟨rfl, -⟩ := done
          exact ⟨devices, inv, fun _ sorted => sorted⟩
      | some id =>
          simp only [bdmSetDisabled, search, Option.bind_eq_bind,
            Option.bind_some, Option.pure_def, Option.some.injEq,
            Prod.mk.injEq] at done
          obtain ⟨rfl, -⟩ := done
          obtain ⟨inv₁, sorted₁⟩ := inv.flag id disabled
          exact ⟨devices, inv₁, fun safe sorted => sorted₁ sorted safe⟩

/-- Before the first device is added the list is empty. -/
theorem BdmInv.initial {s : Bdm ω} (start : (bdmLts : Lts (Bdm ω) _).init s) :
    BdmInv s [] ∧ Sorted s [] := by
  obtain ⟨deviceList, globalList, registered, added⟩ := start
  refine ⟨?_, ⟨List.Pairwise.nil, by simp⟩⟩
  exact
    { listed := by rw [deviceList]; exact initListHead_ring _ _
      global := by
        rw [globalList, registered]
        exact initListHead_ring _ _
      perm := by simp [registered]
      short := by simp [registered]
      hasOps := by simp [registered] }

end Zsbl.Drivers
