/-
Module: Zsbl.Proofs.BootOrder
Purpose: From which device bdm_load takes a file in every state of a run, and
  when the order of the list makes it the one of smallest priority value.
Trusted boundary: none
Main exports:
  LoadsSmallest, bdm_order, bdm_appended_unsorted
-/
import Zsbl.Proofs.Bootdev

namespace Zsbl.Drivers

open Zsbl.Lib Zsbl.Include

variable {ω : Type}

/-- A registered device that `lsbdev` shows as enabled and that can load the
file. -/
def Bdm.Offers (s : Bdm ω) (w : ω) (file : String) (id : Nat) : Prop :=
  id ∈ s.registered ∧ (s.dev id).disabled = 0 ∧ (s.dev id).CanLoad w file

/-- `bdm_load` loads from an enabled device of smallest priority value among
those that can load the file, and returns `-EIO` exactly when there is none. -/
def LoadsSmallest (s : Bdm ω) (w : ω) (file : String) : Prop :=
  ∃ result, bdmLoad s w file = some result ∧
    (result.value = - EIO ↔ ∀ id, ¬ s.Offers w file id) ∧
    (result.value ≠ - EIO → ∃ id, result.source = some id ∧
      s.Offers w file id ∧
      bootdevLoad (s.dev id) w file = some result.value ∧
      ∀ other, s.Offers w file other →
        (s.dev id).priority ≤ (s.dev other).priority)

/-- In a list that is in order the first device that loads is one of smallest priority. -/
theorem Sorted.loadsSmallest {s : Bdm ω} {devices : List Nat}
    (sorted : Sorted s devices) (inv : BdmInv s devices) (w : ω)
    (file : String) : LoadsSmallest s w file := by
  have refuses : ∀ {id}, (s.dev id).Skipped w file → ¬ s.Offers w file id := by
    rintro id (disabled | unable) ⟨-, enabled, canLoad⟩
    · omega
    · exact unable canLoad
  rcases inv.load w file with ⟨failed, skipped⟩ |
    ⟨before, id, after, length, split, found, notDisabled, positive, loaded,
      skipped⟩
  · refine ⟨_, failed, ⟨fun _ id offers => ?_, fun _ => rfl⟩,
      fun served => absurd rfl served⟩
    exact refuses (skipped id (inv.mem_iff.mpr offers.1)) offers
  · have member : id ∈ devices := by simp [split]
    have offers : s.Offers w file id := by
      refine ⟨inv.mem_iff.mp member, ?_, length, loaded, positive⟩
      rcases sorted.flags id member with enabled | disabled
      · exact enabled
      · exact absurd disabled notDisabled
    refine ⟨_, found, ⟨fun failed => ?_, fun none_offers =>
      absurd offers (none_offers id)⟩, fun _ => ⟨id, rfl, offers, loaded, ?_⟩⟩
    · simp only [ EIO] at failed
      omega
    · intro other offersOther
      have listed := inv.mem_iff.mpr offersOther.1
      have ordered := sorted.ordered
      rw [Bdm.Ordered, split] at ordered
      rw [split] at listed
      rcases List.mem_append.mp listed with early | late
      · exact absurd offersOther (refuses (skipped other early))
      · rcases List.mem_cons.mp late with rfl | late
        · exact Int.le_refl _
        · obtain ⟨-, rest, -⟩ := List.pairwise_append.mp ordered
          exact (List.pairwise_cons.mp rest).1 other late

/-- In every run the device list is a permutation of the registered devices,
changing a priority ends, and a load gives no more than the file size asked for
when no device loads more than it says.  In every run that adds each device
behind all others in priority and uses 0 and 1 as the disabled flag, loads come
from the enabled device of smallest priority value. -/
theorem bdm_order :
    (∀ s : Bdm ω, (bdmLts : Lts (Bdm ω) _).Reachable s →
      ∃ devices, Devices s.deviceList devices ∧ devices.Nodup ∧
        devices.Perm s.registered ∧
        (∀ devname priority, ∃ result,
          bdmSetPriority s devname priority = some result) ∧
        ∀ w file, (∀ id ∈ s.registered, ∀ length size,
            bootdevLoad (s.dev id) w file = some length →
            bootdevGetFileSize (s.dev id) w file = some size →
            length ≤ size) →
          ∃ result size, bdmLoad s w file = some result ∧
            bdmGetFileSize s w file = some size ∧ result.value ≤ size) ∧
    ∀ s : Bdm ω, (bdmLts : Lts (Bdm ω) _).ReachableWhile OrderSafe s →
      ∀ w file, LoadsSmallest s w file := by
  constructor
  · intro s reached
    obtain ⟨devices, inv⟩ : ∃ devices, BdmInv s devices := by
      refine reached.invariant (fun s => ∃ devices, BdmInv s devices) ?_ ?_
      · exact fun s start => ⟨[], (BdmInv.initial start).1⟩
      · rintro s op s' - ⟨devices, inv⟩ - taken
        obtain ⟨devices', inv', -⟩ := inv.step taken
        exact ⟨devices', inv'⟩
    refine ⟨devices, inv.listed, inv.listed.nodup, inv.perm, ?_,
      inv.load_le_size⟩
    intro devname priority
    obtain ⟨found, search, -⟩ := inv.find devname
    cases found with
    | none => exact ⟨(s, -ENODEV), by simp [bdmSetPriority, search]⟩
    | some id =>
        obtain ⟨s', devices', ran, -⟩ := inv.prioritize id priority
        exact ⟨(s', 0), by simp [bdmSetPriority, search, ran]⟩
  · intro s reached w file
    obtain ⟨devices, inv, sorted⟩ :
        ∃ devices, BdmInv s devices ∧ Sorted s devices := by
      refine reached.invariant
        (fun s => ∃ devices, BdmInv s devices ∧ Sorted s devices) ?_ ?_
      · exact fun s start => ⟨[], BdmInv.initial start⟩
      · rintro s op s' - ⟨devices, inv, sorted⟩ safe taken
        obtain ⟨devices', inv', keeps⟩ := inv.step taken
        exact ⟨devices', inv', keeps safe sorted⟩
    exact sorted.loadsSmallest inv w file

/-! ## Three devices in order of priority -/

/-- A device that loads ten bytes of any file. -/
def tenBytes (name : String) : Bootdev Unit where
  name := name
  aliasName := ""
  ops := some ⟨some fun _ _ => 10, some fun _ _ => 10⟩
  size := 1
  priority := 0
  disabled := 0

/-- The device with another priority value and another result of `load`. -/
def Bootdev.loading (dev : Bootdev Unit) (priority length : Int) : Bootdev Unit :=
  { dev with priority, ops := some ⟨some fun _ _ => length, some fun _ _ => length⟩ }

def emptyBdm : Bdm Unit where
  deviceList := initListHead ⟨fun _ => none, fun _ => none⟩ .head
  globalList := initListHead ⟨fun _ => none, fun _ => none⟩ .head
  dev := fun _ => tenBytes ""
  added := 0
  registered := []

/-- The flash, of smallest priority value, does not have the file. -/
def flash : Bootdev Unit := (tenBytes "flash").loading 0 (-2)

def sd : Bootdev Unit := (tenBytes "sd").loading 1 10

def usb : Bootdev Unit := (tenBytes "usb").loading 3 20

def flashAdded : Bdm Unit := (bootdevAdd (emptyBdm.setDev 0 flash) 0).get (by rfl)

def sdAdded : Bdm Unit := (bootdevAdd (flashAdded.setDev 1 sd) 1).get (by rfl)

def usbAdded : Bdm Unit := (bootdevAdd (sdAdded.setDev 2 usb) 2).get (by rfl)

/-- The SD card comes behind the USB drive. -/
def sdPostponed : Bdm Unit := ((bdmSetPriority usbAdded "sd" 4).get (by rfl)).1

/-- The run appends in order, prioritizes and loads. -/
theorem usbAdded_reachable :
    (bdmLts : Lts (Bdm Unit) _).ReachableWhile OrderSafe usbAdded := by
  have start : (bdmLts : Lts (Bdm Unit) _).ReachableWhile OrderSafe emptyBdm :=
    .initial ⟨rfl, rfl, rfl, rfl⟩
  have first : OrderSafe emptyBdm (.add 0 flash) := ⟨by decide, Or.inl rfl⟩
  have second : OrderSafe flashAdded (.add 1 sd) := ⟨by decide, Or.inl rfl⟩
  have third : OrderSafe sdAdded (.add 2 usb) := ⟨by decide, Or.inl rfl⟩
  exact ((start.step first (BdmStep.add 0 flash (by decide) ⟨_, _, rfl⟩
    (Option.some_get _).symm)).step second (BdmStep.add 1 sd (by decide) ⟨_, _, rfl⟩
    (Option.some_get _).symm)).step third (BdmStep.add 2 usb (by decide) ⟨_, _, rfl⟩
    (Option.some_get _).symm)

/-- The file comes from the SD card, and from the USB drive once that comes before it. -/
theorem bdm_order_threeAdded :
    LoadsSmallest usbAdded () "Image" ∧ bdmLoad usbAdded () "Image" = some ⟨10, some 1⟩ ∧
      LoadsSmallest sdPostponed () "Image" ∧
      bdmLoad sdPostponed () "Image" = some ⟨20, some 2⟩ := by
  have postponed : (bdmLts : Lts (Bdm Unit) _).ReachableWhile OrderSafe sdPostponed :=
    usbAdded_reachable.step (show OrderSafe usbAdded (.setPriority "sd" 4) from trivial)
      (BdmStep.setPriority "sd" 4
        (show bdmSetPriority usbAdded "sd" 4 = some (sdPostponed, 0) from rfl))
  exact ⟨bdm_order.2 usbAdded usbAdded_reachable () "Image", rfl,
    bdm_order.2 sdPostponed postponed () "Image", rfl⟩

/-! ## An appended device of smaller priority value -/

/-- One device has been added. -/
def oneAdded : Bdm Unit :=
  (bootdevAdd (emptyBdm.setDev 0 (tenBytes "sd")) 0).get (by rfl)

/-- Its priority value has been raised to 5. -/
def onePostponed : Bdm Unit :=
  ((bdmSetPriority oneAdded "sd" 5).get (by rfl)).1

/-- A second one with the default priority value 0 has been added behind it. -/
def twoAdded : Bdm Unit :=
  (bootdevAdd (onePostponed.setDev 1 (tenBytes "flash")) 1).get (by rfl)

/-- The run that leaves the list out of order. -/
theorem twoAdded_reachable : (bdmLts : Lts (Bdm Unit) _).Reachable twoAdded := by
  have start : (bdmLts : Lts (Bdm Unit) _).Reachable emptyBdm :=
    .initial ⟨rfl, rfl, rfl, rfl⟩
  have first : (bdmLts : Lts (Bdm Unit) _).Reachable oneAdded :=
    start.step trivial (BdmStep.add 0 (tenBytes "sd") (by decide)
      ⟨_, _, rfl⟩ (Option.some_get _).symm)
  have second : (bdmLts : Lts (Bdm Unit) _).Reachable onePostponed :=
    first.step trivial (BdmStep.setPriority "sd" 5
      (show bdmSetPriority oneAdded "sd" 5 = some (onePostponed, 0) from rfl))
  exact second.step trivial (BdmStep.add 1 (tenBytes "flash") (by decide)
    ⟨_, _, rfl⟩ (Option.some_get _).symm)

/-- `bdm_load` takes the file from the device of priority value 5 although an
enabled one of value 0 could load it. -/
theorem bdm_appended_unsorted :
    ¬ ∀ s : Bdm Unit, (bdmLts : Lts (Bdm Unit) _).Reachable s →
      ∀ w file, LoadsSmallest s w file := by
  intro smallest
  obtain ⟨result, loaded, -, served⟩ :=
    smallest twoAdded twoAdded_reachable () "Image"
  obtain rfl : result = ⟨10, some 0⟩ := Option.some.inj (loaded.symm.trans rfl)
  obtain ⟨id, source, -, -, least⟩ := served (by decide)
  obtain rfl : 0 = id := by simpa using source
  have le := least 1 ⟨by decide, by decide, 10, rfl, by decide⟩
  exact absurd le (by decide)

end Zsbl.Drivers
