/-
Module: Zsbl.Proofs.AutomountRecord
Purpose: The mounts that a run of automount_setup makes, device by device.
Trusted boundary: none
Main exports:
  automountRecord, SlotsLast, madePlaces, automountRecord_placed, SlotsLast.of_enough,
  automountFrom_starved, automountRecord_hollow
-/
import Zsbl.Proofs.AutomountTurn

namespace Zsbl.Fs

open Zsbl.Common Zsbl.Drivers Zsbl.Lib Zsbl.Libs

variable {ω π : Type} {s s' s₁ : Vfs ω π} {code : FsCode ω π} {contents : Contents ω π}
  {types : List FsType} {root : Nat} {places : List (List CStr × Nat)} {bare : List CStr}
  {slots : ω → Nat} {takes : Nat → π → Bool} {accepted : π → Bool}

/-! ## What every device gets -/

/-- The loop of `automount_setup` with the mount that each device gets: mounts are numbered in
the order in which they are made. -/
def automountRecord (code : FsCode ω π) :
    Vfs ω π → Int → List (Blkdev π) → Option (Vfs ω π × List (Blkdev π × Option Nat))
  | s, _, [] => some (s, [])
  | s, anon, blkdev :: rest => do
      let (s₁, ret, anon) ← automountDevice code s anon blkdev
      let (s', record) ← automountRecord code s₁ anon rest
      return (s', (blkdev, if ret = 0 then some s.nextMount else none) :: record)

/-- The record does not change the run. -/
theorem automountRecord_fst (s : Vfs ω π) (anon : Int) (devices : List (Blkdev π)) :
    (automountRecord code s anon devices).map Prod.fst = automountFrom code s anon devices := by
  induction devices generalizing s anon with
  | nil => rfl
  | cons blkdev devices ih =>
      rw [automountRecord, automountFrom]
      generalize automountDevice code s anon blkdev = turn
      cases turn with
      | none => rfl
      | some turn =>
          obtain ⟨s₁, ret, anon₁⟩ := turn
          simp only [Option.bind_eq_bind, Option.bind_some, ← ih]
          cases automountRecord code s₁ anon₁ devices <;> rfl

/-- Each device has its turn, in the order of the registry. -/
theorem automountRecord_devices {anon : Int} {devices : List (Blkdev π)}
    {record : List (Blkdev π × Option Nat)}
    (run : automountRecord code s anon devices = some (s', record)) :
    record.map Prod.fst = devices := by
  induction devices generalizing s s' anon record with
  | nil =>
      obtain ⟨-, rfl⟩ := Prod.mk.inj (Option.some.inj run)
      rfl
  | cons blkdev devices ih =>
      obtain ⟨⟨s₁, ret, anon₁⟩, -, run⟩ := Option.bind_eq_some_iff.mp run
      obtain ⟨⟨s₂, rest⟩, goesOn, run⟩ := Option.bind_eq_some_iff.mp run
      obtain ⟨-, rfl⟩ := Prod.mk.inj (Option.some.inj run)
      rw [List.map_cons, ih goesOn]

/-- The file systems have slots for every device on which they are tried, as many as there
are types to try. -/
def SlotsLast (code : FsCode ω π) (slots : ω → Nat) (tries : Nat) :
    Vfs ω π → Int → List (Blkdev π) → Prop
  | _, _, [] => True
  | s, anon, blkdev :: rest =>
      (CallsMount code s anon blkdev → tries ≤ slots s.world) ∧
        ∀ s₁ ret next, automountDevice code s anon blkdev = some (s₁, ret, next) →
          SlotsLast code slots tries s₁ next rest

theorem SlotsLast.always {tries : Nat} (enough : ∀ world, tries ≤ slots world) (s : Vfs ω π)
    (anon : Int) (devices : List (Blkdev π)) : SlotsLast code slots tries s anon devices := by
  induction devices generalizing s anon with
  | nil => trivial
  | cons blkdev devices ih => exact ⟨fun _ => enough s.world, fun s₁ _ next _ => ih s₁ next⟩

/-! ## The places that are taken -/

/-- The devices that got a mount, by place and mount. -/
def madePlaces : Nat → List (Blkdev π × Option Nat) → List (List CStr × Nat)
  | _, [] => []
  | anon, (_, none) :: rest => madePlaces anon rest
  | anon, (blkdev, some m) :: rest =>
      (blkdev.place anon, m) :: madePlaces (blkdev.next anon) rest

variable {anon : Nat} {record : List (Blkdev π × Option Nat)}

/-- A place that was made is that of a device of the record. -/
theorem exists_of_mem_madePlaces {names : List CStr} {m : Nat}
    (member : (names, m) ∈ madePlaces anon record) :
    ∃ blkdev number, (blkdev, some m) ∈ record ∧ names = blkdev.place number := by
  induction record generalizing anon with
  | nil => cases member
  | cons entry rest ih =>
      obtain ⟨blkdev, made⟩ := entry
      cases made with
      | none =>
          obtain ⟨other, number, inside, same⟩ := ih member
          exact ⟨other, number, List.mem_cons_of_mem _ inside, same⟩
      | some made =>
          rcases List.mem_cons.mp member with same | later
          · obtain ⟨rfl, rfl⟩ := Prod.mk.inj same
            exact ⟨blkdev, anon, List.mem_cons_self, rfl⟩
          · obtain ⟨other, number, inside, same⟩ := ih later
            exact ⟨other, number, List.mem_cons_of_mem _ inside, same⟩

/-- Each device of the record that was mounted has its place. -/
theorem mem_madePlaces (anon : Nat) {blkdev : Blkdev π} {m : Nat}
    (member : (blkdev, some m) ∈ record) :
    ∃ number, (blkdev.place number, m) ∈ madePlaces anon record := by
  induction record generalizing anon with
  | nil => cases member
  | cons entry rest ih =>
      obtain ⟨first, made⟩ := entry
      rcases List.mem_cons.mp member with same | later
      · obtain ⟨rfl, rfl⟩ := Prod.mk.inj same
        exact ⟨anon, List.mem_cons_self⟩
      · cases made with
        | none => exact ih anon later
        | some made =>
            obtain ⟨number, inside⟩ := ih (first.next anon) later
            exact ⟨number, List.mem_cons_of_mem _ inside⟩

/-- The recognised devices take their places if they are the ones that get a mount. -/
theorem madePlaces_fst (told : ∀ entry ∈ record, entry.2.isSome = accepted entry.1.pointer) :
    (madePlaces anon record).map Prod.fst =
      recognisedPlaces accepted anon (record.map Prod.fst) := by
  induction record generalizing anon with
  | nil => rfl
  | cons entry rest ih =>
      obtain ⟨first, rest'⟩ := List.forall_mem_cons.mp told
      obtain ⟨blkdev, made⟩ := entry
      rw [List.map_cons, recognisedPlaces, ← first]
      cases made with
      | none => exact ih rest'
      | some made => exact congrArg (blkdev.place anon :: ·) (ih rest')

/-- Later devices get later mounts. -/
theorem record_ordered
    (ordered : (madePlaces anon record).Pairwise fun place place' => place.2 < place'.2) :
    record.Pairwise fun entry entry' => ∀ m m', entry.2 = some m → entry'.2 = some m' → m < m' := by
  induction record generalizing anon with
  | nil => exact .nil
  | cons entry rest ih =>
      obtain ⟨blkdev, made⟩ := entry
      cases made with
      | none => exact .cons (fun _ _ _ _ isNone => nomatch isNone) (ih ordered)
      | some made =>
          obtain ⟨first, later⟩ := List.pairwise_cons.mp ordered
          refine .cons (fun entry member m m' same same' => ?_) (ih later)
          obtain rfl := Option.some.inj same
          obtain ⟨other, isMade⟩ := entry
          obtain rfl : isMade = some m' := same'
          obtain ⟨number, inside⟩ := mem_madePlaces (blkdev.next anon) member
          exact first _ inside

/-! ## Runs -/

theorem automountRecord_cons {blkdev : Blkdev π} {devices : List (Blkdev π)} {now next ret : Int}
    (turn : automountDevice code s now blkdev = some (s₁, ret, next))
    (goesOn : automountRecord code s₁ next devices = some (s', record)) :
    automountRecord code s now (blkdev :: devices) =
      some (s', (blkdev, if ret = 0 then some s.nextMount else none) :: record) := by
  simp only [automountRecord, turn, goesOn, Option.bind_eq_bind, Option.bind_some]
  rfl

/-- No device is mounted on the root directory. -/
theorem proper_concat (proper : ∀ place ∈ places, place.1 ≠ []) (blkdev : Blkdev π)
    (anon m : Nat) : ∀ place ∈ places ++ [(blkdev.place anon, m)], place.1 ≠ [] :=
  List.forall_mem_append.mpr ⟨proper, List.forall_mem_singleton.mpr (blkdev.place_ne_nil anon)⟩

/-- The devices from a turn on have places: no alias has an empty name, and the places of the
recognised devices are apart from each other and from those that are taken. -/
structure PlacesLeft (accepted : π → Bool) (anon : Nat) (places : List (List CStr × Nat))
    (devices : List (Blkdev π)) : Prop where
  proper : ∀ place ∈ places, place.1 ≠ []
  slashes : ∀ blkdev ∈ namedDevices accepted devices,
    ¬[slash, slash] <:+: slash :: blkdev.aliasText.chars
  apart : (places.map Prod.fst ++ recognisedPlaces accepted anon devices).Pairwise Apart

namespace PlacesLeft

variable {blkdev : Blkdev π} {devices : List (Blkdev π)}

/-- A device that is not recognised takes no place. -/
theorem refused (left : PlacesLeft accepted anon places (blkdev :: devices))
    (unknown : accepted blkdev.pointer = false) : PlacesLeft accepted anon places devices where
  proper := left.proper
  slashes := by
    have slashes := left.slashes
    rwa [namedDevices_cons, if_neg (by simp [unknown])] at slashes
  apart := by
    have apart := left.apart
    rwa [recognisedPlaces, if_neg (by simp [unknown])] at apart

/-- The place of the next device is free. -/
theorem here (left : PlacesLeft accepted anon places (blkdev :: devices))
    (isAccepted : accepted blkdev.pointer = true) :
    (blkdev.aliasText.chars ≠ [] → ¬[slash, slash] <:+: slash :: blkdev.aliasText.chars) ∧
      ∀ place ∈ places, Apart place.1 (blkdev.place anon) := by
  constructor
  · intro named
    have slashes := left.slashes
    rw [namedDevices_cons, if_pos ⟨isAccepted, named⟩] at slashes
    exact slashes blkdev List.mem_cons_self
  · intro place member
    have apart := left.apart
    rw [recognisedPlaces, if_pos isAccepted] at apart
    exact (List.pairwise_append.mp apart).2.2 _ (List.mem_map_of_mem member) _ List.mem_cons_self

/-- With the device in its place the others still have theirs. -/
theorem placed (left : PlacesLeft accepted anon places (blkdev :: devices))
    (isAccepted : accepted blkdev.pointer = true) (m : Nat) :
    PlacesLeft accepted (blkdev.next anon) (places ++ [(blkdev.place anon, m)]) devices where
  proper := proper_concat left.proper blkdev anon m
  slashes other member := by
    have slashes := left.slashes
    rw [namedDevices_cons] at slashes
    split at slashes
    · exact slashes other (List.mem_cons_of_mem _ member)
    · exact slashes other member
  apart := by
    have apart := left.apart
    rw [recognisedPlaces, if_pos isAccepted] at apart
    rwa [List.map_append, List.append_assoc]

/-- A turn for which a slot is left leaves places and slots to the next ones. -/
theorem turn (left : PlacesLeft accepted anon places (blkdev :: devices))
    (own : OwnTree s types root places [mntName])
    (known : Recognises code contents types slots takes accepted)
    (room : CallsMount code s (wrapInt anon) blkdev → devTypes types ≤ slots s.world) :
    ∃ s₁ ret anon₁ places₁,
      automountDevice code s (wrapInt anon) blkdev = some (s₁, ret, wrapInt (anon₁ : Nat)) ∧
      OwnTree s₁ types root places₁ [mntName] ∧ PlacesLeft accepted anon₁ places₁ devices ∧
      (accepted blkdev.pointer = true → ret = 0 ∧ anon₁ = blkdev.next anon ∧
        places₁ = places ++ [(blkdev.place anon, s.nextMount)]) ∧
      (accepted blkdev.pointer = false → ret ≠ 0 ∧ anon₁ = anon ∧ places₁ = places) := by
  cases isAccepted : accepted blkdev.pointer with
  | false =>
      obtain ⟨s₁, ret, done, failed, own₁⟩ :=
        automountDevice_refused own known isAccepted room left.proper
      exact ⟨s₁, ret, anon, places, done, own₁, left.refused isAccepted, by simp,
        fun _ => ⟨failed, rfl, rfl⟩⟩
  | true =>
      obtain ⟨slashes, apart⟩ := left.here isAccepted
      obtain ⟨s₁, done, own₁⟩ :=
        automountDevice_placed own known isAccepted room left.proper slashes apart
      exact ⟨s₁, 0, _, _, done, own₁, left.placed isAccepted s.nextMount,
        fun _ => ⟨rfl, rfl, rfl⟩, by simp⟩

end PlacesLeft

/-- Where the recognised devices have places apart and slots are left, each of them gets its
place. -/
theorem automountRecord_placed (known : Recognises code contents types slots takes accepted)
    {devices : List (Blkdev π)} (own : OwnTree s types root places [mntName])
    (left : PlacesLeft accepted anon places devices)
    (last : SlotsLast code slots (devTypes types) s (wrapInt anon) devices) :
    ∃ s' record, automountRecord code s (wrapInt anon) devices = some (s', record) ∧
      (∀ entry ∈ record, entry.2.isSome = accepted entry.1.pointer) ∧
      OwnTree s' types root (places ++ madePlaces anon record) [mntName] := by
  induction devices generalizing s anon places with
  | nil =>
      refine ⟨s, [], rfl, fun entry member => absurd member List.not_mem_nil, ?_⟩
      rwa [madePlaces, List.append_nil]
  | cons blkdev devices ih =>
      obtain ⟨room, later⟩ := last
      obtain ⟨s₁, ret, anon₁, places₁, turn, own₁, left₁, placed, refused⟩ :=
        left.turn own known room
      obtain ⟨s', record, goesOn, told, own'⟩ := ih own₁ left₁ (later s₁ ret _ turn)
      have run := automountRecord_cons turn goesOn
      cases isAccepted : accepted blkdev.pointer with
      | false =>
          obtain ⟨failed, rfl, rfl⟩ := refused isAccepted
          rw [if_neg failed] at run
          exact ⟨s', _, run, List.forall_mem_cons.mpr ⟨isAccepted.symm, told⟩, own'⟩
      | true =>
          obtain ⟨rfl, rfl, rfl⟩ := placed isAccepted
          rw [if_pos rfl] at run
          refine ⟨s', _, run, List.forall_mem_cons.mpr ⟨isAccepted.symm, told⟩, ?_⟩
          rwa [madePlaces, List.append_cons]

/-- As many slots as there are devices to try all types on are enough. -/
theorem SlotsLast.of_enough (known : Recognises code contents types slots takes accepted)
    {devices : List (Blkdev π)} (own : OwnTree s types root places [mntName])
    (left : PlacesLeft accepted anon places devices)
    (enough : devices.length * devTypes types ≤ slots s.world) :
    SlotsLast code slots (devTypes types) s (wrapInt anon) devices := by
  induction devices generalizing s anon places with
  | nil => trivial
  | cons blkdev devices ih =>
      rw [List.length_cons, Nat.succ_mul] at enough
      have room : devTypes types ≤ slots s.world := by omega
      refine ⟨fun _ => room, fun s₁ ret next turn => ?_⟩
      obtain ⟨s₂, ret₂, anon₂, places₂, turn₂, own₂, left₂, -⟩ :=
        left.turn own known fun _ => room
      obtain ⟨rfl, rest⟩ := Prod.mk.inj (Option.some.inj (turn₂.symm.trans turn))
      obtain ⟨-, rfl⟩ := Prod.mk.inj rest
      have spent := automountDevice_slots own known turn
      exact ih own₂ left₂ (by omega)

/-- Where nothing returns without a slot, the loop ends only if the slots last. -/
theorem automountFrom_starved (known : Recognises code contents types slots takes accepted)
    (exhausts : code.Exhausts types slots) (one : devTypes types ≤ 1) {devices : List (Blkdev π)}
    (own : OwnTree s types root places [mntName])
    (left : PlacesLeft accepted anon places devices)
    (spent : ¬SlotsLast code slots (devTypes types) s (wrapInt anon) devices) :
    automountFrom code s (wrapInt anon) devices = none := by
  induction devices generalizing s anon places with
  | nil => exact absurd trivial spent
  | cons blkdev devices ih =>
      by_cases room : CallsMount code s (wrapInt anon) blkdev → devTypes types ≤ slots s.world
      · obtain ⟨s₁, ret, anon₁, places₁, turn, own₁, left₁, -⟩ := left.turn own known room
        have later : ¬SlotsLast code slots (devTypes types) s₁ (wrapInt anon₁) devices := by
          intro last
          refine spent ⟨room, fun s₂ ret₂ next turn₂ => ?_⟩
          obtain ⟨rfl, rest⟩ := Prod.mk.inj (Option.some.inj (turn.symm.trans turn₂))
          obtain ⟨-, rfl⟩ := Prod.mk.inj rest
          exact last
        simp only [automountFrom, turn, Option.bind_eq_bind, Option.bind_some]
        exact ih own₁ left₁ later
      · obtain ⟨calls, short⟩ := Classical.not_imp.mp room
        have starved := automountDevice_starved own known exhausts (by omega) (by omega)
          left.proper calls
        simp only [automountFrom, starved, Option.bind_eq_bind, Option.bind_none]

/-- Where the volumes are empty and every recognised device gets a mount, it got its place. -/
theorem automountRecord_hollow (known : Recognises code contents types slots takes accepted)
    (hollow : code.Hollow) {devices : List (Blkdev π)}
    (own : OwnTree s types root places [mntName]) (barren : Barren code s)
    (proper : ∀ place ∈ places, place.1 ≠ [])
    (last : SlotsLast code slots (devTypes types) s (wrapInt anon) devices)
    (run : automountRecord code s (wrapInt anon) devices = some (s', record))
    (all : ∀ entry ∈ record, accepted entry.1.pointer = true → entry.2.isSome) :
    Barren code s' ∧ (∀ entry ∈ record, entry.2.isSome = accepted entry.1.pointer) ∧
      (∀ blkdev ∈ namedDevices accepted devices,
        ¬[slash, slash] <:+: slash :: blkdev.aliasText.chars) ∧
      OwnTree s' types root (places ++ madePlaces anon record) [mntName] := by
  induction devices generalizing s s' anon places record with
  | nil =>
      obtain ⟨rfl, rfl⟩ := Prod.mk.inj (Option.some.inj run)
      refine ⟨barren, fun entry member => absurd member List.not_mem_nil,
        fun blkdev member => absurd member List.not_mem_nil, ?_⟩
      rwa [madePlaces, List.append_nil]
  | cons blkdev devices ih =>
      obtain ⟨⟨s₁, ret, next⟩, turn, run⟩ := Option.bind_eq_some_iff.mp run
      obtain ⟨⟨s₂, rest⟩, goesOn, run⟩ := Option.bind_eq_some_iff.mp run
      obtain ⟨rfl, rfl⟩ := Prod.mk.inj (Option.some.inj run)
      obtain ⟨first, later⟩ := List.forall_mem_cons.mp all
      obtain ⟨room, lasts⟩ := last
      have lasts := lasts s₁ ret next turn
      obtain ⟨barren₁, placed, failed⟩ :=
        automountDevice_hollow own known hollow barren room proper turn
      rw [namedDevices_cons]
      by_cases zero : ret = 0
      · obtain ⟨isAccepted, here, number, own₁⟩ := placed zero
        rw [number] at goesOn lasts
        obtain ⟨barren', told, slashes, own'⟩ := ih own₁ barren₁
          (proper_concat proper blkdev anon _) lasts goesOn later
        rw [if_pos zero]
        refine ⟨barren', List.forall_mem_cons.mpr ⟨isAccepted.symm, told⟩, ?_, ?_⟩
        · split
          · next named => exact List.forall_mem_cons.mpr ⟨here named.2, slashes⟩
          · exact slashes
        · rwa [madePlaces, List.append_cons]
      · obtain ⟨number, own₁⟩ := failed zero
        rw [number] at goesOn lasts
        obtain ⟨barren', told, slashes, own'⟩ := ih own₁ barren₁ proper lasts goesOn later
        rw [if_neg zero] at first ⊢
        have unknown : accepted blkdev.pointer = false := by
          cases isAccepted : accepted blkdev.pointer with
          | false => rfl
          | true => exact absurd (first isAccepted) (by simp)
        refine ⟨barren', List.forall_mem_cons.mpr ⟨unknown.symm, told⟩, ?_, own'⟩
        rwa [if_neg (by simp [unknown])]

end Zsbl.Fs
