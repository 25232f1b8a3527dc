/-
Module: Zsbl.Proofs.Automount
Purpose: automount_setup gives every recognised block device a place of its own exactly if
  the devices have places apart.
Trusted boundary: none
Main exports:
  freshVfs, emptyFs, Automounted, automount_places_all
-/
import Zsbl.Proofs.AutomountRecord
import Zsbl.Proofs.FatfsMount

namespace Zsbl.Fs

open Zsbl.Common Zsbl.Drivers Zsbl.Lib Zsbl.Libs

variable {ω π : Type} {s : Vfs ω π} {code : FsCode ω π} {contents : Contents ω π}
  {types : List FsType} {root : Nat} {places : List (List CStr × Nat)} {bare : List CStr}
  {slots : ω → Nat} {takes : Nat → π → Bool} {accepted : π → Bool} {anon : Nat}
  {record : List (Blkdev π × Option Nat)}

/-! ## A fresh VFS -/

/-- After `vfs_init` with room on the heap, the file systems are registered. -/
def freshVfs (types : List FsType) (world : ω) : Vfs ω π :=
  types.foldl (fun s type => (vfsRegisterFilesystem s (some type)).1)
    (vfsInit (vfsStatic (fun _ => true) world)).1

/-- Registering file systems changes nothing but their list. -/
theorem registered_eq (types : List FsType) (s : Vfs ω π) :
    ∃ fsTypes, types.foldl (fun s type => (vfsRegisterFilesystem s (some type)).1) s =
      { s with fsTypes := fsTypes } := by
  induction types generalizing s with
  | nil => exact ⟨s.fsTypes, rfl⟩
  | cons type types ih =>
      have one : ∃ fsTypes, (vfsRegisterFilesystem s (some type)).1 =
          { s with fsTypes := fsTypes } := by
        unfold vfsRegisterFilesystem
        split
        · exact ⟨s.fsTypes, rfl⟩
        · split
          · split
            · exact ⟨s.fsTypes, rfl⟩
            · exact ⟨_, rfl⟩
          · exact ⟨s.fsTypes, rfl⟩
      obtain ⟨first, isFirst⟩ := one
      obtain ⟨fsTypes, same⟩ := ih { s with fsTypes := first }
      exact ⟨fsTypes, by rw [List.foldl_cons, isFirst, same]⟩

/-- Nothing is mounted, and the root directory is empty. -/
theorem freshVfs_own (types : List FsType) (world : ω) :
    OwnTree (freshVfs types world : Vfs ω π) (freshVfs types world : Vfs ω π).fsTypes 0 []
      [mntName] := by
  obtain ⟨fsTypes, same⟩ :=
    registered_eq types (vfsInit (vfsStatic (fun _ => true) world : Vfs ω π)).1
  have state : (freshVfs types world : Vfs ω π) = _ := same
  have start : (vfsLts (⟨fun _ _ _ _ => none, fun _ => none, fun _ => none⟩ : FsCode ω π)).init
      (vfsInit (vfsStatic (fun _ => true) world)).1 := ⟨_, _, rfl⟩
  have inv := FileInv.initial start
  rw [state]
  have only {id : Nat} {node : VfsNode ω π}
      (live : (vfsInit (vfsStatic (fun _ => true) world : Vfs ω π)).1.nodes id = some node) :
      node = freshNode [slash] .dir none none := by
    by_cases isRoot : id = 0
    · subst isRoot
      exact (Option.some.inj live).symm
    · cases (Function.update_of_ne isRoot _ _).symm.trans live
  refine ⟨inv.refiled ⟨rfl, rfl, rfl, rfl, rfl, inv.links.files⟩, fun _ => rfl, rfl, rfl, rfl, rfl,
    fun names id node _ live => ?_, fun names m => ?_, fun name id node way live => ?_, .nil⟩
  · rw [only live]
    rfl
  · refine ⟨?_, fun member => absurd member List.not_mem_nil⟩
    rintro ⟨id, node, -, live, mnt⟩
    rw [only live] at mnt
    cases mnt
  · obtain ⟨above, node', -, live', parent, -⟩ :=
      NamedPath.concat (show NamedPath _ 0 ([] ++ [name]) id from way)
    rw [only live'] at parent
    cases parent

/-! ## Empty volumes -/

/-- A file system whose volumes are empty. -/
def emptyFs (accepted : π → Bool) : FsCode ω π where
  mount _ s _ data :=
    if data.any accepted then
      match vfsAllocDirNode s [0x65] with
      | (s, root) => some (s, ⟨root, none, none⟩, 0)
    else some (s, ⟨none, none, none⟩, -EINVAL)
  lookup _ := none
  umount _ := none

def emptyFsType : FsType := ⟨some [0x65], 1, some 0⟩

theorem emptyFs_accepts {source : Option CStr} {data : Option π} {address : Nat}
    (roomy : s.Roomy) (unused : s.Unused) (takes : data.any accepted = true) :
    (emptyFs accepted).Accepts s address source data := by
  obtain ⟨s', alloc, fresh, -⟩ :=
    vfsAllocDirNode_fresh roomy unused (show vfsNameValid [0x65] = true by decide)
  refine ⟨s', ⟨some s.nextNode, none, none⟩, s.nextNode, ?_, rfl, fresh⟩
  simp [emptyFs, takes, alloc]

theorem emptyFs_refuses {source : Option CStr} {data : Option π} {address : Nat}
    (refuses : ¬data.any accepted = true) :
    (emptyFs accepted).mount address s source data = some (s, ⟨none, none, none⟩, -EINVAL) :=
  if_neg refuses

/-- There is always a slot. -/
theorem emptyFs_recognises (accepted : π → Bool) :
    Recognises (emptyFs accepted : FsCode ω π) (fun _ _ _ _ => none) [emptyFsType] (fun _ => 1)
      (fun _ => accepted) accepted where
  serves _ _ _ _ _ _ _ isLookup := by cases isLookup
  spends := ⟨fun _ _ _ _ _ _ _ _ _ _ => rfl, fun _ _ _ _ _ _ _ _ _ => Nat.le_succ 1⟩
  registered := by
    intro type member
    obtain rfl := List.mem_singleton.mp member
    rfl
  mounts address s data _ roomy unused _ taken := emptyFs_accepts roomy unused taken
  refuses address s data _ _ _ _ refused := by
    have refuses : ¬(some data).any accepted = true := by
      rw [Option.any_some, refused]
      decide
    exact ⟨s.world, _, _, emptyFs_refuses refuses, Or.inr rfl⟩
  accepts data := by
    constructor
    · intro taken
      exact ⟨emptyFsType, List.mem_cons_self, rfl, 0, rfl, taken⟩
    · rintro ⟨type, -, -, address, -, taken⟩
      exact taken

/-- A volume of the empty file system has no names to look up. -/
theorem emptyFs_hollow (accepted : π → Bool) : (emptyFs accepted : FsCode ω π).Hollow where
  lookup _ := rfl
  mount address s source data t setup ret done id node live new := by
    unfold emptyFs at done
    simp only at done
    split at done
    · rcases vfsAllocNode_cases s [0x65] .dir none none with
        ⟨s₁, result, same⟩ | ⟨s₁, result, grown⟩
      · have alloc : vfsAllocDirNode s [0x65] = (s₁, none) := result
        rw [alloc] at done
        obtain ⟨rfl, -⟩ := Prod.mk.inj (Option.some.inj done)
        rw [same.quiet.nodes, new] at live
        cases live
      · have alloc : vfsAllocDirNode s [0x65] = (s₁, some s.nextNode) := result
        rw [alloc] at done
        obtain ⟨rfl, -⟩ := Prod.mk.inj (Option.some.inj done)
        rw [grown.nodes] at live
        by_cases isNew : id = s.nextNode
        · subst isNew
          rw [Function.update_self] at live
          obtain rfl := Option.some.inj live
          rfl
        · rw [Function.update_of_ne isNew, new] at live
          cases live
    · obtain ⟨rfl, -⟩ := Prod.mk.inj (Option.some.inj done)
      rw [new] at live
      cases live

/-- Nothing is mounted yet, and so nothing answers a lookup. -/
theorem freshVfs_barren (accepted : π → Bool) (types : List FsType) (world : ω) :
    Barren (emptyFs accepted) (freshVfs types world) where
  lookup _ := rfl
  roots m mount id node mountLive := by
    obtain ⟨fsTypes, same⟩ :=
      registered_eq types (vfsInit (vfsStatic (fun _ => true) world : Vfs ω π)).1
    have state : (freshVfs types world : Vfs ω π) = _ := same
    rw [state] at mountLive
    cases mountLive

/-! ## Every device in its place -/

/-- The mount is on a mountpoint to which the path leads, and the path shows its tree. -/
structure Reached (code : FsCode ω π) (s : Vfs ω π) (m : Nat) (mount : VfsMount π) (path : CStr) :
    Prop where
  live : s.mounts m = some mount
  mountpoint : ∃ t inner,
    vfsLookupNodeEx code s path false = some (t, some (mount.mountpoint, inner))
  shows : ∃ t, vfsLookup code s (some path) = some (t, some mount.root)

/-- Every recognised device has a mount that a path reaches, no two devices share a mountpoint,
and a /blkN is the mountpoint of a recognised anonymous device. -/
structure Automounted (code : FsCode ω π) (accepted : π → Bool) (s : Vfs ω π)
    (record : List (Blkdev π × Option Nat)) : Prop where
  placed : ∀ entry ∈ record, accepted entry.1.pointer = true →
    ∃ m mount path, entry.2 = some m ∧ Reached code s m mount path
  apart : record.Pairwise fun entry entry' => ∀ m m' mount mount', entry.2 = some m →
    entry'.2 = some m' → s.mounts m = some mount → s.mounts m' = some mount' →
    mount.mountpoint ≠ mount'.mountpoint
  leftover : ∀ root id node index, s.rootNode = some root → s.nodes id = some node →
    node.parent = some root → node.name = blkName index →
    ∃ entry ∈ record, entry.1.aliasText.chars = [] ∧ accepted entry.1.pointer = true ∧
      ∃ m mount, entry.2 = some m ∧ s.mounts m = some mount ∧ mount.mountpoint = id

theorem Blkdev.place_path (blkdev : Blkdev π) (number : Nat) :
    ∃ path : CStr, vfsIsPathValid path = true ∧ pathNames path = blkdev.place number := by
  by_cases named : blkdev.aliasText.chars ≠ []
  · exact ⟨_, mntPath_absolute _, (Blkdev.place_named named).symm⟩
  · exact ⟨slash :: blkName _, rfl,
      (pathNames_blk _).trans (Blkdev.place_anon (not_not.mp named)).symm⟩

/-- No place is past a mount if the places are apart. -/
theorem clear_iff_apart (own : OwnTree s types root places bare) :
    (∀ place ∈ places, ClearWay s root place.1) ↔ (places.map Prod.fst).Pairwise Apart := by
  constructor
  · intro clear
    refine List.pairwise_map.mpr
      (own.ordered.imp_of_mem fun {place place'} member member' less => ?_)
    have ne : place.1 ≠ place'.1 := by
      intro same
      have shown := (own.shown _ _).mpr member
      rw [same] at shown
      have equal := shown.mount_eq own.inv.tree ((own.shown _ _).mpr member')
      omega
    exact ⟨fun isPrefix => ne (own.clearWay_iff.mp (clear _ member') _ member isPrefix),
      fun isPrefix => ne (own.clearWay_iff.mp (clear _ member) _ member' isPrefix).symm⟩
  · intro apart place member
    refine own.clearWay_iff.mpr fun place' member' isPrefix => ?_
    by_contra ne
    exact (apart.forall (List.mem_map_of_mem member') (List.mem_map_of_mem member) ne).1 isPrefix

/-- A mountpoint on a way that no mount covers is reached by its path. -/
theorem Reached.of_clear (own : OwnTree s types root places bare)
    (known : Recognises code contents types slots takes accepted) {path : CStr} {m : Nat}
    (absolute : vfsIsPathValid path = true) (clear : ClearWay s root (pathNames path))
    (shown : Shown s root (pathNames path) m) : ∃ mount, Reached code s m mount path := by
  have materialises := known.serves.materialises
  obtain ⟨node, mount, mountLive, way, live, covered⟩ := shown.mounted own.inv
  refine ⟨mount, mountLive, ⟨s, none, ?_⟩, s, ?_⟩
  · rw [vfsLookupNodeEx_eq materialises own.inv.names own.roomy absolute,
      clear.resolveEx own.inv.tree own.isRoot way, if_neg Bool.false_ne_true]
  · rw [vfsLookup_eq materialises own.inv.names own.roomy absolute, ← resolveEx_true,
      clear.resolveEx own.inv.tree own.isRoot way, if_pos rfl,
      own.inv.crossAll_mount live covered mountLive]
    rfl

/-- A path that reaches a mount goes by its place, where nothing is behind the mounts. -/
theorem Reached.clear (own : OwnTree s types root places bare)
    (known : Recognises code contents types slots takes accepted) (barren : Barren code s)
    {path : CStr} {names : List CStr} {m : Nat} {mount : VfsMount π}
    (reached : Reached code s m mount path) (shown : Shown s root names m) :
    ClearWay s root names := by
  obtain ⟨mountLive, ⟨t, inner, search⟩, t', shows⟩ := reached
  have absolute : vfsIsPathValid path = true := by
    by_contra invalid
    rw [vfsLookup, if_pos (by simpa using invalid)] at shows
    cases (Prod.mk.inj (Option.some.inj shows)).2
  rw [vfsLookupNodeEx_eq known.serves.materialises own.inv.names own.roomy absolute] at search
  obtain ⟨-, id, way, clear, same⟩ :=
    barren.resolveEx own.inv own.isRoot (Option.some.inj search)
  obtain ⟨rfl, -⟩ := Prod.mk.inj same
  obtain ⟨node, mount', mountLive', way', -⟩ := shown.mounted own.inv
  obtain rfl := Option.some.inj (mountLive.symm.trans mountLive')
  rwa [way'.names_eq own.inv.tree own.isRoot way]

/-- Places that are apart are reached, and none is left to a device that is not recognised. -/
theorem Automounted.of_apart (known : Recognises code contents types slots takes accepted)
    (own : OwnTree s types root (madePlaces anon record) [mntName])
    (told : ∀ entry ∈ record, entry.2.isSome = accepted entry.1.pointer)
    (apart : ((madePlaces anon record).map Prod.fst).Pairwise Apart) :
    Automounted code accepted s record where
  placed := by
    rintro ⟨blkdev, made⟩ member isAccepted
    obtain ⟨m, rfl⟩ := Option.isSome_iff_exists.mp ((told _ member).trans isAccepted)
    obtain ⟨number, inside⟩ := mem_madePlaces anon member
    obtain ⟨path, absolute, isPlace⟩ := blkdev.place_path number
    rw [← isPlace] at inside
    obtain ⟨mount, reached⟩ := Reached.of_clear own known absolute
      ((clear_iff_apart own).mpr apart _ inside) ((own.shown _ _).mpr inside)
    exact ⟨m, mount, path, rfl, reached⟩
  apart := by
    refine (record_ordered own.ordered).imp_of_mem ?_
    rintro ⟨blkdev, _⟩ ⟨blkdev', _⟩ member member' less m m' mount mount' rfl rfl mountLive
      mountLive' same
    have before := less m m' rfl rfl
    obtain ⟨number, inside⟩ := mem_madePlaces anon member
    obtain ⟨number', inside'⟩ := mem_madePlaces anon member'
    have equal := ((own.shown _ _).mpr inside).mount_eq_of_mountpoint own.inv
      ((own.shown _ _).mpr inside') mountLive mountLive' same
    omega
  leftover := by
    intro top id node index isTop live parent name
    obtain rfl := Option.some.inj (own.isRoot.symm.trans isTop)
    obtain ⟨m, covered, inside⟩ := blkName_covered own live parent name
    obtain ⟨blkdev, number, member, isPlace⟩ := exists_of_mem_madePlaces inside
    obtain ⟨mount, mountLive, isId⟩ := own.inv.links.mounted id node m live covered
    refine ⟨_, member, ?_, (told _ member).symm, m, mount, rfl, mountLive, isId⟩
    by_contra named
    rw [Blkdev.place_named named, pathNames_mntPath] at isPlace
    exact blkName_ne_mntName index (List.cons.inj isPlace).1

/-- Where the volumes are empty, the places have to be apart. -/
theorem Automounted.placeable {devices : List (Blkdev π)} {world : ω}
    (run : automountRecord (emptyFs accepted) (freshVfs [emptyFsType] world) 0 devices =
      some (s, record))
    (automounted : Automounted (emptyFs accepted) accepted s record) :
    Placeable accepted devices := by
  have known := emptyFs_recognises (ω := ω) accepted
  have isDevices := automountRecord_devices run
  rw [show (0 : Int) = wrapInt ((0 : Nat) : Int) by decide] at run
  obtain ⟨barren, told, slashes, own⟩ := automountRecord_hollow known (emptyFs_hollow accepted)
    (freshVfs_own [emptyFsType] world) (freshVfs_barren accepted _ world)
    (fun place member => absurd member List.not_mem_nil)
    (.always (fun _ => Nat.le_refl 1) _ _ _) run fun entry member isAccepted => by
      obtain ⟨m, mount, path, made, -⟩ := automounted.placed entry member isAccepted
      rw [made]
      rfl
  rw [List.nil_append] at own
  have apart := (clear_iff_apart own).mp fun place inside => by
    obtain ⟨names, m⟩ := place
    obtain ⟨blkdev, number, member, -⟩ := exists_of_mem_madePlaces inside
    obtain ⟨m', mount, path, made, reached⟩ :=
      automounted.placed _ member (told _ member).symm
    obtain rfl := Option.some.inj made
    exact reached.clear own known barren ((own.shown _ _).mpr inside)
  rw [madePlaces_fst told, isDevices] at apart
  obtain ⟨aliases, numbers⟩ := pairwise_recognisedPlaces.mp apart
  exact ⟨slashes, aliases, numbers⟩

theorem Placeable.left {devices : List (Blkdev π)} (placeable : Placeable accepted devices) :
    PlacesLeft accepted 0 [] devices where
  proper _ member := absurd member List.not_mem_nil
  slashes := placeable.slashes
  apart := pairwise_recognisedPlaces.mpr ⟨placeable.aliases, placeable.numbers⟩

/-- `automount_setup` gives every recognised device a place of its own, whatever the file
systems are, as long as they have slots for the devices, exactly if the devices have places
apart; where the only type does not return without a slot, the slots have to last. -/
theorem automount_places_all (accepted : π → Bool) (devices : List (Blkdev π)) (world : ω) :
    ((∀ (code : FsCode ω π) (contents : Contents ω π) (types : List FsType) (slots : ω → Nat)
        (takes : Nat → π → Bool),
      Recognises code contents (freshVfs types world : Vfs ω π).fsTypes slots takes accepted →
      SlotsLast code slots (devTypes (freshVfs types world : Vfs ω π).fsTypes)
        (freshVfs types world) 0 devices →
      ∃ s' record, automountSetup code (freshVfs types world) devices = some (s', 0) ∧
        automountRecord code (freshVfs types world) 0 devices = some (s', record) ∧
        Automounted code accepted s' record) ↔
      Placeable accepted devices) ∧
    ∀ (code : FsCode ω π) (contents : Contents ω π) (types : List FsType) (slots : ω → Nat)
        (takes : Nat → π → Bool),
      Recognises code contents (freshVfs types world : Vfs ω π).fsTypes slots takes accepted →
      code.Exhausts (freshVfs types world : Vfs ω π).fsTypes slots →
      devTypes (freshVfs types world : Vfs ω π).fsTypes ≤ 1 →
      Placeable accepted devices →
      ¬SlotsLast code slots (devTypes (freshVfs types world : Vfs ω π).fsTypes)
        (freshVfs types world) 0 devices →
      automountSetup code (freshVfs types world) devices = none := by
  have zero : wrapInt ((0 : Nat) : Int) = 0 := by decide
  refine ⟨⟨fun all => ?_, fun placeable code contents types slots takes known last => ?_⟩,
    fun code contents types slots takes known exhausts one placeable spent => ?_⟩
  · obtain ⟨s', record, -, run, automounted⟩ := all (emptyFs accepted) _ [emptyFsType] _ _
      (emptyFs_recognises accepted) (.always (fun _ => Nat.le_refl 1) _ _ _)
    exact automounted.placeable run
  · obtain ⟨s', record, run, told, own⟩ := automountRecord_placed known
      (freshVfs_own types world) placeable.left (zero ▸ last)
    rw [zero] at run
    rw [List.nil_append] at own
    have setup : automountSetup code (freshVfs types world) devices = some (s', 0) := by
      rw [automountSetup, ← automountRecord_fst, run]
      rfl
    refine ⟨s', record, setup, run, .of_apart known own told ?_⟩
    rw [madePlaces_fst told, automountRecord_devices run]
    exact placeable.left.apart
  · have starved := automountFrom_starved known exhausts one (freshVfs_own types world)
      placeable.left (zero ▸ spent)
    rw [zero] at starved
    rw [automountSetup, starved]
    rfl

/-- A device with the alias "a". -/
def cardBlkdev (pointer : π) : Blkdev π where
  device := ⟨List.replicate DEVICE_NAME_MAX 0, [0x61] ++ 0 :: List.replicate 126 0⟩
  pointer := pointer
  size := by simp only [List.length_append, List.length_cons, List.length_nil,
    List.length_replicate, DEVICE_NAME_MAX]
  terminated := List.mem_append_right _ List.mem_cons_self

theorem cardBlkdev_alias (pointer : π) : (cardBlkdev pointer).aliasText.chars = [0x61] :=
  cstr_append_zero (show 0 ∉ ([0x61] : List UInt8) by decide) _

/-- A device without an alias. -/
def diskBlkdev (pointer : π) : Blkdev π where
  device := ⟨List.replicate DEVICE_NAME_MAX 0, List.replicate DEVICE_NAME_MAX 0⟩
  pointer := pointer
  size := List.length_replicate
  terminated := List.mem_replicate.mpr ⟨by decide, rfl⟩

def fatfsType : FsType := ⟨some fatfsName, 1, some 0⟩

/-- fatfs, on devices that hold a FAT volume without entries, or none. -/
def emptyFatfs : FsCode (FatWorld Unit) Bool where
  mount _ := fatfsMount ⟨fun _ => true, fun _ => true⟩ id
  lookup _ := none
  umount _ := none

theorem emptyFatfs_recognises :
    Recognises emptyFatfs (fun _ _ _ _ => none) [fatfsType] freeSlots (fun _ => id) id :=
  fatfs_recognises (fun _ _ _ _ _ _ _ isLookup => by cases isLookup)
    (fun _ _ _ _ _ _ _ _ isLookup => by cases isLookup) (by simp [fatfsType])
    ⟨0, fatfsType, List.mem_cons_self, rfl, rfl⟩ fun _ _ => rfl

/-- Two FAT volumes and a device that holds none. -/
def someDisks : List (Blkdev Bool) := [cardBlkdev true, diskBlkdev false, diskBlkdev true]

theorem someDisks_placeable : Placeable id someDisks := by
  have named : namedDevices id someDisks = [cardBlkdev true] := by rfl
  have unnamed : anonDevices id someDisks = [diskBlkdev true] := by rfl
  refine ⟨?_, ?_, ?_⟩
  · rw [named]
    intro blkdev member
    obtain rfl := List.mem_singleton.mp member
    decide
  · rw [named]
    exact List.pairwise_singleton ..
  · rw [unnamed]
    decide

def emptyTable : FatWorld Unit := ⟨emptyFatio, 0, ()⟩

/-- Every entry of `fatio_list` refers to a drive. -/
def fullTable : FatWorld Unit := ⟨⟨.replicate _ (some 0), fun _ => none⟩, 1, ()⟩

/-- With its eight slots fatfs gives the two volumes their places; without one the first
device is the last. -/
theorem automount_places_all_fatfs :
    (∃ s' record, automountSetup emptyFatfs (freshVfs [fatfsType] emptyTable) someDisks =
        some (s', 0) ∧
      automountRecord emptyFatfs (freshVfs [fatfsType] emptyTable) 0 someDisks =
        some (s', record) ∧
      Automounted emptyFatfs id s' record) ∧
    automountSetup emptyFatfs (freshVfs [fatfsType] fullTable) someDisks = none := by
  have places := automount_places_all (ω := FatWorld Unit) id someDisks
  have zero : wrapInt ((0 : Nat) : Int) = 0 := by decide
  have known := emptyFatfs_recognises
  constructor
  · refine (places emptyTable).1.mpr someDisks_placeable _ _ _ _ _ known ?_
    rw [← zero]
    exact .of_enough known (freshVfs_own [fatfsType] emptyTable) someDisks_placeable.left
      (by decide)
  · refine (places fullTable).2 _ _ _ _ _ known (fatfs_exhausts fun _ _ => rfl) (by decide)
      someDisks_placeable fun last => ?_
    have silent : CallsMount emptyFatfs (freshVfs [fatfsType] fullTable) 0 (cardBlkdev true) :=
      Option.isNone_iff_eq_none.mp (by decide +kernel)
    exact absurd (last.1 silent) (by decide)

/-- Of two recognised devices with one alias only the first gets a place. -/
theorem automount_repeated_alias :
    Recognises (emptyFs fun _ => true : FsCode Unit Unit) (fun _ _ _ _ => none)
        (freshVfs [emptyFsType] () : Vfs Unit Unit).fsTypes (fun _ => 1) (fun _ _ => true)
        (fun _ => true) ∧
      ∃ s', automountSetup (emptyFs fun _ => true) (freshVfs [emptyFsType] ())
          [cardBlkdev (), cardBlkdev ()] = some (s', 0) ∧
        automountRecord (emptyFs fun _ => true) (freshVfs [emptyFsType] ()) 0
            [cardBlkdev (), cardBlkdev ()] =
          some (s', [(cardBlkdev (), some 0), (cardBlkdev (), none)]) ∧
        ¬Automounted (emptyFs fun _ => true) (fun _ => true) s'
          [(cardBlkdev (), some 0), (cardBlkdev (), none)] := by
  have known := emptyFs_recognises (ω := Unit) (π := Unit) fun _ => true
  have named : (cardBlkdev ()).aliasText.chars ≠ [] := by
    rw [cardBlkdev_alias]
    exact List.cons_ne_nil _ _
  have slashes : ¬[slash, slash] <:+: slash :: (cardBlkdev ()).aliasText.chars := by
    rw [cardBlkdev_alias]
    decide
  -- the first device takes the place
  have own := freshVfs_own (π := Unit) [emptyFsType] ()
  obtain ⟨s₁, first, own₁⟩ := mountNamed_placed own known rfl (fun _ => Nat.le_refl 1) slashes
    fun place member => absurd member List.not_mem_nil
  have barren₁ := (mountNamed_hollow own known (emptyFs_hollow _) (freshVfs_barren _ _ _)
    (fun _ => Nat.le_refl 1) first).1
  -- and the second one cannot take it again
  obtain ⟨s₂, ret, second⟩ := mountNamed_returns own₁ known (cardBlkdev ()) fun _ => Nat.le_refl 1
  obtain ⟨-, placed, -⟩ := mountNamed_hollow own₁ known (emptyFs_hollow _) barren₁
    (fun _ => Nat.le_refl 1) second
  have failed : ret ≠ 0 := by
    intro zero
    obtain ⟨-, -, own₂⟩ := placed zero
    have shown₁ := (own₂.shown _ _).mpr (List.mem_append_left _ (List.mem_append_right _
      (List.mem_singleton_self _)))
    have shown₂ := (own₂.shown _ _).mpr (List.mem_append_right _ (List.mem_singleton_self _))
    have equal := shown₁.mount_eq own₂.inv.tree shown₂
    have less := (List.pairwise_append.mp own₂.ordered).2.2 _ (List.mem_append_right _
      (List.mem_singleton_self _)) _ (List.mem_singleton_self _)
    omega
  have run : automountRecord (emptyFs fun _ => true) (freshVfs [emptyFsType] ()) 0
      [cardBlkdev (), cardBlkdev ()] =
        some (s₂, [(cardBlkdev (), some 0), (cardBlkdev (), none)]) := by
    have zero : (0 : Int) = wrapInt ((0 : Nat) : Int) := by decide
    rw [zero, automountRecord_cons (automountDevice_named named first)
      (automountRecord_cons (automountDevice_named named second) rfl), if_pos rfl, if_neg failed]
    rfl
  refine ⟨known, s₂, ?_, run, fun automounted => ?_⟩
  · rw [automountSetup, ← automountRecord_fst, run]
    rfl
  · obtain ⟨m, mount, path, isNone, -⟩ := automounted.placed (cardBlkdev (), none) (by simp) rfl
    cases isNone

end Zsbl.Fs
