/-
Module: Zsbl.Proofs.AutomountTurn
Purpose: What a turn of automount_setup does to the VFS's own tree.
Trusted boundary: none
Main exports:
  mountNamed_placed, mountNamed_hollow, mountAnon_spec, automountDevice_placed,
  automountDevice_refused, automountDevice_hollow
-/
import Zsbl.Proofs.AutomountNames
import Zsbl.Proofs.VfsOwnTree

namespace Zsbl.Fs

open Zsbl.Common Zsbl.Drivers Zsbl.Lib Zsbl.Libs

variable {ω π : Type} {s s' : Vfs ω π} {code : FsCode ω π} {contents : Contents ω π}
  {types : List FsType} {root : Nat} {places : List (List CStr × Nat)} {bare : List CStr}
  {slots : ω → Nat} {takes : Nat → π → Bool} {accepted : π → Bool}

/-! ## A device with an alias -/

section Named

variable {blkdev : Blkdev π}

theorem mntPath_absolute (aliasName : CStr) : vfsIsPathValid (mntPath aliasName) = true := rfl

/-- `mount_named` makes the directory and mounts on it, whatever the file systems are. -/
theorem mountNamed_mkdir (own : OwnTree s types root places [mntName]) (blkdev : Blkdev π) :
    ∃ s₁ id, (∀ code : FsCode ω π, mountNamed code s blkdev blkdev.aliasText =
        vfsMount code s₁ none (some (mntPath blkdev.aliasText.chars)) none
          (some blkdev.pointer)) ∧
      s₁.world = s.world ∧ Builds s s₁ ∧ OwnTree s₁ types root places [mntName] ∧
      NamedPath s₁ root (segments (mntPath blkdev.aliasText.chars)) id ∧
      ∀ id, (s₁.nodes id).isSome → s.nodes id = none → Under s₁ root id := by
  obtain ⟨path, isPath, chars⟩ := printed_mnt blkdev
  obtain ⟨s₁, id, made, rest⟩ := own.vfsMkdirP (mntPath_absolute blkdev.aliasText.chars) (by
    intro name first
    rw [segments_mntPath] at first
    exact List.mem_singleton.mpr (Option.some.inj first).symm)
  refine ⟨s₁, id, fun code => ?_, (vfsMkdirP_nodesOnly made).world, rest⟩
  simp only [mountNamed, isPath, chars, made, Option.bind_eq_bind, Option.bind_some]

/-- The directory takes no slot. -/
theorem mountNamed_room (own : OwnTree s types root places [mntName])
    (room : mountNamed code.mute s blkdev blkdev.aliasText = none →
      devTypes types ≤ slots s.world) :
    ∃ s₁ id, mountNamed code s blkdev blkdev.aliasText =
        vfsMount code s₁ none (some (mntPath blkdev.aliasText.chars)) none
          (some blkdev.pointer) ∧
      (vfsMount code.mute s₁ none (some (mntPath blkdev.aliasText.chars)) none
        (some blkdev.pointer) = none → devTypes types ≤ slots s₁.world) ∧
      Builds s s₁ ∧ OwnTree s₁ types root places [mntName] ∧
      NamedPath s₁ root (segments (mntPath blkdev.aliasText.chars)) id ∧
      ∀ id, (s₁.nodes id).isSome → s.nodes id = none → Under s₁ root id := by
  obtain ⟨s₁, id, mounts, world, rest⟩ := mountNamed_mkdir own blkdev
  refine ⟨s₁, id, mounts code, fun silent => ?_, rest⟩
  rw [world]
  exact room ((mounts code.mute).trans silent)

/-- A recognised device is mounted where neither slashes nor other places are in its way. -/
theorem mountNamed_placed (own : OwnTree s types root places [mntName])
    (known : Recognises code contents types slots takes accepted)
    (isAccepted : accepted blkdev.pointer = true)
    (room : mountNamed code.mute s blkdev blkdev.aliasText = none →
      devTypes types ≤ slots s.world)
    (slashes : ¬[slash, slash] <:+: slash :: blkdev.aliasText.chars)
    (apart : ∀ place ∈ places, Apart place.1 (pathNames (mntPath blkdev.aliasText.chars))) :
    ∃ s', mountNamed code s blkdev blkdev.aliasText = some (s', 0) ∧
      OwnTree s' types root
        (places ++ [(pathNames (mntPath blkdev.aliasText.chars), s.nextMount)]) [mntName] := by
  have absolute := mntPath_absolute blkdev.aliasText.chars
  obtain ⟨s₁, id, mounts, room₁, builds, own₁, way, -⟩ := mountNamed_room own room
  rw [segments_pathNames absolute (slashes_mntPath _ |>.not.mpr slashes)] at way
  generalize mntPath blkdev.aliasText.chars = path at absolute mounts room₁ way apart ⊢
  have clear : ClearWay s₁ root (pathNames path) :=
    own₁.clearWay_iff.mpr fun place member isPrefix => absurd isPrefix (apart place member).1
  have uncovered (m : Nat) : ¬Shown s₁ root (pathNames path) m := fun shown =>
    (apart _ ((own₁.shown _ _).mp shown)).1 List.prefix_rfl
  obtain ⟨s', done, -, covers⟩ :=
    own₁.vfsMount_placed known isAccepted room₁ absolute clear way uncovered
  have taken := covers [mntName] fun name member _ => member
  rw [(builds.tree own.inv.tree).2.nextMount] at taken
  exact ⟨s', mounts.trans done, taken⟩

/-- A device that is not recognised leaves directories at most. -/
theorem mountNamed_refused (own : OwnTree s types root places [mntName])
    (known : Recognises code contents types slots takes accepted)
    (unknown : accepted blkdev.pointer = false)
    (room : mountNamed code.mute s blkdev blkdev.aliasText = none →
      devTypes types ≤ slots s.world) :
    ∃ s' ret, mountNamed code s blkdev blkdev.aliasText = some (s', ret) ∧ ret ≠ 0 ∧
      OwnTree s' types root places [mntName] := by
  obtain ⟨s₁, id, mounts, room₁, -, own₁, -⟩ := mountNamed_room own room
  obtain ⟨s', ret, done, returns⟩ := own₁.vfsMount_returns known
    (mntPath blkdev.aliasText.chars) blkdev.pointer room₁
  have failed : ret ≠ 0 := by
    intro zero
    rw [(returns.mp zero).1] at unknown
    cases unknown
  exact ⟨s', ret, mounts.trans done, failed,
    (own₁.vfsMount_failed known (mntPath_absolute _) room₁ done failed).2.2⟩

/-- While slots are left for all types the turn comes back. -/
theorem mountNamed_returns (own : OwnTree s types root places [mntName])
    (known : Recognises code contents types slots takes accepted) (blkdev : Blkdev π)
    (room : mountNamed code.mute s blkdev blkdev.aliasText = none →
      devTypes types ≤ slots s.world) :
    ∃ s' ret, mountNamed code s blkdev blkdev.aliasText = some (s', ret) := by
  obtain ⟨s₁, id, mounts, room₁, -, own₁, -⟩ := mountNamed_room own room
  obtain ⟨s', ret, done, -⟩ := own₁.vfsMount_returns known
    (mntPath blkdev.aliasText.chars) blkdev.pointer room₁
  exact ⟨s', ret, mounts.trans done⟩

/-- Where the volumes are empty, a device is mounted in the VFS's own tree or not at all. -/
theorem mountNamed_hollow (own : OwnTree s types root places [mntName])
    (known : Recognises code contents types slots takes accepted) (hollow : code.Hollow)
    (barren : Barren code s)
    (room : mountNamed code.mute s blkdev blkdev.aliasText = none →
      devTypes types ≤ slots s.world) {ret : Int}
    (done : mountNamed code s blkdev blkdev.aliasText = some (s', ret)) :
    Barren code s' ∧
      (ret = 0 → accepted blkdev.pointer = true ∧
        ¬[slash, slash] <:+: slash :: blkdev.aliasText.chars ∧
        OwnTree s' types root
          (places ++ [(pathNames (mntPath blkdev.aliasText.chars), s.nextMount)]) [mntName]) ∧
      (ret ≠ 0 → OwnTree s' types root places [mntName]) := by
  obtain ⟨s₁, id, mounts, room₁, builds, own₁, -, new⟩ := mountNamed_room own room
  have grown := (builds.tree own.inv.tree).2
  have barren₁ := barren.grown own₁.inv own₁.isRoot own.rootLive grown new
  rw [mounts] at done
  by_cases zero : ret = 0
  · subst zero
    obtain ⟨t, ret, done', returns⟩ := own₁.vfsMount_returns known
      (mntPath blkdev.aliasText.chars) blkdev.pointer room₁
    obtain ⟨-, isRet⟩ := Prod.mk.inj (Option.some.inj (done.symm.trans done'))
    obtain ⟨isAccepted, -⟩ := returns.mp isRet.symm
    obtain ⟨s₂, world, mp, inner, search, ⟨type, mountedAs⟩, covers⟩ :=
      own₁.vfsMount_done known room₁ done
    obtain ⟨rfl, id, way, clear, same⟩ := barren₁.resolveEx own₁.inv own₁.isRoot search
    obtain ⟨rfl, -⟩ := Prod.mk.inj same
    have taken := covers _ [mntName] way fun name member _ => member
    rw [grown.nextMount] at taken
    refine ⟨(barren₁.world world).mountedAs (own₁.world world).inv.tree hollow mountedAs,
      fun _ => ⟨isAccepted, fun meet => ?_, taken⟩, fun failed => absurd rfl failed⟩
    have empty : [] ∈ pathNames (mntPath blkdev.aliasText.chars) := by
      rw [pathNames_mntPath]
      exact List.mem_cons_of_mem _ ((empty_name_iff _).mpr meet)
    have valid := way.valid own₁.inv.tree _ empty
    cases valid
  · obtain ⟨-, filled, own'⟩ := own₁.vfsMount_failed known (mntPath_absolute _) room₁ done zero
    exact ⟨barren₁.filled filled, fun isZero => absurd isZero zero, fun _ => own'⟩

theorem mountNamed_slots (own : OwnTree s types root places [mntName])
    (known : Recognises code contents types slots takes accepted) {ret : Int}
    (done : mountNamed code s blkdev blkdev.aliasText = some (s', ret)) :
    slots s.world ≤ slots s'.world + devTypes types := by
  obtain ⟨s₁, id, mounts, world, -, own₁, -⟩ := mountNamed_mkdir own blkdev
  rw [mounts code] at done
  rw [← world]
  exact own₁.vfsMount_slots known done

/-- Without a slot a turn that comes to a `mount` callback does not come back. -/
theorem mountNamed_starved (own : OwnTree s types root places [mntName])
    (known : Recognises code contents types slots takes accepted)
    (exhausts : code.Exhausts types slots) (spent : slots s.world = 0) (tries : 0 < devTypes types)
    (calls : mountNamed code.mute s blkdev blkdev.aliasText = none) :
    mountNamed code s blkdev blkdev.aliasText = none := by
  obtain ⟨s₁, id, mounts, world, -, own₁, -⟩ := mountNamed_mkdir own blkdev
  rw [mounts] at calls ⊢
  obtain ⟨s₂, mp, free⟩ := own₁.vfsMount_calls known calls
  exact own₁.vfsMount_starved known exhausts (by rw [world, spent]) tries free

end Named

/-! ## A device without one -/

section Anonymous

variable {blkdev : Blkdev π} {index : Int}

theorem pathNames_blk (index : Int) : pathNames (slash :: blkName index) = [blkName index] := by
  obtain ⟨ne, absent⟩ := vfsNameValid_iff.mp (blkName_valid index)
  exact namesOf_last ne absent

/-- A directory /blkN is covered. -/
theorem blkName_covered (own : OwnTree s types root places [mntName]) {id : Nat}
    {node : VfsNode ω π} (live : s.nodes id = some node) (parent : node.parent = some root)
    (name : node.name = blkName index) :
    ∃ m, node.mnt = some m ∧ ([blkName index], m) ∈ places := by
  have way : NamedPath s root [blkName index] id := name ▸ NamedPath.root.child live parent
  cases covered : node.mnt with
  | none =>
      have bare := own.tops _ id node way live covered
      exact absurd (List.mem_singleton.mp bare) (blkName_ne_mntName index)
  | some m => exact ⟨m, rfl, (own.shown _ m).mp ⟨id, node, way, live, covered⟩⟩

/-- A name /blkN is free unless an anonymous device is mounted there. -/
theorem blkName_free (own : OwnTree s types root places [mntName]) :
    childNamed s root (blkName index) = none ↔ ∀ place ∈ places, place.1 ≠ [blkName index] := by
  constructor
  · rintro absent ⟨names, m⟩ member rfl
    obtain ⟨id, node, way, -⟩ := (own.shown _ _).mpr member
    obtain ⟨above, node', way', live, parent, name⟩ :=
      NamedPath.concat (show NamedPath s root ([] ++ [blkName index]) id from way)
    obtain rfl := way'.nil
    have found := childNamed_child own.inv.tree live parent
    rw [name, absent] at found
    cases found
  · intro free
    cases found : childNamed s root (blkName index) with
    | none => rfl
    | some id =>
        obtain ⟨node, live, parent, name⟩ := childNamed_spec own.inv.tree found
        obtain ⟨m, -, inside⟩ := blkName_covered own live parent name
        exact absurd rfl (free _ inside)

/-- `mount_anon` makes the directory, mounts on it and takes it back if it cannot. -/
theorem mountAnon_mkdir (own : OwnTree s types root places [mntName]) (blkdev : Blkdev π)
    (free : ∀ place ∈ places, place.1 ≠ [blkName index]) :
    ∃ s₁, (∀ code : FsCode ω π, mountAnon code s blkdev index =
        (vfsMount code s₁ none (some (slash :: blkName index)) none
          (some blkdev.pointer)).bind fun step =>
            if step.2 ≠ 0 then
              (vfsUnlink step.1 step.1.rootNode (blkName index)).map fun undone => (undone.1, -1)
            else some (step.1, 0)) ∧
      s₁.world = s.world ∧ Builds s s₁ ∧
      OwnTree s₁ types root places [blkName index, mntName] ∧
      NamedPath s₁ root [blkName index] s.nextNode ∧
      (∃ leaf, s₁.nodes s.nextNode = some leaf ∧ leaf.name = blkName index ∧
        leaf.parent = some root ∧ leaf.child = none ∧ leaf.mnt = none) ∧
      ∀ id, (s₁.nodes id).isSome → s.nodes id = none → Under s₁ root id := by
  obtain ⟨name, isName, chars, short⟩ := printed_blk (fun _ => .empty) index
  obtain ⟨path, isPath, pathChars⟩ := printed_root name short
  rw [chars] at pathChars
  obtain ⟨s₁, dir, made, builds, live, grown, own₁, way, new⟩ := own.vfsMkdir .root
    (blkName_valid index) ((blkName_free own).mpr free)
    (fun _ => show blkName index ∈ [blkName index, mntName] from List.mem_cons_self)
    (List.subset_cons_self _ _)
  have leafLive := congrFun grown.nodes s.nextNode
  rw [withChild_new (Nat.ne_of_gt (own.inv.tree.lt root dir live))] at leafLive
  refine ⟨s₁, fun code => ?_, grown.world, builds, own₁, way, ⟨_, leafLive, rfl, rfl, rfl, rfl⟩,
    new⟩
  simp only [mountAnon, isName, chars, own.isRoot, made, isPath, pathChars, Option.bind_eq_bind,
    Option.bind_some]
  congr 1
  funext ⟨s₂, ret⟩
  simp only
  split
  · cases vfsUnlink s₂ s₂.rootNode (blkName index) <;> rfl
  · rfl

/-- The directory takes no slot. -/
theorem mountAnon_room (own : OwnTree s types root places [mntName])
    (room : mountAnon code.mute s blkdev index = none → devTypes types ≤ slots s.world)
    (free : ∀ place ∈ places, place.1 ≠ [blkName index]) :
    ∃ s₁, (∀ s₂ ret, vfsMount code s₁ none (some (slash :: blkName index)) none
          (some blkdev.pointer) = some (s₂, ret) →
        mountAnon code s blkdev index =
          if ret ≠ 0 then
            (vfsUnlink s₂ s₂.rootNode (blkName index)).map fun undone => (undone.1, -1)
          else some (s₂, 0)) ∧
      (vfsMount code.mute s₁ none (some (slash :: blkName index)) none
        (some blkdev.pointer) = none → devTypes types ≤ slots s₁.world) ∧
      Builds s s₁ ∧ OwnTree s₁ types root places [blkName index, mntName] ∧
      NamedPath s₁ root [blkName index] s.nextNode ∧
      (∃ leaf, s₁.nodes s.nextNode = some leaf ∧ leaf.name = blkName index ∧
        leaf.parent = some root ∧ leaf.child = none ∧ leaf.mnt = none) ∧
      ∀ id, (s₁.nodes id).isSome → s.nodes id = none → Under s₁ root id := by
  obtain ⟨s₁, mounts, world, rest⟩ := mountAnon_mkdir own blkdev free
  refine ⟨s₁, fun s₂ ret done => ?_, fun silent => ?_, rest⟩
  · rw [mounts code, done]
    rfl
  · rw [world]
    refine room ?_
    rw [mounts code.mute, silent]
    rfl

/-- Another device has the name. -/
theorem mountAnon_taken (own : OwnTree s types root places [mntName]) (blkdev : Blkdev π)
    (taken : ¬∀ place ∈ places, place.1 ≠ [blkName index]) :
    mountAnon code s blkdev index = some (s, -1) := by
  obtain ⟨name, isName, chars, -⟩ := printed_blk (fun _ => .empty) index
  obtain ⟨top, live⟩ := Option.isSome_iff_exists.mp own.rootLive
  obtain ⟨id, found⟩ := Option.ne_none_iff_exists'.mp ((blkName_free own).not.mpr taken)
  have refused : vfsMkdir s (some root) (blkName index) = some (s, none) :=
    vfsMknod_present own.inv.tree live found ⟨.dir, none, none⟩
  simp only [mountAnon, isName, chars, own.isRoot, refused, Option.bind_eq_bind, Option.bind_some]
  rfl

/-- The way to a new directory in the root directory is clear. -/
theorem blkName_clear (own : OwnTree s types root places bare)
    (proper : ∀ place ∈ places, place.1 ≠ [])
    (free : ∀ place ∈ places, place.1 ≠ [blkName index]) :
    ClearWay s root [blkName index] ∧ ∀ m, ¬Shown s root [blkName index] m := by
  refine ⟨own.clearWay_iff.mpr fun place member isPrefix => ?_, fun m shown => ?_⟩
  · rcases List.prefix_cons_iff.mp isPrefix with empty | ⟨rest, same, isPrefix⟩
    · exact absurd empty (proper place member)
    · rw [same, List.prefix_nil.mp isPrefix]
  · exact free _ ((own.shown _ m).mp shown) rfl

/-- A recognised device is mounted at its number. -/
theorem mountAnon_placed (own : OwnTree s types root places [mntName])
    (known : Recognises code contents types slots takes accepted)
    (isAccepted : accepted blkdev.pointer = true)
    (room : mountAnon code.mute s blkdev index = none → devTypes types ≤ slots s.world)
    (proper : ∀ place ∈ places, place.1 ≠ [])
    (free : ∀ place ∈ places, place.1 ≠ [blkName index]) :
    ∃ s', mountAnon code s blkdev index = some (s', 0) ∧
      OwnTree s' types root (places ++ [([blkName index], s.nextMount)]) [mntName] ∧
      (code.Hollow → Barren code s → Barren code s') := by
  obtain ⟨s₁, mounts, room₁, builds, own₁, way, -, new⟩ := mountAnon_room own room free
  have grown := (builds.tree own.inv.tree).2
  obtain ⟨clear, uncovered⟩ := blkName_clear own₁ proper free
  rw [← pathNames_blk] at clear way uncovered
  obtain ⟨s', done, ⟨world, type, mountedAs⟩, covers⟩ :=
    own₁.vfsMount_placed known isAccepted room₁ rfl clear way uncovered
  rw [pathNames_blk] at covers
  have taken := covers [mntName] fun name member ne =>
    (List.mem_cons.mp member).resolve_left fun same => ne (by rw [same])
  rw [grown.nextMount] at taken
  refine ⟨s', (mounts _ _ done).trans (if_neg (not_not.mpr rfl)), taken, fun hollow barren => ?_⟩
  have barren₁ := barren.grown own₁.inv own₁.isRoot own.rootLive grown new
  exact (barren₁.world world).mountedAs (own₁.world world).inv.tree hollow mountedAs

/-- A device that is not recognised leaves the tree as it is. -/
theorem mountAnon_refused (own : OwnTree s types root places [mntName])
    (known : Recognises code contents types slots takes accepted)
    (unknown : accepted blkdev.pointer = false)
    (room : mountAnon code.mute s blkdev index = none → devTypes types ≤ slots s.world)
    (proper : ∀ place ∈ places, place.1 ≠ []) :
    ∃ s', mountAnon code s blkdev index = some (s', -1) ∧
      OwnTree s' types root places [mntName] ∧
      (Barren code s → Barren code s') := by
  by_cases free : ∀ place ∈ places, place.1 ≠ [blkName index]
  · obtain ⟨s₁, mounts, room₁, builds, own₁, way,
      ⟨leaf, live, name, parent, childless, unmounted⟩, new⟩ := mountAnon_room own room free
    obtain ⟨clear, -⟩ := blkName_clear own₁ proper free
    obtain ⟨s₂, ret, done, returns⟩ := own₁.vfsMount_returns known (slash :: blkName index)
      blkdev.pointer room₁
    have failed : ret ≠ 0 := by
      intro zero
      rw [(returns.mp zero).1] at unknown
      cases unknown
    -- the lookup of the directory changes nothing
    obtain ⟨world, rfl⟩ : ∃ world, s₂ = { s₁ with world := world } := by
      obtain ⟨t, world, same, rfl⟩ := (own₁.vfsMount_failed known rfl room₁ done failed).1
      refine ⟨world, ?_⟩
      rcases same with rfl | same
      · rfl
      · rw [← pathNames_blk] at clear way
        rw [same, clear.resolveEx own₁.inv.tree own₁.isRoot way]
    have ownW := own₁.world world
    obtain ⟨s', unlinks, unlinked, own'⟩ := ownW.vfsUnlink live parent childless unmounted
      (fun name' member ne => show name' ∈ [mntName] by
        exact (List.mem_cons.mp member).resolve_left (name ▸ ne))
    rw [name] at unlinks
    refine ⟨s', ?_, own', fun barren => ?_⟩
    · have undone := (congrArg (fun top => vfsUnlink { s₁ with world := world } top
        (blkName index)) own₁.isRoot).trans unlinks
      rw [mounts _ _ done, if_pos failed, undone]
      rfl
    · have grown := (builds.tree own.inv.tree).2
      have barren₁ := barren.grown own₁.inv own₁.isRoot own.rootLive grown new
      exact (barren₁.world world).unlinked unlinked
  · exact ⟨s, mountAnon_taken own blkdev free, own, fun barren => barren⟩

/-- What becomes of an anonymous device. -/
theorem mountAnon_spec (own : OwnTree s types root places [mntName])
    (known : Recognises code contents types slots takes accepted)
    (room : mountAnon code.mute s blkdev index = none → devTypes types ≤ slots s.world)
    (proper : ∀ place ∈ places, place.1 ≠ []) :
    ∃ s' ret, mountAnon code s blkdev index = some (s', ret) ∧
      (ret = 0 ↔ accepted blkdev.pointer = true ∧ ∀ place ∈ places, place.1 ≠ [blkName index]) ∧
      (ret = 0 →
        OwnTree s' types root (places ++ [([blkName index], s.nextMount)]) [mntName]) ∧
      (ret ≠ 0 → OwnTree s' types root places [mntName]) ∧
      (code.Hollow → Barren code s → Barren code s') := by
  have failed : (-1 : Int) ≠ 0 := by decide
  cases isAccepted : accepted blkdev.pointer with
  | false =>
      obtain ⟨s', done, own', barren'⟩ := mountAnon_refused own known isAccepted room proper
      exact ⟨s', -1, done, by simp, fun zero => absurd zero failed, fun _ => own', fun _ => barren'⟩
  | true =>
      by_cases free : ∀ place ∈ places, place.1 ≠ [blkName index]
      · obtain ⟨s', done, own', barren'⟩ := mountAnon_placed own known isAccepted room proper free
        exact ⟨s', 0, done, by simpa using free, fun _ => own', fun ne => absurd rfl ne, barren'⟩
      · exact ⟨s, -1, mountAnon_taken own blkdev free, by simpa using free,
          fun zero => absurd zero failed, fun _ => own, fun _ barren => barren⟩

/-- A turn takes a slot for each type at most. -/
theorem mountAnon_slots (own : OwnTree s types root places [mntName])
    (known : Recognises code contents types slots takes accepted) {ret : Int}
    (done : mountAnon code s blkdev index = some (s', ret)) :
    slots s.world ≤ slots s'.world + devTypes types := by
  by_cases free : ∀ place ∈ places, place.1 ≠ [blkName index]
  · obtain ⟨s₁, mounts, world, -, own₁, -⟩ := mountAnon_mkdir own blkdev free
    rw [mounts code] at done
    obtain ⟨⟨s₂, ret₂⟩, mounted, done⟩ := Option.bind_eq_some_iff.mp done
    have spent := own₁.vfsMount_slots known mounted
    rw [world] at spent
    simp only at done
    split at done
    · obtain ⟨undone, unlinked, same⟩ := Option.map_eq_some_iff.mp done
      obtain ⟨rfl, -⟩ := Prod.mk.inj same
      rwa [(vfsUnlink_nodesOnly unlinked).world]
    · obtain ⟨rfl, -⟩ := Prod.mk.inj (Option.some.inj done)
      exact spent
  · rw [mountAnon_taken own blkdev free] at done
    obtain ⟨rfl, -⟩ := Prod.mk.inj (Option.some.inj done)
    exact Nat.le_add_right _ _

/-- Without a slot the turn of an anonymous device does not come back either. -/
theorem mountAnon_starved (own : OwnTree s types root places [mntName])
    (known : Recognises code contents types slots takes accepted)
    (exhausts : code.Exhausts types slots) (spent : slots s.world = 0) (tries : 0 < devTypes types)
    (proper : ∀ place ∈ places, place.1 ≠ [])
    (calls : mountAnon code.mute s blkdev index = none) : mountAnon code s blkdev index = none := by
  by_cases free : ∀ place ∈ places, place.1 ≠ [blkName index]
  · obtain ⟨s₁, mounts, world, -, own₁, way, -⟩ := mountAnon_mkdir own blkdev free
    obtain ⟨clear, uncovered⟩ := blkName_clear own₁ proper free
    rw [← pathNames_blk] at clear way uncovered
    have target := own₁.freeTarget known rfl clear way uncovered
    rw [mounts, own₁.vfsMount_starved known exhausts (by rw [world, spent]) tries target]
    rfl
  · rw [mountAnon_taken own blkdev free] at calls
    cases calls

end Anonymous

/-! ## A turn -/

section Device

variable {blkdev : Blkdev π} {anon : Nat}

theorem wrapInt_wrapInt (value : Int) : wrapInt (wrapInt value) = wrapInt value :=
  Int.bmod_bmod

theorem Blkdev.place_named (named : blkdev.aliasText.chars ≠ []) :
    blkdev.place anon = pathNames (mntPath blkdev.aliasText.chars) := if_pos named

theorem Blkdev.place_anon (unnamed : blkdev.aliasText.chars = []) :
    blkdev.place anon = [blkName (wrapInt anon)] := by
  rw [Blkdev.place, if_neg (not_not.mpr unnamed), blkName_congr (wrapInt_wrapInt anon)]

theorem Blkdev.place_ne_nil (blkdev : Blkdev π) (anon : Nat) : blkdev.place anon ≠ [] := by
  unfold Blkdev.place
  split
  · rw [pathNames_mntPath]
    exact List.cons_ne_nil _ _
  · exact List.cons_ne_nil _ _

theorem automountDevice_named (named : blkdev.aliasText.chars ≠ []) {ret : Int}
    (done : mountNamed code s blkdev blkdev.aliasText = some (s', ret)) :
    automountDevice code s (wrapInt anon) blkdev = some (s', ret, wrapInt anon) := by
  rw [automountDevice, if_pos named, done]
  rfl

theorem automountDevice_anon (unnamed : blkdev.aliasText.chars = []) {ret : Int}
    (done : mountAnon code s blkdev (wrapInt anon) = some (s', ret)) :
    automountDevice code s (wrapInt anon) blkdev =
      some (s', ret, if ret = 0 then wrapInt (wrapInt anon + 1) else wrapInt anon) := by
  rw [automountDevice, if_neg (not_not.mpr unnamed), done]
  rfl

theorem Blkdev.wrapInt_next (blkdev : Blkdev π) (anon : Nat) :
    wrapInt (blkdev.next anon) =
      if blkdev.aliasText.chars ≠ [] then wrapInt anon else wrapInt (wrapInt anon + 1) := by
  unfold Blkdev.next
  split
  · rfl
  · rw [wrapInt, wrapInt, wrapInt, Int.bmod_add_bmod, Nat.cast_succ]

/-- The turn comes to a `mount` callback: it does not return where none of them does. -/
def CallsMount (code : FsCode ω π) (s : Vfs ω π) (anon : Int) (blkdev : Blkdev π) : Prop :=
  automountDevice code.mute s anon blkdev = none

theorem CallsMount.of_named (named : blkdev.aliasText.chars ≠ [])
    (silent : mountNamed code.mute s blkdev blkdev.aliasText = none) :
    CallsMount code s (wrapInt anon) blkdev := by
  rw [CallsMount, automountDevice, if_pos named, silent]
  rfl

theorem CallsMount.of_anon (unnamed : blkdev.aliasText.chars = [])
    (silent : mountAnon code.mute s blkdev (wrapInt anon) = none) :
    CallsMount code s (wrapInt anon) blkdev := by
  rw [CallsMount, automountDevice, if_neg (not_not.mpr unnamed), silent]
  rfl

/-- A recognised device is mounted at its place, if that is apart from the others and a slot is
left. -/
theorem automountDevice_placed (own : OwnTree s types root places [mntName])
    (known : Recognises code contents types slots takes accepted)
    (isAccepted : accepted blkdev.pointer = true)
    (room : CallsMount code s (wrapInt anon) blkdev → devTypes types ≤ slots s.world)
    (proper : ∀ place ∈ places, place.1 ≠ [])
    (slashes : blkdev.aliasText.chars ≠ [] →
      ¬[slash, slash] <:+: slash :: blkdev.aliasText.chars)
    (apart : ∀ place ∈ places, Apart place.1 (blkdev.place anon)) :
    ∃ s', automountDevice code s (wrapInt anon) blkdev =
        some (s', 0, wrapInt (blkdev.next anon)) ∧
      OwnTree s' types root (places ++ [(blkdev.place anon, s.nextMount)]) [mntName] := by
  by_cases named : blkdev.aliasText.chars ≠ []
  · rw [Blkdev.place_named named] at apart ⊢
    rw [Blkdev.wrapInt_next, if_pos named]
    obtain ⟨s', done, own'⟩ := mountNamed_placed own known isAccepted
      (fun silent => room (.of_named named silent)) (slashes named) apart
    exact ⟨s', automountDevice_named named done, own'⟩
  · have unnamed := not_not.mp named
    rw [Blkdev.place_anon unnamed] at apart ⊢
    rw [Blkdev.wrapInt_next, if_neg named]
    obtain ⟨s', done, own', -⟩ := mountAnon_placed own known isAccepted
      (fun silent => room (.of_anon unnamed silent)) proper
      fun place member same => (apart place member).1 (same ▸ List.prefix_rfl)
    exact ⟨s', by rw [automountDevice_anon unnamed done, if_pos rfl], own'⟩

/-- A device that is not recognised takes no place and no number. -/
theorem automountDevice_refused (own : OwnTree s types root places [mntName])
    (known : Recognises code contents types slots takes accepted)
    (unknown : accepted blkdev.pointer = false)
    (room : CallsMount code s (wrapInt anon) blkdev → devTypes types ≤ slots s.world)
    (proper : ∀ place ∈ places, place.1 ≠ []) :
    ∃ s' ret, automountDevice code s (wrapInt anon) blkdev = some (s', ret, wrapInt anon) ∧
      ret ≠ 0 ∧ OwnTree s' types root places [mntName] := by
  by_cases named : blkdev.aliasText.chars ≠ []
  · obtain ⟨s', ret, done, failed, own'⟩ := mountNamed_refused own known unknown
      fun silent => room (.of_named named silent)
    exact ⟨s', ret, automountDevice_named named done, failed, own'⟩
  · have unnamed := not_not.mp named
    obtain ⟨s', done, own', -⟩ := mountAnon_refused own known unknown
      (fun silent => room (.of_anon unnamed silent)) proper
    have failed : (-1 : Int) ≠ 0 := by decide
    exact ⟨s', -1, by rw [automountDevice_anon unnamed done, if_neg failed], failed, own'⟩

/-- Where the volumes are empty, a device is mounted at its place or not at all. -/
theorem automountDevice_hollow (own : OwnTree s types root places [mntName])
    (known : Recognises code contents types slots takes accepted) (hollow : code.Hollow)
    (barren : Barren code s)
    (room : CallsMount code s (wrapInt anon) blkdev → devTypes types ≤ slots s.world)
    (proper : ∀ place ∈ places, place.1 ≠ []) {ret next : Int}
    (done : automountDevice code s (wrapInt anon) blkdev = some (s', ret, next)) :
    Barren code s' ∧
      (ret = 0 → accepted blkdev.pointer = true ∧
        (blkdev.aliasText.chars ≠ [] → ¬[slash, slash] <:+: slash :: blkdev.aliasText.chars) ∧
        next = wrapInt (blkdev.next anon) ∧
        OwnTree s' types root (places ++ [(blkdev.place anon, s.nextMount)]) [mntName]) ∧
      (ret ≠ 0 → next = wrapInt anon ∧ OwnTree s' types root places [mntName]) := by
  by_cases named : blkdev.aliasText.chars ≠ []
  · rw [Blkdev.place_named named, Blkdev.wrapInt_next, if_pos named]
    rw [automountDevice, if_pos named] at done
    obtain ⟨⟨t, ret'⟩, mounts, same⟩ := Option.bind_eq_some_iff.mp done
    obtain ⟨rfl, rest⟩ := Prod.mk.inj (Option.some.inj same)
    obtain ⟨rfl, rfl⟩ := Prod.mk.inj rest
    obtain ⟨barren', placed, failed⟩ := mountNamed_hollow own known hollow barren
      (fun silent => room (.of_named named silent)) mounts
    refine ⟨barren', fun zero => ?_, fun ne => ⟨rfl, failed ne⟩⟩
    obtain ⟨isAccepted, slashes, own'⟩ := placed zero
    exact ⟨isAccepted, fun _ => slashes, rfl, own'⟩
  · have unnamed := not_not.mp named
    rw [Blkdev.place_anon unnamed, Blkdev.wrapInt_next, if_neg named]
    obtain ⟨t, ret', mounts, iff, placed, failed, barren'⟩ := mountAnon_spec own known
      (fun silent => room (.of_anon unnamed silent)) proper
    obtain ⟨rfl, rest⟩ := Prod.mk.inj
      (Option.some.inj (done.symm.trans (automountDevice_anon unnamed mounts)))
    obtain ⟨rfl, rfl⟩ := Prod.mk.inj rest
    exact ⟨barren' hollow barren,
      fun zero => ⟨(iff.mp zero).1, fun named' => absurd unnamed named', if_pos zero, placed zero⟩,
      fun ne => ⟨if_neg ne, failed ne⟩⟩

/-- A turn takes as many slots as there are types to try, at most. -/
theorem automountDevice_slots (own : OwnTree s types root places [mntName])
    (known : Recognises code contents types slots takes accepted) {ret next : Int}
    (done : automountDevice code s (wrapInt anon) blkdev = some (s', ret, next)) :
    slots s.world ≤ slots s'.world + devTypes types := by
  unfold automountDevice at done
  split at done
  · obtain ⟨⟨t, ret'⟩, mounts, same⟩ := Option.bind_eq_some_iff.mp done
    obtain ⟨rfl, -⟩ := Prod.mk.inj (Option.some.inj same)
    exact mountNamed_slots own known mounts
  · obtain ⟨⟨t, ret'⟩, mounts, same⟩ := Option.bind_eq_some_iff.mp done
    obtain ⟨rfl, -⟩ := Prod.mk.inj (Option.some.inj same)
    exact mountAnon_slots own known mounts

/-- Where nothing returns without a slot, a turn that comes to the file systems and finds none
does not return. -/
theorem automountDevice_starved (own : OwnTree s types root places [mntName])
    (known : Recognises code contents types slots takes accepted)
    (exhausts : code.Exhausts types slots) (spent : slots s.world = 0) (tries : 0 < devTypes types)
    (proper : ∀ place ∈ places, place.1 ≠ []) (calls : CallsMount code s (wrapInt anon) blkdev) :
    automountDevice code s (wrapInt anon) blkdev = none := by
  unfold CallsMount automountDevice at *
  split at calls
  · next named =>
    have silent : mountNamed code.mute s blkdev blkdev.aliasText = none := by
      cases step : mountNamed code.mute s blkdev blkdev.aliasText with
      | none => rfl
      | some step' =>
          rw [step] at calls
          cases calls
    rw [if_pos named, mountNamed_starved own known exhausts spent tries silent]
    rfl
  · next unnamed =>
    have silent : mountAnon code.mute s blkdev (wrapInt anon) = none := by
      cases step : mountAnon code.mute s blkdev (wrapInt anon) with
      | none => rfl
      | some step' =>
          rw [step] at calls
          cases calls
    rw [if_neg unnamed, mountAnon_starved own known exhausts spent tries proper silent]
    rfl

end Device

end Zsbl.Fs
