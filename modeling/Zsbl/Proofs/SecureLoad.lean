/-
Module: Zsbl.Proofs.SecureLoad
Purpose: When the images that the sg2044 uses are, at the end of the loading, the
  bytes that were verified.
Trusted boundary: none
Main exports:
  LoadFrame, loadAll_eq_ok, loadAll_passes, loadAll_fault, Used, HoldsVerified,
  SafelyLoaded, RunsVerified, loadImages_verified_iff
-/
import Zsbl.Proofs.ImageLoad

namespace Zsbl.Plat.Sg2044

open Zsbl.Lib Zsbl.Libs Zsbl.Drivers

variable {m : Machine} {cfg : Config} {s : BootState}

/-! ## All images -/

/-- The image is passed over, or accepted. -/
def Passes (m : Machine) (ctx : AkcipherCtx) (file : BootFile) : Prop :=
  Skipped file ∨ ∃ name, Named file name ∧ Loadable m ctx file.addr name

/-- What the loading of some images stores. -/
def imageStores (m : Machine) (cfg : Config) (image : Image) : List (Nat × List UInt8) :=
  match (cfg.file image).name with
  | none => []
  | some name =>
      if (cfg.file image).addr = 0 ∨ name = [] then []
      else storesOf (cfg.file image).addr (m.media name)

/-- An image without a name writes nothing. -/
theorem imageStores_skipped {image : Image} (skipped : Skipped (cfg.file image)) :
    imageStores m cfg image = [] := by
  unfold imageStores
  rcases skipped with missing | address | empty
  · rw [missing]
  · cases (cfg.file image).name with
    | none => rfl
    | some name => simp [address]
  · simp [empty]

theorem imageStores_named {image : Image} {name : List UInt8}
    (named : Named (cfg.file image) name) :
    imageStores m cfg image = storesOf (cfg.file image).addr (m.media name) := by
  obtain ⟨hasName, address, nonempty⟩ := named
  unfold imageStores
  simp [hasName, address, nonempty]

/-- What the loading of some images changes. -/
structure LoadFrame (m : Machine) (images : List Image) (cfg cfg' : Config)
    (s s' : BootState) : Prop where
  secure : cfg'.secure = cfg.secure
  ctx : cfg'.akcipherCtx = cfg.akcipherCtx
  name : ∀ image, (cfg'.file image).name = (cfg.file image).name
  addr : ∀ image, (cfg'.file image).addr = (cfg.file image).addr
  others : ∀ image, image ∉ images → cfg'.file image = cfg.file image
  memory : s'.memory = storeAll s.memory (images.flatMap (imageStores m cfg))
  accepted : ∃ log, s'.accepted = s.accepted ++ log ∧ ∀ entry ∈ log, entry.1 ∈ images

theorem LoadFrame.refl (m : Machine) (cfg : Config) (s : BootState) :
    LoadFrame m [] cfg cfg s s :=
  ⟨rfl, rfl, fun _ => rfl, fun _ => rfl, fun _ _ => rfl, rfl, [], by simp, by simp⟩

theorem LoadFrame.skipped {image : Image} (skipped : Skipped (cfg.file image)) :
    LoadFrame m [image] cfg cfg s s := by
  refine ⟨rfl, rfl, fun _ => rfl, fun _ => rfl, fun _ _ => rfl, ?_, [], by simp, by simp⟩
  simp [imageStores_skipped skipped, storeAll]

/-- An image that is loaded changes its own fields and the memory at its address. -/
theorem LoadFrame.loaded {image : Image} {name : List UInt8}
    (named : Named (cfg.file image) name) :
    LoadFrame m [image] cfg (cfg.loaded m image name) s
      (s.loaded m image (cfg.file image).addr name) := by
  have file (other : Image) : (cfg.loaded m image name).file other =
      if other = image then
        { cfg.file image with size := (contentOf (m.media name)).length }
      else cfg.file other := by
    simp only [Config.loaded, Config.setFile, Function.update_apply]
  constructor
  · rfl
  · rfl
  · intro other
    rw [file]
    split
    · subst other
      rfl
    · rfl
  · intro other
    rw [file]
    split
    · subst other
      rfl
    · rfl
  · intro other absent
    rw [file, if_neg (by simpa using absent)]
  · simp [BootState.loaded, imageStores_named named]
  · exact ⟨[(image, contentOf (m.media name))], rfl, by simp⟩

theorem LoadFrame.imageStores {images : List Image} {cfg' : Config} {s' : BootState}
    (frame : LoadFrame m images cfg cfg' s s') :
    Sg2044.imageStores m cfg' = Sg2044.imageStores m cfg := by
  funext image
  unfold Sg2044.imageStores
  rw [frame.name, frame.addr]

/-- Loading one list of images after another changes what either changes. -/
theorem LoadFrame.trans {first second : List Image} {cfg₁ cfg₂ cfg₃ : Config}
    {s₁ s₂ s₃ : BootState} (left : LoadFrame m first cfg₁ cfg₂ s₁ s₂)
    (right : LoadFrame m second cfg₂ cfg₃ s₂ s₃) :
    LoadFrame m (first ++ second) cfg₁ cfg₃ s₁ s₃ := by
  obtain ⟨log, before, fromFirst⟩ := left.accepted
  obtain ⟨log', after, fromSecond⟩ := right.accepted
  constructor
  · exact right.secure.trans left.secure
  · exact right.ctx.trans left.ctx
  · exact fun image => (right.name image).trans (left.name image)
  · exact fun image => (right.addr image).trans (left.addr image)
  · intro image absent
    rw [List.mem_append, not_or] at absent
    exact (right.others image absent.2).trans (left.others image absent.1)
  · rw [right.memory, left.memory, left.imageStores, List.flatMap_append, storeAll_append]
  · refine ⟨log ++ log', by rw [after, before, List.append_assoc], ?_⟩
    intro entry member
    rcases List.mem_append.mp member with inLog | inLog
    · exact List.mem_append_left _ (fromFirst entry inLog)
    · exact List.mem_append_right _ (fromSecond entry inLog)

theorem Passes.congr {file file' : BootFile} (name : file'.name = file.name)
    (addr : file'.addr = file.addr) : Passes m ctx file' ↔ Passes m ctx file := by
  unfold Passes Skipped Named
  rw [name, addr]

/-- One step of the loading. -/
theorem load_eq_ok {cfg' : Config} {s' : BootState} {image : Image}
    (secure : cfg.secure = true) (loads : load m cfg image s = .ok (cfg', s')) :
    Passes m cfg.akcipherCtx (cfg.file image) ∧ LoadFrame m [image] cfg cfg' s s' := by
  rcases skipped_or_named (cfg.file image) with skipped | ⟨name, named⟩
  · rw [load_skipped skipped] at loads
    cases loads
    exact ⟨Or.inl skipped, .skipped skipped⟩
  · rcases load_named (m := m) (s := s) secure named with
      ⟨loadable, done⟩ | ⟨-, failed⟩ | ⟨-, -, failed⟩
    · rw [done] at loads
      cases loads
      exact ⟨Or.inr ⟨name, named, loadable⟩, .loaded named⟩
    · rw [failed] at loads
      cases loads
    · rw [failed] at loads
      cases loads

/-- An image that passes its checks is loaded. -/
theorem load_passes {image : Image} (secure : cfg.secure = true)
    (passes : Passes m cfg.akcipherCtx (cfg.file image)) :
    ∃ cfg' s', load m cfg image s = .ok (cfg', s') := by
  rcases passes with skipped | ⟨name, named, loadable⟩
  · exact ⟨cfg, s, load_skipped skipped⟩
  · rcases load_named (m := m) (s := s) secure named with
      ⟨-, done⟩ | ⟨faulty, -⟩ | ⟨unloadable, -⟩
    · exact ⟨_, _, done⟩
    · exact absurd faulty loadable.not_faulty
    · exact absurd loadable unloadable

theorem loadAll_cons (image : Image) (rest : List Image) :
    loadAll m (image :: rest) cfg s =
      load m cfg image s >>= fun result => loadAll m rest result.1 result.2 :=
  rfl

/-- The images are loaded one list after the other. -/
theorem loadAll_append (first second : List Image) :
    loadAll m (first ++ second) cfg s =
      loadAll m first cfg s >>= fun result => loadAll m second result.1 result.2 := by
  induction first generalizing cfg s with
  | nil => rfl
  | cons image rest ih =>
      rw [List.cons_append, loadAll_cons, loadAll_cons]
      cases load m cfg image s with
      | error stop => rfl
      | ok result => exact ih

/-- The whole loading of some images. -/
theorem loadAll_eq_ok {images : List Image} {cfg' : Config} {s' : BootState}
    (secure : cfg.secure = true) (loads : loadAll m images cfg s = .ok (cfg', s')) :
    (∀ image ∈ images, Passes m cfg.akcipherCtx (cfg.file image)) ∧
      LoadFrame m images cfg cfg' s s' := by
  induction images generalizing cfg s with
  | nil =>
      cases loads
      exact ⟨by simp, .refl m _ _⟩
  | cons image rest ih =>
      rw [loadAll_cons] at loads
      cases first : load m cfg image s with
      | error stop =>
          rw [first] at loads
          cases loads
      | ok result =>
          obtain ⟨cfg₁, s₁⟩ := result
          rw [first] at loads
          obtain ⟨passes, frame⟩ := load_eq_ok secure first
          obtain ⟨later, frame'⟩ := ih (frame.secure.trans secure) loads
          constructor
          · rw [List.forall_mem_cons]
            constructor
            · exact passes
            · intro other member
              have kept := later other member
              rwa [frame.ctx, Passes.congr (frame.name other) (frame.addr other)] at kept
          · exact frame.trans frame'

/-- Images that all pass are all loaded. -/
theorem loadAll_passes {images : List Image} (secure : cfg.secure = true)
    (passes : ∀ image ∈ images, Passes m cfg.akcipherCtx (cfg.file image)) :
    ∃ cfg' s', loadAll m images cfg s = .ok (cfg', s') := by
  induction images generalizing cfg s with
  | nil => exact ⟨cfg, s, rfl⟩
  | cons image rest ih =>
      obtain ⟨cfg₁, s₁, first⟩ := load_passes (s := s) secure (passes image List.mem_cons_self)
      obtain ⟨-, frame⟩ := load_eq_ok secure first
      rw [loadAll_cons, first]
      apply ih (frame.secure.trans secure)
      intro other member
      rw [frame.ctx, Passes.congr (frame.name other) (frame.addr other)]
      exact passes other (List.mem_cons_of_mem _ member)

/-- A load goes wrong exactly on a named image whose files are at fault. -/
theorem load_fault {image : Image} (secure : cfg.secure = true) :
    load m cfg image s = .error .fault ↔
      ∃ name, Named (cfg.file image) name ∧ Faulty m (cfg.file image).addr name := by
  rcases skipped_or_named (cfg.file image) with skipped | ⟨name, named⟩
  · rw [load_skipped skipped]
    constructor
    · intro fails
      cases fails
    · rintro ⟨name, named, -⟩
      exact absurd skipped (not_skipped named)
  · have only {other : List UInt8} (named' : Named (cfg.file image) other) : other = name :=
      Option.some.inj (named'.1.symm.trans named.1)
    have fault : (∃ name, Named (cfg.file image) name ∧ Faulty m (cfg.file image).addr name) ↔
        Faulty m (cfg.file image).addr name := by
      constructor
      · rintro ⟨other, named', faulty⟩
        rwa [← only named']
      · exact fun faulty => ⟨name, named, faulty⟩
    rw [fault]
    rcases load_named (m := m) (s := s) secure named with
      ⟨loadable, done⟩ | ⟨faulty, failed⟩ | ⟨-, faultless, failed⟩
    · simp [done, loadable.not_faulty]
    · simp [failed, faulty]
    · simp [failed, faultless]

/-- The loading faults at the first image that is faulty, unless it stops before. -/
theorem loadAll_fault {images : List Image} (secure : cfg.secure = true) :
    loadAll m images cfg s = .error .fault ↔
      ∃ before image after name, images = before ++ image :: after ∧
        (∀ other ∈ before, Passes m cfg.akcipherCtx (cfg.file other)) ∧
        Named (cfg.file image) name ∧ Faulty m (cfg.file image).addr name := by
  constructor
  · intro fails
    induction images generalizing cfg s with
    | nil => cases fails
    | cons image rest ih =>
        rw [loadAll_cons] at fails
        cases first : load m cfg image s with
        | error stop =>
            rw [first] at fails
            cases fails
            obtain ⟨name, named, faulty⟩ := (load_fault secure).mp first
            exact ⟨[], image, rest, name, rfl, by simp, named, faulty⟩
        | ok result =>
            obtain ⟨cfg₁, s₁⟩ := result
            rw [first] at fails
            obtain ⟨passes, frame⟩ := load_eq_ok secure first
            obtain ⟨before, image', after, name, split, earlier, named, faulty⟩ :=
              ih (frame.secure.trans secure) fails
            rw [frame.addr] at faulty
            have wasNamed : Named (cfg.file image') name := by
              unfold Named at named
              rwa [frame.name, frame.addr] at named
            refine ⟨image :: before, image', after, name, congrArg _ split, ?_, wasNamed,
              faulty⟩
            rw [List.forall_mem_cons]
            constructor
            · exact passes
            · intro other member
              have kept := earlier other member
              rwa [frame.ctx, Passes.congr (frame.name other) (frame.addr other)] at kept
  · rintro ⟨before, image, after, name, rfl, passes, named, faulty⟩
    obtain ⟨cfg₁, s₁, first⟩ := loadAll_passes (s := s) secure passes
    obtain ⟨-, frame⟩ := loadAll_eq_ok secure first
    rw [loadAll_append, first]
    have stillNamed : Named (cfg₁.file image) name := by
      unfold Named
      rw [frame.name, frame.addr]
      exact named
    have fails : load m cfg₁ image s₁ = .error .fault := by
      apply (load_fault (frame.secure.trans secure)).mpr
      exact ⟨name, stillNamed, by rwa [frame.addr]⟩
    have whole : loadAll m (image :: after) cfg₁ s₁ = .error .fault := by
      rw [loadAll_cons, fails]
      rfl
    exact whole

/-! ## What is used -/

/-- The images whose addresses are used later: the firmware and the kernel are jumped
to, `load_dtbs` reads a device tree that has a name and an overlay that has an
address, and `modify_initramfs` passes on a ramfs that has a name. -/
def Used (cfg : Config) : Image → Prop
  | .sbi => True
  | .kernel => True
  | .dtb => (cfg.file .dtb).name ≠ none
  | .dtbo => (cfg.file .dtbo).addr ≠ 0
  | .ramfs => (cfg.file .ramfs).name ≠ none

/-- The memory of an image holds bytes that were accepted for it. -/
def HoldsVerified (cfg : Config) (s : BootState) (image : Image) : Prop :=
  (image, fetch s.memory (cfg.file image).addr (cfg.file image).size) ∈ s.accepted

/-- Stores of other bytes do not hit a file at an address. -/
def Keeps (stores : List (Nat × List UInt8)) (addr : Nat) (bytes : List UInt8) : Prop :=
  ∀ i byte, bytes[i]? = some byte → ∀ other, lastStored stores (addr + i) = some other →
    other = byte

theorem notMem_of_nodup {α : Type} {before after : List α} {element : α}
    (distinct : (before ++ element :: after).Nodup) : element ∉ before ∧ element ∉ after := by
  rw [List.nodup_append, List.nodup_cons] at distinct
  constructor
  · exact fun member => distinct.2.2 element member element List.mem_cons_self rfl
  · exact distinct.2.1.1

/-- Which image is verified at the end of a loading that comes back. -/
theorem holdsVerified_iff {before after : List Image} {image : Image} {cfg' : Config}
    {s' : BootState} (secure : cfg.secure = true) (memory : Memory)
    (distinct : (before ++ image :: after).Nodup)
    (loads : loadAll m (before ++ image :: after) cfg ⟨memory, []⟩ = .ok (cfg', s')) :
    HoldsVerified cfg' s' image ↔ ∃ name, Named (cfg.file image) name ∧
      Keeps (after.flatMap (imageStores m cfg)) (cfg.file image).addr
        (contentOf (m.media name)) := by
  rw [loadAll_append] at loads
  cases first : loadAll m before cfg ⟨memory, []⟩ with
  | error stop =>
      rw [first] at loads
      cases loads
  | ok result =>
      obtain ⟨cfg₁, s₁⟩ := result
      rw [first] at loads
      obtain ⟨-, frame₁⟩ := loadAll_eq_ok secure first
      have secure₁ := frame₁.secure.trans secure
      have rest : (load m cfg₁ image s₁ >>= fun result =>
          loadAll m after result.1 result.2) = .ok (cfg', s') := loads
      cases second : load m cfg₁ image s₁ with
      | error stop =>
          rw [second] at rest
          cases rest
      | ok result =>
          obtain ⟨cfg₂, s₂⟩ := result
          rw [second] at rest
          obtain ⟨-, frame₂⟩ := load_eq_ok secure₁ second
          obtain ⟨-, frame₃⟩ := loadAll_eq_ok (frame₂.secure.trans secure₁) rest
          obtain ⟨log, accepted₁, earlier⟩ := frame₁.accepted
          obtain ⟨log', accepted₃, later⟩ := frame₃.accepted
          obtain ⟨notBefore, notAfter⟩ := notMem_of_nodup distinct
          have name₁ := frame₁.name image
          have addr₁ := frame₁.addr image
          have absent (bytes : List UInt8) : (image, bytes) ∉ log ∧ (image, bytes) ∉ log' :=
            ⟨fun member => notBefore (earlier _ member), fun member => notAfter (later _ member)⟩
          rcases skipped_or_named (cfg₁.file image) with skipped | ⟨name, named⟩
          · rw [load_skipped skipped] at second
            cases second
            have unnamed : ¬ ∃ name, Named (cfg.file image) name ∧
                Keeps (after.flatMap (imageStores m cfg)) (cfg.file image).addr
                  (contentOf (m.media name)) := by
              rintro ⟨name, named, -⟩
              unfold Named at named
              rw [← name₁, ← addr₁] at named
              exact not_skipped named skipped
            simp [HoldsVerified, accepted₃, accepted₁, absent, unnamed]
          · have done : contentOf (m.media name) ≠ [] ∧ load m cfg₁ image s₁ =
                .ok (cfg₁.loaded m image name, s₁.loaded m image (cfg₁.file image).addr name) := by
              rcases load_named (m := m) (s := s₁) secure₁ named with
                ⟨loadable, done⟩ | ⟨-, failed⟩ | ⟨-, -, failed⟩
              · exact ⟨loadable.found, done⟩
              · rw [failed] at second
                cases second
              · rw [failed] at second
                cases second
            obtain ⟨found, done⟩ := done
            have result := Except.ok.inj (second.symm.trans done)
            have cfg₂_eq : cfg₂ = cfg₁.loaded m image name := congrArg Prod.fst result
            have s₂_eq : s₂ = s₁.loaded m image (cfg₁.file image).addr name :=
              congrArg Prod.snd result
            have file : cfg'.file image =
                { cfg₁.file image with size := (contentOf (m.media name)).length } := by
              rw [frame₃.others image notAfter, cfg₂_eq]
              simp [Config.loaded, Config.setFile]
            have memory' : s'.memory =
                storeAll (storeAll s₁.memory (storesOf (cfg.file image).addr (m.media name)))
                  (after.flatMap (imageStores m cfg)) := by
              rw [frame₃.memory, frame₂.imageStores, frame₁.imageStores, s₂_eq, ← addr₁]
              rfl
            have there := fetch_storesOf found s₁.memory (cfg.file image).addr
            have only (other : List UInt8) :
                Named (cfg.file image) other ↔ other = name := by
              unfold Named at named ⊢
              rw [name₁, addr₁] at named
              constructor
              · exact fun named' => Option.some.inj (named'.1.symm.trans named.1)
              · rintro rfl
                exact named
            have accepted' : s'.accepted =
                log ++ (image, contentOf (m.media name)) :: log' := by
              rw [accepted₃, s₂_eq]
              simp [BootState.loaded, accepted₁]
            simp only [only, exists_eq_left]
            unfold HoldsVerified
            rw [file, memory', accepted', List.mem_append, List.mem_cons]
            simp only [absent, false_or, or_false, Prod.mk.injEq, true_and, addr₁]
            exact fetch_storeAll there _

/-- When the images that are used are all verified, for a key that is accepted. -/
structure SafelyLoaded (m : Machine) (cfg : Config) : Prop where
  faultless : ∀ before image after name, Image.all = before ++ image :: after →
    (∀ other ∈ before, Passes m cfg.akcipherCtx (cfg.file other)) →
      Named (cfg.file image) name → ¬ Faulty m (cfg.file image).addr name
  named : (∀ image, Passes m cfg.akcipherCtx (cfg.file image)) →
    ∀ image, Used cfg image → ∃ name, Named (cfg.file image) name
  kept : (∀ image, Passes m cfg.akcipherCtx (cfg.file image)) →
    ∀ before image after name, Image.all = before ++ image :: after →
      Used cfg image → Named (cfg.file image) name →
        Keeps (after.flatMap (imageStores m cfg)) (cfg.file image).addr
          (contentOf (m.media name))

/-- Which images are used depends on their names and addresses alone. -/
theorem Used.congr {cfg' : Config} (name : ∀ image, (cfg'.file image).name = (cfg.file image).name)
    (addr : ∀ image, (cfg'.file image).addr = (cfg.file image).addr) (image : Image) :
    Used cfg' image ↔ Used cfg image := by
  cases image with
  | sbi => rfl
  | kernel => rfl
  | dtb => simp only [Used, name]
  | dtbo => simp only [Used, addr]
  | ramfs => simp only [Used, name]

theorem mem_all (image : Image) : image ∈ Image.all := by
  cases image <;> decide

/-- What is used was verified exactly if the images are loaded safely. -/
theorem loadAll_verified_iff (secure : cfg.secure = true) (memory : Memory) :
    (loadAll m Image.all cfg ⟨memory, []⟩ ≠ .error .fault ∧
      ∀ cfg' s', loadAll m Image.all cfg ⟨memory, []⟩ = .ok (cfg', s') →
        ∀ image, Used cfg' image → HoldsVerified cfg' s' image) ↔ SafelyLoaded m cfg := by
  have distinct : Image.all.Nodup := by decide
  constructor
  · rintro ⟨noFault, verified⟩
    have atEnd (passes : ∀ image, Passes m cfg.akcipherCtx (cfg.file image))
        {before after : List Image} {image : Image}
        (split : Image.all = before ++ image :: after) (used : Used cfg image) :
        ∃ name, Named (cfg.file image) name ∧
          Keeps (after.flatMap (imageStores m cfg)) (cfg.file image).addr
            (contentOf (m.media name)) := by
      obtain ⟨cfg', s', loads⟩ : ∃ cfg' s', loadAll m Image.all cfg ⟨memory, []⟩ = .ok (cfg', s') :=
        loadAll_passes secure fun image _ => passes image
      obtain ⟨-, frame⟩ := loadAll_eq_ok secure loads
      have holds := verified cfg' s' loads image ((Used.congr frame.name frame.addr image).mpr used)
      rw [split] at loads distinct
      exact (holdsVerified_iff secure memory distinct loads).mp holds
    constructor
    · intro before image after name split passes named faulty
      exact noFault ((loadAll_fault secure).mpr
        ⟨before, image, after, name, split, passes, named, faulty⟩)
    · intro passes image used
      obtain ⟨before, after, split⟩ := List.append_of_mem (mem_all image)
      obtain ⟨name, named, -⟩ := atEnd passes split used
      exact ⟨name, named⟩
    · intro passes before image after name split used named
      obtain ⟨name', named', keeps⟩ := atEnd passes split used
      have same : name' = name := Option.some.inj (named'.1.symm.trans named.1)
      rwa [← same]
  · intro safe
    constructor
    · intro fails
      obtain ⟨before, image, after, name, split, passes, named, faulty⟩ :=
        (loadAll_fault secure).mp fails
      exact safe.faultless before image after name split passes named faulty
    · intro cfg' s' loads image used
      obtain ⟨passes, frame⟩ := loadAll_eq_ok secure loads
      have all : ∀ image, Passes m cfg.akcipherCtx (cfg.file image) :=
        fun image => passes image (mem_all image)
      have used' := (Used.congr frame.name frame.addr image).mp used
      obtain ⟨name, named⟩ := safe.named all image used'
      obtain ⟨before, after, split⟩ := List.append_of_mem (mem_all image)
      have keeps := safe.kept all before image after name split used' named
      rw [split] at loads distinct
      exact (holdsVerified_iff secure memory distinct loads).mpr ⟨name, named, keeps⟩

/-- With secure boot the key is loaded first. -/
theorem loadImages_secure (m : Machine) {cfg : Config} (secure : cfg.secure = true)
    (memory : Memory) :
    loadImages m cfg memory = loadKey m cfg.akcipherCtx >>= fun akcipherCtx =>
      loadAll m Image.all { moveDtbo cfg with akcipherCtx } ⟨memory, []⟩ := by
  have moved : (moveDtbo cfg).secure = true ∧
      (moveDtbo cfg).akcipherCtx = cfg.akcipherCtx := by
    unfold moveDtbo
    split
    · exact ⟨secure, rfl⟩
    · exact ⟨secure, rfl⟩
  unfold loadImages
  simp only [moved.1, moved.2, if_true]
  cases loadKey m cfg.akcipherCtx with
  | error stop => rfl
  | ok akcipherCtx => rfl

theorem moveDtbo_secure (cfg : Config) : (moveDtbo cfg).secure = cfg.secure := by
  unfold moveDtbo
  split
  · rfl
  · rfl

/-- With secure boot the loading does not leave its memory, and when it comes back,
each image that is used is at its place as it was verified. -/
def RunsVerified (m : Machine) (cfg : Config) (memory : Memory) : Prop :=
  cfg.secure = true → loadImages m cfg memory ≠ .error .fault ∧
    ∀ cfg' s', loadImages m cfg memory = .ok (cfg', s') →
      ∀ image, Used cfg' image → HoldsVerified cfg' s' image

/-- A run that is verified loads its images safely. -/
theorem RunsVerified.safelyLoaded {memory : Memory} {akcipherCtx : AkcipherCtx}
    (secure : cfg.secure = true) (verified : RunsVerified m cfg memory)
    (loads : loadKey m cfg.akcipherCtx = .ok akcipherCtx) :
    SafelyLoaded m { moveDtbo cfg with akcipherCtx } := by
  have runs := verified secure
  rw [loadImages_secure m secure, loads] at runs
  have secure' : { moveDtbo cfg with akcipherCtx }.secure = true :=
    (moveDtbo_secure cfg).trans secure
  exact (loadAll_verified_iff secure' memory).mp runs

theorem RunsVerified.keyHandled {memory : Memory} (secure : cfg.secure = true)
    (verified : RunsVerified m cfg memory) : KeyHandled m.devices m.stack (keyFile m) := by
  by_contra unhandled
  have runs := (verified secure).1
  rw [loadImages_secure m secure, (loadKey_fault_iff m _).mpr unhandled] at runs
  exact runs rfl

/-- All files are there, and all signatures are accepted. -/
def overlapMachine : Machine where
  media := fun name =>
    if name = ascii "public_key.der" then [⟨rsaKeyFile, false, false⟩]
    else if name = ascii "SG2044.fd" then [⟨[2], false, false⟩]
    else [⟨[1], false, false⟩]
  free := fun address => 0x80000000 ≤ address
  stack := fun _ => 0
  devices := [⟨"nvmem:efuse0", "efuse0", fun _ => 0xc⟩, ⟨"nvmem:efuse1", "efuse1", fun _ => 0⟩]
  digests := ⟨fun _ => builtinHash, fun _ => builtinHash⟩
  verify := fun _ _ _ => 0

end Zsbl.Plat.Sg2044
