/-
Module: Zsbl.Proofs.FixedBuffers
Purpose: For which file names and file sizes the secure load path stays in its arrays
  of fixed size.
Trusted boundary: none
Main exports:
  BuffersHold, AttemptsFit, ImageFits, fits_sgfatMedia, buffersHold_iff,
  RunsVerified.buffersHold, longName_overflows
-/
import Zsbl.Lib.Chain
import Zsbl.Plat.Sg2044Boot
import Zsbl.Proofs.SecureLoad

namespace Zsbl.Plat.Sg2044

open Zsbl.Lib Zsbl.Libs

/-- The writes stay in their arrays. -/
def WritesFit (writes : List BufferWrite) : Prop :=
  ∀ write ∈ writes, write.2 ≤ write.1.size

theorem writesFit_append (first second : List BufferWrite) :
    WritesFit (first ++ second) ↔ WritesFit first ∧ WritesFit second := by
  simp only [WritesFit, List.forall_mem_append]

theorem writesFit_cons (write : BufferWrite) (writes : List BufferWrite) :
    WritesFit (write :: writes) ↔ write.2 ≤ write.1.size ∧ WritesFit writes := by
  simp only [WritesFit, List.forall_mem_cons]

theorem writesFit_nil : WritesFit [] := by
  simp [WritesFit]

/-! ## One file -/

/-- The device has the file. -/
def Answers (name : List UInt8) (sgfat : Sgfat) : Prop :=
  ¬ ((sgfatLoad sgfat name).fails ∨ (sgfatLoad sgfat name).bytes = [])

/-- The path of the file fits, and what the device stores of it. -/
def AttemptFits (buffer : Option FixedBuffer) (name : List UInt8) (sgfat : Sgfat) : Prop :=
  (getFileName sgfat.id name).length + 1 ≤ 128 ∧
    ∀ array ∈ buffer, (sgfatLoad sgfat name).bytes.length ≤ array.size

/-- They fit up to the first device that has the file. -/
def AttemptsFit (buffer : Option FixedBuffer) (name : List UInt8) (devices : List Sgfat) :
    Prop :=
  UpToFirst (Answers name) (AttemptFits buffer name) devices

/-- The loads of a file fit exactly if the name and the contents do. -/
theorem bdmWrites_fit (buffer : Option FixedBuffer) (name : List UInt8) (devices : List Sgfat) :
    WritesFit (bdmWrites buffer name devices) ↔ AttemptsFit buffer name devices := by
  unfold AttemptsFit
  induction devices with
  | nil =>
      constructor
      · exact fun _ => upToFirst_nil _ _
      · exact fun _ => writesFit_nil
  | cons sgfat rest ih =>
      have here : WritesFit (buffer.toList.map fun buffer =>
          (buffer, (sgfatLoad sgfat name).bytes.length)) ↔
          ∀ array ∈ buffer, (sgfatLoad sgfat name).bytes.length ≤ array.size := by
        simp [WritesFit]
      have later : WritesFit (if (sgfatLoad sgfat name).fails ∨
          (sgfatLoad sgfat name).bytes = [] then bdmWrites buffer name rest else []) ↔
          (¬ Answers name sgfat → UpToFirst (Answers name) (AttemptFits buffer name) rest) := by
        rw [← ih]
        by_cases next : (sgfatLoad sgfat name).fails ∨ (sgfatLoad sgfat name).bytes = []
        · have silent : ¬ Answers name sgfat := not_not_intro next
          simp only [if_pos next, silent, not_false_eq_true, true_implies]
        · have answers : Answers name sgfat := next
          simp only [if_neg next, answers, not_true_eq_false, false_implies, iff_true]
          exact writesFit_nil
      rw [upToFirst_cons, bdmWrites, writesFit_append, writesFit_cons, here, later]
      rfl

theorem sgfatLoad_overflows (sgfat : Sgfat) (name : List UInt8) :
    (sgfatLoad sgfat name).overflows = false ↔ (getFileName sgfat.id name).length + 1 ≤ 128 := by
  have same : (sgfatLoad sgfat name).overflows =
      decide (128 < (getFileName sgfat.id name).length + 1) := by
    unfold sgfatLoad
    dsimp only
    split_ifs <;> rfl
  rw [same, decide_eq_false_iff_not, Nat.not_lt]

/-- What FAT devices load stays in memory where, up to the first device that has the
file, the path fits and what is stored has room. -/
theorem fits_sgfatMedia (room : Nat → Bool) (address : Nat) (name : List UInt8)
    (devices : List Sgfat) : Fits room address (sgfatMedia devices name) ↔
      UpToFirst (Answers name) (fun sgfat => (getFileName sgfat.id name).length + 1 ≤ 128 ∧
        ∀ i, i < (sgfatLoad sgfat name).bytes.length → room (address + i)) devices := by
  unfold Fits sgfatMedia
  rw [upToFirst_map]
  apply upToFirst_congr
  · exact fun sgfat => Iff.rfl
  · exact fun sgfat => and_congr_left' (sgfatLoad_overflows sgfat name)

/-- A file is loaded to an array within bounds exactly where its attempts fit. -/
theorem fits_array_iff (array : FixedBuffer) (name : List UInt8) (devices : List Sgfat) :
    Fits (· < array.size) 0 (sgfatMedia devices name) ↔
      AttemptsFit (some array) name devices := by
  rw [fits_sgfatMedia]
  apply upToFirst_congr
  · exact fun sgfat => Iff.rfl
  · intro sgfat
    apply and_congr_right'
    simp only [Option.mem_some_iff, forall_eq', Nat.zero_add, decide_eq_true_eq]
    constructor
    · intro inside
      by_contra longer
      exact Nat.lt_irrefl _ (inside array.size (Nat.lt_of_not_le longer))
    · exact fun short i lt => Nat.lt_of_lt_of_le lt short

/-! ## One image -/

/-- `load` returns for this file. -/
def Gets (m : Machine) (cfg : Config) (file : BootFile) : Prop :=
  Skipped file ∨ ∃ name, Named file name ∧ Fits m.free file.addr (m.media name) ∧
    contentOf (m.media name) ≠ [] ∧
    (cfg.secure = true → Loadable m cfg.akcipherCtx file.addr name)

/-- The name fits in each path, and, where a signature is looked for, in front of its
suffix; and the signature fits. -/
def ImageFits (m : Machine) (devices : List Sgfat) (cfg : Config) (file : BootFile) : Prop :=
  ∀ name, Named file name → AttemptsFit none name devices ∧
    (cfg.secure = true → Fits m.free file.addr (sgfatMedia devices name) →
      contentOf (sgfatMedia devices name) ≠ [] →
      name.length + 5 ≤ 64 ∧ AttemptsFit (some .sigData) (name ++ ascii ".sig") devices)

variable {m : Machine} {devices : List Sgfat} {cfg cfg' : Config} {s s' : BootState}
  {image : Image}

theorem imageWrites_skipped (skipped : Skipped (cfg.file image)) :
    imageWrites m devices cfg image s = [] := by
  rcases skipped with missing | address | empty
  · simp only [imageWrites, missing]
  · cases name : (cfg.file image).name with
    | none => simp only [imageWrites, name]
    | some name' => simp only [imageWrites, name, address, true_or, if_true]
  · simp only [imageWrites, empty, or_true, if_true]

/-- An image with a name is loaded, and if it is there checked with its signature. -/
theorem imageWrites_named {name : List UInt8} (named : Named (cfg.file image) name) :
    imageWrites m devices cfg image s = bdmWrites none name devices ++
      if Fits m.free (cfg.file image).addr (sgfatMedia devices name) ∧
          contentOf (sgfatMedia devices name) ≠ [] ∧ cfg.secure = true then
        (.sigName, name.length + 5) ::
          if 64 < name.length + 5 then []
          else bdmWrites (some .sigData) (name ++ ascii ".sig") devices
      else [] := by
  obtain ⟨hasName, address, nonempty⟩ := named
  have both : ¬ ((cfg.file image).addr = 0 ∨ name = []) := by simp [address, nonempty]
  simp only [imageWrites, hasName, if_neg both]
  congr 1
  by_cases room : Fits m.free (cfg.file image).addr (sgfatMedia devices name)
  · rw [bdmLoad_fits room]
    by_cases found : contentOf (sgfatMedia devices name) = []
    · simp [found, EIO]
    · have size := bdmLoad_found found
      simp only [if_neg size]
      cases cfg.secure with
      | true => simp [room, found]
      | false => simp
  · rw [bdmLoad_fault room]
    simp [room]

/-- The writes for one image fit exactly if its files and names do. -/
theorem imageWrites_fit :
    WritesFit (imageWrites m devices cfg image s) ↔ ImageFits m devices cfg (cfg.file image) := by
  rcases skipped_or_named (cfg.file image) with skipped | ⟨name, named⟩
  · rw [imageWrites_skipped skipped]
    constructor
    · exact fun _ name named => absurd skipped (not_skipped named)
    · exact fun _ => writesFit_nil
  · have only : ImageFits m devices cfg (cfg.file image) ↔ AttemptsFit none name devices ∧
        (cfg.secure = true → Fits m.free (cfg.file image).addr (sgfatMedia devices name) →
          contentOf (sgfatMedia devices name) ≠ [] →
          name.length + 5 ≤ 64 ∧ AttemptsFit (some .sigData) (name ++ ascii ".sig") devices) := by
      constructor
      · exact fun fits => fits name named
      · intro fits other named'
        obtain rfl := Option.some.inj (named'.1.symm.trans named.1)
        exact fits
    rw [only, imageWrites_named named, writesFit_append, bdmWrites_fit]
    apply and_congr_right
    intro _
    by_cases reached : Fits m.free (cfg.file image).addr (sgfatMedia devices name) ∧
        contentOf (sgfatMedia devices name) ≠ [] ∧ cfg.secure = true
    · obtain ⟨room, found, secure⟩ := reached
      rw [if_pos ⟨room, found, secure⟩, writesFit_cons]
      by_cases long : 64 < name.length + 5
      · have unfit : ¬ name.length + 5 ≤ 64 := Nat.not_le.mpr long
        simp [FixedBuffer.size, room, found, secure, unfit]
      · have short : name.length + 5 ≤ 64 := Nat.le_of_not_lt long
        rw [if_neg long, bdmWrites_fit]
        simp [FixedBuffer.size, room, found, secure, short]
    · rw [if_neg reached]
      constructor
      · exact fun _ secure room found => absurd ⟨room, found, secure⟩ reached
      · exact fun _ => writesFit_nil

/-! ## All images -/

/-- What the loading of an image leaves of the configuration. -/
structure SameFiles (cfg cfg' : Config) : Prop where
  secure : cfg'.secure = cfg.secure
  ctx : cfg'.akcipherCtx = cfg.akcipherCtx
  name : ∀ image, (cfg'.file image).name = (cfg.file image).name
  addr : ∀ image, (cfg'.file image).addr = (cfg.file image).addr

theorem SameFiles.gets (same : SameFiles cfg cfg') (image : Image) :
    Gets m cfg' (cfg'.file image) ↔ Gets m cfg (cfg.file image) := by
  unfold Gets Skipped Named
  rw [same.name, same.addr, same.secure, same.ctx]

theorem SameFiles.imageFits (same : SameFiles cfg cfg') (image : Image) :
    ImageFits m devices cfg' (cfg'.file image) ↔ ImageFits m devices cfg (cfg.file image) := by
  unfold ImageFits Named
  rw [same.name, same.addr, same.secure]

/-- Without secure boot an image that is found is accepted. -/
theorem load_insecure {name : List UInt8} (insecure : cfg.secure = false)
    (named : Named (cfg.file image) name) :
    load m cfg image s =
      bdmLoad m.free s.memory (cfg.file image).addr (m.media name) >>= fun loaded =>
        if loaded.2 ≤ 0 then .error .hang
        else .ok (cfg.setFile image { cfg.file image with size := loaded.2.toNat },
          { s with memory := loaded.1 }) := by
  obtain ⟨hasName, address, nonempty⟩ := named
  have both : ¬ ((cfg.file image).addr = 0 ∨ name = []) := by simp [address, nonempty]
  simp only [load, hasName, if_neg both]
  cases bdmLoad m.free s.memory (cfg.file image).addr (m.media name) with
  | error stop => rfl
  | ok loaded =>
      have stillInsecure (file : BootFile) : (cfg.setFile image file).secure = false := insecure
      simp only [stillInsecure, Bool.false_eq_true, if_false]
      rfl

/-- A size changes neither names nor addresses. -/
theorem sameFiles_setFile (image : Image) (size : Nat) :
    SameFiles cfg (cfg.setFile image { cfg.file image with size }) := by
  have file (other : Image) : (cfg.setFile image { cfg.file image with size }).file other =
      if other = image then { cfg.file image with size } else cfg.file other := by
    simp only [Config.setFile, Function.update_apply]
  constructor
  · rfl
  · rfl
  · intro other
    rw [file]
    split
    · subst other
      rfl
    · rfl
  · intro other
    rw [file]
    split
    · subst other
      rfl
    · rfl

/-- A load that succeeds has got its files, and leaves names and addresses. -/
theorem load_gets (loads : load m cfg image s = .ok (cfg', s')) :
    Gets m cfg (cfg.file image) ∧ SameFiles cfg cfg' := by
  cases secure : cfg.secure with
  | true =>
      obtain ⟨passes, frame⟩ := load_eq_ok secure loads
      constructor
      · rcases passes with skipped | ⟨name, named, loadable⟩
        · exact Or.inl skipped
        · exact Or.inr ⟨name, named, loadable.room, loadable.found, fun _ => loadable⟩
      · exact ⟨frame.secure, frame.ctx, frame.name, frame.addr⟩
  | false =>
      rcases skipped_or_named (cfg.file image) with skipped | ⟨name, named⟩
      · rw [load_skipped skipped] at loads
        cases loads
        exact ⟨Or.inl skipped, rfl, rfl, fun _ => rfl, fun _ => rfl⟩
      · rw [load_insecure secure named] at loads
        by_cases room : Fits m.free (cfg.file image).addr (m.media name)
        · rw [bdmLoad_fits room] at loads
          by_cases found : contentOf (m.media name) = []
          · simp [found, EIO, bind, Except.bind] at loads
          · simp only [bind, Except.bind, if_neg (bdmLoad_found found)] at loads
            cases loads
            constructor
            · exact Or.inr ⟨name, named, room, found, by simp [secure]⟩
            · exact sameFiles_setFile image _
        · rw [bdmLoad_fault room] at loads
          cases loads

/-- Where the files are got, the load succeeds. -/
theorem gets_load (gets : Gets m cfg (cfg.file image)) :
    ∃ cfg' s', load m cfg image s = .ok (cfg', s') := by
  rcases gets with skipped | ⟨name, named, room, found, accepted⟩
  · exact ⟨cfg, s, load_skipped skipped⟩
  · cases secure : cfg.secure with
    | true => exact load_passes secure (Or.inr ⟨name, named, accepted secure⟩)
    | false =>
        rw [load_insecure secure named, bdmLoad_fits room]
        simp only [bind, Except.bind, if_neg (bdmLoad_found found)]
        exact ⟨_, _, rfl⟩

/-- The images fit up to the first one that is not loaded. -/
def AllFit (m : Machine) (devices : List Sgfat) (cfg : Config) (images : List Image) : Prop :=
  UpToFirst (fun image => ¬ Gets (m.withSgfat devices) cfg (cfg.file image))
    (fun image => ImageFits m devices cfg (cfg.file image)) images

theorem SameFiles.allFit (same : SameFiles cfg cfg') (images : List Image) :
    AllFit m devices cfg' images ↔ AllFit m devices cfg images := by
  unfold AllFit
  simp only [same.gets, same.imageFits]

/-- The writes for all images fit exactly if those of each do that is come to. -/
theorem allWrites_fit (images : List Image) :
    WritesFit (allWrites m devices images cfg s) ↔ AllFit m devices cfg images := by
  induction images generalizing cfg s with
  | nil =>
      constructor
      · exact fun _ => upToFirst_nil _ _
      · exact fun _ => writesFit_nil
  | cons image rest ih =>
      rw [AllFit, upToFirst_cons, not_not, allWrites, writesFit_append, imageWrites_fit]
      apply and_congr_right
      intro _
      cases loads : load (m.withSgfat devices) cfg image s with
      | error stop =>
          have stops : ¬ Gets (m.withSgfat devices) cfg (cfg.file image) := by
            intro gets
            obtain ⟨cfg', s', returns⟩ := gets_load (s := s) gets
            rw [loads] at returns
            cases returns
          simp only [stops, false_implies, iff_true]
          exact writesFit_nil
      | ok result =>
          obtain ⟨gets, same⟩ := load_gets loads
          simp only [gets, true_implies]
          rw [ih, same.allFit]
          rfl

/-! ## The run -/

/-- A run of `load_images` writes no more to an array than it holds. -/
def BuffersHold (m : Machine) (devices : List Sgfat) (cfg : Config) (memory : Memory) : Prop :=
  WritesFit (runWrites m devices cfg memory)

/-- The writes of a run fit exactly if those of the key and of the images do. -/
theorem runWrites_fit (m : Machine) (devices : List Sgfat) (cfg : Config) (memory : Memory) :
    WritesFit (runWrites m devices cfg memory) ↔
      (cfg.secure = true →
        AttemptsFit (some .pubkeyDer) (ascii "public_key.der") devices ∧
        ∀ akcipherCtx, loadKey (m.withSgfat devices) cfg.akcipherCtx = .ok akcipherCtx →
          AllFit m devices { moveDtbo cfg with akcipherCtx } Image.all) ∧
      (cfg.secure = false → AllFit m devices (moveDtbo cfg) Image.all) := by
  have ctx : (moveDtbo cfg).akcipherCtx = cfg.akcipherCtx := by
    unfold moveDtbo
    split <;> rfl
  have same := moveDtbo_secure cfg
  dsimp only [runWrites]
  cases secure : cfg.secure with
  | true =>
      rw [if_pos (same.trans secure), writesFit_append, bdmWrites_fit, ctx]
      simp only [true_implies, Bool.true_eq_false, false_implies, and_true]
      apply and_congr_right
      intro _
      cases key : loadKey (m.withSgfat devices) cfg.akcipherCtx with
      | error stop =>
          simp only [reduceCtorEq, false_implies, implies_true, iff_true]
          exact writesFit_nil
      | ok akcipherCtx =>
          simp only [Except.ok.injEq, forall_eq']
          exact allWrites_fit Image.all
  | false =>
      have insecure : ¬ (moveDtbo cfg).secure = true := by simp [same, secure]
      rw [if_neg insecure]
      simp only [Bool.false_eq_true, false_implies, true_implies, true_and]
      exact allWrites_fit Image.all

/-- The arrays are large enough exactly for these names and files. -/
theorem buffersHold_iff (m : Machine) (devices : List Sgfat) (cfg : Config) (memory : Memory) :
    BuffersHold m devices cfg memory ↔
      (cfg.secure = true →
        AttemptsFit (some .pubkeyDer) (ascii "public_key.der") devices ∧
        ∀ akcipherCtx, loadKey (m.withSgfat devices) cfg.akcipherCtx = .ok akcipherCtx →
          AllFit m devices { moveDtbo cfg with akcipherCtx } Image.all) ∧
      (cfg.secure = false → AllFit m devices (moveDtbo cfg) Image.all) :=
  runWrites_fit m devices cfg memory

theorem AttemptsFit.of_fits {room : Nat → Bool} {address : Nat} {name : List UInt8}
    (fits : Fits room address (sgfatMedia devices name)) : AttemptsFit none name devices := by
  intro before sgfat after split silent
  have attempt :=
    (fits_sgfatMedia room address name devices).mp fits before sgfat after split silent
  exact ⟨attempt.1, by simp⟩

/-- Secure boot that only runs verified bytes also keeps to the arrays. -/
theorem RunsVerified.buffersHold {memory : Memory} (secure : cfg.secure = true)
    (verified : RunsVerified (m.withSgfat devices) cfg memory) :
    BuffersHold m devices cfg memory := by
  apply (runWrites_fit m devices cfg memory).mpr
  constructor
  · intro _
    constructor
    · exact (fits_array_iff .pubkeyDer _ devices).mp (verified.keyHandled secure).room
    · intro akcipherCtx loads before image after split reached
      have safe := verified.safelyLoaded secure loads
      have stillSecure : { moveDtbo cfg with akcipherCtx }.secure = true :=
        (moveDtbo_secure cfg).trans secure
      intro name named
      have faultless := safe.faultless before image after name split ?_ named
      · obtain ⟨room, behind⟩ := not_or.mp faultless
        constructor
        · exact .of_fits (not_not.mp room)
        · intro _ _ found
          obtain ⟨short, sigRoom⟩ := not_or.mp (not_and.mp behind found)
          exact ⟨Nat.le_of_not_lt short,
            (fits_array_iff .sigData _ devices).mp (not_not.mp sigRoom)⟩
      · intro other member
        rcases not_not.mp (reached other member) with skipped | ⟨name', named', -, -, loadable⟩
        · exact Or.inl skipped
        · exact Or.inr ⟨name', named', loadable stillSecure⟩
  · intro insecure
    rw [secure] at insecure
    cases insecure

/-- A device tree with a name of 120 letters. -/
def longName (secure : Bool) : Config :=
  { Config.static.setFile .dtb ⟨some (List.replicate 120 97), 0x88000000, 0⟩ with secure }

/-- A drive that has no file but a public key of 513 bytes. -/
def keyDrive : FatDrive where
  mount := 0
  openRead := fun path => if path = ascii "0:riscv64/public_key.der" then 0 else 4
  stat := fun _ => (0, 513)
  read := fun _ size => (0, List.replicate size 0)

/-- The key file has a byte too many. -/
theorem keyDrive_key : (sgfatLoad ⟨0, keyDrive⟩ (ascii "public_key.der")).bytes =
    List.replicate 513 0 := by
  have path : getFileName 0 (ascii "public_key.der") = ascii "0:riscv64/public_key.der" := by
    decide
  have opens : keyDrive.openRead (getFileName 0 (ascii "public_key.der")) = 0 := by
    simp only [keyDrive, if_pos path]
  have mounts : keyDrive.mount = 0 := rfl
  unfold sgfatLoad
  dsimp only
  rw [if_neg (not_not_intro mounts), if_neg (not_not_intro opens)]
  rfl

theorem longName_moved (secure : Bool) : moveDtbo (longName secure) = longName secure := by
  have name : ((longName secure).file .dtb).name = some (List.replicate 120 97) := rfl
  have noSuffix : fileIsDtbo (some (List.replicate 120 97)) = false := by
    simp only [fileIsDtbo, List.length_replicate, List.drop_replicate]
    decide
  unfold moveDtbo
  rw [name, noSuffix]
  rfl

/-- The key does not fit with secure boot, and the path of the device tree without. -/
theorem longName_overflows :
    ¬ BuffersHold overlapMachine [⟨0, keyDrive⟩] (longName true) (fun _ => 0) ∧
      ¬ BuffersHold overlapMachine [⟨0, keyDrive⟩] (longName false) (fun _ => 0) := by
  constructor
  · intro holds
    dsimp only [BuffersHold, runWrites] at holds
    have secure : (longName true).secure = true := rfl
    rw [longName_moved true, if_pos secure, writesFit_append, bdmWrites_fit] at holds
    have fits := (upToFirst_cons.mp holds.1).1.2 .pubkeyDer rfl
    rw [keyDrive_key, List.length_replicate] at fits
    exact absurd fits (by decide)
  · intro holds
    dsimp only [BuffersHold, runWrites] at holds
    have insecure : ¬ (longName false).secure = true := Bool.false_ne_true
    rw [longName_moved false, if_neg insecure, Image.all, allWrites, writesFit_append,
      imageWrites_fit] at holds
    have named : Named ((longName false).file .dtb) (List.replicate 120 97) :=
      ⟨rfl, by decide, by decide⟩
    have fits := (upToFirst_cons.mp (holds.1 _ named).1).1.1
    have path : (getFileName 0 (List.replicate 120 97)).length = 130 := by
      have relative : (List.replicate 120 97).take 1 ≠ ascii "/" := by decide
      rw [getFileName, if_neg relative, List.length_append, List.length_replicate]
      decide
    rw [path] at fits
    exact absurd fits (by decide)

end Zsbl.Plat.Sg2044
