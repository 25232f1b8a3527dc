/-
Module: Zsbl.Proofs.ImageLoad
Purpose: What the sg2044 stores of a file, which key it accepts, and how the loading
  of one image ends.
Trusted boundary: none
Main exports:
  storesOf, contentOf, Fits, bdmLoad_fits, loadKey_accepts_iff, Skipped, Named,
  Loadable, Faulty, load_skipped, load_named
-/
import Zsbl.Lib.Chain
import Zsbl.Plat.Sg2044
import Zsbl.Proofs.Akcipher

namespace Zsbl.Plat.Sg2044

open Zsbl.Lib Zsbl.Libs Zsbl.Drivers

/-! ## A file from the boot devices -/

/-- What the boot devices store, up to the one that has the file. -/
def storesOf (address : Nat) : List Answer → List (Nat × List UInt8)
  | [] => []
  | answer :: rest =>
      (address, answer.bytes) ::
        if answer.fails ∨ answer.bytes = [] then storesOf address rest else []

/-- The file; empty when no device has it. -/
def contentOf : List Answer → List UInt8
  | [] => []
  | answer :: rest =>
      if answer.fails ∨ answer.bytes = [] then contentOf rest else answer.bytes

/-- The device has the file. -/
def Answer.HasFile (answer : Answer) : Prop := ¬ (answer.fails ∨ answer.bytes = [])

/-- The device keeps to its own arrays, and what it stores has room. -/
def Answer.Fits (room : Nat → Bool) (address : Nat) (answer : Answer) : Prop :=
  answer.overflows = false ∧ ∀ i, i < answer.bytes.length → room (address + i)

/-- So do the devices up to the first one that has the file. -/
def Fits (room : Nat → Bool) (address : Nat) (answers : List Answer) : Prop :=
  UpToFirst Answer.HasFile (Answer.Fits room address) answers

instance : DecidablePred Answer.HasFile := fun _ => inferInstanceAs (Decidable (¬ (_ ∨ _)))

instance (room : Nat → Bool) (address : Nat) : DecidablePred (Answer.Fits room address) :=
  fun _ => inferInstanceAs (Decidable (_ ∧ ∀ i, i < _ → _))

instance (room : Nat → Bool) (address : Nat) (answers : List Answer) :
    Decidable (Fits room address answers) :=
  inferInstanceAs (Decidable (UpToFirst _ _ _))

theorem fits_cons {room : Nat → Bool} {address : Nat} {answer : Answer}
    {rest : List Answer} : Fits room address (answer :: rest) ↔
      answer.Fits room address ∧
        ((answer.fails ∨ answer.bytes = []) → Fits room address rest) := by
  unfold Fits
  rw [upToFirst_cons, Answer.HasFile, not_not]

/-- One device and one file. -/
theorem fits_single {room : Nat → Bool} {address : Nat} {bytes : List UInt8}
    (nonempty : bytes ≠ []) (inside : ∀ i, i < bytes.length → room (address + i)) :
    Fits room address [⟨bytes, false, false⟩] := by
  rw [fits_cons]
  constructor
  · exact ⟨rfl, inside⟩
  · rintro (fails | empty)
    · cases fails
    · exact absurd empty nonempty

/-- Answers that fit are stored one behind the other. -/
theorem bdmLoad_fits {room : Nat → Bool} {address : Nat} {answers : List Answer}
    (fits : Fits room address answers) (memory : Memory) :
    bdmLoad room memory address answers =
      .ok (storeAll memory (storesOf address answers),
        if contentOf answers = [] then - EIO else (contentOf answers).length) := by
  induction answers generalizing memory with
  | nil => rfl
  | cons answer rest ih =>
      obtain ⟨⟨kept, first⟩, later⟩ := fits_cons.mp fits
      have keeps : ¬ answer.overflows = true := by simp [kept]
      have inside : (List.range answer.bytes.length).all fun i => room (address + i) := by
        simpa using first
      simp only [bdmLoad, storesOf, contentOf, if_neg keeps, if_pos inside]
      by_cases next : answer.fails ∨ answer.bytes = []
      · simp only [if_pos next, ih (later next)]
        rfl
      · have nonempty : answer.bytes ≠ [] := fun empty => next (Or.inr empty)
        simp only [if_neg next, if_neg nonempty]
        rfl

theorem bdmLoad_found {answers : List Answer} (found : contentOf answers ≠ []) :
    ¬ (if contentOf answers = [] then - EIO else (contentOf answers).length : Int) ≤ 0 := by
  have positive := List.length_pos_iff.mpr found
  rw [if_neg found]
  omega

/-- Answers that do not fit are a fault. -/
theorem bdmLoad_fault {room : Nat → Bool} {address : Nat} {answers : List Answer}
    (fault : ¬ Fits room address answers) (memory : Memory) :
    bdmLoad room memory address answers = .error .fault := by
  induction answers generalizing memory with
  | nil => exact absurd (upToFirst_nil _ _) fault
  | cons answer rest ih =>
      rw [fits_cons] at fault
      by_cases overflows : answer.overflows = true
      · simp only [bdmLoad, if_pos overflows]
      · have kept : answer.overflows = false := by simpa using overflows
        simp only [bdmLoad, if_neg overflows]
        by_cases inside : (List.range answer.bytes.length).all fun i => room (address + i)
        · have first : ∀ i, i < answer.bytes.length → room (address + i) := by
            simpa using inside
          by_cases next : answer.fails ∨ answer.bytes = []
          · have later : ¬ Fits room address rest :=
              fun fits => fault ⟨⟨kept, first⟩, fun _ => fits⟩
            simp only [if_pos inside, if_pos next, ih later]
          · exact absurd ⟨⟨kept, first⟩, fun failed => absurd failed next⟩ fault
        · simp only [if_neg inside]

/-- What was loaded fits. -/
theorem Fits.content_length {answers : List Answer} {size : Nat}
    (fits : Fits (· < size) 0 answers) : (contentOf answers).length ≤ size := by
  induction answers with
  | nil => exact Nat.zero_le size
  | cons answer rest ih =>
      obtain ⟨⟨-, first⟩, later⟩ := fits_cons.mp fits
      by_cases next : answer.fails ∨ answer.bytes = []
      · simp only [contentOf, if_pos next]
        exact ih (later next)
      · simp only [contentOf, if_neg next]
        have last := first (answer.bytes.length - 1)
        simp only [decide_eq_true_eq] at last
        omega

/-- A file is in memory when its loading is over. -/
theorem fetch_storesOf {answers : List Answer} (found : contentOf answers ≠ [])
    (memory : Memory) (address : Nat) :
    fetch (storeAll memory (storesOf address answers)) address (contentOf answers).length =
      contentOf answers := by
  induction answers generalizing memory with
  | nil => exact absurd rfl found
  | cons answer rest ih =>
      by_cases next : answer.fails ∨ answer.bytes = []
      · simp only [storesOf, contentOf, if_pos next] at found ⊢
        exact ih found _
      · simp only [storesOf, contentOf, if_neg next]
        exact fetch_store memory address answer.bytes

/-! ## The key -/

def keyFile (m : Machine) : List Answer := m.media (ascii "public_key.der")

/-- The array of the key, behind what the devices answer. -/
def keyArray (stack : Memory) (answers : List Answer) : List UInt8 :=
  fetch (storeAll stack (storesOf 0 answers)) 0 512

/-- The loading of the key keeps to its memory: the file to the array, and so do the
fields of a file that is long enough to be looked at. -/
structure KeyHandled (devices : List Nvmem) (stack : Memory) (answers : List Answer) :
    Prop where
  room : Fits (· < 512) 0 answers
  registered : contentOf answers ≠ [] → (nvmemFindByName devices "efuse0").isSome
  inside : 15 ≤ (contentOf answers).length → KeyFits (keyArray stack answers)

/-- The file has the built-in digest, for the algorithm that is read from the array. -/
def KeyAccepted (digests : Digests) (stack : Memory) (answers : List Answer) : Prop :=
  15 ≤ (contentOf answers).length ∧ ∃ alg, KeyReached (keyArray stack answers) alg ∧
    digests.of alg (contentOf answers) = builtinHash

/-- The array is the file, and behind it what was there before. -/
theorem keyArray_eq (stack : Memory) {answers : List Answer}
    (room : Fits (· < 512) 0 answers) (found : contentOf answers ≠ []) :
    ∃ rest, keyArray stack answers = contentOf answers ++ rest := by
  have short := room.content_length
  have split : 512 = (contentOf answers).length + (512 - (contentOf answers).length) := by omega
  unfold keyArray
  rw [split, fetch_append, fetch_storesOf found]
  exact ⟨_, rfl⟩

theorem keyArray_take (stack : Memory) {answers : List Answer}
    (room : Fits (· < 512) 0 answers) (found : contentOf answers ≠ []) :
    (keyArray stack answers).take (contentOf answers).length = contentOf answers := by
  obtain ⟨rest, array⟩ := keyArray_eq stack room found
  rw [array, List.take_left]

/-- How the loading of the key ends: outside of its memory, with a key, or in the
endless loop. -/
theorem loadKey_cases (m : Machine) (ctx : AkcipherCtx) :
    (¬ KeyHandled m.devices m.stack (keyFile m) ∧ loadKey m ctx = .error .fault) ∨
      (KeyHandled m.devices m.stack (keyFile m) ∧
        (KeyAccepted m.digests m.stack (keyFile m) ∧
            (∃ akcipherCtx, loadKey m ctx = .ok akcipherCtx) ∨
          ¬ KeyAccepted m.digests m.stack (keyFile m) ∧ loadKey m ctx = .error .hang)) := by
  have file : m.media (ascii "public_key.der") = keyFile m := rfl
  unfold loadKey
  rw [file]
  by_cases room : Fits (· < 512) 0 (keyFile m)
  · rw [bdmLoad_fits room]
    by_cases found : contentOf (keyFile m) = []
    · right
      refine ⟨⟨room, absurd found, by simp [found]⟩, Or.inr ⟨?_, ?_⟩⟩
      · rintro ⟨long, -⟩
        simp [found] at long
      · simp [found, bind, Except.bind, EIO]
        rfl
    · have size := bdmLoad_found found
      rw [if_neg found] at size ⊢
      have array : fetch (storeAll m.stack (storesOf 0 (keyFile m))) 0 512 =
          keyArray m.stack (keyFile m) := rfl
      simp only [bind, Except.bind, if_neg size, Int.toNat_natCast, array]
      cases efuse0 : nvmemFindByName m.devices "efuse0" with
      | none =>
          left
          constructor
          · intro handled
            simpa [efuse0] using handled.registered found
          · simp [readPubkeyHash, efuse0]
            rfl
      | some dev =>
          have hash : readPubkeyHash m.devices = some builtinHash := by
            simp [readPubkeyHash, efuse0]
          simp only [hash]
          have short : (contentOf (keyFile m)).length ≤ (keyArray m.stack (keyFile m)).length := by
            simpa [keyArray] using room.content_length
          have taken := keyArray_take m.stack room found
          cases returns : akcipherInvokeKeyIn m.digests ctx (keyArray m.stack (keyFile m))
              (contentOf (keyFile m)).length builtinHash with
          | none =>
              left
              constructor
              · intro handled
                have some := (akcipherInvokeKeyIn_isSome m.digests ctx short builtinHash).mpr
                  handled.inside
                simp [returns] at some
              · rfl
          | some result =>
              obtain ⟨err, ctx'⟩ := result
              have inside := (akcipherInvokeKeyIn_isSome m.digests ctx short builtinHash).mp
                (by simp [returns])
              have accepted : err = 0 ↔ KeyAccepted m.digests m.stack (keyFile m) := by
                rw [akcipherInvokeKeyIn_ret short returns, taken, KeyAccepted]
              right
              refine ⟨⟨room, fun _ => by simp [efuse0], inside⟩, ?_⟩
              rw [← accepted]
              by_cases zero : err = 0
              · left
                exact ⟨zero, ctx', by simp [zero]; rfl⟩
              · right
                exact ⟨zero, by simp [zero]; rfl⟩
  · left
    rw [bdmLoad_fault room]
    exact ⟨fun handled => room handled.room, rfl⟩

/-- The file of an RSA key lies at the start of the array. -/
theorem rsaKeyFile_array (stack : Memory) :
    Fits (· < 512) 0 [⟨rsaKeyFile, false, false⟩] ∧
      ∃ rest, keyArray stack [⟨rsaKeyFile, false, false⟩] = rsaKeyFile ++ rest := by
  have room : Fits (· < 512) 0 [⟨rsaKeyFile, false, false⟩] := fits_single (by decide) (by decide)
  exact ⟨room, keyArray_eq stack room (by decide)⟩

theorem rsaKeyFile_handled {devices : List Nvmem} (stack : Memory)
    (registered : (nvmemFindByName devices "efuse0").isSome) :
    KeyHandled devices stack [⟨rsaKeyFile, false, false⟩] := by
  obtain ⟨room, rest, array⟩ := rsaKeyFile_array stack
  refine ⟨room, fun _ => registered, fun _ => ?_⟩
  rw [array]
  exact rsaKeyFile_fits rest

theorem rsaKeyFile_accepted {digests : Digests} (stack : Memory)
    (same : digests.sha256 rsaKeyFile = builtinHash) :
    KeyAccepted digests stack [⟨rsaKeyFile, false, false⟩] := by
  obtain ⟨-, rest, array⟩ := rsaKeyFile_array stack
  refine ⟨by decide, .rsa, ?_, same⟩
  rw [array]
  exact rsaKeyFile_reached rest

/-- When the loading of the key leaves its memory. -/
theorem loadKey_fault_iff (m : Machine) (ctx : AkcipherCtx) :
    loadKey m ctx = .error .fault ↔ ¬ KeyHandled m.devices m.stack (keyFile m) := by
  rcases loadKey_cases m ctx with
    ⟨unhandled, fault⟩ | ⟨handled, ⟨-, akcipherCtx, loads⟩ | ⟨-, hangs⟩⟩
  · simp [unhandled, fault]
  · simp [handled, loads]
  · simp [handled, hangs]

/-- Which key file is accepted: not by the fuses, but by the built-in digest. -/
theorem loadKey_accepts_iff (m : Machine) (ctx : AkcipherCtx) :
    (∃ akcipherCtx, loadKey m ctx = .ok akcipherCtx) ↔
      KeyHandled m.devices m.stack (keyFile m) ∧
        KeyAccepted m.digests m.stack (keyFile m) := by
  rcases loadKey_cases m ctx with
    ⟨unhandled, fault⟩ | ⟨handled, ⟨accepted, akcipherCtx, loads⟩ | ⟨refused, hangs⟩⟩
  · simp [unhandled, fault]
  · simp [handled, accepted, loads]
  · simp [refused, hangs]

/-! ## One image -/

variable {m : Machine} {ctx : AkcipherCtx} {cfg : Config} {s : BootState}

/-- `load` returns at once. -/
def Skipped (file : BootFile) : Prop :=
  file.name = none ∨ file.addr = 0 ∨ file.name = some []

/-- `load` goes to the boot devices with this name. -/
def Named (file : BootFile) (name : List UInt8) : Prop :=
  file.name = some name ∧ file.addr ≠ 0 ∧ name ≠ []

/-- An image is skipped or has a name. -/
theorem skipped_or_named (file : BootFile) : Skipped file ∨ ∃ name, Named file name := by
  unfold Skipped Named
  cases file.name with
  | none => exact Or.inl (Or.inl rfl)
  | some name =>
      by_cases address : file.addr = 0
      · exact Or.inl (Or.inr (Or.inl address))
      · by_cases empty : name = []
        · exact Or.inl (Or.inr (Or.inr (congrArg some empty)))
        · exact Or.inr ⟨name, rfl, address, empty⟩

theorem not_skipped {file : BootFile} {name : List UInt8} (named : Named file name) :
    ¬ Skipped file := by
  obtain ⟨hasName, address, nonempty⟩ := named
  rintro (missing | none | empty)
  · cases hasName.symm.trans missing
  · exact address none
  · exact nonempty (Option.some.inj (hasName.symm.trans empty))

/-- What the boot devices answer to the name of the signature, and the array behind
their answer. -/
def signature (m : Machine) (name : List UInt8) : List Answer :=
  m.media (name ++ ascii ".sig")

def signatureArray (m : Machine) (name : List UInt8) : List UInt8 :=
  fetch (storeAll m.stack (storesOf 0 (signature m name))) 0 SIG_SIZE

/-- The image is found and has room, and so is its signature, with which it is
accepted. -/
structure Loadable (m : Machine) (ctx : AkcipherCtx) (addr : Nat) (name : List UInt8) :
    Prop where
  room : Fits m.free addr (m.media name)
  found : contentOf (m.media name) ≠ []
  short : name.length + 5 ≤ 64
  sigRoom : Fits (· < SIG_SIZE) 0 (signature m name)
  sigFound : contentOf (signature m name) ≠ []
  verified : m.verify ctx (contentOf (m.media name)) (signatureArray m name) = 0

/-- The image has no room; or it is found, and the name or the file of its signature
is too long. -/
def Faulty (m : Machine) (addr : Nat) (name : List UInt8) : Prop :=
  ¬ Fits m.free addr (m.media name) ∨ contentOf (m.media name) ≠ [] ∧
    (64 < name.length + 5 ∨ ¬ Fits (· < SIG_SIZE) 0 (signature m name))

theorem Loadable.not_faulty {addr : Nat} {name : List UInt8}
    (loadable : Loadable m ctx addr name) : ¬ Faulty m addr name := by
  rintro (unfit | ⟨-, long | unfit⟩)
  · exact unfit loadable.room
  · have short := loadable.short
    omega
  · exact unfit loadable.sigRoom

/-- The configuration and the state behind an image that was accepted. -/
def Config.loaded (cfg : Config) (m : Machine) (image : Image) (name : List UInt8) : Config :=
  cfg.setFile image { cfg.file image with size := (contentOf (m.media name)).length }

def BootState.loaded (s : BootState) (m : Machine) (image : Image) (addr : Nat)
    (name : List UInt8) : BootState where
  memory := storeAll s.memory (storesOf addr (m.media name))
  accepted := s.accepted ++ [(image, contentOf (m.media name))]

/-- The verification, by whether the name and the signature fit and the latter is
found and right. -/
theorem verifyImage_cases (image : Image) (name : List UInt8) (file : BootFile) :
    verifyImage m ctx image name file s =
      if name.length + 5 ≤ 64 then
        bdmLoad (· < SIG_SIZE) m.stack 0 (signature m name) >>= fun loaded =>
          if loaded.2 ≤ 0 then .error .hang
          else if m.verify ctx (fetch s.memory file.addr file.size)
              (fetch loaded.1 0 SIG_SIZE) ≠ 0 then .error .hang
          else .ok { s with
            accepted := s.accepted ++ [(image, fetch s.memory file.addr file.size)] }
      else .error .fault := by
  unfold verifyImage signature
  by_cases short : name.length + 5 ≤ 64
  · rw [if_pos short, if_neg (by omega)]
    rfl
  · rw [if_neg short, if_pos (by omega)]
    rfl

/-- An image that is skipped changes nothing. -/
theorem load_skipped {image : Image} (skipped : Skipped (cfg.file image)) :
    load m cfg image s = .ok (cfg, s) := by
  rcases skipped with missing | address | empty
  · simp only [load, missing]
    rfl
  · cases name : (cfg.file image).name with
    | none =>
        simp only [load, name]
        rfl
    | some name' =>
        simp only [load, name, address, true_or, if_true]
        rfl
  · simp only [load, empty, or_true, if_true]
    rfl

/-- An image with a name is loaded and then verified. -/
theorem load_cases {image : Image} {name : List UInt8} (secure : cfg.secure = true)
    (named : Named (cfg.file image) name) :
    load m cfg image s =
      bdmLoad m.free s.memory (cfg.file image).addr (m.media name) >>= fun loaded =>
        if loaded.2 ≤ 0 then .error .hang
        else
          verifyImage m cfg.akcipherCtx image name
            { cfg.file image with size := loaded.2.toNat }
            { s with memory := loaded.1 } >>= fun s =>
          .ok (cfg.setFile image { cfg.file image with size := loaded.2.toNat }, s) := by
  obtain ⟨hasName, address, nonempty⟩ := named
  have both : ¬ ((cfg.file image).addr = 0 ∨ name = []) := by simp [address, nonempty]
  simp only [load, hasName, if_neg both]
  cases bdmLoad m.free s.memory (cfg.file image).addr (m.media name) with
  | error stop => rfl
  | ok loaded =>
      have stillSecure (file : BootFile) : (cfg.setFile image file).secure = true := secure
      simp only [stillSecure, if_true]
      rfl

/-- The load of an image succeeds exactly if it is loadable, and stores the image and its
signature. -/
theorem load_named {image : Image} {name : List UInt8} (secure : cfg.secure = true)
    (named : Named (cfg.file image) name) :
    (Loadable m cfg.akcipherCtx (cfg.file image).addr name ∧ load m cfg image s =
        .ok (cfg.loaded m image name, s.loaded m image (cfg.file image).addr name)) ∨
      (Faulty m (cfg.file image).addr name ∧ load m cfg image s = .error .fault) ∨
      (¬ Loadable m cfg.akcipherCtx (cfg.file image).addr name ∧
        ¬ Faulty m (cfg.file image).addr name ∧ load m cfg image s = .error .hang) := by
  rw [load_cases secure named]
  by_cases room : Fits m.free (cfg.file image).addr (m.media name)
  · rw [bdmLoad_fits room]
    by_cases found : contentOf (m.media name) = []
    · right
      right
      refine ⟨fun loadable => loadable.found found, ?_, ?_⟩
      · rintro (unfit | ⟨found', -⟩)
        · exact unfit room
        · exact found' found
      · rw [if_pos found]
        rfl
    · have size : ¬ ((contentOf (m.media name)).length : Int) ≤ 0 := by
        have positive := List.length_pos_iff.mpr found
        omega
      have bytes : fetch (storeAll s.memory (storesOf (cfg.file image).addr (m.media name)))
          (cfg.file image).addr (contentOf (m.media name)).length = contentOf (m.media name) :=
        fetch_storesOf found s.memory _
      rw [if_neg found]
      simp only [bind, Except.bind, if_neg size, verifyImage_cases, Int.toNat_natCast, bytes]
      by_cases short : name.length + 5 ≤ 64
      · by_cases sigRoom : Fits (· < SIG_SIZE) 0 (signature m name)
        · have unfaulty : ¬ Faulty m (cfg.file image).addr name := by
            rintro (unfit | ⟨-, long | unfit⟩)
            · exact unfit room
            · omega
            · exact unfit sigRoom
          simp only [if_pos short, bdmLoad_fits sigRoom]
          by_cases sigFound : contentOf (signature m name) = []
          · right
            right
            refine ⟨fun loadable => loadable.sigFound sigFound, unfaulty, ?_⟩
            rw [if_pos sigFound]
            rfl
          · simp only [if_neg (bdmLoad_found sigFound)]
            by_cases verified : m.verify cfg.akcipherCtx (contentOf (m.media name))
                (fetch (storeAll m.stack (storesOf 0 (signature m name))) 0 SIG_SIZE) = 0
            · left
              refine ⟨⟨room, found, short, sigRoom, sigFound, verified⟩, ?_⟩
              rw [if_neg (not_not_intro verified)]
              rfl
            · right
              right
              refine ⟨fun loadable => verified loadable.verified, unfaulty, ?_⟩
              rw [if_pos verified]
        · right
          left
          simp only [if_pos short, bdmLoad_fault sigRoom]
          exact ⟨Or.inr ⟨found, Or.inr sigRoom⟩, trivial⟩
      · right
        left
        simp only [if_neg short]
        exact ⟨Or.inr ⟨found, Or.inl (by omega)⟩, trivial⟩
  · right
    left
    rw [bdmLoad_fault room]
    exact ⟨Or.inl room, rfl⟩

end Zsbl.Plat.Sg2044
