/-
Module: Zsbl.Proofs.RootOfTrust
Purpose: When the public key of secure boot is the one whose digest is in the fuses.
Trusted boundary: none
Main exports:
  RootOfTrust, configInit_secure, loadImages_accepted, rootOfTrust_iff
-/
import Zsbl.Proofs.SecureLoad

namespace Zsbl.Plat.Sg2044

open Zsbl.Lib Zsbl.Libs Zsbl.Drivers

/-- With the enable bits set, `config_init` turns secure boot on, and the loading of the
key keeps to its memory and is only left with a key file whose digest is in the fuses. -/
def RootOfTrust (devices : List Nvmem) (efuse0 : Nvmem) (digests : Digests)
    (stack : Memory) (answers : List Answer) : Prop :=
  secureBits efuse0 ≠ 0 →
    (∀ ramBase bootsel, ∃ cfg, configInit ramBase bootsel devices = some cfg ∧
      cfg.secure = true) ∧
    ∀ m cfg memory, m.devices = devices → m.digests = digests → m.stack = stack →
      keyFile m = answers → cfg.secure = true →
        loadKey m cfg.akcipherCtx ≠ .error .fault ∧
        (loadImages m cfg memory ≠ .error .hang →
          ∃ alg, KeyReached (keyArray stack answers) alg ∧
            digests.of alg (contentOf answers) = fusedHash efuse0)

/-- Secure boot is turned on where both eFuses are registered. -/
theorem configInit_secure (ramBase : Nat) (bootsel : BitVec 32) {devices : List Nvmem}
    {efuse0 : Nvmem} (registered : nvmemFindByName devices "efuse0" = some efuse0) :
    ∃ cfg, configInit ramBase bootsel devices = some cfg ∧
      cfg.secure = ((nvmemFindByName devices "efuse1").isSome && secureBits efuse0 ≠ 0) := by
  cases efuse1 : nvmemFindByName devices "efuse1" with
  | none =>
      refine ⟨_, by simp only [configInit, getInfoInEfuse, efuse1]; rfl, ?_⟩
      rfl
  | some dev =>
      refine ⟨_, by simp only [configInit, getInfoInEfuse, efuse1, secureBoot, registered]; rfl, ?_⟩
      simp

/-- A machine whose boot devices have no file but the key. -/
def keyMachine (devices : List Nvmem) (digests : Digests) (stack : Memory)
    (answers : List Answer) : Machine where
  media := fun name => if name = ascii "public_key.der" then answers else []
  free := fun _ => true
  stack := stack
  devices := devices
  digests := digests
  verify := fun _ _ _ => 0

theorem keyFile_keyMachine (devices : List Nvmem) (digests : Digests) (stack : Memory)
    (answers : List Answer) : keyFile (keyMachine devices digests stack answers) = answers := by
  simp [keyFile, keyMachine]

/-- An accepted key lets the loading come back, whatever is in the fuses. -/
theorem loadImages_accepted {devices : List Nvmem} {digests : Digests} {stack : Memory}
    {answers : List Answer} (handled : KeyHandled devices stack answers)
    (accepted : KeyAccepted digests stack answers) :
    ∃ result, loadImages (keyMachine devices digests stack answers)
      { Config.static with secure := true } (fun _ => 0) = .ok result := by
  obtain ⟨akcipherCtx, loads⟩ : ∃ akcipherCtx,
      loadKey (keyMachine devices digests stack answers) Config.static.akcipherCtx =
        .ok akcipherCtx := by
    rw [loadKey_accepts_iff, keyFile_keyMachine]
    exact ⟨handled, accepted⟩
  rw [loadImages_secure _ rfl, loads]
  obtain ⟨cfg', s', done⟩ : ∃ cfg' s', loadAll (keyMachine devices digests stack answers) Image.all
      { moveDtbo { Config.static with secure := true } with akcipherCtx }
      ⟨fun _ => 0, []⟩ = .ok (cfg', s') :=
    loadAll_passes rfl fun image _ => Or.inl (Or.inl rfl)
  exact ⟨_, done⟩

/-- The key decides whether the loading hangs before the images. -/
theorem loadImages_hang {m : Machine} {cfg : Config} (secure : cfg.secure = true)
    (memory : Memory) (handled : KeyHandled m.devices m.stack (keyFile m))
    (refused : ¬ KeyAccepted m.digests m.stack (keyFile m)) :
    loadImages m cfg memory = .error .hang := by
  rcases loadKey_cases m cfg.akcipherCtx with
    ⟨unhandled, -⟩ | ⟨-, ⟨accepted, -⟩ | ⟨-, hangs⟩⟩
  · exact absurd handled unhandled
  · exact absurd accepted refused
  · rw [loadImages_secure m secure, hangs]
    rfl

/-- Where the fuses are the root of trust, only chips with the built-in hash accept a key. -/
theorem RootOfTrust.fused_builtin {devices : List Nvmem} {efuse0 : Nvmem} {digests : Digests}
    {stack : Memory} {answers : List Answer}
    (trusted : RootOfTrust devices efuse0 digests stack answers) (enabled : secureBits efuse0 ≠ 0)
    (handled : KeyHandled devices stack answers)
    (accepted : KeyAccepted digests stack answers) : fusedHash efuse0 = builtinHash := by
  obtain ⟨result, loads⟩ := loadImages_accepted handled accepted
  obtain ⟨-, onlyFused⟩ := (trusted enabled).2 (keyMachine devices digests stack answers)
    { Config.static with secure := true } (fun _ => 0) rfl rfl rfl (keyFile_keyMachine _ _ _ _) rfl
  obtain ⟨alg, reached, fused⟩ := onlyFused (by simp [loads])
  obtain ⟨-, other, reached', builtin⟩ := accepted
  obtain rfl := reached.unique reached'
  exact fused.symm.trans builtin

/-- The fuses are the root of trust exactly where secure boot is off, or where both
eFuses are registered, the key file keeps to its array, and the fused hash is the built-in
one or the key file is not accepted. -/
theorem rootOfTrust_iff {devices : List Nvmem} {efuse0 : Nvmem}
    (registered : nvmemFindByName devices "efuse0" = some efuse0) (digests : Digests)
    (stack : Memory) (answers : List Answer) :
    RootOfTrust devices efuse0 digests stack answers ↔ secureBits efuse0 = 0 ∨
      (nvmemFindByName devices "efuse1").isSome ∧ KeyHandled devices stack answers ∧
        (KeyAccepted digests stack answers → fusedHash efuse0 = builtinHash) := by
  by_cases enabled : secureBits efuse0 = 0
  · simp [RootOfTrust, enabled]
  rw [or_iff_right enabled]
  constructor
  · intro trusted
    obtain ⟨turnsOn, onlyFused⟩ := trusted enabled
    have file := keyFile_keyMachine devices digests stack answers
    have runs := onlyFused (keyMachine devices digests stack answers)
      { Config.static with secure := true } (fun _ => 0) rfl rfl rfl file rfl
    have handled : KeyHandled devices stack answers := by
      by_contra unhandled
      apply runs.1
      rw [loadKey_fault_iff, file]
      exact unhandled
    refine ⟨?_, handled, ?_⟩
    · obtain ⟨cfg, done, secure⟩ := turnsOn 0 0
      obtain ⟨cfg', done', secure'⟩ := configInit_secure 0 0 registered
      obtain rfl := Option.some.inj (done.symm.trans done')
      rw [secure, eq_comm, Bool.and_eq_true] at secure'
      exact secure'.1
    · exact fun accepted => trusted.fused_builtin enabled handled accepted
  · rintro ⟨efuse1, handled, same⟩ -
    constructor
    · intro ramBase bootsel
      obtain ⟨cfg, done, secure⟩ := configInit_secure ramBase bootsel registered
      refine ⟨cfg, done, ?_⟩
      rw [secure, efuse1, Bool.true_and]
      exact decide_eq_true enabled
    · rintro m cfg memory rfl rfl rfl rfl secure
      constructor
      · rw [Ne, loadKey_fault_iff]
        exact not_not_intro handled
      · intro returns
        have accepted : KeyAccepted m.digests m.stack (keyFile m) := by
          by_contra refused
          exact returns (loadImages_hang secure memory handled refused)
        have fused := same accepted
        obtain ⟨-, alg, reached, builtin⟩ := accepted
        exact ⟨alg, reached, builtin.trans fused.symm⟩

/-- Both eFuses, with the enable bits set and these words of the hash. -/
def fuses (hash : List (BitVec 32)) : Nvmem :=
  ⟨"nvmem:efuse0", "efuse0", fun cell => if cell = 1 then 0xc else hash.getD (cell - 12) 0⟩

def fusesDevices (hash : List (BitVec 32)) : List Nvmem :=
  [fuses hash, ⟨"nvmem:efuse1", "efuse1", fun _ => 0⟩]

/-- The words of the built-in hash. -/
def builtinWords : List (BitVec 32) :=
  [0x30fbdb40, 0xb6c7c489, 0xd3152e49, 0x5fa4f32d, 0xc4c03e8a, 0x03d98cb1, 0xf97e57f0, 0x5c3c1349]

theorem rootOfTrust_builtinWords : RootOfTrust (fusesDevices builtinWords) (fuses builtinWords)
    codeDigests (fun _ => 0) [⟨rsaKeyFile, false, false⟩] := by
  apply (rootOfTrust_iff rfl codeDigests _ _).mpr
  right
  refine ⟨by decide, rsaKeyFile_handled _ (by decide), fun _ => ?_⟩
  decide

/-- A key file whose digest is the built-in one is accepted where the fuses hold zeros; and
without efuse1 secure boot stays off, whatever the key file is. -/
theorem fusedHash_ignored :
    ¬ RootOfTrust (fusesDevices []) (fuses []) ⟨fun _ => builtinHash, fun _ => builtinHash⟩
        (fun _ => 0) [⟨rsaKeyFile, false, false⟩] ∧
      ¬ RootOfTrust [fuses []] (fuses []) codeDigests (fun _ => 0)
        [⟨rsaKeyFile, false, false⟩] := by
  constructor
  · intro trusted
    have handled : KeyHandled (fusesDevices []) (fun _ => 0) [⟨rsaKeyFile, false, false⟩] :=
      rsaKeyFile_handled _ (by decide)
    exact absurd (trusted.fused_builtin (by decide) handled (rsaKeyFile_accepted _ rfl))
      (by decide)
  · intro trusted
    obtain ⟨cfg, done, secure⟩ := (trusted (by decide)).1 0 0
    obtain ⟨cfg', done', secure'⟩ :=
      configInit_secure 0 0 (show nvmemFindByName [fuses []] "efuse0" = some (fuses []) from rfl)
    obtain rfl := Option.some.inj (done.symm.trans done')
    rw [secure] at secure'
    exact absurd secure' (by decide)

end Zsbl.Plat.Sg2044
