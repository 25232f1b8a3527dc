/-
Module: Zsbl.Proofs.ConfigFile
Purpose: Which bytes parse_config_file reads, and when it changes the configuration.
Trusted boundary: none
Main exports:
  ConfAcceptable, AcceptsOnly, Accepts2042, Accepts2044, ScansInside, config_file_acceptance
-/
import Zsbl.Plat.ConfigFile
import Zsbl.Proofs.CString

namespace Zsbl.Plat

open Zsbl.Lib Zsbl.Libs

/-! ## Acceptance -/

/-- The load succeeds with bytes that start with the header and contain the tail. -/
def ConfAcceptable (devices : List ConfDevice) : Prop :=
  ∃ buf, confLoad devices = some buf ∧ confHeader <+: buf ∧ confTail <:+: buf

/-- The call reads loaded bytes only, and returns an error with the configuration unchanged
unless the file is acceptable. -/
def AcceptsOnly {σ : Type} (devices : List ConfDevice) (cfg : σ) (result : Option (σ × Int)) :
    Prop :=
  ∃ cfg' err, result = some (cfg', err) ∧ (ConfAcceptable devices ∨ err < 0 ∧ cfg' = cfg)

/-- `parse_config_file` of the sg2042, for every configuration and parser. -/
def Accepts2042 (devices : List ConfDevice) (memory : Bool) : Prop :=
  ∀ (σ : Type) (iniParseString : List UInt8 → σ → σ × Int) (cfg : σ),
    AcceptsOnly devices cfg (parseConfigFile2042 iniParseString devices memory cfg)

def Accepts2044 (devices : List ConfDevice) : Prop :=
  ∀ (σ : Type) (iniParseString : List UInt8 → σ → σ × Int) (cfg : σ),
    AcceptsOnly devices cfg (parseConfigFile2044 iniParseString devices cfg)

/-- The bytes are not cut short in the header, and where they have the header they have the
tail, or a terminator in front of it. -/
def ScansInside (buf : List UInt8) : Prop :=
  (confHeader <+: buf ∨ ¬ buf <+: confHeader) ∧
    (confHeader <+: buf → confTail <:+: buf ∨ 0 ∈ buf)

/-! ## Scans -/

/-- Behind the header the tail decides. -/
theorem confScan_header {buf : List UInt8} (header : confHeader <+: buf) :
    confScan buf = (strstr buf confTail).map fun found => found.elim (.error (-EINVAL)) .ok := by
  have compared : strncmp confHeader buf confHeader.length = some 0 := by
    rcases strncmp_cases (by decide : 0 ∉ confHeader) buf with
      ⟨same, -⟩ | ⟨order, -, -, missing, -⟩ | ⟨-, missing, -⟩
    · exact same
    · exact absurd header missing
    · exact absurd header missing
  unfold confScan
  rw [compared, Option.bind_eq_bind, Option.bind_some, if_neg (by simp)]
  cases strstr buf confTail with
  | none => rfl
  | some found => cases found <;> rfl

/-- The scans stay inside exactly when the bytes are not cut short. -/
theorem confScan_isSome (buf : List UInt8) : (confScan buf).isSome ↔ ScansInside buf := by
  unfold ScansInside
  rcases strncmp_cases (by decide : 0 ∉ confHeader) buf with
    ⟨-, header⟩ | ⟨order, differs, compared, noHeader, notShort⟩ | ⟨compared, noHeader, short⟩
  · have found := strstrFrom_eq_none (by decide : confTail ≠ []) (by decide) buf
    rw [confScan_header header]
    simp only [Option.isSome_map, Option.isSome_iff_ne_none, strstr, if_neg
      (by decide : confTail ≠ []), ne_eq, found, header, true_or, true_and, forall_const]
    tauto
  · simp [confScan, compared, differs, noHeader, notShort]
  · simp [confScan, compared, noHeader, short]

/-- A text that is accepted has the header in front and the tail somewhere. -/
theorem confScan_ok {buf : List UInt8} {eof : Nat} (scanned : confScan buf = some (.ok eof)) :
    confHeader <+: buf ∧ confTail <:+: buf := by
  have header : confHeader <+: buf := by
    rcases strncmp_cases (by decide : 0 ∉ confHeader) buf with
      ⟨-, header⟩ | ⟨order, differs, compared, -⟩ | ⟨compared, -⟩
    · exact header
    · simp [confScan, compared, differs] at scanned
    · simp [confScan, compared] at scanned
  refine ⟨header, ?_⟩
  rw [confScan_header header, Option.map_eq_some_iff] at scanned
  obtain ⟨found, isFound, same⟩ := scanned
  cases found with
  | none => cases same
  | some i =>
      have here := strstrFrom_found isFound
      exact here.isInfix.trans (List.drop_suffix i buf).isInfix

/-- An error is negative. -/
theorem confScan_error {buf : List UInt8} {err : Int}
    (scanned : confScan buf = some (.error err)) : err < 0 := by
  rcases strncmp_cases (by decide : 0 ∉ confHeader) buf with
    ⟨-, header⟩ | ⟨order, differs, compared, -⟩ | ⟨compared, -⟩
  · rw [confScan_header header, Option.map_eq_some_iff] at scanned
    obtain ⟨found, -, same⟩ := scanned
    cases found with
    | none =>
        cases same
        decide
    | some i => cases same
  · simp [confScan, compared, differs] at scanned
    rw [← scanned]
    decide
  · simp [confScan, compared] at scanned

/-- Where the size is positive, the call accepts as it should exactly when the scans stay
inside of what was loaded. -/
theorem acceptsOnly_iff {σ : Type} (iniParseString : List UInt8 → σ → σ × Int) (cfg : σ)
    (string : Nat → List UInt8) (devices : List ConfDevice) :
    AcceptsOnly devices cfg (confOutcome iniParseString cfg string
      (confScan ((confLoad devices).getD []))) ↔
        ∃ buf, confLoad devices = some buf ∧ ScansInside buf := by
  cases loaded : confLoad devices with
  | none =>
      refine iff_of_false ?_ (by simp)
      rintro ⟨cfg', err, returns, -⟩
      cases returns
  | some buf =>
      rw [Option.getD_some]
      constructor
      · rintro ⟨cfg', err, returns, -⟩
        refine ⟨buf, rfl, (confScan_isSome buf).mp ?_⟩
        rw [Option.isSome_iff_ne_none]
        intro outside
        rw [outside] at returns
        cases returns
      · rintro ⟨buf', same, inside⟩
        obtain rfl := Option.some.inj same
        obtain ⟨outcome, scanned⟩ := Option.isSome_iff_exists.mp ((confScan_isSome buf).mpr inside)
        rw [scanned]
        cases outcome with
        | error err => exact ⟨cfg, err, rfl, .inr ⟨confScan_error scanned, rfl⟩⟩
        | ok eof => exact ⟨_, _, rfl, .inl ⟨buf, loaded, confScan_ok scanned⟩⟩

theorem acceptsOnly_missing {σ : Type} (devices : List ConfDevice) (cfg : σ) :
    AcceptsOnly devices cfg (some (cfg, -ENOENT)) :=
  ⟨cfg, -ENOENT, rfl, .inr ⟨by decide, rfl⟩⟩

/-- Both accept as they should exactly when no device has a size for the file, or there is
memory for it and the scans stay inside of what was loaded. -/
theorem config_file_acceptance (devices : List ConfDevice) (memory : Bool) :
    (Accepts2042 devices memory ↔ confFileSize devices ≤ 0 ∨
      memory = true ∧ ∃ buf, confLoad devices = some buf ∧ ScansInside buf) ∧
    (Accepts2044 devices ↔ confFileSize devices ≤ 0 ∨
      ∃ buf, confLoad devices = some buf ∧ ScansInside buf) := by
  have iniNone (string : List UInt8) (cfg : Unit) : Unit × Int := (cfg, 0)
  by_cases none : confFileSize devices ≤ 0
  · refine ⟨iff_of_true (fun σ ini cfg => ?_) (.inl none),
      iff_of_true (fun σ ini cfg => ?_) (.inl none)⟩
    · rw [parseConfigFile2042, if_pos none]
      exact acceptsOnly_missing devices cfg
    · rw [parseConfigFile2044, if_pos none]
      exact acceptsOnly_missing devices cfg
  · rw [or_iff_right none, or_iff_right none]
    constructor
    · cases memory with
      | false =>
          refine iff_of_false (fun accepts => ?_) (by simp)
          obtain ⟨cfg', err, returns, -⟩ := accepts Unit iniNone ()
          rw [parseConfigFile2042, if_neg none] at returns
          cases returns
      | true =>
          rw [and_iff_right rfl]
          constructor
          · intro accepts
            have accepted := accepts Unit iniNone ()
            rw [parseConfigFile2042, if_neg none] at accepted
            exact (acceptsOnly_iff _ _ _ devices).mp accepted
          · intro inside σ ini cfg
            rw [parseConfigFile2042, if_neg none]
            exact (acceptsOnly_iff _ _ _ devices).mpr inside
    · constructor
      · intro accepts
        have accepted := accepts Unit iniNone ()
        rw [parseConfigFile2044, if_neg none] at accepted
        exact (acceptsOnly_iff _ _ _ devices).mp accepted
      · intro inside σ ini cfg
        rw [parseConfigFile2044, if_neg none]
        exact (acceptsOnly_iff _ _ _ devices).mpr inside

/-- A device that tells a size and then fails to load. -/
def vanishedFile : List ConfDevice := [⟨false, 100, none⟩]

/-- A device with the first bytes of the header. -/
def shortFile : List ConfDevice := [⟨false, 3, some (confHeader.take 3)⟩]

/-- The bytes of the buffer are read though nothing was loaded, or no more than that. -/
theorem vanished_file_is_read :
    ¬ Accepts2042 vanishedFile true ∧ ¬ Accepts2044 vanishedFile ∧
      ¬ Accepts2042 shortFile true ∧ ¬ Accepts2044 shortFile := by
  refine ⟨fun accepts => ?_, fun accepts => ?_, fun accepts => ?_, fun accepts => ?_⟩ <;>
    obtain ⟨cfg', err, returns, -⟩ := accepts Unit (fun _ cfg => (cfg, 0)) () <;>
    cases returns

end Zsbl.Plat
