/-
Module: Zsbl.Proofs.PkaCalls
Purpose: When the computations of the accelerator release its semaphore, and report
  success only for what was loaded, computed and unloaded.
Trusted boundary: the firmware and the hardware, which are parameters
Main exports:
  Transfers, Computed, PkaCall.fair_iff, startCompute_honest
-/
import Zsbl.Drivers.Pkadev
import Zsbl.Lib.Runs
import Mathlib.Tactic.ByContra

namespace Zsbl.Drivers

open Zsbl.Lib

/-! ## Operands that are transferred -/

/-- Where the operand that a name states is in the registers, in bytes. -/
def VaParam.operand (cfg : PkaConfig) (size : Nat) (param : VaParam) : Option Nat :=
  if param.plainName.head? = some 0x25 then
    (pkaLookupParam ((param.plainName.drop 1).take 7)).bind fun register =>
      (operandBaseOffset cfg register.1 register.2 size).toOption.map (4 * ·)
  else none

/-- The stores of all parameters of a list are made, one parameter after the other. -/
inductive Transfers (cfg : PkaConfig) (size : Nat)
    (stores : Nat → Nat → List (Nat × List UInt8)) :
    List VaParam → Memory → Memory → Prop where
  | nil (state : Memory) : Transfers cfg size stores [] state state
  | cons {param : VaParam} {rest : List VaParam} {state state' : Memory} {opbase : Nat} :
      param.data ≠ 0 → param.operand cfg size = some opbase →
      Transfers cfg size stores rest (storeAll state (stores opbase param.data)) state' →
      Transfers cfg size stores (param :: rest) state state'

/-- What `set_param` and `get_param` have in common. -/
def moveOperand (cfg : PkaConfig) (size : Nat) (stores : Nat → Nat → List (Nat × List UInt8))
    (name : List UInt8) (data : Nat) (state : Memory) : Int × Memory :=
  match pkaLookupParam name with
  | none => (-enoent, state)
  | some (bank, index) =>
      match operandBaseOffset cfg bank index size with
      | .error rc => (rc, state)
      | .ok offset => (0, storeAll state (stores (4 * offset) data))

theorem setParam_eq (pka : Pka) (memory : Memory) (size : Nat) :
    setParam pka memory size =
      moveOperand pka.cfg size (fun opbase data => loadStores memory opbase size data) := by
  funext name data regs
  unfold setParam moveOperand elppkaLoadOperand
  rfl

theorem getParam_eq (pka : Pka) (regs : Memory) (size : Nat) :
    getParam pka regs size =
      moveOperand pka.cfg size (fun opbase data => unloadStores regs opbase size data) := by
  funext name data memory
  unfold getParam moveOperand elppkaUnloadOperand
  rfl

/-- An operand that is not there is reported below -1. -/
theorem operandBaseOffset_error {cfg : PkaConfig} {bank : PkaBank} {index size : Nat} {rc : Int}
    (fails : operandBaseOffset cfg bank index size = .error rc) : rc < -1 := by
  unfold operandBaseOffset at fails
  simp only at fails
  split at fails
  · cases fails
    decide
  · split at fails
    · cases fails
      decide
    · cases fails

section Transfer

variable {cfg : PkaConfig} {size : Nat} {stores : Nat → Nat → List (Nat × List UInt8)}

/-- A transfer makes its stores or has a negative code other than -1. -/
theorem moveOperand_cases (name : List UInt8) (data : Nat) (state : Memory) :
    (∃ opbase, moveOperand cfg size stores name data state =
      (0, storeAll state (stores opbase data))) ∨
    ∃ rc < -1, moveOperand cfg size stores name data state = (rc, state) := by
  unfold moveOperand
  cases pkaLookupParam name with
  | none => exact .inr ⟨-enoent, by decide, rfl⟩
  | some register =>
      obtain ⟨bank, index⟩ := register
      simp only
      cases place : operandBaseOffset cfg bank index size with
      | error rc => exact .inr ⟨rc, operandBaseOffset_error place, rfl⟩
      | ok offset => exact .inl ⟨4 * offset, rfl⟩

/-- Of a parameter with an operand it makes the stores there. -/
theorem moveOperand_operand {param : VaParam} {opbase : Nat}
    (operand : param.operand cfg size = some opbase) (name : List UInt8) (data : Nat)
    (state : Memory) : moveOperand cfg size stores (param.retName name) data state =
      (0, storeAll state (stores opbase data)) := by
  unfold VaParam.operand at operand
  split at operand
  · next absolute =>
      obtain ⟨register, found, place⟩ := Option.bind_eq_some_iff.mp operand
      obtain ⟨offset, there, rfl⟩ := Option.map_eq_some_iff.mp place
      unfold moveOperand VaParam.retName
      rw [if_pos absolute, found]
      simp only
      cases place : operandBaseOffset cfg register.1 register.2 size with
      | error rc =>
          rw [place] at there
          cases there
      | ok offset' =>
          rw [place] at there
          cases there
          rfl
  · cases operand

/-- The loop ends with 0 or -1. -/
theorem paramLoop_code (output : Bool) (fails : Int → Bool) (name : List UInt8)
    (ap : List VaParam) (state : Memory) :
    (paramLoop output fails (moveOperand cfg size stores) name ap state).1 = 0 ∨
      (paramLoop output fails (moveOperand cfg size stores) name ap state).1 = -1 := by
  induction ap generalizing name state with
  | nil => exact .inl rfl
  | cons param ap ih =>
      unfold paramLoop
      split
      · exact ih name state
      · split
        · exact .inl rfl
        · simp only
          split
          · exact .inr rfl
          · exact ih _ _

/-- A loop that takes only -1 for a failure does not see any. -/
theorem paramLoop_ignores (output : Bool) (name : List UInt8) (ap : List VaParam)
    (state : Memory) :
    (paramLoop output (· = -1) (moveOperand cfg size stores) name ap state).1 = 0 := by
  induction ap generalizing name state with
  | nil => rfl
  | cons param ap ih =>
      unfold paramLoop
      split
      · exact ih name state
      · split
        · rfl
        · obtain ⟨opbase, moved⟩ | ⟨rc, small, failed⟩ := @moveOperand_cases cfg size stores
            (param.retName name) param.data state
          · simp only [moved]
            exact ih _ _
          · have unseen : decide (rc = -1) = false := decide_eq_false (by omega)
            simp only [failed, unseen, Bool.false_eq_true, if_false]
            exact ih _ _

/-- The loop over parameters that all have operands makes all of their stores. -/
theorem paramLoop_transfers {output : Bool} {fails : Int → Bool} (zero : fails 0 = false)
    {ap : List VaParam} {state state' : Memory}
    (transfers : Transfers cfg size stores (ap.filter (·.isOutput = output)) state state')
    (name : List UInt8) :
    paramLoop output fails (moveOperand cfg size stores) name ap state = (0, state') := by
  induction ap generalizing name state with
  | nil =>
      cases transfers
      rfl
  | cons param ap ih =>
      unfold paramLoop
      by_cases wanted : param.isOutput = output
      · rw [List.filter_cons_of_pos (by simpa using wanted)] at transfers
        cases transfers with
        | cons pointer operand rest =>
            rw [if_neg (not_not_intro wanted), if_neg pointer]
            simp only [moveOperand_operand operand, zero, Bool.false_eq_true, if_false]
            exact ih rest _
      · rw [List.filter_cons_of_neg (by simpa using wanted)] at transfers
        rw [if_pos wanted]
        exact ih transfers name

/-- Parameters with pointers and operands are transferred. -/
theorem transfers_of_operands {params : List VaParam}
    (named : ∀ param ∈ params, param.data ≠ 0 ∧ (param.operand cfg size).isSome)
    (state : Memory) : ∃ state', Transfers cfg size stores params state state' := by
  induction params generalizing state with
  | nil => exact ⟨state, .nil state⟩
  | cons param params ih =>
      obtain ⟨pointer, operand⟩ := named param List.mem_cons_self
      obtain ⟨opbase, operand⟩ := Option.isSome_iff_exists.mp operand
      obtain ⟨state', rest⟩ := ih (fun other isOther => named other (.tail _ isOther))
        (storeAll state (stores opbase param.data))
      exact ⟨state', .cons pointer operand rest⟩

/-- Every parameter of a transfer has data and a place in the memory of the core. -/
theorem Transfers.operands {params : List VaParam} {state state' : Memory}
    (transfers : Transfers cfg size stores params state state') :
    ∀ param ∈ params, param.data ≠ 0 ∧ (param.operand cfg size).isSome := by
  induction transfers with
  | nil => simp
  | cons pointer operand _ ih =>
      intro param isParam
      cases isParam with
      | head => exact ⟨pointer, by simp [operand]⟩
      | tail _ isRest => exact ih param isRest

end Transfer

/-! ## Calls -/

structure PkaCall where
  pka : Pka
  size : Nat
  func : List UInt8
  ap : List VaParam

structure PkaState where
  dev : PkaDev
  memory : Memory

namespace PkaCall

def start (call : PkaCall) (s : PkaState) : Option (Int × PkaState) :=
  (startCompute call.pka s.dev s.memory call.size call.func call.ap).map fun result =>
    (result.1, ⟨result.2.1, result.2.2⟩)

def inputs (call : PkaCall) : List VaParam := call.ap.filter (·.isOutput = false)

def outputs (call : PkaCall) : List VaParam := call.ap.filter (·.isOutput = true)

/-- All inputs were loaded, the function was found and ended with status 0, and all
outputs were unloaded. -/
def Computed (call : PkaCall) (s s' : PkaState) : Prop :=
  ∃ regs entry, Transfers call.pka.cfg call.size
      (fun opbase data => loadStores s.memory opbase call.size data) call.inputs s.dev.regs regs ∧
    call.pka.lookupEntry call.func = Int.ofNat entry ∧
    call.pka.run entry call.size regs = (.stopped 0, s'.dev.regs) ∧
    Transfers call.pka.cfg call.size
      (fun opbase data => unloadStores s'.dev.regs opbase call.size data) call.outputs
      s.memory s'.memory

/-- The call returns with the semaphore released, and with 1 only when all was done. -/
def Fair (call : PkaCall) (s : PkaState) : Prop :=
  ∃ ret s', call.start s = some (ret, s') ∧ s'.dev.sem = 1 ∧ (ret = 1 → call.Computed s s')

/-! ## The branches of a call -/

/-- What `load_inputs` returns, and the registers it leaves. -/
def loaded (call : PkaCall) (s : PkaState) : Int × Memory :=
  loadInputs call.pka s.memory call.size call.ap s.dev.regs

/-- The firmware has the function, and the accelerator the size. -/
def Starts (call : PkaCall) : Prop :=
  0 ≤ call.pka.lookupEntry call.func ∧ elppkaBaseRadix call.size ≠ 0

/-- What the function leaves. -/
def ran (call : PkaCall) (s : PkaState) : PkaStatus × Memory :=
  call.pka.run (call.pka.lookupEntry call.func).toNat call.size (call.loaded s).2

/-- A call that loads its inputs finds its function and has a valid size; and if the
function then ends with status 0, no pointer is NULL and each name states an operand. -/
def Sound (s : PkaState) (call : PkaCall) : Prop :=
  (call.loaded s).1 = 0 → call.Starts ∧ ((call.ran s).1 = .stopped 0 →
    ∀ param ∈ call.ap, param.data ≠ 0 ∧ (param.operand call.pka.cfg call.size).isSome)

/-- A failure to load ends the call in front of the semaphore. -/
theorem start_of_not_loaded (call : PkaCall) (s : PkaState) (failed : (call.loaded s).1 ≠ 0) :
    call.start s = some (0, ⟨{ s.dev with regs := (call.loaded s).2 }, s.memory⟩) := by
  have code : (call.loaded s).1 = -1 := by
    have codes := @paramLoop_code call.pka.cfg call.size
      (fun opbase data => loadStores s.memory opbase call.size data) false (· ≠ 0) [] call.ap
      s.dev.regs
    rw [← setParam_eq] at codes
    exact codes.resolve_left failed
  have loads : loadInputs call.pka s.memory call.size call.ap s.dev.regs =
    (-1, (call.loaded s).2) := Prod.ext code rfl
  unfold start startCompute parseAndCompute
  rw [loads]
  rfl

/-- A failure to start keeps the semaphore. -/
theorem start_of_not_starts (call : PkaCall) (s : PkaState) (idle : s.dev.sem = 1)
    (loads : (call.loaded s).1 = 0) (unknown : ¬ call.Starts) :
    call.start s = some (0, ⟨{ s.dev with sem := 0, regs := (call.loaded s).2 }, s.memory⟩) := by
  have loads' : loadInputs call.pka s.memory call.size call.ap s.dev.regs =
    (0, (call.loaded s).2) := Prod.ext loads rfl
  have taken : pkaSemWait { s.dev with regs := (call.loaded s).2 } =
      some { s.dev with sem := 0, regs := (call.loaded s).2 } := by
    unfold pkaSemWait
    simp [idle]
  have fails : doCall call.pka { s.dev with regs := (call.loaded s).2 } call.func call.size =
      some (-1, { s.dev with sem := 0, regs := (call.loaded s).2 }) := by
    unfold doCall pkaCall
    simp only [taken, Option.bind_eq_bind, Option.bind_some]
    by_cases missing : call.pka.lookupEntry call.func < 0
    · simp [missing]
    · have badSize : elppkaBaseRadix call.size = 0 := by
        by_contra valid
        exact unknown ⟨Int.not_lt.mp missing, valid⟩
      simp [missing, elppkaStart, badSize, cryptoInvalidSize]
  unfold start startCompute parseAndCompute
  rw [loads']
  simp only [ne_eq, not_true_eq_false, if_false, Option.bind_eq_bind]
  rw [fails]
  rfl

/-- The device when the function has ended. -/
def stopped (call : PkaCall) (s : PkaState) : PkaDev where
  sem := 1
  regs := (call.ran s).2
  status := (call.ran s).1

/-- A call that starts loads its inputs, runs the function and reports how it stopped. -/
theorem doCall_of_starts (call : PkaCall) (s : PkaState) (idle : s.dev.sem = 1)
    (starts : call.Starts) :
    doCall call.pka { s.dev with regs := (call.loaded s).2 } call.func call.size =
      match (call.ran s).1 with
      | .busy => some (-1, call.stopped s)
      | .stopped reason => some (reason.toNat, call.stopped s) := by
  obtain ⟨found, valid⟩ := starts
  have started : pkaCall call.pka { s.dev with regs := (call.loaded s).2 } call.func call.size =
      some (0, { sem := 0, regs := (call.ran s).2, status := (call.ran s).1 }) := by
    unfold pkaCall pkaSemWait elppkaStart
    simp [idle, Int.not_lt.mpr found, valid, ran]
  unfold doCall
  rw [started]
  cases ended : (call.ran s).1 with
  | busy => simp [waitPkaDone, pkaWait, pkaSemWait, pkaSemPost, stopped, ended]
  | stopped reason => simp [waitPkaDone, pkaWait, pkaSemWait, pkaSemPost, stopped, ended]

/-- A function that ends with another status than 0 fails the call, and the semaphore
is released. -/
theorem start_of_not_stopped (call : PkaCall) (s : PkaState) (idle : s.dev.sem = 1)
    (loads : (call.loaded s).1 = 0) (starts : call.Starts)
    (failed : (call.ran s).1 ≠ .stopped 0) :
    call.start s = some (0, ⟨call.stopped s, s.memory⟩) := by
  have loads' : loadInputs call.pka s.memory call.size call.ap s.dev.regs =
    (0, (call.loaded s).2) := Prod.ext loads rfl
  unfold start startCompute parseAndCompute
  rw [loads']
  simp only [ne_eq, not_true_eq_false, if_false, Option.bind_eq_bind]
  rw [doCall_of_starts call s idle starts]
  cases ended : (call.ran s).1 with
  | busy => simp
  | stopped reason =>
      have positive : 0 < reason.toNat := by
        apply Nat.pos_of_ne_zero
        intro zero
        apply failed
        rw [ended, UInt8.toNat_inj.mp (zero.trans (UInt8.toNat_zero).symm)]
      have nonzero : reason.toNat ≠ 0 := Nat.ne_of_gt positive
      have notFailed : (reason.toNat : Int) ≠ -1 := by omega
      simp [nonzero, notFailed, positive]

/-- A function that ends with status 0 ends the call with 1. -/
theorem start_of_stopped (call : PkaCall) (s : PkaState) (idle : s.dev.sem = 1)
    (loads : (call.loaded s).1 = 0) (starts : call.Starts)
    (ended : (call.ran s).1 = .stopped 0) :
    call.start s = some (1, ⟨call.stopped s,
      (unloadOutputs call.pka (call.ran s).2 call.size call.ap s.memory).2⟩) := by
  have loads' : loadInputs call.pka s.memory call.size call.ap s.dev.regs =
    (0, (call.loaded s).2) := Prod.ext loads rfl
  have unloads :
      (unloadOutputs call.pka (call.stopped s).regs call.size call.ap s.memory).1 = 0 := by
    unfold unloadOutputs
    rw [getParam_eq]
    exact paramLoop_ignores true [] call.ap s.memory
  unfold start startCompute parseAndCompute
  rw [loads']
  simp only [ne_eq, not_true_eq_false, if_false, Option.bind_eq_bind]
  rw [doCall_of_starts call s idle starts, ended]
  simp [unloads]
  rfl

/-- Inputs with operands are all loaded, -/
theorem inputs_transferred (call : PkaCall) (s : PkaState)
    (named : ∀ param ∈ call.ap, param.data ≠ 0 ∧
      (param.operand call.pka.cfg call.size).isSome) :
    (call.loaded s).1 = 0 ∧ Transfers call.pka.cfg call.size
      (fun opbase data => loadStores s.memory opbase call.size data) call.inputs s.dev.regs
      (call.loaded s).2 := by
  obtain ⟨regs, transfers⟩ := @transfers_of_operands call.pka.cfg call.size
    (fun opbase data => loadStores s.memory opbase call.size data) call.inputs
    (fun param isInput => named param (List.mem_of_mem_filter isInput)) s.dev.regs
  have loop := @paramLoop_transfers _ _ _ false (· ≠ 0) rfl call.ap _ _ transfers []
  have all : call.loaded s = (0, regs) := by
    unfold loaded loadInputs
    rw [setParam_eq]
    exact loop
  rw [all]
  exact ⟨rfl, transfers⟩

/-- and outputs with operands are all unloaded. -/
theorem outputs_transferred (call : PkaCall) (s : PkaState)
    (named : ∀ param ∈ call.ap, param.data ≠ 0 ∧
      (param.operand call.pka.cfg call.size).isSome) :
    Transfers call.pka.cfg call.size
      (fun opbase data => unloadStores (call.ran s).2 opbase call.size data) call.outputs s.memory
      (unloadOutputs call.pka (call.ran s).2 call.size call.ap s.memory).2 := by
  obtain ⟨memory, transfers⟩ := @transfers_of_operands call.pka.cfg call.size
    (fun opbase data => unloadStores (call.ran s).2 opbase call.size data) call.outputs
    (fun param isOutput => named param (List.mem_of_mem_filter isOutput)) s.memory
  have loop := @paramLoop_transfers _ _ _ true (· = -1) rfl call.ap _ _ transfers []
  have all : unloadOutputs call.pka (call.ran s).2 call.size call.ap s.memory = (0, memory) := by
    unfold unloadOutputs
    rw [getParam_eq]
    exact loop
  rw [all]
  exact transfers

/-- What was computed had operands throughout. -/
theorem Computed.operands {call : PkaCall} {s s' : PkaState} (computed : call.Computed s s') :
    ∀ param ∈ call.ap, param.data ≠ 0 ∧ (param.operand call.pka.cfg call.size).isSome := by
  obtain ⟨regs, entry, inputs, -, -, outputs⟩ := computed
  intro param isParam
  cases output : param.isOutput with
  | false => exact inputs.operands param (List.mem_filter.mpr ⟨isParam, by simp [output]⟩)
  | true => exact outputs.operands param (List.mem_filter.mpr ⟨isParam, by simp [output]⟩)

/-- A call is fair exactly when it is sound. -/
theorem fair_iff (call : PkaCall) (s : PkaState) (idle : s.dev.sem = 1) :
    call.Fair s ↔ call.Sound s := by
  unfold Fair Sound
  by_cases loads : (call.loaded s).1 = 0
  · by_cases starts : call.Starts
    · by_cases ended : (call.ran s).1 = .stopped 0
      · rw [start_of_stopped call s idle loads starts ended]
        constructor
        · rintro ⟨ret, s', same, -, computed⟩ -
          cases same
          exact ⟨starts, fun _ => (computed rfl).operands⟩
        · intro sound
          have named := (sound loads).2 ended
          refine ⟨1, _, rfl, rfl, fun _ => ?_⟩
          have run : call.ran s = (.stopped 0, (call.ran s).2) := Prod.ext ended rfl
          exact ⟨_, _, (call.inputs_transferred s named).2,
            (Int.toNat_of_nonneg starts.1).symm, run, call.outputs_transferred s named⟩
      · rw [start_of_not_stopped call s idle loads starts ended]
        constructor
        · exact fun _ _ => ⟨starts, fun zero => absurd zero ended⟩
        · exact fun _ => ⟨0, _, rfl, rfl, fun one => by cases one⟩
    · rw [start_of_not_starts call s idle loads starts]
      constructor
      · rintro ⟨ret, s', same, released, -⟩
        cases same
        cases released
      · exact fun sound => absurd (sound loads).1 starts
  · rw [start_of_not_loaded call s loads]
    constructor
    · exact fun _ loads' => absurd loads' loads
    · exact fun _ => ⟨0, _, rfl, idle, fun one => by cases one⟩

/-- What a call leaves, whatever it returns. -/
def step (s : PkaState) (call : PkaCall) : Option PkaState := (call.start s).map (·.2)

/-- Each call of a sequence returns with the semaphore released, and with 1 only when
all was done. -/
def Honest : PkaState → List PkaCall → Prop
  | _, [] => True
  | s, call :: rest => ∃ ret s', call.start s = some (ret, s') ∧ s'.dev.sem = 1 ∧
      (ret = 1 → call.Computed s s') ∧ Honest s' rest

/-- Calls that are all sound report their true outcome. -/
theorem honest_of_sound {calls : List PkaCall} {s : PkaState} (idle : s.dev.sem = 1)
    (sound : RunsOk step Sound s calls) : Honest s calls := by
  induction calls generalizing s with
  | nil => trivial
  | cons call rest ih =>
      obtain ⟨ret, s', returns, released, computed⟩ := (call.fair_iff s idle).mpr sound.1
      have next : step s call = some s' := by
        unfold step
        rw [returns]
        rfl
      exact ⟨ret, s', returns, released, computed, ih released (sound.2 s' next)⟩

end PkaCall

/-- In a run of sound calls from the initialised device on, every call is fair: none
waits forever, and none reports success for less than what was asked for. -/
theorem startCompute_honest (dev : PkaDev) (memory : Memory) {calls : List PkaCall}
    (sound : RunsOk PkaCall.step PkaCall.Sound ⟨devInit dev, memory⟩ calls) :
    PkaCall.Honest ⟨devInit dev, memory⟩ calls :=
  PkaCall.honest_of_sound rfl sound

def zeroDev : PkaDev := ⟨0, fun _ => 0, .stopped 0⟩

/-- A firmware with these functions all at its start, which all do nothing. -/
def stillPka (lookupEntry : List UInt8 → Int) : Pka where
  cfg := ⟨4096, 521⟩
  lookupEntry
  run := fun _ _ regs => (.stopped 0, regs)

/-- `modadd` with an input `%A0` and an output `=%A0`. -/
def addCall : PkaCall where
  pka := stillPka fun _ => 0
  size := 32
  func := [0x6d, 0x6f, 0x64, 0x61, 0x64, 0x64]
  ap := [⟨[0x25, 0x41, 0x30], 0x100⟩, ⟨[0x3d, 0x25, 0x41, 0x30], 0x200⟩]

theorem startCompute_honest_addCall :
    PkaCall.Honest ⟨devInit zeroDev, fun _ => 0⟩ [addCall, addCall] := by
  have sound (s : PkaState) : addCall.Sound s :=
    fun _ => ⟨⟨by decide, by decide⟩, fun _ => by decide⟩
  exact startCompute_honest zeroDev (fun _ => 0) ⟨sound _, fun _ _ => ⟨sound _, fun _ _ => trivial⟩⟩

/-- A function that the firmware lacks. -/
def unknownCall : PkaCall := { addCall with pka := stillPka fun _ => cryptoNotFound }

/-- An output `=%E0`, for which there is no register. -/
def lostCall : PkaCall := { addCall with ap := [⟨[0x3d, 0x25, 0x45, 0x30], 0x200⟩] }

/-- The call of an unknown function makes the next call wait forever, and a lost output
is reported as a success. -/
theorem unknownCall_keeps_semaphore :
    (∃ s', unknownCall.start ⟨devInit zeroDev, fun _ => 0⟩ = some (0, s') ∧
      addCall.start s' = none) ∧
    ¬ PkaCall.Honest ⟨devInit zeroDev, fun _ => 0⟩ [unknownCall, addCall] ∧
    ∃ s', lostCall.start ⟨devInit zeroDev, fun _ => 0⟩ = some (1, s') ∧
      ¬ lostCall.Computed ⟨devInit zeroDev, fun _ => 0⟩ s' := by
  refine ⟨⟨_, rfl, rfl⟩, ?_, _, rfl, ?_⟩
  · rintro ⟨ret, s', same, released, -⟩
    cases same
    cases released
  · intro computed
    have named := computed.operands _ List.mem_cons_self
    exact absurd named (by decide)

end Zsbl.Drivers
