/-
Module: Zsbl.Proofs.EfiStore
Purpose: What efi_vz_find_variable finds in a variable store that was written from a
  list of variables.
Trusted boundary: none
Main exports:
  VariableRecord, VariableStore, efiVzFindVariable_decodes, efiVzFindVariable_prefers
-/
import Mathlib.Data.List.Pairwise
import Mathlib.Tactic.ByContra
import Zsbl.Proofs.Efi

namespace Zsbl.Libs

open Zsbl.Lib

/-! ## Variables as bytes -/

/-- A wide string in memory, with its NUL. -/
def WStr.bytes (name : WStr) : List UInt8 :=
  (name.chars ++ [0]).flatMap fun char : UInt16 => leBytes 2 char.toNat

/-- A variable to be written: `stamp` is what only the authenticated header has, and
`padding` follows the NUL of the name. -/
structure VariableRecord where
  status : UInt8
  reserved : UInt8
  attr : UInt32
  stamp : Vector UInt8 28
  guid : EfiGuid
  name : WStr
  padding : List UInt8
  data : List UInt8
deriving DecidableEq, Repr

namespace VariableRecord

def nameField (record : VariableRecord) : List UInt8 := record.name.bytes ++ record.padding

/-- The header up to the sizes. -/
def head (auth : Bool) (record : VariableRecord) : List UInt8 :=
  leBytes 2 VARIABLE_DATA ++ [record.status] ++ [record.reserved] ++
    leBytes 4 record.attr.toNat ++ if auth then record.stamp.toList else []

def bytes (auth : Bool) (record : VariableRecord) : List UInt8 :=
  record.head auth ++ leBytes 4 record.nameField.length ++ leBytes 4 record.data.length ++
    record.guid.bytes ++ record.nameField ++ record.data

/-- A copy that counts has been added, or is being replaced. -/
def Counts (record : VariableRecord) : Prop :=
  record.status.toNat = VAR_ADDED ∨
    record.status.toNat = VAR_IN_DELETED_TRANSITION &&& VAR_ADDED

instance (record : VariableRecord) : Decidable record.Counts :=
  inferInstanceAs (Decidable (_ ∨ _))

/-- A copy of the variable with this identifier and name. -/
def Named (guid : EfiGuid) (name : WStr) (record : VariableRecord) : Prop :=
  record.guid = guid ∧ record.name = name

instance (guid : EfiGuid) (name : WStr) (record : VariableRecord) :
    Decidable (record.Named guid name) :=
  inferInstanceAs (Decidable (_ ∧ _))

end VariableRecord

/-- Records one behind the other from an offset on, each at an aligned address; the
identifier behind them starts no variable, or the store ends there. -/
def Stored (memory : Memory) (base stop : Nat) (auth : Bool) : Nat → List VariableRecord → Prop
  | offset, [] =>
      offset + 2 ≤ EFI_VARIABLE_FIRMWARE_VOLUME_SIZE ∧
        (peek memory offset 2 ≠ VARIABLE_DATA ∨ stop ≤ offset)
  | offset, record :: records =>
      fetch memory offset (record.bytes auth).length = record.bytes auth ∧
      offset + (record.bytes auth).length ≤ stop ∧
      ∃ next, offset + (record.bytes auth).length ≤ next ∧
        next < offset + (record.bytes auth).length + 4 ∧ 4 ∣ base + next ∧
        Stored memory base stop auth next records

/-- A valid firmware volume with a variable store of these records.  The end of the store
is not compared with the first header, so an empty one has another identifier there. -/
structure VariableStore (memory : Memory) (base : Nat) (auth : Bool)
    (records : List VariableRecord) : Prop where
  guid : fetch memory 16 16 = EFI_SYSTEM_NVDATA_FV_GUID.bytes
  volumeLen : peek memory 32 8 ≠ 0xffffffffffffffff
  sig : peek memory 40 4 = EFI_FVH_SIGNATURE
  headerLen : 64 ≤ peek memory 48 2
  sum : checksum memory (peek memory 48 2) = 0
  kind : fetch memory (peek memory 48 2) 16 =
    if auth then EFI_AUTHENTICATED_VARIABLE_GUID.bytes else EFI_VARIABLE_GUID.bytes
  size : peek memory 48 2 + peek memory (peek memory 48 2 + 16) 4 ≤ peek memory 32 8
  format : peek memory (peek memory 48 2 + 20) 1 = VARIABLE_STORE_FORMATTED
  status : peek memory (peek memory 48 2 + 21) 1 = VARIABLE_STORE_HEALTHY
  records : ∃ first, peek memory 48 2 + 28 ≤ first ∧ first < peek memory 48 2 + 32 ∧
    4 ∣ base + first ∧
    Stored memory base (peek memory 48 2 + peek memory (peek memory 48 2 + 16) 4) auth first
      records ∧
    (records = [] → peek memory first 2 ≠ VARIABLE_DATA)

/-! ## Reading them back -/

theorem fetch_middle {memory : Memory} {offset : Nat} {before bytes after : List UInt8}
    (there : fetch memory offset (before ++ bytes ++ after).length = before ++ bytes ++ after) :
    fetch memory (offset + before.length) bytes.length = bytes := by
  rw [List.length_append, List.length_append, fetch_append, fetch_append] at there
  have parts := List.append_inj' there (by simp)
  exact (List.append_inj' parts.1 (by simp)).2

theorem headerAlign_eq {base offset next : Nat} (low : offset ≤ next) (high : next < offset + 4)
    (aligned : 4 ∣ base + next) : headerAlign base offset = next := by
  unfold headerAlign
  omega

variable {memory : Memory} {base stop : Nat} {auth : Bool} {records : List VariableRecord}

theorem compareGuid_self (guid : EfiGuid) : compareGuid guid.bytes guid.bytes = 0 :=
  (memcmp_eq_zero rfl).mpr rfl

/-- The volume passes the checks of its header. -/
theorem efiVzCheckFv_valid (store : VariableStore memory base auth records) :
    efiVzCheckFv memory = 0 := by
  have long := store.headerLen
  have notShort : ¬ peek memory 48 2 < 64 := Nat.not_lt.mpr long
  have notEmpty : peek memory 32 8 ≠ 0 := by
    have size := store.size
    omega
  simp [efiVzCheckFv, store.guid, compareGuid_self, store.volumeLen, store.sig, notShort,
    store.sum, notEmpty]

/-- The store passes its checks, and its kind is found out. -/
theorem efiVzCheckVariableStore_valid (store : VariableStore memory base auth records) :
    efiVzCheckVariableStore memory (peek memory 48 2) = .ok auth := by
  have volumeLen : peek memory 32 8 < 2 ^ 64 := by simpa using peek_lt memory 32 8
  have size := store.size
  have fits : ¬ (peek memory 32 8 + 2 ^ 64 - peek memory 48 2) % 2 ^ 64 <
      peek memory (peek memory 48 2 + 16) 4 := by
    have noWrap : (peek memory 32 8 + 2 ^ 64 - peek memory 48 2) % 2 ^ 64 =
        peek memory 32 8 - peek memory 48 2 := by omega
    omega
  have kind : variableStoreAuth (fetch memory (peek memory 48 2) 16) = some auth := by
    rw [store.kind]
    cases auth with
    | false => simp [variableStoreAuth, compareGuid_self]
    | true =>
        have other : compareGuid EFI_AUTHENTICATED_VARIABLE_GUID.bytes
            EFI_VARIABLE_GUID.bytes ≠ 0 := by decide
        simp [variableStoreAuth, compareGuid_self, other]
  simp only [efiVzCheckVariableStore, kind]
  rw [if_neg fits, if_neg (not_not.mpr store.format), if_neg (not_not.mpr store.status)]

/-- The zone that `efi_vz_init` sets up is that of the records. -/
theorem efiVzInit_valid (store : VariableStore memory base auth records) :
    ∃ vz, efiVzInit memory base = .ok vz ∧ vz.memory = memory ∧ vz.base = base ∧
      vz.auth = auth ∧ Stored memory base vz.stop auth vz.var records ∧
      (records = [] → peek memory vz.var 2 ≠ VARIABLE_DATA) := by
  obtain ⟨first, low, high, aligned, stored, empty⟩ := store.records
  have var : headerAlign base (peek memory 48 2 + 28) = first :=
    headerAlign_eq low high aligned
  rw [← var] at stored empty
  refine ⟨⟨memory, base, peek memory 48 2, headerAlign base (peek memory 48 2 + 28), _, auth⟩,
    ?_, rfl, rfl, rfl, stored, empty⟩
  simp only [efiVzInit, efiVzCheckFv_valid store, efiVzCheckVariableStore_valid store]
  rfl

/-! ## Fields of a record -/

/-- A record is in memory where a variable is. -/
structure Holds (vz : EfiVariableZone) (var : EfiVariable) (record : VariableRecord) : Prop where
  bytes : fetch vz.memory var.header (record.bytes var.auth).length = record.bytes var.auth
  length : (record.bytes var.auth).length < 2 ^ 32
  kind : var.auth = vz.auth

variable {vz : EfiVariableZone} {var : EfiVariable} {record : VariableRecord}

theorem VariableRecord.length_head (auth : Bool) (record : VariableRecord) :
    (record.head auth).length = if auth then 36 else 8 := by
  cases auth with
  | false => simp [head]
  | true => simp [head]

theorem peek_leBytes {size value offset : Nat} (fits : value < 256 ^ size)
    (there : fetch memory offset size = leBytes size value) : peek memory offset size = value := by
  rw [peek, there, le_leBytes fits]

/-- A header of 60 or 32 bytes, the name and the data. -/
theorem VariableRecord.length_bytes (auth : Bool) (record : VariableRecord) :
    (record.bytes auth).length =
      (if auth then 60 else 32) + record.nameField.length + record.data.length := by
  cases auth with
  | false =>
      simp [bytes, length_head, EfiGuid.length_bytes]
      omega
  | true =>
      simp [bytes, length_head, EfiGuid.length_bytes]
      omega

/-- The status byte is that of the record. -/
theorem Holds.status (holds : Holds vz var record) :
    peek vz.memory (var.header + 2) 1 = record.status.toNat := by
  have there := holds.bytes
  have split : record.bytes var.auth = leBytes 2 VARIABLE_DATA ++ [record.status] ++
      ((record.bytes var.auth).drop 3) := by
    simp [VariableRecord.bytes, VariableRecord.head, leBytes]
  rw [split] at there
  have status := fetch_middle there
  rw [length_leBytes, List.length_singleton] at status
  rw [peek, status]
  simp [le]

/-- A record begins with the identifier of a variable. -/
theorem Holds.isVariable (holds : Holds vz var record) : IsVariable vz var := by
  have there := holds.bytes
  have split : record.bytes var.auth = [] ++ leBytes 2 VARIABLE_DATA ++
      ((record.bytes var.auth).drop 2) := by
    simp [VariableRecord.bytes, VariableRecord.head, leBytes]
  rw [split] at there
  have id := fetch_middle there
  rw [length_leBytes] at id
  exact peek_leBytes (by decide) id

/-- The size of the name is read from the header. -/
theorem Holds.nameSize (holds : Holds vz var record) :
    vz.nameSize var = record.nameField.length := by
  have there := holds.bytes
  have short := holds.length
  rw [VariableRecord.length_bytes] at short
  have split : record.bytes var.auth = record.head var.auth ++
      leBytes 4 record.nameField.length ++ (leBytes 4 record.data.length ++ record.guid.bytes ++
        record.nameField ++ record.data) := by
    simp [VariableRecord.bytes]
  rw [split] at there
  have size := fetch_middle there
  rw [length_leBytes, VariableRecord.length_head] at size
  exact peek_leBytes (by omega) size

/-- The size of the data is read from the header. -/
theorem Holds.dataSize (holds : Holds vz var record) :
    vz.dataSize var = record.data.length := by
  have there := holds.bytes
  have short := holds.length
  rw [VariableRecord.length_bytes] at short
  have split : record.bytes var.auth = (record.head var.auth ++
      leBytes 4 record.nameField.length) ++ leBytes 4 record.data.length ++
        (record.guid.bytes ++ record.nameField ++ record.data) := by
    simp [VariableRecord.bytes]
  rw [split] at there
  have size := fetch_middle there
  rw [length_leBytes, List.length_append, length_leBytes, VariableRecord.length_head,
    ← Nat.add_assoc] at size
  exact peek_leBytes (by omega) size

/-- The vendor's identifier is behind the sizes. -/
theorem Holds.guid (holds : Holds vz var record) :
    fetch vz.memory (efiVariableVendorGuid var) 16 = record.guid.bytes := by
  have there := holds.bytes
  have split : record.bytes var.auth = (record.head var.auth ++
      leBytes 4 record.nameField.length ++ leBytes 4 record.data.length) ++ record.guid.bytes ++
        (record.nameField ++ record.data) := by
    simp [VariableRecord.bytes]
  rw [split] at there
  have guid := fetch_middle there
  have offset : (if var.auth then 36 else 8) + 4 + 4 = if var.auth then 44 else 16 := by
    cases var.auth <;> rfl
  rw [EfiGuid.length_bytes, List.length_append, List.length_append, length_leBytes,
    length_leBytes, VariableRecord.length_head, offset] at guid
  exact guid

/-- The name is behind the header. -/
theorem Holds.nameField (holds : Holds vz var record) :
    fetch vz.memory (efiVariableName var) record.nameField.length = record.nameField := by
  have there := holds.bytes
  have split : record.bytes var.auth = (record.head var.auth ++
      leBytes 4 record.nameField.length ++ leBytes 4 record.data.length ++ record.guid.bytes) ++
        record.nameField ++ record.data := by
    simp [VariableRecord.bytes]
  rw [split] at there
  have name := fetch_middle there
  have offset : (if var.auth then 36 else 8) + 4 + 4 + 16 = var.headerSize := by
    unfold EfiVariable.headerSize
    cases var.auth <;> rfl
  rw [List.length_append, List.length_append, List.length_append, length_leBytes,
    length_leBytes, EfiGuid.length_bytes, VariableRecord.length_head, offset] at name
  exact name

/-- The data are behind the name. -/
theorem Holds.data (holds : Holds vz var record) :
    fetch vz.memory (efiVariableName var + record.nameField.length) record.data.length =
      record.data := by
  have there := holds.bytes
  have split : record.bytes var.auth = (record.head var.auth ++
      leBytes 4 record.nameField.length ++ leBytes 4 record.data.length ++ record.guid.bytes ++
        record.nameField) ++ record.data ++ [] := by
    simp [VariableRecord.bytes]
  rw [split] at there
  have data := fetch_middle there
  have offset : (if var.auth then 36 else 8) + 4 + 4 + 16 = var.headerSize := by
    unfold EfiVariable.headerSize
    cases var.auth <;> rfl
  rw [List.length_append, List.length_append, List.length_append, List.length_append,
    length_leBytes, length_leBytes, EfiGuid.length_bytes, VariableRecord.length_head, offset,
    ← Nat.add_assoc] at data
  exact data

/-! ## Identifiers and names -/

theorem leBytes_injective {size value other : Nat} (fits : value < 256 ^ size)
    (fits' : other < 256 ^ size) (same : leBytes size value = leBytes size other) :
    value = other := by
  rw [← le_leBytes fits, same, le_leBytes fits']

/-- Different identifiers have different bytes. -/
theorem EfiGuid.bytes_injective {guid other : EfiGuid} (same : guid.bytes = other.bytes) :
    guid = other := by
  unfold bytes at same
  obtain ⟨same, last⟩ := List.append_inj same (by simp)
  obtain ⟨same, third⟩ := List.append_inj same (by simp)
  obtain ⟨first, second⟩ := List.append_inj same (by simp)
  apply EfiGuid.ext
  · exact UInt32.toNat_inj.mp (leBytes_injective guid.d0.toNat_lt other.d0.toNat_lt first)
  · exact UInt16.toNat_inj.mp (leBytes_injective guid.d1.toNat_lt other.d1.toNat_lt second)
  · exact UInt16.toNat_inj.mp (leBytes_injective guid.d2.toNat_lt other.d2.toNat_lt third)
  · exact Vector.toList_inj.mp last

/-- Characters are read back as they were written. -/
theorem chars_of_bytes (chars : List UInt16) {offset : Nat}
    (there : fetch vz.memory offset (2 * chars.length) =
      chars.flatMap fun char : UInt16 => leBytes 2 char.toNat) :
    vz.chars offset chars.length = chars := by
  induction chars generalizing offset with
  | nil => rfl
  | cons char chars ih =>
      rw [List.length_cons, Nat.mul_succ, Nat.add_comm, fetch_append, List.flatMap_cons]
        at there
      obtain ⟨first, rest⟩ := List.append_inj there (by simp)
      have value := peek_leBytes char.toNat_lt first
      rw [List.length_cons, EfiVariableZone.chars, value, ih rest]
      simp

/-- A name is the only one that is in memory at an offset. -/
theorem chars_unique {own other : List UInt16} {offset : Nat} (isString : 0 ∉ own)
    (isString' : 0 ∉ other) (there : vz.chars offset (own.length + 1) = own ++ [0])
    (there' : vz.chars offset (other.length + 1) = other ++ [0]) : own = other := by
  induction own generalizing other offset with
  | nil =>
      cases other with
      | nil => rfl
      | cons char other =>
          simp only [List.length_cons, EfiVariableZone.chars, List.nil_append,
            List.cons_append, List.cons.injEq] at there there'
          rw [there.1] at there'
          exact absurd there'.1 (fun zero => isString' (by simp [← zero]))
  | cons char own ih =>
      cases other with
      | nil =>
          simp only [List.length_cons, EfiVariableZone.chars, List.nil_append,
            List.cons_append, List.cons.injEq] at there there'
          rw [there.1] at there'
          exact absurd there'.1 (fun zero => isString (by simp [← zero]))
      | cons char' other =>
          simp only [List.length_cons, EfiVariableZone.chars, List.cons_append,
            List.cons.injEq] at there there'
          have rest := ih (fun member => isString (List.mem_cons_of_mem _ member))
            (fun member => isString' (List.mem_cons_of_mem _ member)) there.2 there'.2
          rw [rest, ← there.1, there'.1]

theorem length_flatMap_leBytes (chars : List UInt16) :
    (chars.flatMap fun char : UInt16 => leBytes 2 char.toNat).length = 2 * chars.length := by
  induction chars with
  | nil => rfl
  | cons char chars ih =>
      rw [List.flatMap_cons, List.length_append, ih, length_leBytes, List.length_cons]
      omega

/-- The name that is read ends where the one of the record does. -/
theorem Holds.chars (holds : Holds vz var record) :
    vz.chars (efiVariableName var) (record.name.chars.length + 1) =
      record.name.chars ++ [0] := by
  have field := holds.nameField
  rw [VariableRecord.nameField, List.length_append, fetch_append] at field
  have name := (List.append_inj field (by simp)).1
  rw [WStr.bytes, length_flatMap_leBytes] at name
  have chars := chars_of_bytes (record.name.chars ++ [0]) name
  rwa [List.length_append, List.length_singleton] at chars

/-- `efi_vz_find_variable` wants it exactly where it is a copy that counts. -/
theorem Holds.wanted_iff (holds : Holds vz var record) (guid : EfiGuid) (name : WStr) :
    Wanted vz guid name var ↔ record.Counts ∧ record.Named guid name := by
  have added : Added vz var ↔ record.Counts := by
    unfold Added VariableRecord.Counts
    rw [holds.status]
  unfold Wanted
  rw [added]
  apply and_congr_right
  intro _
  constructor
  · rintro ⟨sameGuid, sameName⟩
    rw [holds.guid] at sameGuid
    have chars := chars_unique record.name.isString name.isString holds.chars sameName
    constructor
    · exact EfiGuid.bytes_injective sameGuid
    · exact WStr.ext chars
  · rintro ⟨rfl, rfl⟩
    exact ⟨holds.guid, holds.chars⟩

/-! ## The walk -/

/-- The variable at an offset where so many records follow. -/
def firstAt (vz : EfiVariableZone) (offset : Nat) (records : List VariableRecord) :
    Option EfiVariable :=
  records.head?.map fun _ => ⟨vz.auth, offset⟩

/-- The end of the records is inside the buffer. -/
theorem stored_end {offset : Nat} (stored : Stored memory base stop auth offset records) :
    offset + 2 ≤ EFI_VARIABLE_FIRMWARE_VOLUME_SIZE := by
  induction records generalizing offset with
  | nil => exact stored.1
  | cons record records ih =>
      obtain ⟨-, -, next, behind, -, -, stored⟩ := stored
      have inside := ih stored
      omega

/-- The first record is where the walk stands. -/
theorem stored_holds {offset : Nat}
    (stored : Stored vz.memory vz.base vz.stop vz.auth offset (record :: records)) :
    Holds vz ⟨vz.auth, offset⟩ record := by
  obtain ⟨there, -, next, behind, -, -, stored⟩ := stored
  have inside := stored_end stored
  constructor
  · exact there
  · unfold EFI_VARIABLE_FIRMWARE_VOLUME_SIZE at inside
    change (record.bytes vz.auth).length < 2 ^ 32
    omega
  · rfl

/-- A walk goes on where there is another record. -/
theorem stored_first {offset : Nat}
    (stored : Stored vz.memory vz.base vz.stop vz.auth offset records) :
    (if IsVariable vz ⟨vz.auth, offset⟩ ∧ offset < vz.stop then some ⟨vz.auth, offset⟩ else none) =
      firstAt vz offset records := by
  cases records with
  | nil =>
      have ends : ¬ (IsVariable vz ⟨vz.auth, offset⟩ ∧ offset < vz.stop) := by
        rintro ⟨isVariable, before⟩
        rcases stored.2 with notVariable | behind
        · exact notVariable isVariable
        · exact Nat.not_lt.mpr behind before
      rw [if_neg ends]
      rfl
  | cons record records =>
      have holds := stored_holds stored
      have long := record.length_bytes vz.auth
      have inside := stored.2.1
      have before : offset < vz.stop := by
        split at long <;> omega
      rw [if_pos ⟨holds.isVariable, before⟩]
      rfl

/-- A step of the walk leads to the next record. -/
theorem stored_link {offset : Nat}
    (stored : Stored vz.memory vz.base vz.stop vz.auth offset (record :: records)) :
    ∃ next, link everywhere vz ⟨vz.auth, offset⟩ = some (firstAt vz next records) ∧
      Stored vz.memory vz.base vz.stop vz.auth next records := by
  have holds := stored_holds stored
  obtain ⟨-, -, next, behind, close, aligned, stored⟩ := stored
  refine ⟨next, ?_, stored⟩
  have size : EfiVariable.headerSize ⟨vz.auth, offset⟩ + vz.nameSize ⟨vz.auth, offset⟩ +
      vz.dataSize ⟨vz.auth, offset⟩ = (record.bytes vz.auth).length := by
    rw [holds.nameSize, holds.dataSize, VariableRecord.length_bytes]
    rfl
  have there : following vz ⟨vz.auth, offset⟩ = ⟨vz.auth, next⟩ := by
    unfold following
    rw [size, Nat.mod_eq_of_lt holds.length, headerAlign_eq behind close aligned]
  simp only [link, there]
  rw [if_pos ⟨readable_everywhere _ _, readable_everywhere _ _⟩]
  exact congrArg some (stored_first stored)

/-- The walk meets the records, each once and in order. -/
theorem stored_chain {offset : Nat}
    (stored : Stored vz.memory vz.base vz.stop vz.auth offset records) :
    ∃ vars, Chain (link everywhere vz) (firstAt vz offset records) vars ∧
      List.Forall₂ (Holds vz) vars records := by
  induction records generalizing offset with
  | nil => exact ⟨[], .nil, .nil⟩
  | cons record records ih =>
      obtain ⟨next, linked, rest⟩ := stored_link stored
      obtain ⟨vars, chain, holds⟩ := ih rest
      exact ⟨_ :: vars, .cons linked chain, .cons (stored_holds stored) holds⟩

/-- The walk starts at the first record, if there is one. -/
theorem stored_entry (stored : Stored vz.memory vz.base vz.stop vz.auth vz.var records)
    (empty : records = [] → peek vz.memory vz.var 2 ≠ VARIABLE_DATA) :
    entry everywhere vz = some (firstAt vz vz.var records) := by
  simp only [entry]
  rw [if_pos (readable_everywhere _ _)]
  cases records with
  | nil =>
      have notVariable : ¬ IsVariable vz ⟨vz.auth, vz.var⟩ := empty rfl
      rw [if_neg notVariable]
      rfl
  | cons record records =>
      rw [if_pos (stored_holds stored).isVariable]
      rfl

/-- The search returns, and finds the first copy that counts. -/
theorem efiVzFindVariable_stored
    (stored : Stored vz.memory vz.base vz.stop vz.auth vz.var records)
    (empty : records = [] → peek vz.memory vz.var 2 ≠ VARIABLE_DATA) (guid : EfiGuid)
    (name : WStr) :
    (∃ fuel answer, efiVzFindVariable everywhere fuel vz guid name = some answer) ∧
      ∀ fuel answer, efiVzFindVariable everywhere fuel vz guid name = some answer →
        (answer.1 = - ENOENT ∧
          records.find? (fun record => record.Counts ∧ record.Named guid name) = none) ∨
        ∃ record, answer.1 = 0 ∧ Holds vz answer.2 record ∧
          records.find? (fun record => record.Counts ∧ record.Named guid name) =
            some record := by
  obtain ⟨vars, chain, holds⟩ := stored_chain stored
  have enters := stored_entry stored empty
  have agrees := find?_forall₂ holds
    (p := (Wanted vz guid name ·))
    (q := fun record => record.Counts ∧ record.Named guid name)
    fun var record here => decide_eq_decide.mpr (here.wanted_iff guid name)
  constructor
  · obtain ⟨fuel, finds⟩ := (efiVzFindVariable_iff enters chain).mpr fun _ _ _ _ _ =>
      (⟨readable_everywhere _ _, fun _ => readable_everywhere _ _,
        fun _ _ _ _ _ => readable_everywhere _ _⟩ : FindFits everywhere vz guid name _)
    exact ⟨fuel, Option.isSome_iff_exists.mp finds⟩
  · intro fuel answer finds
    rcases efiVzFindVariable_result enters chain finds with
      ⟨missing, none⟩ | ⟨var, rfl, isFirst⟩
    · rcases agrees with ⟨-, none'⟩ | ⟨var, record, isFirst, -⟩
      · exact Or.inl ⟨missing, none'⟩
      · rw [none] at isFirst
        cases isFirst
    · rcases agrees with ⟨none, -⟩ | ⟨var', record, isFirst', isFirst'', here⟩
      · rw [isFirst] at none
        cases none
      · obtain rfl := Option.some.inj (isFirst.symm.trans isFirst')
        exact Or.inr ⟨record, rfl, here, isFirst''⟩

/-! ## What is found -/

/-- All fields of the record can be read at the variable. -/
structure Decodes (vz : EfiVariableZone) (var : EfiVariable) (record : VariableRecord) :
    Prop where
  kind : var.auth = vz.auth
  status : efiVariableStatus everywhere vz var = some record.status.toNat
  guid : fetch vz.memory (efiVariableVendorGuid var) 16 = record.guid.bytes
  nameSize : efiVariableNameSize everywhere vz var = some record.nameField.length
  name : vz.chars (efiVariableName var) (record.name.chars.length + 1) =
    record.name.chars ++ [0]
  dataSize : efiVariableDataSize everywhere vz var = some record.data.length
  data : ∃ pointer, efiVariableData everywhere vz var = some pointer ∧
    fetch vz.memory pointer record.data.length = record.data

theorem efiRead_everywhere (offset size : Nat) :
    efiRead everywhere vz offset size = some (peek vz.memory offset size) := by
  rw [efiRead_eq, if_pos (readable_everywhere _ _)]

/-- A record is read back field by field. -/
theorem Holds.decodes (holds : Holds vz var record) : Decodes vz var record := by
  have nameSize : efiVariableNameSize everywhere vz var = some record.nameField.length := by
    rw [efiVariableNameSize, efiRead_everywhere]
    exact congrArg some holds.nameSize
  have dataSize : efiVariableDataSize everywhere vz var = some record.data.length := by
    rw [efiVariableDataSize, efiRead_everywhere]
    exact congrArg some holds.dataSize
  constructor
  · exact holds.kind
  · rw [efiVariableStatus, efiRead_everywhere, holds.status]
  · exact holds.guid
  · exact nameSize
  · exact holds.chars
  · exact dataSize
  · refine ⟨efiVariableName var + record.nameField.length, ?_, holds.data⟩
    simp [efiVariableData, nameSize]

/-- Not two copies that count of one variable. -/
def VariableRecord.Apart (record other : VariableRecord) : Prop :=
  record.Counts → other.Counts → ¬ other.Named record.guid record.name

instance (record other : VariableRecord) : Decidable (record.Apart other) :=
  inferInstanceAs (Decidable (_ → _ → ¬ _))

instance : Std.Symm VariableRecord.Apart where
  symm _ _ apart counts counts' named := apart counts' counts ⟨named.1.symm, named.2.symm⟩

/-- A store with at most one copy that counts of each variable yields exactly this copy. -/
theorem efiVzFindVariable_decodes (store : VariableStore memory base auth records)
    (single : records.Pairwise VariableRecord.Apart) (guid : EfiGuid) (name : WStr) :
    ∃ vz, efiVzInit memory base = .ok vz ∧ vz.auth = auth ∧ ∃ answer,
      (∃ fuel, efiVzFindVariable everywhere fuel vz guid name = some answer) ∧
      (∀ record ∈ records, record.Counts → record.Named guid name →
        answer.1 = 0 ∧ Decodes vz answer.2 record) ∧
      ((∀ record ∈ records, record.Counts → ¬ record.Named guid name) →
        answer.1 = - ENOENT) := by
  obtain ⟨vz, valid, rfl, rfl, rfl, stored, empty⟩ := efiVzInit_valid store
  obtain ⟨⟨fuel, answer, finds⟩, returns⟩ := efiVzFindVariable_stored stored empty guid name
  refine ⟨vz, valid, rfl, answer, ⟨fuel, finds⟩, ?_⟩
  rcases returns fuel answer finds with ⟨missing, none⟩ | ⟨first, success, holds, isFirst⟩
  · have noCopy := List.find?_eq_none.mp none
    constructor
    · intro record member counts named
      exact absurd (by simpa using And.intro counts named) (noCopy record member)
    · exact fun _ => missing
  · have isCopy : first.Counts ∧ first.Named guid name := by
      simpa using List.find?_some isFirst
    constructor
    · intro record member counts named
      have same : record = first := by
        by_contra differ
        have apart := single.forall member (List.mem_of_find?_eq_some isFirst) differ
        apply apart counts isCopy.1
        exact ⟨isCopy.2.1.trans named.1.symm, isCopy.2.2.trans named.2.symm⟩
      rw [same]
      exact ⟨success, holds.decodes⟩
    · intro noCopy
      exact absurd isCopy.2 (noCopy first (List.mem_of_find?_eq_some isFirst) isCopy.1)

/-! ## Small stores -/

/-- The headers of a firmware volume with a store of 256 bytes. -/
def volumeHeader : List UInt8 :=
  List.replicate 16 0 ++ EFI_SYSTEM_NVDATA_FV_GUID.bytes ++ leBytes 8 0x10000 ++
    leBytes 4 EFI_FVH_SIGNATURE ++ leBytes 4 0 ++ leBytes 2 64 ++ leBytes 2 2117 ++
    leBytes 2 0 ++ [0, 2] ++ leBytes 8 0 ++
    EFI_VARIABLE_GUID.bytes ++ leBytes 4 256 ++ [0x5a, 0xfe] ++ leBytes 6 0

/-- The memory with these variables behind them. -/
def volume (vars : List UInt8) : Memory := fun offset => (volumeHeader ++ vars).getD offset 0

/-- The header does not depend on the variables. -/
theorem fetch_volume (vars : List UInt8) {offset size : Nat} (inside : offset + size ≤ 92) :
    fetch (volume vars) offset size = fetch (volume []) offset size := by
  apply List.map_congr_left
  intro i member
  have low : offset + i < volumeHeader.length := by
    have length : volumeHeader.length = 92 := by decide
    have less := List.mem_range.mp member
    omega
  simp [volume, List.getD_eq_getElem?_getD, List.getElem?_append_left low]

/-- Records behind the header make a valid store. -/
theorem volume_store {vars : List UInt8} {records : List VariableRecord}
    (stored : Stored (volume vars) 0 320 false 92 records) (nonempty : records ≠ []) :
    VariableStore (volume vars) 0 false records := by
  have number {offset size : Nat} (inside : offset + size ≤ 92) :
      peek (volume vars) offset size = peek (volume []) offset size :=
    congrArg le (fetch_volume vars inside)
  have headerLen : peek (volume vars) 48 2 = 64 := by
    rw [number (by decide)]
    decide
  have size : peek (volume vars) 80 4 = 256 := by
    rw [number (by decide)]
    decide
  have sum : checksum (volume vars) 64 = checksum (volume []) 64 := by
    have halfwords : ∀ i ∈ List.range (64 / 2),
        peek (volume vars) (2 * i) 2 = peek (volume []) (2 * i) 2 := by
      intro i member
      have less := List.mem_range.mp member
      exact number (by omega)
    rw [checksum, List.map_congr_left halfwords]
    rfl
  constructor
  · rw [fetch_volume vars (by decide)]
    decide
  · rw [number (by decide)]
    decide
  · rw [number (by decide)]
    decide
  · rw [headerLen]
  · rw [headerLen, sum]
    decide
  · rw [headerLen, fetch_volume vars (by decide)]
    decide
  · rw [headerLen, size, number (by decide)]
    decide
  · rw [headerLen, number (by decide)]
    decide
  · rw [headerLen, number (by decide)]
    decide
  · rw [headerLen, size]
    exact ⟨92, by decide, by decide, by decide, stored, fun empty => absurd empty nonempty⟩

/-- A variable `A` of four bytes. -/
def smallRecord (status byte : UInt8) : VariableRecord where
  status := status
  reserved := 0
  attr := 7
  stamp := Vector.replicate 28 0
  guid := ⟨1, 2, 3, Vector.replicate 8 4⟩
  name := ⟨[0x41], by decide⟩
  padding := []
  data := [byte, 0, 0, 0]

/-- A copy that was deleted, and the one that replaced it. -/
def updated : List VariableRecord := [smallRecord 0xfd 1, smallRecord 0x3f 2]

/-- A copy that is being replaced, and the one that replaces it. -/
def interrupted : List VariableRecord := [smallRecord 0x3e 1, smallRecord 0x3f 2]

def recordsMemory (records : List VariableRecord) : Memory :=
  volume (records.flatMap (VariableRecord.bytes false))

theorem updated_store : VariableStore (recordsMemory updated) 0 false updated := by
  refine volume_store ?_ (by decide)
  refine ⟨by decide, by decide, 132, by decide, by decide, by decide, ?_⟩
  refine ⟨by decide, by decide, 172, by decide, by decide, by decide, ?_⟩
  exact ⟨by decide, by decide⟩

/-- The copy in transition may be in front or behind. -/
theorem interrupted_store (records : List VariableRecord)
    (copies : records = interrupted ∨ records = interrupted.reverse) :
    VariableStore (recordsMemory records) 0 false records := by
  rcases copies with rfl | rfl
  · refine volume_store ?_ (by decide)
    refine ⟨by decide, by decide, 132, by decide, by decide, by decide, ?_⟩
    refine ⟨by decide, by decide, 172, by decide, by decide, by decide, ?_⟩
    exact ⟨by decide, by decide⟩
  · refine volume_store ?_ (by decide)
    refine ⟨by decide, by decide, 132, by decide, by decide, by decide, ?_⟩
    refine ⟨by decide, by decide, 172, by decide, by decide, by decide, ?_⟩
    exact ⟨by decide, by decide⟩

/-- The copy that was deleted is passed over. -/
theorem efiVzFindVariable_decodes_updated :
    ∃ vz, efiVzInit (recordsMemory updated) 0 = .ok vz ∧ ∃ answer,
      (∃ fuel, efiVzFindVariable everywhere fuel vz (smallRecord 0x3f 2).guid
        (smallRecord 0x3f 2).name = some answer) ∧
      answer.1 = 0 ∧ Decodes vz answer.2 (smallRecord 0x3f 2) := by
  obtain ⟨vz, valid, -, answer, finds, found, -⟩ :=
    efiVzFindVariable_decodes updated_store (by decide) (smallRecord 0x3f 2).guid
      (smallRecord 0x3f 2).name
  have decodes := found (smallRecord 0x3f 2) (by decide) (by decide) ⟨rfl, rfl⟩
  exact ⟨vz, valid, answer, finds, decodes⟩

/-! ## Interrupted updates -/

/-- A copy with this status. -/
def VariableRecord.Copy (guid : EfiGuid) (name : WStr) (status : Nat)
    (record : VariableRecord) : Prop :=
  record.Named guid name ∧ record.status.toNat = status

/-- Where there is a copy that has been added, it is what the search returns. -/
def Prefers (vz : EfiVariableZone) (records : List VariableRecord) (guid : EfiGuid)
    (name : WStr) : Prop :=
  (∃ record ∈ records, record.Copy guid name VAR_ADDED) →
    ∀ fuel answer, efiVzFindVariable everywhere fuel vz guid name = some answer →
      answer.1 = 0 ∧ ∃ record ∈ records, record.Copy guid name VAR_ADDED ∧
        Decodes vz answer.2 record

/-- No copy that is being replaced is in front of all those that have been added. -/
def AddedFirst (records : List VariableRecord) (guid : EfiGuid) (name : WStr) : Prop :=
  ∀ before old after, records = before ++ old :: after →
    old.Copy guid name (VAR_IN_DELETED_TRANSITION &&& VAR_ADDED) →
    (∃ new ∈ after, new.Copy guid name VAR_ADDED) →
    ∃ new ∈ before, new.Copy guid name VAR_ADDED

/-- The first copy that counts has been added, where any has. -/
theorem addedFirst_iff (records : List VariableRecord) (guid : EfiGuid) (name : WStr) :
    AddedFirst records guid name ↔ ∀ first,
      records.find? (fun record => record.Counts ∧ record.Named guid name) = some first →
      (∃ record ∈ records, record.Copy guid name VAR_ADDED) →
      first.status.toNat = VAR_ADDED := by
  constructor
  · rintro addedFirst first isFirst ⟨new, member, added⟩
    obtain ⟨isCopy, before, after, split, none⟩ := List.find?_eq_some_iff_append.mp isFirst
    have notBefore : ∀ record ∈ before, ¬ record.Copy guid name VAR_ADDED := by
      intro record earlier copy
      simpa [copy.1, VariableRecord.Counts, copy.2] using none record earlier
    obtain ⟨counts, named⟩ : first.Counts ∧ first.Named guid name := by simpa using isCopy
    rcases counts with isAdded | inTransition
    · exact isAdded
    · rw [split, List.mem_append, List.mem_cons] at member
      rcases member with earlier | rfl | later
      · exact absurd added (notBefore new earlier)
      · exact added.2
      · obtain ⟨other, earlier, copy⟩ :=
          addedFirst before first after split ⟨named, inTransition⟩ ⟨new, later, added⟩
        exact absurd copy (notBefore other earlier)
  · rintro firstAdded before old after split ⟨named, inTransition⟩ ⟨new, later, added⟩
    have member : new ∈ records := by simp [split, later]
    have counts : old.Counts := Or.inr inTransition
    cases found : before.find? (fun record => record.Counts ∧ record.Named guid name) with
    | none =>
        have isFirst : records.find? (fun record => record.Counts ∧ record.Named guid name) =
            some old := by
          rw [split, List.find?_append, found, Option.none_or]
          exact List.find?_cons_of_pos (by simpa using ⟨counts, named⟩)
        have isAdded := firstAdded old isFirst ⟨new, member, added⟩
        rw [inTransition] at isAdded
        exact absurd isAdded (by decide)
    | some first =>
        have isFirst : records.find? (fun record => record.Counts ∧ record.Named guid name) =
            some first := by
          rw [split, List.find?_append, found, Option.some_or]
        have isAdded := firstAdded first isFirst ⟨new, member, added⟩
        have isCopy : first.Counts ∧ first.Named guid name := by
          simpa using List.find?_some found
        exact ⟨first, List.mem_of_find?_eq_some found, isCopy.2, isAdded⟩

/-- The search returns, and prefers the added copy exactly in these stores. -/
theorem efiVzFindVariable_prefers (store : VariableStore memory base auth records)
    (guid : EfiGuid) (name : WStr) :
    ∃ vz, efiVzInit memory base = .ok vz ∧ vz.auth = auth ∧
      (∃ fuel answer, efiVzFindVariable everywhere fuel vz guid name = some answer) ∧
      (Prefers vz records guid name ↔ AddedFirst records guid name) := by
  obtain ⟨vz, valid, rfl, rfl, rfl, stored, empty⟩ := efiVzInit_valid store
  obtain ⟨⟨fuel, answer, finds⟩, returns⟩ := efiVzFindVariable_stored stored empty guid name
  refine ⟨vz, valid, rfl, ⟨fuel, answer, finds⟩, ?_⟩
  rw [addedFirst_iff]
  constructor
  · intro prefers first isFirst added
    obtain ⟨success, record, member, copy, decodes⟩ := prefers added fuel answer finds
    rcases returns fuel answer finds with ⟨-, none⟩ | ⟨first', -, holds, isFirst'⟩
    · rw [isFirst] at none
      cases none
    · obtain rfl := Option.some.inj (isFirst.symm.trans isFirst')
      have same := Option.some.inj (decodes.status.symm.trans holds.decodes.status)
      rw [← same, copy.2]
  · rintro firstAdded ⟨new, member, added⟩ fuel answer finds
    rcases returns fuel answer finds with ⟨-, none⟩ | ⟨first, success, holds, isFirst⟩
    · have counts : new.Counts := Or.inl added.2
      exact absurd (by simpa using And.intro counts added.1)
        (List.find?_eq_none.mp none new member)
    · have isCopy : first.Counts ∧ first.Named guid name := by
        simpa using List.find?_some isFirst
      have isAdded := firstAdded first isFirst ⟨new, member, added⟩
      exact ⟨success, first, List.mem_of_find?_eq_some isFirst, ⟨isCopy.2, isAdded⟩,
        holds.decodes⟩

/-- With the new copy in front the new copy is found. -/
theorem efiVzFindVariable_prefers_reversed :
    ∃ vz, efiVzInit (recordsMemory interrupted.reverse) 0 = .ok vz ∧
      Prefers vz interrupted.reverse (smallRecord 0x3f 2).guid (smallRecord 0x3f 2).name := by
  obtain ⟨vz, valid, -, -, prefers⟩ :=
    efiVzFindVariable_prefers (interrupted_store _ (Or.inr rfl)) (smallRecord 0x3f 2).guid
      (smallRecord 0x3f 2).name
  refine ⟨vz, valid, prefers.mpr ?_⟩
  rw [addedFirst_iff]
  intro first isFirst _
  have newFirst : interrupted.reverse.find? (fun record => record.Counts ∧
      record.Named (smallRecord 0x3f 2).guid (smallRecord 0x3f 2).name) =
      some (smallRecord 0x3f 2) := by
    decide
  obtain rfl := Option.some.inj (newFirst.symm.trans isFirst)
  rfl

/-- The old copy is returned. -/
theorem interrupted_stale :
    ∃ vz, efiVzInit (recordsMemory interrupted) 0 = .ok vz ∧
      VariableStore (recordsMemory interrupted) 0 false interrupted ∧
      ¬ Prefers vz interrupted (smallRecord 0x3f 2).guid (smallRecord 0x3f 2).name := by
  have store := interrupted_store interrupted (Or.inl rfl)
  obtain ⟨vz, valid, sameMemory, sameBase, sameAuth, stored, -⟩ := efiVzInit_valid store
  refine ⟨vz, valid, store, ?_⟩
  rw [← sameMemory, ← sameBase, ← sameAuth] at stored
  obtain ⟨⟨fuel, answer, finds⟩, returns⟩ := efiVzFindVariable_stored stored
    (fun empty => absurd empty (by decide)) (smallRecord 0x3f 2).guid (smallRecord 0x3f 2).name
  have oldFirst : interrupted.find? (fun record => record.Counts ∧
      record.Named (smallRecord 0x3f 2).guid (smallRecord 0x3f 2).name) =
      some (smallRecord 0x3e 1) := by
    decide
  intro prefers
  obtain ⟨-, record, -, copy, decodes⟩ :=
    prefers ⟨smallRecord 0x3f 2, by decide, ⟨rfl, rfl⟩, rfl⟩ fuel answer finds
  rcases returns fuel answer finds with ⟨-, none⟩ | ⟨first, -, holds, isFirst⟩
  · rw [oldFirst] at none
    cases none
  · obtain rfl := Option.some.inj (oldFirst.symm.trans isFirst)
    have same := Option.some.inj (decodes.status.symm.trans holds.decodes.status)
    rw [copy.2] at same
    exact absurd same (by decide)

end Zsbl.Libs
