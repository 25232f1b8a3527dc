/-
Module: Zsbl.Proofs.MemoryNode
Purpose: The size of the memory that the sg2044 publishes, against the DRAM that the fuses tell
  of and the memory that the EFI variable reserves.
Trusted boundary: none
Main exports:
  installed, memoryLengths, PublishesRight, Configured, memory_size_published
-/
import Mathlib.Data.BitVec
import Zsbl.Plat.Sg2044Memory
import Zsbl.Proofs.EfiWalk

namespace Zsbl.Plat.Sg2044

open Zsbl.Lib Zsbl.Libs Zsbl.Drivers

/-- The installed DRAM. -/
def installed (cfg : Config) : Nat := cfg.dram.channelNumber * cfg.dram.capacity

/-- The lengths of the memory nodes of a tree, of the one range that each has. -/
def memoryLengths (root : DtNode) : List Nat :=
  root.children.filterMap fun child =>
    if nodenameEq child.name (ascii "memory") then do
      let reg ← child.prop? (ascii "reg")
      let addrCells ← fdtAddressCells root
      some (bigEndian (reg.drop (4 * addrCells)))
    else none

/-- What is published is the difference of the two, and no more than there is. -/
def PublishesRight (cfg : Config) (room : MemoryEdit → Bool) (root : DtNode) : Prop :=
  ∀ len ∈ memoryLengths (modifyMemoryNode room cfg root),
    (len : Int) = installed cfg - cfg.reservedMemorySize ∧ len ≤ installed cfg

/-- The configuration after the fuses, `conf.ini`, which has no say in it, and the EFI
variable. -/
def Configured (cfg : Config) : Prop :=
  ∃ ramBase bootsel devices cfg₀ cfg₁ readable fuel flash0 err,
    configInit ramBase bootsel devices = some cfg₀ ∧ cfg₁.dram = cfg₀.dram ∧
    cfg₁.reservedMemorySize = cfg₀.reservedMemorySize ∧
    parseEfiVariable readable fuel flash0 cfg₁ = some (cfg, err)

/-! ## The configuration -/

theorem getD_le {values : List Nat} {bound : Nat} (all : ∀ value ∈ values, value ≤ bound)
    (i : Nat) : values.getD i 0 ≤ bound := by
  rw [List.getD_eq_getElem?_getD]
  cases there : values[i]? with
  | none => exact Nat.zero_le _
  | some value => exact all value (List.mem_of_getElem? there)

theorem fusedDram_le (flags : BitVec 32) :
    (fusedDram flags).channelNumber * (fusedDram flags).capacity ≤ 8 * 2 ^ 34 :=
  Nat.mul_le_mul (getD_le (by decide) _) (getD_le (by decide) _)

/-- The fuses give at most 8 channels of 2^34 bytes. -/
theorem getInfoInEfuse_installed {devices : List Nvmem} {cfg cfg' : Config} {err : Int}
    (done : getInfoInEfuse devices cfg = some (cfg', err)) :
    installed cfg' ≤ 8 * 2 ^ 34 ∧ cfg'.reservedMemorySize = cfg.reservedMemorySize := by
  unfold getInfoInEfuse at done
  split at done
  · next efuse1 _ =>
    obtain ⟨secure, -, done⟩ := Option.bind_eq_some_iff.mp done
    cases done
    refine ⟨?_, rfl⟩
    unfold installed
    dsimp only
    split_ifs
    · decide
    · decide
    · exact fusedDram_le _
  · cases done
    exact ⟨Nat.le_of_ble_eq_true rfl, rfl⟩

/-- A size that is found is a number of GiB of 32 bits. -/
theorem parseFound_reserved {readable : Nat → Bool} {vz : EfiVariableZone} {cfg cfg' : Config}
    {answer : Int × EfiVariable} {err : Int}
    (done : parseFound readable vz cfg answer = some (cfg', err)) :
    cfg'.dram = cfg.dram ∧ (cfg'.reservedMemorySize = cfg.reservedMemorySize ∨
      ∃ rmsInGb < 2 ^ 32, cfg'.reservedMemorySize = rmsInGb * 1024 * 1024 * 1024) := by
  unfold parseFound at done
  split at done
  · cases done
    exact ⟨rfl, .inl rfl⟩
  · obtain ⟨data, -, done⟩ := Option.bind_eq_some_iff.mp done
    obtain ⟨rmsInGb, isRead, done⟩ := Option.bind_eq_some_iff.mp done
    have small : rmsInGb < 2 ^ 32 := by
      rw [efiRead_eq] at isRead
      split at isRead
      · cases isRead
        exact peek_lt _ _ 4
      · cases isRead
    dsimp only at done
    split at done <;> cases done <;> exact ⟨rfl, .inr ⟨rmsInGb, small, rfl⟩⟩

/-- The variable changes the reserved size alone. -/
theorem parseEfiVariable_reserved {readable : EfiVariableZone → Nat → Bool} {fuel : Nat}
    {flash0 : FlashVolume} {cfg cfg' : Config} {err : Int}
    (done : parseEfiVariable readable fuel flash0 cfg = some (cfg', err)) :
    cfg'.dram = cfg.dram ∧ (cfg'.reservedMemorySize = cfg.reservedMemorySize ∨
      ∃ rmsInGb < 2 ^ 32, cfg'.reservedMemorySize = rmsInGb * 1024 * 1024 * 1024) := by
  unfold parseEfiVariable at done
  split at done
  · cases done
    exact ⟨rfl, .inl rfl⟩
  · split at done
    · cases done
      exact ⟨rfl, .inl rfl⟩
    · split at done
      · cases done
        exact ⟨rfl, .inl rfl⟩
      · split at done
        · cases done
          exact ⟨rfl, .inl rfl⟩
        · obtain ⟨answer, -, done⟩ := Option.bind_eq_some_iff.mp done
          exact parseFound_reserved done

/-- Neither the installed nor the reserved memory overflows 64 bits. -/
theorem Configured.bounds {cfg : Config} (configured : Configured cfg) :
    installed cfg ≤ 8 * 2 ^ 34 ∧ cfg.reservedMemorySize < 2 ^ 62 := by
  obtain ⟨ramBase, bootsel, devices, cfg₀, cfg₁, readable, fuel, flash0, err, init, dram, reserved,
    parsed⟩ := configured
  obtain ⟨⟨cfg', err'⟩, info, same⟩ := Option.bind_eq_some_iff.mp init
  cases same
  obtain ⟨small, none⟩ := getInfoInEfuse_installed info
  obtain ⟨sameDram, variable'⟩ := parseEfiVariable_reserved parsed
  refine ⟨by rw [installed, sameDram, dram]; exact small, ?_⟩
  rcases variable' with kept | ⟨rmsInGb, less, isRms⟩
  · rw [kept, reserved, none]
    exact Nat.two_pow_pos 62
  · rw [isRms]
    omega

/-! ## The tree -/

theorem systemMemorySize_toNat {cfg : Config} (small : installed cfg ≤ 8 * 2 ^ 34)
    (fits : cfg.reservedMemorySize ≤ installed cfg) :
    (systemMemorySize cfg).toNat = installed cfg - cfg.reservedMemorySize := by
  unfold systemMemorySize
  unfold installed at small fits ⊢
  dsimp only
  rw [BitVec.toNat_sub, BitVec.toNat_ofNat, BitVec.toNat_ofNat]
  omega

/-- After as many rounds as there are children, no memory node is left. -/
theorem removeMemoryNodes_none (rounds : Nat) {root : DtNode}
    (enough : root.children.length ≤ rounds) :
    (removeMemoryNodes rounds root).props = root.props ∧
      ∀ child ∈ (removeMemoryNodes rounds root).children,
        nodenameEq child.name (ascii "memory") = false := by
  induction rounds generalizing root with
  | zero =>
      have none : root.children = [] :=
        List.eq_nil_of_length_eq_zero (Nat.eq_zero_of_le_zero enough)
      simp [removeMemoryNodes, none]
  | succ rounds ih =>
      unfold removeMemoryNodes
      split
      · next missing =>
        refine ⟨rfl, fun child member => ?_⟩
        simpa using List.findIdx?_eq_none_iff.mp missing child member
      · next i found =>
        obtain ⟨below, -⟩ := List.findIdx?_eq_some_iff_getElem.mp found
        have fewer : (root.children.eraseIdx i).length ≤ rounds := by
          rw [List.length_eraseIdx_of_lt below]
          omega
        obtain ⟨props, none⟩ := @ih (root.mapChildren fun children => children.eraseIdx i) fewer
        exact ⟨props.trans (DtNode.props_mapChildren _ _), none⟩

theorem addrBytes_length {addrCells addr size : Nat} {bytes : List UInt8}
    (accepted : addrBytes addrCells addr size = some bytes) : bytes.length = 4 * addrCells := by
  unfold addrBytes at accepted
  split_ifs at accepted with one _ two
  · cases accepted
    rw [one, length_beBytes]
  · cases accepted
    rw [two, length_beBytes]

/-- The cells of a size are the number in big-endian order. -/
theorem sizeBytes_value {sizeCells size : Nat} {bytes : List UInt8} (small : size < 2 ^ 64)
    (accepted : sizeBytes sizeCells size = some bytes) : bigEndian bytes = size := by
  unfold sizeBytes at accepted
  split_ifs at accepted with one high two
  · cases accepted
    apply bigEndian_beBytes
    unfold UINT32_MAX at high
    omega
  · cases accepted
    exact bigEndian_beBytes small

/-- The bytes of an accepted range end with its size. -/
theorem addrrange_size {parent : DtNode} {addr size : Nat} {reg : List UInt8}
    (small : size < 2 ^ 64) (accepted : addrrange parent addr size = some reg) :
    ∃ addrCells, fdtAddressCells parent = some addrCells ∧
      bigEndian (reg.drop (4 * addrCells)) = size := by
  obtain ⟨addrCells, isAddr, accepted⟩ := Option.bind_eq_some_iff.mp accepted
  obtain ⟨sizeCells, -, accepted⟩ := Option.bind_eq_some_iff.mp accepted
  obtain ⟨first, isFirst, accepted⟩ := Option.bind_eq_some_iff.mp accepted
  obtain ⟨second, isSecond, accepted⟩ := Option.bind_eq_some_iff.mp accepted
  cases accepted
  refine ⟨addrCells, isAddr, ?_⟩
  rw [← addrBytes_length isFirst, List.drop_left]
  exact sizeBytes_value small isSecond

theorem memoryLengths_none {root : DtNode}
    (none : ∀ child ∈ root.children, nodenameEq child.name (ascii "memory") = false) :
    memoryLengths root = [] := by
  refine List.filterMap_eq_nil_iff.mpr fun child member => ?_
  rw [if_neg (by simp [none child member])]

/-- The node that is added is the only one. -/
theorem memoryLengths_add {root : DtNode} (props : List (List UInt8 × List UInt8))
    (none : ∀ child ∈ root.children, nodenameEq child.name (ascii "memory") = false)
    {len : Nat} (member : len ∈ memoryLengths (root.mapChildren fun children =>
      DtNode.node (ascii "memory@80000000") props [] :: children)) :
    ∃ reg addrCells, (DtNode.node (ascii "memory@80000000") props []).prop? (ascii "reg") =
        some reg ∧
      fdtAddressCells root = some addrCells ∧ len = bigEndian (reg.drop (4 * addrCells)) := by
  obtain ⟨child, isChild, isLen⟩ := List.mem_filterMap.mp member
  rw [DtNode.children_mapChildren, List.mem_cons] at isChild
  rcases isChild with rfl | old
  · split at isLen
    · obtain ⟨reg, isReg, isLen⟩ := Option.bind_eq_some_iff.mp isLen
      obtain ⟨addrCells, isCells, isLen⟩ := Option.bind_eq_some_iff.mp isLen
      cases isLen
      exact ⟨reg, addrCells, isReg, isCells, rfl⟩
    · cases isLen
  · rw [if_neg (by simp [none child old])] at isLen
    cases isLen

/-- What is published is the size that was computed. -/
theorem modifyMemoryNode_lengths {room : MemoryEdit → Bool} {cfg : Config} {root : DtNode}
    {len : Nat} (member : len ∈ memoryLengths (modifyMemoryNode room cfg root)) :
    len = (systemMemorySize cfg).toNat := by
  obtain ⟨-, none⟩ := removeMemoryNodes_none _ (Nat.le_refl root.children.length)
  have size := (systemMemorySize cfg).isLt
  have empty : ¬ ∃ reg, (DtNode.node (ascii "memory@80000000") [] []).prop? (ascii "reg") =
      some reg := by
    simp [DtNode.prop?]
  unfold modifyMemoryNode at member
  dsimp only at member
  split at member
  · rw [memoryLengths_none none] at member
    cases member
  · split at member
    · obtain ⟨reg, -, isReg, -⟩ := memoryLengths_add [] none member
      exact absurd ⟨reg, isReg⟩ empty
    · next reg accepted =>
      obtain ⟨cells, isCells, value⟩ := addrrange_size size accepted
      split at member
      · obtain ⟨reg, -, isReg, -⟩ := memoryLengths_add [] none member
        exact absurd ⟨reg, isReg⟩ empty
      · split at member
        · obtain ⟨reg', cells', isReg, isCells', rfl⟩ := memoryLengths_add _ none member
          obtain rfl := Option.some.inj (isCells.symm.trans isCells')
          obtain rfl : reg = reg' := Option.some.inj isReg
          exact value
        · obtain ⟨reg', cells', isReg, isCells', rfl⟩ := memoryLengths_add _ none member
          obtain rfl := Option.some.inj (isCells.symm.trans isCells')
          obtain rfl : reg = reg' := Option.some.inj isReg
          exact value

/-- A tree with 64 bits for a size, into which everything fits. -/
def wideTree : DtNode :=
  .node [] [(ascii "#address-cells", [0, 0, 0, 2]), (ascii "#size-cells", [0, 0, 0, 2])] []

theorem memoryLengths_wideTree (cfg : Config) :
    memoryLengths (modifyMemoryNode (fun _ => true) cfg wideTree) =
      [(systemMemorySize cfg).toNat] := by
  have lengths : memoryLengths (modifyMemoryNode (fun _ => true) cfg wideTree) =
      [bigEndian ((beBytes 8 0x80000000 ++ beBytes 8 (systemMemorySize cfg).toNat).drop 8)] := rfl
  rw [lengths, List.drop_left' (length_beBytes _ _), bigEndian_beBytes]
  exact (systemMemorySize cfg).isLt

/-- What is published is right for every tree exactly when no more is reserved than there is. -/
theorem memory_size_published (cfg : Config) (configured : Configured cfg) :
    (∀ room root, PublishesRight cfg room root) ↔ cfg.reservedMemorySize ≤ installed cfg := by
  constructor
  · intro right
    have published := right (fun _ => true) wideTree (systemMemorySize cfg).toNat
      (by rw [memoryLengths_wideTree]; exact List.mem_singleton_self _)
    omega
  · intro fits room root len member
    have size := systemMemorySize_toNat configured.bounds.1 fits
    rw [modifyMemoryNode_lengths member, size]
    omega

/-! ## A reservation -/

/-- The variable `ReservedMemorySize` with a number of gigabytes. -/
def rmsRecord (gigabytes : UInt8) : VariableRecord where
  status := 0x3f
  reserved := 0
  attr := 7
  stamp := Vector.replicate 28 0
  guid := sophgoVariableGuid
  name := rmsVarName
  padding := []
  data := [gigabytes, 0, 0, 0]

/-- One record of the reserved size is a whole store. -/
theorem rms_store (gigabytes : UInt8) (which : gigabytes = 16 ∨ gigabytes = 200) :
    VariableStore (recordsMemory [rmsRecord gigabytes]) 0 false [rmsRecord gigabytes] := by
  rcases which with rfl | rfl
  · refine volume_store ?_ (by decide)
    refine ⟨by decide, by decide, 168, by decide, by decide, by decide, ?_⟩
    exact ⟨by decide, by decide⟩
  · refine volume_store ?_ (by decide)
    refine ⟨by decide, by decide, 168, by decide, by decide, by decide, ?_⟩
    exact ⟨by decide, by decide⟩

def blankFuses : List Nvmem :=
  [⟨"nvmem:efuse0", "efuse0", fun _ => 0⟩, ⟨"nvmem:efuse1", "efuse1", fun _ => 0⟩]

/-- The reserved size is the number in the data of the variable, in GiB. -/
theorem parseFound_data {readable : Nat → Bool} {vz : EfiVariableZone} {var : EfiVariable}
    {data rmsInGb : Nat} (cfg : Config) (isData : efiVariableData readable vz var = some data)
    (isRead : efiRead readable vz data 4 = some rmsInGb) :
    ∃ cfg', parseFound readable vz cfg (0, var) = some (cfg', 0) ∧ cfg'.dram = cfg.dram ∧
      cfg'.reservedMemorySize = rmsInGb * 1024 * 1024 * 1024 := by
  unfold parseFound
  rw [if_neg (by simp), isData, Option.bind_eq_bind, Option.bind_some, isRead, Option.bind_some]
  dsimp only
  split
  · exact ⟨_, rfl, rfl, rfl⟩
  · exact ⟨_, rfl, rfl, rfl⟩

/-- Machines with blank fuses, which have the default DRAM, and such a variable. -/
theorem configured_reserving (gigabytes : UInt8) (which : gigabytes = 16 ∨ gigabytes = 200) :
    ∃ cfg, Configured cfg ∧ installed cfg = 128 * 2 ^ 30 ∧
      cfg.reservedMemorySize = gigabytes.toNat * 2 ^ 30 := by
  obtain ⟨vz, valid, -, ⟨err, var⟩, ⟨fuel, finds⟩, found, -⟩ :=
    efiVzFindVariable_decodes (rms_store gigabytes which) (by simp) sophgoVariableGuid rmsVarName
  obtain ⟨success, decodes⟩ := found (rmsRecord gigabytes) (by simp) (.inl rfl) ⟨rfl, rfl⟩
  obtain rfl : err = 0 := success
  obtain ⟨data, isData, bytes⟩ := decodes.data
  have isRead : efiRead everywhere vz data 4 = some gigabytes.toNat := by
    rw [efiRead_everywhere]
    exact congrArg some ((congrArg le bytes).trans (by simp [rmsRecord, le]))
  obtain ⟨cfg, parsed, dram, reserved⟩ :=
    parseFound_data ((configInit 0 0 blankFuses).getD Config.static) isData isRead
  refine ⟨cfg, ?_, ?_, ?_⟩
  · refine ⟨0, 0, blankFuses, _, _, fun _ => everywhere, fuel,
      ⟨true, some 0, 0, recordsMemory [rmsRecord gigabytes]⟩, 0, rfl, rfl, rfl, ?_⟩
    rw [parseEfiVariable_eq valid (Int.le_refl 0), finds, Option.bind_some]
    exact parsed
  · unfold installed
    rw [dram]
    rfl
  · rw [reserved]
    omega

theorem memory_size_published_reserving :
    ∃ cfg, cfg.reservedMemorySize = 16 * 2 ^ 30 ∧ ∀ room root, PublishesRight cfg room root := by
  obtain ⟨cfg, configured, dram, reserved⟩ := configured_reserving 16 (.inl rfl)
  refine ⟨cfg, reserved, (memory_size_published cfg configured).mpr ?_⟩
  rw [reserved, dram]
  decide

/-- With 200 gigabytes reserved of 128, almost 2^64 bytes are published. -/
theorem wrapped_size_published :
    ∃ cfg, Configured cfg ∧ installed cfg = 128 * 2 ^ 30 ∧ cfg.reservedMemorySize = 200 * 2 ^ 30 ∧
      memoryLengths (modifyMemoryNode (fun _ => true) cfg wideTree) = [2 ^ 64 - 72 * 2 ^ 30] ∧
      ¬ PublishesRight cfg (fun _ => true) wideTree := by
  obtain ⟨cfg, configured, dram, reserved⟩ := configured_reserving 200 (.inr rfl)
  have size : (systemMemorySize cfg).toNat = 2 ^ 64 - 72 * 2 ^ 30 := by
    unfold installed at dram
    unfold systemMemorySize
    rw [dram, reserved]
    decide
  have lengths := memoryLengths_wideTree cfg
  rw [size] at lengths
  refine ⟨cfg, configured, dram, reserved, lengths, fun right => ?_⟩
  have published := (right _ (by rw [lengths]; exact List.mem_singleton_self _)).2
  rw [dram] at published
  exact absurd published (by decide)

end Zsbl.Plat.Sg2044
