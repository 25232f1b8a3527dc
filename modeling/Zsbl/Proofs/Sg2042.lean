/-
Module: Zsbl.Proofs.Sg2042
Purpose: When the memory nodes of the sg2042 are its DDR channels without the
  window of the PCIe switch.
Trusted boundary: none
Main exports:
  channelSizes, MemoryMap, MapFits, memoryMap_iff, window_in_second_channel
-/
import Zsbl.Plat.Sg2042

namespace Zsbl.Plat.Sg2042

open Zsbl.Lib

/-! ## Channels -/

/-- The sizes that the register of a chip gives its channels. -/
def channelSizes (ddrRegSize : BitVec 32) : Option (List Nat) :=
  (List.range' 0 DDR_CHANNEL_NUM).mapM (getDdrSize (ddrRegSize.setWidth 64))

/-- The bytes in the channels before the first empty one. -/
def leading (sizes : List Nat) : Nat := (sizes.takeWhile (· ≠ 0)).sum

/-- Channels of these sizes, one behind the other. -/
def channelsFrom (start : Nat) : List Nat → List DdrInfo
  | [] => []
  | size :: rest => ⟨start, size⟩ :: channelsFrom (start + size) rest

theorem channelsFrom_spans (start : Nat) (sizes : List Nat) :
    (channelsFrom start sizes).map DdrInfo.span = spansFrom start sizes := by
  induction sizes generalizing start with
  | nil => rfl
  | cons size rest ih => simp [channelsFrom, spansFrom, DdrInfo.span, ih]

/-- A channel holds 2^40 bytes at most. -/
theorem getDdrSize_le {reg : BitVec 64} {channel size : Nat}
    (done : getDdrSize reg channel = some size) : size ≤ 2 ^ 40 := by
  unfold getDdrSize at done
  simp only at done
  split at done
  · obtain rfl := Option.some.inj done
    exact Nat.zero_le _
  · split at done
    · cases done
    · obtain rfl := Option.some.inj done
      exact Nat.pow_le_pow_right (by decide) (Nat.sub_le _ _)

/-- Channels are at most a terabyte each. -/
theorem mapM_getDdrSize_sum {reg : BitVec 64} {count i : Nat} {sizes : List Nat}
    (done : (List.range' i count).mapM (getDdrSize reg) = some sizes) :
    sizes.sum ≤ count * 2 ^ 40 := by
  induction count generalizing i sizes with
  | zero =>
      obtain rfl := Option.some.inj done
      simp
  | succ count ih =>
      simp only [List.range'_succ, List.mapM_cons, Option.bind_eq_bind,
        Option.bind_eq_some_iff, Option.pure_def, Option.some.injEq] at done
      obtain ⟨size, first, rest, others, rfl⟩ := done
      have le := getDdrSize_le first
      have le' := ih others
      simp only [List.sum_cons]
      omega

/-- `build_ddr_info` puts the channels one behind the other. -/
theorem buildDdrFrom_eq {reg : BitVec 64} {count i start : Nat}
    (small : start + count * 2 ^ 40 < 2 ^ 64) :
    buildDdrFrom reg count i start =
      ((List.range' i count).mapM (getDdrSize reg)).map (channelsFrom start) := by
  induction count generalizing i start with
  | zero => rfl
  | succ count ih =>
      simp only [buildDdrFrom, List.range'_succ, List.mapM_cons, Option.bind_eq_bind]
      cases first : getDdrSize reg i with
      | none => rfl
      | some size =>
          have le := getDdrSize_le first
          have fits : (start + size) % 2 ^ 64 = start + size :=
            Nat.mod_eq_of_lt (by omega)
          rw [Option.bind_some, fits, ih (by omega)]
          cases (List.range' (i + 1) count).mapM (getDdrSize reg) <;> rfl

theorem buildDdrInfo_eq (reg : BitVec 32) {chip : Nat} (isChip : chip < MAX_CHIP_NUM) :
    buildDdrInfo reg chip =
      (channelSizes reg).map (channelsFrom (CHIP_ADDR_SPACE * chip)) := by
  unfold MAX_CHIP_NUM at isChip
  apply buildDdrFrom_eq
  simp only [CHIP_ADDR_SPACE, DDR_CHANNEL_NUM]
  omega

/-! ## Memory nodes -/

theorem addMemoryNode_spans (fdt : List MemoryNode) (addr len numa : Nat) :
    (addMemoryNode fdt addr len numa).map MemoryNode.span =
      fdt.map MemoryNode.span ++ if len = 0 then [] else [⟨addr, len⟩] := by
  unfold addMemoryNode
  split <;> simp [MemoryNode.span]

/-- Beyond the first channel of the first chip each channel before an empty one
becomes a node. -/
theorem modifyDdrFrom_spans {i j start : Nat} {sizes : List Nat} (fdt : List MemoryNode)
    (later : i ≠ 0 ∨ j ≠ 0) :
    (modifyDdrFrom i j (channelsFrom start sizes) fdt).map MemoryNode.span =
      fdt.map MemoryNode.span ++ spansFrom start (sizes.takeWhile (· ≠ 0)) := by
  induction sizes generalizing j start fdt with
  | nil => simp [channelsFrom, modifyDdrFrom, spansFrom]
  | cons size rest ih =>
      by_cases empty : size = 0
      · simp [channelsFrom, modifyDdrFrom, empty, spansFrom]
      · have notFirst : ¬(i = 0 ∧ j = 0 ∧ reservedStart ≥ start ∧
            reservedStart + reservedSize ≤ (start + size) % 2 ^ 64) := by
          rintro ⟨first, second, -⟩
          rcases later with ne | ne
          · exact ne first
          · exact ne second
        simp only [channelsFrom, modifyDdrFrom, if_neg empty, if_neg notFirst]
        rw [ih _ (Or.inr (Nat.succ_ne_zero j)), addMemoryNode_spans, if_neg empty]
        simp [empty, spansFrom]

/-- What the nodes of the first chip cover: the channels before an empty one,
without the window when the first channel contains it. -/
def FirstCovers (sizes : List Nat) (address : Nat) : Prop :=
  address < leading sizes ∧
    ¬(2 ^ 32 ≤ sizes.headD 0 ∧ reservedStart ≤ address ∧ address < 2 ^ 32)

/-- The nodes of the first socket cover its channels, less the window. -/
theorem modifyDdrFrom_first {sizes : List Nat} (small : sizes.sum < 2 ^ 64) :
    ((modifyDdrFrom 0 0 (channelsFrom 0 sizes) []).map MemoryNode.span).Pairwise
        Span.Apart ∧
      ∀ address, Covers ((modifyDdrFrom 0 0 (channelsFrom 0 sizes) []).map
        MemoryNode.span) address ↔ FirstCovers sizes address := by
  cases sizes with
  | nil => simp [channelsFrom, modifyDdrFrom, FirstCovers, leading]
  | cons size rest =>
      by_cases empty : size = 0
      · simp [channelsFrom, modifyDdrFrom, empty, FirstCovers, leading]
      have fits : (0 + size) % 2 ^ 64 = size := by
        rw [Nat.zero_add]
        exact Nat.mod_eq_of_lt (by simp at small; omega)
      have total : leading (size :: rest) = size + (rest.takeWhile (· ≠ 0)).sum := by
        simp [leading, empty]
      by_cases contains : 2 ^ 32 ≤ size
      · have isFirst : reservedStart ≥ 0 ∧ reservedStart + reservedSize ≤ size :=
          ⟨Nat.zero_le _, contains⟩
        have start : reservedStart = 0xc0000000 := rfl
        have stop : reservedStart + reservedSize = 2 ^ 32 := rfl
        have spans : (modifyDdrFrom 0 0 (channelsFrom 0 (size :: rest)) []).map
            MemoryNode.span = [⟨0, reservedStart⟩] ++
              ((if size - 2 ^ 32 = 0 then [] else [⟨2 ^ 32, size - 2 ^ 32⟩]) ++
                spansFrom size (rest.takeWhile (· ≠ 0))) := by
          have some : reservedStart - 0 ≠ 0 := by decide
          simp only [channelsFrom, modifyDdrFrom, if_neg empty, fits, true_and,
            if_pos isFirst]
          rw [modifyDdrFrom_spans _ (Or.inr (Nat.succ_ne_zero _)), addMemoryNode_spans,
            addMemoryNode_spans, if_neg some, stop, Nat.sub_zero, Nat.zero_add]
          simp only [List.map_nil, List.nil_append, List.append_assoc]
        have behind : ∀ address, Covers (if size - 2 ^ 32 = 0 then []
            else [⟨2 ^ 32, size - 2 ^ 32⟩]) address ↔
              2 ^ 32 ≤ address ∧ address < size := by
          intro address
          split <;> simp [Span.Contains] <;> omega
        rw [spans, pairwise_apart_append, pairwise_apart_append]
        simp only [covers_append, behind, covers_spansFrom, FirstCovers, total,
          List.headD_cons, covers_cons, covers_nil, Span.Contains, or_false]
        refine ⟨⟨by simp, ⟨?_, spansFrom_apart _ _, ?_⟩, ?_⟩, ?_⟩
        · split <;> simp
        · intro address
          omega
        · intro address
          omega
        · intro address
          omega
      · have notContained : ¬(reservedStart ≥ 0 ∧ reservedStart + reservedSize ≤ size) :=
          fun isFirst => contains isFirst.2
        have spans : (modifyDdrFrom 0 0 (channelsFrom 0 (size :: rest)) []).map
            MemoryNode.span = spansFrom 0 ((size :: rest).takeWhile (· ≠ 0)) := by
          simp only [channelsFrom, modifyDdrFrom, if_neg empty, fits, true_and,
            if_neg notContained]
          rw [modifyDdrFrom_spans _ (Or.inr (Nat.succ_ne_zero _)), addMemoryNode_spans,
            if_neg empty]
          simp [empty, spansFrom]
        rw [spans]
        refine ⟨spansFrom_apart _ _, fun address => ?_⟩
        rw [covers_spansFrom]
        simp only [FirstCovers, leading, List.headD_cons]
        omega

/-! ## The memory map -/

/-- The boot selection register chooses the mode with two sockets. -/
def MultiSocket (bootSel : BitVec 32) : Bool := bootSel &&& MULTI_SOCKET_MODE ≠ 0

/-- The memory nodes are apart from each other and from the window, and cover
the populated channels without the window. -/
def MemoryMap (bootSel : BitVec 32) (ddrReg : Nat → BitVec 32) : Prop :=
  ∃ cfg, buildBoardInfo bootSel ddrReg = some cfg ∧
    ((modifyDdrNode cfg).map MemoryNode.span).Pairwise Span.Apart ∧
    (∀ address, Covers ((modifyDdrNode cfg).map MemoryNode.span) address ↔
      Covers (cfg.ddr.flatten.map DdrInfo.span) address ∧
        ¬Span.Contains ⟨reservedStart, reservedSize⟩ address) ∧
    ∀ node ∈ modifyDdrNode cfg, node.span.Apart ⟨reservedStart, reservedSize⟩

/-- The sizes of the second chip's channels, when there are two sockets. -/
def secondSizes (bootSel : BitVec 32) (ddrReg : Nat → BitVec 32) : Option (List Nat) :=
  if MultiSocket bootSel then channelSizes (ddrReg 1) else some []

/-- The channels before the first empty one of the first chip end before the
window, or its first channel contains the window; they end where the second
chip begins, if that has channels; and behind an empty channel there is nothing,
or only what is in the window or in channels of the other chip. -/
structure MapFits (first second : List Nat) : Prop where
  window : leading first ≤ reservedStart ∨ 2 ^ 32 ≤ first.headD 0
  apart : leading second = 0 ∨ leading first ≤ CHIP_ADDR_SPACE
  firstRest : first.sum = leading first ∨
    leading first = reservedStart ∧ first.sum ≤ 2 ^ 32 ∨
    leading first = CHIP_ADDR_SPACE ∧ first.sum ≤ CHIP_ADDR_SPACE + leading second
  secondRest : second.sum = leading second ∨
    leading second = 0 ∧ CHIP_ADDR_SPACE + second.sum ≤ leading first

/-- What the memory nodes of the two chips cover. -/
theorem modifyDdrNode_covers {first second : List Nat} (small : first.sum < 2 ^ 64)
    {nodes : List MemoryNode}
    (made : nodes = modifyDdrFrom 1 0 (channelsFrom CHIP_ADDR_SPACE second)
      (modifyDdrFrom 0 0 (channelsFrom 0 first) [])) :
    ((nodes.map MemoryNode.span).Pairwise Span.Apart ↔ ∀ address,
        FirstCovers first address → ¬(CHIP_ADDR_SPACE ≤ address ∧
          address < CHIP_ADDR_SPACE + leading second)) ∧
      ∀ address, Covers (nodes.map MemoryNode.span) address ↔
        FirstCovers first address ∨ CHIP_ADDR_SPACE ≤ address ∧
          address < CHIP_ADDR_SPACE + leading second := by
  obtain ⟨apart, covers⟩ := modifyDdrFrom_first small
  subst made
  rw [modifyDdrFrom_spans _ (Or.inl (by decide))]
  refine ⟨?_, fun address => ?_⟩
  · rw [pairwise_apart_append]
    simp only [apart, spansFrom_apart, covers, covers_spansFrom, true_and, leading]
  · rw [covers_append, covers, covers_spansFrom]
    rfl

theorem leading_le_sum (sizes : List Nat) : leading sizes ≤ sizes.sum := by
  have split := List.takeWhile_append_dropWhile (p := (· ≠ 0)) (l := sizes)
  have sum := congrArg List.sum split
  rw [List.sum_append] at sum
  simp only [leading]
  omega

theorem headD_le_leading (sizes : List Nat) : sizes.headD 0 ≤ leading sizes := by
  cases sizes with
  | nil => exact Nat.le_refl _
  | cons size rest =>
      by_cases empty : size = 0
      · simp [empty]
      · simp [leading, empty]

/-- The sets of addresses agree exactly when the sizes fit. -/
theorem mapFits_iff {first second : List Nat} :
    MapFits first second ↔
      (∀ address, FirstCovers first address → ¬(CHIP_ADDR_SPACE ≤ address ∧
        address < CHIP_ADDR_SPACE + leading second)) ∧
      ∀ address, (FirstCovers first address ∨ CHIP_ADDR_SPACE ≤ address ∧
          address < CHIP_ADDR_SPACE + leading second) ↔
        (address < first.sum ∨ CHIP_ADDR_SPACE ≤ address ∧
          address < CHIP_ADDR_SPACE + second.sum) ∧
        ¬(reservedStart ≤ address ∧ address < reservedStart + reservedSize) := by
  have firstLe := leading_le_sum first
  have secondLe := leading_le_sum second
  have headLe := headD_le_leading first
  simp only [FirstCovers, reservedStart, reservedSize, CHIP_ADDR_SPACE]
  constructor
  · rintro ⟨window, apart, firstRest, secondRest⟩
    simp only [reservedStart, CHIP_ADDR_SPACE] at window apart firstRest secondRest
    constructor
    · intro address
      omega
    · intro address
      omega
  · rintro ⟨apart, same⟩
    -- the addresses at which the ranges begin and end
    have window := same 0xc0000000
    have windowEnd := same (2 ^ 32)
    have meet := apart (2 ^ 39)
    have firstEnd := same (leading first)
    have secondEnd := same (2 ^ 39 + leading second)
    constructor <;> simp only [reservedStart, CHIP_ADDR_SPACE]
    · omega
    · omega
    · omega
    · omega

/-- The channels of one chip or two. -/
def boardConfig (multiSocketMode : Bool) (first second : List Nat) : Config :=
  ⟨multiSocketMode,
    if multiSocketMode then [channelsFrom 0 first, channelsFrom CHIP_ADDR_SPACE second]
    else [channelsFrom 0 first]⟩

/-- The board is read from the registers of each socket that is there. -/
theorem buildBoardInfo_eq_some {bootSel : BitVec 32} {ddrReg : Nat → BitVec 32}
    {cfg : Config} : buildBoardInfo bootSel ddrReg = some cfg ↔
      ∃ first second, channelSizes (ddrReg 0) = some first ∧
        secondSizes bootSel ddrReg = some second ∧
        cfg = boardConfig (MultiSocket bootSel) first second := by
  have isMulti : decide (bootSel &&& MULTI_SOCKET_MODE ≠ 0) = MultiSocket bootSel := rfl
  simp only [buildBoardInfo, isMulti, buildDdrInfo_eq _ (show 0 < MAX_CHIP_NUM by decide),
    buildDdrInfo_eq _ (show 1 < MAX_CHIP_NUM by decide), secondSizes]
  cases channelSizes (ddrReg 0) with
  | none => simp
  | some first =>
      cases MultiSocket bootSel with
      | false =>
          simp [boardConfig, eq_comm]
      | true =>
          cases channelSizes (ddrReg 1) with
          | none => simp
          | some second => simp [boardConfig, eq_comm]

/-- The channels of a socket lie one behind the other from its first address. -/
theorem covers_channels {multiSocketMode : Bool} {first second : List Nat}
    (single : multiSocketMode = false → second = []) (address : Nat) :
    Covers ((boardConfig multiSocketMode first second).ddr.flatten.map DdrInfo.span)
        address ↔
      address < first.sum ∨ CHIP_ADDR_SPACE ≤ address ∧
        address < CHIP_ADDR_SPACE + second.sum := by
  cases multiSocketMode with
  | false =>
      obtain rfl := single rfl
      simp [boardConfig, channelsFrom_spans, covers_spansFrom]
  | true => simp [boardConfig, channelsFrom_spans, covers_spansFrom]

/-- The nodes of the second socket follow those of the first. -/
theorem modifyDdrNode_board {multiSocketMode : Bool} {first second : List Nat}
    (single : multiSocketMode = false → second = []) :
    modifyDdrNode (boardConfig multiSocketMode first second) =
      modifyDdrFrom 1 0 (channelsFrom CHIP_ADDR_SPACE second)
        (modifyDdrFrom 0 0 (channelsFrom 0 first) []) := by
  cases multiSocketMode with
  | false =>
      obtain rfl := single rfl
      rfl
  | true => rfl

/-- The memory nodes are the populated channels without the window exactly when
no size code makes an undefined shift and the sizes fit. -/
theorem memoryMap_iff (bootSel : BitVec 32) (ddrReg : Nat → BitVec 32) :
    MemoryMap bootSel ddrReg ↔
      ∃ first second, channelSizes (ddrReg 0) = some first ∧
        secondSizes bootSel ddrReg = some second ∧ MapFits first second := by
  have fits : ∀ first second, channelSizes (ddrReg 0) = some first →
      secondSizes bootSel ddrReg = some second →
      ((((modifyDdrNode (boardConfig (MultiSocket bootSel) first second)).map
          MemoryNode.span).Pairwise Span.Apart ∧
        ∀ address, Covers ((modifyDdrNode (boardConfig (MultiSocket bootSel) first
            second)).map MemoryNode.span) address ↔
          Covers ((boardConfig (MultiSocket bootSel) first second).ddr.flatten.map
            DdrInfo.span) address ∧
            ¬Span.Contains ⟨reservedStart, reservedSize⟩ address) ↔
        MapFits first second) := by
    intro first second hasFirst hasSecond
    have single : MultiSocket bootSel = false → second = [] := by
      intro isSingle
      simpa [secondSizes, isSingle, eq_comm] using hasSecond
    have small := mapM_getDdrSize_sum hasFirst
    have firstFits : first.sum < 2 ^ 64 := by
      unfold DDR_CHANNEL_NUM at small
      omega
    obtain ⟨apart, covers⟩ :=
      @modifyDdrNode_covers first second firstFits _ (modifyDdrNode_board single)
    rw [apart, mapFits_iff]
    simp only [covers, covers_channels single, Span.Contains]
  constructor
  · rintro ⟨cfg, built, apart, covers, -⟩
    obtain ⟨first, second, hasFirst, hasSecond, rfl⟩ := buildBoardInfo_eq_some.mp built
    exact ⟨first, second, hasFirst, hasSecond,
      (fits first second hasFirst hasSecond).mp ⟨apart, covers⟩⟩
  · rintro ⟨first, second, hasFirst, hasSecond, fit⟩
    obtain ⟨apart, covers⟩ := (fits first second hasFirst hasSecond).mpr fit
    refine ⟨_, buildBoardInfo_eq_some.mpr ⟨first, second, hasFirst, hasSecond, rfl⟩,
      apart, covers, fun node member address inside => ?_⟩
    exact ((covers address).mp ⟨node.span, List.mem_map_of_mem member, inside⟩).2

/-- Two channels of 2 GiB: the window is in the second, which becomes a node as a
whole. -/
theorem window_in_second_channel :
    ¬ ∀ bootSel ddrReg, MemoryMap bootSel ddrReg := by
  intro correct
  obtain ⟨cfg, built, -, -, apart⟩ := correct 0#32 fun _ => 0x29290909#32
  have read : buildBoardInfo 0#32 (fun _ => 0x29290909#32) = some ⟨false,
      [[⟨0, 0x80000000⟩, ⟨0x80000000, 0x80000000⟩, ⟨0x100000000, 0⟩, ⟨0x100000000, 0⟩]]⟩ := by
    decide
  obtain rfl := Option.some.inj (read.symm.trans built)
  exact apart ⟨0x80000000, 0x80000000, 1⟩ (by decide) reservedStart (by decide) (by decide)

end Zsbl.Plat.Sg2042
