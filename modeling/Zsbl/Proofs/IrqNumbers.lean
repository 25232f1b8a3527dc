/-
Module: Zsbl.Proofs.IrqNumbers
Purpose: The logical interrupt numbers of the chips, and the numbers that entries of a device
  tree are translated to.
Trusted boundary: none
Main exports:
  registerChips, irqSpan, irqTotal, IrqEntry, TranslatesBack, irqOffset, BeyondInt, irq_numbers
-/
import Zsbl.Drivers.Platform
import Zsbl.Lib.Spans

namespace Zsbl.Drivers

open Zsbl.Lib Zsbl.Include

variable {σ : Type}

/-! ## Chips and entries -/

/-- A sequence of calls of `irq_register_chip` from the static initial values. -/
def registerChips (devs : σ) (calls : List (RegisteredChip σ)) : Irqs σ :=
  calls.foldl (fun s irqc => (irqRegisterChip s irqc).1) (.initial devs)

/-- The logical numbers of a chip. -/
def irqSpan (irqc : RegisteredChip σ) : Span := ⟨irqc.irqStart.toNat, irqc.irqCount.toNat⟩

/-- How many interrupts the registered chips have. -/
def irqTotal (s : Irqs σ) : Nat := (s.irqChipList.map fun irqc => irqc.irqCount.toNat).sum

/-- The entry `n` of the node is the hardware interrupt of the chip at a position, which is
registered for the device of the node that the entry refers to. -/
structure IrqEntry (s : Irqs σ) (dtb : List FdtNode) (deviceList : List PlatformDevice)
    (ofNodeOffset n : Nat) (k : Nat) (irqc : RegisteredChip σ) (hwirq : BitVec 32) : Prop where
  entry : ∃ data, fdtInterruptsExtended dtb ofNodeOffset = some data ∧ n < data.length / 8 ∧
    hwirq = fdt32 data (2 * n + 1) ∧
    ∃ offset pdev, fdtNodeOffsetByPhandle dtb (fdt32 data (2 * n)) = some offset ∧
      platformDeviceFindByOf deviceList offset = some pdev ∧ irqc.pdev = some pdev
  chip : s.irqChipList[k]? = some irqc

/-- A number that is no error is that of the chip and the hardware interrupt, and there is
none for a hardware interrupt that the chip does not have. -/
structure TranslatesBack (s : Irqs σ) (irq : Int) (k : Nat) (irqc : RegisteredChip σ)
    (hwirq : BitVec 32) : Prop where
  back : 0 ≤ irq → findIrqChip s (BitVec.ofInt 32 irq) = some (k, irqc, hwirq)
  outside : ¬ hwirq - irqc.hwirqStart < irqc.irqCount → irq < 0

/-- How far a hardware interrupt is behind the first one of the chip, modulo 2^32. -/
def irqOffset (irqc : RegisteredChip σ) (hwirq : BitVec 32) : Nat :=
  (hwirq - irqc.hwirqStart).toNat

/-- The start of the chip and the offset together are in the negative half of an `int`. -/
def BeyondInt (irqc : RegisteredChip σ) (hwirq : BitVec 32) : Prop :=
  2 ^ 31 ≤ irqc.irqStart.toNat + irqOffset irqc hwirq ∧
    irqc.irqStart.toNat + irqOffset irqc hwirq < 2 ^ 32

/-- The chip that is found under the name of the entry's one gives no `int`, or the number of the
entry's one, which has the hardware interrupt. -/
def Translatable (s : Irqs σ) (irqc : RegisteredChip σ) (hwirq : BitVec 32) : Prop :=
  ∀ found, irqGetChipByName s irqc.name = some found → BeyondInt found hwirq ∨
    irqOffset irqc hwirq < irqc.irqCount.toNat ∧
      irqc.irqStart.toNat + irqOffset irqc hwirq =
        (found.irqStart.toNat + irqOffset found hwirq) % 2 ^ 32

/-! ## Registration -/

/-- The chips lie one behind the other, under the names of their devices. -/
structure Registration (s : Irqs σ) : Prop where
  spans : irqTotal s < 2 ^ 32 →
    s.irqChipList.map irqSpan = spansFrom 0 (s.irqChipList.map fun irqc => irqc.irqCount.toNat)
  irqEnd : s.irqEnd = BitVec.ofNat 32 (irqTotal s)
  names : ∀ irqc ∈ s.irqChipList, ∀ pdev, irqc.pdev = some pdev →
    irqc.name = truncated (irqChipName pdev.name)

theorem Registration.initial (devs : σ) : Registration (.initial devs) :=
  ⟨fun _ => rfl, rfl, by simp [Irqs.initial]⟩

/-- A call leaves the chips alone, or adds one behind them. -/
theorem irqRegisterChip_cases (s : Irqs σ) (irqc : RegisteredChip σ) :
    (irqRegisterChip s irqc).1 = s ∨ ∃ pdev, irqc.pdev = some pdev ∧
      (irqRegisterChip s irqc).1 = { s with
        irqChipList := s.irqChipList ++
          [{ irqc with name := truncated (irqChipName pdev.name), irqStart := s.irqEnd }]
        irqEnd := s.irqEnd + irqc.irqCount } := by
  unfold irqRegisterChip
  cases irqc.pdev with
  | none => exact .inl rfl
  | some pdev =>
      dsimp only
      split_ifs
      · exact .inl rfl
      · exact .inl rfl
      · exact .inr ⟨pdev, rfl, rfl⟩

/-- A new chip takes the numbers behind those of the chips before it. -/
theorem Registration.registerChip {s : Irqs σ} (registration : Registration s)
    (irqc : RegisteredChip σ) : Registration (irqRegisterChip s irqc).1 := by
  obtain same | ⟨pdev, owner, added⟩ := irqRegisterChip_cases s irqc
  · rwa [same]
  · rw [added]
    obtain ⟨spans, irqEnd, names⟩ := registration
    refine ⟨?_, ?_, ?_⟩
    · intro small
      simp only [irqTotal, List.map_append, List.sum_append, List.map_cons, List.map_nil,
        List.sum_singleton] at small
      have before : irqTotal s < 2 ^ 32 := Nat.lt_of_le_of_lt (Nat.le_add_right _ _) small
      have start : s.irqEnd.toNat = irqTotal s := by
        rw [irqEnd, BitVec.toNat_ofNat, Nat.mod_eq_of_lt before]
      simp only [List.map_append, List.map_cons, List.map_nil, spansFrom_concat, spans before,
        irqSpan, start, Nat.zero_add]
      rfl
    · simp [irqTotal, irqEnd, BitVec.ofNat_add]
    · intro chip member pdev' owner'
      rcases List.mem_append.mp member with old | isNew
      · exact names chip old pdev' owner'
      · obtain rfl := List.mem_singleton.mp isNew
        have same : pdev = pdev' := Option.some.inj (owner.symm.trans owner')
        rw [same]

theorem registration_registerChips (devs : σ) (calls : List (RegisteredChip σ)) :
    Registration (registerChips devs calls) := by
  have steps (s : Irqs σ) (start : Registration s) :
      Registration (calls.foldl (fun s irqc => (irqRegisterChip s irqc).1) s) := by
    induction calls generalizing s with
    | nil => exact start
    | cons irqc rest ih => exact ih _ (start.registerChip irqc)
  exact steps _ (.initial devs)

/-! ## Translation -/

variable {s : Irqs σ} {irqc found : RegisteredChip σ} {k : Nat} {hwirq irq : BitVec 32}

theorem inChip_iff (noWrap : irqc.irqStart.toNat + irqc.irqCount.toNat < 2 ^ 32) :
    (irq ≥ irqc.irqStart ∧ irq < irqc.irqStart + irqc.irqCount) ↔
      (irqSpan irqc).Contains irq.toNat := by
  unfold irqSpan Span.Contains
  dsimp only
  bv_omega

/-- The search only goes on to later chips. -/
theorem findIrqChipFrom_le {chips : List (RegisteredChip σ)} {i j : Nat}
    (hit : findIrqChipFrom irq i chips = some (j, irqc, hwirq)) : i ≤ j := by
  induction chips generalizing i with
  | nil => cases hit
  | cons first rest ih =>
      unfold findIrqChipFrom at hit
      split at hit
      · cases hit
        exact Nat.le_refl _
      · exact Nat.le_of_succ_le (ih hit)

/-- Among chips that are apart, the one at a position is found for its numbers alone. -/
theorem findIrqChipFrom_iff {chips : List (RegisteredChip σ)}
    (apart : (chips.map irqSpan).Pairwise Span.Apart)
    (noWrap : ∀ irqc ∈ chips, irqc.irqStart.toNat + irqc.irqCount.toNat < 2 ^ 32)
    (chip : chips[k]? = some irqc) (i : Nat) :
    findIrqChipFrom irq i chips = some (i + k, irqc, hwirq) ↔
      (irqSpan irqc).Contains irq.toNat ∧ hwirq = irqc.hwirqStart + (irq - irqc.irqStart) := by
  induction chips generalizing i k with
  | nil => simp at chip
  | cons first rest ih =>
      obtain ⟨apartFirst, apartRest⟩ := List.pairwise_cons.mp apart
      have noWrapRest : ∀ irqc ∈ rest, irqc.irqStart.toNat + irqc.irqCount.toNat < 2 ^ 32 :=
        fun irqc member => noWrap irqc (List.mem_cons_of_mem _ member)
      have first_iff := @inChip_iff σ first irq (noWrap first List.mem_cons_self)
      unfold findIrqChipFrom
      cases k with
      | zero =>
          obtain rfl : first = irqc := by simpa using chip
          split
          · next hit => simp [first_iff.mp hit, eq_comm]
          · next missed =>
            refine iff_of_false (fun hit => ?_) (fun inside => missed (first_iff.mpr inside.1))
            exact Nat.not_succ_le_self i (findIrqChipFrom_le hit)
      | succ k =>
          have chip' : rest[k]? = some irqc := by simpa using chip
          split
          · next hit =>
            have member : irqSpan irqc ∈ rest.map irqSpan :=
              List.mem_map_of_mem (List.mem_of_getElem? chip')
            refine iff_of_false (by simp) (fun both => ?_)
            exact apartFirst _ member _ (first_iff.mp hit) both.1
          · next missed =>
            rw [← ih apartRest noWrapRest chip' (i + 1), Nat.add_assoc, Nat.add_comm 1 k]

/-- A number of the chip translates back to the hardware interrupt exactly when it is the start
of the chip and the offset together. -/
theorem contains_iff :
    ((irqSpan irqc).Contains irq.toNat ∧ hwirq = irqc.hwirqStart + (irq - irqc.irqStart)) ↔
      irqOffset irqc hwirq < irqc.irqCount.toNat ∧
        irqc.irqStart.toNat + irqOffset irqc hwirq = irq.toNat := by
  unfold irqSpan Span.Contains irqOffset
  dsimp only
  bv_omega

theorem chipIrq_toNat (irqc : RegisteredChip σ) (hwirq : BitVec 32) :
    (chipIrq irqc hwirq).toNat = (irqc.irqStart.toNat + irqOffset irqc hwirq) % 2 ^ 32 := by
  unfold chipIrq irqOffset
  bv_omega

theorem Registration.apart (registration : Registration s) (small : irqTotal s < 2 ^ 32) :
    (s.irqChipList.map irqSpan).Pairwise Span.Apart := by
  rw [registration.spans small]
  exact spansFrom_apart _ _

theorem Registration.noWrap (registration : Registration s) (small : irqTotal s < 2 ^ 32) :
    ∀ irqc ∈ s.irqChipList, irqc.irqStart.toNat + irqc.irqCount.toNat ≤ irqTotal s := by
  intro irqc member
  have inSpans : irqSpan irqc ∈ s.irqChipList.map irqSpan := List.mem_map_of_mem member
  rw [registration.spans small] at inSpans
  have bound := end_le_of_mem_spansFrom inSpans
  rwa [Nat.zero_add] at bound

/-- An entry is translated by the chip that is found under the name of its own. -/
theorem IrqEntry.translated (registration : Registration s) {dtb : List FdtNode}
    {deviceList : List PlatformDevice} {ofNodeOffset n : Nat}
    (entry : IrqEntry s dtb deviceList ofNodeOffset n k irqc hwirq) :
    ∃ found, irqGetChipByName s irqc.name = some found ∧
      platformGetIrq s dtb deviceList ofNodeOffset n = (chipIrq found hwirq).toInt := by
  obtain ⟨⟨data, property, more, rfl, offset, pdev, node, device, owner⟩, chip⟩ := entry
  have member : irqc ∈ s.irqChipList := List.mem_of_getElem? chip
  have name := registration.names irqc member pdev owner
  have listed : (irqGetChipByName s irqc.name).isSome = true := by
    unfold irqGetChipByName
    rw [List.find?_isSome]
    exact ⟨irqc, member, by simp⟩
  obtain ⟨found, isFound⟩ := Option.isSome_iff_exists.mp listed
  refine ⟨found, isFound, ?_⟩
  have isFound' := isFound
  rw [name] at isFound'
  simp [platformGetIrq, property, Nat.not_le.mpr more, node, device, isFound']

theorem beyondInt_iff (hwirq : BitVec 32) (below : found.irqStart.toNat < 2 ^ 31) :
    BeyondInt found hwirq ↔ (chipIrq found hwirq).toInt < 0 := by
  have number := chipIrq_toNat found hwirq
  have offset : irqOffset found hwirq < 2 ^ 32 := BitVec.isLt _
  unfold BeyondInt
  rw [BitVec.toInt_eq_toNat_cond]
  split <;> omega

/-- A chip found under its own name translates its sources and those that are no `int`. -/
theorem translatable_own (registration : Registration s) (small : irqTotal s < 2 ^ 31)
    (chip : s.irqChipList[k]? = some irqc) (own : irqGetChipByName s irqc.name = some irqc) :
    Translatable s irqc hwirq ↔
      irqOffset irqc hwirq < irqc.irqCount.toNat ∨ BeyondInt irqc hwirq := by
  have bound := registration.noWrap (by omega) irqc (List.mem_of_getElem? chip)
  unfold Translatable
  rw [own]
  constructor
  · intro translatable
    rcases translatable irqc rfl with negative | inChip
    · exact .inr negative
    · exact .inl inChip.1
  · rintro (inChip | negative) found isFound
    · obtain rfl := Option.some.inj isFound
      exact .inr ⟨inChip, (Nat.mod_eq_of_lt (by omega)).symm⟩
    · obtain rfl := Option.some.inj isFound
      exact .inl negative

/-- The number of a source leads back to it exactly if the source is translatable. -/
theorem TranslatesBack.iff_translatable (registration : Registration s)
    (small : irqTotal s < 2 ^ 31) (chip : s.irqChipList[k]? = some irqc)
    (isFound : irqGetChipByName s irqc.name = some found) :
    TranslatesBack s (chipIrq found hwirq).toInt k irqc hwirq ↔ Translatable s irqc hwirq := by
  have bound := registration.noWrap (by omega)
  have noWrap : ∀ irqc ∈ s.irqChipList, irqc.irqStart.toNat + irqc.irqCount.toNat < 2 ^ 32 :=
    fun irqc member => by have := bound irqc member; omega
  have number := chipIrq_toNat found hwirq
  have back : findIrqChip s (chipIrq found hwirq) = some (k, irqc, hwirq) ↔
      irqOffset irqc hwirq < irqc.irqCount.toNat ∧ irqc.irqStart.toNat + irqOffset irqc hwirq =
        (found.irqStart.toNat + irqOffset found hwirq) % 2 ^ 32 := by
    have hit : findIrqChipFrom (chipIrq found hwirq) 0 s.irqChipList = some (0 + k, irqc, hwirq) ↔
        _ := findIrqChipFrom_iff (registration.apart (by omega)) noWrap chip 0
    rw [Nat.zero_add, contains_iff, number] at hit
    exact hit
  have isInt : BitVec.ofInt 32 (chipIrq found hwirq).toInt = chipIrq found hwirq :=
    BitVec.ofInt_toInt
  have beyond := beyondInt_iff hwirq
    (Nat.lt_of_le_of_lt (Nat.le_trans (Nat.le_add_right _ _)
      (bound found (List.mem_of_find?_eq_some isFound))) small)
  constructor
  · intro translates found' isFound'
    obtain rfl : found = found' := Option.some.inj (isFound.symm.trans isFound')
    by_cases negative : BeyondInt found hwirq
    · exact .inl negative
    · have number := translates.back (Int.not_lt.mp fun below => negative (beyond.mpr below))
      rw [isInt] at number
      exact .inr (back.mp number)
  · intro translatable
    rcases translatable found isFound with negative | inChip
    · have below := beyond.mp negative
      exact ⟨fun positive => absurd positive (Int.not_le.mpr below), fun _ => below⟩
    · refine ⟨fun _ => by rw [isInt]; exact back.mpr inChip, fun outside => absurd ?_ outside⟩
      exact BitVec.lt_def.mpr inChip.1

/-- The chips have disjoint numbers, and an entry is translated back exactly when the chip that
is found under the name of its own gives it no `int`, or its number. Where that is the entry's
chip, it has to have the hardware interrupt, or to give it no `int`. -/
theorem irq_numbers (devs : σ) (calls : List (RegisteredChip σ))
    (small : irqTotal (registerChips devs calls) < 2 ^ 31) :
    ((registerChips devs calls).irqChipList.map irqSpan).Pairwise Span.Apart ∧
    ∀ dtb deviceList ofNodeOffset n k irqc hwirq,
      IrqEntry (registerChips devs calls) dtb deviceList ofNodeOffset n k irqc hwirq →
      (TranslatesBack (registerChips devs calls)
        (platformGetIrq (registerChips devs calls) dtb deviceList ofNodeOffset n) k irqc hwirq ↔
          Translatable (registerChips devs calls) irqc hwirq) ∧
      (irqGetChipByName (registerChips devs calls) irqc.name = some irqc →
        (Translatable (registerChips devs calls) irqc hwirq ↔
          irqOffset irqc hwirq < irqc.irqCount.toNat ∨ BeyondInt irqc hwirq)) := by
  have registration := registration_registerChips devs calls
  refine ⟨registration.apart (by omega), ?_⟩
  intro dtb deviceList ofNodeOffset n k irqc hwirq entry
  obtain ⟨found, isFound, translated⟩ := entry.translated registration
  rw [translated]
  refine ⟨TranslatesBack.iff_translatable registration small entry.chip isFound, ?_⟩
  exact translatable_own registration small entry.chip

/-- Two controllers with the sources from 1 on. -/
def twoPlics : List (RegisteredChip Unit) :=
  [⟨fun _ s => s, 1, 1023, 0, [], [], some ⟨16, [0x61]⟩⟩,
    ⟨fun _ s => s, 1, 1023, 0, [], [], some ⟨32, [0x62]⟩⟩]

/-- Their nodes, and one with the source 0 of the second controller and its source 5. -/
def twoPlicTree : List FdtNode :=
  [⟨16, 1, none⟩, ⟨32, 2, none⟩,
    ⟨48, 0, some [0, 0, 0, 2, 0, 0, 0, 0, 0, 0, 0, 2, 0, 0, 0, 5]⟩]

def secondPlic : RegisteredChip Unit :=
  ⟨fun _ s => s, 1, 1023, 1023, [0x69, 0x72, 0x71, 0x3a, 0x62], [], some ⟨32, [0x62]⟩⟩

theorem twoPlics_entry (n : Nat) (more : n < 2) :
    IrqEntry (registerChips () twoPlics) twoPlicTree [⟨16, [0x61]⟩, ⟨32, [0x62]⟩] 48 n 1 secondPlic
      (BitVec.ofNat 32 (5 * n)) := by
  have both : n = 0 ∨ n = 1 := by omega
  refine ⟨⟨_, rfl, more, ?_, 32, ⟨32, [0x62]⟩, ?_, rfl, rfl⟩, rfl⟩
  · rcases both with rfl | rfl <;> rfl
  · rcases both with rfl | rfl <;> rfl

theorem irq_numbers_twoPlics :
    ((registerChips () twoPlics).irqChipList.map irqSpan).Pairwise Span.Apart ∧
      TranslatesBack (registerChips () twoPlics) (platformGetIrq (registerChips () twoPlics)
        twoPlicTree [⟨16, [0x61]⟩, ⟨32, [0x62]⟩] 48 1) 1 secondPlic 5 := by
  obtain ⟨apart, translates⟩ := irq_numbers () twoPlics (by decide)
  obtain ⟨back, own⟩ := translates _ _ _ _ _ _ _ (twoPlics_entry 1 (by decide))
  exact ⟨apart, back.mpr ((own rfl).mpr (.inl (by decide)))⟩

/-- The source 0 of the second controller gets the number of the last source of the first. -/
theorem irq_numbers_collide :
    IrqEntry (registerChips () twoPlics) twoPlicTree [⟨16, [0x61]⟩, ⟨32, [0x62]⟩] 48 0 1 secondPlic
        0 ∧
      platformGetIrq (registerChips () twoPlics) twoPlicTree [⟨16, [0x61]⟩, ⟨32, [0x62]⟩] 48 0 =
        1022 ∧
      (findIrqChip (registerChips () twoPlics) 1022).map (fun hit => (hit.1, hit.2.2)) =
        some (0, 1023) ∧
      ¬ TranslatesBack (registerChips () twoPlics) (platformGetIrq (registerChips () twoPlics)
        twoPlicTree [⟨16, [0x61]⟩, ⟨32, [0x62]⟩] 48 0) 1 secondPlic 0 := by
  refine ⟨twoPlics_entry 0 (by decide), rfl, rfl, fun translates => ?_⟩
  exact absurd (translates.outside (by decide)) (by decide)

end Zsbl.Drivers
