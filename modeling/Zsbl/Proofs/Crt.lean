/-
Module: Zsbl.Proofs.Crt
Purpose: Which calls of sbrk keep the contract of the allocator, and the regions that such
  calls grant.
Trusted boundary: none
Main exports:
  ceil16, SbrkContract, Fits, sbrk_contract_iff, HeapInv, sbrk_regions
-/
import Zsbl.Arch.Crt

namespace Zsbl.Arch

open Zsbl.Lib

variable {layout : HeapLayout} {heap : Heap} {inc : BitVec 64}

/-! ## The contract -/

/-- An increment rounded to 16 bytes. -/
def ceil16 (inc : Int) : Int := (inc + 15) / 16 * 16

/-- Where the heap starts. -/
def HeapLayout.start (layout : HeapLayout) : Nat := (layout.bssEnd.toNat + 15) / 16 * 16

/-- The break that a call finds. -/
def Heap.break' (layout : HeapLayout) (heap : Heap) : Nat := (heap.started layout).heapEnd.toNat

/-- A call whose break stays in the heap moves it, returns the old one and clears the
memory between; another one fails and leaves everything as it is. -/
def SbrkContract (layout : HeapLayout) (heap : Heap) (inc : BitVec 64) : Prop :=
  ∀ ram ret heap' ram', sbrk layout heap ram inc = (ret, heap', ram') →
    let wanted := heap.break' layout + ceil16 inc.toInt
    if layout.start ≤ wanted ∧ wanted ≤ layout.ramEnd.toNat then
      ret.toNat = heap.break' layout ∧ heap'.heapEnd.toNat = wanted ∧
        ∀ address, ram' address =
          if heap.break' layout ≤ address.toNat ∧ address.toNat < wanted then 0 else ram address
    else ret = -1 ∧ heap'.heapEnd.toNat = heap.break' layout ∧ ram' = ram

/-- The break does not go down, and stays in the memory. -/
def Fits (layout : HeapLayout) (heap : Heap) (inc : BitVec 64) : Prop :=
  -16 < inc.toInt ∧ heap.break' layout + ceil16 inc.toInt ≤ layout.ramEnd.toNat

instance : Decidable (Fits layout heap inc) := inferInstanceAs (Decidable (_ ∧ _))

/-- The variables between calls. -/
def Heap.Ready (layout : HeapLayout) (heap : Heap) : Prop :=
  heap.heapStart = 0 ∨
    heap.heapEnd.toNat ≤ layout.ramEnd.toNat ∧ layout.start ≤ heap.heapEnd.toNat

/-! ## One call -/

/-- The sum may wrap around before it is rounded. -/
theorem roundUp_toNat (x : BitVec 64) :
    (roundUp x).toNat = (x.toNat + 15) % 2 ^ 64 / 16 * 16 := by
  have mask : ~~~15#64 = BitVec.allOnes 64 <<< 4 := by decide
  have shifted : roundUp x = (x + 15#64) >>> 4 <<< 4 := by
    rw [BitVec.shiftLeft_ushiftRight, ← mask]
    rfl
  rw [shifted, BitVec.toNat_shiftLeft, BitVec.toNat_ushiftRight, BitVec.toNat_add,
    Nat.shiftRight_eq_div_pow, Nat.shiftLeft_eq, BitVec.toNat_ofNat]
  omega

/-- The rounded increment in 64 bits. -/
theorem roundUp_cases (inc : BitVec 64) :
    -16 < inc.toInt ∧ ((roundUp inc).toNat : Int) = ceil16 inc.toInt ∨
      inc.toInt ≤ -16 ∧ ((roundUp inc).toNat : Int) = ceil16 inc.toInt + 2 ^ 64 := by
  have bound := inc.isLt
  rw [roundUp_toNat, BitVec.toInt_eq_toNat_cond]
  unfold ceil16
  split <;> omega

theorem HeapLayout.start_eq (layout : HeapLayout) :
    (roundUp layout.bssEnd).toNat = layout.start := by
  have inRam := layout.inRam
  have isPhysical := layout.isPhysical
  rw [roundUp_toNat]
  unfold HeapLayout.start
  omega

/-- The break is in the heap. -/
theorem Heap.Ready.break_range (ready : heap.Ready layout) :
    layout.start ≤ heap.break' layout ∧ heap.break' layout ≤ layout.ramEnd.toNat := by
  have inRam := layout.inRam
  have start := layout.start_eq
  unfold Heap.break' Heap.started
  unfold HeapLayout.start at start ⊢
  by_cases fresh : heap.heapStart = 0
  · rw [if_pos fresh]
    dsimp only
    omega
  · obtain ⟨high, low⟩ := ready.resolve_left fresh
    rw [if_neg fresh]
    exact ⟨low, high⟩

/-- Exactly the bytes of the range are cleared. -/
theorem memset_apply (ram : Ram) {s count : BitVec 64} (noWrap : s.toNat + count.toNat < 2 ^ 64)
    (address : BitVec 64) :
    memset ram s count address =
      if s.toNat ≤ address.toNat ∧ address.toNat < s.toNat + count.toNat then 0
      else ram address := by
  have bound := address.isLt
  have inside : address - s < count ↔
      s.toNat ≤ address.toNat ∧ address.toNat < s.toNat + count.toNat := by
    rw [BitVec.lt_def, BitVec.toNat_sub]
    omega
  unfold memset
  simp only [inside]

/-- An increment that fits is granted, at the old break. -/
theorem sbrk_fits (ready : heap.Ready layout) (fits : Fits layout heap inc) (ram : Ram) :
    ∃ heap' ram', sbrk layout heap ram inc = ((heap.started layout).heapEnd, heap', ram') ∧
      heap'.heapStart = (heap.started layout).heapStart ∧
      heap'.heapEnd.toNat = heap.break' layout + ceil16 inc.toInt ∧
      ∀ address, ram' address =
        if heap.break' layout ≤ address.toNat ∧
            address.toNat < heap.break' layout + ceil16 inc.toInt then 0
        else ram address := by
  obtain ⟨low, high⟩ := ready.break_range
  obtain ⟨grows, inside⟩ := fits
  have isPhysical := layout.isPhysical
  have rounded : ((roundUp inc).toNat : Int) = ceil16 inc.toInt := by
    rcases roundUp_cases inc with ⟨-, same⟩ | ⟨shrinks, -⟩
    · exact same
    · omega
  have sum : ((heap.started layout).heapEnd + roundUp inc).toNat =
      heap.break' layout + (roundUp inc).toNat := by
    rw [BitVec.toNat_add]
    apply Nat.mod_eq_of_lt
    show heap.break' layout + (roundUp inc).toNat < 2 ^ 64
    omega
  have below : ¬ (heap.started layout).heapEnd + roundUp inc > layout.ramEnd := by
    rw [gt_iff_lt, BitVec.lt_def, sum]
    omega
  refine ⟨_, _, if_neg below, rfl, by rw [sum]; omega, fun address => ?_⟩
  have noWrap : (heap.started layout).heapEnd.toNat + (roundUp inc).toNat < 2 ^ 64 := by
    show heap.break' layout + (roundUp inc).toNat < 2 ^ 64
    omega
  have upper : (address.toNat : Int) < heap.break' layout + ceil16 inc.toInt ↔
      address.toNat < (heap.started layout).heapEnd.toNat + (roundUp inc).toNat := by
    show _ ↔ address.toNat < heap.break' layout + (roundUp inc).toNat
    omega
  rw [memset_apply ram noWrap]
  simp only [upper]
  rfl

/-- What a call does that does not fit: it moves the break although it fails, or moves it
down and clears what is above. -/
theorem sbrk_not_fits (ready : heap.Ready layout) (outside : ¬ Fits layout heap inc) (ram : Ram) :
    (∃ heap', heap'.heapEnd.toNat ≠ heap.break' layout ∧
      sbrk layout heap ram inc = (-1, heap', ram)) ∨
    ∃ heap' ram', (heap'.heapEnd.toNat : Int) = heap.break' layout + ceil16 inc.toInt ∧
      heap'.heapEnd.toNat < heap.break' layout ∧
      ram' (heap.started layout).heapEnd = 0 ∧
      sbrk layout heap ram inc = ((heap.started layout).heapEnd, heap', ram') := by
  obtain ⟨-, high⟩ := ready.break_range
  have isPhysical := layout.isPhysical
  have sum : ((heap.started layout).heapEnd + roundUp inc).toNat =
      (heap.break' layout + (roundUp inc).toNat) % 2 ^ 64 := BitVec.toNat_add _ _
  have bound := (roundUp inc).isLt
  have range : -2 ^ 63 ≤ inc.toInt ∧ inc.toInt < 2 ^ 63 := ⟨inc.le_toInt, inc.toInt_lt⟩
  have far : -16 < inc.toInt ∧ layout.ramEnd.toNat < heap.break' layout + ceil16 inc.toInt ∨
      inc.toInt ≤ -16 := by
    unfold Fits at outside
    omega
  have cases' := roundUp_cases inc
  have limit : ceil16 inc.toInt < inc.toInt + 16 ∧ inc.toInt ≤ ceil16 inc.toInt ∧
      ceil16 inc.toInt ≤ 2 ^ 63 := by
    unfold ceil16
    omega
  unfold sbrk
  by_cases above : (heap.started layout).heapEnd + roundUp inc > layout.ramEnd
  · refine .inl ⟨_, ?_, if_pos above⟩
    rw [gt_iff_lt, BitVec.lt_def, sum] at above
    show ((heap.started layout).heapEnd + roundUp inc).toNat ≠ _
    rw [sum]
    omega
  · have below := above
    rw [gt_iff_lt, BitVec.lt_def, sum] at below
    have moved : ((heap.break' layout + (roundUp inc).toNat) % 2 ^ 64 : Nat) =
        heap.break' layout + ceil16 inc.toInt := by omega
    refine .inr ⟨_, _, ?_, ?_, ?_, if_neg above⟩
    · rw [← moved, ← sum]
    · show ((heap.started layout).heapEnd + roundUp inc).toNat < _
      rw [sum]
      omega
    · have some : 0#64 < roundUp inc := by
        rw [BitVec.lt_def, BitVec.toNat_zero]
        omega
      simp [memset, some]

/-- A call keeps the contract exactly if the break does not go down and stays in the
memory. -/
theorem sbrk_contract_iff (ready : heap.Ready layout) :
    SbrkContract layout heap inc ↔ Fits layout heap inc := by
  obtain ⟨low, high⟩ := ready.break_range
  have isPhysical := layout.isPhysical
  constructor
  · intro contract
    by_contra outside
    rcases sbrk_not_fits ready outside fun _ => 1 with
      ⟨heap', moved, failed⟩ | ⟨heap', ram', moved, down, cleared, done⟩
    · have kept := contract _ _ _ _ failed
      dsimp only at kept
      split at kept
      · have returned := kept.1
        rw [show (-1 : BitVec 64).toNat = 2 ^ 64 - 1 from rfl] at returned
        omega
      · exact moved kept.2.1
    · have kept := contract _ _ _ _ done
      dsimp only at kept
      split at kept
      · have there := kept.2.2 (heap.started layout).heapEnd
        have above : ¬ ((heap.started layout).heapEnd.toNat : Int) <
            heap.break' layout + ceil16 inc.toInt := by
          rw [← moved]
          have same : (heap.started layout).heapEnd.toNat = heap.break' layout := rfl
          omega
        rw [cleared, if_neg (fun both => above both.2)] at there
        exact absurd there (by decide)
      · have returned := congrArg BitVec.toNat kept.1
        have same : (heap.started layout).heapEnd.toNat = heap.break' layout := rfl
        rw [same, show (-1 : BitVec 64).toNat = 2 ^ 64 - 1 from rfl] at returned
        omega
  · intro fits ram ret heap' ram' called
    obtain ⟨heap₁, ram₁, done, -, moved, cleared⟩ := sbrk_fits ready fits ram
    rw [done] at called
    cases called
    have grows : 0 ≤ ceil16 inc.toInt := by
      have up := fits.1
      unfold ceil16
      omega
    have inside : layout.start ≤ heap.break' layout + ceil16 inc.toInt ∧
        heap.break' layout + ceil16 inc.toInt ≤ layout.ramEnd.toNat := by
      have fit := fits.2
      omega
    dsimp only
    rw [if_pos inside]
    exact ⟨rfl, moved, cleared⟩

/-! ## Runs -/

/-- Between calls that fit, the regions are apart from each other and fill the heap up to
the break. -/
structure HeapInv (layout : HeapLayout) (s : HeapSystem) : Prop where
  ready : s.heap.Ready layout
  apart : s.granted.Pairwise Span.Apart
  inHeap : ∀ address, Covers s.granted address →
    layout.start ≤ address ∧ address < s.heap.break' layout

/-- At first nothing is granted. -/
theorem HeapInv.initial {s : HeapSystem} (start : (heapLts layout).init s) :
    HeapInv layout s := by
  obtain ⟨fresh, none⟩ := start
  constructor
  · rw [fresh]
    exact .inl rfl
  · rw [none]
    exact .nil
  · rw [none]
    intro address covered
    exact absurd covered (covers_nil address)

/-- The variables behind a call that fits. -/
theorem Heap.Ready.started (ready : heap.Ready layout) :
    (heap.started layout).heapStart ≠ 0 ∧ layout.start ≤ heap.break' layout := by
  have start := layout.start_eq
  have behindProgram := layout.behindProgram
  refine ⟨?_, ready.break_range.1⟩
  unfold Heap.started
  by_cases fresh : heap.heapStart = 0
  · rw [if_pos fresh]
    intro zero
    have zero' := congrArg BitVec.toNat zero
    have zero'' : layout.start = 0 := start.symm.trans zero'
    unfold HeapLayout.start at zero''
    omega
  · rw [if_neg fresh]
    exact fresh

/-- An increment that fits keeps the granted regions apart and cleared. -/
theorem HeapInv.step {s s' : HeapSystem} (inv : HeapInv layout s)
    (fits : Fits layout s.heap inc) (taken : (heapLts layout).step s inc s') :
    HeapInv layout s' := by
  cases taken with | sbrk ret heap' ram ram' called
  obtain ⟨_, _, done, sameStart, moved, -⟩ := sbrk_fits inv.ready fits s.ram
  rw [called] at done
  cases done
  obtain ⟨low, high⟩ := inv.ready.break_range
  obtain ⟨notZero, -⟩ := inv.ready.started
  obtain ⟨up, below⟩ := fits
  have grows : 0 ≤ ceil16 inc.toInt := by
    unfold ceil16
    omega
  have isPhysical := layout.isPhysical
  have returned : ¬ (s.heap.started layout).heapEnd = -1 := by
    intro failed
    have toNat := congrArg BitVec.toNat failed
    have same : (s.heap.started layout).heapEnd.toNat = s.heap.break' layout := rfl
    rw [same, show (-1 : BitVec 64).toNat = 2 ^ 64 - 1 from rfl] at toNat
    omega
  have next : heap'.break' layout = heap'.heapEnd.toNat := by
    unfold Heap.break' Heap.started
    rw [if_neg (by rwa [sameStart])]
  have ready : heap'.Ready layout := .inr (by omega)
  have regions : grantedBehind layout s (s.heap.started layout).heapEnd heap' =
      if s.heap.break' layout < heap'.heapEnd.toNat then
        s.granted ++ [⟨s.heap.break' layout, heap'.heapEnd.toNat - s.heap.break' layout⟩]
      else keepBelow heap'.heapEnd.toNat s.granted := if_neg returned
  rw [regions]
  by_cases more : s.heap.break' layout < heap'.heapEnd.toNat
  · rw [if_pos more]
    refine ⟨ready, pairwise_apart_append.mpr ⟨inv.apart, by simp, ?_⟩, ?_⟩
    · intro address old new
      have before := (inv.inHeap address old).2
      simp only [covers_cons, covers_nil, or_false, Span.Contains] at new
      omega
    · intro address covered
      simp only [covers_append, covers_cons, covers_nil, or_false, Span.Contains] at covered
      dsimp only
      rw [next]
      rcases covered with old | new
      · have before := inv.inHeap address old
        omega
      · omega
  · rw [if_neg more]
    refine ⟨ready, keepBelow_apart inv.apart, fun address covered => ?_⟩
    obtain ⟨old, below⟩ := covers_keepBelow covered
    exact ⟨(inv.inHeap address old).1, by rwa [next]⟩

/-- In every run of calls that fit, the regions that are granted are apart from each other
and lie in the heap; and in each state of it a call keeps the contract exactly if it fits. -/
theorem sbrk_regions {s : HeapSystem}
    (reached : (heapLts layout).ReachableWhile (fun s inc => Fits layout s.heap inc) s) :
    s.granted.Pairwise Span.Apart ∧
      (∀ region ∈ s.granted, ∀ address, region.Contains address →
        layout.start ≤ address ∧ address < layout.ramEnd.toNat) ∧
      ∀ inc, SbrkContract layout s.heap inc ↔ Fits layout s.heap inc := by
  have inv : HeapInv layout s := reached.invariant (HeapInv layout)
    (fun s start => HeapInv.initial start)
    (fun s inc s' _ inv fits taken => inv.step fits taken)
  refine ⟨inv.apart, fun region member address inside => ?_, fun inc => ?_⟩
  · obtain ⟨low, high⟩ := inv.inHeap address ⟨region, member, inside⟩
    exact ⟨low, Nat.lt_of_lt_of_le high inv.ready.break_range.2⟩
  · exact sbrk_contract_iff inv.ready

/-- The RAM of sg2042, behind a program of 128 KiB. -/
def sg2042Heap : HeapLayout where
  bssEnd := 0x40020008
  ramEnd := 0x40200000
  behindProgram := by decide
  inRam := by decide
  isPhysical := by decide

/-- The heap before the first call. -/
def untouched : HeapSystem := ⟨⟨0, 0⟩, fun _ => 0, []⟩

/-- The heap behind a first call for 100 bytes. -/
def grown : HeapSystem :=
  let (ret, heap, ram) := sbrk sg2042Heap untouched.heap untouched.ram 100
  ⟨heap, ram, grantedBehind sg2042Heap untouched ret heap⟩

/-- The two calls in a row, and the third that would fail. -/
theorem sbrk_regions_grown :
    grown.granted = [⟨0x40020010, 112⟩] ∧ SbrkContract sg2042Heap grown.heap 0x10000 ∧
      ¬ SbrkContract sg2042Heap grown.heap (-4096) := by
  have first : (heapLts sg2042Heap).step untouched 100 grown :=
    .sbrk _ _ _ _ _ rfl
  have reached : (heapLts sg2042Heap).ReachableWhile
      (fun s inc => Fits sg2042Heap s.heap inc) grown :=
    Lts.ReachableWhile.step (.initial ⟨rfl, rfl⟩) (by decide) first
  obtain ⟨-, -, contract⟩ := sbrk_regions reached
  refine ⟨by decide, (contract _).mpr (by decide), fun kept => ?_⟩
  exact absurd ((contract _).mp kept) (by decide)

/-- A request that the memory is too small for moves the break beyond the memory. -/
theorem failed_sbrk_moves :
    ¬ ∀ (layout : HeapLayout) s, (heapLts layout).Reachable s →
      ∀ inc, SbrkContract layout s.heap inc := by
  intro all
  have contract := all sg2042Heap untouched (.initial ⟨rfl, rfl⟩) 0x300000
  have fits := (sbrk_contract_iff (.inl rfl)).mp contract
  exact absurd fits (by decide)

end Zsbl.Arch
