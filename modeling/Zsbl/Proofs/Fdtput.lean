/-
Module: Zsbl.Proofs.Fdtput
Purpose: What libfdt promises, and that a property is rewritten in a copy that has all of the
  device tree.
Trusted boundary: the promises of libfdt are a hypothesis
Main exports:
  components, FdtStore.Valid, Libfdt.Correct, Rewritten, ofModifyProp_rewrites
-/
import Zsbl.Lib.DeviceTree
import Zsbl.Libs.FdtRw

namespace Zsbl.Libs

open Zsbl.Lib

/-! ## libfdt -/

/-- The components of a path. -/
def components (path : List UInt8) : List (List UInt8) := (path.splitOn 0x2f).filter (· ≠ [])

/-- A path from the root and a name that are strings, and lengths that are an `int`. -/
structure FdtStore.Valid (store : FdtStore) : Prop where
  absolute : store.path.head? = some 0x2f
  isString : 0 ∉ store.name
  nameShort : store.name.length + 1 < 2 ^ 31
  short : store.value.length + 15 < 2 ^ 31

section

variable {β : Type} (lib : Libfdt β) (tree : β → Option DtNode)

/-- Two blobs with the same tree at the same offsets. -/
def Alike (first second : β) : Prop :=
  tree second = tree first ∧ lib.pathOffset second = lib.pathOffset first

/-- The second blob has the tree of the first one with one property of one node changed. -/
def Rewritten (nodeName propName value : List UInt8) (first second : β) : Prop :=
  ∃ root address, tree first = some root ∧ root.pathOffset (components nodeName) = some address ∧
    tree second = some (root.update (·.setProp propName value) address)

/-- What libfdt does with blobs that are all there, where `tree` reads the tree of a blob. Nodes
are those of paths from the root: another path starts with an alias. -/
structure Libfdt.Correct : Prop where
  copy_alike : ∀ blob size, (lib.totalsize blob).toNat ≤ size →
    Alike lib tree blob (lib.copy blob size)
  copy_totalsize : ∀ blob size, (lib.totalsize blob).toNat ≤ size →
    lib.totalsize (lib.copy blob size) = lib.totalsize blob
  getProperty_error : ∀ blob path name err, path.head? = some 0x2f →
    0 ≤ lib.pathOffset blob path →
    lib.getProperty blob (lib.pathOffset blob path) name = .error err → -FDT_ERR_MAX ≤ err
  setprop_done : ∀ blob (store : FdtStore), store.Valid → 0 ≤ lib.pathOffset blob store.path →
    (lib.setprop blob (lib.pathOffset blob store.path) store.name store.value).2 = 0 →
    Rewritten tree store.path store.name store.value blob
      (lib.setprop blob (lib.pathOffset blob store.path) store.name store.value).1
  setprop_failed : ∀ blob (store : FdtStore), store.Valid → 0 ≤ lib.pathOffset blob store.path →
    (lib.setprop blob (lib.pathOffset blob store.path) store.name store.value).2 ≠ 0 →
    Alike lib tree blob
      (lib.setprop blob (lib.pathOffset blob store.path) store.name store.value).1
  setprop_totalsize : ∀ blob node name value,
    lib.totalsize (lib.setprop blob node name value).1 = lib.totalsize blob
  addSubnode_totalsize : ∀ blob parent name,
    lib.totalsize (lib.addSubnode blob parent name).1 = lib.totalsize blob
  appendpropAddrrange_totalsize : ∀ blob parent node name addr size,
    lib.totalsize (lib.appendpropAddrrange blob parent node name addr size).1 =
      lib.totalsize blob
  openInto_alike : ∀ first second (size : Int), size < INT32_MAX →
    (lib.openInto first second size).2 = 0 →
    Alike lib tree first (lib.openInto first second size).1
  openInto_totalsize : ∀ first second size, (lib.openInto first second size).2 = 0 →
    lib.totalsize (lib.openInto first second size).1 = BitVec.ofInt 32 size
  openInto_failed : ∀ first second size, (lib.openInto first second size).2 ≠ 0 →
    (lib.openInto first second size).1 = second
  pack_tree : ∀ blob, tree (lib.pack blob) = tree blob
  pack_totalsize : ∀ blob,
    (lib.totalsize (lib.pack blob)).toNat ≤ (lib.totalsize blob).toNat
  overlayApply_totalsize : ∀ blob overlay,
    lib.totalsize (lib.overlayApply blob overlay).1 = lib.totalsize blob

variable {lib tree}

theorem Alike.refl (blob : β) : Alike lib tree blob blob := ⟨rfl, rfl⟩

theorem Alike.trans {first second third : β} (one : Alike lib tree first second)
    (two : Alike lib tree second third) : Alike lib tree first third :=
  ⟨two.1.trans one.1, two.2.trans one.2⟩

theorem Rewritten.of_alike {nodeName propName value : List UInt8} {first second third : β}
    (same : tree second = tree first)
    (rewritten : Rewritten tree nodeName propName value second third) :
    Rewritten tree nodeName propName value first third := by
  unfold Rewritten at rewritten ⊢
  rwa [same] at rewritten

/-! ## Copies -/

variable {heap : Heap}

theorem sizeT_natCast {len : Nat} (small : len < 2 ^ 63) : sizeT len = len := by
  unfold sizeT
  rw [BitVec.ofInt_natCast, BitVec.toNat_ofNat]
  omega

/-- A copy of as many bytes as the blob has is all of it. -/
theorem utilfdtRead_whole (correct : lib.Correct tree) {blob : β} {len : Nat}
    (fits : (lib.totalsize blob).toNat ≤ len) (small : len < 2 ^ 63)
    (granted : heap.grants .blob = true) :
    ∃ block, utilfdtRead lib heap blob len = some block ∧ block.size = len ∧
      Alike lib tree blob block.blob ∧ lib.totalsize block.blob = lib.totalsize blob := by
  refine ⟨⟨len, lib.copy blob len⟩, ?_, rfl, correct.copy_alike blob len fits,
    correct.copy_totalsize blob len fits⟩
  unfold utilfdtRead malloc
  rw [if_pos ⟨granted, small⟩]
  rfl

theorem eq_zero_of_flag {err : Int} (done : (if err = 0 then 0 else -1 : Int) = 0) : err = 0 := by
  by_contra failed
  rw [if_neg failed] at done
  cases done

/-- At the node of a path the property is written, or the tree stays. -/
theorem Block.setprop_whole (correct : lib.Correct tree) {block : Block β}
    (whole : block.Whole lib) {store : FdtStore} (valid : store.Valid) {node : Int}
    (isNode : lib.pathOffset block.blob store.path = node) (found : 0 ≤ node) :
    ∃ stored, block.setprop lib node store.name store.value = some stored ∧
      stored.1.Whole lib ∧ lib.totalsize stored.1.blob = lib.totalsize block.blob ∧
      (stored.2 = 0 →
        Rewritten tree store.path store.name store.value block.blob stored.1.blob) ∧
      (stored.2 ≠ 0 → Alike lib tree block.blob stored.1.blob) := by
  subst isNode
  refine ⟨_, if_pos whole, ?_, correct.setprop_totalsize _ _ _ _,
    correct.setprop_done _ store valid found, correct.setprop_failed _ store valid found⟩
  unfold Block.Whole
  rw [correct.setprop_totalsize]
  exact whole

theorem ALIGN_bounds (x : Int) : x ≤ ALIGN x ∧ ALIGN x ≤ x + 3 := by
  unfold ALIGN FDT_TAGSIZE
  omega

theorem ALIGN_mono {x y : Int} (le : x ≤ y) : ALIGN x ≤ ALIGN y := by
  unfold ALIGN FDT_TAGSIZE
  omega

/-- No more than the header, the name, the value and what aligns them is asked for. -/
theorem propertyDelta_bounds (correct : lib.Correct tree) {block : Block β} {path : List UInt8}
    (absolute : path.head? = some 0x2f) {node : Int}
    (isNode : lib.pathOffset block.blob path = node) (found : 0 ≤ node)
    (name : List UInt8) (newlen : Nat) :
    0 ≤ propertyDelta lib block node name newlen ∧
      propertyDelta lib block node name newlen ≤ name.length + newlen + 32 := by
  subst isNode
  have newBounds := ALIGN_bounds newlen
  unfold propertyDelta sizeofFdtProperty
  cases there : lib.getProperty block.blob (lib.pathOffset block.blob path) name with
  | ok data =>
      have oldBounds := ALIGN_bounds data.length
      dsimp only
      split
      · next longer =>
        have mono := ALIGN_mono (Int.le_of_lt longer)
        omega
      · omega
  | error err =>
      -- the least error aligns to -16
      have least := ALIGN_mono (correct.getProperty_error _ _ _ _ absolute found there)
      have isLeast : ALIGN (-FDT_ERR_MAX) = -16 := rfl
      dsimp only
      split
      · next longer =>
        have mono := ALIGN_mono (Int.le_of_lt longer)
        omega
      · omega

/-- As many bytes as the blob has and those that are asked for, as `int` and as `size_t`. -/
theorem newSz_eq {total : BitVec 32} {extra : Nat} (small : total.toNat + extra < 2 ^ 31) :
    (total + BitVec.ofInt 32 extra).toInt = (total.toNat + extra : Nat) ∧
      sizeT (total.toNat + extra : Nat) = total.toNat + extra := by
  refine ⟨?_, sizeT_natCast (by omega)⟩
  rw [BitVec.ofInt_natCast, BitVec.toInt_eq_toNat_of_lt, BitVec.toNat_add, BitVec.toNat_ofNat]
  · omega
  · rw [BitVec.toNat_add, BitVec.toNat_ofNat]
    omega

/-- The blob is copied to a block with so many bytes more, and is moved there in all of them. -/
theorem reallocFdt_moves (correct : lib.Correct tree) {block : Block β}
    (whole : block.Whole lib) {extra : Nat}
    (small : (lib.totalsize block.blob).toNat + extra < 2 ^ 31)
    (granted : heap.grants .larger = true) :
    ∃ blob size, size = (lib.totalsize block.blob).toNat + extra ∧
      reallocFdt lib heap block extra = some ⟨size, (lib.openInto blob blob size).1⟩ ∧
      Alike lib tree block.blob blob ∧ lib.totalsize blob = lib.totalsize block.blob := by
  generalize isSize : (lib.totalsize block.blob).toNat + extra = size at small
  have inCopy : (lib.totalsize block.blob).toNat ≤ min block.size size :=
    Nat.le_min.mpr ⟨whole, isSize ▸ Nat.le_add_right _ _⟩
  have copiedTotal := correct.copy_totalsize _ _ inCopy
  refine ⟨lib.copy block.blob (min block.size size), size, rfl, ?_,
    correct.copy_alike _ _ inCopy, copiedTotal⟩
  have copiedWhole : Block.Whole lib ⟨size, lib.copy block.blob (min block.size size)⟩ := by
    unfold Block.Whole
    rw [copiedTotal]
    exact Nat.le_trans inCopy (Nat.min_le_right _ _)
  obtain ⟨newSz, asked⟩ := newSz_eq (isSize.symm ▸ small)
  rw [isSize] at newSz asked
  unfold reallocFdt malloc
  rw [if_pos whole]
  dsimp only
  rw [newSz, asked, if_pos ⟨granted, by omega⟩]
  exact if_pos copiedWhole

/-- A blob that is moved to a larger block stays whole. -/
theorem reallocFdt_whole (correct : lib.Correct tree) {block : Block β}
    (whole : block.Whole lib) {delta : Int} (positive : 0 ≤ delta)
    (small : (lib.totalsize block.blob).toNat + delta < INT32_MAX)
    (granted : heap.grants .larger = true) :
    ∃ larger, reallocFdt lib heap block delta = some larger ∧ larger.Whole lib ∧
      (larger.size : Int) = (lib.totalsize block.blob).toNat + delta ∧
      Alike lib tree block.blob larger.blob := by
  unfold INT32_MAX at small
  obtain ⟨extra, rfl⟩ := Int.eq_ofNat_of_zero_le positive
  obtain ⟨blob, size, isSize, result, copied, isTotal⟩ :=
    reallocFdt_moves correct whole (show _ + extra < 2 ^ 31 by omega) granted
  have sum : (size : Int) = (lib.totalsize block.blob).toNat + extra := by omega
  by_cases done : (lib.openInto blob blob size).2 = 0
  · have movedTotal := correct.openInto_totalsize _ _ _ done
    have isInt : (size : Int) < INT32_MAX := by
      unfold INT32_MAX
      omega
    refine ⟨_, result, ?_, sum, copied.trans (correct.openInto_alike _ _ _ isInt done)⟩
    unfold Block.Whole
    rw [movedTotal, BitVec.ofInt_natCast, BitVec.toNat_ofNat]
    exact Nat.mod_le _ _
  · rw [correct.openInto_failed _ _ _ done] at result
    refine ⟨_, result, ?_, sum, copied⟩
    unfold Block.Whole
    rw [isTotal, isSize]
    exact Nat.le_add_right _ _

/-- The blob is enlarged by what the property takes. -/
theorem reallocProperty_whole (correct : lib.Correct tree) {block : Block β}
    (whole : block.Whole lib) {path : List UInt8} (absolute : path.head? = some 0x2f)
    {node : Int} (isNode : lib.pathOffset block.blob path = node) (found : 0 ≤ node)
    (name : List UInt8) (newlen : Nat)
    (small : (lib.totalsize block.blob).toNat + name.length + newlen + 35 < 2 ^ 31)
    (granted : heap.grants .larger = true) :
    ∃ larger, reallocProperty lib heap block node name newlen = some larger ∧
      larger.Whole lib ∧
      larger.size ≤ (lib.totalsize block.blob).toNat + name.length + newlen + 35 ∧
      Alike lib tree block.blob larger.blob := by
  have bounds := propertyDelta_bounds correct absolute isNode found name newlen
  have fits : ((lib.totalsize block.blob).toNat : Int) +
      propertyDelta lib block node name newlen < INT32_MAX := by
    unfold INT32_MAX
    omega
  obtain ⟨larger, isLarger, largerWhole, isSize, same⟩ :=
    reallocFdt_whole correct whole bounds.1 fits granted
  refine ⟨larger, ?_, largerWhole, by omega, same⟩
  unfold reallocProperty
  rw [if_pos whole]
  exact isLarger

/-- The property is rewritten in the block, or not at all. -/
theorem storeKeyValue_whole (correct : lib.Correct tree) {block : Block β}
    (whole : block.Whole lib) {store : FdtStore} (valid : store.Valid)
    (small : (lib.totalsize block.blob).toNat + store.name.length + store.value.length + 35 <
      2 ^ 31)
    (granted : heap.grants .larger = true) :
    ∃ stored, storeKeyValue lib heap block store.path store.name store.value =
        some stored ∧
      stored.1.Whole lib ∧
      (lib.totalsize stored.1.blob).toNat ≤
        (lib.totalsize block.blob).toNat + store.name.length + store.value.length + 35 ∧
      (stored.2 = 0 →
        Rewritten tree store.path store.name store.value block.blob stored.1.blob) := by
  by_cases missing : lib.pathOffset block.blob store.path < 0
  · refine ⟨(block, -1), ?_, whole, ?_, fun done => ?_⟩
    · unfold storeKeyValue
      rw [if_pos whole]
      exact if_pos missing
    · dsimp only
      omega
    · cases done
  have found : 0 ≤ lib.pathOffset block.blob store.path := Int.not_lt.mp missing
  generalize isNode : lib.pathOffset block.blob store.path = node at found missing
  obtain ⟨first, isFirst, firstWhole, firstTotal, firstDone, firstFailed⟩ :=
    Block.setprop_whole correct whole valid isNode found
  by_cases noSpace : first.2 = -FDT_ERR_NOSPACE
  · -- the block is made larger, and the property is written to it at the same offset
    have unchanged := firstFailed (by rw [noSpace]; decide)
    rw [← firstTotal] at small
    obtain ⟨larger, isLarger, largerWhole, isSize, same⟩ :=
      reallocProperty_whole correct firstWhole valid.absolute
        (by rw [unchanged.2, isNode]) found store.name store.value.length small granted
    have sameNode : lib.pathOffset larger.blob store.path = node := by
      rw [same.2, unchanged.2, isNode]
    obtain ⟨second, isSecond, secondWhole, secondTotal, secondDone, -⟩ :=
      Block.setprop_whole correct largerWhole valid sameNode found
    refine ⟨(second.1, if second.2 = 0 then 0 else -1), ?_, secondWhole, ?_, fun done => ?_⟩
    · unfold storeKeyValue
      rw [if_pos whole]
      dsimp only
      rw [isNode, if_neg missing, isFirst]
      simp only [Option.bind_eq_bind, Option.bind_some, noSpace, if_true, isLarger, isSecond]
    · rw [secondTotal, ← firstTotal]
      exact Nat.le_trans largerWhole isSize
    · exact (secondDone (eq_zero_of_flag done)).of_alike (same.1.trans unchanged.1)
  · refine ⟨(first.1, if first.2 = 0 then 0 else -1), ?_, firstWhole, ?_, fun done => ?_⟩
    · unfold storeKeyValue
      rw [if_pos whole]
      dsimp only
      rw [isNode, if_neg missing, isFirst]
      simp only [Option.bind_eq_bind, Option.bind_some, noSpace, if_false]
    · rw [firstTotal]
      omega
    · exact firstDone (eq_zero_of_flag done)

theorem utilfdtWrite_whole (correct : lib.Correct tree) {block : Block β}
    (whole : block.Whole lib) :
    ∃ blob, utilfdtWrite lib block = some blob ∧ tree blob = tree block.blob ∧
      (lib.totalsize blob).toNat ≤ (lib.totalsize block.blob).toNat := by
  refine ⟨_, if_pos whole, ?_, ?_⟩
  · rw [(correct.copy_alike _ _ (Nat.le_refl _)).1, correct.pack_tree]
  · rw [correct.copy_totalsize _ _ (Nat.le_refl _)]
    exact correct.pack_totalsize _

/-- What is stored in the block is written back if that succeeded. -/
theorem ofModifyProp_eq {blob : β} {len : Int} {nodeName propName value buf : List UInt8}
    {propType : PropType} {block : Block β} {stored : Block β × Int}
    (isBlock : utilfdtRead lib heap blob (sizeT len) = some block)
    (granted : heap.grants .store = true) (isBuf : storeBuf propType heap.fresh value = some buf)
    (isStored : storeKeyValue lib heap block nodeName propName buf = some stored) :
    ofModifyProp lib heap blob len nodeName propName value propType =
      if stored.2 ≠ 0 then some (blob, -1)
      else (utilfdtWrite lib stored.1).map fun blob' => (blob', 0) := by
  unfold ofModifyProp
  rw [isBlock]
  simp only [Option.bind_eq_bind, Option.bind_some, granted, Bool.true_eq_false, and_false,
    if_false, isBuf, isStored]
  split <;> cases utilfdtWrite lib stored.1 <;> rfl

/-- A rewritten tree comes back, in not much more space, or the old one. -/
theorem ofModifyProp_rewrites (correct : lib.Correct tree) {blob : β} {len : Int}
    {nodeName propName value buf : List UInt8} {propType : PropType}
    (valid : (⟨nodeName, propName, buf⟩ : FdtStore).Valid)
    (isBuf : storeBuf propType heap.fresh value = some buf)
    (fits : (lib.totalsize blob).toNat ≤ len) (isInt : len < 2 ^ 31)
    (small : (lib.totalsize blob).toNat + propName.length + buf.length + 35 < 2 ^ 31)
    (granted : ∀ request, heap.grants request = true) :
    (∃ block, utilfdtRead lib heap blob (sizeT len) = some block ∧
      (lib.totalsize blob).toNat ≤ block.size) ∧
    ∃ blob' err, ofModifyProp lib heap blob len nodeName propName value propType =
        some (blob', err) ∧
      (lib.totalsize blob').toNat ≤
        (lib.totalsize blob).toNat + propName.length + buf.length + 35 ∧
      (err = 0 → Rewritten tree nodeName propName buf blob blob') := by
  obtain ⟨size, rfl⟩ := Int.eq_ofNat_of_zero_le (show 0 ≤ len by omega)
  have inside : (lib.totalsize blob).toNat ≤ size := by omega
  obtain ⟨block, isBlock, isSize, copied, isTotal⟩ :=
    utilfdtRead_whole correct inside (show size < 2 ^ 63 by omega) (granted .blob)
  rw [← sizeT_natCast (show size < 2 ^ 63 by omega)] at isBlock
  have whole : block.Whole lib := by
    unfold Block.Whole
    rw [isTotal, isSize]
    exact inside
  rw [← isTotal] at small
  obtain ⟨stored, isStored, storedWhole, storedTotal, written⟩ :=
    storeKeyValue_whole correct whole valid small (granted .larger)
  refine ⟨⟨block, isBlock, by rw [isSize]; exact inside⟩, ?_⟩
  have rewrites := ofModifyProp_eq isBlock (granted .store) isBuf isStored
  by_cases failed : stored.2 ≠ 0
  · refine ⟨blob, -1, by rw [rewrites, if_pos failed], by omega, fun done => ?_⟩
    cases done
  · obtain ⟨blob', isWritten, sameTree, less⟩ := utilfdtWrite_whole correct storedWhole
    refine ⟨blob', 0, by rw [rewrites, if_neg failed, isWritten]; rfl, ?_, fun _ => ?_⟩
    · rw [← isTotal]
      exact Nat.le_trans less storedTotal
    · obtain ⟨root, address, isRoot, isAddress, isNew⟩ :=
        (written (not_not.mp failed)).of_alike copied.1
      exact ⟨root, address, isRoot, isAddress, sameTree.trans isNew⟩

end

end Zsbl.Libs
