/-
Module: Zsbl.Proofs.FdtBlob
Purpose: lib/fdt on blobs with a tree is a libfdt as its callers rely on it.
Trusted boundary: none
Main exports:
  setprop_totalsize, FdtBlob, imageFdt, imageFdt_correct
-/
import Zsbl.Proofs.FdtStore
import Zsbl.Proofs.FdtUnique

namespace Zsbl.Libs

open Zsbl.Lib

/-- A splice that fails leaves the blob alone. -/
theorem spliceStruct_failed {fdt : List UInt8} {p : Nat} {oldlen newlen : Int}
    (failed : (fdtSpliceStruct fdt p oldlen newlen).2 ≠ 0) :
    (fdtSpliceStruct fdt p oldlen newlen).1 = fdt := by
  have alone : (fdtSplice fdt p oldlen newlen).2 ≠ 0 →
      (fdtSplice fdt p oldlen newlen).1 = fdt := by
    intro failed
    unfold fdtSplice at failed ⊢
    dsimp only at failed ⊢
    split_ifs at failed ⊢ <;> first | rfl | exact absurd rfl failed
  unfold fdtSpliceStruct at failed ⊢
  dsimp only at failed ⊢
  split at failed
  · next failed' =>
    rw [if_pos failed']
    exact alone failed'
  · exact absurd rfl failed

/-! ## The start of the header -/

/-- The magic number, the total size and the offset of the structure are these bytes. -/
def Front (front fdt : List UInt8) : Prop := 12 ≤ fdt.length ∧ fdt.take 12 = front

section

variable {front fdt : List UInt8} (starts : Front front fdt)

include starts

/-- Bytes behind the first fields of the header are overwritten. -/
theorem Front.overwrite {position : Nat} (behind : 12 ≤ position) (part : List UInt8) :
    Front front (overwrite fdt position part) := by
  obtain ⟨long, isFront⟩ := starts
  have taken : 12 ≤ (fdt.take position).length := by
    rw [List.length_take]
    omega
  unfold Lib.overwrite
  rw [List.append_assoc]
  refine ⟨by rw [List.length_append]; omega, ?_⟩
  rw [List.take_append_of_le_length taken, List.take_take, Nat.min_eq_left behind, isFront]

theorem Front.totalsize : fdtTotalsize fdt = bigEndian ((front.drop 4).take 4) := by
  unfold fdtTotalsize fdt32
  rw [← starts.2, List.drop_take, List.take_take]
  rfl

theorem Front.offDtStruct : fdtOffDtStruct fdt = bigEndian ((front.drop 8).take 4) := by
  unfold fdtOffDtStruct fdt32
  rw [← starts.2, List.drop_take, List.take_take]
  rfl

/-- So they are by a splice. -/
theorem Front.splice {splicepoint : Nat} {newlen : Int} (behind : 12 ≤ splicepoint)
    (positive : 0 ≤ newlen) (oldlen : Int) :
    Front front (fdtSplice fdt splicepoint oldlen newlen).1 := by
  unfold fdtSplice
  dsimp only
  split
  · exact starts
  · split
    · exact starts
    · split
      · exact starts
      · exact starts.overwrite (by omega) _

/-- A splice of the structure block keeps the front too. -/
theorem Front.spliceStruct {splicepoint : Nat} {newlen : Int} (behind : 12 ≤ splicepoint)
    (positive : 0 ≤ newlen) (oldlen : Int) :
    Front front (fdtSpliceStruct fdt splicepoint oldlen newlen).1 := by
  have spliced := starts.splice behind positive oldlen
  unfold fdtSpliceStruct
  dsimp only
  split
  · exact spliced
  · exact (spliced.overwrite (by decide) _).overwrite (by decide) _

theorem Front.delLastString (s : List UInt8) : Front front (fdtDelLastString fdt s) :=
  starts.overwrite (by decide) _

/-- Adding a string keeps the front. -/
theorem Front.findAddString (strings : 12 ≤ fdtOffDtStrings fdt) {s : List UInt8}
    (short : s.length + 1 < 2 ^ 31) : Front front (fdtFindAddString fdt s).1 := by
  have spliced : Front front (fdtSpliceString fdt (wrapInt (s.length + 1))).1 := by
    have positive : 0 ≤ wrapInt (s.length + 1 : Nat) := by
      rw [wrapInt_of_lt (Int.natCast_nonneg _) (by omega)]
      exact Int.natCast_nonneg _
    have moved := starts.splice
      (show 12 ≤ fdtOffDtStrings fdt + fdtSizeDtStrings fdt from
        Nat.le_add_right_of_le strings) positive 0
    unfold fdtSpliceString
    dsimp only
    split
    · exact moved
    · exact moved.overwrite (by decide) _
  unfold fdtFindAddString
  dsimp only
  split
  · exact starts
  · split
    · exact spliced
    · exact spliced.overwrite (Nat.le_add_right_of_le strings) _

end

/-! ## Properties -/

section

variable {front fdt : List UInt8} {offset : Int} {name : List UInt8} {len : Nat}
  (starts : Front front fdt) (struct : 12 ≤ fdtOffDtStruct fdt) (short : len + 15 < 2 ^ 31)

include starts struct short

/-- Resizing a property keeps the front, and the property is behind it. -/
theorem Front.resizeProperty {bytes : List UInt8} {there : Except Int Nat}
    (resized : fdtResizeProperty fdt offset name len = some (bytes, there)) :
    Front front bytes ∧ (∀ prop, there = .ok prop → 12 ≤ prop) ∧
      ∀ err, there = .error err → bytes = fdt := by
  have positive : 0 ≤ fdtTagAlign len := by
    rw [FdtImage.tagAlign_natCast (by omega)]
    exact Int.natCast_nonneg _
  unfold fdtResizeProperty at resized
  cases found : fdtGetProperty fdt offset name with
  | none =>
      rw [found] at resized
      cases resized
  | some property =>
      rw [found, Option.bind_eq_bind, Option.bind_some] at resized
      cases property with
      | error oldlen =>
          obtain ⟨rfl, rfl⟩ := Prod.mk.inj (Option.some.inj resized)
          exact ⟨starts, nofun, fun _ _ => rfl⟩
      | ok position =>
          have behind : 12 ≤ fdtPropPosition fdt position := by
            unfold fdtPropPosition
            omega
          have spliced := starts.spliceStruct
            (show 12 ≤ fdtPropPosition fdt position + 12 from Nat.le_add_left _ _) positive
            (fdtTagAlign (wrapInt (fdt32 fdt (fdtPropPosition fdt position + 4))))
          dsimp only at resized
          split at resized
          · next failed =>
            obtain ⟨rfl, rfl⟩ := Prod.mk.inj (Option.some.inj resized)
            exact ⟨spliced, nofun, fun _ _ => spliceStruct_failed failed⟩
          · obtain ⟨rfl, rfl⟩ := Prod.mk.inj (Option.some.inj resized)
            refine ⟨spliced.overwrite (by omega) _, fun prop isProp => ?_, nofun⟩
            obtain rfl := Except.ok.inj isProp
            exact behind

/-- Adding a property keeps the front, and the property is behind it. -/
theorem Front.addProperty (strings : 12 ≤ fdtOffDtStrings fdt)
    (nameShort : name.length + 1 < 2 ^ 31) :
    Front front (fdtAddProperty fdt offset name len).1 ∧
      ∀ prop, (fdtAddProperty fdt offset name len).2 = .ok prop → 12 ≤ prop := by
  have positive : 0 ≤ wrapInt (12 + fdtTagAlign len) := by
    have padded := FdtImage.padding_lt len
    rw [FdtImage.tagAlign_natCast (by omega), wrapInt_of_lt (by omega) (by omega)]
    omega
  have added := starts.findAddString strings nameShort
  have sameStruct : fdtOffDtStruct (fdtFindAddString fdt name).1 = fdtOffDtStruct fdt := by
    rw [added.offDtStruct, starts.offDtStruct]
  have behind : 12 ≤ fdtOffDtStruct (fdtFindAddString fdt name).1 +
      (fdtCheckNodeOffset fdt offset).toNat := by
    rw [sameStruct]
    exact Nat.le_add_right_of_le struct
  have spliced := added.spliceStruct behind positive 0
  unfold fdtAddProperty
  dsimp only
  split
  · exact ⟨starts, nofun⟩
  · split
    · exact ⟨added, nofun⟩
    · split
      · refine ⟨?_, nofun⟩
        dsimp only
        split
        · exact spliced.delLastString name
        · exact spliced
      · refine ⟨((spliced.overwrite behind _).overwrite (by omega) _).overwrite
          (by omega) _, fun prop isProp => ?_⟩
        cases isProp
        exact behind

end

namespace FdtImage

variable (img : FdtImage)

theorem front_bytes : Front (img.bytes.take 12) img.bytes := by
  have bounds := img.bounds
  have header : 40 ≤ img.offDtStruct := Nat.le_add_right 40 _
  refine ⟨?_, rfl⟩
  rw [img.length_bytes]
  omega

theorem offsets_bytes : 12 ≤ fdtOffDtStruct img.bytes ∧ 12 ≤ fdtOffDtStrings img.bytes := by
  have header : 40 ≤ img.offDtStruct := Nat.le_add_right 40 _
  rw [img.offDtStruct_bytes, img.offDtStrings_bytes, FdtLayout.offDtStrings]
  omega

variable {offset : Int} {name value bytes : List UInt8} {err : Int}

/-- The placeholder keeps the front in both cases. -/
theorem placeholder_front (nameShort : name.length + 1 < 2 ^ 31)
    (short : value.length + 15 < 2 ^ 31) {placed : List UInt8 × Except Int Nat}
    (isPlaced : fdtSetpropPlaceholder img.bytes offset name value.length = some placed) :
    Front (img.bytes.take 12) placed.1 ∧ ∀ prop, placed.2 = .ok prop → 12 ≤ prop := by
  obtain ⟨struct, strings⟩ := img.offsets_bytes
  unfold fdtSetpropPlaceholder at isPlaced
  rw [img.rwProbe_bytes] at isPlaced
  dsimp only at isPlaced
  rw [if_neg (by simp)] at isPlaced
  obtain ⟨⟨bytes, there⟩, isResized, isPlaced⟩ := Option.bind_eq_some_iff.mp isPlaced
  obtain ⟨starts, behind, alone⟩ := img.front_bytes.resizeProperty struct short isResized
  cases there with
  | ok prop =>
      obtain rfl := Option.some.inj isPlaced
      exact ⟨starts, behind⟩
  | error err =>
      dsimp only at isPlaced
      split at isPlaced
      · obtain rfl := Option.some.inj isPlaced
        -- a property that is not there is added to the blob as it was
        rw [alone err rfl]
        exact img.front_bytes.addProperty struct short strings nameShort
      · obtain rfl := Option.some.inj isPlaced
        exact ⟨starts, nofun⟩

/-- Wherever `fdt_setprop` is asked to write, the total size stays. -/
theorem setprop_totalsize (nameShort : name.length + 1 < 2 ^ 31)
    (short : value.length + 15 < 2 ^ 31)
    (stored : fdtSetprop img.bytes offset name value = some (bytes, err)) :
    fdtTotalsize bytes = img.totalsize := by
  obtain ⟨placed, isPlaced, isStored⟩ := Option.bind_eq_some_iff.mp stored
  obtain ⟨starts, behind⟩ := img.placeholder_front nameShort short isPlaced
  have same : Front (img.bytes.take 12) bytes := by
    obtain ⟨placedBytes, err' | prop⟩ := placed
    · obtain ⟨rfl, -⟩ := Prod.mk.inj (Option.some.inj isStored)
      exact starts
    · obtain ⟨rfl, -⟩ := Prod.mk.inj (Option.some.inj isStored)
      exact starts.overwrite (Nat.le_add_right_of_le (behind prop rfl)) _
  rw [same.totalsize, ← img.front_bytes.totalsize, img.totalsize_bytes]

/-- The blob with other bytes behind the strings. -/
def withSlack (slack : List UInt8)
    (small : img.offDtStrings + img.strings.length + slack.length < INT32_MAX) : FdtImage where
  toFdtLayout := { img.toFdtLayout with slack := slack }
  lastComp_le := img.lastComp_le
  offMemRsvmap_ge := img.offMemRsvmap_ge
  reserved := img.reserved
  small := small
  named := img.named

/-- Blobs with the same nodes and strings have them at the same offsets. -/
theorem pathOffset_congr {img img' : FdtImage} (root : img'.root = img.root)
    (strings : img'.strings = img.strings) :
    fdtPathOffset img'.bytes = fdtPathOffset img.bytes := by
  funext path
  by_cases absolute : path.head? = some 0x2f
  · rw [pathOffset_bytes img' absolute, pathOffset_bytes img absolute]
    unfold dt nodeOffset front
    rw [root, strings]
  · unfold fdtPathOffset
    have sizes : ¬ (img'.totalsize : Int) < 0 ∧ ¬ (img.totalsize : Int) < 0 := by omega
    rw [img'.roProbe_bytes, img.roProbe_bytes, if_neg sizes.1, if_neg sizes.2, if_neg absolute,
      if_neg absolute]

end FdtImage

/-! ## Blobs -/

/-- What is at a pointer: a blob with a tree, or one that libfdt refuses, which is of some size. -/
inductive FdtBlob where
  | image (img : FdtImage)
  | refused (total : BitVec 32)

namespace FdtBlob

def tree : FdtBlob → Option DtNode
  | image img => some img.dt
  | refused _ => none

def totalsize : FdtBlob → BitVec 32
  | image img => BitVec.ofNat 32 (fdtTotalsize img.bytes)
  | refused total => total

open Classical in
/-- The blob that has these bytes. -/
noncomputable def ofBytes (bytes : List UInt8) : FdtBlob :=
  if isImage : ∃ img : FdtImage, img.bytes = bytes then image isImage.choose
  else refused (BitVec.ofNat 32 (fdtTotalsize bytes))

def pathOffset (blob : FdtBlob) (path : List UInt8) : Int :=
  match blob with
  | image img => (fdtPathOffset img.bytes path).getD (-FDT_ERR_BADPATH)
  | refused _ => -FDT_ERR_BADMAGIC

def getProperty (blob : FdtBlob) (node : Int) (name : List UInt8) : Except Int (List UInt8) :=
  match blob with
  | image img =>
      match fdtGetprop img.bytes node name with
      | some (.ok (position, len)) => .ok ((img.bytes.drop position).take len.toNat)
      | some (.error err) => .error err
      | none => .error (-FDT_ERR_INTERNAL)
  | refused _ => .error (-FDT_ERR_BADMAGIC)

/-- Lengths are an `int`, and a loop that would not end is an error. -/
noncomputable def setprop (blob : FdtBlob) (node : Int) (name value : List UInt8) :
    FdtBlob × Int :=
  match blob with
  | image img =>
      if name.length + 1 < 2 ^ 31 ∧ value.length + 15 < 2 ^ 31 then
        match fdtSetprop img.bytes node name value with
        | some (bytes, err) => (ofBytes bytes, err)
        | none => (image img, -FDT_ERR_INTERNAL)
      else (image img, -FDT_ERR_NOSPACE)
  | refused total => (refused total, -FDT_ERR_BADMAGIC)

/-- `fdt_open_into`, which gives a blob more bytes behind its strings. One of `INT32_MAX` bytes is
refused from then on. -/
def openInto (first second : FdtBlob) (size : Int) : FdtBlob × Int :=
  match first with
  | image img =>
      if (img.totalsize : Int) ≤ size ∧ size < 2 ^ 31 then
        let slack := img.slack ++ List.replicate (size.toNat - img.totalsize) 0
        if small : img.offDtStrings + img.strings.length + slack.length < INT32_MAX then
          (image (img.withSlack slack small), 0)
        else (refused (BitVec.ofInt 32 size), 0)
      else (second, -FDT_ERR_NOSPACE)
  | refused _ => (second, -FDT_ERR_BADMAGIC)

/-- `fdt_pack`, which leaves nothing behind the strings. -/
def pack : FdtBlob → FdtBlob
  | image img => image (img.withSlack [] (by
      have small := img.small
      unfold FdtLayout.totalsize at small
      rw [List.length_nil]
      omega))
  | refused total => refused total

end FdtBlob

/-- lib/fdt on such blobs, with no space for a node and no overlay that can be applied. A copy
of too few bytes is refused. -/
noncomputable def imageFdt : Libfdt FdtBlob where
  totalsize := FdtBlob.totalsize
  copy := fun blob size =>
    if blob.totalsize.toNat ≤ size then blob else .refused blob.totalsize
  pathOffset := FdtBlob.pathOffset
  getProperty := FdtBlob.getProperty
  setprop := FdtBlob.setprop
  addSubnode := fun blob _ _ => (blob, -FDT_ERR_NOSPACE)
  appendpropAddrrange := fun blob _ _ _ _ _ => (blob, -FDT_ERR_NOSPACE)
  openInto := FdtBlob.openInto
  pack := FdtBlob.pack
  overlayApply := fun blob overlay =>
    (.refused blob.totalsize, .refused overlay.totalsize, -FDT_ERR_BADMAGIC)

theorem imageFdt_pathOffset : imageFdt.pathOffset = FdtBlob.pathOffset := rfl

theorem imageFdt_getProperty : imageFdt.getProperty = FdtBlob.getProperty := rfl

theorem imageFdt_setprop : imageFdt.setprop = FdtBlob.setprop := rfl

theorem imageFdt_openInto : imageFdt.openInto = FdtBlob.openInto := rfl

namespace FdtBlob

@[simp] theorem totalsize_image (img : FdtImage) :
    (image img).totalsize = BitVec.ofNat 32 img.totalsize := by
  rw [totalsize, img.totalsize_bytes]

theorem toNat_totalsize (img : FdtImage) : (image img).totalsize.toNat = img.totalsize := by
  have bounds := img.bounds
  rw [totalsize_image, BitVec.toNat_ofNat]
  omega

theorem ofBytes_bytes (img : FdtImage) :
    ∃ img' : FdtImage, ofBytes img.bytes = image img' ∧ img'.bytes = img.bytes := by
  have isImage : ∃ img' : FdtImage, img'.bytes = img.bytes := ⟨img, rfl⟩
  exact ⟨_, dif_pos isImage, isImage.choose_spec⟩

theorem totalsize_ofBytes (bytes : List UInt8) :
    (ofBytes bytes).totalsize = BitVec.ofNat 32 (fdtTotalsize bytes) := by
  unfold ofBytes
  split
  · next isImage => rw [totalsize, isImage.choose_spec]
  · rfl

/-- At the node of a path the property of the tree is written, or there is too little space. -/
theorem setprop_path {blob : FdtBlob} {store : FdtStore} (valid : store.Valid)
    (found : 0 ≤ blob.pathOffset store.path) :
    ∃ (img img' : FdtImage) (address : List Nat) (err : Int), blob = image img ∧
      img.dt.pathOffset (components store.path) = some address ∧
      blob.setprop (blob.pathOffset store.path) store.name store.value =
        (ofBytes img'.bytes, err) ∧
      FdtImage.Written img address store.name store.value img' err := by
  cases blob with
  | refused total => cases found
  | image img =>
      have isOffset := img.pathOffset_bytes valid.absolute
      unfold pathOffset at found ⊢
      dsimp only at found ⊢
      rw [isOffset, Option.getD_some] at found ⊢
      cases isAddress : img.dt.pathOffset (components store.path) with
      | none =>
          rw [isAddress] at found
          cases found
      | some address =>
          obtain ⟨node, isNode⟩ := Option.isSome_iff_exists.mp (DtNode.pathOffset_get? isAddress)
          obtain ⟨flat, isFlat, -⟩ := img.node_of_dt isNode
          obtain ⟨img', err, done, written⟩ :=
            FdtImage.setprop_bytes isFlat valid.isString valid.nameShort valid.short
          refine ⟨img, img', address, err, rfl, isAddress, ?_, written⟩
          unfold setprop
          dsimp only
          rw [if_pos ⟨valid.nameShort, valid.short⟩, done]

/-- No property changes the size of the blob. -/
theorem setprop_totalsize (blob : FdtBlob) (node : Int) (name value : List UInt8) :
    (blob.setprop node name value).1.totalsize = blob.totalsize := by
  cases blob with
  | refused total => rfl
  | image img =>
      unfold setprop
      dsimp only
      split
      · next short =>
        cases stored : fdtSetprop img.bytes node name value with
        | none => rfl
        | some result =>
            dsimp only
            rw [totalsize_ofBytes, img.setprop_totalsize short.1 short.2 stored, totalsize_image]
      · rfl

/-- At the node of a path a property is found, or there is none. -/
theorem getProperty_missing {blob : FdtBlob} {path name : List UInt8} {err : Int}
    (absolute : path.head? = some 0x2f) (found : 0 ≤ blob.pathOffset path)
    (failed : blob.getProperty (blob.pathOffset path) name = .error err) :
    err = -FDT_ERR_NOTFOUND := by
  cases blob with
  | refused total => cases found
  | image img =>
      unfold pathOffset at found failed
      dsimp only at found failed
      rw [img.pathOffset_bytes absolute, Option.getD_some] at found failed
      cases isAddress : img.dt.pathOffset (components path) with
      | none =>
          rw [isAddress] at found
          cases found
      | some address =>
          obtain ⟨node, isNode⟩ := Option.isSome_iff_exists.mp (DtNode.pathOffset_get? isAddress)
          obtain ⟨flat, isFlat, -⟩ := img.node_of_dt isNode
          have read := FdtImage.getprop_bytes isFlat name
          rw [isAddress] at failed
          unfold getProperty at failed
          dsimp only at failed
          cases isProp : (dtOf img.strings flat).prop? name with
          | none =>
              rw [isProp] at read
              rw [read] at failed
              exact (Except.error.inj failed).symm
          | some value =>
              rw [isProp] at read
              obtain ⟨position, isValue, -⟩ := read
              rw [isValue] at failed
              cases failed

/-- A blob gets all of the bytes behind its strings. -/
theorem openInto_image {img : FdtImage} {size : Int} (larger : img.totalsize ≤ size)
    (isInt : size < INT32_MAX) (second : FdtBlob) :
    ∃ img' : FdtImage, (image img).openInto second size = (image img', 0) ∧
      img'.root = img.root ∧ img'.strings = img.strings ∧ (img'.totalsize : Int) = size ∧
      img.slack.length ≤ img'.slack.length ∧
      img'.slack.length + img.totalsize = img.slack.length + size := by
  have unpacked : img.offDtStrings + img.strings.length + img.slack.length =
      img.totalsize := rfl
  have length : (img.slack ++ List.replicate (size.toNat - img.totalsize) 0).length =
      img.slack.length + (size.toNat - img.totalsize) := by
    rw [List.length_append, List.length_replicate]
  have small : img.offDtStrings + img.strings.length +
      (img.slack ++ List.replicate (size.toNat - img.totalsize) 0).length < INT32_MAX := by
    omega
  refine ⟨img.withSlack _ small, ?_, rfl, rfl, ?_, ?_, ?_⟩
  · unfold openInto
    dsimp only
    rw [if_pos ⟨larger, by unfold INT32_MAX at isInt; omega⟩, dif_pos small]
  · change ((img.offDtStrings + img.strings.length +
      (img.slack ++ List.replicate (size.toNat - img.totalsize) 0).length : Nat) : Int) = size
    omega
  · exact length ▸ Nat.le_add_right _ _
  · change (((img.slack ++ List.replicate (size.toNat - img.totalsize) 0).length : Nat) : Int) +
      img.totalsize = img.slack.length + size
    omega

/-- A blob is enlarged, or `openInto` fails. -/
theorem openInto_cases (first second : FdtBlob) (size : Int) :
    ((first.openInto second size).2 = 0 ∧
      (first.openInto second size).1.totalsize = BitVec.ofInt 32 size ∧
      (size < INT32_MAX → ∃ img img' : FdtImage, first = image img ∧
        (first.openInto second size).1 = image img' ∧ img'.root = img.root ∧
        img'.strings = img.strings)) ∨
    ((first.openInto second size).2 ≠ 0 ∧ (first.openInto second size).1 = second) := by
  cases first with
  | refused total => exact .inr ⟨show -FDT_ERR_BADMAGIC ≠ 0 by decide, rfl⟩
  | image img =>
      by_cases fits : (img.totalsize : Int) ≤ size ∧ size < 2 ^ 31
      · by_cases isInt : size < INT32_MAX
        · obtain ⟨img', moved, root, strings, total, -⟩ := openInto_image fits.1 isInt second
          rw [moved]
          refine .inl ⟨rfl, ?_, fun _ => ⟨img, img', rfl, rfl, root, strings⟩⟩
          rw [totalsize_image, ← total, BitVec.ofInt_natCast]
        · have large : ¬ img.offDtStrings + img.strings.length +
              (img.slack ++ List.replicate (size.toNat - img.totalsize) 0).length <
                INT32_MAX := by
            have unpacked : img.offDtStrings + img.strings.length + img.slack.length =
                img.totalsize := rfl
            rw [List.length_append, List.length_replicate]
            omega
          unfold openInto
          dsimp only
          rw [if_pos fits, dif_neg large]
          exact .inl ⟨rfl, rfl, fun short => absurd short isInt⟩
      · unfold openInto
        dsimp only
        rw [if_neg fits]
        exact .inr ⟨show -FDT_ERR_NOSPACE ≠ 0 by decide, rfl⟩

/-- Images of one tree are alike, whatever space they have. -/
theorem alike_image {img img' : FdtImage} {blob : FdtBlob} (isBlob : blob = image img')
    (root : img'.root = img.root) (strings : img'.strings = img.strings) :
    Alike imageFdt tree (image img) blob := by
  subst isBlob
  constructor
  · change some img'.dt = some img.dt
    unfold FdtImage.dt
    rw [root, strings]
  · funext path
    rw [imageFdt_pathOffset]
    unfold pathOffset
    dsimp only
    rw [FdtImage.pathOffset_congr root strings]

end FdtBlob

open FdtBlob

/-- The byte-level functions keep the promises of the library. -/
theorem imageFdt_correct : imageFdt.Correct FdtBlob.tree where
  copy_alike := by
    intro blob size whole
    have same : imageFdt.copy blob size = blob := if_pos whole
    rw [same]
    exact Alike.refl blob
  copy_totalsize := by
    intro blob size whole
    have same : imageFdt.copy blob size = blob := if_pos whole
    rw [same]
  getProperty_error := by
    intro blob path name err absolute found failed
    rw [imageFdt_getProperty, imageFdt_pathOffset] at failed
    rw [imageFdt_pathOffset] at found
    rw [getProperty_missing absolute found failed]
    decide
  setprop_done := by
    intro blob store valid found done
    obtain ⟨img, img', address, err, rfl, isAddress, stored, written⟩ := setprop_path valid found
    obtain ⟨img'', isBlob, sameBytes⟩ := ofBytes_bytes img'
    rw [imageFdt_setprop, imageFdt_pathOffset, stored] at done ⊢
    obtain rfl : err = 0 := done
    cases written with
    | done dt total left =>
        refine ⟨img.dt, address, rfl, isAddress, ?_⟩
        rw [isBlob, tree, FdtImage.dt_unique sameBytes, dt]
  setprop_failed := by
    intro blob store valid found failed
    obtain ⟨img, img', address, err, rfl, isAddress, stored, written⟩ := setprop_path valid found
    obtain ⟨img'', isBlob, sameBytes⟩ := ofBytes_bytes img'
    rw [imageFdt_setprop, imageFdt_pathOffset, stored] at failed ⊢
    cases written with
    | done => exact absurd rfl failed
    | noSpace root strings total full =>
        obtain ⟨sameRoot, sameStrings⟩ := FdtImage.root_unique sameBytes
        exact alike_image isBlob (sameRoot.trans root) (sameStrings.trans strings)
  setprop_totalsize := FdtBlob.setprop_totalsize
  addSubnode_totalsize := fun _ _ _ => rfl
  appendpropAddrrange_totalsize := fun _ _ _ _ _ _ => rfl
  openInto_alike := by
    intro first second size isInt done
    rcases openInto_cases first second size with ⟨-, -, moved⟩ | ⟨failed, -⟩
    · obtain ⟨img, img', rfl, isBlob, root, strings⟩ := moved isInt
      exact alike_image isBlob root strings
    · exact absurd done failed
  openInto_totalsize := by
    intro first second size done
    rcases openInto_cases first second size with ⟨-, isTotal, -⟩ | ⟨failed, -⟩
    · exact isTotal
    · exact absurd done failed
  openInto_failed := by
    intro first second size failed
    rcases openInto_cases first second size with ⟨done, -⟩ | ⟨-, same⟩
    · exact absurd done failed
    · exact same
  pack_tree := by
    intro blob
    cases blob <;> rfl
  pack_totalsize := by
    intro blob
    cases blob with
    | refused total => exact le_refl _
    | image img =>
        change (image (img.withSlack [] _)).totalsize.toNat ≤ (image img).totalsize.toNat
        rw [toNat_totalsize, toNat_totalsize]
        exact Nat.le_add_right _ _
  overlayApply_totalsize := fun _ _ => rfl

/-! ## Calls that succeed -/

variable (heap : Heap) {img : FdtImage} {store : FdtStore} {address : List Nat} {size : Nat}

/-- With space behind the strings the property is written at once. -/
theorem storeKeyValue_image (valid : store.Valid) (room : store.cost ≤ img.slack.length)
    (isAddress : img.dt.pathOffset (components store.path) = some address)
    (whole : img.totalsize ≤ size) :
    ∃ block, storeKeyValue imageFdt heap ⟨size, .image img⟩ store.path store.name store.value =
      some (block, 0) ∧ block.Whole imageFdt := by
  have isWhole : Block.Whole imageFdt ⟨size, .image img⟩ := by
    change (totalsize (image img)).toNat ≤ size
    rwa [toNat_totalsize]
  have found : 0 ≤ pathOffset (image img) store.path := by
    unfold pathOffset
    dsimp only
    rw [img.pathOffset_bytes valid.absolute, isAddress, Option.getD_some]
    exact FdtImage.nodeOffset_nonneg address
  obtain ⟨img', written, address', err, same, -, stored, outcome⟩ := setprop_path valid found
  obtain rfl := FdtBlob.image.inj same
  cases outcome with
  | noSpace _ _ _ full => exact absurd room (not_le.mpr full)
  | done _ total _ =>
      refine ⟨⟨size, ofBytes written.bytes⟩, ?_, ?_⟩
      · unfold storeKeyValue Block.setprop
        rw [if_pos isWhole, imageFdt_pathOffset, imageFdt_setprop]
        dsimp only
        rw [if_neg (not_lt.mpr found), if_pos isWhole, stored]
        rfl
      · have sameTotal : (ofBytes written.bytes).totalsize = (image img).totalsize := by
          rw [totalsize_ofBytes, written.totalsize_bytes, total, totalsize_image]
        change (ofBytes written.bytes).totalsize.toNat ≤ size
        rw [sameTotal]
        exact isWhole

/-- A property of a node that there is in a blob with space behind its strings is rewritten. -/
theorem ofModifyProp_image (granted : ∀ request, heap.grants request = true)
    {value : List UInt8} {propType : PropType} (valid : store.Valid)
    (isBuf : storeBuf propType heap.fresh value = some store.value)
    (room : store.cost ≤ img.slack.length)
    (isAddress : img.dt.pathOffset (components store.path) = some address)
    (whole : img.totalsize ≤ size) (isInt : size < 2 ^ 31) :
    ∃ blob, ofModifyProp imageFdt heap (.image img) size store.path store.name value propType =
      some (blob, 0) := by
  have fits : (imageFdt.totalsize (.image img)).toNat ≤ size := by
    change (totalsize (image img)).toNat ≤ size
    rwa [toNat_totalsize]
  have isBlock : utilfdtRead imageFdt heap (.image img) (sizeT size) =
      some ⟨size, .image img⟩ := by
    unfold utilfdtRead malloc
    rw [sizeT_natCast (by omega), if_pos ⟨granted .blob, by omega⟩]
    have same : imageFdt.copy (.image img) size = .image img := if_pos fits
    simp only [Option.bind_eq_bind, Option.bind_some, same]
  obtain ⟨block, isStored, storedWhole⟩ :=
    storeKeyValue_image heap valid room isAddress whole
  obtain ⟨blob, isWritten, -⟩ := utilfdtWrite_whole imageFdt_correct storedWhole
  refine ⟨blob, ?_⟩
  rw [ofModifyProp_eq isBlock (granted .store) isBuf isStored, isWritten]
  rfl

end Zsbl.Libs
