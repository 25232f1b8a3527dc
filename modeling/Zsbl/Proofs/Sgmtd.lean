/-
Module: Zsbl.Proofs.Sgmtd
Purpose: When the boot device over a partition table and the file system over it
  agree about the files.
Trusted boundary: a device reads the bytes inside its medium and fails outside
Main exports:
  Terminated, searchRecords_terminated, partInfoFrom_records, IsFile, Agree,
  partition_readers_agree_iff
-/
import Zsbl.Libs.Sgmtd
import Zsbl.Proofs.Sgpart
import Zsbl.Proofs.VfsInvariant
import Mathlib.Tactic.ByContra

namespace Zsbl.Libs

open Zsbl.Lib Zsbl.Common Zsbl.Fs

/-! ## Searching the records -/

/-- The `name` array or the byte behind it, the first of `offset`, has a NUL. -/
def Terminated (pi : PartInfo) : Prop := 0 ∈ (pi.bytes.drop 4).take 33

/-- The first record whose name `strcmp` finds equal to a file's. -/
def searchRecords (file : List UInt8) : List PartInfo → Option (Option PartInfo)
  | [] => some none
  | pi :: recs => do
      if ← strEq (pi.bytes.drop 4) file then return some pi
      searchRecords file recs

theorem Terminated.strEq {pi : PartInfo} (terminated : Terminated pi) {file : List UInt8}
    (isString : 0 ∉ file) :
    strEq (pi.bytes.drop 4) file = some (decide (pi.fileName = file)) := by
  rw [strEq_of_terminated (List.mem_of_mem_take terminated) isString, PartInfo.fileName,
    PartInfo.name, cstr_take terminated]

/-- Of records whose names end the search finds the first with the name. -/
theorem searchRecords_terminated {recs : List PartInfo}
    (terminated : ∀ pi ∈ recs, Terminated pi) {file : List UInt8} (isString : 0 ∉ file) :
    searchRecords file recs = some (firstRecord recs file) := by
  induction recs with
  | nil => rfl
  | cons pi recs ih =>
      have first := (terminated pi List.mem_cons_self).strEq isString
      have rest := ih fun other isRest => terminated other (List.mem_cons_of_mem pi isRest)
      by_cases same : pi.fileName = file
      · simp [searchRecords, first, same, firstRecord]
      · simp only [searchRecords, first, same, rest, firstRecord]
        simp [same]

/-- A search that finds nothing has compared every record. -/
theorem searchRecords_none {recs : List PartInfo} {file : List UInt8}
    (missing : searchRecords file recs = some none) :
    ∀ pi ∈ recs, strEq (pi.bytes.drop 4) file = some false := by
  induction recs with
  | nil => simp
  | cons pi recs ih =>
      unfold searchRecords at missing
      obtain ⟨same, compared, rest⟩ := Option.bind_eq_some_iff.mp missing
      cases same with
      | true => simp at rest
      | false =>
          intro other member
          rcases List.mem_cons.mp member with rfl | isRest
          · exact compared
          · exact ih rest other isRest

/-- The loop of `get_part_info_by_name` searches the records of a table whose
addresses fit into 32 bits. -/
theorem partInfoFrom_records {mtd : Nat → Nat → Int × List UInt8} {medium : List UInt8}
    (exact' : ExactReads mtd medium) {offset : Nat} {recs : List PartInfo}
    (table : TableAt medium offset recs) (unwrapped : offset + 56 * recs.length < 2 ^ 32)
    (file : List UInt8) {fuel : Nat} (enough : recs.length < fuel) :
    ∃ last, partInfoFrom mtd file fuel offset =
      (searchRecords file recs).map fun found =>
        found.elim (-EINVAL, last) fun pi => (0, pi) := by
  induction recs generalizing offset fuel with
  | nil =>
      obtain ⟨last, inside, ended⟩ := table
      have read := exact'.inside _ _ _ inside
      cases fuel with
      | zero => simp at enough
      | succ fuel =>
          have got : getPartInfo mtd offset = (-EINVAL, ⟨last⟩) := by
            simp only [getPartInfo, read, ne_eq, not_true_eq_false, if_false, ended,
              not_false_eq_true, if_true]
          exact ⟨⟨last⟩, by simp [partInfoFrom, got, EINVAL, searchRecords]⟩
  | cons pi recs ih =>
      obtain ⟨inside, hasMagic, -, table⟩ := table
      have read := exact'.inside _ _ _ inside
      simp only [List.length_cons] at unwrapped enough
      cases fuel with
      | zero => simp at enough
      | succ fuel =>
          have got : getPartInfo mtd offset = (0, pi) := by
            simp only [getPartInfo, read, ne_eq, not_true_eq_false, if_false, hasMagic]
          have address : (offset + PartInfo.sizeof) % 2 ^ 32 = offset + PartInfo.sizeof := by
            apply Nat.mod_eq_of_lt
            simp only [PartInfo.sizeof]
            omega
          obtain ⟨last, rest⟩ := ih table (by simp only [PartInfo.sizeof]; omega)
            (Nat.lt_of_succ_lt_succ enough)
          refine ⟨last, ?_⟩
          simp only [partInfoFrom, got, ne_eq, not_true_eq_false, if_false, address,
            searchRecords, rest]
          cases strEq (pi.bytes.drop 4) file with
          | none => rfl
          | some same => cases same <;> rfl

/-! ## The two readers -/

/-- A name is a file in a mount. -/
def IsFile (s : Vfs Media SgpartPriv) (root : Nat) (file : List UInt8) : Prop :=
  ∃ id node, vfsFindChildByName s root file = some (some id) ∧ s.nodes id = some node ∧
    node.type = .reg

/-- The boot device finds the files of the mount, and reads what the mount reads. -/
structure Agree (sgmtd : Sgmtd) (s : Vfs Media SgpartPriv) (root : Nat)
    (file : List UInt8) : Prop where
  size : ∃ size, getFileSize sgmtd file = some size ∧ (0 ≤ size ↔ IsFile s root file)
  load : ∃ ret bytes, Libs.load sgmtd file = some (ret, bytes) ∧
    (0 ≤ ret ↔ IsFile s root file)
  contents : ∀ id, vfsFindChildByName s root file = some (some id) →
    ∃ (size : Nat) (bytes : List UInt8), getFileSize sgmtd file = some (size : Int) ∧
      Libs.load sgmtd file = some ((size : Int), bytes) ∧
      ∀ s' fd item len, s'.nodes = s.nodes → s'.world = s.world →
        vfsFindFile s' fd = some item → item.file.node = id → item.file.pos = 0 →
        size ≤ len → ∃ s'', vfsRead s' fd true len = some (s'', (size : Int), bytes)

/-- Every record ends its name where `strcmp` stops, and those that are files lie inside
the medium. -/
structure WellNamed (medium : List UInt8) (recs : List PartInfo) : Prop where
  terminated : ∀ pi ∈ recs, Terminated pi
  inside : ∀ name pi, firstRecord recs name = some pi →
    pi.offset + pi.size ≤ medium.length

section Readers

variable {medium : List UInt8} {media : Media} {blkdev : Nat}
  {mtd : Nat → Nat → Int × List UInt8} {offset : Nat} {recs : List PartInfo}
  {s : Vfs Media SgpartPriv} {root : Nat} {file : List UInt8}

/-- A node that is found is a child of the root with the name. -/
theorem Building.found (building : Building s root) {id : Nat}
    (found : vfsFindChildByName s root file = some (some id)) :
    ∃ node, s.nodes id = some node ∧ node.parent = some root ∧ node.name = file := by
  obtain ⟨dir, dirLive, -⟩ := building.dir
  rcases building.tree.findChild (Option.isSome_iff_exists.mpr ⟨dir, dirLive⟩) file with
    ⟨missing, -⟩ | ⟨id', node, found', live, above, named⟩
  · cases missing.symm.trans found
  · obtain rfl := Option.some.inj (Option.some.inj (found'.symm.trans found))
    exact ⟨node, live, above, named⟩

/-- A file is shown exactly if a record has its name. -/
theorem isFile_iff (building : Building s root) (shows : Shows s root blkdev recs) :
    IsFile s root file ↔ (firstRecord recs file).isSome := by
  constructor
  · rintro ⟨id, node, found, -, -⟩
    obtain ⟨node, live, above, named⟩ := Building.found building found
    obtain ⟨pi, first, -⟩ := shows.child id node live above
    rw [← named, first]
    rfl
  · intro isRecord
    obtain ⟨pi, first⟩ := Option.isSome_iff_exists.mp isRecord
    obtain ⟨id, node, live, above, rfl⟩ := shows.made file pi first
    obtain ⟨_, -, isFile⟩ := shows.child id node live above
    exact ⟨id, node, building.tree.findChild_self live above, live, isFile.type⟩

/-- The table is read record by record. -/
theorem getPartInfoByName_records (exact' : ExactReads mtd medium)
    (table : TableAt medium offset recs) (few : recs.length ≤ SGPART_MAX_ENTRIES)
    (unwrapped : offset + 56 * recs.length < 2 ^ 32) (file : List UInt8) :
    ∃ last, getPartInfoByName mtd offset file =
      (searchRecords file recs).map fun found =>
        found.elim (-EINVAL, last) fun pi => (0, pi) := by
  have address : offset % 2 ^ 32 = offset := Nat.mod_eq_of_lt (by omega)
  unfold getPartInfoByName
  rw [address]
  refine partInfoFrom_records exact' table unwrapped file ?_
  simp only [SGPART_MAX_ENTRIES] at few
  omega

/-- The size is that of the first record with the name. -/
theorem getFileSize_records (exact' : ExactReads mtd medium)
    (table : TableAt medium offset recs) (few : recs.length ≤ SGPART_MAX_ENTRIES)
    (unwrapped : offset + 56 * recs.length < 2 ^ 32) (file : List UInt8) :
    getFileSize ⟨mtd, offset⟩ file = (searchRecords file recs).map fun found =>
      found.elim (-ENOENT) fun pi => (pi.size : Int) := by
  obtain ⟨last, found⟩ := getPartInfoByName_records exact' table few unwrapped file
  simp only [getFileSize, found]
  cases searchRecords file recs with
  | none => rfl
  | some found => cases found <;> rfl

/-- The bytes are those of the first record with the name. -/
theorem load_records (exact' : ExactReads mtd medium)
    (table : TableAt medium offset recs) (few : recs.length ≤ SGPART_MAX_ENTRIES)
    (unwrapped : offset + 56 * recs.length < 2 ^ 32) (file : List UInt8) :
    load ⟨mtd, offset⟩ file = (searchRecords file recs).map fun found =>
      found.elim (-ENOENT, []) fun pi => mtd pi.offset pi.size := by
  obtain ⟨last, found⟩ := getPartInfoByName_records exact' table few unwrapped file
  simp only [load, found]
  cases searchRecords file recs with
  | none => rfl
  | some found => cases found <;> rfl

/-- The file of a record reads as the record's part of the medium. -/
theorem vfsRead_file (exact' : ExactReads (media blkdev) medium)
    {node : VfsNode Media SgpartPriv} {pi : PartInfo} (isFile : FileOf node blkdev pi)
    {bytes : List UInt8} (inside : slice medium pi.offset pi.size = some bytes)
    {fd : Int} {item : VfsFileItem SgpartPriv} (isOpen : vfsFindFile s fd = some item)
    (live : s.nodes item.file.node = some node) (start : item.file.pos = 0)
    (world : s.world = media) {len : Nat} (large : pi.size ≤ len) :
    ∃ s', vfsRead s fd true len = some (s', (pi.size : Int), bytes) := by
  have length := slice_length inside
  have read : sgpartRead media (some (.file blkdev pi.offset pi.size)) item.file len =
      (media, item.file.privateData, (pi.size : Int), bytes) := by
    have limit : (if len > pi.size then pi.size else len) = pi.size := by
      split <;> omega
    by_cases empty : pi.size = 0
    · rw [empty] at length
      obtain rfl := List.eq_nil_of_length_eq_zero length
      simp [sgpartRead, start, empty]
    · have inFile : ¬ (0 ≥ pi.size) := by omega
      simp only [sgpartRead, start, if_neg inFile, Nat.sub_zero, limit, Nat.add_zero,
        blkdevRead, exact'.inside _ _ _ inside]
  unfold vfsRead
  simp only [isOpen, live, isFile.fops, isFile.priv, world, sgpartFops, Option.bind_eq_bind,
    Option.bind_some, read]
  exact ⟨_, rfl⟩

/-- A name that does not end where `strcmp` stops makes a difference for a file whose
name is as long. -/
theorem terminated_of_agree (exact' : ExactReads mtd medium)
    (table : TableAt medium offset recs) (few : recs.length ≤ SGPART_MAX_ENTRIES)
    (unwrapped : offset + 56 * recs.length < 2 ^ 32) (building : Building s root)
    (shows : Shows s root blkdev recs)
    (agree : ∀ file, 0 ∉ file → Agree ⟨mtd, offset⟩ s root file) :
    ∀ pi ∈ recs, Terminated pi := by
  intro pi member
  by_contra unterminated
  let behind := pi.bytes.drop 4
  have length : behind.length = 52 := by
    simp [behind, table.length pi member, PartInfo.sizeof]
  have long : 33 ≤ (cstr behind).length := by
    have nonzero : ∀ byte ∈ behind.take 33, decide (byte ≠ 0) = true := by
      intro byte inFront
      simpa using ne_of_mem_of_not_mem inFront unterminated
    rw [← List.take_append_drop 33 behind, cstr, List.takeWhile_append_of_pos nonzero]
    simp
    omega
  have noFile : firstRecord recs (cstr behind) = none := by
    cases first : firstRecord recs (cstr behind) with
    | none => rfl
    | some other =>
        have named := firstRecord_name first
        have short : other.fileName.length ≤ 32 :=
          (cstr_length_le _).trans (by simp [PartInfo.name])
        rw [named] at short
        omega
  obtain ⟨size, got, succeeds⟩ := (agree (cstr behind) (zero_notMem_cstr behind)).size
  rw [isFile_iff building shows, noFile] at succeeds
  rw [getFileSize_records exact' table few unwrapped] at got
  obtain ⟨found, search, rfl⟩ := Option.map_eq_some_iff.mp got
  cases found with
  | some other => exact absurd (succeeds.mp (Int.natCast_nonneg _)) (by simp)
  | none =>
      have differs : strEq behind (cstr behind) = some false :=
        searchRecords_none search pi member
      by_cases ends : 0 ∈ behind
      · rw [strEq_of_terminated ends (zero_notMem_cstr behind)] at differs
        simp at differs
      · have whole : cstr behind = behind := by
          unfold cstr
          rw [List.takeWhile_eq_self_iff]
          intro byte inside
          simpa using ne_of_mem_of_not_mem inside ends
        rw [whole, strEq_overrun] at differs
        cases differs

/-- The two readers agree about every file exactly when the names end where `strcmp`
stops and the files lie inside the medium. -/
theorem partition_readers_agree_iff (mtdExact : ExactReads mtd medium)
    (blkdevExact : ExactReads (s.world blkdev) medium) (table : TableAt medium offset recs)
    (nonempty : recs ≠ []) (few : recs.length ≤ SGPART_MAX_ENTRIES)
    (unwrapped : offset + 56 * recs.length < 2 ^ 32) (tree : TreeInv s) (roomy : s.Roomy)
    (ready : s.ready = true) (rootNode : s.rootNode.isSome) :
    ∃ s' root, sgpartMount s (some (.data (some blkdev) offset)) =
        some (s', ⟨some root, none, none⟩, 0) ∧
      ((∀ file, 0 ∉ file → Agree ⟨mtd, offset⟩ s' root file) ↔ WellNamed medium recs) := by
  obtain ⟨s', root, mounted, building, shows, world⟩ := sgpartMount_shows blkdevExact table
    nonempty few (by omega) tree roomy ready rootNode
  refine ⟨s', root, mounted, fun agree => ?_, fun named file isString => ?_⟩
  · have terminated := terminated_of_agree mtdExact table few unwrapped building shows agree
    refine ⟨terminated, fun name pi first => ?_⟩
    have isString : 0 ∉ name := firstRecord_name first ▸ zero_notMem_cstr _
    obtain ⟨ret, bytes, got, succeeds⟩ := (agree name isString).load
    rw [isFile_iff building shows, first] at succeeds
    rw [load_records mtdExact table few unwrapped,
      searchRecords_terminated terminated isString, first] at got
    have read : mtd pi.offset pi.size = (ret, bytes) := Option.some.inj got
    cases inside : slice medium pi.offset pi.size with
    | some part => exact slice_le inside
    | none =>
        have failed := mtdExact.outside _ _ inside
        rw [read] at failed
        have positive := succeeds.mpr rfl
        exact absurd failed (by simpa using positive)
  · have search := searchRecords_terminated named.terminated isString
    have size := getFileSize_records mtdExact table few unwrapped file
    have loaded := load_records mtdExact table few unwrapped file
    rw [search] at size loaded
    have isFile : IsFile s' root file ↔ (firstRecord recs file).isSome :=
      isFile_iff building shows
    cases first : firstRecord recs file with
    | none =>
        rw [first] at size loaded isFile
        have noFile : ¬ IsFile s' root file := by simp [isFile]
        refine ⟨⟨_, size, ?_⟩, ⟨_, _, loaded, ?_⟩, fun id found => ?_⟩
        · simp [ENOENT, noFile]
        · simp [ENOENT, noFile]
        · obtain ⟨node, live, above, named⟩ := Building.found building found
          obtain ⟨pi, present, -⟩ := shows.child id node live above
          rw [named, first] at present
          cases present
    | some pi =>
        rw [first] at size loaded isFile
        have inside : slice medium pi.offset pi.size =
            some ((medium.drop pi.offset).take pi.size) :=
          if_pos (named.inside file pi first)
        simp only [Option.map_some, Option.elim_some, mtdExact.inside _ _ _ inside] at loaded
        refine ⟨⟨_, size, by simp [isFile]⟩, ⟨_, _, loaded, by simp [isFile]⟩, fun id found =>
          ⟨pi.size, _, size, loaded, ?_⟩⟩
        rintro s'' fd item len nodes world' isOpen rfl start large
        obtain ⟨node, live, above, same⟩ := Building.found building found
        obtain ⟨pi', present, isFileOf⟩ := shows.child _ node live above
        rw [same, first] at present
        obtain rfl := Option.some.inj present
        exact vfsRead_file blkdevExact isFileOf inside isOpen (by rw [nodes]; exact live)
          start (world'.trans world) large

end Readers

/-! ## Two tables -/

/-- A device over a medium. -/
def exactRead (medium : List UInt8) (offset size : Nat) : Int × List UInt8 :=
  match slice medium offset size with
  | some bytes => (size, bytes)
  | none => (- EIO, [])

theorem exactReads (medium : List UInt8) : ExactReads (exactRead medium) medium := by
  constructor
  · intro offset size bytes inside
    simp [exactRead, inside]
  · intro offset size outside
    simp [exactRead, outside, EIO]

/-- The VFS behind `vfs_init`, with one device. -/
def vfsWith (medium : List UInt8) : Vfs Media SgpartPriv :=
  (vfsInit (vfsStatic (fun _ => true) fun _ => exactRead medium)).1

theorem vfsWith_tree (medium : List UInt8) : TreeInv (vfsWith medium) := by
  have start : (vfsLts sgpartCode).init (vfsWith medium) := ⟨_, _, rfl⟩
  exact (FileInv.initial start).tree

/-- A record of one byte at an offset below 256, with some name. -/
def recordOf (name : List UInt8) (offset : UInt8) : PartInfo :=
  ⟨[0xaa, 0x55, 0xaa, 0x55] ++ name ++ [offset, 0, 0, 0] ++ [1, 0, 0, 0] ++
    List.replicate 12 0⟩

/-- A table of one record, followed by zeros. -/
def mediumOf (pi : PartInfo) : List UInt8 := pi.bytes ++ List.replicate 56 0

def shortName : PartInfo := recordOf (97 :: List.replicate 31 0) 1

def fullName : PartInfo := recordOf (List.replicate 32 97) 1

/-- A table of one partition, whose name is terminated. -/
theorem partition_readers_agree_shortName :
    ∃ s' root, sgpartMount (vfsWith (mediumOf shortName)) (some (.data (some 0) 0)) =
        some (s', ⟨some root, none, none⟩, 0) ∧
      ∀ file, 0 ∉ file → Agree ⟨exactRead (mediumOf shortName), 0⟩ s' root file := by
  have table : TableAt (mediumOf shortName) 0 [shortName] :=
    ⟨by decide, by decide, by decide, List.replicate 56 0, by decide, by decide⟩
  obtain ⟨s', root, mounted, agree⟩ := partition_readers_agree_iff (exactReads _)
    (exactReads _) table (by decide) (by decide) (by decide) (vfsWith_tree _) (fun _ => rfl)
    rfl rfl
  have named : WellNamed (mediumOf shortName) [shortName] := by
    constructor
    · intro pi member
      rw [List.mem_singleton.mp member]
      unfold Terminated
      decide
    · intro name pi first
      rw [List.mem_singleton.mp (List.mem_of_find?_eq_some first)]
      decide
  exact ⟨s', root, mounted, agree.mpr named⟩

/-- A name that fills the array is a file in the mount, and is not found by the boot
device. -/
theorem fullName_not_found :
    getFileSize ⟨exactRead (mediumOf fullName), 0⟩ (List.replicate 32 97) = some (-ENOENT) ∧
      ∃ s' root, sgpartMount (vfsWith (mediumOf fullName)) (some (.data (some 0) 0)) =
          some (s', ⟨some root, none, none⟩, 0) ∧
        IsFile s' root (List.replicate 32 97) := by
  have table : TableAt (mediumOf fullName) 0 [fullName] :=
    ⟨by decide, by decide, by decide, List.replicate 56 0, by decide, by decide⟩
  constructor
  · rw [getFileSize_records (exactReads _) table (by decide) (by decide)]
    decide
  · have devices : ExactReads ((vfsWith (mediumOf fullName)).world 0) (mediumOf fullName) :=
      exactReads _
    obtain ⟨s', root, mounted, building, shows, -⟩ := sgpartMount_shows devices table
      (by decide) (by decide) (by decide) (vfsWith_tree _) (fun _ => rfl) rfl rfl
    exact ⟨s', root, mounted, (isFile_iff building shows).mpr (by decide)⟩

end Zsbl.Libs
