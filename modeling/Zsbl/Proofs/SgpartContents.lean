/-
Module: Zsbl.Proofs.SgpartContents
Purpose: The contents of the files of a partition table, over any sequence of seeks and
  reads, and the records that define them.
Trusted boundary: a device reads the bytes inside its medium
Main exports:
  ExactInside, sgpartRequest, tableRecords, Holds, sgpartMount_holds, sgpart_contents
-/
import Zsbl.Proofs.Sgmtd
import Zsbl.Proofs.VfsCursor

namespace Zsbl.Fs

open Zsbl.Lib Zsbl.Common

/-- Reads inside the medium return its bytes. -/
def ExactInside (read : Nat → Nat → Int × List UInt8) (medium : List UInt8) : Prop :=
  ∀ offset size bytes, slice medium offset size = some bytes →
    read offset size = ((size : Int), bytes)

/-! ## Requests -/

/-- The device, the offset and the length that a read at a position asks for, if it asks. -/
def sgpartRequest (priv : Option SgpartPriv) (pos len : Nat) : Option (Nat × Nat × Nat) :=
  match priv with
  | some (.file blkdev offset size) =>
      if pos < size then some (blkdev, offset + pos, min len (size - pos)) else none
  | _ => none

/-- What the devices answer to at most one request. -/
def answer (media : Media) : Option (Nat × Nat × Nat) → Int × List UInt8
  | some (blkdev, first, size) => blkdevRead media blkdev first size
  | none => (0, [])

/-- `sgpart_read` makes its request and nothing else. -/
theorem sgpartRead_request (media : Media) (priv : Option SgpartPriv)
    (file : VfsFile SgpartPriv) (len : Nat) :
    sgpartRead media priv file len =
      (media, file.privateData, answer media (sgpartRequest priv file.pos len)) := by
  unfold sgpartRead sgpartRequest
  cases priv with
  | none => rfl
  | some priv =>
      cases priv with
      | data blkdev offset => rfl
      | file blkdev offset size =>
          by_cases inFile : file.pos < size
          · have notPast : ¬ file.pos ≥ size := by omega
            have clipped : (if len > size - file.pos then size - file.pos else len) =
                min len (size - file.pos) := by
              split <;> omega
            simp only [inFile, if_neg notPast, clipped, if_true, answer]
          · simp only [inFile, if_pos (Nat.le_of_not_lt inFile), if_false, answer]

/-- The request is inside the window of the file. -/
theorem sgpartRequest_inside {blkdev offset size pos len : Nat} {request : Nat × Nat × Nat}
    (asked : sgpartRequest (some (.file blkdev offset size)) pos len = some request) :
    request.1 = blkdev ∧ offset ≤ request.2.1 ∧ request.2.1 + request.2.2 ≤ offset + size := by
  unfold sgpartRequest at asked
  dsimp only at asked
  split at asked
  · obtain rfl := Option.some.inj asked
    refine ⟨rfl, ?_, ?_⟩
    · dsimp only
      omega
    · dsimp only
      omega
  · cases asked

/-! ## Reading a file -/

/-- A descriptor is open on a file with a window of a device, at a position. -/
def SgpartFile (media : Media) (blkdev offset size : Nat) (fd : Int) (s : Vfs Media SgpartPriv)
    (pos : Nat) : Prop :=
  ∃ node file, FileAt s fd node file ∧ node.fops = some sgpartFops ∧
    node.priv = some (.file blkdev offset size) ∧ s.world = media ∧ file.pos = pos

variable {media : Media} {medium : List UInt8} {blkdev offset size : Nat} {fd : Int}
  {s : Vfs Media SgpartPriv} {pos : Nat}

/-- A read whose part of the window is inside the medium. -/
theorem SgpartFile.read (exact' : ExactInside (media blkdev) medium) (small : size < 2 ^ 63)
    (here : SgpartFile media blkdev offset size fd s pos) (len : Nat)
    (inMedium : pos < size → offset + pos + min len (size - pos) ≤ medium.length) :
    ∃ s' bytes, bytes = window medium (offset + pos) (min len (size - pos)) ∧
      vfsExec fd s (.read len) = some (s', (bytes.length : Int), bytes) ∧
      SgpartFile media blkdev offset size fd s' (pos + bytes.length) := by
  obtain ⟨node, file, at', fops, priv, rfl, rfl⟩ := here
  have below := at'.below
  have bound := length_window medium (offset + file.pos) (min len (size - file.pos))
  have done : sgpartRead s.world node.priv file len = (s.world, file.privateData,
      ((window medium (offset + file.pos) (min len (size - file.pos))).length : Int),
      window medium (offset + file.pos) (min len (size - file.pos))) := by
    rw [sgpartRead_request, priv]
    by_cases inFile : file.pos < size
    · have inside := inMedium inFile
      have bytes := exact' _ _ _ (if_pos inside)
      have length : (window medium (offset + file.pos) (min len (size - file.pos))).length =
          min len (size - file.pos) := by omega
      simp only [sgpartRequest, inFile, if_true, answer, blkdevRead, bytes]
      rw [length]
      rfl
    · have past : size - file.pos = 0 := by omega
      simp only [sgpartRequest, inFile, if_false, past, Nat.min_zero]
      rfl
  obtain ⟨s', exec, world, next⟩ := at'.read (by rw [fops]; rfl) done
  exact ⟨s', _, rfl, exec, node, _, next (by omega), fops, priv, world, rfl⟩

/-- Each call moves the cursor as in a file of the size of the partition. -/
theorem SgpartFile.step (exact' : ExactInside (media blkdev) medium) (small : size < 2 ^ 63)
    (inMedium : offset + size ≤ medium.length) (s : Vfs Media SgpartPriv) (pos : Nat)
    (op : CursorOp) (here : SgpartFile media blkdev offset size fd s pos) (fits : SizesFit op) :
    ∃ s', vfsExec fd s op = some (s', (cursorStep (2 ^ 63) (-EINVAL)
        (window medium offset size) pos op).2) ∧
      SgpartFile media blkdev offset size fd s' (cursorStep (2 ^ 63) (-EINVAL)
        (window medium offset size) pos op).1 := by
  have seek (isSeek : ∀ len, op ≠ .read len) : ∃ s', vfsExec fd s op =
        some (s', (cursorStep (2 ^ 63) (-EINVAL) (window medium offset size) pos op).2) ∧
      SgpartFile media blkdev offset size fd s' (cursorStep (2 ^ 63) (-EINVAL)
        (window medium offset size) pos op).1 := by
    obtain ⟨node, file, at', fops, priv, world, rfl⟩ := here
    obtain ⟨s', exec, world', next⟩ := at'.exec isSeek fits (window medium offset size)
    exact ⟨s', exec, node, _, next, fops, priv, world'.trans world, rfl⟩
  cases op with
  | read len =>
      obtain ⟨s', bytes, rfl, exec, next⟩ := here.read exact' small len (by omega)
      rw [← window_window] at exec next
      exact ⟨s', exec, next⟩
  | seekSet off => exact seek (by simp)
  | seekCur off => exact seek (by simp)

/-! ## The table -/

/-- The records that a device yields from an address on, up to one without the magic number
or one that is not read as a whole, and up to a number of them. -/
def tableRecords (read : Nat → Nat → Int × List UInt8) : Nat → Nat → List PartInfo
  | 0, _ => []
  | count + 1, addr =>
      let (ret, bytes) := read addr PartInfo.sizeof
      if ret = PartInfo.sizeof ∧ PartInfo.magic ⟨bytes⟩ = DPT_MAGIC then
        ⟨bytes⟩ :: tableRecords read count ((addr + PartInfo.sizeof) % 2 ^ 64)
      else []

/-- The name of a record can be that of a node. -/
def PartInfo.Named (pi : PartInfo) : Prop := pi.fileName ≠ [] ∧ slash ∉ pi.fileName

instance : DecidablePred PartInfo.Named := fun pi =>
  inferInstanceAs (Decidable (pi.fileName ≠ [] ∧ slash ∉ pi.fileName))

/-- The nodes below the root of a mount that is being built are files of records. -/
structure Holds (s : Vfs Media SgpartPriv) (root blkdev : Nat) (recs : List PartInfo) : Prop where
  tree : TreeInv s
  dir : ∃ node, s.nodes root = some node ∧ node.type = .dir
  child : ∀ id node, s.nodes id = some node → node.parent = some root →
    ∃ pi ∈ recs, FileOf node blkdev pi

variable {root : Nat} {recs : List PartInfo} {s' : Vfs Media SgpartPriv}

theorem Holds.quiet (holds : Holds s root blkdev recs) (quiet : Quiet s s') :
    Holds s' root blkdev recs where
  tree := holds.tree.of_same quiet.sameTree
  dir := by rw [quiet.nodes]; exact holds.dir
  child := by rw [quiet.nodes]; exact holds.child

theorem Holds.weaken (holds : Holds s root blkdev recs) (more : List PartInfo) :
    Holds s root blkdev (recs ++ more) where
  tree := holds.tree
  dir := holds.dir
  child := by
    intro id node live above
    obtain ⟨pi, member, isFile⟩ := holds.child id node live above
    exact ⟨pi, List.mem_append_left more member, isFile⟩

/-- A record that is added is shown by its node. -/
theorem sgpartAdd_holds {pi : PartInfo} (holds : Holds s root blkdev recs) {ret : Int}
    (done : sgpartAdd s root pi blkdev = some (s', ret)) :
    Holds s' root blkdev (recs ++ [pi]) ∧ s'.world = s.world := by
  have heap := SameButHeap.malloc s
  have holds' : Holds s.malloc.1 root blkdev recs := holds.quiet heap.quiet
  obtain ⟨dir, dirLive, isDir⟩ := holds'.dir
  unfold sgpartAdd at done
  by_cases empty : cstr pi.name = []
  · simp only [empty, if_true, Option.bind_eq_bind] at done
    obtain ⟨rfl, -⟩ := Prod.mk.inj (Option.some.inj done)
    exact ⟨holds.weaken [pi], rfl⟩
  · rw [if_neg empty] at done
    by_cases memory : s.malloc.2 = true
    · have rootLive : s.malloc.1.Live (some root) := by
        intro other same
        obtain rfl := Option.some.inj same
        simp [dirLive]
      rcases holds'.tree.vfsCreateNode rootLive (cstr pi.name) .reg (some sgpartFops)
          (some (.file blkdev pi.offset pi.size)) with
        ⟨s₂, refused, same⟩ | ⟨s₂, above, dir', isRoot, created, dirLive', -, valid, absent, grown⟩
      · simp only [memory, vfsMknod, refused] at done
        obtain ⟨rfl, -⟩ := Prod.mk.inj (Option.some.inj done)
        exact ⟨(holds'.quiet same.quiet).weaken [pi], same.world.trans heap.world⟩
      · obtain rfl := Option.some.inj isRoot
        obtain rfl := Option.some.inj (dirLive.symm.trans dirLive')
        simp only [memory, vfsMknod, created] at done
        obtain ⟨rfl, -⟩ := Prod.mk.inj (Option.some.inj done)
        refine ⟨⟨holds'.tree.create dirLive isDir valid rfl absent grown, ?_, ?_⟩,
          grown.world.trans heap.world⟩
        · exact ⟨{ dir with child := some s.malloc.1.nextNode },
            by rw [grown.nodes, withChild_above], isDir⟩
        · intro id node live above
          by_cases isNew : id = s.malloc.1.nextNode
          · subst isNew
            rw [grown.nodes, withChild_new (Nat.ne_of_gt (holds'.tree.lt root dir dirLive))] at live
            obtain rfl := Option.some.inj live
            exact ⟨pi, by simp, rfl, rfl, rfl, rfl⟩
          · obtain ⟨child, same⟩ := withChild_old (freshNode (cstr pi.name) .reg (some sgpartFops)
              (some (.file blkdev pi.offset pi.size))) dirLive isNew
            rw [grown.nodes, same] at live
            obtain ⟨old, wasLive, rfl⟩ := Option.map_eq_some_iff.mp live
            obtain ⟨first, member, isFile⟩ := holds'.child id old wasLive above
            exact ⟨first, List.mem_append_left [pi] member, isFile.name, isFile.type, isFile.fops,
              isFile.priv⟩
    · simp only [memory, vfsMknod] at done
      obtain ⟨rfl, -⟩ := Prod.mk.inj (Option.some.inj done)
      exact ⟨holds'.weaken [pi], heap.world⟩

/-- One round of the loop. -/
theorem sgpartEntries_succ {count addr : Nat} {pi : PartInfo} (hasMagic : pi.magic = DPT_MAGIC) :
    sgpartEntries blkdev root (count + 1) s addr pi =
      (sgpartAdd s root pi blkdev).bind fun added =>
        let next := added.1.world blkdev ((addr + PartInfo.sizeof) % 2 ^ 64) PartInfo.sizeof
        if next.1 ≠ PartInfo.sizeof then some added.1
        else sgpartEntries blkdev root count added.1 ((addr + PartInfo.sizeof) % 2 ^ 64)
          ⟨next.2⟩ := by
  rw [sgpartEntries, if_neg (not_not_intro hasMagic)]
  rfl

theorem tableRecords_succ {read : Nat → Nat → Int × List UInt8} {addr : Nat} {pi : PartInfo}
    (first : read addr PartInfo.sizeof = ((PartInfo.sizeof : Int), pi.bytes))
    (hasMagic : pi.magic = DPT_MAGIC) (count : Nat) :
    tableRecords read (count + 1) addr =
      pi :: tableRecords read count ((addr + PartInfo.sizeof) % 2 ^ 64) := by
  rw [tableRecords, first]
  exact if_pos ⟨rfl, hasMagic⟩

theorem tableRecords_end {read : Nat → Nat → Int × List UInt8} {addr : Nat}
    (ended : ¬ ((read addr PartInfo.sizeof).1 = PartInfo.sizeof ∧
      PartInfo.magic ⟨(read addr PartInfo.sizeof).2⟩ = DPT_MAGIC)) (count : Nat) :
    tableRecords read count addr = [] := by
  cases count with
  | zero => rfl
  | succ count => exact if_neg ended

/-- The loop over the records of the table, whatever memory there is. -/
theorem sgpartEntries_holds {count addr : Nat} {pi : PartInfo} (holds : Holds s root blkdev recs)
    (first : s.world blkdev addr PartInfo.sizeof = ((PartInfo.sizeof : Int), pi.bytes))
    (done : sgpartEntries blkdev root count s addr pi = some s') :
    Holds s' root blkdev (recs ++ tableRecords (s.world blkdev) count addr) ∧
      s'.world = s.world := by
  induction count generalizing s recs addr pi with
  | zero =>
      obtain rfl := Option.some.inj done
      exact ⟨holds.weaken [], rfl⟩
  | succ count ih =>
      by_cases hasMagic : pi.magic = DPT_MAGIC
      · rw [sgpartEntries_succ hasMagic] at done
        obtain ⟨⟨s₁, ret⟩, added, rest⟩ := Option.bind_eq_some_iff.mp done
        obtain ⟨holds₁, world₁⟩ := sgpartAdd_holds holds added
        rw [tableRecords_succ first hasMagic, ← List.singleton_append, ← List.append_assoc,
          ← world₁]
        by_cases whole : (s₁.world blkdev ((addr + PartInfo.sizeof) % 2 ^ 64)
            PartInfo.sizeof).1 = PartInfo.sizeof
        · rw [if_neg (not_not_intro whole)] at rest
          exact ih holds₁ (Prod.ext whole rfl) rest
        · rw [if_pos whole] at rest
          obtain rfl := Option.some.inj rest
          exact ⟨holds₁.weaken _, rfl⟩
      · obtain rfl : s = s' := by simpa [sgpartEntries, hasMagic] using done
        exact ⟨holds.weaken _, rfl⟩

/-! ## The first record of a name -/

/-- A record without a name for a node makes none. -/
theorem sgpartAdd_skips {pi : PartInfo} (building : Building s root) (unnamed : ¬ pi.Named) :
    ∃ s' ret, sgpartAdd s root pi blkdev = some (s', ret) ∧ Quiet s s' ∧ s'.world = s.world := by
  unfold sgpartAdd
  by_cases empty : cstr pi.name = []
  · exact ⟨s, -EINVAL, by simp [empty], (SameButHeap.refl s).quiet, rfl⟩
  · have invalid : vfsNameValid (cstr pi.name) = false := by
      have hasSlash : slash ∈ cstr pi.name := by
        simpa [PartInfo.Named, PartInfo.fileName, empty] using unnamed
      simp [vfsNameValid, hasSlash]
    have heap := SameButHeap.malloc s
    have ready : s.malloc.1.ready = true := building.ready
    have rootNode : s.malloc.1.rootNode.isSome := building.rootNode
    refine ⟨s.malloc.1, -EEXIST, ?_, heap.quiet, heap.world⟩
    have enough : s.malloc.2 = true := building.roomy 0
    have present := Option.isSome_iff_ne_none.mp rootNode
    simp [empty, enough, vfsMknod, vfsCreateNode, ready, present, invalid]

/-- With memory for all, the loop makes the files of the first records. -/
theorem sgpartEntries_firsts {count addr : Nat} {pi : PartInfo} (building : Building s root)
    (shows : Shows s root blkdev (recs.filter (·.Named)))
    (first : s.world blkdev addr PartInfo.sizeof = ((PartInfo.sizeof : Int), pi.bytes)) :
    ∃ s', sgpartEntries blkdev root count s addr pi = some s' ∧
      Shows s' root blkdev
        ((recs ++ tableRecords (s.world blkdev) count addr).filter (·.Named)) := by
  induction count generalizing s recs addr pi with
  | zero => exact ⟨s, rfl, by simpa [tableRecords] using shows⟩
  | succ count ih =>
      by_cases hasMagic : pi.magic = DPT_MAGIC
      · rw [sgpartEntries_succ hasMagic, tableRecords_succ first hasMagic,
          ← List.singleton_append, ← List.append_assoc]
        obtain ⟨s₁, ret, added, building₁, shows₁, world₁⟩ :
            ∃ s₁ ret, sgpartAdd s root pi blkdev = some (s₁, ret) ∧ Building s₁ root ∧
              Shows s₁ root blkdev ((recs ++ [pi]).filter (·.Named)) ∧
                s₁.world = s.world := by
          by_cases named : pi.Named
          · have kept : (recs ++ [pi]).filter (·.Named) = recs.filter (·.Named) ++ [pi] := by
              simp [List.filter_append, named]
            rw [kept]
            exact sgpartAdd_shows building shows named.1 named.2
          · have dropped : (recs ++ [pi]).filter (·.Named) = recs.filter (·.Named) := by
              simp [List.filter_append, named]
            rw [dropped]
            obtain ⟨s₁, ret, added, quiet, world⟩ :=
              @sgpartAdd_skips blkdev s root pi building named
            exact ⟨s₁, ret, added, building.quiet quiet, shows.quiet quiet, world⟩
        rw [added, Option.bind_some, ← world₁]
        dsimp only
        by_cases whole : (s₁.world blkdev ((addr + PartInfo.sizeof) % 2 ^ 64)
            PartInfo.sizeof).1 = PartInfo.sizeof
        · rw [if_neg (not_not_intro whole)]
          exact ih building₁ shows₁ (Prod.ext whole rfl)
        · rw [if_pos whole, tableRecords_end (fun one => whole one.1), List.append_nil]
          exact ⟨s₁, rfl, shows₁⟩
      · rw [tableRecords_end (by rw [first]; exact fun one => hasMagic one.2), List.append_nil]
        exact ⟨s, by simp [sgpartEntries, hasMagic], shows⟩

/-- The first record of a name among those with a name is the first of all. -/
theorem firstRecord_filter {name : List UInt8} {pi : PartInfo}
    (found : firstRecord (recs.filter (·.Named)) name = some pi) :
    firstRecord recs name = some pi := by
  unfold firstRecord at found ⊢
  have isNamed : pi.Named := by
    simpa using (List.mem_filter.mp (List.mem_of_find?_eq_some found)).2
  have isName : pi.fileName = name := by simpa using List.find?_some found
  rw [List.find?_filter] at found
  rw [← found]
  congr 1
  funext other
  by_cases same : other.fileName = name
  · have named : other.Named := by
      unfold PartInfo.Named at isNamed ⊢
      rwa [same, ← isName]
    simp [same, named]
  · simp [same]

/-- The steps of a mount that succeeds. -/
theorem sgpartMount_cases
    (mounted : sgpartMount s (some (.data (some blkdev) offset)) =
      some (s', ⟨some root, none, none⟩, 0)) :
    ∃ pi s₁, s.world blkdev offset PartInfo.sizeof = ((PartInfo.sizeof : Int), pi.bytes) ∧
      vfsAllocNode s sgpartName .dir none none = (s₁, some root) ∧
      sgpartEntries blkdev root SGPART_MAX_ENTRIES s₁ offset pi = some s' := by
  have validName : vfsNameValid sgpartName = true := by decide
  cases read : s.world blkdev offset PartInfo.sizeof with
  | mk ret bytes =>
      simp only [sgpartMount, blkdevRead, read, vfsAllocDirNode, validName] at mounted
      by_cases whole : ret = PartInfo.sizeof
      · by_cases hasMagic : PartInfo.magic ⟨bytes⟩ = DPT_MAGIC
        · cases allocated : vfsAllocNode s sgpartName .dir none none with
          | mk s₁ made =>
              cases made with
              | none => simp [whole, hasMagic, allocated] at mounted
              | some root' =>
                  simp only [whole, hasMagic, allocated, ne_eq, not_true_eq_false, if_false,
                    Bool.not_true, Bool.false_eq_true, Option.bind_eq_bind] at mounted
                  obtain ⟨last, looped, same⟩ := Option.bind_eq_some_iff.mp mounted
                  obtain ⟨rfl, setup⟩ := Prod.mk.inj (Option.some.inj same)
                  have isRoot : root' = root := by simpa using setup
                  subst isRoot
                  exact ⟨⟨bytes⟩, s₁, by rw [whole], rfl, looped⟩
        · simp [whole, hasMagic] at mounted
      · simp [whole] at mounted

/-- A mounted table shows each of its records. -/
theorem sgpartMount_holds (tree : TreeInv s)
    (mounted : sgpartMount s (some (.data (some blkdev) offset)) =
      some (s', ⟨some root, none, none⟩, 0)) :
    Holds s' root blkdev (tableRecords (s.world blkdev) SGPART_MAX_ENTRIES offset) ∧
      s'.world = s.world := by
  obtain ⟨pi, s₁, first, allocated, looped⟩ := sgpartMount_cases mounted
  rcases vfsAllocNode_cases s sgpartName .dir none none with
    ⟨s₂, failed, -⟩ | ⟨s₂, made, grown⟩
  · rw [failed] at allocated
    cases allocated
  · rw [made] at allocated
    obtain ⟨rfl, isRoot⟩ := Prod.mk.inj allocated
    obtain rfl := Option.some.inj isRoot
    have fresh : s₂.nodes s.nextNode = some (freshNode sgpartName .dir none none) := by
      rw [grown.nodes, Function.update_self]
    have tree₂ : TreeInv s₂ := tree.alloc grown
    have holds : Holds s₂ s.nextNode blkdev [] := by
      refine ⟨tree₂, ⟨_, fresh, rfl⟩, ?_⟩
      intro id node live above
      have older := tree₂.lt id node live
      have newer := (tree₂.parent id node _ live above).1
      have next := grown.nextNode
      omega
    rw [← grown.world] at first ⊢
    exact sgpartEntries_holds holds first looped

/-- With memory for all, the files are those of the first records. -/
theorem sgpartMount_firsts (tree : TreeInv s) (roomy : s.Roomy) (ready : s.ready = true)
    (rootNode : s.rootNode.isSome)
    (mounted : sgpartMount s (some (.data (some blkdev) offset)) =
      some (s', ⟨some root, none, none⟩, 0)) :
    Shows s' root blkdev
      ((tableRecords (s.world blkdev) SGPART_MAX_ENTRIES offset).filter (·.Named)) := by
  obtain ⟨pi, s₁, first, allocated, looped⟩ := sgpartMount_cases mounted
  obtain ⟨s₂, made, grown⟩ := vfsAllocNode_roomy roomy sgpartName .dir none none
  rw [made] at allocated
  obtain ⟨rfl, isRoot⟩ := Prod.mk.inj allocated
  obtain rfl := Option.some.inj isRoot
  have fresh : s₂.nodes s.nextNode = some (freshNode sgpartName .dir none none) := by
    rw [grown.nodes, Function.update_self]
  have building : Building s₂ s.nextNode :=
    ⟨tree.alloc grown, roomy_of_mem roomy grown.mem, grown.ready.trans ready,
      by rw [grown.rootNode]; exact rootNode, _, fresh, rfl⟩
  have shows : Shows s₂ s.nextNode blkdev (([] : List PartInfo).filter (·.Named)) := by
    refine ⟨fun id node live above => ?_, fun name pi found => by cases found⟩
    have older := building.tree.lt id node live
    have newer := (building.tree.parent id node _ live above).1
    have next := grown.nextNode
    omega
  rw [← grown.world] at first ⊢
  obtain ⟨s₃, done, shows₃⟩ := @sgpartEntries_firsts _ _ _ _ SGPART_MAX_ENTRIES _ _ building
    shows first
  obtain rfl := Option.some.inj (looped.symm.trans done)
  exact shows₃

/-! ## The files of a mount -/

/-- The file of a record, through the VFS: what each read asks the devices for, what it
returns at any position, and what runs of seeks and reads return. -/
structure ReadsWindow (media : Media) (medium : List UInt8) (blkdev : Nat) (pi : PartInfo)
    (priv : Option SgpartPriv) : Prop where
  requests : ∀ file len, ∃ request,
    (∀ devices, sgpartRead devices priv file len =
      (devices, file.privateData, answer devices request)) ∧
    ∀ dev first size, request = some (dev, first, size) →
      dev = blkdev ∧ pi.offset ≤ first ∧ first + size ≤ pi.offset + pi.size
  read : ∀ fd t pos, SgpartFile media blkdev pi.offset pi.size fd t pos → ∀ len < 2 ^ 64,
    (pos < pi.size → pi.offset + min (pos + len) pi.size ≤ medium.length) →
      ∃ t' bytes, vfsRead t fd true len = some (t', (bytes.length : Int), bytes) ∧
        bytes = window medium (pi.offset + pos) (min (pos + len) pi.size - pos) ∧
        (pi.size ≤ pos → bytes = []) ∧
        SgpartFile media blkdev pi.offset pi.size fd t' (pos + bytes.length)
  run : pi.offset + pi.size ≤ medium.length → ∀ fd t pos,
    SgpartFile media blkdev pi.offset pi.size fd t pos → ∀ ops,
      CursorOk (2 ^ 63) (-EINVAL) (window medium pi.offset pi.size) (fun _ op => SizesFit op)
        pos ops →
      ∃ t', execRun (vfsExec fd) t ops =
          some (t', (cursorRun (2 ^ 63) (-EINVAL) (window medium pi.offset pi.size) pos ops).2) ∧
        SgpartFile media blkdev pi.offset pi.size fd t'
          (cursorRun (2 ^ 63) (-EINVAL) (window medium pi.offset pi.size) pos ops).1
  whole : pi.offset + pi.size ≤ medium.length → ∀ fd t,
    SgpartFile media blkdev pi.offset pi.size fd t 0 →
      ∀ lens : List Nat, (∀ len ∈ lens, len < 2 ^ 64) →
      ∃ t' outs, execRun (vfsExec fd) t (lens.map .read) = some (t', outs) ∧
        ∀ len t'', 0 < len → len < 2 ^ 64 → vfsRead t' fd true len = some (t'', 0, []) →
          outs.flatMap Prod.snd = window medium pi.offset pi.size

theorem cursorOk_reads {content : List UInt8} {lens : List Nat} (fit : ∀ len ∈ lens, len < 2 ^ 64)
    (pos : Nat) :
    CursorOk (2 ^ 63) (-EINVAL) content (fun _ op => SizesFit op) pos (lens.map .read) := by
  induction lens generalizing pos with
  | nil => trivial
  | cons len lens ih =>
      exact ⟨fit len (by simp), ih (fun other member => fit other (by simp [member])) _⟩

theorem PartInfo.size_lt (pi : PartInfo) : pi.size < 2 ^ 63 := by
  have bound := le_lt ((pi.bytes.drop 40).take 4)
  have short : ((pi.bytes.drop 40).take 4).length ≤ 4 := List.length_take_le 4 _
  have power : 256 ^ ((pi.bytes.drop 40).take 4).length ≤ 256 ^ 4 :=
    Nat.pow_le_pow_right (by decide) short
  have small : 256 ^ 4 < 2 ^ 63 := by decide
  exact Nat.lt_of_lt_of_le bound (Nat.le_trans power (Nat.le_of_lt small))

/-- The node of a record reads the window of its partition. -/
theorem readsWindow (exact' : ExactInside (media blkdev) medium) (pi : PartInfo) :
    ReadsWindow media medium blkdev pi (some (.file blkdev pi.offset pi.size)) where
  requests := by
    intro file len
    refine ⟨_, fun devices => sgpartRead_request devices _ file len, ?_⟩
    intro dev first size asked
    exact sgpartRequest_inside asked
  read := by
    intro fd t pos here len _ inMedium
    have part : min len (pi.size - pos) = min (pos + len) pi.size - pos := by omega
    obtain ⟨t', bytes, isBytes, done, next⟩ := here.read exact' pi.size_lt len (by omega)
    refine ⟨t', bytes, done, by rw [isBytes, part], ?_, next⟩
    intro past
    rw [isBytes, Nat.sub_eq_zero_of_le past, Nat.min_zero]
    rfl
  run := by
    intro inMedium fd t pos here ops fine
    exact execRun_follows (SgpartFile.step exact' pi.size_lt inMedium) here fine
  whole := by
    intro inMedium fd t here lens fit
    obtain ⟨t', run, there⟩ := execRun_follows (SgpartFile.step exact' pi.size_lt inMedium) here
      (cursorOk_reads fit 0)
    refine ⟨t', _, run, ?_⟩
    intro len t'' nonzero fits done
    obtain ⟨t₁, next, -⟩ := SgpartFile.step exact' pi.size_lt inMedium t' _ (.read len) there fits
    have same := Option.some.inj (next.symm.trans done)
    exact cursorRun_untilEmpty nonzero (Prod.mk.inj (Prod.mk.inj same).2).2

/-- Every file of a mounted table is the file of a record and reads as its window; with
memory for all of them, the record is the first of its name. -/
theorem sgpart_contents (exact' : ExactInside (s.world blkdev) medium) (tree : TreeInv s)
    (ready : s.ready = true) (rootNode : s.rootNode.isSome)
    (mounted : sgpartMount s (some (.data (some blkdev) offset)) =
      some (s', ⟨some root, none, none⟩, 0)) :
    ∀ id node, s'.nodes id = some node → node.parent = some root →
      ∃ pi ∈ tableRecords (s.world blkdev) SGPART_MAX_ENTRIES offset, FileOf node blkdev pi ∧
        (s.Roomy → firstRecord (tableRecords (s.world blkdev) SGPART_MAX_ENTRIES offset)
          node.name = some pi) ∧
        ReadsWindow s'.world medium blkdev pi node.priv := by
  obtain ⟨holds, world⟩ := sgpartMount_holds tree mounted
  intro id node live above
  obtain ⟨pi, member, isFile, first⟩ : ∃ pi ∈ tableRecords (s.world blkdev) SGPART_MAX_ENTRIES
      offset, FileOf node blkdev pi ∧ (s.Roomy → firstRecord (tableRecords (s.world blkdev)
        SGPART_MAX_ENTRIES offset) node.name = some pi) := by
    by_cases roomy : s.Roomy
    · have shows := sgpartMount_firsts tree roomy ready rootNode mounted
      obtain ⟨pi, found, isFile⟩ := shows.child id node live above
      have first := firstRecord_filter found
      exact ⟨pi, List.mem_of_find?_eq_some first, isFile, fun _ => first⟩
    · obtain ⟨pi, member, isFile⟩ := holds.child id node live above
      exact ⟨pi, member, isFile, fun enough => absurd enough roomy⟩
  refine ⟨pi, member, isFile, first, ?_⟩
  rw [isFile.priv, world]
  exact readsWindow exact' pi

/-! ## Two records of a name -/

theorem exactInside (medium : List UInt8) : ExactInside (Libs.exactRead medium) medium :=
  (Libs.exactReads medium).inside

/-- Two records with the name "a", of the bytes at 1 and at 2. -/
def twoRecords : List UInt8 :=
  (Libs.recordOf (97 :: List.replicate 31 0) 1).bytes ++
    (Libs.recordOf (97 :: List.replicate 31 0) 2).bytes ++ List.replicate 56 0

deriving instance DecidableEq for MountSetup

/-- A mount of the table at the start of device 0, and its file "a": what `sgpart_mount`
returns and the window of the file. -/
def mountedFile (s : Vfs Media SgpartPriv) : Option (Int × Option SgpartPriv) :=
  (sgpartMount s (some (.data (some 0) 0))).bind fun mounted =>
    (mounted.1.nodes 2).bind fun node =>
      if mounted.2.1 = ⟨some 1, none, none⟩ ∧ node.parent = some 1 ∧ node.name = [97] then
        some (mounted.2.2, node.priv)
      else none

/-- The file that is found was mounted as the first child of the root. -/
theorem mountedFile_some {s : Vfs Media SgpartPriv} {ret : Int} {priv : Option SgpartPriv}
    (found : mountedFile s = some (ret, priv)) :
    ∃ s' node, sgpartMount s (some (.data (some 0) 0)) =
        some (s', ⟨some 1, none, none⟩, ret) ∧
      s'.nodes 2 = some node ∧ node.parent = some 1 ∧ node.name = [97] ∧ node.priv = priv := by
  obtain ⟨⟨s', setup, ret'⟩, mounted, rest⟩ := Option.bind_eq_some_iff.mp found
  obtain ⟨node, live, rest⟩ := Option.bind_eq_some_iff.mp rest
  by_cases named : setup = ⟨some 1, none, none⟩ ∧ node.parent = some 1 ∧ node.name = [97]
  · rw [if_pos named] at rest
    obtain ⟨rfl, rfl⟩ := Prod.mk.inj (Option.some.inj rest)
    obtain ⟨rfl, above, name⟩ := named
    exact ⟨s', node, mounted, live, above, name, rfl⟩
  · rw [if_neg named] at rest
    cases rest

/-- Of two records with one name the node reads the window of the first. -/
theorem sgpart_contents_twoRecords :
    ∃ (s' : Vfs Media SgpartPriv) (node : VfsNode Media SgpartPriv) (pi : PartInfo),
      s'.nodes 2 = some node ∧ pi.offset = 1 ∧
        ReadsWindow s'.world twoRecords 0 pi node.priv := by
  have found : mountedFile (Libs.vfsWith twoRecords) =
      some (0, some (.file 0 1 1)) := by decide +kernel
  obtain ⟨s', node, mounted, live, above, -, priv⟩ := mountedFile_some found
  obtain ⟨pi, -, isFile, -, reads⟩ := sgpart_contents (exactInside twoRecords)
    (Libs.vfsWith_tree twoRecords) rfl rfl mounted 2 node live above
  refine ⟨s', node, pi, live, ?_, reads⟩
  exact (SgpartPriv.file.inj (Option.some.inj (isFile.priv.symm.trans priv))).2.1

/-- The allocation for the file of the first record fails. -/
def vfsTight : Vfs Media SgpartPriv :=
  (vfsInit (vfsStatic (fun call => call != 4) fun _ => Libs.exactRead twoRecords)).1

theorem vfsTight_tree : TreeInv vfsTight := by
  have start : (vfsLts sgpartCode).init vfsTight := ⟨_, _, rfl⟩
  exact (FileInv.initial start).tree

/-- Then the second record defines the file. -/
theorem second_record_defines :
    ¬ ∀ (s s' : Vfs Media SgpartPriv) (blkdev offset root : Nat) (medium : List UInt8),
      ExactInside (s.world blkdev) medium → TreeInv s → s.ready = true → s.rootNode.isSome →
      sgpartMount s (some (.data (some blkdev) offset)) =
        some (s', ⟨some root, none, none⟩, 0) →
      ∀ id node, s'.nodes id = some node → node.parent = some root →
        ∃ pi, firstRecord (tableRecords (s.world blkdev) SGPART_MAX_ENTRIES offset) node.name =
          some pi ∧ FileOf node blkdev pi := by
  intro defines
  have found : mountedFile vfsTight =
      some (0, some (.file 0 2 1)) := by decide +kernel
  obtain ⟨s', node, mounted, live, above, named, priv⟩ := mountedFile_some found
  obtain ⟨pi, first, isFile⟩ := defines vfsTight s' 0 0 1 twoRecords (exactInside twoRecords)
    vfsTight_tree rfl rfl mounted 2 node live above
  have isFirst : (firstRecord (tableRecords (vfsTight.world 0) SGPART_MAX_ENTRIES 0) [97]).map
      PartInfo.offset = some 1 := by decide +kernel
  rw [named] at first
  rw [first] at isFirst
  have offset := (SgpartPriv.file.inj (Option.some.inj (isFile.priv.symm.trans priv))).2.1
  rw [Option.map_some, offset] at isFirst
  exact absurd isFirst (by decide)

end Zsbl.Fs
