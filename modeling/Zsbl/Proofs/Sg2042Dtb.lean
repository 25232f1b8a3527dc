/-
Module: Zsbl.Proofs.Sg2042Dtb
Purpose: When the properties that the sg2042 rewrites are rewritten in a copy of all of the
  device tree.
Trusted boundary: the promises of libfdt are a hypothesis
Main exports:
  Step.Fits, Step.Kept, prepareDtb_totalsize, properties_rewritten
-/
import Zsbl.Plat.Sg2042Dtb
import Zsbl.Proofs.FdtBlob

namespace Zsbl.Plat.Sg2042

open Zsbl.Lib Zsbl.Libs Sg2044

section

variable {β : Type} {lib : Libfdt β} {tree : β → Option DtNode}

/-! ## Calls -/

/-- The size that is recorded for the blob is not less than the one in its header, which a
larger property leaves an `int`, and there is memory. -/
def Step.Fits (lib : Libfdt β) (len : Int) (step : Step β) : Prop :=
  (lib.totalsize step.before).toNat ≤ len ∧
    (lib.totalsize step.before).toNat + step.call.propName.length + step.call.value.length + 35 <
      2 ^ 31 ∧
    ∀ request, step.heap.grants request = true

/-- The copy has space for all of the blob, neither it nor a larger one is left, and the
property is the only change when the call returns 0. -/
def Step.Kept (lib : Libfdt β) (tree : β → Option DtNode) (len : Int) (step : Step β) : Prop :=
  (∃ block, utilfdtRead lib step.heap step.before (sizeT len) = some block ∧
    (lib.totalsize step.before).toNat ≤ block.size) ∧
  ∃ fdt err, step.result = some (fdt, err) ∧
    (err = 0 → Rewritten tree step.call.nodeName step.call.propName step.call.value
      step.before fdt)

/-- A call for a string or for bytes at a path from the root, with no more than 23 bytes in the
name and the value. -/
structure Call.Plain (call : Call) : Prop where
  asItIs : ∀ fresh, storeBuf call.propType fresh call.value = some call.value
  absolute : call.nodeName.head? = some 0x2f
  isString : 0 ∉ call.propName
  short : call.propName.length + call.value.length ≤ 23

theorem Call.Plain.valid {call : Call} (plain : call.Plain) :
    (⟨call.nodeName, call.propName, call.value⟩ : FdtStore).Valid := by
  have short := plain.short
  exact ⟨plain.absolute, plain.isString, show call.propName.length + 1 < 2 ^ 31 by omega,
    show call.value.length + 15 < 2 ^ 31 by omega⟩

/-- The calls for the cpus set properties by absolute paths. -/
theorem modifyCpuNode_plain (m : Machine β) {call : Call} (member : call ∈ modifyCpuNode m) :
    call.Plain := by
  unfold modifyCpuNode modifyChipNode disabledCores at member
  simp only [List.mem_flatMap] at member
  obtain ⟨chip, -, i, -, member⟩ := member
  split at member
  · obtain ⟨j, -, rfl⟩ := List.mem_map.mp member
    exact ⟨fun _ => rfl, rfl, show (0 : UInt8) ∉ ascii "status" by decide,
      show (ascii "status").length + (ascii "dis" ++ [0]).length ≤ 23 by decide⟩
  · cases member

theorem macName_isString : (0 : UInt8) ∉ ascii "local-mac-address" := by decide

/-- The calls for the network set properties by absolute paths. -/
theorem modifyEthNode_plain (cfg : BootConfig) {call : Call} (member : call ∈ modifyEthNode cfg) :
    call.Plain := by
  unfold modifyEthNode at member
  rcases List.mem_append.mp member with first | second
  · split at first
    · rw [List.mem_singleton.mp first]
      exact ⟨fun _ => rfl, rfl, macName_isString, by simp [mac2byte]; decide⟩
    · cases first
  · split at second
    · rw [List.mem_singleton.mp second]
      exact ⟨fun _ => rfl, rfl, macName_isString, by simp [mac2byte]; decide⟩
    · cases second

/-- The calls of a run. -/
theorem plain_of_mem (m : Machine β) {call : Call}
    (member : call ∈ modifyCpuNode m ++ modifyEthNode m.cfg) : call.Plain := by
  rcases List.mem_append.mp member with cpu | eth
  · exact modifyCpuNode_plain m cpu
  · exact modifyEthNode_plain m.cfg eth

/-! ## Runs -/

/-- Each step of the run is one of the calls, made on the tree before it. -/
theorem mem_runCalls {len : Int} {heaps : Nat → Heap} {n : Nat} {calls : List Call} {fdt : β}
    {step : Step β} (member : step ∈ runCalls lib len heaps n calls fdt) :
    step.call ∈ calls ∧
      step.result = ofModifyProp lib step.heap step.before len step.call.nodeName
        step.call.propName step.call.value step.call.propType := by
  induction calls generalizing n fdt with
  | nil => cases member
  | cons call rest ih =>
      unfold runCalls at member
      dsimp only at member
      rcases List.mem_cons.mp member with rfl | later
      · exact ⟨List.mem_cons_self, rfl⟩
      · split at later
        · cases later
        · obtain ⟨isCall, isResult⟩ := ih later
          exact ⟨List.mem_cons_of_mem _ isCall, isResult⟩

/-- The first call finds the tree that the run started from. -/
theorem head_runCalls {len : Int} {heaps : Nat → Heap} {n : Nat} {calls : List Call} {fdt : β}
    {step : Step β} (first : (runCalls lib len heaps n calls fdt).head? = some step) :
    step.before = fdt := by
  cases calls with
  | nil => cases first
  | cons call rest =>
      unfold runCalls at first
      obtain rfl := Option.some.inj first
      rfl

/-- Where so much more is recorded than the blob has, all calls are made and fit: one that
finds no space leaves the blob no more than 58 bytes larger. -/
theorem runCalls_fit (correct : lib.Correct tree) {len : Int} (isInt : len < 2 ^ 31)
    {heaps : Nat → Heap} (granted : ∀ n request, (heaps n).grants request = true)
    {calls : List Call} (plain : ∀ call ∈ calls, call.Plain) (n : Nat) {fdt : β}
    (room : (lib.totalsize fdt).toNat + 58 * calls.length ≤ len) :
    (runCalls lib len heaps n calls fdt).length = calls.length ∧
      ∀ step ∈ runCalls lib len heaps n calls fdt, step.Fits lib len := by
  induction calls generalizing n fdt with
  | nil => exact ⟨rfl, fun _ member => absurd member List.not_mem_nil⟩
  | cons call rest ih =>
      have short := (plain call List.mem_cons_self).short
      rw [List.length_cons] at room
      have small : (lib.totalsize fdt).toNat + call.propName.length + call.value.length + 35 <
          2 ^ 31 := by omega
      have inside : ((lib.totalsize fdt).toNat : Int) ≤ len := by omega
      obtain ⟨-, fdt', err, result, less, -⟩ := ofModifyProp_rewrites correct
        (plain call List.mem_cons_self).valid ((plain call List.mem_cons_self).asItIs _) inside
        isInt small (granted n)
      obtain ⟨isLength, fit⟩ := ih (fun other later => plain other (List.mem_cons_of_mem _ later))
        (n + 1) (show (lib.totalsize fdt').toNat + 58 * rest.length ≤ len by omega)
      unfold runCalls
      dsimp only
      rw [result]
      refine ⟨by rw [List.length_cons, List.length_cons, isLength], fun step member => ?_⟩
      rcases List.mem_cons.mp member with rfl | later
      · exact ⟨inside, small, granted n⟩
      · exact fit step later

/-! ## The enlarged blob -/

theorem mergeDtbs_totalsize (correct : lib.Correct tree) (m : Machine β) (dtb : β) :
    lib.totalsize (mergeDtbs lib m dtb) = lib.totalsize dtb := by
  unfold mergeDtbs
  split
  · rfl
  · exact correct.overlayApply_totalsize _ _

/-- Adding a node does not move the blob. -/
theorem addMemoryNodeTo_totalsize (correct : lib.Correct tree) (fdt : β) (node : MemoryNode) :
    lib.totalsize (addMemoryNodeTo lib fdt node) = lib.totalsize fdt := by
  unfold addMemoryNodeTo
  dsimp only
  split
  · rfl
  · split
    · exact correct.addSubnode_totalsize _ _ _
    · simp only [correct.setprop_totalsize, correct.appendpropAddrrange_totalsize,
        correct.addSubnode_totalsize]

theorem addMemoryNodes_totalsize (correct : lib.Correct tree) (nodes : List MemoryNode)
    (fdt : β) :
    lib.totalsize (nodes.foldl (addMemoryNodeTo lib) fdt) = lib.totalsize fdt := by
  induction nodes generalizing fdt with
  | nil => rfl
  | cons node rest ih => rw [List.foldl_cons, ih, addMemoryNodeTo_totalsize correct]

/-- Rewriting the boot arguments does not move the blob. -/
theorem modifyBootargs_totalsize (correct : lib.Correct tree) (cfg : BootConfig) (fdt : β) :
    lib.totalsize (modifyBootargs lib cfg fdt) = lib.totalsize fdt := by
  have created : lib.totalsize
      (if lib.pathOffset fdt (ascii "/chosen") < 0 then
        lib.addSubnode fdt (lib.pathOffset fdt (ascii "/")) (ascii "chosen")
      else (fdt, lib.pathOffset fdt (ascii "/chosen"))).1 = lib.totalsize fdt := by
    split
    · exact correct.addSubnode_totalsize _ _ _
    · rfl
  unfold modifyBootargs
  dsimp only
  generalize (if lib.pathOffset fdt (ascii "/chosen") < 0 then
    lib.addSubnode fdt (lib.pathOffset fdt (ascii "/")) (ascii "chosen")
    else (fdt, lib.pathOffset fdt (ascii "/chosen"))) = chosen at created ⊢
  split
  · rfl
  · split
    · exact created
    · cases lib.getProperty chosen.1 chosen.2 (ascii "bootargs") with
      | ok data =>
          dsimp only
          split
          · exact created
          · rw [correct.setprop_totalsize, created]
      | error err => rw [correct.setprop_totalsize, created]

/-- The edits in front of the calls leave the size alone that the blob is given. -/
theorem prepareDtb_totalsize (correct : lib.Correct tree) (m : Machine β) :
    lib.totalsize (prepareDtb lib m) = lib.totalsize (loadDtbs lib m).1 := by
  unfold prepareDtb
  dsimp only
  rw [modifyBootargs_totalsize correct, addMemoryNodes_totalsize correct,
    mergeDtbs_totalsize correct]

theorem loadDtbs_totalsize (correct : lib.Correct tree) {m : Machine β}
    (loaded : (loadDtbs lib m).2 = 0) :
    lib.totalsize (loadDtbs lib m).1 = enlargedSize lib m := by
  have moved := correct.openInto_totalsize _ _ _ loaded
  rw [BitVec.ofInt_toInt] at moved
  exact moved

/-- Where the recorded size has the bytes for all calls behind those of the enlarged blob, all
calls are made and fit. -/
theorem modifyDtb_fit (correct : lib.Correct tree) {heaps : Nat → Heap}
    (granted : ∀ n request, (heaps n).grants request = true) {m : Machine β}
    (room : (lib.totalsize (loadDtbs lib m).1).toNat +
      58 * (modifyCpuNode m ++ modifyEthNode m.cfg).length ≤ dtbLen m.cfg) :
    (modifyDtb lib heaps m).length = (modifyCpuNode m ++ modifyEthNode m.cfg).length ∧
      ∀ step ∈ modifyDtb lib heaps m, step.Fits lib (dtbLen m.cfg) := by
  rw [← prepareDtb_totalsize correct] at room
  exact runCalls_fit correct BitVec.toInt_lt granted (fun call => plain_of_mem m) 0 room

/-! ## The main theorem -/

theorem dtbLen_lt (cfg : BootConfig) : dtbLen cfg < 2 ^ 31 := BitVec.toInt_lt

/-- A block is as long as a size that is an `int`. -/
theorem utilfdtRead_size {heap : Heap} {blob : β} {len : Int} {block : Block β}
    (isBlock : utilfdtRead lib heap blob (sizeT len) = some block) (least : -2 ^ 31 ≤ len)
    (most : len < 2 ^ 31) : (block.size : Int) = len := by
  unfold utilfdtRead malloc at isBlock
  split at isBlock
  · next fits =>
    obtain rfl := Option.some.inj isBlock
    have small := fits.2
    unfold sizeT at small ⊢
    rw [BitVec.toNat_ofInt] at small ⊢
    dsimp only
    omega
  · cases isBlock

/-- In a run whose calls all fit each one keeps what it must, and a call that does has not less
recorded than the blob has. The first call finds the blob enlarged if it could be. -/
theorem properties_rewritten (correct : lib.Correct tree) (heaps : Nat → Heap) (m : Machine β) :
    ((∀ step ∈ modifyDtb lib heaps m, step.Fits lib (dtbLen m.cfg)) →
      ∀ step ∈ modifyDtb lib heaps m, step.Kept lib tree (dtbLen m.cfg)) ∧
    (∀ step ∈ modifyDtb lib heaps m, step.Kept lib tree (dtbLen m.cfg) →
      (lib.totalsize step.before).toNat ≤ dtbLen m.cfg) ∧
    ∀ step, (modifyDtb lib heaps m).head? = some step → (loadDtbs lib m).2 = 0 →
      lib.totalsize step.before = enlargedSize lib m := by
  refine ⟨fun fits step member => ?_, fun step member kept => ?_, fun step first loaded => ?_⟩
  · obtain ⟨isCall, isResult⟩ := mem_runCalls member
    obtain ⟨inside, small, granted⟩ := fits step member
    unfold Step.Kept
    rw [isResult]
    obtain ⟨copied, fdt, err, result, -, rewritten⟩ := ofModifyProp_rewrites correct
      (plain_of_mem m isCall).valid ((plain_of_mem m isCall).asItIs _) inside (dtbLen_lt m.cfg)
      small granted
    exact ⟨copied, fdt, err, result, rewritten⟩
  · obtain ⟨block, isBlock, inside⟩ := kept.1
    have isSize := utilfdtRead_size isBlock (BitVec.le_toInt _) (dtbLen_lt m.cfg)
    omega
  · rw [head_runCalls first, prepareDtb_totalsize correct, loadDtbs_totalsize correct loaded]

end

/-! ## Two machines -/

/-- The name of a node that ends at a word. -/
def wordName (name : String) (isString : 0 ∉ ascii name)
    (aligned : ((ascii name).length + 1 + 0) % 4 = 0) : FlatName :=
  ⟨ascii name, [], isString, aligned, Nat.zero_lt_succ 3⟩

/-- A device tree with an ethernet controller, in 300 bytes. -/
def ethernetLayout : FdtLayout where
  offMemRsvmap := 40
  lastCompVersion := 16
  bootCpuidPhys := 0
  reserve := List.replicate 16 0
  root := .node ⟨rootName, []⟩ [.node ⟨wordName "soc" (by decide) rfl, []⟩
    [.node ⟨wordName "ethernet@7040026000" (by decide) rfl,
      [⟨0, List.replicate 6 0, [0, 0], rfl, by decide⟩]⟩ []]]
  gap := []
  strings := ascii "local-mac-address" ++ [0]
  slack := List.replicate 150 0

/-- Every property of the layout has its name in the strings. -/
theorem ethernetLayout_named (prop : FlatProp)
    (member : .prop prop ∈ flatTokens ethernetLayout.root) :
    prop.Named ethernetLayout.strings := by
  have terminated : (0 : UInt8) ∈ (ascii "local-mac-address" ++ [0]).drop 0 := by decide
  simp only [ethernetLayout, flatTokens_eq, OrderedTree.label_node, OrderedTree.children_node,
    flatForest_cons, flatForest_nil, List.map_nil, List.map_cons, List.nil_append,
    List.cons_append, List.append_nil, List.mem_cons, List.not_mem_nil,
    reduceCtorEq, FdtToken.prop.injEq, false_or, or_false] at member
  subst member
  exact terminated

def ethernetImage : FdtImage where
  toFdtLayout := ethernetLayout
  lastComp_le := by decide
  offMemRsvmap_ge := by decide
  reserved := by decide
  small := by decide +kernel
  named := ethernetLayout_named

theorem ethernetImage_totalsize : ethernetImage.totalsize = 300 := by decide +kernel

/-- A machine with this device tree in a file of some size, and with a MAC address. -/
def ethernetMachine (size : Nat) : Machine FdtBlob where
  cfg :=
    { board := ⟨false, []⟩
      dtb := ⟨some (ascii "mango.dtb"), 0x20000000, size⟩
      dtbo := ⟨none, 0, 0⟩
      ramfs := ⟨none, 0x30000000, 0⟩
      mac0 := 0x001122334455
      mac1 := 0 }
  dtb := .image ethernetImage
  dtbo := .image ethernetImage
  base := .image ethernetImage
  clusterId := fun _ _ => 0
  clusterStatus := fun _ _ => 1

def enoughMemory : Nat → Heap := fun _ => ⟨fun _ => true, []⟩

theorem ethernetMachine_calls (size : Nat) :
    modifyCpuNode (ethernetMachine size) ++ modifyEthNode (ethernetMachine size).cfg =
      [⟨ascii "/soc/ethernet@7040026000/", ascii "local-mac-address",
        mac2byte 0x001122334455, .u8⟩] := rfl

/-- The enlarged blob has the tree in 16688 bytes. -/
theorem ethernetMachine_prepared (size : Nat) : ∃ img : FdtImage,
    prepareDtb imageFdt (ethernetMachine size) = .image img ∧ img.dt = ethernetImage.dt ∧
      img.totalsize = 16688 ∧ 150 ≤ img.slack.length := by
  have enlarged : (enlargedSize imageFdt (ethernetMachine size)).toInt = 16688 := by
    have total : imageFdt.totalsize (.image ethernetImage) = 300#32 := by
      change (FdtBlob.image ethernetImage).totalsize = 300#32
      rw [FdtBlob.totalsize_image, ethernetImage_totalsize]
    unfold enlargedSize
    change (roundUp (imageFdt.totalsize (.image ethernetImage) + 0#32 +
      BitVec.ofNat 32 (16 * 1024)) 8).toInt = 16688
    rw [total]
    decide
  obtain ⟨img, moved, root, strings, total, slack, -⟩ := FdtBlob.openInto_image
    (show (ethernetImage.totalsize : Int) ≤ 16688 by rw [ethernetImage_totalsize]; decide)
    (show (16688 : Int) < INT32_MAX by decide) (.image ethernetImage)
  refine ⟨img, ?_, ?_, by omega, slack⟩
  · have loaded : (loadDtbs imageFdt (ethernetMachine size)).1 = .image img := by
      have isLoaded : loadedFrom (ethernetMachine size) = .image ethernetImage := rfl
      have isBlob : (ethernetMachine size).dtb = .image ethernetImage := rfl
      unfold loadDtbs
      rw [enlarged, imageFdt_openInto, isLoaded, isBlob, moved]
    have alone : prepareDtb imageFdt (ethernetMachine size) =
        (loadDtbs imageFdt (ethernetMachine size)).1 := rfl
    rw [alone, loaded]
  · unfold FdtImage.dt
    rw [root, strings]

/-- The path of the controller with the name and the value of its property. -/
def ethernetStore : FdtStore where
  path := ascii "/soc/ethernet@7040026000/"
  name := ascii "local-mac-address"
  value := mac2byte 0x001122334455

theorem ethernetStore_valid : ethernetStore.Valid where
  absolute := rfl
  isString := macName_isString
  nameShort := by decide +kernel
  short := by decide +kernel

theorem ethernetStore_address :
    ethernetImage.dt.pathOffset (components ethernetStore.path) = some [0, 0] := by
  decide +kernel

/-- The run makes one call. -/
theorem ethernetMachine_run (size : Nat) : ∃ step,
    modifyDtb imageFdt enoughMemory (ethernetMachine size) = [step] ∧
      step.call = ⟨ethernetStore.path, ethernetStore.name, ethernetStore.value, .u8⟩ ∧
      step.before = prepareDtb imageFdt (ethernetMachine size) ∧
      step.result = ofModifyProp imageFdt (enoughMemory 0) step.before
        (dtbLen (ethernetMachine size).cfg) ethernetStore.path ethernetStore.name
        ethernetStore.value .u8 := by
  unfold modifyDtb
  rw [ethernetMachine_calls]
  unfold runCalls
  dsimp only
  split
  · exact ⟨_, rfl, rfl, rfl, rfl⟩
  · exact ⟨_, rfl, rfl, rfl, rfl⟩

/-- With 20000 bytes recorded the MAC address is written to a copy of all of the blob. -/
theorem properties_rewritten_padded : ∃ step fdt,
    modifyDtb imageFdt enoughMemory (ethernetMachine 20000) = [step] ∧
      step.Kept imageFdt FdtBlob.tree 20000 ∧ step.result = some (fdt, 0) ∧
      fdt.tree = some (ethernetImage.dt.update
        (·.setProp (ascii "local-mac-address") [0x00, 0x11, 0x22, 0x33, 0x44, 0x55]) [0, 0]) := by
  obtain ⟨img, prepared, sameTree, total, slack⟩ := ethernetMachine_prepared 20000
  obtain ⟨step, run, isCall, isBefore, isResult⟩ := ethernetMachine_run 20000
  have isLen : dtbLen (ethernetMachine 20000).cfg = (20000 : Nat) := rfl
  have room : (imageFdt.totalsize (loadDtbs imageFdt (ethernetMachine 20000)).1).toNat +
      58 * (modifyCpuNode (ethernetMachine 20000) ++
        modifyEthNode (ethernetMachine 20000).cfg).length ≤ dtbLen (ethernetMachine 20000).cfg := by
    rw [← prepareDtb_totalsize imageFdt_correct, prepared, ethernetMachine_calls]
    change ((FdtBlob.image img).totalsize.toNat : Int) + 58 ≤ 20000
    rw [FdtBlob.toNat_totalsize, total]
    decide
  obtain ⟨-, fits⟩ := modifyDtb_fit imageFdt_correct
    (show ∀ n request, (enoughMemory n).grants request = true from fun _ _ => rfl) room
  have kept := (properties_rewritten imageFdt_correct enoughMemory (ethernetMachine 20000)).1 fits
    step (run ▸ List.mem_singleton_self step)
  rw [prepared] at isBefore
  have cost : ethernetStore.cost = 39 := by decide +kernel
  have isBuf : storeBuf .u8 (enoughMemory 0).fresh ethernetStore.value =
      some ethernetStore.value := rfl
  obtain ⟨fdt, done⟩ := ofModifyProp_image (enoughMemory 0) (fun _ => rfl) ethernetStore_valid
    isBuf (show ethernetStore.cost ≤ img.slack.length by omega)
    (sameTree ▸ ethernetStore_address) (show img.totalsize ≤ 20000 by omega) (by decide)
  rw [isBefore, isLen, done] at isResult
  refine ⟨step, fdt, run, kept, isResult, ?_⟩
  obtain ⟨-, fdt', err, result, rewritten⟩ := kept
  obtain ⟨rfl, rfl⟩ := Prod.mk.inj (Option.some.inj (result.symm.trans isResult))
  obtain ⟨root, address, isRoot, isAddress, isNew⟩ := rewritten rfl
  rw [isBefore] at isRoot
  rw [isCall] at isAddress isNew
  obtain rfl : ethernetImage.dt = root := sameTree ▸ Option.some.inj isRoot
  obtain rfl := Option.some.inj (ethernetStore_address.symm.trans isAddress)
  exact isNew

/-- With the 300 bytes recorded that the blob had in the file it is not. -/
theorem file_size_is_too_small :
    imageFdt.Correct FdtBlob.tree ∧
      ¬ ∀ step ∈ modifyDtb imageFdt enoughMemory (ethernetMachine 300),
        step.Kept imageFdt FdtBlob.tree 300 := by
  refine ⟨imageFdt_correct, fun kept => ?_⟩
  obtain ⟨img, prepared, -, total, -⟩ := ethernetMachine_prepared 300
  obtain ⟨step, run, -, isBefore, -⟩ := ethernetMachine_run 300
  obtain ⟨⟨block, isBlock, inside⟩, -⟩ := kept step (run ▸ List.mem_singleton_self step)
  have isSize := utilfdtRead_size isBlock (by decide) (by decide)
  have large : (FdtBlob.image img).totalsize.toNat ≤ block.size := by
    rw [isBefore, prepared] at inside
    exact inside
  rw [FdtBlob.toNat_totalsize, total] at large
  omega

end Zsbl.Plat.Sg2042
