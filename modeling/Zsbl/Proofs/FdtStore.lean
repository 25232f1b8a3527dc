/-
Module: Zsbl.Proofs.FdtStore
Purpose: Properties that are written at paths, one after the other, are those of the tree.
Trusted boundary: none
Main exports:
  FdtStore.apply, store_bytes, stores_bytes
-/
import Zsbl.Proofs.FdtProp
import Zsbl.Proofs.FdtSetprop

namespace Zsbl.Libs

open Zsbl.Lib

namespace FdtStore

/-- As many bytes as a store may take. -/
def cost (store : FdtStore) : Nat := store.name.length + store.value.length + 16

/-- The store on the tree. -/
def apply (store : FdtStore) (dt : DtNode) : DtNode :=
  match dt.pathOffset (components store.path) with
  | none => dt
  | some address => dt.update (·.setProp store.name store.value) address

end FdtStore

namespace FdtImage

variable {img : FdtImage}

/-- A store writes the property at the node of its path, or does nothing. -/
theorem store_bytes (img : FdtImage) {store : FdtStore} (valid : store.Valid) :
    ∃ (img' : FdtImage) (err : Int), store.run img.bytes = some (img'.bytes, err) ∧
      match img.dt.pathOffset (components store.path) with
      | none => err = -FDT_ERR_NOTFOUND ∧ img' = img
      | some address => Written img address store.name store.value img' err := by
  cases found : img.dt.pathOffset (components store.path) with
  | none =>
      refine ⟨img, -FDT_ERR_NOTFOUND, ?_, rfl, rfl⟩
      unfold FdtStore.run
      rw [img.pathOffset_bytes valid.absolute, found]
      rfl
  | some address =>
      obtain ⟨node, isNode⟩ := Option.isSome_iff_exists.mp (DtNode.pathOffset_get? found)
      obtain ⟨flat, isFlat, -⟩ := img.node_of_dt isNode
      obtain ⟨img', err, done, written⟩ :=
        setprop_bytes isFlat valid.isString valid.nameShort valid.short
      refine ⟨img', err, ?_, written⟩
      unfold FdtStore.run
      rw [img.pathOffset_bytes valid.absolute, found, Option.bind_eq_bind, Option.bind_some,
        if_neg (not_lt.mpr (nodeOffset_nonneg address)), done]

/-! ### A store at `/uart` -/

def uartStore : FdtStore where
  path := [0x2f, 0x75, 0x61, 0x72, 0x74]
  name := [0x72, 0x65, 0x67]
  value := [0, 0, 0, 8]

theorem uartStore_valid : uartStore.Valid where
  absolute := rfl
  isString := by decide
  nameShort := by decide
  short := by decide

theorem uartStore_address : uartImage.dt.pathOffset (components uartStore.path) = some [0] := rfl

theorem store_bytes_uart : ∃ (img' : FdtImage) (err : Int),
    uartStore.run uartImage.bytes = some (img'.bytes, err) ∧
      Written uartImage [0] uartStore.name uartStore.value img' err := by
  obtain ⟨img', err, runs, outcome⟩ := store_bytes uartImage uartStore_valid
  rw [uartStore_address] at outcome
  exact ⟨img', err, runs, outcome⟩

/-- Where there is space for it, a store is the one of the tree. -/
theorem store_roomy (img : FdtImage) {store : FdtStore} (valid : store.Valid)
    (room : store.cost ≤ img.slack.length) :
    ∃ (img' : FdtImage) (err : Int), store.run img.bytes = some (img'.bytes, err) ∧
      img'.dt = store.apply img.dt ∧ img'.totalsize = img.totalsize ∧
      img.slack.length ≤ img'.slack.length + store.cost ∧
      (err = 0 ∨ err = -FDT_ERR_NOTFOUND ∧ img.dt.pathOffset (components store.path) = none) := by
  obtain ⟨img', err, runs, outcome⟩ := store_bytes img valid
  refine ⟨img', err, runs, ?_⟩
  unfold FdtStore.apply
  cases found : img.dt.pathOffset (components store.path) with
  | none =>
      rw [found] at outcome
      obtain ⟨isErr, rfl⟩ := outcome
      exact ⟨rfl, rfl, Nat.le_add_right _ _, .inr ⟨isErr, rfl⟩⟩
  | some address =>
      rw [found] at outcome
      cases outcome with
      | done dt total left => exact ⟨dt, total, left, .inl rfl⟩
      | noSpace _ _ _ full => exact absurd room (not_le.mpr full)

/-- With space for all of them, every store at a path that there is has its effect, in their
order, and the blob keeps its size. -/
theorem stores_bytes (stores : List FdtStore) (img : FdtImage)
    (valid : ∀ store ∈ stores, store.Valid)
    (room : (stores.map FdtStore.cost).sum ≤ img.slack.length) :
    ∃ (img' : FdtImage) (errs : List Int), fdtStores stores img.bytes = some (img'.bytes, errs) ∧
      img'.dt = stores.foldl (fun dt store => store.apply dt) img.dt ∧
      img'.totalsize = img.totalsize ∧ ∀ err ∈ errs, err = 0 ∨ err = -FDT_ERR_NOTFOUND := by
  induction stores generalizing img with
  | nil => exact ⟨img, [], rfl, rfl, rfl, nofun⟩
  | cons store stores ih =>
      rw [List.map_cons, List.sum_cons] at room
      obtain ⟨img', err, runs, tree, total, left, isErr⟩ :=
        store_roomy img (valid store (List.mem_cons_self ..)) (by omega)
      obtain ⟨img'', errs, runs', tree', total', areErrs⟩ :=
        ih img' (fun other member => valid other (List.mem_cons_of_mem _ member)) (by omega)
      refine ⟨img'', err :: errs, ?_, ?_, total'.trans total, ?_⟩
      · rw [fdtStores, runs, Option.bind_eq_bind, Option.bind_some, runs', Option.bind_eq_bind,
          Option.bind_some]
      · rw [tree', tree, List.foldl_cons]
      · intro other member
        rcases List.mem_cons.mp member with rfl | later
        · exact isErr.imp_right And.left
        · exact areErrs other later

/-- A property that `/uart` does not have. -/
def baudStore : FdtStore where
  path := uartStore.path
  name := [0x62, 0x61, 0x75, 0x64]
  value := [0, 1, 0xc2, 0]

theorem baudStore_valid : baudStore.Valid where
  absolute := rfl
  isString := by decide
  nameShort := by decide
  short := by decide

/-- One property of `/uart` is replaced and one is added. -/
theorem stores_bytes_uartBaud : ∃ (img' : FdtImage) (errs : List Int),
    fdtStores [uartStore, baudStore] uartImage.bytes = some (img'.bytes, errs) ∧
      img'.dt = (uartImage.dt.update (·.setProp uartStore.name uartStore.value) [0]).update
        (·.setProp baudStore.name baudStore.value) [0] := by
  have valid : ∀ store ∈ [uartStore, baudStore], store.Valid := by
    intro store member
    rcases List.mem_pair.mp member with rfl | rfl
    · exact uartStore_valid
    · exact baudStore_valid
  have room : ([uartStore, baudStore].map FdtStore.cost).sum ≤ uartImage.slack.length := by
    decide
  obtain ⟨img', errs, runs, tree, -⟩ := stores_bytes [uartStore, baudStore] uartImage valid room
  refine ⟨img', errs, runs, ?_⟩
  rw [tree, List.foldl_cons, List.foldl_cons, List.foldl_nil, FdtStore.apply, FdtStore.apply,
    uartStore_address]
  rfl

end FdtImage

end Zsbl.Libs
