/-
Module: Zsbl.Libs.Fatio
Purpose: The table of FAT drives of lib/fat32/source/diskio.c and the two places
  that fill it, create_fat_dev of lib/sgfat/sgfat.c and fatfs_mount of fs/fatfs.c.
Trusted boundary: f_mount reads the drive and leaves the table alone
Main exports:
  FatioDev, FatioState, fatioRegister, createFatDev, fatfsMount, FatioCall, fatioLts
-/
import Zsbl.Include.Libc
import Zsbl.Lib.Runs
import Mathlib.Logic.Function.Basic

namespace Zsbl.Libs

open Zsbl.Lib

def FF_VOLUMES : Nat := 8

/-! ## The table -/

/-- Which of the mandatory operations a `struct fatio_ops` has. -/
structure FatioOps where
  read : Bool
  write : Bool
deriving DecidableEq, Repr

/-- `struct fatio_dev`; the `id` holds what was in memory until it is set. -/
structure FatioDev where
  ops : Option FatioOps
  id : Option Nat
deriving DecidableEq, Repr

/-- `fatio_list`, whose entries are addresses, and the devices that are
allocated. -/
structure FatioState where
  fatioList : Vector (Option Nat) FF_VOLUMES
  devs : Nat → Option FatioDev

def FatioState.setDev (s : FatioState) (addr : Nat) (dev : Option FatioDev) : FatioState :=
  { s with devs := Function.update s.devs addr dev }

/-- The search of `fatio_register`, whose loop has no bound: reading past the
table is undefined. -/
def slotFrom : Nat → List (Option Nat) → Option Nat
  | i, none :: _ => some i
  | i, some _ :: rest => slotFrom (i + 1) rest
  | _, [] => none

/-- `fatio_register`; its message about missing operations reads them. -/
def fatioRegister (s : FatioState) (fdev : Nat) : Option (Int × FatioState) := do
  let dev ← s.devs fdev
  let ops ← dev.ops
  if !ops.read || !ops.write then
    return (-EINVAL, s)
  let i ← slotFrom 0 s.fatioList.toList
  if i = FF_VOLUMES then
    return (-ENOMEM, s)
  let s := s.setDev fdev (some { dev with id := some i })
  return (0, { s with fatioList := s.fatioList.setIfInBounds i (some fdev) })

/-- `fatio_alloc` when `malloc` gives the address; the `memset` covers `ops`. -/
def fatioAlloc (s : FatioState) (addr : Nat) : FatioState :=
  s.setDev addr (some ⟨none, none⟩)

/-- The operations of sgfat.c and of fatfs.c, which both read and write. -/
def fatOps : FatioOps := ⟨true, true⟩

/-! ## Its users -/

/-- `create_fat_dev`, given what the allocations return.  Its error paths keep
the drive. -/
def createFatDev (s : FatioState) (bootdev : Bool) (fdev : Option Nat) (sgfat : Bool) :
    Option (Int × FatioState) :=
  if !bootdev then some (-ENOMEM, s)
  else
    match fdev with
    | none => some (-ENOMEM, s)
    | some fdev =>
        let s := fatioAlloc s fdev
        if !sgfat then some (-ENOMEM, s)
        else fatioRegister (s.setDev fdev (some ⟨some fatOps, none⟩)) fdev

/-- `fatfs_mount`, given whether there is a device, what the allocations return,
and whether `f_mount` finds a FAT volume. -/
def fatfsMount (s : FatioState) (data fm : Bool) (fdev : Option Nat)
    (isFat root : Bool) : Option (Int × FatioState) :=
  if !data then some (-EINVAL, s)
  else if !fm then some (-ENOMEM, s)
  else
    match fdev with
    | none => some (-ENOMEM, s)
    | some fdev =>
        let s := (fatioAlloc s fdev).setDev fdev (some ⟨some fatOps, none⟩)
        match fatioRegister s fdev with
        | none => none
        | some (ret, s) =>
            if ret ≠ 0 then some (ret, s.setDev fdev none)
            else if !isFat then some (- EIO, s.setDev fdev none)
            else if !root then some (-ENOMEM, s.setDev fdev none)
            else some (0, s)

/-! ## Runs -/

/-- A call of one of the users. -/
inductive FatioCall where
  | createFatDev (bootdev : Bool) (fdev : Option Nat) (sgfat : Bool)
  | fatfsMount (data fm : Bool) (fdev : Option Nat) (isFat root : Bool)
deriving DecidableEq, Repr

def FatioCall.run (s : FatioState) : FatioCall → Option (Int × FatioState)
  | .createFatDev bootdev fdev sgfat => Libs.createFatDev s bootdev fdev sgfat
  | .fatfsMount data fm fdev isFat root => Libs.fatfsMount s data fm fdev isFat root

/-- What `malloc` gives to a call for its drive. -/
def FatioCall.fdev : FatioCall → Option Nat
  | .createFatDev _ fdev _ => fdev
  | .fatfsMount _ _ fdev _ _ => fdev

/-- `malloc` gives an address that is not in use. -/
def FatioCall.Fresh (s : FatioState) (call : FatioCall) : Prop :=
  ∀ addr, call.fdev = some addr → s.devs addr = none

/-- The call comes to `fatio_register`. -/
def FatioCall.Registers : FatioCall → Prop
  | .createFatDev bootdev fdev sgfat => bootdev = true ∧ fdev.isSome ∧ sgfat = true
  | .fatfsMount data fm fdev _ _ => data = true ∧ fm = true ∧ fdev.isSome

def emptyFatio : FatioState := ⟨.replicate _ none, fun _ => none⟩

def fatioLts : Lts FatioState FatioCall where
  init s := s = emptyFatio
  step s call s' := call.Fresh s ∧ ∃ ret, call.run s = some (ret, s')

end Zsbl.Libs
