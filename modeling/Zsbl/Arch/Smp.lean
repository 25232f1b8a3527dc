/-
Module: Zsbl.Arch.Smp
Purpose: The mailbox through which the boot core starts functions on other cores:
  wake_up_other_core of arch/riscv/src/smp.c and the park loop of vector.S.
Trusted boundary: memory is sequentially consistent, one access a step
Main exports:
  SmpContext, Post, Call, wakeUpOtherCore, Hart, parkStep, SmpEvent, smpStep, smpLts
-/
import Zsbl.Lib.Runs
import Mathlib.Logic.Function.Basic

namespace Zsbl.Arch

open Zsbl.Lib

/-! ## Slots -/

def SMP_CONTEXT_SIZE : Nat := 128
def SMP_CONTEXT_SP_OFFSET : Nat := 0
def SMP_CONTEXT_FN_OFFSET : Nat := 8
def SMP_CONTEXT_PRIV_OFFSET : Nat := 16
def SMP_CONTEXT_STACKSIZE_OFFSET : Nat := 24

def DEFAULT_STACK_SIZE : BitVec 64 := 4096

/-- `struct smp_context`, as the words at its offsets. -/
abbrev SmpContext : Type := Nat → BitVec 64

/-! ## The boot core -/

/-- What one `wake_up_other_core` stores. -/
structure Post where
  sp : BitVec 64
  stackSize : BitVec 64
  priv : BitVec 64
  fn : BitVec 64
deriving DecidableEq, Repr

/-- A call of a function with its argument, on the stack below an address. -/
structure Call where
  fn : BitVec 64
  priv : BitVec 64
  top : BitVec 64
deriving DecidableEq, Repr

/-- The call that a post asks for. -/
def Post.call (post : Post) : Call := ⟨post.fn, post.priv, post.sp + post.stackSize⟩

/-- The values that `wake_up_other_core` stores, given what `malloc` returns; it
returns without a store when there is no memory for the stack. -/
def wakeUpOtherCore (fn priv sp : BitVec 64) (stackSize : BitVec 32)
    (malloc : Option (BitVec 64)) : Option Post :=
  if sp = 0 then
    match malloc with
    | none => none
    | some sp => some ⟨sp, DEFAULT_STACK_SIZE, priv, fn⟩
  else some ⟨sp, stackSize.signExtend 64, priv, fn⟩

/-- The next store of `wake_up_other_core`. -/
inductive PostPc where
  | storeSp
  | storeStackSize
  | storePriv
  | storeFn
deriving DecidableEq, Repr

/-! ## The other cores -/

/-- Where a core is between `_secondary_park` and the call: each label is the
access that comes next. -/
inductive ParkPc where
  | off
  | clean (t2 : Nat)
  | pollPriv
  | pollSp
  | pollStackSize
  | pollFn
  | wakePriv
  | wakeSp
  | wakeStackSize
  | wakeFn
  | running
  | clearFn
deriving DecidableEq, Repr

/-- The registers that the park loop keeps something in. -/
structure Hart where
  pc : ParkPc
  a0 : BitVec 64
  sp : BitVec 64
  t5 : BitVec 64
deriving DecidableEq, Repr

/-- What a step does besides loading registers. -/
inductive ParkEffect where
  | none
  | clear (offset : Nat)
  | call (call : Call)
deriving DecidableEq, Repr

/-- The next step of a core, which sees its own slot.  The function that it runs
may return at any time; all registers are loaded again after it. -/
def parkStep (slot : SmpContext) (hart : Hart) : Hart × ParkEffect :=
  match hart.pc with
  | .off => ({ hart with pc := .clean 0 }, .none)
  | .clean t2 =>
      if t2 < SMP_CONTEXT_SIZE then ({ hart with pc := .clean (t2 + 8) }, .clear t2)
      else ({ hart with pc := .pollPriv }, .none)
  | .pollPriv =>
      ({ hart with pc := .pollSp, a0 := slot SMP_CONTEXT_PRIV_OFFSET }, .none)
  | .pollSp =>
      ({ hart with pc := .pollStackSize, t5 := slot SMP_CONTEXT_SP_OFFSET }, .none)
  | .pollStackSize =>
      ({ hart with pc := .pollFn, sp := slot SMP_CONTEXT_STACKSIZE_OFFSET + hart.t5 }, .none)
  | .pollFn =>
      ({ hart with
          pc := if slot SMP_CONTEXT_FN_OFFSET ≠ 0 then .wakePriv else .pollPriv
          t5 := slot SMP_CONTEXT_FN_OFFSET }, .none)
  | .wakePriv =>
      ({ hart with pc := .wakeSp, a0 := slot SMP_CONTEXT_PRIV_OFFSET }, .none)
  | .wakeSp =>
      ({ hart with pc := .wakeStackSize, t5 := slot SMP_CONTEXT_SP_OFFSET }, .none)
  | .wakeStackSize =>
      ({ hart with pc := .wakeFn, sp := slot SMP_CONTEXT_STACKSIZE_OFFSET + hart.t5 }, .none)
  | .wakeFn =>
      ({ hart with pc := .running, t5 := slot SMP_CONTEXT_FN_OFFSET },
        .call ⟨slot SMP_CONTEXT_FN_OFFSET, hart.a0, hart.sp⟩)
  | .running => ({ hart with pc := .clearFn }, .none)
  | .clearFn => ({ hart with pc := .pollPriv }, .clear SMP_CONTEXT_FN_OFFSET)

/-! ## The system -/

/-- The slots, the cores and the post that the boot core is making; and, for the
record, the posts made to each core and the calls made by it. -/
structure SmpState where
  smpContext : Nat → SmpContext
  harts : Nat → Hart
  posting : Option (Nat × Post × PostPc)
  posts : Nat → List Call
  calls : Nat → List Call

def SmpState.store (s : SmpState) (core offset : Nat) (value : BitVec 64) : SmpState :=
  { s with
    smpContext := Function.update s.smpContext core
      (Function.update (s.smpContext core) offset value) }

/-- The boot core enters `wake_up_other_core`, or makes its next store; or a core
takes its next step. -/
inductive SmpEvent where
  | wake (core : Nat) (fn priv sp : BitVec 64) (stackSize : BitVec 32)
      (malloc : Option (BitVec 64))
  | store
  | hart (core : Nat)
deriving DecidableEq, Repr

/-- A store of the post; the one of `fn` completes it. -/
def storePost (s : SmpState) (core : Nat) (post : Post) : PostPc → SmpState
  | .storeSp =>
      { s.store core SMP_CONTEXT_SP_OFFSET post.sp with
        posting := some (core, post, .storeStackSize) }
  | .storeStackSize =>
      { s.store core SMP_CONTEXT_STACKSIZE_OFFSET post.stackSize with
        posting := some (core, post, .storePriv) }
  | .storePriv =>
      { s.store core SMP_CONTEXT_PRIV_OFFSET post.priv with
        posting := some (core, post, .storeFn) }
  | .storeFn =>
      { s.store core SMP_CONTEXT_FN_OFFSET post.fn with
        posting := none
        posts := Function.update s.posts core (s.posts core ++ [post.call]) }

def applyEffect (s : SmpState) (core : Nat) : ParkEffect → SmpState
  | .none => s
  | .clear offset => s.store core offset 0
  | .call call => { s with calls := Function.update s.calls core (s.calls core ++ [call]) }

/-- One step.  The boot core makes one post at a time, to a slot whose `fn` is 0. -/
def smpStep (s : SmpState) : SmpEvent → Option SmpState
  | .wake core fn priv sp stackSize malloc =>
      if s.posting.isSome ∨ s.smpContext core SMP_CONTEXT_FN_OFFSET ≠ 0 then none
      else
        match wakeUpOtherCore fn priv sp stackSize malloc with
        | none => some s
        | some post => some { s with posting := some (core, post, .storeSp) }
  | .store =>
      match s.posting with
      | none => none
      | some (core, post, pc) => some (storePost s core post pc)
  | .hart core =>
      let (hart, effect) := parkStep (s.smpContext core) (s.harts core)
      some (applyEffect { s with harts := Function.update s.harts core hart } core effect)

/-- Before the first step all slots are zero and no core has started. -/
def smpInit : SmpState where
  smpContext := fun _ _ => 0
  harts := fun _ => ⟨.off, 0, 0, 0⟩
  posting := none
  posts := fun _ => []
  calls := fun _ => []

def smpLts : Lts SmpState SmpEvent where
  init s := s = smpInit
  step s event s' := smpStep s event = some s'

end Zsbl.Arch
