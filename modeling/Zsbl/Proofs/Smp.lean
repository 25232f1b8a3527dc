/-
Module: Zsbl.Proofs.Smp
Purpose: No post is lost, doubled or mixed up, as long as no core clears a word of
  its slot after the boot core has stored to it.
Trusted boundary: none
Main exports:
  wakeups, Loses, CleansZero, mailbox, wakeup_lost
-/
import Zsbl.Arch.Smp

namespace Zsbl.Arch

open Zsbl.Lib

/-! ## The properties -/

/-- The calls that the posts to a core ask for. -/
def SmpState.wakeups (s : SmpState) (core : Nat) : List Call :=
  (s.posts core).filter (·.fn ≠ 0)

/-- The step clears the `fn` of a post that the core has not called. -/
def Loses (s : SmpState) : SmpEvent → Prop
  | .hart core =>
      (parkStep (s.smpContext core) (s.harts core)).2 = .clear SMP_CONTEXT_FN_OFFSET ∧
        s.calls core ≠ s.wakeups core
  | _ => False

/-- A core that starts clears only words that are zero. -/
def CleansZero (s : SmpState) : SmpEvent → Prop
  | .hart core => ∀ t2, (s.harts core).pc = .clean t2 → t2 < SMP_CONTEXT_SIZE →
      s.smpContext core t2 = 0
  | _ => True

/-- The condition of a core's step, by where the core is. -/
def SmpState.cleansZero (s : SmpState) (core : Nat) : Bool :=
  match (s.harts core).pc with
  | .clean t2 => decide (t2 < SMP_CONTEXT_SIZE → s.smpContext core t2 = 0)
  | _ => true

theorem cleansZero_iff (s : SmpState) (core : Nat) :
    s.cleansZero core = true ↔ CleansZero s (.hart core) := by
  dsimp only [SmpState.cleansZero, CleansZero]
  cases (s.harts core).pc with
  | clean t2 => simp only [decide_eq_true_eq, ParkPc.clean.injEq, forall_eq']
  | _ => simp

instance CleansZero.decidable (s : SmpState) : (event : SmpEvent) → Decidable (CleansZero s event)
  | .hart core => decidable_of_iff _ (cleansZero_iff s core)
  | .wake .. => .isTrue trivial
  | .store => .isTrue trivial

/-! ## The invariant -/

/-- The core has seen a post and has not yet called its function. -/
def ParkPc.Woken : ParkPc → Prop
  | .wakePriv | .wakeSp | .wakeStackSize | .wakeFn => True
  | _ => False

/-- The core has called the function of a post and has not yet cleared it. -/
def ParkPc.Called : ParkPc → Prop
  | .running | .clearFn => True
  | _ => False

/-- The slot holds the call. -/
def Shows (slot : SmpContext) (call : Call) : Prop :=
  slot SMP_CONTEXT_FN_OFFSET = call.fn ∧ slot SMP_CONTEXT_PRIV_OFFSET = call.priv ∧
    slot SMP_CONTEXT_SP_OFFSET + slot SMP_CONTEXT_STACKSIZE_OFFSET = call.top

/-- What a woken core has loaded so far belongs to the call. -/
def Loaded (slot : SmpContext) (call : Call) (hart : Hart) : Prop :=
  match hart.pc with
  | .wakeSp => hart.a0 = call.priv
  | .wakeStackSize => hart.a0 = call.priv ∧ hart.t5 = slot SMP_CONTEXT_SP_OFFSET
  | .wakeFn => hart.a0 = call.priv ∧ hart.sp = call.top
  | _ => True

/-- What the boot core has stored so far. -/
def Stored (slot : SmpContext) (post : Post) : PostPc → Prop
  | .storeSp => True
  | .storeStackSize => slot SMP_CONTEXT_SP_OFFSET = post.sp
  | .storePriv =>
      slot SMP_CONTEXT_SP_OFFSET = post.sp ∧
        slot SMP_CONTEXT_STACKSIZE_OFFSET = post.stackSize
  | .storeFn =>
      slot SMP_CONTEXT_SP_OFFSET = post.sp ∧
        slot SMP_CONTEXT_STACKSIZE_OFFSET = post.stackSize ∧
        slot SMP_CONTEXT_PRIV_OFFSET = post.priv

/-- A slot without a `fn` has no call to make and none in progress. -/
structure Vacant (slot : SmpContext) (hart : Hart) (wakeups calls : List Call) : Prop where
  noFn : slot SMP_CONTEXT_FN_OFFSET = 0
  settled : calls = wakeups
  notWoken : ¬ hart.pc.Woken
  notCalled : ¬ hart.pc.Called

/-- A slot with a `fn` holds the last post, whose call is the next one, or is in
progress. -/
structure Occupied (slot : SmpContext) (hart : Hart) (wakeups calls : List Call) : Prop where
  hasFn : slot SMP_CONTEXT_FN_OFFSET ≠ 0
  shown : ∃ call, Shows slot call ∧ Loaded slot call hart ∧
    (hart.pc.Called ∧ calls = wakeups ∨ ¬ hart.pc.Called ∧ wakeups = calls ++ [call])

/-- The state of one mailbox. -/
structure SlotInv (s : SmpState) (core : Nat) : Prop where
  phase : Vacant (s.smpContext core) (s.harts core) (s.wakeups core) (s.calls core) ∨
    Occupied (s.smpContext core) (s.harts core) (s.wakeups core) (s.calls core)
  stored : ∀ post pc, s.posting = some (core, post, pc) →
    s.smpContext core SMP_CONTEXT_FN_OFFSET = 0 ∧ Stored (s.smpContext core) post pc

def SmpInv (s : SmpState) : Prop := ∀ core, SlotInv s core

theorem SmpInv.init : SmpInv smpInit := by
  intro core
  constructor
  · left
    exact ⟨rfl, rfl, id, id⟩
  · intro post pc posting
    simp [smpInit] at posting

/-! ## Steps of the boot core -/

theorem Vacant.frame {slot slot' : SmpContext} {hart : Hart} {wakeups calls : List Call}
    (vacant : Vacant slot hart wakeups calls)
    (same : slot' SMP_CONTEXT_FN_OFFSET = slot SMP_CONTEXT_FN_OFFSET) :
    Vacant slot' hart wakeups calls :=
  { vacant with noFn := same.trans vacant.noFn }

/-- A mailbox does not see what happens at the others. -/
theorem SlotInv.frame {s s' : SmpState} {core : Nat} (inv : SlotInv s core)
    (slot : s'.smpContext core = s.smpContext core) (hart : s'.harts core = s.harts core)
    (posts : s'.posts core = s.posts core) (calls : s'.calls core = s.calls core)
    (posting : ∀ post pc, s'.posting = some (core, post, pc) →
      s.posting = some (core, post, pc)) : SlotInv s' core := by
  have wakeups : s'.wakeups core = s.wakeups core := by simp [SmpState.wakeups, posts]
  constructor
  · rw [slot, hart, wakeups, calls]
    exact inv.phase
  · intro post pc made
    rw [slot]
    exact inv.stored post pc (posting post pc made)

theorem SlotInv.vacant {s : SmpState} {core : Nat} (inv : SlotInv s core)
    (noFn : s.smpContext core SMP_CONTEXT_FN_OFFSET = 0) :
    Vacant (s.smpContext core) (s.harts core) (s.wakeups core) (s.calls core) := by
  rcases inv.phase with vacant | occupied
  · exact vacant
  · exact (occupied.hasFn noFn).elim

/-- Waking a core up begins a post to its slot. -/
theorem SmpInv.wake {s s' : SmpState} (inv : SmpInv s) {core : Nat}
    {fn priv sp : BitVec 64} {stackSize : BitVec 32} {malloc : Option (BitVec 64)}
    (taken : smpStep s (.wake core fn priv sp stackSize malloc) = some s') : SmpInv s' := by
  simp only [smpStep] at taken
  split at taken
  · simp at taken
  · rename_i may
    have noFn : s.smpContext core SMP_CONTEXT_FN_OFFSET = 0 := by
      by_cases noFn : s.smpContext core SMP_CONTEXT_FN_OFFSET = 0
      · exact noFn
      · exact (may (.inr noFn)).elim
    split at taken
    · obtain rfl := Option.some.inj taken
      exact inv
    · obtain rfl := Option.some.inj taken
      intro other
      constructor
      · exact (inv other).phase
      · intro post pc posting
        simp only [Option.some.injEq, Prod.mk.injEq] at posting
        obtain ⟨rfl, rfl, rfl⟩ := posting
        exact ⟨noFn, trivial⟩

/-- A store before the one of `fn` leaves the slot vacant. -/
theorem SlotInv.partly {s : SmpState} {core offset : Nat} {value : BitVec 64} {post : Post}
    {next : PostPc} (inv : SlotInv s core)
    (noFn : s.smpContext core SMP_CONTEXT_FN_OFFSET = 0)
    (notFn : SMP_CONTEXT_FN_OFFSET ≠ offset)
    (stored : Stored (Function.update (s.smpContext core) offset value) post next) :
    SlotInv { s.store core offset value with posting := some (core, post, next) } core := by
  have same : Function.update (s.smpContext core) offset value SMP_CONTEXT_FN_OFFSET =
      s.smpContext core SMP_CONTEXT_FN_OFFSET := Function.update_of_ne notFn ..
  constructor
  · left
    simp only [SmpState.store, Function.update_self]
    exact (inv.vacant noFn).frame same
  · intro post' pc posting
    simp only [Option.some.injEq, Prod.mk.injEq, true_and] at posting
    obtain ⟨rfl, rfl⟩ := posting
    simp only [SmpState.store, Function.update_self]
    exact ⟨same.trans noFn, stored⟩

/-- The store of `fn` makes the post the next call. -/
theorem Vacant.posted {slot : SmpContext} {hart : Hart} {wakeups calls : List Call}
    (vacant : Vacant slot hart wakeups calls) {post : Post} (hasFn : post.fn ≠ 0)
    (stored : Stored slot post .storeFn) :
    Occupied (Function.update slot SMP_CONTEXT_FN_OFFSET post.fn) hart
      (wakeups ++ [post.call]) calls := by
  obtain ⟨sp, stackSize, priv⟩ := stored
  constructor
  · rwa [Function.update_self]
  · refine ⟨post.call, ⟨Function.update_self .., ?_, ?_⟩, ?_, .inr ⟨vacant.notCalled, ?_⟩⟩
    · exact priv
    · exact congrArg₂ (· + ·) sp stackSize
    · unfold Loaded
      split
      · exact (vacant.notWoken (by simp [ParkPc.Woken, *])).elim
      · exact (vacant.notWoken (by simp [ParkPc.Woken, *])).elim
      · exact (vacant.notWoken (by simp [ParkPc.Woken, *])).elim
      · trivial
    · rw [vacant.settled]

/-- The store of the function makes the post visible to its core. -/
theorem SlotInv.posted {s : SmpState} {core : Nat} {post : Post} (inv : SlotInv s core)
    (posting : s.posting = some (core, post, .storeFn)) :
    SlotInv (storePost s core post .storeFn) core := by
  obtain ⟨noFn, stored⟩ := inv.stored post .storeFn posting
  have vacant := inv.vacant noFn
  constructor
  · simp only [storePost, SmpState.store, SmpState.wakeups, Function.update_self,
      List.filter_append]
    by_cases hasFn : post.fn = 0
    · left
      have same : Function.update (s.smpContext core) SMP_CONTEXT_FN_OFFSET post.fn
          SMP_CONTEXT_FN_OFFSET = s.smpContext core SMP_CONTEXT_FN_OFFSET := by
        rw [Function.update_self, hasFn, noFn]
      simpa [Post.call, hasFn, SmpState.wakeups] using vacant.frame same
    · right
      have called : [post.call].filter (·.fn ≠ 0) = [post.call] := by
        simpa [Post.call] using hasFn
      rw [called]
      exact vacant.posted hasFn stored
  · intro post' pc made
    simp [storePost] at made

/-- A store of the post in progress. -/
theorem SlotInv.store {s : SmpState} {core : Nat} {post : Post} {pc : PostPc}
    (inv : SlotInv s core) (posting : s.posting = some (core, post, pc)) :
    SlotInv (storePost s core post pc) core := by
  obtain ⟨noFn, stored⟩ := inv.stored post pc posting
  cases pc with
  | storeSp => exact inv.partly noFn (by decide) (Function.update_self ..)
  | storeStackSize =>
      exact inv.partly noFn (by decide) ⟨stored, Function.update_self ..⟩
  | storePriv =>
      exact inv.partly noFn (by decide) ⟨stored.1, stored.2, Function.update_self ..⟩
  | storeFn => exact inv.posted posting

/-- The stores of a post come one by one. -/
theorem SmpInv.store {s s' : SmpState} (inv : SmpInv s)
    (taken : smpStep s .store = some s') : SmpInv s' := by
  simp only [smpStep] at taken
  split at taken
  · simp at taken
  · rename_i core post pc posting
    obtain rfl := Option.some.inj taken
    intro other
    by_cases here : other = core
    · subst here
      exact (inv other).store posting
    · apply (inv other).frame <;> cases pc <;>
        simp [storePost, SmpState.store, here, Ne.symm here]

/-! ## Steps of the other cores -/

def slotAfter (slot : SmpContext) : ParkEffect → SmpContext
  | .clear offset => Function.update slot offset 0
  | _ => slot

def callsAfter (calls : List Call) : ParkEffect → List Call
  | .call call => calls ++ [call]
  | _ => calls

theorem parkStep_clean {slot : SmpContext} {hart : Hart} {t2 : Nat}
    (pc : hart.pc = .clean t2) : parkStep slot hart =
      if t2 < SMP_CONTEXT_SIZE then ({ hart with pc := .clean (t2 + 8) }, .clear t2)
      else ({ hart with pc := .pollPriv }, .none) := by
  simp only [parkStep, pc]

/-- Only the step after a call changes the slot. -/
theorem slotAfter_parkStep {slot : SmpContext} {hart : Hart}
    (zero : ∀ t2, hart.pc = .clean t2 → t2 < SMP_CONTEXT_SIZE → slot t2 = 0)
    (notClear : hart.pc ≠ .clearFn) : slotAfter slot (parkStep slot hart).2 = slot := by
  cases pc : hart.pc with
  | clean t2 =>
      rw [parkStep_clean pc]
      split
      · rename_i inside
        exact Function.update_eq_self_iff.mpr (zero t2 pc inside).symm
      · rfl
  | clearFn => exact (notClear pc).elim
  | _ => simp only [parkStep, pc, slotAfter]

/-- A core polls an empty slot until it is posted to. -/
theorem Vacant.step {slot : SmpContext} {hart : Hart} {wakeups calls : List Call}
    (vacant : Vacant slot hart wakeups calls)
    (zero : ∀ t2, hart.pc = .clean t2 → t2 < SMP_CONTEXT_SIZE → slot t2 = 0) :
    Vacant (slotAfter slot (parkStep slot hart).2) (parkStep slot hart).1 wakeups
      (callsAfter calls (parkStep slot hart).2) := by
  have notClear : hart.pc ≠ .clearFn := by
    intro pc
    exact vacant.notCalled (by simp [ParkPc.Called, pc])
  rw [slotAfter_parkStep zero notClear]
  obtain ⟨noFn, settled, notWoken, notCalled⟩ := vacant
  cases pc : hart.pc with
  | clean t2 =>
      rw [parkStep_clean pc]
      split <;> exact ⟨noFn, settled, id, id⟩
  | _ => constructor <;> simp_all [parkStep, callsAfter, ParkPc.Woken, ParkPc.Called]

/-- A step of a core leaves the post in its slot unless it clears it. -/
theorem Occupied.step {slot : SmpContext} {hart : Hart} {wakeups calls : List Call}
    (occupied : Occupied slot hart wakeups calls)
    (zero : ∀ t2, hart.pc = .clean t2 → t2 < SMP_CONTEXT_SIZE → slot t2 = 0)
    (notClear : hart.pc ≠ .clearFn) :
    Occupied (slotAfter slot (parkStep slot hart).2) (parkStep slot hart).1 wakeups
      (callsAfter calls (parkStep slot hart).2) := by
  rw [slotAfter_parkStep zero notClear]
  obtain ⟨hasFn, call, shows, loaded, progress⟩ := occupied
  refine ⟨hasFn, call, shows, ?_⟩
  obtain ⟨isFn, isPriv, isTop⟩ := shows
  cases pc : hart.pc with
  | clean t2 =>
      rw [parkStep_clean pc]
      split <;> simp_all [callsAfter, Loaded, ParkPc.Called]
  | wakeStackSize =>
      have top : slot SMP_CONTEXT_STACKSIZE_OFFSET + slot SMP_CONTEXT_SP_OFFSET = call.top := by
        rw [BitVec.add_comm]
        exact isTop
      simp_all [parkStep, callsAfter, Loaded, ParkPc.Called]
  | clearFn => exact (notClear pc).elim
  | _ => simp_all [parkStep, callsAfter, Loaded, ParkPc.Called]

/-- The core clears its `fn` after the call. -/
theorem Occupied.cleared {slot : SmpContext} {hart : Hart} {wakeups calls : List Call}
    (occupied : Occupied slot hart wakeups calls) (pc : hart.pc = .clearFn) :
    Vacant (slotAfter slot (parkStep slot hart).2) (parkStep slot hart).1 wakeups
      (callsAfter calls (parkStep slot hart).2) := by
  obtain ⟨hasFn, call, shows, loaded, progress⟩ := occupied
  constructor <;>
    simp_all [parkStep, slotAfter, callsAfter, ParkPc.Woken, ParkPc.Called]

theorem slotAfter_eq (s : SmpState) (core : Nat) (effect : ParkEffect) :
    (applyEffect s core effect).smpContext core = slotAfter (s.smpContext core) effect := by
  cases effect <;> simp [applyEffect, slotAfter, SmpState.store]

theorem callsAfter_eq (s : SmpState) (core : Nat) (effect : ParkEffect) :
    (applyEffect s core effect).calls core = callsAfter (s.calls core) effect := by
  cases effect <;> simp [applyEffect, callsAfter, SmpState.store]

@[simp] theorem applyEffect_harts (s : SmpState) (core : Nat) (effect : ParkEffect) :
    (applyEffect s core effect).harts = s.harts := by
  cases effect <;> rfl

@[simp] theorem applyEffect_posting (s : SmpState) (core : Nat) (effect : ParkEffect) :
    (applyEffect s core effect).posting = s.posting := by
  cases effect <;> rfl

@[simp] theorem applyEffect_posts (s : SmpState) (core : Nat) (effect : ParkEffect) :
    (applyEffect s core effect).posts = s.posts := by
  cases effect <;> rfl

theorem smpStep_hart (s : SmpState) (core : Nat) :
    smpStep s (.hart core) =
      some (applyEffect
        { s with
          harts := Function.update s.harts core (parkStep (s.smpContext core) (s.harts core)).1 }
        core (parkStep (s.smpContext core) (s.harts core)).2) :=
  rfl

/-- A step of the core whose mailbox it is. -/
theorem SlotInv.hart {s s' : SmpState} {core : Nat} (inv : SlotInv s core)
    (zero : CleansZero s (.hart core)) (taken : smpStep s (.hart core) = some s') :
    SlotInv s' core := by
  rw [smpStep_hart] at taken
  obtain rfl := Option.some.inj taken
  constructor
  · simp only [slotAfter_eq, callsAfter_eq, applyEffect_harts, Function.update_self,
      SmpState.wakeups, applyEffect_posts]
    rcases inv.phase with vacant | occupied
    · exact .inl (vacant.step zero)
    · by_cases pc : (s.harts core).pc = .clearFn
      · exact .inl (occupied.cleared pc)
      · exact .inr (occupied.step zero pc)
  · intro post pc posting
    rw [applyEffect_posting] at posting
    obtain ⟨noFn, stored⟩ := inv.stored post pc posting
    have notClear : (s.harts core).pc ≠ .clearFn := by
      intro pc
      exact (inv.vacant noFn).notCalled (by simp [ParkPc.Called, pc])
    rw [slotAfter_eq]
    simp only [slotAfter_parkStep zero notClear]
    exact ⟨noFn, stored⟩

/-- A step of a core keeps its slot right. -/
theorem SmpInv.hart {s s' : SmpState} (inv : SmpInv s) {core : Nat}
    (zero : CleansZero s (.hart core)) (taken : smpStep s (.hart core) = some s') :
    SmpInv s' := by
  intro other
  by_cases here : other = core
  · subst here
    exact (inv other).hart zero taken
  · rw [smpStep_hart] at taken
    obtain rfl := Option.some.inj taken
    apply (inv other).frame
    · cases (parkStep (s.smpContext core) (s.harts core)).2 <;>
        simp [applyEffect, SmpState.store, here]
    · simp [here]
    · simp
    · cases (parkStep (s.smpContext core) (s.harts core)).2 <;>
        simp [applyEffect, SmpState.store, here]
    · simp

/-! ## Runs -/

theorem SmpInv.step {s s' : SmpState} (inv : SmpInv s) {event : SmpEvent}
    (zero : CleansZero s event) (taken : smpStep s event = some s') : SmpInv s' := by
  cases event with
  | wake core fn priv sp stackSize malloc => exact inv.wake taken
  | store => exact inv.store taken
  | hart core => exact inv.hart zero taken

theorem SmpInv.reachable {s : SmpState} (reached : smpLts.ReachableWhile CleansZero s) :
    SmpInv s := by
  apply reached.invariant SmpInv
  · rintro s rfl
    exact .init
  · intro s event s' _ inv zero taken
    exact inv.step zero taken

theorem SlotInv.calls_isPrefix {s : SmpState} {core : Nat} (inv : SlotInv s core) :
    s.calls core <+: s.wakeups core := by
  rcases inv.phase with vacant | occupied
  · exact vacant.settled ▸ List.prefix_rfl
  · obtain ⟨call, -, -, ⟨-, settled⟩ | ⟨-, next⟩⟩ := occupied.shown
    · exact settled ▸ List.prefix_rfl
    · exact ⟨[call], next.symm⟩

/-- A clearing of `fn` finds it zero, or its function called. -/
theorem SlotInv.not_loses {s : SmpState} {core : Nat} (inv : SlotInv s core)
    (zero : CleansZero s (.hart core)) : ¬ Loses s (.hart core) := by
  rintro ⟨clears, uncalled⟩
  rcases inv.phase with vacant | occupied
  · exact uncalled vacant.settled
  · obtain ⟨call, -, -, ⟨-, settled⟩ | ⟨notCalled, -⟩⟩ := occupied.shown
    · exact uncalled settled
    · have notClear : (s.harts core).pc ≠ .clearFn := by
        intro pc
        exact notCalled (by simp [ParkPc.Called, pc])
      have kept := slotAfter_parkStep zero notClear
      rw [clears] at kept
      apply occupied.hasFn
      rw [← kept]
      exact Function.update_self SMP_CONTEXT_FN_OFFSET (0 : BitVec 64) (s.smpContext core)

/-- The calls of each core are the calls that its posts ask for, in order and each
at most once; and no step clears a `fn` that has not been called. -/
theorem mailbox {s : SmpState} (reached : smpLts.ReachableWhile CleansZero s) :
    (∀ core, s.calls core <+: s.wakeups core) ∧
      ∀ event s', CleansZero s event → smpLts.step s event s' → ¬ Loses s event := by
  have inv := SmpInv.reachable reached
  refine ⟨fun core => (inv core).calls_isPrefix, fun event s' zero _ => ?_⟩
  cases event with
  | wake => exact id
  | store => exact id
  | hart core => exact (inv core).not_loses zero

/-! ## Two runs -/

/-- The boot core posts to core 1. -/
def post1 : List SmpEvent :=
  [.wake 1 0x1000 0x2000 0x3000 4096 none, .store, .store, .store, .store]

/-- Core 1 starts, clears its slot and begins to poll it; the boot core posts to it in the
middle of the poll; core 1 polls on, calls the function, returns from it and clears `fn`. -/
def wakeup : List SmpEvent :=
  List.replicate 20 (.hart 1) ++ post1 ++ List.replicate 12 (.hart 1)

/-- A core clears its slot, is posted to, polls and calls. -/
theorem mailbox_wakeup : ∃ s, runSteps smpStep smpInit wakeup = some s ∧
    s.calls 1 = [⟨0x1000, 0x2000, 0x4000⟩] ∧ s.smpContext 1 SMP_CONTEXT_FN_OFFSET = 0 ∧
    ((∀ core, s.calls core <+: s.wakeups core) ∧
      ∀ event s', CleansZero s event → smpLts.step s event s' → ¬ Loses s event) := by
  refine ⟨_, rfl, by decide, by decide, mailbox ?_⟩
  have start : smpLts.ReachableWhile CleansZero smpInit := .initial rfl
  have fine : RunsOk smpStep CleansZero smpInit wakeup := by decide
  exact start.runSteps (fun _ _ _ => id) fine
    (rfl : runSteps smpStep smpInit wakeup = some _)

/-- A core that starts after a post clears it. -/
theorem wakeup_lost :
    ¬ ∀ s, smpLts.Reachable s → ∀ event s', smpLts.step s event s' → ¬ Loses s event := by
  intro kept
  have start : smpLts.Reachable smpInit := .initial rfl
  have reached : smpLts.Reachable _ :=
    start.runSteps (fun _ _ _ => id) (.of_forall (fun _ _ _ => trivial) _)
      (rfl : runSteps smpStep smpInit (post1 ++ [.hart 1, .hart 1]) = some _)
  apply kept _ reached (.hart 1) _ rfl
  constructor <;> decide

end Zsbl.Arch
