/-
Module: Zsbl.Proofs.RsaVerify
Purpose: Which RSA signatures the verification accepts.
Trusted boundary: SHA-256 and the modular exponentiation of the accelerator
Main exports:
  ModexpExact, doModexp_computes, rsaVerify_computes, RsaCall, RsaCall.returns_eq_zero_iff,
  RsaKey.Decided, rsaVerify_signs_iff
-/
import Zsbl.Lib.Signature
import Zsbl.Libs.AkcipherVerify
import Zsbl.Proofs.KeyDecoding
import Zsbl.Proofs.PkaOperands

namespace Zsbl.Drivers

open Zsbl.Lib

/-- The firmware has the functions of `do_modexp`, the accelerator is for 2048 bits, and
`modexp` computes the exact power of operands of `size` bytes. -/
structure ModexpExact (pka : Pka) (size : Nat) : Prop where
  rsaSize : 2048 ≤ pka.cfg.rsaSize
  found : ∀ func ∈ [calcRInv, calcMp, calcRSqr, modexp], 0 ≤ pka.lookupEntry func
  prepares : ∀ func ∈ [calcRInv, calcMp, calcRSqr], ∀ regs, elppkaBaseRadix size ≠ 0 →
    (pka.run (pka.lookupEntry func).toNat size regs).1 = .stopped 0
  computes : ∀ regs, elppkaBaseRadix size ≠ 0 → 0 < operandNumber regs .d 0 size →
    ∃ regs', pka.run (pka.lookupEntry modexp).toNat size regs = (.stopped 0, regs') ∧
      operandNumber regs' .a 0 size =
        operandNumber regs .a 0 size ^ operandNumber regs .d 2 size % operandNumber regs .d 0 size

/-- An index up to 7 whose operand fits into its bank is valid. -/
theorem indexIsValid_of_fits {cfg : PkaConfig} {bank : PkaBank} {index page : Nat}
    (positive : 0 < page) (small : page ≤ max (cfg.eccSize >>> 3) (cfg.rsaSize >>> 3))
    (digit : index ≤ 7)
    (fits : (index + 1) * page ≤ max (cfg.eccSize >>> 3 * 8)
      (cfg.rsaSize >>> 3 * if bank = .d then 4 else 2)) :
    indexIsValid cfg bank index page = true := by
  have admitted : ¬ (page > cfg.eccSize >>> 3 ∧ page > cfg.rsaSize >>> 3) := by omega
  have room (storage : Nat) (fits : (index + 1) * page ≤ storage) :
      decide (index < storage / page) = true :=
    decide_eq_true ((Nat.le_div_iff_mul_le positive).mpr fits)
  unfold indexIsValid
  simp only [if_neg admitted, if_neg (Nat.not_lt.mpr digit)]
  split at fits
  · next isD =>
      rw [if_pos isD]
      exact room _ fits
  · next notD =>
      rw [if_neg notD]
      exact room _ fits

theorem valid_of_large {size : Nat} (large : 16 < size) (fits : size ≤ 256) :
    elppkaBaseRadix size ≠ 0 := by
  unfold elppkaBaseRadix
  split_ifs <;> omega

theorem page_le {size : Nat} (fits : size ≤ 256) : elppkaPageSize size ≤ 256 := by
  unfold elppkaPageSize elppkaBaseRadix
  split_ifs <;> simp_all

/-- The registers of `do_modexp` can be used. -/
theorem ModexpExact.usable {pka : Pka} {size : Nat} (exact : ModexpExact pka size)
    (valid : elppkaBaseRadix size ≠ 0) (fits : size ≤ 256) {operand : Operand}
    (register : operand.index = 0 ∨ operand.bank = .d ∧ operand.index = 2)
    (pointer : operand.data ≠ 0) : operand.Usable pka.cfg size := by
  have rsaSize := exact.rsaSize
  have bytes : 256 ≤ pka.cfg.rsaSize >>> 3 := by
    rw [Nat.shiftRight_eq_div_pow]
    omega
  have page := page_le fits
  have positive : 0 < elppkaPageSize size := by
    have covers := (page_facts valid).2
    have large := size_pos valid
    omega
  have available : Available pka.cfg operand.bank operand.index.toNat size := by
    refine ⟨valid, indexIsValid_of_fits positive (by omega) ?_ ?_⟩
    · rcases register with zero | ⟨-, two⟩
      · rw [zero]
        decide
      · rw [two]
        decide
    · rcases register with zero | ⟨isD, two⟩
      · rw [zero]
        simp only [UInt8.toNat_zero, Nat.zero_add, Nat.one_mul]
        split <;> omega
      · rw [two, if_pos isD]
        simp only [UInt8.reduceToNat]
        omega
  refine ⟨available, ?_, pointer⟩
  rcases register with zero | ⟨-, two⟩
  · rw [zero]
    simp only [UInt8.toNat_zero]
    omega
  · rw [two]
    simp only [UInt8.reduceToNat]
    omega

/-- The power is in `y`, and the rest of the memory is as before. -/
theorem doModexp_computes {pka : Pka} {ctx : RsaCtx} (exact : ModexpExact pka ctx.size)
    (valid : elppkaBaseRadix ctx.size ≠ 0) (fits : ctx.size ≤ 256) (m : ctx.m ≠ 0)
    (e : ctx.e ≠ 0) (x : ctx.x ≠ 0) (y : ctx.y ≠ 0) {dev : PkaDev} (idle : dev.sem = 1)
    {memory : Memory} (positive : 0 < bigEndian (fetch memory ctx.m ctx.size)) :
    ∃ dev' memory', doModexp pka ctx dev memory = some (0, dev', memory') ∧
      fetch memory' ctx.y ctx.size = beBytes ctx.size
        (bigEndian (fetch memory ctx.x ctx.size) ^ bigEndian (fetch memory ctx.e ctx.size) %
          bigEndian (fetch memory ctx.m ctx.size)) ∧
      ∀ at', at' < ctx.y ∨ ctx.y + ctx.size ≤ at' → memory' at' = memory at' := by
  have zero (bank : PkaBank) {data : Nat} (pointer : data ≠ 0) :
      Operand.Usable pka.cfg ctx.size ⟨bank, 0, data⟩ :=
    exact.usable valid fits (.inl rfl) pointer
  have two : Operand.Usable pka.cfg ctx.size ⟨.d, 2, ctx.e⟩ :=
    exact.usable valid fits (.inr ⟨rfl, rfl⟩) e
  obtain ⟨dev₁, idle₁, rInv⟩ := @startCompute_prepares pka dev idle memory ctx.size valid calcRInv
    (exact.found _ (by simp)) [⟨.d, 0, ctx.m⟩] (by simpa using zero .d m) (by simp)
    fun regs => exact.prepares _ (by simp) regs valid
  obtain ⟨dev₂, idle₂, mp⟩ := @startCompute_prepares pka dev₁ idle₁ memory ctx.size valid calcMp
    (exact.found _ (by simp)) [] (by simp) (by simp)
    fun regs => exact.prepares _ (by simp) regs valid
  obtain ⟨dev₃, idle₃, rSqr⟩ := @startCompute_prepares pka dev₂ idle₂ memory ctx.size valid
    calcRSqr (exact.found _ (by simp)) [] (by simp) (by simp)
    fun regs => exact.prepares _ (by simp) regs valid
  obtain ⟨regs, held, runs⟩ := @startCompute_computes pka dev₃ idle₃ memory ctx.size valid modexp
    (exact.found _ (by simp))
    [⟨.a, 0, ctx.x⟩, ⟨.d, 2, ctx.e⟩, ⟨.d, 0, ctx.m⟩] [⟨.a, 0, ctx.y⟩]
    (by simpa using ⟨zero .a x, two, zero .d m, zero .a y⟩) (by simp) (by simp)
  have number (operand : Operand) (isInput : operand ∈ [(⟨.a, 0, ctx.x⟩ : Operand),
      ⟨.d, 2, ctx.e⟩, ⟨.d, 0, ctx.m⟩]) :
      operandNumber regs operand.bank operand.index.toNat ctx.size =
        bigEndian (fetch memory operand.data ctx.size) := by
    have bytes := held operand isInput
    unfold Operand.place at bytes
    rw [operandNumber, bytes, bigEndian_zeros]
  have x' := number ⟨.a, 0, ctx.x⟩ (by simp)
  have e' := number ⟨.d, 2, ctx.e⟩ (by simp)
  have m' := number ⟨.d, 0, ctx.m⟩ (by simp)
  simp only [UInt8.toNat_zero, UInt8.reduceToNat] at x' e' m'
  obtain ⟨regs', run, power⟩ := exact.computes regs valid (m' ▸ positive)
  obtain ⟨memory', returns, output, kept⟩ := (runs _ _ run).2 rfl
  refine ⟨⟨1, regs', .stopped 0⟩, memory', ?_, ?_, ?_⟩
  · apply (computeAll_done rInv _).trans
    apply (computeAll_done mp _).trans
    apply (computeAll_done rSqr _).trans
    exact computeAll_done returns []
  · rw [x', e', m'] at power
    have small : operandNumber regs' .a 0 ctx.size < 256 ^ ctx.size := by
      have below := Nat.mod_lt (bigEndian (fetch memory ctx.x ctx.size) ^
        bigEndian (fetch memory ctx.e ctx.size)) positive
      have bound := bigEndian_lt (fetch memory ctx.m ctx.size)
      rw [length_fetch] at bound
      rw [power]
      exact Nat.lt_trans below bound
    have low := @beBytes_bigEndian_drop
      (operandBytes regs' (operandAt .a 0 ctx.size) (elppkaPageSize ctx.size)) ctx.size
      (by rw [length_operandBytes]; exact (page_facts valid).2) small
    rw [length_operandBytes] at low
    rw [← power]
    exact (output ⟨.a, 0, ctx.y⟩ (by simp)).trans low
  · intro at' outside
    exact kept at' (by simpa using outside)

/-- A size that the accelerator does not have fails at the first operand. -/
theorem doModexp_invalid (pka : Pka) {ctx : RsaCtx} (invalid : elppkaBaseRadix ctx.size = 0)
    (m : ctx.m ≠ 0) (dev : PkaDev) (memory : Memory) :
    ∃ dev', doModexp pka ctx dev memory = some (-1, dev', memory) := by
  have page : elppkaPageSize ctx.size = 0 := by
    unfold elppkaPageSize
    rw [invalid]
    rfl
  let call : PkaCall := ⟨pka, ctx.size, calcRInv, [.input .d 0 ctx.m]⟩
  have refused : (call.loaded ⟨dev, memory⟩).1 ≠ 0 := by
    have load : setParam pka memory ctx.size [0x44, 0x30] ctx.m dev.regs =
        (cryptoInvalidSize, dev.regs) := by
      unfold setParam elppkaLoadOperand operandBaseOffset
      simp only [page]
      rfl
    have input : (VaParam.input .d 0 ctx.m).isOutput = false := rfl
    have name : (VaParam.input .d 0 ctx.m).retName [] = [0x44, 0x30] := rfl
    have data : (VaParam.input .d 0 ctx.m).data = ctx.m := rfl
    simp only [PkaCall.loaded, loadInputs, call, paramLoop, input, name, data, load, if_neg m,
      ne_eq, not_true, if_false]
    exact (by decide : (-1 : Int) ≠ 0)
  have returns := call.start_of_not_loaded ⟨dev, memory⟩ refused
  exact ⟨_, computeAll_failed (start_eq_some returns) _⟩

/-- An exact core computes the power into the buffer that the call names. -/
theorem rsaVerify_computes {pka : Pka} {ctx : RsaCtx} (exact : ModexpExact pka ctx.size)
    (valid : elppkaBaseRadix ctx.size ≠ 0) (fits : ctx.size ≤ 256) (m : ctx.m ≠ 0)
    (e : ctx.e ≠ 0) (x : ctx.x ≠ 0) (y : ctx.y ≠ 0)
    (apart : ∀ data ∈ [ctx.m, ctx.e, ctx.x], data + ctx.size ≤ ctx.y ∨ ctx.y + ctx.size ≤ data)
    {dev : PkaDev} (idle : dev.sem = 1) {memory : Memory}
    (positive : 0 < bigEndian (fetch memory ctx.m ctx.size)) :
    ∃ dev' memory', rsaVerify pka ctx dev memory = some (0, dev', memory') ∧
      fetch memory' ctx.y ctx.size = beBytes ctx.size
        (bigEndian (fetch memory ctx.x ctx.size) ^ bigEndian (fetch memory ctx.e ctx.size) %
          bigEndian (fetch memory ctx.m ctx.size)) ∧
      ∀ at', at' < ctx.y ∨ ctx.y + ctx.size ≤ at' → memory' at' = memory at' := by
  have kept (data : Nat) (isInput : data ∈ [ctx.m, ctx.e, ctx.x]) :
      fetch (store memory ctx.y (List.replicate ctx.size 0)) data ctx.size =
        fetch memory data ctx.size := by
    apply fetch_store_apart
    rw [List.length_replicate]
    exact apart data isInput
  rw [← kept ctx.m (by simp)] at positive
  obtain ⟨dev', memory', computes, power, untouched⟩ :=
    doModexp_computes exact valid fits m e x y idle positive
  rw [kept _ (by simp), kept _ (by simp), kept _ (by simp)] at power
  refine ⟨dev', memory', ?_, power, ?_⟩
  · unfold rsaVerify
    simp only [computes]
    rfl
  · intro at' outside
    rw [untouched at' outside]
    have cleared : storedAt (ctx.y, List.replicate ctx.size 0) at' = none := by
      rw [storedAt_eq_none, List.length_replicate]
      exact outside
    exact @storeAll_untouched memory [(ctx.y, List.replicate ctx.size 0)] at'
      (by simpa using cleared)

/-! ## An exact accelerator -/

def exactPka : Pka where
  cfg := ⟨2048, 256⟩
  lookupEntry func :=
    if func = calcRInv then 0
    else if func = calcMp then 1
    else if func = calcRSqr then 2
    else if func = modexp then 3
    else -1
  run entry size regs :=
    if entry = 3 then
      (.stopped 0, setOperand regs .a 0 size (operandNumber regs .a 0 size ^
        operandNumber regs .d 2 size % operandNumber regs .d 0 size))
    else (.stopped 0, regs)

/-- The core that computes the power is exact. -/
theorem exactPka_exact (size : Nat) : ModexpExact exactPka size where
  rsaSize := Nat.le_refl _
  found := by decide
  prepares func isFunc regs _ := by
    have entry : (exactPka.lookupEntry func).toNat ≠ 3 := by
      revert func
      decide
    have runs : exactPka.run (exactPka.lookupEntry func).toNat size regs = (.stopped 0, regs) :=
      if_neg entry
    rw [runs]
  computes regs valid positive := by
    have bound := operandNumber_lt regs .d 0 size
    exact ⟨_, rfl, operandNumber_set valid (Nat.lt_trans (Nat.mod_lt _ positive) bound)⟩

end Zsbl.Drivers

namespace Zsbl.Libs

open Zsbl.Lib
open Zsbl.Drivers (ModexpExact elppkaBaseRadix valid_of_large)

/-! ## Calls -/

/-- How many bytes the modulus has. -/
def RsaKey.size (key : RsaKey) : Nat := (significant key.modulus).length

/-- What a call finds: the key of its context, the signature, and the array `y` apart
from these, with whatever is on the stack there. -/
structure RsaCall (ctx : AkcipherCtx) (signature : List UInt8) where
  key : Nat
  y : Nat
  sig : Nat
  dev : Drivers.PkaDev
  memory : Memory
  idle : dev.sem = 1
  pointers : key ≠ 0 ∧ y ≠ 0 ∧ sig ≠ 0
  holdsKey : fetch memory key 512 = ctx.key
  holdsSig : fetch memory sig signature.length = signature
  apartKey : key + 512 ≤ y ∨ y + 256 ≤ key
  apartSig : sig + signature.length ≤ y ∨ y + 256 ≤ sig

/-- What `rsa_verify` returns. -/
def RsaCall.Returns {ctx : AkcipherCtx} {signature : List UInt8} (call : RsaCall ctx signature)
    (digests : Digests) (pka : Drivers.Pka) (msg : List UInt8) (ret : Int) : Prop :=
  ∃ dev' memory', rsaVerify digests (some pka) ctx call.key call.y msg call.sig call.dev
    call.memory = some (ret, dev', memory')

theorem RsaCall.Returns.unique {ctx : AkcipherCtx} {signature : List UInt8}
    {call : RsaCall ctx signature} {digests : Digests} {pka : Drivers.Pka} {msg : List UInt8}
    {ret ret' : Int} (returns : call.Returns digests pka msg ret)
    (returns' : call.Returns digests pka msg ret') : ret = ret' := by
  obtain ⟨_, _, result⟩ := returns
  obtain ⟨_, _, result'⟩ := returns'
  rw [result] at result'
  exact (Prod.mk.inj (Option.some.inj result')).1

/-- There is a call with each content of the stack. -/
theorem RsaCall.exists_stack {ctx : AkcipherCtx} (length : ctx.key.length = 512)
    (signature : List UInt8) {stack : List UInt8} (size : stack.length = 256) :
    ∃ call : RsaCall ctx signature, fetch call.memory call.y 256 = stack := by
  let stores : List (Nat × List UInt8) := [(1, ctx.key), (1000, stack), (2000, signature)]
  have apart : stores.Pairwise StoresApart := by
    simp [stores, StoresApart, length, size]
  have holds (entry : Nat × List UInt8) (isStore : entry ∈ stores) :
      fetch (storeAll (fun _ => 0) stores) entry.1 entry.2.length = entry.2 :=
    fetch_storeAll_apart apart isStore _
  have key := holds (1, ctx.key) (by simp [stores])
  have y := holds (1000, stack) (by simp [stores])
  simp only [length, size] at key y
  exact ⟨{
    key := 1
    y := 1000
    sig := 2000
    dev := ⟨1, fun _ => 0, .stopped 0⟩
    memory := storeAll (fun _ => 0) stores
    idle := rfl
    pointers := by decide
    holdsKey := key
    holdsSig := holds (2000, signature) (by simp [stores])
    apartKey := by decide
    apartSig := .inr (by decide) }, y⟩

/-! ## The numbers of a key -/

section Numbers

variable {key : RsaKey} {ctx : AkcipherCtx} {signature : List UInt8}

/-- Leading zeros do not change a number. -/
theorem bigEndian_significant (integer : List UInt8) :
    bigEndian (significant integer) = bigEndian integer := by
  have zeros : integer.takeWhile (· = 0) =
      List.replicate (integer.takeWhile (· = 0)).length 0 := by
    apply List.eq_replicate_of_mem
    intro byte isZero
    simpa using List.mem_takeWhile_imp isZero
  have split := List.takeWhile_append_dropWhile (p := (· = 0)) (l := integer)
  rw [zeros] at split
  unfold significant
  conv_rhs => rw [← split]
  rw [bigEndian_zeros]

/-- The modulus of a key is positive. -/
theorem RsaKey.modulus_pos (key : RsaKey) : 0 < bigEndian key.modulus := by
  rw [← bigEndian_significant]
  have positive := key.modulusPos
  cases bytes : significant key.modulus with
  | nil =>
      rw [bytes] at positive
      cases positive
  | cons byte rest =>
      have head : byte ≠ 0 := by
        have first := List.head?_dropWhile_not (· = 0) key.modulus
        unfold significant at bytes
        rw [bytes] at first
        simpa using first
      have nonzero : 0 < byte.toNat := Nat.pos_of_ne_zero fun zero =>
        head (UInt8.toNat_inj.mp zero)
      rw [bigEndian_cons]
      exact Nat.add_pos_left (Nat.mul_pos nonzero (Nat.pow_pos (by decide))) _

/-- The accelerator gets the modulus, -/
theorem RsaCall.modulus_eq (loaded : (PublicKey.rsa key).Loaded ctx)
    (call : RsaCall ctx signature) :
    bigEndian (fetch call.memory (call.key + modulus.start) key.size) =
      bigEndian key.modulus := by
  have fits : key.size ≤ modulus.size := key.modulusFits
  have holds : (modulus.read ctx.key).take key.size = significant key.modulus := loaded.2.2.1
  unfold KeyField.read at holds
  rw [List.take_take, Nat.min_eq_left fits, ← call.holdsKey,
    drop_take_fetch _ _ (Nat.le_trans (Nat.add_le_add_left fits _) (by decide))] at holds
  rw [← bigEndian_significant key.modulus, ← holds]

/-- the first bytes of the array of the exponent, -/
theorem RsaCall.exponent_eq (loaded : (PublicKey.rsa key).Loaded ctx)
    (call : RsaCall ctx signature) :
    bigEndian (fetch call.memory (call.key + exponent.start) key.size) =
      bigEndian key.exponent / 256 ^ (256 - key.size) := by
  have fits : key.size ≤ exponent.size := key.modulusFits
  have inside := key.exponentFits
  have total : exponent.start + key.size ≤ 512 := Nat.add_le_add_left fits 256
  obtain ⟨-, -, -, holds⟩ := loaded
  have first := congrArg (List.take key.size) holds
  unfold KeyField.read at first
  rw [List.take_take, Nat.min_eq_left fits, ← call.holdsKey,
    drop_take_fetch _ _ total] at first
  have length : (List.replicate (256 - key.exponent.length) 0 ++ key.exponent).length = 256 := by
    rw [List.length_append, List.length_replicate]
    omega
  rw [first, bigEndian_take, length, bigEndian_zeros]

end Numbers

/-! ## Acceptance -/

/-- The signature to the power of an exponent, as `size` bytes. -/
def RsaKey.power (key : RsaKey) (exponent : Nat) (signature : List UInt8) : List UInt8 :=
  beBytes key.size (bigEndian signature ^ exponent % bigEndian key.modulus)

/-- The standard accepts the signature. -/
def RsaKey.Signs (key : RsaKey) (digest signature : List UInt8) : Prop :=
  RsaSigns key.size (bigEndian key.modulus) (bigEndian key.exponent) digest signature

section Acceptance

variable {pka : Drivers.Pka} {key : RsaKey} {ctx : AkcipherCtx} {signature : List UInt8}

/-- The size is a number of 32 bits, so it is the one of the context. -/
theorem rsaVerify_eq (loaded : (PublicKey.rsa key).Loaded ctx) (digests : Digests)
    (keyAt y : Nat) (msg : List UInt8) (sig : Nat) (dev : Drivers.PkaDev) (memory : Memory) :
    rsaVerify digests (some pka) ctx keyAt y msg sig dev memory =
      (Drivers.rsaVerify pka
          ⟨key.size, keyAt + modulus.start, keyAt + exponent.start, sig, y⟩ dev memory).bind
        fun (ret, dev, memory) =>
          if ret ≠ 0 then some (-1, dev, memory)
          else
            let differs := memcmp (digests.sha256 msg).toList (fetch memory (y + (256 - 32)) 32)
            some (if differs ≠ 0 then -1 else 0, dev, memory) := by
  have fits : key.size ≤ 256 := key.modulusFits
  have keyLen : ctx.keyLen = some (key.size : Int) := loaded.2.1
  have same : ((key.size : Int) % 2 ^ 32).toNat = key.size := by omega
  unfold rsaVerify
  simp only [keyLen, Option.bind_eq_bind, Option.bind_some, same]
  rfl

/-- The call accepts if the last 32 bytes of the power are the digest. -/
theorem RsaCall.returns_eq_zero_iff (exact : ModexpExact pka key.size)
    (loaded : (PublicKey.rsa key).Loaded ctx) (block : signature.length = key.size)
    (large : 16 < key.size) (call : RsaCall ctx signature) (digests : Digests)
    (msg : List UInt8) :
    ∃ ret, call.Returns digests pka msg ret ∧ (ret = 0 ↔
      (key.power (bigEndian key.exponent / 256 ^ (256 - key.size)) signature ++
        fetch call.memory (call.y + key.size) (256 - key.size)).drop 224 =
      (digests.sha256 msg).toList) := by
  have fits : key.size ≤ 256 := key.modulusFits
  have modulusAt := call.modulus_eq loaded
  have exponentAt := call.exponent_eq loaded
  have sigAt : fetch call.memory call.sig key.size = signature := by
    rw [← block]
    exact call.holdsSig
  let param : Drivers.RsaCtx :=
    ⟨key.size, call.key + modulus.start, call.key + exponent.start, call.sig, call.y⟩
  have apart : ∀ data ∈ [param.m, param.e, param.x],
      data + param.size ≤ param.y ∨ param.y + param.size ≤ data := by
    have apartKey := call.apartKey
    have apartSig := call.apartSig
    simp only [param, modulus, exponent, List.forall_mem_cons]
    refine ⟨by omega, by omega, by omega, by simp⟩
  obtain ⟨keyPointer, yPointer, sigPointer⟩ := call.pointers
  have pointers : param.m ≠ 0 ∧ param.e ≠ 0 := by
    constructor
    · exact keyPointer
    · exact Nat.succ_ne_zero _
  obtain ⟨dev', memory', verifies, power, kept⟩ := @Drivers.rsaVerify_computes pka param exact
    (valid_of_large large fits) fits pointers.1 pointers.2 sigPointer yPointer apart
    call.dev call.idle call.memory (modulusAt ▸ key.modulus_pos)
  have y : fetch memory' (call.y + (256 - 32)) 32 =
      (key.power (bigEndian key.exponent / 256 ^ (256 - key.size)) signature ++
        fetch call.memory (call.y + key.size) (256 - key.size)).drop 224 := by
    have power' : fetch memory' call.y key.size =
        key.power (bigEndian key.exponent / 256 ^ (256 - key.size)) signature := by
      rw [power, modulusAt, exponentAt, sigAt]
      rfl
    have stack : fetch memory' (call.y + key.size) (256 - key.size) =
        fetch call.memory (call.y + key.size) (256 - key.size) :=
      fetch_congr fun i _ => kept _ (.inr (Nat.le_add_right _ i))
    have whole := fetch_append memory' call.y key.size (256 - key.size)
    rw [Nat.add_sub_cancel' fits, power', stack] at whole
    rw [← whole, ← drop_take_fetch memory' call.y (Nat.le_refl (224 + 32)), List.take_of_length_le]
    simp
  have runs : rsaVerify digests (some pka) ctx call.key call.y msg call.sig call.dev
      call.memory = some (if memcmp (digests.sha256 msg).toList
        (fetch memory' (call.y + (256 - 32)) 32) ≠ 0 then -1 else 0, dev', memory') := by
    rw [rsaVerify_eq loaded, verifies]
    rfl
  refine ⟨_, ⟨dev', memory', runs⟩, ?_⟩
  rw [← y, eq_comm (b := Vector.toList _), ← memcmp_eq_zero (by simp)]
  split <;> simp_all

/-- A key of 16 bytes or less is rejected by the core. -/
theorem RsaCall.rejects_of_small (loaded : (PublicKey.rsa key).Loaded ctx)
    (small : key.size ≤ 16) (call : RsaCall ctx signature) (digests : Digests)
    (msg : List UInt8) : call.Returns digests pka msg (-1) := by
  let param : Drivers.RsaCtx :=
    ⟨key.size, call.key + modulus.start, call.key + exponent.start, call.sig, call.y⟩
  obtain ⟨dev', fails⟩ := @Drivers.doModexp_invalid pka param (if_pos small)
    call.pointers.1 call.dev (store call.memory call.y (List.replicate key.size 0))
  refine ⟨dev', store call.memory call.y (List.replicate key.size 0), ?_⟩
  rw [rsaVerify_eq loaded]
  unfold Drivers.rsaVerify
  simp only [param] at fails
  simp only [fails, Option.bind_eq_bind, Option.bind_some]
  rfl

/-- Where `rsa_verify` decides like the standard whatever is on the stack: the accelerator
does not have the size; or the modulus is short, the signature is invalid and the bytes
of the power that are compared differ; or it has all 256 bytes, and the signature is
valid if only the end of its power is the digest. -/
def RsaKey.Decided (key : RsaKey) (digest signature : List UInt8) : Prop :=
  key.size ≤ 16 ∨
  (224 < key.size ∧ key.size < 256 ∧ ¬ key.Signs digest signature ∧
    (key.power (bigEndian key.exponent / 256 ^ (256 - key.size)) signature).drop 224 ≠
      digest.take (key.size - 224)) ∨
  (key.size = 256 ∧ ((key.power (bigEndian key.exponent) signature).drop 224 = digest →
    key.Signs digest signature))

theorem RsaKey.Signs.drop {digest : List UInt8} (length : digest.length = 32)
    (signs : key.Signs digest signature) : 62 ≤ key.size ∧
      (key.power (bigEndian key.exponent) signature).drop (key.size - 32) = digest := by
  have long := IsPkcs1.length signs
  have last := IsPkcs1.drop signs
  rw [length_beBytes, length] at long last
  exact ⟨long, last⟩

/-- The bytes that are compared: the end of the power, and the rest of the stack. -/
theorem returns_iff_stack (exact : ModexpExact pka key.size)
    (loaded : (PublicKey.rsa key).Loaded ctx) (length : ctx.key.length = 512)
    (block : signature.length = key.size) (large : 16 < key.size) (digests : Digests)
    (msg : List UInt8) (valid : Prop) :
    (∀ call : RsaCall ctx signature, ∃ ret, call.Returns digests pka msg ret ∧
      (ret = 0 ↔ valid)) ↔
    ∀ stack : List UInt8, stack.length = 256 - key.size →
      ((key.power (bigEndian key.exponent / 256 ^ (256 - key.size)) signature).drop 224 ++
        stack.drop (224 - key.size) = (digests.sha256 msg).toList ↔ valid) := by
  have fits : key.size ≤ 256 := key.modulusFits
  constructor
  · intro all stack size
    obtain ⟨call, content⟩ := @RsaCall.exists_stack ctx length signature
      (List.replicate key.size 0 ++ stack) (by simp [size, fits])
    obtain ⟨ret, returns, accepts⟩ := all call
    obtain ⟨ret', returns', decides⟩ :=
      call.returns_eq_zero_iff exact loaded block large digests msg
    have behind : fetch call.memory (call.y + key.size) (256 - key.size) = stack := by
      rw [← drop_take_fetch call.memory call.y (Nat.le_of_eq (Nat.add_sub_cancel' fits)), content,
        List.drop_left' List.length_replicate, List.take_of_length_le (Nat.le_of_eq size)]
    rw [behind, List.drop_append, RsaKey.power, length_beBytes] at decides
    rw [RsaKey.power, ← decides, ← returns.unique returns', accepts]
  · intro all call
    obtain ⟨ret, returns, decides⟩ :=
      call.returns_eq_zero_iff exact loaded block large digests msg
    rw [List.drop_append, RsaKey.power, length_beBytes] at decides
    exact ⟨ret, returns, decides.trans (all _ (length_fetch _ _ _))⟩

/-- With a key of 256 bytes nothing of the stack is compared. -/
theorem decided_whole {digest : List UInt8} (size : digest.length = 32) (whole : key.size = 256) :
    (∀ stack : List UInt8, stack.length = 256 - key.size →
      ((key.power (bigEndian key.exponent / 256 ^ (256 - key.size)) signature).drop 224 ++
        stack.drop (224 - key.size) = digest ↔ key.Signs digest signature)) ↔
    key.Decided digest signature := by
  unfold RsaKey.Decided
  have power : bigEndian key.exponent / 256 ^ (256 - key.size) = bigEndian key.exponent := by
    rw [whole, Nat.sub_self, Nat.pow_zero, Nat.div_one]
  rw [power]
  constructor
  · intro all
    have here := all [] (by rw [whole]; rfl)
    rw [List.drop_nil, List.append_nil] at here
    exact .inr (.inr ⟨whole, here.mp⟩)
  · intro decided stack none
    have unpadded := (decided.resolve_left (by omega)).resolve_left fun short =>
      Nat.ne_of_lt short.2.1 whole
    have empty : stack = [] := List.length_eq_zero_iff.mp (by omega)
    rw [empty, List.drop_nil, List.append_nil]
    refine ⟨unpadded.2, fun signs => ?_⟩
    have last := (signs.drop size).2
    rwa [whole] at last

/-- With a shorter key the bytes behind the power come from the stack. -/
theorem decided_short {digest : List UInt8} (size : digest.length = 32) (large : 16 < key.size)
    (short : key.size < 256) :
    (∀ stack : List UInt8, stack.length = 256 - key.size →
      ((key.power (bigEndian key.exponent / 256 ^ (256 - key.size)) signature).drop 224 ++
        stack.drop (224 - key.size) = digest ↔ key.Signs digest signature)) ↔
    key.Decided digest signature := by
  unfold RsaKey.Decided
  constructor
  · intro all
    have invalid : ¬ key.Signs digest signature := by
      intro signs
      have zeros := (all (List.replicate (256 - key.size) 0) List.length_replicate).mpr signs
      have ones := (all (List.replicate (256 - key.size) 1) List.length_replicate).mpr signs
      have same := List.append_cancel_left (zeros.trans ones.symm)
      rw [List.drop_replicate, List.drop_replicate, List.replicate_inj] at same
      have compared := same.2.resolve_right (by decide)
      omega
    have differ : (key.power (bigEndian key.exponent / 256 ^ (256 - key.size)) signature).drop
        224 ≠ digest.take (key.size - 224) := by
      intro same
      let stack := List.replicate (224 - key.size) 0 ++ digest.drop (key.size - 224)
      have length : stack.length = 256 - key.size := by
        simp only [stack, List.length_append, List.length_replicate, List.length_drop]
        omega
      apply invalid
      apply (all stack length).mp
      rw [same, List.drop_left' List.length_replicate, List.take_append_drop]
    have long : 224 < key.size := by
      by_contra tooShort
      apply differ
      rw [Nat.sub_eq_zero_of_le (Nat.le_of_not_lt tooShort), List.take_zero]
      apply List.drop_eq_nil_of_le
      rw [RsaKey.power, length_beBytes]
      exact Nat.le_of_not_lt tooShort
    exact .inr (.inl ⟨long, short, invalid, differ⟩)
  · intro decided stack _
    obtain ⟨long, -, invalid, differ⟩ :=
      (decided.resolve_left (Nat.not_le.mpr large)).resolve_right fun isWhole =>
        Nat.ne_of_lt short isWhole.1
    apply iff_of_false _ invalid
    intro same
    apply differ
    rw [← same, List.take_left']
    rw [List.length_drop, RsaKey.power, length_beBytes]

/-- For every signature, `rsa_verify` accepts exactly what the standard accepts, if and
only if the signature is one of those of `Decided`. -/
theorem rsaVerify_signs_iff (exact : ModexpExact pka key.size)
    (loaded : (PublicKey.rsa key).Loaded ctx) (length : ctx.key.length = 512)
    (block : signature.length = key.size) (digests : Digests) (msg : List UInt8) :
    (∀ call : RsaCall ctx signature, ∃ ret, call.Returns digests pka msg ret ∧
      (ret = 0 ↔ key.Signs (digests.sha256 msg).toList signature)) ↔
    key.Decided (digests.sha256 msg).toList signature := by
  have fits : key.size ≤ 256 := key.modulusFits
  have size : (digests.sha256 msg).toList.length = 32 := Vector.length_toList
  by_cases small : key.size ≤ 16
  · apply iff_of_true
    · intro call
      refine ⟨-1, call.rejects_of_small loaded small digests msg, ?_⟩
      apply iff_of_false (by decide)
      intro signs
      have large := (signs.drop size).1
      omega
    · exact .inl small
  · have large : 16 < key.size := Nat.lt_of_not_le small
    rw [returns_iff_stack exact loaded length block large digests msg]
    by_cases whole : key.size = 256
    · exact decided_whole size whole
    · exact decided_short size large (Nat.lt_of_le_of_ne fits whole)

end Acceptance

/-! ## A full key -/

theorem significant_full (count : Nat) :
    significant (List.replicate count 0xff) = List.replicate count 0xff := by
  rw [significant, List.dropWhile_replicate]
  rfl

/-- A key of 2048 bits, of which the exponent is 1. -/
def fullKey : RsaKey where
  modulus := List.replicate 256 0xff
  exponent := [0x01]
  modulusPos := by
    rw [significant_full, List.length_replicate]
    decide
  modulusFits := by rw [significant_full, List.length_replicate]
  exponentPos := by decide
  exponentFits := by decide

theorem fullKey_size : fullKey.size = 256 := by
  unfold RsaKey.size fullKey
  rw [significant_full, List.length_replicate]

def fullCtx : AkcipherCtx where
  alg := .rsa
  keyLen := some 256
  key := List.replicate 256 0xff ++ (List.replicate 255 0 ++ [0x01])

/-- The key of 256 bytes is one that is loaded. -/
theorem fullKey_loaded : (PublicKey.rsa fullKey).Loaded fullCtx := by
  have size := fullKey_size
  unfold RsaKey.size at size
  refine ⟨rfl, ?_, ?_, ?_⟩
  · rw [size]
    rfl
  · rw [size]
    unfold KeyField.read fullCtx
    rw [modulus, List.drop_zero, List.take_left' List.length_replicate, List.take_of_length_le]
    · exact (significant_full 256).symm
    · rw [List.length_replicate]
  · unfold KeyField.read fullCtx
    rw [exponent, List.drop_left' List.length_replicate, List.take_of_length_le]
    · rfl
    · rw [List.length_append, List.length_replicate]
      decide

theorem fullCtx_length : fullCtx.key.length = 512 := by
  unfold fullCtx
  rw [List.length_append, List.length_append, List.length_replicate, List.length_replicate]
  rfl

/-- A block without a padding that ends in the digest of the empty message. -/
def bareBlock : List UInt8 := List.replicate 224 0 ++ (codeDigests.sha256 []).toList

theorem bareBlock_length : bareBlock.length = 256 := by
  rw [bareBlock, List.length_append, List.length_replicate, Vector.length_toList]

theorem bareBlock_drop : bareBlock.drop 224 = (codeDigests.sha256 []).toList :=
  List.drop_left' List.length_replicate

theorem rsaVerify_signs_iff_fullKey :
    (∀ call : RsaCall fullCtx bareBlock, ∃ ret,
      call.Returns codeDigests Drivers.exactPka [] ret ∧
      (ret = 0 ↔ fullKey.Signs (codeDigests.sha256 []).toList bareBlock)) ↔
    fullKey.Decided (codeDigests.sha256 []).toList bareBlock :=
  rsaVerify_signs_iff (Drivers.exactPka_exact _) fullKey_loaded fullCtx_length
    (bareBlock_length.trans fullKey_size.symm) codeDigests []

/-- The block is its own power. -/
theorem fullKey_power : fullKey.power (bigEndian fullKey.exponent) bareBlock = bareBlock := by
  have one : bigEndian fullKey.exponent = 1 := rfl
  have small : bigEndian bareBlock < bigEndian fullKey.modulus := by
    have low := bigEndian_lt (codeDigests.sha256 []).toList
    have modulus : bigEndian fullKey.modulus =
        255 * 256 ^ 255 + bigEndian (List.replicate 255 0xff) := by
      have bytes : fullKey.modulus = 0xff :: List.replicate 255 0xff := List.replicate_succ
      have top : (0xff : UInt8).toNat = 255 := rfl
      rw [bytes, bigEndian_cons, List.length_replicate, top]
    have powers : 256 ^ 32 ≤ 255 * 256 ^ 255 := by decide +kernel
    rw [Vector.length_toList] at low
    rw [bareBlock, bigEndian_zeros, modulus]
    exact Nat.lt_of_lt_of_le low (powers.trans (Nat.le_add_right _ _))
  have whole := beBytes_bigEndian_drop (Nat.le_refl bareBlock.length) (bigEndian_lt bareBlock)
  rw [Nat.sub_self, List.drop_zero, bareBlock_length] at whole
  rw [RsaKey.power, one, Nat.pow_one, Nat.mod_eq_of_lt small, fullKey_size, ← whole]

/-- The block is accepted as a signature, although it lacks the padding. -/
theorem bareSignature_accepted :
    ModexpExact Drivers.exactPka fullKey.size ∧ (PublicKey.rsa fullKey).Loaded fullCtx ∧
    (∃ call : RsaCall fullCtx bareBlock, call.Returns codeDigests Drivers.exactPka [] 0) ∧
    ¬ fullKey.Signs (codeDigests.sha256 []).toList bareBlock := by
  have exact := Drivers.exactPka_exact fullKey.size
  refine ⟨exact, fullKey_loaded, ?_, ?_⟩
  · obtain ⟨call, -⟩ := @RsaCall.exists_stack fullCtx fullCtx_length
      bareBlock (List.replicate 256 0) List.length_replicate
    obtain ⟨ret, returns, decides⟩ := call.returns_eq_zero_iff exact fullKey_loaded
      (bareBlock_length.trans fullKey_size.symm) (by rw [fullKey_size]; decide) codeDigests []
    have accepts : ret = 0 := by
      apply decides.mpr
      rw [fullKey_size, Nat.sub_self, Nat.pow_zero, Nat.div_one, fullKey_power, fetch,
        List.range_zero, List.map_nil, List.append_nil, bareBlock_drop]
    exact ⟨call, accepts ▸ returns⟩
  · intro signs
    have power := fullKey_power
    unfold RsaKey.power at power
    unfold RsaKey.Signs RsaSigns at signs
    rw [power] at signs
    obtain ⟨padding, -, encoded⟩ := signs
    -- the second byte is 0, and not 1
    have second : some (0x00 : UInt8) = some 0x01 := congrArg (·[1]?) encoded
    exact absurd second (by decide)

end Zsbl.Libs
