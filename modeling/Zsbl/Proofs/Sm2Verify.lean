/-
Module: Zsbl.Proofs.Sm2Verify
Purpose: Which SM2 signatures the driver accepts.
Trusted boundary: the functions of the accelerator on the points of the curve
Main exports:
  Sm2Curve, Sm2Exact, Sm2Layout, doPmult_returns, Sm2Call, sm2Verify_accepts_iff
-/
import Zsbl.Lib.Primality
import Zsbl.Lib.Signature
import Zsbl.Libs.Ec
import Zsbl.Proofs.RsaVerify

namespace Zsbl.Drivers

open Zsbl.Lib
open Zsbl.Libs (prime sm2p256v1A sm2p256v1Gx sm2p256v1Gy sm2p256v1Order gmMp gmRSqr)

/-! ## The curve -/

/-- The points of the curve of `lib/hash/ec.c`. -/
structure Sm2Curve extends PointGroup where
  affine_lt : ∀ {P x y}, affine P = some (x, y) → x < bigEndian prime ∧ y < bigEndian prime
  order_eq : order = bigEndian sm2p256v1Order
  affine_base : affine base = some (bigEndian sm2p256v1Gx, bigEndian sm2p256v1Gy)

/-- The parameters of the curve are in their registers. -/
structure CurveLoaded (regs : Memory) : Prop where
  a : operandNumber regs .a 6 32 = bigEndian sm2p256v1A
  prime : operandNumber regs .d 0 32 = bigEndian prime
  mp : operandNumber regs .d 1 32 = bigEndian gmMp
  rSqr : operandNumber regs .d 3 32 = bigEndian gmRSqr

/-- The coordinates in two registers of the same number. -/
def pointAt (regs : Memory) (index : Nat) : Nat × Nat :=
  (operandNumber regs .a index 32, operandNumber regs .b index 32)

/-- A function that gives a point: it ends with status 0 if and only if the point is
finite, which is then in the registers A2 and B2. -/
def GivesPoint (curve : Sm2Curve) (result : PkaStatus × Memory) (P : curve.Point) : Prop :=
  (result.1 = .stopped 0 ↔ P ≠ 0) ∧ (P ≠ 0 → curve.affine P = some (pointAt result.2 2))

/-- The firmware has the functions of `do_pmult`, the accelerator is for 256 bits, and the
functions are exact on operands of 32 bytes. -/
structure Sm2Exact (curve : Sm2Curve) (pka : Pka) : Prop where
  eccSize : 256 ≤ pka.cfg.eccSize
  found : ∀ func ∈ [modadd, pmult, padd], 0 ≤ pka.lookupEntry func
  modadd : ∀ regs, operandNumber regs .d 0 32 = curve.order →
    ∃ regs', pka.run (pka.lookupEntry modadd).toNat 32 regs = (.stopped 0, regs') ∧
      operandNumber regs' .a 0 32 =
        (operandNumber regs .a 0 32 + operandNumber regs .b 0 32) % curve.order
  pmult : ∀ regs P, CurveLoaded regs → curve.affine P = some (pointAt regs 2) →
    GivesPoint curve (pka.run (pka.lookupEntry pmult).toNat 32 regs)
      (operandNumber regs .d 7 32 • P)
  padd : ∀ regs P Q, CurveLoaded regs → curve.affine P = some (pointAt regs 2) →
    curve.affine Q = some (pointAt regs 3) →
    GivesPoint curve (pka.run (pka.lookupEntry padd).toNat 32 regs) (P + Q)

/-! ## Buffers -/

/-- The buffers of the verification: those of the context, and those on the stack of
`do_pmult`. -/
inductive Sm2Buffer where
  | e
  | pubx
  | puby
  | r
  | s
  | out
  | order
  | prime
  | a
  | gx
  | gy
  | mp
  | rSqr
  | r1
  | r2
  | r3
  | temp
deriving DecidableEq

/-- Where the buffers are. -/
structure Sm2Layout where
  address : Sm2Buffer → Nat
  pointer : ∀ buffer, address buffer ≠ 0
  apart : ∀ buffer other, buffer ≠ other →
    address buffer + 32 ≤ address other ∨ address other + 32 ≤ address buffer

namespace Sm2Layout

variable (layout : Sm2Layout)

def ctx : EccCtx where
  size := 32
  e := layout.address .e
  pubx := layout.address .pubx
  puby := layout.address .puby
  r := layout.address .r
  s := layout.address .s
  out := layout.address .out
  order := layout.address .order
  prime := layout.address .prime
  a := layout.address .a
  gx := layout.address .gx
  gy := layout.address .gy
  mp := layout.address .mp
  rSqr := layout.address .rSqr

def stack : PmultStack where
  r1 := layout.address .r1
  r2 := layout.address .r2
  r3 := layout.address .r3
  temp := layout.address .temp

/-- The number in a buffer. -/
def number (memory : Memory) (buffer : Sm2Buffer) : Nat :=
  bigEndian (fetch memory (layout.address buffer) 32)

/-- A buffer for a register. -/
def operand (named : PkaBank × UInt8 × Sm2Buffer) : Operand :=
  ⟨named.1, named.2.1, layout.address named.2.2⟩

variable {layout} {curve : Sm2Curve} {pka : Pka}

/-- The operands are available to a core that is exact. -/
theorem usable (exact : Sm2Exact curve pka) {named : PkaBank × UInt8 × Sm2Buffer}
    (register : named.2.1 ≤ 7) : (layout.operand named).Usable pka.cfg 32 := by
  have eccSize := exact.eccSize
  have bytes : 32 ≤ pka.cfg.eccSize >>> 3 := by
    rw [Nat.shiftRight_eq_div_pow]
    omega
  have index : named.2.1.toNat ≤ 7 := register
  have page : elppkaPageSize 32 = 32 := rfl
  refine ⟨⟨by decide, ?_⟩, ?_, layout.pointer _⟩
  · apply indexIsValid_of_fits
    · rw [page]
      decide
    · rw [page]
      exact Nat.le_trans bytes (Nat.le_max_left _ _)
    · exact index
    · rw [page]
      have all : (named.2.1.toNat + 1) * 32 ≤ pka.cfg.eccSize >>> 3 * 8 := by omega
      exact Nat.le_trans all (Nat.le_max_left _ _)
  · rw [page]
    simp only [operand]
    omega

/-- A call on buffers: its function finds the numbers of the inputs in the registers,
and when it ends with status 0 the outputs get those of the registers. -/
theorem computes (exact : Sm2Exact curve pka) {dev : PkaDev} (idle : dev.sem = 1)
    (memory : Memory) {func : List UInt8} (found : 0 ≤ pka.lookupEntry func)
    {inputs outputs : List (PkaBank × UInt8 × Sm2Buffer)}
    (registers : ∀ named ∈ inputs ++ outputs, named.2.1 ≤ 7)
    (distinct : (inputs.map fun named => (named.1, named.2.1)).Nodup)
    (apart : (outputs.map fun named => named.2.2).Nodup) :
    ∃ regs, (∀ named ∈ inputs, operandNumber regs named.1 named.2.1.toNat 32 =
      layout.number memory named.2.2) ∧
    ∀ status regs', pka.run (pka.lookupEntry func).toNat 32 regs = (status, regs') →
      (status ≠ .stopped 0 → ∃ dev', startCompute pka dev memory 32 func
        (params (inputs.map layout.operand) (outputs.map layout.operand)) =
          some (0, dev', memory)) ∧
      (status = .stopped 0 → ∃ dev' memory', dev'.sem = 1 ∧
        startCompute pka dev memory 32 func
          (params (inputs.map layout.operand) (outputs.map layout.operand)) =
            some (1, dev', memory') ∧
        (∀ named ∈ outputs, layout.number memory' named.2.2 =
          operandNumber regs' named.1 named.2.1.toNat 32) ∧
        ∀ buffer, buffer ∉ outputs.map (fun named => named.2.2) →
          fetch memory' (layout.address buffer) 32 = fetch memory (layout.address buffer) 32) := by
  have valid : elppkaBaseRadix 32 ≠ 0 := by decide
  have usable : ∀ operand ∈ inputs.map layout.operand ++ outputs.map layout.operand,
      operand.Usable pka.cfg 32 := by
    intro operand isOperand
    rw [← List.map_append] at isOperand
    obtain ⟨named, isNamed, rfl⟩ := List.mem_map.mp isOperand
    exact Sm2Layout.usable exact (registers named isNamed)
  have distinct' : ((inputs.map layout.operand).map fun operand =>
      (operand.bank, operand.index)).Nodup := by
    rw [List.map_map]
    exact distinct
  have apart' : (outputs.map layout.operand).Pairwise (Operand.Apart 32) := by
    apply List.pairwise_map.mpr
    apply (List.pairwise_map.mp apart).imp
    intro named other differ
    exact layout.apart _ _ differ
  obtain ⟨regs, held, runs⟩ :=
    startCompute_computes idle memory valid found usable distinct' apart'
  refine ⟨regs, ?_, ?_⟩
  · intro named isInput
    have bytes := held (layout.operand named) (List.mem_map_of_mem isInput)
    exact congrArg bigEndian bytes
  · intro status regs' run
    obtain ⟨fails, succeeds⟩ := runs status regs' run
    constructor
    · exact fun failed => ⟨_, fails failed⟩
    · intro stopped
      obtain ⟨memory', returns, written, kept⟩ := succeeds stopped
      refine ⟨_, memory', rfl, returns, ?_, ?_⟩
      · intro named isOutput
        have bytes := written (layout.operand named) (List.mem_map_of_mem isOutput)
        exact congrArg bigEndian bytes
      · intro buffer notOutput
        apply fetch_congr
        intro i inside
        apply kept
        intro operand isOutput
        obtain ⟨named, isNamed, rfl⟩ := List.mem_map.mp isOutput
        have other : named.2.2 ≠ buffer := by
          rintro rfl
          exact notOutput (List.mem_map_of_mem isNamed)
        have place := layout.apart _ _ other
        simp only [operand]
        omega

/-! ## The functions on buffers -/

variable (layout) in
/-- The buffers of the parameters of the curve hold them. -/
structure Parameters (memory : Memory) : Prop where
  order : layout.number memory .order = bigEndian sm2p256v1Order
  prime : layout.number memory .prime = bigEndian prime
  a : layout.number memory .a = bigEndian sm2p256v1A
  mp : layout.number memory .mp = bigEndian gmMp
  rSqr : layout.number memory .rSqr = bigEndian gmRSqr
  gx : layout.number memory .gx = bigEndian sm2p256v1Gx
  gy : layout.number memory .gy = bigEndian sm2p256v1Gy

variable (layout) in
/-- The other buffers are as before. -/
def Keeps (written : List Sm2Buffer) (memory memory' : Memory) : Prop :=
  ∀ buffer, buffer ∉ written →
    fetch memory' (layout.address buffer) 32 = fetch memory (layout.address buffer) 32

theorem Keeps.number {written : List Sm2Buffer} {memory memory' : Memory}
    (keeps : layout.Keeps written memory memory') {buffer : Sm2Buffer}
    (other : buffer ∉ written) : layout.number memory' buffer = layout.number memory buffer :=
  congrArg bigEndian (keeps buffer other)

/-- The core adds two numbers modulo the order. -/
theorem adds (exact : Sm2Exact curve pka) {dev : PkaDev} (idle : dev.sem = 1)
    {memory : Memory} (parameters : layout.Parameters memory) (first second sum : Sm2Buffer) :
    ∃ dev' memory', dev'.sem = 1 ∧ startCompute pka dev memory 32 modadd
        [.input .a 0 (layout.address first), .input .b 0 (layout.address second),
          .input .d 0 (layout.address .order), .output .a 0 (layout.address sum)] =
        some (1, dev', memory') ∧
      layout.number memory' sum =
        (layout.number memory first + layout.number memory second) % curve.order ∧
      layout.Keeps [sum] memory memory' := by
  obtain ⟨regs, held, runs⟩ := @computes layout curve pka exact dev idle memory modadd
    (exact.found _ (by simp)) [(.a, 0, first), (.b, 0, second), (.d, 0, .order)] [(.a, 0, sum)]
    (by simp) (by simp) (by simp)
  simp only [List.forall_mem_cons, UInt8.toNat_zero] at held
  obtain ⟨first', second', order, -⟩ := held
  rw [parameters.order, ← curve.order_eq] at order
  obtain ⟨regs', run, result⟩ := exact.modadd regs order
  obtain ⟨dev', memory', idle', returns, written, kept⟩ := (runs _ _ run).2 rfl
  refine ⟨dev', memory', idle', returns, ?_, kept⟩
  rw [written (.a, 0, sum) (by simp)]
  rw [first', second'] at result
  exact result

/-- A function that gives a point. -/
theorem givesPoint (exact : Sm2Exact curve pka) {dev : PkaDev} (idle : dev.sem = 1)
    {memory : Memory} {func : List UInt8} (found : 0 ≤ pka.lookupEntry func)
    {inputs : List (PkaBank × UInt8 × Sm2Buffer)} (registers : ∀ named ∈ inputs, named.2.1 ≤ 7)
    (distinct : (inputs.map fun named => (named.1, named.2.1)).Nodup) {x y : Sm2Buffer}
    (differ : x ≠ y) {P : curve.Point}
    (gives : ∀ regs, (∀ named ∈ inputs, operandNumber regs named.1 named.2.1.toNat 32 =
        layout.number memory named.2.2) →
      GivesPoint curve (pka.run (pka.lookupEntry func).toNat 32 regs) P) :
    (P = 0 → ∃ dev', startCompute pka dev memory 32 func (params (inputs.map layout.operand)
        ([(.a, 2, x), (.b, 2, y)].map layout.operand)) = some (0, dev', memory)) ∧
    (P ≠ 0 → ∃ dev' memory', dev'.sem = 1 ∧
      startCompute pka dev memory 32 func (params (inputs.map layout.operand)
        ([(.a, 2, x), (.b, 2, y)].map layout.operand)) = some (1, dev', memory') ∧
      curve.affine P = some (layout.number memory' x, layout.number memory' y) ∧
      layout.Keeps [x, y] memory memory') := by
  obtain ⟨regs, held, runs⟩ := @computes layout curve pka exact dev idle memory func found
    inputs [(.a, 2, x), (.b, 2, y)] (List.forall_mem_append.mpr ⟨registers, by simp⟩)
    distinct (by simpa using differ)
  obtain ⟨stops, coordinates⟩ := gives regs held
  obtain ⟨fails, succeeds⟩ := runs _ _ rfl
  constructor
  · exact fun zero => fails fun stopped => stops.mp stopped zero
  · intro nonzero
    obtain ⟨dev', memory', idle', returns, written, kept⟩ := succeeds (stops.mpr nonzero)
    refine ⟨dev', memory', idle', returns, ?_, kept⟩
    rw [written (.a, 2, x) (by simp), written (.b, 2, y) (by simp)]
    exact coordinates nonzero

/-- The registers of the parameters. -/
def curveInputs : List (PkaBank × UInt8 × Sm2Buffer) :=
  [(.d, 0, .prime), (.d, 1, .mp), (.d, 3, .rSqr)]

/-- The parameters of the curve are loaded if they are among the inputs. -/
theorem curveLoaded {regs memory : Memory} (parameters : layout.Parameters memory)
    {inputs : List (PkaBank × UInt8 × Sm2Buffer)}
    (held : ∀ named ∈ inputs, operandNumber regs named.1 named.2.1.toNat 32 =
      layout.number memory named.2.2)
    (isA : (.a, 6, .a) ∈ inputs) (others : ∀ named ∈ curveInputs, named ∈ inputs) :
    CurveLoaded regs where
  a := (held _ isA).trans parameters.a
  prime := (held _ (others (.d, 0, .prime) (by decide))).trans parameters.prime
  mp := (held _ (others (.d, 1, .mp) (by decide))).trans parameters.mp
  rSqr := (held _ (others (.d, 3, .rSqr) (by decide))).trans parameters.rSqr

/-- The core multiplies a point by a number. -/
theorem multiplies (exact : Sm2Exact curve pka) {dev : PkaDev} (idle : dev.sem = 1)
    {memory : Memory} (parameters : layout.Parameters memory) {P : curve.Point}
    (x y k : Sm2Buffer) {x' y' : Sm2Buffer} (differ : x' ≠ y')
    (key : curve.affine P = some (layout.number memory x, layout.number memory y)) :
    let call := startCompute pka dev memory 32 pmult
      [.input .a 2 (layout.address x), .input .b 2 (layout.address y),
        .input .a 6 (layout.address .a), .input .d 7 (layout.address k),
        .input .d 0 (layout.address .prime), .input .d 1 (layout.address .mp),
        .input .d 3 (layout.address .rSqr), .output .a 2 (layout.address x'),
        .output .b 2 (layout.address y')]
    (layout.number memory k • P = 0 → ∃ dev', call = some (0, dev', memory)) ∧
    (layout.number memory k • P ≠ 0 → ∃ dev' memory', dev'.sem = 1 ∧
      call = some (1, dev', memory') ∧ curve.affine (layout.number memory k • P) =
        some (layout.number memory' x', layout.number memory' y') ∧
      layout.Keeps [x', y'] memory memory') := by
  let inputs : List (PkaBank × UInt8 × Sm2Buffer) :=
    [(.a, 2, x), (.b, 2, y), (.a, 6, .a), (.d, 7, k)] ++ curveInputs
  have gives : ∀ regs, (∀ named ∈ inputs, operandNumber regs named.1 named.2.1.toNat 32 =
      layout.number memory named.2.2) →
      GivesPoint curve (pka.run (pka.lookupEntry pmult).toNat 32 regs)
        (layout.number memory k • P) := by
    intro regs held
    have loaded := curveLoaded parameters held (by simp [inputs]) (by simp [inputs, curveInputs])
    have scalar := held (.d, 7, k) (by simp [inputs])
    have point : curve.affine P = some (pointAt regs 2) := by
      rw [key, ← held (.a, 2, x) (by simp [inputs]), ← held (.b, 2, y) (by simp [inputs])]
      rfl
    have gives := exact.pmult regs P loaded point
    rw [← scalar]
    exact gives
  exact givesPoint exact idle (exact.found _ (by simp)) (by simp [inputs, curveInputs])
    (by simp [inputs, curveInputs]) differ gives

/-- The core adds two points. -/
theorem sums (exact : Sm2Exact curve pka) {dev : PkaDev} (idle : dev.sem = 1)
    {memory : Memory} (parameters : layout.Parameters memory) {P Q : curve.Point}
    {x y u v x' y' : Sm2Buffer} (differ : x' ≠ y')
    (first : curve.affine P = some (layout.number memory x, layout.number memory y))
    (second : curve.affine Q = some (layout.number memory u, layout.number memory v)) :
    let call := startCompute pka dev memory 32 padd
      [.input .a 2 (layout.address x), .input .b 2 (layout.address y),
        .input .a 3 (layout.address u), .input .b 3 (layout.address v),
        .input .a 6 (layout.address .a), .input .d 0 (layout.address .prime),
        .input .d 1 (layout.address .mp), .input .d 3 (layout.address .rSqr),
        .output .a 2 (layout.address x'), .output .b 2 (layout.address y')]
    (P + Q = 0 → ∃ dev', call = some (0, dev', memory)) ∧
    (P + Q ≠ 0 → ∃ dev' memory', dev'.sem = 1 ∧ call = some (1, dev', memory') ∧
      curve.affine (P + Q) = some (layout.number memory' x', layout.number memory' y') ∧
      layout.Keeps [x', y'] memory memory') := by
  let inputs : List (PkaBank × UInt8 × Sm2Buffer) :=
    [(.a, 2, x), (.b, 2, y), (.a, 3, u), (.b, 3, v), (.a, 6, .a)] ++ curveInputs
  have gives : ∀ regs, (∀ named ∈ inputs, operandNumber regs named.1 named.2.1.toNat 32 =
      layout.number memory named.2.2) →
      GivesPoint curve (pka.run (pka.lookupEntry padd).toNat 32 regs) (P + Q) := by
    intro regs held
    have loaded := curveLoaded parameters held (by simp [inputs]) (by simp [inputs, curveInputs])
    apply exact.padd regs P Q loaded
    · rw [first, ← held (.a, 2, x) (by simp [inputs]), ← held (.b, 2, y) (by simp [inputs])]
      rfl
    · rw [second, ← held (.a, 3, u) (by simp [inputs]), ← held (.b, 3, v) (by simp [inputs])]
      rfl
  exact givesPoint exact idle (exact.found _ (by simp)) (by simp [inputs, curveInputs])
    (by simp [inputs, curveInputs]) differ gives

/-! ## The verification -/

theorem Keeps.trans {first second : List Sm2Buffer} {memory memory' memory'' : Memory}
    (keeps : layout.Keeps first memory memory') (keeps' : layout.Keeps second memory' memory'') :
    layout.Keeps (first ++ second) memory memory'' := by
  intro buffer other
  rw [List.mem_append, not_or] at other
  rw [keeps' buffer other.2, keeps buffer other.1]

/-- The parameters of the curve are kept by a call that writes other buffers. -/
theorem Parameters.keeps {written : List Sm2Buffer} {memory memory' : Memory}
    (parameters : layout.Parameters memory) (keeps : layout.Keeps written memory memory')
    (others : ∀ buffer ∈ written, buffer ∉ [.order, .prime, .a, .mp, .rSqr, .gx, .gy]) :
    layout.Parameters memory' := by
  have same (buffer : Sm2Buffer) (isParameter : buffer ∈
      [Sm2Buffer.order, .prime, .a, .mp, .rSqr, .gx, .gy]) :
      layout.number memory' buffer = layout.number memory buffer :=
    keeps.number fun isWritten => others buffer isWritten isParameter
  exact {
    order := (same .order (by decide)).trans parameters.order
    prime := (same .prime (by decide)).trans parameters.prime
    a := (same .a (by decide)).trans parameters.a
    mp := (same .mp (by decide)).trans parameters.mp
    rSqr := (same .rSqr (by decide)).trans parameters.rSqr
    gx := (same .gx (by decide)).trans parameters.gx
    gy := (same .gy (by decide)).trans parameters.gy }

/-- `do_pmult` fails at the first point that is not finite, and else gives the digest and
the coordinate of the sum of the multiples. -/
theorem doPmult_returns (exact : Sm2Exact curve pka) {dev : PkaDev} (idle : dev.sem = 1)
    {memory : Memory} (parameters : layout.Parameters memory) {P : curve.Point}
    (key : curve.affine P = some (layout.number memory .pubx, layout.number memory .puby)) :
    let first := curve.scalar (layout.number memory .r) (layout.number memory .s) • P
    let second := layout.number memory .s • curve.base
    (first = 0 ∨ second = 0 ∨ first + second = 0 → ∃ dev' memory',
      doPmult pka layout.ctx layout.stack dev memory = some (-1, dev', memory')) ∧
    ∀ x y, first ≠ 0 → second ≠ 0 → curve.affine (first + second) = some (x, y) →
      ∃ dev' memory', doPmult pka layout.ctx layout.stack dev memory = some (0, dev', memory') ∧
        layout.number memory' .out = (layout.number memory .e + x) % curve.order ∧
        layout.Keeps [.r1, .r1, .r2, .r3, .temp, .r1, .r2, .out] memory memory' := by
  intro first second
  obtain ⟨dev₁, memory₁, idle₁, call₁, scalar, keeps₁⟩ := adds exact idle parameters .r .s .r1
  have parameters₁ := parameters.keeps keeps₁ (by decide)
  have key₁ : curve.affine P =
      some (layout.number memory₁ .pubx, layout.number memory₁ .puby) := by
    rw [keeps₁.number (by decide), keeps₁.number (by decide), key]
  have isFirst : layout.number memory₁ .r1 • P = first := by rw [scalar]; rfl
  obtain ⟨fails₂, gives₂⟩ := multiplies exact idle₁ parameters₁ .pubx .puby .r1
    (by decide : Sm2Buffer.r1 ≠ .r2) key₁
  rw [isFirst] at fails₂ gives₂
  by_cases zero₂ : first = 0
  · constructor
    · intro _
      obtain ⟨dev₂, call₂⟩ := fails₂ zero₂
      exact ⟨dev₂, memory₁, (computeAll_done call₁ _).trans (computeAll_failed call₂ _)⟩
    · exact fun _ _ nonzero => absurd zero₂ nonzero
  obtain ⟨dev₂, memory₂, idle₂, call₂, point₂, keeps₂⟩ := gives₂ zero₂
  have parameters₂ := parameters₁.keeps keeps₂ (by decide)
  have base₂ : curve.affine curve.base =
      some (layout.number memory₂ .gx, layout.number memory₂ .gy) := by
    rw [parameters₂.gx, parameters₂.gy, curve.affine_base]
  have isSecond : layout.number memory₂ .s • curve.base = second := by
    rw [keeps₂.number (by decide), keeps₁.number (by decide)]
  obtain ⟨fails₃, gives₃⟩ := multiplies exact idle₂ parameters₂ .gx .gy .s
    (by decide : Sm2Buffer.r3 ≠ .temp) base₂
  rw [isSecond] at fails₃ gives₃
  by_cases zero₃ : second = 0
  · constructor
    · intro _
      obtain ⟨dev₃, call₃⟩ := fails₃ zero₃
      exact ⟨dev₃, memory₂, (computeAll_done call₁ _).trans
        ((computeAll_done call₂ _).trans (computeAll_failed call₃ _))⟩
    · exact fun _ _ _ nonzero => absurd zero₃ nonzero
  obtain ⟨dev₃, memory₃, idle₃, call₃, point₃, keeps₃⟩ := gives₃ zero₃
  have parameters₃ := parameters₂.keeps keeps₃ (by decide)
  have point₂' : curve.affine first =
      some (layout.number memory₃ .r1, layout.number memory₃ .r2) := by
    rw [keeps₃.number (by decide), keeps₃.number (by decide), point₂]
  obtain ⟨fails₄, gives₄⟩ := sums exact idle₃ parameters₃ (by decide : Sm2Buffer.r1 ≠ .r2)
    point₂' point₃
  by_cases zero₄ : first + second = 0
  · constructor
    · intro _
      obtain ⟨dev₄, call₄⟩ := fails₄ zero₄
      exact ⟨dev₄, memory₃, (computeAll_done call₁ _).trans ((computeAll_done call₂ _).trans
        ((computeAll_done call₃ _).trans (computeAll_failed call₄ _)))⟩
    · intro x y _ _ coordinates
      rw [curve.affine_eq_none.mpr zero₄] at coordinates
      cases coordinates
  obtain ⟨dev₄, memory₄, idle₄, call₄, point₄, keeps₄⟩ := gives₄ zero₄
  have parameters₄ := parameters₃.keeps keeps₄ (by decide)
  obtain ⟨dev₅, memory₅, -, call₅, out, keeps₅⟩ := adds exact idle₄ parameters₄ .e .r1 .out
  constructor
  · rintro (zero | zero | zero)
    · exact absurd zero zero₂
    · exact absurd zero zero₃
    · exact absurd zero zero₄
  · intro x y _ _ coordinates
    refine ⟨dev₅, memory₅, ?_, ?_, ?_⟩
    · apply (computeAll_done call₁ _).trans
      apply (computeAll_done call₂ _).trans
      apply (computeAll_done call₃ _).trans
      apply (computeAll_done call₄ _).trans
      exact computeAll_done call₅ []
    · rw [point₄] at coordinates
      obtain ⟨rfl, -⟩ := Prod.mk.inj (Option.some.inj coordinates)
      rw [out, keeps₄.number (by decide), keeps₃.number (by decide), keeps₂.number (by decide),
        keeps₁.number (by decide)]
    · exact (((keeps₁.trans keeps₂).trans keeps₃).trans keeps₄).trans keeps₅

end Sm2Layout

/-! ## Calls -/

/-- What a call finds: the parameters of the curve, a public key, a digest and the
signature, each in a buffer of its own. -/
structure Sm2Call (curve : Sm2Curve) (r s : Vector UInt8 32) where
  layout : Sm2Layout
  dev : PkaDev
  memory : Memory
  idle : dev.sem = 1
  parameters : layout.Parameters memory
  P : curve.Point
  key : curve.affine P = some (layout.number memory .pubx, layout.number memory .puby)
  holdsR : fetch memory (layout.address .r) 32 = r.toList
  holdsS : fetch memory (layout.address .s) 32 = s.toList

namespace Sm2Call

variable {curve : Sm2Curve} {pka : Pka} {r s : Vector UInt8 32}

/-- The digest. -/
def e (call : Sm2Call curve r s) : Nat := call.layout.number call.memory .e

/-- What `sm2_verify` returns. -/
def Returns (call : Sm2Call curve r s) (pka : Pka) (ret : Int) : Prop :=
  ∃ dev' memory', sm2Verify pka call.layout.ctx call.layout.stack call.dev call.memory =
    some (ret, dev', memory')

theorem Returns.unique {call : Sm2Call curve r s} {ret ret' : Int}
    (returns : call.Returns pka ret) (returns' : call.Returns pka ret') : ret = ret' := by
  obtain ⟨_, _, result⟩ := returns
  obtain ⟨_, _, result'⟩ := returns'
  rw [result] at result'
  exact (Prod.mk.inj (Option.some.inj result')).1

theorem key_ne_zero (call : Sm2Call curve r s) : call.P ≠ 0 := by
  intro zero
  have key := call.key
  rw [curve.affine_eq_none.mpr zero] at key
  cases key

/-- The driver accepts the solutions of the equation. -/
theorem returns_eq_zero_iff (exact : Sm2Exact curve pka) (call : Sm2Call curve r s) :
    ∃ ret, call.Returns pka ret ∧
      (ret = 0 ↔ curve.Equation call.P call.e (bigEndian r.toList) (bigEndian s.toList)) := by
  have isR : call.layout.number call.memory .r = bigEndian r.toList :=
    congrArg bigEndian call.holdsR
  have isS : call.layout.number call.memory .s = bigEndian s.toList :=
    congrArg bigEndian call.holdsS
  obtain ⟨fails, gives⟩ :=
    Sm2Layout.doPmult_returns exact call.idle call.parameters call.key
  rw [isR, isS] at fails gives
  have allocated : call.layout.ctx.out ≠ 0 := call.layout.pointer .out
  by_cases infinite : curve.scalar (bigEndian r.toList) (bigEndian s.toList) • call.P = 0 ∨
      bigEndian s.toList • curve.base = 0 ∨
      curve.scalar (bigEndian r.toList) (bigEndian s.toList) • call.P +
        bigEndian s.toList • curve.base = 0
  · obtain ⟨dev', memory', stops⟩ := fails infinite
    refine ⟨-1, ⟨dev', memory', ?_⟩, ?_⟩
    · unfold sm2Verify
      rw [if_neg allocated, stops]
      rfl
    · apply iff_of_false (by decide)
      rintro ⟨first, second, x, y, coordinates, -⟩
      have none := curve.affine_eq_none.mpr ((infinite.resolve_left first).resolve_left second)
      rw [none] at coordinates
      cases coordinates
  · obtain ⟨first, infinite⟩ := not_or.mp infinite
    obtain ⟨second, sum⟩ := not_or.mp infinite
    cases coordinates : curve.affine (curve.scalar (bigEndian r.toList) (bigEndian s.toList) •
        call.P + bigEndian s.toList • curve.base) with
    | none => exact absurd (curve.affine_eq_none.mp coordinates) sum
    | some point =>
        obtain ⟨x, y⟩ := point
        obtain ⟨dev', memory', returns, out, keeps⟩ := gives x y first second coordinates
        have sameR : fetch memory' (call.layout.address .r) 32 = r.toList :=
          (keeps .r (by decide)).trans call.holdsR
        refine ⟨if memcmp (fetch memory' (call.layout.address .out) 32)
          (fetch memory' (call.layout.address .r) 32) ≠ 0 then -1 else 0, ⟨dev', memory', ?_⟩, ?_⟩
        · unfold sm2Verify
          rw [if_neg allocated, returns]
          rfl
        · have accepts : (call.e + x) % curve.order = bigEndian r.toList ↔
              fetch memory' (call.layout.address .out) 32 = r.toList := by
            rw [← show call.layout.number memory' .out = (call.e + x) % curve.order from out]
            exact ⟨bigEndian_inj (by simp), congrArg bigEndian⟩
          have equation : curve.Equation call.P call.e (bigEndian r.toList)
              (bigEndian s.toList) ↔ (call.e + x) % curve.order = bigEndian r.toList := by
            constructor
            · rintro ⟨-, -, x', y', coordinates', same⟩
              rw [coordinates] at coordinates'
              obtain ⟨rfl, -⟩ := Prod.mk.inj (Option.some.inj coordinates')
              exact same
            · exact fun same => ⟨first, second, x, y, coordinates, same⟩
          rw [equation, accepts, sameR, ← memcmp_eq_zero (by simp)]
          split <;> simp_all

end Sm2Call

/-! ## Memories -/

namespace Sm2Buffer

def all : List Sm2Buffer :=
  [.e, .pubx, .puby, .r, .s, .out, .order, .prime, .a, .gx, .gy, .mp, .rSqr, .r1, .r2, .r3, .temp]

theorem mem_all (buffer : Sm2Buffer) : buffer ∈ all := by
  cases buffer <;> decide

theorem all_nodup : all.Nodup := by decide

/-- The buffers in a row. -/
def row (buffer : Sm2Buffer) : Nat := 32 * (all.idxOf buffer + 1)

theorem row_apart {buffer other : Sm2Buffer} (differ : buffer ≠ other) :
    buffer.row + 32 ≤ other.row ∨ other.row + 32 ≤ buffer.row := by
  have index : all.idxOf buffer ≠ all.idxOf other := by
    intro same
    exact differ ((List.idxOf_inj (mem_all buffer)).mp same)
  unfold row
  omega

end Sm2Buffer

/-- The layout of buffers in a row. -/
def rowLayout : Sm2Layout where
  address := Sm2Buffer.row
  pointer _ := Nat.succ_ne_zero _
  apart _ _ := Sm2Buffer.row_apart

/-- What the buffers hold. -/
def contents (x y e : Nat) (r s : Vector UInt8 32) : Sm2Buffer → Vector UInt8 32
  | .e => ⟨(beBytes 32 e).toArray, by simp⟩
  | .pubx => ⟨(beBytes 32 x).toArray, by simp⟩
  | .puby => ⟨(beBytes 32 y).toArray, by simp⟩
  | .r => r
  | .s => s
  | .order => ⟨sm2p256v1Order.toArray, rfl⟩
  | .prime => ⟨prime.toArray, rfl⟩
  | .a => ⟨sm2p256v1A.toArray, rfl⟩
  | .gx => ⟨sm2p256v1Gx.toArray, rfl⟩
  | .gy => ⟨sm2p256v1Gy.toArray, rfl⟩
  | .mp => ⟨gmMp.toArray, rfl⟩
  | .rSqr => ⟨gmRSqr.toArray, rfl⟩
  | _ => Vector.replicate 32 0

/-- Every content of the buffers is one of a memory. -/
theorem exists_memory (content : Sm2Buffer → Vector UInt8 32) :
    ∃ memory, ∀ buffer, fetch memory (rowLayout.address buffer) 32 = (content buffer).toList := by
  let entry (buffer : Sm2Buffer) : Nat × List UInt8 := (buffer.row, (content buffer).toList)
  have apart : (Sm2Buffer.all.map entry).Pairwise StoresApart := by
    apply List.pairwise_map.mpr
    apply Sm2Buffer.all_nodup.imp
    intro buffer other differ
    unfold StoresApart
    simp only [entry, Vector.length_toList]
    exact Sm2Buffer.row_apart differ
  refine ⟨storeAll (fun _ => 0) (Sm2Buffer.all.map entry), fun buffer => ?_⟩
  have held := fetch_storeAll_apart apart (List.mem_map_of_mem buffer.mem_all) fun _ => 0
  simp only [entry, Vector.length_toList] at held
  exact held

/-- Every key and every digest can be in the buffers. -/
theorem Sm2Call.exists_call {curve : Sm2Curve} {P : curve.Point} (nonzero : P ≠ 0) {e : Nat}
    (digest : e < curve.order) (r s : Vector UInt8 32) :
    ∃ call : Sm2Call curve r s, call.P = P ∧ call.e = e := by
  cases coordinates : curve.affine P with
  | none => exact absurd (curve.affine_eq_none.mp coordinates) nonzero
  | some point =>
      obtain ⟨x, y⟩ := point
      obtain ⟨memory, held⟩ := exists_memory (contents x y e r s)
      have number (buffer : Sm2Buffer) : rowLayout.number memory buffer =
          bigEndian (contents x y e r s buffer).toList := congrArg bigEndian (held buffer)
      have bytes {value : Nat} (fits : value < 256 ^ 32) :
          bigEndian (beBytes 32 value) = value := bigEndian_beBytes fits
      have bound : bigEndian prime < 256 ^ 32 := bigEndian_lt prime
      have bound' : curve.order < 256 ^ 32 := by
        rw [curve.order_eq]
        exact bigEndian_lt sm2p256v1Order
      obtain ⟨xLt, yLt⟩ := curve.affine_lt coordinates
      refine ⟨{
        layout := rowLayout
        dev := ⟨1, fun _ => 0, .stopped 0⟩
        memory
        idle := rfl
        parameters := ⟨number _, number _, number _, number _, number _, number _, number _⟩
        P
        key := ?_
        holdsR := held .r
        holdsS := held .s }, rfl, ?_⟩
      · rw [coordinates, number, number]
        simp [contents, bytes (Nat.lt_trans xLt bound), bytes (Nat.lt_trans yLt bound)]
      · exact (number .e).trans (bytes (Nat.lt_trans digest bound'))

/-! ## Acceptance -/

/-- For all keys and digests, the driver accepts the solutions of the equation; these are
what the standard accepts if and only if `r` and `s` are in their ranges or no equation
with them has a solution. -/
theorem sm2Verify_accepts_iff {curve : Sm2Curve} {pka : Pka} (exact : Sm2Exact curve pka)
    (r s : Vector UInt8 32) :
    (∀ call : Sm2Call curve r s, ∃ ret, call.Returns pka ret ∧
      (ret = 0 ↔ curve.Equation call.P call.e (bigEndian r.toList) (bigEndian s.toList))) ∧
    ((∀ call : Sm2Call curve r s, ∃ ret, call.Returns pka ret ∧
        (ret = 0 ↔ curve.Accepts call.P call.e (bigEndian r.toList) (bigEndian s.toList))) ↔
      (1 ≤ bigEndian r.toList ∧ bigEndian s.toList < curve.order) ∨
        curve.order ≤ bigEndian r.toList ∨ curve.order ∣ bigEndian s.toList ∨
        curve.order ∣ bigEndian r.toList + bigEndian s.toList) := by
  refine ⟨fun call => call.returns_eq_zero_iff exact, ?_⟩
  constructor
  · intro all
    by_contra outside
    simp only [not_or] at outside
    obtain ⟨range, reduced, base, scalar⟩ := outside
    obtain ⟨P, e, nonzero, digest, equation⟩ :=
      PointGroup.exists_equation (Nat.lt_of_not_le reduced) base scalar
    obtain ⟨call, rfl, rfl⟩ := Sm2Call.exists_call nonzero digest r s
    obtain ⟨ret, returns, accepts⟩ := all call
    obtain ⟨ret', returns', solves⟩ := call.returns_eq_zero_iff exact
    rw [returns.unique returns'] at accepts
    exact range ((PointGroup.accepts_iff nonzero).mp (accepts.mp (solves.mpr equation))).2
  · intro inside call
    obtain ⟨ret, returns, solves⟩ := call.returns_eq_zero_iff exact
    refine ⟨ret, returns, ?_⟩
    rw [solves, PointGroup.accepts_iff call.key_ne_zero, iff_self_and]
    intro equation
    obtain ⟨reduced, base, scalar⟩ := equation.bounds
    rcases inside with range | large | multiple | opposite
    · exact range
    · exact absurd reduced (Nat.not_lt.mpr large)
    · exact absurd multiple base
    · exact absurd opposite scalar

/-! ## An exact accelerator -/

section Exact

variable (curve : Sm2Curve) (point : Nat × Nat → curve.Point)

/-- A point in the registers, or the status of the point at infinity. -/
def givePoint (regs : Memory) (P : curve.Point) : PkaStatus × Memory :=
  match curve.affine P with
  | none => (.stopped 1, regs)
  | some (x, y) => (.stopped 0, setOperand (setOperand regs .b 2 32 y) .a 2 32 x)

def sm2Entry (func : List UInt8) : Int :=
  if func = modadd then 0
  else if func = pmult then 1
  else if func = padd then 2
  else -1

def exactSm2Pka : Pka where
  cfg := ⟨2048, 256⟩
  lookupEntry := sm2Entry
  run entry size regs :=
    if entry = 0 then
      (.stopped 0, setOperand regs .a 0 size
        ((operandNumber regs .a 0 size + operandNumber regs .b 0 size) % curve.order))
    else if entry = 1 then
      givePoint curve regs (operandNumber regs .d 7 32 • point (pointAt regs 2))
    else givePoint curve regs (point (pointAt regs 2) + point (pointAt regs 3))

/-- The registers that are given hold the point. -/
theorem givePoint_gives (regs : Memory) (P : curve.Point) :
    GivesPoint curve (givePoint curve regs P) P := by
  unfold givePoint
  cases coordinates : curve.affine P with
  | none =>
      have zero := curve.affine_eq_none.mp coordinates
      have fails : PkaStatus.stopped 1 ≠ .stopped 0 := by decide
      exact ⟨⟨fun stopped => absurd stopped fails, fun nonzero => absurd zero nonzero⟩,
        fun nonzero => absurd zero nonzero⟩
  | some point =>
      obtain ⟨x, y⟩ := point
      have nonzero : P ≠ 0 := by
        intro zero
        rw [curve.affine_eq_none.mpr zero] at coordinates
        cases coordinates
      have valid : elppkaBaseRadix 32 ≠ 0 := by decide
      have bound : bigEndian prime < 256 ^ elppkaPageSize 32 := bigEndian_lt prime
      obtain ⟨xLt, yLt⟩ := curve.affine_lt coordinates
      refine ⟨iff_of_true rfl nonzero, fun _ => ?_⟩
      rw [coordinates, pointAt, operandNumber_set valid (Nat.lt_trans xLt bound),
        operandNumber_set_other valid (by decide), operandNumber_set valid (Nat.lt_trans yLt bound)]

/-- The core that computes on the curve is exact. -/
theorem exactSm2Pka_exact
    (decodes : ∀ {P xy}, curve.affine P = some xy → point xy = P) :
    Sm2Exact curve (exactSm2Pka curve point) where
  eccSize := Nat.le_refl 256
  found := (by decide : ∀ func ∈ [modadd, pmult, padd], 0 ≤ sm2Entry func)
  modadd regs _ := by
    refine ⟨_, rfl, operandNumber_set (by decide) ?_⟩
    apply Nat.lt_trans (Nat.mod_lt _ PointGroup.order_pos)
    rw [curve.order_eq]
    exact bigEndian_lt sm2p256v1Order
  pmult regs P _ key := by
    have gives := givePoint_gives curve regs
      (operandNumber regs .d 7 32 • point (pointAt regs 2))
    have entry : (sm2Entry Drivers.pmult).toNat = 1 := by decide
    have run : (exactSm2Pka curve point).run (sm2Entry Drivers.pmult).toNat 32 regs =
        givePoint curve regs (operandNumber regs .d 7 32 • point (pointAt regs 2)) := by
      rw [entry]
      rfl
    rw [← run, decodes key] at gives
    exact gives
  padd regs P Q _ first second := by
    have gives := givePoint_gives curve regs (point (pointAt regs 2) + point (pointAt regs 3))
    have entry : (sm2Entry Drivers.padd).toNat = 2 := by decide
    have run : (exactSm2Pka curve point).run (sm2Entry Drivers.padd).toNat 32 regs =
        givePoint curve regs (point (pointAt regs 2) + point (pointAt regs 3)) := by
      rw [entry]
      rfl
    rw [← run, decodes first, decodes second] at gives
    exact gives

end Exact

/-! ## A cyclic group of points -/

/-- The order of the curve, and primes below it. -/
def orderCertificate : List (Nat × Nat × List Nat) := [
  (0xFFFFFFFEFFFFFFFFFFFFFFFFFFFFFFFF7203DF6B21C6052B53BBF40939D54123, 3,
    [2, 3, 7759, 14057, 1413296869,
      125197554539772723432468576818475380947471091418362477724521]),
  (125197554539772723432468576818475380947471091418362477724521, 3,
    [2, 2, 2, 5, 53, 18120927127286907576013935251791662753637, 3258964060712033]),
  (18120927127286907576013935251791662753637, 6,
    [2, 2, 3, 3, 101456283590983, 17965699, 2566129871, 107615843]),
  (3258964060712033, 3, [2, 2, 2, 2, 2, 43, 2368433183657]),
  (101456283590983, 3, [2, 3, 3, 5636460199499]), (5636460199499, 2, [2, 31, 79, 127, 9061163]),
  (2368433183657, 3, [2, 2, 2, 41, 719, 10042883]), (2566129871, 7, [2, 5, 3049, 84163]),
  (1413296869, 6, [2, 2, 3, 117774739]), (117774739, 2, [2, 3, 3, 59, 110899]),
  (107615843, 2, [2, 43, 103, 12149]), (17965699, 2, [2, 3, 71, 181, 233]),
  (10042883, 2, [2, 1013, 4957]), (9061163, 2, [2, 11, 71, 5801]),
  (110899, 3, [2, 3, 3, 61, 101]), (84163, 2, [2, 3, 13, 13, 83]),
  (14057, 3, [2, 2, 2, 7, 251]), (12149, 2, [2, 2, 3037]), (7759, 3, [2, 3, 3, 431]),
  (5801, 3, [2, 2, 2, 5, 5, 29]), (4957, 2, [2, 2, 3, 7, 59]), (3049, 11, [2, 2, 2, 3, 127]),
  (3037, 2, [2, 2, 3, 11, 23]), (1013, 3, [2, 2, 11, 23]), (719, 11, [2, 359]),
  (431, 7, [2, 5, 43]), (359, 7, [2, 179]), (251, 6, [2, 5, 5, 5]), (233, 3, [2, 2, 2, 29]),
  (181, 2, [2, 2, 3, 3, 5]), (179, 2, [2, 89]), (127, 3, [2, 3, 3, 7]), (103, 5, [2, 3, 17]),
  (101, 2, [2, 2, 5, 5]), (89, 3, [2, 2, 2, 11]), (83, 2, [2, 41]), (79, 3, [2, 3, 13]),
  (71, 7, [2, 5, 7]), (61, 2, [2, 2, 3, 5]), (59, 2, [2, 29]), (53, 2, [2, 2, 13]),
  (43, 3, [2, 3, 7]), (41, 6, [2, 2, 2, 5]), (31, 3, [2, 3, 5]), (29, 2, [2, 2, 7]),
  (23, 5, [2, 11]), (17, 3, [2, 2, 2, 2]), (13, 2, [2, 2, 3]), (11, 2, [2, 5]), (7, 3, [2, 3]),
  (5, 2, [2, 2]), (3, 2, [2])]

theorem order_certified : Certified orderCertificate := by decide +kernel

theorem sm2p256v1Order_prime : (bigEndian sm2p256v1Order).Prime := by
  apply order_certified.prime
  decide +kernel

theorem sm2p256v1Order_large : 2 < bigEndian sm2p256v1Order := by decide +kernel

/-- The numbers modulo the order. -/
def cyclicCurve : Sm2Curve where
  toPointGroup := PointGroup.cyclic sm2p256v1Order_prime sm2p256v1Order_large
    (bigEndian sm2p256v1Gx, bigEndian sm2p256v1Gy)
  affine_lt {P x y} coordinates := by
    have below : bigEndian sm2p256v1Order < bigEndian prime := by decide +kernel
    have base : bigEndian sm2p256v1Gx < bigEndian prime ∧
      bigEndian sm2p256v1Gy < bigEndian prime := by decide +kernel
    rcases PointGroup.cyclic_affine coordinates with isBase | ⟨small, small'⟩
    · obtain ⟨rfl, rfl⟩ := Prod.mk.inj isBase
      exact base
    · exact ⟨Nat.lt_trans small below, Nat.lt_trans small' below⟩
  order_eq := rfl
  affine_base := PointGroup.cyclic_base _ _ _

/-- The accelerator for this group. -/
def cyclicPka : Pka :=
  exactSm2Pka cyclicCurve (PointGroup.cyclicPoint sm2p256v1Order_prime sm2p256v1Order_large
    (bigEndian sm2p256v1Gx, bigEndian sm2p256v1Gy))

theorem cyclicPka_exact : Sm2Exact cyclicCurve cyclicPka := by
  have differ : bigEndian sm2p256v1Gx ≠ bigEndian sm2p256v1Gy := by decide +kernel
  apply exactSm2Pka_exact
  intro P xy affine
  exact PointGroup.cyclicPoint_affine differ affine

/-- On the cyclic curve, with numbers of 32 ones. -/
theorem sm2Verify_accepts_iff_ones :
    (1 ≤ bigEndian (List.replicate 32 1) ∧
      bigEndian (List.replicate 32 1) < bigEndian sm2p256v1Order) ∧
    ∀ call : Sm2Call cyclicCurve (Vector.replicate 32 1) (Vector.replicate 32 1),
      ∃ ret, call.Returns cyclicPka ret ∧ (ret = 0 ↔ cyclicCurve.Accepts call.P call.e
        (bigEndian (List.replicate 32 1)) (bigEndian (List.replicate 32 1))) := by
  have range : 1 ≤ bigEndian (List.replicate 32 1) ∧
      bigEndian (List.replicate 32 1) < bigEndian sm2p256v1Order := by decide +kernel
  exact ⟨range, (sm2Verify_accepts_iff cyclicPka_exact (Vector.replicate 32 1)
    (Vector.replicate 32 1)).2.mpr (.inl range)⟩

/-- The signature of the numbers 0 and 1 is accepted for the base point as the key and
two less than the order as the digest. -/
theorem zero_r_accepted :
    Sm2Exact cyclicCurve cyclicPka ∧
    ∃ call : Sm2Call cyclicCurve (Vector.replicate 32 0) ⟨(beBytes 32 1).toArray, by simp⟩,
      call.P = cyclicCurve.base ∧ call.e = cyclicCurve.order - 2 ∧ call.Returns cyclicPka 0 ∧
      ¬ cyclicCurve.Accepts call.P call.e 0 1 := by
  have large := cyclicCurve.order_large
  obtain ⟨call, key, digest⟩ := Sm2Call.exists_call cyclicCurve.base_ne_zero
    (e := cyclicCurve.order - 2) (by omega) (Vector.replicate 32 0)
    ⟨(beBytes 32 1).toArray, by simp⟩
  have r : bigEndian (Vector.replicate 32 (0 : UInt8)).toList = 0 := by decide
  have s : bigEndian (⟨(beBytes 32 1).toArray, by simp⟩ : Vector UInt8 32).toList = 1 := by decide
  have scalar : cyclicCurve.scalar 0 1 = 1 := Nat.mod_eq_of_lt (by omega)
  have double : cyclicCurve.affine (2 • cyclicCurve.base) = some (2, 2) := PointGroup.cyclic_two
  have equation : cyclicCurve.Equation call.P call.e 0 1 := by
    rw [key, digest]
    unfold PointGroup.Equation
    rw [scalar, one_nsmul, ← two_nsmul]
    refine ⟨cyclicCurve.base_ne_zero, cyclicCurve.base_ne_zero, 2, 2, double, ?_⟩
    rw [Nat.sub_add_cancel (Nat.le_of_lt large), Nat.mod_self]
  obtain ⟨ret, returns, solves⟩ := call.returns_eq_zero_iff cyclicPka_exact
  rw [r, s] at solves
  refine ⟨cyclicPka_exact, call, key, digest, solves.mpr equation ▸ returns, ?_⟩
  rintro ⟨⟨positive, -⟩, -⟩
  cases positive

end Zsbl.Drivers
