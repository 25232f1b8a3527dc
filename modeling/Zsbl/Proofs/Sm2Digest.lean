/-
Module: Zsbl.Proofs.Sm2Digest
Purpose: Which key the SM2 verification hashes, and when its verdict does not depend on
  the stack.
Trusted boundary: SM3 and the driver, which are parameters
Main exports:
  sm2Param_eq, KeyHashed, sm2Verify_keyHashed_iff
-/
import Zsbl.Proofs.KeyDecoding
import Zsbl.Proofs.SignatureReader

namespace Zsbl.Libs

open Zsbl.Lib

/-! ## What is handed to the driver -/

/-- The numbers of the signature as the buffers hold them. -/
def Sm2Stack.sRead (stack : Sm2Stack) (sig : Memory) : List UInt8 :=
  overwrite stack.s.toList 0 (sPart sig)

def Sm2Stack.rRead (stack : Sm2Stack) (sig : Memory) : List UInt8 :=
  overwrite stack.r.toList 0 (rPart sig)

/-- The digest of a message for a user with the key of these coordinates. -/
def messageDigest (digests : Digests) (pubx puby : Vector UInt8 32) (msg : List UInt8) : Digest :=
  calculateHmsg digests (calculateZa digests pubx.toList puby.toList) msg

def IntegersFit (sig : Memory) : Prop := (rPart sig).length ≤ 32 ∧ (sPart sig).length ≤ 32

instance (sig : Memory) : Decidable (IntegersFit sig) := inferInstanceAs (Decidable (_ ∧ _))

/-- The verification hashes the coordinates that it finds on its stack. -/
def handedParam (digests : Digests) (ctx : AkcipherCtx) (stack : Sm2Stack)
    (msg : List UInt8) (sig : Memory) : Sm2Param where
  size := ctx.keyLen
  e := (messageDigest digests stack.pubx stack.puby msg).toList
  pubx := pubx.read ctx.key
  puby := puby.read ctx.key
  r := stack.rRead sig
  s := stack.sRead sig
  cofactor := 1

/-- The parameter is handed on if both integers fit their buffers. -/
theorem sm2Param_eq (digests : Digests) (ctx : AkcipherCtx) (stack : Sm2Stack)
    (msg : List UInt8) (sig : Memory) :
    sm2Param digests ctx stack msg sig =
      if sig 0 ≠ 0x30 then some none
      else if IntegersFit sig then some (some (handedParam digests ctx stack msg sig))
      else none := by
  have reads := getSR_eq sig stack.s.length_toList stack.r.length_toList
  unfold sm2Param
  rw [reads]
  by_cases sequence : sig 0 ≠ 0x30
  · simp [sequence]
  · rw [if_neg sequence, if_neg sequence]
    by_cases fits : IntegersFit sig
    · have inside : (rPart sig).length ≤ 32 ∧ (sPart sig).length ≤ 32 := fits
      rw [if_pos inside, if_pos fits]
      rfl
    · have outside : ¬ ((rPart sig).length ≤ 32 ∧ (sPart sig).length ≤ 32) := fits
      rw [if_neg outside, if_neg fits]
      rfl

/-! ## The hashed key -/

/-- A run hands over the key and the digest of the message for it. -/
def HandsKey (digests : Digests) (key : Sm2Key) (ctx : AkcipherCtx) (msg : List UInt8)
    (sig : Memory) (stack : Sm2Stack) : Prop :=
  ∀ param, sm2Param digests ctx stack msg sig = some (some param) →
    param.pubx = key.x.toList ∧ param.puby = key.y.toList ∧
      param.e = (messageDigest digests key.x key.y msg).toList

/-- The runs with these two stacks do, and they end with one verdict. -/
def KeyHashed (digests : Digests) (verify : Sm2Param → Int) (key : Sm2Key) (ctx : AkcipherCtx)
    (msg : List UInt8) (sig : Memory) (stack stack' : Sm2Stack) : Prop :=
  HandsKey digests key ctx msg sig stack ∧ HandsKey digests key ctx msg sig stack' ∧
  ∃ verdict, sm2Verify digests (some verify) ctx stack msg sig = some verdict ∧
    sm2Verify digests (some verify) ctx stack' msg sig = some verdict

/-- The stack happens to hold the key. -/
def Sm2Stack.Holds (stack : Sm2Stack) (key : Sm2Key) : Prop :=
  stack.pubx = key.x ∧ stack.puby = key.y

/-- The bytes of the two stacks that a signature leaves in the buffers are the same. -/
def SameLeft (sig : Memory) (stack stack' : Sm2Stack) : Prop :=
  stack.r.toList.drop (rPart sig).length = stack'.r.toList.drop (rPart sig).length ∧
    stack.s.toList.drop (sPart sig).length = stack'.s.toList.drop (sPart sig).length

def mark : Digest := Vector.replicate 32 0xff

def noMark : Digest := Vector.replicate 32 0

/-- What `calculate_za` hashes. -/
def zaInput (pubx puby : Vector UInt8 32) : List UInt8 :=
  [0x00, 0x80] ++ (userId ++ sm2p256v1A ++ sm2p256v1B ++ sm2p256v1Gx ++ sm2p256v1Gy) ++
    pubx.toList ++ puby.toList

/-- A hash that marks a key, and what is hashed under its mark. -/
def marks (pubx puby : Vector UInt8 32) (msg : List UInt8) : Digests where
  sha256 := fun _ => noMark
  sm3 := fun bytes =>
    if bytes = zaInput pubx puby ∨ bytes = mark.toList ++ msg then mark else noMark

theorem zaInput_inj {x y x' y' : Vector UInt8 32} (same : zaInput x y = zaInput x' y') :
    x = x' ∧ y = y' := by
  unfold zaInput at same
  rw [List.append_assoc, List.append_assoc _ x'.toList] at same
  obtain ⟨xSame, ySame⟩ := List.append_inj (List.append_cancel_left same) (by simp)
  exact ⟨Vector.toList_inj.mp xSame, Vector.toList_inj.mp ySame⟩

theorem calculateZa_eq (digests : Digests) (pubx puby : Vector UInt8 32) :
    calculateZa digests pubx.toList puby.toList = digests.sm3 (zaInput pubx puby) := by
  have entl : [UInt8.ofNat ((userId.length * 8) >>> 8),
    UInt8.ofNat (userId.length * 8 &&& 0xFF)] = [0x00, 0x80] := rfl
  unfold calculateZa zaInput
  simp only [entl, List.append_assoc]

/-- The mark tells the keys apart. -/
theorem marks_messageDigest (x y x' y' : Vector UInt8 32) (msg : List UInt8) :
    messageDigest (marks x y msg) x' y' msg = mark ↔ x' = x ∧ y' = y := by
  have differ : noMark ≠ mark := by decide
  have notMarked : zaInput x' y' ≠ mark.toList ++ msg := by
    intro same
    have first := congrArg List.head? same
    exact absurd first (by simp [zaInput, mark])
  have noKey : noMark.toList ++ msg ≠ zaInput x y := by
    intro same
    have second := congrArg (fun bytes => bytes[1]?) same
    exact absurd second (by simp [zaInput, noMark])
  have unmarked : noMark.toList ++ msg ≠ mark.toList ++ msg := by
    intro same
    exact differ (Vector.toList_inj.mp (List.append_cancel_right same))
  unfold messageDigest calculateHmsg
  rw [calculateZa_eq]
  by_cases same : zaInput x' y' = zaInput x y
  · have isKey := zaInput_inj same
    simp [marks, isKey]
  · have notKey : ¬ (x' = x ∧ y' = y) := by
      rintro ⟨rfl, rfl⟩
      exact same rfl
    simp [marks, same, notKey, notMarked, noKey, unmarked, differ]

theorem read_inj (sig : Memory) (stack stack' : Sm2Stack) :
    stack.rRead sig = stack'.rRead sig ∧ stack.sRead sig = stack'.sRead sig ↔
      SameLeft sig stack stack' := by
  simp [Sm2Stack.rRead, Sm2Stack.sRead, SameLeft, overwrite]

section Accepted

variable {sig : Memory} (sequence : sig 0 = 0x30) (fits : IntegersFit sig)
include sequence fits

theorem sm2Param_accepted (digests : Digests) (ctx : AkcipherCtx) (stack : Sm2Stack)
    (msg : List UInt8) :
    sm2Param digests ctx stack msg sig = some (some (handedParam digests ctx stack msg sig)) := by
  rw [sm2Param_eq, if_neg (by simp [sequence]), if_pos fits]

theorem handsKey_marks {key : Sm2Key} {ctx : AkcipherCtx} {msg : List UInt8} {stack : Sm2Stack}
    (hands : HandsKey (marks key.x key.y msg) key ctx msg sig stack) : stack.Holds key := by
  obtain ⟨-, -, same⟩ := hands _ (sm2Param_accepted sequence fits _ ctx stack msg)
  have keyDigest := (marks_messageDigest key.x key.y key.x key.y msg).mpr ⟨rfl, rfl⟩
  rw [keyDigest] at same
  exact (marks_messageDigest key.x key.y stack.pubx stack.puby msg).mp (Vector.toList_inj.mp same)

/-- The key is handed over with the right digest, whatever the hash is, only from a
stack that holds it. -/
theorem handsKey_iff {key : Sm2Key} {ctx : AkcipherCtx} (loaded : (PublicKey.sm2 key).Loaded ctx)
    (msg : List UInt8) (stack : Sm2Stack) :
    (∀ digests, HandsKey digests key ctx msg sig stack) ↔ stack.Holds key := by
  obtain ⟨-, -, xLoaded, yLoaded⟩ := loaded
  constructor
  · exact fun hands => handsKey_marks sequence fits (hands _)
  · rintro ⟨xSame, ySame⟩ digests param handed
    rw [sm2Param_accepted sequence fits] at handed
    obtain rfl := Option.some.inj (Option.some.inj handed)
    have digest := congrArg₂ (fun x y => messageDigest digests x y msg) xSame ySame
    exact ⟨xLoaded, yLoaded, congrArg Vector.toList digest⟩

/-- The driver's verdict is the verdict. -/
theorem sm2Verify_accepted (digests : Digests) (verify : Sm2Param → Int) (ctx : AkcipherCtx)
    (stack : Sm2Stack) (msg : List UInt8) :
    sm2Verify digests (some verify) ctx stack msg sig =
      some (if verify (handedParam digests ctx stack msg sig) ≠ 0 then -1 else 0) := by
  unfold sm2Verify
  rw [sm2Param_accepted sequence fits]
  rfl

end Accepted

/-- A driver that accepts these two numbers only. -/
def accepts (r s : List UInt8) (param : Sm2Param) : Int :=
  if param.r = r ∧ param.s = s then 0 else 1

/-- A driver that looks at the numbers shows any difference between them. -/
theorem sameLeft_of_verdict {sig : Memory} (sequence : sig 0 = 0x30) (fits : IntegersFit sig)
    {digests : Digests} {ctx : AkcipherCtx} {msg : List UInt8} {stack stack' : Sm2Stack}
    {verdict : Int}
    (first : sm2Verify digests (some (accepts (stack.rRead sig) (stack.sRead sig))) ctx stack
      msg sig = some verdict)
    (second : sm2Verify digests (some (accepts (stack.rRead sig) (stack.sRead sig))) ctx stack'
      msg sig = some verdict) : SameLeft sig stack stack' := by
  rw [sm2Verify_accepted sequence fits] at first second
  have accepted : accepts (stack.rRead sig) (stack.sRead sig)
      (handedParam digests ctx stack msg sig) = 0 := if_pos ⟨rfl, rfl⟩
  rw [accepted] at first
  obtain rfl := Option.some.inj first
  apply (read_inj sig stack stack').mp
  have numbers : ∀ param, accepts (stack.rRead sig) (stack.sRead sig) param = 0 →
      stack.rRead sig = param.r ∧ stack.sRead sig = param.s := by
    intro param accepted
    unfold accepts at accepted
    split at accepted
    · next same => exact ⟨same.1.symm, same.2.symm⟩
    · cases accepted
  apply numbers (handedParam digests ctx stack' msg sig)
  by_contra rejected
  rw [if_pos rejected] at second
  cases second

/-- The verification hashes the key of its context and does not depend on the stack,
whatever the hash and the driver are, exactly when it rejects the signature by itself,
or the signature leaves the buffers alone, the stacks happen to hold the key, and they
agree on the bytes that the signature lacks. -/
theorem keyHashed_iff {key : Sm2Key} {ctx : AkcipherCtx}
    (loaded : (PublicKey.sm2 key).Loaded ctx) (msg : List UInt8) (sig : Memory)
    (stack stack' : Sm2Stack) :
    (∀ digests verify, KeyHashed digests verify key ctx msg sig stack stack') ↔
      sig 0 ≠ 0x30 ∨ IntegersFit sig ∧ stack.Holds key ∧ stack'.Holds key ∧
        SameLeft sig stack stack' := by
  by_cases sequence : sig 0 = 0x30
  · constructor
    · intro hashed
      have fits : IntegersFit sig := by
        by_contra overrun
        obtain ⟨-, -, verdict, returns, -⟩ := hashed codeDigests fun _ => 0
        unfold sm2Verify at returns
        rw [sm2Param_eq, if_neg (by simp [sequence]), if_neg overrun] at returns
        cases returns
      have holds := handsKey_iff sequence fits loaded msg
      obtain ⟨-, -, verdict, first, second⟩ :=
        hashed codeDigests (accepts (stack.rRead sig) (stack.sRead sig))
      exact .inr ⟨fits, (holds stack).mp fun digests => (hashed digests fun _ => 0).1,
        (holds stack').mp fun digests => (hashed digests fun _ => 0).2.1,
        sameLeft_of_verdict sequence fits first second⟩
    · rintro (rejected | ⟨fits, held, held', left⟩) digests verify
      · exact absurd sequence rejected
      · have holds := handsKey_iff sequence fits loaded msg
        have verdict := sm2Verify_accepted sequence fits digests verify ctx
        have same : handedParam digests ctx stack msg sig =
            handedParam digests ctx stack' msg sig := by
          obtain ⟨rSame, sSame⟩ := (read_inj sig stack stack').mpr left
          unfold handedParam
          rw [rSame, sSame, held.1, held.2, held'.1, held'.2]
        refine ⟨(holds stack).mpr held digests, (holds stack').mpr held' digests, _,
          verdict stack msg, ?_⟩
        rw [same]
        exact verdict stack' msg
  · have rejects (digests : Digests) (stack : Sm2Stack) :
        sm2Param digests ctx stack msg sig = some none := by
      rw [sm2Param_eq, if_pos sequence]
    constructor
    · exact fun _ => .inl sequence
    · intro _ digests verify
      have hands (stack : Sm2Stack) : HandsKey digests key ctx msg sig stack := by
        intro param handed
        rw [rejects] at handed
        cases handed
      have verdict (stack : Sm2Stack) :
          sm2Verify digests (some verify) ctx stack msg sig = some (-1) := by
        unfold sm2Verify
        rw [rejects]
        rfl
      exact ⟨hands stack, hands stack', -1, verdict stack, verdict stack'⟩

/-- A context that `akcipher_invoke_key` filled from a file holds the key of the file. -/
theorem invoked_loaded {key : PublicKey} {der : List UInt8} (inFile : key.InFile der)
    (small : der.length < 2 ^ 31) {digests : Digests} {derHash : Digest} {ctx ctx' : AkcipherCtx}
    (sized : ctx.key.length = 512) {ret : Int}
    (invoked : akcipherInvokeKey digests ctx der derHash = some (ret, ctx')) :
    key.Loaded ctx' := by
  obtain ⟨ctx'', returns, loaded⟩ :=
    akcipherInvokeKey_inFile key inFile small digests derHash ctx sized
  rw [invoked] at returns
  cases returns
  exact loaded

/-- With a key that `akcipher_invoke_key` accepted from a file, the verification hashes the
key of the file, and does not depend on the stack, exactly under these conditions. -/
theorem sm2Verify_keyHashed_iff (key : Sm2Key) {der : List UInt8}
    (inFile : (PublicKey.sm2 key).InFile der) (small : der.length < 2 ^ 31) {digests : Digests}
    {derHash : Digest} {ctx ctx' : AkcipherCtx} (sized : ctx.key.length = 512)
    (invoked : akcipherInvokeKey digests ctx der derHash = some (0, ctx')) (msg : List UInt8)
    (sig : Memory) (stack stack' : Sm2Stack) :
    (∀ digests verify, KeyHashed digests verify key ctx' msg sig stack stack') ↔
      sig 0 ≠ 0x30 ∨ IntegersFit sig ∧ stack.Holds key ∧ stack'.Holds key ∧
        SameLeft sig stack stack' :=
  keyHashed_iff (invoked_loaded inFile small sized invoked) msg sig stack stack'

/-! ## A key -/

def flatKey : Sm2Key := ⟨Vector.replicate 32 0x11, Vector.replicate 32 0x22⟩

/-- The key file of `flatKey`. -/
def flatKeyFile : List UInt8 :=
  [0x30, 0x5a] ++ (([0x30, 0x14] ++ Alg.sm2.oid) ++
    ([0x03, 0x42] ++ (0 :: 0x04 :: (flatKey.x.toList ++ flatKey.y.toList))))

theorem flatKey_inFile : (PublicKey.sm2 flatKey).InFile flatKeyFile :=
  ⟨_, [0x30, 0x14] ++ Alg.sm2.oid, _, rfl, short_field 0x30 0x14 (by decide) rfl,
    short_field 0x03 0x42 (by decide) rfl, short_field 0x30 0x5a (by decide) rfl⟩

theorem flatKey_invoked : ∃ ctx', akcipherInvokeKey codeDigests emptyCtx flatKeyFile
    (codeDigests.sm3 flatKeyFile) = some (0, ctx') ∧ (PublicKey.sm2 flatKey).Loaded ctx' := by
  have loads := akcipherInvokeKey_inFile (.sm2 flatKey) flatKey_inFile (by decide) codeDigests
    (codeDigests.sm3 flatKeyFile) emptyCtx List.length_replicate
  have verified : pubkeyVerify codeDigests (codeDigests.sm3 flatKeyFile) .sm2 flatKeyFile = 0 :=
    (pubkeyVerify_eq_zero _ _ _ _).mpr rfl
  rwa [show (PublicKey.sm2 flatKey).alg = .sm2 from rfl, verified] at loads

def zeroStack : Sm2Stack :=
  ⟨Vector.replicate 32 0, Vector.replicate 32 0, Vector.replicate 32 0, Vector.replicate 32 0⟩

def large : Component := ⟨2 ^ 247, by decide, by decide⟩

def largeSignature : Memory := store (fun _ => 0) 0 (derSignature large large)

theorem sm2Verify_keyHashed_flatKey : ∃ ctx', (PublicKey.sm2 flatKey).Loaded ctx' ∧
    ((∀ digests verify, KeyHashed digests verify flatKey ctx' [] largeSignature zeroStack
      zeroStack) ↔ largeSignature 0 ≠ 0x30 ∨ IntegersFit largeSignature ∧
        zeroStack.Holds flatKey ∧ zeroStack.Holds flatKey ∧
          SameLeft largeSignature zeroStack zeroStack) := by
  obtain ⟨ctx', invoked, loaded⟩ := flatKey_invoked
  exact ⟨ctx', loaded, sm2Verify_keyHashed_iff flatKey flatKey_inFile (by decide)
    List.length_replicate invoked [] largeSignature zeroStack zeroStack⟩

/-- With zeros on the stack it is not the digest for the key that is handed over. -/
theorem zeroStack_hashed : ∃ ctx', akcipherInvokeKey codeDigests emptyCtx flatKeyFile
    (codeDigests.sm3 flatKeyFile) = some (0, ctx') ∧
      ¬ KeyHashed (marks flatKey.x flatKey.y []) (fun _ => 0) flatKey ctx' [] largeSignature
        zeroStack zeroStack := by
  obtain ⟨ctx', invoked, loaded⟩ := flatKey_invoked
  refine ⟨ctx', invoked, ?_⟩
  rintro ⟨hands, -⟩
  obtain ⟨sequence, rFound, sFound⟩ :=
    derSignature_parts large large (fetch_store (fun _ => 0) 0 (derSignature large large))
  have fits : IntegersFit largeSignature := by
    unfold IntegersFit largeSignature
    rw [rFound, sFound]
    exact ⟨large.part_length_le, large.part_length_le⟩
  have held := handsKey_marks sequence fits hands
  exact absurd held.1 (by decide)

end Zsbl.Libs
