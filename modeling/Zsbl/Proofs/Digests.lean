/-
Module: Zsbl.Proofs.Digests
Purpose: The digests that the verification of keys and signatures has as parameters are
  computed by lib/hash, also where it reads a message in parts.
Trusted boundary: none
Main exports:
  standardDigests, calculateZa_eq_standard, calculateHmsg_eq_standard, messageDigest_computed
-/
import Zsbl.Proofs.Sha256
import Zsbl.Proofs.Sm2Digest
import Zsbl.Proofs.Sm3

namespace Zsbl.Libs

open Zsbl.Lib

/-- The digests of the standards. -/
def standardDigests : Digests where
  sha256 := fun message => ⟨(Sha2.sha256 Sha256.constants message).toArray, by
    rw [List.size_toArray]
    exact Registers.length_bytes _⟩
  sm3 := fun message => ⟨(Lib.Sm3.sm3 message).toArray, by
    rw [List.size_toArray]
    exact Registers.length_bytes _⟩

theorem toList_sm3 (message : List UInt8) :
    (standardDigests.sm3 message).toList = Lib.Sm3.sm3 message := rfl

/-- The digest of the identity is the one of the standard, with the key's coordinates in it.
-/
theorem calculateZa_eq_standard (pubx puby : Vector UInt8 32) :
    Sm3.calculateZa pubx.toList puby.toList =
      (calculateZa standardDigests pubx.toList puby.toList).toList := by
  have chunks := Sm3.sm3_chunks [[UInt8.ofNat ((userId.length * 8) >>> 8),
    UInt8.ofNat (userId.length * 8 &&& 0xFF)], userId, sm2p256v1A, sm2p256v1B, sm2p256v1Gx,
    sm2p256v1Gy, pubx.toList, puby.toList]
  rw [calculateZa, toList_sm3]
  simp only [List.flatten_cons, List.flatten_nil, List.append_nil] at chunks
  simp only [List.append_assoc]
  exact chunks

theorem calculateHmsg_eq_standard (za : Digest) (msg : List UInt8) :
    Sm3.calculateHmsg za.toList msg = (calculateHmsg standardDigests za msg).toList := by
  have chunks := Sm3.sm3_chunks [za.toList, msg]
  simp only [List.flatten_cons, List.flatten_nil, List.append_nil] at chunks
  exact chunks

/-- What is signed for a key: the digest of the message behind the digest of its user. -/
theorem messageDigest_computed (pubx puby : Vector UInt8 32) (msg : List UInt8) :
    Sm3.calculateHmsg (Sm3.calculateZa pubx.toList puby.toList) msg =
        (messageDigest standardDigests pubx puby msg).toList ∧
      (messageDigest standardDigests pubx puby msg).toList =
        Lib.Sm3.sm3 (Lib.Sm3.sm3 (zaInput pubx puby) ++ msg) := by
  constructor
  · rw [calculateZa_eq_standard, calculateHmsg_eq_standard]
    rfl
  · unfold messageDigest calculateHmsg
    rw [calculateZa_eq, toList_sm3, toList_sm3]

end Zsbl.Libs
