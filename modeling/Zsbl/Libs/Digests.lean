/-
Module: Zsbl.Libs.Digests
Purpose: The digests that lib/akcipher takes of a key file and of a message.
Trusted boundary: none
Main exports:
  codeDigests
-/
import Zsbl.Libs.Sha256
import Zsbl.Libs.Sm3

namespace Zsbl.Libs

/-- The first 32 bytes. -/
def Digest.ofBytes (bytes : List UInt8) : Digest := Vector.ofFn fun i => bytes.getD i 0

theorem length_zeroBuf : (List.replicate 64 (0 : UInt8)).length = 64 := List.length_replicate

/-- What `do_sha256` finds on a stack of zeros. -/
def zeroState : Sha256.HashState where
  length := 0#64
  state := Vector.replicate 8 0#32
  curlen := 0
  buf := List.replicate 64 0
  buf_length := length_zeroBuf

/-- `do_sha256` and `do_sm3`. -/
def codeDigests : Digests where
  sha256 msg := .ofBytes ((Sha256.doSha256 zeroState msg).toOption.getD [])
  sm3 msg := .ofBytes (Sm3.doSm3 msg)

end Zsbl.Libs
