/-
Module: Zsbl.Libs.Ec
Purpose: The SM2 curve of lib/hash/ec.c, and the digests of lib/hash/sm3.c that sign
  for a user of it.
Trusted boundary: SM3, which is a parameter
Main exports:
  sm2p256v1A, sm2p256v1B, sm2p256v1Gx, sm2p256v1Gy, sm2p256v1Order, prime, gmMp, gmRSqr,
  calculateZa, calculateHmsg
-/
import Zsbl.Libs.Akcipher

namespace Zsbl.Libs

def prime : List UInt8 := [
  0xFF, 0xFF, 0xFF, 0xFE, 0xFF, 0xFF, 0xFF, 0xFF,
  0xFF, 0xFF, 0xFF, 0xFF, 0xFF, 0xFF, 0xFF, 0xFF,
  0xFF, 0xFF, 0xFF, 0xFF, 0x00, 0x00, 0x00, 0x00,
  0xFF, 0xFF, 0xFF, 0xFF, 0xFF, 0xFF, 0xFF, 0xFF]

def sm2p256v1A : List UInt8 := [
  0xFF, 0xFF, 0xFF, 0xFE, 0xFF, 0xFF, 0xFF, 0xFF,
  0xFF, 0xFF, 0xFF, 0xFF, 0xFF, 0xFF, 0xFF, 0xFF,
  0xFF, 0xFF, 0xFF, 0xFF, 0x00, 0x00, 0x00, 0x00,
  0xFF, 0xFF, 0xFF, 0xFF, 0xFF, 0xFF, 0xFF, 0xFC]

def sm2p256v1B : List UInt8 := [
  0x28, 0xE9, 0xFA, 0x9E, 0x9D, 0x9F, 0x5E, 0x34,
  0x4D, 0x5A, 0x9E, 0x4B, 0xCF, 0x65, 0x09, 0xA7,
  0xF3, 0x97, 0x89, 0xF5, 0x15, 0xAB, 0x8F, 0x92,
  0xDD, 0xBC, 0xBD, 0x41, 0x4D, 0x94, 0x0E, 0x93]

def sm2p256v1Order : List UInt8 := [
  0xFF, 0xFF, 0xFF, 0xFE, 0xFF, 0xFF, 0xFF, 0xFF,
  0xFF, 0xFF, 0xFF, 0xFF, 0xFF, 0xFF, 0xFF, 0xFF,
  0x72, 0x03, 0xDF, 0x6B, 0x21, 0xC6, 0x05, 0x2B,
  0x53, 0xBB, 0xF4, 0x09, 0x39, 0xD5, 0x41, 0x23]

def sm2p256v1Gx : List UInt8 := [
  0x32, 0xC4, 0xAE, 0x2C, 0x1F, 0x19, 0x81, 0x19,
  0x5F, 0x99, 0x04, 0x46, 0x6A, 0x39, 0xC9, 0x94,
  0x8F, 0xE3, 0x0B, 0xBF, 0xF2, 0x66, 0x0B, 0xE1,
  0x71, 0x5A, 0x45, 0x89, 0x33, 0x4C, 0x74, 0xC7]

def sm2p256v1Gy : List UInt8 := [
  0xBC, 0x37, 0x36, 0xA2, 0xF4, 0xF6, 0x77, 0x9C,
  0x59, 0xBD, 0xCE, 0xE3, 0x6B, 0x69, 0x21, 0x53,
  0xD0, 0xA9, 0x87, 0x7C, 0xC6, 0x2A, 0x47, 0x40,
  0x02, 0xDF, 0x32, 0xE5, 0x21, 0x39, 0xF0, 0xA0]

def gmMp : List UInt8 := [
  0xFF, 0xFF, 0xFF, 0xFC, 0x00, 0x00, 0x00, 0x01, 0xFF, 0xFF, 0xFF, 0xFE, 0x00, 0x00, 0x00, 0x00,
  0xFF, 0xFF, 0xFF, 0xFF, 0x00, 0x00, 0x00, 0x01, 0x00, 0x00, 0x00, 0x00, 0x00, 0x00, 0x00, 0x01]

def gmRSqr : List UInt8 := [
  0x00, 0x00, 0x00, 0x04, 0x00, 0x00, 0x00, 0x02, 0x00, 0x00, 0x00, 0x01, 0x00, 0x00, 0x00, 0x01,
  0x00, 0x00, 0x00, 0x02, 0xFF, 0xFF, 0xFF, 0xFF, 0x00, 0x00, 0x00, 0x02, 0x00, 0x00, 0x00, 0x03]

def userId : List UInt8 := [
  0x31, 0x32, 0x33, 0x34, 0x35, 0x36, 0x37, 0x38,
  0x31, 0x32, 0x33, 0x34, 0x35, 0x36, 0x37, 0x38]

/-- `calculate_za`: the digest of a user and of a public key. -/
def calculateZa (digests : Digests) (pubx puby : List UInt8) : Digest :=
  let idLength := userId.length * 8
  let entl := [UInt8.ofNat (idLength >>> 8), UInt8.ofNat (idLength &&& 0xFF)]
  digests.sm3 (entl ++ userId ++ sm2p256v1A ++ sm2p256v1B ++ sm2p256v1Gx ++ sm2p256v1Gy ++
    pubx ++ puby)

/-- `calculate_hmsg`: the digest of a message under it. -/
def calculateHmsg (digests : Digests) (za : Digest) (msg : List UInt8) : Digest :=
  digests.sm3 (za.toList ++ msg)

end Zsbl.Libs
