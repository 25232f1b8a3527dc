/-
Module: Zsbl.Lib.Sm3
Purpose: The digest SM3 as its standard has it.
Trusted boundary: the text of the standard, GB/T 32905
Main exports:
  Sm3.schedule, Sm3.round, Sm3.compress, Sm3.hash, Sm3.sm3
-/
import Zsbl.Lib.BlockHash
import Zsbl.Lib.Rounds

namespace Zsbl.Lib.Sm3

def ff (j : Nat) (x y z : Word) : Word :=
  if j < 16 then x ^^^ y ^^^ z else (x &&& y) ||| (x &&& z) ||| (y &&& z)

def gg (j : Nat) (x y z : Word) : Word :=
  if j < 16 then x ^^^ y ^^^ z else (x &&& y) ||| (~~~x &&& z)

def p0 (x : Word) : Word := x ^^^ x.rotateLeft 9 ^^^ x.rotateLeft 17

def p1 (x : Word) : Word := x ^^^ x.rotateLeft 15 ^^^ x.rotateLeft 23

/-- The constant of a round, turned by the number of the round. -/
def t (j : Nat) : Word :=
  (if j < 16 then 0x79cc4519 else 0x7a879d8a : Word).rotateLeft (j % 32)

/-- The words of the message expansion. -/
def schedule (block : List UInt8) (j : Nat) : Word :=
  if j < 16 then Word.ofBytes ((block.drop (4 * j)).take 4)
  else p1 (schedule block (j - 16) ^^^ schedule block (j - 9) ^^^
      (schedule block (j - 3)).rotateLeft 15) ^^^
    (schedule block (j - 13)).rotateLeft 7 ^^^ schedule block (j - 6)

def round (block : List UInt8) (registers : Registers Word) (j : Nat) : Registers Word :=
  let ss1 := (registers.a.rotateLeft 12 + registers.e + t j).rotateLeft 7
  let ss2 := ss1 ^^^ registers.a.rotateLeft 12
  let tt1 := ff j registers.a registers.b registers.c + registers.d + ss2 +
    (schedule block j ^^^ schedule block (j + 4))
  let tt2 := gg j registers.e registers.f registers.g + registers.h + ss1 + schedule block j
  ⟨tt1, registers.a, registers.b.rotateLeft 9, registers.c, p0 tt2, registers.e,
    registers.f.rotateLeft 19, registers.g⟩

def compress (state : Registers Word) (block : List UInt8) : Registers Word :=
  state.zipWith (· ^^^ ·)
    ((List.finRange 64).foldl (fun registers j => round block registers j.val) state)

def hash : BlockHash (Registers Word) UInt8 :=
  .bits64 compress ⟨0x7380166f, 0x4914b2b9, 0x172442d7, 0xda8a0600, 0xa96f30bc, 0x163138aa,
    0xe38dee4d, 0xb0fb0e4e⟩

@[simp] theorem hash_compress : hash.compress = compress := rfl

def sm3 (message : List UInt8) : List UInt8 := (hash.digest message).bytes

end Zsbl.Lib.Sm3
