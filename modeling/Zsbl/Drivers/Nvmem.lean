/-
Module: Zsbl.Drivers.Nvmem
Purpose: The list of nvmem devices, drivers/nvmem/nvmem.c, and reading a word of an
  eFuse, sophgo-efuse.c.
Trusted boundary: the controller reads the cell that it is asked for
Main exports:
  Nvmem, nvmemFindByName, nvmemReadWord
-/
import Zsbl.Include.Libc

namespace Zsbl.Drivers

/-- `struct nvmem` of an eFuse, with its cells. -/
structure Nvmem where
  name : String
  aliasName : String
  cells : Nat → BitVec 32

def nvmemFindByName (devices : List Nvmem) (name : String) : Option Nvmem :=
  devices.find? fun dev => dev.name = name ∨ dev.aliasName = name

def NUM_ADDRESS_BITS : Nat := 8

/-- `efuse_embedded_read`; `make_adr_val` keeps the low bits of the address. -/
def efuseEmbeddedRead (dev : Nvmem) (address : Nat) : BitVec 32 :=
  dev.cells (address % 2 ^ NUM_ADDRESS_BITS)

/-- `nvmem_read` of 4 bytes at an offset that is a multiple of 4: one round of the
loop of `efuse_read`. -/
def nvmemReadWord (dev : Nvmem) (off : Nat) : BitVec 32 :=
  efuseEmbeddedRead dev (off >>> 2)

end Zsbl.Drivers
