import OpenCLDecompiler.Library.Words

/-!
# Memory of bytes

Words in a memory of bytes, the low byte first.  Addresses wrap around.
-/

namespace OpenCLDecompiler.Library

open Words

variable {w : Nat}

abbrev ByteMemory (w : Nat) := BitVec w → BitVec 8

namespace ByteMemory

/-- The bit at some distance from the low bit of the byte at an address. -/
def bit (memory : ByteMemory w) (address : BitVec w) (place : Nat) : Bool :=
  (memory (address + BitVec.ofNat w (place / 8))).getLsbD (place % 8)

def read (memory : ByteMemory w) (address : BitVec w) (size : Nat) : BitVec size :=
  ofLanes fun lane => bit memory address lane

def write {size : Nat} (memory : ByteMemory w) (address : BitVec w) (value : BitVec size) :
    ByteMemory w :=
  fun place =>
    if 8 * (place - address).toNat < size then value.extractLsb' (8 * (place - address).toNat) 8
    else memory place

theorem getLsbD_read (memory : ByteMemory w) (address : BitVec w) {size place : Nat}
    (inside : place < size) :
    (read memory address size).getLsbD place = bit memory address place :=
  getLsbD_ofLanes (fun lane : Fin size => bit memory address lane) ⟨place, inside⟩

theorem bit_add (memory : ByteMemory w) (address : BitVec w) (bytes place : Nat) :
    bit memory (address + BitVec.ofNat w bytes) place = bit memory address (8 * bytes + place) := by
  have byte : (8 * bytes + place) / 8 = bytes + place / 8 := by omega
  have inByte : (8 * bytes + place) % 8 = place % 8 := by omega
  rw [bit, bit, byte, inByte, BitVec.ofNat_add, ← BitVec.add_assoc]

/-- Whole bytes out of a word are the word that starts at the first of them. -/
theorem extractLsb'_read (memory : ByteMemory w) (address : BitVec w) {size bytes part : Nat}
    (inside : 8 * bytes + part ≤ size) :
    (read memory address size).extractLsb' (8 * bytes) part =
      read memory (address + BitVec.ofNat w bytes) part := by
  apply BitVec.eq_of_getLsbD_eq
  intro place small
  rw [BitVec.getLsbD_extractLsb', getLsbD_read memory address (by omega),
    getLsbD_read memory _ small, bit_add]
  simp [small]

theorem bit_write {size place : Nat} (memory : ByteMemory w) (address : BitVec w)
    (value : BitVec size) (inside : place < size) (fits : size ≤ 8 * 2 ^ w) :
    bit (write memory address value) address place = value.getLsbD place := by
  have small : place / 8 < 2 ^ w := by omega
  have distance : (address + BitVec.ofNat w (place / 8) - address).toNat = place / 8 := by
    rw [BitVec.add_comm, BitVec.add_sub_cancel, BitVec.toNat_ofNat, Nat.mod_eq_of_lt small]
  have within : 8 * (place / 8) < size := by omega
  have back : 8 * (place / 8) + place % 8 = place := Nat.div_add_mod place 8
  have inByte : place % 8 < 8 := Nat.mod_lt _ (by decide)
  rw [bit, write, distance, if_pos within, BitVec.getLsbD_extractLsb', back]
  simp [inByte]

/-- A word that is written is read again. -/
theorem read_write {size : Nat} (memory : ByteMemory w) (address : BitVec w)
    (value : BitVec size) (fits : size ≤ 8 * 2 ^ w) :
    read (write memory address value) address size = value := by
  apply BitVec.eq_of_getLsbD_eq
  intro place inside
  rw [getLsbD_read _ _ inside, bit_write memory address value inside fits]

/-- The bytes that a word does not take stay. -/
theorem write_of_le {size : Nat} (memory : ByteMemory w) (address place : BitVec w)
    (value : BitVec size) (outside : size ≤ 8 * (place - address).toNat) :
    write memory address value place = memory place :=
  if_neg (Nat.not_lt.mpr outside)

end ByteMemory

end OpenCLDecompiler.Library
