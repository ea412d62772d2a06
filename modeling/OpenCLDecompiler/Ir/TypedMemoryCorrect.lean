import Mathlib.Data.List.Nodup
import OpenCLDecompiler.Ir.TypedMemory

/-!
# Typed loads and stores cover their access

What the code emitted for an access reads and writes, and in which registers and bytes
the components are afterwards.
-/

namespace OpenCLDecompiler.TypedMemory

open Library Ptx

/-! ## Accesses -/

/-- The type of an access: one element, or a vector of two or four. -/
structure Access extends MemoryAccessType where
  widths : vectorWidth ∈ [1, 2, 4]

abbrev Access.bits (access : Access) : Nat := access.baseType.bits

/-- Elements of 64 bits are in a `Reg64` each, others in a `Reg32`. -/
def Operand.Fits (access : Access) : Operand → Prop
  | alone reg => access.vectorWidth = 1 ∧ reg.bits = max 32 access.bits
  | composite regs =>
      1 < access.vectorWidth ∧ regs.length = access.vectorWidth ∧
        ∀ reg ∈ regs, reg.bits = max 32 access.bits

def Operand.names (operand : Operand) : List String := operand.parts.flatMap Reg.names

/-- A load of a PTX kernel. -/
structure Loading (access : Access) where
  flat : Bool
  destination : Operand
  address : String
  offset : Nat
  counts : String → Nat
  fits : destination.Fits access
  apart : destination.names.Nodup
  spelled : ∀ name ∈ destination.names, name.toList.head? = some '%'

/-- A store of a PTX kernel. -/
structure Storing (access : Access) where
  address : String
  value : Operand
  counts : String → Nat
  fits : value.Fits access

/-- The address, the offset and the bits of a memory instruction. -/
def Backend.covers : Backend → Option (String × Nat × Nat)
  | .load _ suffix _ address offset => some (address, offset, suffix.bits)
  | .flatStore suffix address _ => some (address, 0, suffix.bits)
  | _ => none

def covered (code : List Backend) : List (String × Nat × Nat) := code.filterMap Backend.covers

section

variable {access : Access}

/-- The component of an access at a place in memory. -/
def component (access : Access) (memory : ByteMemory 64) (place : BitVec 64) (index : Nat) :
    BitVec access.bits :=
  memory.read (place + BitVec.ofNat 64 (index * (access.bits / 8))) access.bits

/-- The component in a register. -/
def inReg (access : Access) (machine : Machine) (reg : Reg) : BitVec access.bits :=
  (machine.contents reg).setWidth access.bits

namespace Loading

def code (loading : Loading access) : Option (List Backend) :=
  (TypedMemoryLoad.new loading.flat loading.destination loading.address loading.offset
    access.toMemoryAccessType loading.counts).toFillNode

def place (loading : Loading access) (machine : Machine) : BitVec 64 :=
  machine.contents (.wide loading.address) + BitVec.ofNat 64 loading.offset

/-- Every register gets its component. -/
def Delivers (loading : Loading access) (code : List Backend) : Prop :=
  ∀ machine index reg, loading.destination.parts[index]? = some reg →
    inReg access (machine.run code) reg =
      component access machine.memory (loading.place machine) index

def Right (loading : Loading access) : Prop :=
  ∃ code, loading.code = some code ∧
    covered code = [(loading.address, loading.offset, access.totalBits)] ∧ loading.Delivers code

end Loading

namespace Storing

def code (storing : Storing access) : Option (List Backend) :=
  (TypedMemoryStore.new storing.address storing.value access.toMemoryAccessType
    storing.counts).bind TypedMemoryStore.toFillNode

def place (storing : Storing access) (machine : Machine) : BitVec 64 :=
  machine.contents (.wide storing.address)

/-- Every component comes from its register, and the other bytes stay. -/
def Delivers (storing : Storing access) (code : List Backend) : Prop :=
  (∀ machine index reg, storing.value.parts[index]? = some reg →
    component access (machine.run code).memory (storing.place machine) index =
      inReg access machine reg) ∧
  ∀ machine at', access.totalBits ≤ 8 * (at' - storing.place machine).toNat →
    (machine.run code).memory at' = machine.memory at'

def Right (storing : Storing access) : Prop :=
  ∃ code, storing.code = some code ∧
    covered code = [(storing.address, 0, access.totalBits)] ∧ storing.Delivers code

end Storing

end

/-- A load finds what a store to the same place has left. -/
def RoundTrip (access : Access) : Prop :=
  ∀ (storing : Storing access) (loading : Loading access),
    ∃ storeCode loadCode, storing.code = some storeCode ∧ loading.code = some loadCode ∧
      ∀ machine : Machine, loading.place machine = storing.place machine →
        ∀ (index : Nat) (stored loaded : Reg), storing.value.parts[index]? = some stored →
          loading.destination.parts[index]? = some loaded →
            inReg access ((machine.run storeCode).run loadCode) loaded =
              inReg access machine stored

/-- The loads and the stores of an access are right, and fit together. -/
def AccessRight (access : Access) : Prop :=
  (∀ loading : Loading access, loading.Right) ∧ (∀ storing : Storing access, storing.Right) ∧
    RoundTrip access

/-! ## Registers -/

theorem Reg.bits_le (reg : Reg) : reg.bits ≤ 64 := by
  cases reg <;> simp [Reg.bits]

namespace Machine

variable {machine : Machine}

theorem contents_set {name : String} {value : BitVec 32} {reg : Reg} (other : name ∉ reg.names) :
    (machine.set name value).contents reg = machine.contents reg := by
  cases reg with
  | word held =>
      have apart : held ≠ name := fun same => other (by simp [Reg.names, same])
      simp [contents, set, apart]
  | wide held =>
      have low : lo held ≠ name := fun same => other (by simp [Reg.names, same])
      have high : hi held ≠ name := fun same => other (by simp [Reg.names, same])
      simp [contents, set, low, high]

theorem contents_set_self (name : String) (value : BitVec 32) :
    (machine.set name value).contents (.word name) = value.setWidth 64 := by
  simp [contents, set]

theorem contents_put_self {value : BitVec 64} {reg : Reg} (apart : reg.names.Nodup) :
    (machine.put value reg).contents reg = (value.setWidth reg.bits).setWidth 64 := by
  cases reg with
  | word name => exact contents_set_self name _
  | wide name =>
      have halves : lo name ≠ hi name := by simpa [Reg.names] using apart
      simp only [put, contents, set, Function.update_self, Function.update_of_ne halves]
      apply BitVec.eq_of_getLsbD_eq
      intro place small
      simp only [BitVec.getLsbD_append, BitVec.getLsbD_extractLsb', BitVec.getLsbD_setWidth,
        Reg.bits]
      by_cases low : place < 32
      · simp [low, small]
      · have back : 32 + (place - 32) = place := by omega
        have high : place - 32 < 32 := by omega
        simp [low, high, small, back]

theorem contents_put {value : BitVec 64} {reg other : Reg}
    (apart : ∀ name ∈ reg.names, name ∉ other.names) :
    (machine.put value reg).contents other = machine.contents other := by
  cases reg with
  | word name => exact contents_set (apart name (by simp [Reg.names]))
  | wide name =>
      rw [put, contents_set (apart (hi name) (by simp [Reg.names])),
        contents_set (apart (lo name) (by simp [Reg.names]))]

theorem contents_fill_other {room : Nat} {value : BitVec 128} {regs : List Reg} {other : Reg}
    (apart : ∀ name ∈ regs.flatMap Reg.names, name ∉ other.names) :
    (machine.fill room value regs).contents other = machine.contents other := by
  induction regs generalizing room value machine with
  | nil => rfl
  | cons reg rest ih =>
      rw [List.flatMap_cons, List.forall_mem_append] at apart
      rw [fill]
      split
      · rw [ih apart.right, contents_put apart.left]
      · rfl

/-- Registers of one size get the parts of the value in order. -/
theorem contents_fill {unit room : Nat} {value : BitVec 128} {regs : List Reg}
    (uniform : ∀ reg ∈ regs, reg.bits = unit) (apart : (regs.flatMap Reg.names).Nodup)
    (roomy : unit * regs.length ≤ room) {index : Nat} {reg : Reg}
    (here : regs[index]? = some reg) :
    (machine.fill room value regs).contents reg =
      (value.extractLsb' (unit * index) unit).setWidth 64 := by
  induction regs generalizing room value machine index with
  | nil => cases here
  | cons first rest ih =>
      obtain ⟨alone, restApart, apart⟩ := List.nodup_append.mp (List.flatMap_cons ▸ apart)
      have size : first.bits = unit := uniform first List.mem_cons_self
      have bounded : unit ≤ 64 := size ▸ Reg.bits_le first
      rw [List.length_cons, Nat.mul_succ] at roomy
      rw [fill, size, if_pos (by omega)]
      cases index with
      | zero =>
          cases here
          rw [contents_fill_other fun name late early => apart name early name late rfl,
            contents_put_self alone, size]
          apply BitVec.eq_of_getLsbD_eq
          intro place small
          simp only [BitVec.getLsbD_setWidth, BitVec.getLsbD_extractLsb', Nat.mul_zero, Nat.zero_add,
            small, decide_true, Bool.true_and]
      | succ index =>
          rw [ih (fun reg inside => uniform reg (List.mem_cons_of_mem _ inside)) restApart
            (by omega) here]
          apply BitVec.eq_of_getLsbD_eq
          intro place small
          simp only [BitVec.getLsbD_setWidth, BitVec.getLsbD_extractLsb', BitVec.getLsbD_ushiftRight,
            Nat.mul_succ, Nat.add_comm, Nat.add_left_comm]

end Machine

/-! ## Loads -/

section

variable {access : Access}

theorem Access.bits_cases (access : Access) :
    access.bits = 8 ∨ access.bits = 16 ∨ access.bits = 32 ∨ access.bits = 64 := by
  unfold Access.bits
  cases access.baseType <;> simp [BaseType.bits]

theorem Access.width_cases (access : Access) :
    access.vectorWidth = 1 ∨ access.vectorWidth = 2 ∨ access.vectorWidth = 4 := by
  simpa using access.widths

theorem Access.bits_le (access : Access) : access.bits ≤ 64 := by
  rcases access.bits_cases with bits | bits | bits | bits <;> omega

theorem Access.totalBits_of_single (single : access.vectorWidth = 1) :
    access.totalBits = access.bits := by
  change access.bits * access.vectorWidth = _
  rw [single, Nat.mul_one]

theorem Access.start_eq (access : Access) (index : Nat) :
    8 * (index * (access.bits / 8)) = access.bits * index := by
  have whole : 8 * (access.bits / 8) = access.bits := by
    rcases access.bits_cases with bits | bits | bits | bits <;> rw [bits]
  rw [Nat.mul_left_comm, whole, Nat.mul_comm]

theorem Operand.Fits.uniform {operand : Operand} (fits : operand.Fits access) :
    ∀ reg ∈ operand.parts, reg.bits = max 32 access.bits := by
  cases operand with
  | alone reg => simpa [Operand.parts] using fits.right
  | composite regs => exact fits.right.right

theorem Operand.Fits.length {operand : Operand} (fits : operand.Fits access) :
    operand.parts.length = access.vectorWidth := by
  cases operand with
  | alone reg => exact fits.left.symm
  | composite regs => exact fits.right.left

namespace Loading

/-- A load into the registers of the destination is right unless small elements are packed. -/
theorem delivers_load (loading : Loading access) {suffix : Suffix}
    (size : suffix.bits = max 32 access.totalBits)
    (unpacked : access.vectorWidth = 1 ∨ 32 ≤ access.bits) :
    loading.Delivers
      [.load loading.flat suffix loading.destination loading.address loading.offset] := by
  intro machine index reg here
  have inside : index < access.vectorWidth :=
    loading.fits.length ▸ (List.getElem?_eq_some_iff.mp here).1
  have largest : suffix.bits ≤ 128 := by cases suffix <;> decide
  have total : access.totalBits = access.bits * access.vectorWidth := rfl
  have start : max 32 access.bits * index = access.bits * index := by
    rcases unpacked with single | large
    · obtain rfl : index = 0 := by omega
      rfl
    · rw [max_eq_right large]
  have room : max 32 access.bits * access.vectorWidth ≤ max 32 suffix.bits := by
    rcases unpacked with single | large
    · rw [size, total, single]
      omega
    · rw [size, total, max_eq_right large]
      omega
  have fitting : access.bits * index + access.bits ≤ suffix.bits := by
    have whole : access.bits * (index + 1) ≤ access.bits * access.vectorWidth :=
      Nat.mul_le_mul_left _ inside
    rw [Nat.mul_succ] at whole
    omega
  change ((machine.fill _ _ loading.destination.parts).contents reg).setWidth access.bits = _
  rw [Machine.contents_fill loading.fits.uniform loading.apart (loading.fits.length ▸ room) here,
    start]
  apply BitVec.eq_of_getLsbD_eq
  intro place small
  have bounded := access.bits_le
  have inUnit : place < max 32 access.bits := by omega
  have inWord : place < 64 := by omega
  have inValue : access.bits * index + place < 128 := by omega
  rw [component, ByteMemory.getLsbD_read _ _ small, ByteMemory.bit_add, access.start_eq]
  simp only [BitVec.getLsbD_setWidth, BitVec.getLsbD_extractLsb', small, inUnit, inWord, inValue,
    decide_true, Bool.true_and]
  rw [ByteMemory.getLsbD_read _ _ (by omega)]
  rfl

end Loading

/-! ## Packed elements -/

theorem getLsbD_lowOnes {size : Nat} (narrow : size < 32) (place : Nat) :
    (1#32 <<< size - 1#32).getLsbD place = decide (place < size) := by
  have power : 2 ^ size < 2 ^ 32 := Nat.pow_lt_pow_right (by decide) narrow
  have positive : 0 < 2 ^ size := Nat.two_pow_pos size
  have ones : (1#32 <<< size - 1#32).toNat = 2 ^ size - 1 := by
    have shifted : (1#32 <<< size).toNat = 2 ^ size := by
      rw [BitVec.toNat_shiftLeft, Nat.shiftLeft_eq]
      exact (congrArg (· % 2 ^ 32) (Nat.one_mul _)).trans (Nat.mod_eq_of_lt power)
    rw [BitVec.toNat_sub, shifted]
    have one : (1#32).toNat = 1 := rfl
    rw [one]
    omega
  rw [BitVec.getLsbD, ones, Nat.testBit_two_pow_sub_one]

/-- A selector of the bit-field extract has the width above the offset. -/
theorem getLsbD_bfe {value : BitVec 32} {size offset : Nat} (narrow : size < 32)
    (near : offset < 32) (place : Nat) :
    (Machine.bfe value (BitVec.ofNat 32 ((size <<< 16) ||| offset))).getLsbD place =
      (decide (place < size) && value.getLsbD (offset + place)) := by
  have joined : (size <<< 16) ||| offset = size * 65536 + offset := by
    rw [← Nat.shiftLeft_add_eq_or_of_lt (show offset < 2 ^ 16 by omega), Nat.shiftLeft_eq]
  have low : (BitVec.ofNat 32 (size * 65536 + offset) &&& 31).toNat = offset := by
    rw [BitVec.toNat_and, BitVec.toNat_ofNat]
    refine (Nat.and_two_pow_sub_one_eq_mod _ 5).trans ?_
    omega
  have high : ((BitVec.ofNat 32 (size * 65536 + offset) >>> 16) &&& 127).toNat = size := by
    rw [BitVec.toNat_and, BitVec.toNat_ushiftRight, BitVec.toNat_ofNat, Nat.shiftRight_eq_div_pow]
    refine (Nat.and_two_pow_sub_one_eq_mod _ 7).trans ?_
    omega
  rw [joined, Machine.bfe, low, high, BitVec.getLsbD_and, BitVec.getLsbD_ushiftRight]
  refine (congrArg _ (getLsbD_lowOnes narrow place)).trans (Bool.and_comm _ _)
/-- The component that an instruction of `unpackFrom` takes out of the dword. -/
def piece (access : MemoryAccessType) (value : BitVec 32) (index : Nat) : BitVec 32 :=
  if index = 0 then value &&& TypedMemoryLoad.lowMask access
  else Machine.bfe value (TypedMemoryLoad.bfeSelector access index)

theorem run_cons (machine : Machine) (first : Backend) (rest : List Backend) :
    machine.run (first :: rest) = (machine.step first).run rest := rfl

theorem step_unpack (machine : Machine) (access : MemoryAccessType) (name packed : String)
    (index : Nat) :
    machine.step
      (if index = 0 then .sAnd (.word name) (.word packed) (TypedMemoryLoad.lowMask access)
        else .sBfe (.word name) (.word packed) (TypedMemoryLoad.bfeSelector access index)) =
      machine.set name (piece access (machine.regs packed) index) := by
  unfold piece
  split <;> rfl

theorem Reg.eq_word {reg : Reg} (size : reg.bits = 32) : ∃ name, reg = .word name := by
  cases reg with
  | word name => exact ⟨name, rfl⟩
  | wide name => cases size

/-- Registers outside of the destination stay. -/
theorem contents_unpack_other {machine : Machine} {packed : String} {regs : List Reg}
    {other : Reg} (index : Nat) (words : ∀ reg ∈ regs, reg.bits = 32)
    (apart : ∀ name ∈ regs.flatMap Reg.names, name ∉ other.names) :
    (machine.run (TypedMemoryLoad.unpackFrom access.toMemoryAccessType (.word packed) index
      regs)).contents other = machine.contents other := by
  induction regs generalizing machine index with
  | nil => rfl
  | cons reg rest ih =>
      obtain ⟨name, rfl⟩ := Reg.eq_word (words reg List.mem_cons_self)
      rw [List.flatMap_cons, List.forall_mem_append] at apart
      rw [TypedMemoryLoad.unpackFrom, run_cons, step_unpack,
        ih (index + 1) (fun reg inside => words reg (List.mem_cons_of_mem _ inside)) apart.right,
        Machine.contents_set (apart.left name List.mem_cons_self)]

/-- Every register of the destination gets its piece of the dword. -/
theorem contents_unpack {machine : Machine} {packed : String} {regs : List Reg} {start : Nat}
    (words : ∀ reg ∈ regs, reg.bits = 32) (apart : (regs.flatMap Reg.names).Nodup)
    (fresh : packed ∉ regs.flatMap Reg.names) {index : Nat} {reg : Reg}
    (here : regs[index]? = some reg) :
    (machine.run (TypedMemoryLoad.unpackFrom access.toMemoryAccessType (.word packed) start
      regs)).contents reg =
      (piece access.toMemoryAccessType (machine.regs packed) (start + index)).setWidth 64 := by
  induction regs generalizing machine start index with
  | nil => cases here
  | cons first rest ih =>
      obtain ⟨name, rfl⟩ := Reg.eq_word (words first List.mem_cons_self)
      obtain ⟨-, restApart, apart⟩ := List.nodup_append.mp (List.flatMap_cons ▸ apart)
      rw [List.flatMap_cons, List.mem_append, not_or] at fresh
      have restWords := fun reg inside => words reg (List.mem_cons_of_mem _ inside)
      rw [TypedMemoryLoad.unpackFrom, run_cons, step_unpack]
      cases index with
      | zero =>
          cases here
          rw [contents_unpack_other (start + 1) restWords
            fun name late early => apart name early name late rfl, Machine.contents_set_self]
          rfl
      | succ index =>
          have other : packed ≠ name := fun same => fresh.left (by simp [Reg.names, same])
          rw [ih restWords restApart fresh.right here]
          simp only [Machine.set, Function.update_of_ne other, Nat.add_assoc, Nat.add_comm 1]

/-- The mask and the selectors pick the components of the dword. -/
theorem setWidth_piece {value : BitVec 32} {index : Nat} (narrow : access.bits < 32)
    (inside : access.bits * (index + 1) ≤ 32) :
    (piece access.toMemoryAccessType value index).setWidth access.bits =
      value.extractLsb' (access.bits * index) access.bits := by
  apply BitVec.eq_of_getLsbD_eq
  intro place small
  have positive : 0 < access.bits := Nat.lt_of_le_of_lt (Nat.zero_le place) small
  have near : index * access.bits < 32 := by
    rw [Nat.mul_succ] at inside
    rw [Nat.mul_comm]
    omega
  simp only [BitVec.getLsbD_setWidth, BitVec.getLsbD_extractLsb', small, decide_true, Bool.true_and]
  unfold piece
  split
  next first =>
    have power : 2 ^ access.bits - 1 < 2 ^ 32 :=
      lt_of_le_of_lt (Nat.sub_le _ _) (Nat.pow_lt_pow_right (by decide) narrow)
    have ones : (TypedMemoryLoad.lowMask access.toMemoryAccessType).getLsbD place = true := by
      rw [TypedMemoryLoad.lowMask, BitVec.getLsbD, BitVec.toNat_ofNat, Nat.mod_eq_of_lt power,
        Nat.testBit_two_pow_sub_one]
      exact decide_eq_true small
    rw [BitVec.getLsbD_and, ones, Bool.and_true, first, Nat.mul_zero, Nat.zero_add]
  next =>
    rw [TypedMemoryLoad.bfeSelector, getLsbD_bfe narrow near, decide_eq_true small, Bool.true_and,
      Nat.mul_comm]

theorem generate_not_mem (stem : String) (count : Nat) {names : List String}
    (spelled : ∀ name ∈ names, name.toList.head? = some '%') : generate stem count ∉ names := by
  intro inside
  have percent := spelled _ inside
  simp [generate, String.toList_append] at percent

namespace Loading

/-- A load that unpacks small elements is right. -/
theorem delivers_unpack (loading : Loading access) {packed : String}
    (fresh : packed ∉ loading.destination.names) (narrow : access.bits < 32)
    (several : loading.destination.regs = loading.destination.parts)
    (together : access.totalBits ≤ 32) :
    loading.Delivers
      (.load loading.flat .dword (.alone (.word packed)) loading.address loading.offset ::
        TypedMemoryLoad.unpackFrom access.toMemoryAccessType (.word packed) 0
          loading.destination.regs) := by
  intro machine index reg here
  have inside : index < access.vectorWidth :=
    loading.fits.length ▸ (List.getElem?_eq_some_iff.mp here).1
  have fitting : access.bits * (index + 1) ≤ 32 :=
    le_trans (Nat.mul_le_mul_left _ inside) together
  have words : ∀ reg ∈ loading.destination.parts, reg.bits = 32 := fun reg member => by
    rw [loading.fits.uniform reg member]
    omega
  have dword : ∀ machine : Machine, (machine.step
      (.load loading.flat .dword (.alone (.word packed)) loading.address loading.offset)).regs
        packed = machine.memory.read (machine.contents (.wide loading.address) +
          BitVec.ofNat 64 loading.offset) 32 := by
    intro machine
    simp [Machine.step, Operand.parts, Suffix.bits, Machine.fill, Reg.bits, Machine.put,
      Machine.set]
  have room : 8 * (index * (access.bits / 8)) + access.bits ≤ 32 := by
    rw [access.start_eq]
    exact Nat.mul_succ access.bits index ▸ fitting
  rw [run_cons, inReg, several, contents_unpack words loading.apart fresh here, dword, Nat.zero_add,
    BitVec.setWidth_setWidth_of_le _ (by omega), setWidth_piece narrow fitting, component,
    ← access.start_eq, ByteMemory.extractLsb'_read _ _ room]
  rfl

end Loading

/-! ## Widths -/

theorem bits_of_memorySuffixForBits {size : Nat} {suffix : Suffix}
    (found : memorySuffixForBits size = some suffix) : suffix.bits = size := by
  unfold memorySuffixForBits at found
  split at found <;> cases found <;> rfl

/-- The widths of the accesses have suffixes, up to the largest one. -/
theorem memorySuffixForBits_load (access : Access) :
    if access.totalBits = 256 then memorySuffixForBits (max 32 access.totalBits) = none
    else ∃ suffix, memorySuffixForBits (max 32 access.totalBits) = some suffix := by
  have total : access.totalBits = access.bits * access.vectorWidth := rfl
  rcases access.bits_cases with bits | bits | bits | bits <;>
    rcases access.width_cases with width | width | width <;>
    rw [total, bits, width] <;> simp [memorySuffixForBits]

theorem memorySuffixForBits_element (access : Access) :
    ∃ suffix, memorySuffixForBits access.bits = some suffix := by
  rcases access.bits_cases with bits | bits | bits | bits <;> rw [bits] <;>
    simp [memorySuffixForBits]

theorem covered_unpackFrom (access : MemoryAccessType) (packed : Reg) (index : Nat)
    (regs : List Reg) : covered (TypedMemoryLoad.unpackFrom access packed index regs) = [] := by
  induction regs generalizing index with
  | nil => rfl
  | cons reg rest ih =>
      rw [TypedMemoryLoad.unpackFrom, covered, List.filterMap_cons_none]
      · exact ih (index + 1)
      · split <;> rfl

namespace Loading

/--
What a load does by design: it covers at least a dword, and raises where no instruction
is wide enough.  What it leaves in the registers of four elements of 16 bits is not said.
-/
def Holds (loading : Loading access) : Prop :=
  if access.totalBits = 256 then loading.code = none
  else
    ∃ code, loading.code = some code ∧
      covered code = [(loading.address, loading.offset, max 32 access.totalBits)] ∧
      (¬(access.bits = 16 ∧ access.vectorWidth = 4) → loading.Delivers code)

variable (loading : Loading access)

theorem code_of_not_needs
    (raw : TypedMemoryLoad.needsSmallVectorUnpack loading.destination access.toMemoryAccessType =
      false) :
    loading.code = (memorySuffixForBits (max 32 access.totalBits)).map fun suffix =>
      [.load loading.flat suffix loading.destination loading.address loading.offset] := by
  simp only [code, TypedMemoryLoad.new, raw, TypedMemoryLoad.toFillNode,
    TypedMemoryLoad.genericFill, TypedMemoryLoad.getSuffix, TypedMemoryLoad.size]
  cases memorySuffixForBits (max 32 access.totalBits) <;> rfl

theorem needs_iff :
    TypedMemoryLoad.needsSmallVectorUnpack loading.destination access.toMemoryAccessType = true ↔
      1 < access.vectorWidth ∧ access.bits < 32 ∧ access.totalBits ≤ 32 := by
  have composite : 1 < access.vectorWidth → loading.destination.isComposite = true := by
    intro several
    have fits := loading.fits
    cases same : loading.destination with
    | alone reg =>
        rw [same] at fits
        exact absurd fits.left (by omega)
    | composite regs => rfl
  simp only [TypedMemoryLoad.needsSmallVectorUnpack, Bool.and_eq_true, decide_eq_true_eq, and_assoc]
  exact ⟨And.right, fun small => ⟨composite small.left, small⟩⟩

theorem code_of_needs (several : 1 < access.vectorWidth) (narrow : access.bits < 32)
    (together : access.totalBits ≤ 32) :
    loading.destination.regs = loading.destination.parts ∧
    loading.code = some
      (.load loading.flat .dword
          (.alone (.word (generate "typed_ld" (loading.counts "typed_ld")))) loading.address
          loading.offset ::
        TypedMemoryLoad.unpackFrom access.toMemoryAccessType
          (.word (generate "typed_ld" (loading.counts "typed_ld"))) 0 loading.destination.regs) := by
  have needed := loading.needs_iff.mpr ⟨several, narrow, together⟩
  have fits := loading.fits
  have regs : loading.destination.regs = loading.destination.parts ∧
      loading.destination.regs ≠ [] := by
    cases same : loading.destination with
    | alone reg =>
        rw [same] at fits
        exact absurd fits.left (by omega)
    | composite regs =>
        rw [same] at fits
        refine ⟨rfl, fun none => ?_⟩
        have length : regs.length = access.vectorWidth := fits.right.left
        rw [show regs = [] from none, List.length_nil] at length
        omega
  refine ⟨regs.left, ?_⟩
  simp only [code, TypedMemoryLoad.new, needed, if_true, TypedMemoryLoad.toFillNode,
    TypedMemoryLoad.getSuffix, TypedMemoryLoad.size, max_eq_left together, memorySuffixForBits,
    if_neg regs.right]
  rfl

theorem holds : loading.Holds := by
  have suffixes := memorySuffixForBits_load access
  unfold Holds
  by_cases small : 1 < access.vectorWidth ∧ access.bits < 32 ∧ access.totalBits ≤ 32
  · obtain ⟨several, narrow, together⟩ := small
    obtain ⟨parts, emitted⟩ := loading.code_of_needs several narrow together
    rw [if_neg (by omega)]
    refine ⟨_, emitted, ?_, fun _ => ?_⟩
    · have dword : Backend.covers (.load loading.flat .dword
          (.alone (.word (generate "typed_ld" (loading.counts "typed_ld")))) loading.address
          loading.offset) = some (loading.address, loading.offset, 32) := rfl
      rw [max_eq_left together, covered, List.filterMap_cons_some dword]
      exact congrArg _ (covered_unpackFrom _ _ _ _)
    · exact loading.delivers_unpack (generate_not_mem _ _ loading.spelled) narrow parts together
  · have raw := Bool.eq_false_iff.mpr (mt loading.needs_iff.mp small)
    rw [loading.code_of_not_needs raw]
    split at suffixes
    next widest => rw [if_pos widest, suffixes, Option.map_none]
    next fits =>
      obtain ⟨suffix, found⟩ := suffixes
      have size := bits_of_memorySuffixForBits found
      rw [if_neg fits, found]
      refine ⟨_, rfl, by rw [← size]; rfl, fun other => loading.delivers_load size ?_⟩
      have total : access.totalBits = access.bits * access.vectorWidth := rfl
      rcases access.bits_cases with bits | bits | bits | bits <;>
        rcases access.width_cases with width | width | width <;>
        rw [total, bits, width] at small <;> omega

end Loading

/-! ## Stores -/

/-- The selector puts the low bytes of two registers together, the first one low. -/
theorem setWidth_perm_packSelector (first second : BitVec 32) :
    (Machine.perm first second TypedMemoryStore.packSelector).setWidth 16 =
      second.setWidth 8 ++ first.setWidth 8 := by
  apply BitVec.eq_of_getLsbD_eq
  intro place small
  have low : TypedMemoryStore.packSelector.extractLsb' 0 8 = 4#8 := rfl
  have next : TypedMemoryStore.packSelector.extractLsb' 8 8 = 0#8 := rfl
  have pickFirst : Machine.permByte (first ++ second) 4#8 = (first ++ second).extractLsb' 32 8 := rfl
  have pickSecond : Machine.permByte (first ++ second) 0#8 = (first ++ second).extractLsb' 0 8 := rfl
  rw [Machine.perm, low, next, pickFirst, pickSecond]
  simp only [BitVec.getLsbD_setWidth, BitVec.getLsbD_append, BitVec.getLsbD_extractLsb']
  by_cases inFirst : place < 8
  · have above : ¬32 + place < 32 := by omega
    simp [inFirst, small, above]
  · have inSecond : place - 8 < 8 := by omega
    have below : place - 8 < 32 := by omega
    simp [inFirst, inSecond, small, below]

theorem covered_append (first second : List Backend) :
    covered (first ++ second) = covered first ++ covered second := List.filterMap_append

theorem covered_moves (parts sources : List Reg) :
    covered (List.zipWith (fun part source => .sMov part (.inl source)) parts sources) = [] := by
  induction parts generalizing sources with
  | nil => rfl
  | cons part rest ih =>
      cases sources with
      | nil => rfl
      | cons source sources => exact ih sources

section

variable {store : TypedMemoryStore} {suffix : Suffix} {code : List Backend}

theorem covered_genericFill
    (found : memorySuffixForBits store.accessType.baseType.bits = some suffix)
    (emitted : store.genericFill = some code) :
    covered code = [(store.address, 0, suffix.bits)] := by
  rw [TypedMemoryStore.genericFill, TypedMemoryStore.getSuffix, found] at emitted
  cases emitted
  rfl

theorem covered_fillSmallVectorParts
    (found : memorySuffixForBits store.accessType.baseType.bits = some suffix)
    (emitted : store.fillSmallVectorParts = some code) :
    covered code = [(store.address, 0, suffix.bits)] := by
  simp only [TypedMemoryStore.fillSmallVectorParts, Option.bind_eq_bind,
    Option.bind_eq_some_iff] at emitted
  obtain ⟨first, -, second, -, selector, -, packed, -, emitted⟩ := emitted
  split at emitted
  · rw [TypedMemoryStore.getSuffix, found] at emitted
    cases emitted
    rfl
  · obtain ⟨stored, generic, done⟩ := Option.bind_eq_some_iff.mp emitted
    cases done
    change covered stored = _
    exact covered_genericFill found generic

theorem covered_fillDwordVectorParts {storeValue : Operand}
    (found : memorySuffixForBits store.accessType.baseType.bits = some suffix)
    (emitted : store.fillDwordVectorParts storeValue = some code) :
    covered code = [(store.address, 0, suffix.bits)] := by
  rw [TypedMemoryStore.fillDwordVectorParts, TypedMemoryStore.getSuffix, found,
    Option.bind_eq_bind, Option.bind_some] at emitted
  split at emitted
  · cases emitted
  · cases emitted
    rw [covered_append, covered_moves]
    rfl

/-- The store that is emitted is as wide as one element, whatever is stored. -/
theorem covered_toFillNode
    (found : memorySuffixForBits store.accessType.baseType.bits = some suffix)
    (emitted : store.toFillNode = some code) :
    covered code = [(store.address, 0, suffix.bits)] := by
  unfold TypedMemoryStore.toFillNode at emitted
  split at emitted
  · exact covered_genericFill found emitted
  · split at emitted
    · exact covered_fillSmallVectorParts found emitted
    · split at emitted
      · exact covered_fillDwordVectorParts found emitted
      · exact covered_genericFill found emitted

end

namespace Storing

variable (storing : Storing access)

theorem code_of_single (single : access.vectorWidth = 1) {suffix : Suffix}
    (found : memorySuffixForBits access.bits = some suffix) :
    storing.code = some [.flatStore suffix storing.address storing.value] := by
  have small : TypedMemoryStore.needsSmallVectorPack storing.value access.toMemoryAccessType =
      false := by
    simp [TypedMemoryStore.needsSmallVectorPack, single]
  have dwords : TypedMemoryStore.makeDwordVectorStoreValue storing.value
      access.toMemoryAccessType storing.counts = some none := by
    simp [TypedMemoryStore.makeDwordVectorStoreValue, TypedMemoryStore.needsDwordVectorStore, single]
  have generic : ∀ store : TypedMemoryStore, store.accessType = access.toMemoryAccessType →
      store.genericFill = some [.flatStore suffix store.address store.value] := by
    intro store same
    rw [TypedMemoryStore.genericFill, TypedMemoryStore.getSuffix, same, found]
    rfl
  simp only [code, TypedMemoryStore.new, dwords, small, Option.bind_eq_bind, Option.bind_some,
    Option.pure_def, TypedMemoryStore.toFillNode, Bool.false_eq_true, if_false]
  split <;> exact generic _ rfl

theorem delivers_store {suffix : Suffix} (size : suffix.bits = access.bits)
    (single : access.vectorWidth = 1) :
    storing.Delivers [.flatStore suffix storing.address storing.value] := by
  have parts := storing.fits.length.trans single
  obtain ⟨only, alone⟩ := List.length_eq_one_iff.mp parts
  have bounded := access.bits_le
  have value (machine : Machine) : machine.gather storing.value.parts =
      (machine.contents only).setWidth 128 := by
    simp [alone, Machine.gather]
  constructor
  · intro machine index reg here
    rw [alone] at here
    cases index with
    | succ index => cases here
    | zero =>
        cases here
        apply BitVec.eq_of_getLsbD_eq
        intro place small
        change ((ByteMemory.write machine.memory (storing.place machine)
          ((machine.gather storing.value.parts).setWidth suffix.bits)).read _ _).getLsbD place = _
        rw [value, ByteMemory.getLsbD_read _ _ small, ByteMemory.bit_add, access.start_eq,
          Nat.mul_zero, Nat.zero_add, ByteMemory.bit_write _ _ _ (by omega) (by omega), inReg]
        have inValue : place < 128 := by omega
        simp only [BitVec.getLsbD_setWidth, size, small, inValue, decide_true, Bool.true_and]
  · intro machine at' outside
    rw [Access.totalBits_of_single single, ← size] at outside
    exact ByteMemory.write_of_le _ _ _ _ outside

theorem right_of_single (single : access.vectorWidth = 1) : storing.Right := by
  obtain ⟨suffix, found⟩ := memorySuffixForBits_element access
  have size := bits_of_memorySuffixForBits found
  refine ⟨_, storing.code_of_single single found, ?_, storing.delivers_store size single⟩
  rw [Access.totalBits_of_single single, ← size]
  rfl

theorem covered_code {code : List Backend} (emitted : storing.code = some code) :
    covered code = [(storing.address, 0, access.bits)] := by
  obtain ⟨suffix, found⟩ := memorySuffixForBits_element access
  obtain ⟨store, made, filled⟩ := Option.bind_eq_some_iff.mp emitted
  obtain ⟨storeValue, -, made⟩ := Option.bind_eq_some_iff.mp made
  cases made
  rw [covered_toFillNode found filled, bits_of_memorySuffixForBits found]

/-- A store is right exactly when it stores one element. -/
theorem right_iff : storing.Right ↔ access.vectorWidth = 1 := by
  refine ⟨?_, storing.right_of_single⟩
  rintro ⟨code, emitted, wide, -⟩
  rw [storing.covered_code emitted] at wide
  have total : access.bits = access.bits * access.vectorWidth :=
    congrArg (fun entry => entry.2.2) (List.cons.inj wide).left
  have positive : 0 < access.bits := by
    rcases access.bits_cases with bits | bits | bits | bits <;> omega
  exact (Nat.eq_of_mul_eq_mul_left positive ((Nat.mul_one _).trans total)).symm

end Storing

/-! ## Stores and loads of one place -/

theorem roundTrip_of_single (single : access.vectorWidth = 1) : RoundTrip access := by
  intro storing loading
  obtain ⟨suffix, found⟩ := memorySuffixForBits_element access
  have stores := storing.code_of_single single found
  have delivers := storing.delivers_store (bits_of_memorySuffixForBits found) single
  have total := Access.totalBits_of_single single
  have bounded := access.bits_le
  have small : access.totalBits ≠ 256 := by omega
  have holds := loading.holds
  rw [Loading.Holds, if_neg small] at holds
  obtain ⟨loadCode, loads, -, delivered⟩ := holds
  refine ⟨_, loadCode, stores, loads, fun machine same index stored loaded source target => ?_⟩
  have unpacked := delivered (by omega) (machine.run
    [.flatStore suffix storing.address storing.value]) index loaded target
  rw [unpacked, ← delivers.left machine index stored source, ← same]
  rfl

/--
What loads and stores do by design: a load covers at least a dword, a store of one
element covers that element, and a load finds what such a store has left.
-/
def Access.Holds (access : Access) : Prop :=
  (∀ loading : Loading access, loading.Holds) ∧
    (access.vectorWidth = 1 → (∀ storing : Storing access, storing.Right) ∧ RoundTrip access)

/-- A register for an element. -/
def Access.reg (access : Access) : Reg := if access.bits = 64 then .wide "%rd1" else .word "%r1"

theorem Access.bits_reg (access : Access) : access.reg.bits = max 32 access.bits := by
  unfold Access.reg
  rcases access.bits_cases with bits | bits | bits | bits <;> rw [bits] <;> rfl

/-- A store of one register as often as the vector is wide. -/
def Storing.same (access : Access) : Storing access where
  address := "%rd2"
  value :=
    if access.vectorWidth = 1 then .alone access.reg
    else .composite (List.replicate access.vectorWidth access.reg)
  counts := fun _ => 0
  fits := by
    split
    next single => exact ⟨single, access.bits_reg⟩
    next several =>
      refine ⟨?_, List.length_replicate, fun reg inside => ?_⟩
      · rcases access.width_cases with width | width | width <;> omega
      · rw [List.eq_of_mem_replicate inside, access.bits_reg]

def Loading.single (access : Access) (single : access.vectorWidth = 1) : Loading access where
  flat := true
  destination := .alone access.reg
  address := "%rd2"
  offset := 0
  counts := fun _ => 0
  fits := ⟨single, access.bits_reg⟩
  apart := by
    unfold Access.reg
    split <;> decide
  spelled := by
    unfold Access.reg
    split <;> decide

/-- All loads and stores are right exactly for single elements of at least a dword. -/
theorem accessRight_iff (access : Access) :
    AccessRight access ↔ access.vectorWidth = 1 ∧ 32 ≤ access.bits := by
  have bounded := access.bits_le
  constructor
  · rintro ⟨loads, stores, -⟩
    have single := (Storing.right_iff _).mp (stores (Storing.same access))
    obtain ⟨code, emitted, covers, -⟩ := loads (Loading.single access single)
    have holds := (Loading.single access single).holds
    have total := Access.totalBits_of_single single
    have small : access.totalBits ≠ 256 := by omega
    rw [Loading.Holds, if_neg small] at holds
    obtain ⟨code', emitted', covers', -⟩ := holds
    cases emitted.symm.trans emitted'
    have wide : access.totalBits = max 32 access.totalBits :=
      congrArg (fun entry => entry.2.2) (List.cons.inj (covers.symm.trans covers')).left
    exact ⟨single, by omega⟩
  · rintro ⟨single, wide⟩
    refine ⟨fun loading => ?_, fun storing => storing.right_of_single single,
      roundTrip_of_single single⟩
    have holds := loading.holds
    have total := Access.totalBits_of_single single
    have small : access.totalBits ≠ 256 := by omega
    rw [Loading.Holds, if_neg small] at holds
    obtain ⟨code, emitted, covers, delivers⟩ := holds
    have dword : max 32 access.totalBits = access.totalBits := by omega
    exact ⟨code, emitted, dword ▸ covers, delivers (by omega)⟩

/-- The element of `ld.global.u8`. -/
def byteAccess : Access := ⟨⟨.u8, 1⟩, .head _⟩

end

end OpenCLDecompiler.TypedMemory
