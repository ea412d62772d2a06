import OpenCLDecompiler.Library.ByteMemory
import OpenCLDecompiler.Ptx.ArgumentTypes

/-!
# Typed loads and stores

`TypedMemoryLoad` and `TypedMemoryStore` emit backend instructions: the access itself,
and those that unpack a dword into components or put components together.  The
backend instructions run on registers of 32 bits and a memory of bytes.
-/

namespace OpenCLDecompiler.TypedMemory

open Library Ptx

/-! ## Registers and operands -/

/-- `Reg32` and `Reg64`. -/
inductive Reg where
  | word (name : String)
  | wide (name : String)
  deriving DecidableEq, Repr

namespace Reg

def bits : Reg → Nat
  | word _ => 32
  | wide _ => 64

/-- `expand_register_names`. -/
def names : Reg → List String
  | word name => [name]
  | wide name => [lo name, hi name]

/-- `get_reg_rang(reg)[0]`. -/
def first : Reg → String
  | word name => name
  | wide name => lo name

end Reg

/-- A register alone, or a `CompositeReg` that is not a `Reg64`. -/
inductive Operand where
  | alone (reg : Reg)
  | composite (regs : List Reg)
  deriving DecidableEq, Repr

namespace Operand

/-- `isinstance(operand, CompositeReg)`. -/
def isComposite : Operand → Bool
  | alone (.word _) => false
  | alone (.wide _) => true
  | composite _ => true

/-- `CompositeReg.regs`. -/
def regs : Operand → List Reg
  | alone (.word name) => [.word name]
  | alone (.wide name) => [.word (lo name), .word (hi name)]
  | composite regs => regs

/-- The registers of the components. -/
def parts : Operand → List Reg
  | alone reg => [reg]
  | composite regs => regs

end Operand

/-! ## Backend instructions -/

inductive Suffix where
  | byte | short | dword | dwordx2 | dwordx4
  deriving DecidableEq, Repr

def Suffix.bits : Suffix → Nat
  | byte => 8
  | short => 16
  | dword => 32
  | dwordx2 => 64
  | dwordx4 => 128

/-- `memory_suffix_for_bits`, which raises for other widths. -/
def memorySuffixForBits : Nat → Option Suffix
  | 8 => some .byte
  | 16 => some .short
  | 32 => some .dword
  | 64 => some .dwordx2
  | 128 => some .dwordx4
  | _ => none

/-- The instructions `emit_backend` is called with; a load is a `FlatLoad` or an `SLoad`. -/
inductive Backend where
  | load (flat : Bool) (suffix : Suffix) (destination : Operand) (address : String) (offset : Nat)
  | flatStore (suffix : Suffix) (address : String) (data : Operand)
  | sAnd (destination source : Reg) (mask : BitVec 32)
  | sBfe (destination source : Reg) (selector : BitVec 32)
  | sMov (destination : Reg) (source : Reg ⊕ BitVec 32)
  | vPerm (destination src0 src1 src2 : Reg)
  deriving DecidableEq, Repr

/-- `TemporaryVariableAllocator.generate` when the counter of the prefix stands at `count`. -/
def generate (stem : String) (count : Nat) : String := "__" ++ stem ++ "_" ++ toString count

/-! ## Loads -/

structure TypedMemoryLoad where
  flat : Bool
  destination : Operand
  address : String
  offset : Nat
  accessType : MemoryAccessType
  packedValue : Option Reg
  deriving DecidableEq, Repr

namespace TypedMemoryLoad

def needsSmallVectorUnpack (destination : Operand) (access : MemoryAccessType) : Bool :=
  destination.isComposite && decide (1 < access.vectorWidth) &&
    decide (access.baseType.bits < 32) && decide (access.totalBits ≤ 32)

/-- `__init__`; `counts` are the counters of `TemporaryVariableAllocator`. -/
def new (flat : Bool) (destination : Operand) (address : String) (offset : Nat)
    (access : MemoryAccessType) (counts : String → Nat) : TypedMemoryLoad where
  flat := flat
  destination := destination
  address := address
  offset := offset
  accessType := access
  packedValue :=
    if needsSmallVectorUnpack destination access then
      some (.word (generate "typed_ld" (counts "typed_ld")))
    else none

def size (load : TypedMemoryLoad) : Nat := max 32 load.accessType.totalBits

def getSuffix (load : TypedMemoryLoad) : Option Suffix := memorySuffixForBits load.size

def lowMask (access : MemoryAccessType) : BitVec 32 := BitVec.ofNat 32 (2 ^ access.baseType.bits - 1)

def bfeSelector (access : MemoryAccessType) (index : Nat) : BitVec 32 :=
  BitVec.ofNat 32 ((access.baseType.bits <<< 16) ||| (index * access.baseType.bits))

/-- The loop over the registers of the destination, from an index on. -/
def unpackFrom (access : MemoryAccessType) (packed : Reg) : Nat → List Reg → List Backend
  | _, [] => []
  | index, destination :: rest =>
      (if index = 0 then .sAnd destination packed (lowMask access)
        else .sBfe destination packed (bfeSelector access index)) ::
      unpackFrom access packed (index + 1) rest

/-- `GenericLoad.to_fill_node`. -/
def genericFill (load : TypedMemoryLoad) : Option (List Backend) := do
  let suffix ← load.getSuffix
  pure [.load load.flat suffix load.destination load.address load.offset]

/-- Vectors of dwords are loaded by the same call as what `GenericLoad` loads. -/
def toFillNode (load : TypedMemoryLoad) : Option (List Backend) :=
  match load.packedValue with
  | none => load.genericFill
  | some packed => do
      let suffix ← load.getSuffix
      -- The result of an empty loop is not bound.
      if load.destination.regs = [] then none
      else
        pure (.load load.flat suffix (.alone packed) load.address load.offset ::
          unpackFrom load.accessType packed 0 load.destination.regs)

end TypedMemoryLoad

/-! ## Stores -/

structure TypedMemoryStore where
  address : String
  value : Operand
  accessType : MemoryAccessType
  selector : Option Reg
  packedValue : Option Reg
  storeValue : Option Operand
  deriving DecidableEq, Repr

namespace TypedMemoryStore

def packSelector : BitVec 32 := 0x2010004#32

def needsSmallVectorPack (value : Operand) (access : MemoryAccessType) : Bool :=
  value.isComposite && decide (access.vectorWidth = 2 ∨ access.vectorWidth = 4) &&
    decide (access.baseType.bits < 32) && decide (access.totalBits ≤ 32)

def needsDwordVectorStore (value : Operand) (access : MemoryAccessType) : Bool :=
  value.isComposite && decide (1 < access.vectorWidth) &&
    decide (access.baseType.bits = 32) && decide (access.totalBits = 64 ∨ access.totalBits = 128)

/-- `_make_internal_reg`. -/
def makeInternalReg (value : Operand) (access : MemoryAccessType) (counts : String → Nat)
    (stem : String) : Option Reg :=
  if needsSmallVectorPack value access then some (.word (generate stem (counts stem))) else none

/-- `_make_dword_vector_store_value`, which raises for another number of registers. -/
def makeDwordVectorStoreValue (value : Operand) (access : MemoryAccessType)
    (counts : String → Nat) : Option (Option Operand) :=
  if needsDwordVectorStore value access then
    if value.regs.length = access.vectorWidth then
      let part (index : Nat) :=
        Reg.word (generate "typed_st_vec_part" (counts "typed_st_vec_part" + index))
      some (some (.composite ((List.range access.vectorWidth).map part)))
    else none
  else some none

/-- `__init__`. -/
def new (address : String) (value : Operand) (access : MemoryAccessType)
    (counts : String → Nat) : Option TypedMemoryStore := do
  let storeValue ← makeDwordVectorStoreValue value access counts
  pure {
    address := address
    value := value
    accessType := access
    selector := makeInternalReg value access counts "perm_selector"
    packedValue := makeInternalReg value access counts "typed_st"
    storeValue := storeValue }

/-- `GenericStore.get_suffix`: the bits of `op_type`, which are those of one element. -/
def getSuffix (store : TypedMemoryStore) : Option Suffix :=
  memorySuffixForBits store.accessType.baseType.bits

/-- `GenericStore.to_fill_node`. -/
def genericFill (store : TypedMemoryStore) : Option (List Backend) := do
  let suffix ← store.getSuffix
  pure [.flatStore suffix store.address store.value]

def fillSmallVectorParts (store : TypedMemoryStore) : Option (List Backend) := do
  let first ← store.value.regs[0]?
  let second ← store.value.regs[1]?
  let selector ← store.selector
  let packed ← store.packedValue
  if store.accessType.vectorWidth = 2 then
    let suffix ← store.getSuffix
    pure [.sMov selector (.inr packSelector), .vPerm packed first second selector,
      .flatStore suffix store.address (.alone packed)]
  else
    let stored ← store.genericFill
    pure (.sMov selector (.inr packSelector) :: stored)

def fillDwordVectorParts (store : TypedMemoryStore) (storeValue : Operand) :
    Option (List Backend) := do
  let suffix ← store.getSuffix
  -- `get_element` raises when the value has more registers than the vector.
  if storeValue.regs.length < store.value.regs.length then none
  else
    pure (List.zipWith (fun part source => .sMov part (.inl source)) storeValue.regs
      store.value.regs ++ [.flatStore suffix store.address storeValue])

def toFillNode (store : TypedMemoryStore) : Option (List Backend) :=
  if store.value.isComposite = false then store.genericFill
  else if needsSmallVectorPack store.value store.accessType then store.fillSmallVectorParts
  else
    match store.storeValue with
    | some storeValue => store.fillDwordVectorParts storeValue
    | none => store.genericFill

end TypedMemoryStore

/-! ## Running backend instructions -/

structure Machine where
  regs : String → BitVec 32
  memory : ByteMemory 64

namespace Machine

def set (machine : Machine) (name : String) (value : BitVec 32) : Machine :=
  { machine with regs := Function.update machine.regs name value }

/-- What a register holds, with zeros above. -/
def contents (machine : Machine) : Reg → BitVec 64
  | .word name => (machine.regs name).setWidth 64
  | .wide name => machine.regs (hi name) ++ machine.regs (lo name)

def put (machine : Machine) (value : BitVec 64) : Reg → Machine
  | .word name => machine.set name (value.setWidth 32)
  | .wide name => (machine.set (lo name) (value.setWidth 32)).set (hi name) (value.extractLsb' 32 32)

/-- The registers get the bits of the value one after the other, while there are any. -/
def fill : Nat → BitVec 128 → List Reg → Machine → Machine
  | _, _, [], machine => machine
  | room, value, reg :: rest, machine =>
      if reg.bits ≤ room then
        fill (room - reg.bits) (value >>> reg.bits) rest (machine.put (value.setWidth 64) reg)
      else machine

/-- The bits of the registers one after the other. -/
def gather (machine : Machine) : List Reg → BitVec 128
  | [] => 0
  | reg :: rest => (machine.contents reg).setWidth 128 ||| machine.gather rest <<< reg.bits

/-- `s_bfe_u32`: the offset is in bits 0 to 4 of the selector, the width in bits 16 to 22. -/
def bfe (value selector : BitVec 32) : BitVec 32 :=
  (value >>> (selector &&& 31).toNat) &&& (1 <<< ((selector >>> 16) &&& 127).toNat - 1)

/-- The byte that one byte of the selector of `v_perm_b32` picks. -/
def permByte (both : BitVec 64) (pick : BitVec 8) : BitVec 8 :=
  if pick.toNat < 8 then both.extractLsb' (8 * pick.toNat) 8
  else if pick.toNat < 12 then
    if both.getLsbD (16 * (pick.toNat - 8) + 15) then 255 else 0
  else if pick.toNat = 12 then 0
  else 255

/-- `v_perm_b32`; the bytes of `src1` are the low ones. -/
def perm (src0 src1 selector : BitVec 32) : BitVec 32 :=
  let both := src0 ++ src1
  permByte both (selector.extractLsb' 24 8) ++ permByte both (selector.extractLsb' 16 8) ++
    permByte both (selector.extractLsb' 8 8) ++ permByte both (selector.extractLsb' 0 8)

def step (machine : Machine) : Backend → Machine
  | .load _ suffix destination address offset =>
      let place := machine.contents (.wide address) + BitVec.ofNat 64 offset
      machine.fill (max 32 suffix.bits) ((machine.memory.read place suffix.bits).setWidth 128)
        destination.parts
  | .flatStore suffix address data =>
      let value := (machine.gather data.parts).setWidth suffix.bits
      { machine with memory := machine.memory.write (machine.contents (.wide address)) value }
  | .sAnd destination source mask =>
      machine.set destination.first (machine.regs source.first &&& mask)
  | .sBfe destination source selector =>
      machine.set destination.first (bfe (machine.regs source.first) selector)
  | .sMov destination (.inl source) => machine.set destination.first (machine.regs source.first)
  | .sMov destination (.inr value) => machine.set destination.first value
  | .vPerm destination src0 src1 src2 =>
      machine.set destination.first
        (perm (machine.regs src0.first) (machine.regs src1.first) (machine.regs src2.first))

def run (machine : Machine) (code : List Backend) : Machine := code.foldl step machine

end Machine

end OpenCLDecompiler.TypedMemory
