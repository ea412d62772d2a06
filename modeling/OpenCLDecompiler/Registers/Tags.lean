import OpenCLDecompiler.Library.PyDict
import OpenCLDecompiler.Library.Run
import OpenCLDecompiler.Registers.Reg
import OpenCLDecompiler.Registers.WorkItem

/-!
# Tags of registers

The handlers of moves, shifts, multiplications and additions, as far as they
decide the register type (the tag) of what they write, and the effect of these
instructions on the words of a work item.
-/

namespace OpenCLDecompiler.Registers

open Library

/-- A literal or a call, or a text that `make_op` put together, which is neither. -/
inductive ValText where
  | text (text : String)
  | operation
  deriving DecidableEq, Repr

/-- The fields of a `Register` in the state that the handlers below read. -/
structure Content where
  val : ValText
  type : RegisterType
  integrity : Integrity
  deriving DecidableEq, Repr

abbrev NodeState := PyDict Reg Content

/-- A register or a `Val`. -/
inductive Operand (ρ : Type) where
  | reg (reg : ρ)
  | val (text : String)
  deriving DecidableEq, Repr

/-- The values `InitReg` recognises. -/
inductive InitValue where
  | digits (value : Nat)
  | workDim
  | groupId (dim : Dim)
  | localId (dim : Dim)
  | globalOffset (dim : Dim)
  | numGroups (dim : Dim)
  | localSize (dim : Dim)
  deriving DecidableEq, Repr

/-- The backend instructions, by the width of their destination; shifts have constant amounts. -/
inductive Instr where
  | initReg32 (dest : Reg32) (value : InitValue)
  | initReg64 (dest : Reg64) (value : InitValue)
  | mov32 (dest : Reg32) (src : Operand Reg32)
  | mov64 (dest : Reg64) (src : Operand Reg64)
  | lshl32 (dest : Reg32) (amount : Nat) (src : Operand Reg32)
  | lshl64 (dest : Reg64) (amount : Nat) (src : Operand Reg64)
  | lshr32 (dest : Reg32) (amount : Nat) (src : Operand Reg32)
  | lshr64 (dest : Reg64) (amount : Nat) (src : Operand Reg64)
  | mulLo (dest : Reg32) (src0 src1 : Operand Reg32)
  | mulHi (dest : Reg32) (src0 src1 : Operand Reg32)
  | add32 (dest : Reg32) (src0 src1 : Operand Reg32)
  | add64 (dest : Reg64) (src0 src1 : Operand Reg64)

/-- The entries an instruction writes, in the order of the writes. -/
abbrev Writes := List (Reg × Content)

def NodeState.setAll (st : NodeState) (writes : Writes) : NodeState :=
  writes.foldl (fun st write => st.set write.1 write.2) st

/-- `set_reg_value_save`: the register and, for a composite, its words get one content. -/
def setRegValueSave (dest : Reg) (content : Content) : Writes :=
  match dest with
  | .word _ => [(dest, content)]
  | .composite _ regs => (dest, content) :: regs.map fun reg => (.word reg, content)

/-! ## Handlers -/

def InitValue.type : InitValue → RegisterType
  | .digits _ => .int32
  | .workDim => .workDim
  | .groupId dim => .workGroupId dim
  | .localId dim => .workItemId dim
  | .globalOffset dim => .globalOffset dim
  | .numGroups dim => .numGroups dim
  | .localSize dim => .localSize dim

def InitValue.text : InitValue → String
  | .digits value => toString value
  | .workDim => "get_work_dim()"
  | .groupId dim => "get_group_id(" ++ dim.text ++ ")"
  | .localId dim => "get_local_id(" ++ dim.text ++ ")"
  | .globalOffset dim => "get_global_offset(" ++ dim.text ++ ")"
  | .numGroups dim => "get_num_groups(" ++ dim.text ++ ")"
  | .localSize dim => "get_local_size(" ++ dim.text ++ ")"

/-- `InitReg`: the entry of the register itself only, also for a composite. -/
def initReg (dest : Reg) (value : InitValue) : Writes :=
  [(dest, ⟨.text value.text, value.type, .entire⟩)]

/-- The text and type `SMov` reads; a register without an entry fails the assertion. -/
def movSource (st : NodeState) : Operand Reg → Option (ValText × RegisterType)
  | .reg src => (st.get? src).map fun content => (content.val, content.type)
  | .val text => some (.text text, .int32)

def sMov32 (st : NodeState) (dest : Reg32) (src : Operand Reg) : Option Writes :=
  (movSource st src).map fun (val, type) => [(.word dest, ⟨val, type, .entire⟩)]

/-- `SMov` of 64 bits reads the entry of the whole and writes the halves and the whole. -/
def sMov64 (st : NodeState) (dest : Reg64) (src : Operand Reg) : Option Writes :=
  (movSource st src).map fun (val, type) =>
    [(.word dest.lo, ⟨val, type, .lowPart⟩), (.word dest.hi, ⟨val, type, .highPart⟩),
      (dest.whole, ⟨val, type, .entire⟩)]

/-- The type `VLshlrev` gives a shifted 32-bit register, whatever the amount. -/
def lshlType : RegisterType → RegisterType
  | .workGroupId dim => .workGroupIdLocalSize dim
  | type => type

def vLshlrev32 (st : NodeState) (dest : Reg32) : Operand Reg32 → Option Writes
  | .reg src => (st.get? (.word src)).map fun content =>
      if content.val = .text "0" then [(.word dest, ⟨.text "0", .int32, .entire⟩)]
      else [(.word dest, ⟨.operation, lshlType content.type, .entire⟩)]
  | .val _ => none

/-- `VLshlrev` of 64 bits takes the type of the low half and writes the halves only. -/
def vLshlrev64 (st : NodeState) (dest : Reg64) : Operand Reg64 → Option Writes
  | .reg src => do
      let low ← st.get? (.word src.lo)
      let _ ← st.get? (.word src.hi)
      some [(.word dest.lo, ⟨.operation, low.type, .lowPart⟩),
        (.word dest.hi, ⟨.operation, low.type, .highPart⟩)]
  | .val _ => some [(.word dest.lo, ⟨.operation, .int32, .lowPart⟩),
      (.word dest.hi, ⟨.operation, .int32, .highPart⟩)]

/-- The text of a shifted value; the division of a global size looks up the local size. -/
def lshrText (sizeOfWorkGroups : Option (Dim → Nat)) (amount : Nat) :
    RegisterType → Option ValText
  | .globalSize dim => sizeOfWorkGroups.map fun size =>
      if 2 ^ amount = size dim then .text ("get_num_groups(" ++ dim.text ++ ")") else .operation
  | _ => some .operation

/--
`VLshrrev`; a 64-bit source stands for its low half.  The type stays, also where
the text becomes a call of `get_num_groups`.
-/
def vLshrrev (sizeOfWorkGroups : Option (Dim → Nat)) (st : NodeState) (dest : Reg) (amount : Nat)
    (src : Reg32) : Option Writes :=
  (st.get? (.word src)).bind fun content =>
    if content.val = .text "0" then some (setRegValueSave dest ⟨.text "0", .int32, .entire⟩)
    else (lshrText sizeOfWorkGroups amount content.type).map fun val =>
      setRegValueSave dest ⟨val, content.type, .entire⟩

def contentOf (st : NodeState) : Operand Reg32 → Option Content
  | .reg reg => st.get? (.word reg)
  | .val _ => none

/-- `make_op` finds a text for the operand. -/
def readable (st : NodeState) : Operand Reg → Bool
  | .reg reg => (st.get? reg).isSome ||
      (reg.rang.all fun word => (st.get? (.word word)).isSome)
  | .val _ => true

/-- The type of a product of two registers: local size times group id, in this order only. -/
def mulType : RegisterType → Option RegisterType → RegisterType
  | .localSize dim, some (.workGroupId other) =>
      if dim = other then .workGroupIdLocalSize dim else .unknown
  | _, _ => .unknown

def Operand.toReg : Operand Reg32 → Operand Reg
  | .reg source => .reg (.word source)
  | .val text => .val text

def Operand.wholeReg : Operand Reg64 → Operand Reg
  | .reg source => .reg source.whole
  | .val text => .val text

/-- `VMulLo`, and `VMulHi`, which inherits it; the first cases are steps of a division. -/
def vMulLo (st : NodeState) (dest : Reg32) (src0 src1 : Operand Reg32) : Option Writes :=
  match contentOf st src0, contentOf st src1 with
  | _, some ⟨val, .divisionPt3, _⟩ => some [(.word dest, ⟨val, .divisionPt4, .entire⟩)]
  | _, some ⟨val, .divisionPt4, _⟩ => some [(.word dest, ⟨val, .divisionPt5, .entire⟩)]
  | _, some ⟨_, .divisionPt6, _⟩ =>
      if readable st src0.toReg then some [(.word dest, ⟨.operation, .divisionPt7, .entire⟩)]
      else none
  | some ⟨_, .divisionPt7, _⟩, _ => some [(.word dest, ⟨.text "", .divisionPass, .entire⟩)]
  | some ⟨_, type, integrity⟩, content1 =>
      if readable st src1.toReg then
        some [(.word dest, ⟨.operation, mulType type (content1.map Content.type), integrity⟩)]
      else none
  | none, _ => none

/-- The patterns of `v_add` for one dimension, with the type and the text they give. -/
structure AddRow where
  patterns : List (RegisterType × RegisterType)
  type : RegisterType
  val : ValText

def globalIdRow (dim : Dim) : AddRow where
  patterns := [(.workGroupIdLocalSizeOffset dim, .workItemId dim),
    (.globalOffset dim, .workGroupIdWorkItemId dim)]
  type := .globalId dim
  val := .text ("get_global_id(" ++ dim.text ++ ")")

def workItemRow (dim : Dim) : AddRow where
  patterns := [(.workGroupIdLocalSize dim, .workItemId dim)]
  type := .workGroupIdWorkItemId dim
  val := .text ("get_global_id(" ++ dim.text ++ ") - get_global_offset(" ++ dim.text ++ ")")

def localSizeOffsetRow (dim : Dim) : AddRow where
  patterns := [(.workGroupIdLocalSize dim, .globalOffset dim)]
  type := .workGroupIdLocalSizeOffset dim
  val := .operation

/-- The tests of `VAdd` in their order. -/
def addRows : List AddRow :=
  [.x, .y, .z].map globalIdRow ++ [.x, .y, .z].map workItemRow ++
    [.x, .y, .z].map localSizeOffsetRow

/-- `_check_type_pattern`. -/
def checkTypePattern (type0 type1 : RegisterType) (row : AddRow) : Bool :=
  (type0, type1) ∈ row.patterns || (type1, type0) ∈ row.patterns

def addRow (type0 type1 : RegisterType) : Option AddRow :=
  addRows.find? (checkTypePattern type0 type1)

/-- The entry of the first word of a register. -/
def startContent (st : NodeState) (reg : Reg) : Option Content :=
  reg.rang.head?.bind fun low => st.get? (.word low)

/-- `VAdd` of integers, without the additions to pointers. -/
def vAdd (st : NodeState) (dest : Reg) (src0 src1 : Operand Reg) : Option Writes :=
  if readable st src0 && readable st src1 then
    match src0, src1 with
    | .reg reg0, .reg reg1 => do
        let content0 ← startContent st reg0
        let content1 ← startContent st reg1
        match addRow content0.type content1.type with
        | some row => some (setRegValueSave dest ⟨row.val, row.type, content1.integrity⟩)
        | none => some (setRegValueSave dest ⟨.operation, .unknown, content1.integrity⟩)
    | .reg reg0, .val _ => do
        let _ ← startContent st reg0
        let _ ← st.get? reg0
        some (setRegValueSave dest ⟨.operation, .unknown, .entire⟩)
    | .val _, .reg reg1 => (startContent st reg1).map fun _ =>
        setRegValueSave dest ⟨.operation, .unknown, .entire⟩
    | .val _, .val _ => some (setRegValueSave dest ⟨.operation, .int32, .entire⟩)
  else none

/-- The entries an instruction writes; `none` is an exception. -/
def writes (sizeOfWorkGroups : Option (Dim → Nat)) (st : NodeState) : Instr → Option Writes
  | .initReg32 dest value => some (initReg (.word dest) value)
  | .initReg64 dest value => some (initReg dest.whole value)
  | .mov32 dest src => sMov32 st dest src.toReg
  | .mov64 dest src => sMov64 st dest src.wholeReg
  | .lshl32 dest _ src => vLshlrev32 st dest src
  | .lshl64 dest _ src => vLshlrev64 st dest src
  | .lshr32 dest amount (.reg src) => vLshrrev sizeOfWorkGroups st (.word dest) amount src
  | .lshr64 dest amount (.reg src) => vLshrrev sizeOfWorkGroups st dest.whole amount src.lo
  | .lshr32 _ _ (.val _) => none
  | .lshr64 _ _ (.val _) => none
  | .mulLo dest src0 src1 => vMulLo st dest src0 src1
  | .mulHi dest src0 src1 => vMulLo st dest src0 src1
  | .add32 dest src0 src1 => vAdd st (.word dest) src0.toReg src1.toReg
  | .add64 dest src0 src1 => vAdd st dest.whole src0.wholeReg src1.wholeReg

/-! ## Effect on a work item -/

/-- The words of the registers of one work item. -/
abbrev Words := Reg32 → BitVec 32

def Words.number64 (words : Words) (reg : Reg64) : Nat :=
  (words reg.lo).toNat + 2 ^ 32 * (words reg.hi).toNat

def Words.set32 (words : Words) (dest : Reg32) (number : Nat) : Words :=
  Function.update words dest (wordOf number 0)

def Words.set64 (words : Words) (dest : Reg64) (number : Nat) : Words :=
  Function.update (Function.update words dest.lo (wordOf number 0)) dest.hi (wordOf number 1)

def InitValue.number (item : WorkItem) : InitValue → Nat
  | .digits value => value
  | .workDim => item.workDim
  | .groupId dim => item.groupId dim
  | .localId dim => item.localId dim
  | .globalOffset dim => item.globalOffset dim
  | .numGroups dim => item.numGroups dim
  | .localSize dim => item.localSize dim

section Execute

/- `constant` reads the literals of the program. -/
variable (item : WorkItem) (constant : String → Nat) (words : Words)

def value32 : Operand Reg32 → Nat
  | .reg reg => (words reg).toNat
  | .val text => constant text

def value64 : Operand Reg64 → Nat
  | .reg reg => words.number64 reg
  | .val text => constant text

def execute : Instr → Words
  | .initReg32 dest value => words.set32 dest (value.number item)
  | .initReg64 dest value => words.set64 dest (value.number item)
  | .mov32 dest src => words.set32 dest (value32 constant words src)
  | .mov64 dest src => words.set64 dest (value64 constant words src)
  | .lshl32 dest amount src => words.set32 dest (value32 constant words src * 2 ^ amount)
  | .lshl64 dest amount src => words.set64 dest (value64 constant words src * 2 ^ amount)
  | .lshr32 dest amount src => words.set32 dest (value32 constant words src / 2 ^ amount)
  | .lshr64 dest amount src => words.set64 dest (value64 constant words src / 2 ^ amount)
  | .mulLo dest src0 src1 =>
      words.set32 dest (value32 constant words src0 * value32 constant words src1)
  | .mulHi dest src0 src1 =>
      words.set32 dest (value32 constant words src0 * value32 constant words src1 / 2 ^ 32)
  | .add32 dest src0 src1 =>
      words.set32 dest (value32 constant words src0 + value32 constant words src1)
  | .add64 dest src0 src1 =>
      words.set64 dest (value64 constant words src0 + value64 constant words src1)

end Execute

end OpenCLDecompiler.Registers
