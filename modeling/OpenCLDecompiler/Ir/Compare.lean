import OpenCLDecompiler.Expressions.Casts
import OpenCLDecompiler.Library.CValues
import OpenCLDecompiler.Library.Text
import OpenCLDecompiler.Library.Wrapping

/-!
# Comparisons of integers

From the opcode of a comparison over `BaseCompare`, `VCmp` and `compare_values` to the
condition that is recorded, against the comparison of the instruction set.
-/

namespace OpenCLDecompiler.Compare

open Library Library.C Wrapping

abbrev Text := List Char

/-! ## Opcodes -/

/-- `IRType`, as far as the suffixes of opcodes name them. -/
inductive IRType where
  | b16 | b32 | b64 | u16 | u32 | u64 | i16 | i32 | i64 | f32 | f64 | pred
  deriving DecidableEq

/-- `_PTX_TYPE_BY_SUFFIX`. -/
def ptxTypeBySuffix : List (Text × IRType) :=
  [("b16".toList, .b16), ("b32".toList, .b32), ("b64".toList, .b64),
    ("u16".toList, .u16), ("u32".toList, .u32), ("u64".toList, .u64),
    ("s16".toList, .i16), ("s32".toList, .i32), ("s64".toList, .i64),
    ("f32".toList, .f32), ("f64".toList, .f64), ("pred".toList, .pred)]

/-- `_AMD_TYPE_BY_SUFFIX`. -/
def amdTypeBySuffix : List (Text × IRType) :=
  [("b32".toList, .b32), ("b64".toList, .b64), ("u32".toList, .u32), ("u64".toList, .u64),
    ("i32".toList, .i32), ("i64".toList, .i64), ("f32".toList, .f32), ("f64".toList, .f64)]

/-- The subclasses of `BaseCompare`. -/
inductive Relation where
  | eq | ne | lt | le | gt | ge
  deriving DecidableEq

/-- `_COMPARE_CLASSES`. -/
def compareClasses : List (Text × Relation) :=
  [("eq".toList, .eq), ("ne".toList, .ne), ("lg".toList, .ne), ("lt".toList, .lt),
    ("le".toList, .le), ("gt".toList, .gt), ("ge".toList, .ge)]

/-- The comparisons that `_parse_setp_opcode` renames. -/
def setpComparisons : List (Text × Text) :=
  [("lo".toList, "lt".toList), ("ls".toList, "le".toList), ("leu".toList, "le".toList),
    ("hi".toList, "gt".toList), ("hs".toList, "ge".toList), ("geu".toList, "ge".toList),
    ("equ".toList, "eq".toList), ("neu".toList, "ne".toList)]

/-- `_parse_setp_opcode`; `none` is an exception. -/
def parseSetpOpcode (opcode : Text) : Option Text :=
  match Text.split ['.'] opcode with
  | [_, comparison, _] => some ((setpComparisons.lookup comparison).getD comparison)
  | _ => none

/-- `_parse_ptx_opcode_type`. -/
def parsePtxOpcodeType (opcode : Text) : Option IRType :=
  (Text.split ['.'] opcode).getLast?.bind fun suffix => ptxTypeBySuffix.lookup suffix

/-- `_parse_compare_opcode`. -/
def parseCompareOpcode (opcode : Text) : Option Text :=
  (Text.split ['_'] opcode)[2]?.bind fun comparison =>
    if comparison = [] then none else some comparison

/-- `_parse_compare_type`. -/
def parseCompareType (opcode : Text) : IRType :=
  ((Text.split ['_'] opcode).getLast?.bind fun suffix => amdTypeBySuffix.lookup suffix).getD .i32

/-- `BaseCompare.allowed_types`. -/
def allowedTypes : List IRType := [.u32, .i32, .u64, .i64, .f32, .f64]

/-! ## Numbers in texts -/

def sign (negative : Bool) : Text := if negative then ['-'] else []

/-- A text without its sign. -/
def unsigned (value : Text) : Text :=
  if value.head? = some '-' ∨ value.head? = some '+' then value.tail else value

/-- `[+-]?\\d+([.,]\\d+)?`. -/
def isNumber (value : Text) : Bool :=
  let fraction := (unsigned value).dropWhile Char.isDigit
  !((unsigned value).takeWhile Char.isDigit).isEmpty &&
    (fraction.isEmpty || ((fraction.head? = some '.' || fraction.head? = some ',') &&
      !fraction.tail.isEmpty && fraction.tail.all Char.isDigit))

def isMantissa (c : Char) : Bool := c.isDigit || c = ',' || c = '.'

/-- `[+-]?[\\d,.]+([eE][+-]?\\d+)?`. -/
def isScientificNumber (value : Text) : Bool :=
  let exponent := (unsigned value).dropWhile isMantissa
  !((unsigned value).takeWhile isMantissa).isEmpty &&
    (exponent.isEmpty || ((exponent.head? = some 'e' || exponent.head? = some 'E') &&
      !(unsigned exponent.tail).isEmpty && (unsigned exponent.tail).all Char.isDigit))

/-! ## Operands -/

inductive Width where
  | w8 | w16 | w32 | w64
  deriving DecidableEq

/-- The scalar data types of integers in a register. -/
inductive DataType where
  | i (width : Width)
  | u (width : Width)
  | b (width : Width)
  | char
  | short
  deriving DecidableEq

/-- The content of a register, or a constant. -/
inductive Content where
  /-- A text with a value of a type of C. -/
  | expression (text : Text) (type : ScalarType) (number : Int)
      (noNumber : isNumber text = false ∧ Casts.isHexText text = false ∧
        isScientificNumber text = false)
      (integer : type.integer = true)
      (fits : Fits type.signed (8 * type.size) number)
  | decimal (negative : Bool) (number : Nat)
  | hexadecimal (negative : Bool) (number : Nat)

namespace Content

def text : Content → Text
  | expression text _ _ _ _ _ => text
  | decimal negative number => sign negative ++ Nat.toDigits 10 number
  | hexadecimal negative number => sign negative ++ '0' :: 'x' :: Nat.toDigits 16 number

/-- The number that the content stands for. -/
def number : Content → Int
  | expression _ _ number _ _ _ => number
  | decimal negative number | hexadecimal negative number => if negative then -number else number

end Content

namespace DataType

/-- `evaluate_size`, which knows `char` and `short`, but not `i8` and `i16`. -/
def size : DataType → Int
  | i .w32 | u .w32 | b .w32 => 4
  | i .w64 | u .w64 | b .w64 => 8
  | char => 1
  | short => 2
  | _ => -1

/-- `is_type_signed(get_raw_asm_type(data_type))`. -/
def isSigned : DataType → Bool
  | i _ | char | short => true
  | u _ | b _ => false

/-- The type of C with the data type. -/
def cType : DataType → ScalarType
  | i .w8 | char => .char
  | i .w16 | short => .short
  | i .w32 => .int
  | i .w64 => .long
  | u .w8 | b .w8 => .uchar
  | u .w16 | b .w16 => .ushort
  | u .w32 | b .w32 => .uint
  | u .w64 | b .w64 => .ulong

end DataType

/-- A register with the data type of its content, or a constant, which has none. -/
structure Operand where
  content : Content
  dataType : Option DataType
  typed : ∀ text type number noNumber integer fits,
    content = .expression text type number noNumber integer fits →
      ∀ data, dataType = some data → data.cType = type

/-! ## The condition -/

/-- `check_value_needs_cast` to `i32`; a constant has an empty type. -/
def checkValueNeedsCast (value : Text) : Option DataType → Bool
  | some (.i .w32) => false
  | none =>
      if isNumber value then false
      else !Casts.isHexText value && !isScientificNumber value
  | some fromType =>
      if fromType.isSigned then decide (4 < fromType.size)
      else
        (value.head? = some '-' && !value.tail.isEmpty && value.tail.all Char.isDigit) ||
          !(!value.isEmpty && value.all Char.isDigit) || !Casts.isHexText value ||
          decide (4 < fromType.size)

/-- An operand of the condition as `change_vals_for_make_op` writes it. -/
structure Written where
  operand : Operand
  cast : Bool

def changeValsForMakeOp (operand : Operand) : Written :=
  ⟨operand, checkValueNeedsCast operand.content.text operand.dataType⟩

def Written.text (written : Written) : Text :=
  let value := written.operand.content.text
  let value :=
    if '-' ∈ value ∨ '+' ∈ value ∨ '*' ∈ value ∨ '/' ∈ value then '(' :: value ++ [')'] else value
  if written.cast then "(int)".toList ++ value else value

/-- The condition that `compare_values` makes with `i32`. -/
structure Condition where
  relation : Relation
  left : Written
  right : Written

/-- The operation of the subclasses of `VCmp`. -/
def Relation.operation : Relation → Text
  | .eq => "==".toList | .ne => "!=".toList | .lt => "<".toList
  | .le => "<=".toList | .gt => ">".toList | .ge => ">=".toList

def Condition.text (condition : Condition) : Text :=
  condition.left.text ++ ' ' :: condition.relation.operation ++ ' ' :: condition.right.text

/-- `BaseCompare`. -/
structure CompareInstr where
  relation : Relation
  destination : Text
  operand1 : Operand
  operand2 : Operand
  opType : IRType

/-- `BaseCompare.to_fill_node`, whose suffix is `i32` for every type. -/
def toFillNode (instr : CompareInstr) : Condition :=
  ⟨instr.relation, changeValsForMakeOp instr.operand1, changeValsForMakeOp instr.operand2⟩

/-- A line with a comparison. -/
structure CompareLine where
  opcode : Text
  destination : Text
  operand1 : Operand
  operand2 : Operand

/-- The class and the constructor; `none` is an exception. -/
def makeCompare (comparison : Option Text) (opType : Option IRType) (destination : Text)
    (operand1 operand2 : Operand) : Option CompareInstr := do
  let relation ← compareClasses.lookup (← comparison)
  let opType ← opType
  if opType ∈ allowedTypes then some ⟨relation, destination, operand1, operand2, opType⟩ else none

/-- `get_instruction_rule` of PTX and AMD for comparisons. -/
def lower (line : CompareLine) : Option CompareInstr :=
  if "setp.".toList.isPrefixOf line.opcode then
    makeCompare (parseSetpOpcode line.opcode) (parsePtxOpcodeType line.opcode) line.destination
      line.operand1 line.operand2
  else
    let compare destination := makeCompare (parseCompareOpcode line.opcode)
      (some (parseCompareType line.opcode)) destination line.operand1 line.operand2
    if "s_cmp_".toList.isPrefixOf line.opcode then compare "scc".toList
    else if "v_cmpx_".toList.isPrefixOf line.opcode then compare "exec".toList
    else if "v_cmp_".toList.isPrefixOf line.opcode then compare line.destination
    else none

/-- The condition recorded for a line. -/
def recorded (line : CompareLine) : Option Condition := (lower line).map toFillNode

/-! ## Instruction sets -/

/-- The types of the comparisons. -/
inductive CompareType where
  | u32 | i32 | u64 | i64
  deriving DecidableEq

namespace CompareType

def width : CompareType → Nat
  | u32 | i32 => 32
  | u64 | i64 => 64

def signed : CompareType → Bool
  | i32 | i64 => true
  | u32 | u64 => false

def ptxText : CompareType → Text
  | u32 => "u32".toList | i32 => "s32".toList | u64 => "u64".toList | i64 => "s64".toList

def amdText : CompareType → Text
  | u32 => "u32".toList | i32 => "i32".toList | u64 => "u64".toList | i64 => "i64".toList

/-- A number in a register as the comparison reads it. -/
def read (type : CompareType) (number : Int) : Int := wrap type.signed type.width number

end CompareType

inductive PtxComparison where
  | eq | ne | lt | le | gt | ge | lo | ls | hi | hs

inductive AmdComparison where
  | eq | ne | lg | lt | le | gt | ge

def PtxComparison.text : PtxComparison → Text
  | eq => "eq".toList | ne => "ne".toList | lt => "lt".toList | le => "le".toList
  | gt => "gt".toList | ge => "ge".toList | lo => "lo".toList | ls => "ls".toList
  | hi => "hi".toList | hs => "hs".toList

def PtxComparison.relation : PtxComparison → Relation
  | eq => .eq | ne => .ne | lt | lo => .lt | le | ls => .le | gt | hi => .gt | ge | hs => .ge

def AmdComparison.text : AmdComparison → Text
  | eq => "eq".toList | ne => "ne".toList | lg => "lg".toList | lt => "lt".toList
  | le => "le".toList | gt => "gt".toList | ge => "ge".toList

def AmdComparison.relation : AmdComparison → Relation
  | eq => .eq | ne | lg => .ne | lt => .lt | le => .le | gt => .gt | ge => .ge

/-- The comparisons of PTX, and the scalar and vector ones of AMD. -/
inductive Opcode where
  | setp (comparison : PtxComparison) (type : CompareType)
  | scalar (comparison : AmdComparison) (type : CompareType)
  | vector (comparison : AmdComparison) (type : CompareType)
  | masked (comparison : AmdComparison) (type : CompareType)

namespace Opcode

def text : Opcode → Text
  | setp comparison type => "setp.".toList ++ comparison.text ++ '.' :: type.ptxText
  | scalar comparison type => "s_cmp_".toList ++ comparison.text ++ '_' :: type.amdText
  | vector comparison type => "v_cmp_".toList ++ comparison.text ++ '_' :: type.amdText
  | masked comparison type => "v_cmpx_".toList ++ comparison.text ++ '_' :: type.amdText

def relation : Opcode → Relation
  | setp comparison _ => comparison.relation
  | scalar comparison _ | vector comparison _ | masked comparison _ => comparison.relation

def type : Opcode → CompareType
  | setp _ type | scalar _ type | vector _ type | masked _ type => type

end Opcode

def Relation.Holds : Relation → Int → Int → Prop
  | eq, a, b => a = b
  | ne, a, b => a ≠ b
  | lt, a, b => a < b
  | le, a, b => a ≤ b
  | gt, a, b => a > b
  | ge, a, b => a ≥ b

instance Relation.decidableHolds (relation : Relation) (a b : Int) :
    Decidable (relation.Holds a b) := by
  cases relation <;> unfold Relation.Holds <;> infer_instance

/-! ## Values in C -/

def convert (type : IntType) (number : Int) : Int := wrap type.signed type.width number

/-- The first type that has the number, with the number behind its sign. -/
def literalInC (negative : Bool) (number : Nat) (types : List IntType) : Option (IntType × Int) :=
  (types.find? fun type => decide (number < 2 ^ (type.width - if type.signed then 1 else 0))).map
    fun type => (type, convert type (if negative then -number else number))

/-- The number after the integer promotions. -/
def promotedInC (type : ScalarType) (number : Int) : Option (IntType × Int) :=
  match type.promote with
  | .int type => some (type, number)
  | .float _ => none

/-- The value of an operand and its type. -/
def Content.inC : Content → Option (IntType × Int)
  | .expression _ type number _ _ _ => promotedInC type number
  | .decimal negative number => literalInC negative number [.int, .long]
  | .hexadecimal negative number => literalInC negative number [.int, .uint, .long, .ulong]

def Written.inC (written : Written) : Option (IntType × Int) :=
  if written.cast then
    written.operand.content.inC.map fun value => (.int, convert .int value.2)
  else written.operand.content.inC

/-- The truth of the condition in C. -/
def Condition.truth (condition : Condition) : Option Bool := do
  let (leftType, left) ← condition.left.inC
  let (rightType, right) ← condition.right.inC
  let common := leftType.join rightType
  some (decide (condition.relation.Holds (convert common left) (convert common right)))

/-- The condition that is recorded is the comparison of the instruction set. -/
def ComparesRight (opcode : Opcode) (destination : Text) (operand1 operand2 : Operand) : Prop :=
  ∃ condition, recorded ⟨opcode.text, destination, operand1, operand2⟩ = some condition ∧
    condition.truth = some (decide (opcode.relation.Holds
      (opcode.type.read operand1.content.number) (opcode.type.read operand2.content.number)))

/-! ## When the condition is right -/

namespace Operand

/-- The operand is written behind a cast to `int`. -/
def IsCast (operand : Operand) : Prop :=
  match operand.dataType, operand.content with
  | none, .expression .. | none, .hexadecimal true _ => True
  | none, _ => False
  | some (.u _), _ | some (.b _), _ | some (.i .w64), _ => True
  | some _, _ => False

instance : DecidablePred IsCast := fun operand => by
  unfold IsCast
  split <;> infer_instance

/-- The lower half of the number as an `int`. -/
def low (operand : Operand) : Int := convert .int operand.content.number

/-- The type and the value with which the operand takes part in the condition. -/
def reading (operand : Operand) : Option (IntType × Int) :=
  if operand.IsCast then operand.content.inC.map fun _ => (.int, operand.low)
  else operand.content.inC

end Operand

/-- The condition that is written for two operands compares as the instruction does. -/
def CompareHolds (relation : Relation) (type : CompareType) (operand1 operand2 : Operand) : Prop :=
  let read (operand : Operand) := type.read operand.content.number
  match operand1.reading, operand2.reading with
  | some (.int, _), some (.int, _) =>
      match type with
      | .i32 => True
      | .u32 =>
          relation = .eq ∨ relation = .ne ∨ (operand1.low < 0 ↔ operand2.low < 0)
      | .i64 | .u64 =>
          relation.Holds operand1.low operand2.low ↔ relation.Holds (read operand1) (read operand2)
  | some (leftType, left), some (rightType, right) =>
      let common := leftType.join rightType
      relation.Holds (convert common left) (convert common right) ↔
        relation.Holds (read operand1) (read operand2)
  | _, _ => False

end OpenCLDecompiler.Compare
