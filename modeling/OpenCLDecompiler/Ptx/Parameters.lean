import OpenCLDecompiler.Library.Placement
import OpenCLDecompiler.Library.PyNumbers
import OpenCLDecompiler.Ptx.ArgumentTypes
import OpenCLDecompiler.Ptx.Parser

/-!
# Parameters of PTX kernels

`text_to_ir` gives every parameter an offset, `_param_load` looks the offset up by the name
in the operand, and `MaterializeArgumentStoresPass` stores the arguments at their offsets.
-/

namespace OpenCLDecompiler.Ptx.Parameters

open Library Library.C Placement OpenCLDecompiler.Ptx.Parser

/-! ## Sizes -/

/-- `_strip_array_suffix`. -/
def stripArraySuffix (name : Text) : Text := name.takeWhile (· ≠ '[')

/-- `_extract_array_size`. -/
def extractArraySize (name : Text) : Option Nat :=
  if '[' ∉ name ∨ name.getLast? ≠ some ']' then none
  else
    let sizeText := ((name.dropWhile (· ≠ '[')).drop 1).dropLast
    if sizeText = [] ∨ sizeText.all Char.isDigit = false then none
    else PyNumbers.readNat 10 sizeText

/-- `_align_to_eight`. -/
def alignToEight (size : Nat) : Nat := (size + 7) / 8 * 8

/-- `_argument_declared_size`. -/
def argumentDeclaredSize (arg : PTXArgument) : Nat :=
  if arg.isPointer then 8
  else
    let elementCount := match extractArraySize arg.name with
      | none | some 0 => 1
      | some count => count
    let elementSize := max 1 (arg.size / 8)
    elementSize * elementCount

/-! ## Arguments -/

def alignmentToType : List (Int × String) :=
  [(1, "char"), (2, "short"), (4, "int"), (8, "long"), (16, "int4")]

def vectorTypeMap : List ((Text × Nat) × String) :=
  [(("b8".toList, 2), "char2"), (("u8".toList, 2), "char2"), (("s8".toList, 2), "char2"),
    (("b8".toList, 4), "char4"), (("u8".toList, 4), "char4"), (("s8".toList, 4), "char4"),
    (("b8".toList, 32), "uint8")]

def typeToType : List (Text × String) :=
  [("b8".toList, "char"), ("u8".toList, "char"), ("s8".toList, "char"),
    ("b16".toList, "short"), ("u16".toList, "short"), ("s16".toList, "short"),
    ("b32".toList, "uint"), ("u32".toList, "uint"), ("s32".toList, "int"),
    ("b64".toList, "ulong"), ("u64".toList, "ulong"), ("s64".toList, "long"),
    ("f32".toList, "float"), ("f64".toList, "double")]

/-- `_normalize_arg_type`. -/
def normalizeArgType (arg : PTXArgument) : String :=
  match (extractArraySize arg.name).bind fun vectorSize =>
      vectorTypeMap.lookup (arg.typeName, vectorSize) with
  | some vectorType => vectorType
  | none =>
      if arg.isPointer then
        let addressSpace := String.ofList (arg.addressSpace.getD "global".toList)
        let fallbackType := (arg.alignment.bind fun alignment => alignmentToType.lookup alignment).getD "long"
        "__" ++ addressSpace ++ " " ++ fallbackType
      else (typeToType.lookup arg.typeName).getD (String.ofList arg.typeName)

/-- `_normalize_arg_name`. -/
def normalizeArgName (arg : PTXArgument) (argIdx : Nat) : ArgName := ⟨arg.isPointer, argIdx⟩

/-- What the loop over the arguments has made; an entry of `args_offset` is `Val(hex(offset))`. -/
structure ArgumentLoop where
  argIdx : Nat := 0
  offset : Nat := 0
  arguments : List KernelArgument := []
  argsOffset : PyDict Text Nat := .empty

/-- The argument for `kernel.arguments`. -/
def kernelArgument (argIdx offset : Nat) (arg : PTXArgument) : KernelArgument :=
  let name := normalizeArgName arg argIdx
  let typeName := normalizeArgType arg
  ⟨name, typeName, offset, KernelArguments.argumentSize name typeName, argumentDeclaredSize arg⟩

/-- The body of the loop over the arguments. -/
def addArgument (st : ArgumentLoop) (arg : PTXArgument) : ArgumentLoop where
  argIdx := st.argIdx + 1
  offset := st.offset + alignToEight (argumentDeclaredSize arg)
  arguments := st.arguments ++ [kernelArgument st.argIdx st.offset arg]
  argsOffset := st.argsOffset.set (stripArraySuffix arg.name) st.offset

def addArguments (args : List PTXArgument) : ArgumentLoop := args.foldl addArgument {}

/-! ## Loads -/

def isHexDigit (c : Char) : Bool :=
  c.isDigit || (decide ('a' ≤ c) && decide (c ≤ 'f')) || (decide ('A' ≤ c) && decide (c ≤ 'F'))

/-- A plus or a minus sign. -/
def expectSign (text : Text) : Option Text := (expect ['+'] text).or (expect ['-'] text)

/-- The letters of a number, hexadecimal or decimal. -/
def spanNumber (text : Text) : Option (Text × Text) :=
  ((expect ['0', 'x'] text).bind (span isHexDigit)).or (span Char.isDigit text)

/-- A sign, a number with or without one of its own, and the bracket. -/
def matchShift (text : Text) : Option Text := do
  let text ← expectSign (text.dropWhile isBlank)
  let text := text.dropWhile isBlank
  let (_, text) ← spanNumber ((expectSign text).getD text)
  expect [']'] (text.dropWhile isBlank)

/-- `_MEMORY_ADDRESS_OFFSET_PATTERN.match`; the result is the group with the name. -/
def matchAddressOffset (operand : Text) : Option Text := do
  let text ← expect ['['] operand
  let text ← expect ['%'] (text.dropWhile isBlank)
  let (name, text) ← span isPredicateChar text
  let rest ← matchShift text
  if rest = [] then some ('%' :: name) else none

/-- `_normalize_memory_operand_for_rf`. -/
def normalizeMemoryOperandForRf (operand : Text) : Text :=
  match matchAddressOffset operand with
  | some name => '[' :: name ++ [']']
  | none => operand

/-- The name of what `_create_register` makes of a text that is no vector. -/
def createdName (regName : Text) : Text :=
  if regName.head? = some '[' ∧ regName.getLast? = some ']' then regName.tail.dropLast
  else regName

/-- `_IR_TYPE_BY_MEMORY_BASE_TYPE`, whose keys a base type has to be one of. -/
def memoryBaseTypes : List (Text × BaseType) :=
  [("b8".toList, .b8), ("b16".toList, .b16), ("b32".toList, .b32), ("b64".toList, .b64),
    ("u8".toList, .u8), ("u16".toList, .u16), ("u32".toList, .u32), ("u64".toList, .u64),
    ("s8".toList, .s8), ("s16".toList, .s16), ("s32".toList, .s32), ("s64".toList, .s64),
    ("f16".toList, .f16), ("f32".toList, .f32), ("f64".toList, .f64)]

/-- The loop of `_parse_memory_access_type` over the parts of the opcode. -/
def readPart (found : Nat × Option Text) (part : Text) : Nat × Option Text :=
  match part with
  | 'v' :: width =>
      if width ≠ [] ∧ width.all Char.isDigit = true then ((PyNumbers.readNat 10 width).getD 0, found.2)
      else found
  | _ => if (matchType part).isSome then (found.1, some part) else found

/-- `_parse_memory_access_type` and `to_ir_type`; `none` is an exception. -/
def parseMemoryAccessType (opcode : Text) : Option MemoryAccessType := do
  let parts := Text.split ['.'] opcode
  let (vectorWidth, baseType) := (parts.drop 2).foldl readPart (1, none)
  let baseType ← memoryBaseTypes.lookup (← baseType)
  some ⟨baseType, vectorWidth⟩

/-- A line of a kernel that loads a parameter. -/
structure LoadLine where
  opcode : Text
  destination : Register
  operand : Text

/-- `_param_load`; `none` is an exception. -/
def paramLoad (argsOffset : PyDict Text Nat) (line : LoadLine) : Option TypedInstr := do
  let access ← parseMemoryAccessType line.opcode
  let offset ← argsOffset.get? (createdName (normalizeMemoryOperandForRf line.operand))
  some (.load false line.destination "argptr" (some offset) access)

/-! ## Kernels -/

inductive Instr where
  | memoryAllocation (destination : String)
  | store (destination : String) (argName : ArgName) (argType : String) (offset : Text)
  | typed (instr : TypedInstr)

/-- The parts of a kernel that parameters are about. -/
structure ParamKernel where
  arguments : List KernelArgument
  argPtr : Option String
  storesMaterialized : Bool
  instructions : List Instr

/-- `text_to_ir` for the arguments and the lines that load them. -/
def textToIr (args : List PTXArgument) (lines : List LoadLine) : Option ParamKernel := do
  let st := addArguments args
  let loads ← lines.mapM (paramLoad st.argsOffset)
  some ⟨st.arguments, some "argptr", false, loads.map Instr.typed⟩

/-- `MaterializeArgumentStoresPass`. -/
def materializeArgumentStores (kernel : ParamKernel) : ParamKernel :=
  if kernel.storesMaterialized then kernel
  else
    match kernel.argPtr with
    | none => kernel
    | some argPtr =>
        let stores := kernel.arguments.map fun argument =>
          .store argPtr argument.name argument.typeName (Nat.toDigits 10 argument.offset)
        { kernel with
          instructions := .memoryAllocation argPtr :: stores ++ kernel.instructions
          storesMaterialized := true }

/-! ## Declarations -/

/-- A name of PTX. -/
structure Identifier where
  first : Char
  rest : Text
  starts : isWordChar first = true ∨ first = '$' ∨ first = '%'
  followed : ∀ c ∈ rest, isWordChar c = true ∨ c = '$'
  longer : first = '%' → rest ≠ []

def Identifier.text (name : Identifier) : Text := name.first :: name.rest

/-- A constant of PTX, decimal or hexadecimal. -/
inductive Literal where
  | decimal (digits : Text) (valid : digits ≠ [] ∧ ∀ c ∈ digits, c.isDigit = true)
  | hexadecimal (digits : Text) (valid : digits ≠ [] ∧ ∀ c ∈ digits, isHexDigit c = true)

namespace Literal

def text : Literal → Text
  | decimal digits _ => digits
  | hexadecimal digits _ => '0' :: 'x' :: digits

def number : Literal → Nat
  | decimal digits _ => (PyNumbers.readNat 10 digits).getD 0
  | hexadecimal digits _ => (PyNumbers.readNat 16 digits).getD 0

end Literal

/-- A parameter as it is declared, with the argument that the parser makes of it. -/
structure Declaration where
  name : Identifier
  count : Option Literal
  argument : PTXArgument
  spelled : argument.name =
    name.text ++ count.elim [] fun literal => '[' :: literal.text ++ [']']
  sized : argument.size ∈ [8, 16, 32, 64]
  single : argument.isPointer = true → count = none

/-- The bytes of the parameter. -/
def Declaration.declaredSize (param : Declaration) : Nat :=
  param.argument.size / 8 * param.count.elim 1 Literal.number

/-- The parameters of a kernel. -/
structure ParameterList where
  params : List Declaration
  distinct : (params.map fun param => param.name.text).Nodup

def ParameterList.arguments (list : ParameterList) : List PTXArgument :=
  list.params.map Declaration.argument

/-- The vector in the opcode of a load. -/
inductive Vector where
  | scalar
  | v2
  | v4
  | v8

def Vector.text : Vector → Text
  | scalar => [] | v2 => ".v2".toList | v4 => ".v4".toList | v8 => ".v8".toList

def Vector.width : Vector → Nat
  | scalar => 1 | v2 => 2 | v4 => 4 | v8 => 8

def baseTypeText : BaseType → Text
  | .b8 => "b8".toList | .b16 => "b16".toList | .b32 => "b32".toList | .b64 => "b64".toList
  | .u8 => "u8".toList | .u16 => "u16".toList | .u32 => "u32".toList | .u64 => "u64".toList
  | .s8 => "s8".toList | .s16 => "s16".toList | .s32 => "s32".toList | .s64 => "s64".toList
  | .f16 => "f16".toList | .f32 => "f32".toList | .f64 => "f64".toList

/-- A load of a parameter, or of the bytes from some place in it on. -/
structure Access (list : ParameterList) where
  param : Declaration
  member : param ∈ list.params
  shift : Option Literal
  inside : shift.elim 0 Literal.number < param.declaredSize
  vector : Vector
  baseType : BaseType
  destination : Register

namespace Access

variable {list : ParameterList}

def line (access : Access list) : LoadLine where
  opcode := "ld.param".toList ++ access.vector.text ++ '.' :: baseTypeText access.baseType
  destination := access.destination
  operand := '[' :: access.param.name.text ++
    (access.shift.elim [] fun literal => '+' :: literal.text) ++ [']']

/-- The distance from the start of the parameter. -/
def distance (access : Access list) : Nat := access.shift.elim 0 Literal.number

/-- The instruction loads what the access names, and its argument is stored. -/
def LoadsRight (kernel : ParamKernel) (access : Access list) (instr : Instr) : Prop :=
  ∃ argument, (access.param, argument) ∈ list.params.zip kernel.arguments ∧
    instr = .typed (.load false access.destination "argptr"
      (some (argument.offset + access.distance)) ⟨access.baseType, access.vector.width⟩) ∧
    .store "argptr" argument.name argument.typeName (Nat.toDigits 10 argument.offset) ∈
      (materializeArgumentStores kernel).instructions

/-- A name alone, or one that is normalised and nothing behind it. -/
def Plain (access : Access list) : Prop :=
  access.shift = none ∨ (access.param.name.first = '%' ∧ access.distance = 0)

end Access

/-- The ranges of the parameters are aligned, in order and disjoint. -/
def RangesRight (list : ParameterList) (arguments : List KernelArgument) : Prop :=
  let placed := list.params.zip arguments
  (∀ pair ∈ placed, 8 ∣ pair.2.offset) ∧
    placed.Pairwise fun first second =>
      first.2.offset + first.1.declaredSize ≤ second.2.offset

/-- The loads of parameters lower to loads from their places. -/
def ParametersRight (list : ParameterList) (accesses : List (Access list)) : Prop :=
  RangesRight list (addArguments list.arguments).arguments ∧
    ∃ kernel, textToIr list.arguments (accesses.map Access.line) = some kernel ∧
      List.Forall₂ (Access.LoadsRight kernel) accesses kernel.instructions

/-- The size is not hexadecimal, or the parameter fits into eight bytes. -/
def Declaration.Roomy (param : Declaration) : Prop :=
  match param.count with
  | some (.hexadecimal _ _) => param.declaredSize ≤ 8
  | _ => True

end OpenCLDecompiler.Ptx.Parameters
