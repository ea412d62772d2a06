import OpenCLDecompiler.Arguments.Layout
import OpenCLDecompiler.Library.PyDict
import OpenCLDecompiler.Registers.Reg
import OpenCLDecompiler.Registers.WorkItem

/-!
# Loads of kernel arguments

The stores in front of a kernel put the content of every argument into a table
whose keys are offsets, and `s_load` copies it from there into registers.  The
keys of the source are hexadecimal texts of the offsets, one for each offset.
-/

namespace OpenCLDecompiler.Arguments

open Library Library.Text Registers

/-! ## Contents of registers -/

/-- `RegisterType`, as far as arguments have it. -/
inductive ContentType where
  | item (type : RegisterType)
  | addressKernelArgument
  | generalSetup
  | argumentsPointer
  deriving DecidableEq, Repr

/-- `RegisterContent`, without its expression. -/
structure RegisterContent where
  value : Text
  type : ContentType
  size : Int
  dataType : Text
  deriving DecidableEq, Repr

structure Register where
  integrity : Integrity
  content : RegisterContent
  deriving DecidableEq, Repr

abbrev State := PyDict Text Register

/-- `exact_types` of `get_reg_type`. -/
def exactTypes : List (Text × RegisterType) :=
  [("get_global_offset(0)".toList, .globalOffset .x), ("get_global_offset(1)".toList, .globalOffset .y),
    ("get_global_offset(2)".toList, .globalOffset .z), ("get_local_size(0)".toList, .localSize .x),
    ("get_local_size(2)".toList, .localSize .z), ("get_global_size(0)".toList, .globalSize .x),
    ("get_global_size(1)".toList, .globalSize .y), ("get_global_size(2)".toList, .globalSize .z)]

/-- `get_reg_type`. -/
def getRegType (value : Text) : ContentType :=
  match exactTypes.lookup value with
  | some type => .item type
  | none =>
      if "*".toList.isPrefixOf value then .addressKernelArgument
      else if "general_setup".toList.isPrefixOf value then .generalSetup
      else .item .unknown

/-! ## Arguments -/

namespace KernelArgument

variable (arg : KernelArgument)

/-- `is_vector`, for an argument with a name. -/
def isVector : Bool := arg.typeName.getLast?.any Char.isDigit && arg.name.head? ≠ some '*'

/-- `int(type_name[-1])`. -/
def lanes : Int := arg.typeName.getLast?.elim 1 fun digit => digit.toNat - '0'.toNat

def basicSize : Int := if arg.isVector then arg.size.fdiv arg.lanes else arg.size

/-- `get_vector_element_by_offset`. -/
def vectorElementByOffset (offset : Int) : Text :=
  arg.name ++ ("___s".toList ++ (toString ((offset - arg.offset).fdiv arg.basicSize)).toList)

/-- The value that `process_arg` stores. -/
def value (offset : Int) : Text :=
  if arg.isVector then arg.vectorElementByOffset offset else removePrefix "*".toList arg.name

/-- The content that `process_arg` stores. -/
def content (offset : Int) : RegisterContent where
  value := arg.value offset
  type := getRegType arg.name
  size := arg.basicSize
  dataType := makeAsmType arg.typeName

/-- The type is one of those whose arguments share a dword. -/
def packs : Bool := "short".toList <:+: arg.typeName ∨ "char".toList <:+: arg.typeName

end KernelArgument

/-- The tables of the kernel parameters. -/
structure KernelParams where
  offsetToContent : PyDict Text (PyDict Int RegisterContent)
  /-- The name of a part of a dword, by the value of the dword, the size and the place in bits. -/
  bfeOffsets : PyDict (Text × Int × Int) Text

/-- `get_bfe_offset`; `none` is a `KeyError`. -/
def getBfeOffset (nameOfParam : Text) (offset : Int) (arg : KernelArgument) (base : Text)
    (params : KernelParams) : Option KernelParams :=
  let loadOffset := offset - offset % 4
  (params.offsetToContent.get? base).bind fun table =>
    (table.get? loadOffset).map fun content =>
      { params with
        bfeOffsets := params.bfeOffsets.set
          (content.value, arg.basicSize * 8, (offset - loadOffset) * 8) nameOfParam }

/-- The first half of `process_arg`: a content at the start of a dword. -/
def storeContent (offset : Int) (arg : KernelArgument) (base : Text) (params : KernelParams) :
    KernelParams :=
  if offset % 4 = 0 then
    { params with
      offsetToContent := params.offsetToContent.set base
        (((params.offsetToContent.get? base).getD .empty).set offset (arg.content offset)) }
  else params

def processArg (offset : Int) (arg : KernelArgument) (base : Text) (params : KernelParams) :
    Option KernelParams :=
  let params := storeContent offset arg base params
  if arg.packs then getBfeOffset (arg.value offset) offset arg base params else some params

/-- `range(0, stop, step)`, for a step other than 0. -/
def pyRange (stop step : Int) : List Int :=
  (List.range (-(-stop).fdiv step).toNat).map fun index : Nat => index * step

/-- The offsets for which an argument is stored. -/
def KernelArgument.offsets (arg : KernelArgument) : List Int :=
  if arg.isVector then (pyRange arg.size arg.basicSize).map (arg.offset + ·) else [arg.offset]

/-- `StoreInMem.to_fill_node`. -/
def storeInMem (base : Text) (params : KernelParams) (arg : KernelArgument) :
    Option KernelParams :=
  arg.offsets.foldlM (fun params offset => processArg offset arg base params) params

/-- The stores of all arguments, in their order. -/
def storeArguments (base : Text) (args : List KernelArgument) : Option KernelParams :=
  args.foldlM (storeInMem base) ⟨.empty, .empty⟩

/-! ## Loads -/

/-- `name.replace("|lo", "")`. -/
def wholeName (name : Text) : Text := (split "|lo".toList name).flatten

/-- The two registers of a content of 64 bits, and the register they are the words of. -/
def setPair (dest next : Text) (content : RegisterContent) (state : State) : State :=
  let state := (state.set dest ⟨.lowPart, content⟩).set next ⟨.highPart, content⟩
  if "|lo".toList <:+: dest then state.set (wholeName dest) ⟨.entire, content⟩ else state

/-- The body of `upload_kernel_param`: `content` is the one of the last step. -/
def uploadFrom (table : PyDict Int RegisterContent) :
    Option RegisterContent → Int → List Text → State → State
  | _, _, [], state => state
  | content, offset, dest :: rest, state =>
      match (table.get? offset).or content with
      | none => state
      | some content =>
          if content.size ≤ 4 then
            uploadFrom table (some content) (offset + 4) rest (state.set dest ⟨.entire, content⟩)
          else if content.size = 8 then
            match rest with
            | [] => state.set dest ⟨.entire, content⟩
            | next :: rest =>
                uploadFrom table (some content) (offset + 8) rest (setPair dest next content state)
          else state

/-- `upload_kernel_param`; without an argument the table is missing. -/
def uploadKernelParam (params : KernelParams) (base : Text) (state : State) (offset : Int)
    (toRegisters : List Text) : Option State :=
  (params.offsetToContent.get? base).map fun table =>
    uploadFrom table none offset toRegisters state

/-- `int(text)`, for a text of digits. -/
def readDigits (text : Text) : Nat :=
  text.foldl (fun number digit => 10 * number + (digit.toNat - '0'.toNat)) 0

/-- An `s_load` with a suffix that `to_fill_node` accepts. -/
structure SLoad where
  sdata : List Text
  base : Text
  fromRegister : Text
  offset : Int

/-- The offset of a load behind the value of its base. -/
def SLoad.offsetAt (load : SLoad) (sbase : Register) : Int :=
  if sbase.content.value ≠ [] ∧ sbase.content.value.all Char.isDigit then
    load.offset + readDigits sbase.content.value
  else load.offset

/-- `SLoad.to_fill_node`, for a load of arguments. -/
def SLoad.toFillNode (load : SLoad) (params : KernelParams) (state : State) : Option State :=
  match state.get? load.fromRegister with
  | some sbase =>
      if sbase.content.type = .argumentsPointer then
        uploadKernelParam params load.base state (load.offsetAt sbase) load.sdata
      else some state
  | none => some state

end OpenCLDecompiler.Arguments
