import Mathlib.Data.List.Pairwise
import OpenCLDecompiler.Library.Text

/-!
# The layout of kernel arguments

`process_params` reads the `.arg` rows of an AMD kernel and gives every argument
an offset and a size.  Texts are lists of characters; `none` is an exception.
-/

namespace OpenCLDecompiler.Arguments

open Library.Text

abbrev Text := List Char

/-! ## Type tables -/

/-- `vector_type_dict`: the names of the vector types, which stand for themselves. -/
def vectorTypes : List Text :=
  ["char2", "char4", "char8", "uchar2", "uchar4", "uchar8", "short2", "short4", "short8",
    "ushort2", "ushort4", "ushort8", "int2", "int4", "int8", "uint2", "uint4", "uint8",
    "long2", "long4", "long8", "ulong2", "ulong4", "ulong8", "float2", "float4", "float8",
    "half2", "half4", "half8"].map String.toList

/-- `opencl_to_asm_dict`. -/
def openclToAsm : List (Text × Text) :=
  [("uint", "u32"), ("__global uint", "gu32"), ("int", "i32"), ("__global int", "gi32"),
    ("ulong", "u64"), ("__global ulong", "gu64"), ("long", "i64"), ("__global long", "gi64"),
    ("float", "f32"), ("__global float", "gf32"), ("double", "f64"), ("__global double", "gf64"),
    ("__global int2", "int2"), ("__global uint2", "uint2"), ("__global int4", "int4"),
    ("__global uint4", "uint4"), ("__global int8", "int8"), ("__global uint8", "uint8"),
    ("__global float4", "float4"), ("char", "char"), ("__global char", "char"),
    ("__global char2", "char2"), ("__global char4", "char4"), ("short", "short"),
    ("__global short", "short")].map fun entry => (entry.1.toList, entry.2.toList)

/-- `make_asm_type`. -/
def makeAsmType (openclType : Text) : Text :=
  if openclType ∈ vectorTypes then openclType
  else (openclToAsm.lookup openclType).getD "unknown type".toList

/-- The size that `evaluate_size` gives, without `only_size`. -/
def evaluateSize (asmType : Text) : Int :=
  if asmType ∈ ["gu32", "u32", "gi32", "i32", "gf32", "f32", "b32", "dword"].map String.toList then 4
  else if asmType ∈ ["gu64", "u64", "gi64", "i64", "f64", "gf64", "uint2", "int2", "b64",
    "dword2"].map String.toList then 8
  else if asmType ∈ ["uint4", "int4", "float4"].map String.toList then 16
  else if asmType ∈ ["uint8", "int8"].map String.toList then 32
  else if asmType = "char".toList then 1
  else if asmType ∈ ["short", "char2"].map String.toList then 2
  else if asmType = "char4".toList then 4
  else -1

/-! ## The rows -/

/-- `KernelArgument`, without the declared size, which only PTX kernels have. -/
structure KernelArgument where
  typeName : Text
  name : Text
  offset : Int
  size : Int
  hidden : Bool
  const : Bool
  deriving DecidableEq, Repr

/-- The names of the hidden offsets. -/
def renameOffset (name : Text) : Text :=
  if name = "_.global_offset_0".toList then "get_global_offset(0)".toList
  else if name = "_.global_offset_1".toList then "get_global_offset(1)".toList
  else if name = "_.global_offset_2".toList then "get_global_offset(2)".toList
  else name

/-- The name and the type of an argument; a pointer has the star in its name. -/
def moveStar (name typeName : Text) : Option (Text × Text) :=
  typeName.getLast?.map fun last =>
    if last = '*' then ('*' :: name, typeName.dropLast) else (name, typeName)

/-- The address space of a pointer, in front of its type. -/
def addModifier (typeName : Text) : List Text → Text
  | [] => typeName
  | space :: _ => "__".toList ++ (space ++ (" ".toList ++ typeName))

/-- Pointers have 8 bytes. -/
def sizeOf (name typeName : Text) : Int :=
  if name.head? = some '*' then 8 else evaluateSize (makeAsmType typeName)

/-- The offset at which an argument of the given size starts. -/
def pad (offset size : Int) : Int :=
  if offset.fmod size ≠ 0 ∧ size ≤ 8 then offset + (size - offset.fmod size) else offset

/-- The body of the loop of `process_params`. -/
def processRow (offset : Int) (row : Text) : Option KernelArgument :=
  let row := removeSuffix ",".toList (removePrefix ".arg ".toList row)
  match split ", ".toList row with
  | name :: _ :: typeName :: other =>
      (moveStar name (addModifier typeName other)).map fun moved =>
        { typeName := moved.2
          name := renameOffset moved.1
          offset := pad offset (sizeOf moved.1 moved.2)
          size := sizeOf moved.1 moved.2
          hidden := "_.".toList.isPrefixOf name
          const := decide ("const ".toList <:+: row) }
  | _ => none

def processRows : Int → List Text → Option (List KernelArgument)
  | _, [] => some []
  | offset, row :: rest =>
      if ".arg ".toList.isPrefixOf row then
        (processRow offset row).bind fun arg =>
          (processRows (arg.offset + arg.size) rest).map (arg :: ·)
      else processRows offset rest

/-- `process_params`. -/
def processParams (setOfConfig : List Text) : Option (List KernelArgument) :=
  processRows 0 setOfConfig

/-! ## Types of OpenCL -/

inductive Scalar where
  | char | uchar | short | ushort | int | uint | long | ulong | float | double | half
  deriving DecidableEq, Repr

inductive Lanes where
  | one | two | four | eight
  deriving DecidableEq, Repr

/-- A scalar type, or a vector of it. -/
structure ValueType where
  scalar : Scalar
  lanes : Lanes
  deriving DecidableEq, Repr

def Scalar.name : Scalar → Text
  | .char => "char".toList | .uchar => "uchar".toList
  | .short => "short".toList | .ushort => "ushort".toList
  | .int => "int".toList | .uint => "uint".toList
  | .long => "long".toList | .ulong => "ulong".toList
  | .float => "float".toList | .double => "double".toList | .half => "half".toList

/-- The size of a scalar in the OpenCL specification. -/
def Scalar.size : Scalar → Int
  | .char | .uchar => 1
  | .short | .ushort | .half => 2
  | .int | .uint | .float => 4
  | .long | .ulong | .double => 8

def Lanes.suffix : Lanes → Text
  | .one => [] | .two => ['2'] | .four => ['4'] | .eight => ['8']

def Lanes.count : Lanes → Int
  | .one => 1 | .two => 2 | .four => 4 | .eight => 8

namespace ValueType

def name (type : ValueType) : Text := type.scalar.name ++ type.lanes.suffix

/-- The size of the type in the OpenCL specification, which is also its alignment. -/
def size (type : ValueType) : Int := type.scalar.size * type.lanes.count

/-- The type is in one of the type tables. -/
def listed (type : ValueType) : Bool :=
  type.name ∈ vectorTypes ∨ type.name ∈ openclToAsm.map Prod.fst

/-- `evaluate_size` has a size for the type. -/
def sized (type : ValueType) : Bool := evaluateSize (makeAsmType type.name) ≠ -1

end ValueType

/-- An argument that is passed by value, or a pointer with the fields behind its type. -/
inductive ArgKind where
  | value (type : { type : ValueType // type.listed = true })
  | pointer (pointee : Text) (other : List Text)

/-- The fields of a row behind its name and its declared type. -/
def ArgKind.fields : ArgKind → List Text
  | .value type => [type.val.name]
  | .pointer pointee other => (pointee ++ ['*']) :: other

/-- An `.arg` row; the separator stands in none of its fields, and it may end with a comma. -/
structure ArgRow where
  name : Text
  declared : Text
  kind : ArgKind
  comma : Bool
  nameStart : name.head? ≠ some '*'
  fields : ∀ field ∈ name :: declared :: kind.fields, ¬", ".toList <:+: field
  last : ∀ field ∈ (name :: declared :: kind.fields).getLast?, ¬",".toList <:+ field

namespace ArgRow

def text (row : ArgRow) : Text :=
  ".arg ".toList ++ (", ".toList.intercalate (row.name :: row.declared :: row.kind.fields) ++
    if row.comma then ",".toList else [])

/-- The size of the argument in the OpenCL specification. -/
def size (row : ArgRow) : Int :=
  match row.kind with
  | .value type => type.val.size
  | .pointer _ _ => 8

def sized (row : ArgRow) : Bool :=
  match row.kind with
  | .value type => type.val.sized
  | .pointer _ _ => true

end ArgRow

/-- A row of the configuration: an argument or anything else. -/
inductive ConfigRow where
  | arg (row : ArgRow)
  | other (row : { row : Text // ".arg ".toList.isPrefixOf row = false })

def ConfigRow.text : ConfigRow → Text
  | .arg row => row.text
  | .other row => row.val

def ConfigRow.arg? : ConfigRow → Option ArgRow
  | .arg row => some row
  | .other _ => none

/-! ## Layouts -/

/--
Every argument has its size and stands behind the arguments before it; one of at
most 8 bytes is aligned, and a larger vector starts where the argument before it ends.
-/
structure Layout (rows : List ArgRow) (args : List KernelArgument) : Prop where
  sizes : List.Forall₂ (fun row arg => arg.size = row.size) rows args
  nonneg : ∀ arg ∈ args, 0 ≤ arg.offset
  increasing : args.Pairwise fun first second => first.offset < second.offset
  disjoint : args.Pairwise fun first second => first.offset + first.size ≤ second.offset
  aligned : ∀ arg ∈ args, arg.size ≤ 8 → arg.size ∣ arg.offset
  packed : args.IsChain fun first second =>
    8 < second.size → second.offset = first.offset + first.size

theorem ValueType.evaluateSize_eq (type : ValueType) (sized : type.sized = true) :
    evaluateSize (makeAsmType type.name) = type.size := by
  obtain ⟨scalar, lanes⟩ := type
  cases scalar <;> cases lanes <;> revert sized <;> decide

theorem ValueType.getLast?_name (type : ValueType) :
    ∃ last, type.name.getLast? = some last ∧ last ≠ '*' := by
  obtain ⟨scalar, lanes⟩ := type
  cases scalar <;> cases lanes <;> exact ⟨_, rfl, by decide⟩

/-! ## Reading a row -/

theorem unbordered_comma : Unbordered ", ".toList := by
  rintro border some notAll ends starts
  have size := ends.length_le
  have one : border.length = 1 := by
    have positive := List.length_pos_of_ne_nil some
    have notTwo : border.length ≠ 2 := fun two => notAll (ends.eq_of_length two)
    have two : ", ".toList.length = 2 := rfl
    omega
  obtain ⟨letter, rfl⟩ := List.length_eq_one_iff.mp one
  have isBlank := List.singleton_suffix_iff_getLast?_eq_some.mp ends
  have isComma := List.singleton_prefix_iff_head?_eq_some.mp starts
  rw [← isComma] at isBlank
  exact absurd isBlank (by decide)

namespace ArgRow

variable (row : ArgRow)

theorem body_eq : removeSuffix ",".toList (removePrefix ".arg ".toList row.text) =
    ", ".toList.intercalate (row.name :: row.declared :: row.kind.fields) := by
  unfold text
  rw [removePrefix_append]
  cases row.comma with
  | true => exact removeSuffix_append ..
  | false =>
      simp only [Bool.false_eq_true, if_false, List.append_nil]
      refine removeSuffix_of_not ?_
      rintro ends
      have isComma := List.singleton_suffix_iff_getLast?_eq_some.mp ends
      rcases getLast?_intercalate (by decide) _ isComma with ⟨field, isLast, ends⟩ | blank
      · exact row.last field isLast (List.singleton_suffix_iff_getLast?_eq_some.mpr ends)
      · exact absurd blank (by decide)

theorem split_eq :
    split ", ".toList (removeSuffix ",".toList (removePrefix ".arg ".toList row.text)) =
      row.name :: row.declared :: row.kind.fields := by
  rw [body_eq]
  exact split_intercalate unbordered_comma (by decide) _ (List.cons_ne_nil _ _) row.fields

/-- The size the argument gets. -/
def codeSize : Int :=
  match row.kind with
  | .value type => evaluateSize (makeAsmType type.val.name)
  | .pointer _ _ => 8

theorem codeSize_eq (sized : row.sized = true) : row.codeSize = row.size := by
  unfold ArgRow.sized at sized
  unfold codeSize size
  cases kind : row.kind with
  | value type =>
      rw [kind] at sized
      exact ValueType.evaluateSize_eq _ sized
  | pointer pointee other => rfl

end ArgRow

theorem getLast?_addModifier (pointee : Text) (other : List Text) :
    (addModifier (pointee ++ ['*']) other).getLast? = some '*' := by
  cases other with
  | nil => simp [addModifier]
  | cons space others =>
      simp only [addModifier, List.getLast?_append, List.getLast?_singleton, Option.some_or]

theorem processRow_text (row : ArgRow) (offset : Int) :
    ∃ arg, processRow offset row.text = some arg ∧ arg.size = row.codeSize ∧
      arg.offset = pad offset row.codeSize := by
  unfold processRow ArgRow.codeSize
  dsimp only
  rw [row.split_eq]
  cases kind : row.kind with
  | value type =>
      obtain ⟨last, isLast, notStar⟩ := ValueType.getLast?_name type.val
      have moved : moveStar row.name (addModifier type.val.name []) =
          some (row.name, type.val.name) := by
        simp [moveStar, addModifier, isLast, notStar]
      have size : sizeOf row.name type.val.name = evaluateSize (makeAsmType type.val.name) :=
        if_neg row.nameStart
      simp only [ArgKind.fields]
      rw [moved, Option.map_some]
      exact ⟨_, rfl, size, congrArg (pad offset) size⟩
  | pointer pointee other =>
      obtain ⟨typeName, isType⟩ : ∃ typeName,
          moveStar row.name (addModifier (pointee ++ ['*']) other) =
            some ('*' :: row.name, typeName) := by
        refine ⟨(addModifier (pointee ++ ['*']) other).dropLast, ?_⟩
        rw [moveStar, getLast?_addModifier, Option.map_some, if_pos rfl]
      simp only [ArgKind.fields]
      rw [isType, Option.map_some]
      exact ⟨_, rfl, rfl, rfl⟩

/-! ## Offsets -/

theorem le_pad (offset : Int) {size : Int} (positive : 0 < size) : offset ≤ pad offset size := by
  have small := Int.fmod_lt_of_pos offset positive
  unfold pad
  split <;> omega

theorem dvd_pad {offset size : Int} (small : size ≤ 8) : size ∣ pad offset size := by
  unfold pad
  split
  · exact ⟨offset.fdiv size + 1, by
      have parts := Int.mul_fdiv_add_fmod offset size
      rw [Int.mul_add, Int.mul_one]
      omega⟩
  · rename_i aligned
    have exact : offset.fmod size = 0 := by
      by_contra rest
      exact aligned ⟨rest, small⟩
    exact Int.dvd_of_fmod_eq_zero exact

theorem pad_of_large {offset size : Int} (large : 8 < size) : pad offset size = offset :=
  if_neg fun both => absurd both.2 (Int.not_le.mpr large)

theorem ValueType.size_pos (type : ValueType) : 0 < type.size := by
  obtain ⟨scalar, lanes⟩ := type
  cases scalar <;> cases lanes <;> decide

theorem ArgRow.size_pos (row : ArgRow) : 0 < row.size := by
  unfold ArgRow.size
  cases row.kind with
  | value type => exact type.val.size_pos
  | pointer pointee other =>
      change (0 : Int) < 8
      decide

/-- A layout of arguments that starts at an offset. -/
structure LayoutFrom (offset : Int) (rows : List ArgRow) (args : List KernelArgument) : Prop where
  layout : Layout rows args
  behind : ∀ arg ∈ args, offset ≤ arg.offset
  first : ∀ arg ∈ args.head?, 8 < arg.size → arg.offset = offset

theorem LayoutFrom.cons {offset : Int} {row : ArgRow} {rows : List ArgRow} {arg : KernelArgument}
    {args : List KernelArgument} (nonneg : 0 ≤ offset) (size : arg.size = row.size)
    (start : arg.offset = pad offset row.size)
    (rest : LayoutFrom (arg.offset + arg.size) rows args) :
    LayoutFrom offset (row :: rows) (arg :: args) := by
  have positive := row.size_pos
  have above := le_pad offset positive
  have start' : offset ≤ arg.offset := start ▸ above
  have next : ∀ other ∈ args, arg.offset + arg.size ≤ other.offset := rest.behind
  constructor
  case behind =>
    rintro other (_ | ⟨_, inside⟩)
    · exact start'
    · have behind := next other inside
      omega
  case first =>
    rintro other ⟨⟩ large
    rw [start, pad_of_large (size ▸ large)]
  case layout =>
    constructor
    case sizes => exact .cons size rest.layout.sizes
    case nonneg =>
      rintro other (_ | ⟨_, inside⟩)
      · omega
      · exact rest.layout.nonneg other inside
    case increasing =>
      refine List.pairwise_cons.mpr ⟨?_, rest.layout.increasing⟩
      rintro other inside
      have behind := next other inside
      omega
    case disjoint => exact List.pairwise_cons.mpr ⟨next, rest.layout.disjoint⟩
    case aligned =>
      rintro other (_ | ⟨_, inside⟩) small
      · rw [start, ← size]
        exact dvd_pad small
      · exact rest.layout.aligned other inside small
    case packed =>
      have chain := rest.layout.packed
      have first := rest.first
      cases args with
      | nil => exact .singleton _
      | cons second args => exact .cons_cons (first second rfl) chain

/-- The arguments of a configuration. -/
def argRows (rows : List ConfigRow) : List ArgRow := rows.filterMap ConfigRow.arg?

theorem isPrefixOf_text (row : ArgRow) : ".arg ".toList.isPrefixOf row.text = true := by
  unfold ArgRow.text
  rw [List.isPrefixOf_iff_prefix]
  exact List.prefix_append ..

theorem processRows_layout (rows : List ConfigRow) (offset : Int) :
    ∃ args, processRows offset (rows.map ConfigRow.text) = some args ∧
      args.length = (argRows rows).length ∧
      (0 ≤ offset → (∀ row ∈ argRows rows, row.sized = true) →
        LayoutFrom offset (argRows rows) args) := by
  induction rows generalizing offset with
  | nil =>
      refine ⟨[], rfl, rfl, fun _ _ => ?_⟩
      constructor
      case layout => constructor <;> simp [argRows]
      all_goals simp
  | cons row rows ih =>
      cases row with
      | other row =>
          obtain ⟨args, reads, count, layout⟩ := ih offset
          refine ⟨args, ?_, count, layout⟩
          rw [List.map_cons, processRows, if_neg (by rw [ConfigRow.text, row.property]; decide), reads]
      | arg row =>
          obtain ⟨arg, reads, size, start⟩ := processRow_text row offset
          obtain ⟨args, readsRest, count, layout⟩ := ih (arg.offset + arg.size)
          refine ⟨arg :: args, ?_, congrArg (· + 1) count, ?_⟩
          · rw [List.map_cons, ConfigRow.text, processRows, if_pos (isPrefixOf_text row), reads,
              Option.bind_some, readsRest, Option.map_some]
          · rintro nonneg sized
            have sizeIs : arg.size = row.size := by
              rw [size, row.codeSize_eq (sized row List.mem_cons_self)]
            have startIs : arg.offset = pad offset row.size := by
              rw [start, row.codeSize_eq (sized row List.mem_cons_self)]
            have positive := row.size_pos
            have above := le_pad offset positive
            exact LayoutFrom.cons nonneg sizeIs startIs (layout (by omega)
              fun other inside => sized other (List.mem_cons_of_mem _ inside))

/--
`process_params` reads every list of rows over the types of the tables.  If
`evaluate_size` knows the types that are passed by value, the arguments have their
sizes, one behind the other.
-/
theorem processParams_layout (rows : List ConfigRow) :
    ∃ args, processParams (rows.map ConfigRow.text) = some args ∧
      args.length = (argRows rows).length ∧
      ((∀ row ∈ argRows rows, row.sized = true) → Layout (argRows rows) args) := by
  obtain ⟨args, reads, count, layout⟩ := processRows_layout rows 0
  exact ⟨args, reads, count, fun sized => (layout (Int.le_refl 0) sized).layout⟩

/-- A vector of four numbers behind a number is not aligned. -/
theorem int4_behind_int_not_aligned :
    ¬∃ args, processParams [".arg a, \"int\", int".toList, ".arg b, \"int4\", int4".toList] =
      some args ∧ ∀ arg ∈ args, arg.size ∣ arg.offset := by
  rintro ⟨args, reads, aligned⟩
  have isArgs : args = [⟨"int".toList, "a".toList, 0, 4, false, false⟩,
      ⟨"int4".toList, "b".toList, 4, 16, false, false⟩] := Option.some.inj (reads.symm.trans (by decide))
  subst isArgs
  exact absurd (aligned _ (List.mem_cons_of_mem _ List.mem_cons_self)) (by decide)

end OpenCLDecompiler.Arguments
