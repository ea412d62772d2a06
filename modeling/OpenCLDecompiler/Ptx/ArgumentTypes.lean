import Mathlib.Data.List.Nodup
import OpenCLDecompiler.Ptx.RegisterFlow

/-!
# Argument types of PTX kernels

`InferPTXArgumentTypesPass` gives a parameter that is loaded as a vector a vector
type, and `InferPTXPointerTypesPass` gives a pointer parameter the type of the
memory it is used for.  Both remember in the pass context, by the offset of the
parameter, what they have inferred, and `main` has one context for all kernels.
-/

namespace OpenCLDecompiler.Ptx

open Library

/-! ## Types -/

/-- `MemoryAccessType.element_bits`. -/
def BaseType.bits : BaseType → Nat
  | .b8 | .u8 | .s8 => 8
  | .b16 | .u16 | .s16 | .f16 => 16
  | .b32 | .u32 | .s32 | .f32 => 32
  | .b64 | .u64 | .s64 | .f64 => 64

def BaseType.valueType : BaseType → String
  | .b8 | .u8 | .s8 => "char"
  | .b16 | .u16 | .s16 => "short"
  | .b32 | .u32 => "uint"
  | .s32 => "int"
  | .b64 | .u64 => "ulong"
  | .s64 => "long"
  | .f16 => "half"
  | .f32 => "float"
  | .f64 => "double"

namespace MemoryAccessType

def totalBits (access : MemoryAccessType) : Nat := access.baseType.bits * access.vectorWidth

/-- `to_value_type`. -/
def toValueType (access : MemoryAccessType) : String :=
  if 1 < access.vectorWidth then access.baseType.valueType ++ toString access.vectorWidth
  else access.baseType.valueType

/-- `to_opencl_type`. -/
def toOpenclType (access : MemoryAccessType) : String := "__global " ++ access.toValueType

end MemoryAccessType

/-- The vector types `make_asm_type` leaves as they are. -/
def vectorTypes : List String :=
  ["char2", "char4", "char8", "uchar2", "uchar4", "uchar8", "short2", "short4", "short8",
    "ushort2", "ushort4", "ushort8", "int2", "int4", "int8", "uint2", "uint4", "uint8", "long2",
    "long4", "long8", "ulong2", "ulong4", "ulong8", "float2", "float4", "float8", "half2", "half4",
    "half8"]

/-- `opencl_to_asm_dict`. -/
def openclToAsm : List (String × String) :=
  [("uint", "u32"), ("__global uint", "gu32"), ("int", "i32"), ("__global int", "gi32"),
    ("ulong", "u64"), ("__global ulong", "gu64"), ("long", "i64"), ("__global long", "gi64"),
    ("float", "f32"), ("__global float", "gf32"), ("double", "f64"), ("__global double", "gf64"),
    ("__global int2", "int2"), ("__global uint2", "uint2"), ("__global int4", "int4"),
    ("__global uint4", "uint4"), ("__global int8", "int8"), ("__global uint8", "uint8"),
    ("__global float4", "float4"), ("char", "char"), ("__global char", "char"),
    ("__global char2", "char2"), ("__global char4", "char4"), ("short", "short"),
    ("__global short", "short")]

def makeAsmType (openclType : String) : String :=
  if openclType ∈ vectorTypes then openclType
  else (openclToAsm.lookup openclType).getD "unknown type"

/-- The size `evaluate_size` gives; it is -1 for a type it does not know. -/
def evaluateSize (asmType : String) : Int :=
  if asmType ∈ ["gu32", "u32", "gi32", "i32", "gf32", "f32", "b32", "dword"] then 4
  else if asmType ∈ ["gu64", "u64", "gi64", "i64", "f64", "gf64", "uint2", "int2", "b64",
    "dword2"] then 8
  else if asmType ∈ ["uint4", "int4", "float4"] then 16
  else if asmType ∈ ["uint8", "int8"] then 32
  else if asmType = "char" then 1
  else if asmType ∈ ["short", "char2"] then 2
  else if asmType = "char4" then 4
  else -1

/-! ## Arguments -/

/-- The names `_normalize_arg_name` makes: `arg` and a number, behind a star for a pointer. -/
structure ArgName where
  pointer : Bool
  number : Nat
  deriving DecidableEq, Repr

structure KernelArgument where
  name : ArgName
  typeName : String
  offset : Nat
  size : Int
  declaredSize : Nat
  deriving DecidableEq, Repr

/-- The arguments of a kernel; `text_to_ir` numbers them and puts them at growing offsets. -/
structure KernelArguments where
  all : List KernelArgument
  names : (all.map KernelArgument.name).Nodup
  offsets : (all.map KernelArgument.offset).Nodup

namespace KernelArguments

/-- `get_by_offset`. -/
def getByOffset (arguments : KernelArguments) (offset : Nat) : Option KernelArgument :=
  arguments.all.find? fun argument => argument.offset = offset

/-- `get_by_name`. -/
def getByName (arguments : KernelArguments) (name : ArgName) : Option KernelArgument :=
  arguments.all.find? fun argument => argument.name = name

/-- `_argument_size`. -/
def argumentSize (name : ArgName) (typeName : String) : Int :=
  if name.pointer then 8 else evaluateSize (makeAsmType typeName)

/-- The argument with the given name gets another type, and the size of it. -/
def retype (name : ArgName) (typeName : String) (argument : KernelArgument) : KernelArgument :=
  if argument.name = name then
    { argument with typeName := typeName, size := argumentSize argument.name typeName }
  else argument

theorem name_retype (name : ArgName) (typeName : String) (argument : KernelArgument) :
    (retype name typeName argument).name = argument.name := by
  unfold retype
  split <;> rfl

theorem offset_retype (name : ArgName) (typeName : String) (argument : KernelArgument) :
    (retype name typeName argument).offset = argument.offset := by
  unfold retype
  split <;> rfl

def retypeAll (arguments : KernelArguments) (name : ArgName) (typeName : String) :
    KernelArguments where
  all := arguments.all.map (retype name typeName)
  names := by
    rw [List.map_map]
    have same : KernelArgument.name ∘ retype name typeName = KernelArgument.name :=
      funext (name_retype name typeName)
    rw [same]
    exact arguments.names
  offsets := by
    rw [List.map_map]
    have same : KernelArgument.offset ∘ retype name typeName = KernelArgument.offset :=
      funext (offset_retype name typeName)
    rw [same]
    exact arguments.offsets

/-- `update_type`; `none` stands for the result `False`. -/
def updateType (arguments : KernelArguments) (name : ArgName) (typeName : String) :
    Option KernelArguments :=
  (arguments.getByName name).map fun _ => arguments.retypeAll name typeName

/-- `update_type_by_offset`. -/
def updateTypeByOffset (arguments : KernelArguments) (offset : Nat) (typeName : String) :
    Option KernelArguments :=
  (arguments.getByOffset offset).bind fun argument => arguments.updateType argument.name typeName

/-- The types the kernel is printed with. -/
def types (arguments : KernelArguments) : List String := arguments.all.map KernelArgument.typeName

end KernelArguments

/-- A kernel of `text_to_ir`; its instructions read the parameters but do not move them. -/
structure Kernel where
  arguments : KernelArguments
  instructions : List TypedInstr
  argPtrKept : ∀ instr ∈ instructions, lo "argptr" ∉ instr.writtenNames

/-! ## Vectors -/

/-- The arguments of a kernel and the map of inferred types in the context. -/
structure Inference where
  arguments : KernelArguments
  inferred : PyDict Nat String

/-- `_infer_type_name`. -/
def inferTypeName (access : MemoryAccessType) (argument : KernelArgument) : String :=
  let declaredSize : Int :=
    if argument.declaredSize ≠ 0 then argument.declaredSize else argument.size
  let elementSize := access.baseType.bits / 8
  if declaredSize ≤ 0 ∨ elementSize ≤ 0 then access.toValueType
  else if declaredSize % elementSize ≠ 0 then access.toValueType
  else
    let declaredWidth := (declaredSize / elementSize).toNat
    if declaredWidth ≤ access.vectorWidth then access.toValueType
    else
      let declaredType := MemoryAccessType.toValueType ⟨access.baseType, declaredWidth⟩
      if evaluateSize (makeAsmType declaredType) ≠ declaredSize then access.toValueType
      else declaredType

/-- The body of the loop of `InferPTXArgumentTypesPass`. -/
def inferArgumentType (st : Inference) : TypedInstr → Inference
  | .load false _ address offset access =>
      if address ≠ "argptr" then st
      else if access.vectorWidth ≤ 1 then st
      else match offset with
        | none => st
        | some offset => match st.arguments.getByOffset offset with
          | none => st
          | some argument =>
              if argument.name.pointer then st
              else
                let typeName := inferTypeName access argument
                if (st.inferred.get? offset).isSome then st
                else match st.arguments.updateTypeByOffset offset typeName with
                  | none => st
                  | some arguments => ⟨arguments, st.inferred.set offset typeName⟩
  | _ => st

def inferArgumentTypes (st : Inference) (instrs : List TypedInstr) : Inference :=
  instrs.foldl inferArgumentType st

/-! ## Pointers -/

/-- The state of the search for a parameter, with the set `visited`. -/
structure Search where
  inference : Inference
  visited : Finset (Nat × String)

/-- `PTX_POINTER_SIZE_BITS`. -/
def pointerSizeBits : Nat := 64

/-- `_try_update_argument_from_load`, with its result. -/
def tryUpdateArgumentFromLoad (st : Inference) (instr : TypedInstr) (typeName : String) :
    Inference × Bool :=
  match instr with
  | .load _ _ address offset access =>
      if address ≠ "argptr" then (st, false)
      else if max 32 access.totalBits ≠ pointerSizeBits then (st, false)
      else match offset with
        | none => (st, false)
        | some offset => match st.arguments.getByOffset offset with
          | none => (st, false)
          | some argument =>
              if !argument.name.pointer then (st, false)
              else match st.inferred.get? offset with
                | some inferred => (st, inferred = typeName)
                | none => match st.arguments.updateTypeByOffset offset typeName with
                  | none => (st, false)
                  | some arguments => (⟨arguments, st.inferred.set offset typeName⟩, true)
  | _ => (st, false)

/--
`_propagate_pointer_type`, with a bound on the depth of its recursion.  Its
result only counts the inferred types, which no pass reads, so it is left out.
-/
def propagatePointerType (instrs : List TypedInstr) (flow : RegisterFlow) (typeName : String) :
    Nat → Nat → String → Search → Search
  | 0, _, _, st => st
  | fuel + 1, use, register, st =>
      if (use, register) ∈ st.visited then st
      else
        let st : Search := { st with visited := insert (use, register) st.visited }
        match flow.getWriter use register with
        | none => st
        | some writer => match instrs[writer]? with
          | none => st
          | some instr =>
              let (inference, updated) := tryUpdateArgumentFromLoad st.inference instr typeName
              if updated then { st with inference := inference }
              else instr.readRegisters.foldl
                (fun st source =>
                  propagatePointerType instrs flow typeName fuel writer source.first st)
                { st with inference := inference }

/-- A bound above the place of the use is large enough. -/
theorem propagatePointerType_enough (instrs : List TypedInstr) (typeName : String) {use fuel : Nat}
    (enough : use < fuel) (register : String) (st : Search) :
    propagatePointerType instrs (RegisterFlow.build instrs) typeName fuel use register st =
      propagatePointerType instrs (RegisterFlow.build instrs) typeName (use + 1) use register st := by
  induction use using Nat.strong_induction_on generalizing fuel register st with
  | h use ih =>
      obtain ⟨more, rfl⟩ := Nat.exists_eq_succ_of_ne_zero (Nat.ne_of_gt (Nat.zero_lt_of_lt enough))
      unfold propagatePointerType
      split
      · rfl
      · dsimp only
        cases found : (RegisterFlow.build instrs).getWriter use register with
        | none => rfl
        | some writer =>
            have before := (RegisterFlow.getWriter_build found).1
            dsimp only
            cases instrs[writer]? with
            | none => rfl
            | some instr =>
                dsimp only
                split
                · rfl
                · congr 1
                  funext st source
                  rw [ih writer before (by omega), ih writer before before]

/-- The address and the type of a memory access. -/
def memoryAccess : TypedInstr → Option (String × MemoryAccessType)
  | .load _ _ address _ access => some (address, access)
  | .store address _ access => some (address, access)
  | .other _ _ => none

/-- The body of the loop of `InferPTXPointerTypesPass`; a writer stands in front of its use. -/
def inferPointerType (instrs : List TypedInstr) (flow : RegisterFlow) (st : Inference)
    (indexed : TypedInstr × Nat) : Inference :=
  match memoryAccess indexed.1 with
  | none => st
  | some (address, access) =>
      (propagatePointerType instrs flow access.toOpenclType (indexed.2 + 1) indexed.2 (lo address)
        ⟨st, ∅⟩).inference

def inferPointerTypes (flow : RegisterFlow) (st : Inference) (instrs : List TypedInstr) :
    Inference :=
  instrs.zipIdx.foldl (inferPointerType instrs flow) st

/-! ## Kernels one after the other -/

/-- The two maps in the metadata of `PassContext`; a fresh context has none of them. -/
structure PassContext where
  argumentTypes : PyDict Nat String
  pointerArgTypes : PyDict Nat String

def PassContext.fresh : PassContext := ⟨.empty, .empty⟩

/-- The type passes of `PTX_PRE_DECOMPILATION_PIPELINE` on one kernel. -/
def runTypePasses (context : PassContext) (kernel : Kernel) : PassContext × KernelArguments :=
  let flow := RegisterFlow.build kernel.instructions
  let vectors := inferArgumentTypes ⟨kernel.arguments, context.argumentTypes⟩ kernel.instructions
  let pointers :=
    inferPointerTypes flow ⟨vectors.arguments, context.pointerArgTypes⟩ kernel.instructions
  (⟨vectors.inferred, pointers.inferred⟩, pointers.arguments)

/-- The loop of `main` over the kernels of a file. -/
def runKernels : PassContext → List Kernel → List KernelArguments
  | _, [] => []
  | context, kernel :: rest =>
      (runTypePasses context kernel).2 :: runKernels (runTypePasses context kernel).1 rest

end OpenCLDecompiler.Ptx
