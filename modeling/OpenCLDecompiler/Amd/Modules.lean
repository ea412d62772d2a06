import Mathlib.Data.List.Dedup
import Mathlib.Data.List.Infix
import Mathlib.Data.List.Sort
import Mathlib.Logic.Function.Basic

/-!
# AMD modules

`parse_kernel` reads a file in one loop and yields the parts of a kernel when the
next one starts; `main` builds the IR of a kernel as soon as it is yielded.  The
buffers of the global data and the counters of temporary names are never reset.
-/

namespace OpenCLDecompiler.Amd

/-! ## Rows -/

/-- The operands `_parse_amd_operand` tells apart: `.gdata+32`, `offset:32` and all others. -/
inductive RawOperand where
  | gdata (offset : Nat)
  | offset (offset : Nat)
  | token (text : String)
  deriving DecidableEq, Repr

/-- A row without its comments, split into its first word and the words behind it. -/
structure Line where
  opcode : String
  operands : List RawOperand
  deriving DecidableEq, Repr

/-- `.kernel name`, `.config`, `.text`, `.gdata:` and all other rows. -/
inductive Row where
  | kernel (name : String)
  | config
  | text
  | gdata
  | line (line : Line)
  deriving DecidableEq, Repr

def RawOperand.gdata? : RawOperand → Option Nat
  | .gdata position => some position
  | _ => none

def RawOperand.token? : RawOperand → Option String
  | .token word => some word
  | _ => none

/-- `get_gdata_offset` of a row in which `.gdata` occurs. -/
def Line.reference (line : Line) : Option Nat := line.operands.findSome? RawOperand.gdata?

/-- What `get_global_data_bytes` adds for a row; the first word of a row is never data. -/
def Row.bytes : Row → List String
  | .kernel name => [name]
  | .line ⟨".fill", .token amount :: _ :: .token value :: _⟩ =>
      List.replicate (amount.toNat?.getD 0) value
  | .line row => row.operands.filterMap RawOperand.token?
  | _ => []

/-! ## The parser -/

inductive Status where
  | start
  | kernel
  | config
  | instruction
  | globalData
  deriving DecidableEq, Repr

/-- The variables of `parse_kernel`. -/
structure ParseState where
  status : Status
  name : String
  config : List Row
  instructions : List Line
  references : List Line
  bytes : List String

/-- What `parse_kernel` yields. -/
structure FunctionData where
  name : String
  config : List Row
  instructions : List Line
  bytes : List String
  references : List Line

def ParseState.init : ParseState := ⟨.start, "", [], [], [], []⟩

def ParseState.functionData (st : ParseState) : FunctionData :=
  ⟨st.name, st.config, st.instructions, st.bytes, st.references⟩

/-- The branches of the loop that depend on the status. -/
def ParseState.collect (st : ParseState) (row : Row) : ParseState :=
  match st.status, row with
  | .instruction, .line line =>
      { st with
        references := if line.reference.isSome then st.references ++ [line] else st.references
        instructions := st.instructions ++ [line] }
  | .config, row => { st with config := st.config ++ [row] }
  | .globalData, row => { st with bytes := st.bytes ++ row.bytes }
  | _, _ => st

/-- The body of the loop of `parse_kernel`, with what it yields. -/
def ParseState.step (st : ParseState) : Row → Option FunctionData × ParseState
  | .kernel name =>
      if st.status = .instruction then
        (some st.functionData,
          { st with status := .kernel, name := name, instructions := [], config := [] })
      else (none, { st with name := name }.collect (.kernel name))
  | .config => (none, { st with status := .config })
  | .text => (none, { st with status := .instruction })
  | .gdata => (none, { st with status := .globalData })
  | .line line => (none, st.collect (.line line))

/-- `parse_kernel`; the last kernel is yielded behind the loop. -/
def parseFrom (st : ParseState) : List Row → List FunctionData
  | [] => [st.functionData]
  | row :: rest => (st.step row).1.toList ++ parseFrom (st.step row).2 rest

def parseKernel (rows : List Row) : List FunctionData := parseFrom .init rows

/-! ## Global data -/

/-- The name `arr32__gdata` of the array at an offset. -/
structure GdataName where
  offset : Nat
  deriving DecidableEq, Repr

/-- `sorted(set(...))`. -/
def sortedSet (offsets : List Nat) : List Nat := offsets.dedup.insertionSort (· ≤ ·)

theorem mem_sortedSet {offset : Nat} {offsets : List Nat} :
    offset ∈ sortedSet offsets ↔ offset ∈ offsets := by
  simp [sortedSet]

theorem sortedSet_pairwise (offsets : List Nat) : (sortedSet offsets).Pairwise (· ≤ ·) :=
  List.pairwise_insertionSort _ _

theorem sortedSet_strict (offsets : List Nat) : (sortedSet offsets).Pairwise (· < ·) := by
  have nodup : (sortedSet offsets).Nodup :=
    (List.perm_insertionSort _ _).nodup_iff.mpr (List.nodup_dedup offsets)
  exact ((sortedSet_pairwise offsets).and nodup).imp fun both => Nat.lt_of_le_of_ne both.1 both.2

/-- `bytes[first:last]`. -/
def slice (bytes : List String) (first last : Nat) : List String :=
  (bytes.drop first).take (last - first)

/-- The arrays between the offsets; the last one goes to the end of the data. -/
def slices (bytes : List String) : List Nat → List (GdataName × List String)
  | [] => []
  | [offset] => [(⟨offset⟩, slice bytes offset bytes.length)]
  | offset :: next :: rest => (⟨offset⟩, slice bytes offset next) :: slices bytes (next :: rest)

def gdataOffsets (references : List Line) : List Nat :=
  sortedSet (references.filterMap Line.reference)

/-- `process_global_data`: the arrays of the kernel. -/
def processGlobalData (references : List Line) (bytes : List String) :
    List (GdataName × List String) :=
  slices bytes (gdataOffsets references)

/-- `offset_to_name.get(offset, get_gdata_name(offset))`. -/
def gdataName (references : List Line) (offset : Nat) : GdataName :=
  (((gdataOffsets references).find? (· = offset)).map GdataName.mk).getD ⟨offset⟩

/-! ## Instructions -/

/-- `TemporaryVariableAllocator._counters`. -/
abbrev Counters := String → Nat

/-- The name `__tmp_base_0` that `generate` makes of a prefix and its counter. -/
structure TempName where
  name : String
  count : Nat
  deriving DecidableEq, Repr

/-- `generate` for the temporaries of an instruction, in order. -/
def generate (counters : Counters) : List String → List TempName × Counters
  | [] => ([], counters)
  | name :: rest =>
      let later := generate (Function.update counters name (counters name + 1)) rest
      (⟨name, counters name⟩ :: later.1, later.2)

/-- An operand of an instruction: an array, a local memory, a register or a value. -/
inductive Operand where
  | gdata (name : GdataName)
  | lc (offset : Nat)
  | token (text : String)
  deriving DecidableEq, Repr

/--
The parts of `text_to_ir` that see one kernel only: `process_config`, and the
rule table, which gives the temporaries of an instruction and the IR instructions
that name them by their place.
-/
structure Lowering (κ ι : Type) where
  config : List Row → κ
  localSize : κ → Option Nat
  temps : String → List Operand → List String
  emit : String → List Operand → List ι

/-- The IR instructions of a row and the names of their temporaries. -/
structure Emitted (ι : Type) where
  instrs : List ι
  temps : List TempName
  deriving DecidableEq

/-- `Kernel` as `text_to_ir` leaves it. -/
structure IrKernel (κ ι : Type) where
  name : String
  config : κ
  globalMemory : List (GdataName × List String)
  instructions : List (Emitted ι)
  localMemory : Option (List (Nat × Int))
  deriving DecidableEq

section Lowering

variable {κ ι : Type}

/-- `_parse_amd_operand`. -/
def parseOperand (references : List Line) : RawOperand → Operand
  | .gdata position => .gdata (gdataName references position)
  | .offset position => .lc position
  | .token word => .token word

/-- `"ds" in opcode`. -/
def isDs (opcode : String) : Bool := decide (['d', 's'] <:+: opcode.toList)

/-- An instruction of local memory without an offset has the offset 0. -/
def Line.withOffset (line : Line) : Line :=
  match line.operands.getLast? with
  | some (.offset _) => line
  | _ => if isDs line.opcode then { line with operands := line.operands ++ [.offset 0] } else line

/-- `_parse_amd_instruction_line`; rows that start with the operand `m0` are skipped. -/
def parseInstructionLine (references : List Line) (line : Line) :
    Option (String × List Operand) :=
  match line.withOffset.operands with
  | .token "m0" :: _ :: _ => none
  | operands => some (line.opcode, operands.map (parseOperand references))

def localOffsets (instrs : List (String × List Operand)) : List Nat :=
  instrs.flatMap fun instr => instr.2.filterMap fun operand =>
    match operand with
    | .lc offset => some offset
    | _ => none

/-- The local memories between the offsets in `offset_map`; `none` is an exception. -/
def localMemory (offsets : List Nat) (localSize : Option Nat) : Option (List (Nat × Int)) :=
  match localSize with
  | none => if offsets = [] then some [] else none
  | some size =>
      let all := (offsets.dedup ++ [size]).insertionSort (· ≤ ·)
      (all.zip all.tail).mapM fun pair =>
        if pair.1 ∈ offsets then some (pair.1, (pair.2 : Int) - pair.1) else none

/-- The loop of `text_to_ir` over the instructions. -/
def emitAll (lowering : Lowering κ ι) (counters : Counters) :
    List (String × List Operand) → List (Emitted ι) × Counters
  | [] => ([], counters)
  | instr :: rest =>
      let temps := generate counters (lowering.temps instr.1 instr.2)
      let later := emitAll lowering temps.2 rest
      (⟨lowering.emit instr.1 instr.2, temps.1⟩ :: later.1, later.2)

/-- `text_to_ir`, with the counters it goes on from. -/
def textToIr (lowering : Lowering κ ι) (counters : Counters) (data : FunctionData) :
    IrKernel κ ι × Counters :=
  let instrs := data.instructions.filterMap (parseInstructionLine data.references)
  let emitted := emitAll lowering counters instrs
  ({ name := data.name
     config := lowering.config data.config
     globalMemory := processGlobalData data.references data.bytes
     instructions := emitted.1
     localMemory := localMemory (localOffsets instrs) (lowering.localSize (lowering.config data.config)) },
    emitted.2)

/-- The loop of `main` over the kernels of a file. -/
def buildKernels (lowering : Lowering κ ι) (counters : Counters) :
    List FunctionData → List (IrKernel κ ι)
  | [] => []
  | data :: rest =>
      (textToIr lowering counters data).1 ::
        buildKernels lowering (textToIr lowering counters data).2 rest

/-- The IR kernels of a file, built in a new process. -/
def buildModule (lowering : Lowering κ ι) (rows : List Row) : List (IrKernel κ ι) :=
  buildKernels lowering (fun _ => 0) (parseKernel rows)

end Lowering

/-! ## Modules -/

/-- A kernel of a module: its configuration and its instructions. -/
structure KernelText where
  name : String
  config : List Line
  text : List Line

def KernelText.rows (kernel : KernelText) : List Row :=
  .kernel kernel.name :: .config :: kernel.config.map .line ++ .text :: kernel.text.map .line

/-- A module as the disassembler writes it: a header, the global data and the kernels. -/
def moduleRows (header data : List Line) (kernels : List KernelText) : List Row :=
  header.map .line ++ .gdata :: data.map .line ++ kernels.flatMap KernelText.rows

end OpenCLDecompiler.Amd
