import OpenCLDecompiler.Amd.Modules
import OpenCLDecompiler.Library.Checked
import OpenCLDecompiler.Library.PyDict

/-!
# Local arrays

Every immediate offset of a ds instruction becomes a local memory of its own, which
ends where the next one starts.  `LocalMemory` gives it a variable, and the output
declares that many elements as fit between two offsets.  The address register only
chooses the element.
-/

namespace OpenCLDecompiler.Amd.LocalArrays

open Library

/-! ## The rules -/

inductive Temp where
  | base
  | index
  | address
  deriving DecidableEq, Repr

/-- The instructions that the rules for local memory emit. -/
inductive Ir where
  | mov (destination : Temp) (source : Operand)
  | cvt32To64 (destination : Temp) (source : Operand)
  | add (destination first second : Temp)
  | localStore (destination : Temp) (val : Operand)
  | localLoad (destination : Operand) (fromMem : Temp)
  | localAdd (destination : Temp) (val : Operand)
  deriving DecidableEq, Repr

/-- The part that the three rules share. -/
def localAddress (addr offset : Operand) : List Ir :=
  [.mov .base offset, .cvt32To64 .index addr, .add .address .base .index]

/-- `get_instruction_rule` for local memory; a missing operand is an exception. -/
def localRule (opcode : String) (operands : List Operand) : Option (List Ir) := do
  let first ← operands[0]?
  let second ← operands[1]?
  let offset ← operands[2]?
  match opcode with
  | "ds_write_b32" => some (localAddress first offset ++ [.localStore .address second])
  | "ds_add_u32" => some (localAddress first offset ++ [.localAdd .address second])
  | "ds_read_b32" => some (localAddress second offset ++ [.localLoad first .address])
  | _ => none

/-! ## LocalMemory and the declarations -/

/-- The parts of `DecompilerData` for local memory, and the registers of the local memories. -/
structure LdsState where
  localSize : Int
  ldsVars : PyDict Int Nat
  ldsVarNumber : Nat
  pointers : PyDict Nat Nat

/-- `set_config_data`. -/
def LdsState.init : LdsState := ⟨0, .empty, 0, .empty⟩

/-- `check_lds_vars`. -/
def LdsState.checkLdsVars (st : LdsState) (offset : Int) : LdsState :=
  match st.ldsVars.get? offset with
  | some _ => st
  | none => { st with
      ldsVars := st.ldsVars.set offset st.ldsVarNumber
      ldsVarNumber := st.ldsVarNumber + 1 }

/-- `LocalMemory.to_fill_node` for the local memory at an offset; `none` is a `KeyError`. -/
def LocalMemory.toFillNode (st : LdsState) (memory : Nat × Int) : Option LdsState :=
  let offset := st.localSize
  let checked := { st with localSize := offset + memory.2 }.checkLdsVars offset
  (checked.ldsVars.get? offset).map fun var =>
    { checked with pointers := checked.pointers.set memory.1 var }

/-- The bytes of a `uint`. -/
def elementSize : Int := 4

/-- The declarations of `create_opencl_body`: the variables and their numbers of elements. -/
def createOpenclBody (st : LdsState) : Option (List (Nat × Int)) :=
  let offsets := (st.ldsVars.keys ++ [st.localSize]).insertionSort (· ≤ ·)
  (offsets.zip offsets.tail).mapM fun pair =>
    (st.ldsVars.get? pair.1).map fun var => (var, (pair.2 - pair.1).tdiv elementSize)

/-! ## Accesses -/

/-- An element of a local array. -/
structure Element where
  array : Nat
  index : Nat
  deriving DecidableEq, Repr

/-- What a temporary of a rule holds. -/
inductive Value where
  | pointer (element : Element)
  | number (value : Nat)
  deriving DecidableEq, Repr

/-- The values of the temporaries; `registers` gives the values of the others. -/
structure Frame where
  st : LdsState
  registers : String → Nat
  temps : Temp → Option Value

def Frame.source (frame : Frame) : Operand → Option Value
  | .lc offset => (frame.st.pointers.get? offset).map fun var => .pointer ⟨var, 0⟩
  | .token text => some (.number (frame.registers text))
  | .gdata _ => none

def Frame.write (frame : Frame) (destination : Temp) (value : Value) : Frame :=
  { frame with temps := Function.update frame.temps destination (some value) }

/-- The addition of `VAdd`; an offset to a local pointer is divided by the size of an element. -/
def addValues : Value → Value → Option Value
  | .pointer element, .number value =>
      some (.pointer { element with index := element.index + value / elementSize.toNat })
  | .number first, .number second => some (.number (first + second))
  | _, _ => none

/-- The element that the rest of a rule accesses. -/
def Frame.accessed (frame : Frame) : List Ir → Option Element
  | [] => none
  | .mov destination source :: rest | .cvt32To64 destination source :: rest => do
      let value ← frame.source source
      (frame.write destination value).accessed rest
  | .add destination first second :: rest => do
      let value ← addValues (← frame.temps first) (← frame.temps second)
      (frame.write destination value).accessed rest
  | .localStore place _ :: _ | .localLoad _ place :: _ | .localAdd place _ :: _ =>
      match frame.temps place with
      | some (.pointer element) => some element
      | _ => none

/-- The element that an instruction accesses in the decompiled kernel. -/
def accessedElement (st : LdsState) (registers : String → Nat) (opcode : String)
    (operands : List Operand) : Option Element := do
  let instrs ← localRule opcode operands
  (Frame.mk st registers fun _ => none).accessed instrs

/-! ## Kernels -/

/-- A ds instruction with an address register and a data register. -/
inductive DsInstruction where
  | write (addr data0 : Nat)
  | read (vdst addr : Nat)
  | add (addr data0 : Nat)
  deriving DecidableEq, Repr

def vgpr (number : Nat) : String := "v" ++ toString number

namespace DsInstruction

def opcode : DsInstruction → String
  | write _ _ => "ds_write_b32"
  | read _ _ => "ds_read_b32"
  | add _ _ => "ds_add_u32"

def tokens : DsInstruction → List RawOperand
  | write addr data0 => [.token (vgpr addr), .token (vgpr data0)]
  | read vdst addr => [.token (vgpr vdst), .token (vgpr addr)]
  | add addr data0 => [.token (vgpr addr), .token (vgpr data0)]

/-- The register of the address. -/
def address : DsInstruction → String
  | write addr _ | read _ addr | add addr _ => vgpr addr

/-- The row of an instruction; the offset 0 can be left out. -/
inductive IsRow (instr : DsInstruction) : Nat → Line → Prop where
  | offset (offset : Nat) : IsRow instr offset ⟨instr.opcode, instr.tokens ++ [.offset offset]⟩
  | plain : IsRow instr 0 ⟨instr.opcode, instr.tokens⟩

end DsInstruction

/-- An execution of a row, with the values of the registers. -/
structure Access where
  line : Line
  instr : DsInstruction
  offset : Nat
  isRow : instr.IsRow offset line
  registers : String → Nat

namespace Access

/-- The value of the address register. -/
def address (access : Access) : Nat := access.registers access.instr.address

/-- The dword at this address of local memory is accessed. -/
def dword (access : Access) : Nat := access.address + access.offset

end Access

/-- The operands of the rows, as `text_to_ir` parses them. -/
def parsed (references lines : List Line) : List (String × List Operand) :=
  lines.filterMap (parseInstructionLine references)

/-- A kernel and the accesses of a run of it, all inside the declared size. -/
structure LocalRun where
  references : List Line
  lines : List Line
  localSize : Nat
  accesses : List Access
  isLine : ∀ access ∈ accesses, access.line ∈ lines
  inside : ∀ access ∈ accesses, access.dword < localSize
  offsets_lt : ∀ offset ∈ localOffsets (parsed references lines), offset < localSize

namespace LocalRun

variable (run : LocalRun)

def offsets : List Nat := localOffsets (parsed run.references run.lines)

/-- The state behind the local memories, and the declarations; `none` is an exception. -/
def decompiled : Option (LdsState × List (Nat × Int)) := do
  let memories ← localMemory run.offsets (some run.localSize)
  let st ← memories.foldlM LocalMemory.toFillNode .init
  let declared ← createOpenclBody st
  some (st, declared)

/-- The element that an access of the run becomes. -/
def element (st : LdsState) (access : Access) : Option Element := do
  let (opcode, operands) ← parseInstructionLine run.references access.line
  accessedElement st access.registers opcode operands

/-- The same dwords are the same elements, and all elements are inside their arrays. -/
def ElementsRight : Prop :=
  ∃ st declared, run.decompiled = some (st, declared) ∧
    (∀ first ∈ run.accesses, ∀ second ∈ run.accesses,
      first.dword = second.dword ↔ run.element st first = run.element st second) ∧
    ∀ access ∈ run.accesses, ∃ element count, run.element st access = some element ∧
      (element.array, count) ∈ declared ∧ (element.index : Int) < count

/-- The offset behind an offset, or the end of local memory. -/
def next (offset : Nat) : Nat := ((sortedSet run.offsets).find? (offset < ·)).getD run.localSize

/-- No access reaches the next offset. -/
def StaysBelowNext : Prop :=
  ∀ access ∈ run.accesses, 4 * (access.address / 4) + 4 + access.offset ≤ run.next access.offset

/-- Addresses for one offset that differ only below the dword are not both used. -/
def WholeDwords : Prop :=
  ∀ first ∈ run.accesses, ∀ second ∈ run.accesses, first.offset = second.offset →
    first.address / 4 = second.address / 4 → first.address = second.address

end LocalRun

/-! ## The local memories -/

section Memories

variable {size : Nat} {offsets : List Nat}

/-- The offset behind an offset in a list. -/
def nextIn (size : Nat) (offsets : List Nat) (offset : Nat) : Nat :=
  (offsets.find? (offset < ·)).getD size

theorem sorted_append_size {list : List Int} {last : Int} (sorted : list.Pairwise (· < ·))
    (below : ∀ entry ∈ list, entry < last) :
    (list ++ [last]).insertionSort (· ≤ ·) = list ++ [last] := by
  refine List.Pairwise.insertionSort_eq (List.pairwise_append.mpr ⟨?_, List.pairwise_singleton _ _, ?_⟩)
  · exact sorted.imp fun less => less.le
  · intro entry inside other isLast
    rw [List.mem_singleton.mp isLast]
    exact (below entry inside).le

/-- The declared size comes last. -/
theorem sort_offsets (below : ∀ offset ∈ offsets, offset < size) :
    (offsets.dedup ++ [size]).insertionSort (· ≤ ·) = sortedSet offsets ++ [size] := by
  refine List.Perm.eq_of_pairwise (fun _ _ _ _ => Nat.le_antisymm) (List.pairwise_insertionSort _ _)
    (List.pairwise_append.mpr ⟨sortedSet_pairwise offsets, List.pairwise_singleton _ _, ?_⟩) ?_
  · intro offset inside last isLast
    rw [List.mem_singleton.mp isLast]
    exact (below offset (mem_sortedSet.mp inside)).le
  · exact (List.perm_insertionSort _ _).trans
      ((List.perm_insertionSort _ offsets.dedup).symm.append_right _)

/-- Each offset stands before the next one. -/
theorem zip_tail_eq (sorted : offsets.Pairwise (· < ·)) :
    (offsets ++ [size]).zip (offsets ++ [size]).tail =
      offsets.map fun offset => (offset, nextIn size offsets offset) := by
  induction offsets with
  | nil => rfl
  | cons first rest ih =>
      obtain ⟨before, sortedRest⟩ := List.pairwise_cons.mp sorted
      have others : rest.map (fun offset => (offset, nextIn size (first :: rest) offset)) =
          rest.map fun offset => (offset, nextIn size rest offset) := by
        refine List.map_congr_left fun offset inside => ?_
        have behind : ¬offset < first := Nat.not_lt_of_gt (before offset inside)
        simp [nextIn, behind]
      rw [List.map_cons, others, ← ih sortedRest]
      cases rest with
      | nil => simp [nextIn]
      | cons second rest =>
          have next : nextIn size (first :: second :: rest) first = second := by
            simp [nextIn, before second List.mem_cons_self]
          rw [next]
          rfl

theorem localMemory_eq (below : ∀ offset ∈ offsets, offset < size) :
    localMemory offsets (some size) = some ((sortedSet offsets).map fun offset =>
      (offset, (nextIn size (sortedSet offsets) offset : Int) - offset)) := by
  simp only [localMemory, sort_offsets below, zip_tail_eq (sortedSet_strict offsets)]
  have each : ∀ pair ∈ (sortedSet offsets).map (fun offset =>
        (offset, nextIn size (sortedSet offsets) offset)),
      (if pair.1 ∈ offsets then some (pair.1, (pair.2 : Int) - pair.1) else none) =
        some (pair.1, (pair.2 : Int) - pair.1) := by
    intro pair inside
    obtain ⟨offset, member, rfl⟩ := List.mem_map.mp inside
    exact if_pos (mem_sortedSet.mp member)
  rw [Checked.mapM_eq_some_map each, List.map_map]
  rfl

theorem lt_nextIn (below : ∀ offset ∈ offsets, offset < size) {offset : Nat} (inside : offset ∈ offsets) :
    offset < nextIn size offsets offset := by
  rw [nextIn]
  cases found : offsets.find? (offset < ·) with
  | none => exact below offset inside
  | some next => exact of_decide_eq_true (List.find?_some (p := (offset < ·)) found)

/-- No offset lies between an offset and the next one. -/
theorem nextIn_le (sorted : offsets.Pairwise (· < ·)) {offset other : Nat} (inside : other ∈ offsets)
    (less : offset < other) : nextIn size offsets offset ≤ other := by
  induction offsets with
  | nil => cases inside
  | cons first rest ih =>
      obtain ⟨before, sortedRest⟩ := List.pairwise_cons.mp sorted
      by_cases behind : offset < first
      · have next : nextIn size (first :: rest) offset = first := by simp [nextIn, behind]
        rw [next]
        rcases List.mem_cons.mp inside with rfl | later
        · exact Nat.le_refl _
        · exact (before other later).le
      · have next : nextIn size (first :: rest) offset = nextIn size rest offset := by
          simp [nextIn, behind]
        rw [next]
        rcases List.mem_cons.mp inside with rfl | later
        · exact absurd less behind
        · exact ih sortedRest later

end Memories

/-! ## The variables -/

/-- A local memory with its start in the second table of offsets and its variable. -/
structure Placed where
  start : Int
  var : Nat
  size : Int

/-- The variable and its number of elements. -/
def Placed.declaration (placed : Placed) : Nat × Int := (placed.var, placed.size.tdiv elementSize)

/-- The local memories one behind another. -/
def place (start : Int) (var : Nat) : List (Nat × Int) → List Placed
  | [] => []
  | memory :: rest => ⟨start, var, memory.2⟩ :: place (start + memory.2) (var + 1) rest

/-- The end of the last local memory. -/
def placeEnd (start : Int) : List (Nat × Int) → Int
  | [] => start
  | memory :: rest => placeEnd (start + memory.2) rest

section Place

variable {memories : List (Nat × Int)} {start : Int} {var : Nat}

theorem le_placeEnd (positive : ∀ memory ∈ memories, 0 < memory.2) : start ≤ placeEnd start memories := by
  induction memories generalizing start with
  | nil => exact le_rfl
  | cons memory rest ih =>
      obtain ⟨here, later⟩ := List.forall_mem_cons.mp positive
      exact (by omega : start ≤ start + memory.2).trans (ih later)

theorem mem_place (positive : ∀ memory ∈ memories, 0 < memory.2) :
    ∀ placed ∈ place start var memories, start ≤ placed.start ∧ placed.start < placeEnd start memories := by
  induction memories generalizing start var with
  | nil => exact fun _ inside => by cases inside
  | cons memory rest ih =>
      obtain ⟨here, later⟩ := List.forall_mem_cons.mp positive
      refine List.forall_mem_cons.mpr ⟨⟨le_rfl, ?_⟩, fun placed inside => ?_⟩
      · have behind := @le_placeEnd rest (start + memory.2) later
        exact (by omega : start < start + memory.2).trans_le behind
      · obtain ⟨behind, before⟩ := ih later placed inside
        exact ⟨by omega, before⟩

theorem place_sorted (positive : ∀ memory ∈ memories, 0 < memory.2) :
    ((place start var memories).map Placed.start).Pairwise (· < ·) := by
  induction memories generalizing start var with
  | nil => exact List.Pairwise.nil
  | cons memory rest ih =>
      obtain ⟨here, later⟩ := List.forall_mem_cons.mp positive
      refine List.pairwise_cons.mpr ⟨fun other inside => ?_, ih later⟩
      obtain ⟨placed, member, rfl⟩ := List.mem_map.mp inside
      have behind := (mem_place later placed member).1
      show start < placed.start
      omega

/-- The second table of offsets gives the sizes back. -/
theorem zip_tail_place :
    ((place start var memories).map Placed.start ++ [placeEnd start memories]).zip
        ((place start var memories).map Placed.start ++ [placeEnd start memories]).tail =
      (place start var memories).map fun placed => (placed.start, placed.start + placed.size) := by
  induction memories generalizing start var with
  | nil => rfl
  | cons memory rest ih =>
      rw [place, List.map_cons, List.map_cons, ← ih]
      cases rest <;> rfl

theorem place_getElem? (i : Nat) :
    ((place start var memories)[i]?).map (fun placed => (placed.var, placed.size)) =
      (memories[i]?).map fun memory => (var + i, memory.2) := by
  induction memories generalizing start var i with
  | nil => rfl
  | cons memory rest ih =>
      cases i with
      | zero => rfl
      | succ i =>
          rw [place, List.getElem?_cons_succ, List.getElem?_cons_succ, ih, Nat.add_right_comm]
          rfl

theorem mem_declaration_iff (array : Nat) (count : Int) :
    (array, count) ∈ (place start 0 memories).map Placed.declaration ↔
      ∃ memory, memories[array]? = some memory ∧ count = memory.2.tdiv elementSize := by
  have entries (i : Nat) : ((place start 0 memories).map Placed.declaration)[i]? =
      (memories[i]?).map fun memory => (i, memory.2.tdiv elementSize) := by
    have sizes := congrArg (Option.map fun entry : Nat × Int => (entry.1, entry.2.tdiv elementSize))
      (@place_getElem? memories start 0 i)
    rw [Option.map_map, Option.map_map, Nat.zero_add] at sizes
    rw [List.getElem?_map]
    exact sizes
  rw [List.mem_iff_getElem?]
  constructor
  · rintro ⟨i, there⟩
    rw [entries] at there
    obtain ⟨memory, here, same⟩ := Option.map_eq_some_iff.mp there
    cases same
    exact ⟨memory, here, rfl⟩
  · rintro ⟨memory, here, rfl⟩
    exact ⟨array, by rw [entries, here]; rfl⟩

end Place

/-- The state behind one more local memory. -/
structure Adds (st : LdsState) (memory : Nat × Int) (next : LdsState) : Prop where
  localSize : next.localSize = st.localSize + memory.2
  entries : next.ldsVars.entries = st.ldsVars.entries ++ [(st.localSize, st.ldsVarNumber)]
  number : next.ldsVarNumber = st.ldsVarNumber + 1
  pointers : next.pointers = st.pointers.set memory.1 st.ldsVarNumber

theorem toFillNode_adds {st : LdsState} (fresh : ∀ key ∈ st.ldsVars.keys, key < st.localSize)
    (memory : Nat × Int) : ∃ next, LocalMemory.toFillNode st memory = some next ∧ Adds st memory next := by
  have absent : st.localSize ∉ st.ldsVars.keys := fun inside => (fresh _ inside).false
  have nothing : st.ldsVars.get? st.localSize = none := by
    by_contra something
    obtain ⟨var, found⟩ := Option.ne_none_iff_exists'.mp something
    exact absent ((PyDict.mem_keys_iff _ _).mpr ⟨var, found⟩)
  simp only [LocalMemory.toFillNode, LdsState.checkLdsVars, nothing, PyDict.get?_set_self,
    Option.map_some]
  exact ⟨_, rfl, rfl, PyDict.setEntry_of_notMem absent, rfl, rfl⟩

/-- The state behind all local memories. -/
structure Filled (st : LdsState) (memories : List (Nat × Int)) (final : LdsState) : Prop where
  localSize : final.localSize = placeEnd st.localSize memories
  entries : final.ldsVars.entries = st.ldsVars.entries ++
    (place st.localSize st.ldsVarNumber memories).map fun placed => (placed.start, placed.var)
  others : ∀ name ∉ memories.map Prod.fst, final.pointers.get? name = st.pointers.get? name
  pointers : ∀ i memory, memories[i]? = some memory →
    final.pointers.get? memory.1 = some (st.ldsVarNumber + i)

theorem foldlM_filled {st : LdsState} (fresh : ∀ key ∈ st.ldsVars.keys, key < st.localSize)
    {memories : List (Nat × Int)} (nodup : (memories.map Prod.fst).Nodup)
    (positive : ∀ memory ∈ memories, 0 < memory.2) :
    ∃ final, memories.foldlM LocalMemory.toFillNode st = some final ∧ Filled st memories final := by
  induction memories generalizing st with
  | nil =>
      refine ⟨st, rfl, rfl, (List.append_nil _).symm, fun _ _ => rfl, ?_⟩
      rintro i memory ⟨⟩
  | cons memory rest ih =>
      obtain ⟨here, later⟩ := List.forall_mem_cons.mp positive
      rw [List.map_cons, List.nodup_cons] at nodup
      obtain ⟨next, ran, adds⟩ := toFillNode_adds fresh memory
      have freshNext : ∀ key ∈ next.ldsVars.keys, key < next.localSize := by
        intro key inside
        rw [PyDict.keys, adds.entries, List.map_append, List.mem_append] at inside
        rw [adds.localSize]
        rcases inside with old | new
        · have less := fresh key old
          omega
        · rw [List.mem_singleton.mp new]
          omega
      obtain ⟨final, runs, filled⟩ := ih freshNext nodup.2 later
      have pointer : final.pointers.get? memory.1 = some st.ldsVarNumber := by
        rw [filled.others _ nodup.1, adds.pointers, PyDict.get?_set_self]
      refine ⟨final, ?_, ?_, ?_, ?_, ?_⟩
      · rw [List.foldlM_cons, ran]
        exact runs
      · rw [filled.localSize, adds.localSize]
        rfl
      · rw [filled.entries, adds.entries, adds.localSize, adds.number, List.append_assoc]
        rfl
      · intro name other
        rw [List.map_cons, List.mem_cons, not_or] at other
        rw [filled.others name other.2, adds.pointers, PyDict.get?_set_of_ne _ other.1]
      · intro i other there
        cases i with
        | zero =>
            cases there
            exact pointer
        | succ i =>
            have number := filled.pointers i other there
            rwa [adds.number, Nat.add_right_comm] at number

/-- The declarations are those of the local memories. -/
theorem createOpenclBody_filled {memories : List (Nat × Int)} {final : LdsState}
    (positive : ∀ memory ∈ memories, 0 < memory.2) (filled : Filled .init memories final) :
    createOpenclBody final = some ((place 0 0 memories).map Placed.declaration) := by
  have entries : final.ldsVars.entries =
      (place 0 0 memories).map fun placed => (placed.start, placed.var) := filled.entries
  have keys : final.ldsVars.keys = (place 0 0 memories).map Placed.start := by
    rw [PyDict.keys, entries, List.map_map]
    rfl
  have size : final.localSize = placeEnd 0 memories := filled.localSize
  have sorted : (final.ldsVars.keys ++ [final.localSize]).insertionSort (· ≤ ·) =
      (place 0 0 memories).map Placed.start ++ [placeEnd 0 memories] := by
    rw [keys, size]
    refine sorted_append_size (place_sorted positive) fun key inside => ?_
    obtain ⟨placed, member, rfl⟩ := List.mem_map.mp inside
    exact (mem_place positive placed member).2
  simp only [createOpenclBody, sorted, zip_tail_place]
  rw [List.mapM_map]
  refine Checked.mapM_eq_some_map fun placed member => ?_
  have entry : (placed.start, placed.var) ∈ final.ldsVars.entries :=
    entries ▸ List.mem_map_of_mem member
  have var : final.ldsVars.get? placed.start = some placed.var := PyDict.get?_of_mem _ entry
  have distance : placed.start + placed.size - placed.start = placed.size := by omega
  simp only [Function.comp_apply, var, Option.map_some, distance, Placed.declaration]

/-! ## Elements -/

theorem vgpr_ne (number : Nat) : vgpr number ≠ "m0" := by
  intro same
  have letters := congrArg String.toList same
  rw [vgpr, String.toList_append] at letters
  exact absurd (List.cons.inj letters).1 (by decide)

namespace DsInstruction

variable {instr : DsInstruction} {offset : Nat} {line : Line}

theorem isDs_opcode (instr : DsInstruction) : isDs instr.opcode = true := by
  cases instr with
  | write => exact (by decide : isDs "ds_write_b32" = true)
  | read => exact (by decide : isDs "ds_read_b32" = true)
  | add => exact (by decide : isDs "ds_add_u32" = true)

theorem withOffset_isRow (isRow : instr.IsRow offset line) :
    line.withOffset = ⟨instr.opcode, instr.tokens ++ [.offset offset]⟩ := by
  cases isRow with
  | offset offset => simp [Line.withOffset]
  | plain =>
      rw [Line.withOffset]
      simp only [isDs_opcode]
      cases instr <;> rfl

/-- The operands of a row end with the offset. -/
theorem parse_isRow (isRow : instr.IsRow offset line) (references : List Line) :
    parseInstructionLine references line =
      some (instr.opcode, instr.tokens.map (parseOperand references) ++ [.lc offset]) := by
  have opcode : line.opcode = instr.opcode := by cases isRow <;> rfl
  rw [parseInstructionLine, withOffset_isRow isRow, opcode]
  cases instr <;> simp [tokens, vgpr_ne, parseOperand]

end DsInstruction

variable {run : LocalRun} {access : Access}

theorem mem_offsets (inside : access ∈ run.accesses) : access.offset ∈ run.offsets := by
  have row : (access.instr.opcode, _) ∈ parsed run.references run.lines :=
    List.mem_filterMap.mpr ⟨access.line, run.isLine access inside,
      DsInstruction.parse_isRow access.isRow run.references⟩
  refine List.mem_flatMap.mpr ⟨_, row, List.mem_filterMap.mpr ⟨.lc access.offset, ?_, rfl⟩⟩
  exact List.mem_append_right _ List.mem_cons_self

/-- The instructions in front of an access leave the element in the temporary of the address. -/
theorem accessed_localAddress {st : LdsState} {offset var : Nat} (registers : String → Nat)
    (text : String) (pointer : st.pointers.get? offset = some var) :
    ∃ after : Frame, after.temps .address = some (.pointer ⟨var, registers text / 4⟩) ∧
      ∀ rest, (Frame.mk st registers fun _ => none).accessed
        (localAddress (.token text) (.lc offset) ++ rest) = after.accessed rest := by
  let element : Element := ⟨var, registers text / 4⟩
  refine ⟨(((Frame.mk st registers fun _ => none).write .base (.pointer ⟨var, 0⟩)).write .index
    (.number (registers text))).write .address (.pointer element), ?_, fun rest => ?_⟩
  · simp [Frame.write, element]
  · simp [localAddress, Frame.accessed, Frame.source, Frame.write, pointer, addValues, elementSize,
      element]

/-- The address register chooses the element of the array of the offset. -/
theorem element_eq {st : LdsState} {var : Nat} (pointer : st.pointers.get? access.offset = some var) :
    run.element st access = some ⟨var, access.address / 4⟩ := by
  have parse := DsInstruction.parse_isRow access.isRow run.references
  obtain ⟨after, held, runs⟩ :=
    accessed_localAddress access.registers access.instr.address pointer
  rw [LocalRun.element, parse, Access.address]
  cases instr : access.instr <;> rw [instr] at held runs <;>
    exact (runs _).trans (by rw [Frame.accessed, held])

/-! ## The arrays of a run -/

def memories (run : LocalRun) : List (Nat × Int) :=
  (sortedSet run.offsets).map fun offset => (offset, (run.next offset : Int) - offset)

theorem sortedSet_lt (run : LocalRun) : ∀ offset ∈ sortedSet run.offsets, offset < run.localSize :=
  fun offset inside => run.offsets_lt offset (mem_sortedSet.mp inside)

theorem lt_next (run : LocalRun) {offset : Nat} (inside : offset ∈ run.offsets) : offset < run.next offset :=
  lt_nextIn (sortedSet_lt run) (mem_sortedSet.mpr inside)

theorem next_le (run : LocalRun) {offset other : Nat} (inside : other ∈ run.offsets)
    (less : offset < other) : run.next offset ≤ other :=
  nextIn_le (sortedSet_strict run.offsets) (mem_sortedSet.mpr inside) less

/-- The array of an offset is the one at its place among the offsets. -/
structure Decompiled (run : LocalRun) (st : LdsState) (declared : List (Nat × Int)) : Prop where
  runs : run.decompiled = some (st, declared)
  pointers : ∀ offset ∈ run.offsets,
    st.pointers.get? offset = some ((sortedSet run.offsets).idxOf offset)
  declared : ∀ offset ∈ run.offsets, ∀ count,
    ((sortedSet run.offsets).idxOf offset, count) ∈ declared ↔
      count = ((run.next offset : Int) - offset).tdiv elementSize

theorem exists_decompiled (run : LocalRun) : ∃ st declared, Decompiled run st declared := by
  have positive : ∀ memory ∈ memories run, 0 < memory.2 := by
    intro memory inside
    obtain ⟨offset, member, rfl⟩ := List.mem_map.mp inside
    have less := lt_next run (mem_sortedSet.mp member)
    show (0 : Int) < run.next offset - offset
    omega
  have names : (memories run).map Prod.fst = sortedSet run.offsets := by
    rw [memories, List.map_map]
    exact List.map_id _
  have nodup : (sortedSet run.offsets).Nodup := (sortedSet_strict run.offsets).imp Nat.ne_of_lt
  have fresh : ∀ key ∈ LdsState.init.ldsVars.keys, key < LdsState.init.localSize :=
    fun _ inside => by cases inside
  obtain ⟨final, ran, filled⟩ := foldlM_filled fresh (names ▸ nodup) positive
  have here : ∀ offset ∈ run.offsets, (memories run)[(sortedSet run.offsets).idxOf offset]? =
      some (offset, (run.next offset : Int) - offset) := by
    intro offset inside
    rw [memories, List.getElem?_map, List.getElem?_idxOf (mem_sortedSet.mpr inside)]
    rfl
  refine ⟨final, (place 0 0 (memories run)).map Placed.declaration, ?_, ?_, ?_⟩
  · have built : localMemory run.offsets (some run.localSize) = some (memories run) :=
      localMemory_eq run.offsets_lt
    simp only [LocalRun.decompiled, built, Option.bind_eq_bind, Option.bind_some, ran,
      createOpenclBody_filled positive filled]
  · intro offset inside
    have pointer := filled.pointers _ _ (here offset inside)
    rwa [show LdsState.init.ldsVarNumber = 0 from rfl, Nat.zero_add] at pointer
  · intro offset inside count
    rw [mem_declaration_iff, here offset inside]
    simp

section Right

variable {st : LdsState} {declared : List (Nat × Int)}

theorem element_of_decompiled (decompiled : Decompiled run st declared) (inside : access ∈ run.accesses) :
    run.element st access = some ⟨(sortedSet run.offsets).idxOf access.offset, access.address / 4⟩ :=
  element_eq (decompiled.pointers _ (mem_offsets inside))

theorem same_element_iff (decompiled : Decompiled run st declared) {first second : Access}
    (here : first ∈ run.accesses) (there : second ∈ run.accesses) :
    run.element st first = run.element st second ↔
      first.offset = second.offset ∧ first.address / 4 = second.address / 4 := by
  rw [element_of_decompiled decompiled here, element_of_decompiled decompiled there,
    Option.some.injEq, Element.mk.injEq,
    List.idxOf_inj (mem_sortedSet.mpr (mem_offsets here))]

/-- The element is declared exactly if the access ends below the next offset. -/
theorem isDeclared_iff (decompiled : Decompiled run st declared) (inside : access ∈ run.accesses) :
    (∃ element count, run.element st access = some element ∧ (element.array, count) ∈ declared ∧
        (element.index : Int) < count) ↔
      4 * (access.address / 4) + 4 + access.offset ≤ run.next access.offset := by
  have less := lt_next run (mem_offsets inside)
  have quotient : ((run.next access.offset : Int) - access.offset).tdiv elementSize =
      ((run.next access.offset - access.offset) / 4 : Nat) := by
    rw [← Int.ofNat_sub less.le]
    rfl
  rw [element_of_decompiled decompiled inside]
  constructor
  · rintro ⟨element, count, ⟨⟩, member, small⟩
    rw [decompiled.declared _ (mem_offsets inside)] at member
    rw [member, quotient, Int.ofNat_lt] at small
    dsimp only at small
    omega
  · intro below
    refine ⟨_, _, rfl, (decompiled.declared _ (mem_offsets inside) _).mpr rfl, ?_⟩
    rw [quotient, Int.ofNat_lt]
    show access.address / 4 < _
    omega

/-- Accesses that stay below the next offset touch the same dword only through the same offset. -/
theorem offset_eq_of_dword_eq (stays : run.StaysBelowNext) {first second : Access}
    (here : first ∈ run.accesses) (there : second ∈ run.accesses) (same : first.dword = second.dword) :
    first.offset = second.offset := by
  have firstBelow := stays first here
  have secondBelow := stays second there
  rw [Access.dword, Access.dword] at same
  rcases Nat.lt_trichotomy first.offset second.offset with less | equal | less
  · have apart := next_le run (mem_offsets there) less
    omega
  · exact equal
  · have apart := next_le run (mem_offsets here) less
    omega

end Right

/-- `ds_write_b32 v2, v3` where v2 is 256. -/
def pastTheEnd : Access where
  line := ⟨"ds_write_b32", [.token "v2", .token "v3"]⟩
  instr := .write 2 3
  offset := 0
  isRow := .plain
  registers _ := 256

/-- `ds_write_b32 v4, v3 offset:256` where v4 is 0. -/
def atTheNext : Access where
  line := ⟨"ds_write_b32", [.token "v4", .token "v3", .offset 256]⟩
  instr := .write 4 3
  offset := 256
  isRow := .offset 256
  registers _ := 0

/-- One array of 512 bytes, the second half of which is accessed in both ways. -/
def twoOffsets : LocalRun where
  references := []
  lines := [pastTheEnd.line, atTheNext.line]
  localSize := 512
  accesses := [pastTheEnd, atTheNext]
  isLine := by simp
  inside := by decide
  offsets_lt := by decide

end OpenCLDecompiler.Amd.LocalArrays
