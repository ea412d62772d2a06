import OpenCLDecompiler.Library.Search
import OpenCLDecompiler.Library.Settles
import OpenCLDecompiler.Ptx.SharedContext

/-!
# The types of pointer parameters

`InferPTXPointerTypesPass` follows the address of every memory access back through the
instructions that define it.  A pointer parameter gets the type of the first access that
goes back to a load of it.
-/

namespace OpenCLDecompiler.Ptx

open Library

/-! ## The pass -/

/-- One turn of the loop over the operands of a writer. -/
def propagateSource (walk : String → Search → Option (Search × Bool)) (st : Search × Bool)
    (source : Register) : Option (Search × Bool) :=
  (walk source.first st.1).map fun (after, updated) => (after, updated || st.2)

/--
`_propagate_pointer_type` with its result.  There is no result when the bound on the depth
of the recursion is used up, or when there is no instruction at a place (an `IndexError`).
-/
def propagatePointerTypeWithin (instrs : List TypedInstr) (flow : RegisterFlow) (typeName : String) :
    Nat → Nat → String → Search → Option (Search × Bool)
  | 0, _, _, _ => none
  | bound + 1, use, register, st =>
      if (use, register) ∈ st.visited then some (st, false)
      else
        let st : Search := { st with visited := insert (use, register) st.visited }
        match flow.getWriter use register with
        | none => some (st, false)
        | some writer => match instrs[writer]? with
          | none => none
          | some instr =>
              let (inference, updated) := tryUpdateArgumentFromLoad st.inference instr typeName
              if updated then some ({ st with inference := inference }, true)
              else instr.readRegisters.foldlM
                (propagateSource (propagatePointerTypeWithin instrs flow typeName bound writer))
                ({ st with inference := inference }, false)

/-- What the loop of `InferPTXPointerTypesPass` changes; the count goes into the metadata. -/
structure PointerTypes where
  inference : Inference
  inferredCount : Nat

/-- The body of the loop. -/
def inferPointerTypeWithin (instrs : List TypedInstr) (flow : RegisterFlow) (bound : Nat)
    (st : PointerTypes) (indexed : TypedInstr × Nat) : Option PointerTypes :=
  match memoryAccess indexed.1 with
  | none => some st
  | some (address, access) => do
      let (search, updated) ← propagatePointerTypeWithin instrs flow access.toOpenclType bound
        indexed.2 (lo address) ⟨st.inference, ∅⟩
      return ⟨search.inference, if updated then st.inferredCount + 1 else st.inferredCount⟩

/-- The first iterations of the pass over a kernel, with a fresh context. -/
def Kernel.inferPointerTypesWithin (kernel : Kernel) (count bound : Nat) : Option PointerTypes :=
  (kernel.instructions.zipIdx.take count).foldlM
    (inferPointerTypeWithin kernel.instructions (RegisterFlow.build kernel.instructions) bound)
    ⟨⟨kernel.arguments, .empty⟩, 0⟩

/-! ## What it is for -/

/-- The instruction is the last one in front of `use` that writes the register. -/
structure LastWriter (instrs : List TypedInstr) (use : Nat) (register : String) (writer : Nat)
    (instr : TypedInstr) : Prop where
  here : instrs[writer]? = some instr
  before : writer < use
  writes : register ∈ instr.writtenNames
  last : ∀ between later, writer < between → between < use → instrs[between]? = some later →
    register ∉ later.writtenNames

/-- The instruction is on a chain of definitions behind what `use` reads in the register. -/
inductive DefinedBy (instrs : List TypedInstr) : Nat → String → TypedInstr → Prop where
  | writer {use writer : Nat} {register : String} {origin : TypedInstr}
      (last : LastWriter instrs use register writer origin) : DefinedBy instrs use register origin
  | operand {use writer : Nat} {register : String} {instr origin : TypedInstr} {source : Register}
      (last : LastWriter instrs use register writer instr) (isRead : source ∈ instr.readRegisters)
      (behind : DefinedBy instrs writer source.first origin) : DefinedBy instrs use register origin

/-- A 64-bit load of the parameter at the offset from the parameter pointer. -/
def LoadsParameter (offset : Nat) (instr : TypedInstr) : Prop :=
  ∃ flat destination access, instr = .load flat destination "argptr" (some offset) access ∧
    max 32 access.totalBits = pointerSizeBits

/-- The instruction at `index` accesses memory of the type through the parameter at the offset. -/
def AccessesParameter (instrs : List TypedInstr) (offset index : Nat) (access : MemoryAccessType) :
    Prop :=
  ∃ instr address origin, instrs[index]? = some instr ∧ memoryAccess instr = some (address, access) ∧
    DefinedBy instrs index (lo address) origin ∧ LoadsParameter offset origin

structure FirstAccess (instrs : List TypedInstr) (offset index : Nat) (access : MemoryAccessType) :
    Prop where
  accesses : AccessesParameter instrs offset index access
  first : ∀ earlier other, AccessesParameter instrs offset earlier other → index ≤ earlier

/-- The argument after the first `count` instructions. -/
structure TypedAfter (instrs : List TypedInstr) (count : Nat) (before after : KernelArgument) :
    Prop where
  scalar : before.name.pointer = false → after = before
  unused : (∀ index access, ¬AccessesParameter instrs before.offset index access) → after = before
  used : ∀ index access, before.name.pointer = true →
    FirstAccess instrs before.offset index access →
    after = if index < count then { before with typeName := access.toOpenclType, size := 8 } else before

/-! ## The end of the recursion -/

section Within

variable {instrs : List TypedInstr} {typeName : String}

/-- The places on the way fall, so that a bound above the place of the use is large enough. -/
theorem propagatePointerTypeWithin_enough {use bound : Nat} (enough : use < bound)
    (register : String) (st : Search) :
    propagatePointerTypeWithin instrs (RegisterFlow.build instrs) typeName bound use register st =
      propagatePointerTypeWithin instrs (RegisterFlow.build instrs) typeName (use + 1) use register
        st := by
  induction use using Nat.strong_induction_on generalizing bound register st with
  | h use ih =>
      obtain ⟨more, rfl⟩ := Nat.exists_eq_succ_of_ne_zero (Nat.ne_of_gt (Nat.zero_lt_of_lt enough))
      unfold propagatePointerTypeWithin
      split
      · rfl
      · dsimp only
        cases found : (RegisterFlow.build instrs).getWriter use register with
        | none => rfl
        | some writer =>
            have before := (RegisterFlow.getWriter_build found).1
            dsimp only
            cases instrs[writer]? with
            | none => rfl
            | some instr =>
                dsimp only
                split
                · rfl
                · congr 2
                  funext register st
                  rw [ih writer before (by omega), ih writer before before]

theorem getElem?_of_lastWriterBefore {use writer : Nat} {name : String}
    (found : RegisterFlow.lastWriterBefore instrs use name = some writer) :
    ∃ instr, instrs[writer]? = some instr ∧ name ∈ instr.writtenNames := by
  obtain ⟨-, written, -⟩ := RegisterFlow.lastWriterBefore_eq_some.mp found
  rw [RegisterFlow.writtenAt] at written
  cases here : instrs[writer]? with
  | none =>
      rw [here] at written
      cases written
  | some instr =>
      rw [here] at written
      exact ⟨instr, rfl, written⟩

/-- The search ends, in the state of `propagatePointerType`. -/
theorem exists_propagatePointerTypeWithin {bound use : Nat} (enough : use < bound)
    (register : String) (st : Search) :
    ∃ updated, propagatePointerTypeWithin instrs (RegisterFlow.build instrs) typeName bound use
        register st =
      some (propagatePointerType instrs (RegisterFlow.build instrs) typeName bound use register st,
        updated) := by
  induction bound generalizing use register st with
  | zero => exact absurd enough (Nat.not_lt_zero _)
  | succ bound ih =>
      unfold propagatePointerTypeWithin propagatePointerType
      split
      · exact ⟨false, rfl⟩
      · dsimp only
        cases found : (RegisterFlow.build instrs).getWriter use register with
        | none => exact ⟨false, rfl⟩
        | some writer =>
            have before := (RegisterFlow.getWriter_build found).1
            obtain ⟨instr, here, -⟩ :=
              getElem?_of_lastWriterBefore (RegisterFlow.getWriter_build_some found)
            simp only [here]
            split
            · exact ⟨true, rfl⟩
            · have fold : ∀ (sources : List Register) (st : Search) (updated : Bool), ∃ after,
                  sources.foldlM (propagateSource (propagatePointerTypeWithin instrs
                      (RegisterFlow.build instrs) typeName bound writer)) (st, updated) =
                    some (sources.foldl (fun st source => propagatePointerType instrs
                      (RegisterFlow.build instrs) typeName bound writer source.first st) st, after) := by
                intro sources
                induction sources with
                | nil => exact fun st updated => ⟨updated, rfl⟩
                | cons source rest ihRest =>
                    intro st updated
                    obtain ⟨here, first⟩ := ih (Nat.lt_of_lt_of_le before (Nat.le_of_lt_succ enough))
                      source.first st
                    obtain ⟨after, later⟩ := ihRest (propagatePointerType instrs
                      (RegisterFlow.build instrs) typeName bound writer source.first st) (here || updated)
                    refine ⟨after, ?_⟩
                    rw [List.foldlM_cons, List.foldl_cons, ← later, propagateSource, first]
                    rfl
              exact fold _ _ _

end Within

/-! ## The search is a depth-first search -/

section Trace

variable (pointers : Nat → Bool) (instrs : List TypedInstr) (flow : RegisterFlow)

/-- The place and the instruction that define a register for its use. -/
def definitionOf (key : Nat × String) : Option (Nat × TypedInstr) :=
  (flow.getWriter key.1 key.2).bind fun writer => instrs[writer]?.map fun instr => (writer, instr)

def parametersAt (key : Nat × String) : List Nat :=
  match definitionOf instrs flow key with
  | none => []
  | some (_, instr) => (pointerParameter pointers instr).toList

def operandsAt (key : Nat × String) : List (Nat × String) :=
  match definitionOf instrs flow key with
  | none => []
  | some (writer, instr) => match pointerParameter pointers instr with
    | some _ => []
    | none => instr.readRegisters.map fun source => (writer, source.first)

theorem traceParameters_eq_search (bound use : Nat) (register : String)
    (st : List Nat × Finset (Nat × String)) :
    traceParameters pointers instrs flow bound use register st =
      Search.search (parametersAt pointers instrs flow) (operandsAt pointers instrs flow) bound
        (use, register) st := by
  induction bound generalizing use register st with
  | zero => rfl
  | succ bound ih =>
      rw [traceParameters, Search.search]
      split
      · rfl
      · simp only [parametersAt, operandsAt, definitionOf]
        cases flow.getWriter use register with
        | none => simp
        | some writer =>
            cases here : instrs[writer]? with
            | none => simp [here]
            | some instr =>
                simp only [Option.bind_some, here, Option.map_some]
                cases pointerParameter pointers instr with
                | some offset => rfl
                | none => simp [List.foldl_map, ih]

end Trace

section Chains

variable {pointers : Nat → Bool} {instrs : List TypedInstr}

theorem lastWriter_iff {use writer : Nat} {register : String} {instr : TypedInstr} :
    LastWriter instrs use register writer instr ↔
      RegisterFlow.lastWriterBefore instrs use register = some writer ∧
        instrs[writer]? = some instr := by
  rw [RegisterFlow.lastWriterBefore_eq_some]
  constructor
  · rintro ⟨here, before, writes, last⟩
    refine ⟨⟨before, ?_, fun between above below => ?_⟩, here⟩
    · rw [RegisterFlow.writtenAt, here]
      exact writes
    · rw [RegisterFlow.writtenAt]
      cases there : instrs[between]? with
      | none => exact List.not_mem_nil
      | some later => exact last between later above below there
  · rintro ⟨⟨before, written, last⟩, here⟩
    rw [RegisterFlow.writtenAt, here] at written
    refine ⟨here, before, written, fun between later above below there => ?_⟩
    have notWritten := last between above below
    rwa [RegisterFlow.writtenAt, there] at notWritten

theorem definitionOf_eq_some {use writer : Nat} {register : String} {instr : TypedInstr}
    (defined : definitionOf instrs (RegisterFlow.build instrs) (use, register) =
      some (writer, instr)) : LastWriter instrs use register writer instr := by
  obtain ⟨place, found, rest⟩ := Option.bind_eq_some_iff.mp defined
  obtain ⟨other, here, same⟩ := Option.map_eq_some_iff.mp rest
  cases same
  exact lastWriter_iff.mpr ⟨RegisterFlow.getWriter_build_some found, here⟩

theorem definitionOf_of_lastWriter {use writer : Nat} {register : String} {instr : TypedInstr}
    (last : LastWriter instrs use register writer instr)
    (isRead : register ∈ RegisterFlow.readAt instrs use) :
    definitionOf instrs (RegisterFlow.build instrs) (use, register) = some (writer, instr) := by
  obtain ⟨found, here⟩ := lastWriter_iff.mp last
  rw [definitionOf, RegisterFlow.getWriter_build_eq instrs isRead, found, Option.bind_some, here]
  rfl

theorem mem_readAt {index : Nat} {instr : TypedInstr} (here : instrs[index]? = some instr)
    {source : Register} (isRead : source ∈ instr.readRegisters) :
    source.first ∈ RegisterFlow.readAt instrs index := by
  rw [RegisterFlow.readAt, here]
  exact List.mem_flatMap.mpr ⟨source, isRead, source.first_mem_names⟩

/-- The argument pointer has no definition. -/
theorem not_definedBy_argPtr (kept : ∀ instr ∈ instrs, lo "argptr" ∉ instr.writtenNames)
    {use : Nat} {origin : TypedInstr} : ¬DefinedBy instrs use (lo "argptr") origin := by
  intro defined
  cases defined with
  | writer last => exact kept _ (List.mem_of_getElem? last.here) last.writes
  | operand last _ _ => exact kept _ (List.mem_of_getElem? last.here) last.writes

theorem readRegisters_of_pointerParameter {instr : TypedInstr} {offset : Nat}
    (parameter : pointerParameter pointers instr = some offset) :
    instr.readRegisters = [.wide "argptr"] := by
  cases instr with
  | store address values access => cases parameter
  | other writes reads => cases parameter
  | load flat destination address place access =>
      rw [pointerParameter] at parameter
      split at parameter
      · rename_i isLoad
        rw [TypedInstr.readRegisters, isLoad.1]
      · cases parameter

/-- The search reaches a load of a parameter exactly if the load is on a chain of definitions. -/
theorem reaches_parameter_iff (kept : ∀ instr ∈ instrs, lo "argptr" ∉ instr.writtenNames)
    {use offset : Nat} {register : String} (isRead : register ∈ RegisterFlow.readAt instrs use) :
    (∃ target, Search.Reaches (operandsAt pointers instrs (RegisterFlow.build instrs))
        (use, register) target ∧
        offset ∈ parametersAt pointers instrs (RegisterFlow.build instrs) target) ↔
      ∃ origin, DefinedBy instrs use register origin ∧
        pointerParameter pointers origin = some offset := by
  constructor
  · rintro ⟨target, reaches, holds⟩
    clear isRead
    generalize key : (use, register) = start at reaches
    induction reaches using Relation.ReflTransGen.head_induction_on generalizing use register with
    | refl =>
        subst key
        rw [parametersAt] at holds
        split at holds
        · cases holds
        · rename_i writer origin defined
          exact ⟨origin, .writer (definitionOf_eq_some defined), by simpa using holds⟩
    | head isOperand _ ih =>
        subst key
        rw [operandsAt] at isOperand
        split at isOperand
        · cases isOperand
        · rename_i writer instr defined
          split at isOperand
          · cases isOperand
          · obtain ⟨source, isSource, same⟩ := List.mem_map.mp isOperand
            obtain ⟨origin, behind, parameter⟩ := ih same
            exact ⟨origin, .operand (definitionOf_eq_some defined) isSource behind, parameter⟩
  · rintro ⟨origin, defined, parameter⟩
    induction defined with
    | @writer use writer register origin last =>
        refine ⟨(use, register), .refl, ?_⟩
        rw [parametersAt, definitionOf_of_lastWriter last isRead]
        simp [parameter]
    | @operand use writer register instr origin source last isSource behind ih =>
        obtain ⟨target, reaches, holds⟩ := ih (mem_readAt last.here isSource) parameter
        refine ⟨target, .head ?_ reaches, holds⟩
        rw [operandsAt, definitionOf_of_lastWriter last isRead]
        cases loads : pointerParameter pointers instr with
        | none =>
            simp only [loads]
            exact List.mem_map.mpr ⟨source, isSource, rfl⟩
        | some other =>
            rw [readRegisters_of_pointerParameter loads, List.mem_singleton] at isSource
            subst isSource
            exact absurd behind (not_definedBy_argPtr kept)

theorem pointerParameter_eq_some {instr : TypedInstr} {offset : Nat} :
    pointerParameter pointers instr = some offset ↔
      LoadsParameter offset instr ∧ pointers offset = true := by
  constructor
  · intro parameter
    cases instr with
    | store address values access => cases parameter
    | other writes reads => cases parameter
    | load flat destination address place access =>
        rw [pointerParameter] at parameter
        split at parameter
        · rename_i isLoad
          obtain ⟨rfl, size⟩ := isLoad
          obtain ⟨rfl, pointer⟩ := Option.filter_eq_some_iff.mp parameter
          exact ⟨⟨flat, destination, access, rfl, size⟩, pointer⟩
        · cases parameter
  · rintro ⟨⟨flat, destination, access, rfl, size⟩, pointer⟩
    rw [pointerParameter, if_pos ⟨rfl, size⟩]
    exact Option.filter_eq_some_iff.mpr ⟨rfl, pointer⟩

end Chains

/-! ## One access -/

theorem findEntry_map_pair (offset : Nat) (typeName asked : String) (offsets : List Nat) :
    PyDict.findEntry offset (offsets.map fun found => (found, typeName)) = some asked ↔
      offset ∈ offsets ∧ asked = typeName := by
  induction offsets with
  | nil => simp [PyDict.findEntry]
  | cons first rest ih =>
      rw [List.map_cons, PyDict.findEntry]
      by_cases same : first = offset
      · simp [same, eq_comm]
      · simp [same, Ne.symm same, ih]

section Access

variable {pointers : Nat → Bool} {instrs : List TypedInstr}

/-- An access asks for its own type for the pointer parameters behind its address. -/
theorem findEntry_pointerRequest (kept : ∀ instr ∈ instrs, lo "argptr" ∉ instr.writtenNames)
    {instr : TypedInstr} {index : Nat} (here : instrs[index]? = some instr) (offset : Nat)
    (typeName : String) :
    PyDict.findEntry offset
        (pointerRequest pointers instrs (RegisterFlow.build instrs) (instr, index)) = some typeName ↔
      pointers offset = true ∧ ∃ access, AccessesParameter instrs offset index access ∧
        typeName = access.toOpenclType := by
  rw [pointerRequest]
  dsimp only
  cases accesses : memoryAccess instr with
  | none =>
      constructor
      · rintro ⟨⟩
      · rintro ⟨-, access, ⟨other, address, origin, there, isAccess, -⟩, -⟩
        rw [here] at there
        cases there
        rw [accesses] at isAccess
        cases isAccess
  | some found =>
      obtain ⟨address, access⟩ := found
      have isRead : lo address ∈ RegisterFlow.readAt instrs index := by
        have source : Register.wide address ∈ instr.readRegisters := by
          cases instr with
          | load flat destination place offset type =>
              cases accesses
              exact List.mem_cons_self
          | store place values type =>
              cases accesses
              exact List.mem_cons_self
          | other writes reads => cases accesses
        exact mem_readAt here source
      have falls : ∀ node, ∀ child ∈ operandsAt pointers instrs (RegisterFlow.build instrs) node,
          child.1 < node.1 := by
        rintro ⟨use, register⟩ child isOperand
        rw [operandsAt] at isOperand
        split at isOperand
        · cases isOperand
        · rename_i writer other defined
          split at isOperand
          · cases isOperand
          · obtain ⟨source, -, rfl⟩ := List.mem_map.mp isOperand
            exact (definitionOf_eq_some defined).before
      dsimp only
      have behind := @Search.mem_search_iff _ _ _
        (parametersAt pointers instrs (RegisterFlow.build instrs)) _ _ falls (index + 1)
        (index, lo address) (Nat.lt_succ_self index) offset
      rw [findEntry_map_pair, traceParameters_eq_search, behind, reaches_parameter_iff kept isRead]
      constructor
      · rintro ⟨⟨origin, defined, parameter⟩, rfl⟩
        obtain ⟨loads, pointer⟩ := pointerParameter_eq_some.mp parameter
        exact ⟨pointer, access, ⟨instr, address, origin, here, accesses, defined, loads⟩, rfl⟩
      · rintro ⟨pointer, other, ⟨again, place, origin, there, isAccess, defined, loads⟩, rfl⟩
        rw [here] at there
        cases there
        rw [accesses] at isAccess
        cases isAccess
        exact ⟨⟨origin, defined, pointerParameter_eq_some.mpr ⟨loads, pointer⟩⟩, rfl⟩

/-- The map of inferred types after the first `count` instructions. -/
structure InferredAfter (pointers : Nat → Bool) (instrs : List TypedInstr) (count : Nat)
    (inferred : PyDict Nat String) : Prop where
  scalar : ∀ offset, pointers offset = false → inferred.get? offset = none
  unused : ∀ offset, (∀ index access, AccessesParameter instrs offset index access → count ≤ index) →
    inferred.get? offset = none
  used : ∀ offset index access, pointers offset = true → FirstAccess instrs offset index access →
    index < count → inferred.get? offset = some access.toOpenclType

theorem InferredAfter.step (kept : ∀ instr ∈ instrs, lo "argptr" ∉ instr.writtenNames) {count : Nat}
    {inferred : PyDict Nat String} (before : InferredAfter pointers instrs count inferred)
    {instr : TypedInstr} (here : instrs[count]? = some instr) :
    InferredAfter pointers instrs (count + 1) (inferred.setDefaults
      (pointerRequest pointers instrs (RegisterFlow.build instrs) (instr, count))) := by
  have request := @findEntry_pointerRequest pointers instrs kept _ _ here
  have absent : ∀ offset, (∀ typeName, PyDict.findEntry offset
      (pointerRequest pointers instrs (RegisterFlow.build instrs) (instr, count)) ≠ some typeName) →
      PyDict.findEntry offset
        (pointerRequest pointers instrs (RegisterFlow.build instrs) (instr, count)) = none :=
    fun offset => Option.eq_none_iff_forall_ne_some.mpr
  refine ⟨fun offset scalar => ?_, fun offset unused => ?_, fun offset index access pointer first early => ?_⟩
  · rw [PyDict.get?_setDefaults, before.scalar offset scalar, Option.none_or]
    refine absent offset fun typeName found => ?_
    have pointer := ((request offset typeName).mp found).1
    rw [scalar] at pointer
    cases pointer
  · rw [PyDict.get?_setDefaults, before.unused offset fun index access accesses =>
      Nat.le_of_succ_le (unused index access accesses), Option.none_or]
    refine absent offset fun typeName found => ?_
    obtain ⟨-, access, accesses, -⟩ := (request offset typeName).mp found
    exact Nat.not_succ_le_self count (unused count access accesses)
  · rw [PyDict.get?_setDefaults]
    rcases Nat.lt_succ_iff_lt_or_eq.mp early with earlier | rfl
    · rw [before.used offset index access pointer first earlier, Option.some_or]
    · rw [before.unused offset first.first, Option.none_or, request]
      exact ⟨pointer, access, first.accesses, rfl⟩

/-- Behind the last instruction nothing changes. -/
theorem InferredAfter.idle {count : Nat} {inferred : PyDict Nat String}
    (before : InferredAfter pointers instrs count inferred) (past : instrs[count]? = none) :
    InferredAfter pointers instrs (count + 1) inferred where
  scalar := before.scalar
  unused offset unused := before.unused offset fun index access accesses =>
    Nat.le_of_succ_le (unused index access accesses)
  used offset index access pointer first early := by
    rcases Nat.lt_succ_iff_lt_or_eq.mp early with earlier | rfl
    · exact before.used offset index access pointer first earlier
    · obtain ⟨instr, -, -, here, -⟩ := first.accesses
      rw [past] at here
      cases here

end Access

/-! ## The whole pass -/

namespace Kernel

variable (kernel : Kernel)

/-- The pass has gone through the first `count` instructions. -/
structure Typed (count : Nat) (st : PointerTypes) : Prop where
  settled : Settled kernel.arguments .empty st.inference
  inferred : InferredAfter kernel.arguments.pointerAt kernel.instructions count st.inference.inferred

theorem typed_step {count : Nat} {st : PointerTypes} (before : kernel.Typed count st)
    {instr : TypedInstr} (here : kernel.instructions[count]? = some instr) :
    ∃ after, kernel.Typed (count + 1) after ∧ ∀ bound, count < bound →
      inferPointerTypeWithin kernel.instructions (RegisterFlow.build kernel.instructions) bound st
        (instr, count) = some after := by
  have both : Settled kernel.arguments .empty (Ptx.inferPointerType kernel.instructions
      (RegisterFlow.build kernel.instructions) st.inference (instr, count)) ∧ _ :=
    before.settled.inferPointerType kernel.argPtr_writer (instr, count)
  obtain ⟨settled, inferred⟩ := both
  have after := before.inferred.step kernel.argPtrKept here
  rw [← inferred] at after
  rw [inferPointerType] at settled after
  cases accesses : memoryAccess instr with
  | none =>
      rw [accesses] at settled after
      refine ⟨st, ⟨settled, after⟩, fun bound _ => ?_⟩
      rw [inferPointerTypeWithin, accesses]
  | some found =>
      rw [accesses] at settled after
      obtain ⟨updated, ends⟩ := @exists_propagatePointerTypeWithin kernel.instructions
        found.2.toOpenclType _ _ (Nat.lt_succ_self count) (lo found.1) ⟨st.inference, ∅⟩
      refine ⟨⟨_, if updated then st.inferredCount + 1 else st.inferredCount⟩, ⟨settled, after⟩,
        fun bound enough => ?_⟩
      rw [inferPointerTypeWithin, accesses]
      dsimp only
      rw [propagatePointerTypeWithin_enough enough, ends]
      rfl

theorem exists_typed (count : Nat) :
    ∃ st, kernel.Typed count st ∧ ∀ bound, kernel.instructions.length ≤ bound →
      kernel.inferPointerTypesWithin count bound = some st := by
  induction count with
  | zero =>
      refine ⟨⟨⟨kernel.arguments, .empty⟩, 0⟩, ⟨.start _ _, ?_⟩, fun _ _ => rfl⟩
      exact ⟨fun _ _ => rfl, fun _ _ => rfl, fun _ _ _ _ _ early => absurd early (Nat.not_lt_zero _)⟩
  | succ count ih =>
      obtain ⟨st, typed, ends⟩ := ih
      cases here : kernel.instructions[count]? with
      | none =>
          have past := List.getElem?_eq_none_iff.mp here
          have length : kernel.instructions.zipIdx.length ≤ count := by rwa [List.length_zipIdx]
          refine ⟨st, ⟨typed.settled, typed.inferred.idle here⟩, fun bound enough => ?_⟩
          rw [← ends bound enough, inferPointerTypesWithin, inferPointerTypesWithin,
            List.take_of_length_le length, List.take_of_length_le (Nat.le_succ_of_le length)]
      | some instr =>
          obtain ⟨after, typedAfter, stepped⟩ := kernel.typed_step typed here
          refine ⟨after, typedAfter, fun bound enough => ?_⟩
          have inside := (List.getElem?_eq_some_iff.mp here).1
          have entry : kernel.instructions.zipIdx[count]? = some (instr, count) := by
            rw [List.getElem?_zipIdx, here]
            simp
          rw [inferPointerTypesWithin, List.take_add_one, entry, List.foldlM_append]
          have first := ends bound enough
          rw [inferPointerTypesWithin] at first
          rw [first]
          simp [stepped bound (Nat.lt_of_lt_of_le inside enough)]

theorem pointerAt_offset {argument : KernelArgument} (inside : argument ∈ kernel.arguments.all) :
    kernel.arguments.pointerAt argument.offset = argument.name.pointer := by
  have found : kernel.arguments.getByOffset argument.offset = some argument := by
    cases other : kernel.arguments.getByOffset argument.offset with
    | none =>
        have absent := List.find?_eq_none.mp other argument inside
        simp at absent
    | some first =>
        obtain ⟨there, same⟩ := KernelArguments.mem_of_getByOffset other
        rw [List.inj_on_of_nodup_map kernel.arguments.offsets there inside same]
  rw [KernelArguments.pointerAt, found, Option.any_some]

theorem Typed.typedAfter {count : Nat} {st : PointerTypes} (typed : kernel.Typed count st)
    {argument : KernelArgument} (inside : argument ∈ kernel.arguments.all) :
    TypedAfter kernel.instructions count argument (settle .empty st.inference.inferred argument) := by
  have pointer := kernel.pointerAt_offset inside
  have kept : st.inference.inferred.get? argument.offset = none →
      settle .empty st.inference.inferred argument = argument := by
    intro absent
    rw [settle, absent]
    rfl
  refine ⟨fun scalar => kept ?_, fun unused => kept ?_, fun index access isPointer first => ?_⟩
  · exact typed.inferred.scalar _ (pointer.trans scalar)
  · exact typed.inferred.unused _ fun index access accesses => absurd accesses (unused index access)
  · split
    · rename_i early
      rw [settle, typed.inferred.used _ index access (pointer.trans isPointer) first early]
      simp [KernelArguments.retype, KernelArguments.argumentSize, isPointer]
    · rename_i late
      refine kept (typed.inferred.unused _ fun earlier other accesses => ?_)
      exact (Nat.le_of_not_lt late).trans (first.first earlier other accesses)

/--
The pass ends for every list of instructions.  After any number of them a pointer parameter
has the type of the first access through it once this access has been met, and all other
arguments are as they were.
-/
theorem inferPointerTypes_firstAccess (count : Nat) :
    ∃ st, Settles (kernel.inferPointerTypesWithin count) st ∧
      List.Forall₂ (TypedAfter kernel.instructions count) kernel.arguments.all
        st.inference.arguments.all := by
  obtain ⟨st, typed, ends⟩ := kernel.exists_typed count
  refine ⟨st, ⟨kernel.instructions.length, ends⟩, ?_⟩
  rw [typed.settled.all, List.forall₂_map_right_iff, List.forall₂_same]
  exact fun argument inside => typed.typedAfter kernel inside

end Kernel

end OpenCLDecompiler.Ptx
