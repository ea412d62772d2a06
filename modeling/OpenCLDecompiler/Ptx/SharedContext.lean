import OpenCLDecompiler.Ptx.ArgumentTypes

/-!
# The context the kernels of a file share

Each type pass sends a list of requests, a type for a parameter at an offset, to
its map in the context, and the first request for an offset wins.  The requests
of a kernel do not depend on the map, so what an earlier kernel changes is which
requests of a later one come first.
-/

namespace OpenCLDecompiler.Ptx

open Library

/-! ## First requests -/

/-- An argument with the type of its offset that is in the new map but not in the old one. -/
def settle (old new : PyDict Nat String) (argument : KernelArgument) : KernelArgument :=
  if old.get? argument.offset = none then
    match new.get? argument.offset with
    | none => argument
    | some typeName => KernelArguments.retype argument.name typeName argument
  else argument

theorem name_settle (old new : PyDict Nat String) (argument : KernelArgument) :
    (settle old new argument).name = argument.name := by
  unfold settle
  split
  · split
    · rfl
    · exact KernelArguments.name_retype ..
  · rfl

theorem offset_settle (old new : PyDict Nat String) (argument : KernelArgument) :
    (settle old new argument).offset = argument.offset := by
  unfold settle
  split
  · split
    · rfl
    · exact KernelArguments.offset_retype ..
  · rfl

theorem settle_self (old : PyDict Nat String) (argument : KernelArgument) :
    settle old old argument = argument := by
  unfold settle
  split
  · rename_i absent
    rw [absent]
  · rfl

/-- The arguments have the types that were added to the map since `old`. -/
structure Settled (declared : KernelArguments) (old : PyDict Nat String) (st : Inference) :
    Prop where
  all : st.arguments.all = declared.all.map (settle old st.inferred)
  keeps : ∀ offset, st.inferred.get? offset = none → old.get? offset = none

section Settled

variable {declared : KernelArguments} {old : PyDict Nat String} {st : Inference}

theorem Settled.start (declared : KernelArguments) (old : PyDict Nat String) :
    Settled declared old ⟨declared, old⟩ where
  all := by
    have same : settle old old = id := funext (settle_self old)
    rw [same, List.map_id]
  keeps _ absent := absent

theorem Settled.getByOffset (settled : Settled declared old st) (offset : Nat) :
    st.arguments.getByOffset offset =
      (declared.getByOffset offset).map (settle old st.inferred) := by
  unfold KernelArguments.getByOffset
  rw [settled.all, List.find?_map]
  congr 2
  funext argument
  simp [offset_settle]

theorem KernelArguments.mem_of_getByOffset {arguments : KernelArguments} {offset : Nat}
    {argument : KernelArgument} (found : arguments.getByOffset offset = some argument) :
    argument ∈ arguments.all ∧ argument.offset = offset := by
  refine ⟨List.mem_of_find?_eq_some found, ?_⟩
  simpa using List.find?_some found

/-- An offset without a type in the map gets the requested one. -/
theorem Settled.update (settled : Settled declared old st) {offset : Nat}
    {argument : KernelArgument} (found : declared.getByOffset offset = some argument)
    (absent : st.inferred.get? offset = none) (typeName : String) :
    ∃ arguments, st.arguments.updateTypeByOffset offset typeName = some arguments ∧
      Settled declared old ⟨arguments, st.inferred.set offset typeName⟩ := by
  obtain ⟨inside, atOffset⟩ := KernelArguments.mem_of_getByOffset found
  have fresh : settle old st.inferred argument = argument := by
    unfold settle
    rw [atOffset, absent]
    split <;> rfl
  have current : st.arguments.getByOffset offset = some argument := by
    rw [settled.getByOffset, found, Option.map_some, fresh]
  have named : (st.arguments.getByName argument.name).isSome = true := by
    unfold KernelArguments.getByName
    rw [List.find?_isSome]
    exact ⟨argument, (KernelArguments.mem_of_getByOffset current).1, by simp⟩
  obtain ⟨other, isOther⟩ := Option.isSome_iff_exists.mp named
  refine ⟨st.arguments.retypeAll argument.name typeName, ?_, ?_⟩
  · unfold KernelArguments.updateTypeByOffset KernelArguments.updateType
    rw [current, Option.bind_some, isOther, Option.map_some]
  · constructor
    · show st.arguments.all.map (KernelArguments.retype argument.name typeName) = _
      rw [settled.all, List.map_map]
      apply List.map_congr_left
      rintro candidate present
      rw [Function.comp_apply]
      by_cases same : candidate.name = argument.name
      · have equal : candidate = argument :=
          List.inj_on_of_nodup_map declared.names present inside same
        subst equal
        rw [fresh]
        unfold settle
        rw [atOffset, PyDict.get?_set_self, if_pos (settled.keeps offset absent)]
      · have elsewhere : candidate.offset ≠ offset := by
          rintro here
          exact same (congrArg KernelArgument.name
            (List.inj_on_of_nodup_map declared.offsets present inside (here.trans atOffset.symm)))
        have kept : settle old (st.inferred.set offset typeName) candidate =
            settle old st.inferred candidate := by
          unfold settle
          rw [PyDict.get?_set_of_ne _ elsewhere]
        rw [kept, KernelArguments.retype, if_neg]
        rwa [name_settle]
    · rintro key missing
      rw [PyDict.get?_set] at missing
      split at missing
      · cases missing
      · exact settled.keeps key missing

/-- A request for a parameter with an argument is a default of the map. -/
theorem Settled.request (settled : Settled declared old st) {offset : Nat}
    {argument : KernelArgument} (found : declared.getByOffset offset = some argument)
    (typeName : String) :
    (st.inferred.get? offset).isSome = true ∧ st.inferred.setDefault offset typeName = st.inferred ∨
      st.inferred.get? offset = none ∧
        ∃ arguments, st.arguments.updateTypeByOffset offset typeName = some arguments ∧
          Settled declared old ⟨arguments, st.inferred.setDefault offset typeName⟩ := by
  cases known : st.inferred.get? offset with
  | some inferred =>
      left
      simp [PyDict.setDefault, known]
  | none =>
      right
      have added : st.inferred.setDefault offset typeName = st.inferred.set offset typeName := by
        simp [PyDict.setDefault, known]
      rw [added]
      exact ⟨rfl, settled.update found known typeName⟩

end Settled

/-! ## Vectors -/

/-- The type that a load of a vector parameter asks for. -/
def vectorRequest (arguments : KernelArguments) : TypedInstr → Option (Nat × String)
  | .load false _ address offset access =>
      if address = "argptr" ∧ 1 < access.vectorWidth then
        offset.bind fun offset => (arguments.getByOffset offset).bind fun argument =>
          if argument.name.pointer then none else some (offset, inferTypeName access argument)
      else none
  | _ => none

section Vectors

variable {declared : KernelArguments} {old : PyDict Nat String} {st : Inference}

theorem Settled.inferArgumentType (settled : Settled declared old st) (instr : TypedInstr) :
    Settled declared old (inferArgumentType st instr) ∧
      (inferArgumentType st instr).inferred =
        st.inferred.setDefaults (vectorRequest declared instr).toList := by
  cases instr with
  | store address values access => exact ⟨settled, rfl⟩
  | other writes reads => exact ⟨settled, rfl⟩
  | load flat destination address offset access =>
      cases flat with
      | true => exact ⟨settled, rfl⟩
      | false =>
          unfold Ptx.inferArgumentType vectorRequest
          by_cases isParam : address = "argptr"
          swap
          · simp [isParam, settled, PyDict.setDefaults]
          by_cases isVector : 1 < access.vectorWidth
          swap
          · simp [isVector, Nat.le_of_not_lt isVector, settled, PyDict.setDefaults]
          cases offset with
          | none => simp [settled, PyDict.setDefaults]
          | some offset =>
              have param : ¬address ≠ "argptr" := fun differs => differs isParam
              dsimp only
              rw [if_neg param, if_neg (Nat.not_le_of_lt isVector), if_pos ⟨isParam, isVector⟩,
                Option.bind_some, settled.getByOffset]
              cases found : declared.getByOffset offset with
              | none => exact ⟨settled, rfl⟩
              | some argument =>
                  rw [Option.map_some, Option.bind_some]
                  dsimp only
                  rw [name_settle]
                  by_cases pointer : argument.name.pointer = true
                  · rw [if_pos pointer, if_pos pointer]
                    exact ⟨settled, rfl⟩
                  rw [if_neg pointer, if_neg pointer]
                  obtain ⟨known, same⟩ | ⟨absent, arguments, updated, after⟩ :=
                    settled.request found (inferTypeName access argument)
                  · rw [if_pos known]
                    exact ⟨settled, same.symm⟩
                  · have fresh : settle old st.inferred argument = argument := by
                      have place := (KernelArguments.mem_of_getByOffset found).2
                      unfold settle
                      rw [place, absent]
                      split <;> rfl
                    rw [absent, fresh, updated]
                    simp only [Option.isSome_none, Bool.false_eq_true, if_false]
                    have added : st.inferred.setDefault offset (inferTypeName access argument) =
                        st.inferred.set offset (inferTypeName access argument) := by
                      simp [PyDict.setDefault, absent]
                    rw [added] at after
                    exact ⟨after, added.symm⟩

/-- The types of vectors that a kernel asks for. -/
def vectorRequests (arguments : KernelArguments) (instrs : List TypedInstr) :
    List (Nat × String) :=
  instrs.filterMap (vectorRequest arguments)

theorem Settled.inferArgumentTypes (settled : Settled declared old st)
    (instrs : List TypedInstr) :
    Settled declared old (inferArgumentTypes st instrs) ∧
      (inferArgumentTypes st instrs).inferred =
        st.inferred.setDefaults (vectorRequests declared instrs) := by
  induction instrs generalizing st with
  | nil => exact ⟨settled, rfl⟩
  | cons instr rest ih =>
      obtain ⟨first, inferred⟩ := settled.inferArgumentType instr
      obtain ⟨last, requested⟩ := ih first
      refine ⟨last, ?_⟩
      have split : vectorRequests declared (instr :: rest) =
          (vectorRequest declared instr).toList ++ vectorRequests declared rest := by
        unfold vectorRequests
        rw [List.filterMap_cons]
        cases vectorRequest declared instr <;> rfl
      rw [split, PyDict.setDefaults_append, ← inferred, ← requested]
      rfl

end Vectors

/-! ## Pointers -/

def KernelArguments.pointerAt (arguments : KernelArguments) (offset : Nat) : Bool :=
  (arguments.getByOffset offset).any fun argument => argument.name.pointer

/-- The pointer parameter that an instruction loads. -/
def pointerParameter (pointers : Nat → Bool) : TypedInstr → Option Nat
  | .load _ _ address offset access =>
      if address = "argptr" ∧ max 32 access.totalBits = pointerSizeBits then
        offset.filter pointers
      else none
  | _ => none

/-- The pointer parameters that the search for the origin of a register finds, and `visited`. -/
def traceParameters (pointers : Nat → Bool) (instrs : List TypedInstr) (flow : RegisterFlow) :
    Nat → Nat → String → List Nat × Finset (Nat × String) → List Nat × Finset (Nat × String)
  | 0, _, _, st => st
  | fuel + 1, use, register, st =>
      if (use, register) ∈ st.2 then st
      else
        let st := (st.1, insert (use, register) st.2)
        match flow.getWriter use register with
        | none => st
        | some writer => match instrs[writer]? with
          | none => st
          | some instr => match pointerParameter pointers instr with
            | some offset => (st.1 ++ [offset], st.2)
            | none => instr.readRegisters.foldl
                (fun st source => traceParameters pointers instrs flow fuel writer source.first st)
                st

section Pointers

variable {declared : KernelArguments} {old : PyDict Nat String}

theorem Settled.pointerAt {st : Inference} (settled : Settled declared old st) (offset : Nat) :
    st.arguments.pointerAt offset = declared.pointerAt offset := by
  unfold KernelArguments.pointerAt
  rw [settled.getByOffset]
  cases declared.getByOffset offset with
  | none => rfl
  | some argument => simp [name_settle]

theorem tryUpdate_of_none {st : Inference} {instr : TypedInstr}
    (settled : Settled declared old st) (typeName : String)
    (noParameter : pointerParameter declared.pointerAt instr = none) :
    tryUpdateArgumentFromLoad st instr typeName = (st, false) := by
  cases instr with
  | store address values access => rfl
  | other writes reads => rfl
  | load flat destination address offset access =>
      unfold tryUpdateArgumentFromLoad
      dsimp only
      by_cases isParam : address = "argptr"
      swap
      · rw [if_pos isParam]
      by_cases isPointer : max 32 access.totalBits = pointerSizeBits
      swap
      · rw [if_neg (fun differs : address ≠ "argptr" => differs isParam), if_pos isPointer]
      rw [if_neg (fun differs : address ≠ "argptr" => differs isParam),
        if_neg (fun differs : max 32 access.totalBits ≠ pointerSizeBits => differs isPointer)]
      cases offset with
      | none => rfl
      | some offset =>
          have notPointer : st.arguments.pointerAt offset = false := by
            rw [settled.pointerAt]
            simpa [pointerParameter, isParam, isPointer] using noParameter
          unfold KernelArguments.pointerAt at notPointer
          dsimp only
          cases found : st.arguments.getByOffset offset with
          | none => rfl
          | some argument =>
              rw [found] at notPointer
              simp only [Option.any_some] at notPointer
              simp [notPointer]

theorem tryUpdate_of_some {st : Inference} {instr : TypedInstr} {offset : Nat}
    (settled : Settled declared old st) (typeName : String)
    (parameter : pointerParameter declared.pointerAt instr = some offset) :
    Settled declared old (tryUpdateArgumentFromLoad st instr typeName).1 ∧
      (tryUpdateArgumentFromLoad st instr typeName).1.inferred =
        st.inferred.setDefault offset typeName ∧
      instr.readRegisters = [.wide "argptr"] := by
  cases instr with
  | store address values access => cases parameter
  | other writes reads => cases parameter
  | load flat destination address place access =>
      unfold pointerParameter at parameter
      dsimp only at parameter
      split at parameter
      swap
      · cases parameter
      rename_i isLoad
      obtain ⟨isParam, isPointer⟩ := isLoad
      obtain ⟨rfl, pointer⟩ := Option.filter_eq_some_iff.mp parameter
      unfold KernelArguments.pointerAt at pointer
      cases found : declared.getByOffset offset with
      | none =>
          rw [found] at pointer
          cases pointer
      | some argument =>
          rw [found, Option.any_some] at pointer
          unfold tryUpdateArgumentFromLoad
          dsimp only
          rw [if_neg (fun differs : address ≠ "argptr" => differs isParam),
            if_neg (fun differs : max 32 access.totalBits ≠ pointerSizeBits => differs isPointer),
            settled.getByOffset, found, Option.map_some]
          dsimp only
          rw [name_settle, pointer]
          simp only [Bool.not_true, Bool.false_eq_true, if_false]
          have reads : (TypedInstr.load flat destination address (some offset) access).readRegisters =
              [.wide "argptr"] := by
            rw [isParam]
            rfl
          obtain ⟨known, same⟩ | ⟨absent, arguments, updated, after⟩ :=
            settled.request found typeName
          · obtain ⟨inferred, isInferred⟩ := Option.isSome_iff_exists.mp known
            rw [isInferred]
            exact ⟨settled, same.symm, reads⟩
          · have added : st.inferred.setDefault offset typeName =
                st.inferred.set offset typeName := by
              simp [PyDict.setDefault, absent]
            rw [absent, updated]
            rw [added] at after ⊢
            exact ⟨after, rfl, reads⟩

/-- The search and the trace of it have found the same parameters. -/
structure Traced (declared : KernelArguments) (old base : PyDict Nat String) (typeName : String)
    (st : Search) (trace : List Nat × Finset (Nat × String)) : Prop where
  settled : Settled declared old st.inference
  inferred : st.inference.inferred = base.setDefaults (trace.1.map fun offset => (offset, typeName))
  visited : ∀ key, key.2 ≠ lo "argptr" → (key ∈ st.visited ↔ key ∈ trace.2)

variable {base : PyDict Nat String} {typeName : String} {st : Search}
  {trace : List Nat × Finset (Nat × String)} {instrs : List TypedInstr} {flow : RegisterFlow}

theorem Traced.visit (traced : Traced declared old base typeName st trace)
    (key : Nat × String) :
    Traced declared old base typeName { st with visited := insert key st.visited }
      (trace.1, insert key trace.2) where
  settled := traced.settled
  inferred := traced.inferred
  visited other notPtr := by
    simp only [Finset.mem_insert, traced.visited other notPtr]

/-- A search that starts from the parameter pointer finds nothing. -/
theorem Traced.argPtr (traced : Traced declared old base typeName st trace)
    (kept : ∀ use, flow.getWriter use (lo "argptr") = none) (fuel use : Nat) :
    Traced declared old base typeName
      (propagatePointerType instrs flow typeName fuel use (lo "argptr") st) trace := by
  cases fuel with
  | zero => exact traced
  | succ fuel =>
      unfold propagatePointerType
      split
      · exact traced
      · rw [kept]
        constructor
        · exact traced.settled
        · exact traced.inferred
        · rintro key notPtr
          have differs : key ≠ (use, lo "argptr") := fun same => notPtr (congrArg Prod.snd same)
          simp [differs, traced.visited key notPtr]

theorem Traced.argPtr_trace (traced : Traced declared old base typeName st trace)
    (kept : ∀ use, flow.getWriter use (lo "argptr") = none) (fuel use : Nat) :
    Traced declared old base typeName st
      (traceParameters declared.pointerAt instrs flow fuel use (lo "argptr") trace) := by
  cases fuel with
  | zero => exact traced
  | succ fuel =>
      unfold traceParameters
      split
      · exact traced
      · rw [kept]
        constructor
        · exact traced.settled
        · exact traced.inferred
        · rintro key notPtr
          have differs : key ≠ (use, lo "argptr") := fun same => notPtr (congrArg Prod.snd same)
          simp [differs, traced.visited key notPtr]

theorem Traced.propagate (traced : Traced declared old base typeName st trace)
    (kept : ∀ use, flow.getWriter use (lo "argptr") = none) (fuel use : Nat) (register : String) :
    Traced declared old base typeName
      (propagatePointerType instrs flow typeName fuel use register st)
      (traceParameters declared.pointerAt instrs flow fuel use register trace) := by
  induction fuel generalizing use register st trace with
  | zero => exact traced
  | succ fuel ih =>
      by_cases isPtr : register = lo "argptr"
      · subst isPtr
        exact (traced.argPtr kept (fuel + 1) use).argPtr_trace kept (fuel + 1) use
      have seen := traced.visited (use, register) isPtr
      unfold propagatePointerType traceParameters
      by_cases visited : (use, register) ∈ st.visited
      · rw [if_pos visited, if_pos (seen.mp visited)]
        exact traced
      rw [if_neg visited, if_neg (mt seen.mpr visited)]
      have inserted := traced.visit (use, register)
      dsimp only
      cases flow.getWriter use register with
      | none => exact inserted
      | some writer =>
          dsimp only
          cases instrs[writer]? with
          | none => exact inserted
          | some instr =>
              dsimp only
              cases parameter : pointerParameter declared.pointerAt instr with
              | none =>
                  rw [tryUpdate_of_none inserted.settled typeName parameter]
                  simp only [Bool.false_eq_true, if_false]
                  generalize instr.readRegisters = sources
                  generalize ({ st with visited := insert (use, register) st.visited } : Search) =
                    current at inserted ⊢
                  generalize (trace.1, insert (use, register) trace.2) = noted at inserted ⊢
                  clear traced seen visited
                  induction sources generalizing current noted with
                  | nil => exact inserted
                  | cons source rest ihRest =>
                      rw [List.foldl_cons, List.foldl_cons]
                      exact ihRest _ _ (ih inserted _ _)
              | some offset =>
                  obtain ⟨settled, inferred, reads⟩ :=
                    tryUpdate_of_some inserted.settled typeName parameter
                  have found : Traced declared old base typeName
                      ⟨(tryUpdateArgumentFromLoad st.inference instr typeName).1,
                        insert (use, register) st.visited⟩
                      (trace.1 ++ [offset], insert (use, register) trace.2) := by
                    constructor
                    · exact settled
                    · rw [inferred, inserted.inferred, List.map_append,
                        PyDict.setDefaults_append]
                      rfl
                    · exact inserted.visited
                  split
                  · exact found
                  · rw [reads]
                    exact found.argPtr kept fuel writer

/-- The types that a memory access asks for. -/
def pointerRequest (pointers : Nat → Bool) (instrs : List TypedInstr) (flow : RegisterFlow)
    (indexed : TypedInstr × Nat) : List (Nat × String) :=
  match memoryAccess indexed.1 with
  | none => []
  | some (address, access) =>
      (traceParameters pointers instrs flow (indexed.2 + 1) indexed.2 (lo address) ([], ∅)).1.map
        fun offset => (offset, access.toOpenclType)

def pointerRequests (pointers : Nat → Bool) (flow : RegisterFlow) (instrs : List TypedInstr) :
    List (Nat × String) :=
  instrs.zipIdx.flatMap (pointerRequest pointers instrs flow)

theorem Settled.inferPointerType {st : Inference} (settled : Settled declared old st)
    (kept : ∀ use, flow.getWriter use (lo "argptr") = none) (indexed : TypedInstr × Nat) :
    Settled declared old (inferPointerType instrs flow st indexed) ∧
      (inferPointerType instrs flow st indexed).inferred =
        st.inferred.setDefaults (pointerRequest declared.pointerAt instrs flow indexed) := by
  unfold Ptx.inferPointerType pointerRequest
  cases memoryAccess indexed.1 with
  | none => exact ⟨settled, rfl⟩
  | some access =>
      have start : Traced declared old st.inferred access.2.toOpenclType ⟨st, ∅⟩ ([], ∅) :=
        ⟨settled, rfl, fun _ _ => Iff.rfl⟩
      have done := @Traced.propagate declared old st.inferred access.2.toOpenclType ⟨st, ∅⟩ ([], ∅)
        instrs flow start kept (indexed.2 + 1) indexed.2 (lo access.1)
      exact ⟨done.settled, done.inferred⟩

theorem Settled.inferPointerTypes {st : Inference} (settled : Settled declared old st)
    (kept : ∀ use, flow.getWriter use (lo "argptr") = none) :
    Settled declared old (inferPointerTypes flow st instrs) ∧
      (inferPointerTypes flow st instrs).inferred =
        st.inferred.setDefaults (pointerRequests declared.pointerAt flow instrs) := by
  unfold Ptx.inferPointerTypes pointerRequests
  generalize instrs.zipIdx = indexes
  induction indexes generalizing st with
  | nil => exact ⟨settled, rfl⟩
  | cons indexed rest ih =>
      obtain ⟨first, inferred⟩ :=
        @Settled.inferPointerType declared old instrs flow st settled kept indexed
      obtain ⟨last, requested⟩ := ih first
      refine ⟨last, ?_⟩
      rw [List.foldl_cons, requested, inferred, List.flatMap_cons, PyDict.setDefaults_append]

end Pointers

/-! ## Kernels -/

namespace Kernel

/-- The types of vectors a kernel asks for, by the offsets of the parameters. -/
def vectorRequests (kernel : Kernel) : List (Nat × String) :=
  Ptx.vectorRequests kernel.arguments kernel.instructions

/-- The types of memory a kernel asks for. -/
def pointerRequests (kernel : Kernel) : List (Nat × String) :=
  Ptx.pointerRequests kernel.arguments.pointerAt (RegisterFlow.build kernel.instructions)
    kernel.instructions

end Kernel

theorem Kernel.argPtr_writer (kernel : Kernel) (use : Nat) :
    (RegisterFlow.build kernel.instructions).getWriter use (lo "argptr") = none := by
  cases found : (RegisterFlow.build kernel.instructions).getWriter use (lo "argptr") with
  | none => rfl
  | some writer =>
      obtain ⟨-, instr, inside, written⟩ := RegisterFlow.getWriter_build found
      exact absurd written (kernel.argPtrKept instr inside)

/-- What the type passes do to the context and to the arguments of a kernel. -/
theorem runTypePasses_spec (context : PassContext) (kernel : Kernel) :
    (runTypePasses context kernel).1.argumentTypes =
        context.argumentTypes.setDefaults kernel.vectorRequests ∧
      (runTypePasses context kernel).1.pointerArgTypes =
        context.pointerArgTypes.setDefaults kernel.pointerRequests ∧
      (runTypePasses context kernel).2.all = kernel.arguments.all.map fun argument =>
        settle context.pointerArgTypes
          (context.pointerArgTypes.setDefaults kernel.pointerRequests)
          (settle context.argumentTypes
            (context.argumentTypes.setDefaults kernel.vectorRequests) argument) := by
  obtain ⟨vectors, vectorMap⟩ :=
    (Settled.start kernel.arguments context.argumentTypes).inferArgumentTypes kernel.instructions
  have start := Settled.start
    (inferArgumentTypes ⟨kernel.arguments, context.argumentTypes⟩ kernel.instructions).arguments
    context.pointerArgTypes
  obtain ⟨pointers, pointerMap⟩ :=
    @Settled.inferPointerTypes _ _ kernel.instructions _ _ start kernel.argPtr_writer
  have pointerAt : (inferArgumentTypes ⟨kernel.arguments, context.argumentTypes⟩
      kernel.instructions).arguments.pointerAt = kernel.arguments.pointerAt :=
    funext vectors.pointerAt
  rw [pointerAt] at pointerMap
  refine ⟨vectorMap, pointerMap, ?_⟩
  have all := pointers.all
  rw [vectors.all, vectorMap, pointerMap, List.map_map] at all
  exact all

/-- A traced parameter is a pointer. -/
theorem pointers_of_mem_trace {pointers : Nat → Bool} {instrs : List TypedInstr}
    {flow : RegisterFlow} (fuel use : Nat) (register : String)
    (st : List Nat × Finset (Nat × String)) {offset : Nat}
    (inside : offset ∈ (traceParameters pointers instrs flow fuel use register st).1) :
    offset ∈ st.1 ∨ pointers offset = true := by
  induction fuel generalizing use register st with
  | zero => exact .inl inside
  | succ fuel ih =>
      unfold traceParameters at inside
      split at inside
      · exact .inl inside
      · dsimp only at inside
        split at inside
        · exact .inl inside
        · split at inside
          · exact .inl inside
          · rename_i instr _
            split at inside
            · rename_i found parameter
              rcases List.mem_append.mp inside with old | new
              · exact .inl old
              · right
                rw [List.mem_singleton.mp new]
                unfold pointerParameter at parameter
                split at parameter
                · split at parameter
                  · exact (Option.filter_eq_some_iff.mp parameter).2
                  · cases parameter
                · cases parameter
            · have fold : ∀ (writer : Nat) (sources : List Register)
                  (noted : List Nat × Finset (Nat × String)),
                  offset ∈ (sources.foldl (fun st source => traceParameters pointers instrs flow
                    fuel writer source.first st) noted).1 →
                  offset ∈ noted.1 ∨ pointers offset = true := by
                rintro writer sources
                induction sources with
                | nil => exact fun noted present => .inl present
                | cons source rest ihRest =>
                    rintro noted present
                    rw [List.foldl_cons] at present
                    rcases ihRest _ present with earlier | pointer
                    · exact ih _ _ _ earlier
                    · exact .inr pointer
              exact fold _ _ (st.1, insert (use, register) st.2) inside

theorem pointerAt_of_mem_pointerRequests {kernel : Kernel} {offset : Nat} {typeName : String}
    (inside : (offset, typeName) ∈ kernel.pointerRequests) :
    kernel.arguments.pointerAt offset = true := by
  obtain ⟨indexed, -, requested⟩ := List.mem_flatMap.mp inside
  unfold pointerRequest at requested
  split at requested
  · cases requested
  · obtain ⟨found, traced, same⟩ := List.mem_map.mp requested
    cases same
    exact (pointers_of_mem_trace _ _ _ _ traced).resolve_left (List.not_mem_nil)

theorem not_pointerAt_of_mem_vectorRequests {kernel : Kernel} {offset : Nat} {typeName : String}
    (inside : (offset, typeName) ∈ kernel.vectorRequests) :
    kernel.arguments.pointerAt offset = false := by
  obtain ⟨instr, -, requested⟩ := List.mem_filterMap.mp inside
  unfold vectorRequest at requested
  split at requested
  · split at requested
    · obtain ⟨place, -, requested⟩ := Option.bind_eq_some_iff.mp requested
      obtain ⟨argument, found, requested⟩ := Option.bind_eq_some_iff.mp requested
      split at requested
      · cases requested
      · rename_i plain
        cases requested
        unfold KernelArguments.pointerAt
        rw [found, Option.any_some]
        exact Bool.not_eq_true _ ▸ plain
    · cases requested
  · cases requested

/-- The context after the kernels. -/
def contextAfter (context : PassContext) (kernels : List Kernel) : PassContext :=
  kernels.foldl (fun context kernel => (runTypePasses context kernel).1) context

theorem contextAfter_spec (context : PassContext) (kernels : List Kernel) :
    (contextAfter context kernels).argumentTypes =
        context.argumentTypes.setDefaults (kernels.flatMap Kernel.vectorRequests) ∧
      (contextAfter context kernels).pointerArgTypes =
        context.pointerArgTypes.setDefaults (kernels.flatMap Kernel.pointerRequests) := by
  induction kernels generalizing context with
  | nil => exact ⟨rfl, rfl⟩
  | cons kernel rest ih =>
      obtain ⟨vectors, pointers⟩ := ih (runTypePasses context kernel).1
      obtain ⟨vectorMap, pointerMap, -⟩ := runTypePasses_spec context kernel
      rw [vectorMap] at vectors
      rw [pointerMap] at pointers
      rw [List.flatMap_cons, List.flatMap_cons, PyDict.setDefaults_append,
        PyDict.setDefaults_append]
      exact ⟨vectors, pointers⟩

theorem runKernels_append (context : PassContext) (before : List Kernel) (kernel : Kernel)
    (after : List Kernel) :
    (runKernels context (before ++ kernel :: after))[before.length]? =
      some (runTypePasses (contextAfter context before) kernel).2 := by
  induction before generalizing context with
  | nil => rfl
  | cons first rest ih =>
      have later := ih (runTypePasses context first).1
      simpa [runKernels, contextAfter] using later

/-- The first type a kernel asks for at an offset. -/
def firstRequest (requests : List (Nat × String)) (offset : Nat) : Option String :=
  PyDict.findEntry offset requests

/--
Where an earlier kernel has asked for a type at the offset of a parameter, the
first type this kernel asks for there is the one the parameter is declared with.
-/
structure Undisturbed (before : List Kernel) (kernel : Kernel) : Prop where
  vectors : ∀ argument ∈ kernel.arguments.all, ∀ typeName,
    firstRequest kernel.vectorRequests argument.offset = some typeName →
    argument.offset ∈ (before.flatMap Kernel.vectorRequests).map Prod.fst →
    typeName = argument.typeName
  pointers : ∀ argument ∈ kernel.arguments.all, ∀ typeName,
    firstRequest kernel.pointerRequests argument.offset = some typeName →
    argument.offset ∈ (before.flatMap Kernel.pointerRequests).map Prod.fst →
    typeName = argument.typeName

theorem typeName_settle (old : PyDict Nat String) (requests : List (Nat × String))
    (argument : KernelArgument) :
    (settle old (old.setDefaults requests) argument).typeName =
      if old.get? argument.offset = none then
        (firstRequest requests argument.offset).getD argument.typeName
      else argument.typeName := by
  unfold settle
  by_cases absent : old.get? argument.offset = none
  · rw [if_pos absent, if_pos absent, PyDict.get?_setDefaults, absent, Option.none_or]
    unfold firstRequest
    cases PyDict.findEntry argument.offset requests with
    | none => rfl
    | some typeName =>
        dsimp only
        rw [KernelArguments.retype, if_pos rfl]
        rfl
  · rw [if_neg absent, if_neg absent]

/-- The type an argument gets in a context. -/
def typeIn (context : PassContext) (kernel : Kernel) (argument : KernelArgument) : String :=
  let declared :=
    if context.argumentTypes.get? argument.offset = none then
      (firstRequest kernel.vectorRequests argument.offset).getD argument.typeName
    else argument.typeName
  if context.pointerArgTypes.get? argument.offset = none then
    (firstRequest kernel.pointerRequests argument.offset).getD declared
  else declared

theorem types_runTypePasses (context : PassContext) (kernel : Kernel) :
    (runTypePasses context kernel).2.types =
      kernel.arguments.all.map (typeIn context kernel) := by
  obtain ⟨-, -, all⟩ := runTypePasses_spec context kernel
  unfold KernelArguments.types
  rw [all, List.map_map]
  apply List.map_congr_left
  rintro argument -
  rw [Function.comp_apply, typeName_settle, typeName_settle, offset_settle]
  rfl

theorem typeIn_fresh (kernel : Kernel) (argument : KernelArgument) :
    typeIn .fresh kernel argument =
      (firstRequest kernel.pointerRequests argument.offset).getD
        ((firstRequest kernel.vectorRequests argument.offset).getD argument.typeName) := rfl

theorem get?_eq_none_iff_not_mem (requests : List (Nat × String)) (offset : Nat) :
    ((PyDict.empty : PyDict Nat String).setDefaults requests).get? offset = none ↔
      offset ∉ requests.map Prod.fst := by
  rw [PyDict.get?_setDefaults, PyDict.get?_empty, Option.none_or, PyDict.mem_map_fst_iff,
    Option.not_isSome_iff_eq_none]

theorem mem_of_firstRequest {requests : List (Nat × String)} {offset : Nat} {typeName : String}
    (found : firstRequest requests offset = some typeName) : (offset, typeName) ∈ requests := by
  unfold firstRequest at found
  induction requests with
  | nil => cases found
  | cons request rest ih =>
      unfold PyDict.findEntry at found
      split at found
      · rename_i same
        cases found
        rw [← same]
        exact List.mem_cons_self
      · exact List.mem_cons_of_mem _ (ih found)

/-- A parameter is a vector or a pointer, so at most one of the passes asks for its type. -/
theorem firstRequest_pointer_or_vector (kernel : Kernel) (offset : Nat) :
    firstRequest kernel.pointerRequests offset = none ∨
      firstRequest kernel.vectorRequests offset = none := by
  cases pointer : firstRequest kernel.pointerRequests offset with
  | none => exact .inl rfl
  | some first =>
      right
      cases vector : firstRequest kernel.vectorRequests offset with
      | none => rfl
      | some second =>
          have isPointer := pointerAt_of_mem_pointerRequests (mem_of_firstRequest pointer)
          have notPointer := not_pointerAt_of_mem_vectorRequests (mem_of_firstRequest vector)
          rw [isPointer] at notPointer
          cases notPointer

/-- A first request that an earlier one overtakes is lost, unless it changes nothing. -/
theorem ite_getD_eq_getD_iff (request : Option String) (declared : String) (taken : Prop)
    [Decidable taken] :
    (if ¬taken then request.getD declared else declared) = request.getD declared ↔
      ∀ typeName, request = some typeName → taken → typeName = declared := by
  cases request with
  | none => simp
  | some typeName =>
      by_cases isTaken : taken
      · simp [isTaken, eq_comm]
      · simp [isTaken]

/--
The types of a kernel behind other kernels are those it has alone exactly when
no request of an earlier kernel takes the place of one that changes a type.
-/
theorem runKernels_types_iff (before : List Kernel) (kernel : Kernel) (after : List Kernel) :
    ((runKernels .fresh (before ++ kernel :: after))[before.length]?).map KernelArguments.types =
        ((runKernels .fresh [kernel])[0]?).map KernelArguments.types ↔
      Undisturbed before kernel := by
  obtain ⟨vectorMap, pointerMap⟩ := contextAfter_spec .fresh before
  have alone : (runKernels .fresh [kernel])[0]? = some (runTypePasses .fresh kernel).2 := rfl
  rw [runKernels_append, alone, Option.map_some, Option.map_some, Option.some.injEq,
    types_runTypePasses, types_runTypePasses, List.map_inj_left]
  have pointwise : ∀ argument,
      typeIn (contextAfter .fresh before) kernel argument = typeIn .fresh kernel argument ↔
        (∀ typeName, firstRequest kernel.vectorRequests argument.offset = some typeName →
          argument.offset ∈ (before.flatMap Kernel.vectorRequests).map Prod.fst →
          typeName = argument.typeName) ∧
        (∀ typeName, firstRequest kernel.pointerRequests argument.offset = some typeName →
          argument.offset ∈ (before.flatMap Kernel.pointerRequests).map Prod.fst →
          typeName = argument.typeName) := by
    rintro argument
    rw [typeIn_fresh]
    unfold typeIn
    rw [vectorMap, pointerMap]
    simp only [PassContext.fresh, get?_eq_none_iff_not_mem]
    rcases firstRequest_pointer_or_vector kernel argument.offset with none | none
    · rw [none, Option.getD_none, Option.getD_none, ite_self, ite_getD_eq_getD_iff]
      simp
    · rw [none, Option.getD_none, ite_self, ite_getD_eq_getD_iff]
      simp
  constructor
  · rintro same
    exact ⟨fun argument inside => ((pointwise argument).mp (same argument inside)).1,
      fun argument inside => ((pointwise argument).mp (same argument inside)).2⟩
  · rintro undisturbed argument inside
    exact (pointwise argument).mpr
      ⟨undisturbed.vectors argument inside, undisturbed.pointers argument inside⟩

/-- A kernel that reads an `unsigned int` through its only parameter. -/
def readUint : Kernel where
  arguments := ⟨[⟨⟨true, 0⟩, "__global long", 0, 8, 8⟩], by decide, by decide⟩
  instructions :=
    [.load false (.wide "%rd1") "argptr" (some 0) ⟨.u64, 1⟩,
      .load true (.word "%r1") "%rd1" (some 0) ⟨.u32, 1⟩]
  argPtrKept := by decide

/-- The second of two such kernels keeps the type it is declared with. -/
theorem readUint_twice :
    ((runKernels .fresh [readUint, readUint])[1]?).map KernelArguments.types =
        some ["__global long"] ∧
      ((runKernels .fresh [readUint])[0]?).map KernelArguments.types = some ["__global uint"] := by
  decide

end OpenCLDecompiler.Ptx
