import OpenCLDecompiler.Amd.Modules

/-!
# One kernel of a module against the same kernel alone

What a kernel of a module gets from the kernels before it: the references they
made, the name of the first of them among the bytes, and their temporaries.
-/

namespace OpenCLDecompiler.Amd

/-! ## What the parser hands out -/

def dataBytes (data : List Line) : List String := data.flatMap fun line => Row.bytes (.line line)

namespace KernelText

def references (kernel : KernelText) : List Line :=
  kernel.text.filter fun line => line.reference.isSome

/-- The offsets at which the kernel reads the global data. -/
def offsets (kernel : KernelText) : List Nat := kernel.text.filterMap Line.reference

/-- The state of the parser behind the kernel. -/
def behind (kernel : KernelText) (references : List Line) (bytes : List String) : ParseState :=
  ⟨.instruction, kernel.name, kernel.config.map .line, kernel.text, references, bytes⟩

theorem references_offsets (kernel : KernelText) :
    kernel.references.filterMap Line.reference = kernel.offsets := by
  simp only [references, offsets, List.filterMap_filter]
  congr 1
  funext line
  cases line.reference <;> rfl

end KernelText

theorem parseFrom_header (st : ParseState) (start : st.status = .start) (lines : List Line)
    (rest : List Row) : parseFrom st (lines.map .line ++ rest) = parseFrom st rest := by
  induction lines with
  | nil => rfl
  | cons line lines ih =>
      have same : st.collect (.line line) = st := by
        simp [ParseState.collect, start]
      simpa [parseFrom, ParseState.step, same] using ih

theorem parseFrom_data (st : ParseState) (inside : st.status = .globalData) (lines : List Line)
    (rest : List Row) :
    parseFrom st (lines.map .line ++ rest) =
      parseFrom { st with bytes := st.bytes ++ dataBytes lines } rest := by
  induction lines generalizing st with
  | nil => simp [dataBytes]
  | cons line lines ih =>
      have collected : st.collect (.line line) =
          { st with bytes := st.bytes ++ Row.bytes (.line line) } := by
        simp [ParseState.collect, inside]
      have later := ih { st with bytes := st.bytes ++ Row.bytes (.line line) } inside
      simpa [parseFrom, ParseState.step, collected, dataBytes] using later

theorem parseFrom_config (st : ParseState) (inside : st.status = .config) (lines : List Line)
    (rest : List Row) :
    parseFrom st (lines.map .line ++ rest) =
      parseFrom { st with config := st.config ++ lines.map .line } rest := by
  induction lines generalizing st with
  | nil => simp
  | cons line lines ih =>
      have collected : st.collect (.line line) =
          { st with config := st.config ++ [.line line] } := by
        simp [ParseState.collect, inside]
      have later := ih { st with config := st.config ++ [.line line] } inside
      simpa [parseFrom, ParseState.step, collected] using later

theorem parseFrom_text (st : ParseState) (inside : st.status = .instruction) (lines : List Line)
    (rest : List Row) :
    parseFrom st (lines.map .line ++ rest) =
      parseFrom { st with
        instructions := st.instructions ++ lines
        references := st.references ++ lines.filter fun line => line.reference.isSome } rest := by
  induction lines generalizing st with
  | nil => simp
  | cons line lines ih =>
      have later := ih { st with
        references := if line.reference.isSome then st.references ++ [line] else st.references
        instructions := st.instructions ++ [line] } inside
      have collected : st.collect (.line line) = { st with
          references := if line.reference.isSome then st.references ++ [line] else st.references
          instructions := st.instructions ++ [line] } := by
        simp [ParseState.collect, inside]
      cases reads : line.reference.isSome <;>
        simpa [parseFrom, ParseState.step, collected, reads] using later

/-- The rows behind the name of a kernel. -/
theorem parseFrom_body (st : ParseState) (kernel : KernelText) (rest : List Row)
    (config : st.config = []) (instructions : st.instructions = []) :
    parseFrom st (.config :: kernel.config.map .line ++ .text :: kernel.text.map .line ++ rest) =
      parseFrom { kernel.behind (st.references ++ kernel.references) st.bytes with
        name := st.name } rest := by
  rw [List.append_assoc, List.cons_append]
  simp only [parseFrom, ParseState.step, Option.toList_none, List.nil_append]
  rw [parseFrom_config _ rfl]
  rw [List.cons_append]
  simp only [parseFrom, ParseState.step, Option.toList_none, List.nil_append]
  rw [parseFrom_text _ rfl]
  simp [KernelText.behind, KernelText.references, config, instructions]

/-- The name of the first kernel is taken for a row of the global data. -/
theorem parseFrom_first (kernel : KernelText) (bytes : List String) (name : String)
    (rest : List Row) :
    parseFrom ⟨.globalData, name, [], [], [], bytes⟩ (kernel.rows ++ rest) =
      parseFrom (kernel.behind kernel.references (bytes ++ [kernel.name])) rest := by
  have body := parseFrom_body ⟨.globalData, kernel.name, [], [], [], bytes ++ [kernel.name]⟩
    kernel rest rfl rfl
  simpa [KernelText.rows, parseFrom, ParseState.step, ParseState.collect, Row.bytes,
    KernelText.behind] using body

theorem parseFrom_next (previous kernel : KernelText) (references : List Line)
    (bytes : List String) (rest : List Row) :
    parseFrom (previous.behind references bytes) (kernel.rows ++ rest) =
      (previous.behind references bytes).functionData ::
        parseFrom (kernel.behind (references ++ kernel.references) bytes) rest := by
  have body := parseFrom_body ⟨.kernel, kernel.name, [], [], references, bytes⟩
    kernel rest rfl rfl
  simpa [KernelText.rows, parseFrom, ParseState.step, KernelText.behind] using body

/-- The kernels as `parse_kernel` yields them, with the references carried on. -/
def carried (references : List Line) (bytes : List String) : List KernelText → List FunctionData
  | [] => []
  | kernel :: rest =>
      (kernel.behind (references ++ kernel.references) bytes).functionData ::
        carried (references ++ kernel.references) bytes rest

theorem parseFrom_kernels (kernel : KernelText) (references : List Line) (bytes : List String)
    (kernels : List KernelText) :
    parseFrom (kernel.behind references bytes) (kernels.flatMap KernelText.rows) =
      (kernel.behind references bytes).functionData :: carried references bytes kernels := by
  induction kernels generalizing kernel references with
  | nil => rfl
  | cons next kernels ih =>
      rw [List.flatMap_cons, parseFrom_next, ih]
      rfl

theorem parseKernel_module (header data : List Line) (kernel : KernelText)
    (kernels : List KernelText) :
    parseKernel (moduleRows header data (kernel :: kernels)) =
      carried [] (dataBytes data ++ [kernel.name]) (kernel :: kernels) := by
  unfold parseKernel moduleRows
  rw [List.append_assoc, parseFrom_header _ rfl, List.cons_append]
  simp only [parseFrom, ParseState.step, Option.toList_none, List.nil_append]
  rw [parseFrom_data _ rfl, List.flatMap_cons]
  have first := parseFrom_first kernel (dataBytes data) "" (kernels.flatMap KernelText.rows)
  rw [parseFrom_kernels] at first
  exact first

theorem carried_append (references : List Line) (bytes : List String)
    (before after : List KernelText) :
    carried references bytes (before ++ after) =
      carried references bytes before ++
        carried (references ++ before.flatMap KernelText.references) bytes after := by
  induction before generalizing references with
  | nil => simp [carried]
  | cons kernel before ih => simp [carried, ih, List.append_assoc]

theorem carried_length (references : List Line) (bytes : List String)
    (kernels : List KernelText) : (carried references bytes kernels).length = kernels.length := by
  induction kernels generalizing references with
  | nil => rfl
  | cons kernel kernels ih => simp [carried, ih]

/-! ## Sorted offsets and slices -/

theorem sortedSet_eq_iff (offsets others : List Nat) :
    sortedSet offsets = sortedSet others ↔ ∀ offset, offset ∈ offsets ↔ offset ∈ others := by
  constructor
  · intro same offset
    rw [← mem_sortedSet, same, mem_sortedSet]
  · intro same
    have perm : offsets.dedup.Perm others.dedup := by
      apply (List.perm_ext_iff_of_nodup (List.nodup_dedup _) (List.nodup_dedup _)).mpr
      simpa using same
    have sorted (list : List Nat) : (list.insertionSort (· ≤ ·)).Pairwise (· ≤ ·) :=
      List.pairwise_insertionSort _ list
    refine List.Perm.eq_of_pairwise (fun _ _ _ _ => Nat.le_antisymm) (sorted _) (sorted _) ?_
    exact ((List.perm_insertionSort _ _).trans perm).trans (List.perm_insertionSort _ _).symm

theorem slices_names (bytes : List String) (offsets : List Nat) :
    (slices bytes offsets).map Prod.fst = offsets.map GdataName.mk := by
  induction offsets with
  | nil => rfl
  | cons offset rest ih =>
      cases rest with
      | nil => rfl
      | cons next rest => simp [slices, ih]

theorem slice_last_eq_iff {first second : String} (differ : first ≠ second)
    (bytes : List String) (offset last : Nat) (covered : bytes.length < last) :
    slice (bytes ++ [first]) offset last = slice (bytes ++ [second]) offset last ↔
      bytes.length < offset := by
  constructor
  · intro same
    by_contra inside
    have entry : (slice (bytes ++ [first]) offset last)[bytes.length - offset]? =
        (slice (bytes ++ [second]) offset last)[bytes.length - offset]? := by rw [same]
    have place : offset + (bytes.length - offset) = bytes.length := by omega
    have short : bytes.length - offset < last - offset := by omega
    simp [slice, short, place] at entry
    exact differ entry
  · intro behind
    have empty (byte : String) : (bytes ++ [byte]).drop offset = [] := by
      apply List.drop_eq_nil_of_le
      simp only [List.length_append, List.length_singleton]
      omega
    simp [slice, empty]

/-- Two last bytes give the same arrays when they are equal or behind every array. -/
theorem slices_eq_iff (bytes : List String) (first second : String) (offsets : List Nat)
    (sorted : offsets.Pairwise (· ≤ ·)) :
    slices (bytes ++ [first]) offsets = slices (bytes ++ [second]) offsets ↔
      first = second ∨ ∀ offset ∈ offsets, bytes.length < offset := by
  by_cases differ : first = second
  · simp [differ]
  induction offsets with
  | nil => simp [slices]
  | cons offset rest ih =>
      cases rest with
      | nil =>
          have last := slice_last_eq_iff differ bytes offset (bytes.length + 1)
            (Nat.lt_succ_self _)
          simpa [slices, differ] using last
      | cons next rest =>
          have tail := ih (List.pairwise_cons.mp sorted).2
          have below : offset ≤ next := (List.pairwise_cons.mp sorted).1 next List.mem_cons_self
          simp only [slices, List.cons.injEq, Prod.mk.injEq, true_and, tail, differ, false_or]
          constructor
          · rintro ⟨head, behind⟩ place member
            cases List.mem_cons.mp member with
            | inl here =>
                have covered := behind next List.mem_cons_self
                rw [here]
                exact (slice_last_eq_iff differ bytes offset next covered).mp head
            | inr there => exact behind place there
          · intro behind
            have covered : bytes.length < next := by
              have := behind offset List.mem_cons_self
              omega
            exact ⟨(slice_last_eq_iff differ bytes offset next covered).mpr
                (behind offset List.mem_cons_self),
              fun place member => behind place (List.mem_cons_of_mem _ member)⟩

/-- The offset in a reference is the one in the name of its array. -/
theorem gdataName_eq (references : List Line) (offset : Nat) :
    gdataName references offset = ⟨offset⟩ := by
  unfold gdataName
  cases found : (gdataOffsets references).find? (· = offset) with
  | none => rfl
  | some place =>
      have same := List.find?_some found
      simp only [decide_eq_true_eq] at same
      rw [same]
      rfl

theorem parseInstructionLine_eq (references : List Line) (line : Line) :
    parseInstructionLine references line = parseInstructionLine [] line := by
  have same : parseOperand references = parseOperand [] := by
    funext operand
    cases operand <;> simp [parseOperand, gdataName_eq]
  unfold parseInstructionLine
  rw [same]

/-! ## Temporaries -/

theorem generate_counters (counters : Counters) (names : List String) :
    (generate counters names).2 = fun name => counters name + names.count name := by
  induction names generalizing counters with
  | nil => rfl
  | cons name names ih =>
      funext other
      simp only [generate, ih, List.count_cons, Function.update_apply]
      by_cases same : other = name
      · simp only [same, if_true, beq_self_eq_true]
        omega
      · simp [same, Ne.symm same]

theorem generate_eq_iff (counters others : Counters) (names : List String) :
    (generate counters names).1 = (generate others names).1 ↔
      ∀ name ∈ names, counters name = others name := by
  induction names generalizing counters others with
  | nil => simp [generate]
  | cons name names ih =>
      simp only [generate, List.cons.injEq, TempName.mk.injEq, true_and, ih,
        Function.update_apply, List.forall_mem_cons]
      constructor
      · rintro ⟨head, tail⟩
        refine ⟨head, fun other member => ?_⟩
        have later := tail other member
        by_cases same : other = name
        · rw [same]
          exact head
        · simpa [same] using later
      · rintro ⟨head, tail⟩
        refine ⟨head, fun other member => ?_⟩
        by_cases same : other = name
        · simp [same, head]
        · simpa [same] using tail other member

section Lowering

variable {κ ι : Type} (lowering : Lowering κ ι)

/-- The temporaries of a list of instructions, in order. -/
def tempNames (instrs : List (String × List Operand)) : List String :=
  instrs.flatMap fun instr => lowering.temps instr.1 instr.2

theorem emitAll_counters (counters : Counters) (instrs : List (String × List Operand)) :
    (emitAll lowering counters instrs).2 =
      fun name => counters name + (tempNames lowering instrs).count name := by
  induction instrs generalizing counters with
  | nil => rfl
  | cons instr instrs ih =>
      funext name
      simp only [emitAll, ih, generate_counters, tempNames, List.flatMap_cons, List.count_append]
      omega

theorem emitAll_eq_iff (counters others : Counters) (instrs : List (String × List Operand)) :
    (emitAll lowering counters instrs).1 = (emitAll lowering others instrs).1 ↔
      ∀ name ∈ tempNames lowering instrs, counters name = others name := by
  induction instrs generalizing counters others with
  | nil => simp [emitAll, tempNames]
  | cons instr instrs ih =>
      simp only [emitAll, List.cons.injEq, Emitted.mk.injEq, true_and, ih, generate_eq_iff,
        generate_counters, tempNames, List.flatMap_cons, List.forall_mem_append]
      constructor
      · rintro ⟨head, tail⟩
        exact ⟨head, fun name member => by simpa using tail name member⟩
      · rintro ⟨head, tail⟩
        exact ⟨head, fun name member => by simpa using tail name member⟩

/-- The instructions of a kernel with their operands. -/
def KernelText.instrs (kernel : KernelText) : List (String × List Operand) :=
  kernel.text.filterMap (parseInstructionLine [])

/-- The temporaries of a kernel. -/
def KernelText.temps (kernel : KernelText) : List String := tempNames lowering kernel.instrs

/-- The kernel that `text_to_ir` builds from a text, with what it takes from the rest of the file. -/
def KernelText.ir (kernel : KernelText) (counters : Counters) (references : List Line)
    (bytes : List String) : IrKernel κ ι :=
  let config := lowering.config (kernel.config.map .line)
  ⟨kernel.name, config, processGlobalData references bytes,
    (emitAll lowering counters kernel.instrs).1,
    localMemory (localOffsets kernel.instrs) (lowering.localSize config)⟩

theorem textToIr_behind (kernel : KernelText) (counters : Counters) (references : List Line)
    (bytes : List String) :
    textToIr lowering counters (kernel.behind references bytes).functionData =
      (kernel.ir lowering counters references bytes,
        fun name => counters name + (kernel.temps lowering).count name) := by
  have same : parseInstructionLine references = parseInstructionLine [] := by
    funext line
    exact parseInstructionLine_eq references line
  simp only [textToIr, KernelText.behind, ParseState.functionData, same]
  refine Prod.ext rfl ?_
  exact emitAll_counters lowering counters kernel.instrs

/-- The kernel behind `before` gets what all of these have left. -/
theorem buildKernels_carried (counters : Counters) (references : List Line)
    (bytes : List String) (before : List KernelText) (kernel : KernelText)
    (after : List KernelText) :
    (buildKernels lowering counters
        (carried references bytes (before ++ kernel :: after)))[before.length]? =
      some (kernel.ir lowering
        (fun name => counters name + (before.flatMap (KernelText.temps lowering)).count name)
        (references ++ before.flatMap KernelText.references ++ kernel.references) bytes) := by
  induction before generalizing counters references with
  | nil => simp [carried, buildKernels, textToIr_behind]
  | cons first before ih =>
      simp only [List.cons_append, carried, buildKernels, textToIr_behind, List.length_cons,
        List.getElem?_cons_succ, ih, List.flatMap_cons, List.count_append, List.append_assoc,
        Nat.add_assoc]

theorem KernelText.ir_eq_iff (kernel : KernelText) (counters others : Counters)
    (references own : List Line) (bytes : List String) (first second : String) :
    kernel.ir lowering counters references (bytes ++ [first]) =
        kernel.ir lowering others own (bytes ++ [second]) ↔
      processGlobalData references (bytes ++ [first]) =
          processGlobalData own (bytes ++ [second]) ∧
        ∀ name ∈ kernel.temps lowering, counters name = others name := by
  simp only [KernelText.ir, IrKernel.mk.injEq, true_and, and_true, emitAll_eq_iff,
    KernelText.temps]

theorem processGlobalData_eq_iff (references own : List Line) (bytes : List String)
    (first second : String) :
    processGlobalData references (bytes ++ [first]) =
        processGlobalData own (bytes ++ [second]) ↔
      (∀ offset, offset ∈ references.filterMap Line.reference ↔
          offset ∈ own.filterMap Line.reference) ∧
        (first = second ∨ ∀ offset ∈ own.filterMap Line.reference, bytes.length < offset) := by
  unfold processGlobalData gdataOffsets
  constructor
  · intro same
    have names := congrArg (List.map Prod.fst) same
    rw [slices_names, slices_names] at names
    have offsets := List.map_injective_iff.mpr (fun _ _ => GdataName.mk.inj) names
    rw [offsets, slices_eq_iff _ _ _ _ (sortedSet_pairwise _)] at same
    exact ⟨(sortedSet_eq_iff _ _).mp offsets, by simpa [mem_sortedSet] using same⟩
  · rintro ⟨offsets, last⟩
    rw [(sortedSet_eq_iff _ _).mpr offsets, slices_eq_iff _ _ _ _ (sortedSet_pairwise _)]
    simpa [mem_sortedSet] using last

/-! ## Isolation -/

/-- A kernel takes nothing over from the kernels before it. -/
structure Isolated (data : List Line) (before : List KernelText) (kernel : KernelText) :
    Prop where
  references : ∀ earlier ∈ before, ∀ offset ∈ earlier.offsets, offset ∈ kernel.offsets
  bytes : (before.map KernelText.name).headD kernel.name = kernel.name ∨
    ∀ offset ∈ kernel.offsets, (dataBytes data).length < offset
  temps : ∀ earlier ∈ before, ∀ name ∈ earlier.temps lowering, name ∉ kernel.temps lowering

/-- A kernel of a module is built as if it were alone exactly when it is isolated. -/
theorem buildModule_alone_iff (header data : List Line) (before : List KernelText)
    (kernel : KernelText) (after : List KernelText) :
    (buildModule lowering (moduleRows header data (before ++ kernel :: after)))[before.length]? =
        (buildModule lowering (moduleRows header data [kernel]))[0]? ↔
      Isolated lowering data before kernel := by
  have rows : parseKernel (moduleRows header data (before ++ kernel :: after)) =
      carried [] (dataBytes data ++ [(before.map KernelText.name).headD kernel.name])
        (before ++ kernel :: after) := by
    cases before with
    | nil => exact parseKernel_module header data kernel after
    | cons first before => exact parseKernel_module header data first (before ++ kernel :: after)
  have whole := buildKernels_carried lowering (fun _ => 0) []
    (dataBytes data ++ [(before.map KernelText.name).headD kernel.name]) before kernel after
  have alone := buildKernels_carried lowering (fun _ => 0) [] (dataBytes data ++ [kernel.name])
    [] kernel []
  unfold buildModule
  rw [rows, whole, parseKernel_module]
  rw [List.nil_append, List.length_nil] at alone
  rw [alone, Option.some.injEq, KernelText.ir_eq_iff, processGlobalData_eq_iff]
  simp only [List.nil_append, List.flatMap_nil, List.filterMap_append,
    KernelText.references_offsets, List.count_nil, Nat.zero_add, List.count_eq_zero,
    List.mem_append, List.filterMap_flatMap, List.mem_flatMap, not_exists, not_and]
  constructor
  · rintro ⟨⟨references, bytes⟩, temps⟩
    constructor
    · intro earlier member offset reads
      exact (references offset).mp (.inl ⟨earlier, member, reads⟩)
    · exact bytes
    · intro earlier member name used own
      exact temps name own earlier member used
  · intro isolated
    refine ⟨⟨fun offset => ⟨?_, .inr⟩, isolated.bytes⟩, ?_⟩
    · rintro (⟨earlier, member, reads⟩ | own)
      · exact isolated.references earlier member offset reads
      · exact own
    · intro name own earlier member used
      exact isolated.temps earlier member name used own

end Lowering

/-- The lowering that keeps every instruction. -/
def keepAll : Lowering Unit (String × List Operand) where
  config _ := ()
  localSize _ := none
  temps _ _ := []
  emit opcode operands := [(opcode, operands)]

/-- `s_add_u32 s2, s2, .gdata+offset` in a kernel. -/
def readsAt (name : String) (offset : Nat) : KernelText :=
  ⟨name, [⟨".dims", [.token "x"]⟩], [⟨"s_add_u32", [.token "s2", .token "s2", .gdata offset]⟩]⟩

/-- The second kernel has the array of the first one, and the name of the first one as a byte. -/
theorem buildModule_second_differs :
    (buildModule keepAll (moduleRows [] [⟨".byte", [.token "0x01", .token "0x02"]⟩]
        [readsAt "first" 0, readsAt "second" 1]))[1]? ≠
      (buildModule keepAll (moduleRows [] [⟨".byte", [.token "0x01", .token "0x02"]⟩]
        [readsAt "second" 1]))[0]? := by
  decide

end OpenCLDecompiler.Amd
