import OpenCLDecompiler.Cfg.Structured

/-!
# Graphs without loops

Instructions that neither branch nor define a label only add nodes below
existing ones.  A run of them leaves a graph whose edges go to later nodes.
-/

namespace OpenCLDecompiler

open Library

/-! ## Loops -/

/-- The data has the same loops. -/
structure SameLoops (before after : DecompilerData) : Prop where
  loops : after.loops = before.loops
  backEdges : after.backEdges = before.backEdges

theorem SameLoops.refl (data : DecompilerData) : SameLoops data data := ⟨rfl, rfl⟩

theorem SameLoops.trans {first second third : DecompilerData} (left : SameLoops first second)
    (right : SameLoops second third) : SameLoops first third :=
  ⟨right.loops.trans left.loops, right.backEdges.trans left.backEdges⟩

theorem makeVersions_loops (state : KernelState) (data : DecompilerData) (regs : List String) :
    SameLoops data (makeVersions state data regs).2 := by
  unfold makeVersions
  induction regs generalizing state data with
  | nil => exact .refl data
  | cons reg rest ih =>
      have head : SameLoops data (makeVersion state data reg).2 := ⟨rfl, rfl⟩
      exact head.trans (ih _ _)

theorem mergeRegister_loops (node : NodeId) (current : Nodes × DecompilerData) (reg : String) :
    SameLoops current.2 (mergeRegister node current reg).2 := by
  unfold mergeRegister
  split
  · exact .refl _
  · dsimp only
    split
    · exact ⟨rfl, rfl⟩
    · exact .refl _

theorem findMaxAndPrevVersions_loops (nodes : Nodes) (data : DecompilerData) (node : NodeId) :
    SameLoops data (findMaxAndPrevVersions nodes data node).2 := by
  have fold (regs : List String) (current : Nodes × DecompilerData) :
      SameLoops current.2 (regs.foldl (mergeRegister node) current).2 := by
    induction regs generalizing current with
    | nil => exact .refl _
    | cons reg rest ih => exact (mergeRegister_loops node current reg).trans (ih _)
  exact fold _ (nodes, data)

theorem toFillNode_loops {nodes : Nodes} {data : DecompilerData} {node : NodeId} {instr : Instr}
    {filled : Nodes × DecompilerData} (forward : backTarget data instr = none)
    (fills : toFillNode nodes data node instr = some filled) : SameLoops data filled.2 := by
  have waits (target : LabelName) (unknown : data.toNode.get? target.text = none) :
      SameLoops data (toFillBranchNode nodes data node target.text).2 := by
    rw [toFillBranchNode, unknown]
    exact ⟨rfl, rfl⟩
  cases instr with
  | plain backend =>
      cases fills
      have written := makeVersions_loops (nodes.state node) data backend.writes
      exact ⟨written.loops, written.backEdges⟩
  | changeMask predicate =>
      obtain ⟨cond, -, rfl⟩ := Option.map_eq_some_iff.mp fills
      exact ⟨rfl, rfl⟩
  | unmask =>
      cases fills
      exact .refl data
  | endPgm =>
      cases fills
      exact .refl data
  | label name =>
      cases fills
      exact ⟨rfl, rfl⟩
  | branch predicate target =>
      cases fills
      exact waits target forward
  | branchNot predicate target =>
      cases fills
      exact waits target forward
  | jump target =>
      cases fills
      exact waits target forward

/-- Only a branch to a known label adds a loop. -/
theorem step_loops {st after : DecompilationState} {instr : Instr}
    (forward : backTarget st.data instr = none) (stepped : step st instr = some after) :
    SameLoops st.data after.data := by
  unfold step at stepped
  obtain ⟨attached, -, stepped⟩ := Option.bind_eq_some_iff.mp stepped
  obtain ⟨filled, fills, stepped⟩ := Option.bind_eq_some_iff.mp stepped
  cases stepped
  dsimp only
  have kept := toFillNode_loops forward fills
  split
  · exact kept.trans (findMaxAndPrevVersions_loops _ _ _)
  · exact kept

/-! ## Runs -/

/-- The edges are recorded on both sides and go to later nodes. -/
structure Upward (st : DecompilationState) : Prop where
  edges : MutualEdges st.nodes
  range : ∀ source target, target ∈ st.nodes.children source →
    source < st.nodes.size ∧ target < st.nodes.size
  upward : ∀ source target, target ∈ st.nodes.children source → source < target
  loops : SameLoops initialData st.data

/-- The graph after instructions without branches. -/
structure LocalInv (st : DecompilationState) : Prop extends EdgeInv st where
  upward : ∀ source target, target ∈ st.nodes.children source → source < target
  loops : SameLoops initialData st.data

theorem LocalInv.graph {st : DecompilationState} (inv : LocalInv st) : Upward st :=
  ⟨inv.edges, inv.range, inv.upward, inv.loops⟩

theorem localInv_initialState : LocalInv initialState where
  toEdgeInv := edgeInv_initialState
  upward source target inside := by
    rw [children_initialState] at inside
    cases inside
  loops := .refl _

theorem localInv_step {st after : DecompilationState} (inv : LocalInv st) {instr : Instr}
    (isLocal : instr.isLocal = true) (stepped : step st instr = some after) : LocalInv after := by
  obtain ⟨attached, found, -⟩ := step_effect inv.valid stepped
  obtain ⟨other, otherStepped, added, -⟩ := exists_step_of_attachment inv.valid isLocal found
  cases Option.some.inj (stepped.symm.trans otherStepped)
  have ok := attachmentOk inv.valid found
  constructor
  case toEdgeInv => exact edgeInv_step inv.toEdgeInv isLocal stepped
  case upward =>
    rintro source target inside
    rw [added.children] at inside
    split at inside
    · cases inside
    · rcases List.mem_append.mp inside with old | new
      · exact inv.upward source target old
      · split at new
        · rename_i isParent
          rw [List.mem_singleton.mp new]
          exact ok.parents source isParent
        · cases new
  case loops =>
    have forward : backTarget st.data instr = none := by
      cases instr <;> first | rfl | cases isLocal
    exact inv.loops.trans (step_loops forward stepped)

theorem localInv_run {instrs : List Instr} {st : DecompilationState}
    (isLocal : ∀ instr ∈ instrs, instr.isLocal = true) (ran : run instrs = some st) : LocalInv st :=
  Run.invariant (fun _ instr inside _ inv stepped => localInv_step inv (isLocal instr inside) stepped)
    localInv_initialState ran

theorem size_runFrom {st final : DecompilationState} {instrs : List Instr} (valid : Valid st)
    (ran : runFrom st instrs = some final) : final.nodes.size = st.nodes.size + instrs.length := by
  induction instrs generalizing st with
  | nil =>
      cases ran
      rfl
  | cons first rest ih =>
      obtain ⟨next, stepped, remaining⟩ := Run.runFrom_cons_eq_some ran
      obtain ⟨attached, -, effect⟩ := step_effect valid stepped
      rw [ih (valid_step valid stepped) remaining, effect.size, List.length_cons]
      exact Nat.succ_add_eq_add_succ st.nodes.size rest.length

/-- Every instruction gives its opcode to the node that is added for it. -/
theorem instruction_runFrom {st final : DecompilationState} {instrs : List Instr} (valid : Valid st)
    (ran : runFrom st instrs = some final) :
    (∀ node, node < st.nodes.size → final.nodes.instruction node = st.nodes.instruction node) ∧
      ∀ index instr, instrs[index]? = some instr →
        final.nodes.instruction (st.nodes.size + index) = instr.opcode := by
  induction instrs generalizing st with
  | nil =>
      cases ran
      exact ⟨fun _ _ => rfl, fun index instr inside => by cases inside⟩
  | cons first rest ih =>
      obtain ⟨next, stepped, remaining⟩ := Run.runFrom_cons_eq_some ran
      obtain ⟨attached, -, effect⟩ := step_effect valid stepped
      obtain ⟨kept, later⟩ := ih (valid_step valid stepped) remaining
      rw [effect.size] at kept later
      refine ⟨fun node old => ?_, fun index instr inside => ?_⟩
      · rw [kept node (Nat.lt_succ_of_lt old), effect.instruction, if_neg (Nat.ne_of_lt old)]
      · cases index with
        | zero =>
            cases inside
            rw [Nat.add_zero, kept _ (Nat.lt_succ_self _), effect.instruction, if_pos rfl]
        | succ index =>
            rw [← later index instr inside]
            congr 1
            exact (Nat.succ_add_eq_add_succ st.nodes.size index).symm

end OpenCLDecompiler
