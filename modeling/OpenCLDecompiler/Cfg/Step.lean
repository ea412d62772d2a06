import OpenCLDecompiler.Cfg.Frame

/-!
# One step of the pass

`step_effect` says everything a step does to the edges and tables; `Valid` is
the range invariant it needs and keeps.
-/

namespace OpenCLDecompiler

open Library

/-- The label text an instruction branches to. -/
def Instr.target? : Instr → Option String
  | .branch _ target | .branchNot _ target | .jump target => some target.text
  | _ => none

/-- The label text an instruction defines. -/
def Instr.label? : Instr → Option String
  | .label name => some name.text
  | _ => none

def Instr.isJump : Instr → Bool
  | .jump _ => true
  | _ => false

theorem opcode_eq_jump_iff (instr : Instr) : instr.opcode = jumpOpcode ↔ instr.isJump = true := by
  cases instr with
  | plain node => simpa [Instr.opcode, Instr.isJump] using node.noJump
  | label name =>
      refine ⟨fun equal => ?_, fun impossible => by cases impossible⟩
      have dotted := name.dotted
      rw [show name.text = jumpOpcode from equal] at dotted
      exact absurd dotted (by decide)
  | changeMask predicate => simp [Instr.opcode, Instr.isJump, jumpOpcode]
  | unmask => simp [Instr.opcode, Instr.isJump, jumpOpcode]
  | endPgm => simp [Instr.opcode, Instr.isJump, jumpOpcode]
  | branch predicate target => simp [Instr.opcode, Instr.isJump, jumpOpcode]
  | branchNot predicate target => simp [Instr.opcode, Instr.isJump, jumpOpcode]
  | jump target => simp [Instr.opcode, Instr.isJump]

/-! ## Tables -/

def filledToNode (data : DecompilerData) (node : NodeId) (instr : Instr) : PyDict String NodeId :=
  match instr.label? with
  | some text => data.toNode.set text node
  | none => data.toNode

/-- A branch to a label not seen yet joins the waiting list of that label. -/
def filledFromNode (data : DecompilerData) (node : NodeId) (instr : Instr) :
    PyDict String (List NodeId) :=
  match instr.target? with
  | some text =>
      if (data.toNode.get? text).isSome then data.fromNode
      else data.fromNode.set text ((data.fromNode.get? text).getD [] ++ [node])
  | none => data.fromNode

def filledExecRegisters (data : DecompilerData) : Instr → PyDict String ExecCondition
  | .plain backend => backend.execWrites.foldl
      (fun registers entry => registers.set entry.1 entry.2) data.execRegisters
  | _ => data.execRegisters

theorem toFillBranchNode_tables (nodes : Nodes) (data : DecompilerData) (node : NodeId)
    {instr : Instr} {text : String} (target : instr.target? = some text)
    (label : instr.label? = none) :
    (toFillBranchNode nodes data node text).2.toNode = filledToNode data node instr ∧
      (toFillBranchNode nodes data node text).2.fromNode = filledFromNode data node instr ∧
      (toFillBranchNode nodes data node text).2.execRegisters = data.execRegisters := by
  unfold toFillBranchNode filledToNode filledFromNode
  rw [target, label]
  cases found : data.toNode.get? text <;> simp [found]

theorem toFillNode_tables {nodes : Nodes} {data : DecompilerData} {node : NodeId} {instr : Instr}
    {filled : Nodes × DecompilerData} (done : toFillNode nodes data node instr = some filled) :
    filled.2.toNode = filledToNode data node instr ∧
      filled.2.fromNode = filledFromNode data node instr ∧
      filled.2.execRegisters = filledExecRegisters data instr := by
  cases instr with
  | plain backend =>
      cases done
      have kept := (makeVersions_frame (nodes.state node) data backend.writes).2
      refine ⟨kept.toNode, kept.fromNode, ?_⟩
      change backend.execWrites.foldl _ (makeVersions _ data _).2.execRegisters = _
      rw [kept.execRegisters]
      rfl
  | changeMask predicate =>
      obtain ⟨cond, _, rfl⟩ := Option.map_eq_some_iff.mp done
      exact ⟨rfl, rfl, rfl⟩
  | unmask =>
      cases done
      exact ⟨rfl, rfl, rfl⟩
  | endPgm =>
      cases done
      exact ⟨rfl, rfl, rfl⟩
  | label name =>
      cases done
      exact ⟨rfl, rfl, rfl⟩
  | branch predicate target =>
      cases done
      exact toFillBranchNode_tables nodes data node rfl rfl
  | branchNot predicate target =>
      cases done
      exact toFillBranchNode_tables nodes data node rfl rfl
  | jump target =>
      cases done
      exact toFillBranchNode_tables nodes data node rfl rfl

/-! ## Mask conditions -/

theorem getExec_setState (nodes : Nodes) {node : NodeId} (inside : node < nodes.size) (id : NodeId)
    (state : KernelState) :
    (nodes.setState node state).getExec id =
      if id = node then state.maskExec else nodes.getExec id := by
  unfold Nodes.getExec
  rw [Nodes.state_setState _ _ _ inside]
  split <;> rfl

theorem getExec_toFillBranchNode (nodes : Nodes) (data : DecompilerData) (node : NodeId)
    (target : String) (id : NodeId) :
    (toFillBranchNode nodes data node target).1.getExec id = nodes.getExec id := by
  unfold toFillBranchNode Nodes.getExec
  cases data.toNode.get? target <;> simp

theorem toFillNode_getExec {nodes : Nodes} {data : DecompilerData} {node : NodeId} {instr : Instr}
    {filled : Nodes × DecompilerData} (nodeIn : node < nodes.size)
    (noLabel : instr.label? = none) (done : toFillNode nodes data node instr = some filled)
    (id : NodeId) :
    filled.1.getExec id =
      if id = node then filledExec data (nodes.getExec node) instr else nodes.getExec id := by
  cases instr with
  | plain backend =>
      cases done
      rw [getExec_setState nodes nodeIn, (makeVersions_frame _ data backend.writes).1]
      rfl
  | changeMask predicate =>
      obtain ⟨cond, found, rfl⟩ := Option.map_eq_some_iff.mp done
      rw [getExec_setState nodes nodeIn]
      simp [filledExec, found]
  | unmask =>
      cases done
      rw [getExec_setState nodes nodeIn]
      rfl
  | endPgm =>
      cases done
      rw [getExec_setState nodes nodeIn]
      rfl
  | label name => cases noLabel
  | branch predicate target =>
      cases done
      rw [getExec_toFillBranchNode]
      split
      · rename_i here
        rw [here]
        rfl
      · rfl
  | branchNot predicate target =>
      cases done
      rw [getExec_toFillBranchNode]
      split
      · rename_i here
        rw [here]
        rfl
      · rfl
  | jump target =>
      cases done
      rw [getExec_toFillBranchNode]
      split
      · rename_i here
        rw [here]
        rfl
      · rfl

/-! ## The range invariant -/

/-- Every node identity in the state of the pass has been allocated. -/
structure Valid (st : DecompilationState) : Prop where
  last : st.lastNode < st.nodes.size
  range : InRange st.nodes st.data st.maskedBlocks

theorem closedParent_lt {nodes : Nodes} {data : DecompilerData} {masks : List OpenMask}
    (range : InRange nodes data masks) {openMask : OpenMask} (inside : openMask ∈ masks) :
    openMask.closedParent < nodes.size := by
  unfold OpenMask.closedParent
  cases stored : openMask.previousBranchEnd with
  | none => exact range.changeMask openMask inside
  | some node => exact range.branchEnd openMask inside node (by rw [stored]; rfl)

theorem mem_appendUniqueNode {parents : List NodeId} {node other : NodeId} :
    other ∈ appendUniqueNode parents node ↔ other ∈ parents ∨ other = node := by
  unfold appendUniqueNode
  split
  · rename_i present
    constructor
    · exact Or.inl
    · rintro (old | rfl)
      · exact old
      · exact present
  · simp

theorem nodup_appendUniqueNode {parents : List NodeId} (nodup : parents.Nodup) (node : NodeId) :
    (appendUniqueNode parents node).Nodup := by
  unfold appendUniqueNode
  split
  · exact nodup
  · rename_i absent
    exact List.nodup_append.mpr ⟨nodup, List.nodup_singleton node, by
      rintro old present other single rfl
      exact absent (List.mem_singleton.mp single ▸ present)⟩

/-- Closing keeps a suffix of the masks and adds parents that the closed masks name. -/
theorem closeOpenMasks_spec (nodes : Nodes) (cond : ExecCondition) (masks : List OpenMask)
    (parents : List NodeId) (nodup : parents.Nodup) :
    (closeOpenMasks nodes cond masks parents).1 <:+ masks ∧
      (closeOpenMasks nodes cond masks parents).2.Nodup ∧
      ∀ node ∈ (closeOpenMasks nodes cond masks parents).2,
        node ∈ parents ∨ ∃ openMask ∈ masks, node = openMask.closedParent := by
  induction masks generalizing parents with
  | nil => exact ⟨List.suffix_refl _, nodup, fun _ => Or.inl⟩
  | cons innermost outer ih =>
      cases outer with
      | nil => exact ⟨List.suffix_refl _, nodup, fun _ => Or.inl⟩
      | cons next rest =>
          unfold closeOpenMasks
          split
          · obtain ⟨suffix, closedNodup, named⟩ := ih
              (appendUniqueNode parents innermost.closedParent)
              (nodup_appendUniqueNode nodup _)
            refine ⟨suffix.trans (List.suffix_cons _ _), closedNodup, fun node inside => ?_⟩
            rcases named node inside with grown | ⟨openMask, present, equal⟩
            · rcases mem_appendUniqueNode.mp grown with old | here
              · exact Or.inl old
              · exact Or.inr ⟨innermost, List.mem_cons_self, here⟩
            · exact Or.inr ⟨openMask, List.mem_cons_of_mem _ present, equal⟩
          · exact ⟨List.suffix_refl _, nodup, fun _ => Or.inl⟩

theorem findOpenMask_suffix {nodes : Nodes} {cond : ExecCondition} {masks : List OpenMask}
    {branch : OpenMask} {outer : List OpenMask}
    (found : findOpenMask nodes cond masks = some (branch, outer)) : branch :: outer <:+ masks := by
  induction masks with
  | nil => cases found
  | cons innermost rest ih =>
      unfold findOpenMask at found
      split at found
      · cases found
        exact List.suffix_refl _
      · exact (ih found).trans (List.suffix_cons _ _)

theorem masksKeptByElse_subset (nodes : Nodes) (parentCond : ExecCondition) (branch : OpenMask)
    (outer : List OpenMask) :
    ∀ openMask ∈ masksKeptByElse nodes parentCond branch outer, openMask ∈ branch :: outer := by
  intro openMask inside
  unfold masksKeptByElse at inside
  split at inside
  · rename_i found
    exact List.mem_cons_of_mem _ ((findOpenMask_suffix found).subset inside)
  · split at inside
    · exact List.mem_cons.mpr (Or.inl (List.mem_singleton.mp inside))
    · exact List.mem_cons_of_mem _ inside

theorem fallthroughParents_subset (st : DecompilationState) :
    ∀ parent ∈ fallthroughParents st, parent = st.lastNode := by
  intro parent inside
  unfold fallthroughParents at inside
  split at inside
  · cases inside
  · exact List.mem_singleton.mp inside

theorem nodup_fallthroughParents (st : DecompilationState) : (fallthroughParents st).Nodup := by
  unfold fallthroughParents
  split
  · exact List.nodup_nil
  · exact List.nodup_singleton _

/-- What an attachment may contain: old nodes, without repetition. -/
structure AttachmentOk (st : DecompilationState) (attached : Attachment) : Prop where
  nodup : attached.parents.Nodup
  parents : ∀ parent ∈ attached.parents, parent < st.nodes.size
  masks : ∀ node, ∀ openMask ∈ attached.masksAfter node, openMask ∈ st.maskedBlocks ∨
    openMask = ⟨node, none⟩ ∨ openMask = ⟨node, some st.lastNode⟩

theorem attachmentOk_closing {st : DecompilationState} (valid : Valid st) (cond : ExecCondition)
    (state : KernelState) :
    AttachmentOk st
      ⟨(closeOpenMasks st.nodes cond st.maskedBlocks (fallthroughParents st)).2, state,
        fun _ => (closeOpenMasks st.nodes cond st.maskedBlocks (fallthroughParents st)).1⟩ := by
  obtain ⟨suffix, nodup, named⟩ := closeOpenMasks_spec st.nodes cond st.maskedBlocks
    (fallthroughParents st) (nodup_fallthroughParents st)
  refine ⟨nodup, fun parent inside => ?_, fun _ openMask inside => Or.inl (suffix.subset inside)⟩
  rcases named parent inside with old | ⟨openMask, present, equal⟩
  · rw [fallthroughParents_subset st parent old]
    exact valid.last
  · rw [equal]
    exact closedParent_lt valid.range present

theorem attachmentOk_fallthrough {st : DecompilationState} (valid : Valid st) (state : KernelState)
    (masksAfter : NodeId → List OpenMask)
    (masks : ∀ node, ∀ openMask ∈ masksAfter node, openMask ∈ st.maskedBlocks ∨
      openMask = ⟨node, none⟩ ∨ openMask = ⟨node, some st.lastNode⟩) :
    AttachmentOk st ⟨fallthroughParents st, state, masksAfter⟩ where
  nodup := nodup_fallthroughParents st
  parents parent inside := by
    rw [fallthroughParents_subset st parent inside]
    exact valid.last
  masks := masks

theorem attachmentOk_changeMask {st : DecompilationState} (valid : Valid st) (next : ExecCondition) :
    AttachmentOk st (attachChangeMask st next) := by
  have unchanged : ∀ node : NodeId, ∀ openMask ∈ st.maskedBlocks, openMask ∈ st.maskedBlocks ∨
      openMask = ⟨node, none⟩ ∨ openMask = ⟨node, some st.lastNode⟩ :=
    fun _ _ inside => Or.inl inside
  unfold attachChangeMask
  dsimp only
  split
  · refine attachmentOk_fallthrough valid _ _ fun node openMask inside => ?_
    rcases List.mem_cons.mp inside with here | old
    · exact Or.inr (Or.inl here)
    · exact Or.inl old
  · split
    · exact attachmentOk_closing valid next _
    · split
      · exact attachmentOk_fallthrough valid _ _ unchanged
      · split
        · exact attachmentOk_fallthrough valid _ _ unchanged
        · rename_i parentCond _ _ branch outer found
          have suffix := findOpenMask_suffix found
          have branchIn := suffix.subset List.mem_cons_self
          refine ⟨List.nodup_singleton _, fun parent inside => ?_, fun node openMask inside => ?_⟩
          · rw [List.mem_singleton.mp inside]
            exact valid.range.changeMask branch branchIn
          · rcases List.mem_cons.mp inside with here | kept
            · exact Or.inr (Or.inr here)
            · exact Or.inl (suffix.subset
                (masksKeptByElse_subset st.nodes parentCond branch outer openMask kept))

theorem attachmentOk {st : DecompilationState} (valid : Valid st) {instr : Instr}
    {attached : Attachment} (found : attachment st instr = some attached) :
    AttachmentOk st attached := by
  have unchanged : ∀ node : NodeId, ∀ openMask ∈ st.maskedBlocks, openMask ∈ st.maskedBlocks ∨
      openMask = ⟨node, none⟩ ∨ openMask = ⟨node, some st.lastNode⟩ :=
    fun _ _ inside => Or.inl inside
  cases instr with
  | changeMask predicate =>
      obtain ⟨cond, _, rfl⟩ := Option.map_eq_some_iff.mp found
      exact attachmentOk_changeMask valid cond
  | unmask =>
      cases found
      exact attachmentOk_closing valid _ _
  | endPgm =>
      cases found
      exact attachmentOk_closing valid _ _
  | plain backend =>
      cases found
      exact attachmentOk_fallthrough valid _ _ unchanged
  | label name =>
      cases found
      exact attachmentOk_fallthrough valid _ _ unchanged
  | branch predicate target =>
      cases found
      exact attachmentOk_fallthrough valid _ _ unchanged
  | branchNot predicate target =>
      cases found
      exact attachmentOk_fallthrough valid _ _ unchanged
  | jump target =>
      cases found
      exact attachmentOk_fallthrough valid _ _ unchanged

/-! ## The effect of a step -/

/-- Everything a step does to the graph and the tables. -/
structure StepEffect (before : DecompilationState) (instr : Instr) (attached : Attachment)
    (after : DecompilationState) : Prop where
  size : after.nodes.size = before.nodes.size + 1
  last : after.lastNode = before.nodes.size
  masks : after.maskedBlocks = attached.masksAfter before.nodes.size
  children : ∀ id, after.nodes.children id =
    (if id = before.nodes.size then []
      else before.nodes.children id ++ List.replicate (attached.parents.count id) before.nodes.size) ++
    List.replicate ((joinedSources before.data instr).count id) before.nodes.size ++
    (if id = before.nodes.size then (backTarget before.data instr).toList else [])
  parent : ∀ id, after.nodes.parent id =
    (if id = before.nodes.size then attached.parents else before.nodes.parent id) ++
    (if id = before.nodes.size then joinedSources before.data instr else []) ++
    (if backTarget before.data instr = some id then [before.nodes.size] else [])
  instruction : ∀ id, after.nodes.instruction id =
    if id = before.nodes.size then instr.opcode else before.nodes.instruction id
  getExec : instr.label? = none → ∀ id, after.nodes.getExec id =
    if id = before.nodes.size then filledExec before.data attached.nodeState.maskExec instr
    else before.nodes.getExec id
  toNode : after.data.toNode = filledToNode before.data before.nodes.size instr
  fromNode : after.data.fromNode = filledFromNode before.data before.nodes.size instr
  execRegisters : after.data.execRegisters = filledExecRegisters before.data instr

theorem inRange_emitBackend {nodes : Nodes} {data : DecompilerData} {masks : List OpenMask}
    (range : InRange nodes data masks) (opcode : String) (state : KernelState)
    (parents : List NodeId) :
    InRange (nodes.emitBackend opcode state parents) data masks where
  changeMask openMask inside := by
    simpa using Nat.lt_succ_of_lt (range.changeMask openMask inside)
  branchEnd openMask inside node stored := by
    simpa using Nat.lt_succ_of_lt (range.branchEnd openMask inside node stored)
  toNode text node stored := by
    simpa using Nat.lt_succ_of_lt (range.toNode text node stored)
  fromNode text node stored := by
    simpa using Nat.lt_succ_of_lt (range.fromNode text node stored)

/-- A step fills the new node and, where parents meet, merges versions. -/
theorem step_cases {before after : DecompilationState} {instr : Instr}
    (stepped : step before instr = some after) :
    ∃ attached filled, attachment before instr = some attached ∧
      toFillNode (before.nodes.emitBackend instr.opcode attached.nodeState attached.parents)
        before.data before.nodes.size instr = some filled ∧
      after.lastNode = before.nodes.size ∧
      after.maskedBlocks = attached.masksAfter before.nodes.size ∧
      (after.nodes, after.data) =
        if 1 < (filled.1.parent before.nodes.size).length then
          findMaxAndPrevVersions filled.1 filled.2 before.nodes.size
        else filled := by
  unfold step at stepped
  obtain ⟨attached, found, rest⟩ := Option.bind_eq_some_iff.mp stepped
  obtain ⟨filled, done, result⟩ := Option.bind_eq_some_iff.mp rest
  cases result
  exact ⟨attached, filled, found, done, rfl, rfl, rfl⟩

theorem step_effect {before after : DecompilationState} {instr : Instr} (valid : Valid before)
    (stepped : step before instr = some after) :
    ∃ attached, attachment before instr = some attached ∧
      StepEffect before instr attached after := by
  obtain ⟨attached, filled, found, done, last, masks, merged⟩ := step_cases stepped
  have ok := attachmentOk valid found
  have nodeIn : before.nodes.size <
      (before.nodes.emitBackend instr.opcode attached.nodeState attached.parents).size := by
    simp
  have edges := toFillNode_edges (inRange_emitBackend valid.range _ _ _) nodeIn done
  have tables := toFillNode_tables done
  obtain ⟨graph, kept⟩ : SameGraph filled.1 after.nodes ∧ SameTables filled.2 after.data := by
    split at merged
    · have frame := findMaxAndPrevVersions_frame filled.1 filled.2 before.nodes.size
      rw [← merged] at frame
      exact frame
    · cases merged
      exact ⟨.refl _, .refl _⟩
  refine ⟨attached, found, ?_⟩
  exact {
    size := by rw [graph.size, edges.size, Nodes.size_emitBackend]
    last := last
    masks := masks
    children := fun id => by
      rw [graph.children, edges.children, Nodes.children_emitBackend ok.parents]
    parent := fun id => by
      rw [graph.parent, edges.parent, Nodes.parent_emitBackend]
    instruction := fun id => by
      rw [graph.instruction, edges.instruction, Nodes.instruction_emitBackend]
    getExec := fun noLabel id => by
      rw [graph.getExec, toFillNode_getExec nodeIn noLabel done]
      unfold Nodes.getExec
      rw [Nodes.state_emitBackend, Nodes.state_emitBackend]
      split
      · simp
      · rfl
    toNode := by rw [kept.toNode, tables.1]
    fromNode := by rw [kept.fromNode, tables.2.1]
    execRegisters := by rw [kept.execRegisters, tables.2.2] }

theorem valid_step {before after : DecompilationState} {instr : Instr} (valid : Valid before)
    (stepped : step before instr = some after) : Valid after := by
  obtain ⟨attached, found, effect⟩ := step_effect valid stepped
  have ok := attachmentOk valid found
  have grow : ∀ {node : NodeId}, node < before.nodes.size → node < after.nodes.size := by
    intro node old
    rw [effect.size]
    exact Nat.lt_succ_of_lt old
  have fresh : before.nodes.size < after.nodes.size := by
    rw [effect.size]
    exact Nat.lt_succ_self _
  refine ⟨by rw [effect.last]; exact fresh, ?_, ?_, ?_, ?_⟩
  · intro openMask inside
    rw [effect.masks] at inside
    rcases ok.masks _ openMask inside with old | rfl | rfl
    · exact grow (valid.range.changeMask openMask old)
    · exact fresh
    · exact fresh
  · intro openMask inside node stored
    rw [effect.masks] at inside
    rcases ok.masks _ openMask inside with old | rfl | rfl
    · exact grow (valid.range.branchEnd openMask old node stored)
    · cases stored
    · cases stored
      exact grow valid.last
  · intro text node stored
    rw [effect.toNode] at stored
    unfold filledToNode at stored
    split at stored
    · rw [PyDict.get?_set] at stored
      split at stored
      · cases stored
        exact fresh
      · exact grow (valid.range.toNode text node stored)
    · exact grow (valid.range.toNode text node stored)
  · intro text node stored
    rw [effect.fromNode] at stored
    unfold filledFromNode at stored
    split at stored
    · split at stored
      · exact grow (valid.range.fromNode text node stored)
      · rw [PyDict.get?_set] at stored
        split at stored
        · rename_i target _ _ same
          rcases List.mem_append.mp stored with old | new
          · exact grow (valid.range.fromNode target node old)
          · rw [List.mem_singleton.mp new]
            exact fresh
        · exact grow (valid.range.fromNode text node stored)
    · exact grow (valid.range.fromNode text node stored)

theorem valid_initialState : Valid initialState where
  last := by decide
  range := {
    changeMask := by
      intro openMask inside
      cases List.mem_singleton.mp inside
      decide
    branchEnd := by
      intro openMask inside node stored
      cases List.mem_singleton.mp inside
      cases stored
    toNode := by
      intro text node stored
      cases stored
    fromNode := by
      intro text node stored
      cases stored }

theorem children_initialState (node : NodeId) : initialState.nodes.children node = [] := by
  cases node with
  | zero => rfl
  | succ node => simp [Nodes.children, Arena.get, initialState, Arena.alloc, Arena.empty]; rfl

theorem parent_initialState (node : NodeId) : initialState.nodes.parent node = [] := by
  cases node with
  | zero => rfl
  | succ node => simp [Nodes.parent, Arena.get, initialState, Arena.alloc, Arena.empty]; rfl

/-! ## Runs -/

@[simp]
theorem runFrom_nil (st : DecompilationState) : runFrom st [] = some st := rfl

theorem runFrom_cons (st : DecompilationState) (instr : Instr) (rest : List Instr) :
    runFrom st (instr :: rest) = (step st instr).bind fun next => runFrom next rest := rfl

theorem runFrom_append (st : DecompilationState) (first second : List Instr) :
    runFrom st (first ++ second) = (runFrom st first).bind fun middle => runFrom middle second :=
  Run.runFrom_append step st first second

theorem valid_runFrom {before after : DecompilationState} {instrs : List Instr}
    (valid : Valid before) (ran : runFrom before instrs = some after) : Valid after :=
  Run.invariant (fun _ _ _ _ => valid_step) valid ran

end OpenCLDecompiler
