import OpenCLDecompiler.Cfg.Build

/-!
# Effects of the pass on the graph

Each operation of the pass is described by what it does to the size of the
arena, to the two edge lists, to the opcodes and to the mask conditions.  The
later modules use these equations and never unfold the operations.
-/

namespace OpenCLDecompiler

open Library

namespace Nodes

/-! ## Single mutations -/

section Mutation

variable (nodes : Nodes) (id other : NodeId)

@[simp]
theorem size_addChild (child : NodeId) : (nodes.addChild id child).size = nodes.size :=
  Arena.size_modify ..

@[simp]
theorem size_addParent (parent : NodeId) : (nodes.addParent id parent).size = nodes.size :=
  Arena.size_modify ..

@[simp]
theorem size_setState (state : KernelState) : (nodes.setState id state).size = nodes.size :=
  Arena.size_modify ..

theorem children_addChild (inside : id < nodes.size) (child : NodeId) :
    (nodes.addChild id child).children other =
      if other = id then nodes.children id ++ [child] else nodes.children other := by
  unfold addChild children
  rw [Arena.get_modify _ _ _ _ inside]
  split <;> rfl

@[simp]
theorem parent_addChild (child : NodeId) :
    (nodes.addChild id child).parent other = nodes.parent other :=
  Arena.get_modify_proj Node.parent _ _ _ _ (fun _ => rfl)

@[simp]
theorem children_addParent (parent : NodeId) :
    (nodes.addParent id parent).children other = nodes.children other :=
  Arena.get_modify_proj Node.children _ _ _ _ (fun _ => rfl)

theorem parent_addParent (inside : id < nodes.size) (parent : NodeId) :
    (nodes.addParent id parent).parent other =
      if other = id then nodes.parent id ++ [parent] else nodes.parent other := by
  unfold addParent Nodes.parent
  rw [Arena.get_modify _ _ _ _ inside]
  split <;> rfl

@[simp]
theorem state_addChild (child : NodeId) :
    (nodes.addChild id child).state other = nodes.state other :=
  Arena.get_modify_proj Node.state _ _ _ _ (fun _ => rfl)

@[simp]
theorem state_addParent (parent : NodeId) :
    (nodes.addParent id parent).state other = nodes.state other :=
  Arena.get_modify_proj Node.state _ _ _ _ (fun _ => rfl)

@[simp]
theorem instruction_addChild (child : NodeId) :
    (nodes.addChild id child).instruction other = nodes.instruction other :=
  Arena.get_modify_proj Node.instruction _ _ _ _ (fun _ => rfl)

@[simp]
theorem instruction_addParent (parent : NodeId) :
    (nodes.addParent id parent).instruction other = nodes.instruction other :=
  Arena.get_modify_proj Node.instruction _ _ _ _ (fun _ => rfl)

@[simp]
theorem children_setState (state : KernelState) :
    (nodes.setState id state).children other = nodes.children other :=
  Arena.get_modify_proj Node.children _ _ _ _ (fun _ => rfl)

@[simp]
theorem parent_setState (state : KernelState) :
    (nodes.setState id state).parent other = nodes.parent other :=
  Arena.get_modify_proj Node.parent _ _ _ _ (fun _ => rfl)

@[simp]
theorem instruction_setState (state : KernelState) :
    (nodes.setState id state).instruction other = nodes.instruction other :=
  Arena.get_modify_proj Node.instruction _ _ _ _ (fun _ => rfl)

theorem state_setState (inside : id < nodes.size) (state : KernelState) :
    (nodes.setState id state).state other = if other = id then state else nodes.state other := by
  unfold setState Nodes.state
  rw [Arena.get_modify _ _ _ _ inside]
  split <;> rfl

end Mutation

/-! ## Links -/

section Link

variable (nodes : Nodes) (source target id : NodeId)

@[simp]
theorem size_link : (nodes.link source target).size = nodes.size := by
  simp [link]

@[simp]
theorem state_link : (nodes.link source target).state id = nodes.state id := by
  simp [link]

@[simp]
theorem instruction_link : (nodes.link source target).instruction id = nodes.instruction id := by
  simp [link]

variable {source target}

theorem children_link (sourceIn : source < nodes.size) :
    (nodes.link source target).children id =
      if id = source then nodes.children source ++ [target] else nodes.children id := by
  rw [link, children_addParent, children_addChild _ _ _ sourceIn]

theorem parent_link (targetIn : target < nodes.size) :
    (nodes.link source target).parent id =
      if id = target then nodes.parent target ++ [source] else nodes.parent id := by
  rw [link, parent_addParent _ _ _ (by simpa using targetIn), parent_addChild, parent_addChild]

end Link

/-! ## Linking many nodes to one -/

variable {nodes : Nodes} {target : NodeId}

/-- Links from every listed source to one target. -/
def linkAll (nodes : Nodes) (sources : List NodeId) (target : NodeId) : Nodes :=
  sources.foldl (fun grown source => grown.link source target) nodes

@[simp]
theorem size_linkAll (sources : List NodeId) :
    (nodes.linkAll sources target).size = nodes.size := by
  induction sources generalizing nodes with
  | nil => rfl
  | cons source rest ih => exact (@ih (nodes.link source target)).trans (size_link ..)

@[simp]
theorem state_linkAll (sources : List NodeId) (id : NodeId) :
    (nodes.linkAll sources target).state id = nodes.state id := by
  induction sources generalizing nodes with
  | nil => rfl
  | cons source rest ih => exact (@ih (nodes.link source target)).trans (state_link ..)

@[simp]
theorem instruction_linkAll (sources : List NodeId) (id : NodeId) :
    (nodes.linkAll sources target).instruction id = nodes.instruction id := by
  induction sources generalizing nodes with
  | nil => rfl
  | cons source rest ih =>
      exact (@ih (nodes.link source target)).trans (instruction_link ..)

theorem children_linkAll {sources : List NodeId}
    (sourcesIn : ∀ source ∈ sources, source < nodes.size) (id : NodeId) :
    (nodes.linkAll sources target).children id =
      nodes.children id ++ List.replicate (sources.count id) target := by
  induction sources generalizing nodes with
  | nil => simp [linkAll]
  | cons source rest ih =>
      have headIn := sourcesIn source List.mem_cons_self
      have tail := @ih (nodes.link source target)
        (fun other inside => by simpa using sourcesIn other (List.mem_cons_of_mem _ inside))
      change ((nodes.link source target).linkAll rest target).children id = _
      rw [tail, children_link nodes id headIn]
      by_cases here : id = source
      · subst here
        simp [List.replicate_succ]
      · simp [here, Ne.symm here]

theorem parent_linkAll (targetIn : target < nodes.size) (sources : List NodeId) (id : NodeId) :
    (nodes.linkAll sources target).parent id =
      if id = target then nodes.parent target ++ sources else nodes.parent id := by
  induction sources generalizing nodes with
  | nil => by_cases here : id = target <;> simp [linkAll, here]
  | cons source rest ih =>
      have tail := @ih (nodes.link source target) (by simpa using targetIn)
      change ((nodes.link source target).linkAll rest target).parent id = _
      rw [tail, parent_link nodes target targetIn, parent_link nodes id targetIn]
      by_cases here : id = target <;> simp [here]

/-! ## Emitting a node -/

variable {opcode : String} {state : KernelState} {parents : List NodeId}

theorem emitBackend_eq (nodes : Nodes) (opcode : String) (state : KernelState)
    (parents : List NodeId) :
    nodes.emitBackend opcode state parents =
      Nodes.linkAll (nodes.alloc ⟨opcode, [], [], state⟩) parents nodes.size := rfl

@[simp]
theorem size_emitBackend : (nodes.emitBackend opcode state parents).size = nodes.size + 1 := by
  rw [emitBackend_eq, size_linkAll]
  exact Arena.size_alloc ..

theorem children_emitBackend (parentsIn : ∀ parent ∈ parents, parent < nodes.size) (id : NodeId) :
    (nodes.emitBackend opcode state parents).children id =
      if id = nodes.size then []
      else nodes.children id ++ List.replicate (parents.count id) nodes.size := by
  have parentsGrown : ∀ parent ∈ parents,
      parent < Arena.size (nodes.alloc ⟨opcode, [], [], state⟩) := fun parent inside => by
    simpa using Nat.lt_succ_of_lt (parentsIn parent inside)
  rw [emitBackend_eq, children_linkAll parentsGrown]
  unfold children
  rw [Arena.get_alloc]
  split
  · rename_i fresh
    have absent : nodes.size ∉ parents := fun inside => Nat.lt_irrefl _ (parentsIn _ inside)
    simp [fresh, List.count_eq_zero_of_not_mem absent]
  · rfl

theorem parent_emitBackend (id : NodeId) :
    (nodes.emitBackend opcode state parents).parent id =
      if id = nodes.size then parents else nodes.parent id := by
  have grown : nodes.size < Arena.size (nodes.alloc ⟨opcode, [], [], state⟩) := by simp
  rw [emitBackend_eq, parent_linkAll grown]
  unfold parent
  rw [Arena.get_alloc, Arena.get_alloc]
  split <;> simp

theorem state_emitBackend (id : NodeId) :
    (nodes.emitBackend opcode state parents).state id =
      if id = nodes.size then state else nodes.state id := by
  rw [emitBackend_eq, state_linkAll]
  unfold Nodes.state
  rw [Arena.get_alloc]
  split <;> rfl

theorem instruction_emitBackend (id : NodeId) :
    (nodes.emitBackend opcode state parents).instruction id =
      if id = nodes.size then opcode else nodes.instruction id := by
  rw [emitBackend_eq, instruction_linkAll]
  unfold instruction
  rw [Arena.get_alloc]
  split <;> rfl

end Nodes

/-! ## Merging versions -/

/-- Two arenas with the same edges, opcodes and mask conditions. -/
structure SameGraph (before after : Nodes) : Prop where
  size : after.size = before.size
  children : ∀ id, after.children id = before.children id
  parent : ∀ id, after.parent id = before.parent id
  instruction : ∀ id, after.instruction id = before.instruction id
  getExec : ∀ id, after.getExec id = before.getExec id

theorem SameGraph.refl (nodes : Nodes) : SameGraph nodes nodes :=
  ⟨rfl, fun _ => rfl, fun _ => rfl, fun _ => rfl, fun _ => rfl⟩

theorem SameGraph.trans {first second third : Nodes} (left : SameGraph first second)
    (right : SameGraph second third) : SameGraph first third where
  size := right.size.trans left.size
  children id := (right.children id).trans (left.children id)
  parent id := (right.parent id).trans (left.parent id)
  instruction id := (right.instruction id).trans (left.instruction id)
  getExec id := (right.getExec id).trans (left.getExec id)

/-- Replacing the registers of a node keeps the graph. -/
theorem sameGraph_setRegisters (nodes : Nodes) (node : NodeId) (registers : PyDict String Version) :
    SameGraph nodes (nodes.setState node { nodes.state node with registers := registers }) where
  size := by simp
  children id := by simp
  parent id := by simp
  instruction id := by simp
  getExec id := by
    unfold Nodes.getExec
    by_cases inside : node < nodes.size
    · rw [Nodes.state_setState _ _ _ inside]
      split
      · rename_i here
        rw [here]
      · rfl
    · have outside : nodes.cells.length ≤ node := Nat.le_of_not_lt inside
      unfold Nodes.setState Arena.modify
      rw [List.modify_eq_self outside]

/-- The part of the pass data that merging versions leaves alone. -/
structure SameTables (before after : DecompilerData) : Prop where
  toNode : after.toNode = before.toNode
  fromNode : after.fromNode = before.fromNode
  predicates : after.predicates = before.predicates
  execRegisters : after.execRegisters = before.execRegisters

theorem SameTables.refl (data : DecompilerData) : SameTables data data := ⟨rfl, rfl, rfl, rfl⟩

theorem SameTables.trans {first second third : DecompilerData} (left : SameTables first second)
    (right : SameTables second third) : SameTables first third :=
  ⟨right.toNode.trans left.toNode, right.fromNode.trans left.fromNode,
    right.predicates.trans left.predicates, right.execRegisters.trans left.execRegisters⟩

theorem mergeRegister_frame (node : NodeId) (current : Nodes × DecompilerData) (reg : String) :
    SameGraph current.1 (mergeRegister node current reg).1 ∧
      SameTables current.2 (mergeRegister node current reg).2 := by
  unfold mergeRegister
  split
  · exact ⟨.refl _, .refl _⟩
  · dsimp only
    split
    · exact ⟨sameGraph_setRegisters _ _ _, ⟨rfl, rfl, rfl, rfl⟩⟩
    · exact ⟨.refl _, .refl _⟩

theorem foldl_mergeRegister_frame (node : NodeId) (regs : List String)
    (current : Nodes × DecompilerData) :
    SameGraph current.1 (regs.foldl (mergeRegister node) current).1 ∧
      SameTables current.2 (regs.foldl (mergeRegister node) current).2 := by
  induction regs generalizing current with
  | nil => exact ⟨.refl _, .refl _⟩
  | cons reg rest ih =>
      have head := mergeRegister_frame node current reg
      have tail := ih (mergeRegister node current reg)
      exact ⟨head.1.trans tail.1, head.2.trans tail.2⟩

theorem findMaxAndPrevVersions_frame (nodes : Nodes) (data : DecompilerData) (node : NodeId) :
    SameGraph nodes (findMaxAndPrevVersions nodes data node).1 ∧
      SameTables data (findMaxAndPrevVersions nodes data node).2 :=
  foldl_mergeRegister_frame node _ (nodes, data)

/-! ## Making versions -/

theorem makeVersions_frame (state : KernelState) (data : DecompilerData) (regs : List String) :
    (makeVersions state data regs).1.maskExec = state.maskExec ∧
      SameTables data (makeVersions state data regs).2 := by
  induction regs generalizing state data with
  | nil => exact ⟨rfl, .refl _⟩
  | cons reg rest ih =>
      have head : SameTables data (makeVersion state data reg).2 := ⟨rfl, rfl, rfl, rfl⟩
      have tail := ih (makeVersion state data reg).1 (makeVersion state data reg).2
      exact ⟨tail.1, head.trans tail.2⟩

/-! ## Filling a node -/

/-- The branches that wait for the label an instruction defines. -/
def joinedSources (data : DecompilerData) : Instr → List NodeId
  | .label name => (data.fromNode.get? name.text).getD []
  | _ => []

/-- The node of the label an instruction branches back to. -/
def backTarget (data : DecompilerData) : Instr → Option NodeId
  | .branch _ target | .branchNot _ target | .jump target => data.toNode.get? target.text
  | _ => none

/-- The mask condition an instruction leaves in its node. -/
def filledExec (data : DecompilerData) (inherited : ExecCondition) : Instr → ExecCondition
  | .changeMask predicate => (data.execRegisters.get? predicate).getD inherited
  | .unmask | .endPgm => .default
  | _ => inherited

section JoinWaiting

variable {node : NodeId} {nodes : Nodes}

@[simp]
theorem size_joinWaiting (source : NodeId) : (joinWaiting node nodes source).size = nodes.size := by
  simp [joinWaiting]

theorem foldl_joinWaiting_size (sources : List NodeId) :
    (sources.foldl (joinWaiting node) nodes).size = nodes.size := by
  induction sources generalizing nodes with
  | nil => rfl
  | cons source rest ih => exact (@ih (joinWaiting node nodes source)).trans (by simp)

theorem foldl_joinWaiting_instruction (sources : List NodeId) (id : NodeId) :
    (sources.foldl (joinWaiting node) nodes).instruction id = nodes.instruction id := by
  induction sources generalizing nodes with
  | nil => rfl
  | cons source rest ih =>
      exact (@ih (joinWaiting node nodes source)).trans (by simp [joinWaiting])

theorem foldl_joinWaiting_children {sources : List NodeId}
    (sourcesIn : ∀ source ∈ sources, source < nodes.size) (id : NodeId) :
    (sources.foldl (joinWaiting node) nodes).children id =
      nodes.children id ++ List.replicate (sources.count id) node := by
  induction sources generalizing nodes with
  | nil => simp
  | cons source rest ih =>
      have tail := @ih (joinWaiting node nodes source)
        (fun other inside => by simpa using sourcesIn other (List.mem_cons_of_mem _ inside))
      rw [List.foldl_cons, tail, joinWaiting, Nodes.children_setState,
        Nodes.children_link nodes id (sourcesIn source List.mem_cons_self)]
      by_cases here : id = source
      · subst here
        simp [List.replicate_succ]
      · simp [here, Ne.symm here]

theorem foldl_joinWaiting_parent (nodeIn : node < nodes.size) (sources : List NodeId) (id : NodeId) :
    (sources.foldl (joinWaiting node) nodes).parent id =
      if id = node then nodes.parent node ++ sources else nodes.parent id := by
  induction sources generalizing nodes with
  | nil => by_cases here : id = node <;> simp [here]
  | cons source rest ih =>
      have tail := @ih (joinWaiting node nodes source) (by simpa using nodeIn)
      rw [List.foldl_cons, tail, joinWaiting, Nodes.parent_setState, Nodes.parent_setState,
        Nodes.parent_link nodes node nodeIn, Nodes.parent_link nodes id nodeIn]
      by_cases here : id = node <;> simp [here]

end JoinWaiting

/-! ## The effect of one instruction on the edges -/

/-- Every stored node identity has been allocated. -/
structure InRange (nodes : Nodes) (data : DecompilerData) (masks : List OpenMask) : Prop where
  changeMask : ∀ openMask ∈ masks, openMask.changeMask < nodes.size
  branchEnd : ∀ openMask ∈ masks, ∀ node ∈ openMask.previousBranchEnd, node < nodes.size
  toNode : ∀ text node, data.toNode.get? text = some node → node < nodes.size
  fromNode : ∀ text, ∀ node ∈ (data.fromNode.get? text).getD [], node < nodes.size

/-- The edges that filling the node of an instruction adds. -/
structure FilledEdges (before after : Nodes) (data : DecompilerData) (node : NodeId) (instr : Instr) :
    Prop where
  size : after.size = before.size
  children : ∀ id, after.children id = before.children id ++
    List.replicate ((joinedSources data instr).count id) node ++
    (if id = node then (backTarget data instr).toList else [])
  parent : ∀ id, after.parent id = before.parent id ++
    (if id = node then joinedSources data instr else []) ++
    (if backTarget data instr = some id then [node] else [])
  instruction : ∀ id, after.instruction id = before.instruction id

/-- Filling a node without new edges. -/
theorem filledEdges_setState (nodes : Nodes) (data : DecompilerData) (node : NodeId) (instr : Instr)
    (state : KernelState) (noJoin : joinedSources data instr = [])
    (noBack : backTarget data instr = none) :
    FilledEdges nodes (nodes.setState node state) data node instr where
  size := by simp
  children id := by simp [noJoin, noBack]
  parent id := by simp [noJoin, noBack]
  instruction id := by simp

theorem filledEdges_label (nodes : Nodes) (data : DecompilerData) {node : NodeId} (name : LabelName)
    (nodeIn : node < nodes.size)
    (waitingIn : ∀ source ∈ (data.fromNode.get? name.text).getD [], source < nodes.size) :
    FilledEdges nodes (((data.fromNode.get? name.text).getD []).foldl (joinWaiting node) nodes) data
      node (.label name) where
  size := foldl_joinWaiting_size _
  children id := by
    rw [foldl_joinWaiting_children waitingIn]
    simp [joinedSources, backTarget]
  parent id := by
    rw [foldl_joinWaiting_parent nodeIn]
    by_cases here : id = node <;> simp [joinedSources, backTarget, here]
  instruction id := foldl_joinWaiting_instruction _ id

theorem filledEdges_branch (nodes : Nodes) (data : DecompilerData) {node : NodeId} {instr : Instr}
    {target : String} (nodeIn : node < nodes.size)
    (toNodeIn : ∀ toNode, data.toNode.get? target = some toNode → toNode < nodes.size)
    (noJoin : joinedSources data instr = [])
    (back : backTarget data instr = data.toNode.get? target) :
    FilledEdges nodes (toFillBranchNode nodes data node target).1 data node instr := by
  unfold toFillBranchNode
  cases found : data.toNode.get? target with
  | none =>
      rw [found] at back
      exact ⟨rfl, fun id => by simp [noJoin, back], fun id => by simp [noJoin, back], fun _ => rfl⟩
  | some toNode =>
      rw [found] at back
      have targetIn := toNodeIn toNode found
      refine ⟨by simp, fun id => ?_, fun id => ?_, fun id => by simp⟩
      · rw [Nodes.children_link nodes id nodeIn]
        by_cases here : id = node <;> simp [noJoin, back, here]
      · rw [Nodes.parent_link nodes id targetIn]
        by_cases here : id = toNode
        · simp [noJoin, back, here]
        · simp [noJoin, back, here, Ne.symm here]

theorem toFillNode_edges {nodes : Nodes} {data : DecompilerData} {node : NodeId} {instr : Instr}
    {filled : Nodes × DecompilerData} {masks : List OpenMask} (range : InRange nodes data masks)
    (nodeIn : node < nodes.size) (done : toFillNode nodes data node instr = some filled) :
    FilledEdges nodes filled.1 data node instr := by
  cases instr with
  | plain backend =>
      cases done
      exact filledEdges_setState _ _ _ _ _ rfl rfl
  | changeMask predicate =>
      obtain ⟨cond, _, rfl⟩ := Option.map_eq_some_iff.mp done
      exact filledEdges_setState _ _ _ _ _ rfl rfl
  | unmask =>
      cases done
      exact filledEdges_setState _ _ _ _ _ rfl rfl
  | endPgm =>
      cases done
      exact filledEdges_setState _ _ _ _ _ rfl rfl
  | label name =>
      cases done
      exact filledEdges_label nodes data name nodeIn (range.fromNode name.text)
  | branch predicate target =>
      cases done
      exact filledEdges_branch nodes data nodeIn (range.toNode target.text) rfl rfl
  | branchNot predicate target =>
      cases done
      exact filledEdges_branch nodes data nodeIn (range.toNode target.text) rfl rfl
  | jump target =>
      cases done
      exact filledEdges_branch nodes data nodeIn (range.toNode target.text) rfl rfl

end OpenCLDecompiler
