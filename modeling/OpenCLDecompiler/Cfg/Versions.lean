import OpenCLDecompiler.Library.Supply
import OpenCLDecompiler.Cfg.Successors

/-!
# Version names

The counters of `DecompilerData.versions` are a name supply.  A write issues the
next number of its register; a join moves the counter to one more than the
greatest version of its parents.  The names stay different exactly as long as
every join finds the newest version of the register among its parents.
-/

namespace OpenCLDecompiler

open Library

/-- The counter of a register, zero before its first version. -/
def DecompilerData.counter (data : DecompilerData) (reg : String) : Nat :=
  (data.versions.get? reg).getD 0

/-- The version counters and the issued names as a name supply. -/
def DecompilerData.supply (data : DecompilerData) : Supply String where
  counter := data.counter
  issued := data.minted.map fun version => (version.name, version.num)

/-- The nodes that become parents of the node of an instruction. -/
def joinParents (st : DecompilationState) (attached : Attachment) (instr : Instr) : List NodeId :=
  attached.parents ++ joinedSources st.data instr

/-- The state a node starts from: a label takes that of the last branch that waited for it. -/
def joinState (st : DecompilationState) (attached : Attachment) (instr : Instr) : KernelState :=
  ((joinedSources st.data instr).getLast?.map st.nodes.state).getD attached.nodeState

/--
Where the parents of the next node disagree about a register, one of them has
the newest version of that register.
-/
def MergesNewest (st : DecompilationState) (instr : Instr) : Prop :=
  ∀ attached, attachment st instr = some attached →
    ∀ reg ∈ (joinState st attached instr).registers.keys, reg ∉ st.data.predicates →
      versionsDiffer (parentVersions st.nodes (joinParents st attached instr) reg) = true →
      maxVersion (parentVersions st.nodes (joinParents st attached instr) reg) =
        st.data.counter reg

/-! ## The supply under the operations of the pass -/

theorem supply_mint (data : DecompilerData) (reg : String) (num : Nat) (count : Nat) :
    { data with
      versions := data.versions.set reg num
      numOfVar := count
      minted := data.minted ++ [(⟨reg, num⟩ : Version)] }.supply = data.supply.issueAt reg num := by
  unfold DecompilerData.supply Supply.issueAt DecompilerData.counter
  congr 1
  · funext other
    dsimp only
    rw [PyDict.get?_set]
    split <;> rfl
  · simp

theorem supply_makeVersions (state : KernelState) (data : DecompilerData) (regs : List String) :
    (makeVersions state data regs).2.supply = data.supply.issueAll regs := by
  induction regs generalizing state data with
  | nil => rfl
  | cons reg rest ih =>
      change (makeVersions (makeVersion state data reg).1 (makeVersion state data reg).2 rest).2.supply
        = (data.supply.issue reg).issueAll rest
      rw [ih]
      exact congrArg (fun supply => Supply.issueAll supply rest)
        (supply_mint data reg (data.counter reg + 1) data.numOfVar)

/-- The registers an instruction gives a new version. -/
def issuedBy : Instr → List String
  | .plain backend => backend.writes
  | .changeMask _ => [maskRegister]
  | _ => []

theorem supply_toFillBranchNode (nodes : Nodes) (data : DecompilerData) (node : NodeId)
    (target : String) : (toFillBranchNode nodes data node target).2.supply = data.supply := by
  unfold toFillBranchNode
  split <;> rfl

theorem toFillNode_supply {nodes : Nodes} {data : DecompilerData} {node : NodeId} {instr : Instr}
    {filled : Nodes × DecompilerData} (done : toFillNode nodes data node instr = some filled) :
    filled.2.supply = data.supply.issueAll (issuedBy instr) := by
  cases instr with
  | plain backend =>
      cases done
      exact supply_makeVersions _ data backend.writes
  | changeMask predicate =>
      obtain ⟨cond, _, rfl⟩ := Option.map_eq_some_iff.mp done
      exact supply_makeVersions (nodes.state node) data [maskRegister]
  | unmask =>
      cases done
      rfl
  | endPgm =>
      cases done
      rfl
  | label name =>
      cases done
      rfl
  | branch predicate target =>
      cases done
      exact supply_toFillBranchNode nodes data node target.text
  | branchNot predicate target =>
      cases done
      exact supply_toFillBranchNode nodes data node target.text
  | jump target =>
      cases done
      exact supply_toFillBranchNode nodes data node target.text

/-! ## Register states -/

/-- Every register of a state has a version of its own name that has been issued. -/
def Bounded (supply : Supply String) (state : KernelState) : Prop :=
  ∀ reg version, state.registers.get? reg = some version →
    version.name = reg ∧ version.num ≤ supply.counter reg

theorem Bounded.mono {before after : Supply String} {state : KernelState}
    (bounded : Bounded before state) (grown : ∀ reg, before.counter reg ≤ after.counter reg) :
    Bounded after state := fun reg version stored =>
  ⟨(bounded reg version stored).1, Nat.le_trans (bounded reg version stored).2 (grown reg)⟩

theorem bounded_makeVersions {state : KernelState} {data : DecompilerData}
    (exact' : data.supply.Exact) (bounded : Bounded data.supply state) (regs : List String) :
    Bounded (data.supply.issueAll regs) (makeVersions state data regs).1 := by
  induction regs generalizing state data with
  | nil => exact bounded
  | cons reg rest ih =>
      have issued : (makeVersion state data reg).2.supply = data.supply.issue reg :=
        supply_mint data reg (data.counter reg + 1) data.numOfVar
      change Bounded ((data.supply.issue reg).issueAll rest)
        (makeVersions (makeVersion state data reg).1 (makeVersion state data reg).2 rest).1
      rw [← issued]
      refine ih (by rw [issued]; exact Supply.exact_issue exact' reg) fun other version stored => ?_
      change (state.registers.set reg ⟨reg, data.counter reg + 1⟩).get? other = some version at stored
      rw [PyDict.get?_set] at stored
      rw [issued]
      split at stored
      · rename_i same
        cases stored
        subst same
        exact ⟨rfl, (Nat.le_of_eq (if_pos rfl).symm)⟩
      · exact (bounded.mono (Supply.counter_le_issue data.supply reg)) other version stored

theorem foldl_joinWaiting_state {node : NodeId} {nodes : Nodes} (nodeIn : node < nodes.size)
    {sources : List NodeId} (absent : node ∉ sources) (id : NodeId) :
    (sources.foldl (joinWaiting node) nodes).state id =
      if id = node then (sources.getLast?.map nodes.state).getD (nodes.state node)
      else nodes.state id := by
  induction sources generalizing nodes with
  | nil =>
      split
      · rename_i here
        rw [here]
        rfl
      · rfl
  | cons source rest ih =>
      have apart : source ≠ node := fun same => absent (same ▸ List.mem_cons_self)
      have states : ∀ other, (joinWaiting node nodes source).state other =
          if other = node then nodes.state source else nodes.state other := by
        intro other
        rw [joinWaiting, Nodes.state_setState _ _ _ (by simpa using nodeIn)]
        simp
      rw [List.foldl_cons, ih (by simpa using nodeIn) (fun inside =>
        absent (List.mem_cons_of_mem _ inside)), states id, states node, if_pos rfl]
      by_cases here : id = node
      · rw [if_pos here, if_pos here]
        cases last : rest.getLast? with
        | none =>
            rw [List.getLast?_eq_none_iff.mp last]
            rfl
        | some final =>
            have finalIn : final ∈ rest := List.mem_of_getLast? last
            have finalApart : final ≠ node := fun same =>
              absent (List.mem_cons_of_mem _ (same ▸ finalIn))
            rw [List.getLast?_cons, last]
            simp [states, finalApart]
      · rw [if_neg here, if_neg here, if_neg here]

/-! ## Merging -/

/-- The registers of a joining node at which its parents disagree. -/
def mergedRegisters (nodes : Nodes) (predicates : List String) (parents : List NodeId)
    (regs : List String) : List String :=
  regs.filter fun reg => reg ∉ predicates && versionsDiffer (parentVersions nodes parents reg)

/-- The number a merge gives to a register. -/
def mergeNumber (nodes : Nodes) (parents : List NodeId) (reg : String) : Nat :=
  maxVersion (parentVersions nodes parents reg) + 1

theorem mem_mergedRegisters {nodes : Nodes} {predicates : List String} {parents : List NodeId}
    {regs : List String} {reg : String} :
    reg ∈ mergedRegisters nodes predicates parents regs ↔
      reg ∈ regs ∧ reg ∉ predicates ∧ versionsDiffer (parentVersions nodes parents reg) = true := by
  simp [mergedRegisters]

theorem parentVersions_congr {before after : Nodes} {parents : List NodeId}
    (same : ∀ parent ∈ parents, after.state parent = before.state parent) (reg : String) :
    parentVersions after parents reg = parentVersions before parents reg :=
  List.filterMap_congr fun parent inside => by rw [same parent inside]

/-- What merging some registers of a node does to the names and to the states. -/
structure Merged (node : NodeId) (before : Nodes × DecompilerData) (regs : List String)
    (after : Nodes × DecompilerData) : Prop where
  supply : after.2.supply = before.2.supply.issueEach
    (mergeNumber before.1 (before.1.parent node))
    (mergedRegisters before.1 before.2.predicates (before.1.parent node) regs)
  other : ∀ id, id ≠ node → after.1.state id = before.1.state id
  own : ∀ reg version, (after.1.state node).registers.get? reg = some version →
    (before.1.state node).registers.get? reg = some version ∨
      reg ∈ mergedRegisters before.1 before.2.predicates (before.1.parent node) regs ∧
        version = ⟨reg, mergeNumber before.1 (before.1.parent node) reg⟩

theorem merged_mergeRegister {node : NodeId} {current : Nodes × DecompilerData}
    (nodeIn : node < current.1.size) (reg : String) :
    Merged node current [reg] (mergeRegister node current reg) := by
  unfold mergeRegister
  by_cases predicate : reg ∈ current.2.predicates
  · rw [if_pos predicate]
    have kept : mergedRegisters current.1 current.2.predicates (current.1.parent node) [reg] = [] := by
      simp [mergedRegisters, predicate]
    exact ⟨by rw [kept]; rfl, fun _ _ => rfl, fun _ _ => Or.inl⟩
  · rw [if_neg predicate]
    dsimp only
    by_cases differ : versionsDiffer (parentVersions current.1 (current.1.parent node) reg) = true
    · rw [if_pos differ]
      have kept : mergedRegisters current.1 current.2.predicates (current.1.parent node) [reg] =
          [reg] := by
        simp [mergedRegisters, predicate, differ]
      refine ⟨?_, fun id apart => ?_, fun other version stored => ?_⟩
      · rw [kept]
        exact supply_mint current.2 reg _ _
      · change (current.1.setState node _).state id = _
        rw [Nodes.state_setState _ _ _ nodeIn, if_neg apart]
      · change ((current.1.setState node _).state node).registers.get? other = some version at stored
        rw [Nodes.state_setState _ _ _ nodeIn, if_pos rfl] at stored
        change ((current.1.state node).registers.set reg _).get? other = some version at stored
        rw [PyDict.get?_set] at stored
        split at stored
        · rename_i same
          subst same
          cases stored
          exact Or.inr ⟨by rw [kept]; exact List.mem_singleton_self _, rfl⟩
        · exact Or.inl stored
    · rw [if_neg differ]
      have kept : mergedRegisters current.1 current.2.predicates (current.1.parent node) [reg] =
          [] := by
        simp [mergedRegisters, differ]
      exact ⟨by rw [kept]; rfl, fun _ _ => rfl, fun _ _ => Or.inl⟩

theorem mergedRegisters_cons (nodes : Nodes) (predicates : List String) (parents : List NodeId)
    (reg : String) (rest : List String) :
    mergedRegisters nodes predicates parents (reg :: rest) =
      mergedRegisters nodes predicates parents [reg] ++
        mergedRegisters nodes predicates parents rest := by
  rw [mergedRegisters, mergedRegisters, mergedRegisters, ← List.filter_append]
  rfl

theorem merged_foldl {node : NodeId} {current : Nodes × DecompilerData}
    (nodeIn : node < current.1.size) (apart : node ∉ current.1.parent node) (regs : List String) :
    Merged node current regs (regs.foldl (mergeRegister node) current) := by
  induction regs generalizing current with
  | nil => exact ⟨rfl, fun _ _ => rfl, fun _ _ => Or.inl⟩
  | cons reg rest ih =>
      obtain ⟨graph, tables⟩ := mergeRegister_frame node current reg
      have head := merged_mergeRegister nodeIn reg
      have tail := @ih (mergeRegister node current reg)
        (by rw [graph.size]; exact nodeIn) (by rw [graph.parent]; exact apart)
      have same : ∀ parent ∈ current.1.parent node,
          (mergeRegister node current reg).1.state parent = current.1.state parent :=
        fun parent inside => head.other parent fun equal => apart (equal ▸ inside)
      have number : mergeNumber (mergeRegister node current reg).1 (current.1.parent node) =
          mergeNumber current.1 (current.1.parent node) := by
        funext other
        rw [mergeNumber, mergeNumber, parentVersions_congr same]
      have registers : mergedRegisters (mergeRegister node current reg).1
          current.2.predicates (current.1.parent node) rest =
          mergedRegisters current.1 current.2.predicates (current.1.parent node) rest :=
        List.filter_congr fun other _ => by rw [parentVersions_congr same]
      have tailSupply := tail.supply
      have tailOwn := tail.own
      rw [graph.parent, tables.predicates, number, registers] at tailSupply tailOwn
      rw [List.foldl_cons]
      refine ⟨?_, fun id different => ?_, fun other version stored => ?_⟩
      · rw [tailSupply, head.supply, mergedRegisters_cons _ _ _ reg rest, Supply.issueEach,
          Supply.issueEach, Supply.issueEach, List.foldl_append]
      · exact (tail.other id different).trans (head.other id different)
      · rw [mergedRegisters_cons _ _ _ reg rest]
        rcases tailOwn other version stored with old | ⟨inside, equal⟩
        · rcases head.own other version old with older | ⟨inside, equal⟩
          · exact Or.inl older
          · exact Or.inr ⟨List.mem_append_left _ inside, equal⟩
        · exact Or.inr ⟨List.mem_append_right _ inside, equal⟩

/-! ## Filling -/

/-- The state that filling leaves in the node of an instruction. -/
def filledState (nodes : Nodes) (data : DecompilerData) (node : NodeId) (instr : Instr) :
    KernelState :=
  match instr with
  | .plain backend => (makeVersions (nodes.state node) data backend.writes).1
  | .changeMask predicate =>
      { (makeVersion (nodes.state node) data maskRegister).1 with
        maskExec := (data.execRegisters.get? predicate).getD .default }
  | .unmask | .endPgm => { nodes.state node with maskExec := .default }
  | .label _ => ((joinedSources data instr).getLast?.map nodes.state).getD (nodes.state node)
  | .branch _ _ | .branchNot _ _ | .jump _ => nodes.state node

theorem state_toFillBranchNode (nodes : Nodes) (data : DecompilerData) (node : NodeId)
    (target : String) (id : NodeId) :
    (toFillBranchNode nodes data node target).1.state id =
      if id = node then nodes.state node else nodes.state id := by
  have same : (toFillBranchNode nodes data node target).1.state id = nodes.state id := by
    unfold toFillBranchNode
    cases data.toNode.get? target <;> simp
  rw [same]
  split
  · rename_i here
    rw [here]
  · rfl

theorem toFillNode_state {nodes : Nodes} {data : DecompilerData} {node : NodeId} {instr : Instr}
    {filled : Nodes × DecompilerData} (nodeIn : node < nodes.size)
    (apart : node ∉ joinedSources data instr) (done : toFillNode nodes data node instr = some filled)
    (id : NodeId) :
    filled.1.state id =
      if id = node then filledState nodes data node instr else nodes.state id := by
  cases instr with
  | plain backend =>
      cases done
      exact Nodes.state_setState _ _ _ nodeIn _
  | changeMask predicate =>
      obtain ⟨cond, found, rfl⟩ := Option.map_eq_some_iff.mp done
      rw [Nodes.state_setState _ _ _ nodeIn]
      simp [filledState, found]
  | unmask =>
      cases done
      exact Nodes.state_setState _ _ _ nodeIn _
  | endPgm =>
      cases done
      exact Nodes.state_setState _ _ _ nodeIn _
  | label name =>
      cases done
      exact foldl_joinWaiting_state nodeIn apart id
  | branch predicate target =>
      cases done
      exact state_toFillBranchNode nodes data node target.text id
  | branchNot predicate target =>
      cases done
      exact state_toFillBranchNode nodes data node target.text id
  | jump target =>
      cases done
      exact state_toFillBranchNode nodes data node target.text id

theorem bounded_filledState {nodes : Nodes} {data : DecompilerData} (exact' : data.supply.Exact)
    (bounded : ∀ id, Bounded data.supply (nodes.state id)) (node : NodeId) (instr : Instr) :
    Bounded (data.supply.issueAll (issuedBy instr)) (filledState nodes data node instr) := by
  cases instr with
  | plain backend => exact bounded_makeVersions exact' (bounded node) backend.writes
  | changeMask predicate => exact bounded_makeVersions exact' (bounded node) [maskRegister]
  | unmask => exact bounded node
  | endPgm => exact bounded node
  | label name =>
      change Bounded data.supply
        (((joinedSources data (.label name)).getLast?.map nodes.state).getD (nodes.state node))
      cases (joinedSources data (.label name)).getLast? with
      | none => exact bounded node
      | some source => exact bounded source
  | branch predicate target => exact bounded node
  | branchNot predicate target => exact bounded node
  | jump target => exact bounded node

/-- The predicates an instruction declares. -/
def declaredBy : Instr → List String
  | .plain backend => backend.declares
  | _ => []

theorem predicates_toFillBranchNode (nodes : Nodes) (data : DecompilerData) (node : NodeId)
    (target : String) :
    (toFillBranchNode nodes data node target).2.predicates = data.predicates ++ [] := by
  rw [List.append_nil]
  unfold toFillBranchNode
  split <;> rfl

theorem toFillNode_predicates {nodes : Nodes} {data : DecompilerData} {node : NodeId}
    {instr : Instr} {filled : Nodes × DecompilerData}
    (done : toFillNode nodes data node instr = some filled) :
    filled.2.predicates = data.predicates ++ declaredBy instr := by
  cases instr with
  | plain backend =>
      cases done
      have kept := (makeVersions_frame (nodes.state node) data backend.writes).2
      exact congrArg (fun predicates => predicates ++ backend.declares) kept.predicates
  | changeMask predicate =>
      obtain ⟨cond, _, rfl⟩ := Option.map_eq_some_iff.mp done
      exact (List.append_nil _).symm
  | unmask =>
      cases done
      exact (List.append_nil _).symm
  | endPgm =>
      cases done
      exact (List.append_nil _).symm
  | label name =>
      cases done
      exact (List.append_nil _).symm
  | branch predicate target =>
      cases done
      exact predicates_toFillBranchNode nodes data node target.text
  | branchNot predicate target =>
      cases done
      exact predicates_toFillBranchNode nodes data node target.text
  | jump target =>
      cases done
      exact predicates_toFillBranchNode nodes data node target.text

/-! ## One step -/

/-- The names issued so far are exactly numbered and every state refers to issued names. -/
structure VersionInv (st : DecompilationState) : Prop where
  valid : Valid st
  mask : maskRegister ∈ st.data.predicates
  issued : st.data.supply.Exact
  bounded : ∀ id, Bounded st.data.supply (st.nodes.state id)

theorem attachment_nodeState {st : DecompilationState} {instr : Instr} {attached : Attachment}
    (found : attachment st instr = some attached) :
    ∃ id, attached.nodeState = st.nodes.state id := by
  cases instr with
  | changeMask predicate =>
      obtain ⟨cond, _, rfl⟩ := Option.map_eq_some_iff.mp found
      unfold attachChangeMask
      dsimp only
      split
      · exact ⟨st.lastNode, rfl⟩
      · split
        · exact ⟨st.lastNode, rfl⟩
        · split
          · exact ⟨st.lastNode, rfl⟩
          · split
            · exact ⟨st.lastNode, rfl⟩
            · rename_i branch _ _
              exact ⟨branch.changeMask, rfl⟩
  | unmask =>
      cases found
      exact ⟨st.lastNode, rfl⟩
  | endPgm =>
      cases found
      exact ⟨st.lastNode, rfl⟩
  | plain backend =>
      cases found
      exact ⟨st.lastNode, rfl⟩
  | label name =>
      cases found
      exact ⟨st.lastNode, rfl⟩
  | branch predicate target =>
      cases found
      exact ⟨st.lastNode, rfl⟩
  | branchNot predicate target =>
      cases found
      exact ⟨st.lastNode, rfl⟩
  | jump target =>
      cases found
      exact ⟨st.lastNode, rfl⟩

theorem joinedSources_lt {st : DecompilationState} (valid : Valid st) {instr : Instr} :
    ∀ source ∈ joinedSources st.data instr, source < st.nodes.size := by
  intro source inside
  cases instr with
  | label name => exact valid.range.fromNode name.text source inside
  | _ => cases inside

theorem backTarget_lt {st : DecompilationState} (valid : Valid st) {instr : Instr} {target : NodeId}
    (back : backTarget st.data instr = some target) : target < st.nodes.size := by
  rw [backTarget_eq] at back
  obtain ⟨text, _, stored⟩ := Option.bind_eq_some_iff.mp back
  exact valid.range.toNode text target stored

/-- The node of the next instruction after it has been filled and before versions merge. -/
structure FilledNode (st : DecompilationState) (instr : Instr) (attached : Attachment)
    (filled : Nodes × DecompilerData) : Prop where
  size : st.nodes.size < filled.1.size
  parent : filled.1.parent st.nodes.size = joinParents st attached instr
  other : ∀ id, id ≠ st.nodes.size → filled.1.state id = st.nodes.state id
  own : ∀ reg, instr.isPlain = false → reg ≠ maskRegister →
    (filled.1.state st.nodes.size).registers.get? reg =
      (joinState st attached instr).registers.get? reg
  supply : filled.2.supply = st.data.supply.issueAll (issuedBy instr)
  predicates : filled.2.predicates = st.data.predicates ++ declaredBy instr
  bounded : ∀ id, Bounded filled.2.supply (filled.1.state id)

theorem filledNode {st : DecompilationState} (inv : VersionInv st) {instr : Instr}
    {attached : Attachment} (found : attachment st instr = some attached)
    {filled : Nodes × DecompilerData}
    (done : toFillNode (st.nodes.emitBackend instr.opcode attached.nodeState attached.parents)
      st.data st.nodes.size instr = some filled) : FilledNode st instr attached filled := by
  have nodeIn : st.nodes.size <
      (st.nodes.emitBackend instr.opcode attached.nodeState attached.parents).size := by
    simp
  have apart : st.nodes.size ∉ joinedSources st.data instr := fun inside =>
    Nat.lt_irrefl _ (joinedSources_lt inv.valid _ inside)
  have edges := toFillNode_edges (inRange_emitBackend inv.valid.range _ _ _) nodeIn done
  have states := toFillNode_state nodeIn apart done
  obtain ⟨origin, inherited⟩ := attachment_nodeState found
  have emitted : ∀ id, id ≠ st.nodes.size →
      (st.nodes.emitBackend instr.opcode attached.nodeState attached.parents).state id =
        st.nodes.state id := fun id old => by rw [Nodes.state_emitBackend, if_neg old]
  have fresh : (st.nodes.emitBackend instr.opcode attached.nodeState attached.parents).state
      st.nodes.size = attached.nodeState := by rw [Nodes.state_emitBackend, if_pos rfl]
  have boundedEmitted : ∀ id, Bounded st.data.supply
      ((st.nodes.emitBackend instr.opcode attached.nodeState attached.parents).state id) := by
    intro id
    rw [Nodes.state_emitBackend]
    split
    · rw [inherited]
      exact inv.bounded origin
    · exact inv.bounded id
  have supply := toFillNode_supply done
  refine ⟨by rw [edges.size]; exact nodeIn, ?_, fun id old => ?_, fun reg notPlain notMask => ?_,
    supply, toFillNode_predicates done, fun id => ?_⟩
  · have noLoop : backTarget st.data instr ≠ some st.nodes.size := fun back =>
      Nat.lt_irrefl _ (backTarget_lt inv.valid back)
    rw [edges.parent, Nodes.parent_emitBackend, if_pos rfl, if_pos rfl, if_neg noLoop,
      List.append_nil, joinParents]
  · rw [states, if_neg old, emitted id old]
  · rw [states, if_pos rfl]
    cases instr with
    | plain backend => cases notPlain
    | changeMask predicate =>
        change (PyDict.set _ maskRegister _).get? reg = _
        rw [PyDict.get?_set_of_ne _ notMask, fresh]
        rfl
    | unmask => exact congrArg (fun state => state.registers.get? reg) fresh
    | endPgm => exact congrArg (fun state => state.registers.get? reg) fresh
    | label name =>
        change ((((joinedSources st.data (.label name)).getLast?.map _).getD _ :
          KernelState)).registers.get? reg = _
        rw [joinState, fresh]
        cases last : (joinedSources st.data (.label name)).getLast? with
        | none => rfl
        | some source =>
            have old : source ≠ st.nodes.size := fun same =>
              apart (same ▸ List.mem_of_getLast? last)
            rw [Option.map_some, Option.map_some, Option.getD_some, Option.getD_some,
              emitted source old]
    | branch predicate target => exact congrArg (fun state => state.registers.get? reg) fresh
    | branchNot predicate target => exact congrArg (fun state => state.registers.get? reg) fresh
    | jump target => exact congrArg (fun state => state.registers.get? reg) fresh
  · rw [states, supply]
    split
    · exact bounded_filledState inv.issued boundedEmitted _ instr
    · exact (boundedEmitted id).mono (Supply.issueAll_spec inv.issued _).2.2

theorem versionsDiffer_of_single {nodes : Nodes} {parents : List NodeId}
    (single : parents.length ≤ 1) (reg : String) :
    versionsDiffer (parentVersions nodes parents reg) = false := by
  have bound : (parentVersions nodes parents reg).dedup.length ≤ 1 :=
    ((List.dedup_sublist _).length_le.trans (List.length_filterMap_le _ _)).trans single
  exact decide_eq_false (Nat.not_lt.mpr bound)

theorem parents_plain_le {st : DecompilationState} {backend : BackendNode} {attached : Attachment}
    (found : attachment st (.plain backend) = some attached) :
    (joinParents st attached (.plain backend)).length ≤ 1 := by
  cases found
  change (fallthroughParents st ++ []).length ≤ 1
  rw [List.append_nil]
  unfold fallthroughParents
  split <;> simp

section MergeStep

variable {st : DecompilationState} {instr : Instr} {attached : Attachment}
  {filled : Nodes × DecompilerData}

/-- The registers that the joining step merges. -/
def stepMerges (st : DecompilationState) (filled : Nodes × DecompilerData) : List String :=
  mergedRegisters filled.1 filled.2.predicates (filled.1.parent st.nodes.size)
    (filled.1.state st.nodes.size).registers.keys

theorem mem_stepMerges (inv : VersionInv st) (found : attachment st instr = some attached)
    (node : FilledNode st instr attached filled) (reg : String) :
    reg ∈ stepMerges st filled ↔
      reg ∈ (joinState st attached instr).registers.keys ∧ reg ∉ st.data.predicates ∧
        versionsDiffer (parentVersions st.nodes (joinParents st attached instr) reg) = true := by
  have ok := attachmentOk inv.valid found
  have parentsOld : ∀ parent ∈ joinParents st attached instr, parent ≠ st.nodes.size := by
    intro parent inside
    rcases List.mem_append.mp inside with here | waited
    · exact Nat.ne_of_lt (ok.parents parent here)
    · exact Nat.ne_of_lt (joinedSources_lt inv.valid parent waited)
  have versions := parentVersions_congr
    (fun parent inside => node.other parent (parentsOld parent inside)) reg
  rw [stepMerges, mem_mergedRegisters, node.parent, versions, node.predicates]
  by_cases plain : instr.isPlain = true
  · have single : (joinParents st attached instr).length ≤ 1 := by
      cases instr with
      | plain backend => exact parents_plain_le found
      | _ => cases plain
    simp [versionsDiffer_of_single single]
  · have declares : declaredBy instr = [] := by
      cases instr with
      | plain backend => exact absurd rfl plain
      | _ => rfl
    rw [declares, List.append_nil]
    refine and_congr_left fun ⟨free, _⟩ => ?_
    have notMask : reg ≠ maskRegister := fun same => free (same ▸ inv.mask)
    rw [PyDict.mem_keys_iff, PyDict.mem_keys_iff, node.own reg (Bool.eq_false_iff.mpr plain) notMask]

theorem mergeNumber_filled (inv : VersionInv st) (found : attachment st instr = some attached)
    (node : FilledNode st instr attached filled) (reg : String) :
    mergeNumber filled.1 (filled.1.parent st.nodes.size) reg =
      maxVersion (parentVersions st.nodes (joinParents st attached instr) reg) + 1 := by
  have ok := attachmentOk inv.valid found
  have same : ∀ parent ∈ joinParents st attached instr,
      filled.1.state parent = st.nodes.state parent := by
    intro parent inside
    rcases List.mem_append.mp inside with here | waited
    · exact node.other parent (Nat.ne_of_lt (ok.parents parent here))
    · exact node.other parent (Nat.ne_of_lt (joinedSources_lt inv.valid parent waited))
  rw [mergeNumber, node.parent, parentVersions_congr same]

/-- The registers that merge have not been written by the joining instruction itself. -/
theorem counter_filled (inv : VersionInv st) (found : attachment st instr = some attached)
    (node : FilledNode st instr attached filled) {reg : String}
    (merges : reg ∈ stepMerges st filled) : filled.2.counter reg = st.data.counter reg := by
  obtain ⟨_, free, differ⟩ := (mem_stepMerges inv found node reg).mp merges
  have absent : reg ∉ issuedBy instr := by
    cases instr with
    | plain backend =>
        rw [versionsDiffer_of_single (parents_plain_le found)] at differ
        cases differ
    | changeMask predicate =>
        exact fun inside => free (List.mem_singleton.mp inside ▸ inv.mask)
    | _ => exact List.not_mem_nil
  change filled.2.supply.counter reg = _
  rw [node.supply]
  exact Supply.counter_issueAll_of_not_mem _ absent

theorem maxVersion_le {versions : List Version} {bound : Nat}
    (below : ∀ version ∈ versions, version.num ≤ bound) : maxVersion versions ≤ bound := by
  have general : ∀ start ≤ bound,
      versions.foldl (fun greatest version => max greatest version.num) start ≤ bound := by
    induction versions with
    | nil => exact fun start le => le
    | cons version rest ih =>
        intro start le
        exact ih (fun other inside => below other (List.mem_cons_of_mem _ inside)) _
          (max_le le (below version List.mem_cons_self))
  exact general 0 (Nat.zero_le _)

theorem maxVersion_parentVersions_le (inv : VersionInv st) (parents : List NodeId) (reg : String) :
    maxVersion (parentVersions st.nodes parents reg) ≤ st.data.counter reg := by
  refine maxVersion_le fun version inside => ?_
  obtain ⟨parent, _, stored⟩ := List.mem_filterMap.mp inside
  exact (inv.bounded parent reg version stored).2

theorem mergesNewest_iff (inv : VersionInv st) (found : attachment st instr = some attached)
    (node : FilledNode st instr attached filled) :
    MergesNewest st instr ↔ ∀ reg ∈ stepMerges st filled,
      mergeNumber filled.1 (filled.1.parent st.nodes.size) reg = filled.2.supply.counter reg + 1 := by
  constructor
  · intro newest reg merges
    obtain ⟨key, free, differ⟩ := (mem_stepMerges inv found node reg).mp merges
    rw [mergeNumber_filled inv found node, newest attached found reg key free differ]
    exact congrArg (· + 1) (counter_filled inv found node merges).symm
  · intro all other foundOther reg key free differ
    cases Option.some.inj (found.symm.trans foundOther)
    have merges := (mem_stepMerges inv found node reg).mpr ⟨key, free, differ⟩
    have equal := all reg merges
    rw [mergeNumber_filled inv found node] at equal
    exact (Nat.succ.inj equal).trans (counter_filled inv found node merges)

end MergeStep

/-- A step fills the next node and merges the registers its parents disagree about. -/
theorem step_versions {before after : DecompilationState} {instr : Instr} (inv : VersionInv before)
    (stepped : step before instr = some after) :
    ∃ attached filled, attachment before instr = some attached ∧
      FilledNode before instr attached filled ∧
      Merged before.nodes.size filled (filled.1.state before.nodes.size).registers.keys
        (after.nodes, after.data) ∧
      after.data.predicates = filled.2.predicates := by
  obtain ⟨attached, filled, found, done, _, _, merged⟩ := step_cases stepped
  have node := filledNode inv found done
  have ok := attachmentOk inv.valid found
  refine ⟨attached, filled, found, node, ?_⟩
  split at merged
  · have apart : before.nodes.size ∉ filled.1.parent before.nodes.size := by
      rw [node.parent]
      intro inside
      rcases List.mem_append.mp inside with here | waited
      · exact Nat.lt_irrefl _ (ok.parents _ here)
      · exact Nat.lt_irrefl _ (joinedSources_lt inv.valid _ waited)
    rw [merged]
    refine ⟨merged_foldl node.size apart _, ?_⟩
    have frame := (findMaxAndPrevVersions_frame filled.1 filled.2 before.nodes.size).2.predicates
    exact (congrArg (fun pair => pair.2.predicates) merged).trans frame
  · rename_i single
    have none : mergedRegisters filled.1 filled.2.predicates (filled.1.parent before.nodes.size)
        (filled.1.state before.nodes.size).registers.keys = [] := by
      refine List.filter_eq_nil_iff.mpr fun reg _ => ?_
      simp [versionsDiffer_of_single (Nat.le_of_not_lt single)]
    rw [merged]
    exact ⟨⟨by rw [none]; rfl, fun _ _ => rfl, fun _ _ => Or.inl⟩,
      congrArg (fun pair => pair.2.predicates) merged⟩

theorem nodup_stepMerges (st : DecompilationState) (filled : Nodes × DecompilerData) :
    (stepMerges st filled).Nodup := (PyDict.nodup_keys _).filter _

theorem versionInv_step {before after : DecompilationState} {instr : Instr}
    (inv : VersionInv before) (newest : MergesNewest before instr)
    (stepped : step before instr = some after) : VersionInv after := by
  obtain ⟨attached, filled, found, node, merged, predicates⟩ := step_versions inv stepped
  have next := (mergesNewest_iff inv found node).mp newest
  have filledExact : filled.2.supply.Exact := by
    rw [node.supply]
    exact (Supply.issueAll_spec inv.issued _).1
  have counters : ∀ reg, filled.2.supply.counter reg ≤ after.data.supply.counter reg := by
    intro reg
    rw [merged.supply, Supply.counter_issueEach]
    split
    · rename_i merges
      rw [next reg merges]
      exact Nat.le_succ _
    · exact Nat.le_refl _
  refine ⟨valid_step inv.valid stepped, ?_, ?_, fun id => ?_⟩
  · rw [predicates, node.predicates]
    exact List.mem_append_left _ inv.mask
  · rw [merged.supply]
    exact Supply.exact_issueEach filledExact (nodup_stepMerges before filled) next
  · by_cases here : id = before.nodes.size
    · subst here
      intro reg version stored
      rcases merged.own reg version stored with old | ⟨merges, rfl⟩
      · exact (node.bounded _).mono counters reg version old
      · refine ⟨rfl, ?_⟩
        rw [merged.supply, Supply.counter_issueEach, if_pos merges]
    · rw [show after.nodes.state id = filled.1.state id from merged.other id here]
      exact (node.bounded id).mono counters

theorem prefix_foldl_mergeRegister (node : NodeId) (regs : List String)
    (current : Nodes × DecompilerData) :
    current.2.supply.issued <+: (regs.foldl (mergeRegister node) current).2.supply.issued := by
  induction regs generalizing current with
  | nil => exact List.prefix_refl _
  | cons reg rest ih =>
      refine List.IsPrefix.trans ?_ (ih (mergeRegister node current reg))
      unfold mergeRegister
      split
      · exact List.prefix_refl _
      · dsimp only
        split
        · unfold updateRegVersion
          rw [supply_mint]
          exact Supply.prefix_issueAt _ reg _
        · exact List.prefix_refl _

theorem prefix_step {before after : DecompilationState} {instr : Instr}
    (stepped : step before instr = some after) :
    before.data.supply.issued <+: after.data.supply.issued := by
  obtain ⟨attached, filled, _, done, _, _, merged⟩ := step_cases stepped
  have head : before.data.supply.issued <+: filled.2.supply.issued := by
    rw [toFillNode_supply done]
    exact Supply.prefix_issueAll _ _
  split at merged
  · have tail := prefix_foldl_mergeRegister before.nodes.size
      (filled.1.state before.nodes.size).registers.keys filled
    have data := congrArg (fun pair => pair.2.supply.issued) merged
    exact head.trans (tail.trans (by rw [data]; exact List.prefix_refl _))
  · have data := congrArg (fun pair => pair.2.supply.issued) merged
    exact head.trans (by rw [data])

/-! ## Runs -/

theorem nodup_minted_iff (data : DecompilerData) :
    data.supply.issued.Nodup ↔ data.minted.Nodup :=
  List.nodup_map_iff fun _ _ equal =>
    Version.ext (Prod.mk.inj equal).1 (Prod.mk.inj equal).2

theorem nodup_step_iff {before after : DecompilationState} {instr : Instr}
    (inv : VersionInv before) (nodup : before.data.supply.issued.Nodup)
    (stepped : step before instr = some after) :
    after.data.supply.issued.Nodup ↔ MergesNewest before instr := by
  obtain ⟨attached, filled, found, node, merged, _⟩ := step_versions inv stepped
  obtain ⟨filledExact, filledNodup, _⟩ := Supply.issueAll_spec inv.issued (issuedBy instr)
  rw [← node.supply] at filledExact filledNodup
  rw [mergesNewest_iff inv found node, merged.supply]
  refine Supply.nodup_issueEach_iff filledExact (filledNodup nodup)
    (nodup_stepMerges before filled) fun reg merges => ⟨Nat.le_add_left 1 _, ?_⟩
  rw [mergeNumber_filled inv found node]
  have counter : filled.2.supply.counter reg = before.data.counter reg :=
    counter_filled inv found node merges
  rw [counter]
  exact Nat.succ_le_succ (maxVersion_parentVersions_le inv _ reg)

theorem versionInv_initialState : VersionInv initialState where
  valid := valid_initialState
  mask := List.mem_singleton_self _
  issued := by
    intro key num
    change (key, num) ∈ [(maskRegister, 1)] ↔
      1 ≤ num ∧ num ≤ ((PyDict.empty.set maskRegister 1).get? key).getD 0
    rw [PyDict.get?_set, List.mem_singleton, Prod.mk.injEq]
    split
    · rename_i same
      simp only [same, true_and, Option.getD_some]
      omega
    · rename_i different
      simp only [different, false_and, PyDict.get?_empty, Option.getD_none, false_iff]
      omega
  bounded := by
    intro id
    cases id with
    | zero =>
        intro reg version stored
        change (PyDict.empty.set maskRegister ⟨maskRegister, 1⟩).get? reg = some version at stored
        rw [PyDict.get?_set] at stored
        split at stored
        · rename_i same
          cases stored
          subst same
          exact ⟨rfl, by decide⟩
        · cases stored
    | succ id =>
        intro reg version stored
        simp [Nodes.state, Arena.get, initialState, Arena.alloc, Arena.empty] at stored
        cases stored

/--
No two definitions share a version name exactly when at every join the parents
that disagree about a register include the one with its newest version.
-/
theorem run_minted_nodup_iff (instrs : List Instr) (st : DecompilationState)
    (ran : run instrs = some st) :
    st.data.minted.Nodup ↔ Run.Meets step MergesNewest initialState instrs := by
  rw [← nodup_minted_iff]
  have fresh : initialState.data.supply.issued.Nodup := by decide
  exact @Run.final_iff_meets _ _ step VersionInv
    (fun reached => reached.data.supply.issued.Nodup) MergesNewest
    (fun _ _ _ inv nodup newest stepped =>
      ⟨versionInv_step inv newest stepped, (nodup_step_iff inv nodup stepped).mpr newest⟩)
    (fun _ _ _ inv nodup stale stepped kept => stale ((nodup_step_iff inv nodup stepped).mp kept))
    (fun _ _ _ repeated stepped kept =>
      repeated (Supply.nodup_of_prefix (prefix_step stepped) kept))
    _ _ _ versionInv_initialState fresh ran

section Instance

/-- A plain instruction that writes one register. -/
def writeNode (reg : String) (different : maskRegister ∉ [reg]) : BackendNode :=
  ⟨"v_mov_b32", [reg], [], [], different, by decide⟩

/--
Two branches reach the first label with `v0#1` and `v0#2`, while the path
between them went on to `v0#3`; the join gives out `v0#3` again.
-/
def staleJoin : List Instr :=
  [.plain (writeNode "v0" (by decide)), .branch "p" labelA,
    .plain (writeNode "v0" (by decide)), .branch "q" labelA,
    .plain (writeNode "v0" (by decide)), .jump labelB,
    .label labelA, .label labelB, .endPgm]

theorem staleJoin_not_nodup :
    LabelForm staleJoin ∧ ∃ st, run staleJoin = some st ∧ ¬st.data.minted.Nodup := by
  refine ⟨⟨by decide, by decide, by decide⟩, ?_⟩
  obtain ⟨st, ran, _⟩ := labelInv_run staleJoin (by decide) (by decide)
  refine ⟨st, ran, ?_⟩
  have computed : (run staleJoin).all (fun final => decide ¬final.data.minted.Nodup) = true := by
    decide
  rw [ran] at computed
  exact of_decide_eq_true computed

/-- One arm of a branch writes a register that the other arm leaves alone. -/
def freshJoin : List Instr :=
  [.plain (writeNode "v0" (by decide)), .branch "p" labelA,
    .plain (writeNode "v0" (by decide)), .label labelA, .endPgm]

theorem run_minted_nodup_iff_freshJoin :
    ∃ st, run freshJoin = some st ∧
      (st.data.minted.Nodup ↔ Run.Meets step MergesNewest initialState freshJoin) := by
  obtain ⟨st, ran, _⟩ := labelInv_run freshJoin (by decide) (by decide)
  exact ⟨st, ran, run_minted_nodup_iff freshJoin st ran⟩

end Instance

end OpenCLDecompiler
