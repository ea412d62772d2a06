import OpenCLDecompiler.Cfg.Local
import OpenCLDecompiler.Regions.Compose

/-!
# The graph that the passes share

The control-flow pass leaves a graph that the later passes read.  If that graph
has the shape of a flow, the output is right for it.
-/

namespace OpenCLDecompiler

open Library Regions.Build

/-- Opcode of the nodes that print no statement. -/
def changeMaskOpcode : String := "change_mask"

/-! ## Nodes below a bound -/

/-- The nodes of a list that are among the first ones. -/
def nodesWithin (size : Nat) (ids : List NodeId) : List (Fin size) :=
  ids.filterMap fun id => if inside : id < size then some ⟨id, inside⟩ else none

theorem mem_nodesWithin {size : Nat} {ids : List NodeId} {node : Fin size} :
    node ∈ nodesWithin size ids ↔ node.val ∈ ids := by
  rw [nodesWithin, List.mem_filterMap]
  constructor
  · rintro ⟨id, inside, found⟩
    split at found
    · cases found
      exact inside
    · cases found
  · exact fun inside => ⟨node, inside, dif_pos node.isLt⟩

theorem nodup_nodesWithin {size : Nat} {ids : List NodeId} (nodup : ids.Nodup) :
    (nodesWithin size ids).Nodup := by
  refine nodup.filterMap fun left right node isLeft isRight => ?_
  rw [Option.mem_def] at isLeft isRight
  split at isLeft
  · split at isRight
    · cases isLeft
      cases isRight
      rfl
    · cases isRight
  · cases isLeft

/-- The first nodes as numbers below a bound that has the entry. -/
def nodeWithin {size : Nat} (entry : entryNode < size) (id : NodeId) : Fin size :=
  if inside : id < size then ⟨id, inside⟩ else ⟨entryNode, entry⟩

theorem nodeWithin_val {size : Nat} (entry : entryNode < size) {id : NodeId} (inside : id < size) :
    (nodeWithin entry id).val = id := by
  rw [nodeWithin, dif_pos inside]

theorem nodesWithin_eq_map {size : Nat} (entry : entryNode < size) {ids : List NodeId}
    (inside : ∀ id ∈ ids, id < size) : nodesWithin size ids = ids.map (nodeWithin entry) := by
  induction ids with
  | nil => rfl
  | cons id rest ih =>
      have here := inside id List.mem_cons_self
      rw [List.map_cons, ← ih fun other inRest => inside other (List.mem_cons_of_mem _ inRest),
        nodeWithin, dif_pos here, nodesWithin, List.filterMap_cons_some (dif_pos here)]
      rfl

theorem map_nodesWithin {size : Nat} (entry : entryNode < size) {ids : List NodeId}
    (inside : ∀ id ∈ ids, id < size) : (nodesWithin size ids).map Fin.val = ids := by
  rw [nodesWithin_eq_map entry inside, List.map_map]
  exact (List.map_congr_left fun id here => nodeWithin_val entry (inside id here)).trans
    (List.map_id _)

/-! ## The graph -/

namespace DecompilationState

variable (st : DecompilationState)

/-- The control-flow graph as the pass that builds the region graph reads it. -/
def regionCfg (entry : entryNode < st.nodes.size) : Regions.Build.Cfg (Fin st.nodes.size) where
  start := ⟨entryNode, entry⟩
  children node := nodesWithin _ (st.nodes.children node)
  parent node := nodesWithin _ (st.nodes.parent node)
  loops := nodesWithin _ st.data.loops
  backEdges := nodesWithin _ st.data.backEdges

def isMask (node : NodeId) : Bool := st.nodes.instruction node == changeMaskOpcode

/-- The nodes that print a statement. -/
def speaks (node : NodeId) : Bool :=
  decide (node < st.nodes.size) && !(node == entryNode) && !st.isMask node

theorem speaks_iff {node : NodeId} :
    st.speaks node = true ↔ node < st.nodes.size ∧ node ≠ entryNode ∧ st.isMask node = false := by
  simp [speaks, and_assoc]

/-- The graph as the output reads it. -/
def printedCfg (entry : entryNode < st.nodes.size) : Regions.Cfg :=
  (st.regionCfg entry).printed fun node => st.isMask node

end DecompilationState

/-- The edges of nodes without loops. -/
def Nodes.edges (nodes : Nodes) : Regions.Build.Cfg NodeId where
  start := entryNode
  children := nodes.children
  parent := nodes.parent
  loops := []
  backEdges := []

namespace Upward

variable {st : DecompilationState} {entry : entryNode < st.nodes.size}

theorem renames (graph : Upward st) (entry : entryNode < st.nodes.size) {node : NodeId}
    (inside : node < st.nodes.size) :
    Renames (nodeWithin entry) st.nodes.edges st.isMask (st.regionCfg entry)
      (fun node => st.isMask node) node where
  children := by
    change nodesWithin _ (st.nodes.children (nodeWithin entry node).val) = _
    rw [nodeWithin_val entry inside]
    exact nodesWithin_eq_map entry fun target edge => (graph.range node target edge).2
  parent := by
    change nodesWithin _ (st.nodes.parent (nodeWithin entry node).val) = _
    rw [nodeWithin_val entry inside]
    exact nodesWithin_eq_map entry fun source edge =>
      (graph.range source node ((graph.edges.agree source node).mp edge)).1
  mask := congrArg st.isMask (nodeWithin_val entry inside)

theorem loopFree (graph : Upward st) : (st.regionCfg entry).LoopFree where
  loops := congrArg (nodesWithin _) graph.loops.loops
  backEdges := congrArg (nodesWithin _) graph.loops.backEdges

theorem consistent (graph : Upward st) (first second : Fin st.nodes.size) :
    second ∈ (st.regionCfg entry).children first ↔ first ∈ (st.regionCfg entry).parent second := by
  change second ∈ nodesWithin _ _ ↔ first ∈ nodesWithin _ _
  rw [mem_nodesWithin, mem_nodesWithin]
  exact (graph.edges.agree first second).symm

/-- If only the entry is without a parent, every node can be reached. -/
theorem reachable (graph : Upward st)
    (fed : ∀ node, node < st.nodes.size → st.nodes.parent node = [] → node = entryNode)
    (node : Fin st.nodes.size) :
    Relation.ReflTransGen (st.regionCfg entry).Forward (st.regionCfg entry).start node := by
  obtain ⟨node, inside⟩ := node
  induction node using Nat.strong_induction_on with
  | _ node ih =>
      cases above : st.nodes.parent node with
      | nil =>
          cases fed node inside above
          exact .refl
      | cons parent others =>
          have child := (graph.edges.agree parent node).mp (by rw [above]; exact List.mem_cons_self)
          have parentIn := (graph.range parent node child).1
          refine (ih parent (graph.upward parent node child) parentIn).tail ?_
          exact graph.loopFree.forward (mem_nodesWithin.mpr child)

theorem wellFormed (graph : Upward st)
    (fed : ∀ node, node < st.nodes.size → st.nodes.parent node = [] → node = entryNode)
    (only : st.nodes.children entryNode = [firstNode]) : (st.regionCfg entry).WellFormed where
  consistent := graph.consistent
  nodup_children node := nodup_nodesWithin (graph.edges.childrenNodup node)
  nodup_parent node := nodup_nodesWithin (graph.edges.parentNodup node)
  start_child := by
    have inside := graph.range entryNode firstNode (by rw [only]; exact List.mem_cons_self)
    change (nodesWithin _ (st.nodes.children entryNode)).length = 1
    rw [only, nodesWithin_eq_map entry (List.forall_mem_singleton.mpr inside.2)]
    rfl
  reachable := graph.reachable fed
  acyclic := Cfg.acyclic_of_lt fun first second forward =>
    graph.upward first second (mem_nodesWithin.mp forward.1)

theorem printedCfg_children (graph : Upward st) (entry : entryNode < st.nodes.size)
    (node : NodeId) : ((st.printedCfg entry).node node).children = st.nodes.children node := by
  unfold DecompilationState.printedCfg Cfg.printed
  dsimp only
  split
  · exact map_nodesWithin entry fun target edge => (graph.range node target edge).2
  · rename_i outside
    refine (List.eq_nil_iff_forall_not_mem.mpr fun target edge => ?_).symm
    exact outside (graph.range node target edge).1

end Upward

/-! ## Flows of the graph -/

namespace Regions.Build.Flow

theorem statements_eq {V : Type} [DecidableEq V] {cfg : Build.Cfg V} {mask : V → Bool}
    (flow : Flow V) : flow.statements cfg mask =
      flow.lineNodes.filter fun node => !(node == cfg.start) && !mask node := by
  have leads (lead : Option (Line V)) : (lead.map (Line.statements cfg mask)).getD [] =
      (leadNodes lead).filter fun node => !(node == cfg.start) && !mask node := by
    cases lead <;> rfl
  induction flow with
  | done => rfl
  | block line => rfl
  | own lead cond body other join rest bodyIh otherIh restIh =>
      simp only [statements, lineNodes, leads, bodyIh, otherIh, restIh, List.filter_append]
  | shared lead cond body other bodyIh otherIh =>
      simp only [statements, lineNodes, leads, bodyIh, otherIh, List.filter_append]

theorem lineNodes_sublist {V : Type} (flow : Flow V) : flow.lineNodes.Sublist flow.nodes := by
  induction flow with
  | done => exact List.Sublist.refl _
  | block line => exact List.Sublist.refl _
  | own lead cond body other join rest bodyIh otherIh restIh =>
      exact ((List.Sublist.refl _).append ((bodyIh.append otherIh).cons cond)).append
        (restIh.cons join)
  | shared lead cond body other bodyIh otherIh =>
      exact (List.Sublist.refl _).append ((bodyIh.append otherIh).cons cond)

end Regions.Build.Flow

/-- The graph has the shape of a flow that can be merged. -/
structure Flows (st : DecompilationState) (flow : Flow NodeId) : Prop where
  graph : Upward st
  placed : flow.Placed st.nodes.edges st.isMask none none
  nodes : flow.nodes = List.range st.nodes.size
  first : flow.first = some entryNode
  only : st.nodes.children entryNode = [firstNode]
  led : flow.Led st.speaks false false
  closed : flow.isOpen = false

namespace Flows

variable {st : DecompilationState} {flow : Flow NodeId}

theorem below (flows : Flows st flow) {node : NodeId} (inside : node ∈ flow.nodes) :
    node < st.nodes.size := by
  rw [flows.nodes] at inside
  exact List.mem_range.mp inside

theorem fed (flows : Flows st flow) (node : NodeId) (inside : node < st.nodes.size)
    (none : st.nodes.parent node = []) : node = entryNode := by
  have listed : node ∈ flow.nodes := by
    rw [flows.nodes]
    exact List.mem_range.mpr inside
  have first := (flows.placed.orphan listed none).2
  rw [flows.first] at first
  exact (Option.some.inj first).symm

theorem short (flows : Flows st flow) (node : NodeId) : (st.nodes.children node).length ≤ 2 := by
  by_cases inside : node < st.nodes.size
  · refine flows.placed.short node ?_
    rw [flows.nodes]
    exact List.mem_range.mpr inside
  · have none : st.nodes.children node = [] := List.eq_nil_iff_forall_not_mem.mpr
      fun target edge => inside (flows.graph.range node target edge).1
    rw [none]
    exact Nat.zero_le 2

theorem structured (flows : Flows st flow) (entry : entryNode < st.nodes.size) :
    Structured (st.regionCfg entry) (fun node => st.isMask node) (flow.map (nodeWithin entry)) := by
  constructor
  case wf => exact flows.graph.wellFormed flows.fed flows.only
  case free => exact flows.graph.loopFree
  case placed =>
    exact flows.placed.map fun node inside => flows.graph.renames entry (flows.below inside)
  case first =>
    rw [Flow.map_first, flows.first]
    exact congrArg some (Fin.ext (nodeWithin_val entry entry))
  case nodes =>
    rw [Flow.map_nodes, flows.nodes]
    refine List.Nodup.map_on (fun left isLeft right isRight same => ?_) List.nodup_range
    rw [← nodeWithin_val entry (List.mem_range.mp isLeft), same,
      nodeWithin_val entry (List.mem_range.mp isRight)]

theorem mergeable (flows : Flows st flow) (entry : entryNode < st.nodes.size) :
    (flow.map (nodeWithin entry)).Mergeable (st.regionCfg entry) (fun node => st.isMask node)
      false := by
  have outer : (flow.map (nodeWithin entry)).Led (fun node => st.speaks node.val) false false := by
    refine flows.led.map fun node speaks => ?_
    rwa [nodeWithin_val entry (st.speaks_iff.mp speaks).1]
  refine outer.mergeable (fun _ => ?_) fun node speaks => ?_
  · rw [Flow.map_isOpen]
    exact flows.closed
  · obtain ⟨-, notEntry, notMask⟩ := st.speaks_iff.mp speaks
    exact ⟨fun same => notEntry (congrArg Fin.val same), notMask⟩

/-- The statements of the shared graph are the nodes of its lines that speak. -/
theorem statements (flows : Flows st flow) (entry : entryNode < st.nodes.size) :
    ((flow.map (nodeWithin entry)).statements (st.regionCfg entry) fun node => st.isMask node).map
      Fin.val = flow.lineNodes.filter st.speaks := by
  have below : ∀ node ∈ flow.lineNodes, node < st.nodes.size := fun node inside =>
    flows.below (flow.lineNodes_sublist.subset inside)
  rw [Flow.statements_eq, Flow.map_lineNodes, List.filter_map, List.map_map]
  have vals : ∀ nodes : List NodeId, (∀ node ∈ nodes, node < st.nodes.size) →
      nodes.map (Fin.val ∘ nodeWithin entry) = nodes := fun nodes below =>
    (List.map_congr_left fun node inside => nodeWithin_val entry (below node inside)).trans
      (List.map_id _)
  rw [vals _ fun node inside => below node (List.mem_of_mem_filter inside)]
  refine List.filter_congr fun node inside => ?_
  have here := below node inside
  have val := nodeWithin_val entry here
  have start : (nodeWithin entry node == (st.regionCfg entry).start) = (node == entryNode) := by
    rw [Bool.eq_iff_iff, beq_iff_eq, beq_iff_eq, Fin.ext_iff, val]
    rfl
  simp only [Function.comp, DecompilationState.speaks, start, val, here, decide_true,
    Bool.true_and]

/-- The region graph is built and merged, and its output has the statements of the graph. -/
theorem decompiles (flows : Flows st flow) (entry : entryNode < st.nodes.size) :
    ∃ regions root after result out,
      Settles (makeRegionGraphFromCfg (st.regionCfg entry)) regions ∧
      regions.starts (st.regionCfg entry).start = some root ∧
      Settles (Regions.processRegionGraph regions.graph root) (after, result) ∧
      Settles (fun fuel => Regions.makeOutputFromRegion (st.printedCfg entry) after fuel result) out ∧
      Regions.Prints (st.printedCfg entry) (flow.lineNodes.filter st.speaks) out := by
  have structured := flows.structured entry
  obtain ⟨regions, owner, trace, builds, finished⟩ :=
    makeRegionGraphFromCfg_finished structured.wf structured.free
  obtain ⟨after, result, out, ends, shows, prints⟩ :=
    structured.prints (flows.mergeable entry) finished
  rw [flows.statements entry] at prints
  exact ⟨regions, owner _, after, result, out, builds, finished.root, ends, shows, prints⟩

/-- A list of statements that are printed, in the order in which they run. -/
theorem once {entry : entryNode < st.nodes.size} {out : Regions.Printed} {plain : List NodeId}
    (flows : Flows st flow)
    (prints : Regions.Prints (st.printedCfg entry) (flow.lineNodes.filter st.speaks) out)
    (nodup : plain.Nodup) (listed : ∀ node ∈ plain, node ∈ flow.lineNodes ∧ st.speaks node = true) :
    (((out.guarded []).map Prod.snd).filter (· ∈ plain)).Perm plain := by
  have distinct : (flow.lineNodes.filter st.speaks).Nodup := by
    refine (List.Nodup.sublist flow.lineNodes_sublist ?_).filter _
    rw [flows.nodes]
    exact List.nodup_range
  refine (prints.once.filter _).trans ?_
  refine (List.perm_ext_iff_of_nodup (distinct.filter _) nodup).mpr fun node => ?_
  rw [List.mem_filter, decide_eq_true_iff]
  exact and_iff_right_of_imp fun inside => List.mem_filter.mpr (listed node inside)

/-- The output runs the listed statements as a walk of the graph does. -/
theorem runs {entry : entryNode < st.nodes.size} {out : Regions.Printed} {plain : List NodeId}
    (prints : Regions.Prints (st.printedCfg entry) (flow.lineNodes.filter st.speaks) out)
    (listed : ∀ node ∈ plain, node ∈ flow.lineNodes ∧ st.speaks node = true)
    {val : NodeId → Bool} {trace : List NodeId}
    (walk : Walk.Complete ((st.printedCfg entry).successor val) entryNode trace) :
    (out.run val).filter (· ∈ plain) = trace.filter (· ∈ plain) := by
  obtain ⟨other, complete, ran⟩ := prints.order val
  cases walk.unique complete
  rw [← ran, List.filter_filter]
  refine List.filter_congr fun node _ => ?_
  have inside := listed node
  grind

end Flows

/-! ## Nodes of instructions -/

/-- No plain instruction has the opcode of the pass. -/
def Named (instrs : List Instr) : Prop :=
  ∀ instr ∈ instrs, instr.isPlain = true → instr.opcode ≠ changeMaskOpcode

instance (instrs : List Instr) : Decidable (Named instrs) :=
  inferInstanceAs (Decidable (∀ instr ∈ instrs, instr.isPlain = true →
    instr.opcode ≠ changeMaskOpcode))

theorem index_of_mem_plainNodes {base node : NodeId} {instrs : List Instr}
    (inside : node ∈ plainNodes base instrs) :
    ∃ index instr, instrs[index]? = some instr ∧ instr.isPlain = true ∧ node = base + index := by
  induction instrs generalizing base with
  | nil => cases inside
  | cons first rest ih =>
      have later (inRest : node ∈ plainNodes (base + 1) rest) : ∃ index instr,
          (first :: rest)[index]? = some instr ∧ instr.isPlain = true ∧ node = base + index := by
        obtain ⟨index, instr, found, isPlain, here⟩ := ih inRest
        exact ⟨index + 1, instr, found, isPlain, here.trans (Nat.succ_add_eq_add_succ base index)⟩
      rw [plainNodes] at inside
      split at inside
      · rename_i isPlain
        rcases List.mem_cons.mp inside with here | inRest
        · exact ⟨0, first, rfl, isPlain, here⟩
        · exact later inRest
      · exact later inside

theorem nodup_plainNodes (base : NodeId) (instrs : List Instr) : (plainNodes base instrs).Nodup := by
  induction instrs generalizing base with
  | nil => exact List.nodup_nil
  | cons first rest ih =>
      rw [plainNodes]
      split
      · exact List.nodup_cons.mpr
          ⟨fun inside => Nat.not_succ_le_self base (le_of_mem_plainNodes inside), ih _⟩
      · exact ih _

/-- Every instruction but a change of the mask has a node that speaks. -/
def Spoken (speaks : NodeId → Bool) (instrs : List Instr) : Prop :=
  ∀ index instr, instrs[index]? = some instr → instr.opcode ≠ changeMaskOpcode →
    speaks (firstNode + index) = true

theorem Spoken.plain {speaks : NodeId → Bool} {instrs : List Instr} (spoken : Spoken speaks instrs)
    (named : Named instrs) : ∀ node ∈ plainNodes firstNode instrs, speaks node = true := by
  rintro node inside
  obtain ⟨index, instr, found, isPlain, rfl⟩ := index_of_mem_plainNodes inside
  exact spoken index instr found (named instr (List.mem_of_getElem? found) isPlain)

/-- The nodes of a program that change no mask speak. -/
theorem spoken_of_run {instrs : List Instr} {st : DecompilationState}
    (ran : run instrs = some st) : Spoken st.speaks instrs := by
  rintro index instr inside named
  obtain ⟨-, opcodes⟩ := instruction_runFrom valid_initialState ran
  have opcode : st.nodes.instruction (firstNode + index) = instr.opcode :=
    opcodes index instr inside
  refine st.speaks_iff.mpr ⟨?_, ?_, ?_⟩
  · rw [size_runFrom valid_initialState ran]
    exact Nat.add_lt_add_left (List.getElem?_eq_some_iff.mp inside).1 _
  · exact Nat.ne_of_gt (Nat.lt_of_lt_of_le (Nat.lt_succ_self _) (Nat.le_add_right ..))
  · change (st.nodes.instruction (firstNode + index) == changeMaskOpcode) = false
    rw [opcode]
    exact beq_false_of_ne named

end OpenCLDecompiler
