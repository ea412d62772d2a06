import OpenCLDecompiler.Cfg.Step
import OpenCLDecompiler.Library.Worklist

/-!
# The worklist of change_values

`change_values` goes through the control-flow graph with a queue.  A node with several
parents is put off until all of them have been visited, but a node that is the target of
a jump back is let through.
-/

namespace OpenCLDecompiler

open Library

/-- The edges are known at both ends, and all nodes have been allocated. -/
structure EdgesAgree (nodes : Nodes) : Prop where
  agree : ∀ source target, source ∈ nodes.parent target ↔ target ∈ nodes.children source
  source : ∀ source target, target ∈ nodes.children source → source < nodes.size
  target : ∀ source target, target ∈ nodes.children source → target < nodes.size

theorem edgesAgree_initialState : EdgesAgree initialState.nodes where
  agree source target := by simp [children_initialState, parent_initialState]
  source source target child := by simp [children_initialState] at child
  target source target child := by simp [children_initialState] at child

theorem lt_of_mem_joinedSources {st : DecompilationState} (valid : Valid st) {instr : Instr}
    {source : NodeId} (joined : source ∈ joinedSources st.data instr) : source < st.nodes.size := by
  cases instr with
  | label name => exact valid.range.fromNode name.text source joined
  | _ => cases joined

theorem lt_of_backTarget {st : DecompilationState} (valid : Valid st) {instr : Instr}
    {target : NodeId} (back : backTarget st.data instr = some target) : target < st.nodes.size := by
  cases instr with
  | branch predicate label => exact valid.range.toNode label.text target back
  | branchNot predicate label => exact valid.range.toNode label.text target back
  | jump label => exact valid.range.toNode label.text target back
  | _ => cases back

/-- An old edge, an edge to the new node, or the edge of a jump back. -/
def EdgeAfter (before : DecompilationState) (instr : Instr) (attached : Attachment)
    (source target : NodeId) : Prop :=
  target ∈ before.nodes.children source ∨
    target = before.nodes.size ∧
      (source ∈ attached.parents ∨ source ∈ joinedSources before.data instr) ∨
    source = before.nodes.size ∧ backTarget before.data instr = some target

section Step

variable {before after : DecompilationState} {instr : Instr} {attached : Attachment}

theorem mem_children_iff (valid : Valid before) (edges : EdgesAgree before.nodes)
    (ok : AttachmentOk before attached) (effect : StepEffect before instr attached after)
    (source target : NodeId) :
    target ∈ after.nodes.children source ↔ EdgeAfter before instr attached source target := by
  rw [effect.children, EdgeAfter]
  by_cases new : source = before.nodes.size
  · subst new
    have noParent : before.nodes.size ∉ attached.parents := fun member =>
      Nat.lt_irrefl _ (ok.parents _ member)
    have noSource : before.nodes.size ∉ joinedSources before.data instr := fun member =>
      Nat.lt_irrefl _ (lt_of_mem_joinedSources valid member)
    have noChild : target ∉ before.nodes.children before.nodes.size := fun member =>
      Nat.lt_irrefl _ (edges.source _ _ member)
    simp [noParent, noSource, noChild, List.count_eq_zero.mpr noSource]
  · simp only [new, if_false, List.mem_append, List.mem_replicate, ne_eq, List.count_eq_zero,
      not_not, List.not_mem_nil, or_false, false_and]
    tauto

theorem mem_parent_iff (edges : EdgesAgree before.nodes)
    (effect : StepEffect before instr attached after) (source target : NodeId) :
    source ∈ after.nodes.parent target ↔ EdgeAfter before instr attached source target := by
  rw [effect.parent, EdgeAfter, ← edges.agree]
  have back : (source ∈ if backTarget before.data instr = some target then [before.nodes.size] else []) ↔
      source = before.nodes.size ∧ backTarget before.data instr = some target := by
    split <;> simp_all
  rw [List.mem_append, List.mem_append, back]
  by_cases new : target = before.nodes.size
  · subst new
    have noParent : source ∉ before.nodes.parent before.nodes.size := fun member =>
      Nat.lt_irrefl _ (edges.target _ _ ((edges.agree _ _).mp member))
    simp [noParent]
  · simp [new]

end Step

theorem edgesAgree_step {before after : DecompilationState} {instr : Instr}
    (inv : Valid before ∧ EdgesAgree before.nodes) (stepped : step before instr = some after) :
    Valid after ∧ EdgesAgree after.nodes := by
  obtain ⟨valid, edges⟩ := inv
  obtain ⟨attached, found, effect⟩ := step_effect valid stepped
  have ok := attachmentOk valid found
  have child := mem_children_iff valid edges ok effect
  refine ⟨valid_step valid stepped, fun source target => ?_, fun source target member => ?_,
    fun source target member => ?_⟩
  · rw [child, mem_parent_iff edges effect]
  · rw [effect.size]
    rcases (child source target).mp member with old | ⟨-, attached | joined⟩ | ⟨rfl, -⟩
    · exact Nat.lt_succ_of_lt (edges.source _ _ old)
    · exact Nat.lt_succ_of_lt (ok.parents _ attached)
    · exact Nat.lt_succ_of_lt (lt_of_mem_joinedSources valid joined)
    · exact Nat.lt_succ_self _
  · rw [effect.size]
    rcases (child source target).mp member with old | ⟨rfl, -⟩ | ⟨-, back⟩
    · exact Nat.lt_succ_of_lt (edges.target _ _ old)
    · exact Nat.lt_succ_self _
    · exact Nat.lt_succ_of_lt (lt_of_backTarget valid back)

/-- A graph that the pass has built from the instructions of a kernel. -/
structure BuiltCfg where
  instrs : List Instr
  st : DecompilationState
  built : run instrs = some st

namespace BuiltCfg

variable (cfg : BuiltCfg)

theorem edgesAgree : EdgesAgree cfg.st.nodes := by
  have initial : Valid initialState ∧ EdgesAgree initialState.nodes :=
    ⟨valid_initialState, edgesAgree_initialState⟩
  exact (Run.invariant (fun _ _ _ _ => edgesAgree_step) initial cfg.built).2

/-- The graph as `change_values` reads it; `loops` are the targets of jumps back. -/
def worklist : Worklist NodeId where
  start := entryNode
  children := cfg.st.nodes.children
  parents := cfg.st.nodes.parent
  free node := cfg.st.data.loops.contains node
  mutual_edges := cfg.edgesAgree.agree

/--
The nodes that `change_values` visits, in order; `curr_node.children[0]` of an entry
without children is an `IndexError`.  What is done to a visited node does not change the
graph.
-/
def changeValues (bound : Nat) : Option (List NodeId) :=
  if cfg.st.nodes.children entryNode = [] then none else cfg.worklist.drain bound cfg.worklist.initial

/-- An edge that is no jump back. -/
def Forward (source target : NodeId) : Prop := source < target

/-- `change_values` ends, visits the reachable nodes once, and none before a forward parent. -/
def InOrder : Prop :=
  ∃ order, Settles cfg.changeValues order ∧ cfg.worklist.InOrder Forward order

/-- The queue holds nodes of the graph, so that it is empty at some time. -/
theorem exists_order : ∃ order,
    Settles (fun bound => cfg.worklist.drain bound cfg.worklist.initial) order := by
  refine Worklist.exists_drain (Finset.range cfg.st.nodes.size) ?_ ?_
  · intro node _ child member
    exact Finset.mem_range.mpr (cfg.edgesAgree.target node child member)
  · intro node member
    have child : node ∈ cfg.st.nodes.children entryNode := List.mem_of_mem_take member
    exact Finset.mem_range.mpr (cfg.edgesAgree.target entryNode node child)

theorem settles_changeValues_iff (order : List NodeId) :
    Settles cfg.changeValues order ↔ cfg.st.nodes.children entryNode ≠ [] ∧
      Settles (fun bound => cfg.worklist.drain bound cfg.worklist.initial) order := by
  by_cases leaf : cfg.st.nodes.children entryNode = []
  · have raises : ∀ bound, cfg.changeValues bound = none := fun bound => if_pos leaf
    refine ⟨fun ⟨least, gives⟩ => ?_, fun ⟨child, _⟩ => absurd leaf child⟩
    have given := gives least le_rfl
    rw [raises] at given
    cases given
  · have drains : ∀ bound, cfg.changeValues bound = cfg.worklist.drain bound cfg.worklist.initial :=
      fun bound => if_neg leaf
    exact ⟨fun settles => ⟨leaf, settles.congr fun bound => (drains bound).symm⟩,
      fun ⟨_, settles⟩ => settles.congr drains⟩

theorem changeValues_inOrder_iff :
    cfg.InOrder ↔ cfg.st.nodes.children entryNode ≠ [] ∧
      (∀ blocked, cfg.worklist.Blocks blocked → ∀ node, ¬blocked node) ∧
      cfg.worklist.FreeInTime Forward := by
  have noSelf : ∀ node, ¬Forward node node := Nat.lt_irrefl
  have noStart : ∀ parent, ¬Forward parent cfg.worklist.start := Nat.not_lt_zero
  constructor
  · rintro ⟨order, settles, inOrder⟩
    obtain ⟨child, drains⟩ := (cfg.settles_changeValues_iff order).mp settles
    exact ⟨child, (Worklist.inOrder_iff noSelf noStart drains).mp inOrder⟩
  · rintro ⟨child, kept⟩
    obtain ⟨order, drains⟩ := cfg.exists_order
    exact ⟨order, (cfg.settles_changeValues_iff order).mpr ⟨child, drains⟩,
      (Worklist.inOrder_iff noSelf noStart drains).mpr kept⟩

end BuiltCfg

def labelX : LabelName := ⟨".L_X", by decide⟩

/-- A jump over code that cannot be reached. -/
def deadCode : List Instr :=
  [.jump labelX, .plain ⟨"s_mov_b32", ["s0"], [], [], by decide, by decide⟩, .label labelX, .endPgm]

def deadCodeCfg : BuiltCfg := ⟨deadCode, (run deadCode).get rfl, rfl⟩

/-- The label waits for the dead instruction in front of it, and is dropped. -/
theorem not_inOrder_deadCode : ¬deadCodeCfg.InOrder := by
  rintro ⟨order, settles, inOrder⟩
  have ended : Settles deadCodeCfg.changeValues [0, 1] :=
    .of_succ (fun _ => rfl) (.of_succ (fun _ => rfl) (.of_succ (fun _ => rfl) (.const _)))
  obtain rfl := settles.unique ended
  have jump : deadCodeCfg.worklist.Reachable 1 := Worklist.Reachable.child .refl (.head _)
  have label : deadCodeCfg.worklist.Reachable 3 := jump.child (.head _)
  exact absurd ((inOrder.all 3).mpr label) (by decide)

end OpenCLDecompiler
