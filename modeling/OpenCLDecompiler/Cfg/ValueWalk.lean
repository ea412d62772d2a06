import OpenCLDecompiler.Cfg.ChangeValues
import OpenCLDecompiler.Library.Joins

/-!
# The walk of update_value_for_reg

`update_value_for_reg` hands a changed value on to the children of a node that have it under
the same version.  It keeps no list of what it has visited; it stops where branches meet.
-/

namespace OpenCLDecompiler

open Library

/-! ## The entry -/

/-- No edge leads to the entry, and no label stands for it. -/
structure EntryFree (st : DecompilationState) : Prop where
  child : ∀ source, entryNode ∉ st.nodes.children source
  label : ∀ text, st.data.toNode.get? text ≠ some entryNode

theorem entryFree_initialState : EntryFree initialState where
  child source := by simp [children_initialState]
  label _ same := by cases same

theorem size_ne_entryNode {st : DecompilationState} (valid : Valid st) :
    st.nodes.size ≠ entryNode := Nat.ne_of_gt (Nat.zero_lt_of_lt valid.last)

theorem backTarget_ne_entryNode {st : DecompilationState} (free : EntryFree st) (instr : Instr) :
    backTarget st.data instr ≠ some entryNode := by
  cases instr with
  | branch predicate label => exact free.label label.text
  | branchNot predicate label => exact free.label label.text
  | jump label => exact free.label label.text
  | _ =>
      intro same
      cases same

theorem entryFree_step {before after : DecompilationState} {instr : Instr}
    (inv : (Valid before ∧ EdgesAgree before.nodes) ∧ EntryFree before)
    (stepped : step before instr = some after) :
    (Valid after ∧ EdgesAgree after.nodes) ∧ EntryFree after := by
  obtain ⟨⟨valid, edges⟩, free⟩ := inv
  obtain ⟨attached, found, effect⟩ := step_effect valid stepped
  refine ⟨edgesAgree_step ⟨valid, edges⟩ stepped, fun source member => ?_, fun text => ?_⟩
  · rcases (mem_children_iff valid edges (attachmentOk valid found) effect _ _).mp member with
      old | ⟨same, -⟩ | ⟨-, back⟩
    · exact free.child source old
    · exact size_ne_entryNode valid same.symm
    · exact backTarget_ne_entryNode free instr back
  · rw [effect.toNode, filledToNode]
    cases instr.label? with
    | none => exact free.label text
    | some name =>
        dsimp only
        rw [PyDict.get?_set]
        split
        · exact fun same => size_ne_entryNode valid (Option.some.inj same)
        · exact free.label text

namespace BuiltCfg

variable (cfg : BuiltCfg)

theorem entryFree : EntryFree cfg.st := by
  have initial : (Valid initialState ∧ EdgesAgree initialState.nodes) ∧ EntryFree initialState :=
    ⟨⟨valid_initialState, edgesAgree_initialState⟩, entryFree_initialState⟩
  exact (Run.invariant (fun _ _ _ _ => entryFree_step) initial cfg.built).2

theorem mutual_edges (source node : NodeId) :
    source ∈ cfg.st.nodes.parent node ↔ node ∈ cfg.st.nodes.children source :=
  cfg.edgesAgree.agree source node

/-- The nodes and edges that the pass has built. -/
def graph : MutualGraph NodeId where
  start := entryNode
  children := cfg.st.nodes.children
  parents := cfg.st.nodes.parent
  mutual_edges := cfg.mutual_edges

theorem rooted : cfg.graph.Rooted := cfg.entryFree.child

end BuiltCfg

/-! ## The walk -/

/-- The registers in the states of the nodes. -/
abbrev NodeStates (ι κ υ : Type) := ι → PyDict κ υ

section Walk

variable {ι κ υ ν : Type} [DecidableEq ι] [DecidableEq κ] [DecidableEq ν]
variable (graph : MutualGraph ι) (version : υ → ν) (reg : κ)

/-- What a child takes over; `none` is an `AttributeError`. -/
def handedOn (states : NodeStates ι κ υ) (currNode child : ι) : Option (Option υ) :=
  if (graph.parents child).length < 2 then
    match (states currNode).get? reg, (states child).get? reg with
    | some own, some other => some (if version own = version other then some own else none)
    | _, _ => none
  else some none

/--
The loop over the children; `walk` stands for the recursive call.  The outer `none` says that
a bound is used up, and the inner one is an exception.
-/
def updateChildren (walk : ι → NodeStates ι κ υ → Option (Option (NodeStates ι κ υ)))
    (currNode : ι) : List ι → NodeStates ι κ υ → Option (Option (NodeStates ι κ υ))
  | [], states => some (some states)
  | child :: rest, states =>
      match handedOn graph version reg states currNode child with
      | none => some none
      | some none => updateChildren walk currNode rest states
      | some (some own) =>
          (walk child (Function.update states child ((states child).set reg own))).bind
            fun outcome => match outcome with
              | none => some none
              | some states => updateChildren walk currNode rest states

/-- `update_value_for_reg`, with a bound on the depth of the recursion. -/
def updateValueForReg : Nat → ι → NodeStates ι κ υ → Option (Option (NodeStates ι κ υ))
  | 0, _, _ => none
  | bound + 1, currNode, states =>
      updateChildren graph version reg (updateValueForReg bound) currNode
        (graph.children currNode) states

variable {graph version reg}

omit [DecidableEq ι] in
/-- Only a child with one parent takes something over. -/
theorem few_of_handedOn {states : NodeStates ι κ υ} {currNode child : ι} {own : υ}
    (handed : handedOn graph version reg states currNode child = some (some own)) :
    (graph.parents child).length < 2 := by
  by_contra several
  rw [handedOn, if_neg several] at handed
  cases handed

/-- The loop comes to an end if the calls for its children do. -/
theorem settles_updateChildren
    {walk : Nat → ι → NodeStates ι κ υ → Option (Option (NodeStates ι κ υ))} (currNode : ι)
    {children : List ι}
    (ends : ∀ child ∈ children, (graph.parents child).length < 2 → ∀ states : NodeStates ι κ υ,
      ∃ outcome, Settles (fun bound => walk bound child states) outcome)
    (states : NodeStates ι κ υ) :
    ∃ outcome, Settles (fun bound =>
      updateChildren graph version reg (walk bound) currNode children states) outcome := by
  induction children generalizing states with
  | nil => exact ⟨some states, .const _⟩
  | cons child rest ih =>
      have others := ih fun child member => ends child (List.mem_cons_of_mem _ member)
      simp only [updateChildren]
      cases handed : handedOn graph version reg states currNode child with
      | none => exact ⟨none, .const _⟩
      | some taken =>
          cases taken with
          | none => exact others states
          | some own =>
              obtain ⟨outcome, called⟩ := ends child List.mem_cons_self (few_of_handedOn handed)
                (Function.update states child ((states child).set reg own))
              cases outcome with
              | none => exact ⟨none, called.bind (.const _)⟩
              | some after =>
                  obtain ⟨last, settles⟩ := others after
                  exact ⟨last, called.bind settles⟩

variable (version reg) in
/-- In a graph without an edge to the start the walk ends at every node that can be reached. -/
theorem exists_updateValueForReg (rooted : graph.Rooted) {nodes : Set ι} (finite : nodes.Finite)
    (inside : graph.start ∈ nodes)
    (closed : ∀ node ∈ nodes, ∀ child ∈ graph.children node, child ∈ nodes) :
    ∀ node, graph.Reachable node → ∀ states, ∃ outcome,
      Settles (fun bound => updateValueForReg graph version reg bound node states) outcome := by
  intro node reachable
  refine MutualGraph.plain_induction rooted finite inside closed ?_ node reachable
  -- The bound that is enough for the children is one less than the bound for the node.
  intro node _ ih states
  have loop : ∃ outcome, Settles (fun bound => updateChildren graph version reg
      (updateValueForReg graph version reg bound) node (graph.children node) states) outcome :=
    settles_updateChildren node (fun child member few => ih child ⟨member, Nat.not_le.mpr few⟩)
      states
  obtain ⟨outcome, settles⟩ := loop
  exact ⟨outcome, .of_succ (fun _ => rfl) settles⟩

end Walk

namespace BuiltCfg

theorem size_pos (cfg : BuiltCfg) : 0 < cfg.st.nodes.size := by
  have valid : Valid cfg.st :=
    Run.invariant (fun _ _ _ _ => valid_step) valid_initialState cfg.built
  exact Nat.zero_lt_of_lt valid.last

/--
In a graph of the pass every cycle that can be reached has a join, and the walk ends at every
node that can be reached, with whatever registers in the states.
-/
theorem updateValueForReg_terminates (cfg : BuiltCfg) {κ υ ν : Type} [DecidableEq κ]
    [DecidableEq ν] (version : υ → ν) :
    (∀ first rest, cfg.graph.Cycle first rest → ∀ node ∈ first :: rest,
      cfg.graph.Reachable node → ∃ join ∈ first :: rest, cfg.graph.Join join) ∧
    ∀ node, cfg.graph.Reachable node → ∀ (reg : κ) (states : NodeStates NodeId κ υ), ∃ outcome,
      Settles (fun bound => updateValueForReg cfg.graph version reg bound node states) outcome := by
  have closed : ∀ node ∈ {node | node < cfg.st.nodes.size}, ∀ child ∈ cfg.graph.children node,
      child ∈ {node | node < cfg.st.nodes.size} :=
    fun node _ child member => cfg.edgesAgree.target node child member
  constructor
  · intro first rest cycle node member reachable
    exact MutualGraph.exists_join_of_cycle cfg.rooted cycle member reachable
  · intro node reachable reg states
    exact exists_updateValueForReg version reg cfg.rooted (Set.finite_lt_nat cfg.st.nodes.size)
      cfg.size_pos closed node reachable states

end BuiltCfg

theorem maskFree : maskRegister ∉ ["s0"] := by decide

theorem noJump : "s_not_b32" ≠ jumpOpcode := by decide

def endlessLoop : List Instr :=
  [.label labelX, .plain ⟨"s_not_b32", ["s0"], [], [], maskFree, noJump⟩, .jump labelX]

def endlessLoopCfg : BuiltCfg := ⟨endlessLoop, (run endlessLoop).get rfl, rfl⟩

/-- The label at the head of a loop is a join, and a walk that starts there ends. -/
theorem endlessLoop_terminates :
    (∃ join ∈ [1, 2, 3], endlessLoopCfg.graph.Join join) ∧
      ∀ (reg : String) (states : NodeStates NodeId String Version), ∃ outcome, Settles (fun bound =>
        updateValueForReg endlessLoopCfg.graph id reg bound 1 states) outcome := by
  have head : endlessLoopCfg.graph.Reachable 1 := .tail .refl (List.mem_singleton_self _)
  have cycle : endlessLoopCfg.graph.Cycle 1 [2, 3] := by
    refine .cons_cons ?_ (.cons_cons ?_ (.cons_cons ?_ (.singleton 1))) <;>
      exact List.mem_singleton_self _
  obtain ⟨joins, ends⟩ :=
    @BuiltCfg.updateValueForReg_terminates endlessLoopCfg String Version Version _ _ id
  exact ⟨joins 1 [2, 3] cycle 1 (by decide) head, ends 1 head⟩

end OpenCLDecompiler
