import OpenCLDecompiler.Cfg.ValueWalk
import OpenCLDecompiler.Library.Traversal
import OpenCLDecompiler.Values.Replacing

/-!
# The worklists of versions.py

`check_for_use_new_version` takes nodes from its queue without asking whether it has been
there before.  `change_values` takes a node that waits for a parent out of its list of visited
nodes again, and calls `update_value_for_reg` for what has changed.
-/

namespace OpenCLDecompiler.Traversals

open Library
open OpenCLDecompiler.Values (Text Register ExpressionManager State Use isStore)

/-! ## Graphs -/

/--
An operand of a node; `first` is `get_reg_rang(..)[0]`, which is the operand itself for a
value.  The numbers tell objects apart, since registers are compared by identity.
-/
structure Operand where
  isRegister : Bool
  isPredicate : Bool
  name : Text
  object : Nat
  first : Text
  firstObject : Nat
  deriving DecidableEq

/-- A control-flow graph of finitely many nodes; `free` is `loops`. -/
structure FlowGraph extends Worklist NodeId where
  nodes : Finset NodeId
  inside : start ∈ nodes
  closed : ∀ node ∈ nodes, ∀ child ∈ children node, child ∈ nodes
  entered : children start ≠ []
  instruction : NodeId → Text
  operands : NodeId → List Operand
  isBackEdge : NodeId → Bool

namespace FlowGraph

variable (graph : FlowGraph)

def edges : MutualGraph NodeId where
  start := graph.start
  children := graph.children
  parents := graph.parents
  mutual_edges := graph.mutual_edges

theorem mem_nodes {node : NodeId} (reachable : graph.Reachable node) : node ∈ graph.nodes := by
  induction reachable with
  | refl => exact graph.inside
  | tail _ edge ih => exact graph.closed _ ih _ edge

/-! ## check_for_use_new_version -/

/-- What `check_for_use_new_version` reads of a register. -/
structure VersionedRegister where
  version : Option Text
  dataType : Option Text

/-- The variable of a checked version gets the data type of the register if it has none. -/
def recordDataType (checkedVariables : PyDict Text Text) (register : VersionedRegister)
    (namesOfVars : PyDict Text Text) : PyDict Text Text :=
  match register.version.bind checkedVariables.get?, register.dataType with
  | some var, some dataType =>
      if (namesOfVars.get? var).isSome then namesOfVars else namesOfVars.set var dataType
  | _, _ => namesOfVars

section NewVersions

variable (states : NodeStates NodeId Text VersionedRegister)
variable (checkedVariables : PyDict Text Text)

def checkOperand (instruction : Text) (parent : NodeId) (namesOfVars : PyDict Text Text)
    (numbered : Operand × Nat) : PyDict Text Text :=
  if (isStore instruction ∨ 0 < numbered.2) ∧ ¬"cnd".toList <:+: instruction ∧
      numbered.1.isRegister = true then
    match (states parent).get? numbered.1.first with
    | none => namesOfVars
    | some register => recordDataType checkedVariables register namesOfVars
  else namesOfVars

/-- `check_for_use_new_version_in_one_instruction`, for a node with one parent. -/
def checkForUseNewVersionInOneInstruction (node parent : NodeId)
    (namesOfVars : PyDict Text Text) : PyDict Text Text :=
  (graph.operands node).zipIdx.foldl
    (checkOperand states checkedVariables (graph.instruction node) parent) namesOfVars

def checkNode (node : NodeId) (namesOfVars : PyDict Text Text) : PyDict Text Text :=
  match graph.parents node with
  | [parent] =>
      graph.checkForUseNewVersionInOneInstruction states checkedVariables node parent namesOfVars
  | _ => namesOfVars

/-- `check_for_use_new_version`: its list of visited nodes, and `names_of_vars`. -/
def checkForUseNewVersion (bound : Nat) (namesOfVars : PyDict Text Text) :
    Option (List NodeId × PyDict Text Text) :=
  Traversal.drain graph.children (graph.checkNode states checkedVariables) bound [] [graph.start]
    namesOfVars

end NewVersions

/-! ## change_values -/

variable {ε : Type} [DecidableEq ε]

/-- The registers behind `update_value_for_reg`; the outer `none` says that a bound is used up. -/
abbrev RegisterWalk (ε : Type) :=
  Text → NodeId → NodeStates NodeId Text (Register ε) →
    Option (Option (NodeStates NodeId Text (Register ε)))

/-- The name and the object of an operand that is looked up. -/
def resolved (instruction : Text) (operand : Operand) : Text × Nat :=
  if "s_or".toList <:+: instruction ∨ "s_and".toList <:+: instruction ∨
      operand.isPredicate = true then (operand.name, operand.object)
  else (operand.first, operand.firstObject)

/--
What the loop of `change_values_for_one_instruction` makes of an operand: an exception, nothing,
or a use, with the version to look for.
-/
def useOf (node parent : NodeId) (firstOperand : Operand) (numbered : Operand × Nat)
    (st : State ε) : Option (Option Use) :=
  let instruction := graph.instruction node
  if (isStore instruction ∨ 0 < numbered.2 ∨ "cmp".toList <:+: instruction) ∧
      ¬"cnd".toList <:+: instruction then
    let register := resolved instruction numbered.1
    let firstReg := resolved instruction firstOperand
    match st.getRegister node register.1 with
    | none => some none
    | some own =>
        -- `get_from_state` and `update_val_from_changes` assert that both are registers.
        if numbered.1.isRegister = false ∨ firstOperand.isRegister = false then none
        else
          let use (checkVersion : Text) : Use := ⟨node, parent, instruction, register.1,
            checkVersion, numbered.2, firstReg.1, firstOperand.isPredicate⟩
          if register.2 = firstReg.2 then
            some ((st.getRegister parent register.1).map fun before => use before.version)
          else some (some (use own.version))
  else some none

/-- The use of a `change_mask`. -/
def maskUse (node parent : NodeId) (operand : Operand) (st : State ε) : Option (Option Use) :=
  if operand.isRegister = true then
    (st.getRegister node operand.name).map fun register =>
      some ⟨node, parent, graph.instruction node, operand.name, register.version, 1,
        "$MASK".toList, true⟩
  else none

/--
The uses of a node, each to be found in the state that the ones in front of it leave.  No
letter contains `select`, but an empty instruction has no first letter.
-/
def uses (node parent : NodeId) : List (State ε → Option (Option Use)) :=
  let instruction := graph.instruction node
  match graph.operands node with
  | [] => []
  | firstOperand :: rest =>
      (firstOperand :: rest).zipIdx.map (graph.useOf node parent firstOperand) ++
        (if "change_mask".toList <:+: instruction then [graph.maskUse node parent firstOperand]
          else []) ++
        if instruction = [] then [fun _ => none] else []

/-- The register that `update_val_from_changes` records. -/
def recordedPlace (use : Use) : NodeId × Text :=
  if isStore use.instruction then
    if use.numOfReg = 0 then (use.parent, use.firstReg) else (use.node, use.register)
  else if use.instruction = "change_mask".toList then (use.node, "$MASK".toList)
  else (use.node, use.firstReg)

/-- The call of `update_value_for_reg` if the value and the node of a register have changed. -/
def followUp (walk : RegisterWalk ε) (node : NodeId) (place : NodeId × Text)
    (before after : State ε) : Option (Option (State ε)) :=
  match before.getRegister place.1 place.2, after.getRegister place.1 place.2 with
  | some old, some new =>
      if old.val ≠ new.val ∧ old.node ≠ new.node then
        (walk place.2 node after.registers).map fun outcome =>
          outcome.map fun registers => { after with registers }
      else some (some after)
  | _, _ => some (some after)

/-- `update_val_from_changes` and `update_val_from_checked_variables`. -/
def runUse (manager : ExpressionManager ε) (walk : RegisterWalk ε) (use : Use) (st : State ε) :
    Option (Option (State ε)) :=
  match Values.updateValFromChanges Names.replace manager use st with
  | none => some none
  | some changed =>
      (followUp walk use.node (recordedPlace use) st changed).bind fun outcome => match outcome with
        | none => some none
        | some st =>
            match Values.updateValFromCheckedVariables Names.replace manager use st with
            | none => some none
            | some checked => followUp walk use.node (use.node, use.firstReg) st checked

def runUses (manager : ExpressionManager ε) (walk : RegisterWalk ε) :
    List (State ε → Option (Option Use)) → State ε → Option (Option (State ε))
  | [], st => some (some st)
  | find :: rest, st =>
      match find st with
      | none => some none
      | some none => runUses manager walk rest st
      | some (some use) =>
          (runUse manager walk use st).bind fun outcome => match outcome with
            | none => some none
            | some st => runUses manager walk rest st

/--
What `change_values` does to a node that it visits, with `change_values_for_one_instruction`;
a node in the queue is a child, and so it has a parent.
-/
def visitNode (manager : ExpressionManager ε) (walk : RegisterWalk ε) (node : NodeId)
    (st : State ε) : Option (Option (State ε)) :=
  match graph.parents node with
  | [parent] =>
      if graph.instruction node ≠ "c_branch".toList ∨ graph.isBackEdge node = true then
        runUses manager walk (graph.uses node parent) st
      else some (some st)
  | _ => some (some st)

/-- `change_values`; `walk` is `update_value_for_reg` with a bound. -/
def changeValues (manager : ExpressionManager ε) (walk : Nat → RegisterWalk ε) (bound : Nat)
    (st : State ε) : Option (Option (List NodeId × State ε)) :=
  graph.drainWith (fun bound => graph.visitNode manager (walk bound)) bound graph.initial st

/-- `update_value_for_reg`. -/
def walk (bound : Nat) : RegisterWalk ε := fun reg node registers =>
  updateValueForReg graph.edges Register.version reg bound node registers

/-- The interpreter raises a `RecursionError` when a recursion gets too deep. -/
def limitedWalk (limit : Nat) : RegisterWalk ε := fun reg node registers =>
  some ((graph.walk limit reg node registers).getD none)

/-! ## The end of the worklists -/

/-- A call of the walk for any register comes to an end at the node. -/
def Ends (walk : Nat → RegisterWalk ε) (node : NodeId) : Prop :=
  ∀ reg registers, ∃ outcome, Settles (fun bound => walk bound reg node registers) outcome

omit [DecidableEq ε] in
theorem ends_limitedWalk (limit : Nat) (node : NodeId) :
    Ends (ε := ε) (fun _ => graph.limitedWalk limit) node :=
  fun _ _ => ⟨_, .const _⟩

omit [DecidableEq ε] in
theorem ends_walk (rooted : graph.edges.Rooted) {node : NodeId}
    (reachable : graph.Reachable node) : Ends (ε := ε) graph.walk node := fun reg registers =>
  exists_updateValueForReg Register.version reg rooted graph.nodes.finite_toSet graph.inside
    graph.closed node reachable registers

omit [DecidableEq ε] in
theorem node_useOf {node parent : NodeId} {firstOperand : Operand} {numbered : Operand × Nat}
    {st : State ε} {use : Use}
    (found : graph.useOf node parent firstOperand numbered st = some (some use)) :
    use.node = node := by
  unfold useOf at found
  dsimp only at found
  split at found
  · split at found
    · cases found
    · split at found
      · cases found
      · split at found
        · obtain ⟨before, -, rfl⟩ := Option.map_eq_some_iff.mp (Option.some.inj found)
          rfl
        · obtain rfl := Option.some.inj (Option.some.inj found)
          rfl
  · cases found

omit [DecidableEq ε] in
theorem node_maskUse {node parent : NodeId} {operand : Operand} {st : State ε} {use : Use}
    (found : graph.maskUse node parent operand st = some (some use)) : use.node = node := by
  unfold maskUse at found
  split at found
  · obtain ⟨register, -, same⟩ := Option.map_eq_some_iff.mp found
    obtain rfl := Option.some.inj same
    rfl
  · cases found

omit [DecidableEq ε] in
/-- The uses of a node are at the node. -/
theorem node_uses {node parent : NodeId} :
    ∀ find ∈ graph.uses (ε := ε) node parent, ∀ st use, find st = some (some use) →
      use.node = node := by
  intro find member st use found
  unfold uses at member
  dsimp only at member
  split at member
  · cases member
  · rcases List.mem_append.mp member with operandOrMask | empty
    · rcases List.mem_append.mp operandOrMask with operand | mask
      · obtain ⟨numbered, -, rfl⟩ := List.mem_map.mp operand
        exact graph.node_useOf found
      · split at mask
        · obtain rfl := List.mem_singleton.mp mask
          exact graph.node_maskUse found
        · cases mask
    · split at empty
      · obtain rfl := List.mem_singleton.mp empty
        cases found
      · cases empty

variable {walk : Nat → RegisterWalk ε} {node : NodeId} (ends : Ends walk node)

section Ends

include ends

theorem settles_followUp (place : NodeId × Text) (before after : State ε) :
    ∃ outcome, Settles (fun bound => followUp (walk bound) node place before after) outcome := by
  unfold followUp
  split
  · rename_i old new _ _
    by_cases changed : old.val ≠ new.val ∧ old.node ≠ new.node
    · simp only [if_pos changed]
      obtain ⟨outcome, settles⟩ := ends place.2 after.registers
      exact ⟨_, settles.map _⟩
    · simp only [if_neg changed]
      exact ⟨some after, .const _⟩
  · exact ⟨some after, .const _⟩

theorem settles_runUse (manager : ExpressionManager ε) {use : Use} (here : use.node = node)
    (st : State ε) :
    ∃ outcome, Settles (fun bound => runUse manager (walk bound) use st) outcome := by
  unfold runUse
  cases Values.updateValFromChanges Names.replace manager use st with
  | none => exact ⟨none, .const _⟩
  | some changed =>
      obtain ⟨outcome, first⟩ := settles_followUp ends (recordedPlace use) st changed
      rw [here]
      cases outcome with
      | none => exact ⟨none, first.bind (.const _)⟩
      | some middle =>
          have rest : ∃ outcome, Settles (fun bound =>
              match Values.updateValFromCheckedVariables Names.replace manager use middle with
              | none => some none
              | some checked => followUp (walk bound) node (node, use.firstReg) middle checked)
              outcome := by
            cases Values.updateValFromCheckedVariables Names.replace manager use middle with
            | none => exact ⟨none, .const _⟩
            | some checked => exact settles_followUp ends (node, use.firstReg) middle checked
          obtain ⟨outcome, second⟩ := rest
          exact ⟨outcome, first.bind second⟩

theorem settles_runUses (manager : ExpressionManager ε)
    {finds : List (State ε → Option (Option Use))}
    (here : ∀ find ∈ finds, ∀ st use, find st = some (some use) → use.node = node)
    (st : State ε) :
    ∃ outcome, Settles (fun bound => runUses manager (walk bound) finds st) outcome := by
  induction finds generalizing st with
  | nil => exact ⟨some st, .const _⟩
  | cons find rest ih =>
      have others := ih fun find member => here find (List.mem_cons_of_mem _ member)
      simp only [runUses]
      cases found : find st with
      | none => exact ⟨none, .const _⟩
      | some use =>
          cases use with
          | none => exact others st
          | some use =>
              have isNode := here find List.mem_cons_self st use found
              obtain ⟨outcome, first⟩ := settles_runUse ends manager isNode st
              cases outcome with
              | none => exact ⟨none, first.bind (.const _)⟩
              | some after =>
                  obtain ⟨last, settles⟩ := others after
                  exact ⟨last, first.bind settles⟩

theorem settles_visitNode (manager : ExpressionManager ε) (st : State ε) :
    ∃ outcome, Settles (fun bound => graph.visitNode manager (walk bound) node st) outcome := by
  unfold visitNode
  split
  · rename_i parent _
    by_cases looked : graph.instruction node ≠ "c_branch".toList ∨ graph.isBackEdge node = true
    · simp only [if_pos looked]
      exact settles_runUses ends manager graph.node_uses st
    · simp only [if_neg looked]
      exact ⟨some st, .const _⟩
  · exact ⟨some st, .const _⟩

end Ends

theorem reachable_initial : ∀ node ∈ graph.initial.queue, graph.Reachable node :=
  fun _ member => .tail .refl (List.mem_of_mem_take member)

theorem settles_changeValues (ends : ∀ node, graph.Reachable node → Ends walk node)
    (manager : ExpressionManager ε) (st : State ε) :
    ∃ outcome, Settles (fun bound => graph.changeValues manager walk bound st) outcome :=
  Worklist.exists_drainWith
    (fun node reachable st => graph.settles_visitNode (ends node reachable) manager st)
    (fun _ reachable => graph.mem_nodes reachable) graph.reachable_initial st

theorem exists_checkForUseNewVersion (states : NodeStates NodeId Text VersionedRegister)
    (checkedVariables namesOfVars : PyDict Text Text) :
    ∃ order after, Settles (fun bound =>
        graph.checkForUseNewVersion states checkedVariables bound namesOfVars) (order, after) ∧
      ∀ node, node ∈ order ↔ graph.Reachable node :=
  Traversal.exists_drain graph.closed (Traversal.sound_start graph.start)
    (fun _ member => List.mem_singleton.mp member ▸ graph.inside) namesOfVars

/--
Both worklists end on every graph: the first has then visited the nodes that can be reached,
and the second needs a limit on the recursion of `update_value_for_reg` only where an edge
leads to the entry.
-/
theorem traversals_terminate (manager : ExpressionManager ε) :
    (∀ states checkedVariables namesOfVars, ∃ order after,
      Settles (fun bound =>
        graph.checkForUseNewVersion states checkedVariables bound namesOfVars) (order, after) ∧
      ∀ node, node ∈ order ↔ graph.Reachable node) ∧
    (∀ limit st, ∃ outcome, Settles (fun bound =>
      graph.changeValues manager (fun _ => graph.limitedWalk limit) bound st) outcome) ∧
    (graph.edges.Rooted → ∀ st, ∃ outcome,
      Settles (fun bound => graph.changeValues manager graph.walk bound st) outcome) :=
  ⟨graph.exists_checkForUseNewVersion,
    fun limit st => graph.settles_changeValues (fun node _ => graph.ends_limitedWalk limit node)
      manager st,
    fun rooted st => graph.settles_changeValues (fun _ => graph.ends_walk rooted) manager st⟩

end FlowGraph

/-- A loop of the nodes 1 and 2 behind the entry, and a node 3 that cannot be reached. -/
def loopEdges : List (NodeId × NodeId) := [(0, 1), (1, 2), (2, 1), (3, 2)]

def loopGraph : FlowGraph where
  start := 0
  children source := (loopEdges.filter (·.1 = source)).map Prod.snd
  parents node := (loopEdges.filter (·.2 = node)).map Prod.fst
  free node := node == 1
  mutual_edges source node := by simp
  nodes := {0, 1, 2, 3}
  inside := by decide
  closed := by decide
  entered := by decide
  instruction _ := "v_add_u32".toList
  operands _ := []
  isBackEdge node := node == 2

/-- All nodes of expressions are the same here. -/
def unitManager : ExpressionManager Unit := ⟨fun _ _ _ => (), fun _ _ => (), fun _ _ => false⟩

/-- Both worklists end on the loop. -/
theorem loopGraph_traversed :
    (∀ states checkedVariables namesOfVars, ∃ order after, Settles (fun bound =>
      loopGraph.checkForUseNewVersion states checkedVariables bound namesOfVars) (order, after) ∧
        2 ∈ order) ∧
      ∀ st, ∃ outcome,
        Settles (fun bound => loopGraph.changeValues unitManager loopGraph.walk bound st) outcome := by
  obtain ⟨visits, -, ends⟩ := loopGraph.traversals_terminate unitManager
  have behind : loopGraph.Reachable 2 := .tail (.tail .refl (.head _)) (.head _)
  have rooted : loopGraph.edges.Rooted := by
    intro source child
    obtain ⟨edge, member, same⟩ := List.mem_map.mp child
    have none : ∀ edge ∈ loopEdges, edge.2 ≠ 0 := by decide
    exact none edge (List.mem_of_mem_filter member) same
  refine ⟨fun states checkedVariables namesOfVars => ?_, ends rooted⟩
  obtain ⟨order, after, settles, all⟩ := visits states checkedVariables namesOfVars
  exact ⟨order, after, settles, (all 2).mpr behind⟩

end OpenCLDecompiler.Traversals
