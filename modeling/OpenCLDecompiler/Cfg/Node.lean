import OpenCLDecompiler.Library.Arena
import OpenCLDecompiler.Library.PyDict
import OpenCLDecompiler.LogicalVariable

/-!
# Control-flow nodes

The graph lives in an arena of nodes.  A node keeps its opcode, its edges in
both directions and its own copy of the register state.  Of a register the
graph pass reads only the version; of the register `$MASK` it also reads the
execution condition, which every state has.
-/

namespace OpenCLDecompiler

open Library

abbrev NodeId := Nat

/-- A version name `reg#n`; register names never contain `#`. -/
@[ext]
structure Version where
  name : String
  num : Nat
  deriving DecidableEq, Repr

/-- The register state of a node; `maskExec` is `state["$MASK"].exec_condition`. -/
structure KernelState where
  registers : PyDict String Version
  maskExec : ExecCondition
  deriving Inhabited

structure Node where
  instruction : String
  children : List NodeId
  parent : List NodeId
  state : KernelState
  deriving Inhabited

abbrev Nodes := Arena Node

namespace Nodes

def children (nodes : Nodes) (id : NodeId) : List NodeId := (nodes.get id).children

def parent (nodes : Nodes) (id : NodeId) : List NodeId := (nodes.get id).parent

def state (nodes : Nodes) (id : NodeId) : KernelState := (nodes.get id).state

def instruction (nodes : Nodes) (id : NodeId) : String := (nodes.get id).instruction

/-- `_get_exec`. -/
def getExec (nodes : Nodes) (id : NodeId) : ExecCondition := (nodes.state id).maskExec

def addChild (nodes : Nodes) (id child : NodeId) : Nodes :=
  nodes.modify id fun node => { node with children := node.children ++ [child] }

def addParent (nodes : Nodes) (id parent : NodeId) : Nodes :=
  nodes.modify id fun node => { node with parent := node.parent ++ [parent] }

def setState (nodes : Nodes) (id : NodeId) (state : KernelState) : Nodes :=
  nodes.modify id fun node => { node with state := state }

/-- `from_node.add_child(node); node.add_parent(from_node)`. -/
def link (nodes : Nodes) (source target : NodeId) : Nodes :=
  (nodes.addChild source target).addParent target source

/--
`NodeLoweringContext.emit_backend`: a new node with a copy of the state, hung
under the given parents in order.
-/
def emitBackend (nodes : Nodes) (opcode : String) (state : KernelState) (parents : List NodeId) :
    Nodes :=
  parents.foldl (fun grown source => grown.link source nodes.size)
    (nodes.alloc ⟨opcode, [], [], state⟩)

end Nodes

end OpenCLDecompiler
