import OpenCLDecompiler.Library.Run
import OpenCLDecompiler.Cfg.Node

/-!
# The control-flow pass

`BuildDecompilerCfgPass.run` reads the instructions of a kernel in order and
grows the control-flow graph.  Structured code arrives in mask form, code with
explicit branches in label form; both go through the same step.
-/

namespace OpenCLDecompiler

open Library

/-- Name of the mask register. -/
def maskRegister : String := "$MASK"

/-- Opcode of an unconditional jump. -/
def jumpOpcode : String := "s_branch"

/-- Label names carry the leading dot that both front ends put there. -/
structure LabelName where
  text : String
  dotted : text.toList.head? = some '.'
  deriving DecidableEq

/--
One backend node of a plain instruction, as the pass sees it: the registers that
get a new version, the predicates that are declared, and the entries of
`exec_registers` that are set, each in order.  An instruction that lowers to
several nodes is a run of such entries, since `NodeLoweringContext` chains its
nodes the way the pass chains instructions.
-/
structure BackendNode where
  opcode : String
  writes : List String
  declares : List String
  execWrites : List (String × ExecCondition)
  maskFree : maskRegister ∉ writes
  noJump : opcode ≠ jumpOpcode

inductive Instr where
  | plain (node : BackendNode)
  | changeMask (predicate : String)
  | unmask
  | endPgm
  | label (name : LabelName)
  | branch (predicate : String) (target : LabelName)
  | branchNot (predicate : String) (target : LabelName)
  | jump (target : LabelName)

def Instr.isPlain : Instr → Bool
  | .plain _ => true
  | _ => false

/-- The opcode each instruction gives its node. -/
def Instr.opcode : Instr → String
  | .plain node => node.opcode
  | .changeMask _ => "change_mask"
  | .unmask => "unmask"
  | .endPgm => "s_endpgm"
  | .label name => name.text
  | .branch _ _ => "s_br"
  | .branchNot _ _ => "s_nbr"
  | .jump _ => jumpOpcode

/--
The part of `DecompilerData` the pass uses.  `minted` is proof instrumentation:
it lists every version name in the order in which definitions receive them.
-/
structure DecompilerData where
  toNode : PyDict String NodeId
  fromNode : PyDict String (List NodeId)
  versions : PyDict String Nat
  predicates : List String
  execRegisters : PyDict String ExecCondition
  loops : List NodeId
  backEdges : List NodeId
  numOfVar : Nat
  minted : List Version

structure OpenMask where
  changeMask : NodeId
  previousBranchEnd : Option NodeId
  deriving DecidableEq, Repr

/-- The state of the pass; `maskedBlocks` is the list of the source read from its end. -/
structure DecompilationState where
  nodes : Nodes
  data : DecompilerData
  lastNode : NodeId
  maskedBlocks : List OpenMask

/-! ## Versions -/

/-- `DecompilerData.make_version` after a fresh register was put into the state. -/
def makeVersion (state : KernelState) (data : DecompilerData) (reg : String) :
    KernelState × DecompilerData :=
  let count := (data.versions.get? reg).getD 0
  let version : Version := ⟨reg, count + 1⟩
  ({ state with registers := state.registers.set reg version },
    { data with
      versions := data.versions.set reg (count + 1)
      minted := data.minted ++ [version] })

def makeVersions (state : KernelState) (data : DecompilerData) (regs : List String) :
    KernelState × DecompilerData :=
  regs.foldl (fun current reg => makeVersion current.1 current.2 reg) (state, data)

/-- The versions the parents of a node have of a register, in the order of the parents. -/
def parentVersions (nodes : Nodes) (parents : List NodeId) (reg : String) : List Version :=
  parents.filterMap fun parent => (nodes.state parent).registers.get? reg

def maxVersion (versions : List Version) : Nat :=
  versions.foldl (fun greatest version => max greatest version.num) 0

/-- `len(prev_versions_of_reg) > 1`: the parents disagree. -/
def versionsDiffer (versions : List Version) : Bool := 1 < versions.dedup.length

/-- `update_reg_version` for one register of a joining node. -/
def updateRegVersion (nodes : Nodes) (data : DecompilerData) (node : NodeId) (reg : String)
    (greatest : Nat) : Nodes × DecompilerData :=
  let version : Version := ⟨reg, greatest + 1⟩
  let state := nodes.state node
  (nodes.setState node { state with registers := state.registers.set reg version },
    { data with
      versions := data.versions.set reg (greatest + 1)
      numOfVar := data.numOfVar + 1
      minted := data.minted ++ [version] })

/-- The body of the loop of `find_max_and_prev_versions`. -/
def mergeRegister (node : NodeId) (current : Nodes × DecompilerData) (reg : String) :
    Nodes × DecompilerData :=
  if reg ∈ current.2.predicates then current
  else
    let versions := parentVersions current.1 (current.1.parent node) reg
    if versionsDiffer versions then
      updateRegVersion current.1 current.2 node reg (maxVersion versions)
    else current

def findMaxAndPrevVersions (nodes : Nodes) (data : DecompilerData) (node : NodeId) :
    Nodes × DecompilerData :=
  (nodes.state node).registers.keys.foldl (mergeRegister node) (nodes, data)

/-! ## Open masks -/

/-- `_append_unique_node`. -/
def appendUniqueNode (parents : List NodeId) (node : NodeId) : List NodeId :=
  if node ∈ parents then parents else parents ++ [node]

/-- The node that `_add_closed_mask_parent` appends. -/
def OpenMask.closedParent (openMask : OpenMask) : NodeId :=
  openMask.previousBranchEnd.getD openMask.changeMask

/-- `_close_open_masks`; the outermost mask always stays. -/
def closeOpenMasks (nodes : Nodes) (cond : ExecCondition) :
    List OpenMask → List NodeId → List OpenMask × List NodeId
  | innermost :: next :: rest, parents =>
      if (nodes.getExec innermost.changeMask).isStrictSupersetOf cond then
        closeOpenMasks nodes cond (next :: rest) (appendUniqueNode parents innermost.closedParent)
      else (innermost :: next :: rest, parents)
  | masks, parents => (masks, parents)

/--
`_find_open_mask_index`: the innermost open mask with the given condition,
together with the masks outside it.
-/
def findOpenMask (nodes : Nodes) (cond : ExecCondition) : List OpenMask → Option (OpenMask × List OpenMask)
  | [] => none
  | innermost :: outer =>
      if (nodes.getExec innermost.changeMask).same cond then some (innermost, outer)
      else findOpenMask nodes cond outer

/-- The masks that stay open when an else branch starts, the branch itself excepted. -/
def masksKeptByElse (nodes : Nodes) (parentCond : ExecCondition) (branch : OpenMask)
    (outer : List OpenMask) : List OpenMask :=
  match findOpenMask nodes parentCond outer with
  | some (parent, rest) => parent :: rest
  | none => if outer = [] then [branch] else outer

/-! ## One instruction -/

/-- What the pass has decided before it fills the node of an instruction. -/
structure Attachment where
  parents : List NodeId
  nodeState : KernelState
  /-- The open masks after the node, which the node itself may join. -/
  masksAfter : NodeId → List OpenMask

/-- `parents = [last_node]`, or none after an unconditional jump. -/
def fallthroughParents (st : DecompilationState) : List NodeId :=
  if st.nodes.instruction st.lastNode = jumpOpcode then [] else [st.lastNode]

/-- The branch of the pass that reads a `ChangeMask` to the condition `next`. -/
def attachChangeMask (st : DecompilationState) (next : ExecCondition) : Attachment :=
  let prev := st.nodes.getExec st.lastNode
  let state := st.nodes.state st.lastNode
  let parents := fallthroughParents st
  if next.isStrictSupersetOf prev then
    ⟨parents, state, fun node => ⟨node, none⟩ :: st.maskedBlocks⟩
  else if next.isStrictSubsetOf prev then
    let closed := closeOpenMasks st.nodes next st.maskedBlocks parents
    ⟨closed.2, state, fun _ => closed.1⟩
  else
    match prev.negatedSiblingParent next with
    | none => ⟨parents, state, fun _ => st.maskedBlocks⟩
    | some parentCond =>
        match findOpenMask st.nodes prev st.maskedBlocks with
        | none => ⟨parents, state, fun _ => st.maskedBlocks⟩
        | some (branch, outer) =>
            ⟨[branch.changeMask], st.nodes.state branch.changeMask, fun node =>
              ⟨node, some st.lastNode⟩ :: masksKeptByElse st.nodes parentCond branch outer⟩

/-- The parents and masks of an instruction; a missing predicate is a `KeyError`. -/
def attachment (st : DecompilationState) (instr : Instr) : Option Attachment :=
  match instr with
  | .changeMask predicate => (st.data.execRegisters.get? predicate).map (attachChangeMask st)
  | .unmask | .endPgm =>
      let closed := closeOpenMasks st.nodes .default st.maskedBlocks (fallthroughParents st)
      some ⟨closed.2, st.nodes.state st.lastNode, fun _ => closed.1⟩
  | _ => some ⟨fallthroughParents st, st.nodes.state st.lastNode, fun _ => st.maskedBlocks⟩

/-- `Label.to_fill_node` for one branch that waits for the label. -/
def joinWaiting (label : NodeId) (nodes : Nodes) (source : NodeId) : Nodes :=
  (nodes.link source label).setState label (nodes.state source)

/-- `DecompilerData.to_fill_branch_node`. -/
def toFillBranchNode (nodes : Nodes) (data : DecompilerData) (node : NodeId) (target : String) :
    Nodes × DecompilerData :=
  match data.toNode.get? target with
  | some toNode =>
      (nodes.link node toNode,
        { data with loops := data.loops ++ [toNode], backEdges := data.backEdges ++ [node] })
  | none =>
      let waiting := (data.fromNode.get? target).getD []
      (nodes, { data with fromNode := data.fromNode.set target (waiting ++ [node]) })

/-- The backend's `to_fill_node` on the new node. -/
def toFillNode (nodes : Nodes) (data : DecompilerData) (node : NodeId) (instr : Instr) :
    Option (Nodes × DecompilerData) :=
  match instr with
  | .plain backend =>
      let written := makeVersions (nodes.state node) data backend.writes
      some (nodes.setState node written.1,
        { written.2 with
          predicates := written.2.predicates ++ backend.declares
          execRegisters := backend.execWrites.foldl
            (fun registers entry => registers.set entry.1 entry.2) written.2.execRegisters })
  | .changeMask predicate =>
      (data.execRegisters.get? predicate).map fun cond =>
        let written := makeVersion (nodes.state node) data maskRegister
        (nodes.setState node { written.1 with maskExec := cond }, written.2)
  | .unmask | .endPgm =>
      let state := nodes.state node
      some (nodes.setState node { state with maskExec := .default }, data)
  | .label name =>
      let waiting := (data.fromNode.get? name.text).getD []
      some (waiting.foldl (joinWaiting node) nodes,
        { data with toNode := data.toNode.set name.text node })
  | .branch _ target | .branchNot _ target | .jump target =>
      some (toFillBranchNode nodes data node target.text)

/-- The body of the loop of `run`. -/
def step (st : DecompilationState) (instr : Instr) : Option DecompilationState := do
  let attached ← attachment st instr
  let node := st.nodes.size
  let emitted := st.nodes.emitBackend instr.opcode attached.nodeState attached.parents
  let filled ← toFillNode emitted st.data node instr
  let merged :=
    if 1 < (filled.1.parent node).length then findMaxAndPrevVersions filled.1 filled.2 node
    else filled
  return ⟨merged.1, merged.2, node, attached.masksAfter node⟩

/-- `BuildDecompilerCfgPass.run` from a given state. -/
def runFrom (st : DecompilationState) (instrs : List Instr) : Option DecompilationState :=
  Run.runFrom step st instrs

/-- The initial state: `init_mask` has versioned `$MASK`, and one empty node is the entry. -/
def initialData : DecompilerData where
  toNode := .empty
  fromNode := .empty
  versions := PyDict.empty.set maskRegister 1
  predicates := [maskRegister]
  execRegisters := PyDict.empty.set maskRegister .default
  loops := []
  backEdges := []
  numOfVar := 0
  minted := [⟨maskRegister, 1⟩]

def entryState : KernelState where
  registers := PyDict.empty.set maskRegister ⟨maskRegister, 1⟩
  maskExec := .default

def entryNode : NodeId := 0

def initialState : DecompilationState where
  nodes := Arena.empty.alloc ⟨"", [], [], entryState⟩
  data := initialData
  lastNode := entryNode
  maskedBlocks := [⟨entryNode, none⟩]

def run (instrs : List Instr) : Option DecompilationState := runFrom initialState instrs

end OpenCLDecompiler
