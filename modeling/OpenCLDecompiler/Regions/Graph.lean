import Mathlib.Data.List.Basic
import Mathlib.Logic.Function.Basic
import Mathlib.Data.Finset.Insert

/-!
# Regions

The region graph of a program without loops, and the functions that merge its
regions in place.  Regions have identity, so the graph is a store of regions;
`none` is an exception of the source.
-/

namespace OpenCLDecompiler.Regions

abbrev NodeId := Nat

abbrev RegionId := Nat

/-- The fields of a node that the output of regions reads. -/
structure CfgNode where
  /-- `instruction == "change_mask"`. -/
  changeMask : Bool
  children : List NodeId

/-- The control-flow graph, with `decompiler_data.cfg` as its root. -/
structure Cfg where
  node : NodeId → CfgNode
  root : NodeId

/-- `RegionType`, without the types of loops. -/
inductive RegionType where
  | basic
  | linear
  | ifStatement
  | ifElseStatement
  deriving DecidableEq, Repr

/-- The start and the end of a region are nodes or regions. -/
inductive Anchor where
  | node (node : NodeId)
  | region (region : RegionId)
  deriving DecidableEq, Repr

structure Region where
  type : RegionType
  start : Anchor
  stop : Anchor
  parent : List RegionId
  children : List RegionId
  deriving DecidableEq, Repr

/-- All regions; the identifiers from `next` on are not in use. -/
structure Graph where
  get : RegionId → Region
  next : RegionId

namespace Graph

def modify (graph : Graph) (region : RegionId) (change : Region → Region) : Graph :=
  { graph with get := Function.update graph.get region (change (graph.get region)) }

def children (graph : Graph) (region : RegionId) : List RegionId := (graph.get region).children

def parent (graph : Graph) (region : RegionId) : List RegionId := (graph.get region).parent

def type (graph : Graph) (region : RegionId) : RegionType := (graph.get region).type

def setChildren (graph : Graph) (region : RegionId) (children : List RegionId) : Graph :=
  graph.modify region fun old => { old with children := children }

def setParent (graph : Graph) (region : RegionId) (parent : List RegionId) : Graph :=
  graph.modify region fun old => { old with parent := parent }

def addChild (graph : Graph) (region child : RegionId) : Graph :=
  graph.setChildren region (graph.children region ++ [child])

def addParent (graph : Graph) (region parent : RegionId) : Graph :=
  graph.setParent region (graph.parent region ++ [parent])

/-- `Region(type, start)` with `end` set to `stop`. -/
def newRegion (graph : Graph) (type : RegionType) (start stop : Anchor) : Graph where
  get := Function.update graph.get graph.next ⟨type, start, stop, [], []⟩
  next := graph.next + 1

end Graph

/-- `list[list.index(old)] = new`. -/
def replaceIn (list : List RegionId) (old new : RegionId) : Option (List RegionId) :=
  if old ∈ list then some (list.replace old new) else none

/-- `list.remove(item)`. -/
def removeFrom (list : List RegionId) (item : RegionId) : Option (List RegionId) :=
  if item ∈ list then some (list.erase item) else none

namespace Graph

def replaceChild (graph : Graph) (region old new : RegionId) : Option Graph :=
  (replaceIn (graph.children region) old new).map (graph.setChildren region)

def replaceParent (graph : Graph) (region old new : RegionId) : Option Graph :=
  (replaceIn (graph.parent region) old new).map (graph.setParent region)

def removeChild (graph : Graph) (region child : RegionId) : Option Graph :=
  (removeFrom (graph.children region) child).map (graph.setChildren region)

def removeParent (graph : Graph) (region parent : RegionId) : Option Graph :=
  (removeFrom (graph.parent region) parent).map (graph.setParent region)

end Graph

/-- `add_parent_and_child`. -/
def addParentAndChild (graph : Graph) (beforeR : RegionId) (nextR : Option RegionId)
    (region prevChild prevParent : RegionId) : Option Graph := do
  let graph ← graph.replaceChild beforeR prevChild region
  let graph := graph.addParent region beforeR
  match nextR with
  | none => some graph
  | some next =>
      let graph ← graph.replaceParent next prevParent region
      some (graph.addChild region next)

/-- `children[0]` of a child, if there is one. -/
def firstChild (graph : Graph) (region : RegionId) : Option RegionId :=
  (graph.children region).head?

/-- `check_if`. -/
def checkIf (graph : Graph) (region : RegionId) : Bool :=
  match graph.type region, graph.children region with
  | .basic, [first, second] =>
      firstChild graph first == some second || firstChild graph second == some first
  | _, _ => false

/-- `check_if_else`. -/
def checkIfElse (graph : Graph) (region : RegionId) : Bool :=
  match graph.type region, graph.children region with
  | .basic, [first, second] =>
      (firstChild graph first).isSome && firstChild graph first == firstChild graph second
  | _, _ => false

/-- `create_new_region`: a fictional region before a join with more than two parents. -/
def createNewRegion (graph : Graph) (prev1 prev2 next : RegionId) :
    Option (Graph × RegionId) := do
  let graph ← graph.removeChild prev1 next
  let graph ← graph.removeChild prev2 next
  let fiction := graph.next
  let start := (graph.get next).start
  let graph := graph.newRegion .linear start start
  let graph ← graph.replaceParent next prev1 fiction
  let graph ← graph.removeParent next prev2
  let graph := graph.addChild prev1 fiction
  let graph := graph.addChild prev2 fiction
  let graph := (graph.addParent fiction prev1).addParent fiction prev2
  some (graph.addChild fiction next, fiction)

/-- The region that takes the place of `before` in its parent; without a parent it is the result. -/
def replaceInParent (graph : Graph) (before old region : RegionId) (result : RegionId) :
    Option (Graph × RegionId) :=
  match (graph.parent before).head? with
  | some parent => (graph.replaceChild parent old region).map fun graph =>
      (graph.addParent region parent, result)
  | none => some (graph, region)

/-- The first child of `next` becomes the child of `region`. -/
def takeChild (graph : Graph) (next region : RegionId) : Option Graph :=
  match firstChild graph next with
  | none => some graph
  | some child => (graph.replaceParent child next region).map fun graph =>
      graph.addChild region child

/-- `join_regions` behind a region that is not basic. -/
def joinAfterLinear (graph : Graph) (before curr : RegionId) (next : Option RegionId) :
    Option (Graph × RegionId) := do
  let region := graph.next
  let graph := graph.newRegion .linear (.region before) (.region curr)
  let (graph, result) ← replaceInParent graph before before region before
  match next with
  | none => some (graph, result)
  | some next =>
      let graph ← graph.replaceParent next curr region
      let graph := graph.addChild region next
      if graph.type next ≠ .basic ∧ (graph.parent curr).length = 1 then do
        let all := graph.next
        let graph := graph.newRegion .linear (.region before) (.region next)
        let (graph, result) ← replaceInParent graph before region all result
        (takeChild graph next all).map fun graph => (graph, result)
      else some (graph, result)

/--
`join_regions` behind a basic region.  The source compares the region `next`
itself with `RegionType.BASIC`, so this test is always true.
-/
def joinAfterBasic (graph : Graph) (before curr : RegionId) (next : Option RegionId) :
    Option (Graph × RegionId) :=
  match next with
  | none => some (graph, before)
  | some next =>
      if (graph.parent curr).length = 1 then do
        let all := graph.next
        let graph := graph.newRegion .linear (.region curr) (.region next)
        let graph ← graph.replaceChild before curr all
        let graph := graph.addParent all before
        (takeChild graph next all).map fun graph => (graph, before)
      else some (graph, before)

/-- `join_regions`: the graph and the region it returns. -/
def joinRegions (graph : Graph) (before curr : RegionId) (next : Option RegionId) :
    Option (Graph × RegionId) :=
  if graph.type before ≠ .basic then joinAfterLinear graph before curr next
  else joinAfterBasic graph before curr next

/-- `process_if_statement_region`. -/
def processIfStatementRegion (graph : Graph) (curr : RegionId) : Option (Graph × RegionId) := do
  let region := graph.next
  let graph := graph.newRegion .ifStatement (.region curr) (.region curr)
  match graph.children curr with
  | first :: second :: _ => do
      let child0 := if (graph.parent first).length = 1 then first else second
      let child1 := if 1 < (graph.parent second).length then second else first
      let beforeR ← (graph.parent curr).head?
      let (graph, child1) ←
        if 2 < (graph.parent child1).length then createNewRegion graph curr child0 child1
        else some (graph, child1)
      let graph := graph.modify region fun old => { old with stop := .region child1 }
      let nextR := firstChild graph child1
      let graph ← addParentAndChild graph beforeR nextR region curr child1
      joinRegions graph beforeR region nextR
  | _ => none

/-- `process_if_else_statement_region`. -/
def processIfElseStatementRegion (graph : Graph) (curr : RegionId) :
    Option (Graph × RegionId) := do
  let region := graph.next
  let graph := graph.newRegion .ifElseStatement (.region curr) (.region curr)
  match graph.children curr with
  | child0 :: child1 :: _ => do
      let join ← firstChild graph child0
      let (graph, join) ←
        if 2 < (graph.parent join).length then createNewRegion graph child0 child1 join
        else some (graph, join)
      let graph := graph.modify region fun old => { old with stop := .region join }
      let beforeR ← (graph.parent curr).head?
      let nextR := firstChild graph join
      let graph ← addParentAndChild graph beforeR nextR region curr join
      joinRegions graph beforeR region nextR
  | _ => none

/-! ## Depth-first walk -/

/-- The graph and the set `visited`. -/
structure DfsState where
  graph : Graph
  visited : Finset RegionId

/-- The end of `process_region_graph_dfs`, behind the loop over the children. -/
def processRegion (st : DfsState) (region result : RegionId) : Option (DfsState × RegionId) :=
  if st.graph.type region = .linear then some (st, result)
  else if checkIf st.graph region then
    (processIfStatementRegion st.graph region).map fun done => (⟨done.1, st.visited⟩, done.2)
  else if checkIfElse st.graph region then
    (processIfElseStatementRegion st.graph region).map fun done => (⟨done.1, st.visited⟩, done.2)
  else some (st, result)

mutual

/-- `process_region_graph_dfs`, with a bound on the depth of the recursion. -/
def processRegionGraphDfs : Nat → DfsState → RegionId → Option (DfsState × RegionId)
  | 0, _, _ => none
  | fuel + 1, st, region =>
      (visitChildren fuel ⟨st.graph, insert region st.visited⟩ region 0 region).bind fun done =>
        processRegion done.1 region done.2

/-- The loop over the children; it reads the list anew at every index, as the graph changes. -/
def visitChildren : Nat → DfsState → RegionId → Nat → RegionId → Option (DfsState × RegionId)
  | 0, _, _, _, _ => none
  | fuel + 1, st, region, index, result =>
      match (st.graph.children region)[index]? with
      | none => some (st, result)
      | some child =>
          if child ∈ st.visited then visitChildren fuel st region (index + 1) result
          else (processRegionGraphDfs fuel st child).bind fun done =>
            visitChildren fuel done.1 region (index + 1) done.2

end

/-! ## Output -/

/-- The statements `make_output_from_region` writes. -/
inductive Printed where
  | empty
  | node (node : NodeId)
  | seq (first second : Printed)
  | ifStatement (cond : NodeId) (body : Printed)
  | ifElseStatement (cond : NodeId) (body other : Printed)
  deriving DecidableEq, Repr

/-- The loop over the nodes of a linear region, to its last node. -/
def printNodes (cfg : Cfg) : Nat → NodeId → NodeId → Option Printed
  | 0, _, _ => none
  | fuel + 1, node, stop =>
      if node = stop then some (.node node)
      else (cfg.node node).children.head?.bind fun child =>
        (printNodes cfg fuel child stop).map fun rest => .seq (.node node) rest

/-- The first node to print: behind the root, and behind a `change_mask`. -/
def firstPrinted (cfg : Cfg) (start : NodeId) : Option NodeId := do
  let node ← if start = cfg.root then (cfg.node start).children.head? else some start
  if (cfg.node node).changeMask then (cfg.node node).children.head? else some node

/-- The node whose condition `make_output_from_if_statement_region` prints. -/
def conditionNode (graph : Graph) : Anchor → Option NodeId
  | .region header => match (graph.get header).start with
      | .node node => some node
      | .region _ => none
  | .node _ => none

/-- `region.start.children[num_of_branch]`. -/
def branchBody (graph : Graph) (start : Anchor) (branch : Nat) : Option RegionId :=
  match start with
  | .region header => (graph.children header)[branch]?
  | .node _ => none

mutual

/-- `make_output_from_region`, with a bound on the depth of the recursion. -/
def makeOutputFromRegion (cfg : Cfg) (graph : Graph) : Nat → RegionId → Option Printed
  | 0, _ => none
  | fuel + 1, region =>
      match graph.get region with
      | ⟨.basic, _, _, _, _⟩ => some .empty
      | ⟨.linear, .node start, .node stop, _, _⟩ =>
          (firstPrinted cfg start).bind fun first => printNodes cfg fuel first stop
      | ⟨.linear, .region start, stop, _, _⟩ => makeOutputFromChain cfg graph fuel start stop
      | ⟨.linear, .node _, .region _, _, _⟩ => none
      | ⟨.ifStatement, start, _, _, _⟩ => do
          let cond ← conditionNode graph start
          let body ← makeOutputFromRegion cfg graph fuel (← branchBody graph start 0)
          some (.ifStatement cond body)
      | ⟨.ifElseStatement, start, _, _, _⟩ => do
          let cond ← conditionNode graph start
          let body ← makeOutputFromRegion cfg graph fuel (← branchBody graph start 0)
          let other ← makeOutputFromRegion cfg graph fuel (← branchBody graph start 1)
          some (.ifElseStatement cond body other)

/-- The regions of a linear region that starts with a region, to its last one. -/
def makeOutputFromChain (cfg : Cfg) (graph : Graph) :
    Nat → RegionId → Anchor → Option Printed
  | 0, _, _ => none
  | fuel + 1, region, stop =>
      (makeOutputFromRegion cfg graph fuel region).bind fun first =>
        if .region region = stop then some first
        else (firstChild graph region).bind fun next =>
          (makeOutputFromChain cfg graph fuel next stop).map fun rest => .seq first rest

end

end OpenCLDecompiler.Regions
