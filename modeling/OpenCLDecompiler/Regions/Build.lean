import Mathlib.Logic.Function.Basic
import Mathlib.Logic.Relation
import OpenCLDecompiler.Library.Walk

/-!
# The region graph of a control-flow graph

`make_region_graph_from_cfg` visits the nodes with a worklist.  It puts a node
behind the region of its parent, or gives it a region of its own, and puts off a
join until all its parents are visited.  Regions have identity, so they live in
a store; `none` is an exception of the source.
-/

namespace OpenCLDecompiler.Regions.Build

open Library

abbrev RegionId := Nat

/-- The control-flow graph with `decompiler_data.loops` and `decompiler_data.back_edges`. -/
structure Cfg (V : Type) where
  start : V
  children : V → List V
  parent : V → List V
  loops : List V
  backEdges : List V

inductive RegionType where
  | basic
  | linear
  | startLoop
  | backEdge
  deriving DecidableEq, Repr

structure Region (V : Type) where
  type : RegionType
  start : V
  stop : V
  parent : List RegionId
  children : List RegionId

/-- All regions; the identifiers from `next` on are not in use. -/
structure Store (V : Type) where
  get : RegionId → Region V
  next : RegionId

variable {V : Type}

namespace Store

def modify (store : Store V) (region : RegionId) (change : Region V → Region V) : Store V :=
  { store with get := Function.update store.get region (change (store.get region)) }

def addChild (store : Store V) (region child : RegionId) : Store V :=
  store.modify region fun old => { old with children := old.children ++ [child] }

def addParent (store : Store V) (region parent : RegionId) : Store V :=
  store.modify region fun old => { old with parent := old.parent ++ [parent] }

/-- An edge in the lists of both regions. -/
def addEdge (store : Store V) (parent child : RegionId) : Store V :=
  (store.addChild parent child).addParent child parent

def setStop (store : Store V) (region : RegionId) (node : V) : Store V :=
  store.modify region fun old => { old with stop := node }

/-- `Region(type, node)`. -/
def newRegion (store : Store V) (type : RegionType) (node : V) : Store V where
  get := Function.update store.get store.next ⟨type, node, node, [], []⟩
  next := store.next + 1

end Store

/-- The locals of the loop with `starts_regions` and `ends_regions`. -/
structure State (V : Type) where
  store : Store V
  starts : V → Option RegionId
  ends : V → Option RegionId
  visited : List V
  queue : List V

variable [DecidableEq V]

/-- A region of a node of its own, in both dictionaries. -/
def State.begin (st : State V) (type : RegionType) (node : V) : State V :=
  { st with
    store := st.store.newRegion type node
    starts := Function.update st.starts node (some st.store.next)
    ends := Function.update st.ends node (some st.store.next) }

/-- The region that ends with a parent of the node. -/
def parentRegion (cfg : Cfg V) (st : State V) (node parent : V) : Option RegionId :=
  match st.ends parent with
  | some region => some region
  | none => do
      let first ← (cfg.parent node).head?
      let child ← (cfg.children first).head?
      st.ends child

/-- The edges from the visited parents. -/
def linkParents (cfg : Cfg V) (st : State V) (node : V) (region : RegionId) :
    Option (State V) := do
  let store ← ((cfg.parent node).filter (· ∈ st.visited)).foldlM
    (fun store parent => (parentRegion cfg st node parent).map (store.addEdge · region)) st.store
  some { st with store := store }

/-- The children of a node are put into the queue, or already have a region. -/
def visitChild (region : RegionId) (st : State V) (child : V) : Option (State V) :=
  if child ∉ st.visited then some { st with queue := st.queue ++ [child] }
  else (st.starts child).map fun other => { st with store := st.store.addEdge region other }

def visitChildren (cfg : Cfg V) (st : State V) (node : V) (region : RegionId) :
    Option (State V) :=
  (cfg.children node).foldlM (visitChild region) st

/-- A node with one parent and at most one child. -/
def Cfg.single (cfg : Cfg V) (node : V) : Bool :=
  (cfg.parent node).length = 1 ∧ (cfg.children node).length ≤ 1

/-- The body of the loop; the node is no longer in the queue. -/
def step (cfg : Cfg V) (st : State V) (node : V) : Option (State V) :=
  if node ∈ st.visited then some st
  else
    let entered := { st with visited := st.visited ++ [node] }
    let region := st.store.next
    if node ∈ cfg.loops ∨ node ∈ cfg.backEdges then do
      let type := if node ∈ cfg.loops then RegionType.startLoop else .backEdge
      let linked ← linkParents cfg (entered.begin type node) node region
      visitChildren cfg linked node region
    else if cfg.single node then do
      let parent ← (cfg.parent node).head?
      let before ← st.ends parent
      if (st.store.get before).type = .linear then
        let longer := { entered with
          store := st.store.setStop before node
          ends := Function.update (Function.update st.ends parent none) node (some before) }
        visitChildren cfg longer node before
      else
        let begun := entered.begin .linear node
        let before ← begun.ends parent
        visitChildren cfg { begun with store := begun.store.addEdge before region } node region
    else
      let begun := entered.begin .basic node
      if (cfg.parent node).any fun parent => parent ∉ begun.visited ∧ node ∉ cfg.loops then
        some { begun with visited := begun.visited.erase node }
      else do
        let linked ← linkParents cfg begun node region
        visitChildren cfg linked node region

def loop (cfg : Cfg V) : Nat → State V → Option (State V)
  | 0, _ => none
  | bound + 1, st =>
      match st.queue with
      | [] => some st
      | node :: rest => (step cfg { st with queue := rest } node).bind (loop cfg bound)

/-- The state in front of the loop. -/
def initial (cfg : Cfg V) (child : V) : State V where
  store := ⟨fun _ => ⟨.linear, cfg.start, cfg.start, [], []⟩, 1⟩
  starts := Function.update (fun _ => none) cfg.start (some 0)
  ends := Function.update (fun _ => none) cfg.start (some 0)
  visited := [cfg.start]
  queue := [child]

/-- `make_region_graph_from_cfg`, with a bound on the rounds of the loop. -/
def makeRegionGraphFromCfg (cfg : Cfg V) (bound : Nat) : Option (State V) := do
  let child ← (cfg.children cfg.start).head?
  loop cfg bound (initial cfg child)

/-! ## What is asked of it -/

namespace Cfg

/-- An edge that does not lead back. -/
def Forward (cfg : Cfg V) (first second : V) : Prop :=
  second ∈ cfg.children first ∧ ¬ (first ∈ cfg.backEdges ∧ second ∈ cfg.loops)

structure WellFormed (cfg : Cfg V) : Prop where
  consistent : ∀ first second, second ∈ cfg.children first ↔ first ∈ cfg.parent second
  nodup_children : ∀ node, (cfg.children node).Nodup
  nodup_parent : ∀ node, (cfg.parent node).Nodup
  start_child : (cfg.children cfg.start).length = 1
  reachable : ∀ node, Relation.ReflTransGen cfg.Forward cfg.start node
  acyclic : ∀ node, ¬ Relation.TransGen cfg.Forward node node

/-- A node of a linear region, apart from the start. -/
def Plain (cfg : Cfg V) (node : V) : Prop :=
  node ∉ cfg.loops ∧ node ∉ cfg.backEdges ∧ (cfg.parent node).length = 1 ∧
    (cfg.children node).length ≤ 1

/-- The type of the region that starts with a node. -/
def regionType (cfg : Cfg V) (node : V) : RegionType :=
  if node = cfg.start then .linear
  else if node ∈ cfg.loops then .startLoop
  else if node ∈ cfg.backEdges then .backEdge
  else if cfg.single node then .linear
  else .basic

def next (cfg : Cfg V) (node : V) : Option V := (cfg.children node).head?

end Cfg

def State.IsRegion (st : State V) (region : RegionId) : Prop :=
  ∃ node, st.starts node = some region

/-- The nodes of a region, from its start to its end. -/
def State.Nodes (cfg : Cfg V) (st : State V) (region : RegionId) (trace : List V) : Prop :=
  Walk.Segment cfg.next (st.store.get region).start trace (st.store.get region).stop ∧ trace.Nodup

/-- Plain nodes behind the start or behind a node that is not plain, and as many as there are. -/
structure MaximalChain (cfg : Cfg V) (first : V) (trace : List V) (last : V) : Prop where
  plain : ∀ node ∈ trace, node = cfg.start ∨ cfg.Plain node
  front : first ≠ cfg.start → ∀ parent ∈ cfg.parent first, ¬ (parent = cfg.start ∨ cfg.Plain parent)
  back : ∀ child ∈ cfg.children last, ¬ cfg.Plain child

structure Correct (cfg : Cfg V) (st : State V) : Prop where
  once : ∀ node, ∃! region, st.IsRegion region ∧ ∃ trace, st.Nodes cfg region trace ∧ node ∈ trace
  type : ∀ region, st.IsRegion region →
    (st.store.get region).type = cfg.regionType (st.store.get region).start
  linear : ∀ region, st.IsRegion region → (st.store.get region).type = .linear →
    ∃ trace, st.Nodes cfg region trace ∧
      MaximalChain cfg (st.store.get region).start trace (st.store.get region).stop
  other : ∀ region, st.IsRegion region → (st.store.get region).type ≠ .linear →
    (st.store.get region).stop = (st.store.get region).start
  edges : ∀ first second, st.IsRegion first → st.IsRegion second →
    let leads := (st.store.get second).start ∈ cfg.children (st.store.get first).stop
    (st.store.get first).children.count second = (if leads then 1 else 0) ∧
      (st.store.get second).parent.count first = (if leads then 1 else 0)
  closed : ∀ region, st.IsRegion region →
    (∀ child ∈ (st.store.get region).children, st.IsRegion child) ∧
      ∀ parent ∈ (st.store.get region).parent, st.IsRegion parent

end OpenCLDecompiler.Regions.Build
