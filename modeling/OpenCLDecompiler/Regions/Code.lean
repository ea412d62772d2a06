import OpenCLDecompiler.Library.Walk
import OpenCLDecompiler.Regions.Graph

/-!
# Structured programs and their region graphs

A program is a nest and sequence of if and if-else statements.  `Placed` says
that a region graph is the one of a program, and `Prints` that an output has the
instructions of a control-flow graph under the conditions that guard them.
-/

namespace OpenCLDecompiler.Regions

open OpenCLDecompiler.Library

/-! ## Programs -/

/-- A linear region and its nodes. -/
structure Block where
  region : RegionId
  nodes : List NodeId

/-- The region of a branch node, with the linear region in front of it if there is one. -/
structure Branch where
  lead : Option Block
  header : RegionId
  cond : NodeId

/-- The region of a node that several paths reach. -/
structure Join where
  region : RegionId
  node : NodeId

/--
Code up to its exit, which is the join of the statement around it, or the end of
the program.  A statement has a join of its own or ends at the exit.  An if
without else has the other branch `done`.
-/
inductive Code where
  | done
  | block (block : Block)
  | own (branch : Branch) (body other : Code) (join : Join) (rest : Code)
  | shared (branch : Branch) (body other : Code)

/-- The root and the masks print no statement. -/
def Cfg.isStatement (cfg : Cfg) (node : NodeId) : Bool :=
  !(node == cfg.root) && !(cfg.node node).changeMask

/-- The node behind a node when the conditions have the given values. -/
def Cfg.successor (cfg : Cfg) (val : NodeId → Bool) (node : NodeId) : Option NodeId :=
  match (cfg.node node).children with
  | [] => none
  | [child] => some child
  | child :: other :: _ => some (if val node then child else other)

def Block.statements (cfg : Cfg) (block : Block) : List NodeId :=
  block.nodes.filter cfg.isStatement

namespace Branch

def leadRegions (branch : Branch) : List RegionId := (branch.lead.map Block.region).toList

def leadNodes (branch : Branch) : List NodeId := (branch.lead.map Block.nodes).getD []

def leadStatements (cfg : Cfg) (branch : Branch) : List NodeId :=
  (branch.lead.map (Block.statements cfg)).getD []

/-- The first region of the statement. -/
def entry (branch : Branch) : RegionId := (branch.lead.map Block.region).getD branch.header

/-- The region in front of the branch. -/
def before (branch : Branch) (pred : Option RegionId) : Option RegionId :=
  (branch.lead.map Block.region).or pred

end Branch

namespace Code

/-- The first region; code without one leads to its exit. -/
def first : Code → Option RegionId
  | .done => none
  | .block linear => some linear.region
  | .own branch _ _ _ _ => some branch.entry
  | .shared branch _ _ => some branch.entry

def entry (code : Code) (exit : Option RegionId) : Option RegionId := code.first.or exit

/-- The regions that go to the exit. -/
def enders : Code → RegionId → List RegionId
  | .done, pred => [pred]
  | .block linear, _ => [linear.region]
  | .own _ _ _ join rest, _ => rest.enders join.region
  | .shared branch body other, _ => body.enders branch.header ++ other.enders branch.header

def regions : Code → List RegionId
  | .done => []
  | .block linear => [linear.region]
  | .own branch body other join rest =>
      branch.leadRegions ++ branch.header :: (body.regions ++ other.regions) ++
        join.region :: rest.regions
  | .shared branch body other =>
      branch.leadRegions ++ branch.header :: (body.regions ++ other.regions)

def nodes : Code → List NodeId
  | .done => []
  | .block linear => linear.nodes
  | .own branch body other join rest =>
      branch.leadNodes ++ branch.cond :: (body.nodes ++ other.nodes) ++ join.node :: rest.nodes
  | .shared branch body other =>
      branch.leadNodes ++ branch.cond :: (body.nodes ++ other.nodes)

/-- The instructions of the linear regions. -/
def statements (cfg : Cfg) : Code → List NodeId
  | .done => []
  | .block linear => linear.statements cfg
  | .own branch body other _ rest =>
      branch.leadStatements cfg ++ (body.statements cfg ++ other.statements cfg) ++
        rest.statements cfg
  | .shared branch body other =>
      branch.leadStatements cfg ++ (body.statements cfg ++ other.statements cfg)

end Code

/-! ## Region graphs of programs -/

def Graph.start (graph : Graph) (region : RegionId) : Anchor := (graph.get region).start

def Graph.stop (graph : Graph) (region : RegionId) : Anchor := (graph.get region).stop

def Graph.startNode (graph : Graph) (region : RegionId) : Option NodeId :=
  match graph.start region with
  | .node node => some node
  | .region _ => none

/--
The nodes are a path from the start to the end of the region, and its children
start at the children of the last node.
-/
structure Spans (cfg : Cfg) (graph : Graph) (region : RegionId) (nodes : List NodeId) : Prop where
  path : nodes.IsChain fun node next => (cfg.node node).children = [next]
  start : nodes.head?.map Anchor.node = some (graph.start region)
  stop : nodes.getLast?.map Anchor.node = some (graph.stop region)
  children : ∀ last, nodes.getLast? = some last →
    (cfg.node last).children.map some = (graph.children region).map graph.startNode

/-- The root and the masks stand at the start of a linear region only. -/
structure Block.Placed (cfg : Cfg) (graph : Graph) (block : Block)
    (pred next : Option RegionId) : Prop where
  type : graph.type block.region = .linear
  spans : Spans cfg graph block.region block.nodes
  inner : ∀ node ∈ block.nodes.tail, cfg.isStatement node = true
  parent : graph.parent block.region = pred.toList
  children : graph.children block.region = next.toList

structure Branch.Placed (cfg : Cfg) (graph : Graph) (branch : Branch) (pred : Option RegionId)
    (targets : List RegionId) : Prop where
  lead : ∀ block, branch.lead = some block → block.Placed cfg graph pred (some branch.header)
  type : graph.type branch.header = .basic
  spans : Spans cfg graph branch.header [branch.cond]
  parent : graph.parent branch.header = (branch.before pred).toList
  children : graph.children branch.header = targets

/-- The parents of a join are listed in some order. -/
structure Join.Placed (cfg : Cfg) (graph : Graph) (join : Join) (enders : List RegionId)
    (next : Option RegionId) : Prop where
  type : graph.type join.region = .basic
  spans : Spans cfg graph join.region [join.node]
  parent : (graph.parent join.region).Perm enders
  children : graph.children join.region = next.toList

namespace Code

/-- The two regions behind a branch. -/
def targets (body other : Code) (exit : RegionId) : List RegionId :=
  (body.entry (some exit)).toList ++ (other.entry (some exit)).toList

/-- The graph has the regions of the code behind `pred` and in front of `exit`. -/
def Placed (cfg : Cfg) (graph : Graph) : Code → Option RegionId → Option RegionId → Prop
  | .done, _, _ => True
  | .block linear, pred, exit => linear.Placed cfg graph pred exit
  | .own branch body other join rest, pred, exit =>
      branch.Placed cfg graph pred (targets body other join.region) ∧
      body.first.isSome = true ∧
      body.Placed cfg graph (some branch.header) (some join.region) ∧
      other.Placed cfg graph (some branch.header) (some join.region) ∧
      join.Placed cfg graph (body.enders branch.header ++ other.enders branch.header)
        (rest.entry exit) ∧
      rest.Placed cfg graph (some join.region) exit
  | .shared branch body other, pred, exit =>
      ∃ join, exit = some join ∧
      branch.Placed cfg graph pred (targets body other join) ∧
      body.first.isSome = true ∧
      body.Placed cfg graph (some branch.header) exit ∧
      other.Placed cfg graph (some branch.header) exit

end Code

/-- The region graph of a whole program, which starts with the linear region of the root. -/
structure Program (cfg : Cfg) (graph : Graph) (code : Code) (root : RegionId) : Prop where
  placed : code.Placed cfg graph none none
  entry : code.first = some root
  start : graph.start root = .node cfg.root
  linear : graph.type root = .linear
  regions : code.regions.Nodup
  inUse : ∀ region ∈ code.regions, region < graph.next
  nodes : code.nodes.Nodup

/-! ## Outputs -/

namespace Printed

/-- The statements with the conditions and their values that guard them. -/
def guarded : Printed → List (NodeId × Bool) → List (List (NodeId × Bool) × NodeId)
  | .empty, _ => []
  | .node statement, path => [(path, statement)]
  | .seq first second, path => first.guarded path ++ second.guarded path
  | .ifStatement cond body, path => body.guarded (path ++ [(cond, true)])
  | .ifElseStatement cond body other, path =>
      body.guarded (path ++ [(cond, true)]) ++ other.guarded (path ++ [(cond, false)])

/-- The statements the printed program executes. -/
def run (val : NodeId → Bool) : Printed → List NodeId
  | .empty => []
  | .node statement => [statement]
  | .seq first second => first.run val ++ second.run val
  | .ifStatement cond body => if val cond then body.run val else []
  | .ifElseStatement cond body other => if val cond then body.run val else other.run val

/-- The statements one after the other. -/
def ofNodes : List NodeId → Printed
  | [] => .empty
  | [last] => .node last
  | first :: next :: rest => .seq (.node first) (ofNodes (next :: rest))

/-- The statement of a branch, with an else if the other branch has code. -/
def branch (cond : NodeId) (body other : Printed) (hasOther : Bool) : Printed :=
  if hasOther then .ifElseStatement cond body other else .ifStatement cond body

/-- The code behind a statement, if there is any. -/
def followed (first rest : Printed) (hasRest : Bool) : Printed :=
  if hasRest then .seq first rest else first

end Printed

def Block.printed (cfg : Cfg) (block : Block) : Printed := .ofNodes (block.statements cfg)

/-- The statement behind the linear region in front of its branch. -/
def Branch.printed (cfg : Cfg) (branch : Branch) (stmt : Printed) : Printed :=
  match branch.lead with
  | none => stmt
  | some lead => .seq (lead.printed cfg) stmt

/-- The statements of a program. -/
def Code.printed (cfg : Cfg) : Code → Printed
  | .done => .empty
  | .block linear => linear.printed cfg
  | .own branch body other _ rest =>
      branch.printed cfg (Printed.followed
        (.branch branch.cond (body.printed cfg) (other.printed cfg) other.first.isSome)
        (rest.printed cfg) rest.first.isSome)
  | .shared branch body other =>
      branch.printed cfg
        (.branch branch.cond (body.printed cfg) (other.printed cfg) other.first.isSome)

/-- The conditions on a path have the values it asks for. -/
def holds (val : NodeId → Bool) (path : List (NodeId × Bool)) : Bool :=
  path.all fun guard => val guard.1 == guard.2

/--
The output has every instruction once, under conditions that hold exactly when
the graph executes it, and executes the same instructions in the same order.
-/
structure Prints (cfg : Cfg) (instructions : List NodeId) (out : Printed) : Prop where
  once : ((out.guarded []).map Prod.snd).Perm instructions
  guards : ∀ path node, (path, node) ∈ out.guarded [] → ∀ val trace,
    Walk.Complete (cfg.successor val) cfg.root trace → (node ∈ trace ↔ holds val path = true)
  order : ∀ val, ∃ trace, Walk.Complete (cfg.successor val) cfg.root trace ∧
    trace.filter (· ∈ instructions) = out.run val

end OpenCLDecompiler.Regions
