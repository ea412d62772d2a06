import OpenCLDecompiler.Regions.Statement

/-!
# The output of a structured program

The merged region of a program prints its statements: each of them once, under
the conditions that guard it, and a run of the output executes what a walk
through the control-flow graph does.
-/

namespace OpenCLDecompiler.Regions

open OpenCLDecompiler.Library

/-! ## Statement trees -/

namespace Printed

def statements : Printed → List NodeId
  | .empty => []
  | .node statement => [statement]
  | .seq first second => first.statements ++ second.statements
  | .ifStatement _ body => body.statements
  | .ifElseStatement _ body other => body.statements ++ other.statements

theorem map_guarded (out : Printed) (path : List (NodeId × Bool)) :
    (out.guarded path).map Prod.snd = out.statements := by
  induction out generalizing path with
  | empty => rfl
  | node statement => rfl
  | seq first second firstIh secondIh => simp [guarded, statements, firstIh, secondIh]
  | ifStatement cond body ih => exact ih _
  | ifElseStatement cond body other bodyIh otherIh =>
      simp [guarded, statements, bodyIh, otherIh]

theorem mem_statements_of_run {out : Printed} {val : NodeId → Bool} {node : NodeId}
    (inside : node ∈ out.run val) : node ∈ out.statements := by
  induction out with
  | empty => cases inside
  | node statement => exact inside
  | seq first second firstIh secondIh =>
      exact List.mem_append.mpr ((List.mem_append.mp inside).imp firstIh secondIh)
  | ifStatement cond body ih =>
      rw [run] at inside
      split at inside
      · exact ih inside
      · cases inside
  | ifElseStatement cond body other bodyIh otherIh =>
      rw [run] at inside
      split at inside
      · exact List.mem_append_left _ (bodyIh inside)
      · exact List.mem_append_right _ (otherIh inside)

theorem mem_statements_of_guarded {out : Printed} {path guards : List (NodeId × Bool)}
    {node : NodeId} (inside : (guards, node) ∈ out.guarded path) : node ∈ out.statements := by
  rw [← map_guarded out path]
  exact List.mem_map_of_mem inside

theorem holds_cons (val : NodeId → Bool) (guard : NodeId × Bool) (guards : List (NodeId × Bool)) :
    holds val (guard :: guards) = (val guard.1 == guard.2 && holds val guards) := rfl

/-- Where no statement stands twice, a statement is executed exactly if its guards hold. -/
theorem mem_run_iff {out : Printed} (nodup : out.statements.Nodup) {path guards : List (NodeId × Bool)}
    {node : NodeId} (inside : (guards, node) ∈ out.guarded path) (val : NodeId → Bool) :
    ∃ own, guards = path ++ own ∧ (node ∈ out.run val ↔ holds val own = true) := by
  induction out generalizing path with
  | empty => cases inside
  | node statement =>
      obtain ⟨rfl, rfl⟩ := Prod.mk.inj (List.mem_singleton.mp inside)
      exact ⟨[], (List.append_nil _).symm, by simp [run, holds]⟩
  | seq first second firstIh secondIh =>
      obtain ⟨firstNodup, secondNodup, apart⟩ := List.nodup_append.mp nodup
      rcases List.mem_append.mp inside with inFirst | inSecond
      · obtain ⟨own, split, same⟩ := firstIh firstNodup inFirst
        have absent : node ∉ second.run val := fun runs =>
          apart node (mem_statements_of_guarded inFirst) node (mem_statements_of_run runs) rfl
        refine ⟨own, split, ?_⟩
        rw [run, List.mem_append, ← same]
        exact or_iff_left absent
      · obtain ⟨own, split, same⟩ := secondIh secondNodup inSecond
        have absent : node ∉ first.run val := fun runs =>
          apart node (mem_statements_of_run runs) node (mem_statements_of_guarded inSecond) rfl
        refine ⟨own, split, ?_⟩
        rw [run, List.mem_append, ← same]
        exact or_iff_right absent
  | ifStatement cond body ih =>
      obtain ⟨own, split, same⟩ := ih nodup inside
      refine ⟨(cond, true) :: own, by rw [split, List.append_assoc]; rfl, ?_⟩
      rw [holds_cons, run]
      cases val cond <;> simp [same]
  | ifElseStatement cond body other bodyIh otherIh =>
      obtain ⟨bodyNodup, otherNodup, apart⟩ := List.nodup_append.mp nodup
      rcases List.mem_append.mp inside with inBody | inOther
      · obtain ⟨own, split, same⟩ := bodyIh bodyNodup inBody
        have absent : node ∉ other.run val := fun runs =>
          apart node (mem_statements_of_guarded inBody) node (mem_statements_of_run runs) rfl
        refine ⟨(cond, true) :: own, by rw [split, List.append_assoc]; rfl, ?_⟩
        rw [holds_cons, run]
        cases val cond <;> simp [same, absent]
      · obtain ⟨own, split, same⟩ := otherIh otherNodup inOther
        have absent : node ∉ body.run val := fun runs =>
          apart node (mem_statements_of_run runs) node (mem_statements_of_guarded inOther) rfl
        refine ⟨(cond, false) :: own, by rw [split, List.append_assoc]; rfl, ?_⟩
        rw [holds_cons, run]
        cases val cond <;> simp [same, absent]

theorem statements_ofNodes (nodes : List NodeId) : (ofNodes nodes).statements = nodes := by
  induction nodes with
  | nil => rfl
  | cons first rest ih =>
      cases rest with
      | nil => rfl
      | cons next rest => rw [ofNodes, statements, ih]; rfl

theorem run_ofNodes (val : NodeId → Bool) (nodes : List NodeId) :
    (ofNodes nodes).run val = nodes := by
  induction nodes with
  | nil => rfl
  | cons first rest ih =>
      cases rest with
      | nil => rfl
      | cons next rest => rw [ofNodes, run, ih]; rfl

end Printed

/-! ## The statements of a program -/

theorem Branch.leadStatements_sublist (cfg : Cfg) (branch : Branch) :
    (branch.leadStatements cfg).Sublist branch.leadNodes := by
  unfold leadStatements leadNodes
  cases branch.lead with
  | none => exact .slnil
  | some lead => exact List.filter_sublist

namespace Code

theorem eq_done {code : Code} (empty : code.first = none) : code = .done := by
  cases code <;> first | rfl | cases empty

/-- The output has the statements of the program in their order. -/
theorem statements_printed (cfg : Cfg) (code : Code) :
    (code.printed cfg).statements = code.statements cfg := by
  have branchStatements : ∀ cond body other (way : Code), other = way.printed cfg →
      (Printed.branch cond body other way.first.isSome).statements =
        body.statements ++ other.statements := by
    rintro cond body other way rfl
    cases starts : way.first with
    | none => simp [Printed.branch, Printed.statements, eq_done starts, printed]
    | some first => rfl
  have followedStatements : ∀ first (way : Code),
      (Printed.followed first (way.printed cfg) way.first.isSome).statements =
        first.statements ++ (way.printed cfg).statements := by
    rintro first way
    cases starts : way.first with
    | none => simp [Printed.followed, Printed.statements, eq_done starts, printed]
    | some first => rfl
  have leadStatements : ∀ (branch : Branch) stmt, (branch.printed cfg stmt).statements =
      branch.leadStatements cfg ++ stmt.statements := by
    rintro branch stmt
    cases isLead : branch.lead with
    | none => simp [Branch.printed, Branch.leadStatements, isLead]
    | some lead =>
        simp [Branch.printed, Branch.leadStatements, isLead, Printed.statements, Block.printed,
          Printed.statements_ofNodes]
  induction code with
  | done => rfl
  | block block => exact Printed.statements_ofNodes _
  | own branch body other join rest bodyIh otherIh restIh =>
      rw [printed, leadStatements, followedStatements, branchStatements _ _ _ _ rfl, bodyIh, otherIh,
        restIh, statements]
      simp only [List.append_assoc]
  | shared branch body other bodyIh otherIh =>
      rw [printed, leadStatements, branchStatements _ _ _ _ rfl, bodyIh, otherIh, statements]

theorem statements_sublist (cfg : Cfg) (code : Code) :
    (code.statements cfg).Sublist code.nodes := by
  induction code with
  | done => exact .slnil
  | block block => exact List.filter_sublist
  | own branch body other join rest bodyIh otherIh restIh =>
      have ways := (bodyIh.append otherIh).cons branch.cond
      exact ((branch.leadStatements_sublist cfg).append ways).append (restIh.cons join.node)
  | shared branch body other bodyIh otherIh =>
      exact (branch.leadStatements_sublist cfg).append ((bodyIh.append otherIh).cons branch.cond)

/-! ## Walks through a program -/

/-- The nodes of a walk through the program when the conditions have the given values. -/
def trace (val : NodeId → Bool) : Code → List NodeId
  | .done => []
  | .block linear => linear.nodes
  | .own branch body other join rest =>
      branch.leadNodes ++
        (branch.cond :: ((if val branch.cond then body.trace val else other.trace val) ++
          join.node :: rest.trace val))
  | .shared branch body other =>
      branch.leadNodes ++
        (branch.cond :: if val branch.cond then body.trace val else other.trace val)

end Code

section Trace

variable {cfg : Cfg} {graph : Graph} {val : NodeId → Bool}

theorem Spans.startNode {region : RegionId} {nodes : List NodeId}
    (spans : Spans cfg graph region nodes) : graph.startNode region = nodes.head? := by
  have start := spans.start
  cases nodes with
  | nil => cases start
  | cons first rest =>
      unfold Graph.startNode
      rw [← Option.some.inj start]
      rfl

theorem path_of_chain {nodes : List NodeId} {target : Option NodeId}
    (chain : nodes.IsChain fun node next => (cfg.node node).children = [next])
    (last : ∀ node, nodes.getLast? = some node → cfg.successor val node = target) :
    Walk.Path (cfg.successor val) nodes target := by
  induction nodes with
  | nil => trivial
  | cons first rest ih =>
      cases rest with
      | nil => exact ⟨last first rfl, trivial⟩
      | cons second rest =>
          obtain ⟨follows, chainRest⟩ := List.isChain_cons_cons.mp chain
          refine ⟨?_, ih chainRest fun node isLast => last node ?_⟩
          · rw [Cfg.successor, follows]
            rfl
          · rwa [List.getLast?_cons_cons]

variable (val) in
/-- The last node of a region with one child at most goes to the start of this child. -/
theorem Spans.walk {region : RegionId} {nodes : List NodeId} {next : Option RegionId}
    (spans : Spans cfg graph region nodes) (children : graph.children region = next.toList) :
    Walk.Path (cfg.successor val) nodes (next.bind graph.startNode) := by
  refine path_of_chain spans.path fun node isLast => ?_
  have starts := spans.children node isLast
  rw [children] at starts
  unfold Cfg.successor
  cases next with
  | none =>
      have none : (cfg.node node).children = [] := List.map_eq_nil_iff.mp starts
      rw [none]
      rfl
  | some region =>
      obtain ⟨child, one, isStart⟩ := List.map_eq_singleton_iff.mp starts
      rw [one]
      exact isStart

/-- The header goes to one of the two ways. -/
theorem Branch.Placed.walk {branch : Branch} {body other : Code} {join : RegionId}
    {pred : Option RegionId}
    (placed : branch.Placed cfg graph pred (Code.targets body other join)) :
    cfg.successor val branch.cond =
      ((if val branch.cond then body else other).entry (some join)).bind graph.startNode := by
  have starts := placed.spans.children branch.cond rfl
  have entry : ∀ way : Code, ∃ first, way.entry (some join) = some first := by
    rintro way
    unfold Code.entry
    cases way.first <;> simp
  obtain ⟨first, isFirst⟩ := entry body
  obtain ⟨second, isSecond⟩ := entry other
  rw [placed.children, Code.targets, isFirst, isSecond] at starts
  obtain ⟨left, rest, children, isLeft, restStarts⟩ := List.map_eq_cons_iff.mp starts
  obtain ⟨right, rfl, isRight⟩ := List.map_eq_singleton_iff.mp restStarts
  have goes : cfg.successor val branch.cond = some (if val branch.cond then left else right) := by
    rw [Cfg.successor, children]
  rw [goes]
  split
  · rw [isFirst]
    exact isLeft
  · rw [isSecond]
    exact isRight

variable (val) in
/-- The nodes of a lead go to the header, and start where the statement does. -/
theorem Branch.Placed.lead_path {branch : Branch} {targets : List RegionId}
    {pred : Option RegionId} (placed : branch.Placed cfg graph pred targets) :
    Walk.Path (cfg.successor val) branch.leadNodes (some branch.cond) ∧
      branch.leadNodes.head?.or (some branch.cond) = graph.startNode branch.entry := by
  have header : graph.startNode branch.header = some branch.cond := placed.spans.startNode
  cases isLead : branch.lead with
  | none =>
      simp only [Branch.leadNodes, Branch.entry, isLead, Option.map_none, Option.getD_none]
      exact ⟨trivial, header.symm⟩
  | some lead =>
      simp only [Branch.leadNodes, Branch.entry, isLead, Option.map_some, Option.getD_some]
      have leadPlaced := placed.lead lead isLead
      have path := leadPlaced.spans.walk val leadPlaced.children
      rw [Option.bind_some, header] at path
      refine ⟨path, ?_⟩
      rw [leadPlaced.spans.startNode]
      have start := leadPlaced.spans.start
      cases nodes : lead.nodes with
      | nil =>
          rw [nodes] at start
          cases start
      | cons first rest => rfl

variable (val) in
/-- A walk through code visits the nodes of its trace, and then goes to the exit. -/
theorem Code.Placed.walk {code : Code} {pred exit : Option RegionId}
    (placed : code.Placed cfg graph pred exit) :
    Walk.Path (cfg.successor val) (code.trace val) (exit.bind graph.startNode) ∧
      (code.trace val).head?.or (exit.bind graph.startNode) =
        (code.entry exit).bind graph.startNode := by
  induction code generalizing pred exit with
  | done => exact ⟨trivial, rfl⟩
  | block block =>
      have placed : block.Placed cfg graph pred exit := placed
      refine ⟨placed.spans.walk val placed.children, ?_⟩
      have start := placed.spans.start
      rw [Code.entry, Code.first, Option.some_or, Option.bind_some, placed.spans.startNode,
        Code.trace]
      cases nodes : block.nodes with
      | nil =>
          rw [nodes] at start
          cases start
      | cons first rest => rfl
  | own branch body other join rest bodyIh otherIh restIh =>
      obtain ⟨branchPlaced, -, bodyPlaced, otherPlaced, joinPlaced, restPlaced⟩ := placed
      obtain ⟨leadPath, leadHead⟩ := branchPlaced.lead_path val
      have joinStart : graph.startNode join.region = some join.node := joinPlaced.spans.startNode
      obtain ⟨restPath, restHead⟩ := restIh restPlaced
      have joinNext : cfg.successor val join.node = (rest.entry exit).bind graph.startNode :=
        (joinPlaced.spans.walk val joinPlaced.children).1
      have behind : Walk.Path (cfg.successor val) (join.node :: rest.trace val)
          (exit.bind graph.startNode) := ⟨joinNext.trans restHead.symm, restPath⟩
      have way : Walk.Path (cfg.successor val)
            (if val branch.cond then body.trace val else other.trace val) (some join.node) ∧
          (if val branch.cond then body.trace val else other.trace val).head?.or (some join.node) =
            cfg.successor val branch.cond := by
        rw [branchPlaced.walk]
        have bodyWalk := bodyIh bodyPlaced
        have otherWalk := otherIh otherPlaced
        rw [Option.bind_some, joinStart] at bodyWalk otherWalk
        split
        · exact bodyWalk
        · exact otherWalk
      refine ⟨leadPath.append ⟨?_, way.1.append behind⟩, ?_⟩
      · rw [List.head?_append, Option.or_assoc]
        exact way.2.symm
      · rw [Code.trace, List.head?_append, Option.or_assoc]
        exact leadHead
  | shared branch body other bodyIh otherIh =>
      obtain ⟨outer, rfl, branchPlaced, -, bodyPlaced, otherPlaced⟩ := placed
      obtain ⟨leadPath, leadHead⟩ := branchPlaced.lead_path val
      have way : Walk.Path (cfg.successor val)
            (if val branch.cond then body.trace val else other.trace val)
            (graph.startNode outer) ∧
          (if val branch.cond then body.trace val else other.trace val).head?.or
            (graph.startNode outer) = cfg.successor val branch.cond := by
        rw [branchPlaced.walk]
        have bodyWalk := bodyIh bodyPlaced
        have otherWalk := otherIh otherPlaced
        rw [Option.bind_some] at bodyWalk otherWalk
        split
        · exact bodyWalk
        · exact otherWalk
      refine ⟨leadPath.append ⟨?_, way.1⟩, ?_⟩
      · exact way.2.symm
      · rw [Code.trace, List.head?_append, Option.or_assoc]
        exact leadHead

end Trace

/-! ## The result -/

section Result

variable {cfg : Cfg} {graph : Graph} {val : NodeId → Bool}

theorem Code.mem_nodes_of_trace {code : Code} {node : NodeId} (inside : node ∈ code.trace val) :
    node ∈ code.nodes := by
  induction code with
  | done => cases inside
  | block block => exact inside
  | own branch body other join rest bodyIh otherIh restIh =>
      rw [trace] at inside
      simp only [nodes, List.mem_append, List.mem_cons] at inside ⊢
      split at inside <;> tauto
  | shared branch body other bodyIh otherIh =>
      rw [trace] at inside
      simp only [nodes, List.mem_append, List.mem_cons] at inside ⊢
      split at inside <;> tauto

/-- The statements among the nodes of a lead. -/
theorem Branch.filter_leadNodes {branch : Branch} {all : List NodeId}
    (known : ∀ node ∈ branch.leadNodes, node ∈ all ↔ node ∈ branch.leadStatements cfg) :
    branch.leadNodes.filter (· ∈ all) = branch.leadStatements cfg := by
  cases isLead : branch.lead with
  | none => simp [Branch.leadNodes, Branch.leadStatements, isLead]
  | some lead =>
      simp only [Branch.leadNodes, Branch.leadStatements, isLead, Option.map_some,
        Option.getD_some] at known ⊢
      refine List.filter_congr fun node inside => ?_
      simp [known node inside, Block.statements, inside]

theorem Branch.run_printed (branch : Branch) (stmt : Printed) :
    (branch.printed cfg stmt).run val = branch.leadStatements cfg ++ stmt.run val := by
  cases isLead : branch.lead with
  | none => simp [Branch.printed, Branch.leadStatements, isLead]
  | some lead =>
      simp [Branch.printed, Branch.leadStatements, isLead, Printed.run, Block.printed,
        Printed.run_ofNodes]

theorem Code.run_branch (cond : NodeId) (body : Printed) (other : Code) :
    (Printed.branch cond body (other.printed cfg) other.first.isSome).run val =
      if val cond then body.run val else (other.printed cfg).run val := by
  cases starts : other.first with
  | none => simp [Printed.branch, Printed.run, Code.eq_done starts, Code.printed]
  | some first => rfl

theorem Code.run_followed (first : Printed) (rest : Code) :
    (Printed.followed first (rest.printed cfg) rest.first.isSome).run val =
      first.run val ++ (rest.printed cfg).run val := by
  cases starts : rest.first with
  | none => simp [Printed.followed, Printed.run, Code.eq_done starts, Code.printed]
  | some first => rfl

/-- The statements among the nodes of a walk are what a run of the output executes. -/
theorem Code.filter_trace {code : Code} {all : List NodeId} (nodup : code.nodes.Nodup)
    (known : ∀ node ∈ code.nodes, node ∈ all ↔ node ∈ code.statements cfg) :
    (code.trace val).filter (· ∈ all) = (code.printed cfg).run val := by
  induction code with
  | done => rfl
  | block block =>
      rw [printed, Block.printed, Printed.run_ofNodes, trace, Block.statements]
      refine List.filter_congr fun node inside => ?_
      simp [known node inside, Code.statements, Block.statements, inside]
  | own branch body other join rest bodyIh otherIh restIh =>
      have isStatement := fun code : Code => (statements_sublist cfg code).subset
      have leadStatement := (branch.leadStatements_sublist cfg).subset
      simp only [nodes, statements] at nodup known
      have condSilent : branch.cond ∉ all := by grind
      have joinSilent : join.node ∉ all := by grind
      have leadFilter : branch.leadNodes.filter (· ∈ all) = branch.leadStatements cfg :=
        Branch.filter_leadNodes (by grind)
      have bodyFilter := bodyIh (by grind) (by grind)
      have otherFilter := otherIh (by grind) (by grind)
      have restFilter := restIh (by grind) (by grind)
      rw [trace, printed, Branch.run_printed, run_followed, run_branch, List.filter_append,
        leadFilter, List.filter_cons_of_neg (by simpa using condSilent), List.filter_append,
        List.filter_cons_of_neg (by simpa using joinSilent), restFilter]
      split
      · rw [bodyFilter]
      · rw [otherFilter]
  | shared branch body other bodyIh otherIh =>
      have isStatement := fun code : Code => (statements_sublist cfg code).subset
      have leadStatement := (branch.leadStatements_sublist cfg).subset
      simp only [nodes, statements] at nodup known
      have condSilent : branch.cond ∉ all := by grind
      have leadFilter : branch.leadNodes.filter (· ∈ all) = branch.leadStatements cfg :=
        Branch.filter_leadNodes (by grind)
      have bodyFilter := bodyIh (by grind) (by grind)
      have otherFilter := otherIh (by grind) (by grind)
      rw [trace, printed, Branch.run_printed, run_branch, List.filter_append, leadFilter,
        List.filter_cons_of_neg (by simpa using condSilent)]
      split
      · rw [bodyFilter]
      · rw [otherFilter]

/-- The output of a program that is placed in a control-flow graph. -/
theorem Program.prints {code : Code} {root : RegionId} (program : Program cfg graph code root) :
    Prints cfg (code.statements cfg) (code.printed cfg) := by
  have complete : ∀ val, Walk.Complete (cfg.successor val) cfg.root (code.trace val) := by
    rintro val
    obtain ⟨path, head⟩ := program.placed.walk val
    refine path.complete ?_
    rw [Code.entry, program.entry] at head
    simpa [Graph.startNode, program.start] using head
  have filter : ∀ val, (code.trace val).filter (· ∈ code.statements cfg) =
      (code.printed cfg).run val := fun val =>
    Code.filter_trace program.nodes fun node _ => Iff.rfl
  have statements := Code.statements_printed cfg code
  have nodup : (code.printed cfg).statements.Nodup := by
    rw [statements]
    exact program.nodes.sublist (Code.statements_sublist cfg code)
  constructor
  case once =>
    rw [Printed.map_guarded, statements]
  case guards =>
    rintro path node inside val trace walk
    obtain ⟨own, rfl, runs⟩ := Printed.mem_run_iff nodup inside val
    rw [← runs, ← filter val, walk.unique (complete val), List.mem_filter]
    refine (and_iff_left ?_).symm
    rw [← statements]
    simpa using Printed.mem_statements_of_guarded inside
  case order => exact fun val => ⟨code.trace val, complete val, filter val⟩

/-- The walk over the region graph of a program leaves one region that prints the program. -/
theorem Program.collapses {code : Code} {root : RegionId} (program : Program cfg graph code root)
    (mergeable : code.Mergeable cfg false) :
    ∃ after result, Searches ⟨graph, ∅⟩ root ⟨after, code.regions.toFinset⟩ result ∧
      Shows cfg after result (code.printed cfg) := by
  have sits : Sits cfg graph graph code none none [] := by
    constructor
    case placed => exact program.placed
    case mergeable => exact mergeable
    case nodes => exact program.nodes
    case distinct => simpa using program.regions
    case inUse => simpa using program.inUse
    case grows => exact Graph.Grows.refl graph
    case same => exact fun region _ => ⟨rfl, rfl⟩
    case start =>
      rintro - first starts
      cases program.entry.symm.trans starts
      rw [program.linear]
      decide
    all_goals exact nofun
  obtain ⟨after, region, collapsed, walks⟩ := Code.collapses cfg graph code sits
  have walk := walks graph ∅ ∅ (fun _ _ => rfl) (by simp) nofun fun extra _ => rfl
  rw [program.entry] at walk
  obtain ⟨result, isResult, search⟩ := walk
  rw [Finset.empty_union] at search
  have shows := collapsed.shows result (isResult rfl) after (Graph.Grows.refl after) fun _ _ _ => rfl
  exact ⟨after, result, search, shows⟩

end Result

/-! ## The whole pass -/

/-- `process_region_graph` without loops: the graph, and the region `improve_cfg`. -/
def processRegionGraph (graph : Graph) (root : RegionId) (fuel : Nat) :
    Option (Graph × RegionId) :=
  (processRegionGraphDfs fuel ⟨graph, ∅⟩ root).map fun done => (done.1.graph, done.2)

/--
`process_region_graph` ends without an exception on the region graph of a
program, and the region it returns prints every statement once and under its
guards, so that a run of the output executes the statements of the graph.
-/
theorem processRegionGraph_prints {cfg : Cfg} {graph : Graph} {code : Code} {root : RegionId}
    (program : Program cfg graph code root) (mergeable : code.Mergeable cfg false) :
    ∃ after result out, Settles (processRegionGraph graph root) (after, result) ∧
      Settles (fun fuel => makeOutputFromRegion cfg after fuel result) out ∧
      Prints cfg (code.statements cfg) out := by
  obtain ⟨after, result, search, shows⟩ := program.collapses mergeable
  have ends : Settles (processRegionGraph graph root) (after, result) :=
    Settles.map (fun done : DfsState × RegionId => (done.1.graph, done.2)) search
  exact ⟨after, result, _, ends, shows, program.prints⟩

/-- `a; if (2) { b } c`, in the nodes 1, 3 and 5. -/
def ifCode : Code :=
  .own ⟨some ⟨0, [0, 1]⟩, 1, 2⟩ (.block ⟨2, [3]⟩) .done ⟨3, 4⟩ (.block ⟨4, [5]⟩)

def ifCfg : Cfg where
  node
    | 0 => ⟨false, [1]⟩
    | 1 => ⟨false, [2]⟩
    | 2 => ⟨false, [3, 4]⟩
    | 3 => ⟨false, [4]⟩
    | 4 => ⟨false, [5]⟩
    | _ => ⟨false, []⟩
  root := 0

def ifGraph : Graph where
  get
    | 0 => ⟨.linear, .node 0, .node 1, [], [1]⟩
    | 1 => ⟨.basic, .node 2, .node 2, [0], [2, 3]⟩
    | 2 => ⟨.linear, .node 3, .node 3, [1], [3]⟩
    | 3 => ⟨.basic, .node 4, .node 4, [2, 1], [4]⟩
    | _ => ⟨.linear, .node 5, .node 5, [3], []⟩
  next := 5

theorem ifCode_program : Program ifCfg ifGraph ifCode 0 := by
  have lead : Block.Placed ifCfg ifGraph ⟨0, [0, 1]⟩ none (some 1) :=
    ⟨rfl, ⟨by decide, rfl, rfl, by rintro last ⟨⟩; rfl⟩, by decide, rfl, rfl⟩
  have body : Block.Placed ifCfg ifGraph ⟨2, [3]⟩ (some 1) (some 3) :=
    ⟨rfl, ⟨by decide, rfl, rfl, by rintro last ⟨⟩; rfl⟩, by decide, rfl, rfl⟩
  have rest : Block.Placed ifCfg ifGraph ⟨4, [5]⟩ (some 3) none :=
    ⟨rfl, ⟨by decide, rfl, rfl, by rintro last ⟨⟩; rfl⟩, by decide, rfl, rfl⟩
  have join : Join.Placed ifCfg ifGraph ⟨3, 4⟩ [2, 1] (some 4) :=
    ⟨rfl, ⟨by decide, rfl, rfl, by rintro last ⟨⟩; rfl⟩, .refl _, rfl⟩
  have branch : Branch.Placed ifCfg ifGraph ⟨some ⟨0, [0, 1]⟩, 1, 2⟩ none [2, 3] :=
    ⟨by rintro block ⟨⟩; exact lead, rfl, ⟨by decide, rfl, rfl, by rintro last ⟨⟩; rfl⟩, rfl, rfl⟩
  constructor
  case placed => exact ⟨branch, rfl, body, trivial, join, rest⟩
  case entry => rfl
  case start => rfl
  case linear => rfl
  case regions => decide
  case inUse => decide
  case nodes => decide

theorem processRegionGraph_prints_ifCode :
    ∃ after result out, Settles (processRegionGraph ifGraph 0) (after, result) ∧
      Settles (fun fuel => makeOutputFromRegion ifCfg after fuel result) out ∧
      Prints ifCfg [1, 3, 5] out := by
  have lead : Block.statements ifCfg ⟨0, [0, 1]⟩ ≠ [] := by decide
  have body : Block.statements ifCfg ⟨2, [3]⟩ ≠ [] := by decide
  have rest : Block.statements ifCfg ⟨4, [5]⟩ ≠ [] := by decide
  exact processRegionGraph_prints ifCode_program
    ⟨by rintro block ⟨⟩; exact lead, nofun, body, trivial, rest⟩

end OpenCLDecompiler.Regions
