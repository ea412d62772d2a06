import OpenCLDecompiler.Library.Settles
import OpenCLDecompiler.Regions.Edits

/-!
# Search and output without a bound

The depth-first walk and the output of regions as relations: what they give
once the bound on the recursion is large enough.
-/

namespace OpenCLDecompiler.Regions

open OpenCLDecompiler.Library

/-! ## Depth-first walk -/

/-- The walk from a region ends with `final` and returns `result`. -/
def Searches (st : DfsState) (region : RegionId) (final : DfsState) (result : RegionId) : Prop :=
  Settles (fun fuel => processRegionGraphDfs fuel st region) (final, result)

/-- The loop over the children from `index` on. -/
def Visits (st : DfsState) (region : RegionId) (index : Nat) (result : RegionId)
    (final : DfsState) (last : RegionId) : Prop :=
  Settles (fun fuel => visitChildren fuel st region index result) (final, last)

section Dfs

variable {st middle final : DfsState} {region child result inner last : RegionId} {index : Nat}

theorem Visits.stop (past : (st.graph.children region)[index]? = none) :
    Visits st region index result st result := by
  refine Settles.of_succ ?_ (Settles.const (st, result))
  intro fuel
  rw [visitChildren, past]

theorem Visits.skip (here : (st.graph.children region)[index]? = some child)
    (visited : child ∈ st.visited) (rest : Visits st region (index + 1) result final last) :
    Visits st region index result final last := by
  refine Settles.of_succ ?_ rest
  intro fuel
  rw [visitChildren, here]
  exact if_pos visited

theorem Visits.enter (here : (st.graph.children region)[index]? = some child)
    (unvisited : child ∉ st.visited) (search : Searches st child middle inner)
    (rest : Visits middle region (index + 1) inner final last) :
    Visits st region index result final last := by
  refine Settles.of_succ ?_ (@Settles.bind _ _ _
    (fun fuel (done : DfsState × RegionId) =>
      visitChildren fuel done.1 region (index + 1) done.2) (middle, inner) _ search rest)
  intro fuel
  rw [visitChildren, here]
  exact if_neg unvisited

theorem Searches.intro {graph : Graph} {visited : Finset RegionId}
    (visits : Visits ⟨graph, insert region visited⟩ region 0 region middle inner)
    (process : processRegion middle region inner = some (final, last)) :
    Searches ⟨graph, visited⟩ region final last := by
  have ends : Settles (fun _ => processRegion middle region inner) (final, last) := by
    rw [process]
    exact Settles.const _
  refine Settles.of_succ ?_
    (@Settles.bind _ _ _ (fun _ done => processRegion done.1 region done.2) _ _ visits ends)
  intro fuel
  rw [processRegionGraphDfs]

end Dfs

/-! ## Output -/

def Shows (cfg : Cfg) (graph : Graph) (region : RegionId) (out : Printed) : Prop :=
  Settles (fun fuel => makeOutputFromRegion cfg graph fuel region) out

def ShowsChain (cfg : Cfg) (graph : Graph) (region : RegionId) (stop : Anchor)
    (out : Printed) : Prop :=
  Settles (fun fuel => makeOutputFromChain cfg graph fuel region stop) out

section Output

variable {cfg : Cfg} {graph : Graph} {region body other next : RegionId} {cond : NodeId}

theorem get_eq_of_label {type : RegionType} {start stop : Anchor}
    (label : graph.label region = (type, start, stop)) :
    graph.get region = ⟨type, start, stop, graph.parent region, graph.children region⟩ := by
  unfold Graph.parent Graph.children
  have fields : ((graph.get region).type, (graph.get region).start, (graph.get region).stop) =
      (type, start, stop) := label
  cases found : graph.get region with
  | mk type' start' stop' parent children =>
      rw [found] at fields
      cases fields
      rfl

theorem conditionNode_of_start (start : graph.start region = .node cond) :
    conditionNode graph (.region region) = some cond := by
  unfold Graph.start at start
  simp only [conditionNode, start]

theorem ShowsChain.last {out : Printed} (shows : Shows cfg graph region out) :
    ShowsChain cfg graph region (.region region) out := by
  refine Settles.of_succ ?_
    (@Settles.bind _ _ _ (fun _ first => some first) _ _ shows (Settles.const out))
  intro fuel
  rw [makeOutputFromChain]
  simp only [if_true]

theorem ShowsChain.step {stop : Anchor} {first rest : Printed}
    (shows : Shows cfg graph region first) (differs : .region region ≠ stop)
    (child : firstChild graph region = some next) (chain : ShowsChain cfg graph next stop rest) :
    ShowsChain cfg graph region stop (.seq first rest) := by
  refine Settles.of_succ ?_ (@Settles.bind _ _ _
    (fun fuel first => (makeOutputFromChain cfg graph fuel next stop).map fun rest =>
      Printed.seq first rest) _ _ shows (Settles.map _ chain))
  intro fuel
  rw [makeOutputFromChain]
  simp only [differs, if_false, child, Option.bind_some]

theorem Shows.chain {stop : Anchor} {out : Printed}
    (label : graph.label region = (.linear, .region next, stop))
    (chain : ShowsChain cfg graph next stop out) : Shows cfg graph region out := by
  refine Settles.of_succ ?_ chain
  intro fuel
  rw [makeOutputFromRegion, get_eq_of_label label]

theorem Shows.ifStatement {header : RegionId} {stop : Anchor} {out : Printed}
    (label : graph.label region = (.ifStatement, .region header, stop))
    (start : graph.start header = .node cond) (child : (graph.children header)[0]? = some body)
    (shows : Shows cfg graph body out) : Shows cfg graph region (.ifStatement cond out) := by
  refine Settles.of_succ ?_ (Settles.map (Printed.ifStatement cond) shows)
  intro fuel
  have condition := conditionNode_of_start start
  rw [makeOutputFromRegion, get_eq_of_label label]
  simp [condition, branchBody, child, Option.map_eq_bind]

theorem Shows.ifElseStatement {header : RegionId} {stop : Anchor} {first second : Printed}
    (label : graph.label region = (.ifElseStatement, .region header, stop))
    (start : graph.start header = .node cond) (child0 : (graph.children header)[0]? = some body)
    (child1 : (graph.children header)[1]? = some other) (shows0 : Shows cfg graph body first)
    (shows1 : Shows cfg graph other second) :
    Shows cfg graph region (.ifElseStatement cond first second) := by
  refine Settles.of_succ ?_ (@Settles.bind _ _ _
    (fun fuel body => (makeOutputFromRegion cfg graph fuel other).map fun other =>
      Printed.ifElseStatement cond body other) _ _ shows0 (Settles.map _ shows1))
  intro fuel
  have condition := conditionNode_of_start start
  rw [makeOutputFromRegion, get_eq_of_label label]
  simp [condition, branchBody, child0, child1, Option.map_eq_bind]

/-- The loop over the nodes of a linear region. -/
theorem printNodes_settles {nodes : List NodeId} {first last : NodeId}
    (path : nodes.IsChain fun node next => (cfg.node node).children = [next])
    (nodup : nodes.Nodup) (head : nodes.head? = some first) (stop : nodes.getLast? = some last) :
    Settles (fun fuel => printNodes cfg fuel first last) (.ofNodes nodes) := by
  induction nodes generalizing first with
  | nil => cases head
  | cons node rest ih =>
      cases head
      cases rest with
      | nil =>
          cases stop
          refine Settles.of_succ ?_ (Settles.const (Printed.node node))
          intro fuel
          exact if_pos rfl
      | cons next rest =>
          obtain ⟨follows, pathRest⟩ := List.isChain_cons_cons.mp path
          have stopRest : (next :: rest).getLast? = some last := by
            rwa [List.getLast?_cons_cons] at stop
          have differs : node ≠ last := by
            rintro rfl
            exact (List.nodup_cons.mp nodup).1 (List.mem_of_getLast? stopRest)
          have shown := ih pathRest (List.nodup_cons.mp nodup).2 rfl stopRest
          refine Settles.of_succ ?_ (Settles.map (Printed.seq (.node node)) shown)
          intro fuel
          rw [printNodes, if_neg differs, follows]
          rfl

theorem Shows.nodes {start first stop : NodeId} {nodes : List NodeId}
    (label : graph.label region = (.linear, .node start, .node stop))
    (begins : firstPrinted cfg start = some first)
    (path : nodes.IsChain fun node next => (cfg.node node).children = [next])
    (nodup : nodes.Nodup) (head : nodes.head? = some first) (last : nodes.getLast? = some stop) :
    Shows cfg graph region (.ofNodes nodes) := by
  refine Settles.of_succ ?_ (printNodes_settles path nodup head last)
  intro fuel
  rw [makeOutputFromRegion, get_eq_of_label label]
  simp only [begins, Option.bind_some]

end Output

/-! ## The output of a block -/

theorem filter_tail {cfg : Cfg} {first : NodeId} {rest : List NodeId}
    (inner : ∀ node ∈ rest, cfg.isStatement node = true) :
    (first :: rest).filter cfg.isStatement =
      if cfg.isStatement first then first :: rest else rest := by
  rw [List.filter_cons, List.filter_eq_self.mpr inner]

/-- The root and the masks in front of the second node are not printed. -/
theorem firstPrinted_of_not_statement {cfg : Cfg} {first second : NodeId}
    (silent : cfg.isStatement first = false) (follows : (cfg.node first).children = [second])
    (statement : cfg.isStatement second = true) : firstPrinted cfg first = some second := by
  have plain : (cfg.node second).changeMask = false := by
    simp only [Cfg.isStatement, Bool.and_eq_true, Bool.not_eq_true'] at statement
    exact statement.2
  unfold firstPrinted
  by_cases root : first = cfg.root
  · subst root
    simp [follows, plain]
  · have mask : (cfg.node first).changeMask = true := by
      simpa [Cfg.isStatement, root] using silent
    simp [root, mask, follows]

theorem firstPrinted_of_statement {cfg : Cfg} {first : NodeId}
    (statement : cfg.isStatement first = true) : firstPrinted cfg first = some first := by
  simp only [Cfg.isStatement, Bool.and_eq_true, Bool.not_eq_true', beq_eq_false_iff_ne] at statement
  simp [firstPrinted, statement.1, statement.2]

theorem Block.shows {cfg : Cfg} {graph later : Graph} {block : Block}
    {pred next : Option RegionId} (placed : block.Placed cfg graph pred next)
    (nodup : block.nodes.Nodup) (prints : block.statements cfg ≠ [])
    (label : later.label block.region = graph.label block.region) :
    Shows cfg later block.region (block.printed cfg) := by
  obtain ⟨first, rest, nodes⟩ : ∃ first rest, block.nodes = first :: rest := by
    cases found : block.nodes with
    | nil => simp [Block.statements, found] at prints
    | cons first rest => exact ⟨first, rest, rfl⟩
  obtain ⟨last, stop⟩ : ∃ last, block.nodes.getLast? = some last := by
    rw [nodes]
    exact ⟨_, List.getLast?_cons⟩
  have startIs : graph.start block.region = .node first := by
    have spans := placed.spans.start
    rw [nodes] at spans
    exact (Option.some.inj spans).symm
  have stopIs : graph.stop block.region = .node last := by
    have spans := placed.spans.stop
    rw [stop] at spans
    exact (Option.some.inj spans).symm
  have labelIs : later.label block.region = (.linear, .node first, .node last) := by
    rw [label, ← startIs, ← stopIs, ← placed.type]
    rfl
  have path := placed.spans.path
  have inner : ∀ node ∈ rest, cfg.isStatement node = true := by
    rintro node inside
    exact placed.inner node (by rwa [nodes])
  have statements := @filter_tail cfg first rest inner
  unfold Block.printed Block.statements
  unfold Block.statements at prints
  rw [nodes] at path nodup stop prints ⊢
  cases own : cfg.isStatement first with
  | true =>
      rw [own, if_pos rfl] at statements
      rw [statements]
      exact Shows.nodes labelIs (firstPrinted_of_statement own) path nodup rfl stop
  | false =>
      rw [own] at statements
      simp only [Bool.false_eq_true, if_false] at statements
      rw [statements] at prints ⊢
      cases rest with
      | nil => exact absurd rfl prints
      | cons second rest =>
          obtain ⟨follows, pathRest⟩ := List.isChain_cons_cons.mp path
          rw [List.getLast?_cons_cons] at stop
          exact Shows.nodes labelIs
            (firstPrinted_of_not_statement own follows (inner second List.mem_cons_self))
            pathRest (List.nodup_cons.mp nodup).2 rfl stop

end OpenCLDecompiler.Regions
