import Mathlib.Data.Fintype.Card
import Mathlib.Data.List.Chain
import Mathlib.Data.Set.Finite.Basic
import Mathlib.Logic.Relation

/-!
# Joins

A join is a node with several parents.  A walk along edges that lead to no join ends: a
cycle is entered at a join if its nodes can be reached from a start without parents.
-/

namespace OpenCLDecompiler.Library

/-- A graph in which edges are known at both ends. -/
structure MutualGraph (ι : Type) where
  start : ι
  children : ι → List ι
  parents : ι → List ι
  mutual_edges source node : source ∈ parents node ↔ node ∈ children source

namespace MutualGraph

variable {ι : Type} (graph : MutualGraph ι)

/-- No edge leads to the start. -/
def Rooted : Prop := ∀ source, graph.start ∉ graph.children source

def Edge (source node : ι) : Prop := node ∈ graph.children source

def Reachable : ι → Prop := Relation.ReflTransGen graph.Edge graph.start

def Join (node : ι) : Prop := 2 ≤ (graph.parents node).length

/-- An edge that leads to no join. -/
def Plain (source node : ι) : Prop := graph.Edge source node ∧ ¬graph.Join node

/-- A closed walk: its first node comes again at the end. -/
def Cycle (first : ι) (rest : List ι) : Prop :=
  List.IsChain graph.Edge (first :: (rest ++ [first]))

variable {graph}

theorem two_le_length {nodes : List ι} {first second : ι} (isFirst : first ∈ nodes)
    (isSecond : second ∈ nodes) (differ : first ≠ second) : 2 ≤ nodes.length := by
  rcases nodes with _ | ⟨only, _ | ⟨next, nodes⟩⟩
  · cases isFirst
  · rw [List.mem_singleton] at isFirst isSecond
    exact absurd (isFirst.trans isSecond.symm) differ
  · simp

/-- Nodes that are entered from each other have a join among them if one can be reached. -/
theorem exists_join (rooted : graph.Rooted) {members : ι → Prop}
    (entered : ∀ node, members node → ∃ source, members source ∧ graph.Edge source node)
    {node : ι} (reachable : graph.Reachable node) (member : members node) :
    ∃ join, members join ∧ graph.Join join := by
  induction reachable with
  | refl =>
      obtain ⟨source, -, edge⟩ := entered _ member
      exact absurd edge (rooted source)
  | @tail before node _ edge ih =>
      by_cases inside : members before
      · exact ih inside
      · -- The walk from the start enters here, and one of the members leads here as well.
        obtain ⟨source, isMember, other⟩ := entered node member
        refine ⟨node, member, two_le_length ((graph.mutual_edges _ _).mpr edge)
          ((graph.mutual_edges _ _).mpr other) ?_⟩
        rintro rfl
        exact inside isMember

/-- Every node of a chain but the first has a predecessor in front of the last. -/
theorem exists_source {edge : ι → ι → Prop} {first : ι} {rest : List ι}
    (chain : List.IsChain edge (first :: rest)) :
    ∀ node ∈ rest, ∃ source ∈ (first :: rest).dropLast, edge source node := by
  induction rest generalizing first with
  | nil => exact fun node impossible => absurd impossible List.not_mem_nil
  | cons second rest ih =>
      obtain ⟨step, chain⟩ := List.isChain_cons_cons.mp chain
      intro node member
      rcases List.mem_cons.mp member with rfl | later
      · exact ⟨first, List.mem_cons_self, step⟩
      · obtain ⟨source, before, edge⟩ := ih chain node later
        exact ⟨source, List.mem_cons_of_mem _ before, edge⟩

/-- A cycle that can be reached has a join. -/
theorem exists_join_of_cycle (rooted : graph.Rooted) {first : ι} {rest : List ι}
    (cycle : graph.Cycle first rest) {node : ι} (member : node ∈ first :: rest)
    (reachable : graph.Reachable node) :
    ∃ join ∈ first :: rest, graph.Join join := by
  have whole : (first :: rest ++ [first]).dropLast = first :: rest := List.dropLast_concat
  refine exists_join rooted (fun node member => ?_) reachable member
  have later : node ∈ rest ++ [first] := by
    rw [List.mem_append, List.mem_singleton]
    exact (List.mem_cons.mp member).symm
  obtain ⟨source, before, edge⟩ := exists_source cycle node later
  rw [← List.cons_append, whole] at before
  exact ⟨source, before, edge⟩

/-- No walk along plain edges comes back to a node that can be reached. -/
theorem not_transGen_plain (rooted : graph.Rooted) {node : ι} (reachable : graph.Reachable node) :
    ¬Relation.TransGen graph.Plain node node := by
  intro back
  have entered : ∀ other, Relation.TransGen graph.Plain node other ∧
      Relation.ReflTransGen graph.Plain other node → ∃ source,
        (Relation.TransGen graph.Plain node source ∧
          Relation.ReflTransGen graph.Plain source node) ∧ graph.Edge source other := by
    rintro other ⟨walked, returns⟩
    obtain ⟨source, before, plain⟩ := Relation.TransGen.tail'_iff.mp walked
    refine ⟨source, ⟨?_, returns.head plain⟩, plain.1⟩
    rcases Relation.reflTransGen_iff_eq_or_transGen.mp before with rfl | walked
    · exact back
    · exact walked
  obtain ⟨join, ⟨walked, -⟩, isJoin⟩ := exists_join rooted entered reachable ⟨back, .refl⟩
  obtain ⟨source, -, plain⟩ := Relation.TransGen.tail'_iff.mp walked
  exact plain.2 isJoin

/-- What holds of a node once it holds behind its plain edges holds of all that can be reached. -/
@[elab_as_elim]
theorem plain_induction (rooted : graph.Rooted) {nodes : Set ι} (finite : nodes.Finite)
    (inside : graph.start ∈ nodes)
    (closed : ∀ node ∈ nodes, ∀ child ∈ graph.children node, child ∈ nodes) {holds : ι → Prop}
    (step : ∀ node, graph.Reachable node → (∀ child, graph.Plain node child → holds child) →
      holds node) (node : ι) (reachable : graph.Reachable node) : holds node := by
  have known : ∀ node, graph.Reachable node → node ∈ nodes := by
    intro node reachable
    induction reachable with
    | refl => exact inside
    | tail _ edge ih => exact closed _ ih _ edge
  have : Finite {node // graph.Reachable node} := (finite.subset known).to_subtype
  let After (child node : {node // graph.Reachable node}) : Prop :=
    Relation.TransGen graph.Plain node.1 child.1
  have : IsTrans _ After := ⟨fun _ _ _ second first => first.trans second⟩
  have : Std.Irrefl After := ⟨fun node => not_transGen_plain rooted node.2⟩
  have founded : WellFounded After := Finite.wellFounded_of_trans_of_irrefl After
  have all : ∀ node : {node // graph.Reachable node}, holds node.1 := fun node =>
    founded.induction node fun node ih => step node.1 node.2 fun child plain =>
      ih ⟨child, node.2.tail plain.1⟩ (.single plain)
  exact all ⟨node, reachable⟩

end MutualGraph

end OpenCLDecompiler.Library
