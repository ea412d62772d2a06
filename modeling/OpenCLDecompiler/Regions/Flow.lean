import OpenCLDecompiler.Regions.BuildOrder
import OpenCLDecompiler.Regions.Structured

/-!
# From control-flow graphs to output

A flow is the shape of a control-flow graph without loops.  The region graph
that is built for it is the one of a program, so that merging its regions and
printing the last one is right for the control-flow graph.
-/

namespace OpenCLDecompiler.Regions.Build

open Library

/-- Nodes with one way in and one way out, from the first to the last. -/
structure Line (V : Type) where
  first : V
  rest : List V

namespace Line

variable {V : Type}

def nodes (line : Line V) : List V := line.first :: line.rest

def last (line : Line V) : V := line.nodes.getLast (List.cons_ne_nil _ _)

end Line

/-- Code over nodes, up to its exit; see `Code` for the same over regions. -/
inductive Flow (V : Type) where
  | done
  | block (line : Line V)
  | own (lead : Option (Line V)) (cond : V) (body other : Flow V) (join : V) (rest : Flow V)
  | shared (lead : Option (Line V)) (cond : V) (body other : Flow V)

namespace Flow

variable {V : Type}

def leadNodes (lead : Option (Line V)) : List V := (lead.map Line.nodes).getD []

/-- The first node of a statement. -/
def start (lead : Option (Line V)) (cond : V) : V := (lead.map Line.first).getD cond

def first : Flow V → Option V
  | .done => none
  | .block line => some line.first
  | .own lead cond _ _ _ _ => some (start lead cond)
  | .shared lead cond _ _ => some (start lead cond)

def entry (flow : Flow V) (exit : Option V) : Option V := flow.first.or exit

/-- The nodes that go to the exit. -/
def enders : Flow V → V → List V
  | .done, pred => [pred]
  | .block line, _ => [line.last]
  | .own _ _ _ _ join rest, _ => rest.enders join
  | .shared _ cond body other, _ => body.enders cond ++ other.enders cond

def nodes : Flow V → List V
  | .done => []
  | .block line => line.nodes
  | .own lead cond body other join rest =>
      leadNodes lead ++ cond :: (body.nodes ++ other.nodes) ++ join :: rest.nodes
  | .shared lead cond body other => leadNodes lead ++ cond :: (body.nodes ++ other.nodes)

/-- The two nodes behind a branch. -/
def targets (body other : Flow V) (exit : V) : List V :=
  (body.entry (some exit)).toList ++ (other.entry (some exit)).toList

end Flow

/-! ## Flows of graphs -/

section Placed

variable {V : Type} (cfg : Cfg V) (mask : V → Bool)

/-- A mask stands at the start of a line only. -/
structure Line.Placed (line : Line V) (pred next : Option V) : Prop where
  chain : line.nodes.IsChain fun node next => cfg.children node = [next] ∧ cfg.parent next = [node]
  masks : ∀ node ∈ line.rest, mask node = false
  parent : cfg.parent line.first = pred.toList
  children : cfg.children line.last = next.toList

structure HeaderPlaced (lead : Option (Line V)) (cond : V) (pred : Option V) (targets : List V) :
    Prop where
  leadPlaced : ∀ line, lead = some line → line.Placed cfg mask pred (some cond)
  parent : cfg.parent cond = ((lead.map Line.last).or pred).toList
  children : cfg.children cond = targets

structure JoinPlaced (join : V) (enders : List V) (next : Option V) : Prop where
  parent : (cfg.parent join).Perm enders
  children : cfg.children join = next.toList

/-- The graph has the nodes of the flow behind `pred` and in front of `exit`. -/
def Flow.Placed : Flow V → Option V → Option V → Prop
  | .done, _, _ => True
  | .block line, pred, exit => line.Placed cfg mask pred exit
  | .own lead cond body other join rest, pred, exit =>
      HeaderPlaced cfg mask lead cond pred (targets body other join) ∧
      body.first.isSome = true ∧
      body.Placed (some cond) (some join) ∧
      other.Placed (some cond) (some join) ∧
      JoinPlaced cfg join (body.enders cond ++ other.enders cond) (rest.entry exit) ∧
      rest.Placed (some join) exit
  | .shared lead cond body other, pred, exit =>
      ∃ join, exit = some join ∧
      HeaderPlaced cfg mask lead cond pred (targets body other join) ∧
      body.first.isSome = true ∧
      body.Placed (some cond) exit ∧
      other.Placed (some cond) exit

/-- The start and the masks print no statement. -/
def Line.statements [DecidableEq V] (line : Line V) : List V :=
  line.nodes.filter fun node => !(node == cfg.start) && !mask node

def Flow.statements [DecidableEq V] : Flow V → List V
  | .done => []
  | .block line => line.statements cfg mask
  | .own lead _ body other _ rest =>
      (lead.map (Line.statements cfg mask)).getD [] ++ (body.statements ++ other.statements) ++
        rest.statements
  | .shared lead _ body other =>
      (lead.map (Line.statements cfg mask)).getD [] ++ (body.statements ++ other.statements)

/--
Every line prints a statement, and a statement that ends at the join of the
statement around it (`inner`) has a line in front of its branch.
-/
def Flow.Mergeable [DecidableEq V] : Flow V → Bool → Prop
  | .done, _ => True
  | .block line, _ => line.statements cfg mask ≠ []
  | .own lead _ body other _ rest, inner =>
      (∀ line, lead = some line → line.statements cfg mask ≠ []) ∧
      (lead = none → rest.first = none → inner = false) ∧
      body.Mergeable true ∧ other.Mergeable true ∧ rest.Mergeable inner
  | .shared lead _ body other, _ =>
      (∀ line, lead = some line → line.statements cfg mask ≠ []) ∧
      lead.isSome = true ∧
      body.Mergeable true ∧ other.Mergeable true

/-- A graph without loops in the shape of a flow. -/
structure Structured (flow : Flow V) : Prop where
  wf : cfg.WellFormed
  free : cfg.LoopFree
  placed : flow.Placed cfg mask none none
  first : flow.first = some cfg.start
  nodes : flow.nodes.Nodup

end Placed

/-! ## The regions of a line -/

section Lines

variable {V : Type} [DecidableEq V] {cfg : Cfg V} {mask : V → Bool} {st : State V}
  {owner : V → RegionId} {trace : RegionId → List V}

omit [DecidableEq V] in
theorem Cfg.LoopFree.plain (free : cfg.LoopFree) {node : V}
    (parent : (cfg.parent node).length = 1) (children : (cfg.children node).length ≤ 1) :
    cfg.Plain node :=
  ⟨by simp [free.loops], by simp [free.backEdges], parent, children⟩

theorem Cfg.LoopFree.regionType (free : cfg.LoopFree) {node : V} (other : ¬ cfg.Linear node) :
    cfg.regionType node = .basic := by
  have notLinear := (Cfg.regionType_eq_linear_iff node).not.mpr other
  unfold Cfg.regionType at notLinear ⊢
  rw [free.loops, free.backEdges] at notLinear ⊢
  simp only [List.not_mem_nil, if_false] at notLinear ⊢
  split at notLinear
  · exact (notLinear rfl).elim
  · rename_i notStart
    rw [if_neg notStart]
    split at notLinear
    · exact (notLinear rfl).elim
    · rename_i notSingle
      rw [if_neg notSingle]

/-- The nodes behind the first one of a chain are in its region. -/
theorem Finished.chain (finished : Finished cfg st owner trace) {first : V} {rest : List V}
    (chain : (first :: rest).IsChain fun node next =>
      cfg.children node = [next] ∧ cfg.parent next = [node])
    (linear : cfg.Linear first)
    (ends : (cfg.children ((first :: rest).getLast (List.cons_ne_nil _ _))).length ≤ 1) :
    ∀ node ∈ rest, owner node = owner first := by
  induction rest generalizing first with
  | nil => exact nofun
  | cons second rest ih =>
      obtain ⟨⟨-, parent⟩, chain⟩ := List.isChain_cons_cons.mp chain
      rw [List.getLast_cons_cons] at ends
      have short : (cfg.children second).length ≤ 1 := by
        cases rest with
        | nil => exact ends
        | cons third rest =>
            rw [(List.isChain_cons_cons.mp chain).1.1]
            exact Nat.le_refl _
      have plain : cfg.Plain second := finished.free.plain (by rw [parent]; rfl) short
      have joined : cfg.Joined second := by
        refine ⟨plain, fun other link => ?_⟩
        rw [parent, List.mem_singleton] at link
        rwa [link]
      have same : owner second = owner first :=
        finished.inv.joinedOwner second (finished.all second) joined first (by simp [parent])
      rintro node inside
      rcases List.mem_cons.mp inside with rfl | inside
      · exact same
      · rw [ih chain (.inr plain) ends node inside, same]

theorem parent_of_chain {V : Type} {cfg : Cfg V} {first : V} {rest : List V}
    (chain : (first :: rest).IsChain fun node next =>
      cfg.children node = [next] ∧ cfg.parent next = [node]) :
    ∀ node ∈ rest, ∃ above, cfg.parent node = [above] := by
  induction rest generalizing first with
  | nil => exact nofun
  | cons second rest ih =>
      obtain ⟨⟨-, parent⟩, chain⟩ := List.isChain_cons_cons.mp chain
      rintro node inside
      rcases List.mem_cons.mp inside with rfl | inside
      · exact ⟨first, parent⟩
      · exact ih chain node inside

/-- The code around a flow. -/
structure Around (cfg : Cfg V) (first pred exit : Option V) : Prop where
  before : ∀ node, pred = some node → ¬ cfg.Linear node
  start : pred = none → first = some cfg.start
  behind : ∀ node, exit = some node → ¬ cfg.Plain node

omit [DecidableEq V] in
theorem Around.after {first exit : Option V} {above : V} (notLinear : ¬ cfg.Linear above)
    (behind : ∀ node, exit = some node → ¬ cfg.Plain node) : Around cfg first (some above) exit := by
  refine ⟨?_, nofun, behind⟩
  rintro node ⟨⟩
  exact notLinear

omit [DecidableEq V] in
/-- A node behind code that is not linear starts a region. -/
theorem Around.not_joined {first exit pred : Option V} (around : Around cfg first pred exit)
    {node : V} (parent : cfg.parent node = pred.toList) : ¬ cfg.Joined node := by
  rintro ⟨plain, linear⟩
  cases pred with
  | none =>
      have one := plain.2.2.1
      rw [parent] at one
      cases one
  | some above => exact around.before above rfl (linear above (by simp [parent]))

namespace Line.Placed

variable {line : Line V} {pred next first : Option V}

omit [DecidableEq V] in
theorem linear_first (placed : line.Placed cfg mask pred next) (free : cfg.LoopFree)
    (around : Around cfg (some line.first) pred next) : cfg.Linear line.first := by
  cases pred with
  | none => exact .inl (Option.some.inj (around.start rfl))
  | some above =>
      refine .inr (free.plain (by rw [placed.parent]; rfl) ?_)
      have chain := placed.chain
      have ends := placed.children
      unfold Line.last at ends
      unfold Line.nodes at chain ends
      cases rest : line.rest with
      | nil =>
          simp only [rest, List.getLast_singleton] at ends
          rw [ends]
          cases next <;> simp
      | cons second rest' =>
          rw [rest] at chain
          rw [(List.isChain_cons_cons.mp chain).1.1]
          exact Nat.le_refl _

theorem owner_eq (placed : line.Placed cfg mask pred next) (finished : Finished cfg st owner trace)
    (around : Around cfg (some line.first) pred next) {node : V} (inside : node ∈ line.nodes) :
    owner node = owner line.first := by
  rcases List.mem_cons.mp inside with rfl | inside
  · rfl
  · refine finished.chain placed.chain (placed.linear_first finished.free around) ?_ node inside
    refine Nat.le_trans (Nat.le_of_eq (congrArg List.length placed.children)) ?_
    cases next <;> simp

theorem owner_last (placed : line.Placed cfg mask pred next)
    (finished : Finished cfg st owner trace) (around : Around cfg (some line.first) pred next) :
    owner line.last = owner line.first :=
  placed.owner_eq finished around (List.getLast_mem _)

omit [DecidableEq V] in
theorem isLast (placed : line.Placed cfg mask pred next)
    (around : Around cfg first pred next) : Last cfg st line.last := by
  rintro child edge joined
  rw [placed.children, Option.mem_toList] at edge
  exact (around.behind child edge joined.1).elim

end Line.Placed

/-! ## Edges of regions -/

namespace Finished

variable (finished : Finished cfg st owner trace)

include finished

theorem children_short {node : V} {next : Option V} (last : Last cfg st node)
    (children : cfg.children node = next.toList) :
    (st.store.get (owner node)).children = (next.map owner).toList := by
  have perm := finished.inv.children node (finished.all node) last
  rw [List.filter_eq_self.mpr fun v _ => by simpa using finished.all v, children] at perm
  cases next with
  | none => exact List.perm_nil.mp perm
  | some child => exact List.perm_singleton.mp perm

theorem parent_perm {head : V} (notJoined : ¬ cfg.Joined head) :
    (st.store.get (owner head)).parent.Perm ((cfg.parent head).map owner) := by
  have perm := finished.inv.parent head (finished.all head) notJoined
  rwa [List.filter_eq_self.mpr fun v _ => by simpa using finished.all v] at perm

theorem parent_short {head : V} {pred : Option V} (notJoined : ¬ cfg.Joined head)
    (parent : cfg.parent head = pred.toList) :
    (st.store.get (owner head)).parent = (pred.map owner).toList := by
  have perm := finished.parent_perm notJoined
  rw [parent] at perm
  cases pred with
  | none => exact List.perm_nil.mp perm
  | some above => exact List.perm_singleton.mp perm

end Finished

end Lines

/-! ## The same in the model of the merging pass -/

/-- Only graphs without loops are merged, so the types of loops do not occur. -/
def RegionType.merged : RegionType → Regions.RegionType
  | .linear => .linear
  | .basic | .startLoop | .backEdge => .basic

variable {n : Nat}

def Region.merged (region : Region (Fin n)) : Regions.Region where
  type := region.type.merged
  start := .node region.start
  stop := .node region.stop
  parent := region.parent
  children := region.children

/-- `starts_regions` as the merging pass finds it. -/
def State.graph (st : State (Fin n)) : Graph where
  get region := (st.store.get region).merged
  next := st.store.next

@[simp] theorem State.graph_start (st : State (Fin n)) (region : RegionId) :
    st.graph.start region = .node (st.store.get region).start := rfl

@[simp] theorem State.graph_stop (st : State (Fin n)) (region : RegionId) :
    st.graph.stop region = .node (st.store.get region).stop := rfl

@[simp] theorem State.graph_type (st : State (Fin n)) (region : RegionId) :
    st.graph.type region = (st.store.get region).type.merged := rfl

/-- The control-flow graph as the printer reads it; `mask` says which nodes are `change_mask`. -/
def Cfg.printed (cfg : Cfg (Fin n)) (mask : Fin n → Bool) : Regions.Cfg where
  node id :=
    if inside : id < n then ⟨mask ⟨id, inside⟩, (cfg.children ⟨id, inside⟩).map Fin.val⟩
    else ⟨false, []⟩
  root := cfg.start

@[simp] theorem Cfg.printed_node (cfg : Cfg (Fin n)) (mask : Fin n → Bool) (node : Fin n) :
    (cfg.printed mask).node node = ⟨mask node, (cfg.children node).map Fin.val⟩ := by
  simp [Cfg.printed]

section ToCode

variable (owner : Fin n → RegionId)

def Line.toBlock (line : Line (Fin n)) : Regions.Block :=
  ⟨owner line.first, line.nodes.map Fin.val⟩

def toBranch (lead : Option (Line (Fin n))) (cond : Fin n) : Branch :=
  ⟨lead.map (Line.toBlock owner), owner cond, cond⟩

/-- The regions of a flow. -/
def Flow.toCode : Flow (Fin n) → Code
  | .done => .done
  | .block line => .block (line.toBlock owner)
  | .own lead cond body other join rest =>
      .own (toBranch owner lead cond) body.toCode other.toCode ⟨owner join, join⟩ rest.toCode
  | .shared lead cond body other =>
      .shared (toBranch owner lead cond) body.toCode other.toCode

theorem toBranch_entry (lead : Option (Line (Fin n))) (cond : Fin n) :
    (toBranch owner lead cond).entry = owner (Flow.start lead cond) := by
  cases lead <;> rfl

theorem Flow.toCode_first (flow : Flow (Fin n)) :
    (flow.toCode owner).first = flow.first.map owner := by
  cases flow with
  | done => rfl
  | block line => rfl
  | own lead cond body other join rest => exact congrArg some (toBranch_entry owner lead cond)
  | shared lead cond body other => exact congrArg some (toBranch_entry owner lead cond)

theorem Flow.toCode_entry (flow : Flow (Fin n)) (exit : Option (Fin n)) :
    (flow.toCode owner).entry (exit.map owner) = (flow.entry exit).map owner := by
  unfold Code.entry Flow.entry
  rw [Flow.toCode_first]
  cases flow.first <;> rfl

theorem Flow.toCode_targets (body other : Flow (Fin n)) (join : Fin n) :
    Code.targets (body.toCode owner) (other.toCode owner) (owner join) =
      (Flow.targets body other join).map owner := by
  have entry (way : Flow (Fin n)) :
      (way.toCode owner).entry (some (owner join)) = (way.entry (some join)).map owner :=
    way.toCode_entry owner (some join)
  rw [Code.targets, Flow.targets, entry, entry, List.map_append]
  cases body.entry (some join) <;> cases other.entry (some join) <;> rfl

theorem toBranch_leadNodes (lead : Option (Line (Fin n))) (cond : Fin n) :
    (toBranch owner lead cond).leadNodes = (Flow.leadNodes lead).map Fin.val := by
  cases lead <;> rfl

theorem Flow.toCode_nodes (flow : Flow (Fin n)) :
    (flow.toCode owner).nodes = flow.nodes.map Fin.val := by
  induction flow with
  | done => rfl
  | block line => rfl
  | own lead cond body other join rest bodyIh otherIh restIh =>
      simp only [Flow.toCode, Code.nodes, Flow.nodes, toBranch_leadNodes, bodyIh, otherIh, restIh,
        List.map_append, List.map_cons]
      rfl
  | shared lead cond body other bodyIh otherIh =>
      simp only [Flow.toCode, Code.nodes, Flow.nodes, toBranch_leadNodes, bodyIh, otherIh,
        List.map_append, List.map_cons]
      rfl

end ToCode

/-! ## The region graph is the one of the flow -/

namespace Finished

variable {cfg : Cfg (Fin n)} {mask : Fin n → Bool} {st : State (Fin n)} {owner : Fin n → RegionId}
  {trace : RegionId → List (Fin n)} (finished : Finished cfg st owner trace)

include finished

theorem startNode {head : Fin n} (notJoined : ¬ cfg.Joined head) :
    st.graph.startNode (owner head) = some head.val := by
  have start := finished.inv.head head (finished.all head) notJoined
  rw [Graph.startNode, State.graph_start, start]

theorem type_eq {node : Fin n} (type : RegionType) (isType : cfg.regionType node = type) :
    st.graph.type (owner node) = type.merged := by
  rw [State.graph_type, finished.inv.type node (finished.all node), isType]

/-- A region spans the nodes from its start to its end. -/
theorem spans {nodes : List (Fin n)} {first last : Fin n} {targets : List (Fin n)}
    (head : nodes.head? = some first) (final : nodes.getLast? = some last)
    (same : owner last = owner first) (notJoined : ¬ cfg.Joined first) (isLast : Last cfg st last)
    (chain : nodes.IsChain fun node next => cfg.children node = [next])
    (children : cfg.children last = targets)
    (starts : ∀ target ∈ targets, ¬ cfg.Joined target)
    (regions : st.graph.children (owner first) = targets.map owner) :
    Spans (cfg.printed mask) st.graph (owner first) (nodes.map Fin.val) := by
  constructor
  case path =>
    rw [List.isChain_map]
    refine chain.imp fun node next edge => ?_
    rw [Cfg.printed_node, edge]
    rfl
  case start =>
    have start := finished.inv.head first (finished.all first) notJoined
    rw [List.head?_map, head, State.graph_start, start]
    rfl
  case stop =>
    have stop := finished.inv.stop last (finished.all last) isLast
    rw [List.getLast?_map, final, ← same, State.graph_stop, stop]
    rfl
  case children =>
    rintro node isFinal
    rw [List.getLast?_map, final] at isFinal
    cases isFinal
    rw [Cfg.printed_node, children, regions, List.map_map, List.map_map]
    refine List.map_congr_left fun target inside => ?_
    exact (finished.startNode (starts target inside)).symm

end Finished

section Placed

variable {cfg : Cfg (Fin n)} {mask : Fin n → Bool} {st : State (Fin n)} {owner : Fin n → RegionId}
  {trace : RegionId → List (Fin n)}

theorem Line.Placed.toBlock {line : Line (Fin n)} {pred next : Option (Fin n)}
    (placed : line.Placed cfg mask pred next) (finished : Finished cfg st owner trace)
    (around : Around cfg (some line.first) pred next) :
    (line.toBlock owner).Placed (cfg.printed mask) st.graph (pred.map owner) (next.map owner) := by
  have notJoined := around.not_joined placed.parent
  have isLast : Last cfg st line.last := placed.isLast around
  have same := placed.owner_last finished around
  have children := finished.children_short isLast placed.children
  rw [same] at children
  have type := (Cfg.regionType_eq_linear_iff line.first).mpr
    (placed.linear_first finished.free around)
  constructor
  case type => exact finished.type_eq _ type
  case spans =>
    refine finished.spans rfl (List.getLast?_eq_some_getLast _) same notJoined isLast
      (placed.chain.imp fun _ _ => And.left) placed.children ?_ ?_
    · rintro target inside joined
      exact around.behind target (Option.mem_toList.mp inside) joined.1
    · refine children.trans ?_
      cases next <;> rfl
  case inner =>
    rintro id inside
    obtain ⟨node, inRest, rfl⟩ := List.mem_map.mp inside
    have notStart : node ≠ cfg.start := by
      rintro rfl
      obtain ⟨above, edge⟩ := parent_of_chain placed.chain cfg.start inRest
      have link : above ∈ cfg.parent cfg.start := by simp [edge]
      have header := (finished.wf.start_loop (finished.wf.mem_parent.mp link)).2
      simp [finished.free.loops] at header
    have different : (node : Nat) ≠ cfg.start := fun equal => notStart (Fin.ext equal)
    simp [Regions.Cfg.isStatement, placed.masks node inRest, Cfg.printed, different]
  case parent => exact finished.parent_short notJoined placed.parent
  case children => exact children

/-- A node with two children is not in a linear region. -/
theorem Cfg.WellFormed.branch_not_linear (wf : cfg.WellFormed) {node first second : Fin n}
    (children : cfg.children node = [first, second]) : ¬ cfg.Linear node := by
  rintro linear
  have one : cfg.children _ = [first] := wf.linear_children linear (by simp [children])
  rw [children] at one
  cases one

/-- The nodes behind a branch. -/
theorem Flow.targets_eq {body : Flow (Fin n)} (other : Flow (Fin n)) (join : Fin n)
    (isSome : body.first.isSome = true) :
    ∃ first second, body.first = some first ∧ other.entry (some join) = some second ∧
      Flow.targets body other join = [first, second] := by
  obtain ⟨first, isFirst⟩ := Option.isSome_iff_exists.mp isSome
  obtain ⟨second, isSecond⟩ : ∃ second, other.entry (some join) = some second := by
    unfold Flow.entry
    cases other.first <;> simp
  refine ⟨first, second, isFirst, isSecond, ?_⟩
  rw [Flow.targets, isSecond, Flow.entry, isFirst]
  rfl

theorem HeaderPlaced.toBranch {lead : Option (Line (Fin n))} {cond first second : Fin n}
    {pred : Option (Fin n)}
    (placed : HeaderPlaced cfg mask lead cond pred [first, second])
    (finished : Finished cfg st owner trace)
    (before : ∀ node, pred = some node → ¬ cfg.Linear node)
    (start : pred = none → Flow.start lead cond = cfg.start)
    (head : ¬ cfg.Joined first) (head' : ¬ cfg.Joined second)
    (less : st.visited.idxOf first < st.visited.idxOf second) :
    (toBranch owner lead cond).Placed (cfg.printed mask) st.graph (pred.map owner)
      [owner first, owner second] := by
  have notLinear := finished.wf.branch_not_linear placed.children
  have notPlain : ¬ cfg.Plain cond := fun plain => notLinear (.inr plain)
  have notJoined : ¬ cfg.Joined cond := fun joined => notPlain joined.1
  have isLast : Last cfg st cond := last_of_not_linear finished.wf notLinear
  have children := finished.children_pair isLast placed.children head head' less
  have around (line : Line (Fin n)) (isLead : lead = some line) :
      Around cfg (some line.first) pred (some cond) := by
    refine ⟨before, fun none => ?_, ?_⟩
    · rw [← start none, isLead]
      rfl
    · rintro node ⟨⟩
      exact notPlain
  constructor
  case lead =>
    rintro block isBlock
    obtain ⟨line, isLead, rfl⟩ := Option.map_eq_some_iff.mp isBlock
    exact (placed.leadPlaced line isLead).toBlock finished (around line isLead)
  case type => exact finished.type_eq .basic (finished.free.regionType notLinear)
  case spans =>
    have spans : Spans (cfg.printed mask) st.graph (owner cond) ([cond].map Fin.val) := by
      refine finished.spans rfl rfl rfl notJoined isLast (by simp) placed.children ?_ children
      rintro target inside
      rcases List.mem_pair.mp inside with rfl | rfl
      · exact head
      · exact head'
    exact spans
  case parent =>
    refine (finished.parent_short notJoined placed.parent).trans ?_
    cases isLead : lead with
    | none => rfl
    | some line =>
        simp only [Option.map_some, Option.some_or, Option.toList_some, Branch.before]
        rw [(placed.leadPlaced line isLead).owner_last finished (around line isLead)]
        rfl
  case children => exact children

theorem JoinPlaced.not_plain {join : Fin n} {enders : List (Fin n)} {next : Option (Fin n)}
    (placed : JoinPlaced cfg join enders next) (several : 2 ≤ enders.length) : ¬ cfg.Plain join := by
  rintro plain
  have one := plain.2.2.1
  rw [placed.parent.length_eq] at one
  omega

theorem JoinPlaced.not_linear {join : Fin n} {enders : List (Fin n)} {next : Option (Fin n)}
    (placed : JoinPlaced cfg join enders next) (wf : cfg.WellFormed) (free : cfg.LoopFree)
    (several : 2 ≤ enders.length) : ¬ cfg.Linear join := by
  rintro (rfl | plain)
  · obtain ⟨parent, inside⟩ := List.exists_mem_of_length_pos (Nat.lt_of_succ_lt several)
    have link := placed.parent.mem_iff.mpr inside
    have header := (wf.start_loop (wf.mem_parent.mp link)).2
    simp [free.loops] at header
  · exact placed.not_plain several plain

theorem JoinPlaced.toJoin {join : Fin n} {enders : List (Fin n)} {next : Option (Fin n)}
    (placed : JoinPlaced cfg join enders next) (finished : Finished cfg st owner trace)
    (several : 2 ≤ enders.length) (behind : ∀ node, next = some node → ¬ cfg.Joined node) :
    (⟨owner join, join⟩ : Join).Placed (cfg.printed mask) st.graph (enders.map owner)
      (next.map owner) := by
  have notPlain := placed.not_plain several
  have notJoined : ¬ cfg.Joined join := fun joined => notPlain joined.1
  have notLinear := placed.not_linear finished.wf finished.free several
  have isLast : Last cfg st join := last_of_not_linear finished.wf notLinear
  have children := finished.children_short isLast placed.children
  constructor
  case type => exact finished.type_eq .basic (finished.free.regionType notLinear)
  case spans =>
    have spans : Spans (cfg.printed mask) st.graph (owner join) ([join].map Fin.val) := by
      refine finished.spans rfl rfl rfl notJoined isLast (by simp) placed.children ?_ ?_
      · rintro target inside
        exact behind target (Option.mem_toList.mp inside)
      · refine children.trans ?_
        cases next <;> rfl
    exact spans
  case parent => exact (finished.parent_perm notJoined).trans (placed.parent.map owner)
  case children => exact children

/-! ### Paths through a flow -/

theorem reaches_of_chain (free : cfg.LoopFree) {first : Fin n} {rest : List (Fin n)}
    (chain : (first :: rest).IsChain fun node next =>
      cfg.children node = [next] ∧ cfg.parent next = [node]) :
    Relation.ReflTransGen cfg.Forward first
      ((first :: rest).getLast (List.cons_ne_nil _ _)) := by
  induction rest generalizing first with
  | nil => exact .refl
  | cons second rest ih =>
      obtain ⟨⟨children, -⟩, chain⟩ := List.isChain_cons_cons.mp chain
      rw [List.getLast_cons_cons]
      exact .head (free.forward (by simp [children])) (ih chain)

theorem Line.Placed.reaches {line : Line (Fin n)} {pred : Option (Fin n)} {next : Fin n}
    (placed : line.Placed cfg mask pred (some next)) (free : cfg.LoopFree) :
    Relation.TransGen cfg.Forward line.first next := by
  have edge : cfg.Forward line.last next := free.forward (by simp [placed.children])
  exact .tail' (reaches_of_chain free placed.chain) edge

theorem HeaderPlaced.reaches {lead : Option (Line (Fin n))} {cond : Fin n} {pred : Option (Fin n)}
    {targets : List (Fin n)} (placed : HeaderPlaced cfg mask lead cond pred targets)
    (free : cfg.LoopFree) : Relation.ReflTransGen cfg.Forward (Flow.start lead cond) cond := by
  cases isLead : lead with
  | none => exact .refl
  | some line => exact ((placed.leadPlaced line isLead).reaches free).to_reflTransGen

theorem HeaderPlaced.start_parent {lead : Option (Line (Fin n))} {cond : Fin n}
    {pred : Option (Fin n)} {targets : List (Fin n)}
    (placed : HeaderPlaced cfg mask lead cond pred targets) :
    cfg.parent (Flow.start lead cond) = pred.toList := by
  cases isLead : lead with
  | none =>
      have parent := placed.parent
      rw [isLead] at parent
      exact parent
  | some line => exact (placed.leadPlaced line isLead).parent

theorem HeaderPlaced.lead_not_joined {lead : Option (Line (Fin n))} {cond : Fin n}
    {pred first exit : Option (Fin n)} {targets : List (Fin n)}
    (placed : HeaderPlaced cfg mask lead cond pred targets) (around : Around cfg first pred exit)
    {head : Fin n} (inside : head ∈ (lead.map Line.first).toList) : ¬ cfg.Joined head := by
  obtain ⟨line, isLead, rfl⟩ := Option.map_eq_some_iff.mp (Option.mem_toList.mp inside)
  exact around.not_joined (placed.leadPlaced line isLead).parent

namespace Flow

theorem enders_pos (flow : Flow (Fin n)) (pred : Fin n) : 1 ≤ (flow.enders pred).length := by
  induction flow generalizing pred with
  | done => exact Nat.le_refl _
  | block line => exact Nat.le_refl _
  | own lead cond body other join rest bodyIh otherIh restIh => exact restIh join
  | shared lead cond body other bodyIh otherIh =>
      rw [enders, List.length_append]
      exact Nat.le_trans (bodyIh cond) (Nat.le_add_right _ _)

theorem enders_several (body other : Flow (Fin n)) (cond : Fin n) :
    2 ≤ (body.enders cond ++ other.enders cond).length := by
  rw [List.length_append]
  have one := body.enders_pos cond
  have two := other.enders_pos cond
  omega

theorem Placed.first_parent {flow : Flow (Fin n)} {pred exit : Option (Fin n)}
    (placed : flow.Placed cfg mask pred exit) {first : Fin n} (starts : flow.first = some first) :
    cfg.parent first = pred.toList := by
  cases flow with
  | done => cases starts
  | block line =>
      cases starts
      exact Line.Placed.parent placed
  | own lead cond body other join rest =>
      cases starts
      exact placed.1.start_parent
  | shared lead cond body other =>
      cases starts
      obtain ⟨join, -, header, -⟩ := placed
      exact header.start_parent

/-- The first node of a flow leads to its exit. -/
theorem Placed.reaches (free : cfg.LoopFree) {flow : Flow (Fin n)} {pred : Option (Fin n)}
    {exit first : Fin n} (placed : flow.Placed cfg mask pred (some exit))
    (starts : flow.first = some first) : Relation.TransGen cfg.Forward first exit := by
  induction flow generalizing pred exit first with
  | done => cases starts
  | block line =>
      cases starts
      exact Line.Placed.reaches placed free
  | own lead cond body other join rest bodyIh otherIh restIh =>
      cases starts
      obtain ⟨header, isSome, bodyPlaced, -, joinPlaced, restPlaced⟩ := placed
      obtain ⟨inner, second, isInner, -, targets⟩ := targets_eq other join isSome
      have enters : cfg.Forward cond inner := free.forward (by simp [header.children, targets])
      have toJoin := (Relation.ReflTransGen.tail (header.reaches free) enters).trans
        (bodyIh bodyPlaced isInner).to_reflTransGen
      cases isRest : rest.first with
      | none =>
          have leaves : cfg.Forward join exit :=
            free.forward (by simp [joinPlaced.children, entry, isRest])
          exact .tail' toJoin leaves
      | some next =>
          have leaves : cfg.Forward join next :=
            free.forward (by simp [joinPlaced.children, entry, isRest])
          exact (Relation.TransGen.tail' toJoin leaves).trans (restIh restPlaced isRest)
  | shared lead cond body other bodyIh otherIh =>
      cases starts
      obtain ⟨join, isJoin, header, isSome, bodyPlaced, -⟩ := placed
      cases isJoin
      obtain ⟨inner, second, isInner, -, targets⟩ := targets_eq other exit isSome
      have enters : cfg.Forward cond inner := free.forward (by simp [header.children, targets])
      exact Relation.TransGen.trans_right (.tail (header.reaches free) enters)
        (bodyIh bodyPlaced isInner)

/-- The two ways behind a branch start regions, and the first one is visited first. -/
theorem ways_order (finished : Finished cfg st owner trace) {body other : Flow (Fin n)}
    {cond join first second : Fin n} (children : cfg.children cond = [first, second])
    (isFirst : body.first = some first) (isSecond : other.entry (some join) = some second)
    (bodyPlaced : body.Placed cfg mask (some cond) (some join))
    (otherPlaced : other.Placed cfg mask (some cond) (some join)) (notPlain : ¬ cfg.Plain join) :
    ¬ cfg.Joined first ∧ ¬ cfg.Joined second ∧
      st.visited.idxOf first < st.visited.idxOf second := by
  have notLinear := finished.wf.branch_not_linear children
  have around (way : Flow (Fin n)) : Around cfg way.first (some cond) (some join) := by
    refine .after notLinear ?_
    rintro node ⟨⟩
    exact notPlain
  have firstParent := bodyPlaced.first_parent isFirst
  refine ⟨(around body).not_joined firstParent, ?_⟩
  cases isOther : other.first with
  | none =>
      rw [entry, isOther] at isSecond
      cases isSecond
      exact ⟨fun joined => notPlain joined.1,
        finished.idxOf_lt (bodyPlaced.reaches finished.free isFirst)⟩
  | some start =>
      rw [entry, isOther] at isSecond
      cases isSecond
      have secondParent := otherPlaced.first_parent isOther
      exact ⟨(around other).not_joined secondParent,
        finished.own_children_lt children firstParent secondParent⟩

/-- The nodes that go to the exit end the regions that do. -/
theorem Placed.toCode_enders (finished : Finished cfg st owner trace) {flow : Flow (Fin n)}
    {pred : Fin n} {exit : Option (Fin n)} (placed : flow.Placed cfg mask (some pred) exit)
    (around : Around cfg flow.first (some pred) exit) :
    (flow.toCode owner).enders (owner pred) = (flow.enders pred).map owner := by
  induction flow generalizing pred exit with
  | done => rfl
  | block line =>
      exact congrArg (fun region => [region]) (Line.Placed.owner_last placed finished around).symm
  | own lead cond body other join rest bodyIh otherIh restIh =>
      obtain ⟨header, isSome, bodyPlaced, otherPlaced, joinPlaced, restPlaced⟩ := placed
      have notLinear := joinPlaced.not_linear finished.wf finished.free (enders_several _ _ _)
      exact restIh restPlaced (.after notLinear around.behind)
  | shared lead cond body other bodyIh otherIh =>
      obtain ⟨join, isJoin, header, isSome, bodyPlaced, otherPlaced⟩ := placed
      obtain ⟨first, second, -, -, targets⟩ := targets_eq other join isSome
      have notLinear := finished.wf.branch_not_linear (header.children.trans targets)
      have ways (way : Flow (Fin n)) : Around cfg way.first (some cond) exit :=
        .after notLinear around.behind
      exact (congrArg₂ (· ++ ·) (bodyIh bodyPlaced (ways body)) (otherIh otherPlaced (ways other))).trans
        List.map_append.symm

/-- The region graph has the regions of the flow. -/
theorem Placed.toCode (finished : Finished cfg st owner trace) {flow : Flow (Fin n)}
    {pred exit : Option (Fin n)} (placed : flow.Placed cfg mask pred exit)
    (around : Around cfg flow.first pred exit) :
    (flow.toCode owner).Placed (cfg.printed mask) st.graph (pred.map owner) (exit.map owner) := by
  induction flow generalizing pred exit with
  | done => trivial
  | block line => exact Line.Placed.toBlock placed finished around
  | own lead cond body other join rest bodyIh otherIh restIh =>
      obtain ⟨header, isSome, bodyPlaced, otherPlaced, joinPlaced, restPlaced⟩ := placed
      obtain ⟨first, second, isFirst, isSecond, targets⟩ := targets_eq other join isSome
      rw [targets] at header
      have several := enders_several body other cond
      have notPlain := joinPlaced.not_plain several
      have notLinear := joinPlaced.not_linear finished.wf finished.free several
      have branches := finished.wf.branch_not_linear header.children
      have ways (way : Flow (Fin n)) : Around cfg way.first (some cond) (some join) := by
        refine .after branches ?_
        rintro node ⟨⟩
        exact notPlain
      have behind : Around cfg rest.first (some join) exit := .after notLinear around.behind
      obtain ⟨head, head', less⟩ := ways_order finished header.children isFirst isSecond
        bodyPlaced otherPlaced notPlain
      refine ⟨?_, ?_, bodyIh bodyPlaced (ways body), otherIh otherPlaced (ways other), ?_,
        restIh restPlaced behind⟩
      · rw [toCode_targets, targets]
        exact header.toBranch finished around.before (fun none => Option.some.inj (around.start none))
          head head' less
      · rw [toCode_first, Option.isSome_map, isSome]
      · have enders (way : Flow (Fin n)) (placed : way.Placed cfg mask (some cond) (some join)) :
            (way.toCode owner).enders (toBranch owner lead cond).header =
              (way.enders cond).map owner :=
          placed.toCode_enders finished (ways way)
        rw [enders body bodyPlaced, enders other otherPlaced, ← List.map_append, toCode_entry]
        refine joinPlaced.toJoin finished several fun node isNext => ?_
        cases isRest : rest.first with
        | none =>
            rw [entry, isRest] at isNext
            exact fun joined => around.behind node isNext joined.1
        | some next =>
            rw [entry, isRest] at isNext
            cases isNext
            exact behind.not_joined (restPlaced.first_parent isRest)
  | shared lead cond body other bodyIh otherIh =>
      obtain ⟨join, rfl, header, isSome, bodyPlaced, otherPlaced⟩ := placed
      obtain ⟨first, second, isFirst, isSecond, targets⟩ := targets_eq other join isSome
      rw [targets] at header
      have branches := finished.wf.branch_not_linear header.children
      have ways (way : Flow (Fin n)) : Around cfg way.first (some cond) (some join) :=
        .after branches around.behind
      obtain ⟨head, head', less⟩ := ways_order finished header.children isFirst isSecond
        bodyPlaced otherPlaced (around.behind join rfl)
      refine ⟨owner join, rfl, ?_, ?_, bodyIh bodyPlaced (ways body),
        otherIh otherPlaced (ways other)⟩
      · rw [toCode_targets, targets]
        exact header.toBranch finished around.before (fun none => Option.some.inj (around.start none))
          head head' less
      · rw [toCode_first, Option.isSome_map, isSome]

/-! ### The whole program -/

/-- The starts of the regions of a flow. -/
def heads : Flow (Fin n) → List (Fin n)
  | .done => []
  | .block line => [line.first]
  | .own lead cond body other join rest =>
      (lead.map Line.first).toList ++ cond :: (body.heads ++ other.heads) ++ join :: rest.heads
  | .shared lead cond body other =>
      (lead.map Line.first).toList ++ cond :: (body.heads ++ other.heads)

theorem toCode_regions (flow : Flow (Fin n)) :
    (flow.toCode owner).regions = flow.heads.map owner := by
  have leads (lead : Option (Line (Fin n))) (cond : Fin n) :
      (toBranch owner lead cond).leadRegions = (lead.map Line.first).toList.map owner := by
    cases lead <;> rfl
  induction flow with
  | done => rfl
  | block line => rfl
  | own lead cond body other join rest bodyIh otherIh restIh =>
      simp only [toCode, Code.regions, heads, leads, bodyIh, otherIh, restIh, List.map_append,
        List.map_cons]
      rfl
  | shared lead cond body other bodyIh otherIh =>
      simp only [toCode, Code.regions, heads, leads, bodyIh, otherIh, List.map_append,
        List.map_cons]
      rfl

theorem heads_sublist (flow : Flow (Fin n)) : flow.heads.Sublist flow.nodes := by
  have leads (lead : Option (Line (Fin n))) :
      (lead.map Line.first).toList.Sublist (leadNodes lead) := by
    cases lead with
    | none => exact List.Sublist.refl _
    | some line => exact List.singleton_sublist.mpr List.mem_cons_self
  induction flow with
  | done => exact List.Sublist.refl _
  | block line => exact List.singleton_sublist.mpr List.mem_cons_self
  | own lead cond body other join rest bodyIh otherIh restIh =>
      exact ((leads lead).append ((bodyIh.append otherIh).cons_cons cond)).append
        (restIh.cons_cons join)
  | shared lead cond body other bodyIh otherIh =>
      exact (leads lead).append ((bodyIh.append otherIh).cons_cons cond)

/-- The starts of regions are not put behind other regions. -/
theorem Placed.heads_not_joined (wf : cfg.WellFormed) (free : cfg.LoopFree) {flow : Flow (Fin n)}
    {pred exit : Option (Fin n)} (placed : flow.Placed cfg mask pred exit)
    (around : Around cfg flow.first pred exit) : ∀ head ∈ flow.heads, ¬ cfg.Joined head := by
  induction flow generalizing pred exit with
  | done => exact nofun
  | block line =>
      rintro head inside
      rw [List.mem_singleton.mp inside]
      exact around.not_joined (Line.Placed.parent placed)
  | own lead cond body other join rest bodyIh otherIh restIh =>
      obtain ⟨header, isSome, bodyPlaced, otherPlaced, joinPlaced, restPlaced⟩ := placed
      obtain ⟨first, second, -, -, targets⟩ := targets_eq other join isSome
      have several := enders_several body other cond
      have notPlain := joinPlaced.not_plain several
      have notLinear := joinPlaced.not_linear wf free several
      have branches := wf.branch_not_linear (header.children.trans targets)
      have ways (way : Flow (Fin n)) : Around cfg way.first (some cond) (some join) := by
        refine .after branches ?_
        rintro node ⟨⟩
        exact notPlain
      rintro head inside
      simp only [heads, List.mem_append, List.mem_cons] at inside
      rcases inside with (inside | rfl | inside | inside) | rfl | inside
      · exact header.lead_not_joined around inside
      · exact fun joined => branches (.inr joined.1)
      · exact bodyIh bodyPlaced (ways body) head inside
      · exact otherIh otherPlaced (ways other) head inside
      · exact fun joined => notPlain joined.1
      · exact restIh restPlaced (.after notLinear around.behind) head inside
  | shared lead cond body other bodyIh otherIh =>
      obtain ⟨join, rfl, header, isSome, bodyPlaced, otherPlaced⟩ := placed
      obtain ⟨first, second, -, -, targets⟩ := targets_eq other join isSome
      have branches := wf.branch_not_linear (header.children.trans targets)
      have ways (way : Flow (Fin n)) : Around cfg way.first (some cond) (some join) :=
        .after branches around.behind
      rintro head inside
      simp only [heads, List.mem_append, List.mem_cons] at inside
      rcases inside with inside | rfl | inside | inside
      · exact header.lead_not_joined around inside
      · exact fun joined => branches (.inr joined.1)
      · exact bodyIh bodyPlaced (ways body) head inside
      · exact otherIh otherPlaced (ways other) head inside

end Flow

theorem Structured.around {flow : Flow (Fin n)} (structured : Structured cfg mask flow) :
    Around cfg flow.first none none :=
  ⟨nofun, fun _ => structured.first, nofun⟩

/-- The region graph that is built for a flow is the one of a program. -/
theorem Structured.program {flow : Flow (Fin n)} (structured : Structured cfg mask flow)
    (finished : Finished cfg st owner trace) :
    Program (cfg.printed mask) st.graph (flow.toCode owner) (owner cfg.start) := by
  have placed := structured.placed
  have around := structured.around
  have starts : ¬ cfg.Joined cfg.start := finished.wf.start_not_joined
  constructor
  case placed => exact placed.toCode finished around
  case entry => rw [Flow.toCode_first, structured.first]; rfl
  case start => rw [State.graph_start, finished.inv.head _ (finished.all _) starts]; rfl
  case linear =>
    exact finished.type_eq .linear ((Cfg.regionType_eq_linear_iff _).mpr (.inl rfl))
  case regions =>
    rw [Flow.toCode_regions]
    refine List.Nodup.map_on ?_ (flow.heads_sublist.nodup structured.nodes)
    rintro first inside second inside' same
    have notJoined := placed.heads_not_joined finished.wf finished.free around
    exact finished.inv.head_inj (finished.all first) (notJoined first inside)
      (finished.all second) (notJoined second inside') same
  case inUse =>
    rintro region inside
    rw [Flow.toCode_regions] at inside
    obtain ⟨head, -, rfl⟩ := List.mem_map.mp inside
    exact finished.inv.live head (finished.all head)
  case nodes =>
    rw [Flow.toCode_nodes]
    exact structured.nodes.map Fin.val_injective

/-! ## Statements -/

theorem Line.toBlock_statements (owner : Fin n → RegionId) (line : Line (Fin n)) :
    (line.toBlock owner).statements (cfg.printed mask) =
      (line.statements cfg mask).map Fin.val := by
  unfold Regions.Block.statements Line.statements Line.toBlock
  rw [List.filter_map]
  congr 1
  refine List.filter_congr fun node _ => ?_
  have same : (node.val == cfg.start.val) = (node == cfg.start) := by
    rw [Bool.eq_iff_iff]
    simp [Fin.ext_iff]
  simp only [Function.comp, Regions.Cfg.isStatement, Cfg.printed_node]
  rw [show (cfg.printed mask).root = cfg.start.val from rfl, same]

theorem Flow.toCode_statements (owner : Fin n → RegionId) (flow : Flow (Fin n)) :
    (flow.toCode owner).statements (cfg.printed mask) =
      (flow.statements cfg mask).map Fin.val := by
  have leads (lead : Option (Line (Fin n))) (cond : Fin n) :
      (toBranch owner lead cond).leadStatements (cfg.printed mask) =
        ((lead.map (Line.statements cfg mask)).getD []).map Fin.val := by
    cases lead with
    | none => rfl
    | some line => exact line.toBlock_statements owner
  induction flow with
  | done => rfl
  | block line => exact line.toBlock_statements owner
  | own lead cond body other join rest bodyIh otherIh restIh =>
      simp only [toCode, Code.statements, statements, leads, bodyIh, otherIh, restIh, List.map_append]
  | shared lead cond body other bodyIh otherIh =>
      simp only [toCode, Code.statements, statements, leads, bodyIh, otherIh, List.map_append]

theorem Flow.Mergeable.toCode {flow : Flow (Fin n)} {inner : Bool}
    (mergeable : flow.Mergeable cfg mask inner) :
    (flow.toCode owner).Mergeable (cfg.printed mask) inner := by
  have prints {line : Line (Fin n)} (some : line.statements cfg mask ≠ []) :
      (line.toBlock owner).statements (cfg.printed mask) ≠ [] := by
    rw [Line.toBlock_statements]
    exact fun none => some (List.map_eq_nil_iff.mp none)
  have leads {lead : Option (Line (Fin n))}
      (some : ∀ line, lead = .some line → line.statements cfg mask ≠ []) :
      ∀ block, lead.map (Line.toBlock owner) = .some block →
        block.statements (cfg.printed mask) ≠ [] := by
    rintro block isBlock
    obtain ⟨line, isLead, rfl⟩ := Option.map_eq_some_iff.mp isBlock
    exact prints (some line isLead)
  induction flow generalizing inner with
  | done => trivial
  | block line => exact prints mergeable
  | own lead cond body other join rest bodyIh otherIh restIh =>
      obtain ⟨lines, closes, bodyMergeable, otherMergeable, restMergeable⟩ := mergeable
      refine ⟨leads lines, fun noLead noRest => ?_, bodyIh bodyMergeable, otherIh otherMergeable,
        restIh restMergeable⟩
      rw [toCode_first] at noRest
      exact closes (Option.map_eq_none_iff.mp noLead) (Option.map_eq_none_iff.mp noRest)
  | shared lead cond body other bodyIh otherIh =>
      obtain ⟨lines, isSome, bodyMergeable, otherMergeable⟩ := mergeable
      refine ⟨leads lines, ?_, bodyIh bodyMergeable, otherIh otherMergeable⟩
      exact (Option.isSome_map ..).trans isSome

end Placed

/-- The region graph of a flow is merged into one region that prints its statements. -/
theorem Structured.prints {cfg : Cfg (Fin n)} {mask : Fin n → Bool} {flow : Flow (Fin n)}
    {st : State (Fin n)} {owner : Fin n → RegionId} {trace : RegionId → List (Fin n)}
    (structured : Structured cfg mask flow) (mergeable : flow.Mergeable cfg mask false)
    (finished : Finished cfg st owner trace) :
    ∃ after result out, Settles (processRegionGraph st.graph (owner cfg.start)) (after, result) ∧
      Settles (fun fuel => makeOutputFromRegion (cfg.printed mask) after fuel result) out ∧
      Prints (cfg.printed mask) ((flow.statements cfg mask).map Fin.val) out := by
  have program := structured.program finished
  obtain ⟨after, result, search, shows⟩ := program.collapses mergeable.toCode
  have ends : Settles (processRegionGraph st.graph (owner cfg.start)) (after, result) :=
    Settles.map (fun done : DfsState × RegionId => (done.1.graph, done.2)) search
  have prints := program.prints
  rw [Flow.toCode_statements] at prints
  exact ⟨after, result, _, ends, shows, prints⟩

/-- The region of the start of a finished graph. -/
theorem Finished.root {V : Type} [DecidableEq V] {cfg : Cfg V} {st : State V}
    {owner : V → RegionId} {trace : RegionId → List V} (finished : Finished cfg st owner trace) :
    st.starts cfg.start = some (owner cfg.start) :=
  finished.inv.starts cfg.start (finished.all _) finished.wf.start_not_joined

/-- `a; if (2) { b } c`, in the nodes 1, 3 and 5. -/
def ifCfg : Cfg (Fin 6) where
  start := 0
  children := ![[1], [2], [3, 4], [4], [5], []]
  parent := ![[], [0], [1], [2], [2, 3], [4]]
  loops := []
  backEdges := []

def ifFlow : Flow (Fin 6) := .own (some ⟨0, [1]⟩) 2 (.block ⟨3, []⟩) .done 4 (.block ⟨5, []⟩)

theorem ifCfg_wellFormed : ifCfg.WellFormed := by
  refine ⟨by decide, by decide, by decide, by decide, ?_, Cfg.acyclic_of_lt (by decide)⟩
  have one : Relation.ReflTransGen ifCfg.Forward 0 1 := .single (by decide)
  have two : Relation.ReflTransGen ifCfg.Forward 0 2 := one.tail (by decide)
  have four : Relation.ReflTransGen ifCfg.Forward 0 4 := two.tail (by decide)
  intro v
  fin_cases v
  · exact .refl
  · exact one
  · exact two
  · exact two.tail (by decide)
  · exact four
  · exact four.tail (by decide)

theorem ifCfg_structured : Structured ifCfg (fun _ => false) ifFlow := by
  have lead : Line.Placed ifCfg (fun _ => false) ⟨0, [1]⟩ none (some 2) :=
    ⟨by decide, by decide, rfl, rfl⟩
  have header : HeaderPlaced ifCfg (fun _ => false) (some ⟨0, [1]⟩) 2 none [3, 4] :=
    ⟨by rintro line ⟨⟩; exact lead, rfl, rfl⟩
  have body : Line.Placed ifCfg (fun _ => false) ⟨3, []⟩ (some 2) (some 4) :=
    ⟨by decide, by decide, rfl, rfl⟩
  have rest : Line.Placed ifCfg (fun _ => false) ⟨5, []⟩ (some 4) none :=
    ⟨by decide, by decide, rfl, rfl⟩
  have join : JoinPlaced ifCfg 4 [3, 2] (some 5) := ⟨.swap .., rfl⟩
  exact ⟨ifCfg_wellFormed, ⟨rfl, rfl⟩, ⟨header, rfl, body, trivial, join, rest⟩, rfl, by decide⟩

end OpenCLDecompiler.Regions.Build
