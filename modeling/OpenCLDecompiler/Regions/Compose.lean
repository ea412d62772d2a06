import OpenCLDecompiler.Regions.Flow

/-!
# Composing flows

A flow is put behind a line or behind a flow that is closed, and a join closes
the statements of a flow that are still open.
-/

namespace OpenCLDecompiler.Regions.Build

variable {V : Type}

def Line.append (first second : Line V) : Line V := ⟨first.first, first.rest ++ second.nodes⟩

namespace Flow

/-- The line at the start of a flow, if it starts with one. -/
def lead : Flow V → Option (Line V)
  | .done => none
  | .block line => some line
  | .own lead _ _ _ _ _ => lead
  | .shared lead _ _ _ => lead

/-- The flow behind a line. -/
def behind (line : Line V) : Flow V → Flow V
  | .done => .block line
  | .block next => .block (line.append next)
  | .own lead cond body other join rest =>
      .own (some (lead.elim line line.append)) cond body other join rest
  | .shared lead cond body other => .shared (some (lead.elim line line.append)) cond body other

/-- A flow behind a flow that is not open. -/
def append : Flow V → Flow V → Flow V
  | .done, flow => flow
  | .block line, flow => flow.behind line
  | .own lead cond body other join rest, flow =>
      .own lead cond body other join (rest.append flow)
  | .shared lead cond body other, _ => .shared lead cond body other

/-- The last statement has no join of its own. -/
def isOpen : Flow V → Bool
  | .done => false
  | .block _ => false
  | .own _ _ _ _ _ rest => rest.isOpen
  | .shared _ _ _ _ => true

/-- The nodes of the lines of a flow. -/
def lineNodes : Flow V → List V
  | .done => []
  | .block line => line.nodes
  | .own lead _ body other _ rest =>
      leadNodes lead ++ (body.lineNodes ++ other.lineNodes) ++ rest.lineNodes
  | .shared lead _ body other => leadNodes lead ++ (body.lineNodes ++ other.lineNodes)

/-- An open flow gets its join. -/
def close (join : V) : Flow V → Flow V
  | .done => .done
  | .block line => .block line
  | .own lead cond body other inner rest => .own lead cond body other inner (rest.close join)
  | .shared lead cond body other => .own lead cond body other join .done

end Flow

/-! ## Nodes and ends -/

theorem Line.append_nodes (first second : Line V) :
    (first.append second).nodes = first.nodes ++ second.nodes := rfl

theorem Line.append_last (first second : Line V) : (first.append second).last = second.last := by
  unfold Line.last
  simp only [Line.append_nodes]
  exact List.getLast_append_of_ne_nil _ (List.cons_ne_nil _ _)

namespace Flow

theorem behind_first (line : Line V) (flow : Flow V) : (flow.behind line).first = some line.first := by
  cases flow with
  | done => rfl
  | block next => rfl
  | own lead cond body other join rest => cases lead <;> rfl
  | shared lead cond body other => cases lead <;> rfl

theorem behind_nodes (line : Line V) (flow : Flow V) :
    (flow.behind line).nodes = line.nodes ++ flow.nodes := by
  cases flow with
  | done => exact (List.append_nil _).symm
  | block next => rfl
  | own lead cond body other join rest =>
      cases lead <;> simp [behind, nodes, leadNodes, Line.append_nodes]
  | shared lead cond body other =>
      cases lead <;> simp [behind, nodes, leadNodes, Line.append_nodes]

theorem behind_lineNodes (line : Line V) (flow : Flow V) :
    (flow.behind line).lineNodes = line.nodes ++ flow.lineNodes := by
  cases flow with
  | done => exact (List.append_nil _).symm
  | block next => rfl
  | own lead cond body other join rest =>
      cases lead <;> simp [behind, lineNodes, leadNodes, Line.append_nodes]
  | shared lead cond body other =>
      cases lead <;> simp [behind, lineNodes, leadNodes, Line.append_nodes]

theorem behind_enders (line : Line V) (flow : Flow V) (pred : V) :
    (flow.behind line).enders pred = flow.enders line.last := by
  cases flow with
  | done => rfl
  | block next => exact congrArg (fun last => [last]) (line.append_last next)
  | own lead cond body other join rest => rfl
  | shared lead cond body other => rfl

theorem behind_isOpen (line : Line V) (flow : Flow V) : (flow.behind line).isOpen = flow.isOpen := by
  cases flow <;> rfl

theorem append_nodes {flow : Flow V} (closed : flow.isOpen = false) (next : Flow V) :
    (flow.append next).nodes = flow.nodes ++ next.nodes := by
  induction flow with
  | done => rfl
  | block line => exact behind_nodes line next
  | own lead cond body other join rest bodyIh otherIh restIh =>
      simp only [append, nodes, restIh closed, List.append_assoc, List.cons_append]
  | shared lead cond body other bodyIh otherIh => cases closed

theorem append_lineNodes {flow : Flow V} (closed : flow.isOpen = false) (next : Flow V) :
    (flow.append next).lineNodes = flow.lineNodes ++ next.lineNodes := by
  induction flow with
  | done => rfl
  | block line => exact behind_lineNodes line next
  | own lead cond body other join rest bodyIh otherIh restIh =>
      simp only [append, lineNodes, restIh closed, List.append_assoc]
  | shared lead cond body other bodyIh otherIh => cases closed

theorem append_isOpen {flow : Flow V} (closed : flow.isOpen = false) (next : Flow V) :
    (flow.append next).isOpen = next.isOpen := by
  induction flow with
  | done => rfl
  | block line => exact behind_isOpen line next
  | own lead cond body other join rest bodyIh otherIh restIh => exact restIh closed
  | shared lead cond body other bodyIh otherIh => cases closed

/-- A flow that is not open has one node that goes to its exit. -/
theorem append_enders {flow : Flow V} (closed : flow.isOpen = false) (next : Flow V) {pred last : V}
    (ends : flow.enders pred = [last]) : (flow.append next).enders pred = next.enders last := by
  induction flow generalizing pred with
  | done =>
      cases ends
      rfl
  | block line =>
      cases ends
      exact behind_enders line next pred
  | own lead cond body other join rest bodyIh otherIh restIh => exact restIh closed ends
  | shared lead cond body other bodyIh otherIh => cases closed

theorem enders_of_closed {flow : Flow V} (closed : flow.isOpen = false) (pred : V) :
    ∃ last, flow.enders pred = [last] := by
  induction flow generalizing pred with
  | done => exact ⟨pred, rfl⟩
  | block line => exact ⟨line.last, rfl⟩
  | own lead cond body other join rest bodyIh otherIh restIh => exact restIh closed join
  | shared lead cond body other bodyIh otherIh => cases closed

theorem append_first {flow : Flow V} {first : V} (starts : flow.first = some first)
    (next : Flow V) : (flow.append next).first = some first := by
  cases flow with
  | done => cases starts
  | block line => exact (behind_first line next).trans starts
  | own lead cond body other join rest => exact starts
  | shared lead cond body other => exact starts

/-- The first line of a flow starts with the flow. -/
theorem first_of_lead {flow : Flow V} {line : Line V} (isLead : flow.lead = some line) :
    flow.first = some line.first := by
  cases flow with
  | done => cases isLead
  | block other =>
      cases isLead
      rfl
  | own lead cond body other join rest =>
      have same : lead = some line := isLead
      rw [same]
      rfl
  | shared lead cond body other =>
      have same : lead = some line := isLead
      rw [same]
      rfl

theorem append_lead {flow next : Flow V} {first : V} (starts : flow.first = some first)
    {line : Line V} (isLead : (flow.append next).lead = some line) :
    ∃ old, flow.lead = some old ∧ old.first = line.first := by
  cases flow with
  | done => cases starts
  | block old =>
      refine ⟨old, rfl, ?_⟩
      have same := first_of_lead isLead
      rw [append, behind_first] at same
      exact Option.some.inj same
  | own lead cond body other join rest => exact ⟨line, isLead, rfl⟩
  | shared lead cond body other => exact ⟨line, isLead, rfl⟩

theorem append_lead_isSome {flow : Flow V} (starts : flow.lead.isSome = true) (next : Flow V) :
    (flow.append next).lead.isSome = true := by
  cases flow with
  | done => cases starts
  | block line => cases next <;> rfl
  | own lead cond body other join rest => exact starts
  | shared lead cond body other => exact starts

theorem close_nodes {flow : Flow V} (isOpen : flow.isOpen = true) (join : V) :
    (flow.close join).nodes = flow.nodes ++ [join] := by
  induction flow with
  | done => cases isOpen
  | block line => cases isOpen
  | own lead cond body other inner rest bodyIh otherIh restIh =>
      simp only [close, nodes, restIh isOpen, List.append_assoc, List.cons_append]
  | shared lead cond body other bodyIh otherIh => rfl

theorem close_lineNodes (flow : Flow V) (join : V) : (flow.close join).lineNodes = flow.lineNodes := by
  induction flow with
  | done => rfl
  | block line => rfl
  | own lead cond body other inner rest bodyIh otherIh restIh =>
      simp only [close, lineNodes, restIh]
  | shared lead cond body other bodyIh otherIh => exact List.append_nil _

theorem close_isOpen (flow : Flow V) (join : V) : (flow.close join).isOpen = false := by
  induction flow with
  | done => rfl
  | block line => rfl
  | own lead cond body other inner rest bodyIh otherIh restIh => exact restIh
  | shared lead cond body other bodyIh otherIh => rfl

theorem close_enders {flow : Flow V} (isOpen : flow.isOpen = true) (join pred : V) :
    (flow.close join).enders pred = [join] := by
  induction flow generalizing pred with
  | done => cases isOpen
  | block line => cases isOpen
  | own lead cond body other inner rest bodyIh otherIh restIh => exact restIh isOpen inner
  | shared lead cond body other bodyIh otherIh => rfl

theorem close_first (flow : Flow V) (join : V) : (flow.close join).first = flow.first := by
  cases flow <;> rfl

theorem close_lead (flow : Flow V) (join : V) : (flow.close join).lead = flow.lead := by
  cases flow <;> rfl

theorem first_of_isOpen {flow : Flow V} (isOpen : flow.isOpen = true) :
    ∃ first, flow.first = some first := by
  cases flow with
  | done => cases isOpen
  | block line => cases isOpen
  | own lead cond body other inner rest => exact ⟨_, rfl⟩
  | shared lead cond body other => exact ⟨_, rfl⟩

end Flow

/-! ## Graphs -/

section Placed

variable {cfg : Cfg V} {mask : V → Bool}

theorem Line.Placed.append {first second : Line V} {pred next : Option V}
    (head : first.Placed cfg mask pred (some second.first))
    (tail : second.Placed cfg mask (some first.last) next) (inner : mask second.first = false) :
    (first.append second).Placed cfg mask pred next := by
  constructor
  case chain =>
    refine List.isChain_append.mpr ⟨head.chain, tail.chain, ?_⟩
    rintro last isLast start isStart
    cases (List.getLast?_eq_some_getLast (List.cons_ne_nil first.first first.rest)).symm.trans isLast
    cases isStart
    exact ⟨head.children, tail.parent⟩
  case masks =>
    rintro node inside
    rcases List.mem_append.mp inside with inFirst | inSecond
    · exact head.masks node inFirst
    · rcases List.mem_cons.mp inSecond with rfl | inRest
      · exact inner
      · exact tail.masks node inRest
  case parent => exact head.parent
  case children =>
    rw [Line.append_last]
    exact tail.children

theorem HeaderPlaced.behind {line : Line V} {lead : Option (Line V)} {cond : V} {pred : Option V}
    {targets : List V}
    (head : line.Placed cfg mask pred (some (Flow.start lead cond)))
    (placed : HeaderPlaced cfg mask lead cond (some line.last) targets)
    (inner : ∀ next, lead = some next → mask next.first = false) :
    HeaderPlaced cfg mask (some (lead.elim line line.append)) cond pred targets := by
  cases isLead : lead with
  | none =>
      rw [isLead] at head
      have parent := placed.parent
      rw [isLead] at parent
      refine ⟨?_, parent, placed.children⟩
      rintro next ⟨⟩
      exact head
  | some second =>
      rw [isLead] at head
      have tail := placed.leadPlaced second isLead
      have parent := placed.parent
      rw [isLead] at parent
      refine ⟨?_, ?_, placed.children⟩
      · rintro next ⟨⟩
        exact head.append tail (inner second isLead)
      · rw [parent]
        exact congrArg (fun last => [last]) (line.append_last second).symm

namespace Flow

/-- A line in front of a flow. -/
theorem Placed.behind {line : Line V} {flow : Flow V} {pred exit : Option V}
    (head : line.Placed cfg mask pred (flow.entry exit))
    (placed : flow.Placed cfg mask (some line.last) exit)
    (inner : ∀ next, flow.lead = some next → mask next.first = false) :
    (flow.behind line).Placed cfg mask pred exit := by
  cases flow with
  | done => exact head
  | block next => exact Line.Placed.append head placed (inner next rfl)
  | own lead cond body other join rest => exact ⟨placed.1.behind head inner, placed.2⟩
  | shared lead cond body other =>
      obtain ⟨join, isExit, header, ways⟩ := placed
      exact ⟨join, isExit, header.behind head inner, ways⟩

theorem append_entry (flow next : Flow V) (exit : Option V) :
    (flow.append next).entry exit = flow.entry (next.entry exit) := by
  unfold entry
  cases flow with
  | done => rfl
  | block line => rw [append, behind_first]; rfl
  | own lead cond body other join rest => rfl
  | shared lead cond body other => rfl

/-- A flow behind a flow that is not open. -/
theorem Placed.append {flow next : Flow V} {pred last : V} {exit : Option V}
    (closed : flow.isOpen = false)
    (head : flow.Placed cfg mask (some pred) (next.entry exit))
    (ends : flow.enders pred = [last]) (tail : next.Placed cfg mask (some last) exit)
    (inner : ∀ line, next.lead = some line → mask line.first = false) :
    (flow.append next).Placed cfg mask (some pred) exit := by
  induction flow generalizing pred with
  | done =>
      cases ends
      exact tail
  | block line =>
      cases ends
      exact Placed.behind head tail inner
  | own lead cond body other join rest bodyIh otherIh restIh =>
      obtain ⟨header, isSome, bodyPlaced, otherPlaced, joinPlaced, restPlaced⟩ := head
      refine ⟨header, isSome, bodyPlaced, otherPlaced, ⟨joinPlaced.parent, ?_⟩,
        restIh closed restPlaced ends⟩
      rw [joinPlaced.children, append_entry]
  | shared lead cond body other bodyIh otherIh => cases closed

/-- The join of an open flow. -/
theorem Placed.close {flow : Flow V} {pred join : V} {exit : Option V}
    (isOpen : flow.isOpen = true) (placed : flow.Placed cfg mask (some pred) (some join))
    (closes : JoinPlaced cfg join (flow.enders pred) exit) :
    (flow.close join).Placed cfg mask (some pred) exit := by
  induction flow generalizing pred with
  | done => cases isOpen
  | block line => cases isOpen
  | own lead cond body other inner rest bodyIh otherIh restIh =>
      obtain ⟨header, isSome, bodyPlaced, otherPlaced, joinPlaced, restPlaced⟩ := placed
      refine ⟨header, isSome, bodyPlaced, otherPlaced, ⟨joinPlaced.parent, ?_⟩,
        restIh isOpen restPlaced closes⟩
      have restOpen : rest.isOpen = true := isOpen
      obtain ⟨first, starts⟩ := first_of_isOpen restOpen
      rw [joinPlaced.children]
      simp only [entry, close_first, starts, Option.some_or]
  | shared lead cond body other bodyIh otherIh =>
      obtain ⟨exit', isExit, header, isSome, bodyPlaced, otherPlaced⟩ := placed
      cases isExit
      exact ⟨header, isSome, bodyPlaced, otherPlaced, closes, trivial⟩

end Flow

/-- A node of a line has one child, unless it is the last one. -/
theorem Line.Placed.short {line : Line V} {pred next : Option V}
    (placed : line.Placed cfg mask pred next) :
    ∀ node ∈ line.nodes, (cfg.children node).length ≤ 1 := by
  have ends : (cfg.children line.last).length ≤ 1 := by
    rw [placed.children]
    cases next <;> simp
  have chain := placed.chain
  clear placed
  obtain ⟨first, rest⟩ := line
  change (first :: rest).IsChain _ at chain
  change (cfg.children ((first :: rest).getLast (List.cons_ne_nil _ _))).length ≤ 1 at ends
  change ∀ node ∈ first :: rest, _
  induction rest generalizing first with
  | nil =>
      rintro node inside
      rw [List.mem_singleton.mp inside]
      exact ends
  | cons second rest ih =>
      obtain ⟨⟨single, -⟩, chain⟩ := List.isChain_cons_cons.mp chain
      rw [List.getLast_cons_cons] at ends
      rintro node inside
      rcases List.mem_cons.mp inside with rfl | inside
      · rw [single]
        exact Nat.le_refl _
      · exact ih second chain ends node inside

theorem HeaderPlaced.short {lead : Option (Line V)} {cond : V} {pred : Option V} {targets : List V}
    (placed : HeaderPlaced cfg mask lead cond pred targets) (two : targets.length = 2) {node : V}
    (inside : node ∈ Flow.leadNodes lead ∨ node = cond) : (cfg.children node).length ≤ 2 := by
  rcases inside with inLead | rfl
  · cases isLead : lead with
    | none =>
        rw [isLead] at inLead
        cases inLead
    | some line =>
        rw [isLead] at inLead
        exact Nat.le_succ_of_le ((placed.leadPlaced line isLead).short node inLead)
  · rw [placed.children, two]

/-- Every node of a flow has at most two children. -/
theorem Flow.Placed.short {flow : Flow V} {pred exit : Option V}
    (placed : flow.Placed cfg mask pred exit) :
    ∀ node ∈ flow.nodes, (cfg.children node).length ≤ 2 := by
  have two (body other : Flow V) (join : V) : (Flow.targets body other join).length = 2 := by
    have one (way : Flow V) : (way.entry (some join)).toList.length = 1 := by
      unfold Flow.entry
      cases way.first <;> rfl
    rw [Flow.targets, List.length_append, one, one]
  induction flow generalizing pred exit with
  | done => exact List.forall_mem_nil _
  | block line => exact fun node inside => Nat.le_succ_of_le (Line.Placed.short placed node inside)
  | own lead cond body other join rest bodyIh otherIh restIh =>
      obtain ⟨header, -, bodyPlaced, otherPlaced, joinPlaced, restPlaced⟩ := placed
      rintro node inside
      simp only [Flow.nodes, List.mem_append, List.mem_cons] at inside
      rcases inside with (inLead | rfl | inBody | inOther) | rfl | inRest
      · exact header.short (two body other join) (.inl inLead)
      · exact header.short (two body other join) (.inr rfl)
      · exact bodyIh bodyPlaced node inBody
      · exact otherIh otherPlaced node inOther
      · rw [joinPlaced.children]
        cases rest.entry exit <;> simp
      · exact restIh restPlaced node inRest
  | shared lead cond body other bodyIh otherIh =>
      obtain ⟨join, rfl, header, -, bodyPlaced, otherPlaced⟩ := placed
      rintro node inside
      simp only [Flow.nodes, List.mem_append, List.mem_cons] at inside
      rcases inside with inLead | rfl | inBody | inOther
      · exact header.short (two body other join) (.inl inLead)
      · exact header.short (two body other join) (.inr rfl)
      · exact bodyIh bodyPlaced node inBody
      · exact otherIh otherPlaced node inOther

theorem Flow.enders_ne_nil (flow : Flow V) (pred : V) : flow.enders pred ≠ [] := by
  induction flow generalizing pred with
  | done => exact List.cons_ne_nil _ _
  | block line => exact List.cons_ne_nil _ _
  | own lead cond body other join rest bodyIh otherIh restIh => exact restIh join
  | shared lead cond body other bodyIh otherIh =>
      exact List.append_ne_nil_of_left_ne_nil (bodyIh cond) _

/-- Only the first node of a line can be without a parent. -/
theorem Line.Placed.orphan {line : Line V} {pred next : Option V}
    (placed : line.Placed cfg mask pred next) {node : V} (inside : node ∈ line.nodes)
    (none : cfg.parent node = []) : pred = .none ∧ node = line.first := by
  rcases List.mem_cons.mp inside with rfl | inRest
  · have parent := placed.parent
    rw [none] at parent
    cases pred with
    | none => exact ⟨rfl, rfl⟩
    | some above => cases parent
  · obtain ⟨above, parent⟩ := parent_of_chain placed.chain node inRest
    rw [none] at parent
    cases parent

theorem HeaderPlaced.orphan {lead : Option (Line V)} {cond : V} {pred : Option V} {targets : List V}
    (placed : HeaderPlaced cfg mask lead cond pred targets) {node : V}
    (inside : node ∈ Flow.leadNodes lead ∨ node = cond) (none : cfg.parent node = []) :
    pred = .none ∧ node = Flow.start lead cond := by
  cases isLead : lead with
  | none =>
      rw [isLead] at inside
      rcases inside with inLead | rfl
      · cases inLead
      · have parent := placed.parent
        rw [none, isLead] at parent
        cases pred with
        | none => exact ⟨rfl, rfl⟩
        | some above => cases parent
  | some line =>
      rw [isLead] at inside
      rcases inside with inLead | rfl
      · exact (placed.leadPlaced line isLead).orphan inLead none
      · have parent := placed.parent
        rw [none, isLead] at parent
        cases parent

/-- Only the first node of a flow can be without a parent. -/
theorem Flow.Placed.orphan {flow : Flow V} {pred exit : Option V}
    (placed : flow.Placed cfg mask pred exit) {node : V} (inside : node ∈ flow.nodes)
    (none : cfg.parent node = []) : pred = .none ∧ flow.first = some node := by
  induction flow generalizing pred exit with
  | done => cases inside
  | block line =>
      obtain ⟨noPred, rfl⟩ := Line.Placed.orphan placed inside none
      exact ⟨noPred, rfl⟩
  | own lead cond body other join rest bodyIh otherIh restIh =>
      obtain ⟨header, -, bodyPlaced, otherPlaced, joinPlaced, restPlaced⟩ := placed
      simp only [Flow.nodes, List.mem_append, List.mem_cons] at inside
      rcases inside with (inLead | isCond | inBody | inOther) | rfl | inRest
      · obtain ⟨noPred, rfl⟩ := header.orphan (.inl inLead) none
        exact ⟨noPred, rfl⟩
      · obtain ⟨noPred, rfl⟩ := header.orphan (.inr isCond) none
        exact ⟨noPred, rfl⟩
      · cases (bodyIh bodyPlaced inBody).1
      · cases (otherIh otherPlaced inOther).1
      · have parent := joinPlaced.parent
        rw [none] at parent
        exact absurd parent.nil_eq.symm
          (List.append_ne_nil_of_left_ne_nil (Flow.enders_ne_nil body cond) _)
      · cases (restIh restPlaced inRest).1
  | shared lead cond body other bodyIh otherIh =>
      obtain ⟨join, rfl, header, -, bodyPlaced, otherPlaced⟩ := placed
      simp only [Flow.nodes, List.mem_append, List.mem_cons] at inside
      rcases inside with inLead | isCond | inBody | inOther
      · obtain ⟨noPred, rfl⟩ := header.orphan (.inl inLead) none
        exact ⟨noPred, rfl⟩
      · obtain ⟨noPred, rfl⟩ := header.orphan (.inr isCond) none
        exact ⟨noPred, rfl⟩
      · cases (bodyIh bodyPlaced inBody).1
      · cases (otherIh otherPlaced inOther).1

end Placed

/-! ## Flows that are merged -/

section Led

variable {plain : V → Bool}

/-- A line with a plain instruction. -/
def Line.Holds (plain : V → Bool) (line : Line V) : Prop := ∃ node ∈ line.nodes, plain node = true

theorem Line.Holds.append_left {line : Line V} (holds : line.Holds plain) (next : Line V) :
    (line.append next).Holds plain := by
  obtain ⟨node, inside, isPlain⟩ := holds
  exact ⟨node, List.mem_append_left _ inside, isPlain⟩

theorem Line.Holds.append_right {next : Line V} (holds : next.Holds plain) (line : Line V) :
    (line.append next).Holds plain := by
  obtain ⟨node, inside, isPlain⟩ := holds
  exact ⟨node, List.mem_append_right line.nodes inside, isPlain⟩

namespace Flow

/-- The code in front of what follows is a line. -/
def endsLine : Flow V → Bool
  | .done => false
  | .block _ => true
  | .own _ _ _ _ _ rest => rest.endsLine
  | .shared _ _ _ _ => false

theorem behind_endsLine {flow : Flow V} (line : Line V) (ends : flow.endsLine = true) :
    (flow.behind line).endsLine = true := by
  cases flow with
  | done => rfl
  | block next => rfl
  | own lead cond body other join rest => exact ends
  | shared lead cond body other => cases ends

theorem append_endsLine {flow next : Flow V} (closed : flow.isOpen = false)
    (ends : next.endsLine = true) : (flow.append next).endsLine = true := by
  induction flow with
  | done => exact ends
  | block line => exact behind_endsLine line ends
  | own lead cond body other join rest bodyIh otherIh restIh => exact restIh closed
  | shared lead cond body other bodyIh otherIh => cases closed

/-- A flow that ends with a line is not open. -/
theorem not_isOpen {flow : Flow V} (ends : flow.endsLine = true) : flow.isOpen = false := by
  induction flow with
  | done => rfl
  | block line => rfl
  | own lead cond body other join rest bodyIh otherIh restIh => exact restIh ends
  | shared lead cond body other bodyIh otherIh => cases ends

/--
Every line has a plain instruction, and a statement that ends a branch (`last`) has
a line in front of it; `before` says that one is in front of the flow.
-/
def Led (plain : V → Bool) : Flow V → Bool → Bool → Prop
  | .done, _, _ => True
  | .block line, _, _ => line.Holds plain
  | .own lead _ body other _ rest, before, last =>
      (∀ line, lead = some line → line.Holds plain) ∧
      (lead = none → last = true → rest.first = none → before = true) ∧
      body.Led plain false true ∧ other.Led plain false true ∧ rest.Led plain false last
  | .shared lead _ body other, before, last =>
      (∀ line, lead = some line → line.Holds plain) ∧
      (lead = none → last = true → before = true) ∧
      body.Led plain false true ∧ other.Led plain false true

theorem Led.mono {flow : Flow V} {last : Bool} (led : flow.Led plain false last) (before : Bool) :
    flow.Led plain before last := by
  cases flow with
  | done => trivial
  | block line => exact led
  | own lead cond body other join rest =>
      obtain ⟨lines, leads, ways⟩ := led
      exact ⟨lines, fun noLead isLast noRest => absurd (leads noLead isLast noRest)
        Bool.false_ne_true, ways⟩
  | shared lead cond body other =>
      obtain ⟨lines, leads, ways⟩ := led
      exact ⟨lines, fun noLead isLast => absurd (leads noLead isLast) Bool.false_ne_true, ways⟩

/-- Code may follow. -/
theorem Led.followed {flow : Flow V} {before last : Bool} (led : flow.Led plain before last) :
    flow.Led plain before false := by
  induction flow generalizing before with
  | done => trivial
  | block line => exact led
  | own lead cond body other join rest bodyIh otherIh restIh =>
      obtain ⟨lines, -, bodyLed, otherLed, restLed⟩ := led
      exact ⟨lines, nofun, bodyLed, otherLed, restIh restLed⟩
  | shared lead cond body other bodyIh otherIh =>
      obtain ⟨lines, -, ways⟩ := led
      exact ⟨lines, nofun, ways⟩

/-- A line in front of a flow holds a plain instruction unless the flow starts with a line. -/
theorem Led.behind {flow : Flow V} {line : Line V} {before last : Bool}
    (holds : flow.lead = none → line.Holds plain) (led : flow.Led plain before last)
    (outer : Bool) : (flow.behind line).Led plain outer last := by
  have own {lead : Option (Line V)} (lines : ∀ next, lead = some next → next.Holds plain)
      (holds : lead = none → line.Holds plain) :
      ∀ next, some (lead.elim line line.append) = some next → next.Holds plain := by
    rintro next ⟨⟩
    cases isLead : lead with
    | none => exact holds isLead
    | some next => exact (lines next isLead).append_right line
  cases flow with
  | done => exact holds rfl
  | block next => exact Line.Holds.append_right led line
  | own lead cond body other join rest =>
      obtain ⟨lines, leads, ways⟩ := led
      exact ⟨own lines holds, nofun, ways⟩
  | shared lead cond body other =>
      obtain ⟨lines, leads, ways⟩ := led
      exact ⟨own lines holds, nofun, ways⟩

theorem append_first_ne_none (flow : Flow V) {next : Flow V} (starts : next.first ≠ none) :
    (flow.append next).first ≠ none := by
  cases flow with
  | done => exact starts
  | block line =>
      rw [append, behind_first]
      exact Option.some_ne_none _
  | own lead cond body other join rest => exact Option.some_ne_none _
  | shared lead cond body other => exact Option.some_ne_none _

theorem Led.append {flow next : Flow V} {before last : Bool} (closed : flow.isOpen = false)
    (head : flow.Led plain before false) (starts : next.first ≠ none)
    (tail : next.Led plain flow.endsLine last) : (flow.append next).Led plain before last := by
  induction flow generalizing before with
  | done => exact tail.mono before
  | block line =>
      have inner : next.Led plain true last := tail
      exact Led.behind (fun _ => head) inner before
  | own lead cond body other join rest bodyIh otherIh restIh =>
      obtain ⟨lines, -, bodyLed, otherLed, restLed⟩ := head
      exact ⟨lines, fun _ _ noRest => absurd noRest (append_first_ne_none rest starts), bodyLed,
        otherLed, restIh closed restLed tail⟩
  | shared lead cond body other bodyIh otherIh => cases closed

theorem Led.close {flow : Flow V} {before last : Bool} (led : flow.Led plain before last)
    (join : V) : (flow.close join).Led plain before last := by
  induction flow generalizing before with
  | done => trivial
  | block line => exact led
  | own lead cond body other inner rest bodyIh otherIh restIh =>
      obtain ⟨lines, leads, bodyLed, otherLed, restLed⟩ := led
      rw [← close_first rest join] at leads
      exact ⟨lines, leads, bodyLed, otherLed, restIh restLed⟩
  | shared lead cond body other bodyIh otherIh =>
      obtain ⟨lines, leads, bodyLed, otherLed⟩ := led
      exact ⟨lines, fun noLead isLast _ => leads noLead isLast, bodyLed, otherLed, trivial⟩

/-- What the merging pass asks of a flow. -/
theorem Led.mergeable [DecidableEq V] {cfg : Cfg V} {mask : V → Bool} {flow : Flow V}
    {inner : Bool} (led : flow.Led plain false inner) (closed : inner = false → flow.isOpen = false)
    (prints : ∀ node, plain node = true → node ≠ cfg.start ∧ mask node = false) :
    flow.Mergeable cfg mask inner := by
  have statements {line : Line V} (holds : line.Holds plain) : line.statements cfg mask ≠ [] := by
    obtain ⟨node, inside, isPlain⟩ := holds
    obtain ⟨notStart, notMask⟩ := prints node isPlain
    refine List.ne_nil_of_mem (List.mem_filter.mpr ⟨inside, ?_⟩)
    simp [notStart, notMask]
  induction flow generalizing inner with
  | done => trivial
  | block line => exact statements led
  | own lead cond body other join rest bodyIh otherIh restIh =>
      obtain ⟨lines, leads, bodyLed, otherLed, restLed⟩ := led
      refine ⟨fun line isLead => statements (lines line isLead), fun noLead noRest => ?_,
        bodyIh bodyLed nofun, otherIh otherLed nofun, restIh restLed closed⟩
      cases inner with
      | false => rfl
      | true => exact absurd (leads noLead rfl noRest) Bool.false_ne_true
  | shared lead cond body other bodyIh otherIh =>
      obtain ⟨lines, leads, bodyLed, otherLed⟩ := led
      refine ⟨fun line isLead => statements (lines line isLead), ?_, bodyIh bodyLed nofun,
        otherIh otherLed nofun⟩
      cases lead with
      | some line => rfl
      | none =>
          cases inner with
          | false => cases closed rfl
          | true => cases leads rfl rfl

end Flow

end Led

/-! ## Renamed nodes -/

section Map

variable {W : Type} (rename : V → W)

def Line.map (line : Line V) : Line W := ⟨rename line.first, line.rest.map rename⟩

def Flow.map : Flow V → Flow W
  | .done => .done
  | .block line => .block (line.map rename)
  | .own lead cond body other join rest =>
      .own (lead.map (Line.map rename)) (rename cond) body.map other.map (rename join) rest.map
  | .shared lead cond body other =>
      .shared (lead.map (Line.map rename)) (rename cond) body.map other.map

/-- The second graph has the renamed edges of a node. -/
structure Renames (cfg : Cfg V) (mask : V → Bool) (cfg' : Cfg W) (mask' : W → Bool) (node : V) :
    Prop where
  children : cfg'.children (rename node) = (cfg.children node).map rename
  parent : cfg'.parent (rename node) = (cfg.parent node).map rename
  mask : mask' (rename node) = mask node

variable {rename} {cfg : Cfg V} {mask : V → Bool} {cfg' : Cfg W} {mask' : W → Bool}

theorem Line.map_nodes (line : Line V) : (line.map rename).nodes = line.nodes.map rename := rfl

theorem Line.map_last (line : Line V) : (line.map rename).last = rename line.last := by
  unfold Line.last
  simp only [Line.map_nodes]
  exact List.getLast_map _

theorem Option.map_toList {α β : Type} (f : α → β) (value : Option α) :
    (value.map f).toList = value.toList.map f := by
  cases value <;> rfl

theorem Line.Placed.map {line : Line V} {pred next : Option V}
    (placed : line.Placed cfg mask pred next)
    (renames : ∀ node ∈ line.nodes, Renames rename cfg mask cfg' mask' node) :
    (line.map rename).Placed cfg' mask' (pred.map rename) (next.map rename) := by
  constructor
  case chain =>
    rw [Line.map_nodes, List.isChain_map]
    refine placed.chain.imp_of_mem_imp fun node next inside inside' edge => ?_
    rw [(renames node inside).children, (renames next inside').parent, edge.1, edge.2]
    exact ⟨rfl, rfl⟩
  case masks =>
    rintro node inside
    obtain ⟨old, inRest, rfl⟩ := List.mem_map.mp inside
    rw [(renames old (List.mem_cons_of_mem _ inRest)).mask, placed.masks old inRest]
  case parent =>
    rw [Option.map_toList, ← placed.parent]
    exact (renames line.first List.mem_cons_self).parent
  case children =>
    rw [Line.map_last, Option.map_toList, ← placed.children]
    exact (renames line.last (List.getLast_mem _)).children

theorem HeaderPlaced.map {lead : Option (Line V)} {cond : V} {pred : Option V} {targets : List V}
    (placed : HeaderPlaced cfg mask lead cond pred targets)
    (leads : ∀ node ∈ Flow.leadNodes lead, Renames rename cfg mask cfg' mask' node)
    (renames : Renames rename cfg mask cfg' mask' cond) :
    HeaderPlaced cfg' mask' (lead.map (Line.map rename)) (rename cond) (pred.map rename)
      (targets.map rename) := by
  constructor
  case leadPlaced =>
    rintro line isLine
    obtain ⟨old, isLead, rfl⟩ := Option.map_eq_some_iff.mp isLine
    refine (placed.leadPlaced old isLead).map fun node inside => leads node ?_
    rw [isLead]
    exact inside
  case parent =>
    rw [renames.parent, placed.parent]
    cases lead with
    | none => cases pred <;> rfl
    | some line => exact congrArg (fun last => [last]) line.map_last.symm
  case children => rw [renames.children, placed.children]

namespace Flow

theorem map_first (flow : Flow V) : (flow.map rename).first = flow.first.map rename := by
  cases flow with
  | done => rfl
  | block line => rfl
  | own lead cond body other join rest => cases lead <;> rfl
  | shared lead cond body other => cases lead <;> rfl

theorem map_entry (flow : Flow V) (exit : Option V) :
    (flow.map rename).entry (exit.map rename) = (flow.entry exit).map rename := by
  rw [entry, entry, map_first]
  cases flow.first <;> rfl

theorem map_targets (body other : Flow V) (join : V) :
    targets (body.map rename) (other.map rename) (rename join) =
      (targets body other join).map rename := by
  have entry (way : Flow V) :
      (way.map rename).entry (some (rename join)) = (way.entry (some join)).map rename :=
    way.map_entry (some join)
  rw [targets, targets, entry, entry, List.map_append, Option.map_toList, Option.map_toList]

theorem map_enders (flow : Flow V) (pred : V) :
    (flow.map rename).enders (rename pred) = (flow.enders pred).map rename := by
  induction flow generalizing pred with
  | done => rfl
  | block line => exact congrArg (fun last => [last]) line.map_last
  | own lead cond body other join rest bodyIh otherIh restIh => exact restIh join
  | shared lead cond body other bodyIh otherIh =>
      simp only [map, enders, bodyIh, otherIh, List.map_append]

theorem map_nodes (flow : Flow V) : (flow.map rename).nodes = flow.nodes.map rename := by
  have leads (lead : Option (Line V)) :
      leadNodes (lead.map (Line.map rename)) = (leadNodes lead).map rename := by
    cases lead <;> rfl
  induction flow with
  | done => rfl
  | block line => rfl
  | own lead cond body other join rest bodyIh otherIh restIh =>
      simp only [map, nodes, leads, bodyIh, otherIh, restIh, List.map_append, List.map_cons]
  | shared lead cond body other bodyIh otherIh =>
      simp only [map, nodes, leads, bodyIh, otherIh, List.map_append, List.map_cons]

theorem map_isOpen (flow : Flow V) : (flow.map rename).isOpen = flow.isOpen := by
  induction flow with
  | done => rfl
  | block line => rfl
  | own lead cond body other join rest bodyIh otherIh restIh => exact restIh
  | shared lead cond body other bodyIh otherIh => rfl

theorem map_lineNodes (flow : Flow V) :
    (flow.map rename).lineNodes = flow.lineNodes.map rename := by
  have leads (lead : Option (Line V)) :
      leadNodes (lead.map (Line.map rename)) = (leadNodes lead).map rename := by
    cases lead <;> rfl
  induction flow with
  | done => rfl
  | block line => rfl
  | own lead cond body other join rest bodyIh otherIh restIh =>
      simp only [map, lineNodes, leads, bodyIh, otherIh, restIh, List.map_append]
  | shared lead cond body other bodyIh otherIh =>
      simp only [map, lineNodes, leads, bodyIh, otherIh, List.map_append]

theorem Placed.map {flow : Flow V} {pred exit : Option V} (placed : flow.Placed cfg mask pred exit)
    (renames : ∀ node ∈ flow.nodes, Renames rename cfg mask cfg' mask' node) :
    (flow.map rename).Placed cfg' mask' (pred.map rename) (exit.map rename) := by
  induction flow generalizing pred exit with
  | done => trivial
  | block line => exact Line.Placed.map placed renames
  | own lead cond body other join rest bodyIh otherIh restIh =>
      obtain ⟨header, isSome, bodyPlaced, otherPlaced, joinPlaced, restPlaced⟩ := placed
      simp only [nodes, List.mem_append, List.mem_cons] at renames
      refine ⟨?_, ?_, bodyIh bodyPlaced (by grind), otherIh otherPlaced (by grind), ⟨?_, ?_⟩,
        restIh restPlaced (by grind)⟩
      · rw [map_targets]
        exact header.map (by grind) (renames cond (by grind))
      · rw [map_first, Option.isSome_map, isSome]
      · rw [(renames join (by grind)).parent, map_enders, map_enders, ← List.map_append]
        exact joinPlaced.parent.map rename
      · rw [(renames join (by grind)).children, joinPlaced.children, map_entry, Option.map_toList]
  | shared lead cond body other bodyIh otherIh =>
      obtain ⟨join, rfl, header, isSome, bodyPlaced, otherPlaced⟩ := placed
      simp only [nodes, List.mem_append, List.mem_cons] at renames
      refine ⟨rename join, rfl, ?_, ?_, bodyIh bodyPlaced (by grind), otherIh otherPlaced (by grind)⟩
      · rw [map_targets]
        exact header.map (by grind) (renames cond (by grind))
      · rw [map_first, Option.isSome_map, isSome]

theorem Led.map {plain : V → Bool} {plain' : W → Bool} {flow : Flow V} {before last : Bool}
    (led : flow.Led plain before last)
    (same : ∀ node, plain node = true → plain' (rename node) = true) :
    (flow.map rename).Led plain' before last := by
  have holds {line : Line V} (holds : line.Holds plain) : (line.map rename).Holds plain' := by
    obtain ⟨node, inside, isPlain⟩ := holds
    exact ⟨rename node, List.mem_map_of_mem inside, same node isPlain⟩
  have lines {lead : Option (Line V)} (lines : ∀ line, lead = some line → line.Holds plain) :
      ∀ line, lead.map (Line.map rename) = some line → line.Holds plain' := by
    rintro line isLine
    obtain ⟨old, isLead, rfl⟩ := Option.map_eq_some_iff.mp isLine
    exact holds (lines old isLead)
  induction flow generalizing before last with
  | done => trivial
  | block line => exact holds led
  | own lead cond body other join rest bodyIh otherIh restIh =>
      obtain ⟨held, leads, bodyLed, otherLed, restLed⟩ := led
      refine ⟨lines held, fun noLead isLast noRest => ?_, bodyIh bodyLed, otherIh otherLed,
        restIh restLed⟩
      rw [map_first] at noRest
      exact leads (Option.map_eq_none_iff.mp noLead) isLast (Option.map_eq_none_iff.mp noRest)
  | shared lead cond body other bodyIh otherIh =>
      obtain ⟨held, leads, bodyLed, otherLed⟩ := led
      exact ⟨lines held, fun noLead isLast => leads (Option.map_eq_none_iff.mp noLead) isLast,
        bodyIh bodyLed, otherIh otherLed⟩

end Flow

end Map

end OpenCLDecompiler.Regions.Build
