import OpenCLDecompiler.Cfg.LabelCode
import OpenCLDecompiler.Regions.MaskFlow

/-!
# Flows of programs in label form

Code in label form has the shape of a flow.  A statement that ends at the label
of the statement around it leaves the flow open; its own label closes the flow.
-/

namespace OpenCLDecompiler

namespace Stmt

/-- As `Led`; an else starts with a label, and a jump stands in front of it. -/
def Spaced : Stmt → Bool → Bool → Prop
  | .plain _, _, _ => True
  | .seq first second, before, last =>
      first.Spaced before false ∧ second.Spaced first.endsPlain last
  | .ifThen _ body, before, last => (last = true → before = true) ∧ body.Spaced false true
  | .ifElse _ body other, before, last =>
      (last = true → before = true) ∧ body.Spaced false false ∧ other.Spaced true true

end Stmt

namespace Regions.LabelFlow

open Library Build

/-! ## The graph at an instruction -/

theorem placeAt_of_le {instrs : List Instr} {node : NodeId} (inside : node ≤ instrs.length) :
    placeAt instrs node = some node := if_pos inside

theorem placeAt_of_instrAt {instrs : List Instr} {node : NodeId} {instr : Instr}
    (found : instrAt instrs node = some instr) : placeAt instrs node = some node :=
  placeAt_of_le (le_length_of_instrAt found)

/-- The graph of forward branches; nodes that speak have no mask. -/
structure Charted (instrs : List Instr) (nodes : Nodes) (speaks mask : NodeId → Bool) : Prop
    extends ForwardEdges instrs nodes where
  forward : Forward instrs
  labels : (instrs.filterMap Instr.label?).Nodup
  spoken : ∀ node instr, instrAt instrs node = some instr → speaks node = true
  silent : ∀ node, speaks node = true → mask node = false

theorem successor_iff {instrs : List Instr} {node target : NodeId} {instr : Instr}
    (found : instrAt instrs node = some instr) :
    Successor instrs node target ↔ instr.goesOn = true ∧ target ∈ placeAt instrs (node + 1) ∨
      ∃ text, instr.target? = some text ∧ labelAt instrs target = some text := by
  have jumps : jumpsAt instrs node = instr.isJump := by rw [jumpsAt, found]; rfl
  have ends : endsAt instrs node = instr.isEndPgm := by rw [endsAt, found]; rfl
  rw [Successor, targetAt_eq found, jumps, ends]
  refine or_congr ?_ Iff.rfl
  have place : target ∈ placeAt instrs (node + 1) ↔ target = node + 1 ∧ target ≤ instrs.length := by
    unfold placeAt
    split
    · rename_i inside
      constructor
      · rintro ⟨⟩
        exact ⟨rfl, inside⟩
      · rintro ⟨rfl, -⟩
        exact rfl
    · rename_i outside
      constructor
      · rintro ⟨⟩
      · rintro ⟨rfl, inside⟩
        exact (outside inside).elim
  rw [place, Instr.goesOn, Bool.and_eq_true, Bool.not_eq_true', Bool.not_eq_true']
  constructor
  · rintro ⟨next, inside, goes⟩
    exact ⟨goes, next, inside⟩
  · rintro ⟨goes, next, inside⟩
    exact ⟨next, inside, goes⟩

namespace Charted

variable {instrs : List Instr} {nodes : Nodes} {speaks mask : NodeId → Bool} {node : NodeId}
  {instr : Instr} (chart : Charted instrs nodes speaks mask)

include chart

theorem unmasked (found : instrAt instrs node = some instr) : mask node = false :=
  chart.silent node (chart.spoken node instr found)

theorem children_goesOn (found : instrAt instrs node = some instr) (goesOn : instr.goesOn = true)
    (noTarget : instr.target? = none) :
    nodes.children node = (placeAt instrs (node + 1)).toList := by
  have next (target : NodeId) :
      Successor instrs node target ↔ target ∈ placeAt instrs (node + 1) := by
    rw [successor_iff found, noTarget]
    simp [goesOn]
  cases place : placeAt instrs (node + 1) with
  | none =>
      refine chart.children_none fun target edge => ?_
      have behind := (next target).mp edge
      rw [place] at behind
      cases behind
  | some behind =>
      refine chart.children_one fun target => ?_
      rw [next, place]
      exact Option.mem_some.trans eq_comm

theorem target_iff {text : String} {target : NodeId}
    (labelled : labelAt instrs target = some text) (other : NodeId) :
    labelAt instrs other = some text ↔ other = target := by
  constructor
  · exact fun also => labelAt_inj chart.labels also labelled
  · rintro rfl
    exact labelled

theorem children_branch {text : String} {target : NodeId}
    (found : instrAt instrs node = some instr) (goesOn : instr.goesOn = true)
    (branches : instr.target? = some text) (labelled : labelAt instrs target = some text) :
    nodes.children node = [node + 1, target] := by
  have later := chart.forward node target text ((targetAt_eq found).trans branches) labelled
  have inside : node + 1 ≤ instrs.length :=
    Nat.le_trans (Nat.le_of_lt later) (le_length_of_labelAt labelled)
  refine chart.children_two later fun other => ?_
  rw [successor_iff found, placeAt_of_le inside, branches]
  constructor
  · rintro (⟨-, ⟨⟩⟩ | ⟨text, ⟨⟩, also⟩)
    · exact .inl rfl
    · exact .inr ((chart.target_iff labelled other).mp also)
  · rintro (rfl | rfl)
    · exact .inl ⟨goesOn, rfl⟩
    · exact .inr ⟨text, rfl, labelled⟩

theorem children_jump {name : LabelName} {target : NodeId}
    (found : instrAt instrs node = some (.jump name))
    (labelled : labelAt instrs target = some name.text) : nodes.children node = [target] := by
  refine chart.children_one fun other => ?_
  rw [successor_iff found]
  simp [Instr.goesOn, Instr.isJump, Instr.target?, chart.target_iff labelled]

/-- A node that is no label is only behind the one in front of it. -/
theorem parent_unlabelled (found : instrAt instrs node = some instr) (goesOn : instr.goesOn = true)
    (inside : node + 1 ≤ instrs.length) (unlabelled : labelAt instrs (node + 1) = none) :
    nodes.parent (node + 1) = [node] := by
  refine chart.parent_one fun other => ?_
  constructor
  · rintro (⟨next, -⟩ | ⟨text, -, labelled⟩)
    · exact (Nat.succ_inj.mp next).symm
    · rw [unlabelled] at labelled
      cases labelled
  · rintro rfl
    refine (successor_iff found).mpr (.inl ⟨goesOn, ?_⟩)
    rw [placeAt_of_le inside]
    exact rfl

/-- The nodes in front of a label are the one that falls through and the branches to it. -/
theorem parent_label {text : String} (found : instrAt instrs node = some instr)
    (labelled : labelAt instrs (node + 1) = some text) {sources : List NodeId}
    (nodup : sources.Nodup) (all : ∀ other, other ∈ sources ↔
      instr.goesOn = true ∧ other = node ∨ targetAt instrs other = some text) :
    (nodes.parent (node + 1)).Perm sources := by
  refine chart.parent_perm nodup fun other => ?_
  rw [all]
  constructor
  · rintro (⟨next, inside, goes⟩ | ⟨text', branched, also⟩)
    · cases Nat.succ_inj.mp next
      rcases (successor_iff found).mp (.inl ⟨rfl, inside, goes⟩) with ⟨goesOn, -⟩ | ⟨_, branches, also⟩
      · exact .inl ⟨goesOn, rfl⟩
      · have later := chart.forward node (node + 1) _ ((targetAt_eq found).trans branches) also
        exact absurd later (Nat.lt_irrefl _)
    · rw [labelled] at also
      cases also
      exact .inr branched
  · rintro (⟨goesOn, rfl⟩ | branched)
    · refine (successor_iff found).mpr (.inl ⟨goesOn, ?_⟩)
      rw [placeAt_of_le (le_length_of_labelAt labelled)]
      exact rfl
    · exact .inr ⟨text, branched, labelled⟩

end Charted

/-! ## Code in its place -/

/-- The code stands in the program, with its exit behind it, and is entered at its start only. -/
structure Sits (instrs : List Instr) (base : Nat) (code : List Instr) (exit : Option LabelName) :
    Prop where
  here : CodeAt instrs base code
  exits : ∀ target, exit = some target →
    labelAt instrs (base + code.length) = some target.text
  enclosed : ∀ (source target : Nat) (text : String), targetAt instrs source = some text →
    labelAt instrs target = some text → base ≤ target → target < base + code.length → base ≤ source

/-- The nodes that go on behind the code. -/
def Leaves (instrs : List Instr) (base size : Nat) (exit : Option LabelName) (node : Nat) : Prop :=
  node + 1 = base + size ∨ base ≤ node ∧ node < base + size ∧
    ∃ target, exit = some target ∧ targetAt instrs node = some target.text

theorem leaves_none {instrs : List Instr} {base size node : Nat} :
    Leaves instrs base size none node ↔ node + 1 = base + size := by
  refine or_iff_left ?_
  rintro ⟨-, -, target, ⟨⟩, -⟩

/-- The code of a statement is a flow. -/
structure Laid (instrs : List Instr) (graph : Nodes) (speaks mask : NodeId → Bool) (program : Stmt)
    (base : Nat) (code : List Instr) (exit : Option LabelName) (flow : Flow NodeId) : Prop where
  nodes : flow.nodes = List.range' base code.length
  lined : ∀ node ∈ plainNodes base code, node ∈ flow.lineNodes
  first : flow.first = some base
  closed : exit = none → flow.isOpen = false
  nodup : ∀ pred, (flow.enders pred).Nodup
  enders : ∀ pred node, node ∈ flow.enders pred ↔ Leaves instrs base code.length exit node
  leads : program.startsPlain = true → flow.lead.isSome = true
  led : ∀ prev last, program.Spaced prev last → flow.Led speaks prev last
  ends : program.endsPlain = true → flow.endsLine = true
  placed : ∀ pred, graph.parent base = [pred] →
    flow.Placed graph.edges mask (some pred) (placeAt instrs (base + code.length))

section Shapes

variable {instrs : List Instr} {nodes : Nodes} {speaks mask : NodeId → Bool}

theorem line_placed {node : NodeId} {pred next : Option NodeId}
    (parent : nodes.parent node = pred.toList) (children : nodes.children node = next.toList) :
    Line.Placed nodes.edges mask ⟨node, []⟩ pred next :=
  ⟨List.isChain_singleton _, List.forall_mem_nil _, parent, children⟩

variable {program first second : Stmt} {code left right : List Instr} {exit : Option LabelName}
  {base : Nat} {flow start next : Flow NodeId}

theorem Laid.inner (laid : Laid instrs nodes speaks mask program base code exit flow)
    (chart : Charted instrs nodes speaks mask) {instr : Instr}
    (found : instrAt instrs base = some instr) (line : Line NodeId)
    (isLead : flow.lead = some line) : mask line.first = false := by
  have starts := (Flow.first_of_lead isLead).symm.trans laid.first
  rw [Option.some.inj starts]
  exact chart.unmasked found

/-- A flow that is not open leaves the code with its last node. -/
theorem Laid.ender (laid : Laid instrs nodes speaks mask program base code exit flow)
    (closed : flow.isOpen = false) {last : Nat} (isLast : last + 1 = base + code.length)
    (pred : NodeId) : flow.enders pred = [last] := by
  obtain ⟨only, ends⟩ := Flow.enders_of_closed closed pred
  have inside := (laid.enders pred last).mpr (.inl isLast)
  rw [ends, List.mem_singleton] at inside
  rw [ends, inside]

theorem laid_plain {backend : BackendNode} (chart : Charted instrs nodes speaks mask)
    (sits : Sits instrs base [.plain backend] exit) :
    Laid instrs nodes speaks mask (.plain backend) base [.plain backend] exit
      (.block ⟨base, []⟩) := by
  have found := sits.here.head
  constructor
  case nodes => rfl
  case lined => exact fun node inside => inside
  case first => rfl
  case closed => exact fun _ => rfl
  case nodup => exact fun _ => List.nodup_singleton _
  case enders =>
    rintro pred node
    have only : node ∈ Flow.enders (.block ⟨base, []⟩) pred ↔ node = base := List.mem_singleton
    rw [only, Leaves, List.length_singleton]
    constructor
    · rintro rfl
      exact .inl rfl
    · rintro (last | ⟨above, below, -⟩)
      · exact Nat.succ_inj.mp last
      · exact Nat.le_antisymm (Nat.le_of_lt_succ below) above
  case leads => exact fun _ => rfl
  case led => exact fun _ _ _ => ⟨_, List.mem_cons_self, chart.spoken _ _ found⟩
  case ends => exact fun _ => rfl
  case placed =>
    exact fun pred parent => line_placed parent (chart.children_goesOn found rfl rfl)

theorem laid_seq (chart : Charted instrs nodes speaks mask)
    (sits : Sits instrs base (left ++ right) exit) (lands : Lands instrs base left none)
    (head : Laid instrs nodes speaks mask first base left none start)
    (tail : Laid instrs nodes speaks mask second (base + left.length) right exit next)
    {last : Nat} (isLast : last + 1 = base + left.length)
    (parent : nodes.parent (base + left.length) = [last]) {instr : Instr}
    (found : instrAt instrs (base + left.length) = some instr) :
    Laid instrs nodes speaks mask (.seq first second) base (left ++ right) exit
      (start.append next) := by
  have closed := head.closed rfl
  have ends := head.ender closed isLast
  have exits := sits.exits
  have size : base + (left ++ right).length = base + left.length + right.length := by
    rw [List.length_append, Nat.add_assoc]
  constructor
  case nodes =>
    rw [Flow.append_nodes closed, head.nodes, tail.nodes, List.length_append, List.range'_append_1]
  case lined =>
    rw [plainNodes_append, Flow.append_lineNodes closed]
    rintro node inside
    exact List.mem_append.mpr ((List.mem_append.mp inside).imp (head.lined node) (tail.lined node))
  case first => exact Flow.append_first head.first next
  case closed =>
    rintro noExit
    rw [Flow.append_isOpen closed]
    exact tail.closed noExit
  case nodup =>
    rintro pred
    rw [Flow.append_enders closed next (ends pred)]
    exact tail.nodup last
  case enders =>
    rintro pred node
    rw [Flow.append_enders closed next (ends pred), tail.enders, Leaves, Leaves, ← size]
    refine or_congr_right ⟨?_, ?_⟩
    · rintro ⟨above, below, leaves⟩
      exact ⟨Nat.le_trans (Nat.le_add_right _ _) above, below, leaves⟩
    · rintro ⟨above, below, target, isExit, branched⟩
      -- a branch of the first part stays inside it
      refine ⟨Nat.le_of_not_lt fun inLeft => ?_, below, target, isExit, branched⟩
      have short := (lands node _ target.text above inLeft branched (exits target isExit)).2.2 rfl
      rw [size] at short
      omega
  case leads => exact fun starts => Flow.append_lead_isSome (head.leads starts) next
  case led =>
    rintro prev final ⟨headLed, tailLed⟩
    have starts : next.first ≠ none := by
      rw [tail.first]
      exact Option.some_ne_none _
    refine (head.led prev false headLed).append closed starts ?_
    cases plain : first.endsPlain with
    | true =>
        rw [head.ends plain]
        rw [plain] at tailLed
        exact tail.led true final tailLed
    | false =>
        rw [plain] at tailLed
        exact (tail.led false final tailLed).mono _
  case ends => exact fun plain => Flow.append_endsLine closed (tail.ends plain)
  case placed =>
    rintro pred parentFirst
    have entry : next.entry (placeAt instrs (base + left.length + right.length)) =
        placeAt instrs (base + left.length) := by
      rw [Flow.entry, tail.first, placeAt_of_instrAt found]
      rfl
    have headPlaced := head.placed pred parentFirst
    rw [← entry] at headPlaced
    rw [size]
    exact Flow.Placed.append closed headPlaced (ends pred) (tail.placed last parent)
      (tail.inner chart found)

/-! ## Statements that end at a label -/

theorem plainNodes_skip {instr : Instr} (skipped : instr.isPlain = false) (base : NodeId)
    (rest : List Instr) : plainNodes base (instr :: rest) = plainNodes (base + 1) rest := by
  rw [plainNodes, skipped, if_neg Bool.false_ne_true]

section Ending

variable {cond : String} {body other : Stmt} {target otherwise : LabelName} {instr : Instr}
  {inner otherFlow : Flow NodeId}

theorem Sits.place (sits : Sits instrs base code (some target)) :
    placeAt instrs (base + code.length) = some (base + code.length) :=
  placeAt_of_le (le_length_of_labelAt (sits.exits target rfl))

/-- The nodes that leave code are not in front of it. -/
theorem Leaves.le {size node : Nat} (some : 0 < size)
    (leaves : Leaves instrs base size exit node) : base ≤ node := by
  rcases leaves with last | ⟨above, -⟩
  · omega
  · exact above

theorem laid_ifThen (chart : Charted instrs nodes speaks mask)
    (sits : Sits instrs base (instr :: code) (some target)) (guard : Guards target cond instr)
    (size : 0 < code.length) (entered : nodes.parent (base + 1) = [base])
    (laid : Laid instrs nodes speaks mask body (base + 1) code (some target) inner) :
    Laid instrs nodes speaks mask (.ifThen cond body) base (instr :: code) (some target)
      (.shared none base inner .done) := by
  have found := sits.here.head
  have branched := (targetAt_eq found).trans guard.target
  constructor
  case nodes =>
    simp only [Flow.nodes, Flow.leadNodes, Option.map_none, Option.getD_none, List.nil_append,
      laid.nodes, List.append_nil, List.length_cons, List.range'_succ]
  case lined =>
    rintro node inside
    refine List.mem_append_right _ (List.mem_append_left _ (laid.lined node ?_))
    rwa [plainNodes_skip guard.plain] at inside
  case first => rfl
  case closed => rintro ⟨⟩
  case nodup =>
    rintro pred
    refine List.nodup_append.mpr ⟨laid.nodup base, List.nodup_singleton _, ?_⟩
    rintro node inside node' isLast rfl
    have isLast := List.mem_singleton.mp isLast
    have above := ((laid.enders base node).mp inside).le size
    exact Nat.not_succ_le_self base (isLast ▸ above)
  case enders =>
    rintro pred (node : Nat)
    rw [Flow.enders, List.mem_append, laid.enders, Leaves, Leaves, List.length_cons]
    have only : node ∈ Flow.enders .done base ↔ node = base := List.mem_singleton
    rw [only]
    constructor
    · rintro ((last | ⟨above, below, leaves⟩) | rfl)
      · exact .inl (by omega)
      · exact .inr ⟨by omega, by omega, leaves⟩
      · exact .inr ⟨Nat.le_refl _, Nat.lt_add_of_pos_right (Nat.succ_pos _), target, rfl, branched⟩
    · rintro (last | ⟨above, below, leaves⟩)
      · exact .inl (.inl (by omega))
      · rcases Nat.eq_or_lt_of_le above with here | later
        · exact .inr here.symm
        · exact .inl (.inr ⟨later, by omega, leaves⟩)
  case leads => rintro ⟨⟩
  case led =>
    rintro prev last ⟨isLed, bodyLed⟩
    exact ⟨(fun line none => by cases none), fun _ => isLed, laid.led false true bodyLed, trivial⟩
  case ends => rintro ⟨⟩
  case placed =>
    rintro pred parent
    have bodyPlaced := laid.placed base entered
    have sum : base + 1 + code.length = base + (instr :: code).length := by
      rw [List.length_cons, Nat.add_assoc, Nat.add_comm 1]
    rw [sum, sits.place] at bodyPlaced
    rw [sits.place]
    refine ⟨_, rfl, ⟨(fun line none => by cases none), parent, ?_⟩, ?_, bodyPlaced, trivial⟩
    · rw [Flow.targets, Flow.entry, laid.first]
      exact chart.children_branch found guard.goesOn guard.target (sits.exits target rfl)
    · rw [laid.first]
      rfl

theorem laid_ifElse {jump : Nat} (chart : Charted instrs nodes speaks mask)
    (sits : Sits instrs base (instr :: (left ++ .jump target :: .label otherwise :: right))
      (some target))
    (guard : Guards otherwise cond instr) (isJump : base + 1 + left.length = jump)
    (size : 0 < right.length) (lands : Lands instrs (base + 1) left none)
    (bodyLaid : Laid instrs nodes speaks mask body (base + 1) left none inner)
    (otherLaid : Laid instrs nodes speaks mask other (jump + 1 + 1) right (some target) otherFlow)
    (entered : nodes.parent (base + 1) = [base]) {last : Nat} (isLast : last + 1 = jump)
    (jumped : nodes.parent jump = [last]) (turned : nodes.parent (jump + 1) = [base])
    (enteredOther : nodes.parent (jump + 1 + 1) = [jump + 1]) {start : Instr}
    (starts : instrAt instrs (jump + 1 + 1) = some start) :
    Laid instrs nodes speaks mask (.ifElse cond body other) base
      (instr :: (left ++ .jump target :: .label otherwise :: right)) (some target)
      (.shared none base (inner.append (.block ⟨jump, []⟩)) (otherFlow.behind ⟨jump + 1, []⟩)) := by
  obtain ⟨branchAt, -, jumpAt, labelledAt, -, total⟩ := sits.here.ifElse
  have exits := sits.exits target rfl
  have place := sits.place
  rw [isJump] at jumpAt labelledAt total
  rw [total] at exits place
  have isOtherwise : labelAt instrs (jump + 1) = some otherwise.text := labelAt_eq labelledAt
  have closed := bodyLaid.closed rfl
  have ends (pred : NodeId) : inner.enders pred = [last] :=
    bodyLaid.ender closed (isLast.trans isJump.symm) pred
  have enders (pred : NodeId) :
      (Flow.shared none base (inner.append (.block ⟨jump, []⟩))
        (otherFlow.behind ⟨jump + 1, []⟩)).enders pred = jump :: otherFlow.enders (jump + 1) := by
    rw [Flow.enders, Flow.append_enders closed _ (ends base), Flow.behind_enders]
    rfl
  have later {pred : NodeId} {node : Nat} (inside : node ∈ otherFlow.enders pred) :
      jump + 1 + 1 ≤ node := ((otherLaid.enders pred node).mp inside).le size
  constructor
  case nodes =>
    simp only [Flow.nodes, Flow.leadNodes, Option.map_none, Option.getD_none, List.nil_append,
      Flow.append_nodes closed, Flow.behind_nodes, bodyLaid.nodes, otherLaid.nodes, Line.nodes]
    rw [List.append_assoc]
    change base :: (_ ++ List.range' jump (right.length + 1 + 1)) = _
    rw [← isJump, List.range'_append_1, List.length_cons, List.length_append, List.length_cons,
      List.length_cons, List.range'_succ]
  case lined =>
    rw [plainNodes_skip guard.plain, plainNodes_append, isJump, plainNodes_skip rfl,
      plainNodes_skip rfl]
    rintro node inside
    refine List.mem_append_right _
      (List.mem_append.mpr ((List.mem_append.mp inside).imp (fun inBody => ?_) fun inOther => ?_))
    · rw [Flow.append_lineNodes closed]
      exact List.mem_append_left _ (bodyLaid.lined node inBody)
    · rw [Flow.behind_lineNodes]
      exact List.mem_append_right _ (otherLaid.lined node inOther)
  case first => rfl
  case closed => rintro ⟨⟩
  case nodup =>
    rintro pred
    rw [enders]
    refine List.nodup_cons.mpr ⟨fun inside => ?_, otherLaid.nodup _⟩
    exact Nat.not_succ_le_self _ (Nat.le_of_succ_le (later inside))
  case enders =>
    rintro pred (node : Nat)
    rw [enders, List.mem_cons, otherLaid.enders, Leaves, Leaves, total]
    constructor
    · rintro (rfl | ends | ⟨above, below, leaves⟩)
      · exact .inr ⟨by omega, by omega, target, rfl, targetAt_eq jumpAt⟩
      · exact .inl ends
      · exact .inr ⟨by omega, below, leaves⟩
    · rintro (ends | ⟨above, below, _, ⟨⟩, branched⟩)
      · exact .inr (.inl ends)
      by_cases atBranch : node = base
      · -- the branch goes to the other label
        rw [atBranch, targetAt_eq branchAt, guard.target] at branched
        have same : jump + 1 = jump + 1 + 1 + right.length :=
          labelAt_inj chart.labels (isOtherwise.trans branched) exits
        omega
      by_cases inBody : node < base + 1 + left.length
      · have short := (lands node _ target.text (by omega) inBody branched exits).2.2 rfl
        omega
      by_cases atJump : node = jump
      · exact .inl atJump
      by_cases atLabel : node = jump + 1
      · rw [atLabel, targetAt_eq labelledAt] at branched
        cases branched
      exact .inr (.inr ⟨by omega, below, target, rfl, branched⟩)
  case leads => rintro ⟨⟩
  case led =>
    rintro prev final ⟨isLed, bodyLed, otherLed⟩
    have block : (Flow.block ⟨jump, []⟩).Led speaks inner.endsLine true :=
      ⟨jump, List.mem_cons_self, chart.spoken _ _ jumpAt⟩
    refine ⟨(fun line none => by cases none), fun _ => isLed,
      (bodyLaid.led false false bodyLed).append closed (Option.some_ne_none _) block, ?_⟩
    exact Flow.Led.behind (fun _ => ⟨jump + 1, List.mem_cons_self, chart.spoken _ _ labelledAt⟩)
      (otherLaid.led true true otherLed) false
  case ends => rintro ⟨⟩
  case placed =>
    rintro pred parent
    have bodyPlaced := bodyLaid.placed base entered
    rw [isJump, placeAt_of_instrAt jumpAt] at bodyPlaced
    have otherPlaced := otherLaid.placed (jump + 1) enteredOther
    have behind := chart.children_goesOn labelledAt rfl rfl
    rw [placeAt_of_instrAt starts] at behind
    rw [place] at otherPlaced
    rw [total, place]
    refine ⟨_, rfl, ⟨(fun line none => by cases none), parent, ?_⟩, ?_, ?_, ?_⟩
    · rw [Flow.targets, Flow.entry, Flow.entry, Flow.append_first bodyLaid.first,
        Flow.behind_first]
      exact chart.children_branch branchAt guard.goesOn guard.target isOtherwise
    · rw [Flow.append_first bodyLaid.first]
      rfl
    · exact Flow.Placed.append closed bodyPlaced (ends base)
        (line_placed jumped (chart.children_jump jumpAt exits)) (by
          rintro line ⟨⟩
          exact chart.unmasked jumpAt)
    · refine Flow.Placed.behind (line_placed turned ?_) otherPlaced (otherLaid.inner chart starts)
      rw [Flow.entry, otherLaid.first]
      exact behind

/-! ## Labels that close code -/

/-- The label behind the code, in front of what follows it. -/
theorem joins_label (chart : Charted instrs nodes speaks mask)
    (sits : Sits instrs base (code ++ [.label target]) exit)
    (laid : Laid instrs nodes speaks mask program base code (some target) flow) {last : Nat}
    (isLast : last + 1 = base + code.length) (found : instrAt instrs last = some instr)
    (goesOn : instr.goesOn = true) (pred : NodeId) :
    JoinPlaced nodes.edges (last + 1) (flow.enders pred)
      (placeAt instrs (base + (code ++ [Instr.label target]).length)) := by
  have labelledAt := sits.here.append_right.head
  have size : base + (code ++ [Instr.label target]).length = last + 1 + 1 := by
    rw [List.length_append, ← Nat.add_assoc, isLast, List.length_singleton]
  rw [← isLast] at labelledAt
  have isTarget : labelAt instrs (last + 1) = some target.text := labelAt_eq labelledAt
  refine ⟨chart.parent_label found isTarget (laid.nodup pred) fun other => ?_, ?_⟩
  · rw [laid.enders]
    constructor
    · rintro (ends | ⟨-, -, _, ⟨⟩, branched⟩)
      · exact .inl ⟨goesOn, Nat.succ_inj.mp (ends.trans isLast.symm)⟩
      · exact .inr branched
    · rintro (⟨-, rfl⟩ | branched)
      · exact .inl isLast
      · have above := sits.enclosed other (last + 1) target.text branched isTarget (by omega)
          (by omega)
        have below := chart.forward other (last + 1) target.text branched isTarget
        exact .inr ⟨above, Nat.lt_of_succ_lt (isLast ▸ below), target, rfl, branched⟩
  · rw [size]
    exact chart.children_goesOn labelledAt rfl rfl

theorem leaves_label (sits : Sits instrs base (code ++ [.label target]) exit)
    (lands : Lands instrs base code (some target)) {last : Nat}
    (isLast : last + 1 = base + code.length) (node : Nat) :
    node ∈ [last + 1] ↔ Leaves instrs base (code ++ [Instr.label target]).length exit node := by
  have labelledAt := sits.here.append_right.head
  have size : base + (code ++ [Instr.label target]).length = last + 1 + 1 := by
    rw [List.length_append, ← Nat.add_assoc, isLast, List.length_singleton]
  have exits := sits.exits
  rw [List.mem_singleton, Leaves, size]
  rw [size] at exits
  constructor
  · rintro rfl
    exact .inl rfl
  · rintro (ends | ⟨above, below, other, isExit, branched⟩)
    · exact Nat.succ_inj.mp ends
    · by_contra notLabel
      have inCode : node < base + code.length := by omega
      have inside := (lands node _ other.text above inCode branched (exits other isExit)).2.1
      omega

theorem laid_close (chart : Charted instrs nodes speaks mask)
    (sits : Sits instrs base (code ++ [.label target]) exit)
    (lands : Lands instrs base code (some target))
    (laid : Laid instrs nodes speaks mask program base code (some target) flow) {last : Nat}
    (isLast : last + 1 = base + code.length) (found : instrAt instrs last = some instr)
    (goesOn : instr.goesOn = true) (isOpen : flow.isOpen = true) :
    Laid instrs nodes speaks mask program base (code ++ [.label target]) exit
      (flow.close (last + 1)) := by
  have labelledAt := sits.here.append_right.head
  rw [← isLast] at labelledAt
  constructor
  case nodes =>
    rw [Flow.close_nodes isOpen, laid.nodes, List.length_append, List.length_singleton,
      List.range'_concat, Nat.one_mul, ← isLast]
  case lined =>
    rw [plainNodes_append, Flow.close_lineNodes]
    rintro node inside
    rcases List.mem_append.mp inside with inCode | inLabel
    · exact laid.lined node inCode
    · cases inLabel
  case first => exact (Flow.close_first flow _).trans laid.first
  case closed => exact fun _ => Flow.close_isOpen flow _
  case nodup =>
    rintro pred
    rw [Flow.close_enders isOpen]
    exact List.nodup_singleton _
  case enders =>
    rintro pred node
    rw [Flow.close_enders isOpen]
    exact leaves_label sits lands isLast node
  case leads =>
    rw [Flow.close_lead]
    exact laid.leads
  case led => exact fun prev final led => (laid.led prev final led).close _
  case ends =>
    rintro plain
    rw [Flow.not_isOpen (laid.ends plain)] at isOpen
    cases isOpen
  case placed =>
    rintro pred parent
    have placed := laid.placed pred parent
    rw [← isLast, placeAt_of_instrAt labelledAt] at placed
    exact Flow.Placed.close isOpen placed (joins_label chart sits laid isLast found goesOn pred)

/-- An instruction that prints no statement ends the line in front of it. -/
theorem laid_snoc {inner : Option LabelName} (chart : Charted instrs nodes speaks mask)
    (laid : Laid instrs nodes speaks mask program base code inner flow)
    (closed : flow.isOpen = false) {last : Nat} (isLast : last + 1 = base + code.length)
    (found : instrAt instrs (last + 1) = some instr) (skipped : instr.isPlain = false)
    (parent : nodes.parent (last + 1) = [last])
    (children : nodes.children (last + 1) = (placeAt instrs (base + (code ++ [instr]).length)).toList)
    (leaves : ∀ node, node ∈ [last + 1] ↔ Leaves instrs base (code ++ [instr]).length exit node) :
    Laid instrs nodes speaks mask program base (code ++ [instr]) exit
      (flow.append (.block ⟨last + 1, []⟩)) := by
  have ends := laid.ender closed isLast
  constructor
  case nodes =>
    rw [Flow.append_nodes closed, laid.nodes, List.length_append, List.length_singleton,
      List.range'_concat, Nat.one_mul, ← isLast]
    rfl
  case lined =>
    rw [plainNodes_append, Flow.append_lineNodes closed, plainNodes_skip skipped]
    rintro node inside
    rcases List.mem_append.mp inside with inCode | inLabel
    · exact List.mem_append_left _ (laid.lined node inCode)
    · cases inLabel
  case first => exact Flow.append_first laid.first _
  case closed =>
    rintro -
    rw [Flow.append_isOpen closed]
    rfl
  case nodup =>
    rintro pred
    rw [Flow.append_enders closed _ (ends pred)]
    exact List.nodup_singleton _
  case enders =>
    rintro pred node
    rw [Flow.append_enders closed _ (ends pred)]
    exact leaves node
  case leads => exact fun starts => Flow.append_lead_isSome (laid.leads starts) _
  case led =>
    rintro prev final led
    have block : (Flow.block ⟨last + 1, []⟩).Led speaks flow.endsLine final :=
      ⟨last + 1, List.mem_cons_self, chart.spoken _ _ found⟩
    exact (laid.led prev final led).followed.append closed (Option.some_ne_none _) block
  case ends => exact fun _ => Flow.append_endsLine closed rfl
  case placed =>
    rintro pred entered
    have placed := laid.placed pred entered
    rw [← isLast, placeAt_of_instrAt found] at placed
    refine Flow.Placed.append closed placed (ends pred) (line_placed parent children) ?_
    rintro line ⟨⟩
    exact chart.unmasked found

/-- A label that no branch goes to ends the code as an instruction does. -/
theorem laid_label (chart : Charted instrs nodes speaks mask)
    (sits : Sits instrs base (code ++ [.label target]) exit)
    (lands : Lands instrs base code (some target))
    (laid : Laid instrs nodes speaks mask program base code (some target) flow) {last : Nat}
    (isLast : last + 1 = base + code.length) (found : instrAt instrs last = some instr)
    (goesOn : instr.goesOn = true) (closed : flow.isOpen = false) :
    Laid instrs nodes speaks mask program base (code ++ [.label target]) exit
      (flow.append (.block ⟨last + 1, []⟩)) := by
  have labelledAt := sits.here.append_right.head
  rw [← isLast] at labelledAt
  obtain ⟨parents, children⟩ := joins_label chart sits laid isLast found goesOn last
  rw [laid.ender closed isLast] at parents
  exact laid_snoc chart laid closed isLast labelledAt rfl (List.perm_singleton.mp parents) children
    (leaves_label sits lands isLast)

/-- The end of the program stands behind code that has closed its statements. -/
theorem laid_endPgm (chart : Charted instrs nodes speaks mask)
    (laid : Laid instrs nodes speaks mask program base code none flow) {last : Nat}
    (isLast : last + 1 = base + code.length) (found : instrAt instrs last = some instr)
    (goesOn : instr.goesOn = true) (ended : instrAt instrs (last + 1) = some .endPgm)
    (whole : instrs.length = last + 1) :
    Laid instrs nodes speaks mask program base (code ++ [.endPgm]) none
      (flow.append (.block ⟨last + 1, []⟩)) := by
  have size : base + (code ++ [Instr.endPgm]).length = last + 1 + 1 := by
    rw [List.length_append, ← Nat.add_assoc, isLast, List.length_singleton]
  have outside : placeAt instrs (last + 1 + 1) = none := by
    rw [placeAt, whole, if_neg (Nat.not_succ_le_self _)]
  refine laid_snoc chart laid (laid.closed rfl) isLast ended rfl ?_ ?_ fun node => ?_
  · exact chart.parent_unlabelled found goesOn (Nat.le_of_eq whole.symm) (labelAt_eq ended)
  · rw [size, outside]
    refine chart.children_none fun target edge => ?_
    rcases (successor_iff ended).mp edge with ⟨⟨⟩, -⟩ | ⟨_, ⟨⟩, -⟩
  · rw [leaves_none, size, List.mem_singleton]
    exact Nat.succ_inj.symm

end Ending

/-! ## Parts of code in their places -/

namespace Sits

theorem seq_left (sits : Sits instrs base (left ++ right) exit) : Sits instrs base left none where
  here := sits.here.append_left
  exits := by rintro target ⟨⟩
  enclosed source target text branched labelled above below :=
    sits.enclosed source target text branched labelled above (by
      rw [List.length_append]
      omega)

theorem seq_right (sits : Sits instrs base (left ++ right) exit)
    (lands : Lands instrs base left none) : Sits instrs (base + left.length) right exit where
  here := sits.here.append_right
  exits target isExit := by
    rw [Nat.add_assoc, ← List.length_append]
    exact sits.exits target isExit
  enclosed source target text branched labelled above below := by
    rw [Nat.add_assoc, ← List.length_append] at below
    have inside := sits.enclosed source target text branched labelled (by omega) below
    by_contra inLeft
    have short := (lands source target text inside (Nat.lt_of_not_le inLeft) branched
      labelled).2.2 rfl
    omega

variable {target otherwise : LabelName} {instr : Instr}

/-- A branch to the exit does not enter the code behind it. -/
theorem ifThen (labels : (instrs.filterMap Instr.label?).Nodup)
    (sits : Sits instrs base (instr :: code) (some target))
    (branches : instr.target? = some target.text) : Sits instrs (base + 1) code (some target) where
  here := sits.here.tail
  exits other isExit := by
    rw [Nat.add_assoc, Nat.add_comm 1]
    exact sits.exits other isExit
  enclosed source node text branched labelled above below := by
    have exits := sits.exits target rfl
    rw [List.length_cons] at exits
    have inside := sits.enclosed source node text branched labelled (by omega) (by
      rw [List.length_cons]
      omega)
    rcases Nat.eq_or_lt_of_le inside with here | later
    · rw [← here, targetAt_eq sits.here.head, branches] at branched
      cases branched
      have same : node = base + (code.length + 1) := labelAt_inj labels labelled exits
      omega
    · exact later

theorem ifElse_body (labels : (instrs.filterMap Instr.label?).Nodup)
    (sits : Sits instrs base (instr :: (left ++ .jump target :: .label otherwise :: right)) exit)
    (branches : instr.target? = some otherwise.text) : Sits instrs (base + 1) left none where
  here := sits.here.ifElse.body
  exits := by rintro other ⟨⟩
  enclosed source node text branched labelled above below := by
    obtain ⟨branchAt, -, -, labelledAt, -, total⟩ := sits.here.ifElse
    have inside := sits.enclosed source node text branched labelled (by omega) (by omega)
    rcases Nat.eq_or_lt_of_le inside with here | later
    · rw [← here, targetAt_eq branchAt, branches] at branched
      cases branched
      have same : node = base + 1 + left.length + 1 :=
        labelAt_inj labels labelled (labelAt_eq labelledAt)
      omega
    · exact later

theorem ifElse_other (labels : (instrs.filterMap Instr.label?).Nodup)
    (sits : Sits instrs base (instr :: (left ++ .jump target :: .label otherwise :: right))
      (some target))
    (branches : instr.target? = some otherwise.text) (lands : Lands instrs (base + 1) left none) :
    Sits instrs (base + 1 + left.length + 1 + 1) right (some target) where
  here := sits.here.ifElse.other
  exits other isExit := by
    rw [← sits.here.ifElse.size]
    exact sits.exits other isExit
  enclosed source node text branched labelled above below := by
    obtain ⟨branchAt, -, jumpAt, labelledAt, -, total⟩ := sits.here.ifElse
    have exits := sits.exits target rfl
    rw [← total] at below
    rw [total] at exits
    have inside := sits.enclosed source node text branched labelled (by omega) below
    by_contra early
    by_cases atBranch : source = base
    · rw [atBranch, targetAt_eq branchAt, branches] at branched
      cases branched
      have same : node = base + 1 + left.length + 1 :=
        labelAt_inj labels labelled (labelAt_eq labelledAt)
      omega
    by_cases inBody : source < base + 1 + left.length
    · have short := (lands source node text (by omega) inBody branched labelled).2.2 rfl
      omega
    by_cases atJump : source = base + 1 + left.length
    · rw [atJump, targetAt_eq jumpAt] at branched
      cases branched
      have same : node = base + 1 + left.length + 1 + 1 + right.length :=
        labelAt_inj labels labelled exits
      omega
    have atLabel : source = base + 1 + left.length + 1 := by omega
    rw [atLabel, targetAt_eq labelledAt] at branched
    cases branched

theorem close (sits : Sits instrs base (code ++ [.label target]) exit) :
    Sits instrs base code (some target) where
  here := sits.here.append_left
  exits := by
    rintro other ⟨⟩
    exact labelAt_eq sits.here.append_right.head
  enclosed source node text branched labelled above below :=
    sits.enclosed source node text branched labelled above (by
      rw [List.length_append]
      omega)

theorem lands (labels : (instrs.filterMap Instr.label?).Nodup) (sits : Sits instrs base code exit)
    (form : LabelCode program exit code) : Lands instrs base code exit :=
  form.lands labels sits.here sits.exits

end Sits

/-! ## The code of a statement -/

/-- Code behind an instruction that goes on to it is entered there only. -/
theorem Charted.entered (chart : Charted instrs nodes speaks mask)
    (form : LabelCode program exit code) {node : Nat} {instr : Instr}
    (found : instrAt instrs node = some instr) (goesOn : instr.goesOn = true)
    (placed : CodeAt instrs (node + 1) code) : nodes.parent (node + 1) = [node] := by
  obtain ⟨start, here, unlabelled⟩ := placed.starts form
  exact chart.parent_unlabelled found goesOn (le_length_of_instrAt here) unlabelled

/-- Code in label form is a flow. -/
theorem laid_of_labelCode (chart : Charted instrs nodes speaks mask)
    (form : LabelCode program exit code) (sits : Sits instrs base code exit) :
    ∃ flow, Laid instrs nodes speaks mask program base code exit flow := by
  have labels := chart.labels
  induction form generalizing base with
  | plain node exit => exact ⟨_, laid_plain chart sits⟩
  | seq head tail headIh tailIh =>
      have lands := sits.seq_left.lands labels head
      obtain ⟨start, headLaid⟩ := headIh sits.seq_left
      obtain ⟨next, tailLaid⟩ := tailIh (sits.seq_right lands)
      obtain ⟨last, instr, isLast, found, goesOn⟩ := sits.seq_left.here.finishes head
      have placed := (sits.seq_right lands).here
      obtain ⟨start, here, -⟩ := placed.starts tail
      rw [← isLast] at placed
      have parent := chart.entered tail found goesOn placed
      rw [isLast] at parent
      exact ⟨_, laid_seq chart sits lands headLaid tailLaid isLast parent here⟩
  | ifThen guard inner ih =>
      obtain ⟨flow, laid⟩ := ih (sits.ifThen labels guard.target)
      have entered := chart.entered inner sits.here.head guard.goesOn sits.here.tail
      exact ⟨_, laid_ifThen chart sits guard inner.length_pos entered laid⟩
  | @ifElse cond body other otherwise target instr left right guard inner elseInner bodyIh otherIh =>
      have bodySits := sits.ifElse_body labels guard.target
      have lands := bodySits.lands labels inner
      have otherSits := sits.ifElse_other labels guard.target lands
      obtain ⟨bodyFlow, bodyLaid⟩ := bodyIh bodySits
      obtain ⟨otherFlow, otherLaid⟩ := otherIh otherSits
      obtain ⟨branchAt, -, jumpAt, labelledAt, -, total⟩ := sits.here.ifElse
      obtain ⟨last, instr', isLast, found, goesOn⟩ := bodySits.here.finishes inner
      obtain ⟨start, starts, -⟩ := otherSits.here.starts elseInner
      have entered := chart.entered inner branchAt guard.goesOn bodySits.here
      have enteredOther := chart.entered elseInner labelledAt rfl otherSits.here
      have jumped : nodes.parent (base + 1 + left.length) = [last] := by
        rw [← isLast] at jumpAt ⊢
        exact chart.parent_unlabelled found goesOn (le_length_of_instrAt jumpAt)
          (labelAt_eq jumpAt)
      have isOtherwise : labelAt instrs (base + 1 + left.length + 1) = some otherwise.text :=
        labelAt_eq labelledAt
      have turned : nodes.parent (base + 1 + left.length + 1) = [base] := by
        refine List.perm_singleton.mp
          (chart.parent_label jumpAt isOtherwise (List.nodup_singleton base) fun source => ?_)
        rw [List.mem_singleton]
        constructor
        · rintro rfl
          exact .inr ((targetAt_eq branchAt).trans guard.target)
        · rintro (⟨⟨⟩, -⟩ | branched)
          -- the body has no branch that leaves it
          have above := sits.enclosed source _ otherwise.text branched isOtherwise (by omega)
            (by rw [total]; omega)
          have below := chart.forward source _ otherwise.text branched isOtherwise
          by_contra notBranch
          have short := (lands source _ otherwise.text
            (Nat.lt_of_le_of_ne above (Ne.symm notBranch)) (Nat.lt_of_succ_lt_succ below) branched
            isOtherwise).2.2 rfl
          omega
      exact ⟨_, laid_ifElse chart sits guard rfl elseInner.length_pos lands bodyLaid otherLaid
        entered isLast jumped turned enteredOther starts⟩
  | @close program target code exit inner ih =>
      have codeSits := sits.close
      obtain ⟨flow, laid⟩ := ih codeSits
      obtain ⟨last, instr, isLast, found, goesOn⟩ := codeSits.here.finishes inner
      have lands := codeSits.lands labels inner
      cases isOpen : flow.isOpen with
      | true => exact ⟨_, laid_close chart sits lands laid isLast found goesOn isOpen⟩
      | false => exact ⟨_, laid_label chart sits lands laid isLast found goesOn isOpen⟩

end Shapes

end Regions.LabelFlow

end OpenCLDecompiler
