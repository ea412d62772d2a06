import OpenCLDecompiler.Regions.Collapse

/-!
# Merging a statement

When both ways of a branch and the code behind its join are merged, the branch
itself is: the region of the statement is opened and then closed.
-/

namespace OpenCLDecompiler.Regions

/-! ## One branch -/

/--
The regions around a branch whose ways are merged.  The join belongs to the
statement, or is the exit of the code.
-/
structure Surrounds (graph : Graph) (branch : Branch) (join : RegionId) (inner : List RegionId)
    (pred exit tail : Option RegionId) (others joinOthers : List RegionId) : Prop where
  distinct : (branch.leadRegions ++ (tail.toList ++ (exit.toList ++ pred.toList))).Nodup
  apart : ∀ region ∈ branch.leadRegions ++ (tail.toList ++ (exit.toList ++ pred.toList)),
    region ∉ inner
  joinApart : join ∉ branch.leadRegions ++ tail.toList
  inUse : ∀ region ∈ branch.leadRegions ++ (tail.toList ++ (exit.toList ++ pred.toList)),
    region < graph.next
  leadType : ∀ lead, branch.lead = some lead → graph.type lead.region ≠ .basic
  leadParent : ∀ lead, branch.lead = some lead → graph.parent lead.region = pred.toList
  leadChildren : ∀ lead, branch.lead = some lead → graph.children lead.region = [branch.header]
  predType : ∀ above, pred = some above → graph.type above = .basic
  predChild : ∀ above, pred = some above → branch.entry ∈ graph.children above
  predOld : ∀ above, pred = some above → ∀ child ∈ graph.children above, child < graph.next
  tailType : ∀ next, tail = some next → graph.type next ≠ .basic
  tailChildren : ∀ next, tail = some next → graph.children next = exit.toList
  exitType : ∀ outer, exit = some outer → graph.type outer = .basic
  closes : branch.lead = none → tail = none → exit = none
  joined : (joinOthers = [] ∧ graph.children join = (tail.or exit).toList ∧
      (∀ next, tail = some next → graph.parent next = [join]) ∧
      ∀ outer, exit = some outer → outer ≠ join ∧
        (graph.parent outer).Perm (tail.getD join :: others)) ∨
    (tail = none ∧ exit = some join ∧ joinOthers = others ∧ others ≠ [])

section Branch

variable {graph opened : Graph} {branch : Branch} {body join before stmt endR : RegionId}
  {other pred exit tail : Option RegionId} {others joinOthers : List RegionId}

/-- The end of the opened statement leads to the code behind it. -/
theorem Surrounds.firstChild_end
    (surrounds : Surrounds graph branch join (branch.header :: body :: other.toList) pred exit tail
      others joinOthers)
    (ready : Ready graph branch.header before body join other joinOthers)
    (opens : Opened graph opened branch.header body join other joinOthers stmt endR) :
    firstChild opened endR = tail.or exit := by
  rcases surrounds.joined with ⟨own, children, -⟩ | ⟨noTail, isExit, same, shared⟩
  · have distinct := ready.distinct
    have joinInUse : join < graph.next := ready.inUse join (by simp)
    have kept : opened.children join = graph.children join := by
      refine opens.children join joinInUse ?_ ?_ ?_
      · rintro rfl
        simp at distinct
      · rintro rfl
        simp at distinct
      · rintro rfl
        simp at distinct
    rw [opens.own own, firstChild, kept, children]
    cases tail.or exit <;> rfl
  · subst same
    obtain ⟨-, -, child, -⟩ := opens.shared shared
    rw [noTail, isExit, firstChild, child]
    rfl

theorem Surrounds.opening
    (surrounds : Surrounds graph branch join (branch.header :: body :: other.toList) pred exit tail
      others joinOthers)
    (opens : Opened graph opened branch.header body join other joinOthers stmt endR) :
    Opening opened branch pred exit tail stmt endR others := by
  have stmtNew := opens.stmtNew
  have inUse := surrounds.inUse
  have later := opens.grows.next
  have kept : ∀ region ∈ branch.leadRegions ++ (tail.toList ++ (exit.toList ++ pred.toList)),
      opened.children region = graph.children region := by
    rintro region inside
    have apart := surrounds.apart region inside
    simp only [List.mem_cons, Option.mem_toList, not_or] at apart
    exact opens.children region (inUse region inside) apart.1 apart.2.1 apart.2.2
  have stmtApart : stmt ∉ branch.leadRegions ++ (tail.toList ++ (exit.toList ++ pred.toList)) := by
    rintro inside
    rw [stmtNew] at inside
    exact Nat.lt_irrefl _ (inUse _ inside)
  have isLead : ∀ {lead}, branch.lead = some lead → lead.region ∈ branch.leadRegions := by
    rintro lead isLead
    simp [Branch.leadRegions, isLead]
  have leadInside : ∀ {lead}, branch.lead = some lead →
      lead.region ∈ branch.leadRegions ++ (tail.toList ++ (exit.toList ++ pred.toList)) :=
    fun found => List.mem_append_left _ (isLead found)
  have tailInside : ∀ {next}, tail = some next →
      next ∈ branch.leadRegions ++ (tail.toList ++ (exit.toList ++ pred.toList)) := by
    rintro next rfl
    simp
  have exitInside : ∀ {outer}, exit = some outer →
      outer ∈ branch.leadRegions ++ (tail.toList ++ (exit.toList ++ pred.toList)) := by
    rintro outer rfl
    simp
  have predInside : ∀ {above}, pred = some above →
      above ∈ branch.leadRegions ++ (tail.toList ++ (exit.toList ++ pred.toList)) := by
    rintro above rfl
    simp
  have parent : ∀ region, region ∈ branch.leadRegions ++ tail.toList →
      region < graph.next → opened.parent region = graph.parent region := by
    rintro region inside old
    refine opens.parent region old ?_
    rintro rfl
    exact surrounds.joinApart inside
  constructor
  case distinct =>
    rw [around, List.nodup_middle, List.nodup_cons]
    exact ⟨stmtApart, surrounds.distinct⟩
  case inUse =>
    rintro region inside
    rw [around] at inside
    rcases List.mem_cons.mp (List.perm_middle.mem_iff.mp inside) with rfl | inside
    · exact opens.inUse
    · exact Nat.lt_of_lt_of_le (inUse region inside) later
  case leadType =>
    rintro lead found
    rw [opens.grows.type (inUse _ (leadInside found))]
    exact surrounds.leadType lead found
  case leadParent =>
    rintro lead found
    rw [parent _ (List.mem_append_left _ (isLead found)) (inUse _ (leadInside found))]
    exact surrounds.leadParent lead found
  case leadChildren =>
    rintro lead found
    rw [kept _ (leadInside found)]
    exact surrounds.leadChildren lead found
  case predType =>
    rintro above found
    rw [opens.grows.type (inUse _ (predInside found))]
    exact surrounds.predType above found
  case predChild =>
    rintro above found
    rw [kept _ (predInside found)]
    exact surrounds.predChild above found
  case predOld =>
    rintro above found
    rw [kept _ (predInside found)]
    refine ⟨fun inside => ?_, fun child inside => ?_⟩
    · have old := surrounds.predOld above found stmt inside
      rw [stmtNew] at old
      exact Nat.lt_irrefl _ old
    · exact Nat.lt_of_lt_of_le (surrounds.predOld above found child inside) later
  case tailType =>
    rintro next found
    rw [opens.grows.type (inUse _ (tailInside found))]
    exact surrounds.tailType next found
  case tailChildren =>
    rintro next found
    rw [kept _ (tailInside found)]
    exact surrounds.tailChildren next found
  case tailParent =>
    rintro next found
    rcases surrounds.joined with ⟨own, -, tailParent, -⟩ | ⟨noTail, -⟩
    · have inside : next ∈ branch.leadRegions ++ tail.toList := by simp [found]
      rw [parent next inside (inUse _ (tailInside found)), tailParent next found, opens.own own]
    · rw [noTail] at found
      cases found
  case exitType =>
    rintro outer found
    rw [opens.grows.type (inUse _ (exitInside found))]
    exact surrounds.exitType outer found
  case exitParent =>
    rintro outer found
    rcases surrounds.joined with ⟨own, -, -, exitParent⟩ | ⟨noTail, isExit, same, shared⟩
    · obtain ⟨notJoin, parents⟩ := exitParent outer found
      rw [opens.parent outer (inUse _ (exitInside found)) notJoin, opens.own own]
      exact parents
    · subst same
      cases isExit.symm.trans found
      obtain ⟨-, -, -, parents⟩ := opens.shared shared
      rw [noTail]
      exact parents
  case stmtType =>
    rw [show opened.type stmt = (opened.label stmt).1 from rfl, opens.label]
    split <;> simp
  case stmtParent => exact opens.stmtParent
  case stmtChildren => exact opens.stmtChildren
  case closes => exact surrounds.closes

/-- `process_region_graph_dfs` on the branch leaves one region for the statement and its tail. -/
theorem Ready.statement
    (ready : Ready graph branch.header before body join other joinOthers)
    (surrounds : Surrounds graph branch join (branch.header :: body :: other.toList) pred exit tail
      others joinOthers)
    (isBefore : branch.before pred = some before) :
    ∃ opened endR final result region,
      (∀ visited last, processRegion ⟨graph, visited⟩ branch.header last =
        some (⟨final, visited⟩, result)) ∧
      (pred = none → result = region) ∧
      Opened graph opened branch.header body join other joinOthers graph.next endR ∧
      Opening opened branch pred exit tail graph.next endR others ∧
      Closed opened final branch pred exit tail graph.next others region := by
  obtain ⟨opened, endR, process, opens⟩ := ready.process
  have opening := surrounds.opening opens
  obtain ⟨middle, add, added⟩ := opening.add isBefore
  obtain ⟨final, result, region, join, isResult, joined⟩ := opening.join isBefore added
  refine ⟨opened, endR, final, result, region, fun visited last => ?_, isResult, opens, opening,
    opening.closed isBefore added joined⟩
  rw [process, finish, surrounds.firstChild_end ready opens, add, Option.bind_some, join]
  rfl

end Branch

/-! ## Code behind the join -/

/--
The code behind the join of a statement is merged: `base` is the graph behind
it, `tail` the region of the code, and `regions` are the join and the regions of
the code.  A statement that ends at the exit has nothing behind its join.
-/
structure Behind (cfg : Cfg) (now base : Graph) (regions : List RegionId) (join : RegionId)
    (exit tail : Option RegionId) (others enders joinOthers : List RegionId) (out : Printed) :
    Prop where
  grows : now.Grows base
  children : ∀ region, region < now.next → region ∉ regions →
    base.children region = now.children region
  parent : ∀ region, region < now.next → region ∉ regions → exit ≠ some region →
    base.parent region = now.parent region
  inside : ∀ next, tail = some next → Inside regions now base next ∧ next ≠ join
  type : ∀ next, tail = some next → base.type next ≠ .basic
  ownChildren : ∀ next, tail = some next → base.children next = exit.toList
  joinParent : (base.parent join).Perm (enders ++ joinOthers)
  joined : (joinOthers = [] ∧ base.children join = (tail.or exit).toList ∧
      (∀ next, tail = some next → base.parent next = [join]) ∧
      ∀ outer, exit = some outer → outer ≠ join ∧
        (base.parent outer).Perm (tail.getD join :: others)) ∨
    (tail = none ∧ exit = some join ∧ joinOthers = others ∧ others ≠ [])
  shows : ∀ next, tail = some next → ∀ later, base.Grows later →
    (∀ other, Inside regions now base other → other ≠ next →
      later.children other = base.children other) → Shows cfg later next out
  enters : ∀ (before : Graph) (visited seen : Finset RegionId),
    (∀ region ∈ regions, before.children region = now.children region) →
    (∀ region ∈ regions, region ∉ visited ∧ region ∉ seen) →
    (∀ outer, exit = some outer → outer ∈ seen) →
    (∀ extra : Finset RegionId, (∀ region ∈ extra, region ∈ regions) →
      Enters ⟨before, visited ∪ extra⟩ exit ⟨now, seen ∪ extra⟩) →
    Enters ⟨before, visited⟩ (some join) ⟨base, seen ∪ regions.toFinset⟩ ∧
      join ∈ seen ∪ regions.toFinset

/-- A statement that ends at the exit. -/
theorem behind_shared {cfg : Cfg} {now : Graph} {join : RegionId} {others enders : List RegionId}
    (parents : (now.parent join).Perm (enders ++ others)) (shared : others ≠ []) :
    Behind cfg now now [] join (some join) none others enders others .empty := by
  constructor
  case grows => exact Graph.Grows.refl now
  case children => exact fun _ _ _ => rfl
  case parent => exact fun _ _ _ _ => rfl
  case joinParent => exact parents
  case joined => exact .inr ⟨rfl, rfl, rfl, shared⟩
  case enters =>
    rintro before visited seen - - exitSeen enters
    have entered := enters ∅ (by simp)
    rw [Finset.union_empty, Finset.union_empty] at entered
    rw [List.toFinset_nil, Finset.union_empty]
    exact ⟨entered, exitSeen join rfl⟩
  all_goals exact nofun

/-- A statement with a join of its own, behind which the code is merged. -/
theorem Collapsed.behind {cfg : Cfg} {graph now base : Graph} {join : RegionId} {rest : Code}
    {exit tail : Option RegionId} {others enders : List RegionId}
    (collapsed : Collapsed cfg now base rest (some join) exit others tail)
    (walks : Walks now base rest (some join) exit tail)
    (sits : Sits cfg graph now rest (some join) exit others)
    (children : now.children join = (rest.entry exit).toList)
    (parents : (now.parent join).Perm enders) :
    Behind cfg now base (join :: rest.regions) join exit tail others enders [] (rest.printed cfg) := by
  have joinInUse : join < now.next := sits.bound (by simp)
  have joinApart := sits.not_mem_pred
  have joinExit : exit ≠ some join := by
    rintro rfl
    exact sits.header_ne_join rfl
  have tailApart : ∀ next, tail = some next → next ≠ join := fun next found =>
    (collapsed.inside next found).ne joinApart joinInUse
  have widen : ∀ {other}, Inside rest.regions now base other →
      Inside (join :: rest.regions) now base other := fun inside =>
    ⟨inside.1.imp (List.mem_cons_of_mem _) id, inside.2⟩
  have joinChildren : base.children join = (tail.or exit).toList := by
    have replaced := collapsed.predChildren join rfl
    rw [children] at replaced
    rw [replaced]
    have isSome := collapsed.isSome
    cases starts : rest.first with
    | none =>
        rw [starts] at isSome
        cases tail with
        | none => simp [merge, Code.entry, starts]
        | some next => cases isSome
    | some first =>
        rw [starts] at isSome
        cases tail with
        | none => cases isSome
        | some next => simp [merge, Code.entry, starts]
  constructor
  case grows => exact collapsed.grows
  case children =>
    rintro region old outside
    rw [List.mem_cons, not_or] at outside
    exact collapsed.children region old outside.2
      fun same => outside.1 (Option.some.inj same).symm
  case parent =>
    rintro region old outside notExit
    rw [List.mem_cons, not_or] at outside
    exact collapsed.parent region old outside.2 notExit
  case inside => exact fun next found => ⟨widen (collapsed.inside next found), tailApart next found⟩
  case type => exact collapsed.type
  case ownChildren => exact collapsed.ownChildren
  case joinParent =>
    rw [collapsed.parent join joinInUse joinApart joinExit, List.append_nil]
    exact parents
  case joined =>
    refine .inl ⟨rfl, joinChildren, fun next found => collapsed.ownParent next found, ?_⟩
    rintro outer isExit
    obtain ⟨above, isJoin, exitParents⟩ := collapsed.exitParent outer isExit
    cases isJoin
    exact ⟨fun same => joinExit (same ▸ isExit), exitParents⟩
  case shows =>
    rintro next found later grows kept
    exact collapsed.shows next found later grows fun other inside differs =>
      kept other (widen inside) differs
  case enters =>
    rintro before visited seen same fresh exitSeen enters
    obtain ⟨joinFresh, -⟩ := fresh join List.mem_cons_self
    have restEnters : Enters ⟨before, insert join visited⟩ (rest.entry exit)
        ⟨base, insert join seen ∪ rest.regions.toFinset⟩ := by
      refine walks.enters (fun region inside => same region (List.mem_cons_of_mem _ inside)) ?_ ?_ ?_
      · rintro region inside
        obtain ⟨notVisited, notSeen⟩ := fresh region (List.mem_cons_of_mem _ inside)
        have notJoin : region ≠ join := fun same => joinApart (same ▸ inside)
        simp [notVisited, notSeen, notJoin]
      · exact fun outer isExit => Finset.mem_insert_of_mem (exitSeen outer isExit)
      · rintro extra subset
        have entered := enters (insert join extra) fun region inside => by
          rcases Finset.mem_insert.mp inside with rfl | inside
          · exact List.mem_cons_self
          · exact List.mem_cons_of_mem _ (subset region inside)
        rwa [Finset.union_insert, Finset.union_insert, ← Finset.insert_union,
          ← Finset.insert_union] at entered
    have final : insert join seen ∪ rest.regions.toFinset =
        seen ∪ (join :: rest.regions).toFinset := by
      rw [List.toFinset_cons, Finset.union_insert, Finset.insert_union]
    rw [final] at restEnters
    refine ⟨.inr ⟨joinFresh, ?_⟩, by simp⟩
    have beforeChildren : before.children join = (rest.entry exit).toList := by
      rw [same join List.mem_cons_self, children]
    obtain ⟨result, -, search⟩ := Searches.few beforeChildren restEnters (by
      rw [joinChildren]
      cases tail.or exit <;> simp)
    exact ⟨result, search⟩

/-! ## Statements -/

/-- Code that starts with a statement: its regions, and those behind the join. -/
structure Splits (cfg : Cfg) (graph : Graph) (code : Code) (branch : Branch) (body other : Code)
    (join : RegionId) (regions : List RegionId) (pred exit : Option RegionId) : Prop where
  codeRegions : code.regions =
    branch.leadRegions ++ branch.header :: (body.regions ++ other.regions) ++ regions
  codeFirst : code.first = some branch.entry
  leadNodes : ∀ lead, branch.lead = some lead → lead.nodes.Nodup
  bodyNodes : body.nodes.Nodup
  otherNodes : other.nodes.Nodup
  branchPlaced : branch.Placed cfg graph pred (Code.targets body other join)
  bodyFirst : body.first.isSome = true
  bodyPlaced : body.Placed cfg graph (some branch.header) (some join)
  otherPlaced : other.Placed cfg graph (some branch.header) (some join)
  leadPrints : ∀ lead, branch.lead = some lead → lead.statements cfg ≠ []
  bodyMergeable : body.Mergeable cfg true
  otherMergeable : other.Mergeable cfg true
  isJoin : join ∈ regions ∨ exit = some join
  joinType : graph.type join = .basic

section Statement

variable {cfg : Cfg} {graph now base middle after : Graph} {code body other : Code}
  {branch : Branch} {join bodyR : RegionId} {regions : List RegionId}
  {pred exit tail otherR : Option RegionId} {others joinOthers : List RegionId} {out : Printed}

/-- No region stands twice in or around the code. -/
theorem Splits.nodup (splits : Splits cfg graph code branch body other join regions pred exit)
    (sits : Sits cfg graph now code pred exit others) :
    (branch.leadRegions ++ branch.header :: (body.regions ++ other.regions) ++
      (regions ++ (exit.toList ++ pred.toList))).Nodup := by
  have distinct := sits.distinct
  rwa [splits.codeRegions, List.append_assoc] at distinct

theorem Splits.inUse (splits : Splits cfg graph code branch body other join regions pred exit)
    (sits : Sits cfg graph now code pred exit others) {region : RegionId}
    (inside : region ∈ branch.leadRegions ++ branch.header :: (body.regions ++ other.regions) ++
      (regions ++ (exit.toList ++ pred.toList))) : region < graph.next := by
  refine sits.inUse region ?_
  rwa [splits.codeRegions, List.append_assoc]

theorem Splits.join_mem (splits : Splits cfg graph code branch body other join regions pred exit) :
    join ∈ regions ++ (exit.toList ++ pred.toList) := by
  rcases splits.isJoin with inside | rfl
  · exact List.mem_append_left _ inside
  · simp

/-- The ways of the branch, its lead and its header are as before the walk. -/
theorem Splits.same (splits : Splits cfg graph code branch body other join regions pred exit)
    (sits : Sits cfg graph now code pred exit others)
    (behind : Behind cfg now base regions join exit tail others
      (body.enders branch.header ++ other.enders branch.header) joinOthers out)
    {region : RegionId}
    (inside : region ∈ branch.leadRegions ++ branch.header :: (body.regions ++ other.regions)) :
    base.children region = graph.children region ∧ base.parent region = graph.parent region := by
  have inCode : region ∈ code.regions := by
    rw [splits.codeRegions]
    exact List.mem_append_left _ inside
  have old : region < now.next := sits.bound (List.mem_append_left _ inCode)
  have apart := (List.nodup_append.mp (splits.nodup sits)).2.2 region inside
  have outside : region ∉ regions := fun listed =>
    apart region (List.mem_append_left _ listed) rfl
  have notExit : exit ≠ some region := by
    rintro rfl
    exact apart region (by simp) rfl
  obtain ⟨children, parent⟩ := sits.same region inCode
  exact ⟨(behind.children region old outside).trans children,
    (behind.parent region old outside notExit).trans parent⟩

theorem Splits.headerChildren
    (splits : Splits cfg graph code branch body other join regions pred exit)
    (sits : Sits cfg graph now code pred exit others)
    (behind : Behind cfg now base regions join exit tail others
      (body.enders branch.header ++ other.enders branch.header) joinOthers out) :
    base.children branch.header = Code.targets body other join :=
  (splits.same sits behind (by simp)).1.trans splits.branchPlaced.children

theorem Splits.targets_inUse
    (splits : Splits cfg graph code branch body other join regions pred exit)
    (sits : Sits cfg graph now code pred exit others) {child : RegionId}
    (inside : child ∈ Code.targets body other join) : child < graph.next := by
  have joinInUse := splits.inUse sits (List.mem_append_right _ splits.join_mem)
  have entry : ∀ way : Code, (∀ region ∈ way.regions, region < graph.next) →
      child ∈ (way.entry (some join)).toList → child < graph.next := by
    rintro way wayInUse inside
    unfold Code.entry at inside
    cases starts : way.first with
    | none =>
        rw [starts] at inside
        obtain rfl : child = join := by simpa using inside
        exact joinInUse
    | some first =>
        rw [starts] at inside
        obtain rfl : child = first := by simpa using inside
        exact wayInUse child (Code.first_mem starts)
  rcases List.mem_append.mp inside with inBody | inOther
  · exact entry body (fun region listed => splits.inUse sits (by simp [listed])) inBody
  · exact entry other (fun region listed => splits.inUse sits (by simp [listed])) inOther

/-- One of the two ways, with the ends of the other one among the other parents of the join. -/
theorem Splits.way_sits (splits : Splits cfg graph code branch body other join regions pred exit)
    (sits : Sits cfg graph now code pred exit others)
    (behind : Behind cfg now base regions join exit tail others
      (body.enders branch.header ++ other.enders branch.header) joinOthers out)
    {way : Code} {rest : List RegionId}
    (placed : way.Placed cfg graph (some branch.header) (some join))
    (mergeable : way.Mergeable cfg true) (nodes : way.nodes.Nodup)
    (subset : ∀ region ∈ way.regions, region ∈ body.regions ++ other.regions)
    (wayNodup : way.regions.Nodup)
    (starts : ∀ first, way.first = some first → first ∈ Code.targets body other join)
    (parents : (base.parent join).Perm (way.enders branch.header ++ rest)) (shared : rest ≠ []) :
    Sits cfg graph base way (some branch.header) (some join) rest := by
  have nodup := splits.nodup sits
  have joinMem := splits.join_mem
  have grows : graph.Grows base := sits.grows.trans behind.grows
  have headerChildren := splits.headerChildren sits behind
  constructor
  case placed => exact placed
  case mergeable => exact mergeable
  case nodes => exact nodes
  case distinct =>
    have joinHeader : join ≠ branch.header := by grind
    have apart : ∀ region ∈ way.regions, region ≠ join ∧ region ≠ branch.header := by grind
    simp only [Option.toList_some, List.nodup_append, wayNodup]
    grind
  case inUse =>
    rintro region inside
    simp only [Option.toList_some, List.mem_append, List.mem_singleton] at inside
    rcases inside with inWay | rfl | rfl
    · have listed := subset region inWay
      exact splits.inUse sits (by grind)
    · exact splits.inUse sits (List.mem_append_right _ joinMem)
    · exact splits.inUse sits (by simp)
  case exitType =>
    rintro outer ⟨⟩
    exact splits.joinType
  case predType =>
    rintro above ⟨⟩
    exact splits.branchPlaced.type
  case grows => exact grows
  case same =>
    rintro region inside
    have listed := subset region inside
    exact splits.same sits behind (by grind)
  case predChild =>
    rintro above first ⟨⟩ isFirst
    rw [headerChildren]
    exact starts first isFirst
  case predOld =>
    rintro above ⟨⟩ child inside
    rw [headerChildren] at inside
    exact Nat.lt_of_lt_of_le (splits.targets_inUse sits inside) grows.next
  case exitParent =>
    rintro outer ⟨⟩
    exact ⟨branch.header, rfl, parents⟩
  case shared => exact fun _ => shared
  case start => exact nofun

theorem Code.enders_ne_nil {code : Code} {pred : RegionId} : code.enders pred ≠ [] := by
  induction code generalizing pred with
  | done => simp [Code.enders]
  | block block => simp [Code.enders]
  | own branch body other join rest bodyIh otherIh restIh => exact restIh
  | shared branch body other bodyIh otherIh => simp [Code.enders, bodyIh]

theorem Splits.ways (splits : Splits cfg graph code branch body other join regions pred exit)
    (sits : Sits cfg graph now code pred exit others)
    (behind : Behind cfg now base regions join exit tail others
      (body.enders branch.header ++ other.enders branch.header) joinOthers out) :
    Ways cfg graph base branch.header join body other joinOthers := by
  have nodup := splits.nodup sits
  have both : (body.regions ++ other.regions).Nodup := by grind
  obtain ⟨bodyNodup, otherNodup, -⟩ := List.nodup_append.mp both
  have parents := behind.joinParent
  constructor
  case bodySits =>
    refine splits.way_sits sits behind splits.bodyPlaced splits.bodyMergeable splits.bodyNodes
      (fun region inside => List.mem_append_left _ inside) bodyNodup ?_ ?_ ?_
    · rintro first starts
      simp [Code.targets, Code.entry, starts]
    · rwa [List.append_assoc] at parents
    · simp [Code.enders_ne_nil]
  case otherSits =>
    refine splits.way_sits sits behind splits.otherPlaced splits.otherMergeable splits.otherNodes
      (fun region inside => List.mem_append_right _ inside) otherNodup ?_ ?_ ?_
    · rintro first starts
      simp [Code.targets, Code.entry, starts]
    · rw [← List.append_assoc]
      exact parents.trans (List.perm_append_comm.append_right _)
    · simp [Code.enders_ne_nil]
  case children => exact splits.headerChildren sits behind
  case bodyFirst => exact splits.bodyFirst
  case distinct => exact both

/-- There is a region in front of the branch. -/
theorem Splits.exists_before
    (splits : Splits cfg graph code branch body other join regions pred exit)
    (sits : Sits cfg graph now code pred exit others) :
    ∃ before, branch.before pred = some before := by
  cases lead : branch.lead with
  | some block => exact ⟨block.region, by simp [Branch.before, lead]⟩
  | none =>
      cases pred with
      | some above => exact ⟨above, by simp [Branch.before, lead]⟩
      | none =>
          have entry : branch.entry = branch.header := by simp [Branch.entry, lead]
          have type := sits.start rfl branch.entry splits.codeFirst
          rw [entry] at type
          exact absurd splits.branchPlaced.type type

/-- The branch is ready for its region once both ways are merged. -/
theorem Splits.ready (splits : Splits cfg graph code branch body other join regions pred exit)
    (sits : Sits cfg graph now code pred exit others)
    (behind : Behind cfg now base regions join exit tail others
      (body.enders branch.header ++ other.enders branch.header) joinOthers out)
    (merged : Merged cfg base after branch.header join body other joinOthers bodyR otherR)
    {before : RegionId} (isBefore : branch.before pred = some before) :
    Ready after branch.header before bodyR join otherR joinOthers := by
  have nodup := splits.nodup sits
  have joinMem := splits.join_mem
  have grows : graph.Grows base := sits.grows.trans behind.grows
  have larger := merged.grows.next
  have headerInUse : branch.header < base.next :=
    Nat.lt_of_lt_of_le (splits.inUse sits (by simp)) grows.next
  have joinInUse : join < base.next :=
    Nat.lt_of_lt_of_le (splits.inUse sits (List.mem_append_right _ joinMem)) grows.next
  have headerApart : branch.header ∉ body.regions ++ other.regions := by grind
  have headerJoin : branch.header ≠ join := by grind
  constructor
  case type =>
    rw [merged.grows.type headerInUse, grows.type (splits.inUse sits (by simp))]
    exact splits.branchPlaced.type
  case parent =>
    rw [merged.parent branch.header headerInUse headerApart headerJoin,
      (splits.same sits behind (by simp)).2, splits.branchPlaced.parent, isBefore]
    rfl
  case children => exact merged.headerChildren
  case bodyChildren => exact merged.bodyChildren
  case bodyParent => exact merged.bodyParent
  case otherChildren => exact merged.otherChildren
  case joinParent => exact merged.joinParent
  case distinct => exact merged.distinct
  case inUse =>
    rintro region inside
    simp only [List.mem_cons, Option.mem_toList] at inside
    rcases inside with rfl | rfl | rfl | isOther
    · exact Nat.lt_of_lt_of_le headerInUse larger
    · exact merged.bodyInside.2
    · exact Nat.lt_of_lt_of_le joinInUse larger
    · exact (merged.otherInside region isOther).2

/-- The code behind the join is apart from the branch, its ways and what is around the code. -/
theorem Splits.tail_apart (splits : Splits cfg graph code branch body other join regions pred exit)
    (sits : Sits cfg graph now code pred exit others)
    (behind : Behind cfg now base regions join exit tail others
      (body.enders branch.header ++ other.enders branch.header) joinOthers out)
    {next region : RegionId} (isTail : tail = some next)
    (inside : region ∈ branch.leadRegions ++ branch.header :: (body.regions ++ other.regions) ++
      (exit.toList ++ pred.toList)) : next ≠ region := by
  have nodup := splits.nodup sits
  have absent : region ∉ regions := by grind
  have old : region < now.next := Nat.lt_of_lt_of_le (splits.inUse sits (by grind)) sits.grows.next
  exact (behind.inside next isTail).1.ne absent old

theorem Splits.surrounds (splits : Splits cfg graph code branch body other join regions pred exit)
    (sits : Sits cfg graph now code pred exit others)
    (behind : Behind cfg now base regions join exit tail others
      (body.enders branch.header ++ other.enders branch.header) joinOthers out)
    (merged : Merged cfg base after branch.header join body other joinOthers bodyR otherR)
    (closes : branch.lead = none → tail = none → exit = none) :
    Surrounds after branch join (branch.header :: bodyR :: otherR.toList) pred exit tail others
      joinOthers := by
  have nodup := splits.nodup sits
  have joinMem := splits.join_mem
  have larger := merged.grows.next
  have grows : graph.Grows base := sits.grows.trans behind.grows
  -- the regions that stay: the lead, the code behind the join, the exit and the region in front
  have stays : ∀ region ∈ branch.leadRegions ++ (tail.toList ++ (exit.toList ++ pred.toList)),
      region < base.next ∧ region ∉ body.regions ++ other.regions ∧ region ≠ branch.header := by
    rintro region inside
    by_cases isTail : tail = some region
    · refine ⟨(behind.inside region isTail).1.2, fun listed => ?_, ?_⟩
      · exact splits.tail_apart sits behind isTail (by grind) rfl
      · exact splits.tail_apart sits behind isTail (by grind)
    · have old : region ∈ branch.leadRegions ++ (exit.toList ++ pred.toList) := by grind
      exact ⟨Nat.lt_of_lt_of_le (splits.inUse sits (by grind)) grows.next, by grind, by grind⟩
  have joinStays : join < base.next ∧ join ∉ body.regions ++ other.regions ∧
      join ≠ branch.header :=
    ⟨Nat.lt_of_lt_of_le (splits.inUse sits (List.mem_append_right _ joinMem)) grows.next,
      by grind, by grind⟩
  have children : ∀ region ∈ branch.leadRegions ++ (tail.toList ++ (exit.toList ++ pred.toList)),
      after.children region = base.children region := by
    rintro region inside
    obtain ⟨old, absent, notHeader⟩ := stays region inside
    exact merged.children region old absent notHeader
  have parent : ∀ region ∈ branch.leadRegions ++ (tail.toList ++ (exit.toList ++ pred.toList)),
      region ≠ join → after.parent region = base.parent region := by
    rintro region inside notJoin
    obtain ⟨old, absent, -⟩ := stays region inside
    exact merged.parent region old absent notJoin
  have leadMem : ∀ {lead}, branch.lead = some lead → lead.region ∈ branch.leadRegions := by
    rintro lead isLead
    simp [Branch.leadRegions, isLead]
  have tailMem : ∀ {next}, tail = some next → next ∈ tail.toList := fun found => by simp [found]
  have exitMem : ∀ {outer}, exit = some outer → outer ∈ exit.toList := fun found => by simp [found]
  have predMem : ∀ {above}, pred = some above → above ∈ pred.toList := fun found => by simp [found]
  have predSame : ∀ above, pred = some above → after.children above = now.children above := by
    rintro above isPred
    have inside := predMem isPred
    rw [children above (by grind)]
    exact behind.children above (sits.bound (by grind)) (by grind)
  constructor
  case distinct =>
    have outer : (branch.leadRegions ++ (exit.toList ++ pred.toList)).Nodup := by grind
    have apart : ∀ next, tail = some next →
        next ∉ branch.leadRegions ++ (exit.toList ++ pred.toList) := fun next isTail inside =>
      splits.tail_apart sits behind isTail (by grind) rfl
    cases tail with
    | none => simpa using outer
    | some next =>
        have absent := apart next rfl
        rw [Option.toList_some, List.singleton_append, List.nodup_middle, List.nodup_cons]
        exact ⟨absent, outer⟩
  case apart =>
    rintro region inside
    obtain ⟨old, absent, notHeader⟩ := stays region inside
    simp only [List.mem_cons, Option.mem_toList, not_or]
    refine ⟨notHeader, (merged.bodyInside.ne absent old).symm, fun isOther => ?_⟩
    exact (merged.otherInside region isOther).ne absent old rfl
  case joinApart =>
    rw [List.mem_append, Option.mem_toList]
    rintro (inLead | isTail)
    · grind
    · exact (behind.inside join isTail).2 rfl
  case inUse =>
    rintro region inside
    exact Nat.lt_of_lt_of_le (stays region inside).1 larger
  case leadType =>
    rintro lead isLead
    have inside := leadMem isLead
    rw [merged.grows.type (stays _ (by grind)).1, grows.type (splits.inUse sits (by grind)),
      (splits.branchPlaced.lead lead isLead).type]
    decide
  case leadParent =>
    rintro lead isLead
    have inside := leadMem isLead
    rw [parent _ (by grind) (by grind), (splits.same sits behind (by grind)).2,
      (splits.branchPlaced.lead lead isLead).parent]
  case leadChildren =>
    rintro lead isLead
    have inside := leadMem isLead
    rw [children _ (by grind), (splits.same sits behind (by grind)).1,
      (splits.branchPlaced.lead lead isLead).children]
    rfl
  case predType =>
    rintro above isPred
    have inside := predMem isPred
    rw [merged.grows.type (stays _ (by grind)).1, grows.type (splits.inUse sits (by grind))]
    exact sits.predType above isPred
  case predChild =>
    rintro above isPred
    rw [predSame above isPred]
    exact sits.predChild above _ isPred splits.codeFirst
  case predOld =>
    rintro above isPred child inside
    rw [predSame above isPred] at inside
    have bound := sits.predOld above isPred child inside
    exact Nat.lt_of_lt_of_le (Nat.lt_of_lt_of_le bound behind.grows.next) larger
  case tailType =>
    rintro next isTail
    have inside := tailMem isTail
    rw [merged.grows.type (stays _ (by grind)).1]
    exact behind.type next isTail
  case tailChildren =>
    rintro next isTail
    have inside := tailMem isTail
    rw [children _ (by grind)]
    exact behind.ownChildren next isTail
  case exitType =>
    rintro outer isExit
    have inside := exitMem isExit
    rw [merged.grows.type (stays _ (by grind)).1, grows.type (splits.inUse sits (by grind))]
    exact sits.exitType outer isExit
  case closes => exact closes
  case joined =>
    rcases behind.joined with ⟨own, joinChildren, tailParent, exitParent⟩ | shared
    · refine .inl ⟨own, ?_, fun next isTail => ?_, fun outer isExit => ?_⟩
      · obtain ⟨old, absent, notHeader⟩ := joinStays
        rw [merged.children join old absent notHeader, joinChildren]
      · have inside := tailMem isTail
        rw [parent next (by grind) (behind.inside next isTail).2, tailParent next isTail]
      · obtain ⟨notJoin, parents⟩ := exitParent outer isExit
        have inside := exitMem isExit
        rw [parent outer (by grind) notJoin]
        exact ⟨notJoin, parents⟩
    · exact .inr shared

/-! ### The merged statement -/

section Final

variable {opened final : Graph} {endR region : RegionId}

/-- The regions that are not around the branch have the children they had before it was merged. -/
theorem Closed.children_after
    (closed : Closed opened final branch pred exit tail after.next others region)
    (opens : Opened after opened branch.header bodyR join otherR joinOthers after.next endR)
    {kept : RegionId} (old : kept < after.next) (notLead : kept ∉ branch.leadRegions)
    (notPred : pred ≠ some kept) (notHeader : kept ≠ branch.header) (notBody : kept ≠ bodyR)
    (notOther : otherR ≠ some kept) : final.children kept = after.children kept := by
  rw [closed.children kept (Nat.lt_of_lt_of_le old opens.grows.next) notLead (Nat.ne_of_lt old),
    if_neg notPred]
  exact opens.children kept old notHeader notBody notOther

/-- The region of the statement with its tail is new. -/
theorem Closed.new (closed : Closed opened final branch pred exit tail after.next others region)
    (opens : Opened after opened branch.header bodyR join otherR joinOthers after.next endR) :
    after.next ≤ region := by
  rcases closed.fresh with rfl | fresh
  · exact Nat.le_refl _
  · exact Nat.le_trans opens.grows.next fresh

/-- With code behind the join the region of the statement is one inside the merged region. -/
theorem Closed.stmt_ne (closed : Closed opened final branch pred exit tail after.next others region)
    (opens : Opened after opened branch.header bodyR join otherR joinOthers after.next endR)
    (isTail : tail.isSome = true) : after.next ≠ region := by
  rintro rfl
  rcases closed.shape with ⟨-, noTail, -⟩ | label
  · rw [noTail] at isTail
    cases isTail
  · rw [closed.grows.label _ opens.inUse, opens.label] at label
    have type := congrArg Prod.fst label
    revert type
    split <;> simp

variable (splits : Splits cfg graph code branch body other join regions pred exit)
  (sits : Sits cfg graph now code pred exit others)
  (behind : Behind cfg now base regions join exit tail others
    (body.enders branch.header ++ other.enders branch.header) joinOthers out)
  (merged : Merged cfg base after branch.header join body other joinOthers bodyR otherR)
  (opens : Opened after opened branch.header bodyR join otherR joinOthers after.next endR)
  (opening : Opening opened branch pred exit tail after.next endR others)
  (closed : Closed opened final branch pred exit tail after.next others region)

include splits behind merged opens closed

/-- The regions outside of the code have their children, but for the one in front of it. -/
theorem Splits.final_children {kept : RegionId} (old : kept < now.next)
    (outside : kept ∉ code.regions) : final.children kept =
      if pred = some kept then (now.children kept).replace branch.entry region
      else now.children kept := by
  rw [splits.codeRegions] at outside
  have oldBase := Nat.lt_of_lt_of_le old behind.grows.next
  have oldAfter := Nat.lt_of_lt_of_le oldBase merged.grows.next
  have absent : kept ∉ body.regions ++ other.regions := by grind
  have notHeader : kept ≠ branch.header := by grind
  have same : opened.children kept = now.children kept := by
    rw [opens.children kept oldAfter notHeader (merged.bodyInside.ne absent oldBase).symm
        (fun isOther => (merged.otherInside kept isOther).ne absent oldBase rfl),
      merged.children kept oldBase absent notHeader,
      behind.children kept old (by grind)]
  rw [closed.children kept (Nat.lt_of_lt_of_le oldAfter opens.grows.next) (by grind)
    (Nat.ne_of_lt oldAfter), same]

theorem Splits.final_parent {kept : RegionId} (old : kept < now.next)
    (outside : kept ∉ code.regions) (notExit : exit ≠ some kept) :
    final.parent kept = now.parent kept := by
  rw [splits.codeRegions] at outside
  have oldBase := Nat.lt_of_lt_of_le old behind.grows.next
  have oldAfter := Nat.lt_of_lt_of_le oldBase merged.grows.next
  have absent : kept ∉ body.regions ++ other.regions := by grind
  have notJoin : kept ≠ join := by
    rintro rfl
    rcases splits.isJoin with inside | isExit
    · grind
    · exact notExit isExit
  have notTail : tail ≠ some kept := fun isTail =>
    (behind.inside kept isTail).1.ne (by grind) old rfl
  rw [closed.parent kept (Nat.lt_of_lt_of_le oldAfter opens.grows.next) (Nat.ne_of_lt oldAfter)
      notExit notTail,
    opens.parent kept oldAfter notJoin, merged.parent kept oldBase absent notJoin,
    behind.parent kept old (by grind) notExit]

include sits

omit behind merged in
/-- What is inside the merged code, and was not around its branch, is as it was. -/
theorem Splits.final_inside {kept : RegionId} (old : kept < after.next)
    (inside : kept ∈ body.regions ++ other.regions ++ regions ∨ now.next ≤ kept)
    (notBody : kept ≠ bodyR) (notOther : otherR ≠ some kept) :
    final.children kept = after.children kept ∧ Inside code.regions now final kept ∧
      kept ≠ region := by
  have nodup := splits.nodup sits
  have codeRegions := splits.codeRegions
  have apart : kept ∉ branch.leadRegions ∧ pred ≠ some kept ∧ kept ≠ branch.header := by
    rcases inside with listed | new
    · refine ⟨by grind, ?_, by grind⟩
      rintro rfl
      grind
    · have bound : ∀ other, other ∈ code.regions ++ (exit.toList ++ pred.toList) →
          other ≠ kept := fun other listed same =>
        Nat.not_lt_of_le new (same ▸ sits.bound listed)
      refine ⟨fun listed => bound kept (by grind) rfl, ?_, fun same => bound kept (by grind) rfl⟩
      rintro rfl
      exact bound kept (by simp) rfl
  refine ⟨closed.children_after opens old apart.1 apart.2.1 apart.2.2 notBody notOther, ⟨?_, ?_⟩,
    ?_⟩
  · exact inside.imp (fun listed => by grind) id
  · exact Nat.lt_of_lt_of_le old (Nat.le_trans opens.grows.next closed.grows.next)
  · rintro rfl
    exact Nat.not_lt_of_le (closed.new opens) old

/-- The region of the statement prints it. -/
theorem Splits.stmt_shows {later : Graph} (grows : final.Grows later)
    (kept : ∀ other, Inside code.regions now final other → other ≠ region →
      later.children other = final.children other) :
    Shows cfg later after.next (.branch branch.cond (body.printed cfg) (other.printed cfg)
      other.first.isSome) := by
  have nodup := splits.nodup sits
  have codeRegions := splits.codeRegions
  have predHeader : pred ≠ some branch.header := by
    rintro rfl
    grind
  have headerInUse : branch.header < graph.next := splits.inUse sits (by simp)
  have headerNow := Nat.lt_of_lt_of_le headerInUse sits.grows.next
  have headerAfter := Nat.lt_of_lt_of_le headerNow
    (Nat.le_trans behind.grows.next merged.grows.next)
  have grown : graph.Grows later := sits.grows.trans (behind.grows.trans (merged.grows.trans
    (opens.grows.trans (closed.grows.trans grows))))
  have start : later.start branch.header = .node branch.cond := by
    rw [Graph.start_eq_of_label (grown.label _ headerInUse)]
    exact (Option.some.inj splits.branchPlaced.spans.start).symm
  have headerChildren : later.children branch.header = opened.children branch.header := by
    rw [kept branch.header ⟨.inl (by grind), ?_⟩ ?_, closed.children _
      (Nat.lt_of_lt_of_le headerAfter opens.grows.next) (by grind) (Nat.ne_of_lt headerAfter),
      if_neg predHeader]
    · exact Nat.lt_of_lt_of_le headerAfter (Nat.le_trans opens.grows.next closed.grows.next)
    · rintro same
      exact Nat.not_lt_of_le (closed.new opens) (same ▸ headerAfter)
  have label : later.label after.next = (if otherR.isSome then .ifElseStatement else .ifStatement,
      .region branch.header, .region endR) := by
    rw [grows.label _ (Nat.lt_of_lt_of_le opens.inUse closed.grows.next),
      closed.grows.label _ opens.inUse, opens.label]
  obtain ⟨bodyShows, otherShows⟩ := merged.shows later
    (opens.grows.trans (closed.grows.trans grows)) fun inner inside notBody notOther => by
      have known := inside.1.imp (List.mem_append_left regions)
        (Nat.le_trans behind.grows.next)
      obtain ⟨same, inCode, notRegion⟩ :=
        splits.final_inside sits opens closed inside.2 known notBody notOther
      rw [kept inner inCode notRegion, same]
  have headerBody := opens.headerBody
  have headerOther := opens.headerOther
  rw [← headerChildren] at headerBody headerOther
  have isSome := merged.isSome
  cases isOther : otherR with
  | none =>
      rw [isOther] at label isSome
      rw [Printed.branch, ← isSome]
      exact Shows.ifStatement label start headerBody bodyShows
  | some way =>
      rw [isOther] at label isSome
      rw [Printed.branch, ← isSome]
      exact Shows.ifElseStatement label start headerBody (headerOther way isOther) bodyShows
        (otherShows way isOther)

include opening

/-- The merged region prints the code. -/
theorem Splits.shows {later : Graph}
    (printed : code.printed cfg = branch.printed cfg (Printed.followed
      (.branch branch.cond (body.printed cfg) (other.printed cfg) other.first.isSome)
      out tail.isSome))
    (grows : final.Grows later)
    (kept : ∀ other, Inside code.regions now final other → other ≠ region →
      later.children other = final.children other) :
    Shows cfg later region (code.printed cfg) := by
  have codeRegions := splits.codeRegions
  have larger := Nat.le_trans opens.grows.next closed.grows.next
  have growsNow : now.next ≤ after.next := Nat.le_trans behind.grows.next merged.grows.next
  have grown : graph.Grows later := sits.grows.trans (behind.grows.trans (merged.grows.trans
    (opens.grows.trans (closed.grows.trans grows))))
  have leadMem : ∀ {lead}, branch.lead = some lead → lead.region ∈ branch.leadRegions := by
    rintro lead isLead
    simp [Branch.leadRegions, isLead]
  have leadInUse : ∀ {lead}, branch.lead = some lead → lead.region < graph.next := by
    rintro lead isLead
    have inside := leadMem isLead
    exact splits.inUse sits (by grind)
  have leadKept : ∀ lead, branch.lead = some lead →
      later.children lead.region = final.children lead.region := by
    rintro lead isLead
    have inside := leadMem isLead
    have old := Nat.lt_of_lt_of_le (leadInUse isLead) (Nat.le_trans sits.grows.next growsNow)
    refine kept lead.region ⟨.inl (by grind), Nat.lt_of_lt_of_le old larger⟩ ?_
    rintro same
    exact Nat.not_lt_of_le (closed.new opens) (same ▸ old)
  have stmtKept : tail.isSome = true → later.children after.next = final.children after.next := by
    rintro isTail
    refine kept after.next ⟨.inr growsNow, ?_⟩ (closed.stmt_ne opens isTail)
    exact Nat.lt_of_lt_of_le opens.inUse closed.grows.next
  have leadShows : ∀ lead, branch.lead = some lead → Shows cfg later lead.region
      ((branch.lead.map (Block.printed cfg)).getD .empty) := by
    rintro lead isLead
    rw [isLead]
    exact Block.shows (splits.branchPlaced.lead lead isLead) (splits.leadNodes lead isLead)
      (splits.leadPrints lead isLead) (grown.label _ (leadInUse isLead))
  have stmtShows := splits.stmt_shows sits behind merged opens closed grows kept
  have tailShows : ∀ next, tail = some next → Shows cfg later next out := by
    rintro next isTail
    refine behind.shows next isTail later (merged.grows.trans (opens.grows.trans
      (closed.grows.trans grows))) fun inner inside notNext => ?_
    have absent : inner ∉ body.regions ++ other.regions ∧ inner ≠ branch.header := by
      have nodup := splits.nodup sits
      rcases inside.1 with listed | new
      · exact ⟨by grind, by grind⟩
      · have bound : ∀ old, old ∈ code.regions → old ≠ inner := fun old listed same =>
          Nat.not_lt_of_le new (same ▸ sits.bound (List.mem_append_left _ listed))
        exact ⟨fun listed => bound inner (by grind) rfl, fun same => bound inner (by grind) rfl⟩
    obtain ⟨same, inCode, notRegion⟩ := splits.final_inside sits opens closed
      (Nat.lt_of_lt_of_le inside.2 merged.grows.next)
      (inside.1.imp (List.mem_append_right _) id)
      (merged.bodyInside.ne absent.1 inside.2).symm
      (fun isOther => (merged.otherInside inner isOther).ne absent.1 inside.2 rfl)
    rw [kept inner inCode notRegion, same, merged.children inner inside.2 absent.1 absent.2]
  have shown := closed.shows opening.distinct grows leadKept stmtKept leadShows stmtShows tailShows
  rw [printed, Branch.printed]
  cases isLead : branch.lead with
  | none =>
      rw [isLead] at shown
      exact shown
  | some lead =>
      rw [isLead] at shown
      exact shown

/-- The statement and the code behind its join are merged into one region. -/
theorem Splits.collapsed
    (printed : code.printed cfg = branch.printed cfg (Printed.followed
      (.branch branch.cond (body.printed cfg) (other.printed cfg) other.first.isSome)
      out tail.isSome)) :
    Collapsed cfg now final code pred exit others (some region) := by
  have codeFirst := splits.codeFirst
  have growsNow : now.next ≤ after.next := Nat.le_trans behind.grows.next merged.grows.next
  constructor
  case grows =>
    exact behind.grows.trans (merged.grows.trans (opens.grows.trans closed.grows))
  case isSome =>
    rw [codeFirst]
    rfl
  case inside =>
    rintro whole ⟨⟩
    exact ⟨.inr (Nat.le_trans growsNow (closed.new opens)), closed.inUse⟩
  case type =>
    rintro whole ⟨⟩
    exact closed.type
  case ownChildren =>
    rintro whole ⟨⟩
    exact closed.ownChildren
  case ownParent =>
    rintro whole ⟨⟩
    exact closed.ownParent
  case children =>
    rintro kept old outside notPred
    rw [splits.final_children behind merged opens closed old outside, if_neg notPred]
  case predChildren =>
    rintro above isPred
    have bound : above < now.next := sits.bound (by simp [isPred])
    have outside : above ∉ code.regions := by
      have distinct := sits.distinct
      grind
    rw [splits.final_children behind merged opens closed bound outside, if_pos isPred, codeFirst]
    rfl
  case exitParent =>
    rintro outer isExit
    obtain ⟨above, isPred, -⟩ := sits.exitParent outer isExit
    exact ⟨above, isPred, closed.parentExit outer isExit⟩
  case parent =>
    rintro kept old outside notExit
    exact splits.final_parent behind merged opens closed old outside notExit
  case shows =>
    rintro whole ⟨⟩ later grows kept
    exact splits.shows sits behind merged opens opening closed printed grows kept

end Final

theorem union_insert_front (seen front extra more : Finset RegionId) (header : RegionId) :
    seen ∪ (insert header front ∪ extra ∪ more) = insert header (seen ∪ front) ∪ extra ∪ more := by
  ext region
  simp only [Finset.mem_union, Finset.mem_insert]
  tauto

/-- The walk over the statement: its lead, both ways, all that is behind the join, the branch. -/
theorem Splits.walks {final : Graph} {region result : RegionId}
    (splits : Splits cfg graph code branch body other join regions pred exit)
    (sits : Sits cfg graph now code pred exit others)
    (behind : Behind cfg now base regions join exit tail others
      (body.enders branch.header ++ other.enders branch.header) joinOthers out)
    (ways : Ways cfg graph base branch.header join body other joinOthers)
    (first : Collapsed cfg base middle body (some branch.header) (some join)
      (other.enders branch.header ++ joinOthers) (some bodyR))
    (second : Collapsed cfg middle after other (some branch.header) (some join)
      (bodyR :: joinOthers) otherR)
    (bodyWalks : Walks base middle body (some branch.header) (some join) (some bodyR))
    (otherWalks : Walks middle after other (some branch.header) (some join) otherR)
    (process : ∀ visited last, processRegion ⟨after, visited⟩ branch.header last =
      some (⟨final, visited⟩, result))
    (isResult : pred = none → result = region)
    (few : ∀ lead, branch.lead = some lead → (final.children lead.region).length ≤ 1) :
    Walks now final code pred exit (some region) := by
  rintro before visited seen same fresh exitSeen enters
  have nodup := splits.nodup sits
  have codeRegions := splits.codeRegions
  rw [splits.codeFirst]
  obtain ⟨front, isFront⟩ : ∃ front : Finset RegionId, front = branch.leadRegions.toFinset :=
    ⟨_, rfl⟩
  have inFront : ∀ region, region ∈ front ↔ region ∈ branch.leadRegions := by
    rintro region
    rw [isFront, List.mem_toFinset]
  have unseen : ∀ region ∈ code.regions, region ∉ visited ∧ region ∉ seen := fresh
  have kept : ∀ region ∈ branch.leadRegions ++ branch.header :: (body.regions ++ other.regions),
      before.children region = base.children region := by
    rintro region inside
    have inCode : region ∈ code.regions := by grind
    rw [same region inCode, (splits.same sits behind inside).1, (sits.same region inCode).1]
  have tailEnters : ∀ extra : Finset RegionId, (∀ region ∈ extra, region ∈ body.regions) →
      Enters ⟨before, insert branch.header (visited ∪ front) ∪ extra⟩ (some join)
        ⟨base, insert branch.header (seen ∪ front) ∪ extra ∪ regions.toFinset⟩ ∧
      join ∈ insert branch.header (seen ∪ front) ∪ extra ∪ regions.toFinset := by
    rintro extra subset
    refine behind.enters before _ _ (fun region inside => same region (by grind)) ?_ ?_ ?_
    · rintro region inside
      have notSeen := unseen region (by grind)
      have notFront := inFront region
      have notExtra := subset region
      grind
    · exact fun outer isExit => by simp [exitSeen outer isExit]
    · rintro more inRegions
      have entered := enters (insert branch.header front ∪ extra ∪ more) fun region inside => by
        have notFront := inFront region
        have notExtra := subset region
        have notMore := inRegions region
        grind
      rwa [union_insert_front, union_insert_front] at entered
  have header : Searches ⟨before, visited ∪ front⟩ branch.header
      ⟨final, seen ∪ code.regions.toFinset⟩ result := by
    have joinSeen := (tailEnters ∅ (by simp)).2
    rw [Finset.union_empty] at joinSeen
    have search := ways.walks first second bodyWalks otherWalks
      (fun region inside => kept region (by grind)) ?_ joinSeen (fun extra subset => by
        have entered := (tailEnters extra subset).1
        rwa [Finset.union_right_comm] at entered) process
    · have seenEq : insert branch.header (seen ∪ front) ∪ regions.toFinset ∪
          (body.regions ++ other.regions).toFinset = seen ∪ code.regions.toFinset := by
        ext region
        have notFront := inFront region
        simp only [Finset.mem_union, Finset.mem_insert, List.mem_toFinset]
        grind
      rwa [seenEq] at search
    · rintro region inside
      have notSeen := unseen region (by grind)
      have notFront := inFront region
      have notRegions : region ∈ regions.toFinset ↔ region ∈ regions := List.mem_toFinset
      grind
  refine ⟨result, fun noPred => congrArg some (isResult noPred).symm, ?_⟩
  cases isLead : branch.lead with
  | none =>
      have noFront : front = ∅ := by simp [isFront, Branch.leadRegions, isLead]
      rw [noFront, Finset.union_empty] at header
      simpa [Branch.entry, isLead] using header
  | some lead =>
      have isFront : front = {lead.region} := by simp [isFront, Branch.leadRegions, isLead]
      have leadMem : lead.region ∈ branch.leadRegions := by simp [Branch.leadRegions, isLead]
      have entry : branch.entry = lead.region := by simp [Branch.entry, isLead]
      have leadChildren : before.children lead.region = [branch.header] := by
        rw [kept _ (by grind), (splits.same sits behind (by grind)).1,
          (splits.branchPlaced.lead lead isLead).children]
        rfl
      have fresh : branch.header ∉ insert lead.region visited := by
        have notSeen := unseen branch.header (by grind)
        grind
      rw [isFront, Finset.union_comm, ← Finset.insert_eq] at header
      rw [entry]
      exact Searches.lead leadChildren fresh header (few lead isLead)

theorem Splits.collapse (splits : Splits cfg graph code branch body other join regions pred exit)
    (sits : Sits cfg graph now code pred exit others)
    (behind : Behind cfg now base regions join exit tail others
      (body.enders branch.header ++ other.enders branch.header) joinOthers out)
    (closes : branch.lead = none → tail = none → exit = none)
    (printed : code.printed cfg = branch.printed cfg (Printed.followed
      (.branch branch.cond (body.printed cfg) (other.printed cfg) other.first.isSome)
      out tail.isSome))
    (bodyCollapses : Collapses cfg graph body) (otherCollapses : Collapses cfg graph other) :
    ∃ after region, Collapsed cfg now after code pred exit others region ∧
      Walks now after code pred exit region := by
  have ways := splits.ways sits behind
  obtain ⟨middle, bodyRegion, first, bodyWalks⟩ := bodyCollapses ways.bodySits
  obtain ⟨bodyR, rfl⟩ : ∃ bodyR, bodyRegion = some bodyR :=
    Option.isSome_iff_exists.mp (first.isSome.trans splits.bodyFirst)
  obtain ⟨after, otherR, second, otherWalks⟩ := otherCollapses (ways.other_sits first)
  have merged := ways.merged first second
  obtain ⟨before, isBefore⟩ := splits.exists_before sits
  have ready := splits.ready sits behind merged isBefore
  have surrounds := splits.surrounds sits behind merged closes
  obtain ⟨opened, endR, final, result, region, process, isResult, opens, opening, closed⟩ :=
    ready.statement surrounds isBefore
  refine ⟨final, some region, ?_, ?_⟩
  · exact splits.collapsed sits behind merged opens opening closed printed
  · refine splits.walks sits behind ways first second bodyWalks otherWalks process isResult ?_
    rintro lead isLead
    rw [closed.leadChildren lead isLead]
    exact Nat.le_refl _

end Statement

/-! ## Every program -/

section Collapse

variable {cfg : Cfg} {graph now : Graph} {branch : Branch} {body other rest : Code} {join : Join}
  {pred exit : Option RegionId} {others : List RegionId}

/-- The nodes of a branch with its ways, and of what is behind it. -/
theorem nodes_nodup {lead inner behind : List NodeId} {cond : NodeId}
    (nodup : (lead ++ cond :: inner ++ behind).Nodup) :
    lead.Nodup ∧ inner.Nodup ∧ behind.Nodup := by
  grind

theorem Branch.leadNodes_nodup (nodup : branch.leadNodes.Nodup) {lead : Block}
    (isLead : branch.lead = some lead) : lead.nodes.Nodup := by
  simpa [Branch.leadNodes, isLead] using nodup

theorem Sits.splits_own (sits : Sits cfg graph now (.own branch body other join rest) pred exit
    others) : Splits cfg graph (.own branch body other join rest) branch body other join.region
      (join.region :: rest.regions) pred exit := by
  obtain ⟨branchPlaced, bodyFirst, bodyPlaced, otherPlaced, joinPlaced, -⟩ := sits.placed
  obtain ⟨leadPrints, -, bodyMergeable, otherMergeable, -⟩ := sits.mergeable
  obtain ⟨leadNodes, inner, -⟩ := nodes_nodup sits.nodes
  obtain ⟨bodyNodes, otherNodes, -⟩ := List.nodup_append.mp inner
  constructor
  case codeRegions => rfl
  case codeFirst => rfl
  case leadNodes => exact fun lead isLead => Branch.leadNodes_nodup leadNodes isLead
  case bodyNodes => exact bodyNodes
  case otherNodes => exact otherNodes
  case branchPlaced => exact branchPlaced
  case bodyFirst => exact bodyFirst
  case bodyPlaced => exact bodyPlaced
  case otherPlaced => exact otherPlaced
  case leadPrints => exact leadPrints
  case bodyMergeable => exact bodyMergeable
  case otherMergeable => exact otherMergeable
  case isJoin => exact .inl List.mem_cons_self
  case joinType => exact joinPlaced.type

theorem Sits.splits_shared (sits : Sits cfg graph now (.shared branch body other) pred exit others)
    {outer : RegionId} (isExit : exit = some outer) :
    Splits cfg graph (.shared branch body other) branch body other outer [] pred exit := by
  obtain ⟨join, isJoin, branchPlaced, bodyFirst, bodyPlaced, otherPlaced⟩ := sits.placed
  cases isJoin.symm.trans isExit
  obtain ⟨leadPrints, -, bodyMergeable, otherMergeable⟩ := sits.mergeable
  have nodes : (branch.leadNodes ++ branch.cond :: (body.nodes ++ other.nodes) ++ []).Nodup := by
    rw [List.append_nil]
    exact sits.nodes
  obtain ⟨leadNodes, inner, -⟩ := nodes_nodup nodes
  obtain ⟨bodyNodes, otherNodes, -⟩ := List.nodup_append.mp inner
  constructor
  case codeRegions => exact (List.append_nil _).symm
  case codeFirst => rfl
  case leadNodes => exact fun lead isLead => Branch.leadNodes_nodup leadNodes isLead
  case bodyNodes => exact bodyNodes
  case otherNodes => exact otherNodes
  case branchPlaced => exact branchPlaced
  case bodyFirst => exact bodyFirst
  case bodyPlaced => rwa [isExit] at bodyPlaced
  case otherPlaced => rwa [isExit] at otherPlaced
  case leadPrints => exact leadPrints
  case bodyMergeable => exact bodyMergeable
  case otherMergeable => exact otherMergeable
  case isJoin => exact .inr isExit
  case joinType => exact sits.exitType outer isExit

/-- The code behind a join sits between the join and the exit. -/
theorem Sits.rest_sits (sits : Sits cfg graph now (.own branch body other join rest) pred exit
    others) : Sits cfg graph now rest (some join.region) exit others := by
  obtain ⟨-, -, -, -, joinPlaced, restPlaced⟩ := sits.placed
  obtain ⟨-, -, -, -, mergeable⟩ := sits.mergeable
  have splits := sits.splits_own
  have nodup := splits.nodup sits
  have joinChildren : now.children join.region = (rest.entry exit).toList := by
    rw [(sits.same join.region (by simp [Code.regions])).1, joinPlaced.children]
  constructor
  case placed => exact restPlaced
  case mergeable => exact mergeable
  case nodes => exact (List.nodup_cons.mp (nodes_nodup sits.nodes).2.2).2
  case distinct =>
    have behind := (List.nodup_append.mp nodup).2.1
    rw [List.cons_append, List.nodup_cons] at behind
    have inner : (rest.regions ++ exit.toList).Nodup := by grind
    have absent : join.region ∉ rest.regions ++ exit.toList := by grind
    rw [Option.toList_some, ← List.append_assoc, (List.perm_append_singleton _ _).nodup_iff]
    exact List.nodup_cons.mpr ⟨absent, inner⟩
  case inUse =>
    rintro region inside
    refine splits.inUse sits ?_
    simp only [Option.toList_some, List.mem_append, List.mem_singleton] at inside
    grind
  case exitType => exact sits.exitType
  case predType =>
    rintro above ⟨⟩
    exact joinPlaced.type
  case grows => exact sits.grows
  case same => exact fun region inside => sits.same region (by simp [Code.regions, inside])
  case predChild =>
    rintro above first ⟨⟩ starts
    simp [joinChildren, Code.entry, starts]
  case predOld =>
    rintro above ⟨⟩ child inside
    rw [joinChildren, Option.mem_toList, Code.entry] at inside
    cases starts : rest.first with
    | some first =>
        rw [starts] at inside
        cases inside
        exact sits.bound (by simp [Code.regions, Code.first_mem starts])
    | none =>
        rw [starts, Option.none_or] at inside
        exact sits.bound (by simp [inside])
  case exitParent =>
    rintro outer isExit
    obtain ⟨above, -, parents⟩ := sits.exitParent outer isExit
    exact ⟨join.region, rfl, parents⟩
  case shared => exact sits.shared
  case start => rintro ⟨⟩

theorem Sits.collapse_own
    (sits : Sits cfg graph now (.own branch body other join rest) pred exit others)
    (bodyCollapses : Collapses cfg graph body) (otherCollapses : Collapses cfg graph other)
    (restCollapses : Collapses cfg graph rest) :
    ∃ after region, Collapsed cfg now after (.own branch body other join rest) pred exit others
        region ∧ Walks now after (.own branch body other join rest) pred exit region := by
  obtain ⟨-, -, -, -, joinPlaced, -⟩ := sits.placed
  obtain ⟨-, closes, -⟩ := sits.mergeable
  have restSits := sits.rest_sits
  obtain ⟨base, tail, collapsed, walks⟩ := restCollapses restSits
  have same := sits.same join.region (by simp [Code.regions])
  have behind := collapsed.behind walks restSits (same.1.trans joinPlaced.children)
    (same.2 ▸ joinPlaced.parent)
  refine sits.splits_own.collapse sits behind ?_ ?_ bodyCollapses otherCollapses
  · rintro noLead noTail
    have noRest : rest.first = none := by
      have isSome := collapsed.isSome
      rw [noTail] at isSome
      exact Option.isSome_eq_false_iff.mp isSome.symm |> Option.isNone_iff_eq_none.mp
    exact Option.isNone_iff_eq_none.mp (Option.isSome_eq_false_iff.mp (closes noLead noRest))
  · rw [collapsed.isSome]
    rfl

theorem Sits.collapse_shared
    (sits : Sits cfg graph now (.shared branch body other) pred exit others)
    (bodyCollapses : Collapses cfg graph body) (otherCollapses : Collapses cfg graph other) :
    ∃ after region, Collapsed cfg now after (.shared branch body other) pred exit others region ∧
      Walks now after (.shared branch body other) pred exit region := by
  obtain ⟨outer, isExit, -⟩ := sits.placed
  obtain ⟨-, hasLead, -⟩ := sits.mergeable
  obtain ⟨above, -, parents⟩ := sits.exitParent outer isExit
  subst isExit
  refine (sits.splits_shared rfl).collapse sits
    (behind_shared parents (sits.shared rfl)) ?_ rfl bodyCollapses otherCollapses
  rintro noLead
  rw [noLead] at hasLead
  cases hasLead

/-- The walk merges code wherever it sits. -/
theorem Code.collapses (cfg : Cfg) (graph : Graph) (code : Code) : Collapses cfg graph code := by
  induction code with
  | done => exact Sits.collapse_done
  | block block => exact Sits.collapse_block
  | own branch body other join rest bodyIh otherIh restIh =>
      exact fun sits => sits.collapse_own bodyIh otherIh restIh
  | shared branch body other bodyIh otherIh =>
      exact fun sits => sits.collapse_shared bodyIh otherIh

end Collapse

end OpenCLDecompiler.Regions
