import OpenCLDecompiler.Regions.Search

/-!
# Closing a statement

The last steps of `process_if_statement_region` and
`process_if_else_statement_region`: the region of the statement takes the place
of its branch, and the regions around it are joined with it.
-/

namespace OpenCLDecompiler.Regions

/-- The regions around a statement: its lead, itself, the code behind its join, exit and `pred`. -/
def around (branch : Branch) (stmt : RegionId) (tail exit pred : Option RegionId) :
    List RegionId :=
  branch.leadRegions ++ stmt :: (tail.toList ++ (exit.toList ++ pred.toList))

/--
The graph when the region `stmt` of a statement has been made: `tail` is the
merged code behind the join, and `endR` the end of the statement.
-/
structure Opening (graph : Graph) (branch : Branch) (pred exit tail : Option RegionId)
    (stmt endR : RegionId) (others : List RegionId) : Prop where
  distinct : (around branch stmt tail exit pred).Nodup
  inUse : ∀ region ∈ around branch stmt tail exit pred, region < graph.next
  leadType : ∀ lead, branch.lead = some lead → graph.type lead.region ≠ .basic
  leadParent : ∀ lead, branch.lead = some lead → graph.parent lead.region = pred.toList
  leadChildren : ∀ lead, branch.lead = some lead → graph.children lead.region = [branch.header]
  predType : ∀ above, pred = some above → graph.type above = .basic
  predChild : ∀ above, pred = some above → branch.entry ∈ graph.children above
  predOld : ∀ above, pred = some above →
    stmt ∉ graph.children above ∧ ∀ child ∈ graph.children above, child < graph.next
  tailType : ∀ next, tail = some next → graph.type next ≠ .basic
  tailChildren : ∀ next, tail = some next → graph.children next = exit.toList
  tailParent : ∀ next, tail = some next → graph.parent next = [endR]
  exitType : ∀ join, exit = some join → graph.type join = .basic
  exitParent : ∀ join, exit = some join → (graph.parent join).Perm (tail.getD endR :: others)
  stmtType : graph.type stmt ≠ .basic
  stmtParent : graph.parent stmt = []
  stmtChildren : graph.children stmt = []
  closes : branch.lead = none → tail = none → exit = none

/-- The statement stands in the place of its branch, behind `before`. -/
structure Added (graph middle : Graph) (before stmt header endR : RegionId)
    (behind : Option RegionId) : Prop where
  next : middle.next = graph.next
  label : ∀ other, middle.label other = graph.label other
  children : ∀ other, middle.children other =
    if other = before then (graph.children before).replace header stmt
    else if other = stmt then behind.toList
    else graph.children other
  parent : ∀ other, middle.parent other =
    if other = stmt then [before]
    else if behind = some other then (graph.parent other).replace endR stmt
    else graph.parent other

/-- The region a statement starts with once it is merged. -/
def Branch.shown (branch : Branch) (stmt : RegionId) : RegionId :=
  (branch.lead.map Block.region).getD stmt

/-- `region` stands for the whole statement and the code behind its join. -/
structure Closed (graph after : Graph) (branch : Branch) (pred exit tail : Option RegionId)
    (stmt : RegionId) (others : List RegionId) (region : RegionId) : Prop where
  grows : graph.Grows after
  inUse : region < after.next
  fresh : region = stmt ∨ graph.next ≤ region
  type : after.type region ≠ .basic
  ownChildren : after.children region = exit.toList
  ownParent : after.parent region = pred.toList
  leadChildren : ∀ lead, branch.lead = some lead → after.children lead.region = [stmt]
  tailChild : ∀ next, tail = some next → after.children stmt = [next]
  children : ∀ other, other < graph.next → other ∉ branch.leadRegions → other ≠ stmt →
    after.children other =
      if pred = some other then (graph.children other).replace branch.entry region
      else graph.children other
  parentExit : ∀ join, exit = some join → (after.parent join).Perm (region :: others)
  parent : ∀ other, other < graph.next → other ≠ stmt → exit ≠ some other →
    tail ≠ some other → after.parent other = graph.parent other
  shape : branch.lead = none ∧ tail = none ∧ region = stmt ∨
    after.label region = (.linear, .region (branch.shown stmt), .region (tail.getD stmt))

section Close

variable {graph middle after : Graph} {branch : Branch} {pred exit tail : Option RegionId}
  {stmt endR before region : RegionId} {others : List RegionId}

theorem Opening.before_ne_stmt (opening : Opening graph branch pred exit tail stmt endR others)
    (isBefore : branch.before pred = some before) : stmt ≠ before := by
  have distinct := opening.distinct
  rintro rfl
  cases lead : branch.lead with
  | some block =>
      simp only [Branch.before, lead, Option.map_some, Option.some_or] at isBefore
      cases isBefore
      simp [around, Branch.leadRegions, lead] at distinct
  | none =>
      simp only [Branch.before, lead, Option.map_none, Option.none_or] at isBefore
      simp [around, Branch.leadRegions, lead, isBefore] at distinct

theorem Opening.add (opening : Opening graph branch pred exit tail stmt endR others)
    (isBefore : branch.before pred = some before) :
    ∃ middle, addParentAndChild graph before (tail.or exit) stmt branch.header endR = some middle ∧
      Added graph middle before stmt branch.header endR (tail.or exit) := by
  have child : branch.header ∈ graph.children before := by
    cases lead : branch.lead with
    | some block =>
        simp only [Branch.before, lead, Option.map_some, Option.some_or] at isBefore
        cases isBefore
        rw [opening.leadChildren block lead]
        exact List.mem_cons_self
    | none =>
        simp only [Branch.before, lead, Option.map_none, Option.none_or] at isBefore
        simpa [Branch.entry, lead] using opening.predChild before isBefore
  have parent : ∀ next, tail.or exit = some next → endR ∈ graph.parent next := by
    rintro next isNext
    cases tail with
    | some merged =>
        cases isNext
        rw [opening.tailParent next rfl]
        exact List.mem_cons_self
    | none =>
        rw [Option.none_or] at isNext
        exact (opening.exitParent next isNext).mem_iff.mpr List.mem_cons_self
  have distinct := opening.distinct
  have notNext : tail.or exit ≠ some stmt := by
    intro same
    cases tail with
    | some merged =>
        cases same
        simp [around, List.nodup_append] at distinct
    | none =>
        rw [Option.none_or] at same
        simp [around, List.nodup_append, same] at distinct
  obtain ⟨middle, added, next, label, children, parents⟩ :=
    addParentAndChild_spec child parent (opening.before_ne_stmt isBefore) notNext
  rw [opening.stmtChildren] at children
  rw [opening.stmtParent] at parents
  exact ⟨middle, added, next, label, children, parents⟩

/-- The parents of the exit once the statement is in the place of its branch. -/
theorem Opening.exitPerm (opening : Opening graph branch pred exit tail stmt endR others)
    (added : Added graph middle before stmt branch.header endR (tail.or exit)) {join : RegionId}
    (isExit : exit = some join) : (middle.parent join).Perm (tail.getD stmt :: others) := by
  have distinct := opening.distinct
  subst isExit
  have notStmt : join ≠ stmt := by
    rintro rfl
    simp [around, List.nodup_append] at distinct
  rw [added.parent, if_neg notStmt]
  cases tail with
  | none =>
      rw [if_pos (Option.none_or ..)]
      exact replace_perm_cons stmt (opening.exitParent join rfl)
  | some next =>
      have differs : next ≠ join := by
        rintro rfl
        simp [around, List.nodup_append] at distinct
      rw [if_neg (by simpa using differs)]
      exact opening.exitParent join rfl

section Join

variable (opening : Opening graph branch pred exit tail stmt endR others)
  (added : Added graph middle before stmt branch.header endR (tail.or exit))

include opening added

theorem Opening.join_lead_last {lead : Block} (isLead : branch.lead = some lead)
    (isBefore : lead.region = before) (last : tail = none) :
    ∃ after result region, joinRegions middle before stmt (tail.or exit) = some (after, result) ∧
      (pred = none → result = region) ∧
      Joined middle after pred exit (tail.or exit) before (tail.getD stmt) region := by
  subst last isBefore
  have distinct := opening.distinct
  have inUse := opening.inUse
  simp only [around, Branch.leadRegions, isLead, Option.map_some, Option.toList_some,
    Option.toList_none, List.nil_append, List.singleton_append, List.nodup_cons, List.mem_cons,
    List.mem_append, Option.mem_toList, not_or, forall_eq_or_imp] at distinct inUse
  obtain ⟨⟨leadStmt, leadExit, leadPred⟩, ⟨stmtExit, stmtPred⟩, exitPred⟩ := distinct
  obtain ⟨leadInUse, stmtInUse, outerInUse⟩ := inUse
  rw [Option.none_or] at added ⊢
  obtain ⟨after, result, joining, isResult, joined⟩ :=
    @joinRegions_linear_last middle lead.region stmt pred exit
      (by rw [Graph.type_eq_of_label (added.label _)]; exact opening.leadType lead isLead)
      (by rwa [added.next])
      (by
        rintro above isPred
        rw [added.next]
        exact outerInUse above (.inr isPred))
      (by
        rintro join isExit
        rw [added.next]
        exact outerInUse join (.inl isExit))
      (by rw [added.parent, if_neg leadStmt, if_neg leadExit]; exact opening.leadParent lead isLead)
      (by
        rintro above isPred
        have notLead : above ≠ lead.region := fun same => leadPred (same ▸ isPred)
        have notStmt : above ≠ stmt := fun same => stmtPred (same ▸ isPred)
        rw [added.children, if_neg notLead, if_neg notStmt]
        simpa [Branch.entry, isLead] using opening.predChild above isPred)
      (by
        rintro join isExit
        exact (opening.exitPerm added isExit).mem_iff.mpr List.mem_cons_self)
      (by
        rintro join isExit
        rw [Graph.type_eq_of_label (added.label _)]
        exact opening.exitType join isExit)
  exact ⟨after, result, _, joining, isResult, joined⟩

theorem Opening.join_lead_all {lead : Block} {next : RegionId} (isLead : branch.lead = some lead)
    (isBefore : lead.region = before) (all : tail = some next) :
    ∃ after result region, joinRegions middle before stmt (tail.or exit) = some (after, result) ∧
      (pred = none → result = region) ∧
      Joined middle after pred exit (tail.or exit) before (tail.getD stmt) region := by
  subst all isBefore
  have distinct := opening.distinct
  have inUse := opening.inUse
  simp only [around, Branch.leadRegions, isLead, Option.map_some, Option.toList_some,
    List.singleton_append, List.nodup_cons, List.mem_cons,
    List.mem_append, Option.mem_toList, not_or, forall_eq_or_imp] at distinct inUse
  obtain ⟨⟨leadStmt, leadNext, leadExit, leadPred⟩, ⟨stmtNext, stmtExit, stmtPred⟩,
    ⟨nextExit, nextPred⟩, exitPred⟩ := distinct
  obtain ⟨leadInUse, stmtInUse, nextInUse, outerInUse⟩ := inUse
  rw [Option.some_or] at added ⊢
  have predKept : ∀ above, pred = some above → middle.children above = graph.children above := by
    rintro above isPred
    have notLead : above ≠ lead.region := fun same => leadPred (same ▸ isPred)
    have notStmt : above ≠ stmt := fun same => stmtPred (same ▸ isPred)
    rw [added.children, if_neg notLead, if_neg notStmt]
  obtain ⟨after, result, joining, isResult, joined⟩ :=
    @joinRegions_linear_all middle lead.region stmt pred exit next
      (by rw [Graph.type_eq_of_label (added.label _)]; exact opening.leadType lead isLead)
      (by rwa [added.next])
      (by rwa [added.next])
      (by rwa [added.next])
      (by
        rintro above isPred
        rw [added.next]
        exact outerInUse above (.inr isPred))
      (by
        rintro above isPred inside
        rw [predKept above isPred, added.next] at inside
        exact Nat.lt_irrefl _ ((opening.predOld above isPred).2 _ inside))
      (by
        rintro join isExit
        rw [added.next]
        exact outerInUse join (.inl isExit))
      (by
        rw [added.parent, if_neg leadStmt, if_neg (by simpa using Ne.symm leadNext)]
        exact opening.leadParent lead isLead)
      (by
        rintro above isPred
        rw [predKept above isPred]
        simpa [Branch.entry, isLead] using opening.predChild above isPred)
      (by rw [added.parent, if_pos rfl])
      (by
        rw [added.parent, if_neg (Ne.symm stmtNext), if_pos rfl, opening.tailParent next rfl]
        simp)
      (by rw [Graph.type_eq_of_label (added.label _)]; exact opening.tailType next rfl)
      (by
        rw [added.children, if_neg (Ne.symm leadNext), if_neg (Ne.symm stmtNext)]
        exact opening.tailChildren next rfl)
      (by
        rintro join isExit
        exact (opening.exitPerm added isExit).mem_iff.mpr List.mem_cons_self)
      nextExit nextPred (Ne.symm stmtNext) (Ne.symm leadNext)
  exact ⟨after, result, _, joining, isResult, joined⟩

theorem Opening.join_last (isLead : branch.lead = none) (isBefore : pred = some before)
    (last : tail = none) :
    ∃ after result region, joinRegions middle before stmt (tail.or exit) = some (after, result) ∧
      (pred = none → result = region) ∧
      Joined middle after pred exit (tail.or exit) stmt (tail.getD stmt) region := by
  cases opening.closes isLead last
  subst last isBefore
  have notBefore := opening.before_ne_stmt (show branch.before (some before) = some before by
    simp [Branch.before, isLead])
  have stmtInUse : stmt < graph.next := opening.inUse stmt (by simp [around])
  obtain ⟨result, joining, joined⟩ := @joinRegions_basic_last middle stmt before
    (by rw [Graph.type_eq_of_label (added.label _)]; exact opening.predType before rfl)
    (by rwa [added.next])
    (by rw [added.children, if_neg notBefore, if_pos rfl]; rfl)
    (by rw [added.parent, if_pos rfl])
  exact ⟨middle, result, stmt, joining, nofun, joined⟩

theorem Opening.join_all {next : RegionId} (isLead : branch.lead = none)
    (isBefore : pred = some before) (all : tail = some next) :
    ∃ after result region, joinRegions middle before stmt (tail.or exit) = some (after, result) ∧
      (pred = none → result = region) ∧
      Joined middle after pred exit (tail.or exit) stmt (tail.getD stmt) region := by
  subst all isBefore
  have distinct := opening.distinct
  have inUse := opening.inUse
  simp only [around, Branch.leadRegions, isLead, Option.map_none, Option.toList_some,
    Option.toList_none, List.nil_append, List.singleton_append, List.nodup_cons, List.mem_cons,
    List.mem_append, List.not_mem_nil, or_false, Option.mem_toList, not_or, forall_eq_or_imp]
    at distinct inUse
  obtain ⟨⟨stmtNext, stmtExit, stmtBefore⟩, ⟨nextExit, nextBefore⟩, exitBefore⟩ := distinct
  obtain ⟨stmtInUse, nextInUse, outerInUse⟩ := inUse
  rw [Option.some_or] at added ⊢
  have entry : branch.entry = branch.header := by simp [Branch.entry, isLead]
  obtain ⟨after, result, joining, joined⟩ := @joinRegions_basic_all middle stmt before next exit
    (by rw [Graph.type_eq_of_label (added.label _)]; exact opening.predType before rfl)
    (by rw [added.next]; exact outerInUse before (.inr rfl))
    (by rwa [added.next])
    (by
      rintro join isExit
      rw [added.next]
      exact outerInUse join (.inl isExit))
    (by
      have child := opening.predChild before rfl
      rw [entry] at child
      rw [added.children, if_pos rfl]
      exact (replace_perm_cons stmt (List.perm_cons_erase child)).mem_iff.mpr List.mem_cons_self)
    (by rw [added.parent, if_pos rfl])
    (by
      rw [added.children, if_neg nextBefore, if_neg (Ne.symm stmtNext)]
      exact opening.tailChildren next rfl)
    (by
      rintro join isExit
      exact (opening.exitPerm added isExit).mem_iff.mpr List.mem_cons_self)
    nextBefore
  exact ⟨after, result, _, joining, nofun, joined⟩

end Join

/-- `join_regions` puts the statement and the code around it in one region. -/
theorem Opening.join (opening : Opening graph branch pred exit tail stmt endR others)
    (isBefore : branch.before pred = some before)
    (added : Added graph middle before stmt branch.header endR (tail.or exit)) :
    ∃ after result region, joinRegions middle before stmt (tail.or exit) = some (after, result) ∧
      (pred = none → result = region) ∧
      Joined middle after pred exit (tail.or exit) (branch.shown stmt) (tail.getD stmt) region := by
  cases lead : branch.lead with
  | none =>
      simp only [Branch.before, lead, Option.map_none, Option.none_or] at isBefore
      simp only [Branch.shown, lead, Option.map_none, Option.getD_none]
      rcases Option.eq_none_or_eq_some tail with last | ⟨next, all⟩
      · exact opening.join_last added lead isBefore last
      · exact opening.join_all added lead isBefore all
  | some block =>
      simp only [Branch.before, lead, Option.map_some, Option.some_or, Option.some.injEq]
        at isBefore
      simp only [Branch.shown, lead, Option.map_some, Option.getD_some, isBefore]
      rcases Option.eq_none_or_eq_some tail with last | ⟨next, all⟩
      · exact opening.join_lead_last added lead isBefore last
      · exact opening.join_lead_all added lead isBefore all

/-- Every region but the lead and the statement is the child of what it was a child of. -/
theorem Opening.children_other (opening : Opening graph branch pred exit tail stmt endR others)
    (isBefore : branch.before pred = some before)
    (added : Added graph middle before stmt branch.header endR (tail.or exit))
    (joined : Joined middle after pred exit (tail.or exit) (branch.shown stmt) (tail.getD stmt)
      region) {other : RegionId} (old : other < graph.next) (notLead : other ∉ branch.leadRegions)
    (notStmt : other ≠ stmt) (notRegion : other ≠ region) :
    after.children other =
      if pred = some other then (graph.children other).replace branch.entry region
      else graph.children other := by
  rw [joined.children other (by rwa [added.next]) notRegion, added.children]
  cases lead : branch.lead with
  | some block =>
      simp only [Branch.before, lead, Option.map_some, Option.some_or, Option.some.injEq]
        at isBefore
      have notBefore : other ≠ before := by
        simpa [Branch.leadRegions, lead, isBefore] using notLead
      simp [Branch.shown, Branch.entry, lead, notBefore, notStmt]
  | none =>
      simp only [Branch.before, lead, Option.map_none, Option.none_or] at isBefore
      subst isBefore
      simp only [Branch.shown, Branch.entry, lead, Option.map_none, Option.getD_none, notStmt,
        if_false, Option.some.injEq]
      by_cases same : other = before
      · subst same
        rw [if_pos rfl, if_pos rfl, if_pos rfl,
          replace_replace _ _ (opening.predOld other rfl).1]
      · rw [if_neg (Ne.symm same), if_neg same, if_neg (Ne.symm same)]

theorem Opening.closed (opening : Opening graph branch pred exit tail stmt endR others)
    (isBefore : branch.before pred = some before)
    (added : Added graph middle before stmt branch.header endR (tail.or exit))
    (joined : Joined middle after pred exit (tail.or exit) (branch.shown stmt) (tail.getD stmt)
      region) : Closed graph after branch pred exit tail stmt others region := by
  have distinct := opening.distinct
  have stmtInUse : stmt < graph.next := opening.inUse stmt (by simp [around])
  have stmtPred : pred ≠ some stmt := by
    rintro rfl
    simp [around, List.nodup_append] at distinct
  have grows : graph.Grows after := by
    constructor
    · rw [← added.next]
      exact joined.grows.next
    · rintro other old
      rw [joined.grows.label other (by rwa [added.next]), added.label]
  have shape : branch.lead = none ∧ tail = none ∧ region = stmt ∨ graph.next ≤ region ∧
      after.label region = (.linear, .region (branch.shown stmt), .region (tail.getD stmt)) := by
    rcases joined.fresh with ⟨isLast, single⟩ | fresh
    · left
      cases lead : branch.lead <;> cases tail <;>
        simp_all [Branch.shown, around, Branch.leadRegions]
    · rw [added.next] at fresh
      exact .inr fresh
  have notRegion : ∀ other, other < graph.next → other ≠ stmt → other ≠ region := by
    rintro other old notStmt rfl
    rcases shape with ⟨-, -, same⟩ | ⟨fresh, -⟩
    · exact notStmt same
    · exact Nat.not_lt_of_le fresh old
  have notNext : ∀ other, exit ≠ some other → tail ≠ some other → tail.or exit ≠ some other := by
    rintro other notExit notTail
    cases tail with
    | none => rwa [Option.none_or]
    | some next => rwa [Option.some_or]
  constructor
  case grows => exact grows
  case inUse => exact joined.inUse
  case fresh =>
    rcases shape with ⟨-, -, same⟩ | ⟨fresh, -⟩
    · exact .inl same
    · exact .inr fresh
  case type =>
    rcases shape with ⟨-, -, same⟩ | ⟨-, label⟩
    · rw [same, grows.type stmtInUse]
      exact opening.stmtType
    · have linear : after.type region = .linear := congrArg Prod.fst label
      rw [linear]
      decide
  case ownChildren => exact joined.ownChildren
  case ownParent => exact joined.ownParent
  case leadChildren =>
    rintro block isLead
    simp only [Branch.before, isLead, Option.map_some, Option.some_or, Option.some.injEq]
      at isBefore
    subst isBefore
    have blockInUse : block.region < graph.next :=
      opening.inUse _ (by simp [around, Branch.leadRegions, isLead])
    simp only [around, Branch.leadRegions, isLead, Option.map_some, Option.toList_some,
      List.singleton_append, List.nodup_cons, List.mem_cons, List.mem_append, Option.mem_toList,
      not_or] at distinct
    rw [joined.children _ (by rwa [added.next]) (notRegion _ blockInUse distinct.1.1),
      if_neg distinct.1.2.2.2, added.children, if_pos rfl, opening.leadChildren block isLead]
    simp
  case tailChild =>
    rintro next isTail
    have differs : stmt ≠ region := by
      rintro rfl
      rcases shape with ⟨-, noTail, -⟩ | ⟨fresh, -⟩
      · rw [isTail] at noTail
        cases noTail
      · exact Nat.not_lt_of_le fresh stmtInUse
    rw [joined.children stmt (by rwa [added.next]) differs, if_neg stmtPred, added.children,
      if_neg (opening.before_ne_stmt isBefore), if_pos rfl, isTail]
    rfl
  case children =>
    rintro other old notLead notStmt
    exact opening.children_other isBefore added joined old notLead notStmt
      (notRegion other old notStmt)
  case parentExit =>
    rintro join isExit
    rw [joined.parentExit join isExit]
    exact replace_perm_cons region (opening.exitPerm added isExit)
  case parent =>
    rintro other old notStmt notExit notTail
    have kept := notNext other notExit notTail
    rw [joined.parent other (by rwa [added.next]) (notRegion other old notStmt) notExit kept,
      added.parent, if_neg notStmt, if_neg kept]
  case shape =>
    rcases shape with single | ⟨-, label⟩
    · exact .inl single
    · exact .inr label

/-- The statement region, and the code around it that its lead and the code behind it print. -/
theorem Closed.shows {cfg : Cfg} {later : Graph} {lead stmtOut tailOut : Printed}
    (closed : Closed graph after branch pred exit tail stmt others region)
    (distinct : (around branch stmt tail exit pred).Nodup) (grows : after.Grows later)
    (leadKept : ∀ block, branch.lead = some block →
      later.children block.region = after.children block.region)
    (stmtKept : tail.isSome = true → later.children stmt = after.children stmt)
    (leadShows : ∀ block, branch.lead = some block → Shows cfg later block.region lead)
    (stmtShows : Shows cfg later stmt stmtOut)
    (tailShows : ∀ next, tail = some next → Shows cfg later next tailOut) :
    Shows cfg later region (if branch.lead.isSome then
      .seq lead (Printed.followed stmtOut tailOut tail.isSome)
      else Printed.followed stmtOut tailOut tail.isSome) := by
  have behind : ShowsChain cfg later stmt (.region (tail.getD stmt))
      (Printed.followed stmtOut tailOut tail.isSome) := by
    cases tail with
    | none => exact ShowsChain.last stmtShows
    | some next =>
        have differs : Anchor.region stmt ≠ .region next := by
          rintro same
          cases same
          simp [around, List.nodup_append] at distinct
        have child : firstChild later stmt = some next := by
          rw [firstChild, stmtKept rfl, closed.tailChild next rfl]
          rfl
        exact ShowsChain.step stmtShows differs child (ShowsChain.last (tailShows next rfl))
  rcases closed.shape with ⟨noLead, noTail, rfl⟩ | label
  · subst noTail
    simpa [noLead, Printed.followed] using stmtShows
  · have labelLater : later.label region =
        (.linear, .region (branch.shown stmt), .region (tail.getD stmt)) :=
      (grows.label region closed.inUse).trans label
    cases lead : branch.lead with
    | none =>
        simp only [Branch.shown, lead, Option.map_none, Option.getD_none] at labelLater
        exact Shows.chain labelLater behind
    | some block =>
        simp only [Branch.shown, lead, Option.map_some, Option.getD_some] at labelLater
        have differs : Anchor.region block.region ≠ .region (tail.getD stmt) := by
          rintro same
          injection same with same
          cases tail <;> simp_all [around, Branch.leadRegions]
        have child : firstChild later block.region = some stmt := by
          rw [firstChild, leadKept block lead, closed.leadChildren block lead]
          rfl
        exact Shows.chain labelLater
          (ShowsChain.step (leadShows block lead) differs child behind)

end Close

end OpenCLDecompiler.Regions
