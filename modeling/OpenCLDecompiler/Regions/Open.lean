import OpenCLDecompiler.Regions.Close

/-!
# Opening a statement

The first steps of `process_if_statement_region` and
`process_if_else_statement_region`, on a branch whose two ways are merged: the
region of the statement is made, with a fictional region in front of a join
that other regions go to.
-/

namespace OpenCLDecompiler.Regions

/-- The two ways of a branch are merged; without a region `other` one of them goes to the join. -/
structure Ready (graph : Graph) (header before body join : RegionId) (other : Option RegionId)
    (others : List RegionId) : Prop where
  type : graph.type header = .basic
  parent : graph.parent header = [before]
  children : graph.children header = [body, other.getD join]
  bodyChildren : graph.children body = [join]
  bodyParent : graph.parent body = [header]
  otherChildren : ∀ region, other = some region → graph.children region = [join]
  joinParent : (graph.parent join).Perm (body :: other.getD header :: others)
  distinct : (header :: body :: join :: other.toList).Nodup
  inUse : ∀ region ∈ header :: body :: join :: other.toList, region < graph.next

/-- The region `stmt` of the statement is made, with the end `endR`. -/
structure Opened (graph opened : Graph) (header body join : RegionId) (other : Option RegionId)
    (others : List RegionId) (stmt endR : RegionId) : Prop where
  grows : graph.Grows opened
  stmtNew : stmt = graph.next
  inUse : stmt < opened.next
  label : opened.label stmt =
    (if other.isSome then .ifElseStatement else .ifStatement, .region header, .region endR)
  stmtChildren : opened.children stmt = []
  stmtParent : opened.parent stmt = []
  headerBody : (opened.children header)[0]? = some body
  headerOther : ∀ region, other = some region → (opened.children header)[1]? = some region
  children : ∀ region, region < graph.next → region ≠ header → region ≠ body →
    other ≠ some region → opened.children region = graph.children region
  parent : ∀ region, region < graph.next → region ≠ join →
    opened.parent region = graph.parent region
  own : others = [] → endR = join
  shared : others ≠ [] → graph.next ≤ endR ∧ endR < opened.next ∧
    opened.children endR = [join] ∧ (opened.parent join).Perm (endR :: others)

section Open

variable {graph : Graph} {header before body join : RegionId} {other : Option RegionId}
  {others : List RegionId}

theorem Ready.checkIf_eq (ready : Ready graph header before body join other others) :
    checkIf graph header = other.isNone := by
  have distinct := ready.distinct
  unfold checkIf
  rw [ready.type, ready.children]
  cases other with
  | none => simp [firstChild, ready.bodyChildren]
  | some region =>
      simp only [Option.toList_some, List.nodup_cons, List.mem_cons, List.not_mem_nil, or_false,
        not_or] at distinct
      simp [firstChild, ready.bodyChildren, ready.otherChildren region rfl, distinct.2.2.1,
        Ne.symm distinct.2.1.1]

theorem Ready.checkIfElse_eq {region : RegionId}
    (ready : Ready graph header before body join (some region) others) :
    checkIfElse graph header = true := by
  unfold checkIfElse
  rw [ready.type, ready.children]
  simp [firstChild, ready.bodyChildren, ready.otherChildren region rfl]

/-- The end of both functions, from the opened graph on. -/
def finish (opened : Graph) (header before stmt endR : RegionId) : Option (Graph × RegionId) :=
  (addParentAndChild opened before (firstChild opened endR) stmt header endR).bind fun graph =>
    joinRegions graph before stmt (firstChild opened endR)

theorem Ready.joinLength (ready : Ready graph header before body join other others) :
    (graph.parent join).length = others.length + 2 := by
  rw [ready.joinParent.length_eq]
  rfl

/-- The join with two parents stays; in front of one with more a fictional region is made. -/
structure Split (made split : Graph) (prev1 prev2 join : RegionId) (others : List RegionId)
    (endR : RegionId) : Prop where
  grows : made.Grows split
  first : split.children prev1 = made.children prev1 ∨
    split.children prev1 = (made.children prev1).erase join ++ [endR]
  children : ∀ region, region < made.next → region ≠ prev1 → region ≠ prev2 →
    split.children region = made.children region
  parent : ∀ region, region < made.next → region ≠ join →
    split.parent region = made.parent region
  own : others = [] → endR = join
  shared : others ≠ [] → made.next ≤ endR ∧ endR < split.next ∧
    split.children endR = [join] ∧ (split.parent join).Perm (endR :: others)

theorem split_spec {made : Graph} {prev1 prev2 : RegionId}
    (child1 : join ∈ made.children prev1) (child2 : join ∈ made.children prev2)
    (parents : (made.parent join).Perm (prev1 :: prev2 :: others)) (differ : prev1 ≠ prev2)
    (inUse1 : prev1 < made.next) (inUse2 : prev2 < made.next) (inUse : join < made.next) :
    ∃ split endR, (∀ rest : Graph × RegionId → Option (Graph × RegionId),
        (if 2 < (made.parent join).length then
          (createNewRegion made prev1 prev2 join).bind rest
        else rest (made, join)) = rest (split, endR)) ∧
      Split made split prev1 prev2 join others endR := by
  have size := parents.length_eq
  by_cases own : others = []
  · subst own
    refine ⟨made, join, ?_, ?_⟩
    · rintro rest
      rw [if_neg (by simp [size])]
    · constructor
      case grows => exact Graph.Grows.refl made
      case first => exact .inl rfl
      case children => exact fun _ _ _ _ => rfl
      case parent => exact fun _ _ _ => rfl
      case own => exact fun _ => rfl
      case shared => exact fun shared => absurd rfl shared
  · have positive : 0 < others.length := List.length_pos_of_ne_nil own
    obtain ⟨split, created, next, label, children, parent⟩ :=
      createNewRegion_spec child1 child2 (parents.mem_iff.mpr (by simp))
        (parents.mem_iff.mpr (by simp)) differ inUse1 inUse2 inUse
    have new1 : prev1 ≠ made.next := Nat.ne_of_lt inUse1
    have newJoin : join ≠ made.next := Nat.ne_of_lt inUse
    refine ⟨split, made.next, ?_, ?_⟩
    · rintro rest
      rw [if_pos (by rw [size, List.length_cons, List.length_cons]; omega), created,
        Option.bind_some]
    · constructor
      case grows =>
        constructor
        · rw [next]
          exact Nat.le_succ _
        · exact label
      case first =>
        right
        rw [children, if_neg new1, if_pos rfl]
      case children =>
        rintro region old notFirst notSecond
        rw [children, if_neg (Nat.ne_of_lt old), if_neg notFirst, if_neg notSecond]
      case parent =>
        rintro region old notJoin
        rw [parent, if_neg (Nat.ne_of_lt old), if_neg notJoin]
      case own => exact fun empty => absurd empty own
      case shared =>
        rintro -
        refine ⟨Nat.le_refl _, ?_, ?_, ?_⟩
        · rw [next]
          exact Nat.lt_succ_self _
        · rw [children, if_pos rfl]
        · rw [parent, if_neg newJoin, if_pos rfl]
          have replaced := replace_perm_cons made.next parents
          have swapped : ((made.parent join).replace prev1 made.next).Perm
              (prev2 :: made.next :: others) := replaced.trans (.swap ..)
          simpa using swapped.erase prev2

/-- The type of the region of a statement. -/
def stmtType (other : Option RegionId) : RegionType :=
  if other.isSome then .ifElseStatement else .ifStatement

/-- The graph with the new region of a statement. -/
def Graph.withStmt (graph : Graph) (header : RegionId) (other : Option RegionId) : Graph :=
  graph.newRegion (stmtType other) (.region header) (.region header)

theorem Ready.opened {split : Graph} {prev1 prev2 endR : RegionId}
    (ready : Ready graph header before body join other others)
    (done : Split (graph.withStmt header other) split prev1 prev2 join others endR)
    (headerBody : (split.children header)[0]? = some body)
    (headerOther : ∀ region, other = some region → (split.children header)[1]? = some region)
    (only : ∀ region, region ≠ header → region ≠ body → other ≠ some region →
      region ≠ prev1 ∧ region ≠ prev2)
    (stmtOnly : graph.next ≠ prev1 ∧ graph.next ≠ prev2) :
    Opened graph (split.modify graph.next fun old => { old with stop := .region endR })
      header body join other others graph.next endR := by
  have stmtBound : graph.next < (graph.withStmt header other).next := Nat.lt_succ_self _
  have newJoin : graph.next ≠ join := (Nat.ne_of_lt (ready.inUse join (by simp))).symm
  have made : ∀ region, region < graph.next → region < (graph.withStmt header other).next :=
    fun region old => Nat.lt_succ_of_lt old
  constructor
  case grows =>
    constructor
    · rw [Graph.next_modify]
      exact Nat.le_trans (Nat.le_succ _) done.grows.next
    · rintro region old
      rw [Graph.label_modify_stop, if_neg (Nat.ne_of_lt old),
        done.grows.label region (made region old)]
      exact (Graph.label_newRegion ..).trans (if_neg (Nat.ne_of_lt old))
  case stmtNew => rfl
  case inUse => exact Nat.lt_of_lt_of_le stmtBound done.grows.next
  case label =>
    rw [Graph.label_modify_stop, if_pos rfl, done.grows.label _ stmtBound]
    simp [Graph.withStmt, stmtType]
  case stmtChildren =>
    rw [Graph.children_modify_stop, done.children _ stmtBound stmtOnly.1 stmtOnly.2]
    simp [Graph.withStmt]
  case stmtParent =>
    rw [Graph.parent_modify_stop, done.parent _ stmtBound newJoin]
    simp [Graph.withStmt]
  case headerBody => rwa [Graph.children_modify_stop]
  case headerOther =>
    rintro region isOther
    rw [Graph.children_modify_stop]
    exact headerOther region isOther
  case children =>
    rintro region old notHeader notBody notOther
    obtain ⟨notFirst, notSecond⟩ := only region notHeader notBody notOther
    rw [Graph.children_modify_stop, done.children region (made region old) notFirst notSecond]
    simp [Graph.withStmt, Nat.ne_of_lt old]
  case parent =>
    rintro region old notJoin
    rw [Graph.parent_modify_stop, done.parent region (made region old) notJoin]
    simp [Graph.withStmt, Nat.ne_of_lt old]
  case own => exact done.own
  case shared =>
    rintro shared
    obtain ⟨new, inUse, child, parents⟩ := done.shared shared
    refine ⟨Nat.le_trans (Nat.le_succ _) new, inUse, ?_, ?_⟩
    · rwa [Graph.children_modify_stop]
    · rwa [Graph.parent_modify_stop]

theorem Ready.processIf (ready : Ready graph header before body join none others) :
    ∃ opened endR, processIfStatementRegion graph header =
        finish opened header before graph.next endR ∧
      Opened graph opened header body join none others graph.next endR := by
  have distinct := ready.distinct
  have inUse := ready.inUse
  simp only [Option.toList_none, List.nodup_cons, List.mem_cons, List.not_mem_nil, or_false,
    not_or, forall_eq_or_imp, forall_eq] at distinct inUse
  obtain ⟨⟨headerBody, headerJoin⟩, bodyJoin, -⟩ := distinct
  obtain ⟨headerInUse, bodyInUse, joinInUse⟩ := inUse
  have newHeader : header ≠ graph.next := Nat.ne_of_lt headerInUse
  have newBody : body ≠ graph.next := Nat.ne_of_lt bodyInUse
  have newJoin : join ≠ graph.next := Nat.ne_of_lt joinInUse
  have children : (graph.withStmt header none).children header = [body, join] := by
    simp [Graph.withStmt, newHeader, ready.children]
  have parents : ((graph.withStmt header none).parent join).Perm (header :: body :: others) := by
    simpa [Graph.withStmt, newJoin] using ready.joinParent.trans (.swap ..)
  have joinMany : 1 < ((graph.withStmt header none).parent join).length := by
    rw [parents.length_eq]
    simp
  obtain ⟨split, endR, splitting, done⟩ :=
    @split_spec join others (graph.withStmt header none) header body (by simp [children])
      (by simp [Graph.withStmt, newBody, ready.bodyChildren]) parents headerBody
      (Nat.lt_succ_of_lt headerInUse) (Nat.lt_succ_of_lt bodyInUse) (Nat.lt_succ_of_lt joinInUse)
  refine ⟨_, endR, ?_, ready.opened done ?_ nofun ?_ ⟨newHeader.symm, newBody.symm⟩⟩
  · have isHeader : (graph.withStmt header none).parent header = [before] := by
      simp [Graph.withStmt, newHeader, ready.parent]
    have bodyOne : ((graph.withStmt header none).parent body).length = 1 := by
      simp [Graph.withStmt, newBody, ready.bodyParent]
    have made : graph.newRegion .ifStatement (.region header) (.region header) =
        graph.withStmt header none := rfl
    unfold processIfStatementRegion
    simp only [made, children, bodyOne, joinMany, isHeader, List.head?_cons, if_true,
      Option.bind_eq_bind, Option.bind_some]
    exact splitting fun done => finish
      (done.1.modify graph.next fun old => { old with stop := .region done.2 })
      header before graph.next done.2
  · rcases done.first with kept | erased
    · simp [kept, children]
    · simp [erased, children, bodyJoin]
  · rintro region notHeader notBody -
    exact ⟨notHeader, notBody⟩

theorem Ready.processIfElse {region : RegionId}
    (ready : Ready graph header before body join (some region) others) :
    ∃ opened endR, processIfElseStatementRegion graph header =
        finish opened header before graph.next endR ∧
      Opened graph opened header body join (some region) others graph.next endR := by
  have distinct := ready.distinct
  have inUse := ready.inUse
  simp only [Option.toList_some, List.nodup_cons, List.mem_cons, List.not_mem_nil, or_false,
    not_or, forall_eq_or_imp, forall_eq] at distinct inUse
  obtain ⟨⟨headerBody, headerJoin, headerRegion⟩, ⟨bodyJoin, bodyRegion⟩, joinRegion, -⟩ := distinct
  obtain ⟨headerInUse, bodyInUse, joinInUse, regionInUse⟩ := inUse
  have newHeader : header ≠ graph.next := Nat.ne_of_lt headerInUse
  have newBody : body ≠ graph.next := Nat.ne_of_lt bodyInUse
  have newJoin : join ≠ graph.next := Nat.ne_of_lt joinInUse
  have newRegion : region ≠ graph.next := Nat.ne_of_lt regionInUse
  have children : (graph.withStmt header (some region)).children header = [body, region] := by
    simp [Graph.withStmt, newHeader, ready.children]
  have bodyChildren : (graph.withStmt header (some region)).children body = [join] := by
    simp [Graph.withStmt, newBody, ready.bodyChildren]
  have parents : ((graph.withStmt header (some region)).parent join).Perm
      (body :: region :: others) := by
    simpa [Graph.withStmt, newJoin] using ready.joinParent
  obtain ⟨split, endR, splitting, done⟩ :=
    @split_spec join others (graph.withStmt header (some region)) body region
      (by simp [bodyChildren])
      (by simp [Graph.withStmt, newRegion, ready.otherChildren region rfl]) parents bodyRegion
      (Nat.lt_succ_of_lt bodyInUse) (Nat.lt_succ_of_lt regionInUse) (Nat.lt_succ_of_lt joinInUse)
  have headerKept : split.children header = [body, region] := by
    rw [done.children header (Nat.lt_succ_of_lt headerInUse) headerBody headerRegion, children]
  have headerParent : (split.modify graph.next fun old =>
      { old with stop := .region endR }).parent header = [before] := by
    rw [Graph.parent_modify_stop, done.parent header (Nat.lt_succ_of_lt headerInUse) headerJoin]
    simp [Graph.withStmt, newHeader, ready.parent]
  refine ⟨_, endR, ?_, ready.opened done ?_ ?_ ?_ ⟨newBody.symm, newRegion.symm⟩⟩
  · have made : graph.newRegion .ifElseStatement (.region header) (.region header) =
        graph.withStmt header (some region) := rfl
    have join0 : firstChild (graph.withStmt header (some region)) body = some join := by
      simp [firstChild, bodyChildren]
    unfold processIfElseStatementRegion
    simp only [made, children, join0, Option.bind_eq_bind, Option.bind_some]
    refine (splitting fun done =>
      ((done.1.modify graph.next fun old => { old with stop := .region done.2 }).parent
        header).head?.bind fun beforeR => finish
          (done.1.modify graph.next fun old => { old with stop := .region done.2 })
          header beforeR graph.next done.2).trans ?_
    simp only [headerParent, List.head?_cons, Option.bind_some]
  · simp [headerKept]
  · rintro other isOther
    cases isOther
    simp [headerKept]
  · rintro other - notBody notOther
    exact ⟨notBody, fun same => notOther (congrArg some same.symm)⟩

/-- `process_region_graph_dfs` on a branch whose two ways are merged. -/
theorem Ready.process (ready : Ready graph header before body join other others) :
    ∃ opened endR, (∀ visited result, processRegion ⟨graph, visited⟩ header result =
        (finish opened header before graph.next endR).map (fun done =>
          (⟨done.1, visited⟩, done.2))) ∧
      Opened graph opened header body join other others graph.next endR := by
  have notLinear : graph.type header ≠ .linear := by
    rw [ready.type]
    decide
  cases other with
  | none =>
      obtain ⟨opened, endR, processed, opens⟩ := ready.processIf
      refine ⟨opened, endR, fun visited result => ?_, opens⟩
      rw [processRegion, if_neg notLinear, if_pos (by rw [ready.checkIf_eq]; rfl), processed]
  | some region =>
      obtain ⟨opened, endR, processed, opens⟩ := ready.processIfElse
      refine ⟨opened, endR, fun visited result => ?_, opens⟩
      rw [processRegion, if_neg notLinear, if_neg (by simp [ready.checkIf_eq]),
        if_pos ready.checkIfElse_eq, processed]

end Open

end OpenCLDecompiler.Regions
