import Mathlib.Data.List.Perm.Basic
import OpenCLDecompiler.Regions.Code

/-!
# Edits of the region graph

What the edits do to the children and the parents of every region.  No edit
changes the type, the start or the end of a region that is in use.
-/

namespace OpenCLDecompiler.Regions

/-- The type, the start and the end of a region. -/
def Region.label (region : Region) : RegionType × Anchor × Anchor :=
  (region.type, region.start, region.stop)

namespace Graph

def label (graph : Graph) (region : RegionId) : RegionType × Anchor × Anchor :=
  (graph.get region).label

theorem type_eq_of_label {graph other : Graph} {region : RegionId}
    (same : other.label region = graph.label region) : other.type region = graph.type region :=
  congrArg Prod.fst same

theorem start_eq_of_label {graph other : Graph} {region : RegionId}
    (same : other.label region = graph.label region) : other.start region = graph.start region :=
  congrArg (fun label => label.2.1) same

theorem stop_eq_of_label {graph other : Graph} {region : RegionId}
    (same : other.label region = graph.label region) : other.stop region = graph.stop region :=
  congrArg (fun label => label.2.2) same

section Projections

variable (graph : Graph) (region other : RegionId) (list : List RegionId)

theorem get_modify (change : Region → Region) :
    (graph.modify region change).get other =
      if other = region then change (graph.get region) else graph.get other := by
  simp [modify, Function.update_apply]

/-- A change that keeps a field of its region keeps it in every region. -/
theorem get_modify_field {β : Type} (field : Region → β) {change : Region → Region}
    (kept : ∀ old, field (change old) = field old) :
    field ((graph.modify region change).get other) = field (graph.get other) := by
  rw [get_modify]
  split
  · rename_i same
    rw [kept, same]
  · rfl

theorem get_newRegion (type : RegionType) (start stop : Anchor) :
    (graph.newRegion type start stop).get other =
      if other = graph.next then ⟨type, start, stop, [], []⟩ else graph.get other := by
  simp [newRegion, Function.update_apply]

@[simp]
theorem next_modify (change : Region → Region) :
    (graph.modify region change).next = graph.next := rfl

@[simp]
theorem next_setChildren : (graph.setChildren region list).next = graph.next := rfl

@[simp]
theorem next_setParent : (graph.setParent region list).next = graph.next := rfl

@[simp]
theorem next_addChild : (graph.addChild region other).next = graph.next := rfl

@[simp]
theorem next_addParent : (graph.addParent region other).next = graph.next := rfl

@[simp]
theorem next_newRegion (type : RegionType) (start stop : Anchor) :
    (graph.newRegion type start stop).next = graph.next + 1 := rfl

@[simp]
theorem children_setChildren :
    (graph.setChildren region list).children other =
      if other = region then list else graph.children other := by
  unfold setChildren children
  rw [get_modify]
  split <;> rfl

@[simp]
theorem children_setParent :
    (graph.setParent region list).children other = graph.children other :=
  get_modify_field graph region other Region.children fun _ => rfl

@[simp]
theorem parent_setParent :
    (graph.setParent region list).parent other =
      if other = region then list else graph.parent other := by
  unfold setParent parent
  rw [get_modify]
  split <;> rfl

@[simp]
theorem parent_setChildren :
    (graph.setChildren region list).parent other = graph.parent other :=
  get_modify_field graph region other Region.parent fun _ => rfl

@[simp]
theorem label_setChildren :
    (graph.setChildren region list).label other = graph.label other :=
  get_modify_field graph region other Region.label fun _ => rfl

@[simp]
theorem label_setParent :
    (graph.setParent region list).label other = graph.label other :=
  get_modify_field graph region other Region.label fun _ => rfl

/-- Setting the end of a region. -/
@[simp]
theorem children_modify_stop (stop : Anchor) :
    (graph.modify region fun old => { old with stop := stop }).children other =
      graph.children other :=
  get_modify_field graph region other Region.children fun _ => rfl

@[simp]
theorem parent_modify_stop (stop : Anchor) :
    (graph.modify region fun old => { old with stop := stop }).parent other =
      graph.parent other :=
  get_modify_field graph region other Region.parent fun _ => rfl

@[simp]
theorem label_modify_stop (stop : Anchor) :
    (graph.modify region fun old => { old with stop := stop }).label other =
      if other = region then ((graph.label region).1, (graph.label region).2.1, stop)
      else graph.label other := by
  unfold label
  rw [get_modify]
  split <;> rfl

@[simp]
theorem children_newRegion (type : RegionType) (start stop : Anchor) :
    (graph.newRegion type start stop).children other =
      if other = graph.next then [] else graph.children other := by
  unfold children
  rw [get_newRegion]
  split <;> rfl

@[simp]
theorem parent_newRegion (type : RegionType) (start stop : Anchor) :
    (graph.newRegion type start stop).parent other =
      if other = graph.next then [] else graph.parent other := by
  unfold parent
  rw [get_newRegion]
  split <;> rfl

@[simp]
theorem label_newRegion (type : RegionType) (start stop : Anchor) :
    (graph.newRegion type start stop).label other =
      if other = graph.next then (type, start, stop) else graph.label other := by
  unfold label
  rw [get_newRegion]
  split <;> rfl

@[simp]
theorem children_addChild (child : RegionId) :
    (graph.addChild region child).children other =
      if other = region then graph.children region ++ [child] else graph.children other :=
  children_setChildren ..

@[simp]
theorem parent_addChild (child : RegionId) :
    (graph.addChild region child).parent other = graph.parent other :=
  parent_setChildren ..

@[simp]
theorem label_addChild (child : RegionId) :
    (graph.addChild region child).label other = graph.label other :=
  label_setChildren ..

@[simp]
theorem children_addParent (above : RegionId) :
    (graph.addParent region above).children other = graph.children other :=
  children_setParent ..

@[simp]
theorem parent_addParent (above : RegionId) :
    (graph.addParent region above).parent other =
      if other = region then graph.parent region ++ [above] else graph.parent other :=
  parent_setParent ..

@[simp]
theorem label_addParent (above : RegionId) :
    (graph.addParent region above).label other = graph.label other :=
  label_setParent ..

end Projections

variable {graph : Graph} {region old : RegionId}

theorem replaceChild_of_mem (inside : old ∈ graph.children region) (new : RegionId) :
    graph.replaceChild region old new =
      some (graph.setChildren region ((graph.children region).replace old new)) := by
  simp [replaceChild, replaceIn, inside]

theorem replaceParent_of_mem (inside : old ∈ graph.parent region) (new : RegionId) :
    graph.replaceParent region old new =
      some (graph.setParent region ((graph.parent region).replace old new)) := by
  simp [replaceParent, replaceIn, inside]

theorem removeChild_of_mem (inside : old ∈ graph.children region) :
    graph.removeChild region old =
      some (graph.setChildren region ((graph.children region).erase old)) := by
  simp [removeChild, removeFrom, inside]

theorem removeParent_of_mem (inside : old ∈ graph.parent region) :
    graph.removeParent region old =
      some (graph.setParent region ((graph.parent region).erase old)) := by
  simp [removeParent, removeFrom, inside]

/-- The later graph has the regions of the earlier one with their labels. -/
structure Grows (graph later : Graph) : Prop where
  next : graph.next ≤ later.next
  label : ∀ region, region < graph.next → later.label region = graph.label region

theorem Grows.refl (graph : Graph) : Grows graph graph :=
  ⟨Nat.le_refl _, fun _ _ => rfl⟩

theorem Grows.trans {graph middle later : Graph} (first : Grows graph middle)
    (second : Grows middle later) : Grows graph later where
  next := Nat.le_trans first.next second.next
  label region inUse :=
    (second.label region (Nat.lt_of_lt_of_le inUse first.next)).trans (first.label region inUse)

theorem Grows.type {graph later : Graph} (grows : Grows graph later) {region : RegionId}
    (inUse : region < graph.next) : later.type region = graph.type region :=
  type_eq_of_label (grows.label region inUse)

end Graph

/-! ## Lists with one entry replaced -/

theorem replace_perm_cons {list rest : List RegionId} {old : RegionId} (new : RegionId)
    (perm : list.Perm (old :: rest)) : (list.replace old new).Perm (new :: rest) := by
  have inside : old ∈ list := perm.mem_iff.mpr List.mem_cons_self
  obtain ⟨left, right, rfl, absent⟩ := List.eq_append_cons_of_mem inside
  have replaced : (left ++ old :: right).replace old new = left ++ new :: right := by
    rw [List.replace_append_right absent]
    simp
  rw [replaced]
  have others : (left ++ right).Perm rest :=
    ((List.perm_middle.symm.trans perm)).cons_inv
  exact List.perm_middle.trans (others.cons new)

theorem mem_replace_of_ne {list : List RegionId} {old other : RegionId} (new : RegionId)
    (inside : other ∈ list) (differs : other ≠ old) : other ∈ list.replace old new := by
  by_cases present : old ∈ list
  · have perm := replace_perm_cons new (List.perm_cons_erase present)
    exact perm.mem_iff.mpr (List.mem_cons_of_mem _ ((List.mem_erase_of_ne differs).mpr inside))
  · rwa [List.replace_of_not_mem present]

theorem replace_same (list : List RegionId) (item : RegionId) : list.replace item item = list := by
  induction list with
  | nil => rfl
  | cons head rest ih =>
      by_cases found : head = item
      · subst found
        simp
      · have differs : (item == head) = false := beq_false_of_ne (Ne.symm found)
        simp [List.replace_cons, differs, ih]

theorem replace_replace {list : List RegionId} {middle : RegionId} (old new : RegionId)
    (absent : middle ∉ list) :
    (list.replace old middle).replace middle new = list.replace old new := by
  induction list with
  | nil => rfl
  | cons head rest ih =>
      obtain ⟨notHead, notRest⟩ := List.ne_and_not_mem_of_not_mem_cons absent
      by_cases found : head = old
      · subst found
        simp
      · have differs : (old == head) = false := beq_false_of_ne (Ne.symm found)
        have fresh : (middle == head) = false := beq_false_of_ne notHead
        simp [List.replace_cons, differs, fresh, ih notRest]

/-! ## The edits of the source -/

section Edits

variable {graph : Graph}

/-- The fictional region takes the place of two parents of the join. -/
theorem createNewRegion_spec {prev1 prev2 next : RegionId}
    (child1 : next ∈ graph.children prev1) (child2 : next ∈ graph.children prev2)
    (parent1 : prev1 ∈ graph.parent next) (parent2 : prev2 ∈ graph.parent next)
    (differ : prev1 ≠ prev2) (inUse1 : prev1 < graph.next) (inUse2 : prev2 < graph.next)
    (inUse : next < graph.next) :
    ∃ after, createNewRegion graph prev1 prev2 next = some (after, graph.next) ∧
      after.next = graph.next + 1 ∧
      (∀ region, region < graph.next → after.label region = graph.label region) ∧
      (∀ region, after.children region =
        if region = graph.next then [next]
        else if region = prev1 then (graph.children prev1).erase next ++ [graph.next]
        else if region = prev2 then (graph.children prev2).erase next ++ [graph.next]
        else graph.children region) ∧
      (∀ region, after.parent region =
        if region = graph.next then [prev1, prev2]
        else if region = next then ((graph.parent next).replace prev1 graph.next).erase prev2
        else graph.parent region) := by
  have new1 : prev1 ≠ graph.next := Nat.ne_of_lt inUse1
  have new2 : prev2 ≠ graph.next := Nat.ne_of_lt inUse2
  have new : next ≠ graph.next := Nat.ne_of_lt inUse
  have kept : prev2 ∈ (graph.parent next).replace prev1 graph.next :=
    mem_replace_of_ne _ parent2 differ.symm
  simp [createNewRegion, Graph.removeChild, Graph.removeParent, Graph.replaceParent, removeFrom,
    replaceIn, child1, child2, parent1, kept, differ.symm, new]
  refine ⟨?_, ?_, ?_⟩
  · rintro region old
    have known : region ≠ graph.next := Nat.ne_of_lt old
    simp [known]
  · grind
  · grind

theorem addParentAndChild_spec {beforeR region prevChild prevParent : RegionId}
    {nextR : Option RegionId} (child : prevChild ∈ graph.children beforeR)
    (parent : ∀ next, nextR = some next → prevParent ∈ graph.parent next)
    (notBefore : region ≠ beforeR) (notNext : nextR ≠ some region) :
    ∃ after, addParentAndChild graph beforeR nextR region prevChild prevParent = some after ∧
      after.next = graph.next ∧
      (∀ other, after.label other = graph.label other) ∧
      (∀ other, after.children other =
        if other = beforeR then (graph.children beforeR).replace prevChild region
        else if other = region then graph.children region ++ nextR.toList
        else graph.children other) ∧
      (∀ other, after.parent other =
        if other = region then graph.parent region ++ [beforeR]
        else if nextR = some other then (graph.parent other).replace prevParent region
        else graph.parent other) := by
  cases nextR with
  | none =>
      simp [addParentAndChild, Graph.replaceChild, replaceIn, child]
      grind
  | some next =>
      have differs : next ≠ region := fun same => notNext (congrArg some same)
      simp [addParentAndChild, Graph.replaceChild, Graph.replaceParent, replaceIn, child,
        parent next rfl, differs, notBefore]
      grind

theorem replaceInParent_spec {before old region result : RegionId} {pred : Option RegionId}
    (parent : graph.parent before = pred.toList)
    (child : ∀ above, pred = some above → old ∈ graph.children above) :
    ∃ after final, replaceInParent graph before old region result = some (after, final) ∧
      (pred = none → final = region) ∧ (pred ≠ none → final = result) ∧
      after.next = graph.next ∧
      (∀ other, after.label other = graph.label other) ∧
      (∀ other, after.children other =
        if pred = some other then (graph.children other).replace old region
        else graph.children other) ∧
      (∀ other, after.parent other =
        if other = region then graph.parent region ++ pred.toList else graph.parent other) := by
  cases pred with
  | none =>
      simp [replaceInParent, parent]
  | some above =>
      simp [replaceInParent, parent, Graph.replaceChild, replaceIn, child above rfl]
      grind

/-- `next` becomes the child of the region instead of the one it had as parent. -/
theorem link_spec {next old region : RegionId} (parent : old ∈ graph.parent next) :
    ∃ middle after, graph.replaceParent next old region = some middle ∧
      middle.addChild region next = after ∧ after.next = graph.next ∧
      (∀ other, after.label other = graph.label other) ∧
      (∀ other, after.children other =
        if other = region then graph.children region ++ [next] else graph.children other) ∧
      (∀ other, after.parent other =
        if other = next then (graph.parent next).replace old region else graph.parent other) :=
  ⟨_, _, Graph.replaceParent_of_mem parent region, rfl, rfl, by simp, by simp, by simp⟩

theorem newRegion_spec (type : RegionType) (start stop : Anchor) :
    ∃ after, graph.newRegion type start stop = after ∧ after.next = graph.next + 1 ∧
      (∀ other, after.label other =
        if other = graph.next then (type, start, stop) else graph.label other) ∧
      (∀ other, after.children other =
        if other = graph.next then [] else graph.children other) ∧
      (∀ other, after.parent other = if other = graph.next then [] else graph.parent other) :=
  ⟨_, rfl, rfl, by simp, by simp, by simp⟩

theorem takeChild_spec {next region : RegionId} {exit : Option RegionId}
    (children : graph.children next = exit.toList)
    (parent : ∀ join, exit = some join → next ∈ graph.parent join) :
    ∃ after, takeChild graph next region = some after ∧ after.next = graph.next ∧
      (∀ other, after.label other = graph.label other) ∧
      (∀ other, after.children other =
        if other = region then graph.children region ++ exit.toList
        else graph.children other) ∧
      (∀ other, after.parent other =
        if exit = some other then (graph.parent other).replace next region
        else graph.parent other) := by
  cases exit with
  | none =>
      simp [takeChild, firstChild, children]
  | some join =>
      simp [takeChild, firstChild, children, Graph.replaceParent, replaceIn, parent join rfl]
      grind

/--
`region` stands for the regions from `first` to `last` behind `pred` and in
front of `exit`; all other regions in use are as before, but for the parents of
the region behind the statement.
-/
structure Joined (graph after : Graph) (pred exit next : Option RegionId)
    (first last region : RegionId) : Prop where
  grows : Graph.Grows graph after
  inUse : region < after.next
  fresh : region = last ∧ first = last ∨ graph.next ≤ region ∧
    after.label region = (.linear, .region first, .region last)
  ownChildren : after.children region = exit.toList
  ownParent : after.parent region = pred.toList
  children : ∀ other, other < graph.next → other ≠ region → after.children other =
    if pred = some other then (graph.children other).replace first region
    else graph.children other
  parentExit : ∀ other, exit = some other →
    after.parent other = (graph.parent other).replace last region
  parent : ∀ other, other < graph.next → other ≠ region → exit ≠ some other →
    next ≠ some other → after.parent other = graph.parent other

variable {before stmt : RegionId} {pred : Option RegionId}

/-- A statement behind a linear region, at the exit of the code. -/
theorem joinRegions_linear_last {exit : Option RegionId}
    (linear : graph.type before ≠ .basic) (inUseBefore : before < graph.next)
    (inUsePred : ∀ above, pred = some above → above < graph.next)
    (inUseExit : ∀ join, exit = some join → join < graph.next)
    (parent : graph.parent before = pred.toList)
    (child : ∀ above, pred = some above → before ∈ graph.children above)
    (exitParent : ∀ join, exit = some join → stmt ∈ graph.parent join)
    (exitType : ∀ join, exit = some join → graph.type join = .basic) :
    ∃ after result, joinRegions graph before stmt exit = some (after, result) ∧
      (pred = none → result = graph.next) ∧
      Joined graph after pred exit exit before stmt graph.next := by
  have newBefore : before ≠ graph.next := Nat.ne_of_lt inUseBefore
  have newPred : ∀ above, pred = some above → above ≠ graph.next :=
    fun above same => Nat.ne_of_lt (inUsePred above same)
  obtain ⟨made, making, madeNext, madeLabel, madeChildren, madeParents⟩ :=
    @newRegion_spec graph .linear (.region before) (.region stmt)
  obtain ⟨placed, final, placing, noPred, -, placedNext, label, children, parents⟩ :=
    @replaceInParent_spec made before before graph.next before pred
      (by simp [madeParents, newBefore, parent])
      (by
        rintro above same
        simp [madeChildren, newPred above same, child above same])
  unfold joinRegions joinAfterLinear
  rw [if_pos linear]
  cases exit with
  | none =>
      refine ⟨placed, final, ?_, noPred, ?_⟩
      · simp [making, placing]
      · constructor
        · constructor
          · rw [placedNext, madeNext]
            exact Nat.le_succ _
          · rintro region old
            simp [label, madeLabel, Nat.ne_of_lt old]
        · rw [placedNext, madeNext]
          exact Nat.lt_succ_self _
        · right
          simp [label, madeLabel]
        · simp [children, madeChildren]
        · simp [parents, madeParents]
        · rintro other old -
          simp [children, madeChildren, Nat.ne_of_lt old]
        · rintro other impossible
          cases impossible
        · rintro other old differs - -
          simp [parents, madeParents, differs]
  | some join =>
      have newJoin : join ≠ graph.next := Nat.ne_of_lt (inUseExit join rfl)
      obtain ⟨middle, linked, linking, adding, linkedNext, linkedLabel, linkedChildren,
          linkedParents⟩ :=
        @link_spec placed join stmt graph.next
          (by simp [parents, madeParents, newJoin, exitParent join rfl])
      have linkedType : linked.type join = .basic := by
        have kept : linked.label join = graph.label join := by
          simp [linkedLabel, label, madeLabel, newJoin]
        rw [Graph.type_eq_of_label kept, exitType join rfl]
      refine ⟨linked, final, ?_, noPred, ?_⟩
      · simp [making, placing, linking, adding, linkedType]
      · constructor
        · constructor
          · rw [linkedNext, placedNext, madeNext]
            exact Nat.le_succ _
          · rintro region old
            simp [linkedLabel, label, madeLabel, Nat.ne_of_lt old]
        · rw [linkedNext, placedNext, madeNext]
          exact Nat.lt_succ_self _
        · right
          simp [linkedLabel, label, madeLabel]
        · simp [linkedChildren, children, madeChildren]
        · simp [linkedParents, parents, madeParents, newJoin.symm]
        · rintro other old -
          simp [linkedChildren, children, madeChildren, Nat.ne_of_lt old]
        · rintro other same
          cases same
          simp [linkedParents, parents, madeParents, newJoin]
        · rintro other old differs notExit -
          have known : other ≠ join := fun same => notExit (congrArg some same.symm)
          simp [linkedParents, parents, madeParents, differs, known]

/-- A statement between a linear region and the merged code behind its join. -/
theorem joinRegions_linear_all {exit : Option RegionId} {next : RegionId}
    (linear : graph.type before ≠ .basic) (inUseBefore : before < graph.next)
    (inUseStmt : stmt < graph.next) (inUseNext : next < graph.next)
    (inUsePred : ∀ above, pred = some above → above < graph.next)
    (oldPred : ∀ above, pred = some above → graph.next ∉ graph.children above)
    (inUseExit : ∀ join, exit = some join → join < graph.next)
    (parent : graph.parent before = pred.toList)
    (child : ∀ above, pred = some above → before ∈ graph.children above)
    (stmtParent : graph.parent stmt = [before])
    (nextParent : stmt ∈ graph.parent next) (nextType : graph.type next ≠ .basic)
    (nextChildren : graph.children next = exit.toList)
    (exitParent : ∀ join, exit = some join → next ∈ graph.parent join)
    (nextExit : exit ≠ some next) (nextPred : pred ≠ some next) (nextStmt : next ≠ stmt)
    (nextBefore : next ≠ before) :
    ∃ after result, joinRegions graph before stmt (some next) = some (after, result) ∧
      (pred = none → result = graph.next + 1) ∧
      Joined graph after pred exit (some next) before next (graph.next + 1) := by
  have newBefore : before ≠ graph.next := Nat.ne_of_lt inUseBefore
  have newStmt : stmt ≠ graph.next := Nat.ne_of_lt inUseStmt
  have newNext : next ≠ graph.next := Nat.ne_of_lt inUseNext
  have newPred : ∀ above, pred = some above → above ≠ graph.next :=
    fun above same => Nat.ne_of_lt (inUsePred above same)
  have newExit : ∀ join, exit = some join → join ≠ graph.next :=
    fun join same => Nat.ne_of_lt (inUseExit join same)
  have beyond : ∀ region : RegionId, region < graph.next → region ≠ graph.next + 1 :=
    fun region old => Nat.ne_of_lt (Nat.lt_succ_of_lt old)
  obtain ⟨made, making, madeNext, madeLabel, madeChildren, madeParents⟩ :=
    @newRegion_spec graph .linear (.region before) (.region stmt)
  obtain ⟨placed, final, placing, noPred, -, placedNext, label, children, parents⟩ :=
    @replaceInParent_spec made before before graph.next before pred
      (by simp [madeParents, newBefore, parent])
      (by
        rintro above same
        simp [madeChildren, newPred above same, child above same])
  obtain ⟨middle, linked, linking, adding, linkedNext, linkedLabel, linkedChildren,
      linkedParents⟩ :=
    @link_spec placed next stmt graph.next (by simp [parents, madeParents, newNext, nextParent])
  have linkedType : linked.type next ≠ .basic := by
    have kept : linked.label next = graph.label next := by
      simp [linkedLabel, label, madeLabel, newNext]
    rwa [Graph.type_eq_of_label kept]
  have linkedStmt : linked.parent stmt = [before] := by
    simp [linkedParents, nextStmt.symm, parents, newStmt, madeParents, stmtParent]
  obtain ⟨whole, wholeMaking, wholeNext, wholeLabel, wholeChildren, wholeParents⟩ :=
    @newRegion_spec linked .linear (.region before) (.region next)
  have index : linked.next = graph.next + 1 := by rw [linkedNext, placedNext, madeNext]
  rw [index] at wholeNext wholeLabel wholeChildren wholeParents
  obtain ⟨above, last, aboving, aboveNoPred, -, aboveNext, aboveLabel, aboveChildren,
      aboveParents⟩ :=
    @replaceInParent_spec whole before graph.next (graph.next + 1) final pred
      (by simp [wholeParents, beyond before inUseBefore, linkedParents, nextBefore.symm, parents,
        newBefore, madeParents, parent])
      (by
        rintro above same
        have present : graph.next ∈ (graph.children above).replace before graph.next :=
          (replace_perm_cons _ (List.perm_cons_erase (child above same))).mem_iff.mpr
            List.mem_cons_self
        simp [wholeChildren, beyond above (inUsePred above same), linkedChildren,
          newPred above same, children, same, madeChildren, present])
  obtain ⟨after, taking, afterNext, afterLabel, afterChildren, afterParents⟩ :=
    @takeChild_spec above next (graph.next + 1) exit
      (by simp [aboveChildren, nextPred, wholeChildren, beyond next inUseNext, linkedChildren,
        newNext, children, madeChildren, nextChildren])
      (by
        rintro join same
        have differs : join ≠ next := fun equal => nextExit (equal ▸ same)
        simp [aboveParents, beyond join (inUseExit join same), wholeParents, linkedParents,
          differs, parents, newExit join same, madeParents, exitParent join same])
  refine ⟨after, last, ?_, aboveNoPred, ?_⟩
  · unfold joinRegions joinAfterLinear
    rw [if_pos linear]
    simp only [making, placing, linking, adding, Option.bind_eq_bind, Option.bind_some]
    rw [if_pos ⟨linkedType, by rw [linkedStmt]; rfl⟩]
    simp only [wholeMaking, index, aboving, Option.bind_some, taking, Option.map_some]
  · constructor
    · constructor
      · rw [afterNext, aboveNext, wholeNext]
        exact Nat.le_add_right _ 2
      · rintro region old
        simp [afterLabel, aboveLabel, wholeLabel, linkedLabel, label, madeLabel,
          Nat.ne_of_lt old, beyond region old]
    · rw [afterNext, aboveNext, wholeNext]
      exact Nat.lt_succ_self _
    · right
      simp [afterLabel, aboveLabel, wholeLabel]
    · have notPred : pred ≠ some (graph.next + 1) := fun same =>
        beyond _ (inUsePred _ same) rfl
      simp [afterChildren, aboveChildren, notPred, wholeChildren]
    · have notExit : exit ≠ some (graph.next + 1) := fun same =>
        beyond _ (inUseExit _ same) rfl
      simp [afterParents, notExit, aboveParents, wholeParents]
    · rintro other old -
      simp only [afterChildren, beyond other old, aboveChildren, wholeChildren, linkedChildren,
        Nat.ne_of_lt old, children, madeChildren, if_false]
      split
      · rename_i same
        exact replace_replace _ _ (oldPred other same)
      · rfl
    · rintro other same
      have old := inUseExit other same
      have differs : other ≠ next := fun equal => nextExit (equal ▸ same)
      simp [afterParents, same, aboveParents, beyond other old, wholeParents, linkedParents,
        differs, parents, Nat.ne_of_lt old, madeParents]
    · rintro other old - notExit notNext
      have differs : other ≠ next := fun equal => notNext (congrArg some equal.symm)
      simp [afterParents, notExit, aboveParents, beyond other old, wholeParents, linkedParents,
        differs, parents, Nat.ne_of_lt old, madeParents]

/-- A statement directly behind a basic region, with nothing behind its join. -/
theorem joinRegions_basic_last {before : RegionId} (basic : graph.type before = .basic)
    (inUseStmt : stmt < graph.next) (children : graph.children stmt = [])
    (parent : graph.parent stmt = [before]) :
    ∃ result, joinRegions graph before stmt none = some (graph, result) ∧
      Joined graph graph (some before) none none stmt stmt stmt := by
  refine ⟨before, ?_, ?_⟩
  · simp [joinRegions, joinAfterBasic, basic]
  · constructor
    · exact Graph.Grows.refl graph
    · exact inUseStmt
    · exact .inl ⟨rfl, rfl⟩
    · exact children
    · exact parent
    · rintro other - -
      rw [replace_same, ite_self]
    · rintro other impossible
      cases impossible
    · rintro other - - - -
      rfl

/-- A statement between a basic region and the merged code behind its join. -/
theorem joinRegions_basic_all {before next : RegionId} {exit : Option RegionId}
    (basic : graph.type before = .basic) (inUseBefore : before < graph.next)
    (inUseNext : next < graph.next)
    (inUseExit : ∀ join, exit = some join → join < graph.next)
    (child : stmt ∈ graph.children before) (stmtParent : graph.parent stmt = [before])
    (nextChildren : graph.children next = exit.toList)
    (exitParent : ∀ join, exit = some join → next ∈ graph.parent join)
    (nextBefore : next ≠ before) :
    ∃ after result, joinRegions graph before stmt (some next) = some (after, result) ∧
      Joined graph after (some before) exit (some next) stmt next graph.next := by
  have newBefore : before ≠ graph.next := Nat.ne_of_lt inUseBefore
  have newNext : next ≠ graph.next := Nat.ne_of_lt inUseNext
  have newExit : ∀ join, exit = some join → join ≠ graph.next :=
    fun join same => Nat.ne_of_lt (inUseExit join same)
  obtain ⟨made, making, madeNext, madeLabel, madeChildren, madeParents⟩ :=
    @newRegion_spec graph .linear (.region stmt) (.region next)
  have madeChild : stmt ∈ made.children before := by simp [madeChildren, newBefore, child]
  let above := (made.setChildren before
    ((made.children before).replace stmt graph.next)).addParent graph.next before
  obtain ⟨after, taking, afterNext, afterLabel, afterChildren, afterParents⟩ :=
    @takeChild_spec above next graph.next exit
      (by simp [above, nextBefore, madeChildren, newNext, nextChildren])
      (by
        rintro join same
        simp [above, newExit join same, madeParents, exitParent join same])
  refine ⟨after, before, ?_, ?_⟩
  · simp only [above] at taking
    simp [joinRegions, joinAfterBasic, basic, stmtParent, making,
      Graph.replaceChild_of_mem madeChild, taking]
  · constructor
    · constructor
      · simp [afterNext, above, madeNext]
      · rintro region old
        simp [afterLabel, above, madeLabel, Nat.ne_of_lt old]
    · simp [afterNext, above, madeNext]
    · right
      simp [afterLabel, above, madeLabel]
    · simp [afterChildren, above, newBefore.symm, madeChildren]
    · have notExit : exit ≠ some graph.next := fun same => newExit _ same rfl
      simp [afterParents, notExit, above, madeParents]
    · rintro other old -
      simp only [afterChildren, Nat.ne_of_lt old, above, Graph.children_addParent,
        Graph.children_setChildren, madeChildren, newBefore, if_false]
      grind
    · rintro other same
      simp [afterParents, same, above, newExit other same, madeParents]
    · rintro other old differs notExit -
      simp [afterParents, notExit, above, differs, madeParents]

end Edits

end OpenCLDecompiler.Regions
