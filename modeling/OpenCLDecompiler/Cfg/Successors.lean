import OpenCLDecompiler.Cfg.Step

/-!
# Graphs of code in label form

For code without masks the edges of the graph are counted exactly: a pair of
nodes is joined once by falling through and once by a branch to the label.  The
counts decide when the graph is the successor relation of the instructions.
-/

namespace OpenCLDecompiler

open Library

/-- The instruction of a node; the entry node has none. -/
def instrAt (instrs : List Instr) : NodeId → Option Instr
  | 0 => none
  | node + 1 => instrs[node]?

def targetAt (instrs : List Instr) (node : NodeId) : Option String :=
  (instrAt instrs node).bind Instr.target?

def labelAt (instrs : List Instr) (node : NodeId) : Option String :=
  (instrAt instrs node).bind Instr.label?

def Instr.isEndPgm : Instr → Bool
  | .endPgm => true
  | _ => false

def Instr.isMask : Instr → Bool
  | .changeMask _ | .unmask => true
  | _ => false

def jumpsAt (instrs : List Instr) (node : NodeId) : Bool :=
  (instrAt instrs node).any Instr.isJump

def endsAt (instrs : List Instr) (node : NodeId) : Bool :=
  (instrAt instrs node).any Instr.isEndPgm

/-- Code in label form: no masks, one place for each label, every target present. -/
structure LabelForm (instrs : List Instr) : Prop where
  unmasked : ∀ instr ∈ instrs, instr.isMask = false
  labels : (instrs.filterMap Instr.label?).Nodup
  targets : ∀ text ∈ instrs.filterMap Instr.target?, text ∈ instrs.filterMap Instr.label?

/-- The successor relation of the instruction set, over the nodes of the instructions. -/
def Successor (instrs : List Instr) (source target : NodeId) : Prop :=
  (target = source + 1 ∧ target ≤ instrs.length ∧ jumpsAt instrs source = false ∧
    endsAt instrs source = false) ∨
  ∃ text, targetAt instrs source = some text ∧ labelAt instrs target = some text

/-- The graph is the successor relation, with every edge recorded once on both sides. -/
structure SuccessorEdges (instrs : List Instr) (nodes : Nodes) : Prop where
  childrenNodup : ∀ node, (nodes.children node).Nodup
  parentNodup : ∀ node, (nodes.parent node).Nodup
  children : ∀ source target, target ∈ nodes.children source ↔ Successor instrs source target
  parent : ∀ source target, source ∈ nodes.parent target ↔ Successor instrs source target

/-! ## Counting edges -/

def fallsThrough (instrs : List Instr) (source target : NodeId) : Bool :=
  target == source + 1 && decide (target ≤ instrs.length) && !jumpsAt instrs source

def branchesTo (instrs : List Instr) (source target : NodeId) : Bool :=
  (targetAt instrs source).any fun text => labelAt instrs target == some text

def edgeCount (instrs : List Instr) (source target : NodeId) : Nat :=
  (fallsThrough instrs source target).toNat + (branchesTo instrs source target).toNat

theorem instrAt_snoc (seen : List Instr) (instr : Instr) (node : NodeId) :
    instrAt (seen ++ [instr]) node =
      if node = seen.length + 1 then some instr else instrAt seen node := by
  cases node with
  | zero => simp [instrAt]
  | succ node =>
      simp only [instrAt, List.getElem?_append, Nat.succ.injEq]
      rcases Nat.lt_trichotomy node seen.length with below | same | above
      · simp [below, Nat.ne_of_lt below]
      · simp [same]
      · have outside : seen.length ≤ node := Nat.le_of_lt above
        have positive : node - seen.length ≠ 0 := Nat.sub_ne_zero_of_lt above
        simp [Nat.not_lt.mpr outside, Nat.ne_of_gt above, positive]

theorem instrAt_eq_none {instrs : List Instr} {node : NodeId} (outside : instrs.length < node) :
    instrAt instrs node = none := by
  cases node with
  | zero => rfl
  | succ node => exact List.getElem?_eq_none (Nat.le_of_lt_succ outside)

theorem le_length_of_instrAt {instrs : List Instr} {node : NodeId} {instr : Instr}
    (found : instrAt instrs node = some instr) : node ≤ instrs.length := by
  by_contra outside
  rw [instrAt_eq_none (Nat.lt_of_not_le outside)] at found
  cases found

theorem mem_of_instrAt {instrs : List Instr} {node : NodeId} {instr : Instr}
    (found : instrAt instrs node = some instr) : instr ∈ instrs := by
  cases node with
  | zero => cases found
  | succ node => exact List.mem_of_getElem? found

theorem labelAt_snoc (seen : List Instr) (instr : Instr) (node : NodeId) :
    labelAt (seen ++ [instr]) node =
      if node = seen.length + 1 then instr.label? else labelAt seen node := by
  unfold labelAt
  rw [instrAt_snoc]
  split <;> rfl

theorem targetAt_snoc (seen : List Instr) (instr : Instr) (node : NodeId) :
    targetAt (seen ++ [instr]) node =
      if node = seen.length + 1 then instr.target? else targetAt seen node := by
  unfold targetAt
  rw [instrAt_snoc]
  split <;> rfl

theorem jumpsAt_snoc (seen : List Instr) (instr : Instr) (node : NodeId) :
    jumpsAt (seen ++ [instr]) node =
      if node = seen.length + 1 then instr.isJump else jumpsAt seen node := by
  unfold jumpsAt
  rw [instrAt_snoc]
  split <;> rfl

theorem labelAt_eq_none {instrs : List Instr} {node : NodeId} (outside : instrs.length < node) :
    labelAt instrs node = none := by
  rw [labelAt, instrAt_eq_none outside]
  rfl

theorem label?_eq_none_of_target {instr : Instr} {text : String}
    (target : instr.target? = some text) : instr.label? = none := by
  cases instr <;> first | rfl | cases target

theorem target?_eq_none_of_label {instr : Instr} {text : String}
    (label : instr.label? = some text) : instr.target? = none := by
  cases instr <;> first | rfl | cases label

/-- An instruction added at the end falls through to nothing yet. -/
theorem fallsThrough_snoc (seen : List Instr) (instr : Instr) (source target : Nat) :
    fallsThrough (seen ++ [instr]) source target =
      if source = seen.length + 1 then false
      else if target = seen.length + 1 then
        decide (source = seen.length) && !jumpsAt seen source
      else fallsThrough seen source target := by
  unfold fallsThrough
  rw [jumpsAt_snoc, List.length_append, List.length_singleton]
  by_cases sourceNew : source = seen.length + 1
  · have beyond : (target == source + 1 && decide (target ≤ seen.length + 1)) = false := by
      rw [Bool.and_eq_false_iff, beq_eq_false_iff_ne, decide_eq_false_iff_not]
      omega
    simp only [beyond, Bool.false_and, if_pos sourceNew]
  · rw [if_neg sourceNew, if_neg sourceNew]
    by_cases targetNew : target = seen.length + 1
    · have adjacent : (target == source + 1 && decide (target ≤ seen.length + 1)) =
          decide (source = seen.length) := by
        rw [Bool.eq_iff_iff, Bool.and_eq_true, beq_iff_eq, decide_eq_true_iff, decide_eq_true_iff]
        omega
      rw [adjacent, if_pos targetNew]
    · have bound : (target == source + 1 && decide (target ≤ seen.length + 1)) =
          (target == source + 1 && decide (target ≤ seen.length)) := by
        rw [Bool.eq_iff_iff, Bool.and_eq_true, Bool.and_eq_true, beq_iff_eq, decide_eq_true_iff,
          decide_eq_true_iff]
        omega
      rw [bound, if_neg targetNew]

theorem branchesTo_snoc (seen : List Instr) (instr : Instr) (source target : NodeId) :
    branchesTo (seen ++ [instr]) source target =
      if source = seen.length + 1 then
        instr.target?.any fun text => labelAt seen target == some text
      else if target = seen.length + 1 then
        instr.label?.any fun text => targetAt seen source == some text
      else branchesTo seen source target := by
  unfold branchesTo
  rw [targetAt_snoc, labelAt_snoc]
  by_cases sourceNew : source = seen.length + 1
  · rw [if_pos sourceNew, if_pos sourceNew]
    cases branched : instr.target? with
    | none => rfl
    | some text =>
        by_cases targetNew : target = seen.length + 1
        · subst targetNew
          simp [label?_eq_none_of_target branched, labelAt_eq_none (Nat.lt_succ_self seen.length)]
        · simp [targetNew]
  · rw [if_neg sourceNew, if_neg sourceNew]
    by_cases targetNew : target = seen.length + 1
    · rw [if_pos targetNew, if_pos targetNew]
      cases targetAt seen source <;> cases instr.label? <;> simp [eq_comm]
    · rw [if_neg targetNew, if_neg targetNew]

/-- An instruction added at the end brings the edges into and out of its own node. -/
theorem edgeCount_snoc (seen : List Instr) (instr : Instr) (source target : NodeId) :
    edgeCount (seen ++ [instr]) source target =
      if source = seen.length + 1 then
        (instr.target?.any fun text => labelAt seen target == some text).toNat
      else if target = seen.length + 1 then
        (decide (source = seen.length) && !jumpsAt seen source).toNat +
          (instr.label?.any fun text => targetAt seen source == some text).toNat
      else edgeCount seen source target := by
  unfold edgeCount
  rw [fallsThrough_snoc, branchesTo_snoc]
  split
  · simp
  · split <;> rfl

/-! ## The invariant of the pass on code in label form -/

structure LabelInv (seen : List Instr) (st : DecompilationState) : Prop where
  valid : Valid st
  size : st.nodes.size = seen.length + 1
  last : st.lastNode = seen.length
  masks : st.maskedBlocks = [⟨entryNode, none⟩]
  jump : ∀ node, st.nodes.instruction node = jumpOpcode ↔ jumpsAt seen node = true
  children : ∀ source target, (st.nodes.children source).count target = edgeCount seen source target
  parent : ∀ source target, (st.nodes.parent target).count source = edgeCount seen source target
  toNode : ∀ text node, st.data.toNode.get? text = some node ↔ labelAt seen node = some text
  waiting : ∀ text, (∀ node, labelAt seen node ≠ some text) → ∀ source,
    ((st.data.fromNode.get? text).getD []).count source =
      (targetAt seen source == some text).toNat

theorem edgeCount_nil (source target : Nat) : edgeCount [] source target = 0 := by
  have noTarget : targetAt [] source = none := by cases source <;> rfl
  have noFall : (target == source + 1 && decide (target ≤ ([] : List Instr).length)) = false := by
    rw [Bool.and_eq_false_iff, beq_eq_false_iff_ne, decide_eq_false_iff_not, List.length_nil]
    omega
  rw [edgeCount, fallsThrough, noFall, branchesTo, noTarget]
  rfl

theorem labelInv_initialState : LabelInv [] initialState where
  valid := valid_initialState
  size := rfl
  last := rfl
  masks := rfl
  jump node := by
    have blank : initialState.nodes.instruction node ≠ jumpOpcode := by
      cases node with
      | zero => decide
      | succ node =>
          have outside : initialState.nodes.instruction (node + 1) = (default : Node).instruction := by
            simp [Nodes.instruction, Arena.get, initialState, Arena.alloc, Arena.empty]
          rw [outside]
          decide
    have none : jumpsAt [] node = false := by cases node <;> rfl
    simp [blank, none]
  children source target := by
    rw [edgeCount_nil, children_initialState]
    exact List.count_nil
  parent source target := by
    rw [edgeCount_nil, parent_initialState]
    exact List.count_nil
  toNode text node := by
    have none : labelAt [] node = none := by cases node <;> rfl
    simp [none, initialState, initialData]
  waiting text _ source := by
    have none : targetAt [] source = none := by cases source <;> rfl
    simp [none, initialState, initialData]

/-! ## One step on code in label form -/

theorem edgeCount_beyond {seen : List Instr} {source target : Nat}
    (beyond : seen.length < target) : edgeCount seen source target = 0 := by
  have tooFar : ¬target ≤ seen.length := Nat.not_le.mpr beyond
  rw [edgeCount, fallsThrough, branchesTo, labelAt_eq_none beyond]
  cases targetAt seen source <;> simp [tooFar]

theorem targetAt_eq_none {instrs : List Instr} {node : NodeId} (outside : instrs.length < node) :
    targetAt instrs node = none := by
  rw [targetAt, instrAt_eq_none outside]
  rfl

theorem edgeCount_from_beyond {seen : List Instr} {source target : Nat}
    (beyond : seen.length < source) : edgeCount seen source target = 0 := by
  have noFall : (target == source + 1 && decide (target ≤ seen.length)) = false := by
    rw [Bool.and_eq_false_iff, beq_eq_false_iff_ne, decide_eq_false_iff_not]
    omega
  rw [edgeCount, fallsThrough, noFall, branchesTo, targetAt_eq_none beyond]
  rfl

theorem attachment_unmasked {st : DecompilationState} {instr : Instr}
    (masks : st.maskedBlocks = [⟨entryNode, none⟩]) (unmasked : instr.isMask = false) :
    attachment st instr = some
      ⟨fallthroughParents st, st.nodes.state st.lastNode, fun _ => st.maskedBlocks⟩ := by
  cases instr with
  | changeMask predicate => cases unmasked
  | unmask => cases unmasked
  | endPgm =>
      unfold attachment
      rw [masks]
      rfl
  | plain backend => rfl
  | label name => rfl
  | branch predicate target => rfl
  | branchNot predicate target => rfl
  | jump target => rfl

theorem exists_step_unmasked {st : DecompilationState} {instr : Instr}
    (masks : st.maskedBlocks = [⟨entryNode, none⟩]) (unmasked : instr.isMask = false) :
    ∃ after, step st instr = some after := by
  unfold step
  rw [attachment_unmasked masks unmasked]
  cases instr with
  | changeMask predicate => cases unmasked
  | unmask => cases unmasked
  | endPgm => exact ⟨_, rfl⟩
  | plain backend => exact ⟨_, rfl⟩
  | label name => exact ⟨_, rfl⟩
  | branch predicate target => exact ⟨_, rfl⟩
  | branchNot predicate target => exact ⟨_, rfl⟩
  | jump target => exact ⟨_, rfl⟩

theorem backTarget_eq (data : DecompilerData) (instr : Instr) :
    backTarget data instr = instr.target?.bind data.toNode.get? := by
  cases instr <;> rfl

theorem joinedSources_eq (data : DecompilerData) (instr : Instr) :
    joinedSources data instr =
      (instr.label?.map fun text => (data.fromNode.get? text).getD []).getD [] := by
  cases instr <;> rfl

section LabelStep

variable {seen : List Instr} {st : DecompilationState} (inv : LabelInv seen st)
include inv

theorem backTarget_eq_some_iff (instr : Instr) (target : NodeId) :
    backTarget st.data instr = some target ↔
      (instr.target?.any fun text => labelAt seen target == some text) = true := by
  rw [backTarget_eq]
  cases instr.target? with
  | none => simp
  | some text => simp [inv.toNode]

theorem count_fallthroughParents (source : NodeId) :
    (fallthroughParents st).count source =
      (decide (source = seen.length) && !jumpsAt seen source).toNat := by
  unfold fallthroughParents
  have jump := inv.jump st.lastNode
  rw [inv.last] at jump ⊢
  by_cases here : source = seen.length
  · subst here
    cases jumped : jumpsAt seen seen.length with
    | true => simp [jump.mpr jumped]
    | false =>
        have stays : ¬st.nodes.instruction seen.length = jumpOpcode := fun opcode => by
          rw [jump.mp opcode] at jumped
          cases jumped
        simp [stays]
  · have absent : (if st.nodes.instruction seen.length = jumpOpcode then []
        else [seen.length]).count source = 0 := by
      split
      · exact List.count_nil
      · exact List.count_eq_zero_of_not_mem fun inside => here (List.mem_singleton.mp inside)
    rw [absent]
    simp [here]

theorem count_joinedSources {instr : Instr}
    (fresh : ∀ text, instr.label? = some text → ∀ node, labelAt seen node ≠ some text)
    (source : NodeId) :
    (joinedSources st.data instr).count source =
      (instr.label?.any fun text => targetAt seen source == some text).toNat := by
  rw [joinedSources_eq]
  cases label : instr.label? with
  | none => exact List.count_nil
  | some text => exact inv.waiting text (fresh text label) source

variable {instr : Instr} {after : DecompilationState}
  (fresh : ∀ text, instr.label? = some text → ∀ node, labelAt seen node ≠ some text)
  (effect : StepEffect st instr
    ⟨fallthroughParents st, st.nodes.state st.lastNode, fun _ => st.maskedBlocks⟩ after)
include fresh effect

theorem children_labelStep (source target : NodeId) :
    (after.nodes.children source).count target = edgeCount (seen ++ [instr]) source target := by
  have back := backTarget_eq_some_iff inv instr
  have joined := count_joinedSources inv fresh
  rw [effect.children, edgeCount_snoc, inv.size, List.count_append, List.count_append,
    List.count_replicate, joined source]
  by_cases sourceNew : source = seen.length + 1
  · rw [if_pos sourceNew, if_pos sourceNew, if_pos sourceNew, List.count_nil]
    have own : targetAt seen source = none := by
      rw [sourceNew]
      exact targetAt_eq_none (Nat.lt_succ_self _)
    have noJoin : (instr.label?.any fun text => targetAt seen source == some text) = false := by
      rw [own]
      cases instr.label? <;> rfl
    rw [noJoin]
    cases reached : backTarget st.data instr with
    | none =>
        have none : ¬(instr.target?.any fun text => labelAt seen target == some text) = true :=
          fun holds => by
            rw [(back target).mpr holds] at reached
            cases reached
        simp [none]
    | some node =>
        have same : (instr.target?.any fun text => labelAt seen target == some text) = true ↔
            node = target := by
          rw [← back, reached, Option.some_inj]
        by_cases here : node = target
        · simp [same.mpr here, here]
        · have none : (instr.target?.any fun text => labelAt seen target == some text) = false :=
            Bool.eq_false_iff.mpr fun holds => here (same.mp holds)
          simp [none, here]
  · rw [if_neg sourceNew, if_neg sourceNew, if_neg sourceNew, List.count_nil, List.count_append,
      List.count_replicate, count_fallthroughParents inv, inv.children]
    by_cases targetNew : target = seen.length + 1
    · subst targetNew
      simp [edgeCount_beyond (Nat.lt_succ_self seen.length)]
    · simp [targetNew, Ne.symm targetNew]

theorem parent_labelStep (source target : NodeId) :
    (after.nodes.parent target).count source = edgeCount (seen ++ [instr]) source target := by
  have back := backTarget_eq_some_iff inv instr target
  have joined := count_joinedSources inv fresh source
  have falls := count_fallthroughParents inv source
  rw [effect.parent, edgeCount_snoc, inv.size, List.count_append, List.count_append]
  by_cases sourceNew : source = seen.length + 1
  · have noFall : (decide (source = seen.length) && !jumpsAt seen source) = false := by
      simp [sourceNew]
    have noJoin : (instr.label?.any fun text => targetAt seen source == some text) = false := by
      rw [sourceNew, targetAt_eq_none (Nat.lt_succ_self _)]
      cases instr.label? <;> rfl
    rw [noFall] at falls
    rw [noJoin] at joined
    have oldNone : (if target = seen.length + 1 then fallthroughParents st
        else st.nodes.parent target).count source = 0 := by
      split
      · exact falls
      · rw [inv.parent]
        exact edgeCount_from_beyond (by rw [sourceNew]; exact Nat.lt_succ_self _)
    have joinNone : (if target = seen.length + 1 then joinedSources st.data instr
        else []).count source = 0 := by
      split
      · exact joined
      · exact List.count_nil
    rw [oldNone, joinNone, if_pos sourceNew]
    by_cases reached : backTarget st.data instr = some target
    · simp [reached, back.mp reached, sourceNew]
    · have none : (instr.target?.any fun text => labelAt seen target == some text) = false :=
        Bool.eq_false_iff.mpr fun holds => reached (back.mpr holds)
      simp [reached, none]
  · have backNone : (if backTarget st.data instr = some target then [seen.length + 1]
        else []).count source = 0 := by
      split
      · exact List.count_eq_zero_of_not_mem fun inside => sourceNew (List.mem_singleton.mp inside)
      · exact List.count_nil
    rw [backNone, if_neg sourceNew]
    by_cases targetNew : target = seen.length + 1
    · rw [if_pos targetNew, if_pos targetNew, if_pos targetNew, falls, joined, Nat.add_zero]
    · rw [if_neg targetNew, if_neg targetNew, if_neg targetNew, inv.parent, List.count_nil]
      rfl

theorem toNode_labelStep (text : String) (node : NodeId) :
    after.data.toNode.get? text = some node ↔ labelAt (seen ++ [instr]) node = some text := by
  rw [effect.toNode, filledToNode, labelAt_snoc, inv.size]
  have beyond : labelAt seen (seen.length + 1) = none := labelAt_eq_none (Nat.lt_succ_self _)
  cases label : instr.label? with
  | none =>
      simp only [inv.toNode]
      split
      · rename_i here
        rw [here, beyond]
      · rfl
  | some defined =>
      simp only [PyDict.get?_set]
      by_cases same : text = defined
      · subst same
        by_cases here : node = seen.length + 1
        · simp [here]
        · simp [here, Ne.symm here, fresh text label node]
      · rw [if_neg same, inv.toNode]
        by_cases here : node = seen.length + 1
        · simp [here, beyond, Ne.symm same]
        · rw [if_neg here]

omit fresh in
theorem waiting_labelStep (text : String)
    (open' : ∀ node, labelAt (seen ++ [instr]) node ≠ some text) (source : NodeId) :
    ((after.data.fromNode.get? text).getD []).count source =
      (targetAt (seen ++ [instr]) source == some text).toNat := by
  have openBefore : ∀ node, labelAt seen node ≠ some text := by
    intro node labelled
    have here := open' node
    rw [labelAt_snoc] at here
    split at here
    · rename_i new
      rw [new, labelAt_eq_none (Nat.lt_succ_self _)] at labelled
      cases labelled
    · exact here labelled
  have old := inv.waiting text openBefore source
  rw [effect.fromNode, filledFromNode, targetAt_snoc, inv.size]
  cases branched : instr.target? with
  | none =>
      simp only [old]
      split
      · rename_i new
        rw [new, targetAt_eq_none (Nat.lt_succ_self _)]
      · rfl
  | some target =>
      have beyond : targetAt seen (seen.length + 1) = none := targetAt_eq_none (Nat.lt_succ_self _)
      by_cases same : text = target
      · subst same
        have unseen : st.data.toNode.get? text = none := by
          cases stored : st.data.toNode.get? text with
          | none => rfl
          | some node => exact absurd ((inv.toNode text node).mp stored) (openBefore node)
        simp only [unseen, Option.isSome_none, Bool.false_eq_true, if_false, PyDict.get?_set_self,
          Option.getD_some, List.count_append, old]
        by_cases new : source = seen.length + 1
        · simp [new, beyond]
        · simp [new, Ne.symm new]
      · have kept : ((if (st.data.toNode.get? target).isSome then st.data.fromNode
            else st.data.fromNode.set target
              ((st.data.fromNode.get? target).getD [] ++ [seen.length + 1])).get? text) =
            st.data.fromNode.get? text := by
          split
          · rfl
          · exact PyDict.get?_set_of_ne _ same _
        simp only [kept, old]
        by_cases new : source = seen.length + 1
        · have other : (some target == some text) = false := by simpa using Ne.symm same
          rw [if_pos new, other, new, beyond]
          rfl
        · rw [if_neg new]

end LabelStep

theorem labelInv_step {seen : List Instr} {st : DecompilationState} (inv : LabelInv seen st)
    {instr : Instr} (unmasked : instr.isMask = false)
    (fresh : ∀ text, instr.label? = some text → ∀ node, labelAt seen node ≠ some text) :
    ∃ after, step st instr = some after ∧ LabelInv (seen ++ [instr]) after := by
  obtain ⟨after, stepped⟩ := exists_step_unmasked inv.masks unmasked
  obtain ⟨attached, found, effect⟩ := step_effect inv.valid stepped
  rw [attachment_unmasked inv.masks unmasked] at found
  cases found
  refine ⟨after, stepped, ?_⟩
  exact {
    valid := valid_step inv.valid stepped
    size := by rw [effect.size, inv.size, List.length_append, List.length_singleton]
    last := by rw [effect.last, inv.size, List.length_append, List.length_singleton]
    masks := by rw [effect.masks, inv.masks]
    jump := fun node => by
      rw [effect.instruction, jumpsAt_snoc, inv.size]
      split
      · exact opcode_eq_jump_iff instr
      · exact inv.jump node
    children := children_labelStep inv fresh effect
    parent := parent_labelStep inv fresh effect
    toNode := toNode_labelStep inv fresh effect
    waiting := waiting_labelStep inv effect }

/-! ## The whole run -/

theorem mem_labels_of_labelAt {instrs : List Instr} {node : NodeId} {text : String}
    (labelled : labelAt instrs node = some text) : text ∈ instrs.filterMap Instr.label? := by
  obtain ⟨instr, found, label⟩ := Option.bind_eq_some_iff.mp labelled
  exact List.mem_filterMap.mpr ⟨instr, mem_of_instrAt found, label⟩

theorem labelInv_run (instrs : List Instr) (unmasked : ∀ instr ∈ instrs, instr.isMask = false)
    (labels : (instrs.filterMap Instr.label?).Nodup) :
    ∃ st, run instrs = some st ∧ LabelInv instrs st := by
  induction instrs using List.reverseRecOn with
  | nil => exact ⟨initialState, rfl, labelInv_initialState⟩
  | append_singleton seen instr ih =>
      rw [List.filterMap_append, List.nodup_append] at labels
      obtain ⟨before, ran, inv⟩ :=
        ih (fun other inside => unmasked other (List.mem_append_left _ inside)) labels.1
      have fresh : ∀ text, instr.label? = some text → ∀ node, labelAt seen node ≠ some text := by
        intro text label node labelled
        refine labels.2.2 text (mem_labels_of_labelAt labelled) text ?_ rfl
        exact List.mem_filterMap.mpr ⟨instr, List.mem_singleton_self instr, label⟩
      obtain ⟨after, stepped, kept⟩ :=
        labelInv_step inv (unmasked instr (List.mem_append_right _ List.mem_cons_self)) fresh
      refine ⟨after, ?_, kept⟩
      change runFrom initialState seen = some before at ran
      change runFrom initialState (seen ++ [instr]) = some after
      rw [runFrom_append, ran]
      simp [runFrom_cons, stepped]

/-- No code follows the end of the program. -/
def EndsLast (instrs : List Instr) : Prop :=
  ∀ node, endsAt instrs node = true → node = instrs.length

/-- No conditional branch goes to the label that follows it. -/
def BranchesApart (instrs : List Instr) : Prop :=
  ∀ node text, targetAt instrs node = some text → jumpsAt instrs node = false →
    labelAt instrs (node + 1) ≠ some text

theorem fallsThrough_iff (instrs : List Instr) (source target : NodeId) :
    fallsThrough instrs source target = true ↔
      target = source + 1 ∧ target ≤ instrs.length ∧ jumpsAt instrs source = false := by
  simp [fallsThrough, and_assoc]

theorem branchesTo_iff (instrs : List Instr) (source target : NodeId) :
    branchesTo instrs source target = true ↔
      ∃ text, targetAt instrs source = some text ∧ labelAt instrs target = some text := by
  simp [branchesTo, Option.any_eq_true]

theorem endsAt_cases {instrs : List Instr} {node : NodeId} (ends : endsAt instrs node = true) :
    node ≤ instrs.length ∧ jumpsAt instrs node = false ∧ targetAt instrs node = none := by
  obtain ⟨instr, found, last⟩ := (Option.any_eq_true _ _).mp ends
  refine ⟨le_length_of_instrAt found, ?_, ?_⟩
  · rw [jumpsAt, found]
    cases instr <;> first | rfl | cases last
  · rw [targetAt, found]
    cases instr <;> first | rfl | cases last

theorem le_length_of_labelAt {instrs : List Instr} {node : NodeId} {text : String}
    (labelled : labelAt instrs node = some text) : node ≤ instrs.length := by
  obtain ⟨instr, found, _⟩ := Option.bind_eq_some_iff.mp labelled
  exact le_length_of_instrAt found

/-- The counts agree with the successor relation exactly where the two ways do not overlap. -/
theorem edgeCount_exact_iff (instrs : List Instr) :
    (∀ source target, edgeCount instrs source target ≤ 1 ∧
      (0 < edgeCount instrs source target ↔ Successor instrs source target)) ↔
    EndsLast instrs ∧ BranchesApart instrs := by
  constructor
  · intro exact'
    constructor
    · intro node ends
      obtain ⟨inside, stays, noTarget⟩ := endsAt_cases ends
      by_contra notLast
      have falls : fallsThrough instrs node (node + 1) = true :=
        (fallsThrough_iff ..).mpr ⟨rfl, Nat.lt_of_le_of_ne inside notLast, stays⟩
      have positive : 0 < edgeCount instrs node (node + 1) := by
        rw [edgeCount, falls]
        exact Nat.lt_add_right _ Nat.zero_lt_one
      rcases (exact' node (node + 1)).2.mp positive with ⟨_, _, _, open'⟩ | ⟨text, branched, _⟩
      · rw [ends] at open'
        cases open'
      · rw [noTarget] at branched
        cases branched
    · intro node text branched stays labelled
      have falls : fallsThrough instrs node (node + 1) = true :=
        (fallsThrough_iff ..).mpr ⟨rfl, le_length_of_labelAt labelled, stays⟩
      have jumps : branchesTo instrs node (node + 1) = true :=
        (branchesTo_iff ..).mpr ⟨text, branched, labelled⟩
      have bound := (exact' node (node + 1)).1
      rw [edgeCount, falls, jumps] at bound
      exact absurd bound (by decide)
  · rintro ⟨endsLast, apart⟩ source target
    constructor
    · cases falls : fallsThrough instrs source target with
      | false =>
          rw [edgeCount, falls]
          cases branchesTo instrs source target <;> decide
      | true =>
          obtain ⟨rfl, _, stays⟩ := (fallsThrough_iff ..).mp falls
          have separate : branchesTo instrs source (source + 1) = false :=
            Bool.eq_false_iff.mpr fun jumps => by
              obtain ⟨text, branched, labelled⟩ := (branchesTo_iff ..).mp jumps
              exact apart source text branched stays labelled
          rw [edgeCount, falls, separate]
          decide
    · have positive : 0 < edgeCount instrs source target ↔
          fallsThrough instrs source target = true ∨ branchesTo instrs source target = true := by
        rw [edgeCount]
        cases fallsThrough instrs source target <;> cases branchesTo instrs source target <;> simp
      rw [positive, fallsThrough_iff, branchesTo_iff]
      refine or_congr_left ⟨fun ⟨next, inside, stays⟩ => ⟨next, inside, stays, ?_⟩,
        fun ⟨next, inside, stays, _⟩ => ⟨next, inside, stays⟩⟩
      refine Bool.eq_false_iff.mpr fun ends => ?_
      have last := endsLast source ends
      rw [next, last] at inside
      exact Nat.not_succ_le_self _ inside

theorem successorEdges_iff {instrs : List Instr} {st : DecompilationState}
    (inv : LabelInv instrs st) :
    SuccessorEdges instrs st.nodes ↔ EndsLast instrs ∧ BranchesApart instrs := by
  rw [← edgeCount_exact_iff]
  constructor
  · intro edges source target
    rw [← inv.children source target, List.count_pos_iff, edges.children source target]
    exact ⟨List.nodup_iff_count_le_one.mp (edges.childrenNodup source) target, Iff.rfl⟩
  · intro exact'
    exact {
      childrenNodup := fun source => List.nodup_iff_count_le_one.mpr fun target => by
        rw [inv.children]
        exact (exact' source target).1
      parentNodup := fun target => List.nodup_iff_count_le_one.mpr fun source => by
        rw [inv.parent]
        exact (exact' source target).1
      children := fun source target => by
        rw [← List.count_pos_iff, inv.children]
        exact (exact' source target).2
      parent := fun source target => by
        rw [← List.count_pos_iff, inv.parent]
        exact (exact' source target).2 }

/--
The graph of code in label form is the successor relation exactly when nothing
follows an end of program and no conditional branch goes to the next instruction.
-/
theorem run_successorEdges_iff (instrs : List Instr) (form : LabelForm instrs) :
    ∃ st, run instrs = some st ∧
      (SuccessorEdges instrs st.nodes ↔ EndsLast instrs ∧ BranchesApart instrs) := by
  obtain ⟨st, ran, inv⟩ := labelInv_run instrs form.unmasked form.labels
  exact ⟨st, ran, successorEdges_iff inv⟩

section Instance

def labelA : LabelName := ⟨".L_A", by decide⟩

def labelB : LabelName := ⟨".L_B", by decide⟩

/-- A loop with a forward exit. -/
def exitingLoop : List Instr :=
  [.label labelA, .branch "p" labelB, .jump labelA, .label labelB, .endPgm]

theorem run_successorEdges_iff_exitingLoop :
    LabelForm exitingLoop ∧ ∃ st, run exitingLoop = some st ∧
      (SuccessorEdges exitingLoop st.nodes ↔ EndsLast exitingLoop ∧ BranchesApart exitingLoop) :=
  have form : LabelForm exitingLoop := ⟨by decide, by decide, by decide⟩
  ⟨form, run_successorEdges_iff exitingLoop form⟩

/-- A branch over nothing: its node gets the label as a child twice. -/
def emptyBranch : List Instr := [.branch "p" labelA, .label labelA]

theorem emptyBranch_not_successorEdges :
    LabelForm emptyBranch ∧
      ¬∃ st, run emptyBranch = some st ∧ SuccessorEdges emptyBranch st.nodes := by
  refine ⟨⟨by decide, by decide, by decide⟩, ?_⟩
  rintro ⟨st, ran, edges⟩
  obtain ⟨other, ranOther, inv⟩ := labelInv_run emptyBranch (by decide) (by decide)
  cases Option.some.inj (ran.symm.trans ranOther)
  exact ((successorEdges_iff inv).mp edges).2 1 ".L_A" rfl rfl rfl

end Instance

end OpenCLDecompiler
