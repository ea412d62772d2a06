import OpenCLDecompiler.Cfg.Step
import OpenCLDecompiler.Cfg.MaskForm

/-!
# Steps over code in mask form

Entering, switching and closing a mask each add one node.  This file says where
that node is attached and which masks are open after it.
-/

namespace OpenCLDecompiler

open Library

/-- Instructions that neither branch nor define a label. -/
def Instr.isLocal : Instr → Bool
  | .plain _ | .changeMask _ | .unmask | .endPgm => true
  | _ => false

/-- A step that only adds a node below the given parents. -/
structure NodeAdded (before after : DecompilationState) (parents : List NodeId)
    (cond : ExecCondition) (masks : List OpenMask) : Prop where
  valid : Valid after
  size : after.nodes.size = before.nodes.size + 1
  last : after.lastNode = before.nodes.size
  noJump : after.nodes.instruction after.lastNode ≠ jumpOpcode
  children : ∀ id, after.nodes.children id =
    if id = before.nodes.size then []
    else before.nodes.children id ++ if id ∈ parents then [before.nodes.size] else []
  parent : ∀ id, after.nodes.parent id =
    if id = before.nodes.size then parents else before.nodes.parent id
  getExec : ∀ id, after.nodes.getExec id =
    if id = before.nodes.size then cond else before.nodes.getExec id
  masks : after.maskedBlocks = masks

theorem exists_step_of_attachment {st : DecompilationState} {instr : Instr} {attached : Attachment}
    (valid : Valid st) (isLocal : instr.isLocal = true)
    (found : attachment st instr = some attached) :
    ∃ after, step st instr = some after ∧
      NodeAdded st after attached.parents (filledExec st.data attached.nodeState.maskExec instr)
        (attached.masksAfter st.nodes.size) ∧
      after.data.execRegisters = filledExecRegisters st.data instr := by
  have stepped : ∃ after, step st instr = some after := by
    unfold step
    rw [found]
    cases instr with
    | plain backend => exact ⟨_, rfl⟩
    | changeMask predicate =>
        obtain ⟨cond, stored, _⟩ := Option.map_eq_some_iff.mp found
        simp only [Option.bind_eq_bind, Option.bind_some, toFillNode, stored, Option.map_some]
        exact ⟨_, rfl⟩
    | unmask => exact ⟨_, rfl⟩
    | endPgm => exact ⟨_, rfl⟩
    | label name => cases isLocal
    | branch predicate target => cases isLocal
    | branchNot predicate target => cases isLocal
    | jump target => cases isLocal
  obtain ⟨after, stepped⟩ := stepped
  obtain ⟨other, foundOther, effect⟩ := step_effect valid stepped
  cases Option.some.inj (found.symm.trans foundOther)
  have nodup := (attachmentOk valid found).nodup
  have noJoin : joinedSources st.data instr = [] := by
    cases instr <;> first | rfl | cases isLocal
  have noBack : backTarget st.data instr = none := by
    cases instr <;> first | rfl | cases isLocal
  have noLabel : instr.label? = none := by
    cases instr <;> first | rfl | cases isLocal
  have noJump : instr.opcode ≠ jumpOpcode := fun opcode => by
    have jumps := (opcode_eq_jump_iff instr).mp opcode
    cases instr with
    | jump target => cases isLocal
    | _ => cases jumps
  refine ⟨after, stepped, ?_, effect.execRegisters⟩
  exact {
    valid := valid_step valid stepped
    size := effect.size
    last := effect.last
    noJump := by
      rw [effect.instruction, effect.last, if_pos rfl]
      exact noJump
    children := fun id => by
      rw [effect.children, noJoin, noBack, List.count_nil, List.replicate_zero, List.append_nil,
        Option.toList_none, ite_self, List.append_nil]
      split
      · rfl
      · congr 1
        split
        · rename_i inside
          rw [List.count_eq_one_of_mem nodup inside]
          rfl
        · rename_i outside
          rw [List.count_eq_zero_of_not_mem outside]
          rfl
    parent := fun id => by simp [effect.parent, noJoin, noBack]
    getExec := effect.getExec noLabel
    masks := effect.masks }

/-! ## Closing -/

/-- Closing to a condition pops the masks that lie strictly inside it and no others. -/
theorem closeOpenMasks_opened {nodes : Nodes} {cond : ExecCondition} {opened : List OpenMask}
    {top : OpenMask} {rest : List OpenMask} (parents : List NodeId)
    (inside : ∀ openMask ∈ opened, cond.conditionSet ⊂ (nodes.getExec openMask.changeMask).conditionSet)
    (outside : ¬cond.conditionSet ⊂ (nodes.getExec top.changeMask).conditionSet) :
    (closeOpenMasks nodes cond (opened ++ top :: rest) parents).1 = top :: rest ∧
      ∀ node, node ∈ (closeOpenMasks nodes cond (opened ++ top :: rest) parents).2 ↔
        node ∈ parents ∨ ∃ openMask ∈ opened, node = openMask.closedParent := by
  induction opened generalizing parents with
  | nil =>
      have stays : ¬(nodes.getExec top.changeMask).isStrictSupersetOf cond = true := by
        rw [ExecCondition.isStrictSupersetOf_iff]
        exact outside
      have unchanged : closeOpenMasks nodes cond (top :: rest) parents = (top :: rest, parents) := by
        cases rest with
        | nil => rfl
        | cons next others =>
            unfold closeOpenMasks
            rw [if_neg stays]
      rw [List.nil_append, unchanged]
      exact ⟨rfl, fun node => by simp⟩
  | cons innermost others ih =>
      have pops : (nodes.getExec innermost.changeMask).isStrictSupersetOf cond = true :=
        (ExecCondition.isStrictSupersetOf_iff _ _).mpr (inside innermost List.mem_cons_self)
      have unfolded : closeOpenMasks nodes cond (innermost :: others ++ top :: rest) parents =
          closeOpenMasks nodes cond (others ++ top :: rest)
            (appendUniqueNode parents innermost.closedParent) := by
        cases others with
        | nil =>
            change closeOpenMasks nodes cond (innermost :: top :: rest) parents = _
            conv_lhs => unfold closeOpenMasks
            rw [if_pos pops]
            rfl
        | cons next remaining =>
            change closeOpenMasks nodes cond (innermost :: next :: (remaining ++ top :: rest)) parents
              = _
            conv_lhs => unfold closeOpenMasks
            rw [if_pos pops]
            rfl
      obtain ⟨kept, members⟩ := ih (appendUniqueNode parents innermost.closedParent)
        (fun openMask present => inside openMask (List.mem_cons_of_mem _ present))
      rw [unfolded]
      refine ⟨kept, fun node => ?_⟩
      rw [members, mem_appendUniqueNode, List.exists_mem_cons_iff, or_assoc]

theorem findOpenMask_head {nodes : Nodes} {cond : ExecCondition} {top : OpenMask}
    {rest : List OpenMask} (same : (nodes.getExec top.changeMask).conditionSet = cond.conditionSet) :
    findOpenMask nodes cond (top :: rest) = some (top, rest) := by
  unfold findOpenMask
  rw [if_pos ((ExecCondition.same_iff _ _).mpr same)]

/-! ## The four kinds of steps -/

/--
The pass is about to read an instruction under the mask `level`: that is the
condition of the last node and of the innermost open mask.
-/
structure Ready (level : Finset String) (st : DecompilationState) : Prop where
  valid : Valid st
  last : st.lastNode + 1 = st.nodes.size
  noJump : st.nodes.instruction st.lastNode ≠ jumpOpcode
  exec : (st.nodes.getExec st.lastNode).conditionSet = level
  top : ∃ openMask rest, st.maskedBlocks = openMask :: rest ∧
    (st.nodes.getExec openMask.changeMask).conditionSet = level

section Steps

variable {st : DecompilationState}

theorem fallthroughParents_eq (noJump : st.nodes.instruction st.lastNode ≠ jumpOpcode) :
    fallthroughParents st = [st.lastNode] := if_neg noJump

theorem attachment_changeMask {predicate : String} {cond : ExecCondition}
    (stored : st.data.execRegisters.get? predicate = some cond) :
    attachment st (.changeMask predicate) = some (attachChangeMask st cond) := by
  simp [attachment, stored]

theorem step_plain (valid : Valid st) (noJump : st.nodes.instruction st.lastNode ≠ jumpOpcode)
    (backend : BackendNode) :
    ∃ after, step st (.plain backend) = some after ∧
      NodeAdded st after [st.lastNode] (st.nodes.getExec st.lastNode) st.maskedBlocks ∧
      after.data.execRegisters = backend.execAfter st.data.execRegisters := by
  have found : attachment st (.plain backend) =
      some ⟨[st.lastNode], st.nodes.state st.lastNode, fun _ => st.maskedBlocks⟩ := by
    rw [← fallthroughParents_eq noJump]
    rfl
  exact exists_step_of_attachment valid rfl found

theorem step_enter {level : Finset String} (ready : Ready level st) {cond predicate : String}
    {mask : ExecCondition} (fresh : cond ∉ level)
    (stored : st.data.execRegisters.get? predicate = some mask)
    (conjoined : mask.conditionSet = insert cond level) :
    ∃ after, step st (.changeMask predicate) = some after ∧
      NodeAdded st after [st.lastNode] mask (⟨st.nodes.size, none⟩ :: st.maskedBlocks) ∧
      after.data.execRegisters = st.data.execRegisters := by
  have deeper : mask.isStrictSupersetOf (st.nodes.getExec st.lastNode) = true := by
    rw [ExecCondition.isStrictSupersetOf_iff, ready.exec, conjoined]
    exact Finset.ssubset_insert fresh
  have found : attachment st (.changeMask predicate) = some ⟨[st.lastNode],
      st.nodes.state st.lastNode, fun node => ⟨node, none⟩ :: st.maskedBlocks⟩ := by
    rw [attachment_changeMask stored, attachChangeMask]
    dsimp only
    rw [if_pos deeper, fallthroughParents_eq ready.noJump]
  obtain ⟨after, stepped, added, registers⟩ := exists_step_of_attachment ready.valid rfl found
  refine ⟨after, stepped, ?_, registers⟩
  simpa [filledExec, stored] using added

theorem step_else {level : Finset String} {branch parentMask : OpenMask} {rest : List OpenMask}
    {cond predicate : String} {mask : ExecCondition}
    (ready : Ready (insert cond level) st)
    (masks : st.maskedBlocks = branch :: parentMask :: rest)
    (branchExec : (st.nodes.getExec branch.changeMask).conditionSet = insert cond level)
    (parentExec : (st.nodes.getExec parentMask.changeMask).conditionSet = level)
    (fresh : cond ∉ level) (freshNot : ExecCondition.makeNot cond ∉ level)
    (stored : st.data.execRegisters.get? predicate = some mask)
    (negated : mask.conditionSet = insert (ExecCondition.makeNot cond) level) :
    ∃ after, step st (.changeMask predicate) = some after ∧
      NodeAdded st after [branch.changeMask] mask
        (⟨st.nodes.size, some st.lastNode⟩ :: parentMask :: rest) ∧
      after.data.execRegisters = st.data.execRegisters := by
  have negation : ExecCondition.makeNot cond ≠ cond := ExecCondition.makeNot_ne cond
  have prevOnly : cond ∈ insert cond level ∧
      cond ∉ insert (ExecCondition.makeNot cond) level := by
    simp [fresh, negation.symm]
  have nextOnly : ExecCondition.makeNot cond ∈ insert (ExecCondition.makeNot cond) level ∧
      ExecCondition.makeNot cond ∉ insert cond level := by
    simp [freshNot, negation]
  have notDeeper : ¬mask.isStrictSupersetOf (st.nodes.getExec st.lastNode) = true := by
    rw [ExecCondition.isStrictSupersetOf_iff, ready.exec, negated]
    exact fun deeper => prevOnly.2 (deeper.subset prevOnly.1)
  have notShallower : ¬mask.isStrictSubsetOf (st.nodes.getExec st.lastNode) = true := by
    rw [ExecCondition.isStrictSubsetOf_iff, ready.exec, negated]
    exact fun shallower => nextOnly.2 (shallower.subset nextOnly.1)
  obtain ⟨parentCond, sibling, parentSet⟩ :=
    ExecCondition.negatedSiblingParent_insert ready.exec negated fresh freshNot
  have foundBranch : findOpenMask st.nodes (st.nodes.getExec st.lastNode) st.maskedBlocks =
      some (branch, parentMask :: rest) := by
    rw [masks]
    exact findOpenMask_head (branchExec.trans ready.exec.symm)
  have kept : masksKeptByElse st.nodes parentCond branch (parentMask :: rest) =
      parentMask :: rest := by
    unfold masksKeptByElse
    rw [findOpenMask_head (parentExec.trans parentSet.symm)]
  have found : attachment st (.changeMask predicate) = some ⟨[branch.changeMask],
      st.nodes.state branch.changeMask,
      fun node => ⟨node, some st.lastNode⟩ :: parentMask :: rest⟩ := by
    rw [attachment_changeMask stored, attachChangeMask]
    dsimp only
    rw [if_neg notDeeper, if_neg notShallower, sibling]
    dsimp only
    rw [foundBranch]
    dsimp only
    rw [kept]
  obtain ⟨after, stepped, added, registers⟩ := exists_step_of_attachment ready.valid rfl found
  refine ⟨after, stepped, ?_, registers⟩
  simpa [filledExec, stored] using added

/-- The parents a closing instruction collects from the masks it closes. -/
def ClosedParents (last : NodeId) (opened : List OpenMask) (parents : List NodeId) : Prop :=
  ∀ node, node ∈ parents ↔ node = last ∨ ∃ openMask ∈ opened, node = openMask.closedParent

/-- Closing all masks opened since `level`; `cond` is the condition after closing. -/
theorem step_close {level : Finset String} {opened : List OpenMask} {top : OpenMask}
    {rest : List OpenMask} {cond : ExecCondition} {instr : Instr} (valid : Valid st)
    (noJump : st.nodes.instruction st.lastNode ≠ jumpOpcode) (isLocal : instr.isLocal = true)
    (masks : st.maskedBlocks = opened ++ top :: rest)
    (topExec : (st.nodes.getExec top.changeMask).conditionSet = level)
    (inside : ∀ openMask ∈ opened, level ⊂ (st.nodes.getExec openMask.changeMask).conditionSet)
    (condSet : cond.conditionSet = level)
    (found : attachment st instr = some
      ⟨(closeOpenMasks st.nodes cond st.maskedBlocks (fallthroughParents st)).2,
        st.nodes.state st.lastNode,
        fun _ => (closeOpenMasks st.nodes cond st.maskedBlocks (fallthroughParents st)).1⟩)
    (filled : ∀ inherited, filledExec st.data inherited instr = cond) :
    ∃ after parents, step st instr = some after ∧
      NodeAdded st after parents cond (top :: rest) ∧ ClosedParents st.lastNode opened parents ∧
      after.data.execRegisters = filledExecRegisters st.data instr := by
  obtain ⟨after, stepped, added, registers⟩ := exists_step_of_attachment valid isLocal found
  have inner : ∀ openMask ∈ opened,
      cond.conditionSet ⊂ (st.nodes.getExec openMask.changeMask).conditionSet := by
    rw [condSet]
    exact inside
  have outer : ¬cond.conditionSet ⊂ (st.nodes.getExec top.changeMask).conditionSet := by
    rw [condSet, topExec]
    exact ssubset_irrefl level
  obtain ⟨kept, members⟩ :=
    @closeOpenMasks_opened st.nodes cond opened top rest (fallthroughParents st) inner outer
  rw [← masks] at kept members
  dsimp only at added
  rw [filled, kept] at added
  refine ⟨after, _, stepped, added, fun node => ?_, registers⟩
  · rw [members, fallthroughParents_eq noJump, List.mem_singleton]

theorem attachment_close {level : Finset String} {predicate : String} {cond : ExecCondition}
    (stored : st.data.execRegisters.get? predicate = some cond) (condSet : cond.conditionSet = level)
    (deeper : level ⊂ (st.nodes.getExec st.lastNode).conditionSet) :
    attachment st (.changeMask predicate) = some
      ⟨(closeOpenMasks st.nodes cond st.maskedBlocks (fallthroughParents st)).2,
        st.nodes.state st.lastNode,
        fun _ => (closeOpenMasks st.nodes cond st.maskedBlocks (fallthroughParents st)).1⟩ := by
  have notDeeper : ¬cond.isStrictSupersetOf (st.nodes.getExec st.lastNode) = true := by
    rw [ExecCondition.isStrictSupersetOf_iff, condSet]
    exact fun reversed => ssubset_irrefl _ (deeper.trans reversed)
  have shallower : cond.isStrictSubsetOf (st.nodes.getExec st.lastNode) = true := by
    rw [ExecCondition.isStrictSubsetOf_iff, condSet]
    exact deeper
  rw [attachment_changeMask stored, attachChangeMask]
  dsimp only
  rw [if_neg notDeeper, if_pos shallower]

end Steps

end OpenCLDecompiler
