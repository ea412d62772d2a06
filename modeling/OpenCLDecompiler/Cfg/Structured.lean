import OpenCLDecompiler.Cfg.MaskStep

/-!
# Graphs of structured programs

The code of a statement is a block of consecutive nodes.  Some of its nodes are
pending: they get one more child, the node at which the masks opened by the
block are closed.  A block is correct when every graph that completes it in this
way is walked as the statement demands; the theorem on whole programs composes
such blocks along the derivation of the mask form.
-/

namespace OpenCLDecompiler

open Library

/-! ## Numbering plain instructions -/

/-- A predicate on nodes that holds exactly at the plain instructions from `base` on. -/
def Marks (isPlainNode : NodeId → Bool) (base : NodeId) : List Instr → Prop
  | [] => True
  | instr :: rest => isPlainNode base = instr.isPlain ∧ Marks isPlainNode (base + 1) rest

theorem marks_append {isPlainNode : NodeId → Bool} {base : NodeId} (left right : List Instr) :
    Marks isPlainNode base (left ++ right) ↔
      Marks isPlainNode base left ∧ Marks isPlainNode (base + left.length) right := by
  induction left generalizing base with
  | nil => simp [Marks]
  | cons instr rest ih =>
      rw [List.cons_append, Marks, Marks, ih, and_assoc, List.length_cons,
        Nat.add_comm rest.length 1, Nat.add_assoc]

theorem plainNodes_append (base : NodeId) (left right : List Instr) :
    plainNodes base (left ++ right) =
      plainNodes base left ++ plainNodes (base + left.length) right := by
  induction left generalizing base with
  | nil => rfl
  | cons instr rest ih =>
      rw [List.cons_append, plainNodes, plainNodes, ih, List.length_cons,
        Nat.add_comm rest.length 1, ← Nat.add_assoc]
      split <;> rfl

theorem le_of_mem_plainNodes {base node : NodeId} {instrs : List Instr}
    (inside : node ∈ plainNodes base instrs) : base ≤ node := by
  induction instrs generalizing base with
  | nil => cases inside
  | cons instr rest ih =>
      rw [plainNodes] at inside
      split at inside
      · rcases List.mem_cons.mp inside with here | later
        · exact Nat.le_of_eq here.symm
        · exact Nat.le_of_succ_le (ih later)
      · exact Nat.le_of_succ_le (ih inside)

theorem marks_of_mem_iff {isPlainNode : NodeId → Bool} {base : NodeId} {instrs : List Instr}
    (same : ∀ node, base ≤ node → (isPlainNode node = true ↔ node ∈ plainNodes base instrs)) :
    Marks isPlainNode base instrs := by
  induction instrs generalizing base with
  | nil => trivial
  | cons instr rest ih =>
      have later : base ∉ plainNodes (base + 1) rest := fun inside =>
        Nat.not_succ_le_self base (le_of_mem_plainNodes inside)
      refine ⟨?_, ih fun node above => ?_⟩
      · rw [Bool.eq_iff_iff, same base (Nat.le_refl base), plainNodes]
        cases instr.isPlain <;> simp [later]
      · rw [same node (Nat.le_of_succ_le above), plainNodes]
        have different : node ≠ base := Nat.ne_of_gt above
        cases instr.isPlain <;> simp [different]

theorem selected_append {left right : List NodeId} {first second : List Bool}
    (same : left.length = first.length) :
    selected (left ++ right) (first ++ second) = selected left first ++ selected right second := by
  rw [selected, List.zip_append same, List.filter_append, List.map_append]
  rfl

theorem selected_inactive {guards : List Bool} (nodes : List NodeId)
    (inactive : ∀ guard ∈ guards, guard = false) : selected nodes guards = [] := by
  have none : (nodes.zip guards).filter Prod.snd = [] := by
    refine List.filter_eq_nil_iff.mpr fun pair inside => ?_
    rw [inactive pair.2 (List.of_mem_zip inside).2]
    exact Bool.false_ne_true
  rw [selected, none]
  rfl

theorem guards_inactive (valuation : String → Bool) (program : Stmt) :
    ∀ guard ∈ program.guards valuation false, guard = false := by
  induction program with
  | plain node => simp [Stmt.guards]
  | seq first second firstIh secondIh =>
      intro guard inside
      rcases List.mem_append.mp inside with left | right
      · exact firstIh guard left
      · exact secondIh guard right
  | ifThen cond body ih => exact ih
  | ifElse cond body other bodyIh otherIh =>
      intro guard inside
      rcases List.mem_append.mp inside with left | right
      · exact bodyIh guard left
      · exact otherIh guard right

/-- The code of a program holds its plain instructions in program order. -/
theorem length_plainNodes {before after : ExecRegisters} {level current : Finset String}
    {program : Stmt} {instrs : List Instr}
    (form : MaskForm before level program instrs after current) (base : NodeId)
    (valuation : String → Bool) (active : Bool) :
    (plainNodes base instrs).length = (program.guards valuation active).length := by
  induction form generalizing base active with
  | plain node => rfl
  | seq _ _ headIh tailIh =>
      rw [plainNodes_append, List.length_append, headIh _ active, tailIh _ active, Stmt.guards,
        List.length_append]
  | enter _ _ _ ih => exact ih (base + 1) _
  | @enterElse _ _ _ _ _ cond _ _ _ _ body other left right _ _ _ _ _ _ bodyIh otherIh =>
      change (plainNodes (base + 1) (left ++ .changeMask _ :: right)).length = _
      rw [plainNodes_append, List.length_append, bodyIh _ (active && valuation cond)]
      change _ + (plainNodes _ right).length = _
      rw [otherIh _ (active && !valuation cond), Stmt.guards, List.length_append]
  | close _ _ _ _ ih =>
      rw [plainNodes_append, List.length_append, ih base active]
      rfl
  | unmask _ _ ih =>
      rw [plainNodes_append, List.length_append, ih base active]
      rfl

/-! ## Blocks -/

/-- The nodes of a block that get one more child when its masks are closed. -/
def Pending (last : NodeId) (opened : List OpenMask) (node : NodeId) : Prop :=
  node = last ∨ ∃ openMask ∈ opened, node = openMask.closedParent

/-- A graph that keeps the nodes from `low` to `high` and leads the pending ones to `exit`. -/
structure Completion (graph nodes : Nodes) (low high : NodeId) (pending : NodeId → Prop)
    (exit : Option NodeId) : Prop where
  exec : ∀ node, low ≤ node → node < high → graph.getExec node = nodes.getExec node
  leaves : ∀ node, low ≤ node → node < high → pending node →
    graph.children node = nodes.children node ++ exit.toList
  keeps : ∀ node, low ≤ node → node < high → ¬pending node →
    graph.children node = nodes.children node

/-- What the pass has done after the code of a statement. -/
structure Block (level : Finset String) (program : Stmt) (instrs : List Instr)
    (before after : DecompilationState) (opened : List OpenMask) (current : Finset String) :
    Prop where
  valid : Valid after
  size : after.nodes.size = before.nodes.size + instrs.length
  grows : before.nodes.size < after.nodes.size
  last : after.lastNode + 1 = after.nodes.size
  noJump : after.nodes.instruction after.lastNode ≠ jumpOpcode
  masks : after.maskedBlocks = opened ++ before.maskedBlocks
  exec : (after.nodes.getExec after.lastNode).conditionSet = current
  within : level ⊆ current
  atLevel : current = level → opened = []
  openedIn : ∀ openMask ∈ opened,
    before.nodes.size ≤ openMask.closedParent ∧ openMask.closedParent < after.nodes.size
  openedExec : ∀ openMask ∈ opened,
    level ⊂ (after.nodes.getExec openMask.changeMask).conditionSet
  frameChildren : ∀ node, node < before.nodes.size → after.nodes.children node =
    before.nodes.children node ++ if node = before.lastNode then [before.nodes.size] else []
  frameExec : ∀ node, node < before.nodes.size →
    after.nodes.getExec node = before.nodes.getExec node
  walks : ∀ graph exit valuation isPlainNode,
    Completion graph after.nodes before.nodes.size after.nodes.size
      (Pending after.lastNode opened) exit →
    (exit = none → opened = []) → (∀ text ∈ level, valuation text = true) →
    Negates valuation program → Marks isPlainNode before.nodes.size instrs →
    ∃ trace final,
      Walk.Segment (nextNode graph valuation) before.nodes.size trace final ∧
      nextNode graph valuation final = exit ∧
      trace.filter isPlainNode =
        selected (plainNodes before.nodes.size instrs) (program.guards valuation true)

theorem nextNode_of_single {graph : Nodes} {node : NodeId} {exit : Option NodeId}
    (children : graph.children node = exit.toList) (valuation : String → Bool) :
    nextNode graph valuation node = exit := by
  unfold nextNode
  rw [children]
  cases exit <;> rfl

theorem nextNode_of_pair {graph : Nodes} {node first second : NodeId}
    (children : graph.children node = [first, second]) (valuation : String → Bool) :
    nextNode graph valuation node =
      some (if (graph.getExec node).eval valuation then first else second) := by
  unfold nextNode
  rw [children]

section Blocks

variable {st : DecompilationState} {level : Finset String}

theorem block_plain (ready : Ready level st) {backend : BackendNode} {after : DecompilationState}
    (added : NodeAdded st after [st.lastNode] (st.nodes.getExec st.lastNode) st.maskedBlocks) :
    Block level (.plain backend) [.plain backend] st after [] level where
  valid := added.valid
  size := added.size
  grows := by
    rw [added.size]
    exact Nat.lt_succ_self _
  last := by rw [added.last, added.size]
  noJump := added.noJump
  masks := added.masks
  exec := by
    rw [added.getExec, added.last, if_pos rfl]
    exact ready.exec
  within := Finset.Subset.refl level
  atLevel _ := rfl
  openedIn _ inside := by cases inside
  openedExec _ inside := by cases inside
  frameChildren node old := by
    rw [added.children, if_neg (Nat.ne_of_lt old)]
    simp
  frameExec node old := by rw [added.getExec, if_neg (Nat.ne_of_lt old)]
  walks graph exit valuation isPlainNode completion _ _ _ marks := by
    have inside : st.nodes.size < after.nodes.size := by
      rw [added.size]
      exact Nat.lt_succ_self _
    have children := completion.leaves st.nodes.size (Nat.le_refl _) inside (Or.inl added.last.symm)
    rw [added.children, if_pos rfl, List.nil_append] at children
    refine ⟨[st.nodes.size], st.nodes.size, .here _, nextNode_of_single children valuation, ?_⟩
    have marked : isPlainNode st.nodes.size = true := marks.1
    rw [List.filter_cons_of_pos marked]
    rfl

/-- After a block that has closed its masks the pass is ready for the next statement. -/
theorem Block.ready {program : Stmt} {instrs : List Instr} {after : DecompilationState}
    (ready : Ready level st) (block : Block level program instrs st after [] level) :
    Ready level after where
  valid := block.valid
  last := block.last
  noJump := block.noJump
  exec := block.exec
  top := by
    obtain ⟨openMask, rest, masks, exec⟩ := ready.top
    refine ⟨openMask, rest, by rw [block.masks, masks]; rfl, ?_⟩
    rw [block.frameExec _ (ready.valid.range.changeMask openMask (by rw [masks]; exact List.mem_cons_self))]
    exact exec

/-- The last node of a block belongs to it. -/
theorem Block.le_last {program : Stmt} {instrs : List Instr} {after : DecompilationState}
    {opened : List OpenMask} {current : Finset String}
    (block : Block level program instrs st after opened current) :
    st.nodes.size ≤ after.lastNode := by
  refine Nat.le_of_lt_succ ?_
  rw [Nat.succ_eq_add_one, block.last]
  exact block.grows

/-- After entering, the pass is ready for the body. -/
theorem ready_of_added {middle : DecompilationState} {parents : List NodeId} {mask : ExecCondition}
    {branchEnd : Option NodeId} {rest : List OpenMask}
    (added : NodeAdded st middle parents mask (⟨st.nodes.size, branchEnd⟩ :: rest))
    (maskSet : mask.conditionSet = level) : Ready level middle where
  valid := added.valid
  last := by rw [added.last, added.size]
  noJump := added.noJump
  exec := by rw [added.getExec, added.last, if_pos rfl, maskSet]
  top := ⟨_, _, added.masks, by rw [added.getExec, if_pos rfl, maskSet]⟩

/-- What a statement has appended stays as it is while the next block is built. -/
theorem Completion.before {graph : Nodes} {program : Stmt} {instrs : List Instr}
    {middle after : DecompilationState} {opened : List OpenMask} {current : Finset String}
    {exit : Option NodeId} {low : NodeId}
    (second : Block level program instrs middle after opened current)
    (completion : Completion graph after.nodes low after.nodes.size
      (Pending after.lastNode opened) exit) :
    Completion graph middle.nodes low middle.nodes.size (Pending middle.lastNode [])
      (some middle.nodes.size) := by
  have notPending : ∀ node, node < middle.nodes.size → ¬Pending after.lastNode opened node := by
    rintro node old (rfl | ⟨openMask, inside, rfl⟩)
    · exact Nat.not_lt.mpr second.le_last old
    · exact Nat.not_lt.mpr (second.openedIn openMask inside).1 old
  have below : ∀ {node}, node < middle.nodes.size → node < after.nodes.size := fun old =>
    Nat.lt_trans old second.grows
  refine ⟨fun node above old => ?_, fun node above old pending => ?_, fun node above old kept => ?_⟩
  · rw [completion.exec node above (below old), second.frameExec node old]
  · rw [completion.keeps node above (below old) (notPending node old), second.frameChildren node old]
    have here : node = middle.lastNode := by
      rcases pending with here | ⟨_, inside, _⟩
      · exact here
      · cases inside
    rw [if_pos here]
    rfl
  · rw [completion.keeps node above (below old) (notPending node old), second.frameChildren node old,
      if_neg fun here => kept (Or.inl here), List.append_nil]

theorem Completion.upper {graph nodes : Nodes} {low middle high : NodeId}
    {pending : NodeId → Prop} {exit : Option NodeId} (above : low ≤ middle)
    (completion : Completion graph nodes low high pending exit) :
    Completion graph nodes middle high pending exit where
  exec node inside := completion.exec node (Nat.le_trans above inside)
  leaves node inside := completion.leaves node (Nat.le_trans above inside)
  keeps node inside := completion.keeps node (Nat.le_trans above inside)

theorem block_seq {first second : Stmt} {left right : List Instr}
    {middle after : DecompilationState} {opened : List OpenMask} {current : Finset String}
    (head : Block level first left st middle [] level)
    (tail : Block level second right middle after opened current)
    (lengths : ∀ valuation, (plainNodes st.nodes.size left).length =
      (first.guards valuation true).length) :
    Block level (.seq first second) (left ++ right) st after opened current where
  valid := tail.valid
  size := by rw [tail.size, head.size, List.length_append, Nat.add_assoc]
  grows := Nat.lt_trans head.grows tail.grows
  last := tail.last
  noJump := tail.noJump
  masks := by rw [tail.masks, head.masks, List.nil_append]
  exec := tail.exec
  within := tail.within
  atLevel := tail.atLevel
  openedIn openMask inside :=
    ⟨Nat.le_trans (Nat.le_of_lt head.grows) (tail.openedIn openMask inside).1,
      (tail.openedIn openMask inside).2⟩
  openedExec := tail.openedExec
  frameChildren node old := by
    have notLast : node ≠ middle.lastNode := Nat.ne_of_lt (Nat.lt_of_lt_of_le old head.le_last)
    rw [tail.frameChildren node (Nat.lt_trans old head.grows), if_neg notLast, List.append_nil,
      head.frameChildren node old]
  frameExec node old := by
    rw [tail.frameExec node (Nat.lt_trans old head.grows), head.frameExec node old]
  walks graph exit valuation isPlainNode completion noExit holds negates marks := by
    obtain ⟨headMarks, tailMarks⟩ := (marks_append left right).mp marks
    rw [← head.size] at tailMarks
    obtain ⟨headTrace, headFinal, headWalk, headNext, headPlain⟩ :=
      head.walks graph (some middle.nodes.size) valuation isPlainNode
        (completion.before tail) (fun impossible => by cases impossible) holds
        (fun cond inside => negates cond (List.mem_append_left _ inside)) headMarks
    obtain ⟨tailTrace, tailFinal, tailWalk, tailNext, tailPlain⟩ :=
      tail.walks graph exit valuation isPlainNode (completion.upper (Nat.le_of_lt head.grows))
        noExit holds (fun cond inside => negates cond (List.mem_append_right _ inside)) tailMarks
    refine ⟨headTrace ++ tailTrace, tailFinal, headWalk.append headNext tailWalk, tailNext, ?_⟩
    rw [List.filter_append, headPlain, tailPlain, plainNodes_append, ← head.size, Stmt.guards,
      selected_append (lengths valuation)]

/-! ## Blocks that open a mask -/

/-- The condition of an entering node decides between its body and its second child. -/
theorem eval_insert {valuation : String → Bool} {mask : ExecCondition} {cond : String}
    (conjoined : mask.conditionSet = insert cond level)
    (holds : ∀ text ∈ level, valuation text = true) :
    mask.eval valuation = valuation cond := by
  rw [Bool.eq_iff_iff, ExecCondition.eval_eq_true_iff, conjoined, Finset.forall_mem_insert]
  exact ⟨And.left, fun here => ⟨here, holds⟩⟩

theorem pending_snoc {last : NodeId} {opened : List OpenMask} {openMask : OpenMask} {node : NodeId} :
    Pending last (opened ++ [openMask]) node ↔
      Pending last opened node ∨ node = openMask.closedParent := by
  simp only [Pending, List.mem_append, List.mem_singleton, or_and_right, exists_or,
    exists_eq_left, or_assoc]

/-- Growing the list of pending nodes below a range does not matter inside the range. -/
theorem Completion.congr {graph nodes : Nodes} {low high : NodeId}
    {pending other : NodeId → Prop} {exit : Option NodeId}
    (same : ∀ node, low ≤ node → node < high → (pending node ↔ other node))
    (completion : Completion graph nodes low high pending exit) :
    Completion graph nodes low high other exit where
  exec := completion.exec
  leaves node above below inside :=
    completion.leaves node above below ((same node above below).mpr inside)
  keeps node above below outside :=
    completion.keeps node above below fun inside => outside ((same node above below).mp inside)

section Opening

variable {cond predicate : String} {mask : ExecCondition} {middle after : DecompilationState}

theorem block_enter {body : Stmt} {instrs : List Instr} {opened : List OpenMask}
    {current : Finset String} (fresh : cond ∉ level)
    (conjoined : mask.conditionSet = insert cond level)
    (entered : NodeAdded st middle [st.lastNode] mask (⟨st.nodes.size, none⟩ :: st.maskedBlocks))
    (block : Block (insert cond level) body instrs middle after opened current) :
    Block level (.ifThen cond body) (.changeMask predicate :: instrs) st after
      (opened ++ [⟨st.nodes.size, none⟩]) current where
  valid := block.valid
  size := by
    rw [block.size, entered.size, List.length_cons, Nat.add_assoc, Nat.add_comm 1]
  grows := by
    have grows := block.grows
    rw [entered.size] at grows
    exact Nat.lt_of_succ_lt grows
  last := block.last
  noJump := block.noJump
  masks := by
    rw [block.masks, entered.masks, List.append_assoc]
    rfl
  exec := block.exec
  within := (Finset.subset_insert cond level).trans block.within
  atLevel same := absurd (block.within (Finset.mem_insert_self cond level)) (same ▸ fresh)
  openedIn openMask inside := by
    have grows := block.grows
    rw [entered.size] at grows
    rcases List.mem_append.mp inside with inner | own
    · obtain ⟨low, high⟩ := block.openedIn openMask inner
      rw [entered.size] at low
      exact ⟨Nat.le_of_succ_le low, high⟩
    · cases List.mem_singleton.mp own
      exact ⟨Nat.le_refl _, Nat.lt_of_succ_lt grows⟩
  openedExec openMask inside := by
    rcases List.mem_append.mp inside with inner | own
    · exact (Finset.ssubset_insert fresh).trans (block.openedExec openMask inner)
    · cases List.mem_singleton.mp own
      rw [block.frameExec _ (by rw [entered.size]; exact Nat.lt_succ_self _), entered.getExec,
        if_pos rfl, conjoined]
      exact Finset.ssubset_insert fresh
  frameChildren node old := by
    have below : node < middle.nodes.size := by
      rw [entered.size]
      exact Nat.lt_succ_of_lt old
    rw [block.frameChildren node below, entered.last, if_neg (Nat.ne_of_lt old), List.append_nil,
      entered.children, if_neg (Nat.ne_of_lt old)]
    simp
  frameExec node old := by
    have below : node < middle.nodes.size := by
      rw [entered.size]
      exact Nat.lt_succ_of_lt old
    rw [block.frameExec node below, entered.getExec, if_neg (Nat.ne_of_lt old)]
  walks graph exit valuation isPlainNode completion noExit holds negates marks := by
    have own : st.nodes.size < middle.nodes.size := by
      rw [entered.size]
      exact Nat.lt_succ_self _
    have inside : st.nodes.size < after.nodes.size := Nat.lt_trans own block.grows
    -- the entering node leads to the body and, being pending, to the exit
    have exists_exit : ∃ target, exit = some target := by
      cases exit with
      | none => exact absurd (noExit rfl) (by simp)
      | some target => exact ⟨target, rfl⟩
    obtain ⟨target, rfl⟩ := exists_exit
    have children := completion.leaves st.nodes.size (Nat.le_refl _) inside
      (pending_snoc.mpr (Or.inr rfl))
    rw [block.frameChildren _ own, entered.children, if_pos rfl, if_pos entered.last.symm] at children
    have exec := completion.exec st.nodes.size (Nat.le_refl _) inside
    rw [block.frameExec _ own, entered.getExec, if_pos rfl] at exec
    have next := nextNode_of_pair children valuation
    rw [exec, eval_insert conjoined holds] at next
    have bodyCompletion : Completion graph after.nodes middle.nodes.size after.nodes.size
        (Pending after.lastNode opened) (some target) := by
      refine (completion.upper (Nat.le_of_lt own)).congr fun node above _ => ?_
      rw [pending_snoc]
      have apart : node ≠ st.nodes.size := Nat.ne_of_gt (Nat.lt_of_lt_of_le own above)
      exact or_iff_left apart
    obtain ⟨notPlain, bodyMarks⟩ := marks
    rw [← entered.size] at bodyMarks
    have plain : plainNodes st.nodes.size (.changeMask predicate :: instrs) =
        plainNodes middle.nodes.size instrs := by
      rw [entered.size]
      rfl
    rw [plain]
    cases chosen : valuation cond with
    | true =>
        rw [chosen, if_pos rfl] at next
        obtain ⟨trace, final, walk, stops, visited⟩ :=
          block.walks graph (some target) valuation isPlainNode bodyCompletion
            (fun impossible => by cases impossible)
            (Finset.forall_mem_insert _ _ _ |>.mpr ⟨chosen, holds⟩)
            (fun other inner => negates other (List.mem_cons_of_mem _ inner)) bodyMarks
        refine ⟨st.nodes.size :: trace, final, .step next walk, stops, ?_⟩
        rw [List.filter_cons_of_neg (by rw [notPlain]; exact Bool.false_ne_true), visited,
          Stmt.guards, chosen, Bool.and_self]
    | false =>
        rw [chosen, if_neg Bool.false_ne_true] at next
        refine ⟨[st.nodes.size], st.nodes.size, .here _, next, ?_⟩
        rw [List.filter_cons_of_neg (by rw [notPlain]; exact Bool.false_ne_true), List.filter_nil,
          Stmt.guards, chosen, Bool.and_false, selected_inactive _ (guards_inactive valuation body)]

/-- The nodes of an if-else outside its two bodies, once both bodies are built. -/
structure Switched (st inner turned otherStart after : DecompilationState) (mask : ExecCondition) :
    Prop where
  innerSize : inner.nodes.size = st.nodes.size + 1
  bodyGrows : inner.nodes.size < turned.nodes.size
  otherSize : otherStart.nodes.size = turned.nodes.size + 1
  otherGrows : otherStart.nodes.size < after.nodes.size
  entry : after.nodes.children st.nodes.size = [inner.nodes.size, turned.nodes.size]
  exec : after.nodes.getExec st.nodes.size = mask
  switch : after.nodes.children turned.nodes.size = [otherStart.nodes.size]
  switchExec : (after.nodes.getExec turned.nodes.size) = otherStart.nodes.getExec turned.nodes.size
  body : ∀ node, inner.nodes.size ≤ node → node < turned.nodes.size →
    after.nodes.children node = turned.nodes.children node ∧
      after.nodes.getExec node = turned.nodes.getExec node
  below : ∀ node, node < st.nodes.size →
    after.nodes.children node =
        st.nodes.children node ++ (if node = st.lastNode then [st.nodes.size] else []) ∧
      after.nodes.getExec node = st.nodes.getExec node

variable {inner turned otherStart : DecompilationState} {elseMask : ExecCondition}
  {body other : Stmt} {left right : List Instr} {opened : List OpenMask} {current : Finset String}
  {bodyLevel otherLevel : Finset String} {masks : List OpenMask}

theorem switched_of_blocks
    (entered : NodeAdded st inner [st.lastNode] mask (⟨st.nodes.size, none⟩ :: st.maskedBlocks))
    (bodyBlock : Block bodyLevel body left inner turned [] bodyLevel)
    (switch : NodeAdded turned otherStart [st.nodes.size] elseMask masks)
    (otherBlock : Block otherLevel other right otherStart after opened current) :
    Switched st inner turned otherStart after mask := by
  have innerSize := entered.size
  have otherSize := switch.size
  have bodyGrows := bodyBlock.grows
  have otherGrows := otherBlock.grows
  have entryInner : st.nodes.size < inner.nodes.size := by rw [innerSize]; exact Nat.lt_succ_self _
  have entryTurned : st.nodes.size < turned.nodes.size := Nat.lt_trans entryInner bodyGrows
  have turnedOther : turned.nodes.size < otherStart.nodes.size := by
    rw [otherSize]
    exact Nat.lt_succ_self _
  -- below the else node only the entering node gains a child
  have later : ∀ node, node < turned.nodes.size →
      after.nodes.children node = turned.nodes.children node ++
          (if node = st.nodes.size then [turned.nodes.size] else []) ∧
        after.nodes.getExec node = turned.nodes.getExec node := by
    intro node old
    have older : node < otherStart.nodes.size := Nat.lt_trans old turnedOther
    rw [otherBlock.frameChildren node older, otherBlock.frameExec node older, switch.children,
      switch.getExec, switch.last, if_neg (Nat.ne_of_lt old), if_neg (Nat.ne_of_lt old),
      if_neg (Nat.ne_of_lt old), List.append_nil]
    simp
  refine ⟨innerSize, bodyGrows, otherSize, otherGrows, ?_, ?_, ?_,
    otherBlock.frameExec _ turnedOther, fun node above below => ?_, fun node old => ?_⟩
  · rw [(later _ entryTurned).1, bodyBlock.frameChildren _ entryInner, entered.children, if_pos rfl,
      if_pos entered.last.symm, if_pos rfl]
    rfl
  · rw [(later _ entryTurned).2, bodyBlock.frameExec _ entryInner, entered.getExec, if_pos rfl]
  · rw [otherBlock.frameChildren _ turnedOther, switch.children, if_pos rfl, switch.last,
      if_pos rfl]
    rfl
  · have apart : node ≠ st.nodes.size := Nat.ne_of_gt (Nat.lt_of_lt_of_le entryInner above)
    obtain ⟨children, exec⟩ := later node below
    rw [if_neg apart, List.append_nil] at children
    exact ⟨children, exec⟩
  · have oldInner : node < inner.nodes.size := Nat.lt_trans old entryInner
    obtain ⟨children, exec⟩ := later node (Nat.lt_trans old entryTurned)
    rw [children, exec, bodyBlock.frameChildren node oldInner, bodyBlock.frameExec node oldInner,
      entered.children, entered.getExec, entered.last]
    simp [Nat.ne_of_lt old]

theorem walks_else (switched : Switched st inner turned otherStart after mask)
    (conjoined : mask.conditionSet = insert cond level)
    (bodyBlock : Block (insert cond level) body left inner turned [] (insert cond level))
    (otherBlock : Block (insert (ExecCondition.makeNot cond) level) other right otherStart after
      opened current)
    (lengths : ∀ base valuation active, (plainNodes base left).length =
      (body.guards valuation active).length)
    {graph : Nodes} {target : NodeId} {valuation : String → Bool} {isPlainNode : NodeId → Bool}
    (completion : Completion graph after.nodes st.nodes.size after.nodes.size
      (Pending after.lastNode (opened ++ [⟨turned.nodes.size, some turned.lastNode⟩])) (some target))
    (holds : ∀ text ∈ level, valuation text = true)
    (negates : Negates valuation (.ifElse cond body other)) {elsePredicate : String}
    (marks : Marks isPlainNode st.nodes.size
      (.changeMask predicate :: left ++ .changeMask elsePredicate :: right)) :
    ∃ trace final,
      Walk.Segment (nextNode graph valuation) st.nodes.size trace final ∧
      nextNode graph valuation final = some target ∧
      trace.filter isPlainNode =
        selected (plainNodes st.nodes.size
          (.changeMask predicate :: left ++ .changeMask elsePredicate :: right))
          ((Stmt.ifElse cond body other).guards valuation true) := by
  have entryInner : st.nodes.size < inner.nodes.size := by
    rw [switched.innerSize]
    exact Nat.lt_succ_self _
  have turnedOther : turned.nodes.size < otherStart.nodes.size := by
    rw [switched.otherSize]
    exact Nat.lt_succ_self _
  have entryTurned : st.nodes.size < turned.nodes.size :=
    Nat.lt_trans entryInner switched.bodyGrows
  have turnedAfter : turned.nodes.size < after.nodes.size :=
    Nat.lt_trans turnedOther switched.otherGrows
  -- of the nodes before the second body only the end of the first one is pending
  have pendingIff : ∀ node, node < otherStart.nodes.size →
      (Pending after.lastNode (opened ++ [⟨turned.nodes.size, some turned.lastNode⟩]) node ↔
        node = turned.lastNode) := by
    intro node old
    rw [pending_snoc]
    refine or_iff_right ?_
    rintro (rfl | ⟨openMask, inside, rfl⟩)
    · exact Nat.not_lt.mpr otherBlock.le_last old
    · exact Nat.not_lt.mpr (otherBlock.openedIn openMask inside).1 old
  have turnedLast : turned.lastNode < turned.nodes.size := by
    rw [← bodyBlock.last]
    exact Nat.lt_succ_self _
  have entryNext : nextNode graph valuation st.nodes.size =
      some (if valuation cond then inner.nodes.size else turned.nodes.size) := by
    have inside := Nat.lt_trans entryTurned turnedAfter
    have apart : st.nodes.size ≠ turned.lastNode :=
      Nat.ne_of_lt (Nat.lt_of_lt_of_le entryInner bodyBlock.le_last)
    have children := completion.keeps st.nodes.size (Nat.le_refl _) inside fun pending =>
      apart ((pendingIff _ (Nat.lt_trans entryTurned turnedOther)).mp pending)
    rw [nextNode_of_pair (children.trans switched.entry), completion.exec _ (Nat.le_refl _) inside,
      switched.exec, eval_insert conjoined holds]
  have switchNext : nextNode graph valuation turned.nodes.size = some otherStart.nodes.size := by
    have children := completion.keeps turned.nodes.size (Nat.le_of_lt entryTurned) turnedAfter
      fun pending => Nat.ne_of_gt turnedLast ((pendingIff _ turnedOther).mp pending)
    have single : graph.children turned.nodes.size = (some otherStart.nodes.size).toList :=
      children.trans switched.switch
    exact nextNode_of_single single valuation
  have bodyCompletion : Completion graph turned.nodes inner.nodes.size turned.nodes.size
      (Pending turned.lastNode []) (some target) := by
    refine ⟨fun node above below => ?_, fun node above below pending => ?_,
      fun node above below kept => ?_⟩
    · rw [completion.exec node (Nat.le_trans (Nat.le_of_lt entryInner) above)
        (Nat.lt_trans below turnedAfter), (switched.body node above below).2]
    · have here : node = turned.lastNode := by simpa [Pending] using pending
      rw [completion.leaves node (Nat.le_trans (Nat.le_of_lt entryInner) above)
        (Nat.lt_trans below turnedAfter) ((pendingIff node (Nat.lt_trans below turnedOther)).mpr here),
        (switched.body node above below).1]
    · rw [completion.keeps node (Nat.le_trans (Nat.le_of_lt entryInner) above)
        (Nat.lt_trans below turnedAfter)
        (fun pending => kept (Or.inl ((pendingIff node (Nat.lt_trans below turnedOther)).mp pending))),
        (switched.body node above below).1]
  have otherCompletion : Completion graph after.nodes otherStart.nodes.size after.nodes.size
      (Pending after.lastNode opened) (some target) := by
    refine (completion.upper (Nat.le_of_lt (Nat.lt_trans entryTurned turnedOther))).congr
      fun node above _ => ?_
    rw [pending_snoc]
    exact or_iff_left (Nat.ne_of_gt (Nat.lt_of_lt_of_le (Nat.lt_trans turnedLast turnedOther) above))
  obtain ⟨bodyAndEntry, otherAndSwitch⟩ := (marks_append _ _).mp marks
  obtain ⟨entryPlain, bodyMarks⟩ := bodyAndEntry
  obtain ⟨switchPlain, otherMarks⟩ := otherAndSwitch
  have offset : st.nodes.size + (Instr.changeMask predicate :: left).length = turned.nodes.size := by
    rw [bodyBlock.size, switched.innerSize, List.length_cons, Nat.add_assoc, Nat.add_comm 1]
  rw [offset] at switchPlain otherMarks
  rw [← switched.innerSize] at bodyMarks
  rw [← switched.otherSize] at otherMarks
  have plain : plainNodes st.nodes.size
      (.changeMask predicate :: left ++ .changeMask elsePredicate :: right) =
      plainNodes inner.nodes.size left ++ plainNodes otherStart.nodes.size right := by
    rw [plainNodes_append, offset, switched.innerSize, switched.otherSize]
    rfl
  have dropEntry : ∀ trace : List NodeId,
      (st.nodes.size :: trace).filter isPlainNode = trace.filter isPlainNode := fun trace =>
    List.filter_cons_of_neg (by rw [entryPlain]; exact Bool.false_ne_true)
  have dropSwitch : ∀ trace : List NodeId,
      (turned.nodes.size :: trace).filter isPlainNode = trace.filter isPlainNode := fun trace =>
    List.filter_cons_of_neg (by rw [switchPlain]; exact Bool.false_ne_true)
  rw [plain, Stmt.guards, Bool.true_and, Bool.true_and, selected_append (lengths _ _ _)]
  cases chosen : valuation cond with
  | true =>
      rw [chosen, if_pos rfl] at entryNext
      obtain ⟨trace, final, walk, stops, visited⟩ :=
        bodyBlock.walks graph (some target) valuation isPlainNode bodyCompletion (fun _ => rfl)
          ((Finset.forall_mem_insert _ _ _).mpr ⟨chosen, holds⟩)
          (fun inner inside => negates inner (List.mem_cons_of_mem _ (List.mem_append_left _ inside)))
          bodyMarks
      refine ⟨st.nodes.size :: trace, final, .step entryNext walk, stops, ?_⟩
      rw [dropEntry, visited, Bool.not_true,
        selected_inactive (plainNodes otherStart.nodes.size right) (guards_inactive valuation other),
        List.append_nil]
  | false =>
      rw [chosen, if_neg Bool.false_ne_true] at entryNext
      have negated : valuation (ExecCondition.makeNot cond) = true := by
        rw [negates cond List.mem_cons_self, chosen]
        rfl
      obtain ⟨trace, final, walk, stops, visited⟩ :=
        otherBlock.walks graph (some target) valuation isPlainNode otherCompletion
          (fun impossible => by cases impossible)
          ((Finset.forall_mem_insert _ _ _).mpr ⟨negated, holds⟩)
          (fun inner inside => negates inner (List.mem_cons_of_mem _ (List.mem_append_right _ inside)))
          otherMarks
      refine ⟨st.nodes.size :: turned.nodes.size :: trace, final,
        .step entryNext (.step switchNext walk), stops, ?_⟩
      rw [dropEntry, dropSwitch, visited, Bool.not_false,
        selected_inactive (plainNodes inner.nodes.size left) (guards_inactive valuation body),
        List.nil_append]

theorem block_else (freshNot : ExecCondition.makeNot cond ∉ level)
    (conjoined : mask.conditionSet = insert cond level)
    (negated : elseMask.conditionSet = insert (ExecCondition.makeNot cond) level)
    (entered : NodeAdded st inner [st.lastNode] mask (⟨st.nodes.size, none⟩ :: st.maskedBlocks))
    (bodyBlock : Block (insert cond level) body left inner turned [] (insert cond level))
    (switch : NodeAdded turned otherStart [st.nodes.size] elseMask
      (⟨turned.nodes.size, some turned.lastNode⟩ :: st.maskedBlocks))
    (otherBlock : Block (insert (ExecCondition.makeNot cond) level) other right otherStart after
      opened current)
    (lengths : ∀ base valuation active, (plainNodes base left).length =
      (body.guards valuation active).length) (elsePredicate : String) :
    Block level (.ifElse cond body other)
      (.changeMask predicate :: left ++ .changeMask elsePredicate :: right) st after
      (opened ++ [⟨turned.nodes.size, some turned.lastNode⟩]) current := by
  have switched := switched_of_blocks entered bodyBlock switch otherBlock
  have entryInner : st.nodes.size < inner.nodes.size := by
    rw [switched.innerSize]
    exact Nat.lt_succ_self _
  have turnedOther : turned.nodes.size < otherStart.nodes.size := by
    rw [switched.otherSize]
    exact Nat.lt_succ_self _
  have entryOther : st.nodes.size < otherStart.nodes.size :=
    Nat.lt_trans (Nat.lt_trans entryInner switched.bodyGrows) turnedOther
  exact {
    valid := otherBlock.valid
    size := by
      rw [otherBlock.size, switched.otherSize, bodyBlock.size, switched.innerSize,
        List.length_append, List.length_cons, List.length_cons, Nat.add_assoc _ 1 left.length,
        Nat.add_comm 1 left.length, Nat.add_assoc, Nat.add_assoc, Nat.add_comm 1 right.length]
    grows := Nat.lt_trans entryOther switched.otherGrows
    last := otherBlock.last
    noJump := otherBlock.noJump
    masks := by
      rw [otherBlock.masks, switch.masks, List.append_assoc]
      rfl
    exec := otherBlock.exec
    within := (Finset.subset_insert _ level).trans otherBlock.within
    atLevel := fun same =>
      absurd (otherBlock.within (Finset.mem_insert_self _ level)) (same ▸ freshNot)
    openedIn := fun openMask inside => by
      rcases List.mem_append.mp inside with inner | own
      · obtain ⟨low, high⟩ := otherBlock.openedIn openMask inner
        exact ⟨Nat.le_trans (Nat.le_of_lt entryOther) low, high⟩
      · cases List.mem_singleton.mp own
        have low := bodyBlock.le_last
        have high : turned.lastNode < turned.nodes.size := by
          rw [← bodyBlock.last]
          exact Nat.lt_succ_self _
        exact ⟨Nat.le_trans (Nat.le_of_lt entryInner) low,
          Nat.lt_trans high (Nat.lt_trans turnedOther switched.otherGrows)⟩
    openedExec := fun openMask inside => by
      rcases List.mem_append.mp inside with inner | own
      · exact (Finset.ssubset_insert freshNot).trans (otherBlock.openedExec openMask inner)
      · cases List.mem_singleton.mp own
        rw [switched.switchExec, switch.getExec, if_pos rfl, negated]
        exact Finset.ssubset_insert freshNot
    frameChildren := fun node old => (switched.below node old).1
    frameExec := fun node old => (switched.below node old).2
    walks := fun graph exit valuation isPlainNode completion noExit holds negates marks => by
      cases exit with
      | none => exact absurd (noExit rfl) (by simp)
      | some target =>
          exact walks_else switched conjoined bodyBlock otherBlock lengths completion holds
            negates marks }

end Opening

/-! ## Closing blocks -/

theorem block_close {program : Stmt} {instrs : List Instr} {middle after : DecompilationState}
    {opened : List OpenMask} {current : Finset String} {parents : List NodeId}
    {cond : ExecCondition} {instr : Instr}
    (block : Block level program instrs st middle opened current)
    (added : NodeAdded middle after parents cond st.maskedBlocks)
    (closed : ClosedParents middle.lastNode opened parents) (condSet : cond.conditionSet = level)
    (notPlain : instr.isPlain = false) :
    Block level program (instrs ++ [instr]) st after [] level where
  valid := added.valid
  size := by rw [added.size, block.size, List.length_append, Nat.add_assoc]; rfl
  grows := by
    rw [added.size]
    exact Nat.lt_succ_of_lt block.grows
  last := by rw [added.last, added.size]
  noJump := added.noJump
  masks := added.masks
  exec := by rw [added.getExec, added.last, if_pos rfl, condSet]
  within := Finset.Subset.refl level
  atLevel _ := rfl
  openedIn _ inside := by cases inside
  openedExec _ inside := by cases inside
  frameChildren node old := by
    have outside : node ∉ parents := fun inside => by
      rcases (closed node).mp inside with rfl | ⟨openMask, present, rfl⟩
      · exact Nat.not_lt.mpr block.le_last old
      · exact Nat.not_lt.mpr (block.openedIn openMask present).1 old
    rw [added.children, if_neg (Nat.ne_of_lt (Nat.lt_trans old block.grows)), if_neg outside,
      List.append_nil, block.frameChildren node old]
  frameExec node old := by
    rw [added.getExec, if_neg (Nat.ne_of_lt (Nat.lt_trans old block.grows)),
      block.frameExec node old]
  walks graph exit valuation isPlainNode completion _ holds negates marks := by
    have fresh : middle.nodes.size < after.nodes.size := by
      rw [added.size]
      exact Nat.lt_succ_self _
    have earlier : ∀ node, node < middle.nodes.size → ¬Pending after.lastNode [] node := by
      rintro node old (rfl | ⟨_, inside, _⟩)
      · exact Nat.ne_of_lt old added.last
      · cases inside
    have inner : Completion graph middle.nodes st.nodes.size middle.nodes.size
        (Pending middle.lastNode opened) (some middle.nodes.size) := by
      refine ⟨fun node above below => ?_, fun node above below pending => ?_,
        fun node above below kept => ?_⟩
      · rw [completion.exec node above (Nat.lt_trans below fresh), added.getExec,
          if_neg (Nat.ne_of_lt below)]
      · rw [completion.keeps node above (Nat.lt_trans below fresh) (earlier node below),
          added.children, if_neg (Nat.ne_of_lt below), if_pos ((closed node).mpr pending)]
        rfl
      · rw [completion.keeps node above (Nat.lt_trans below fresh) (earlier node below),
          added.children, if_neg (Nat.ne_of_lt below),
          if_neg fun inside => kept ((closed node).mp inside), List.append_nil]
    obtain ⟨innerMarks, closingMark, _⟩ := (marks_append instrs [instr]).mp marks
    rw [← block.size, notPlain] at closingMark
    obtain ⟨trace, final, walk, next, visited⟩ :=
      block.walks graph (some middle.nodes.size) valuation isPlainNode inner
        (fun impossible => by cases impossible) holds negates innerMarks
    have children := completion.leaves middle.nodes.size (Nat.le_of_lt block.grows) fresh
      (Or.inl added.last.symm)
    rw [added.children, if_pos rfl, List.nil_append] at children
    refine ⟨trace ++ [middle.nodes.size], middle.nodes.size, walk.append next (.here _),
      nextNode_of_single children valuation, ?_⟩
    have noPlain : plainNodes (st.nodes.size + instrs.length) [instr] = [] := by
      simp [plainNodes, notPlain]
    rw [List.filter_append, visited, plainNodes_append, noPlain, List.append_nil,
      List.filter_cons_of_neg (by rw [closingMark]; exact Bool.false_ne_true)]
    exact List.append_nil _

end Blocks

/-! ## Programs -/

/-- No condition of a program, nor its negation, is part of the current mask. -/
def FreshFor (level : Finset String) (program : Stmt) : Prop :=
  ∀ cond ∈ program.conditions, cond ∉ level ∧ ExecCondition.makeNot cond ∉ level

theorem FreshFor.insert {level : Finset String} {outer : String} {program : Stmt}
    (fresh : FreshFor level program) (unrelated : ∀ cond ∈ program.conditions, Unrelated outer cond) :
    FreshFor (insert outer level) program ∧
      FreshFor (insert (ExecCondition.makeNot outer) level) program := by
  constructor
  · intro cond inside
    obtain ⟨notLevel, negationNotLevel⟩ := fresh cond inside
    have apart := unrelated cond inside
    simp only [Finset.mem_insert, not_or]
    exact ⟨⟨apart.different.symm, notLevel⟩, ⟨apart.notNegated.symm, negationNotLevel⟩⟩
  · intro cond inside
    obtain ⟨notLevel, negationNotLevel⟩ := fresh cond inside
    have apart := unrelated cond inside
    simp only [Finset.mem_insert, not_or]
    exact ⟨⟨apart.notNegation.symm, notLevel⟩, ⟨apart.negations.symm, negationNotLevel⟩⟩

theorem runFrom_singleton (st : DecompilationState) (instr : Instr) :
    runFrom st [instr] = step st instr := by
  rw [runFrom_cons]
  cases step st instr <;> rfl

/-- Running first some instructions and then others. -/
theorem runFrom_append_of {st middle after : DecompilationState} {left right : List Instr}
    (first : runFrom st left = some middle) (second : runFrom middle right = some after) :
    runFrom st (left ++ right) = some after := by
  rw [runFrom_append, first]
  exact second

theorem runFrom_cons_of {st middle after : DecompilationState} {instr : Instr}
    {rest : List Instr} (first : step st instr = some middle)
    (second : runFrom middle rest = some after) :
    runFrom st (instr :: rest) = some after := by
  rw [runFrom_cons, first]
  exact second

/-- Closing every mask a block has opened, with `ChangeMask`, `Unmask` or the end of the program. -/
theorem close_block {level current : Finset String} {program : Stmt} {instrs : List Instr}
    {st middle : DecompilationState} {opened : List OpenMask} {cond : ExecCondition} {instr : Instr}
    (ready : Ready level st) (block : Block level program instrs st middle opened current)
    (isLocal : instr.isLocal = true) (notPlain : instr.isPlain = false)
    (condSet : cond.conditionSet = level)
    (found : attachment middle instr = some
      ⟨(closeOpenMasks middle.nodes cond middle.maskedBlocks (fallthroughParents middle)).2,
        middle.nodes.state middle.lastNode,
        fun _ => (closeOpenMasks middle.nodes cond middle.maskedBlocks (fallthroughParents middle)).1⟩)
    (filled : ∀ inherited, filledExec middle.data inherited instr = cond) :
    ∃ after, step middle instr = some after ∧
      Block level program (instrs ++ [instr]) st after [] level ∧
      after.data.execRegisters = filledExecRegisters middle.data instr := by
  obtain ⟨top, rest, masks, topExec⟩ := ready.top
  have topIn : top.changeMask < st.nodes.size :=
    ready.valid.range.changeMask top (by rw [masks]; exact List.mem_cons_self)
  have masksAfter : middle.maskedBlocks = opened ++ top :: rest := by rw [block.masks, masks]
  have topAfter : (middle.nodes.getExec top.changeMask).conditionSet = level := by
    rw [block.frameExec _ topIn, topExec]
  obtain ⟨after, parents, stepped, added, closed, registers⟩ := step_close block.valid block.noJump
    isLocal masksAfter topAfter block.openedExec condSet found filled
  rw [← masks] at added
  exact ⟨after, stepped, block_close block added closed condSet notPlain, registers⟩

theorem block_of_maskForm {before after : ExecRegisters} {level current : Finset String}
    {program : Stmt} {instrs : List Instr}
    (form : MaskForm before level program instrs after current) {st : DecompilationState}
    (ready : Ready level st) (registers : st.data.execRegisters = before)
    (distinct : program.Distinct) (fresh : FreshFor level program) :
    ∃ final opened, runFrom st instrs = some final ∧
      Block level program instrs st final opened current ∧ final.data.execRegisters = after := by
  induction form generalizing st with
  | plain backend =>
      obtain ⟨final, stepped, added, written⟩ := step_plain ready.valid ready.noJump backend
      refine ⟨final, [], by rw [runFrom_singleton, stepped], block_plain ready added, ?_⟩
      rw [written, registers]
  | seq head tail headIh tailIh =>
      obtain ⟨headDistinct, tailDistinct, _⟩ := List.pairwise_append.mp distinct
      obtain ⟨middle, headOpened, headRan, headBlock, headRegisters⟩ := headIh ready registers
        headDistinct (fun cond inside => fresh cond (List.mem_append_left _ inside))
      cases headBlock.atLevel rfl
      obtain ⟨final, opened, tailRan, tailBlock, tailRegisters⟩ := tailIh (headBlock.ready ready)
        headRegisters tailDistinct (fun cond inside => fresh cond (List.mem_append_right _ inside))
      exact ⟨final, opened, runFrom_append_of headRan tailRan,
        block_seq headBlock tailBlock (fun valuation => length_plainNodes head _ valuation true),
        tailRegisters⟩
  | enter stored conjoined inner ih =>
      obtain ⟨unrelated, bodyDistinct⟩ := List.pairwise_cons.mp distinct
      obtain ⟨condFresh, _⟩ := fresh _ List.mem_cons_self
      have bodyFresh := (FreshFor.insert
        (fun cond inside => fresh cond (List.mem_cons_of_mem _ inside)) unrelated).1
      obtain ⟨middle, stepped, entered, kept⟩ := step_enter ready condFresh
        (by rw [registers]; exact stored) conjoined
      obtain ⟨final, opened, ran, block, written⟩ := ih (ready_of_added entered conjoined)
        (kept.trans registers) bodyDistinct bodyFresh
      exact ⟨final, _, runFrom_cons_of stepped ran, block_enter condFresh conjoined entered block,
        written⟩
  | @enterElse before middle after level current cond predicate elsePredicate mask elseMask body other
      left right stored conjoined inner elseStored negated elseInner bodyIh otherIh =>
      obtain ⟨unrelated, bodiesDistinct⟩ := List.pairwise_cons.mp distinct
      obtain ⟨bodyDistinct, otherDistinct, _⟩ := List.pairwise_append.mp bodiesDistinct
      obtain ⟨condFresh, negationFresh⟩ := fresh _ List.mem_cons_self
      have bodyFresh := (FreshFor.insert (fun cond inside =>
          fresh cond (List.mem_cons_of_mem _ (List.mem_append_left _ inside)))
        (fun cond inside => unrelated cond (List.mem_append_left _ inside))).1
      have otherFresh := (FreshFor.insert (fun cond inside =>
          fresh cond (List.mem_cons_of_mem _ (List.mem_append_right _ inside)))
        (fun cond inside => unrelated cond (List.mem_append_right _ inside))).2
      obtain ⟨start, stepped, entered, kept⟩ := step_enter ready condFresh
        (by rw [registers]; exact stored) conjoined
      have bodyReady := ready_of_added entered conjoined
      obtain ⟨turned, bodyOpened, bodyRan, bodyBlock, bodyWritten⟩ := bodyIh bodyReady
        (kept.trans registers) bodyDistinct bodyFresh
      cases bodyBlock.atLevel rfl
      obtain ⟨top, rest, masks, topExec⟩ := ready.top
      have topIn : top.changeMask < st.nodes.size :=
        ready.valid.range.changeMask top (by rw [masks]; exact List.mem_cons_self)
      have entryIn : st.nodes.size < start.nodes.size := by
        rw [entered.size]
        exact Nat.lt_succ_self _
      have masksTurned : turned.maskedBlocks = ⟨st.nodes.size, none⟩ :: top :: rest := by
        rw [bodyBlock.masks, entered.masks, masks]
        rfl
      have entryExec : (turned.nodes.getExec st.nodes.size).conditionSet = insert cond level := by
        rw [bodyBlock.frameExec _ entryIn, entered.getExec, if_pos rfl, conjoined]
      have topTurned : (turned.nodes.getExec top.changeMask).conditionSet = level := by
        rw [bodyBlock.frameExec _ (Nat.lt_trans topIn entryIn), entered.getExec,
          if_neg (Nat.ne_of_lt topIn), topExec]
      rw [← bodyWritten] at elseStored
      obtain ⟨otherStart, switchStepped, switch, switchKept⟩ := step_else
        (bodyBlock.ready bodyReady) masksTurned entryExec topTurned condFresh negationFresh
        elseStored negated
      rw [← masks] at switch
      obtain ⟨final, opened, otherRan, otherBlock, otherWritten⟩ := otherIh
        (ready_of_added switch negated) (switchKept.trans bodyWritten) otherDistinct otherFresh
      exact ⟨final, _,
        runFrom_append_of (runFrom_cons_of stepped bodyRan) (runFrom_cons_of switchStepped otherRan),
        block_else negationFresh conjoined negated entered bodyBlock switch otherBlock
          (length_plainNodes inner) _,
        otherWritten⟩
  | @close before after level current predicate mask program instrs inner isOpen stored closed ih =>
      obtain ⟨middle, opened, ran, block, written⟩ := ih ready registers distinct fresh
      have deeper : level ⊂ (middle.nodes.getExec middle.lastNode).conditionSet := by
        rw [block.exec]
        exact Finset.ssubset_iff_subset_ne.mpr ⟨block.within, isOpen.symm⟩
      rw [← written] at stored
      have found := attachment_close stored closed deeper
      obtain ⟨final, stepped, closedBlock, kept⟩ := close_block ready block rfl rfl closed found
        (fun _ => by simp [filledExec, stored])
      exact ⟨final, [], runFrom_append_of ran (by rw [runFrom_singleton, stepped]), closedBlock,
        kept.trans written⟩
  | unmask inner isOpen ih =>
      obtain ⟨middle, opened, ran, block, written⟩ := ih ready registers distinct fresh
      have found : attachment middle .unmask = _ := rfl
      obtain ⟨final, stepped, closedBlock, kept⟩ := close_block ready block rfl rfl
        ExecCondition.conditionSet_default found (fun _ => rfl)
      exact ⟨final, [], runFrom_append_of ran (by rw [runFrom_singleton, stepped]), closedBlock,
        kept.trans written⟩

/-! ## Edges -/

/-- The edges agree in both directions and stay among the nodes. -/
structure EdgeInv (st : DecompilationState) : Prop where
  valid : Valid st
  edges : MutualEdges st.nodes
  range : ∀ source target, target ∈ st.nodes.children source →
    source < st.nodes.size ∧ target < st.nodes.size

theorem edgeInv_step {st after : DecompilationState} (inv : EdgeInv st) {instr : Instr}
    (isLocal : instr.isLocal = true) (stepped : step st instr = some after) : EdgeInv after := by
  obtain ⟨attached, found, _⟩ := step_effect inv.valid stepped
  have ok := attachmentOk inv.valid found
  obtain ⟨other, otherStepped, added, _⟩ := exists_step_of_attachment inv.valid isLocal found
  cases Option.some.inj (stepped.symm.trans otherStepped)
  have noNewChild : ∀ source, st.nodes.size ∉ st.nodes.children source := fun source inside =>
    Nat.lt_irrefl _ (inv.range source _ inside).2
  have noNewParent : ∀ target, st.nodes.size ∉ st.nodes.parent target := fun target inside =>
    Nat.lt_irrefl _ (inv.range _ target ((inv.edges.agree _ target).mp inside)).1
  refine ⟨added.valid, ⟨fun node => ?_, fun node => ?_, fun source target => ?_⟩,
    fun source target inside => ?_⟩
  · rw [added.children]
    split
    · exact List.nodup_nil
    · refine List.nodup_append.mpr ⟨inv.edges.childrenNodup node, ?_, ?_⟩
      · split <;> simp
      · rintro child old new fresh rfl
        split at fresh
        · exact noNewChild node (List.mem_singleton.mp fresh ▸ old)
        · cases fresh
  · rw [added.parent]
    split
    · exact ok.nodup
    · exact inv.edges.parentNodup node
  · rw [added.parent, added.children]
    by_cases newTarget : target = st.nodes.size
    · subst newTarget
      rw [if_pos rfl]
      by_cases newSource : source = st.nodes.size
      · rw [if_pos newSource, newSource]
        exact iff_of_false (fun inside => Nat.lt_irrefl _ (ok.parents _ inside)) List.not_mem_nil
      · rw [if_neg newSource, List.mem_append, or_iff_right (noNewChild source)]
        split <;> simp [*]
    · rw [if_neg newTarget, inv.edges.agree]
      by_cases newSource : source = st.nodes.size
      · subst newSource
        rw [if_pos rfl]
        exact iff_of_false (fun inside => Nat.lt_irrefl _ (inv.range _ _ inside).1) List.not_mem_nil
      · rw [if_neg newSource, List.mem_append]
        refine (or_iff_left fun fresh => ?_).symm
        split at fresh
        · exact newTarget (List.mem_singleton.mp fresh)
        · cases fresh
  · rw [added.children] at inside
    rw [added.size]
    split at inside
    · cases inside
    · rcases List.mem_append.mp inside with old | fresh
      · exact ⟨Nat.lt_succ_of_lt (inv.range source target old).1,
          Nat.lt_succ_of_lt (inv.range source target old).2⟩
      · split at fresh
        · rename_i isParent
          rw [List.mem_singleton.mp fresh]
          exact ⟨Nat.lt_succ_of_lt (ok.parents source isParent), Nat.lt_succ_self _⟩
        · cases fresh

theorem edgeInv_initialState : EdgeInv initialState where
  valid := valid_initialState
  edges := {
    childrenNodup := fun node => by
      rw [children_initialState]
      exact List.nodup_nil
    parentNodup := fun node => by
      rw [parent_initialState]
      exact List.nodup_nil
    agree := fun source target => by
      rw [children_initialState, parent_initialState]
      exact iff_of_false List.not_mem_nil List.not_mem_nil }
  range source target inside := by
    rw [children_initialState] at inside
    cases inside

theorem isLocal_of_maskForm {before after : ExecRegisters} {level current : Finset String}
    {program : Stmt} {instrs : List Instr}
    (form : MaskForm before level program instrs after current) :
    ∀ instr ∈ instrs, instr.isLocal = true := by
  induction form with
  | plain node => exact List.forall_mem_singleton.mpr rfl
  | seq _ _ headIh tailIh => exact List.forall_mem_append.mpr ⟨headIh, tailIh⟩
  | enter _ _ _ ih => exact List.forall_mem_cons.mpr ⟨rfl, ih⟩
  | enterElse _ _ _ _ _ _ bodyIh otherIh =>
      exact List.forall_mem_append.mpr
        ⟨List.forall_mem_cons.mpr ⟨rfl, bodyIh⟩, List.forall_mem_cons.mpr ⟨rfl, otherIh⟩⟩
  | close _ _ _ _ ih =>
      exact List.forall_mem_append.mpr ⟨ih, List.forall_mem_singleton.mpr rfl⟩
  | unmask _ _ ih =>
      exact List.forall_mem_append.mpr ⟨ih, List.forall_mem_singleton.mpr rfl⟩

/-! ## Whole programs -/

theorem ready_initialState : Ready ∅ initialState where
  valid := valid_initialState
  last := rfl
  noJump := by decide
  exec := rfl
  top := ⟨⟨entryNode, none⟩, [], rfl, rfl⟩

/-- Both ways of ending a program leave one block that has closed all its masks. -/
theorem block_of_wholeMaskForm {program : Stmt} {instrs : List Instr}
    (form : WholeMaskForm program instrs) (distinct : program.Distinct) :
    ∃ final, run instrs = some final ∧ Block ∅ program instrs initialState final [] ∅ := by
  have fresh : FreshFor ∅ program := fun cond _ =>
    ⟨Finset.notMem_empty cond, Finset.notMem_empty _⟩
  cases form with
  | closed form =>
      obtain ⟨final, opened, ran, block, _⟩ :=
        block_of_maskForm form ready_initialState rfl distinct fresh
      cases block.atLevel rfl
      exact ⟨final, ran, block⟩
  | ended form =>
      obtain ⟨middle, opened, ran, block, _⟩ :=
        block_of_maskForm form ready_initialState rfl distinct fresh
      have found : attachment middle .endPgm = _ := rfl
      obtain ⟨final, stepped, closedBlock, _⟩ := close_block ready_initialState block rfl rfl
        ExecCondition.conditionSet_default found (fun _ => rfl)
      exact ⟨final, runFrom_append_of ran (by rw [runFrom_singleton, stepped]), closedBlock⟩

theorem isLocal_of_wholeMaskForm {program : Stmt} {instrs : List Instr}
    (form : WholeMaskForm program instrs) : ∀ instr ∈ instrs, instr.isLocal = true := by
  cases form with
  | closed form => exact isLocal_of_maskForm form
  | ended form =>
      exact List.forall_mem_append.mpr
        ⟨isLocal_of_maskForm form, List.forall_mem_singleton.mpr rfl⟩

/-- The pass builds the structured control-flow graph of every program in mask form. -/
theorem run_structuredGraph (program : Stmt) (instrs : List Instr) (distinct : program.Distinct)
    (form : WholeMaskForm program instrs) :
    ∃ st, run instrs = some st ∧ StructuredGraph program instrs st.nodes := by
  obtain ⟨final, ran, block⟩ := block_of_wholeMaskForm form distinct
  have local' := isLocal_of_wholeMaskForm form
  have edges : EdgeInv final := Run.invariant
    (fun _ instr inside _ inv stepped => edgeInv_step inv (local' instr inside) stepped)
    edgeInv_initialState ran
  refine ⟨final, ran, edges.edges, fun valuation negates => ?_⟩
  have completion : Completion final.nodes final.nodes initialState.nodes.size final.nodes.size
      (Pending final.lastNode []) none :=
    ⟨fun _ _ _ => rfl, fun _ _ _ _ => (List.append_nil _).symm, fun _ _ _ _ => rfl⟩
  obtain ⟨trace, last, walk, stops, visited⟩ := block.walks final.nodes none valuation
    (· ∈ plainNodes firstNode instrs) completion (fun _ => rfl)
    (fun _ inside => absurd inside (Finset.notMem_empty _)) negates
    (marks_of_mem_iff fun node _ => decide_eq_true_iff)
  have entry : nextNode final.nodes valuation entryNode = some firstNode := by
    have children := block.frameChildren entryNode (by decide)
    rw [children_initialState, List.nil_append] at children
    have single : final.nodes.children entryNode = (some firstNode).toList := children
    exact nextNode_of_single single valuation
  refine ⟨entryNode :: trace, ⟨last, .step entry walk, stops⟩, ?_⟩
  have outside : entryNode ∉ plainNodes firstNode instrs := fun inside =>
    absurd (le_of_mem_plainNodes inside) (by decide)
  rw [List.filter_cons_of_neg (by simpa using outside)]
  exact visited

section Instance

/-- A comparison that leaves the mask of its condition and of the negation in two predicates. -/
def compareNode : BackendNode where
  opcode := "v_cmp_eq_u32"
  writes := []
  declares := ["p", "n"]
  execWrites := [("p", .ofChain ["a"]), ("n", .ofChain ["!(a)"])]
  maskFree := by decide
  noJump := by decide

def storeNode : BackendNode := ⟨"global_store_dword", [], [], [], by decide, by decide⟩

/-- A store in each branch of an if-else after the comparison, and one behind it. -/
def storeInBranches : Stmt :=
  .seq (.plain compareNode)
    (.seq (.ifElse "a" (.plain storeNode) (.plain storeNode)) (.plain storeNode))

def storeInBranchesCode : List Instr :=
  [.plain compareNode] ++
    ((.changeMask "p" :: [.plain storeNode] ++ .changeMask "n" :: [.plain storeNode] ++ [.unmask]) ++
      [.plain storeNode])

theorem run_structuredGraph_storeInBranches :
    ∃ st, run storeInBranchesCode = some st ∧
      StructuredGraph storeInBranches storeInBranchesCode st.nodes :=
  run_structuredGraph storeInBranches storeInBranchesCode (by decide)
    (.closed (.seq (.plain compareNode) (.seq
      (.unmask (.enterElse rfl (by decide) (.plain storeNode) rfl (by decide) (.plain storeNode))
        (by decide))
      (.plain storeNode))))

end Instance

end OpenCLDecompiler
