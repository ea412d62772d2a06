import OpenCLDecompiler.Regions.Decompile

/-!
# Flows of programs in mask form

The control-flow pass gives a program in mask form the shape of a flow.  The
code of a statement is a flow that is open as long as masks of the statement are
open; its exit is the node at which they are closed.
-/

namespace OpenCLDecompiler

namespace Stmt

/-- The last instruction is a plain one. -/
def endsPlain : Stmt → Bool
  | .plain _ => true
  | .seq _ second => second.endsPlain
  | .ifThen _ _ => false
  | .ifElse _ _ _ => false

/-- The first instruction is a plain one. -/
def startsPlain : Stmt → Bool
  | .plain _ => true
  | .seq first _ => first.startsPlain
  | .ifThen _ _ => false
  | .ifElse _ _ _ => false

/--
An if that ends a branch (`last`) stands directly behind a plain instruction, and
every else starts with one; `before` says that one is in front of the statement.
-/
def Led : Stmt → Bool → Bool → Prop
  | .plain _, _, _ => True
  | .seq first second, before, last => first.Led before false ∧ second.Led first.endsPlain last
  | .ifThen _ body, before, last => (last = true → before = true) ∧ body.Led false true
  | .ifElse _ body other, before, last =>
      (last = true → before = true) ∧ body.Led false true ∧ other.startsPlain = true ∧
      other.Led false true

/-- What the merging of regions asks of a program. -/
def Printable (program : Stmt) : Prop :=
  program.startsPlain = true ∧ program.Led false false

theorem Led.followed {program : Stmt} {before last : Bool} (led : program.Led before last) :
    program.Led before false := by
  induction program generalizing before with
  | plain backend => trivial
  | seq first second firstIh secondIh => exact ⟨led.1, secondIh led.2⟩
  | ifThen cond body bodyIh => exact ⟨nofun, led.2⟩
  | ifElse cond body other bodyIh otherIh => exact ⟨nofun, led.2⟩

end Stmt

namespace Regions.MaskFlow

open Library Build

/-- A completion with the parents of the nodes, which are never changed. -/
structure Completes (graph nodes : Nodes) (low high : NodeId) (pending : NodeId → Prop)
    (exit : Option NodeId) : Prop extends Completion graph nodes low high pending exit where
  parent : ∀ node, low ≤ node → node < high → graph.parent node = nodes.parent node
  nodup : ∀ node, (graph.parent node).Nodup

/-- The code of a statement is a flow; `speaks` holds at nodes that print and `mask` at masks. -/
structure Shaped (speaks mask : NodeId → Bool) (program : Stmt) (instrs : List Instr)
    (before after : DecompilationState) (opened : List OpenMask) (flow : Flow NodeId) : Prop where
  frameParent : ∀ node, node < before.nodes.size →
    after.nodes.parent node = before.nodes.parent node
  nodes : flow.nodes = List.range' before.nodes.size instrs.length
  lined : ∀ node ∈ plainNodes before.nodes.size instrs, node ∈ flow.lineNodes
  first : flow.first = some before.nodes.size
  inner : ∀ line, flow.lead = some line → mask line.first = false
  nodup : (flow.enders before.lastNode).Nodup
  enders : ∀ node, node ∈ flow.enders before.lastNode ↔ Pending after.lastNode opened node
  isOpen : flow.isOpen = true ↔ opened ≠ []
  leads : program.startsPlain = true → flow.lead.isSome = true
  led : ∀ prev last, program.Led prev last → flow.Led speaks prev last
  ends : program.endsPlain = true → flow.endsLine = true
  placed : ∀ graph exit,
    Completes graph after.nodes before.nodes.size after.nodes.size (Pending after.lastNode opened)
      exit →
    (exit = none → opened = []) → flow.Placed graph.edges mask (some before.lastNode) exit

section Shapes

variable {speaks mask : NodeId → Bool} {program : Stmt} {instrs : List Instr}
  {st middle after : DecompilationState} {opened : List OpenMask} {flow : Flow NodeId}

theorem pending_nil {last node : NodeId} : Pending last [] node ↔ node = last := by
  simp [Pending]

theorem Shaped.closed (shaped : Shaped speaks mask program instrs st after [] flow) :
    flow.isOpen = false := by
  rw [← Bool.not_eq_true]
  exact fun isOpen => shaped.isOpen.mp isOpen rfl

/-- Code that has closed its masks ends with its last node. -/
theorem Shaped.ender (shaped : Shaped speaks mask program instrs st after [] flow) :
    flow.enders st.lastNode = [after.lastNode] := by
  have only : ∀ node, node ∈ flow.enders st.lastNode ↔ node ∈ [after.lastNode] := fun node =>
    (shaped.enders node).trans (pending_nil.trans List.mem_singleton.symm)
  exact List.perm_singleton.mp
    ((List.perm_ext_iff_of_nodup shaped.nodup (List.nodup_singleton _)).mpr only)

theorem shaped_plain {backend : BackendNode} {exec : ExecCondition}
    (added : NodeAdded st after [st.lastNode] exec st.maskedBlocks)
    (spoken : speaks st.nodes.size = true) (silent : ∀ node, speaks node = true → mask node = false) :
    Shaped speaks mask (.plain backend) [.plain backend] st after [] (.block ⟨st.nodes.size, []⟩) := by
  constructor
  case frameParent =>
    rintro node old
    rw [added.parent, if_neg (Nat.ne_of_lt old)]
  case nodes => rfl
  case lined => exact fun node inside => inside
  case first => rfl
  case inner =>
    rintro line ⟨⟩
    exact silent _ spoken
  case nodup => exact List.nodup_singleton _
  case enders =>
    rintro node
    rw [pending_nil, added.last]
    exact List.mem_singleton
  case isOpen => simp [Flow.isOpen]
  case leads => exact fun _ => rfl
  case led => exact fun _ _ _ => ⟨_, List.mem_cons_self, spoken⟩
  case ends => exact fun _ => rfl
  case placed =>
    rintro graph exit completes -
    have inside : st.nodes.size < after.nodes.size := by
      rw [added.size]
      exact Nat.lt_succ_self _
    have children := completes.leaves _ (Nat.le_refl _) inside (.inl added.last.symm)
    have parent := completes.parent _ (Nat.le_refl _) inside
    rw [added.children, if_pos rfl] at children
    rw [added.parent, if_pos rfl] at parent
    exact ⟨List.isChain_singleton _, List.forall_mem_nil _, parent, children⟩

/-! ## Sequences -/

theorem Completes.upper {graph nodes : Nodes} {low middle high : NodeId}
    {pending : NodeId → Prop} {exit : Option NodeId} (above : low ≤ middle)
    (completes : Completes graph nodes low high pending exit) :
    Completes graph nodes middle high pending exit where
  toCompletion := completes.toCompletion.upper above
  parent node inside := completes.parent node (Nat.le_trans above inside)
  nodup := completes.nodup

theorem shaped_seq {level current : Finset String} {first second : Stmt} {left right : List Instr}
    {start next : Flow NodeId}
    (head : OpenCLDecompiler.Block level first left st middle [] level)
    (tail : OpenCLDecompiler.Block level second right middle after opened current)
    (headShaped : Shaped speaks mask first left st middle [] start)
    (tailShaped : Shaped speaks mask second right middle after opened next) :
    Shaped speaks mask (.seq first second) (left ++ right) st after opened (start.append next) := by
  have closed := headShaped.closed
  have ends := headShaped.ender
  have enders := Flow.append_enders closed next ends
  constructor
  case frameParent =>
    rintro node old
    rw [tailShaped.frameParent node (Nat.lt_trans old head.grows), headShaped.frameParent node old]
  case nodes =>
    rw [Flow.append_nodes closed, headShaped.nodes, tailShaped.nodes, head.size, List.length_append,
      List.range'_append_1]
  case lined =>
    rw [plainNodes_append, ← head.size, Flow.append_lineNodes closed]
    rintro node inside
    exact List.mem_append.mpr
      ((List.mem_append.mp inside).imp (headShaped.lined node) (tailShaped.lined node))
  case first => exact Flow.append_first headShaped.first next
  case inner =>
    rintro line isLead
    obtain ⟨old, wasLead, same⟩ := Flow.append_lead headShaped.first isLead
    rw [← same]
    exact headShaped.inner old wasLead
  case nodup =>
    rw [enders]
    exact tailShaped.nodup
  case enders =>
    rw [enders]
    exact tailShaped.enders
  case isOpen =>
    rw [Flow.append_isOpen closed]
    exact tailShaped.isOpen
  case leads => exact fun starts => Flow.append_lead_isSome (headShaped.leads starts) next
  case led =>
    rintro prev last ⟨headLed, tailLed⟩
    have starts : next.first ≠ none := by
      rw [tailShaped.first]
      exact Option.some_ne_none _
    refine (headShaped.led prev false headLed).append closed starts ?_
    cases plain : first.endsPlain with
    | true =>
        rw [headShaped.ends plain]
        rw [plain] at tailLed
        exact tailShaped.led true last tailLed
    | false =>
        rw [plain] at tailLed
        exact (tailShaped.led false last tailLed).mono _
  case ends =>
    rintro plain
    exact Flow.append_endsLine closed (tailShaped.ends plain)
  case placed =>
    rintro graph exit completes noExit
    have before : Completes graph middle.nodes st.nodes.size middle.nodes.size
        (Pending middle.lastNode []) (some middle.nodes.size) := by
      refine ⟨completes.toCompletion.before tail, fun node above below => ?_, completes.nodup⟩
      rw [completes.parent node above (Nat.lt_trans below tail.grows),
        tailShaped.frameParent node below]
    have entry : next.entry exit = some middle.nodes.size := by
      rw [Flow.entry, tailShaped.first]
      rfl
    have headPlaced := headShaped.placed graph _ before fun none => by cases none
    rw [← entry] at headPlaced
    exact Flow.Placed.append closed headPlaced ends
      (tailShaped.placed graph exit (completes.upper (Nat.le_of_lt head.grows)) noExit)
      tailShaped.inner

/-! ## Statements that open a mask -/

section Opening

variable {level bodyLevel otherLevel current : Finset String} {cond predicate : String}
  {maskCond elseMask : ExecCondition} {body other : Stmt} {left right : List Instr}

theorem shaped_enter {inner : Flow NodeId}
    (entered : NodeAdded st middle [st.lastNode] maskCond (⟨st.nodes.size, none⟩ :: st.maskedBlocks))
    (block : OpenCLDecompiler.Block bodyLevel body instrs middle after opened current)
    (shaped : Shaped speaks mask body instrs middle after opened inner) :
    Shaped speaks mask (.ifThen cond body) (.changeMask predicate :: instrs) st after
      (opened ++ [⟨st.nodes.size, none⟩]) (.shared none st.nodes.size inner .done) := by
  have own : st.nodes.size < middle.nodes.size := by
    rw [entered.size]
    exact Nat.lt_succ_self _
  have enders (node : NodeId) :
      node ∈ inner.enders st.nodes.size ↔ Pending after.lastNode opened node := by
    rw [← entered.last]
    exact shaped.enders node
  have apart {node : NodeId} (pending : Pending after.lastNode opened node) :
      middle.nodes.size ≤ node := by
    rcases pending with rfl | ⟨openMask, inside, rfl⟩
    · exact block.le_last
    · exact (block.openedIn openMask inside).1
  constructor
  case frameParent =>
    rintro node old
    rw [shaped.frameParent node (Nat.lt_trans old own), entered.parent, if_neg (Nat.ne_of_lt old)]
  case nodes =>
    have nodes := shaped.nodes
    rw [entered.size] at nodes
    simp only [Flow.nodes, Flow.leadNodes, Option.map_none, Option.getD_none, List.nil_append, nodes,
      List.append_nil, List.length_cons, List.range'_succ]
  case lined =>
    rintro node inside
    refine List.mem_append_right _ (List.mem_append_left _ (shaped.lined node ?_))
    rw [entered.size]
    exact inside
  case first => rfl
  case inner => rintro line ⟨⟩
  case nodup =>
    have nodup := shaped.nodup
    rw [entered.last] at nodup
    refine List.nodup_append.mpr ⟨nodup, List.nodup_singleton _, ?_⟩
    rintro node inside last isLast rfl
    rw [List.mem_singleton.mp isLast] at inside
    exact Nat.not_lt.mpr (apart ((enders _).mp inside)) own
  case enders =>
    rintro node
    rw [pending_snoc]
    exact List.mem_append.trans (or_congr (enders node) List.mem_singleton)
  case isOpen => simp [Flow.isOpen]
  case leads => rintro ⟨⟩
  case led =>
    rintro prev last ⟨isLed, bodyLed⟩
    exact ⟨(fun line none => by cases none), fun _ => isLed, shaped.led false true bodyLed, trivial⟩
  case ends => rintro ⟨⟩
  case placed =>
    rintro graph exit completes noExit
    obtain ⟨target, rfl⟩ : ∃ target, exit = some target := by
      cases exit with
      | none => exact absurd (noExit rfl) (by simp)
      | some target => exact ⟨target, rfl⟩
    have inside : st.nodes.size < after.nodes.size := Nat.lt_trans own block.grows
    have children := completes.leaves st.nodes.size (Nat.le_refl _) inside
      (pending_snoc.mpr (.inr rfl))
    have parent := completes.parent st.nodes.size (Nat.le_refl _) inside
    rw [block.frameChildren _ own, entered.children, if_pos rfl, if_pos entered.last.symm] at children
    rw [shaped.frameParent _ own, entered.parent, if_pos rfl] at parent
    have bodyCompletes : Completes graph after.nodes middle.nodes.size after.nodes.size
        (Pending after.lastNode opened) (some target) := by
      have upper := completes.upper (Nat.le_of_lt own)
      refine ⟨upper.toCompletion.congr fun node above _ => ?_, upper.parent, upper.nodup⟩
      rw [pending_snoc]
      exact or_iff_left (Nat.ne_of_gt (Nat.lt_of_lt_of_le own above))
    have placed := shaped.placed graph _ bodyCompletes fun none => by cases none
    rw [entered.last] at placed
    refine ⟨target, rfl, ⟨(fun line none => by cases none), parent, ?_⟩, ?_, placed, trivial⟩
    · rw [Flow.targets, Flow.entry, shaped.first]
      exact children
    · rw [shaped.first]
      rfl

theorem shaped_else {inner otherFlow : Flow NodeId} {turned otherStart : DecompilationState}
    {masks : List OpenMask} {elsePredicate : String}
    (entered : NodeAdded st middle [st.lastNode] maskCond (⟨st.nodes.size, none⟩ :: st.maskedBlocks))
    (bodyBlock : OpenCLDecompiler.Block bodyLevel body left middle turned [] bodyLevel)
    (switch : NodeAdded turned otherStart [st.nodes.size] elseMask masks)
    (otherBlock : OpenCLDecompiler.Block otherLevel other right otherStart after opened current)
    (bodyShaped : Shaped speaks mask body left middle turned [] inner)
    (otherShaped : Shaped speaks mask other right otherStart after opened otherFlow) :
    Shaped speaks mask (.ifElse cond body other)
      (.changeMask predicate :: left ++ .changeMask elsePredicate :: right) st after
      (opened ++ [⟨turned.nodes.size, some turned.lastNode⟩])
      (.shared none st.nodes.size inner (otherFlow.behind ⟨turned.nodes.size, []⟩)) := by
  have switched := switched_of_blocks entered bodyBlock switch otherBlock
  have entryInner : st.nodes.size < middle.nodes.size := by
    rw [switched.innerSize]
    exact Nat.lt_succ_self _
  have turnedOther : turned.nodes.size < otherStart.nodes.size := by
    rw [switched.otherSize]
    exact Nat.lt_succ_self _
  have entryTurned := Nat.lt_trans entryInner switched.bodyGrows
  have turnedAfter := Nat.lt_trans turnedOther switched.otherGrows
  have turnedLast : turned.lastNode < turned.nodes.size := by
    rw [← bodyBlock.last]
    exact Nat.lt_succ_self _
  have bodyEnders : inner.enders st.nodes.size = [turned.lastNode] := by
    rw [← entered.last]
    exact bodyShaped.ender
  have otherEnders : (otherFlow.behind ⟨turned.nodes.size, []⟩).enders st.nodes.size =
      otherFlow.enders otherStart.lastNode := by
    rw [switch.last]
    exact Flow.behind_enders _ _ _
  have later {node : NodeId} (pending : Pending after.lastNode opened node) :
      otherStart.nodes.size ≤ node := by
    rcases pending with rfl | ⟨openMask, inside, rfl⟩
    · exact otherBlock.le_last
    · exact (otherBlock.openedIn openMask inside).1
  have parents (node : NodeId) (old : node < turned.nodes.size) :
      after.nodes.parent node = turned.nodes.parent node := by
    rw [otherShaped.frameParent node (Nat.lt_trans old turnedOther), switch.parent,
      if_neg (Nat.ne_of_lt old)]
  have pendingIff : ∀ node, node < otherStart.nodes.size →
      (Pending after.lastNode (opened ++ [⟨turned.nodes.size, some turned.lastNode⟩]) node ↔
        node = turned.lastNode) := by
    rintro node old
    rw [pending_snoc]
    exact or_iff_right fun pending => Nat.not_lt.mpr (later pending) old
  constructor
  case frameParent =>
    rintro node old
    rw [parents node (Nat.lt_trans old entryTurned),
      bodyShaped.frameParent node (Nat.lt_trans old entryInner), entered.parent,
      if_neg (Nat.ne_of_lt old)]
  case nodes =>
    have bodyNodes := bodyShaped.nodes
    have otherNodes := otherShaped.nodes
    rw [switched.innerSize] at bodyNodes
    rw [switched.otherSize] at otherNodes
    have size : turned.nodes.size = st.nodes.size + 1 + left.length := by
      rw [bodyBlock.size, switched.innerSize]
    have lines : (⟨turned.nodes.size, []⟩ : Line NodeId).nodes ++ otherFlow.nodes =
        List.range' turned.nodes.size (right.length + 1) := by
      rw [otherNodes, List.range'_succ]
      rfl
    simp only [Flow.nodes, Flow.leadNodes, Option.map_none, Option.getD_none, List.nil_append,
      Flow.behind_nodes, bodyNodes, lines]
    rw [size, List.range'_append_1, List.cons_append, List.length_cons, List.length_append,
      List.length_cons, List.range'_succ]
  case lined =>
    have offset : st.nodes.size + (Instr.changeMask predicate :: left).length =
        turned.nodes.size := by
      rw [bodyBlock.size, entered.size, List.length_cons, Nat.add_assoc, Nat.add_comm 1]
    rw [plainNodes_append, offset]
    rintro node inside
    refine List.mem_append_right _
      (List.mem_append.mpr ((List.mem_append.mp inside).imp (fun inBody => ?_) fun inOther => ?_))
    · refine bodyShaped.lined node ?_
      rw [entered.size]
      exact inBody
    · rw [Flow.behind_lineNodes]
      refine List.mem_cons_of_mem _ (otherShaped.lined node ?_)
      rw [switch.size]
      exact inOther
  case first => rfl
  case inner => rintro line ⟨⟩
  case nodup =>
    refine List.nodup_append.mpr ⟨?_, ?_, ?_⟩
    · rw [bodyEnders]
      exact List.nodup_singleton _
    · rw [otherEnders]
      exact otherShaped.nodup
    · rintro node inBody node' inOther rfl
      rw [bodyEnders, List.mem_singleton] at inBody
      rw [otherEnders, otherShaped.enders, inBody] at inOther
      exact Nat.not_lt.mpr (later inOther) (Nat.lt_trans turnedLast turnedOther)
  case enders =>
    rintro node
    rw [pending_snoc, Flow.enders, bodyEnders, otherEnders, List.mem_append, or_comm]
    exact or_congr (otherShaped.enders node) List.mem_singleton
  case isOpen => simp [Flow.isOpen]
  case leads => rintro ⟨⟩
  case led =>
    rintro prev last ⟨isLed, bodyLed, otherStarts, otherLed⟩
    refine ⟨(fun line none => by cases none), fun _ => isLed, bodyShaped.led false true bodyLed, ?_⟩
    refine Flow.Led.behind (fun noLead => ?_) (otherShaped.led false true otherLed) false
    have starts := otherShaped.leads otherStarts
    rw [noLead] at starts
    cases starts
  case ends => rintro ⟨⟩
  case placed =>
    rintro graph exit completes noExit
    obtain ⟨target, rfl⟩ : ∃ target, exit = some target := by
      cases exit with
      | none => exact absurd (noExit rfl) (by simp)
      | some target => exact ⟨target, rfl⟩
    have inside := Nat.lt_trans entryTurned turnedAfter
    have notEntry : ¬ Pending after.lastNode
        (opened ++ [⟨turned.nodes.size, some turned.lastNode⟩]) st.nodes.size := by
      rw [pendingIff _ (Nat.lt_trans entryTurned turnedOther)]
      exact Nat.ne_of_lt (Nat.lt_of_lt_of_le entryInner bodyBlock.le_last)
    have notSwitch : ¬ Pending after.lastNode
        (opened ++ [⟨turned.nodes.size, some turned.lastNode⟩]) turned.nodes.size := by
      rw [pendingIff _ turnedOther]
      exact Nat.ne_of_gt turnedLast
    have parent : graph.parent st.nodes.size = [st.lastNode] := by
      rw [completes.parent _ (Nat.le_refl _) inside, parents _ entryTurned,
        bodyShaped.frameParent _ entryInner, entered.parent, if_pos rfl]
    have children : graph.children st.nodes.size = [middle.nodes.size, turned.nodes.size] :=
      (completes.keeps _ (Nat.le_refl _) inside notEntry).trans switched.entry
    have switchParent : graph.parent turned.nodes.size = [st.nodes.size] := by
      rw [completes.parent _ (Nat.le_of_lt entryTurned) turnedAfter,
        otherShaped.frameParent _ turnedOther, switch.parent, if_pos rfl]
    have switchChildren : graph.children turned.nodes.size = [otherStart.nodes.size] :=
      (completes.keeps _ (Nat.le_of_lt entryTurned) turnedAfter notSwitch).trans switched.switch
    have bodyCompletes : Completes graph turned.nodes middle.nodes.size turned.nodes.size
        (Pending turned.lastNode []) (some target) := by
      refine ⟨⟨fun node above below => ?_, fun node above below pending => ?_,
        fun node above below kept => ?_⟩, fun node above below => ?_, completes.nodup⟩
      · rw [completes.exec node (Nat.le_trans (Nat.le_of_lt entryInner) above)
          (Nat.lt_trans below turnedAfter), (switched.body node above below).2]
      · rw [completes.leaves node (Nat.le_trans (Nat.le_of_lt entryInner) above)
          (Nat.lt_trans below turnedAfter)
          ((pendingIff node (Nat.lt_trans below turnedOther)).mpr (pending_nil.mp pending)),
          (switched.body node above below).1]
      · rw [completes.keeps node (Nat.le_trans (Nat.le_of_lt entryInner) above)
          (Nat.lt_trans below turnedAfter)
          (fun pending => kept (pending_nil.mpr
            ((pendingIff node (Nat.lt_trans below turnedOther)).mp pending))),
          (switched.body node above below).1]
      · rw [completes.parent node (Nat.le_trans (Nat.le_of_lt entryInner) above)
          (Nat.lt_trans below turnedAfter), parents node below]
    have otherCompletes : Completes graph after.nodes otherStart.nodes.size after.nodes.size
        (Pending after.lastNode opened) (some target) := by
      have upper := completes.upper (Nat.le_of_lt (Nat.lt_trans entryTurned turnedOther))
      refine ⟨upper.toCompletion.congr fun node above _ => ?_, upper.parent, upper.nodup⟩
      rw [pending_snoc]
      exact or_iff_left
        (Nat.ne_of_gt (Nat.lt_of_lt_of_le (Nat.lt_trans turnedLast turnedOther) above))
    have bodyPlaced := bodyShaped.placed graph _ bodyCompletes fun none => by cases none
    have otherPlaced := otherShaped.placed graph _ otherCompletes fun none => by cases none
    rw [entered.last] at bodyPlaced
    rw [switch.last] at otherPlaced
    have line : Line.Placed graph.edges mask ⟨turned.nodes.size, []⟩ (some st.nodes.size)
        (otherFlow.entry (some target)) := by
      refine ⟨List.isChain_singleton _, List.forall_mem_nil _, switchParent, ?_⟩
      rw [Flow.entry, otherShaped.first]
      exact switchChildren
    refine ⟨target, rfl, ⟨(fun line none => by cases none), parent, ?_⟩, ?_, bodyPlaced,
      Flow.Placed.behind line otherPlaced otherShaped.inner⟩
    · rw [Flow.targets, Flow.entry, Flow.entry, bodyShaped.first, Flow.behind_first]
      exact children
    · rw [bodyShaped.first]
      rfl

end Opening

/-! ## Closing -/

section Closing

variable {level current : Finset String} {parents : List NodeId} {cond : ExecCondition}
  {instr : Instr} {masks : List OpenMask}

theorem closed_completes {graph : Nodes} {exit : Option NodeId}
    (added : NodeAdded middle after parents cond masks)
    (closed : ClosedParents middle.lastNode opened parents)
    (completes : Completes graph after.nodes st.nodes.size after.nodes.size
      (Pending after.lastNode []) exit) :
    Completes graph middle.nodes st.nodes.size middle.nodes.size (Pending middle.lastNode opened)
      (some middle.nodes.size) := by
  have fresh : middle.nodes.size < after.nodes.size := by
    rw [added.size]
    exact Nat.lt_succ_self _
  have earlier (node : NodeId) (old : node < middle.nodes.size) :
      ¬ Pending after.lastNode [] node := by
    rw [pending_nil, added.last]
    exact Nat.ne_of_lt old
  refine ⟨⟨fun node above below => ?_, fun node above below pending => ?_,
    fun node above below kept => ?_⟩, fun node above below => ?_, completes.nodup⟩
  · rw [completes.exec node above (Nat.lt_trans below fresh), added.getExec,
      if_neg (Nat.ne_of_lt below)]
  · rw [completes.keeps node above (Nat.lt_trans below fresh) (earlier node below), added.children,
      if_neg (Nat.ne_of_lt below), if_pos ((closed node).mpr pending)]
    rfl
  · rw [completes.keeps node above (Nat.lt_trans below fresh) (earlier node below), added.children,
      if_neg (Nat.ne_of_lt below), if_neg fun inside => kept ((closed node).mp inside),
      List.append_nil]
  · rw [completes.parent node above (Nat.lt_trans below fresh), added.parent,
      if_neg (Nat.ne_of_lt below)]

theorem plainNodes_trail (notPlain : instr.isPlain = false) (base : NodeId) :
    plainNodes base (instrs ++ [instr]) = plainNodes base instrs := by
  rw [plainNodes_append]
  simp [plainNodes, notPlain]

/-- The node that closes the masks of a statement is its join. -/
theorem shaped_close (isOpen : opened ≠ []) (notPlain : instr.isPlain = false)
    (block : OpenCLDecompiler.Block level program instrs st middle opened current)
    (shaped : Shaped speaks mask program instrs st middle opened flow)
    (added : NodeAdded middle after parents cond masks)
    (closed : ClosedParents middle.lastNode opened parents) :
    Shaped speaks mask program (instrs ++ [instr]) st after [] (flow.close middle.nodes.size) := by
  have flowOpen := shaped.isOpen.mpr isOpen
  constructor
  case frameParent =>
    rintro node old
    rw [added.parent, if_neg (Nat.ne_of_lt (Nat.lt_trans old block.grows)),
      shaped.frameParent node old]
  case nodes =>
    rw [Flow.close_nodes flowOpen, shaped.nodes, block.size, List.length_append]
    exact List.range'_1_concat.symm
  case lined =>
    rw [Flow.close_lineNodes, plainNodes_trail notPlain]
    exact shaped.lined
  case first => rw [Flow.close_first, shaped.first]
  case inner =>
    rw [Flow.close_lead]
    exact shaped.inner
  case nodup =>
    rw [Flow.close_enders flowOpen]
    exact List.nodup_singleton _
  case enders =>
    rintro node
    rw [Flow.close_enders flowOpen, pending_nil, added.last]
    exact List.mem_singleton
  case isOpen => simp [Flow.close_isOpen]
  case leads =>
    rw [Flow.close_lead]
    exact shaped.leads
  case led => exact fun prev last led => (shaped.led prev last led).close _
  case ends =>
    rintro plain
    rw [Flow.not_isOpen (shaped.ends plain)] at flowOpen
    cases flowOpen
  case placed =>
    rintro graph exit completes -
    have fresh : middle.nodes.size < after.nodes.size := by
      rw [added.size]
      exact Nat.lt_succ_self _
    have low := Nat.le_of_lt block.grows
    have placed := shaped.placed graph _ (closed_completes added closed completes)
      fun none => by cases none
    have parent := completes.parent middle.nodes.size low fresh
    have children := completes.leaves middle.nodes.size low fresh (.inl added.last.symm)
    rw [added.parent, if_pos rfl] at parent
    rw [added.children, if_pos rfl, List.nil_append] at children
    refine Flow.Placed.close flowOpen placed ⟨?_, children⟩
    refine (List.perm_ext_iff_of_nodup (completes.nodup _) shaped.nodup).mpr fun node => ?_
    rw [shaped.enders]
    refine Iff.trans ?_ (closed node)
    rw [← parent]

/-- A node behind code that has no open mask. -/
theorem shaped_trail (notPlain : instr.isPlain = false)
    (block : OpenCLDecompiler.Block level program instrs st middle [] current)
    (shaped : Shaped speaks mask program instrs st middle [] flow)
    (added : NodeAdded middle after parents cond masks)
    (closed : ClosedParents middle.lastNode [] parents) (spoken : speaks middle.nodes.size = true)
    (silent : ∀ node, speaks node = true → mask node = false) :
    Shaped speaks mask program (instrs ++ [instr]) st after []
      (flow.append (.block ⟨middle.nodes.size, []⟩)) := by
  have flowClosed := shaped.closed
  have enders := Flow.append_enders flowClosed (.block ⟨middle.nodes.size, []⟩) shaped.ender
  constructor
  case frameParent =>
    rintro node old
    rw [added.parent, if_neg (Nat.ne_of_lt (Nat.lt_trans old block.grows)),
      shaped.frameParent node old]
  case nodes =>
    rw [Flow.append_nodes flowClosed, shaped.nodes, block.size, List.length_append]
    exact List.range'_1_concat.symm
  case lined =>
    rw [Flow.append_lineNodes flowClosed, plainNodes_trail notPlain]
    exact fun node inside => List.mem_append_left _ (shaped.lined node inside)
  case first => exact Flow.append_first shaped.first _
  case inner =>
    rintro line isLead
    obtain ⟨old, wasLead, same⟩ := Flow.append_lead shaped.first isLead
    rw [← same]
    exact shaped.inner old wasLead
  case nodup =>
    rw [enders]
    exact List.nodup_singleton _
  case enders =>
    rintro node
    rw [enders, pending_nil, added.last]
    exact List.mem_singleton
  case isOpen => simp [Flow.append_isOpen flowClosed, Flow.isOpen]
  case leads => exact fun starts => Flow.append_lead_isSome (shaped.leads starts) _
  case led =>
    exact fun prev last led => (shaped.led prev false led.followed).append flowClosed
      (Option.some_ne_none _) ⟨_, List.mem_cons_self, spoken⟩
  case ends => exact fun _ => Flow.append_endsLine flowClosed rfl
  case placed =>
    rintro graph exit completes -
    have fresh : middle.nodes.size < after.nodes.size := by
      rw [added.size]
      exact Nat.lt_succ_self _
    have low := Nat.le_of_lt block.grows
    have placed := shaped.placed graph _ (closed_completes added closed completes)
      fun none => by cases none
    have parent := completes.parent middle.nodes.size low fresh
    have children := completes.leaves middle.nodes.size low fresh (.inl added.last.symm)
    rw [added.children, if_pos rfl, List.nil_append] at children
    have only : graph.parent middle.nodes.size = [middle.lastNode] := by
      refine List.perm_singleton.mp ((List.perm_ext_iff_of_nodup (completes.nodup _)
        (List.nodup_singleton _)).mpr fun node => ?_)
      rw [parent, added.parent, if_pos rfl, closed node, List.mem_singleton]
      exact pending_nil
    refine Flow.Placed.append flowClosed placed shaped.ender ?_ ?_
    · exact ⟨List.isChain_singleton _, List.forall_mem_nil _, only, children⟩
    · rintro line ⟨⟩
      exact silent _ spoken

end Closing

end Shapes

/-! ## Programs -/

section Programs

variable {speaks mask : NodeId → Bool} {level current : Finset String} {program : Stmt}
  {instrs : List Instr} {st middle : DecompilationState} {opened : List OpenMask}

/-- The code of a statement with its flow. -/
structure Built (speaks mask : NodeId → Bool) (level : Finset String) (program : Stmt)
    (instrs : List Instr) (before after : DecompilationState) (opened : List OpenMask)
    (current : Finset String) : Prop where
  block : OpenCLDecompiler.Block level program instrs before after opened current
  stays : opened = [] → current = level
  shaped : ∃ flow, Shaped speaks mask program instrs before after opened flow

/-- A closing instruction; if no mask is open, its node prints. -/
theorem built_close {cond : ExecCondition} {instr : Instr} (ready : OpenCLDecompiler.Ready level st)
    (built : Built speaks mask level program instrs st middle opened current)
    (isLocal : instr.isLocal = true) (notPlain : instr.isPlain = false)
    (condSet : cond.conditionSet = level)
    (found : attachment middle instr = some
      ⟨(closeOpenMasks middle.nodes cond middle.maskedBlocks (fallthroughParents middle)).2,
        middle.nodes.state middle.lastNode,
        fun _ => (closeOpenMasks middle.nodes cond middle.maskedBlocks (fallthroughParents middle)).1⟩)
    (filled : ∀ inherited, filledExec middle.data inherited instr = cond)
    (spoken : opened = [] → speaks middle.nodes.size = true)
    (silent : ∀ node, speaks node = true → mask node = false) :
    ∃ after, step middle instr = some after ∧
      Built speaks mask level program (instrs ++ [instr]) st after [] level ∧
      after.data.execRegisters = filledExecRegisters middle.data instr := by
  obtain ⟨block, -, flow, shaped⟩ := built
  obtain ⟨top, rest, masks, topExec⟩ := ready.top
  have topIn : top.changeMask < st.nodes.size :=
    ready.valid.range.changeMask top (by rw [masks]; exact List.mem_cons_self)
  have masksAfter : middle.maskedBlocks = opened ++ top :: rest := by rw [block.masks, masks]
  have topAfter : (middle.nodes.getExec top.changeMask).conditionSet = level := by
    rw [block.frameExec _ topIn, topExec]
  obtain ⟨after, parents, stepped, added, closed, registers⟩ := step_close block.valid block.noJump
    isLocal masksAfter topAfter block.openedExec condSet found filled
  rw [← masks] at added
  refine ⟨after, stepped, ⟨block_close block added closed condSet notPlain, fun _ => rfl, ?_⟩,
    registers⟩
  by_cases isOpen : opened = []
  · subst isOpen
    exact ⟨_, shaped_trail notPlain block shaped added closed (spoken rfl) silent⟩
  · exact ⟨_, shaped_close isOpen notPlain block shaped added closed⟩

theorem built_of_maskForm {before after : ExecRegisters}
    (form : MaskForm before level program instrs after current) (ready : OpenCLDecompiler.Ready level st)
    (registers : st.data.execRegisters = before) (distinct : program.Distinct)
    (fresh : FreshFor level program)
    (spoken : ∀ node ∈ plainNodes st.nodes.size instrs, speaks node = true)
    (silent : ∀ node, speaks node = true → mask node = false) :
    ∃ final opened, runFrom st instrs = some final ∧
      Built speaks mask level program instrs st final opened current ∧
      final.data.execRegisters = after := by
  induction form generalizing st with
  | plain backend =>
      obtain ⟨final, stepped, added, written⟩ := step_plain ready.valid ready.noJump backend
      refine ⟨final, [], by rw [runFrom_singleton, stepped], ⟨block_plain ready added,
        fun _ => rfl, _, shaped_plain added (spoken _ List.mem_cons_self) silent⟩, ?_⟩
      rw [written, registers]
  | seq head tail headIh tailIh =>
      obtain ⟨headDistinct, tailDistinct, _⟩ := List.pairwise_append.mp distinct
      rw [plainNodes_append] at spoken
      obtain ⟨middle, headOpened, headRan, ⟨headBlock, -, start, headShaped⟩, headRegisters⟩ :=
        headIh ready registers headDistinct
          (fun cond inside => fresh cond (List.mem_append_left _ inside))
          fun node inside => spoken node (List.mem_append_left _ inside)
      cases headBlock.atLevel rfl
      rw [← headBlock.size] at spoken
      obtain ⟨final, opened, tailRan, ⟨tailBlock, stays, next, tailShaped⟩, tailRegisters⟩ :=
        tailIh (headBlock.ready ready) headRegisters tailDistinct
          (fun cond inside => fresh cond (List.mem_append_right _ inside))
          fun node inside => spoken node (List.mem_append_right _ inside)
      have lengths := fun valuation => length_plainNodes head st.nodes.size valuation true
      exact ⟨final, opened, runFrom_append_of headRan tailRan,
        ⟨block_seq headBlock tailBlock lengths, stays, _,
          shaped_seq headBlock tailBlock headShaped tailShaped⟩, tailRegisters⟩
  | enter stored conjoined inner ih =>
      obtain ⟨unrelated, bodyDistinct⟩ := List.pairwise_cons.mp distinct
      obtain ⟨condFresh, _⟩ := fresh _ List.mem_cons_self
      have bodyFresh := (FreshFor.insert
        (fun cond inside => fresh cond (List.mem_cons_of_mem _ inside)) unrelated).1
      obtain ⟨middle, stepped, entered, kept⟩ := step_enter ready condFresh
        (by rw [registers]; exact stored) conjoined
      obtain ⟨final, opened, ran, ⟨block, -, flow, shaped⟩, written⟩ := ih
        (ready_of_added entered conjoined) (kept.trans registers) bodyDistinct bodyFresh
        fun node inside => spoken node (by rw [entered.size] at inside; exact inside)
      exact ⟨final, _, runFrom_cons_of stepped ran,
        ⟨block_enter condFresh conjoined entered block, fun none => absurd none (by simp), _,
          shaped_enter entered block shaped⟩,
        written⟩
  | @enterElse before middle after level current cond predicate elsePredicate mask elseMask body other
      left right stored conjoined inner elseStored negated elseInner bodyIh otherIh =>
      obtain ⟨unrelated, bodiesDistinct⟩ := List.pairwise_cons.mp distinct
      obtain ⟨bodyDistinct, otherDistinct, _⟩ := List.pairwise_append.mp bodiesDistinct
      obtain ⟨condFresh, negationFresh⟩ := fresh _ List.mem_cons_self
      have bodyFresh := (FreshFor.insert (fun cond inside =>
          fresh cond (List.mem_cons_of_mem _ (List.mem_append_left _ inside)))
        (fun cond inside => unrelated cond (List.mem_append_left _ inside))).1
      have otherFresh := (FreshFor.insert (fun cond inside =>
          fresh cond (List.mem_cons_of_mem _ (List.mem_append_right _ inside)))
        (fun cond inside => unrelated cond (List.mem_append_right _ inside))).2
      obtain ⟨start, stepped, entered, kept⟩ := step_enter ready condFresh
        (by rw [registers]; exact stored) conjoined
      have bodyReady := ready_of_added entered conjoined
      have size : st.nodes.size + (Instr.changeMask predicate :: left).length =
          start.nodes.size + left.length := by
        rw [entered.size, List.length_cons, Nat.add_assoc, Nat.add_comm 1]
      rw [plainNodes_append, size] at spoken
      obtain ⟨turned, bodyOpened, bodyRan, ⟨bodyBlock, -, bodyFlow, bodyShaped⟩, bodyWritten⟩ :=
        bodyIh bodyReady (kept.trans registers) bodyDistinct bodyFresh fun node inside =>
          spoken node (List.mem_append_left _ (by rw [entered.size] at inside; exact inside))
      cases bodyBlock.atLevel rfl
      obtain ⟨top, rest, masks, topExec⟩ := ready.top
      have topIn : top.changeMask < st.nodes.size :=
        ready.valid.range.changeMask top (by rw [masks]; exact List.mem_cons_self)
      have entryIn : st.nodes.size < start.nodes.size := by
        rw [entered.size]
        exact Nat.lt_succ_self _
      have masksTurned : turned.maskedBlocks = ⟨st.nodes.size, none⟩ :: top :: rest := by
        rw [bodyBlock.masks, entered.masks, masks]
        rfl
      have entryExec : (turned.nodes.getExec st.nodes.size).conditionSet = insert cond level := by
        rw [bodyBlock.frameExec _ entryIn, entered.getExec, if_pos rfl, conjoined]
      have topTurned : (turned.nodes.getExec top.changeMask).conditionSet = level := by
        rw [bodyBlock.frameExec _ (Nat.lt_trans topIn entryIn), entered.getExec,
          if_neg (Nat.ne_of_lt topIn), topExec]
      rw [← bodyWritten] at elseStored
      obtain ⟨otherStart, switchStepped, switch, switchKept⟩ := step_else
        (bodyBlock.ready bodyReady) masksTurned entryExec topTurned condFresh negationFresh
        elseStored negated
      rw [← masks] at switch
      rw [← bodyBlock.size] at spoken
      obtain ⟨final, opened, otherRan, ⟨otherBlock, -, otherFlow, otherShaped⟩, otherWritten⟩ :=
        otherIh (ready_of_added switch negated) (switchKept.trans bodyWritten) otherDistinct
          otherFresh fun node inside =>
            spoken node (List.mem_append_right _ (by rw [switch.size] at inside; exact inside))
      exact ⟨final, _,
        runFrom_append_of (runFrom_cons_of stepped bodyRan) (runFrom_cons_of switchStepped otherRan),
        ⟨block_else negationFresh conjoined negated entered bodyBlock switch otherBlock
          (length_plainNodes inner) _, fun none => absurd none (by simp), _,
          shaped_else entered bodyBlock switch otherBlock bodyShaped otherShaped⟩,
        otherWritten⟩
  | @close before after level current predicate mask program instrs inner isOpen stored closed ih =>
      rw [plainNodes_append] at spoken
      obtain ⟨middle, opened, ran, built, written⟩ := ih ready registers distinct fresh
        fun node inside => spoken node (List.mem_append_left _ inside)
      have block := built.block
      have deeper : level ⊂ (middle.nodes.getExec middle.lastNode).conditionSet := by
        rw [block.exec]
        exact Finset.ssubset_iff_subset_ne.mpr ⟨block.within, isOpen.symm⟩
      rw [← written] at stored
      have found := attachment_close stored closed deeper
      obtain ⟨final, stepped, closedBlock, kept⟩ := built_close ready built rfl rfl closed found
        (fun _ => by simp [filledExec, stored]) (fun none => absurd (built.stays none) isOpen) silent
      exact ⟨final, [], runFrom_append_of ran (by rw [runFrom_singleton, stepped]), closedBlock,
        kept.trans written⟩
  | unmask inner isOpen ih =>
      rw [plainNodes_append] at spoken
      obtain ⟨middle, opened, ran, built, written⟩ := ih ready registers distinct fresh
        fun node inside => spoken node (List.mem_append_left _ inside)
      have found : attachment middle .unmask = _ := rfl
      obtain ⟨final, stepped, closedBlock, kept⟩ := built_close ready built rfl rfl
        ExecCondition.conditionSet_default found (fun _ => rfl) (fun none => absurd (built.stays none) isOpen) silent
      exact ⟨final, [], runFrom_append_of ran (by rw [runFrom_singleton, stepped]), closedBlock,
        kept.trans written⟩

end Programs

end Regions.MaskFlow

end OpenCLDecompiler
