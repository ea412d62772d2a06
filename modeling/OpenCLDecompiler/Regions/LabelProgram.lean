import OpenCLDecompiler.Regions.LabelFlow
import OpenCLDecompiler.Regions.MaskProgram

/-!
# Programs in label form, from instructions to output

The output of a structured program in label form executes what the instructions
execute when their branches are followed.
-/

namespace OpenCLDecompiler

open Library Regions.Build Regions.LabelFlow

/-! ## Whole programs -/

/-- A whole program ends with its code or with an end of program. -/
theorem WholeLabelCode.parts {program : Stmt} {instrs : List Instr}
    (form : WholeLabelCode program instrs) :
    ∃ code, LabelCode program none code ∧ CodeAt instrs firstNode code ∧
      (instrs = code ∨ instrs = code ++ [.endPgm]) := by
  obtain ⟨code, ending, rfl, coded, rfl | rfl⟩ := form.code
  · exact ⟨code, coded, codeAt_left code [], .inl (List.append_nil code)⟩
  · exact ⟨code, coded, codeAt_left code _, .inr rfl⟩

namespace Regions.LabelFlow

section Whole

variable {program : Stmt} {instrs code : List Instr}

theorem mem_whole {instr : Instr} (whole : instrs = code ∨ instrs = code ++ [.endPgm])
    (inside : instr ∈ instrs) : instr ∈ code ∨ instr = .endPgm := by
  rcases whole with rfl | rfl
  · exact .inl inside
  · exact (List.mem_append.mp inside).imp_right List.mem_singleton.mp

theorem length_whole (whole : instrs = code ∨ instrs = code ++ [.endPgm]) :
    instrs.length = code.length ∨
      instrs.length = code.length + 1 ∧ instrAt instrs (code.length + 1) = some .endPgm := by
  rcases whole with rfl | rfl
  · exact .inl rfl
  · refine .inr ⟨List.length_append, ?_⟩
    change (code ++ [Instr.endPgm])[code.length]? = some .endPgm
    rw [List.getElem?_append_right (Nat.le_refl _), Nat.sub_self]
    rfl

/-- Only the instructions of the code branch. -/
theorem branches_inside (whole : instrs = code ∨ instrs = code ++ [.endPgm]) {source : Nat}
    {text : String} (branched : targetAt instrs source = some text) :
    firstNode ≤ source ∧ source < firstNode + code.length := by
  have below : source ≤ instrs.length := le_length_of_targetAt branched
  have positive : 1 ≤ source := by
    cases source with
    | zero => cases branched
    | succ index => exact Nat.succ_pos index
  refine ⟨positive, ?_⟩
  change source < 1 + code.length
  rcases length_whole whole with size | ⟨size, ended⟩
  · omega
  · by_contra outside
    have last : source = code.length + 1 := by omega
    rw [last, targetAt_eq ended] at branched
    cases branched

theorem unmasked_whole (form : LabelCode program none code)
    (whole : instrs = code ∨ instrs = code ++ [.endPgm]) :
    ∀ instr ∈ instrs, instr.isMask = false := by
  rintro instr inside
  rcases mem_whole whole inside with inCode | rfl
  · exact (form.kinds instr inCode).1
  · rfl

theorem endsLast_whole (form : LabelCode program none code) (placed : CodeAt instrs firstNode code)
    (whole : instrs = code ∨ instrs = code ++ [.endPgm]) : EndsLast instrs := by
  rintro (node : Nat) ends
  obtain ⟨instr, found, isEnd⟩ := (Option.any_eq_true _ _).mp ends
  refine Nat.le_antisymm (le_length_of_instrAt found) (Nat.le_of_not_lt fun inside => ?_)
  cases node with
  | zero => cases found
  | succ index =>
      have inCode : index < code.length := by
        rcases length_whole whole with size | ⟨size, -⟩ <;> omega
      have here := placed index code[index] (List.getElem?_eq_getElem inCode)
      rw [Nat.add_comm] at here
      cases Option.some.inj (found.symm.trans here)
      have kind := (form.kinds code[index] (List.getElem_mem inCode)).2
      rw [isEnd] at kind
      cases kind

theorem forward_whole (labels : (instrs.filterMap Instr.label?).Nodup)
    (form : LabelCode program none code) (placed : CodeAt instrs firstNode code)
    (whole : instrs = code ∨ instrs = code ++ [.endPgm]) : Forward instrs := by
  rintro source target text branched labelled
  obtain ⟨above, below⟩ := branches_inside whole branched
  have lands := form.lands labels placed (by rintro target ⟨⟩)
  exact (lands source target text above below branched labelled).1

theorem sits_whole (placed : CodeAt instrs firstNode code)
    (whole : instrs = code ∨ instrs = code ++ [.endPgm]) : Sits instrs firstNode code none where
  here := placed
  exits := by rintro target ⟨⟩
  enclosed _ _ _ branched _ _ _ := (branches_inside whole branched).1

/-- Every branch of a whole program finds its label. -/
theorem finds_whole (form : LabelCode program none code) (placed : CodeAt instrs firstNode code)
    (whole : instrs = code ∨ instrs = code ++ [.endPgm]) {node : NodeId} {text : String}
    (branched : targetAt instrs node = some text) : ∃ target, labelAt instrs target = some text := by
  obtain ⟨instr, found, branches⟩ := Option.bind_eq_some_iff.mp branched
  have inCode : instr ∈ code := by
    rcases mem_whole whole (mem_of_instrAt found) with inCode | rfl
    · exact inCode
    · cases branches
  rcases form.finds text (List.mem_filterMap.mpr ⟨instr, inCode, branches⟩) with label | outside
  · obtain ⟨other, inside, label⟩ := List.mem_filterMap.mp label
    obtain ⟨index, below, rfl⟩ := List.mem_iff_getElem.mp inside
    exact ⟨_, (labelAt_eq (placed index _ (List.getElem?_eq_getElem below))).trans label⟩
  · cases outside

end Whole

/-! ## The graph of a program -/

section Graph

variable {program : Stmt} {instrs code : List Instr} {st : DecompilationState}

theorem opcode_ne {instr : Instr} (unmasked : instr.isMask = false)
    (named : instr.isPlain = true → instr.opcode ≠ changeMaskOpcode) :
    instr.opcode ≠ changeMaskOpcode := by
  cases instr with
  | plain backend => exact named rfl
  | changeMask predicate => cases unmasked
  | unmask => cases unmasked
  | endPgm => decide
  | label name =>
      rintro same
      have dotted := name.dotted
      rw [show name.text = changeMaskOpcode from same] at dotted
      exact absurd dotted (by decide)
  | branch predicate target => exact (by decide : "s_br" ≠ changeMaskOpcode)
  | branchNot predicate target => exact (by decide : "s_nbr" ≠ changeMaskOpcode)
  | jump target => exact (by decide : jumpOpcode ≠ changeMaskOpcode)

theorem charted_of_run (ran : run instrs = some st) (inv : ForwardInv instrs st)
    (forward : Forward instrs) (endsLast : EndsLast instrs)
    (labels : (instrs.filterMap Instr.label?).Nodup)
    (unmasked : ∀ instr ∈ instrs, instr.isMask = false) (named : Named instrs) :
    Charted instrs st.nodes st.speaks st.isMask where
  toForwardEdges := inv.forwardEdges endsLast forward
  forward := forward
  labels := labels
  spoken node instr found := by
    have inside := mem_of_instrAt found
    cases node with
    | zero => cases found
    | succ index =>
        have spoken := spoken_of_run ran index instr found
          (opcode_ne (unmasked instr inside) (named instr inside))
        rwa [Nat.add_comm] at spoken
  silent node speaks := (st.speaks_iff.mp speaks).2.2

/-- Both ways of ending a program leave a flow. -/
theorem laid_whole {speaks mask : NodeId → Bool} (chart : Charted instrs st.nodes speaks mask)
    (form : LabelCode program none code) (placed : CodeAt instrs firstNode code)
    (whole : instrs = code ∨ instrs = code ++ [.endPgm]) :
    ∃ flow, Laid instrs st.nodes speaks mask program firstNode instrs none flow := by
  obtain ⟨flow, laid⟩ := laid_of_labelCode chart form (sits_whole placed whole)
  obtain ⟨last, instr, isLast, found, goesOn⟩ := placed.finishes form
  have size : last + 1 = code.length + 1 := isLast.trans (Nat.add_comm _ _)
  rcases length_whole whole with same | ⟨more, ended⟩
  · rcases whole with rfl | rfl
    · exact ⟨flow, laid⟩
    · rw [List.length_append] at same
      exact absurd same (Nat.succ_ne_self _)
  · rcases whole with rfl | rfl
    · exact absurd more (Nat.succ_ne_self _).symm
    · rw [← size] at more ended
      exact ⟨_, laid_endPgm chart laid isLast found goesOn ended more⟩

/-- The flow of a whole program with the entry in front. -/
theorem flows_of_laid {flow : Flow NodeId} (chart : Charted instrs st.nodes st.speaks st.isMask)
    (graph : Upward st) (size : st.nodes.size = instrs.length + 1) (some : 0 < instrs.length)
    (unlabelled : labelAt instrs firstNode = none)
    (laid : Laid instrs st.nodes st.speaks st.isMask program firstNode instrs none flow)
    (starts : program.startsPlain = true) (spaced : program.Spaced false false) :
    Flows st (flow.behind ⟨entryNode, []⟩) := by
  have only : st.nodes.children entryNode = [firstNode] := by
    refine chart.children_one fun target => ⟨?_, ?_⟩
    · rintro (⟨next, -⟩ | ⟨text, branched, -⟩)
      · exact next
      · cases branched
    · rintro rfl
      exact .inl ⟨rfl, some, rfl, rfl⟩
  have orphan : st.nodes.parent entryNode = [] := by
    refine List.eq_nil_iff_forall_not_mem.mpr fun source inside => ?_
    have edge := (graph.edges.agree source entryNode).mp inside
    exact Nat.not_lt_zero _ (graph.upward source entryNode edge)
  have entered : st.nodes.parent firstNode = [entryNode] := by
    refine chart.parent_one fun source => ⟨?_, ?_⟩
    · rintro (⟨next, -⟩ | ⟨text, -, labelled⟩)
      · exact (Nat.succ_inj.mp next).symm
      · rw [unlabelled] at labelled
        cases labelled
    · rintro rfl
      exact .inl ⟨rfl, some, rfl, rfl⟩
  obtain ⟨first, here⟩ : ∃ first, instrAt instrs firstNode = .some first :=
    ⟨instrs[0], List.getElem?_eq_getElem some⟩
  have outside : placeAt instrs (firstNode + instrs.length) = none := by
    exact if_neg (Nat.not_le.mpr (Nat.lt_add_of_pos_left (Nat.succ_pos entryNode)))
  constructor
  case graph => exact graph
  case placed =>
    have placed := laid.placed entryNode entered
    rw [outside] at placed
    refine Flow.Placed.behind (line_placed orphan ?_) placed (laid.inner chart here)
    rw [Flow.entry, laid.first]
    exact only
  case nodes =>
    rw [Flow.behind_nodes, laid.nodes, size, List.range_eq_range']
    rfl
  case first => exact Flow.behind_first _ _
  case only => exact only
  case led =>
    refine Flow.Led.behind (fun noLead => ?_) (laid.led false false spaced) false
    have leads := laid.leads starts
    rw [noLead] at leads
    cases leads
  case closed =>
    rw [Flow.behind_isOpen]
    exact laid.closed rfl

theorem successor_of_toList {cfg : Regions.Cfg} {node : NodeId} {place : Option NodeId}
    (children : (cfg.node node).children = place.toList) (val : NodeId → Bool) :
    cfg.successor val node = place := by
  unfold Regions.Cfg.successor
  rw [children]
  cases place <;> rfl

theorem successor_of_two {cfg : Regions.Cfg} {node first second : NodeId}
    (children : (cfg.node node).children = [first, second]) (val : NodeId → Bool) :
    cfg.successor val node = some (if val node then first else second) := by
  unfold Regions.Cfg.successor
  rw [children]

theorem nextInstr_eq {node : NodeId} {instr : Instr} (found : instrAt instrs node = some instr)
    (holds : NodeId → Bool) : nextInstr instrs holds node =
      if instr.isEndPgm then none
      else if instr.takes (holds node) then instr.target?.bind (labelNode instrs)
      else placeAt instrs (node + 1) := by
  unfold nextInstr
  rw [found]

theorem printedCondition_eq {node : NodeId} {instr : Instr}
    (found : instrAt instrs node = some instr) (holds : NodeId → Bool) :
    printedCondition instrs holds node = instr.condition (holds node) := by
  rw [printedCondition, found]
  rfl

/-- An instruction goes to the next one, to its label or to nothing. -/
theorem successor_of_instr {cfg : Regions.Cfg} {node : NodeId} {instr : Instr}
    (chart : Charted instrs st.nodes st.speaks st.isMask)
    (same : (cfg.node node).children = st.nodes.children node)
    (found : instrAt instrs node = some instr)
    (finds : ∀ text, instr.target? = some text → ∃ target, labelAt instrs target = some text)
    (holds : NodeId → Bool) :
    cfg.successor (printedCondition instrs holds) node = nextInstr instrs holds node := by
  have linear (goesOn : instr.goesOn = true) (noTarget : instr.target? = none)
      (next : nextInstr instrs holds node = placeAt instrs (node + 1)) :
      cfg.successor (printedCondition instrs holds) node = nextInstr instrs holds node := by
    rw [next]
    exact successor_of_toList (same.trans (chart.children_goesOn found goesOn noTarget)) _
  have next := nextInstr_eq found holds
  have conditional {name : LabelName} (goesOn : instr.goesOn = true)
      (branches : instr.target? = some name.text) (stays : instr.isEndPgm = false)
      (value : instr.condition (holds node) = !instr.takes (holds node)) :
      cfg.successor (printedCondition instrs holds) node = nextInstr instrs holds node := by
    obtain ⟨target, labelled⟩ := finds name.text branches
    have later := chart.forward node target name.text ((targetAt_eq found).trans branches) labelled
    have inside := Nat.le_trans (Nat.le_of_lt later) (le_length_of_labelAt labelled)
    rw [successor_of_two (same.trans (chart.children_branch found goesOn branches labelled)), next,
      printedCondition_eq found, value, stays, branches, Option.bind_some,
      labelNode_eq chart.labels labelled, placeAt_of_le inside]
    cases instr.takes (holds node) <;> rfl
  cases instr with
  | plain backend => exact linear rfl rfl next
  | changeMask predicate => exact linear rfl rfl next
  | unmask => exact linear rfl rfl next
  | label name => exact linear rfl rfl next
  | endPgm =>
      have none : st.nodes.children node = [] := by
        refine chart.children_none fun target edge => ?_
        rcases (successor_iff found).mp edge with ⟨⟨⟩, -⟩ | ⟨_, ⟨⟩, -⟩
      rw [next]
      exact @successor_of_toList cfg node .none (same.trans none) _
  | branch predicate name => exact conditional rfl rfl rfl rfl
  | branchNot predicate name => exact conditional rfl rfl rfl (Bool.not_not _).symm
  | jump name =>
      obtain ⟨target, labelled⟩ := finds name.text rfl
      rw [next]
      refine (@successor_of_toList cfg node (some target)
        (same.trans (chart.children_jump found labelled)) _).trans ?_
      exact (labelNode_eq chart.labels labelled).symm

/-- The printed graph takes the branches that the instructions take. -/
theorem successor_eq_nextInstr {flow : Flow NodeId}
    (chart : Charted instrs st.nodes st.speaks st.isMask) (flows : Flows st flow)
    (size : st.nodes.size = instrs.length + 1)
    (finds : ∀ node text, targetAt instrs node = some text →
      ∃ target, labelAt instrs target = some text)
    (entry : entryNode < st.nodes.size) (holds : NodeId → Bool) :
    (st.printedCfg entry).successor (printedCondition instrs holds) = nextInstr instrs holds := by
  have graph := flows.graph
  funext node
  have same := graph.printedCfg_children entry node
  cases found : instrAt instrs node with
  | some instr =>
      exact successor_of_instr chart same found
        (fun text branches => finds node text ((targetAt_eq found).trans branches)) holds
  | none =>
      have next : nextInstr instrs holds node = placeAt instrs (node + 1) := by
        unfold nextInstr
        rw [found]
      rw [next]
      refine successor_of_toList (same.trans ?_) _
      cases node with
      | zero =>
          have inside := (graph.range entryNode firstNode
            (by rw [flows.only]; exact List.mem_cons_self)).2
          rw [size] at inside
          have place := placeAt_of_le (Nat.le_of_lt_succ inside)
          exact flows.only.trans (congrArg Option.toList place).symm
      | succ index =>
          have outside : instrs.length ≤ index := List.getElem?_eq_none_iff.mp found
          rw [placeAt, if_neg (Nat.not_le.mpr (Nat.lt_succ_of_le (Nat.le_succ_of_le outside)))]
          refine List.eq_nil_iff_forall_not_mem.mpr fun target edge => ?_
          have inside := (graph.range _ _ edge).1
          rw [size] at inside
          exact Nat.not_lt.mpr outside (Nat.lt_of_succ_lt_succ inside)

end Graph

end Regions.LabelFlow

/-- The output has every plain instruction once and executes what the instructions execute. -/
structure PrintsCode (instrs : List Instr) (out : Regions.Printed) : Prop where
  once : (((out.guarded []).map Prod.snd).filter (· ∈ plainNodes firstNode instrs)).Perm
    (plainNodes firstNode instrs)
  runs : ∀ holds, ∃ trace, Walk.Complete (nextInstr instrs holds) entryNode trace ∧
    (out.run (printedCondition instrs holds)).filter (· ∈ plainNodes firstNode instrs) =
      trace.filter (· ∈ plainNodes firstNode instrs)

/-- The graph of a program in label form is a flow that the instructions walk through. -/
theorem flows_of_wholeLabelCode {program : Stmt} {instrs : List Instr}
    (starts : program.startsPlain = true) (spaced : program.Spaced false false)
    (named : Named instrs) (form : WholeLabelCode program instrs) :
    ∃ st flow, ∃ entry : entryNode < st.nodes.size, run instrs = some st ∧ Flows st flow ∧
      (∀ node ∈ plainNodes firstNode instrs, node ∈ flow.lineNodes ∧ st.speaks node = true) ∧
      ∀ holds, (st.printedCfg entry).successor (printedCondition instrs holds) =
        nextInstr instrs holds := by
  have labels := form.labels
  obtain ⟨code, coded, placed, whole⟩ := form.parts
  have unmasked := unmasked_whole coded whole
  have forward := forward_whole labels coded placed whole
  have endsLast := endsLast_whole coded placed whole
  obtain ⟨st, ran, inv⟩ := forwardInv_run instrs unmasked labels forward
  have chart := charted_of_run ran inv forward endsLast labels unmasked named
  obtain ⟨flow, laid⟩ := laid_whole chart coded placed whole
  obtain ⟨first, here, unlabelled⟩ := placed.starts coded
  have graph := inv.graph endsLast forward
  have flows := flows_of_laid chart graph inv.size (le_length_of_instrAt here) unlabelled laid starts
    spaced
  have entry : entryNode < st.nodes.size := by
    rw [inv.size]
    exact Nat.succ_pos _
  refine ⟨st, _, entry, ran, flows, fun node inside => ?_, fun holds => ?_⟩
  · rw [Flow.behind_lineNodes]
    exact ⟨List.mem_append_right _ (laid.lined node inside),
      (spoken_of_run ran).plain named node inside⟩
  · exact successor_eq_nextInstr chart flows inv.size
      (fun node text branched => finds_whole coded placed whole branched) entry holds

theorem printsCode_of_flows {instrs : List Instr} {st : DecompilationState} {flow : Flow NodeId}
    {entry : entryNode < st.nodes.size} {out : Regions.Printed} (flows : Flows st flow)
    (listed : ∀ node ∈ plainNodes firstNode instrs,
      node ∈ flow.lineNodes ∧ st.speaks node = true)
    (same : ∀ holds, (st.printedCfg entry).successor (printedCondition instrs holds) =
      nextInstr instrs holds)
    (prints : Regions.Prints (st.printedCfg entry) (flow.lineNodes.filter st.speaks) out) :
    PrintsCode instrs out := by
  refine ⟨flows.once prints (nodup_plainNodes _ _) listed, fun holds => ?_⟩
  obtain ⟨trace, walk, -⟩ := prints.order (printedCondition instrs holds)
  have ran := Flows.runs prints listed walk
  rw [same] at walk
  exact ⟨trace, walk, ran⟩

/--
A program in label form is decompiled to code that executes its plain instructions
as the instruction list does, whatever its predicates are.
-/
theorem run_printsCode {program : Stmt} {instrs : List Instr} (starts : program.startsPlain = true)
    (spaced : program.Spaced false false) (named : Named instrs)
    (form : WholeLabelCode program instrs) :
    ∃ st entry regions root after result out, run instrs = some st ∧
      Settles (makeRegionGraphFromCfg (st.regionCfg entry)) regions ∧
      regions.starts (st.regionCfg entry).start = some root ∧
      Settles (Regions.processRegionGraph regions.graph root) (after, result) ∧
      Settles (fun fuel => Regions.makeOutputFromRegion (st.printedCfg entry) after fuel result) out ∧
      PrintsCode instrs out := by
  obtain ⟨st, flow, entry, ran, flows, listed, same⟩ :=
    flows_of_wholeLabelCode starts spaced named form
  obtain ⟨regions, root, after, result, out, builds, begins, ends, shows, prints⟩ :=
    flows.decompiles entry
  exact ⟨st, entry, regions, root, after, result, out, ran, builds, begins, ends, shows,
    printsCode_of_flows flows listed same prints⟩

section Instance

def labelEnd : LabelName := ⟨".L_end", by decide⟩

/-- An else-if chain behind a plain instruction. -/
def elseIf : Stmt :=
  .seq (.plain storeNode)
    (.ifElse "p" (.plain storeNode)
      (.seq (.plain storeNode) (.ifThen (ExecCondition.makeNot "q") (.plain storeNode))))

/-- Both ifs end at one label. -/
def elseIfCode : List Instr :=
  ([.plain storeNode] ++
    (.branchNot "p" labelA :: ([.plain storeNode] ++ .jump labelEnd :: .label labelA ::
      ([.plain storeNode] ++ .branch "q" labelEnd :: [.plain storeNode])) ++ [.label labelEnd])) ++
    [.endPgm]

theorem run_printsCode_elseIf :
    ∃ st entry regions root after result out, run elseIfCode = some st ∧
      Settles (makeRegionGraphFromCfg (st.regionCfg entry)) regions ∧
      regions.starts (st.regionCfg entry).start = some root ∧
      Settles (Regions.processRegionGraph regions.graph root) (after, result) ∧
      Settles (fun fuel => Regions.makeOutputFromRegion (st.printedCfg entry) after fuel result) out ∧
      PrintsCode elseIfCode out := by
  refine @run_printsCode elseIf _ rfl
    ⟨trivial, by decide, trivial, trivial, by decide, trivial⟩ (by decide) ⟨⟨_, _, rfl, ?_, .inr rfl⟩, ?_⟩
  · exact .seq (.plain _ _) (.close _ (.ifElse (.falls _) (.plain _ _)
      (.seq (.plain _ _) (.ifThen (.negated _) (.plain _ _)))))
  · decide

end Instance

end OpenCLDecompiler
