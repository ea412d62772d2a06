import OpenCLDecompiler.Regions.MaskFlow

/-!
# Programs in mask form, from instructions to output

The control-flow pass, the pass that builds the region graph, the merging of
regions and the output are put together here.
-/

namespace OpenCLDecompiler

open Library Regions.Build Regions.MaskFlow

namespace Regions.MaskFlow

/-- Both ways of ending a program leave a flow that is not open. -/
theorem built_of_wholeMaskForm {speaks mask : NodeId → Bool} {program : Stmt} {instrs : List Instr}
    (form : WholeMaskForm program instrs) (distinct : program.Distinct) (named : Named instrs)
    (spoken : Spoken speaks instrs) (silent : ∀ node, speaks node = true → mask node = false) :
    ∃ final, run instrs = some final ∧
      Built speaks mask ∅ program instrs initialState final [] ∅ := by
  have fresh : FreshFor ∅ program := fun cond _ =>
    ⟨Finset.notMem_empty cond, Finset.notMem_empty _⟩
  have plain := spoken.plain named
  cases form with
  | closed form =>
      obtain ⟨final, opened, ran, built, -⟩ :=
        built_of_maskForm form ready_initialState rfl distinct fresh plain silent
      cases built.block.atLevel rfl
      exact ⟨final, ran, built⟩
  | @ended instrs after current form =>
      rw [plainNodes_append] at plain
      obtain ⟨middle, opened, ran, built, -⟩ := built_of_maskForm form ready_initialState rfl
        distinct fresh (fun node inside => plain node (List.mem_append_left _ inside)) silent
      have found : attachment middle .endPgm = _ := rfl
      have last : speaks middle.nodes.size = true := by
        rw [built.block.size]
        refine spoken instrs.length .endPgm ?_ (by decide)
        simp
      obtain ⟨final, stepped, closed, -⟩ := built_close ready_initialState built rfl rfl
        ExecCondition.conditionSet_default found (fun _ => rfl) (fun _ => last) silent
      exact ⟨final, runFrom_append_of ran (by rw [runFrom_singleton, stepped]), closed⟩

/-! ## The flow of a program -/

/-- Nothing is attached behind the last node of the graph. -/
theorem completes_self {st : DecompilationState} (graph : Upward st) (low : NodeId)
    (pending : NodeId → Prop) : Completes st.nodes st.nodes low st.nodes.size pending none where
  exec _ _ _ := rfl
  leaves _ _ _ _ := (List.append_nil _).symm
  keeps _ _ _ _ := rfl
  parent _ _ _ := rfl
  nodup := graph.edges.parentNodup

/-- The flow of a whole program with the entry in front. -/
theorem flows_of_built {program : Stmt} {instrs : List Instr} {st : DecompilationState}
    {flow : Flow NodeId} (graph : Upward st)
    (block : OpenCLDecompiler.Block ∅ program instrs initialState st [] ∅)
    (shaped : Shaped st.speaks st.isMask program instrs initialState st [] flow)
    (printable : program.Printable) : Flows st (flow.behind ⟨entryNode, []⟩) := by
  have only := block.frameChildren entryNode (by decide)
  rw [children_initialState, List.nil_append] at only
  constructor
  case graph => exact graph
  case placed =>
    have placed := shaped.placed st.nodes none (completes_self graph _ _) fun _ => rfl
    refine Flow.Placed.behind ⟨List.isChain_singleton _, List.forall_mem_nil _, ?_, ?_⟩ placed
      shaped.inner
    · exact (shaped.frameParent entryNode (by decide)).trans (parent_initialState entryNode)
    · rw [Flow.entry, shaped.first]
      exact only
  case nodes =>
    rw [Flow.behind_nodes, shaped.nodes, block.size, List.range_eq_range', Nat.add_comm]
    rfl
  case first => exact Flow.behind_first _ _
  case only => exact only
  case led =>
    refine Flow.Led.behind (fun noLead => ?_) (shaped.led false false printable.2) false
    have starts := shaped.leads printable.1
    rw [noLead] at starts
    cases starts
  case closed =>
    rw [Flow.behind_isOpen]
    exact shaped.closed

/-- The printed graph takes the branches that the masks take. -/
theorem successor_eq {st : DecompilationState} {flow : Flow NodeId} (flows : Flows st flow)
    (entry : entryNode < st.nodes.size) (valuation : String → Bool) :
    (st.printedCfg entry).successor (fun node => (st.nodes.getExec node).eval valuation) =
      nextNode st.nodes valuation := by
  funext node
  unfold Regions.Cfg.successor nextNode
  rw [flows.graph.printedCfg_children]
  have few := flows.short node
  split <;> simp_all

end Regions.MaskFlow

/-! ## Whole programs -/

/--
The output has every plain instruction once and executes, in program order, those
whose guards hold.
-/
structure PrintsProgram (program : Stmt) (instrs : List Instr) (nodes : Nodes)
    (out : Regions.Printed) : Prop where
  once : (((out.guarded []).map Prod.snd).filter (· ∈ plainNodes firstNode instrs)).Perm
    (plainNodes firstNode instrs)
  runs : ∀ valuation, Negates valuation program →
    (out.run fun node => (nodes.getExec node).eval valuation).filter
        (· ∈ plainNodes firstNode instrs) =
      selected (plainNodes firstNode instrs) (program.guards valuation true)

/-- The walk of a program whose masks are all closed. -/
theorem walk_of_block {program : Stmt} {instrs : List Instr} {st : DecompilationState}
    (graph : Upward st) (block : Block ∅ program instrs initialState st [] ∅)
    {valuation : String → Bool} (negates : Negates valuation program) :
    ∃ trace, Walk.Complete (nextNode st.nodes valuation) entryNode trace ∧
      trace.filter (· ∈ plainNodes firstNode instrs) =
        selected (plainNodes firstNode instrs) (program.guards valuation true) := by
  obtain ⟨trace, last, walk, stops, visited⟩ := block.walks st.nodes none valuation
    (· ∈ plainNodes firstNode instrs) (completes_self graph _ _).toCompletion (fun _ => rfl)
    (fun _ inside => absurd inside (Finset.notMem_empty _)) negates
    (marks_of_mem_iff fun node _ => decide_eq_true_iff)
  have children := block.frameChildren entryNode (by decide)
  rw [children_initialState, List.nil_append] at children
  have entry : nextNode st.nodes valuation entryNode = some firstNode :=
    nextNode_of_single children valuation
  have outside : entryNode ∉ plainNodes firstNode instrs := fun inside =>
    absurd (le_of_mem_plainNodes inside) (by decide)
  refine ⟨entryNode :: trace, ⟨last, .step entry walk, stops⟩, ?_⟩
  rw [List.filter_cons_of_neg (by simpa using outside)]
  exact visited

/-- The graph of a program in mask form is a flow with its plain instructions. -/
theorem flows_of_wholeMaskForm {program : Stmt} {instrs : List Instr} (distinct : program.Distinct)
    (printable : program.Printable) (named : Named instrs) (form : WholeMaskForm program instrs) :
    ∃ st flow, ∃ _ : entryNode < st.nodes.size, run instrs = some st ∧ Flows st flow ∧
      (∀ node ∈ plainNodes firstNode instrs, node ∈ flow.lineNodes ∧ st.speaks node = true) ∧
      Block ∅ program instrs initialState st [] ∅ := by
  obtain ⟨st, ran, block⟩ := block_of_wholeMaskForm form distinct
  have graph := (localInv_run (isLocal_of_wholeMaskForm form) ran).graph
  have entry : entryNode < st.nodes.size := Nat.zero_lt_of_lt block.grows
  have spoken : Spoken st.speaks instrs := spoken_of_run ran
  obtain ⟨final, again, built⟩ := built_of_wholeMaskForm form distinct named spoken
    fun node speaks => (st.speaks_iff.mp speaks).2.2
  cases Option.some.inj (ran.symm.trans again)
  obtain ⟨flow, shaped⟩ := built.shaped
  refine ⟨st, _, entry, ran, flows_of_built graph block shaped printable, fun node inside => ?_, block⟩
  rw [Flow.behind_lineNodes]
  exact ⟨List.mem_append_right _ (shaped.lined node inside), spoken.plain named node inside⟩

/--
A program in mask form is decompiled to code that has its plain instructions
under the conditions of the program.
-/
theorem run_printsProgram {program : Stmt} {instrs : List Instr} (distinct : program.Distinct)
    (printable : program.Printable) (named : Named instrs) (form : WholeMaskForm program instrs) :
    ∃ st entry regions root after result out, run instrs = some st ∧
      Settles (makeRegionGraphFromCfg (st.regionCfg entry)) regions ∧
      regions.starts (st.regionCfg entry).start = some root ∧
      Settles (Regions.processRegionGraph regions.graph root) (after, result) ∧
      Settles (fun fuel => Regions.makeOutputFromRegion (st.printedCfg entry) after fuel result) out ∧
      PrintsProgram program instrs st.nodes out := by
  obtain ⟨st, flow, entry, ran, flows, listed, block⟩ :=
    flows_of_wholeMaskForm distinct printable named form
  obtain ⟨regions, root, after, result, out, builds, starts, ends, shows, prints⟩ :=
    flows.decompiles entry
  refine ⟨st, entry, regions, root, after, result, out, ran, builds, starts, ends, shows,
    flows.once prints (nodup_plainNodes _ _) listed, fun valuation negates => ?_⟩
  obtain ⟨trace, walk, visited⟩ := walk_of_block flows.graph block negates
  rw [← successor_eq flows entry valuation] at walk
  rw [Flows.runs prints listed walk, visited]

section Instance

/-- A comparison that leaves the masks of two conditions in two predicates. -/
def compareBoth : BackendNode where
  opcode := "v_cmp_eq_u32"
  writes := []
  declares := ["p", "q"]
  execWrites := [("p", .ofChain ["a"]), ("q", .ofChain ["b"])]
  maskFree := List.not_mem_nil
  noJump := compareNode.noJump

/-- Two ifs behind one comparison. -/
def ifsInRow : Stmt :=
  .seq (.plain compareBoth)
    (.seq (.ifThen "a" (.plain storeNode)) (.ifThen "b" (.plain storeNode)))

def ifsInRowCode : List Instr :=
  ([.plain compareBoth] ++
    ((.changeMask "p" :: [.plain storeNode] ++ [.unmask]) ++ .changeMask "q" :: [.plain storeNode])) ++
    [.endPgm]

theorem run_printsProgram_ifsInRow :
    ∃ st entry regions root after result out, run ifsInRowCode = some st ∧
      Settles (makeRegionGraphFromCfg (st.regionCfg entry)) regions ∧
      regions.starts (st.regionCfg entry).start = some root ∧
      Settles (Regions.processRegionGraph regions.graph root) (after, result) ∧
      Settles (fun fuel => Regions.makeOutputFromRegion (st.printedCfg entry) after fuel result) out ∧
      PrintsProgram ifsInRow ifsInRowCode st.nodes out :=
  run_printsProgram (by decide) ⟨rfl, trivial, ⟨nofun, trivial⟩, nofun, trivial⟩ (by decide)
    (.ended (.seq (.plain compareBoth) (.seq
      (.unmask (.enter rfl (by decide) (.plain storeNode)) (by decide))
      (.enter rfl (by decide) (.plain storeNode)))))

end Instance

end OpenCLDecompiler
