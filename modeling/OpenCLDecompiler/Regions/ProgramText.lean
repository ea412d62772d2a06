import OpenCLDecompiler.Regions.LabelProgram
import OpenCLDecompiler.Regions.Writing

/-!
# The text of a program

The C code that is read from the text of a decompiled program executes the
statements of the instructions that the program executes.
-/

namespace OpenCLDecompiler

open Library Regions.Build Regions.MaskFlow Regions.LabelFlow

/-- Only plain instructions write statements. -/
structure Regions.Page.Fits (page : Regions.Page) (instrs : List Instr) : Prop
    extends page.Unbroken where
  silent : ∀ node, node ∉ plainNodes firstNode instrs → page.statements node = []

/-- Nodes that write nothing can be left out. -/
theorem Regions.Page.Fits.filter {page : Regions.Page} {instrs : List Instr}
    (fits : page.Fits instrs) (nodes : List NodeId) :
    nodes.flatMap page.statements =
      (nodes.filter (· ∈ plainNodes firstNode instrs)).flatMap page.statements := by
  induction nodes with
  | nil => rfl
  | cons node rest ih =>
      by_cases isPlain : node ∈ plainNodes firstNode instrs
      · rw [List.filter_cons, if_pos (decide_eq_true isPlain), List.flatMap_cons, List.flatMap_cons,
          ih]
      · rw [List.filter_cons, if_neg (by simpa using isPlain), List.flatMap_cons,
          fits.silent node isPlain, ih, List.nil_append]

/-- The value of a predicate is the one of its text, or the opposite for `s_br`. -/
theorem printedCondition_involutive (instrs : List Instr) (holds : NodeId → Bool) :
    printedCondition instrs (printedCondition instrs holds) = holds := by
  funext node
  unfold printedCondition
  cases instrAt instrs node with
  | none => rfl
  | some instr => cases instr <;> first | rfl | exact Bool.not_not _

/-- The text executes the statements of the plain instructions that the output executes. -/
theorem Regions.Page.Fits.run {page : Regions.Page} {instrs : List Instr} (fits : page.Fits instrs)
    (val : List Char → Bool) (out : Regions.Printed) :
    (out.source page .done).run val =
      ((out.run fun node => val (page.condition node)).filter
        (· ∈ plainNodes firstNode instrs)).flatMap page.statements :=
  (Regions.run_written val out).trans (fits.filter _)

/--
A program in label form is decompiled to a text that is read as C and executes the
statements of the plain instructions that the instruction list executes.
-/
theorem run_writesCode {program : Stmt} {instrs : List Instr} {page : Regions.Page}
    (starts : program.startsPlain = true) (spaced : program.Spaced false false)
    (named : Named instrs) (form : WholeLabelCode program instrs) (fits : page.Fits instrs) :
    ∃ st entry regions root after result text source, run instrs = some st ∧
      Settles (makeRegionGraphFromCfg (st.regionCfg entry)) regions ∧
      regions.starts (st.regionCfg entry).start = some root ∧
      Settles (Regions.processRegionGraph regions.graph root) (after, result) ∧
      Settles (fun fuel => Regions.writeOutputFromRegion (st.printedCfg entry) page after fuel
        (NestedText.indentation 1) result) text ∧
      Regions.Source.read 1 text = some source ∧
      ∀ val, ∃ trace, Walk.Complete (nextInstr instrs
          (printedCondition instrs fun node => val (page.condition node))) entryNode trace ∧
        source.run val =
          (trace.filter (· ∈ plainNodes firstNode instrs)).flatMap page.statements := by
  obtain ⟨st, flow, entry, ran, flows, listed, same⟩ :=
    flows_of_wholeLabelCode starts spaced named form
  obtain ⟨regions, root, after, result, out, builds, begins, ends, shows, prints⟩ :=
    flows.decompiles entry
  have code := printsCode_of_flows flows listed same prints
  refine ⟨st, entry, regions, root, after, result, _, _, ran, builds, begins, ends,
    Regions.settles_write shows page _, Regions.read_written fits.toUnbroken out 1, fun val => ?_⟩
  obtain ⟨trace, walk, runs⟩ :=
    code.runs (printedCondition instrs fun node => val (page.condition node))
  rw [printedCondition_involutive] at runs
  refine ⟨trace, walk, ?_⟩
  rw [fits.run, runs]

/-- Only the values at branches matter. -/
theorem successor_congr {cfg : Regions.Cfg} {val other : NodeId → Bool}
    (agree : ∀ node, 2 ≤ (cfg.node node).children.length → val node = other node) :
    cfg.successor val = cfg.successor other := by
  funext node
  have here := agree node
  unfold Regions.Cfg.successor
  split
  · rfl
  · rfl
  · rename_i first second rest children
    rw [children] at here
    rw [here (Nat.le_add_left 2 rest.length)]

/--
A program in mask form is decompiled to a text that is read as C and executes, in
program order, the statements of the plain instructions whose guards hold.
-/
theorem run_writesProgram {program : Stmt} {instrs : List Instr} {page : Regions.Page}
    (distinct : program.Distinct) (printable : program.Printable) (named : Named instrs)
    (form : WholeMaskForm program instrs) (fits : page.Fits instrs) :
    ∃ st entry regions root after result text source, run instrs = some st ∧
      Settles (makeRegionGraphFromCfg (st.regionCfg entry)) regions ∧
      regions.starts (st.regionCfg entry).start = some root ∧
      Settles (Regions.processRegionGraph regions.graph root) (after, result) ∧
      Settles (fun fuel => Regions.writeOutputFromRegion (st.printedCfg entry) page after fuel
        (NestedText.indentation 1) result) text ∧
      Regions.Source.read 1 text = some source ∧
      ∀ valuation val, Negates valuation program →
        (∀ node, 2 ≤ (st.nodes.children node).length →
          val (page.condition node) = (st.nodes.getExec node).eval valuation) →
        source.run val = (selected (plainNodes firstNode instrs)
          (program.guards valuation true)).flatMap page.statements := by
  obtain ⟨st, flow, entry, ran, flows, listed, block⟩ :=
    flows_of_wholeMaskForm distinct printable named form
  obtain ⟨regions, root, after, result, out, builds, begins, ends, shows, prints⟩ :=
    flows.decompiles entry
  refine ⟨st, entry, regions, root, after, result, _, _, ran, builds, begins, ends,
    Regions.settles_write shows page _, Regions.read_written fits.toUnbroken out 1, ?_⟩
  rintro valuation val negates values
  have same : (st.printedCfg entry).successor (fun node => val (page.condition node)) =
      (st.printedCfg entry).successor fun node => (st.nodes.getExec node).eval valuation := by
    refine successor_congr fun node branches => values node ?_
    rwa [flows.graph.printedCfg_children] at branches
  obtain ⟨trace, walk, visited⟩ := walk_of_block flows.graph block negates
  rw [← successor_eq flows entry valuation, ← same] at walk
  rw [fits.run, Flows.runs prints listed walk, visited]

section Instance

/-- Every plain instruction is a call. -/
def callsOf (instrs : List Instr) : Regions.Page where
  condition node := if node = 2 then "p".toList else "q".toList
  statements node := if node ∈ plainNodes firstNode instrs then ["f()".toList] else []

theorem callsOf_fits (instrs : List Instr) : (callsOf instrs).Fits instrs where
  condition node := by
    unfold callsOf
    dsimp only
    split <;> decide
  statements node := by
    unfold callsOf
    dsimp only
    split <;> decide
  silent node outside := if_neg outside

theorem run_writesCode_elseIf :
    ∃ st entry regions root after result text source, run elseIfCode = some st ∧
      Settles (makeRegionGraphFromCfg (st.regionCfg entry)) regions ∧
      regions.starts (st.regionCfg entry).start = some root ∧
      Settles (Regions.processRegionGraph regions.graph root) (after, result) ∧
      Settles (fun fuel => Regions.writeOutputFromRegion (st.printedCfg entry) (callsOf elseIfCode)
        after fuel (NestedText.indentation 1) result) text ∧
      Regions.Source.read 1 text = some source ∧
      ∀ val, ∃ trace, Walk.Complete (nextInstr elseIfCode (printedCondition elseIfCode
          fun node => val ((callsOf elseIfCode).condition node))) entryNode trace ∧
        source.run val = (trace.filter
          (· ∈ plainNodes firstNode elseIfCode)).flatMap (callsOf elseIfCode).statements := by
  refine @run_writesCode elseIf _ _ rfl ⟨trivial, by decide, trivial, trivial, by decide, trivial⟩
    (by decide) ⟨⟨_, _, rfl, ?_, .inr rfl⟩, ?_⟩ (callsOf_fits elseIfCode)
  · exact .seq (.plain _ _) (.close _ (.ifElse (.falls _) (.plain _ _)
      (.seq (.plain _ _) (.ifThen (.negated _) (.plain _ _)))))
  · decide

theorem run_writesProgram_ifsInRow :
    ∃ st entry regions root after result text source, run ifsInRowCode = some st ∧
      Settles (makeRegionGraphFromCfg (st.regionCfg entry)) regions ∧
      regions.starts (st.regionCfg entry).start = some root ∧
      Settles (Regions.processRegionGraph regions.graph root) (after, result) ∧
      Settles (fun fuel => Regions.writeOutputFromRegion (st.printedCfg entry)
        (callsOf ifsInRowCode) after fuel (NestedText.indentation 1) result) text ∧
      Regions.Source.read 1 text = some source ∧
      ∀ valuation val, Negates valuation ifsInRow →
        (∀ node, 2 ≤ (st.nodes.children node).length →
          val ((callsOf ifsInRowCode).condition node) =
            (st.nodes.getExec node).eval valuation) →
        source.run val = (selected (plainNodes firstNode ifsInRowCode)
          (ifsInRow.guards valuation true)).flatMap (callsOf ifsInRowCode).statements :=
  run_writesProgram (by decide) ⟨rfl, trivial, ⟨nofun, trivial⟩, nofun, trivial⟩ (by decide)
    (.ended (.seq (.plain compareBoth) (.seq
      (.unmask (.enter rfl (by decide) (.plain storeNode)) (by decide))
      (.enter rfl (by decide) (.plain storeNode)))))
    (callsOf_fits ifsInRowCode)

end Instance

end OpenCLDecompiler
