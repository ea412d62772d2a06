import OpenCLDecompiler.Cfg.Local
import OpenCLDecompiler.Cfg.Successors

/-!
# Graphs of forward branches

Code in label form whose branches all go forward leaves a graph without loops,
in which the children of a node stand in the order of the instructions.
-/

namespace OpenCLDecompiler

open Library

/-- Every branch goes past the next instruction. -/
def Forward (instrs : List Instr) : Prop :=
  ∀ source target text, targetAt instrs source = some text → labelAt instrs target = some text →
    source + 1 < target

theorem le_length_of_targetAt {instrs : List Instr} {node : NodeId} {text : String}
    (branched : targetAt instrs node = some text) : node ≤ instrs.length := by
  obtain ⟨instr, found, -⟩ := Option.bind_eq_some_iff.mp branched
  exact le_length_of_instrAt found

theorem Forward.left {seen : List Instr} {instr : Instr} (forward : Forward (seen ++ [instr])) :
    Forward seen := by
  rintro source target text branched labelled
  refine forward source target text ?_ ?_
  · rw [targetAt_snoc, if_neg fun last => ?_]
    · exact branched
    · exact Nat.not_succ_le_self _ (last ▸ le_length_of_targetAt branched)
  · rw [labelAt_snoc, if_neg fun last => ?_]
    · exact labelled
    · exact Nat.not_succ_le_self _ (last ▸ le_length_of_labelAt labelled)

/-- The last branch goes to a label that is not there yet. -/
theorem Forward.ahead {seen : List Instr} {instr : Instr} (forward : Forward (seen ++ [instr]))
    {text : String} (branches : instr.target? = some text) (node : NodeId) :
    labelAt seen node ≠ some text := by
  rintro labelled
  have inside := le_length_of_labelAt labelled
  have later := forward (seen.length + 1) node text
    (by rw [targetAt_snoc, if_pos rfl, branches])
    (by rw [labelAt_snoc, if_neg (Nat.ne_of_lt (Nat.lt_succ_of_le inside)), labelled])
  exact Nat.not_lt.mpr inside (Nat.lt_of_succ_lt (Nat.lt_of_succ_lt later))

theorem Forward.apart {instrs : List Instr} (forward : Forward instrs) : BranchesApart instrs :=
  fun node text branched _ labelled =>
    Nat.lt_irrefl _ (forward node (node + 1) text branched labelled)

/-! ## The invariant of the pass -/

structure ForwardInv (seen : List Instr) (st : DecompilationState) : Prop extends LabelInv seen st where
  sorted : ∀ source, (st.nodes.children source).Pairwise (· ≤ ·)
  loops : SameLoops initialData st.data

theorem forwardInv_initialState : ForwardInv [] initialState where
  toLabelInv := labelInv_initialState
  sorted source := by
    rw [children_initialState]
    exact List.Pairwise.nil
  loops := .refl _

theorem forwardInv_step {seen : List Instr} {st : DecompilationState} (inv : ForwardInv seen st)
    {instr : Instr} (unmasked : instr.isMask = false)
    (fresh : ∀ text, instr.label? = some text → ∀ node, labelAt seen node ≠ some text)
    (forward : Forward (seen ++ [instr])) :
    ∃ after, step st instr = some after ∧ ForwardInv (seen ++ [instr]) after := by
  obtain ⟨after, stepped, labelInv⟩ := labelInv_step inv.toLabelInv unmasked fresh
  obtain ⟨attached, -, effect⟩ := step_effect inv.valid stepped
  have noBack : backTarget st.data instr = none := by
    refine Option.eq_none_iff_forall_ne_some.mpr fun target back => ?_
    have labelled := (backTarget_eq_some_iff inv.toLabelInv instr target).mp back
    obtain ⟨text, branches, labelled⟩ := (Option.any_eq_true _ _).mp labelled
    exact forward.ahead branches target (beq_iff_eq.mp labelled)
  refine ⟨after, stepped, labelInv, fun source => ?_, inv.loops.trans (step_loops noBack stepped)⟩
  have older : ∀ target ∈ st.nodes.children source, target ≤ st.nodes.size := by
    rintro target inside
    by_contra beyond
    have count := List.count_pos_iff.mpr inside
    rw [inv.children, edgeCount_beyond] at count
    · exact Nat.lt_irrefl 0 count
    · rw [← Nat.succ_le_iff, Nat.succ_eq_add_one, ← inv.size]
      exact Nat.le_of_lt (Nat.lt_of_not_le beyond)
  -- every new child is the node of the instruction
  have grown (count : Nat) : (st.nodes.children source ++
      List.replicate count st.nodes.size).Pairwise (· ≤ ·) := by
    refine List.pairwise_append.mpr ⟨inv.sorted source, List.pairwise_replicate_of_refl, ?_⟩
    rintro old inside new isNew
    rw [List.eq_of_mem_replicate isNew]
    exact older old inside
  rw [effect.children, noBack, Option.toList_none, ite_self, List.append_nil]
  split
  · rw [List.nil_append]
    exact List.pairwise_replicate_of_refl
  · rw [List.append_assoc, List.replicate_append_replicate]
    exact grown _

theorem forwardInv_run (instrs : List Instr) (unmasked : ∀ instr ∈ instrs, instr.isMask = false)
    (labels : (instrs.filterMap Instr.label?).Nodup) (forward : Forward instrs) :
    ∃ st, run instrs = some st ∧ ForwardInv instrs st := by
  induction instrs using List.reverseRecOn with
  | nil => exact ⟨initialState, rfl, forwardInv_initialState⟩
  | append_singleton seen instr ih =>
      rw [List.filterMap_append, List.nodup_append] at labels
      obtain ⟨before, ran, inv⟩ :=
        ih (fun other inside => unmasked other (List.mem_append_left _ inside)) labels.1 forward.left
      have fresh : ∀ text, instr.label? = some text → ∀ node, labelAt seen node ≠ some text := by
        rintro text label node labelled
        refine labels.2.2 text (mem_labels_of_labelAt labelled) text ?_ rfl
        exact List.mem_filterMap.mpr ⟨instr, List.mem_singleton_self instr, label⟩
      obtain ⟨after, stepped, kept⟩ := forwardInv_step inv
        (unmasked instr (List.mem_append_right _ List.mem_cons_self)) fresh forward
      exact ⟨after, runFrom_append_of ran (by rw [runFrom_singleton, stepped]), kept⟩

/-! ## The graph -/

/-- The graph is the successor relation, with the children of a node in order. -/
structure ForwardEdges (instrs : List Instr) (nodes : Nodes) : Prop
    extends SuccessorEdges instrs nodes where
  sorted : ∀ source, (nodes.children source).Pairwise (· ≤ ·)

theorem ForwardInv.forwardEdges {instrs : List Instr} {st : DecompilationState}
    (inv : ForwardInv instrs st) (endsLast : EndsLast instrs) (forward : Forward instrs) :
    ForwardEdges instrs st.nodes :=
  ⟨(successorEdges_iff inv.toLabelInv).mpr ⟨endsLast, forward.apart⟩, inv.sorted⟩

theorem Successor.lt {instrs : List Instr} (forward : Forward instrs) {source target : NodeId}
    (next : Successor instrs source target) : source < target ∧ target ≤ instrs.length := by
  rcases next with ⟨rfl, inside, -, -⟩ | ⟨text, branched, labelled⟩
  · exact ⟨Nat.lt_succ_self _, inside⟩
  · exact ⟨Nat.lt_of_succ_lt (forward source target text branched labelled),
      le_length_of_labelAt labelled⟩

theorem ForwardInv.graph {instrs : List Instr} {st : DecompilationState}
    (inv : ForwardInv instrs st) (endsLast : EndsLast instrs) (forward : Forward instrs) :
    Upward st := by
  have edges := inv.forwardEdges endsLast forward
  have below {source target : NodeId} (edge : target ∈ st.nodes.children source) :
      source < target ∧ target ≤ instrs.length :=
    ((edges.children source target).mp edge).lt forward
  constructor
  case edges =>
    exact ⟨edges.childrenNodup, edges.parentNodup, fun source target =>
      (edges.parent source target).trans (edges.children source target).symm⟩
  case range =>
    rintro source target edge
    obtain ⟨less, inside⟩ := below edge
    rw [inv.size]
    exact ⟨Nat.lt_of_lt_of_le less (Nat.le_succ_of_le inside), Nat.lt_succ_of_le inside⟩
  case upward => exact fun source target edge => (below edge).1
  case loops => exact inv.loops

namespace ForwardEdges

variable {instrs : List Instr} {nodes : Nodes} (edges : ForwardEdges instrs nodes)

include edges

theorem children_none {source : NodeId} (none : ∀ target, ¬ Successor instrs source target) :
    nodes.children source = [] :=
  List.eq_nil_iff_forall_not_mem.mpr fun target inside =>
    none target ((edges.children source target).mp inside)

theorem children_one {source next : NodeId}
    (only : ∀ target, Successor instrs source target ↔ target = next) :
    nodes.children source = [next] := by
  refine List.perm_singleton.mp ((List.perm_ext_iff_of_nodup (edges.childrenNodup source)
    (List.nodup_singleton _)).mpr fun target => ?_)
  rw [edges.children, only, List.mem_singleton]

theorem children_two {source first second : NodeId} (less : first < second)
    (both : ∀ target, Successor instrs source target ↔ target = first ∨ target = second) :
    nodes.children source = [first, second] := by
  have distinct : [first, second].Nodup := by simp [Nat.ne_of_lt less]
  refine List.Perm.eq_of_pairwise' (edges.sorted source) (by simpa using Nat.le_of_lt less) ?_
  refine (List.perm_ext_iff_of_nodup (edges.childrenNodup source) distinct).mpr fun target => ?_
  rw [edges.children, both]
  simp

theorem parent_one {source target : NodeId}
    (only : ∀ other, Successor instrs other target ↔ other = source) :
    nodes.parent target = [source] := by
  refine List.perm_singleton.mp ((List.perm_ext_iff_of_nodup (edges.parentNodup target)
    (List.nodup_singleton _)).mpr fun other => ?_)
  rw [edges.parent, only, List.mem_singleton]

theorem parent_perm {target : NodeId} {sources : List NodeId} (nodup : sources.Nodup)
    (all : ∀ other, Successor instrs other target ↔ other ∈ sources) :
    (nodes.parent target).Perm sources := by
  refine (List.perm_ext_iff_of_nodup (edges.parentNodup target) nodup).mpr fun other => ?_
  rw [edges.parent, all]

end ForwardEdges

end OpenCLDecompiler
