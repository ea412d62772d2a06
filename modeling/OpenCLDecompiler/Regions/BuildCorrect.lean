import Mathlib.Algebra.BigOperators.Group.Finset.Basic
import Mathlib.Data.Fin.VecNotation
import Mathlib.Data.Fintype.Basic
import Mathlib.Data.Fintype.EquivFin
import Mathlib.Data.Fintype.Card
import Mathlib.Tactic.FinCases
import OpenCLDecompiler.Library.Settles
import OpenCLDecompiler.Regions.BuildStep

/-!
# The region graph is right

The worklist ends with every node visited, and the invariant then says what the
regions and their edges are.
-/

namespace OpenCLDecompiler.Regions.Build

open Library

variable {V : Type} [DecidableEq V] {cfg : Cfg V} {st : State V} {owner : V → RegionId}
  {trace : RegionId → List V} {node : V}

/-! ## The lists of a node -/

omit [DecidableEq V] in
theorem Store.addEdges_append (store : Store V) (first second : List (RegionId × RegionId)) :
    (store.addEdges first).addEdges second = store.addEdges (first ++ second) :=
  (List.foldl_append ..).symm

theorem filter_visited {values visited : List V} {node : V} (other : node ∉ values) :
    values.filter (· ∈ visited ++ [node]) = values.filter (· ∈ visited) := by
  apply List.filter_congr
  intro value mem
  have different : value ≠ node := by
    rintro rfl
    exact other mem
  simp [different]

theorem inEdges_eq (region : RegionId) (other : node ∉ cfg.parent node) :
    Inv.inEdges cfg st owner node region =
      ((cfg.parent node).filter (· ∈ st.visited ++ [node])).map
        fun parent => (owner parent, region) := by
  rw [Inv.inEdges, filter_visited other]

theorem outEdges_eq (region : RegionId) (other : node ∉ cfg.children node) :
    Inv.outEdges cfg st owner node region =
      ((cfg.children node).filter (· ∈ st.visited ++ [node])).map
        fun child => (region, owner child) := by
  rw [Inv.outEdges, filter_visited other]

theorem visitChildren_spec (cfg : Cfg V) (st : State V) (node : V) (region : RegionId)
    (owner : V → RegionId)
    (known : ∀ child ∈ cfg.children node, child ∈ st.visited → st.starts child = some (owner child)) :
    visitChildren cfg st node region =
      some { st with
        store := st.store.addEdges
          (((cfg.children node).filter (· ∈ st.visited)).map fun child => (region, owner child))
        queue := st.queue ++ (cfg.children node).filter (· ∉ st.visited) } := by
  unfold visitChildren
  generalize cfg.children node = values at known
  induction values generalizing st with
  | nil => simp [Store.addEdges]
  | cons child rest ih =>
      rw [List.foldlM_cons, visitChild]
      by_cases visited : child ∈ st.visited
      · have starts := known child List.mem_cons_self visited
        have tail := ih { st with store := st.store.addEdge region (owner child) }
          fun other mem => known other (List.mem_cons_of_mem _ mem)
        simp only [visited, not_true, if_false, starts, Option.map_some, Option.bind_eq_bind,
          Option.bind_some, tail]
        simp [visited, Store.addEdges]
      · have tail := ih { st with queue := st.queue ++ [child] }
          fun other mem => known other (List.mem_cons_of_mem _ mem)
        simp only [visited, not_false_iff, if_true, Option.bind_eq_bind, Option.bind_some, tail]
        simp [visited]

theorem linkParents_spec (cfg : Cfg V) (st : State V) (node : V) (region : RegionId)
    (owner : V → RegionId)
    (known : ∀ parent ∈ cfg.parent node, parent ∈ st.visited → st.ends parent = some (owner parent)) :
    linkParents cfg st node region =
      some { st with
        store := st.store.addEdges
          (((cfg.parent node).filter (· ∈ st.visited)).map fun parent => (owner parent, region)) } := by
  have folds (values : List V) (store : Store V)
      (known : ∀ parent ∈ values, st.ends parent = some (owner parent)) :
      values.foldlM
          (fun store parent => (parentRegion cfg st node parent).map (store.addEdge · region)) store =
        some (store.addEdges (values.map fun parent => (owner parent, region))) := by
    induction values generalizing store with
    | nil => rfl
    | cons parent rest ih =>
        have here : parentRegion cfg st node parent = some (owner parent) := by
          rw [parentRegion, known parent List.mem_cons_self]
        rw [List.foldlM_cons, here]
        exact ih _ fun other mem => known other (List.mem_cons_of_mem _ mem)
  unfold linkParents
  rw [folds]
  · rfl
  · intro parent mem
    obtain ⟨edge, visited⟩ := List.mem_filter.mp mem
    exact known parent edge (by simpa using visited)

/-! ## One round -/

/-- What a round does to the visited nodes and to the queue. -/
inductive Round (cfg : Cfg V) (st after : State V) (node : V) : Prop where
  | old (visited : node ∈ st.visited) (same : after.visited = st.visited)
      (queue : after.queue = st.queue)
  | putOff (loops : node ∉ cfg.loops) (waits : ∃ parent ∈ cfg.parent node, parent ∉ st.visited)
      (same : after.visited = st.visited) (queue : after.queue = st.queue)
  | visit (new : node ∉ st.visited) (more : after.visited = st.visited ++ [node])
      (queue : after.queue =
        st.queue ++ (cfg.children node).filter (· ∉ st.visited ++ [node]))

section Round

variable (wf : cfg.WellFormed) (noLoop : node ∉ cfg.children node) (inv : Inv cfg st owner trace)
  (new : node ∉ st.visited)

include wf noLoop inv new

/-- A node with a region of its own, from the state in front of its edges. -/
theorem open_spec (type : RegionType) (isType : cfg.regionType node = type)
    (head : ¬ cfg.Joined node)
    (parents : cfg.Plain node → ∀ parent ∈ cfg.parent node, parent ∈ st.visited) :
    let begun := State.begin { st with visited := st.visited ++ [node] } type node
    ∃ after, (linkParents cfg begun node st.store.next).bind
        (fun linked => visitChildren cfg linked node st.store.next) = some after ∧
      (∃ owner trace, Inv cfg after owner trace) ∧ Round cfg st after node := by
  intro begun
  have noParent : node ∉ cfg.parent node := wf.mem_parent.not.mpr noLoop
  have known (v : V) (mem : v ∈ begun.visited) (different : v ≠ node) : v ∈ st.visited := by
    rcases List.mem_append.mp mem with old | same
    · exact old
    · exact (different (List.mem_singleton.mp same)).elim
  have links := linkParents_spec cfg begun node st.store.next owner ?_
  · let linked := { begun with
      store := begun.store.addEdges (((cfg.parent node).filter (· ∈ begun.visited)).map
        fun parent => (owner parent, st.store.next)) }
    have visits := visitChildren_spec cfg linked node st.store.next owner ?_
    · refine ⟨_, by rw [links, Option.bind_some, visits], ?_, .visit new rfl rfl⟩
      have opens : Opens cfg st { linked with
          store := linked.store.addEdges (((cfg.children node).filter (· ∈ linked.visited)).map
            fun child => (st.store.next, owner child))
          queue := linked.queue ++ (cfg.children node).filter (· ∉ linked.visited) } owner node := by
        refine ⟨⟨wf, noLoop, new, parents, rfl⟩, head, rfl, rfl, ?_⟩
        rw [isType, inEdges_eq _ noParent, outEdges_eq _ noLoop]
        exact Store.addEdges_append _ _ _
      exact ⟨_, _, opens.inv inv⟩
    · intro child mem present
      have different : child ≠ node := by
        rintro rfl
        exact noLoop mem
      have old := known child present different
      exact (Function.update_of_ne different _ _).trans
        (inv.starts child old (inv.head_of_parent wf new mem old))
  · intro parent mem present
    have different : parent ≠ node := by
      rintro rfl
      exact noParent mem
    exact (Function.update_of_ne different _ _).trans
      (inv.ends parent (known parent present different)
        (Inv.last_of_child wf new (wf.mem_parent.mp mem)))

/-- A node behind the region of its parent. -/
theorem join_spec (joined : cfg.Joined node) {parent : V} (only : cfg.parent node = [parent])
    (before : parent ∈ st.visited) :
    ∃ after, visitChildren cfg { st with
        store := st.store.setStop (owner parent) node
        ends := Function.update (Function.update st.ends parent none) node (some (owner parent))
        visited := st.visited ++ [node] } node (owner parent) = some after ∧
      (∃ owner trace, Inv cfg after owner trace) ∧ Round cfg st after node := by
  let longer : State V := { st with
    store := st.store.setStop (owner parent) node
    ends := Function.update (Function.update st.ends parent none) node (some (owner parent))
    visited := st.visited ++ [node] }
  have visits := visitChildren_spec cfg longer node (owner parent) owner ?_
  · refine ⟨_, visits, ?_, .visit new rfl rfl⟩
    have joins : Joins cfg st { longer with
        store := longer.store.addEdges (((cfg.children node).filter (· ∈ longer.visited)).map
          fun child => (owner parent, owner child))
        queue := longer.queue ++ (cfg.children node).filter (· ∉ longer.visited) }
        owner node parent := by
      refine ⟨⟨wf, noLoop, new, ?_, rfl⟩, joined, only, before, rfl, rfl, ?_⟩
      · intro _ other edge
        rw [only, List.mem_singleton] at edge
        exact edge ▸ before
      · rw [outEdges_eq _ noLoop]
    exact ⟨_, _, joins.inv inv⟩
  · intro child mem present
    rcases List.mem_append.mp present with old | same
    · exact inv.starts child old (inv.head_of_parent wf new mem old)
    · exact (noLoop (List.mem_singleton.mp same ▸ mem)).elim

end Round

/-- A put off node leaves its region in both dictionaries. -/
theorem Inv.putOff (inv : Inv cfg st owner trace) (new : node ∉ st.visited)
    (head : ¬ cfg.Joined node) (type : RegionType) :
    Inv cfg (st.begin type node) owner trace := by
  have ne {old : V} (mem : old ∈ st.visited) : old ≠ node := by
    rintro rfl
    exact new mem
  have get {old : V} (mem : old ∈ st.visited) :
      (st.begin type node).store.get (owner old) = st.store.get (owner old) := by
    rw [State.begin, Store.get_newRegion, if_neg (Nat.ne_of_lt (inv.live old mem))]
  refine ⟨⟨inv.start, ?_, inv.plainParent, ?_, ?_, inv.joinedOwner, inv.hasHead⟩,
    ⟨?_, ?_, inv.hasLast⟩,
    ⟨?_, ?_, ?_, ?_⟩, ⟨?_, inv.onTrace, inv.owned⟩⟩
  · intro v mem
    exact Nat.lt_succ_of_lt (inv.live v mem)
  · intro v mem isHead
    exact (Function.update_of_ne (ne mem) _ _).trans (inv.starts v mem isHead)
  · intro v joined
    have different : v ≠ node := by
      rintro rfl
      exact head joined
    exact (Function.update_of_ne different _ _).trans (inv.joinedStarts v joined)
  · intro v mem last
    exact (Function.update_of_ne (ne mem) _ _).trans (inv.ends v mem last)
  · intro v mem last
    rw [get mem]
    exact inv.stop v mem last
  · intro v mem
    rw [get mem]
    exact inv.type v mem
  · intro v mem isHead
    rw [get mem]
    exact inv.head v mem isHead
  · intro v mem last
    rw [get mem]
    exact inv.children v mem last
  · intro v mem isHead
    rw [get mem]
    exact inv.parent v mem isHead
  · intro v mem
    rw [State.Nodes, get mem]
    exact inv.nodes v mem

/-- Every round succeeds and keeps the invariant. -/
theorem step_spec (wf : cfg.WellFormed) (noLoop : node ∉ cfg.children node)
    (inv : Inv cfg st owner trace)
    (queued : ∃ parent ∈ st.visited, node ∈ cfg.children parent) :
    ∃ after, step cfg st node = some after ∧ (∃ owner trace, Inv cfg after owner trace) ∧
      Round cfg st after node := by
  unfold step
  by_cases old : node ∈ st.visited
  · rw [if_pos old]
    exact ⟨st, rfl, ⟨owner, trace, inv⟩, .old old rfl rfl⟩
  rw [if_neg old]
  have notStart : node ≠ cfg.start := by
    rintro rfl
    exact old inv.start
  obtain ⟨parent, before, edge⟩ := queued
  have parents (plain : cfg.Plain node) : cfg.parent node = [parent] := by
    obtain ⟨only, single⟩ := plain.parent_eq
    have mem := wf.mem_parent.mpr edge
    rw [single, List.mem_singleton] at mem
    rw [single, mem]
  have visitedParents (plain : cfg.Plain node) : ∀ other ∈ cfg.parent node, other ∈ st.visited := by
    intro other mem
    rw [parents plain, List.mem_singleton] at mem
    exact mem ▸ before
  by_cases loops : node ∈ cfg.loops ∨ node ∈ cfg.backEdges
  · have notPlain : ¬ cfg.Plain node := by
      rintro ⟨noHeader, noBack, -⟩
      exact loops.elim noHeader noBack
    dsimp only
    rw [if_pos loops]
    refine open_spec wf noLoop inv old _ ?_ (fun joined => notPlain joined.1) visitedParents
    by_cases header : node ∈ cfg.loops
    · simp [Cfg.regionType, notStart, header]
    · simp [Cfg.regionType, notStart, header, loops.resolve_left header]
  · obtain ⟨noHeader, noBack⟩ := not_or.mp loops
    dsimp only
    rw [if_neg loops]
    by_cases single : cfg.single node
    · have plain : cfg.Plain node := ⟨noHeader, noBack, (Cfg.single_iff node).mp single⟩
      have ends := inv.ends parent before (Inv.last_of_child wf old edge)
      have different : parent ≠ node := by
        rintro rfl
        exact old before
      rw [if_pos single]
      simp only [parents plain, List.head?_cons, Option.bind_eq_bind, Option.bind_some, ends]
      by_cases linear : cfg.Linear parent
      · have joined : cfg.Joined node := by
          refine ⟨plain, fun other mem => ?_⟩
          rw [parents plain, List.mem_singleton] at mem
          exact mem ▸ linear
        rw [if_pos ((inv.type parent before).trans ((Cfg.regionType_eq_linear_iff parent).mpr linear))]
        exact join_spec wf noLoop inv old joined (parents plain) before
      · have head : ¬ cfg.Joined node := fun joined =>
          linear (joined.2 parent (wf.mem_parent.mpr edge))
        have type : cfg.regionType node = .linear :=
          (Cfg.regionType_eq_linear_iff node).mpr (.inr plain)
        rw [if_neg fun isLinear =>
          linear ((Cfg.regionType_eq_linear_iff parent).mp ((inv.type parent before).symm.trans isLinear))]
        let begun := State.begin { st with visited := st.visited ++ [node] } .linear node
        have begunEnds : begun.ends parent = some (owner parent) :=
          (Function.update_of_ne different _ _).trans ends
        have links : linkParents cfg begun node st.store.next =
            some { begun with store := begun.store.addEdge (owner parent) st.store.next } := by
          rw [linkParents_spec cfg begun node st.store.next owner]
          · have present : parent ∈ begun.visited := List.mem_append_left _ before
            simp [parents plain, present, Store.addEdges]
          · intro other mem _
            rw [parents plain, List.mem_singleton] at mem
            rw [mem, begunEnds]
        obtain ⟨after, runs, keeps⟩ := open_spec wf noLoop inv old _ type head visitedParents
        rw [links, Option.bind_some] at runs
        refine ⟨after, ?_, keeps⟩
        rw [begunEnds, Option.bind_some]
        exact runs
    · have notPlain : ¬ cfg.Plain node := fun plain =>
        single ((Cfg.single_iff node).mpr plain.2.2)
      have type : cfg.regionType node = .basic := by
        simp [Cfg.regionType, notStart, noHeader, noBack, single]
      rw [if_neg single]
      split
      · rename_i waits
        obtain ⟨other, mem, waits⟩ := List.any_eq_true.mp waits
        have absent : other ∉ st.visited := by
          intro present
          simp [State.begin, present] at waits
        have back : (st.visited ++ [node]).erase node = st.visited := by
          rw [List.erase_append_right _ old, List.erase_cons_head, List.append_nil]
        have same : { State.begin { st with visited := st.visited ++ [node] } .basic node with
            visited := (st.visited ++ [node]).erase node } = st.begin .basic node := by
          rw [back]
          rfl
        refine ⟨st.begin .basic node, congrArg some same,
          ⟨owner, trace, inv.putOff old (fun joined => notPlain joined.1) .basic⟩,
          .putOff noHeader ⟨other, mem, absent⟩ rfl rfl⟩
      · exact open_spec wf noLoop inv old _ type (fun joined => notPlain joined.1) visitedParents

/-! ## The whole run -/

/-- A child of a visited node is not forgotten. -/
structure Pending (cfg : Cfg V) (st : State V) : Prop where
  queued : ∀ node ∈ st.queue, ∃ parent ∈ st.visited, node ∈ cfg.children parent
  waits : ∀ node ∈ st.visited, ∀ child ∈ cfg.children node,
    child ∈ st.visited ∨ child ∈ st.queue ∨
      child ∉ cfg.loops ∧ ∃ parent ∈ cfg.parent child, parent ∉ st.visited

theorem Pending.round (wf : cfg.WellFormed) {rest : List V} {after : State V}
    (pending : Pending cfg st) (queue : st.queue = node :: rest)
    (round : Round cfg { st with queue := rest } after node) : Pending cfg after := by
  have queued (v : V) (mem : v ∈ rest) : ∃ parent ∈ st.visited, v ∈ cfg.children parent :=
    pending.queued v (by rw [queue]; exact List.mem_cons_of_mem _ mem)
  have waits (v : V) (mem : v ∈ st.visited) (child : V) (edge : child ∈ cfg.children v) :
      child ∈ st.visited ∨ child = node ∨ child ∈ rest ∨
        child ∉ cfg.loops ∧ ∃ parent ∈ cfg.parent child, parent ∉ st.visited := by
    have either := pending.waits v mem child edge
    rwa [queue, List.mem_cons, or_assoc] at either
  cases round with
  | old visited same kept =>
      refine ⟨fun v mem => ?_, fun v mem child edge => ?_⟩
      · rw [kept] at mem
        rw [same]
        exact queued v mem
      · rw [same] at mem ⊢
        rw [kept]
        rcases waits v mem child edge with present | rfl | later
        · exact .inl present
        · exact .inl visited
        · exact .inr later
  | putOff loops waiting same kept =>
      refine ⟨fun v mem => ?_, fun v mem child edge => ?_⟩
      · rw [kept] at mem
        rw [same]
        exact queued v mem
      · rw [same] at mem ⊢
        rw [kept]
        rcases waits v mem child edge with present | rfl | later
        · exact .inl present
        · exact .inr (.inr ⟨loops, waiting⟩)
        · exact .inr later
  | visit new more kept =>
      have grown {v : V} (mem : v ∈ st.visited) : v ∈ after.visited := by
        rw [more]
        exact List.mem_append_left _ mem
      have here : node ∈ after.visited := by
        rw [more]
        exact List.mem_append_right _ (List.mem_singleton_self node)
      have pushed {child : V} (edge : child ∈ cfg.children node) :
          child ∈ after.visited ∨ child ∈ after.queue := by
        by_cases present : child ∈ after.visited
        · exact .inl present
        · right
          rw [more] at present
          rw [kept]
          exact List.mem_append_right _ (List.mem_filter.mpr ⟨edge, by simpa using present⟩)
      refine ⟨fun v mem => ?_, fun v mem child edge => ?_⟩
      · rw [kept] at mem
        rcases List.mem_append.mp mem with old | child
        · obtain ⟨parent, visited, edge⟩ := queued v old
          exact ⟨parent, grown visited, edge⟩
        · exact ⟨node, here, (List.mem_filter.mp child).1⟩
      · rw [more] at mem
        rcases List.mem_append.mp mem with old | same
        · rcases waits v old child edge with present | rfl | inRest | ⟨loops, parent, link, absent⟩
          · exact .inl (grown present)
          · exact .inl here
          · right
            left
            rw [kept]
            exact List.mem_append_left _ inRest
          · by_cases last : parent = node
            · rcases pushed (wf.mem_parent.mp (last ▸ link)) with present | queued
              · exact .inl present
              · exact .inr (.inl queued)
            · refine .inr (.inr ⟨loops, parent, link, ?_⟩)
              rw [more, List.mem_append, List.mem_singleton, not_or]
              exact ⟨absent, last⟩
        · rw [List.mem_singleton.mp same] at edge
          rcases pushed edge with present | queued
          · exact .inl present
          · exact .inr (.inl queued)

/-- The rounds that are left. -/
def remaining [Fintype V] (cfg : Cfg V) (st : State V) : Nat :=
  st.queue.length + ∑ node with node ∉ st.visited, (cfg.children node).length

theorem remaining_lt [Fintype V] {rest : List V} {after : State V} (queue : st.queue = node :: rest)
    (round : Round cfg { st with queue := rest } after node) :
    remaining cfg after < remaining cfg st := by
  unfold remaining
  rw [queue, List.length_cons]
  cases round with
  | old visited same kept =>
      rw [same, kept]
      dsimp only
      omega
  | putOff loops waiting same kept =>
      rw [same, kept]
      dsimp only
      omega
  | visit new more kept =>
      have fewer : (Finset.univ.filter fun v => v ∉ after.visited) =
          (Finset.univ.filter fun v => v ∉ st.visited).erase node := by
        ext v
        simp [more, and_comm]
      have inside : node ∈ Finset.univ.filter fun v => v ∉ st.visited := by simpa using new
      have split := Finset.add_sum_erase _ (fun v => (cfg.children v).length) inside
      have short := List.length_filter_le (· ∉ st.visited ++ [node]) (cfg.children node)
      rw [fewer, kept, List.length_append]
      dsimp only at short ⊢
      omega

theorem loop_settles [Fintype V] (wf : cfg.WellFormed) (noLoop : ∀ v, v ∉ cfg.children v)
    (rounds : Nat) (st : State V) (enough : remaining cfg st ≤ rounds)
    (inv : ∃ owner trace, Inv cfg st owner trace) (pending : Pending cfg st) :
    ∃ final, Settles (fun bound => loop cfg bound st) final ∧
      (∃ owner trace, Inv cfg final owner trace) ∧ Pending cfg final ∧ final.queue = [] := by
  induction rounds generalizing st with
  | zero =>
      have empty : st.queue = [] := by
        rw [← List.length_eq_zero_iff]
        unfold remaining at enough
        omega
      refine ⟨st, Settles.of_succ (fun bound => ?_) (Settles.const st), inv, pending, empty⟩
      rw [loop, empty]
  | succ rounds ih =>
      cases queue : st.queue with
      | nil =>
          refine ⟨st, Settles.of_succ (fun bound => ?_) (Settles.const st), inv, pending, queue⟩
          rw [loop, queue]
      | cons node rest =>
          obtain ⟨owner, trace, inv⟩ := inv
          have queued := pending.queued node (by rw [queue]; exact List.mem_cons_self)
          have keeps : Inv cfg { st with queue := rest } owner trace :=
            ⟨⟨inv.start, inv.live, inv.plainParent, inv.starts, inv.joinedStarts, inv.joinedOwner,
              inv.hasHead⟩, ⟨inv.ends, inv.stop, inv.hasLast⟩,
              ⟨inv.type, inv.head, inv.children, inv.parent⟩, ⟨inv.nodes, inv.onTrace, inv.owned⟩⟩
          obtain ⟨after, runs, next, round⟩ := step_spec wf (noLoop node) keeps queued
          have less := remaining_lt queue round
          obtain ⟨final, settles, final'⟩ := ih after (by omega) next (pending.round wf queue round)
          refine ⟨final, Settles.of_succ (fun bound => ?_) settles, final'⟩
          rw [loop, queue]
          dsimp only
          rw [runs, Option.bind_some]

/-- When the queue is empty, every node is visited. -/
theorem all_visited [Finite V] (wf : cfg.WellFormed) (inv : Inv cfg st owner trace)
    (pending : Pending cfg st) (empty : st.queue = []) (v : V) : v ∈ st.visited := by
  have irrefl : Std.Irrefl (Relation.TransGen cfg.Forward) := ⟨wf.acyclic⟩
  have founded : WellFounded (Relation.TransGen cfg.Forward) :=
    Finite.wellFounded_of_trans_of_irrefl _
  induction v using founded.induction with
  | h v ih =>
    rcases Relation.ReflTransGen.cases_tail (wf.reachable v) with rfl | ⟨parent, _, edge⟩
    · exact inv.start
    · have before := ih parent (.single edge)
      rcases pending.waits parent before v edge.1 with done | queued | ⟨loops, other, link, absent⟩
      · exact done
      · simp [empty] at queued
      · have forward : cfg.Forward other v := ⟨wf.mem_parent.mp link, fun back => loops back.2⟩
        exact (absent (ih other (.single forward))).elim

/-! ## The regions of a finished run -/

omit [DecidableEq V] in
/-- A region that is not linear has no node behind its start. -/
theorem last_of_not_linear (wf : cfg.WellFormed) {v : V} (other : ¬ cfg.Linear v) :
    Last cfg st v :=
  fun _ edge joined => (other (joined.2 v (wf.mem_parent.mpr edge))).elim

omit [DecidableEq V] in
theorem child_not_joined (all : ∀ v, v ∈ st.visited) {last child : V} (isLast : Last cfg st last)
    (edge : child ∈ cfg.children last) : ¬ cfg.Joined child :=
  fun joined => isLast child edge joined (all child)

omit [DecidableEq V] in
/-- A parent of a start ends its region. -/
theorem parent_last (wf : cfg.WellFormed) {head parent : V} (notJoined : ¬ cfg.Joined head)
    (edge : head ∈ cfg.children parent) : Last cfg st parent := by
  intro child mem joined
  have linear := joined.2 parent (wf.mem_parent.mpr mem)
  rw [wf.linear_children linear edge, List.mem_singleton] at mem
  exact (notJoined (mem ▸ joined)).elim

namespace Inv

variable (all : ∀ v, v ∈ st.visited) (inv : Inv cfg st owner trace)

include all inv

theorem isRegion_iff (region : RegionId) :
    st.IsRegion region ↔ ∃ head, ¬ cfg.Joined head ∧ owner head = region := by
  constructor
  · rintro ⟨head, entered⟩
    have notJoined : ¬ cfg.Joined head := by
      intro joined
      rw [inv.joinedStarts head joined] at entered
      cases entered
    rw [inv.starts head (all head) notJoined] at entered
    exact ⟨head, notJoined, Option.some.inj entered⟩
  · rintro ⟨head, notJoined, rfl⟩
    exact ⟨head, inv.starts head (all head) notJoined⟩

theorem isRegion_owner (v : V) : st.IsRegion (owner v) := by
  obtain ⟨head, _, same, notJoined⟩ := inv.hasHead v (all v)
  exact (inv.isRegion_iff all _).mpr ⟨head, notJoined, same⟩

theorem once (v : V) :
    ∃! region, st.IsRegion region ∧ ∃ nodes, st.Nodes cfg region nodes ∧ v ∈ nodes := by
  refine ⟨owner v, ⟨inv.isRegion_owner all v, _, inv.nodes v (all v), inv.onTrace v (all v)⟩, ?_⟩
  rintro region ⟨isRegion, nodes, walk, mem⟩
  obtain ⟨head, _, rfl⟩ := (inv.isRegion_iff all region).mp isRegion
  have known := inv.nodes head (all head)
  have same := walk.1.unique_of_nodup walk.2 known.1 known.2
  rw [same] at mem
  exact (inv.owned head (all head) v mem).2.symm

theorem maximalChain (wf : cfg.WellFormed) {head last : V} (notJoined : ¬ cfg.Joined head)
    (linear : cfg.Linear head) (isLast : Last cfg st last) (same : owner last = owner head) :
    MaximalChain cfg head (trace (owner head)) last := by
  have linearNodes (v : V) (mem : owner v = owner head) : cfg.Linear v := by
    rw [← Cfg.regionType_eq_linear_iff, ← inv.type v (all v), mem, inv.type head (all head),
      Cfg.regionType_eq_linear_iff]
    exact linear
  constructor
  · intro v mem
    exact linearNodes v (inv.owned head (all head) v mem).2
  · intro notStart parent mem linearParent
    have plain : cfg.Plain head := linear.resolve_left notStart
    obtain ⟨only, single⟩ := plain.parent_eq
    refine notJoined ⟨plain, fun other edge => ?_⟩
    rw [single, List.mem_singleton] at mem edge
    rw [edge, ← mem]
    exact linearParent
  · intro child edge plain
    obtain ⟨only, single⟩ := plain.parent_eq
    refine isLast child edge ⟨plain, fun other link => ?_⟩ (all child)
    have mem := wf.mem_parent.mpr edge
    rw [single, List.mem_singleton] at mem link
    rw [link, ← mem]
    exact linearNodes last same

end Inv

/-- How often the owner of a node occurs among the owners of others. -/
theorem count_owner {values : List V} (nodup : values.Nodup) (one : V)
    (inj : ∀ value ∈ values, owner value = owner one → value = one) :
    (values.map owner).count (owner one) = if one ∈ values then 1 else 0 := by
  have entries := congrArg List.length (map_filter_eq_of_inj values nodup owner one 0 inj)
  rw [List.length_map] at entries
  rw [List.count, List.countP_map, List.countP_eq_length_filter]
  refine Eq.trans ?_ (entries.trans (by split <;> rfl))
  congr 1

theorem Inv.edges (inv : Inv cfg st owner trace) (wf : cfg.WellFormed)
    (all : ∀ v, v ∈ st.visited) {last head : V} (isLast : Last cfg st last)
    (notJoined : ¬ cfg.Joined head) :
    (st.store.get (owner last)).children.count (owner head) =
        (if head ∈ cfg.children last then 1 else 0) ∧
      (st.store.get (owner head)).parent.count (owner last) =
        (if head ∈ cfg.children last then 1 else 0) := by
  have whole (values : List V) : values.filter (· ∈ st.visited) = values := by
    rw [List.filter_eq_self]
    intro v _
    simpa using all v
  constructor
  · rw [(inv.children last (all last) isLast).count_eq, whole, count_owner (wf.nodup_children last)]
    intro child edge same
    exact inv.head_inj (all child) (child_not_joined all isLast edge) (all head) notJoined same
  · rw [(inv.parent head (all head) notJoined).count_eq, whole, count_owner (wf.nodup_parent head)]
    · simp only [wf.mem_parent]
    · intro parent link same
      have ends : Last cfg st parent := parent_last wf notJoined (wf.mem_parent.mp link)
      exact inv.last_inj (all parent) ends (all last) isLast same

theorem Inv.correct (inv : Inv cfg st owner trace) (wf : cfg.WellFormed)
    (all : ∀ v, v ∈ st.visited) : Correct cfg st := by
  have heads (region : RegionId) (isRegion : st.IsRegion region) :
      ∃ head, ¬ cfg.Joined head ∧ owner head = region ∧ (st.store.get region).start = head := by
    obtain ⟨head, notJoined, rfl⟩ := (inv.isRegion_iff all region).mp isRegion
    exact ⟨head, notJoined, rfl, inv.head head (all head) notJoined⟩
  have lasts (v : V) : ∃ last, owner last = owner v ∧ Last cfg st last ∧
      (st.store.get (owner v)).stop = last := by
    obtain ⟨last, mem, same, isLast⟩ := inv.hasLast v (all v)
    exact ⟨last, same, isLast, same ▸ inv.stop last mem isLast⟩
  constructor
  · exact inv.once all
  · intro region isRegion
    obtain ⟨head, _, rfl, start⟩ := heads region isRegion
    rw [start, inv.type head (all head)]
  · intro region isRegion linear
    obtain ⟨head, notJoined, rfl, start⟩ := heads region isRegion
    obtain ⟨last, same, isLast, stop⟩ := lasts head
    rw [inv.type head (all head), Cfg.regionType_eq_linear_iff] at linear
    refine ⟨_, inv.nodes head (all head), ?_⟩
    rw [start, stop]
    exact inv.maximalChain all wf notJoined linear isLast same
  · intro region isRegion other
    obtain ⟨head, _, rfl, start⟩ := heads region isRegion
    rw [inv.type head (all head), Ne, Cfg.regionType_eq_linear_iff] at other
    rw [start, inv.stop head (all head) (last_of_not_linear wf other)]
  · intro first second isFirst isSecond
    obtain ⟨v, _, rfl, _⟩ := heads first isFirst
    obtain ⟨head, notJoined, rfl, start⟩ := heads second isSecond
    obtain ⟨last, same, isLast, stop⟩ := lasts v
    rw [start, stop, ← same]
    exact inv.edges wf all isLast notJoined
  · intro region isRegion
    obtain ⟨head, notJoined, rfl, _⟩ := heads region isRegion
    obtain ⟨last, same, isLast, _⟩ := lasts head
    constructor
    · intro child mem
      rw [← same, (inv.children last (all last) isLast).mem_iff, List.mem_map] at mem
      obtain ⟨v, _, rfl⟩ := mem
      exact inv.isRegion_owner all v
    · intro parent mem
      rw [(inv.parent head (all head) notJoined).mem_iff, List.mem_map] at mem
      obtain ⟨v, _, rfl⟩ := mem
      exact inv.isRegion_owner all v

/-! ## The start -/

theorem initial_inv (wf : cfg.WellFormed) (noLoop : ∀ v, v ∉ cfg.children v) (child : V) :
    Inv cfg (initial cfg child) (fun _ => 0) (fun _ => [cfg.start]) := by
  have visited {v : V} : v ∈ (initial cfg child).visited ↔ v = cfg.start := List.mem_singleton
  have empty (values : List V) (absent : cfg.start ∉ values) :
      values.filter (· ∈ (initial cfg child).visited) = [] := by
    rw [List.filter_eq_nil_iff]
    intro v mem isStart
    rw [decide_eq_true_eq, visited] at isStart
    exact absent (isStart ▸ mem)
  refine ⟨⟨visited.mpr rfl, ?_, ?_, ?_, ?_, ?_, ?_⟩, ⟨?_, ?_, ?_⟩, ⟨?_, ?_, ?_, ?_⟩, ⟨?_, ?_, ?_⟩⟩
  · rintro v _
    exact Nat.zero_lt_one
  · rintro v mem plain
    rw [visited.mp mem] at plain
    exact (wf.start_not_plain plain).elim
  · rintro v mem _
    rw [visited.mp mem]
    simp [initial]
  · intro v joined
    have different : v ≠ cfg.start := by
      rintro rfl
      exact wf.start_not_joined joined
    simp [initial, different]
  · intros
    rfl
  · intro v mem
    exact ⟨cfg.start, visited.mpr rfl, rfl, wf.start_not_joined⟩
  · intro v mem _
    rw [visited.mp mem]
    simp [initial]
  · intro v mem _
    exact (visited.mp mem).symm
  · intro v mem
    refine ⟨cfg.start, visited.mpr rfl, rfl, fun child _ joined isStart => ?_⟩
    rw [visited.mp isStart] at joined
    exact wf.start_not_joined joined
  · intro v mem
    rw [visited.mp mem, Cfg.regionType, if_pos rfl]
    rfl
  · intro v mem _
    exact (visited.mp mem).symm
  · intro v mem _
    rw [visited.mp mem, empty _ (noLoop cfg.start)]
    exact List.Perm.refl _
  · intro v mem _
    rw [visited.mp mem, empty _ (wf.mem_parent.not.mpr (noLoop cfg.start))]
    exact List.Perm.refl _
  · intro v _
    exact ⟨.here _, List.nodup_singleton _⟩
  · intro v mem
    exact List.mem_singleton.mpr (visited.mp mem)
  · intro v _ other mem
    exact ⟨mem, rfl⟩

theorem initial_pending (child : V) (only : cfg.children cfg.start = [child]) :
    Pending cfg (initial cfg child) := by
  constructor
  · intro v mem
    refine ⟨cfg.start, List.mem_singleton_self _, ?_⟩
    rw [only]
    exact mem
  · intro v mem other edge
    rw [List.mem_singleton.mp mem, only] at edge
    exact .inr (.inl edge)

/-- Without an edge from a node to itself, the region graph is built and is right. -/
theorem makeRegionGraphFromCfg_correct [Finite V] (wf : cfg.WellFormed)
    (noLoop : ∀ v, v ∉ cfg.children v) :
    ∃ st, Settles (makeRegionGraphFromCfg cfg) st ∧ Correct cfg st := by
  have := Fintype.ofFinite V
  obtain ⟨child, only⟩ := List.length_eq_one_iff.mp wf.start_child
  obtain ⟨final, settles, ⟨owner, trace, inv⟩, pending, empty⟩ :=
    loop_settles wf noLoop _ (initial cfg child) (Nat.le_refl _)
      ⟨_, _, initial_inv wf noLoop child⟩ (initial_pending child only)
  refine ⟨final, Settles.congr (fun bound => ?_) settles,
    inv.correct wf (all_visited wf inv pending empty)⟩
  rw [makeRegionGraphFromCfg, only]
  rfl

/-! ## Two graphs -/

instance (cfg : Cfg V) (first second : V) : Decidable (cfg.Forward first second) :=
  inferInstanceAs (Decidable (_ ∧ ¬ _))

omit [DecidableEq V] in
theorem Cfg.acyclic_of_lt [Preorder V] (increases : ∀ first second, cfg.Forward first second →
    first < second) (v : V) : ¬ Relation.TransGen cfg.Forward v v := by
  intro cycle
  have less : ∀ {second : V}, Relation.TransGen cfg.Forward v second → v < second := by
    intro second path
    induction path with
    | single edge => exact increases _ _ edge
    | tail _ edge ih => exact ih.trans (increases _ _ edge)
  exact lt_irrefl v (less cycle)

/-- A do-while loop of two nodes and the code behind it. -/
def doWhileLoop : Cfg (Fin 4) where
  start := 0
  children := ![[1], [2], [1, 3], []]
  parent := ![[], [0, 2], [1], [2]]
  loops := [1]
  backEdges := [2]

theorem doWhileLoop_wellFormed : doWhileLoop.WellFormed := by
  refine ⟨by decide, by decide, by decide, by decide, ?_, Cfg.acyclic_of_lt (by decide)⟩
  have one : Relation.ReflTransGen doWhileLoop.Forward 0 1 := .single (by decide)
  have two : Relation.ReflTransGen doWhileLoop.Forward 0 2 := one.tail (by decide)
  intro v
  fin_cases v
  · exact .refl
  · exact one
  · exact two
  · exact two.tail (by decide)

theorem makeRegionGraphFromCfg_correct_doWhileLoop :
    ∃ st, Settles (makeRegionGraphFromCfg doWhileLoop) st ∧ Correct doWhileLoop st :=
  makeRegionGraphFromCfg_correct doWhileLoop_wellFormed (by decide)

/-- A loop of one node, which is its header and the end of it. -/
def oneNodeLoop : Cfg (Fin 2) where
  start := 0
  children := ![[1], [1]]
  parent := ![[], [0, 1]]
  loops := [1]
  backEdges := [1]

theorem oneNodeLoop_wellFormed : oneNodeLoop.WellFormed := by
  refine ⟨by decide, by decide, by decide, by decide, ?_, Cfg.acyclic_of_lt (by decide)⟩
  intro v
  fin_cases v
  · exact .refl
  · exact .single (by decide)

/-- The edge of a loop of one node is recorded as its parent's and again as its child's. -/
theorem oneNodeLoop_recorded_twice :
    oneNodeLoop.WellFormed ∧
      ¬ ∃ st, Settles (makeRegionGraphFromCfg oneNodeLoop) st ∧ Correct oneNodeLoop st := by
  refine ⟨oneNodeLoop_wellFormed, ?_⟩
  rintro ⟨st, settles, correct⟩
  obtain ⟨least, gives⟩ := settles
  have runs := gives (least + 2) (Nat.le_add_right _ _)
  have counted : (st.store.get 1).children.count 1 = 2 ∧ st.starts 1 = some 1 := by
    rw [← Option.some.inj runs]
    exact ⟨rfl, rfl⟩
  have edges := (correct.edges 1 1 ⟨1, counted.2⟩ ⟨1, counted.2⟩).1
  rw [counted.1] at edges
  split at edges <;> omega

end OpenCLDecompiler.Regions.Build
