import OpenCLDecompiler.Regions.BuildCorrect

/-!
# The order of the visits

In a graph without loops every node is visited behind its parents, the children
that only one node leads to are visited in the order of its list, and regions
are numbered and linked in the order of the visits.
-/

namespace OpenCLDecompiler.Regions.Build

open Library

variable {V : Type}

structure Cfg.LoopFree (cfg : Cfg V) : Prop where
  loops : cfg.loops = []
  backEdges : cfg.backEdges = []

theorem Cfg.LoopFree.forward {cfg : Cfg V} (free : cfg.LoopFree) {first second : V}
    (edge : second ∈ cfg.children first) : cfg.Forward first second :=
  ⟨edge, fun back => by simp [free.loops] at back⟩

theorem Cfg.LoopFree.noLoop {cfg : Cfg V} (free : cfg.LoopFree) (wf : cfg.WellFormed) (node : V) :
    node ∉ cfg.children node :=
  fun edge => wf.acyclic node (.single (free.forward edge))

/-- The visited nodes in an order in which no child is in front of its parent. -/
structure Topological (cfg : Cfg V) (visited : List V) : Prop where
  closed : ∀ node ∈ visited, ∀ parent ∈ cfg.parent node, parent ∈ visited
  ordered : visited.Pairwise fun earlier later => earlier ∉ cfg.children later

variable [DecidableEq V]

/-- The nodes of a list whose only parent is the given node. -/
def Cfg.only (cfg : Cfg V) (parent : V) (nodes : List V) : List V :=
  nodes.filter fun node => cfg.parent node = [parent]

/-- The children that only one node leads to are taken in the order of its list. -/
def Fifo (cfg : Cfg V) (st : State V) : Prop :=
  ∀ parent, cfg.only parent (st.visited ++ st.queue) =
    if parent ∈ st.visited then cfg.only parent (cfg.children parent) else []

/--
Regions are numbered and entered in lists of children as they are created.  A
node that only one node leads to is not put off, so it has no region before its visit.
-/
structure Numbered (cfg : Cfg V) (st : State V) : Prop where
  fresh : ∀ node, node ∉ st.visited → ∀ parent, cfg.parent node = [parent] → st.starts node = none
  children : ∀ region, (st.store.get region).children.Pairwise (· ≤ ·)
  below : ∀ region, ∀ child ∈ (st.store.get region).children, child < st.store.next
  starts : ∀ node ∈ st.visited, ∀ region, st.starts node = some region → region < st.store.next
  order : st.visited.Pairwise fun earlier later => ∀ first second,
    st.starts earlier = some first → st.starts later = some second → first < second

variable {cfg : Cfg V} {st after : State V} {node : V}

/-! ## One round -/

/-- The lists of children that the edges from parents to one region make longer. -/
structure Links (before after : Store V) (region : RegionId) : Prop where
  next : after.next = before.next
  children : ∀ other, ∃ count,
    (after.get other).children = (before.get other).children ++ List.replicate count region

omit [DecidableEq V] in
theorem Links.refl (store : Store V) (region : RegionId) : Links store store region :=
  ⟨rfl, fun _ => ⟨0, (List.append_nil _).symm⟩⟩

omit [DecidableEq V] in
theorem Links.addEdge {before after : Store V} {region : RegionId}
    (links : Links before after region) (parent : RegionId) :
    Links before (after.addEdge parent region) region := by
  refine ⟨links.next, fun other => ?_⟩
  obtain ⟨count, children⟩ := links.children other
  rw [Store.get_addEdge, children]
  by_cases same : parent = other
  · refine ⟨count + 1, ?_⟩
    rw [if_pos same, List.append_assoc, List.replicate_succ']
  · exact ⟨count, by simp [same]⟩

/-- What a round of a graph without loops does. -/
inductive Moves (cfg : Cfg V) (st after : State V) (node : V) : Prop where
  | old (visited : node ∈ st.visited) (same : after = st)
  | putOff (new : node ∉ st.visited) (several : ∀ parent, cfg.parent node ≠ [parent])
      (same : after = st.begin .basic node)
  | join (new : node ∉ st.visited) (parents : ∀ parent ∈ cfg.parent node, parent ∈ st.visited)
      (single : ∃ parent, cfg.parent node = [parent]) (region : RegionId) (ends : V → Option RegionId)
      (same : after = { st with
        store := st.store.setStop region node
        ends := ends
        visited := st.visited ++ [node]
        queue := st.queue ++ cfg.children node })
  | opens (new : node ∉ st.visited) (parents : ∀ parent ∈ cfg.parent node, parent ∈ st.visited)
      (type : RegionType) (store : Store V) (links : Links (st.begin type node).store store st.store.next)
      (same : after = { st.begin type node with
        store := store
        visited := st.visited ++ [node]
        queue := st.queue ++ cfg.children node })

omit [DecidableEq V] in
/-- No child of a node that is not visited is visited. -/
theorem Topological.children_new (topological : Topological cfg st.visited) (wf : cfg.WellFormed)
    (noLoop : node ∉ cfg.children node) (new : node ∉ st.visited) {child : V}
    (edge : child ∈ cfg.children node) : child ∉ st.visited ++ [node] := by
  rintro present
  rcases List.mem_append.mp present with old | same
  · exact new (topological.closed child old node (wf.mem_parent.mpr edge))
  · rw [List.mem_singleton.mp same] at edge
    exact noLoop edge

theorem visitChildren_new (region : RegionId)
    (new : ∀ child ∈ cfg.children node, child ∉ st.visited) :
    visitChildren cfg st node region =
      some { st with queue := st.queue ++ cfg.children node } := by
  rw [visitChildren_spec cfg st node region (fun _ => 0)
    fun child edge present => (new child edge present).elim]
  have none : (cfg.children node).filter (· ∈ st.visited) = [] := by
    rw [List.filter_eq_nil_iff]
    rintro child edge
    simpa using new child edge
  have all : (cfg.children node).filter (· ∉ st.visited) = cfg.children node := by
    rw [List.filter_eq_self]
    rintro child edge
    simpa using new child edge
  rw [none, all]
  rfl

theorem linkParents_links {region : RegionId} (runs : linkParents cfg st node region = some after) :
    ∃ store, Links st.store store region ∧ after = { st with store := store } := by
  unfold linkParents at runs
  generalize (cfg.parent node).filter (· ∈ st.visited) = parents at runs
  have folds (values : List V) (store final : Store V) (links : Links st.store store region)
      (folded : values.foldlM
        (fun store parent => (parentRegion cfg st node parent).map (store.addEdge · region)) store =
          some final) : Links st.store final region := by
    induction values generalizing store with
    | nil =>
        cases folded
        exact links
    | cons parent rest ih =>
        rw [List.foldlM_cons] at folded
        cases found : parentRegion cfg st node parent with
        | none => simp [found] at folded
        | some owner =>
            rw [found] at folded
            exact ih _ (links.addEdge owner) folded
  obtain ⟨final, folded, same⟩ := Option.bind_eq_some_iff.mp runs
  exact ⟨final, folds parents st.store final (.refl _ _) folded, (Option.some.inj same).symm⟩

theorem step_moves (wf : cfg.WellFormed) (free : cfg.LoopFree)
    (topological : Topological cfg st.visited)
    (queued : ∃ parent ∈ st.visited, node ∈ cfg.children parent)
    (runs : step cfg st node = some after) : Moves cfg st after node := by
  have noLoop := free.noLoop wf node
  unfold step at runs
  by_cases old : node ∈ st.visited
  · rw [if_pos old] at runs
    exact .old old (Option.some.inj runs).symm
  have noHeader : ¬ (node ∈ cfg.loops ∨ node ∈ cfg.backEdges) := by
    simp [free.loops, free.backEdges]
  have new {child : V} (edge : child ∈ cfg.children node) : child ∉ st.visited ++ [node] :=
    topological.children_new wf noLoop old edge
  rw [if_neg old] at runs
  dsimp only at runs
  rw [if_neg noHeader] at runs
  obtain ⟨source, isVisited, edge⟩ := queued
  have isParent : source ∈ cfg.parent node := wf.mem_parent.mpr edge
  by_cases single : cfg.single node
  · rw [if_pos single] at runs
    obtain ⟨parent, only⟩ := List.length_eq_one_iff.mp ((Cfg.single_iff node).mp single).1
    have parents : ∀ parent ∈ cfg.parent node, parent ∈ st.visited := by
      rintro other link
      rw [only, List.mem_singleton] at link isParent
      rwa [link, ← isParent]
    simp only [only, List.head?_cons, Option.bind_eq_bind, Option.bind_some] at runs
    obtain ⟨before, -, runs⟩ := Option.bind_eq_some_iff.mp runs
    split at runs
    · rw [visitChildren_new before fun child edge => new edge] at runs
      exact .join old parents ⟨parent, only⟩ before _ (Option.some.inj runs).symm
    · obtain ⟨owner, -, runs⟩ := Option.bind_eq_some_iff.mp runs
      rw [visitChildren_new st.store.next fun child edge => new edge] at runs
      exact .opens old parents .linear _ ((Links.refl _ _).addEdge owner)
        (Option.some.inj runs).symm
  · rw [if_neg single] at runs
    split at runs
    · rename_i waits
      have back : (st.visited ++ [node]).erase node = st.visited := by
        rw [List.erase_append_right _ old, List.erase_cons_head, List.append_nil]
      refine .putOff old ?_ ?_
      · rintro parent only
        obtain ⟨other, link, waits⟩ := List.any_eq_true.mp waits
        rw [only, List.mem_singleton] at link isParent
        subst link isParent
        simp [State.begin, isVisited] at waits
      · rw [← Option.some.inj runs, State.begin, State.begin]
        simp only [back]
    · rename_i ready
      have parents : ∀ parent ∈ cfg.parent node, parent ∈ st.visited := by
        rintro parent link
        by_contra absent
        have different : parent ≠ node := by
          rintro rfl
          exact noLoop (wf.mem_parent.mp link)
        refine ready (List.any_eq_true.mpr ⟨parent, link, ?_⟩)
        simp [State.begin, absent, different, free.loops]
      obtain ⟨linked, linking, runs⟩ := Option.bind_eq_some_iff.mp runs
      obtain ⟨store, links, rfl⟩ := linkParents_links linking
      rw [visitChildren_new st.store.next fun child edge => new edge] at runs
      exact .opens old parents .basic store links (Option.some.inj runs).symm

/-! ## What a round keeps -/

omit [DecidableEq V] in
theorem Topological.snoc (topological : Topological cfg st.visited) (wf : cfg.WellFormed)
    (new : node ∉ st.visited) (parents : ∀ parent ∈ cfg.parent node, parent ∈ st.visited) :
    Topological cfg (st.visited ++ [node]) := by
  constructor
  case closed =>
    rintro v mem parent link
    refine List.mem_append_left _ ?_
    rcases List.mem_append.mp mem with old | same
    · exact topological.closed v old parent link
    · rw [List.mem_singleton.mp same] at link
      exact parents parent link
  case ordered =>
    rw [List.pairwise_append]
    refine ⟨topological.ordered, List.pairwise_singleton _ _, ?_⟩
    rintro earlier old later same edge
    rw [List.mem_singleton.mp same] at edge
    exact new (topological.closed earlier old node (wf.mem_parent.mpr edge))

theorem Moves.topological (moves : Moves cfg st after node) (wf : cfg.WellFormed)
    (topological : Topological cfg st.visited) : Topological cfg after.visited := by
  cases moves with
  | old visited same => rwa [same]
  | putOff new several same =>
      rw [same]
      exact topological
  | join new parents single region ends same =>
      rw [same]
      exact topological.snoc wf new parents
  | opens new parents type store links same =>
      rw [same]
      exact topological.snoc wf new parents

theorem Cfg.only_append (cfg : Cfg V) (parent : V) (left right : List V) :
    cfg.only parent (left ++ right) = cfg.only parent left ++ cfg.only parent right :=
  List.filter_append ..

/-- Only the children of a node have it as their only parent. -/
theorem Cfg.WellFormed.only_children (wf : cfg.WellFormed) {parent : V} (other : parent ≠ node) :
    cfg.only parent (cfg.children node) = [] := by
  rw [Cfg.only, List.filter_eq_nil_iff]
  rintro child edge isOnly
  have link := wf.mem_parent.mpr edge
  rw [of_decide_eq_true isOnly, List.mem_singleton] at link
  exact other link.symm

theorem Fifo.visit (fifo : Fifo cfg st) (wf : cfg.WellFormed) {rest : List V}
    (queue : st.queue = node :: rest) (new : node ∉ st.visited)
    (visited : after.visited = st.visited ++ [node])
    (pushed : after.queue = rest ++ cfg.children node) : Fifo cfg after := by
  rintro parent
  have before := fifo parent
  have same : after.visited ++ after.queue = (st.visited ++ st.queue) ++ cfg.children node := by
    rw [visited, pushed, queue]
    simp
  rw [same, Cfg.only_append, before, visited]
  by_cases isNode : parent = node
  · subst isNode
    rw [if_neg new, if_pos (List.mem_append_right _ (List.mem_singleton_self _)), List.nil_append]
  · rw [wf.only_children isNode, List.append_nil]
    simp [isNode]

/-- A node that leaves the queue without a visit has several parents, or was visited before. -/
theorem Fifo.drop (fifo : Fifo cfg st) {rest : List V} (queue : st.queue = node :: rest)
    (absent : ∀ parent, node ∉ cfg.only parent [node])
    (visited : after.visited = st.visited) (kept : after.queue = rest) : Fifo cfg after := by
  rintro parent
  have before := fifo parent
  have none : cfg.only parent [node] = [] := by
    rw [List.eq_nil_iff_forall_not_mem]
    rintro v mem
    have same : v = node := List.mem_singleton.mp (List.mem_of_mem_filter mem)
    exact absent parent (same ▸ mem)
  rw [queue, ← List.singleton_append, ← List.append_assoc, Cfg.only_append, Cfg.only_append, none,
    List.append_nil, ← Cfg.only_append] at before
  rw [visited, kept, before]

theorem Fifo.old (fifo : Fifo cfg st) (wf : cfg.WellFormed) {rest : List V}
    (queue : st.queue = node :: rest) (visited : node ∈ st.visited) (parent : V) :
    node ∉ cfg.only parent [node] := by
  rintro mem
  have before := fifo parent
  have twice : 2 ≤ (cfg.only parent (st.visited ++ st.queue)).count node := by
    have one : 1 ≤ (cfg.only parent st.visited).count node := by
      rw [List.one_le_count_iff]
      exact List.mem_filter.mpr ⟨visited, (List.mem_filter.mp mem).2⟩
    have two : 1 ≤ (cfg.only parent st.queue).count node := by
      rw [List.one_le_count_iff, queue]
      exact List.mem_filter.mpr ⟨List.mem_cons_self, (List.mem_filter.mp mem).2⟩
    rw [Cfg.only_append, List.count_append]
    omega
  have once : (cfg.only parent (st.visited ++ st.queue)).count node ≤ 1 := by
    rw [before]
    split
    · exact List.nodup_iff_count_le_one.mp ((wf.nodup_children parent).filter _) node
    · simp
  omega

theorem Moves.fifo {rest : List V} (moves : Moves cfg { st with queue := rest } after node)
    (wf : cfg.WellFormed) (queue : st.queue = node :: rest) (fifo : Fifo cfg st) :
    Fifo cfg after := by
  cases moves with
  | old visited same =>
      rw [same]
      exact fifo.drop queue (fifo.old wf queue visited) rfl rfl
  | putOff new several same =>
      rw [same]
      refine fifo.drop queue ?_ rfl rfl
      rintro parent mem
      exact several parent (of_decide_eq_true (List.mem_filter.mp mem).2)
  | join new parents single region ends same =>
      rw [same]
      exact fifo.visit wf queue new rfl rfl
  | opens new parents type store links same =>
      rw [same]
      exact fifo.visit wf queue new rfl rfl

theorem State.starts_begin (new : node ∉ st.visited) {old : V} (mem : old ∈ st.visited)
    (type : RegionType) : (st.begin type node).starts old = st.starts old := by
  have different : old ≠ node := by
    rintro rfl
    exact new mem
  exact Function.update_of_ne different _ _

/-- A new region has the highest number, and does not change the lists of the others. -/
theorem Numbered.begin (numbered : Numbered cfg st) (new : node ∉ st.visited) (type : RegionType)
    (several : ∀ parent, cfg.parent node ≠ [parent]) : Numbered cfg (st.begin type node) := by
  have starts {old : V} (mem : old ∈ st.visited) : (st.begin type node).starts old = st.starts old :=
    State.starts_begin new mem type
  constructor
  case fresh =>
    rintro v absent parent only
    have different : v ≠ node := by
      rintro rfl
      exact several parent only
    exact (Function.update_of_ne different _ _).trans (numbered.fresh v absent parent only)
  case children =>
    rintro region
    rw [State.begin, Store.get_newRegion]
    split
    · exact List.Pairwise.nil
    · exact numbered.children region
  case below =>
    rintro region child inside
    rw [State.begin, Store.get_newRegion] at inside
    split at inside
    · cases inside
    · exact Nat.lt_succ_of_lt (numbered.below region child inside)
  case starts =>
    rintro old mem region isStart
    rw [starts mem] at isStart
    exact Nat.lt_succ_of_lt (numbered.starts old mem region isStart)
  case order =>
    refine numbered.order.imp_of_mem ?_
    rintro earlier later mem mem' less first second isFirst isSecond
    rw [starts mem] at isFirst
    rw [starts mem'] at isSecond
    exact less first second isFirst isSecond

omit [DecidableEq V] in
/-- A node is put behind a region, without a region of its own. -/
theorem Numbered.join (numbered : Numbered cfg st) (new : node ∉ st.visited)
    (single : ∃ parent, cfg.parent node = [parent]) (region : RegionId) (ends : V → Option RegionId)
    (queue : List V) :
    Numbered cfg ⟨st.store.setStop region node, st.starts, ends, st.visited ++ [node], queue⟩ := by
  have same (other : RegionId) :
      ((st.store.setStop region node).get other).children = (st.store.get other).children := by
    rw [Store.get_setStop]
    split <;> rfl
  obtain ⟨parent, only⟩ := single
  have none : st.starts node = none := numbered.fresh node new parent only
  constructor
  case fresh => exact fun v absent => numbered.fresh v (absent ∘ List.mem_append_left _)
  case children =>
    rintro other
    rw [same]
    exact numbered.children other
  case below =>
    rintro other child inside
    rw [same] at inside
    exact numbered.below other child inside
  case starts =>
    rintro v mem other isStart
    rcases List.mem_append.mp mem with old | isNode
    · exact numbered.starts v old other isStart
    · rw [List.mem_singleton.mp isNode, none] at isStart
      cases isStart
  case order =>
    refine List.pairwise_append.mpr ⟨numbered.order, List.pairwise_singleton _ _, ?_⟩
    rintro earlier old later isNode first second isFirst isSecond
    rw [List.mem_singleton.mp isNode, none] at isSecond
    cases isSecond

/-- A node is visited with a region of its own, which goes to the end of lists of children. -/
theorem Numbered.opens (numbered : Numbered cfg st) (new : node ∉ st.visited) (type : RegionType)
    {store : Store V} (links : Links (st.begin type node).store store st.store.next)
    (queue : List V) :
    Numbered cfg ⟨store, (st.begin type node).starts, (st.begin type node).ends,
      st.visited ++ [node], queue⟩ := by
  have starts {old : V} (mem : old ∈ st.visited) : (st.begin type node).starts old = st.starts old :=
    State.starts_begin new mem type
  have isNext : (st.begin type node).starts node = some st.store.next := by simp [State.begin]
  have next : store.next = st.store.next + 1 := links.next
  have lists (other : RegionId) : ∃ count, (store.get other).children =
      (if other = st.store.next then [] else (st.store.get other).children) ++
        List.replicate count st.store.next := by
    obtain ⟨count, children⟩ := links.children other
    refine ⟨count, ?_⟩
    rw [children, State.begin, Store.get_newRegion]
    split <;> rfl
  have below (other : RegionId) : ∀ child ∈
      (if other = st.store.next then [] else (st.store.get other).children), child < st.store.next := by
    split
    · simp
    · exact numbered.below other
  constructor
  case fresh =>
    rintro v absent parent only
    simp only [List.mem_append, List.mem_singleton, not_or] at absent
    exact (Function.update_of_ne absent.2 _ _).trans (numbered.fresh v absent.1 parent only)
  case children =>
    rintro other
    obtain ⟨count, children⟩ := lists other
    rw [children, List.pairwise_append]
    refine ⟨?_, List.pairwise_replicate.mpr (.inr (Nat.le_refl _)), ?_⟩
    · split
      · exact List.Pairwise.nil
      · exact numbered.children other
    · rintro child old last isLast
      rw [List.eq_of_mem_replicate isLast]
      exact Nat.le_of_lt (below other child old)
  case below =>
    rintro other child inside
    obtain ⟨count, children⟩ := lists other
    rw [children, List.mem_append] at inside
    rw [next]
    rcases inside with old | isLast
    · exact Nat.lt_succ_of_lt (below other child old)
    · rw [List.eq_of_mem_replicate isLast]
      exact Nat.lt_succ_self _
  case starts =>
    rintro v mem other isStart
    rw [next]
    rcases List.mem_append.mp mem with old | isNode
    · rw [starts old] at isStart
      exact Nat.lt_succ_of_lt (numbered.starts v old other isStart)
    · rw [List.mem_singleton.mp isNode, isNext] at isStart
      cases isStart
      exact Nat.lt_succ_self _
  case order =>
    refine List.pairwise_append.mpr ⟨?_, List.pairwise_singleton _ _, ?_⟩
    · refine numbered.order.imp_of_mem ?_
      rintro earlier later mem mem' less first second isFirst isSecond
      rw [starts mem] at isFirst
      rw [starts mem'] at isSecond
      exact less first second isFirst isSecond
    · rintro earlier old later isNode first second isFirst isSecond
      rw [starts old] at isFirst
      rw [List.mem_singleton.mp isNode, isNext] at isSecond
      cases isSecond
      exact numbered.starts earlier old first isFirst

theorem Moves.numbered (moves : Moves cfg st after node) (numbered : Numbered cfg st) :
    Numbered cfg after := by
  cases moves with
  | old visited same => rwa [same]
  | putOff new several same =>
      rw [same]
      exact numbered.begin new .basic several
  | join new parents single region ends same =>
      rw [same]
      exact numbered.join new single region ends _
  | opens new parents type store links same =>
      rw [same]
      exact numbered.opens new type links _

/-! ## The whole run -/

structure Orderly (cfg : Cfg V) (st : State V) : Prop where
  topological : Topological cfg st.visited
  fifo : Fifo cfg st
  numbered : Numbered cfg st

theorem loop_orderly (wf : cfg.WellFormed) (free : cfg.LoopFree) {bound : Nat} {final : State V}
    (runs : loop cfg bound st = some final) (inv : ∃ owner trace, Inv cfg st owner trace)
    (pending : Pending cfg st) (orderly : Orderly cfg st) : Orderly cfg final := by
  induction bound generalizing st with
  | zero => cases runs
  | succ bound ih =>
      rw [loop] at runs
      cases queue : st.queue with
      | nil =>
          rw [queue] at runs
          cases runs
          exact orderly
      | cons node rest =>
          rw [queue] at runs
          obtain ⟨owner, trace, inv⟩ := inv
          have queued := pending.queued node (by rw [queue]; exact List.mem_cons_self)
          have taken : Inv cfg { st with queue := rest } owner trace :=
            ⟨⟨inv.start, inv.live, inv.plainParent, inv.starts, inv.joinedStarts, inv.joinedOwner,
              inv.hasHead⟩, ⟨inv.ends, inv.stop, inv.hasLast⟩,
              ⟨inv.type, inv.head, inv.children, inv.parent⟩, ⟨inv.nodes, inv.onTrace, inv.owned⟩⟩
          obtain ⟨after, steps, next, round⟩ := step_spec wf (free.noLoop wf node) taken queued
          have topological : Topological cfg ({ st with queue := rest } : State V).visited :=
            orderly.topological
          have moves := step_moves wf free topological queued steps
          dsimp only at runs
          rw [steps, Option.bind_some] at runs
          refine ih runs next (pending.round wf queue round) ⟨moves.topological wf topological,
            moves.fifo wf queue orderly.fifo, moves.numbered ?_⟩
          have numbered := orderly.numbered
          exact ⟨numbered.fresh, numbered.children, numbered.below, numbered.starts, numbered.order⟩

theorem initial_orderly (wf : cfg.WellFormed) (free : cfg.LoopFree) {child : V}
    (only : cfg.children cfg.start = [child]) : Orderly cfg (initial cfg child) := by
  have noParent : cfg.parent cfg.start = [] := by
    rw [List.eq_nil_iff_forall_not_mem]
    rintro parent link
    have back := (wf.start_loop (wf.mem_parent.mp link)).2
    simp [free.loops] at back
  have isStart {v : V} (mem : v ∈ (initial cfg child).visited) : v = cfg.start :=
    List.mem_singleton.mp mem
  refine ⟨⟨?_, List.pairwise_singleton _ _⟩, ?_, ⟨?_, ?_, ?_, ?_, List.pairwise_singleton _ _⟩⟩
  · rintro v mem parent link
    rw [isStart mem, noParent] at link
    cases link
  · rintro parent
    have start : cfg.only parent [cfg.start] = [] := by simp [Cfg.only, noParent]
    change cfg.only parent ([cfg.start] ++ [child]) = _
    rw [Cfg.only_append, start, List.nil_append, ← only]
    split
    · rename_i isVisited
      rw [isStart isVisited]
    · rename_i absent
      exact wf.only_children fun same => absent (List.mem_singleton.mpr same)
  · rintro v absent parent _
    have different : v ≠ cfg.start := fun same => absent (List.mem_singleton.mpr same)
    simp [initial, different]
  · rintro region
    exact List.Pairwise.nil
  · rintro region child inside
    cases inside
  · rintro v mem region isRegion
    rw [isStart mem] at isRegion
    have isFirst : region = 0 := by simpa [initial] using isRegion.symm
    rw [isFirst]
    exact Nat.zero_lt_one

/-- The state at the end of a run over a graph without loops. -/
structure Finished (cfg : Cfg V) (st : State V) (owner : V → RegionId)
    (trace : RegionId → List V) : Prop where
  wf : cfg.WellFormed
  free : cfg.LoopFree
  inv : Inv cfg st owner trace
  all : ∀ node, node ∈ st.visited
  orderly : Orderly cfg st
  queue : st.queue = []

theorem makeRegionGraphFromCfg_finished [Finite V] (wf : cfg.WellFormed) (free : cfg.LoopFree) :
    ∃ st owner trace, Settles (makeRegionGraphFromCfg cfg) st ∧ Finished cfg st owner trace := by
  have := Fintype.ofFinite V
  obtain ⟨child, only⟩ := List.length_eq_one_iff.mp wf.start_child
  have begins : ∃ owner trace, Inv cfg (initial cfg child) owner trace :=
    ⟨_, _, initial_inv wf (free.noLoop wf) child⟩
  have pending := initial_pending child only
  obtain ⟨final, settles, ⟨owner, trace, inv⟩, isPending, empty⟩ :=
    loop_settles wf (free.noLoop wf) _ (initial cfg child) (Nat.le_refl _) begins pending
  refine ⟨final, owner, trace, Settles.congr (fun bound => ?_) settles, wf, free, inv,
    all_visited wf inv isPending empty, ?_, empty⟩
  · rw [makeRegionGraphFromCfg, only]
    rfl
  · obtain ⟨bound, gives⟩ := settles
    exact loop_orderly wf free (gives bound (Nat.le_refl _)) begins pending
      (initial_orderly wf free only)

/-! ## The order of the children -/

theorem pairwise_idxOf {α : Type} [DecidableEq α] {R : α → α → Prop} {values : List α}
    (pairwise : values.Pairwise R) {first second : α} (mem : second ∈ values)
    (less : values.idxOf first < values.idxOf second) : R first second := by
  have bound := List.idxOf_lt_length_of_mem mem
  have related := List.pairwise_iff_getElem.mp pairwise _ _ (less.trans bound) bound less
  rwa [List.getElem_idxOf, List.getElem_idxOf] at related

namespace Finished

variable {owner : V → RegionId} {trace : RegionId → List V} (finished : Finished cfg st owner trace)

include finished

/-- Nodes are visited in the order of the edges. -/
theorem idxOf_lt {first second : V} (path : Relation.TransGen cfg.Forward first second) :
    st.visited.idxOf first < st.visited.idxOf second := by
  have one {first second : V} (edge : cfg.Forward first second) :
      st.visited.idxOf first < st.visited.idxOf second := by
    rcases Nat.lt_trichotomy (st.visited.idxOf first) (st.visited.idxOf second) with
      less | same | more
    · exact less
    · rw [List.idxOf_inj (finished.all first)] at same
      exact (finished.wf.acyclic first (.single (same ▸ edge))).elim
    · have ordered := pairwise_idxOf finished.orderly.topological.ordered (finished.all first) more
      exact (ordered edge.1).elim
  induction path with
  | single edge => exact one edge
  | tail _ edge ih => exact ih.trans (one edge)

theorem owner_lt {first second : V} (head : ¬ cfg.Joined first) (head' : ¬ cfg.Joined second)
    (less : st.visited.idxOf first < st.visited.idxOf second) : owner first < owner second :=
  pairwise_idxOf finished.orderly.numbered.order (finished.all second) less _ _
    (finished.inv.starts first (finished.all first) head)
    (finished.inv.starts second (finished.all second) head')

/-- The children of a region are in the order of the visits. -/
theorem children_pair {node first second : V} (last : Last cfg st node)
    (children : cfg.children node = [first, second])
    (head : ¬ cfg.Joined first) (head' : ¬ cfg.Joined second)
    (less : st.visited.idxOf first < st.visited.idxOf second) :
    (st.store.get (owner node)).children = [owner first, owner second] := by
  have below := finished.owner_lt head head' less
  have perm := finished.inv.children node (finished.all node) last
  have whole : (cfg.children node).filter (· ∈ st.visited) = [first, second] := by
    rw [children, List.filter_eq_self]
    rintro v _
    simpa using finished.all v
  rw [whole] at perm
  refine perm.eq_of_pairwise (fun _ _ _ _ => Nat.le_antisymm)
    (finished.orderly.numbered.children _) ?_
  simpa using Nat.le_of_lt below

/-- Two children that only one node leads to are visited in the order of its list. -/
theorem own_children_lt {node first second : V} (children : cfg.children node = [first, second])
    (only : cfg.parent first = [node]) (only' : cfg.parent second = [node]) :
    st.visited.idxOf first < st.visited.idxOf second := by
  have fifo := finished.orderly.fifo node
  rw [finished.queue, List.append_nil, if_pos (finished.all node), children] at fifo
  have both : cfg.only node [first, second] = [first, second] := by simp [Cfg.only, only, only']
  rw [both] at fifo
  have different : second ≠ first := by
    have nodup := finished.wf.nodup_children node
    rw [children] at nodup
    rintro rfl
    simp at nodup
  have later : (cfg.only node st.visited).Pairwise fun _ v => v ≠ first := by
    rw [fifo]
    simpa using different
  rcases Nat.lt_trichotomy (st.visited.idxOf first) (st.visited.idxOf second) with less | same | more
  · exact less
  · rw [List.idxOf_inj (finished.all first)] at same
    exact (different same.symm).elim
  · have behind := pairwise_idxOf (List.pairwise_filter.mp later) (finished.all first) more
    exact (behind (by simpa using only') (by simpa using only) rfl).elim

end Finished

end OpenCLDecompiler.Regions.Build
