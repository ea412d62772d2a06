import OpenCLDecompiler.Regions.BuildInvariant

/-!
# One round of the worklist

A visited node gets a region of its own or is put behind the region of its
parent; both keep the invariant.
-/

namespace OpenCLDecompiler.Regions.Build

open Library

variable {V : Type} [DecidableEq V] {cfg : Cfg V} {st after : State V} {owner : V → RegionId}
  {trace : RegionId → List V} {node : V}

/-! ## A visited node -/

/-- The node is visited now. -/
structure Enters (cfg : Cfg V) (st after : State V) (node : V) : Prop where
  wf : cfg.WellFormed
  noLoop : node ∉ cfg.children node
  new : node ∉ st.visited
  parents : cfg.Plain node → ∀ parent ∈ cfg.parent node, parent ∈ st.visited
  visited : after.visited = st.visited ++ [node]

namespace Enters

omit [DecidableEq V] in
theorem either (enters : Enters cfg st after node) {v : V} (mem : v ∈ after.visited) :
    v ∈ st.visited ∨ v = node := by
  rwa [enters.visited, List.mem_append, List.mem_singleton] at mem

omit [DecidableEq V] in
theorem kept (enters : Enters cfg st after node) {v : V} (mem : v ∈ st.visited) :
    v ∈ after.visited := by
  rw [enters.visited]
  exact List.mem_append_left _ mem

omit [DecidableEq V] in
theorem ne (enters : Enters cfg st after node) {old : V} (mem : old ∈ st.visited) :
    old ≠ node := by
  rintro rfl
  exact enters.new mem

theorem owner_old (enters : Enters cfg st after node) {region : RegionId} {old : V} (mem : old ∈ st.visited) :
    Function.update owner node region old = owner old :=
  Function.update_of_ne (enters.ne mem) _ _

omit [DecidableEq V] in
theorem last_of_after (enters : Enters cfg st after node) {v : V}
    (last : Last cfg after v) : Last cfg st v :=
  fun child mem joined old => last child mem joined (enters.kept old)

/-- No node behind the new one is visited. -/
theorem last_new (enters : Enters cfg st after node) (inv : Inv cfg st owner trace) :
    Last cfg after node := by
  intro child mem joined old
  rcases enters.either old with old | rfl
  · exact inv.head_of_parent enters.wf enters.new mem old joined
  · exact enters.noLoop mem

theorem plainParent (enters : Enters cfg st after node) (inv : Inv cfg st owner trace) :
    ∀ v ∈ after.visited, cfg.Plain v → ∀ parent ∈ cfg.parent v, parent ∈ after.visited := by
  intro v mem plain parent edge
  rcases enters.either mem with old | rfl
  · exact enters.kept (inv.plainParent v old plain parent edge)
  · exact enters.kept (enters.parents plain parent edge)

/-- The visited children of the node itself. -/
theorem children_new (enters : Enters cfg st after node) (region : RegionId) :
    (((cfg.children node).filter (· ∈ st.visited)).map owner).Perm
      (((cfg.children node).filter (· ∈ after.visited)).map
        (Function.update owner node region)) := by
  have more := Inv.perm_owners (enters.wf.nodup_children node) enters.new region
    (List.Perm.refl (((cfg.children node).filter (· ∈ st.visited)).map owner))
  rwa [if_neg enters.noLoop, List.append_nil, ← enters.visited] at more

theorem parent_new (enters : Enters cfg st after node) (region : RegionId) :
    (((cfg.parent node).filter (· ∈ st.visited)).map owner).Perm
      (((cfg.parent node).filter (· ∈ after.visited)).map
        (Function.update owner node region)) := by
  have more := Inv.perm_owners (enters.wf.nodup_parent node) enters.new region
    (List.Perm.refl (((cfg.parent node).filter (· ∈ st.visited)).map owner))
  rwa [if_neg (enters.wf.mem_parent.not.mpr enters.noLoop), List.append_nil,
    ← enters.visited] at more

end Enters

/-! ## A region of its own -/

structure Opens (cfg : Cfg V) (st after : State V) (owner : V → RegionId) (node : V) : Prop
    extends Enters cfg st after node where
  head : ¬ cfg.Joined node
  starts : after.starts = Function.update st.starts node (some st.store.next)
  ends : after.ends = Function.update st.ends node (some st.store.next)
  store : after.store = (st.store.newRegion (cfg.regionType node) node).addEdges
    (Inv.inEdges cfg st owner node st.store.next ++
      Inv.outEdges cfg st owner node st.store.next)

namespace Opens

theorem owner_ne (inv : Inv cfg st owner trace) {old : V} (mem : old ∈ st.visited) :
    owner old ≠ st.store.next :=
  Nat.ne_of_lt (inv.live old mem)

theorem get_old (opens : Opens cfg st after owner node) (inv : Inv cfg st owner trace) {old : V}
    (mem : old ∈ st.visited) :
    after.store.get (owner old) =
      { st.store.get (owner old) with
        parent := (st.store.get (owner old)).parent ++
          ((Inv.outEdges cfg st owner node st.store.next).filter fun edge =>
            edge.2 = owner old).map Prod.fst
        children := (st.store.get (owner old)).children ++
          ((Inv.inEdges cfg st owner node st.store.next).filter fun edge =>
            edge.1 = owner old).map Prod.snd } := by
  have other := owner_ne inv mem
  rw [opens.store, Store.get_addEdges, Store.get_newRegion, if_neg other, List.filter_append,
    List.filter_append, Inv.inEdges_parent_ne other.symm, Inv.outEdges_children_ne other.symm,
    List.nil_append, List.append_nil]

theorem get_new (opens : Opens cfg st after owner node) (inv : Inv cfg st owner trace) :
    after.store.get st.store.next =
      ⟨cfg.regionType node, node, node, ((cfg.parent node).filter (· ∈ st.visited)).map owner,
        ((cfg.children node).filter (· ∈ st.visited)).map owner⟩ := by
  have apart : ∀ old ∈ st.visited, owner old ≠ st.store.next := fun _ => owner_ne inv
  rw [opens.store, Store.get_addEdges, Store.get_newRegion, if_pos rfl, List.filter_append,
    List.filter_append, Inv.outEdges_parent_ne apart, Inv.inEdges_children_ne apart]
  simp only [List.append_nil, List.nil_append, Inv.inEdges_parent_self,
    Inv.outEdges_children_self]

theorem last_old (opens : Opens cfg st after owner node) {old : V} (last : Last cfg st old) :
    Last cfg after old := by
  intro child mem joined present
  rcases opens.either present with present | rfl
  · exact last child mem joined present
  · exact opens.head joined

theorem owned (opens : Opens cfg st after owner node) (inv : Inv cfg st owner trace) :
    Owned cfg after (Function.update owner node st.store.next) where
  start := opens.kept inv.start
  live := by
    intro v mem
    have next : after.store.next = st.store.next + 1 := by
      rw [opens.store, Store.next_addEdges]
      rfl
    rw [next]
    rcases opens.either mem with old | rfl
    · rw [opens.owner_old old]
      exact Nat.lt_succ_of_lt (inv.live v old)
    · rw [Function.update_self]
      exact Nat.lt_succ_self _
  plainParent := opens.plainParent inv
  starts := by
    intro v mem head
    rw [opens.starts]
    rcases opens.either mem with old | rfl
    · rw [Function.update_of_ne (opens.ne old), opens.owner_old old, inv.starts v old head]
    · rw [Function.update_self, Function.update_self]
  joinedStarts := by
    intro v joined
    have apart : v ≠ node := by
      rintro rfl
      exact opens.head joined
    rw [opens.starts, Function.update_of_ne apart, inv.joinedStarts v joined]
  joinedOwner := by
    intro v mem joined parent edge
    rcases opens.either mem with old | rfl
    · have oldParent := inv.plainParent v old joined.1 parent edge
      rw [opens.owner_old old, opens.owner_old oldParent, inv.joinedOwner v old joined parent edge]
    · exact (opens.head joined).elim
  hasHead := by
    intro v mem
    rcases opens.either mem with old | rfl
    · obtain ⟨head, inside, same, isHead⟩ := inv.hasHead v old
      refine ⟨head, opens.kept inside, ?_, isHead⟩
      rw [opens.owner_old inside, opens.owner_old old, same]
    · exact ⟨v, mem, rfl, opens.head⟩

theorem ended (opens : Opens cfg st after owner node) (inv : Inv cfg st owner trace) :
    Ended cfg after (Function.update owner node st.store.next) where
  ends := by
    intro v mem last
    rw [opens.ends]
    rcases opens.either mem with old | rfl
    · rw [Function.update_of_ne (opens.ne old), opens.owner_old old,
        inv.ends v old (opens.last_of_after last)]
    · rw [Function.update_self, Function.update_self]
  stop := by
    intro v mem last
    rcases opens.either mem with old | rfl
    · rw [opens.owner_old old, opens.get_old inv old]
      exact inv.stop v old (opens.last_of_after last)
    · rw [Function.update_self, opens.get_new inv]
  hasLast := by
    intro v mem
    rcases opens.either mem with old | rfl
    · obtain ⟨last, inside, same, isLast⟩ := inv.hasLast v old
      refine ⟨last, opens.kept inside, ?_, opens.last_old isLast⟩
      rw [opens.owner_old inside, opens.owner_old old, same]
    · exact ⟨v, mem, rfl, opens.last_new inv⟩

theorem linked (opens : Opens cfg st after owner node) (inv : Inv cfg st owner trace) :
    Linked cfg after (Function.update owner node st.store.next) where
  type := by
    intro v mem
    rcases opens.either mem with old | rfl
    · rw [opens.owner_old old, opens.get_old inv old]
      exact inv.type v old
    · rw [Function.update_self, opens.get_new inv]
  head := by
    intro v mem head
    rcases opens.either mem with old | rfl
    · rw [opens.owner_old old, opens.get_old inv old]
      exact inv.head v old head
    · rw [Function.update_self, opens.get_new inv]
  children := by
    intro v mem last
    rcases opens.either mem with old | rfl
    · have isLast := opens.last_of_after last
      rw [opens.owner_old old, opens.get_old inv old, opens.visited]
      dsimp only
      rw [Inv.inEdges_children inv opens.wf opens.new old isLast]
      exact Inv.perm_owners (opens.wf.nodup_children v) opens.new _ (inv.children v old isLast)
    · rw [Function.update_self, opens.get_new inv]
      exact opens.children_new _
  parent := by
    intro v mem head
    rcases opens.either mem with old | rfl
    · rw [opens.owner_old old, opens.get_old inv old, opens.visited]
      dsimp only
      rw [Inv.outEdges_parent inv opens.wf opens.new old head]
      exact Inv.perm_owners (opens.wf.nodup_parent v) opens.new _ (inv.parent v old head)
    · rw [Function.update_self, opens.get_new inv]
      exact opens.parent_new _

theorem traced (opens : Opens cfg st after owner node) (inv : Inv cfg st owner trace) :
    Traced cfg after (Function.update owner node st.store.next)
      (Function.update trace st.store.next [node]) where
  nodes := by
    intro v mem
    rcases opens.either mem with old | rfl
    · rw [opens.owner_old old, Function.update_of_ne (owner_ne inv old), State.Nodes,
        opens.get_old inv old]
      exact inv.nodes v old
    · rw [Function.update_self, Function.update_self, State.Nodes, opens.get_new inv]
      exact ⟨.here v, List.nodup_singleton v⟩
  onTrace := by
    intro v mem
    rcases opens.either mem with old | rfl
    · rw [opens.owner_old old, Function.update_of_ne (owner_ne inv old)]
      exact inv.onTrace v old
    · rw [Function.update_self, Function.update_self]
      exact List.mem_singleton_self v
  owned := by
    intro v mem other onTrace
    rcases opens.either mem with old | rfl
    · rw [opens.owner_old old, Function.update_of_ne (owner_ne inv old)] at onTrace
      obtain ⟨inside, same⟩ := inv.owned v old other onTrace
      refine ⟨opens.kept inside, ?_⟩
      rw [opens.owner_old inside, opens.owner_old old, same]
    · rw [Function.update_self, Function.update_self, List.mem_singleton] at onTrace
      subst onTrace
      exact ⟨mem, rfl⟩

theorem inv (opens : Opens cfg st after owner node) (inv : Inv cfg st owner trace) :
    Inv cfg after (Function.update owner node st.store.next)
      (Function.update trace st.store.next [node]) :=
  ⟨opens.owned inv, opens.ended inv, opens.linked inv, opens.traced inv⟩

end Opens

/-! ## Behind the region of the parent -/

structure Joins (cfg : Cfg V) (st after : State V) (owner : V → RegionId) (node parent : V) : Prop
    extends Enters cfg st after node where
  joined : cfg.Joined node
  parent_eq : cfg.parent node = [parent]
  before : parent ∈ st.visited
  starts : after.starts = st.starts
  ends : after.ends =
    Function.update (Function.update st.ends parent none) node (some (owner parent))
  store : after.store = (st.store.setStop (owner parent) node).addEdges
    (Inv.outEdges cfg st owner node (owner parent))

namespace Joins

variable {parent : V}

theorem only_child (joins : Joins cfg st after owner node parent) : cfg.children parent = [node] := by
  have edge : parent ∈ cfg.parent node := by simp [joins.parent_eq]
  exact joins.wf.linear_children (joins.joined.2 parent edge) (joins.wf.mem_parent.mp edge)

theorem child_iff (joins : Joins cfg st after owner node parent) (v : V) :
    node ∈ cfg.children v ↔ v = parent := by
  rw [← joins.wf.mem_parent, joins.parent_eq, List.mem_singleton]

theorem parent_last (joins : Joins cfg st after owner node parent) : Last cfg st parent :=
  Inv.last_of_child joins.wf joins.new ((joins.child_iff parent).mpr rfl)

theorem ne_parent (joins : Joins cfg st after owner node parent) {v : V} (last : Last cfg after v) :
    v ≠ parent := by
  rintro rfl
  apply last node ((joins.child_iff v).mpr rfl) joins.joined
  rw [joins.visited]
  exact List.mem_append_right _ (List.mem_singleton_self node)

/-- Another end is the end of another region. -/
theorem owner_ne (joins : Joins cfg st after owner node parent) (inv : Inv cfg st owner trace)
    {v : V} (mem : v ∈ st.visited) (last : Last cfg after v) : owner v ≠ owner parent := by
  intro same
  exact joins.ne_parent last
    (inv.last_inj mem (joins.last_of_after last) joins.before joins.parent_last same)

theorem get (joins : Joins cfg st after owner node parent) (region : RegionId) :
    after.store.get region =
      { st.store.get region with
        stop := if region = owner parent then node else (st.store.get region).stop
        parent := (st.store.get region).parent ++
          ((Inv.outEdges cfg st owner node (owner parent)).filter fun edge =>
            edge.2 = region).map Prod.fst
        children := (st.store.get region).children ++
          ((Inv.outEdges cfg st owner node (owner parent)).filter fun edge =>
            edge.1 = region).map Prod.snd } := by
  rw [joins.store, Store.get_addEdges, Store.get_setStop]
  by_cases same : region = owner parent <;> simp [same]

theorem last_old (joins : Joins cfg st after owner node parent) {v : V} (last : Last cfg st v)
    (other : v ≠ parent) : Last cfg after v := by
  intro child mem joined present
  rcases joins.either present with present | rfl
  · exact last child mem joined present
  · exact other ((joins.child_iff v).mp mem)

theorem owned (joins : Joins cfg st after owner node parent) (inv : Inv cfg st owner trace) :
    Owned cfg after (Function.update owner node (owner parent)) where
  start := joins.kept inv.start
  live := by
    intro v mem
    have next : after.store.next = st.store.next := by
      rw [joins.store, Store.next_addEdges]
      rfl
    rw [next]
    rcases joins.either mem with old | rfl
    · rw [joins.owner_old old]
      exact inv.live v old
    · rw [Function.update_self]
      exact inv.live parent joins.before
  plainParent := joins.plainParent inv
  starts := by
    intro v mem head
    rw [joins.starts]
    rcases joins.either mem with old | rfl
    · rw [joins.owner_old old, inv.starts v old head]
    · exact (head joins.joined).elim
  joinedStarts := by
    intro v joined
    rw [joins.starts, inv.joinedStarts v joined]
  joinedOwner := by
    intro v mem joined other edge
    rcases joins.either mem with old | rfl
    · have oldParent := inv.plainParent v old joined.1 other edge
      rw [joins.owner_old old, joins.owner_old oldParent, inv.joinedOwner v old joined other edge]
    · rw [joins.parent_eq, List.mem_singleton] at edge
      rw [edge, Function.update_self, joins.owner_old joins.before]
  hasHead := by
    intro v mem
    have heads (old : V) (visited : old ∈ st.visited) : ∃ head ∈ after.visited,
        Function.update owner node (owner parent) head = owner old ∧ ¬ cfg.Joined head := by
      obtain ⟨head, inside, same, isHead⟩ := inv.hasHead old visited
      exact ⟨head, joins.kept inside, by rw [joins.owner_old inside, same], isHead⟩
    rcases joins.either mem with old | rfl
    · rw [joins.owner_old old]
      exact heads v old
    · rw [Function.update_self]
      exact heads parent joins.before

theorem ended (joins : Joins cfg st after owner node parent) (inv : Inv cfg st owner trace) :
    Ended cfg after (Function.update owner node (owner parent)) where
  ends := by
    intro v mem last
    rw [joins.ends]
    rcases joins.either mem with old | rfl
    · rw [Function.update_of_ne (joins.ne old), Function.update_of_ne (joins.ne_parent last),
        joins.owner_old old, inv.ends v old (joins.last_of_after last)]
    · rw [Function.update_self, Function.update_self]
  stop := by
    intro v mem last
    rw [joins.get]
    rcases joins.either mem with old | rfl
    · rw [joins.owner_old old]
      dsimp only
      rw [if_neg (joins.owner_ne inv old last)]
      exact inv.stop v old (joins.last_of_after last)
    · rw [Function.update_self]
      exact if_pos rfl
  hasLast := by
    intro v mem
    have own : ∃ last ∈ after.visited,
        Function.update owner node (owner parent) last = owner parent ∧ Last cfg after last := by
      refine ⟨node, ?_, Function.update_self _ _ _, joins.last_new inv⟩
      rw [joins.visited]
      exact List.mem_append_right _ (List.mem_singleton_self node)
    rcases joins.either mem with old | rfl
    · rw [joins.owner_old old]
      by_cases here : owner v = owner parent
      · rwa [here]
      · obtain ⟨last, inside, same, isLast⟩ := inv.hasLast v old
        have other : last ≠ parent := by
          rintro rfl
          exact here same.symm
        exact ⟨last, joins.kept inside, by rw [joins.owner_old inside, same],
          joins.last_old isLast other⟩
    · rwa [Function.update_self]

theorem linked (joins : Joins cfg st after owner node parent) (inv : Inv cfg st owner trace) :
    Linked cfg after (Function.update owner node (owner parent)) where
  type := by
    intro v mem
    rw [joins.get]
    rcases joins.either mem with old | rfl
    · rw [joins.owner_old old]
      exact inv.type v old
    · rw [Function.update_self]
      have edge : parent ∈ cfg.parent v := by simp [joins.parent_eq]
      rw [(Cfg.regionType_eq_linear_iff v).mpr (.inr joins.joined.1),
        ← (Cfg.regionType_eq_linear_iff parent).mpr (joins.joined.2 parent edge)]
      exact inv.type parent joins.before
  head := by
    intro v mem head
    rw [joins.get]
    rcases joins.either mem with old | rfl
    · rw [joins.owner_old old]
      exact inv.head v old head
    · exact (head joins.joined).elim
  children := by
    intro v mem last
    rw [joins.get]
    dsimp only
    rcases joins.either mem with old | rfl
    · have other : node ∉ cfg.children v := fun edge =>
        joins.ne_parent last ((joins.child_iff v).mp edge)
      have kept := Inv.perm_owners (joins.wf.nodup_children v) joins.new (owner parent)
        (inv.children v old (joins.last_of_after last))
      rw [if_neg other, ← joins.visited] at kept
      rw [joins.owner_old old, Inv.outEdges_children_ne (joins.owner_ne inv old last).symm]
      exact kept
    · have none := inv.children parent joins.before joins.parent_last
      rw [joins.only_child, List.filter_cons_of_neg (by simpa using joins.new), List.filter_nil,
        List.map_nil, List.perm_nil] at none
      rw [Function.update_self, none, Inv.outEdges_children_self, List.nil_append]
      exact joins.children_new _
  parent := by
    intro v mem head
    rw [joins.get]
    dsimp only
    rcases joins.either mem with old | rfl
    · rw [joins.owner_old old, Inv.outEdges_parent inv joins.wf joins.new old head, joins.visited]
      exact Inv.perm_owners (joins.wf.nodup_parent v) joins.new _ (inv.parent v old head)
    · exact (head joins.joined).elim

theorem traced (joins : Joins cfg st after owner node parent) (inv : Inv cfg st owner trace) :
    Traced cfg after (Function.update owner node (owner parent))
      (Function.update trace (owner parent) (trace (owner parent) ++ [node])) where
  nodes := by
    intro v mem
    have longer : State.Nodes cfg after (owner parent) (trace (owner parent) ++ [node]) := by
      obtain ⟨segment, nodup⟩ := inv.nodes parent joins.before
      rw [inv.stop parent joins.before joins.parent_last] at segment
      rw [State.Nodes, joins.get]
      dsimp only
      rw [if_pos rfl]
      constructor
      · apply segment.append
        · rw [Cfg.next, joins.only_child, List.head?_cons]
        · exact .here node
      · refine List.nodup_append.mpr ⟨nodup, List.nodup_singleton node, ?_⟩
        rintro v onTrace other single rfl
        rw [List.mem_singleton] at single
        exact joins.new (single ▸ (inv.owned parent joins.before v onTrace).1)
    rcases joins.either mem with old | rfl
    · rw [joins.owner_old old]
      by_cases here : owner v = owner parent
      · rw [here, Function.update_self]
        exact longer
      · rw [Function.update_of_ne here, State.Nodes, joins.get]
        dsimp only
        rw [if_neg here]
        exact inv.nodes v old
    · rw [Function.update_self, Function.update_self]
      exact longer
  onTrace := by
    intro v mem
    rcases joins.either mem with old | rfl
    · rw [joins.owner_old old]
      by_cases here : owner v = owner parent
      · rw [here, Function.update_self]
        exact List.mem_append_left _ (here ▸ inv.onTrace v old)
      · rw [Function.update_of_ne here]
        exact inv.onTrace v old
    · rw [Function.update_self, Function.update_self]
      exact List.mem_append_right _ (List.mem_singleton_self v)
  owned := by
    intro v mem other onTrace
    have grown (onTrace : other ∈ trace (owner parent) ++ [node]) :
        other ∈ after.visited ∧
          Function.update owner node (owner parent) other = owner parent := by
      rcases List.mem_append.mp onTrace with old | new
      · obtain ⟨inside, same⟩ := inv.owned parent joins.before other old
        exact ⟨joins.kept inside, by rw [joins.owner_old inside, same]⟩
      · rw [List.mem_singleton.mp new, Function.update_self, joins.visited]
        exact ⟨List.mem_append_right _ (List.mem_singleton_self node), rfl⟩
    rcases joins.either mem with old | rfl
    · rw [joins.owner_old old] at onTrace ⊢
      by_cases here : owner v = owner parent
      · rw [here, Function.update_self] at onTrace
        rw [here]
        exact grown onTrace
      · rw [Function.update_of_ne here] at onTrace
        obtain ⟨inside, same⟩ := inv.owned v old other onTrace
        exact ⟨joins.kept inside, by rw [joins.owner_old inside, same]⟩
    · rw [Function.update_self, Function.update_self] at onTrace
      rw [Function.update_self]
      exact grown onTrace

theorem inv (joins : Joins cfg st after owner node parent) (inv : Inv cfg st owner trace) :
    Inv cfg after (Function.update owner node (owner parent))
      (Function.update trace (owner parent) (trace (owner parent) ++ [node])) :=
  ⟨joins.owned inv, joins.ended inv, joins.linked inv, joins.traced inv⟩

end Joins

end OpenCLDecompiler.Regions.Build
