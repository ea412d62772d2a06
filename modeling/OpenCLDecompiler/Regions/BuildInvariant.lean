import Mathlib.Data.List.Perm.Basic
import Mathlib.Data.List.Nodup
import OpenCLDecompiler.Regions.Build

/-!
# Regions under construction

What holds whenever the worklist takes the next node: every visited node has an
owner, and the lists of a region have one entry for each edge between visited
nodes.
-/

namespace OpenCLDecompiler.Regions.Build

open Library

variable {V : Type}

/-! ## Edges between regions -/

namespace Store

def addEdges (store : Store V) (edges : List (RegionId × RegionId)) : Store V :=
  edges.foldl (fun store edge => store.addEdge edge.1 edge.2) store

@[simp] theorem next_addEdge (store : Store V) (parent child : RegionId) :
    (store.addEdge parent child).next = store.next := rfl

theorem get_addEdge (store : Store V) (parent child region : RegionId) :
    (store.addEdge parent child).get region =
      { store.get region with
        parent := (store.get region).parent ++ if child = region then [parent] else []
        children := (store.get region).children ++ if parent = region then [child] else [] } := by
  simp only [addEdge, addParent, addChild, modify]
  by_cases isChild : child = region
  · subst isChild
    by_cases isParent : parent = child
    · subst isParent
      simp
    · simp [isParent, Function.update_of_ne (Ne.symm isParent)]
  · by_cases isParent : parent = region
    · subst isParent
      simp [isChild, Function.update_of_ne (Ne.symm isChild)]
    · simp [isChild, isParent, Function.update_of_ne (Ne.symm isChild),
        Function.update_of_ne (Ne.symm isParent)]

@[simp] theorem next_addEdges (store : Store V) (edges : List (RegionId × RegionId)) :
    (store.addEdges edges).next = store.next := by
  induction edges generalizing store with
  | nil => rfl
  | cons edge rest ih => exact ih (store.addEdge edge.1 edge.2)

theorem get_addEdges (store : Store V) (edges : List (RegionId × RegionId)) (region : RegionId) :
    (store.addEdges edges).get region =
      { store.get region with
        parent := (store.get region).parent ++
          (edges.filter fun edge => edge.2 = region).map Prod.fst
        children := (store.get region).children ++
          (edges.filter fun edge => edge.1 = region).map Prod.snd } := by
  induction edges generalizing store with
  | nil => simp [addEdges]
  | cons edge rest ih =>
      rw [addEdges, List.foldl_cons, ← addEdges, ih, get_addEdge]
      by_cases isChild : edge.2 = region <;> by_cases isParent : edge.1 = region <;>
        simp [isChild, isParent]

theorem get_newRegion (store : Store V) (type : RegionType) (node : V) (region : RegionId) :
    (store.newRegion type node).get region =
      if region = store.next then ⟨type, node, node, [], []⟩ else store.get region :=
  Function.update_apply _ _ _ _

theorem get_setStop (store : Store V) (changed region : RegionId) (node : V) :
    (store.setStop changed node).get region =
      if region = changed then { store.get region with stop := node } else store.get region := by
  rw [setStop, modify]
  by_cases same : region = changed
  · subst same
    simp
  · simp [same]

end Store

/-- The entries that a list of edges adds to one region. -/
theorem map_filter_eq_of_inj {α : Type} [DecidableEq α] (values : List α) (nodup : values.Nodup)
    (key : α → RegionId) (one : α) (entry : RegionId)
    (inj : ∀ value ∈ values, key value = key one → value = one) :
    (values.filter fun value => key value = key one).map (fun _ => entry) =
      if one ∈ values then [entry] else [] := by
  induction values with
  | nil => rfl
  | cons value rest ih =>
      have unique := List.nodup_cons.mp nodup
      have tail := ih unique.2 fun other mem => inj other (List.mem_cons_of_mem _ mem)
      by_cases same : value = one
      · subst same
        rw [if_neg unique.1, List.map_eq_nil_iff] at tail
        simp [tail]
      · have other : key value ≠ key one := fun equal => same (inj value List.mem_cons_self equal)
        rw [List.filter_cons_of_neg (by simpa using other), tail]
        simp [Ne.symm same]

/-- One more visited node in a list of neighbours. -/
theorem filter_append_perm {α : Type} [DecidableEq α] (values visited : List α)
    (nodup : values.Nodup) {node : α} (fresh : node ∉ visited) :
    (values.filter (· ∈ visited ++ [node])).Perm
      (values.filter (· ∈ visited) ++ if node ∈ values then [node] else []) := by
  induction values with
  | nil => exact List.Perm.refl _
  | cons value rest ih =>
      have unique := List.nodup_cons.mp nodup
      have tail := ih unique.2
      by_cases same : value = node
      · subst same
        have gone : rest.filter (· ∈ visited ++ [value]) = rest.filter (· ∈ visited) := by
          apply List.filter_congr
          intro other mem
          have different : other ≠ value := fun equal => unique.1 (equal ▸ mem)
          simp [different]
        rw [List.filter_cons_of_pos (by simp), List.filter_cons_of_neg (by simpa using fresh), gone,
          if_pos List.mem_cons_self]
        exact List.perm_append_singleton _ _ |>.symm
      · have still : node ∈ value :: rest ↔ node ∈ rest := by simp [Ne.symm same]
        by_cases old : value ∈ visited
        · rw [List.filter_cons_of_pos (by simp [old]), List.filter_cons_of_pos (by simpa using old)]
          simp only [still]
          exact List.Perm.cons _ tail
        · rw [List.filter_cons_of_neg (by simp [old, same]),
            List.filter_cons_of_neg (by simpa using old)]
          simpa only [still] using tail

/-! ## Linear regions -/

namespace Cfg

variable (cfg : Cfg V)

/-- A node whose region is linear. -/
def Linear (node : V) : Prop := node = cfg.start ∨ cfg.Plain node

/-- A node that is put behind the region of its parent. -/
def Joined (node : V) : Prop := cfg.Plain node ∧ ∀ parent ∈ cfg.parent node, cfg.Linear parent

variable {cfg}

theorem single_iff (node : V) :
    cfg.single node = true ↔ (cfg.parent node).length = 1 ∧ (cfg.children node).length ≤ 1 := by
  simp [single]

theorem Plain.parent_eq {node : V} (plain : cfg.Plain node) : ∃ parent, cfg.parent node = [parent] :=
  List.length_eq_one_iff.mp plain.2.2.1

theorem WellFormed.mem_parent (wf : cfg.WellFormed) {first second : V} :
    first ∈ cfg.parent second ↔ second ∈ cfg.children first :=
  (wf.consistent first second).symm

/-- Only edges that lead back lead to the start. -/
theorem WellFormed.start_loop (wf : cfg.WellFormed) {node : V}
    (edge : cfg.start ∈ cfg.children node) : node ∈ cfg.backEdges ∧ cfg.start ∈ cfg.loops := by
  by_contra other
  exact wf.acyclic cfg.start (Relation.TransGen.tail' (wf.reachable node) ⟨edge, other⟩)

theorem WellFormed.start_not_plain (wf : cfg.WellFormed) : ¬ cfg.Plain cfg.start := by
  intro plain
  obtain ⟨parent, only⟩ := plain.parent_eq
  have edge : cfg.start ∈ cfg.children parent := wf.mem_parent.mp (by simp [only])
  exact plain.1 (wf.start_loop edge).2

theorem WellFormed.start_not_joined (wf : cfg.WellFormed) : ¬ cfg.Joined cfg.start :=
  fun joined => wf.start_not_plain joined.1

theorem WellFormed.linear_children (wf : cfg.WellFormed) {node child : V}
    (linear : cfg.Linear node) (edge : child ∈ cfg.children node) : cfg.children node = [child] := by
  have short : (cfg.children node).length ≤ 1 := by
    rcases linear with rfl | plain
    · exact Nat.le_of_eq wf.start_child
    · exact plain.2.2.2
  cases all : cfg.children node with
  | nil => simp [all] at edge
  | cons first rest =>
      rw [all, List.length_cons] at short
      have none : rest = [] := List.length_eq_zero_iff.mp (by omega)
      rw [all, none, List.mem_singleton] at edge
      rw [edge, none]

theorem regionType_eq_linear_iff [DecidableEq V] (node : V) :
    cfg.regionType node = .linear ↔ cfg.Linear node := by
  unfold regionType Linear
  by_cases first : node = cfg.start
  · simp [first]
  · simp only [first, if_false, false_or, Plain]
    by_cases loops : node ∈ cfg.loops
    · simp [loops]
    · by_cases back : node ∈ cfg.backEdges
      · simp [loops, back]
      · by_cases single : cfg.single node
        · simp [loops, back, single, (single_iff node).mp single]
        · have many := (single_iff node).not.mp single
          simpa [loops, back, single] using many

end Cfg

/-! ## The invariant -/

variable [DecidableEq V]

/-- No visited node has been put behind the node. -/
def Last (cfg : Cfg V) (st : State V) (node : V) : Prop :=
  ∀ child ∈ cfg.children node, cfg.Joined child → child ∉ st.visited

/-- Every visited node has a region, which its start and only its start is entered with. -/
structure Owned (cfg : Cfg V) (st : State V) (owner : V → RegionId) : Prop where
  start : cfg.start ∈ st.visited
  live : ∀ node ∈ st.visited, owner node < st.store.next
  plainParent : ∀ node ∈ st.visited, cfg.Plain node →
    ∀ parent ∈ cfg.parent node, parent ∈ st.visited
  starts : ∀ node ∈ st.visited, ¬ cfg.Joined node → st.starts node = some (owner node)
  joinedStarts : ∀ node, cfg.Joined node → st.starts node = none
  joinedOwner : ∀ node ∈ st.visited, cfg.Joined node →
    ∀ parent ∈ cfg.parent node, owner node = owner parent
  hasHead : ∀ node ∈ st.visited, ∃ head ∈ st.visited, owner head = owner node ∧ ¬ cfg.Joined head

/-- A region is known at its end. -/
structure Ended (cfg : Cfg V) (st : State V) (owner : V → RegionId) : Prop where
  ends : ∀ node ∈ st.visited, Last cfg st node → st.ends node = some (owner node)
  stop : ∀ node ∈ st.visited, Last cfg st node → (st.store.get (owner node)).stop = node
  hasLast : ∀ node ∈ st.visited, ∃ last ∈ st.visited, owner last = owner node ∧ Last cfg st last

/-- The lists of a region have one entry for each edge at its end and at its start. -/
structure Linked (cfg : Cfg V) (st : State V) (owner : V → RegionId) : Prop where
  type : ∀ node ∈ st.visited, (st.store.get (owner node)).type = cfg.regionType node
  head : ∀ node ∈ st.visited, ¬ cfg.Joined node → (st.store.get (owner node)).start = node
  children : ∀ node ∈ st.visited, Last cfg st node →
    (st.store.get (owner node)).children.Perm
      (((cfg.children node).filter (· ∈ st.visited)).map owner)
  parent : ∀ node ∈ st.visited, ¬ cfg.Joined node →
    (st.store.get (owner node)).parent.Perm
      (((cfg.parent node).filter (· ∈ st.visited)).map owner)

/-- The nodes of a region are those that it owns. -/
structure Traced (cfg : Cfg V) (st : State V) (owner : V → RegionId)
    (trace : RegionId → List V) : Prop where
  nodes : ∀ node ∈ st.visited, st.Nodes cfg (owner node) (trace (owner node))
  onTrace : ∀ node ∈ st.visited, node ∈ trace (owner node)
  owned : ∀ node ∈ st.visited, ∀ other ∈ trace (owner node),
    other ∈ st.visited ∧ owner other = owner node

structure Inv (cfg : Cfg V) (st : State V) (owner : V → RegionId)
    (trace : RegionId → List V) : Prop extends
  Owned cfg st owner, Ended cfg st owner, Linked cfg st owner, Traced cfg st owner trace

namespace Inv

variable {cfg : Cfg V} {st : State V} {owner : V → RegionId} {trace : RegionId → List V}

/-- Two starts of a region are one. -/
theorem head_inj (inv : Inv cfg st owner trace) {first second : V} (mem : first ∈ st.visited)
    (head : ¬ cfg.Joined first) (mem' : second ∈ st.visited) (head' : ¬ cfg.Joined second)
    (same : owner first = owner second) : first = second := by
  rw [← inv.head first mem head, ← inv.head second mem' head', same]

/-- Two ends of a region are one. -/
theorem last_inj (inv : Inv cfg st owner trace) {first second : V} (mem : first ∈ st.visited)
    (last : Last cfg st first) (mem' : second ∈ st.visited) (last' : Last cfg st second)
    (same : owner first = owner second) : first = second := by
  rw [← inv.stop first mem last, ← inv.stop second mem' last', same]

omit [DecidableEq V] in
/-- A parent of a node that is not visited ends its region. -/
theorem last_of_child (wf : cfg.WellFormed) {node parent : V} (fresh : node ∉ st.visited)
    (edge : node ∈ cfg.children parent) : Last cfg st parent := by
  intro child mem joined visited
  have linear := joined.2 parent (wf.mem_parent.mpr mem)
  rw [wf.linear_children linear edge, List.mem_singleton] at mem
  exact fresh (mem ▸ visited)

/-- A visited child of a node that is not visited starts a region. -/
theorem head_of_parent (inv : Inv cfg st owner trace) (wf : cfg.WellFormed) {node child : V}
    (fresh : node ∉ st.visited) (edge : child ∈ cfg.children node) (visited : child ∈ st.visited) :
    ¬ cfg.Joined child :=
  fun joined => fresh (inv.plainParent child visited joined.1 node (wf.mem_parent.mpr edge))

/-! ## The edges of a node -/

/-- The edges from the visited parents of a node to a region. -/
def inEdges (cfg : Cfg V) (st : State V) (owner : V → RegionId) (node : V) (region : RegionId) :
    List (RegionId × RegionId) :=
  ((cfg.parent node).filter (· ∈ st.visited)).map fun parent => (owner parent, region)

/-- The edges from a region to the visited children of a node. -/
def outEdges (cfg : Cfg V) (st : State V) (owner : V → RegionId) (node : V) (region : RegionId) :
    List (RegionId × RegionId) :=
  ((cfg.children node).filter (· ∈ st.visited)).map fun child => (region, owner child)

section Edges

variable {node : V} {region : RegionId}

theorem filter_map_const {α β : Type} (values : List α) (f : α → RegionId × RegionId)
    (key : RegionId × RegionId → RegionId) (pick : RegionId × RegionId → β) (region : RegionId) :
    ((values.map f).filter fun edge => key edge = region).map pick =
      (values.filter fun value => key (f value) = region).map (pick ∘ f) := by
  rw [List.filter_map, List.map_map]
  rfl

theorem inEdges_children (inv : Inv cfg st owner trace) (wf : cfg.WellFormed)
    (fresh : node ∉ st.visited) {other : V} (visited : other ∈ st.visited)
    (last : Last cfg st other) :
    ((inEdges cfg st owner node region).filter fun edge => edge.1 = owner other).map Prod.snd =
      if node ∈ cfg.children other then [region] else [] := by
  rw [inEdges, filter_map_const _ _ Prod.fst]
  have entries := map_filter_eq_of_inj ((cfg.parent node).filter (· ∈ st.visited))
    ((wf.nodup_parent node).filter _) owner other region ?_
  · refine entries.trans ?_
    simp [visited, wf.mem_parent]
  · intro parent mem same
    obtain ⟨edge, old⟩ := List.mem_filter.mp mem
    have old : parent ∈ st.visited := by simpa using old
    exact inv.last_inj old (last_of_child wf fresh (wf.mem_parent.mp edge)) visited last same

theorem outEdges_parent (inv : Inv cfg st owner trace) (wf : cfg.WellFormed)
    (fresh : node ∉ st.visited) {other : V} (visited : other ∈ st.visited)
    (head : ¬ cfg.Joined other) :
    ((outEdges cfg st owner node region).filter fun edge => edge.2 = owner other).map Prod.fst =
      if node ∈ cfg.parent other then [region] else [] := by
  rw [outEdges, filter_map_const _ _ Prod.snd]
  have entries := map_filter_eq_of_inj ((cfg.children node).filter (· ∈ st.visited))
    ((wf.nodup_children node).filter _) owner other region ?_
  · refine entries.trans ?_
    simp [visited, wf.mem_parent]
  · intro child mem same
    obtain ⟨edge, old⟩ := List.mem_filter.mp mem
    have old : child ∈ st.visited := by simpa using old
    exact inv.head_inj old (inv.head_of_parent wf fresh edge old) visited head same

theorem inEdges_parent_ne {other : RegionId} (different : region ≠ other) :
    ((inEdges cfg st owner node region).filter fun edge => edge.2 = other) = [] := by
  simp [inEdges, List.filter_map, Function.comp_def, different]

theorem outEdges_children_ne {other : RegionId} (different : region ≠ other) :
    ((outEdges cfg st owner node region).filter fun edge => edge.1 = other) = [] := by
  simp [outEdges, List.filter_map, Function.comp_def, different]

theorem inEdges_parent_self :
    ((inEdges cfg st owner node region).filter fun edge => edge.2 = region).map Prod.fst =
      ((cfg.parent node).filter (· ∈ st.visited)).map owner := by
  simp [inEdges, List.filter_map, Function.comp_def]

theorem outEdges_children_self :
    ((outEdges cfg st owner node region).filter fun edge => edge.1 = region).map Prod.snd =
      ((cfg.children node).filter (· ∈ st.visited)).map owner := by
  simp [outEdges, List.filter_map, Function.comp_def]

theorem inEdges_children_ne {other : RegionId} (different : ∀ old ∈ st.visited, owner old ≠ other) :
    ((inEdges cfg st owner node region).filter fun edge => edge.1 = other) = [] := by
  rw [inEdges, List.filter_map, List.map_eq_nil_iff, List.filter_eq_nil_iff]
  intro parent mem
  have old : parent ∈ st.visited := by simpa using (List.mem_filter.mp mem).2
  simpa using different parent old

theorem outEdges_parent_ne {other : RegionId} (different : ∀ old ∈ st.visited, owner old ≠ other) :
    ((outEdges cfg st owner node region).filter fun edge => edge.2 = other) = [] := by
  rw [outEdges, List.filter_map, List.map_eq_nil_iff, List.filter_eq_nil_iff]
  intro child mem
  have old : child ∈ st.visited := by simpa using (List.mem_filter.mp mem).2
  simpa using different child old

end Edges

/-- The owners of the visited neighbours when one more node is visited. -/
theorem perm_owners {values : List V} {entries : List RegionId} {visited : List V}
    (nodup : values.Nodup) {node : V} (fresh : node ∉ visited) (region : RegionId)
    (perm : entries.Perm ((values.filter (· ∈ visited)).map owner)) :
    (entries ++ if node ∈ values then [region] else []).Perm
      ((values.filter (· ∈ visited ++ [node])).map (Function.update owner node region)) := by
  have more := (filter_append_perm values visited nodup fresh).map
    (Function.update owner node region)
  have same : (values.filter (· ∈ visited)).map (Function.update owner node region) =
      (values.filter (· ∈ visited)).map owner := by
    apply List.map_congr_left
    intro other mem
    have old : other ∈ visited := by simpa using (List.mem_filter.mp mem).2
    have different : other ≠ node := fun equal => fresh (equal ▸ old)
    exact Function.update_of_ne different _ _
  rw [List.map_append, same] at more
  refine List.Perm.trans ?_ more.symm
  refine List.Perm.append perm (List.Perm.of_eq ?_)
  split
  · simp
  · rfl

end Inv

end OpenCLDecompiler.Regions.Build
