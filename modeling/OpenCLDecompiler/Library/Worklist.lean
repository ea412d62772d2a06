import Mathlib.Algebra.BigOperators.Group.Finset.Basic
import Mathlib.Data.Finset.SDiff
import Mathlib.Logic.Relation
import OpenCLDecompiler.Library.Settles

/-!
# Worklists

A queue of nodes that are visited once.  A node with several parents waits until they
have been visited, unless it is a free one; a node that waits leaves the queue and comes
back with the next parent.
-/

namespace OpenCLDecompiler.Library

/-- The graph of a worklist, in which edges are known at both ends. -/
structure Worklist (ι : Type) where
  start : ι
  children : ι → List ι
  parents : ι → List ι
  free : ι → Bool
  mutual_edges source node : source ∈ parents node ↔ node ∈ children source

/-- The nodes that have been visited in order, and the ones that are offered. -/
@[ext]
structure Progress (ι : Type) where
  visited : List ι
  queue : List ι

namespace Worklist

variable {ι σ : Type} [DecidableEq ι] (graph : Worklist ι)

/-- The first child of the start is offered first. -/
def initial : Progress ι := ⟨[graph.start], (graph.children graph.start).take 1⟩

/-- The node has several parents, one of which has not been visited. -/
def Waits (visited : List ι) (node : ι) : Prop :=
  2 ≤ (graph.parents node).length ∧ graph.free node = false ∧
    ∃ parent ∈ graph.parents node, parent ∉ visited ++ [node]

instance (visited : List ι) (node : ι) : Decidable (graph.Waits visited node) := by
  unfold Waits
  infer_instance

/-- What happens to the first node of the queue. -/
def turn : Progress ι → Progress ι
  | ⟨visited, []⟩ => ⟨visited, []⟩
  | ⟨visited, node :: queue⟩ =>
      if node ∈ visited ∨ graph.Waits visited node then ⟨visited, queue⟩
      else ⟨visited ++ [node],
        queue ++ (graph.children node).filter (· ∉ visited ++ [node])⟩

/-- The nodes that have been visited when the queue is empty. -/
def drain : Nat → Progress ι → Option (List ι)
  | 0, _ => none
  | _ + 1, ⟨visited, []⟩ => some visited
  | bound + 1, ⟨visited, node :: queue⟩ => drain bound (graph.turn ⟨visited, node :: queue⟩)

/-- The progress is met on the way. -/
inductive Reached : Progress ι → Prop where
  | initial : Reached graph.initial
  | turn {progress : Progress ι} (before : Reached progress) : Reached (graph.turn progress)

/-- The nodes that a visited node offers. -/
def offers (source : ι) : List ι :=
  if source = graph.start then (graph.children source).take 1 else graph.children source

/-- There is a path from the start. -/
def Reachable (node : ι) : Prop :=
  Relation.ReflTransGen (fun source target => target ∈ graph.children source) graph.start node

variable {graph}

theorem offers_subset {source node : ι} (offered : node ∈ graph.offers source) :
    node ∈ graph.children source := by
  unfold offers at offered
  split at offered
  · exact List.mem_of_mem_take offered
  · exact offered

/-! ## The invariant -/

/-- The node was offered by a node in front of it and did not wait. -/
def Ready (graph : Worklist ι) (front : List ι) (node : ι) : Prop :=
  (∃ source ∈ front, node ∈ graph.offers source) ∧ ¬graph.Waits front node

structure Sound (graph : Worklist ι) (progress : Progress ι) : Prop where
  started : progress.visited.head? = some graph.start
  once : progress.visited.Nodup
  ready : ∀ front node back, progress.visited = front ++ node :: back → node ≠ graph.start →
    Ready graph front node
  queued : ∀ node ∈ progress.queue, ∃ source ∈ progress.visited, node ∈ graph.offers source
  offered : ∀ source ∈ progress.visited, ∀ node ∈ graph.offers source,
    node ∈ progress.visited ∨ node ∈ progress.queue ∨ graph.Waits progress.visited node

theorem sound_initial : Sound graph graph.initial where
  started := rfl
  once := List.nodup_singleton _
  ready front node back same other := by
    cases front with
    | nil => exact absurd (List.cons.inj same).1.symm other
    | cons first front => cases front <;> cases (List.cons.inj same).2
  queued node member := ⟨graph.start, List.mem_singleton_self _, by
    rw [offers, if_pos rfl]
    exact member⟩
  offered source member node offered := by
    rw [List.mem_singleton.mp member, offers, if_pos rfl] at offered
    exact .inr (.inl offered)

section Turn

variable {visited queue : List ι} {node : ι}

theorem turn_skip (skip : node ∈ visited ∨ graph.Waits visited node) :
    graph.turn ⟨visited, node :: queue⟩ = ⟨visited, queue⟩ := by
  rw [turn, if_pos skip]

theorem turn_visit (visit : ¬(node ∈ visited ∨ graph.Waits visited node)) :
    graph.turn ⟨visited, node :: queue⟩ = ⟨visited ++ [node],
      queue ++ (graph.children node).filter (· ∉ visited ++ [node])⟩ := by
  rw [turn, if_neg visit]

theorem Sound.skip (sound : Sound graph ⟨visited, node :: queue⟩)
    (skip : node ∈ visited ∨ graph.Waits visited node) : Sound graph ⟨visited, queue⟩ where
  started := sound.started
  once := sound.once
  ready := sound.ready
  queued other member := sound.queued other (List.mem_cons_of_mem _ member)
  offered source member other offered := by
    rcases sound.offered source member other offered with old | queued | waits
    · exact .inl old
    · rcases List.mem_cons.mp queued with rfl | queued
      · exact skip.imp_right .inr
      · exact .inr (.inl queued)
    · exact .inr (.inr waits)

theorem Sound.ne_start (sound : Sound graph ⟨visited, queue⟩) (fresh : node ∉ visited) :
    node ≠ graph.start := by
  rintro rfl
  exact fresh (List.mem_of_head? sound.started)

/-- What a visited node does not put into the queue has been visited. -/
theorem mem_queue_of_child {other : ι} (child : other ∈ graph.children node) :
    other ∈ visited ++ [node] ∨
      other ∈ queue ++ (graph.children node).filter (· ∉ visited ++ [node]) := by
  by_cases old : other ∈ visited ++ [node]
  · exact .inl old
  · exact .inr (List.mem_append_right _ (List.mem_filter.mpr ⟨child, decide_eq_true old⟩))

theorem Sound.visit (sound : Sound graph ⟨visited, node :: queue⟩)
    (visit : ¬(node ∈ visited ∨ graph.Waits visited node)) :
    Sound graph ⟨visited ++ [node],
      queue ++ (graph.children node).filter (· ∉ visited ++ [node])⟩ := by
  obtain ⟨fresh, noWait⟩ := not_or.mp visit
  have offersNode : graph.offers node = graph.children node := if_neg (sound.ne_start fresh)
  refine ⟨?_, ?_, ?_, ?_, ?_⟩
  · exact (List.head?_append_of_ne_nil _ fun none => by
      have started := sound.started
      rw [none] at started
      cases started).trans sound.started
  · exact List.nodup_append.mpr ⟨sound.once, List.nodup_singleton node, by
      rintro old member other same rfl
      exact fresh (List.mem_singleton.mp same ▸ member)⟩
  · intro front other back same noStart
    obtain rfl | ⟨before, last, rfl⟩ := List.eq_nil_or_concat' back
    · obtain ⟨rfl, last⟩ := List.append_inj' same rfl
      cases last
      exact ⟨sound.queued node List.mem_cons_self, noWait⟩
    · rw [← List.cons_append, ← List.append_assoc] at same
      exact sound.ready front other before (List.append_inj' same rfl).1 noStart
  · intro other member
    rcases List.mem_append.mp member with queued | child
    · obtain ⟨source, visited', offered⟩ := sound.queued other (List.mem_cons_of_mem _ queued)
      exact ⟨source, List.mem_append_left _ visited', offered⟩
    · refine ⟨node, List.mem_append_right _ (List.mem_singleton_self node), ?_⟩
      rw [offersNode]
      exact (List.mem_filter.mp child).1
  · intro source member other offered
    rcases List.mem_append.mp member with old | here
    · rcases sound.offered source old other offered with old | queued | waits
      · exact .inl (List.mem_append_left _ old)
      · rcases List.mem_cons.mp queued with rfl | queued
        · exact .inl (List.mem_append_right _ (List.mem_singleton_self _))
        · exact .inr (.inl (List.mem_append_left _ queued))
      · by_cases still : graph.Waits (visited ++ [node]) other
        · exact .inr (.inr still)
        · obtain ⟨several, notFree, parent, isParent, missing⟩ := waits
          have isNode : parent = node := by
            by_contra differs
            refine still ⟨several, notFree, parent, isParent, ?_⟩
            simp only [List.mem_append, List.mem_singleton] at missing ⊢
            tauto
          subst isNode
          exact (mem_queue_of_child ((graph.mutual_edges _ _).mp isParent)).imp_right .inl
    · rw [List.mem_singleton.mp here, offersNode] at offered
      exact (mem_queue_of_child offered).imp_right .inl

end Turn

theorem sound_turn {progress : Progress ι} (sound : Sound graph progress) :
    Sound graph (graph.turn progress) := by
  obtain ⟨visited, queue⟩ := progress
  cases queue with
  | nil => exact sound
  | cons node queue =>
      by_cases skip : node ∈ visited ∨ graph.Waits visited node
      · rw [turn_skip skip]
        exact sound.skip skip
      · rw [turn_visit skip]
        exact sound.visit skip

/-- The invariant holds on the whole way. -/
theorem Reached.sound {progress : Progress ι} (reached : graph.Reached progress) :
    Sound graph progress := by
  induction reached with
  | initial => exact sound_initial
  | turn _ ih => exact sound_turn ih

/-! ## The end -/

theorem drain_turn {progress : Progress ι} {order : List ι} {bound : Nat}
    (drained : graph.drain bound progress = some order) :
    ∃ bound, graph.drain bound (graph.turn progress) = some order := by
  obtain ⟨visited, queue⟩ := progress
  cases bound with
  | zero => cases drained
  | succ bound =>
      cases queue with
      | nil => exact ⟨bound + 1, drained⟩
      | cons node queue => exact ⟨bound, drained⟩

theorem Reached.drain {progress : Progress ι} (reached : graph.Reached progress) {order : List ι}
    {bound : Nat} (drained : graph.drain bound graph.initial = some order) :
    ∃ bound, graph.drain bound progress = some order := by
  induction reached with
  | initial => exact ⟨bound, drained⟩
  | turn _ ih =>
      obtain ⟨bound, drained⟩ := ih
      exact drain_turn drained

theorem visited_prefix_turn (progress : Progress ι) :
    progress.visited <+: (graph.turn progress).visited := by
  obtain ⟨visited, queue⟩ := progress
  cases queue with
  | nil => exact List.prefix_rfl
  | cons node queue =>
      rw [turn]
      split
      · exact List.prefix_rfl
      · exact List.prefix_append _ _

theorem visited_prefix_drain {progress : Progress ι} {order : List ι} {bound : Nat}
    (drained : graph.drain bound progress = some order) : progress.visited <+: order := by
  induction bound generalizing progress with
  | zero => cases drained
  | succ bound ih =>
      obtain ⟨visited, queue⟩ := progress
      cases queue with
      | nil =>
          cases drained
          exact List.prefix_rfl
      | cons node queue => exact (visited_prefix_turn _).trans (ih drained)

theorem Reached.of_drain {progress : Progress ι} (reached : graph.Reached progress) {order : List ι}
    {bound : Nat} (drained : graph.drain bound progress = some order) :
    graph.Reached ⟨order, []⟩ := by
  induction bound generalizing progress with
  | zero => cases drained
  | succ bound ih =>
      obtain ⟨visited, queue⟩ := progress
      cases queue with
      | nil =>
          cases drained
          exact reached
      | cons node queue => exact ih (.turn reached) drained

/-- The edges of nodes that have not been visited, and the nodes in the queue. -/
def toDo (graph : Worklist ι) (nodes : Finset ι) (progress : Progress ι) : Nat :=
  progress.queue.length + ∑ node ∈ nodes \ progress.visited.toFinset, (graph.children node).length

theorem toDo_turn (nodes : Finset ι) {visited queue : List ι} {node : ι} (inside : node ∈ nodes) :
    graph.toDo nodes (graph.turn ⟨visited, node :: queue⟩) <
      graph.toDo nodes ⟨visited, node :: queue⟩ := by
  by_cases skip : node ∈ visited ∨ graph.Waits visited node
  · rw [turn_skip skip, toDo, toDo]
    dsimp only
    rw [List.length_cons]
    omega
  · rw [turn_visit skip, toDo, toDo]
    have fresh : node ∈ nodes \ visited.toFinset := by
      simp [inside, (not_or.mp skip).1]
    have rest : nodes \ (visited ++ [node]).toFinset = (nodes \ visited.toFinset).erase node := by
      ext other
      simp only [List.toFinset_append, Finset.mem_sdiff, Finset.mem_union, List.mem_toFinset,
        List.mem_singleton, Finset.mem_erase]
      tauto
    have few := List.length_filter_le (fun other => decide (other ∉ visited ++ [node]))
      (graph.children node)
    rw [rest, ← Finset.add_sum_erase _ _ fresh]
    simp only [List.length_append, List.length_cons]
    omega

/-- With finitely many nodes the queue is empty at some time. -/
theorem exists_drain (nodes : Finset ι)
    (closed : ∀ node ∈ nodes, ∀ child ∈ graph.children node, child ∈ nodes) {progress : Progress ι}
    (inside : ∀ node ∈ progress.queue, node ∈ nodes) :
    ∃ order, Settles (fun bound => graph.drain bound progress) order := by
  induction size' : graph.toDo nodes progress using Nat.strong_induction_on generalizing progress with
  | _ size ih =>
      obtain ⟨visited, queue⟩ := progress
      cases queue with
      | nil => exact ⟨visited, .of_succ (fun _ => rfl) (.const visited)⟩
      | cons node queue =>
          rw [List.forall_mem_cons] at inside
          have fewer : graph.toDo nodes (graph.turn ⟨visited, node :: queue⟩) < size := by
            rw [← size']
            exact toDo_turn nodes inside.1
          have inside' : ∀ other ∈ (graph.turn ⟨visited, node :: queue⟩).queue, other ∈ nodes := by
            rw [turn]
            split
            · exact inside.2
            · intro other member
              rcases List.mem_append.mp member with old | child
              · exact inside.2 other old
              · exact closed node inside.1 other (List.mem_filter.mp child).1
          obtain ⟨order, settles⟩ := ih _ fewer inside' rfl
          exact ⟨order, .of_succ (fun _ => rfl) settles⟩

/-! ## Work at the nodes -/

/--
The worklist with work at every node that is visited.  The outer `none` says that a bound is
used up, and the inner one is an exception in the work.
-/
def drainWith (graph : Worklist ι) (work : Nat → ι → σ → Option (Option σ)) :
    Nat → Progress ι → σ → Option (Option (List ι × σ))
  | 0, _, _ => none
  | _ + 1, ⟨visited, []⟩, state => some (some (visited, state))
  | bound + 1, ⟨visited, node :: queue⟩, state =>
      (if node ∈ visited ∨ graph.Waits visited node then some (some state)
        else work bound node state).bind fun outcome => match outcome with
          | none => some none
          | some state => drainWith graph work bound (graph.turn ⟨visited, node :: queue⟩) state

theorem reachable_turn {visited queue : List ι} {node : ι}
    (known : ∀ other ∈ node :: queue, graph.Reachable other) :
    ∀ other ∈ (graph.turn ⟨visited, node :: queue⟩).queue, graph.Reachable other := by
  obtain ⟨head, rest⟩ := List.forall_mem_cons.mp known
  rw [turn]
  split
  · exact rest
  · intro other member
    rcases List.mem_append.mp member with old | child
    · exact rest other old
    · exact Relation.ReflTransGen.tail head (List.mem_filter.mp child).1

/-- If the work ends at every node that can be reached, the queue is empty at some time. -/
theorem exists_drainWith {work : Nat → ι → σ → Option (Option σ)}
    (ends : ∀ node, graph.Reachable node → ∀ state, ∃ outcome,
      Settles (fun bound => work bound node state) outcome) {nodes : Finset ι}
    (inside : ∀ node, graph.Reachable node → node ∈ nodes) {progress : Progress ι}
    (known : ∀ node ∈ progress.queue, graph.Reachable node) (state : σ) :
    ∃ outcome, Settles (fun bound => graph.drainWith work bound progress state) outcome := by
  induction size' : graph.toDo nodes progress using Nat.strong_induction_on
    generalizing progress state with
  | _ size ih =>
      obtain ⟨visited, queue⟩ := progress
      cases queue with
      | nil => exact ⟨some (visited, state), .of_succ (fun _ => rfl) (.const _)⟩
      | cons node queue =>
          have head : graph.Reachable node := known node List.mem_cons_self
          have fewer : graph.toDo nodes (graph.turn ⟨visited, node :: queue⟩) < size := by
            rw [← size']
            exact toDo_turn nodes (inside node head)
          have worked : ∃ outcome, Settles (fun bound =>
              if node ∈ visited ∨ graph.Waits visited node then some (some state)
              else work bound node state) outcome := by
            by_cases skip : node ∈ visited ∨ graph.Waits visited node
            · simp only [if_pos skip]
              exact ⟨some state, .const _⟩
            · simp only [if_neg skip]
              exact ends node head state
          obtain ⟨outcome, settled⟩ := worked
          cases outcome with
          | none => exact ⟨none, .of_succ (fun _ => rfl) (settled.bind (.const _))⟩
          | some after =>
              obtain ⟨outcome, rest⟩ := ih _ fewer (reachable_turn known) after rfl
              exact ⟨outcome, .of_succ (fun _ => rfl) (settled.bind rest)⟩

/-! ## Order and completeness -/

/-- A visited node was at the head of the queue before. -/
theorem Reached.at_head {progress : Progress ι} (reached : graph.Reached progress)
    {front back : List ι} {node : ι} (visited : progress.visited = front ++ node :: back)
    (noStart : node ≠ graph.start) :
    ∃ queue, graph.Reached ⟨front, node :: queue⟩ ∧ ¬(node ∈ front ∨ graph.Waits front node) := by
  induction reached generalizing back with
  | initial =>
      cases front with
      | nil => exact absurd (List.cons.inj visited).1.symm noStart
      | cons first front => cases front <;> cases (List.cons.inj visited).2
  | @turn progress before ih =>
      obtain ⟨old, queue⟩ := progress
      cases queue with
      | nil => exact ih visited
      | cons head queue =>
          by_cases skip : head ∈ old ∨ graph.Waits old head
          · rw [turn_skip skip] at visited
            exact ih visited
          · rw [turn_visit skip] at visited
            obtain rfl | ⟨back, last, rfl⟩ := List.eq_nil_or_concat' back
            · obtain ⟨rfl, same⟩ := List.append_inj' visited rfl
              cases same
              exact ⟨queue, before, skip⟩
            · rw [← List.cons_append, ← List.append_assoc] at visited
              exact ih (List.append_inj' visited rfl).1

/--
A set of reachable nodes none of which gets visited: each is offered only by others of
them, or waits for one of them or for a parent that cannot be reached.
-/
def Blocks (graph : Worklist ι) (blocked : ι → Prop) : Prop :=
  ∀ node, blocked node → graph.Reachable node ∧ node ≠ graph.start ∧
    ((∀ source, graph.Reachable source → node ∈ graph.offers source → blocked source) ∨
      2 ≤ (graph.parents node).length ∧ graph.free node = false ∧
        ∃ parent ∈ graph.parents node, parent ≠ node ∧ (blocked parent ∨ ¬graph.Reachable parent))

omit [DecidableEq ι] in
theorem Reachable.child {source node : ι} (reachable : graph.Reachable source)
    (child : node ∈ graph.children source) : graph.Reachable node :=
  Relation.ReflTransGen.tail reachable child

/-- Visited nodes can be reached and are not blocked. -/
theorem Reached.unblocked {progress : Progress ι} (reached : graph.Reached progress)
    {blocked : ι → Prop} (blocks : graph.Blocks blocked) :
    ∀ node ∈ progress.visited, graph.Reachable node ∧ ¬blocked node := by
  induction reached with
  | initial =>
      intro node member
      obtain rfl := List.mem_singleton.mp member
      exact ⟨.refl, fun isBlocked => (blocks _ isBlocked).2.1 rfl⟩
  | @turn progress before ih =>
      have sound := before.sound
      obtain ⟨visited, queue⟩ := progress
      cases queue with
      | nil => exact ih
      | cons head queue =>
          by_cases skip : head ∈ visited ∨ graph.Waits visited head
          · rw [turn_skip skip]
            exact ih
          · rw [turn_visit skip]
            refine List.forall_mem_append.mpr ⟨ih, List.forall_mem_singleton.mpr ?_⟩
            obtain ⟨source, old, offered⟩ := sound.queued head List.mem_cons_self
            refine ⟨(ih source old).1.child (offers_subset offered), fun isBlocked => ?_⟩
            obtain ⟨-, -, only | ⟨several, notFree, parent, isParent, differs, stuck⟩⟩ :=
              blocks head isBlocked
            · exact (ih source old).2 (only source (ih source old).1 offered)
            · refine skip (.inr ⟨several, notFree, parent, isParent, fun member => ?_⟩)
              rcases List.mem_append.mp member with old | here
              · exact stuck.elim (ih parent old).2 fun unreachable => unreachable (ih parent old).1
              · exact differs (List.mem_singleton.mp here)

/-- Nodes that can be reached and are not visited in the end block each other. -/
theorem Sound.blocks {order : List ι} (sound : Sound graph ⟨order, []⟩) :
    graph.Blocks fun node => graph.Reachable node ∧ node ∉ order := by
  rintro node ⟨reachable, missing⟩
  refine ⟨reachable, fun same => ?_, ?_⟩
  · subst same
    exact missing (List.mem_of_head? sound.started)
  · by_cases offered : ∃ source ∈ order, node ∈ graph.offers source
    · obtain ⟨source, visited, offered⟩ := offered
      rcases sound.offered source visited node offered with old | queued | waits
      · exact absurd old missing
      · cases queued
      · obtain ⟨several, notFree, parent, isParent, absent⟩ := waits
        refine .inr ⟨several, notFree, parent, isParent, ?_, ?_⟩
        · rintro rfl
          exact absent (List.mem_append_right _ (List.mem_singleton_self _))
        · by_cases known : graph.Reachable parent
          · exact .inl ⟨known, fun visited => absent (List.mem_append_left _ visited)⟩
          · exact .inr known
    · refine .inl fun source known offers => ⟨known, fun visited => offered ⟨source, visited, offers⟩⟩

/-! ## When the order is right -/

/-- Every node that can be reached is visited once, and after its parents on forward edges. -/
structure InOrder (graph : Worklist ι) (forward : ι → ι → Prop) (order : List ι) : Prop where
  once : order.Nodup
  all node : node ∈ order ↔ graph.Reachable node
  after front node back : order = front ++ node :: back → ∀ parent ∈ graph.parents node,
    graph.Reachable parent → forward parent node → parent ∈ front

/-- A free node that is visited finds its parents on forward edges visited. -/
def FreeInTime (graph : Worklist ι) (forward : ι → ι → Prop) : Prop :=
  ∀ visited node queue, graph.Reached ⟨visited, node :: queue⟩ → node ∉ visited →
    graph.free node = true → ∀ parent ∈ graph.parents node, graph.Reachable parent →
      forward parent node → parent ∈ visited

/-- A node that is not free has all its parents in front of it when it is visited. -/
theorem Sound.parents_visited {visited queue : List ι} {node : ι}
    (sound : Sound graph ⟨visited, node :: queue⟩) (noWait : ¬graph.Waits visited node)
    (notFree : graph.free node = false) {parent : ι} (isParent : parent ∈ graph.parents node)
    (differs : parent ≠ node) : parent ∈ visited := by
  by_cases several : 2 ≤ (graph.parents node).length
  · by_contra missing
    refine noWait ⟨several, notFree, parent, isParent, fun member => ?_⟩
    rcases List.mem_append.mp member with old | here
    · exact missing old
    · exact differs (List.mem_singleton.mp here)
  · obtain ⟨source, old, offered⟩ := sound.queued node List.mem_cons_self
    have isSource := (graph.mutual_edges source node).mpr (offers_subset offered)
    obtain ⟨single, only⟩ : ∃ single, graph.parents node = [single] :=
      List.length_eq_one_iff.mp (by have := List.length_pos_of_mem isParent; omega)
    rw [only, List.mem_singleton] at isParent isSource
    rwa [isParent, ← isSource]

/--
The worklist keeps the order exactly if no reachable nodes block each other and every
free node comes after its parents by itself.
-/
theorem inOrder_iff {forward : ι → ι → Prop} (noSelf : ∀ node, ¬forward node node)
    (noStart : ∀ parent, ¬forward parent graph.start) {order : List ι}
    (settles : Settles (fun bound => graph.drain bound graph.initial) order) :
    graph.InOrder forward order ↔
      (∀ blocked, graph.Blocks blocked → ∀ node, ¬blocked node) ∧ graph.FreeInTime forward := by
  obtain ⟨bound, drains⟩ := settles
  have drained := drains bound le_rfl
  have ended := Reached.of_drain .initial drained
  constructor
  · refine fun inOrder => ⟨fun blocked blocks node isBlocked => ?_, ?_⟩
    · have visited := (inOrder.all node).mpr (blocks node isBlocked).1
      exact (ended.unblocked blocks node visited).2 isBlocked
    · intro visited node queue reached fresh isFree parent isParent known ahead
      have visit : ¬(node ∈ visited ∨ graph.Waits visited node) := by
        rintro (old | ⟨-, notFree, -⟩)
        · exact fresh old
        · rw [isFree] at notFree
          cases notFree
      obtain ⟨bound, drained⟩ := (Reached.turn reached).drain drained
      rw [turn_visit visit] at drained
      obtain ⟨back, same⟩ := visited_prefix_drain drained
      rw [List.append_assoc] at same
      exact inOrder.after visited node back same.symm parent isParent known ahead
  · rintro ⟨unblocked, inTime⟩
    refine ⟨ended.sound.once, fun node => ⟨fun visited => ?_, fun known => ?_⟩, ?_⟩
    · have nothing : graph.Blocks fun _ => False := fun _ => False.elim
      exact (ended.unblocked nothing node visited).1
    · by_contra missing
      exact unblocked _ ended.sound.blocks node ⟨known, missing⟩
    · intro front node back same parent isParent known ahead
      have notStart : node ≠ graph.start := by
        rintro rfl
        exact noStart parent ahead
      obtain ⟨queue, reached, visit⟩ := ended.at_head same notStart
      obtain ⟨fresh, noWait⟩ := not_or.mp visit
      cases isFree : graph.free node with
      | true => exact inTime front node queue reached fresh isFree parent isParent known ahead
      | false =>
          refine reached.sound.parents_visited noWait isFree isParent ?_
          rintro rfl
          exact noSelf parent ahead

end Worklist

end OpenCLDecompiler.Library
