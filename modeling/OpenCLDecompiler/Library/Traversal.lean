import Mathlib.Data.Finset.Card
import Mathlib.Logic.Relation
import OpenCLDecompiler.Library.Settles

/-!
# A queue without a check

A node leaves the queue, is visited and sends its unvisited children to the queue.  On leaving
the queue nothing asks whether the node was visited before, so that it is visited once for
every time it was sent.
-/

namespace OpenCLDecompiler.Library.Traversal

variable {ι σ : Type}

/-! ## What is known -/

section Known

variable (children : ι → List ι)

def Reachable (start : ι) : ι → Prop :=
  Relation.ReflTransGen (fun source node => node ∈ children source) start

/-- The start is known, known nodes can be reached, and children of visited nodes are known. -/
structure Sound (start : ι) (visited queue : List ι) : Prop where
  started : start ∈ visited ∨ start ∈ queue
  reachable : ∀ node, node ∈ visited ∨ node ∈ queue → Reachable children start node
  closed : ∀ source ∈ visited, ∀ node ∈ children source, node ∈ visited ∨ node ∈ queue

variable {children}

theorem sound_start (start : ι) : Sound children start [] [start] where
  started := .inr (List.mem_singleton_self start)
  reachable node known := by
    obtain rfl := List.mem_singleton.mp (known.resolve_left List.not_mem_nil)
    exact .refl
  closed source impossible := absurd impossible List.not_mem_nil

/-- When the queue is empty all reachable nodes have been visited, and no others. -/
theorem Sound.mem_iff {start : ι} {order : List ι} (sound : Sound children start order [])
    (node : ι) : node ∈ order ↔ Reachable children start node := by
  constructor
  · exact fun visited => sound.reachable node (.inl visited)
  · intro reachable
    induction reachable with
    | refl => exact sound.started.resolve_right List.not_mem_nil
    | tail _ edge ih => exact (sound.closed _ ih _ edge).resolve_right List.not_mem_nil

theorem mem_append_of_mem {visited : List ι} {node : ι} (old : node ∈ visited) (other : ι) :
    other ∈ visited ++ [node] ↔ other ∈ visited := by
  rw [List.mem_append, List.mem_singleton]
  exact ⟨fun known => known.elim id fun same => same ▸ old, .inl⟩

end Known

/-! ## The loop -/

variable [DecidableEq ι]

/-- The nodes that leave the queue, in order, and what the visits have made. -/
def drain (children : ι → List ι) (visit : ι → σ → σ) : Nat → List ι → List ι → σ → Option (List ι × σ)
  | 0, _, _, _ => none
  | _ + 1, visited, [], state => some (visited, state)
  | bound + 1, visited, node :: queue, state =>
      drain children visit bound (visited ++ [node])
        (queue ++ (children node).filter (· ∉ visited ++ [node])) (visit node state)

variable {children : ι → List ι} {visit : ι → σ → σ}

section Turn

variable {start node : ι} {visited queue : List ι}

theorem Sound.turn (sound : Sound children start visited (node :: queue)) :
    Sound children start (visited ++ [node])
      (queue ++ (children node).filter (· ∉ visited ++ [node])) where
  started := by
    rcases sound.started with old | next
    · exact .inl (List.mem_append_left _ old)
    · rcases List.mem_cons.mp next with rfl | later
      · exact .inl (List.mem_append_right _ (List.mem_singleton_self _))
      · exact .inr (List.mem_append_left _ later)
  reachable other known := by
    have head : Reachable children start node := sound.reachable node (.inr List.mem_cons_self)
    rcases known with visited | queued
    · rcases List.mem_append.mp visited with old | here
      · exact sound.reachable other (.inl old)
      · rwa [List.mem_singleton.mp here]
    · rcases List.mem_append.mp queued with old | sent
      · exact sound.reachable other (.inr (List.mem_cons_of_mem _ old))
      · exact head.tail (List.mem_of_mem_filter sent)
  closed source member child edge := by
    by_cases known : child ∈ visited ++ [node]
    · exact .inl known
    · right
      rcases List.mem_append.mp member with old | here
      · rcases sound.closed source old child edge with visited | queued
        · exact absurd (List.mem_append_left _ visited) known
        · rcases List.mem_cons.mp queued with rfl | later
          · exact absurd (List.mem_append_right _ (List.mem_singleton_self _)) known
          · exact List.mem_append_left _ later
      · rw [List.mem_singleton.mp here] at edge
        exact List.mem_append_right _ (List.mem_filter.mpr ⟨edge, decide_eq_true known⟩)

end Turn

/-- The nodes that have not been visited. -/
def fresh (nodes : Finset ι) (visited : List ι) : Nat := (nodes \ visited.toFinset).card

/-- The places in the queue of nodes that have been visited. -/
def stale (visited queue : List ι) : Nat := queue.countP (· ∈ visited)

theorem fresh_of_notMem {nodes : Finset ι} {visited : List ι} {node : ι} (inside : node ∈ nodes)
    (new : node ∉ visited) : fresh nodes (visited ++ [node]) < fresh nodes visited := by
  refine Finset.card_lt_card (Finset.ssubset_iff_subset_ne.mpr ⟨?_, fun same => ?_⟩)
  · refine Finset.sdiff_subset_sdiff le_rfl fun other member => ?_
    rw [List.mem_toFinset] at member ⊢
    exact List.mem_append_left _ member
  · have member : node ∈ nodes \ visited.toFinset :=
      Finset.mem_sdiff.mpr ⟨inside, fun old => new (List.mem_toFinset.mp old)⟩
    rw [← same, Finset.mem_sdiff, List.mem_toFinset] at member
    exact member.2 (List.mem_append_right _ (List.mem_singleton_self _))

theorem fresh_of_mem (nodes : Finset ι) {visited : List ι} {node : ι} (old : node ∈ visited) :
    fresh nodes (visited ++ [node]) = fresh nodes visited := by
  have same : (visited ++ [node]).toFinset = visited.toFinset := by
    ext other
    rw [List.mem_toFinset, List.mem_toFinset, mem_append_of_mem old]
  rw [fresh, fresh, same]

/-- A visited node leaves the queue, and none comes back: only unvisited ones are sent. -/
theorem stale_of_mem {visited queue : List ι} {node : ι} (old : node ∈ visited) :
    stale (visited ++ [node]) (queue ++ (children node).filter (· ∉ visited ++ [node])) <
      stale visited (node :: queue) := by
  have sent : ((children node).filter (· ∉ visited ++ [node])).countP (· ∈ visited ++ [node]) = 0 := by
    rw [List.countP_eq_zero]
    intro other member
    have new := of_decide_eq_true (List.mem_filter.mp member).2
    simpa using new
  have same : queue.countP (· ∈ visited ++ [node]) = queue.countP (· ∈ visited) := by
    simp only [mem_append_of_mem old]
  rw [stale, stale, List.countP_append, sent, same, List.countP_cons, if_pos (decide_eq_true old)]
  exact Nat.lt_succ_self _

/--
With finitely many nodes the queue is empty at some time: a turn visits a new node, or else
there is one visited node less in the queue.
-/
theorem exists_drain {nodes : Finset ι}
    (inside : ∀ node ∈ nodes, ∀ child ∈ children node, child ∈ nodes) {start : ι}
    {visited queue : List ι} (sound : Sound children start visited queue)
    (queued : ∀ node ∈ queue, node ∈ nodes) (state : σ) :
    ∃ order last, Settles (fun bound => drain children visit bound visited queue state)
      (order, last) ∧ ∀ node, node ∈ order ↔ Reachable children start node := by
  induction few : fresh nodes visited using Nat.strong_induction_on
    generalizing visited queue state with
  | _ size ihFresh =>
    induction less : stale visited queue using Nat.strong_induction_on
      generalizing visited queue state with
    | _ count ihStale =>
      cases queue with
      | nil => exact ⟨visited, state, .of_succ (fun _ => rfl) (.const _), sound.mem_iff⟩
      | cons node queue =>
          obtain ⟨isNode, rest⟩ := List.forall_mem_cons.mp queued
          have queued' : ∀ other ∈ queue ++ (children node).filter (· ∉ visited ++ [node]),
              other ∈ nodes := by
            intro other member
            rcases List.mem_append.mp member with old | sent
            · exact rest other old
            · exact inside node isNode other (List.mem_of_mem_filter sent)
          have next : ∃ order last, Settles (fun bound => drain children visit bound
              (visited ++ [node]) (queue ++ (children node).filter (· ∉ visited ++ [node]))
              (visit node state)) (order, last) ∧
                ∀ node, node ∈ order ↔ Reachable children start node := by
            by_cases old : node ∈ visited
            · refine ihStale _ (less ▸ stale_of_mem old) sound.turn queued' _ ?_ rfl
              rw [fresh_of_mem nodes old, few]
            · exact ihFresh _ (few ▸ fresh_of_notMem isNode old) sound.turn queued' _ rfl
          obtain ⟨order, last, settles, all⟩ := next
          exact ⟨order, last, .of_succ (fun _ => rfl) settles, all⟩

end OpenCLDecompiler.Library.Traversal
