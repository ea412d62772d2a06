/-!
# Deterministic walks

A walk follows a partial successor function.  Segments record the nodes a walk
visits between two nodes, both included; a walk is complete when its last node
has no successor.
-/

namespace OpenCLDecompiler.Library

namespace Walk

variable {ι : Type} {next : ι → Option ι}

/-- The walk from the first node visits `trace` and is then at the last node of it. -/
inductive Segment (next : ι → Option ι) : ι → List ι → ι → Prop where
  | here (node : ι) : Segment next node [node] node
  | step {node successor final : ι} {trace : List ι} (follows : next node = some successor)
      (rest : Segment next successor trace final) : Segment next node (node :: trace) final

/-- The walk from a node visits `trace` and ends. -/
def Complete (next : ι → Option ι) (node : ι) (trace : List ι) : Prop :=
  ∃ final, Segment next node trace final ∧ next final = none

theorem Segment.append {first middle start final : ι} {left right : List ι}
    (head : Segment next first left middle) (follows : next middle = some start)
    (tail : Segment next start right final) : Segment next first (left ++ right) final := by
  induction head with
  | here node => exact .step follows tail
  | step moves _ ih => exact .step moves (ih follows)

theorem Segment.final_mem {node final : ι} {trace : List ι} (walk : Segment next node trace final) :
    final ∈ trace := by
  induction walk with
  | here node => exact List.mem_singleton_self node
  | step _ _ ih => exact List.mem_cons_of_mem _ ih

/-- A walk without repetition is determined by its ends. -/
theorem Segment.unique_of_nodup {node final : ι} {left right : List ι}
    (first : Segment next node left final) (leftNodup : left.Nodup)
    (second : Segment next node right final) (rightNodup : right.Nodup) : left = right := by
  induction first generalizing right with
  | here node =>
      cases second with
      | here => rfl
      | step _ rest => exact ((List.nodup_cons.mp rightNodup).1 rest.final_mem).elim
  | step follows rest ih =>
      cases second with
      | here => exact ((List.nodup_cons.mp leftNodup).1 rest.final_mem).elim
      | step otherFollows otherRest =>
          cases Option.some.inj (follows.symm.trans otherFollows)
          rw [ih (List.nodup_cons.mp leftNodup).2 otherRest (List.nodup_cons.mp rightNodup).2]

theorem Segment.unique {node final last : ι} {left right : List ι}
    (first : Segment next node left final) (stops : next final = none)
    (second : Segment next node right last) (lastStops : next last = none) : left = right := by
  induction first generalizing right with
  | here node =>
      cases second with
      | here => rfl
      | step follows _ =>
          rw [stops] at follows
          cases follows
  | step follows _ ih =>
      cases second with
      | here =>
          rw [lastStops] at follows
          cases follows
      | step otherFollows otherRest =>
          cases Option.some.inj (follows.symm.trans otherFollows)
          rw [ih stops otherRest]

/-- A complete walk is determined by the node it starts from. -/
theorem Complete.unique {node : ι} {left right : List ι} (first : Complete next node left)
    (second : Complete next node right) : left = right := by
  obtain ⟨_, segment, stops⟩ := first
  obtain ⟨_, other, otherStops⟩ := second
  exact segment.unique stops other otherStops

/-- The walk from a node visits `trace` and then goes to `target`, or ends without one. -/
def Leads (next : ι → Option ι) (node : ι) (trace : List ι) (target : Option ι) : Prop :=
  ∃ final, Segment next node trace final ∧ next final = target

theorem Leads.one (node : ι) : Leads next node [node] (next node) :=
  ⟨node, .here node, rfl⟩

theorem Leads.append {node middle : ι} {left right : List ι} {target : Option ι}
    (head : Leads next node left (some middle)) (tail : Leads next middle right target) :
    Leads next node (left ++ right) target := by
  obtain ⟨_, first, follows⟩ := head
  obtain ⟨final, second, ends⟩ := tail
  exact ⟨final, first.append follows second, ends⟩

/-- Every node goes to the one behind it in the list, and the last one to `target`. -/
def Path (next : ι → Option ι) : List ι → Option ι → Prop
  | [], _ => True
  | node :: rest, target => next node = rest.head?.or target ∧ Path next rest target

theorem Path.append {left right : List ι} {target : Option ι}
    (head : Path next left (right.head?.or target)) (tail : Path next right target) :
    Path next (left ++ right) target := by
  induction left with
  | nil => exact tail
  | cons node rest ih =>
      have follows : next node = (rest ++ right).head?.or target := by
        rw [head.1, List.head?_append, Option.or_assoc]
      exact ⟨follows, ih head.2⟩

/-- A path without a target is a complete walk. -/
theorem Path.complete {node : ι} {trace : List ι} (path : Path next trace none)
    (starts : trace.head? = some node) : Complete next node trace := by
  induction trace generalizing node with
  | nil => cases starts
  | cons first rest ih =>
      cases starts
      cases rest with
      | nil => exact ⟨first, .here first, path.1⟩
      | cons second rest =>
          obtain ⟨final, segment, ends⟩ := ih path.2 rfl
          exact ⟨final, .step path.1 segment, ends⟩

end Walk

end OpenCLDecompiler.Library
