import Mathlib.Data.Finset.Insert
import Mathlib.Logic.Relation

/-!
# Depth-first search

A search with a set of visited nodes finds what the nodes that can be reached hold.  The
bound on its depth is large enough when the nodes on the way have falling ranks.
-/

namespace OpenCLDecompiler.Library.Search

variable {κ α : Type} [DecidableEq κ] (found : κ → List α) (next : κ → List κ)

/-- What has been found, and the visited nodes. -/
abbrev Progress (κ α : Type) [DecidableEq κ] := List α × Finset κ

def search : Nat → κ → Progress κ α → Progress κ α
  | 0, _, st => st
  | bound + 1, node, st =>
      if node ∈ st.2 then st
      else (next node).foldl (fun st child => search bound child st)
        (st.1 ++ found node, insert node st.2)

def Reaches : κ → κ → Prop := Relation.ReflTransGen fun source target => target ∈ next source

variable {found next}

/-! ## What is found is there -/

theorem reached_of_mem_search (bound : Nat) (node : κ) (st : Progress κ α) {item : α}
    (inside : item ∈ (search found next bound node st).1) :
    item ∈ st.1 ∨ ∃ target, Reaches next node target ∧ item ∈ found target := by
  induction bound generalizing node st with
  | zero => exact .inl inside
  | succ bound ih =>
      rw [search] at inside
      split at inside
      · exact .inl inside
      · have fold : ∀ (children : List κ) (noted : Progress κ α),
            (∀ child ∈ children, child ∈ next node) →
            item ∈ (children.foldl (fun st child => search found next bound child st) noted).1 →
            item ∈ noted.1 ∨ ∃ target, Reaches next node target ∧ item ∈ found target := by
          intro children
          induction children with
          | nil => exact fun _ _ present => .inl present
          | cons child rest ihRest =>
              intro noted isChild present
              rw [List.foldl_cons] at present
              rcases ihRest _ (fun other later => isChild other (List.mem_cons_of_mem _ later))
                present with earlier | below
              · refine (ih _ _ earlier).imp_right ?_
                rintro ⟨target, reaches, holds⟩
                exact ⟨target, .head (isChild child List.mem_cons_self) reaches, holds⟩
              · exact .inr below
        rcases fold (next node) _ (fun _ member => member) inside with earlier | below
        · exact (List.mem_append.mp earlier).imp_right fun here => ⟨node, .refl, here⟩
        · exact .inr below

/-! ## What is there is found -/

/-- What the visited nodes hold has been found, and their children are visited. -/
def Finished (found : κ → List α) (next : κ → List κ) (unfinished : κ → Prop)
    (st : Progress κ α) : Prop :=
  ∀ node ∈ st.2, ¬unfinished node → (∀ item ∈ found node, item ∈ st.1) ∧ ∀ child ∈ next node, child ∈ st.2

/-- A search forgets nothing and finishes the node it starts from. -/
structure Searched (found : κ → List α) (next : κ → List κ) (unfinished : κ → Prop)
    (before after : Progress κ α) : Prop where
  items : ∀ item ∈ before.1, item ∈ after.1
  visited : before.2 ⊆ after.2
  finished : Finished found next unfinished after

theorem Searched.trans {unfinished : κ → Prop} {first second third : Progress κ α}
    (early : Searched found next unfinished first second)
    (late : Searched found next unfinished second third) :
    Searched found next unfinished first third where
  items item inside := late.items item (early.items item inside)
  visited := early.visited.trans late.visited
  finished := late.finished

theorem searched_fold {unfinished : κ → Prop} {visit : κ → Progress κ α → Progress κ α}
    (children : List κ)
    (each : ∀ child ∈ children, ∀ st, Finished found next unfinished st →
      Searched found next unfinished st (visit child st) ∧ child ∈ (visit child st).2)
    {st : Progress κ α} (finished : Finished found next unfinished st) :
    Searched found next unfinished st (children.foldl (fun st child => visit child st) st) ∧
      ∀ child ∈ children, child ∈ (children.foldl (fun st child => visit child st) st).2 := by
  induction children generalizing st with
  | nil => exact ⟨⟨fun _ inside => inside, Finset.Subset.refl _, finished⟩, fun _ none => by cases none⟩
  | cons first rest ih =>
      rw [List.forall_mem_cons] at each
      obtain ⟨early, here⟩ := each.1 st finished
      obtain ⟨late, there⟩ := ih each.2 early.finished
      refine ⟨early.trans late, List.forall_mem_cons.mpr ⟨late.visited here, there⟩⟩

theorem searched_search {rank : κ → Nat} (falls : ∀ node, ∀ child ∈ next node, rank child < rank node)
    {bound : Nat} {node : κ} (enough : rank node < bound) {unfinished : κ → Prop}
    {st : Progress κ α} (finished : Finished found next unfinished st) :
    Searched found next unfinished st (search found next bound node st) ∧
      node ∈ (search found next bound node st).2 := by
  induction bound generalizing node unfinished st with
  | zero => exact absurd enough (Nat.not_lt_zero _)
  | succ bound ih =>
      rw [search]
      by_cases visited : node ∈ st.2
      · rw [if_pos visited]
        exact ⟨⟨fun _ inside => inside, Finset.Subset.refl _, finished⟩, visited⟩
      rw [if_neg visited]
      -- While its children are visited, the node itself is not finished.
      have entered : Finished found next (fun other => unfinished other ∨ other = node)
          (st.1 ++ found node, insert node st.2) := by
        intro other inside notOpen
        rw [not_or] at notOpen
        obtain ⟨items, children⟩ :=
          finished other ((Finset.mem_insert.mp inside).resolve_left notOpen.2) notOpen.1
        exact ⟨fun item holds => List.mem_append_left _ (items item holds),
          fun child isChild => Finset.mem_insert_of_mem (children child isChild)⟩
      obtain ⟨searched, children⟩ := searched_fold (next node)
        (fun child isChild st finished =>
          ih (Nat.lt_of_lt_of_le (falls node child isChild) (Nat.le_of_lt_succ enough)) finished)
        entered
      refine ⟨⟨fun item inside => searched.items item (List.mem_append_left _ inside),
        fun other inside => searched.visited (Finset.mem_insert_of_mem inside), ?_⟩,
        searched.visited (Finset.mem_insert_self node st.2)⟩
      intro other inside notOpen
      by_cases same : other = node
      · subst same
        exact ⟨fun item holds => searched.items item (List.mem_append_right _ holds), children⟩
      · exact searched.finished other inside (not_or.mpr ⟨notOpen, same⟩)

/-- A search from nothing finds exactly what the nodes that can be reached hold. -/
theorem mem_search_iff {rank : κ → Nat}
    (falls : ∀ node, ∀ child ∈ next node, rank child < rank node) {bound : Nat} {node : κ}
    (enough : rank node < bound) (item : α) :
    item ∈ (search found next bound node ([], ∅)).1 ↔
      ∃ target, Reaches next node target ∧ item ∈ found target := by
  have start : Finished found next (fun _ => False) (([], ∅) : Progress κ α) := by
    intro other inside
    cases inside
  obtain ⟨searched, visited⟩ := searched_search falls enough start
  constructor
  · exact fun inside => (reached_of_mem_search bound node _ inside).resolve_left List.not_mem_nil
  · rintro ⟨target, reaches, holds⟩
    have there : target ∈ (search found next bound node ([], ∅)).2 := by
      clear holds
      induction reaches with
      | refl => exact visited
      | tail _ isChild before =>
          exact (searched.finished _ before not_false).2 _ isChild
    exact (searched.finished target there not_false).1 item holds

end OpenCLDecompiler.Library.Search
