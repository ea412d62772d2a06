import Mathlib.Data.List.Nodup

/-!
# Numbered name supplies

A supply issues names `key#1`, `key#2`, … from one counter for each key.  Some
users also move a counter: they issue a number of their own choice and continue
from there.  A supply stays free of repetitions exactly as long as the chosen
numbers are new.
-/

namespace OpenCLDecompiler.Library

/-- The counters and, in order, everything that has been issued. -/
structure Supply (κ : Type) where
  counter : κ → Nat
  issued : List (κ × Nat)

namespace Supply

variable {κ : Type}

/-- Exactly the numbers up to the counter have been issued. -/
def Exact (supply : Supply κ) : Prop :=
  ∀ key num, (key, num) ∈ supply.issued ↔ 1 ≤ num ∧ num ≤ supply.counter key

/-- Histories only grow, so a repetition stays. -/
theorem nodup_of_prefix {before after : Supply κ} (grown : before.issued <+: after.issued)
    (nodup : after.issued.Nodup) : before.issued.Nodup :=
  nodup.sublist grown.sublist

variable [DecidableEq κ]

/-- Issue the number `num` for `key` and let the counter continue from it. -/
def issueAt (supply : Supply κ) (key : κ) (num : Nat) : Supply κ where
  counter := fun other => if other = key then num else supply.counter other
  issued := supply.issued ++ [(key, num)]

/-- Issue the next number. -/
def issue (supply : Supply κ) (key : κ) : Supply κ :=
  supply.issueAt key (supply.counter key + 1)

theorem exact_issue {supply : Supply κ} (exact' : supply.Exact) (key : κ) :
    (supply.issue key).Exact := by
  intro other num
  change (other, num) ∈ supply.issued ++ [(key, supply.counter key + 1)] ↔
    1 ≤ num ∧ num ≤ if other = key then supply.counter key + 1 else supply.counter other
  rw [List.mem_append, List.mem_singleton, exact', Prod.mk.injEq]
  split
  · rename_i same
    subst same
    simp only [true_and]
    omega
  · rename_i different
    simp [different]

/-- After an exact history a chosen number is new exactly when it lies above the counter. -/
theorem nodup_issueAt_iff {supply : Supply κ} (exact' : supply.Exact) {key : κ} {num : Nat}
    (positive : 1 ≤ num) :
    (supply.issueAt key num).issued.Nodup ↔
      supply.issued.Nodup ∧ supply.counter key < num := by
  change (supply.issued ++ [(key, num)]).Nodup ↔ _
  rw [List.nodup_append_comm, List.singleton_append, List.nodup_cons, exact', and_comm]
  exact and_congr_right fun _ => by omega

theorem nodup_issue {supply : Supply κ} (exact' : supply.Exact)
    (nodup : supply.issued.Nodup) (key : κ) : (supply.issue key).issued.Nodup :=
  (nodup_issueAt_iff exact' (Nat.le_add_left 1 _)).mpr ⟨nodup, Nat.lt_succ_self _⟩

theorem prefix_issueAt (supply : Supply κ) (key : κ) (num : Nat) :
    supply.issued <+: (supply.issueAt key num).issued :=
  List.prefix_append _ _

theorem counter_le_issue (supply : Supply κ) (key other : κ) :
    supply.counter other ≤ (supply.issue key).counter other := by
  change _ ≤ if other = key then supply.counter key + 1 else supply.counter other
  split
  · rename_i same
    subst same
    exact Nat.le_succ _
  · exact Nat.le_refl _

/-! ## Issuing for several keys -/

/-- Issue one chosen number for each of the keys, in order. -/
def issueEach (num : κ → Nat) (supply : Supply κ) (keys : List κ) : Supply κ :=
  keys.foldl (fun current key => current.issueAt key (num key)) supply

theorem prefix_issueEach (num : κ → Nat) (supply : Supply κ) (keys : List κ) :
    supply.issued <+: (supply.issueEach num keys).issued := by
  induction keys generalizing supply with
  | nil => exact List.prefix_refl _
  | cons key rest ih => exact (prefix_issueAt supply key (num key)).trans (ih _)

theorem counter_issueEach (num : κ → Nat) (supply : Supply κ) (keys : List κ) (other : κ) :
    (supply.issueEach num keys).counter other =
      if other ∈ keys then num other else supply.counter other := by
  induction keys generalizing supply with
  | nil => rfl
  | cons key rest ih =>
      change ((supply.issueAt key (num key)).issueEach num rest).counter other = _
      rw [ih]
      change (if other ∈ rest then num other
        else if other = key then num key else supply.counter other) = _
      by_cases same : other = key
      · subst same
        simp
      · simp [same]

theorem exact_issueEach {num : κ → Nat} {supply : Supply κ} (exact' : supply.Exact)
    {keys : List κ} (distinct : keys.Nodup)
    (next : ∀ key ∈ keys, num key = supply.counter key + 1) :
    (supply.issueEach num keys).Exact := by
  induction keys generalizing supply with
  | nil => exact exact'
  | cons key rest ih =>
      obtain ⟨absent, restDistinct⟩ := List.nodup_cons.mp distinct
      change ((supply.issueAt key (num key)).issueEach num rest).Exact
      rw [next key List.mem_cons_self]
      refine ih (exact_issue exact' key) restDistinct fun other inside => ?_
      have different : other ≠ key := fun same => absent (same ▸ inside)
      change num other = (if other = key then _ else supply.counter other) + 1
      rw [if_neg different]
      exact next other (List.mem_cons_of_mem _ inside)

/-- Numbers that do not skip ahead are all new exactly when each of them is the next one. -/
theorem nodup_issueEach_iff {num : κ → Nat} {supply : Supply κ} (exact' : supply.Exact)
    (nodup : supply.issued.Nodup) {keys : List κ} (distinct : keys.Nodup)
    (bounds : ∀ key ∈ keys, 1 ≤ num key ∧ num key ≤ supply.counter key + 1) :
    (supply.issueEach num keys).issued.Nodup ↔
      ∀ key ∈ keys, num key = supply.counter key + 1 := by
  induction keys generalizing supply with
  | nil => exact iff_of_true nodup (fun _ inside => by cases inside)
  | cons key rest ih =>
      obtain ⟨absent, restDistinct⟩ := List.nodup_cons.mp distinct
      obtain ⟨positive, bound⟩ := bounds key List.mem_cons_self
      change ((supply.issueAt key (num key)).issueEach num rest).issued.Nodup ↔ _
      have apart : ∀ other ∈ rest,
          (supply.issueAt key (num key)).counter other = supply.counter other := by
        intro other inside
        have different : other ≠ key := fun same => absent (same ▸ inside)
        exact if_neg different
      by_cases next : num key = supply.counter key + 1
      · rw [ih (by rw [next]; exact exact_issue exact' key)
          ((nodup_issueAt_iff exact' positive).mpr ⟨nodup, by omega⟩) restDistinct
          (fun other inside => by
            rw [apart other inside]
            exact bounds other (List.mem_cons_of_mem _ inside))]
        rw [List.forall_mem_cons]
        constructor
        · intro all
          exact ⟨next, fun other inside => (all other inside).trans (by rw [apart other inside])⟩
        · intro all other inside
          rw [apart other inside]
          exact all.2 other inside
      · refine iff_of_false (fun kept => ?_) fun all => next (all key List.mem_cons_self)
        have headNodup := nodup_of_prefix (prefix_issueEach num _ rest) kept
        have above := ((nodup_issueAt_iff exact' positive).mp headNodup).2
        omega

/-- Issue the next number for each of the keys, in order; keys may repeat. -/
def issueAll (supply : Supply κ) (keys : List κ) : Supply κ := keys.foldl issue supply

theorem prefix_issueAll (supply : Supply κ) (keys : List κ) :
    supply.issued <+: (supply.issueAll keys).issued := by
  induction keys generalizing supply with
  | nil => exact List.prefix_refl _
  | cons key rest ih => exact (prefix_issueAt supply key _).trans (ih _)

theorem issueAll_spec {supply : Supply κ} (exact' : supply.Exact) (keys : List κ) :
    (supply.issueAll keys).Exact ∧
      (supply.issued.Nodup → (supply.issueAll keys).issued.Nodup) ∧
      ∀ other, supply.counter other ≤ (supply.issueAll keys).counter other := by
  induction keys generalizing supply with
  | nil => exact ⟨exact', id, fun _ => Nat.le_refl _⟩
  | cons key rest ih =>
      obtain ⟨restExact, restNodup, restLe⟩ := ih (exact_issue exact' key)
      exact ⟨restExact, fun nodup => restNodup (nodup_issue exact' nodup key),
        fun other => Nat.le_trans (counter_le_issue supply key other) (restLe other)⟩

theorem counter_issueAll_of_not_mem (supply : Supply κ) {keys : List κ} {other : κ}
    (absent : other ∉ keys) : (supply.issueAll keys).counter other = supply.counter other := by
  induction keys generalizing supply with
  | nil => rfl
  | cons key rest ih =>
      have different : other ≠ key := List.ne_of_not_mem_cons absent
      have notRest : other ∉ rest := List.not_mem_of_not_mem_cons absent
      exact (ih (supply.issue key) notRest).trans (if_neg different)

end Supply

end OpenCLDecompiler.Library
