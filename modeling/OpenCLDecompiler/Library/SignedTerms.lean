import Mathlib.Algebra.BigOperators.Group.Finset.Basic
import Mathlib.Algebra.BigOperators.Group.List.Lemmas
import Mathlib.Data.List.Count
import Mathlib.Data.List.Permutation
import Mathlib.Tactic.Abel

/-!
# Sums of signed terms

A sum is a list of terms with signs.  Taking terms of opposite signs against each
other keeps its value; taking two terms of the same sign away does not.
-/

namespace OpenCLDecompiler.Library

/-- A term of a sum. -/
structure Signed (α : Type) where
  plus : Bool
  term : α
  deriving DecidableEq, Repr

namespace Signed

variable {α G : Type} [AddCommGroup G]

def value (f : α → G) (signed : Signed α) : G := if signed.plus then f signed.term else -f signed.term

/-- The value of a sum. -/
def sum (f : α → G) (terms : List (Signed α)) : G := (terms.map (value f)).sum

@[simp]
theorem sum_nil (f : α → G) : sum f [] = 0 := rfl

@[simp]
theorem sum_cons (f : α → G) (first : Signed α) (rest : List (Signed α)) :
    sum f (first :: rest) = first.value f + sum f rest := by
  simp [sum]

@[simp]
theorem sum_append (f : α → G) (first second : List (Signed α)) :
    sum f (first ++ second) = sum f first + sum f second := by
  simp [sum]

theorem sum_perm (f : α → G) {first second : List (Signed α)} (perm : first.Perm second) :
    sum f first = sum f second :=
  (perm.map _).sum_eq

variable [DecidableEq α]

/-! ## Taking terms against each other -/

/-- Takes `signed` against the first entry with its term, whatever its sign. -/
def cancelOne (kept : List (Signed α)) (signed : Signed α) : List (Signed α) :=
  if signed.plus then kept
  else if kept.any fun other => signed.term = other.term then
    kept.eraseP fun other => signed.term = other.term
  else kept ++ [signed]

/-- The positive terms, with the negative ones taken against them one after the other. -/
def cancel (terms : List (Signed α)) : List (Signed α) :=
  terms.foldl cancelOne (terms.filter Signed.plus)

omit [DecidableEq α] in
/-- The terms with a sign. -/
def withSign (plus : Bool) (terms : List (Signed α)) : List α :=
  (terms.filter fun signed => signed.plus = plus).map Signed.term

/-- The negative terms that no positive term stands against. -/
def owed (terms : List (Signed α)) : List α := (withSign false terms).diff (withSign true terms)

/-- The positive terms that no negative term stands against. -/
def kept (terms : List (Signed α)) : List α := (withSign true terms).diff (withSign false terms)

/-- What is lost when negative terms are taken against each other. -/
def lost (f : α → G) (terms : List (Signed α)) : G :=
  ∑ term ∈ (owed terms).toFinset, (2 * ((owed terms).count term / 2)) • f term

theorem count_withSign (plus : Bool) (terms : List (Signed α)) (term : α) :
    (withSign plus terms).count term = terms.count ⟨plus, term⟩ := by
  induction terms with
  | nil => rfl
  | cons first rest ih =>
      obtain ⟨sign, other⟩ := first
      unfold withSign at ih ⊢
      by_cases same : sign = plus
      · subst same
        rw [List.filter_cons_of_pos (by simp), List.map_cons, List.count_cons, List.count_cons, ih]
        congr 1
        simp
      · rw [List.filter_cons_of_neg (by simpa using same), List.count_cons, ih]
        simp [same]

omit [DecidableEq α] in
theorem sum_withSign (f : α → G) (terms : List (Signed α)) :
    sum f terms = ((withSign true terms).map f).sum - ((withSign false terms).map f).sum := by
  induction terms with
  | nil => simp [withSign]
  | cons first rest ih =>
      obtain ⟨sign, term⟩ := first
      rw [sum_cons, ih]
      cases sign with
      | true =>
          simp only [value, withSign, if_true, List.filter_cons]
          simp [add_sub_assoc]
      | false =>
          simp only [value, withSign, List.filter_cons]
          simp only [Bool.false_eq_true, if_false, decide_true, decide_false, if_true, List.map_cons,
            List.sum_cons]
          abel

/-- The counts while the negative terms `taken` are taken against the positive terms `given`. -/
def Taking (given taken : List α) (terms : List (Signed α)) : Prop :=
  ∀ term, terms.count ⟨true, term⟩ = given.count term - taken.count term ∧
    terms.count ⟨false, term⟩ = (taken.count term - given.count term) % 2

/-- All entries with a term have one sign, so the first of them is any of them. -/
theorem eraseP_eq_erase {terms : List (Signed α)} {sign : Bool} {term : α}
    (only : ∀ entry ∈ terms, entry.term = term → entry = ⟨sign, term⟩) :
    terms.eraseP (fun entry => term = entry.term) = terms.erase ⟨sign, term⟩ := by
  induction terms with
  | nil => rfl
  | cons first rest ih =>
      have onlyRest := fun entry inside => only entry (List.mem_cons_of_mem _ inside)
      by_cases same : term = first.term
      · obtain rfl := only first List.mem_cons_self same.symm
        simp
      · have different : first ≠ ⟨sign, term⟩ := fun equal => same (equal ▸ rfl)
        rw [List.eraseP_cons_of_neg (by simpa using same),
          List.erase_cons_tail (by simpa using different), ih onlyRest]

theorem count_cancelOne_of_mem {terms : List (Signed α)} {sign : Bool} {term : α}
    (inside : (⟨sign, term⟩ : Signed α) ∈ terms) (none : terms.count ⟨!sign, term⟩ = 0)
    (other : Signed α) : (cancelOne terms ⟨false, term⟩).count other =
      terms.count other - if ⟨sign, term⟩ = other then 1 else 0 := by
  have only : ∀ entry ∈ terms, entry.term = term → entry = ⟨sign, term⟩ := by
    rintro ⟨plus, same⟩ listed equal
    dsimp only at equal
    subst equal
    by_cases signs : plus = sign
    · rw [signs]
    · have flipped : plus = !sign := Bool.eq_not.mpr signs
      subst flipped
      exact absurd (List.count_pos_iff.mpr listed) (by omega)
  have found : terms.any (fun entry => decide (term = entry.term)) = true :=
    List.any_eq_true.mpr ⟨_, inside, by simp⟩
  have erased : terms.eraseP (fun entry => term = entry.term) = terms.erase ⟨sign, term⟩ :=
    eraseP_eq_erase only
  simp only [cancelOne, Bool.false_eq_true, if_false, found, if_true]
  rw [erased, List.count_erase]
  simp

theorem count_cancelOne_of_not_mem {terms : List (Signed α)} {term : α}
    (none : ∀ sign, terms.count ⟨sign, term⟩ = 0) (other : Signed α) :
    (cancelOne terms ⟨false, term⟩).count other =
      terms.count other + if ⟨false, term⟩ = other then 1 else 0 := by
  have absent : terms.any (fun entry => decide (term = entry.term)) = false := by
    rw [List.any_eq_false]
    rintro ⟨sign, same⟩ listed equal
    obtain rfl := of_decide_eq_true equal
    exact absurd (List.count_pos_iff.mpr listed) (by rw [none sign]; decide)
  simp only [cancelOne, Bool.false_eq_true, if_false, absent]
  rw [List.count_append, List.count_singleton]
  simp

theorem Taking.cancelOne {given taken : List α} {terms : List (Signed α)}
    (taking : Taking given taken terms) (term : α) :
    Taking given (taken ++ [term]) (Signed.cancelOne terms ⟨false, term⟩) := by
  obtain ⟨positive, negative⟩ := taking term
  have count : ∀ other, (taken ++ [term]).count other =
      taken.count other + if term = other then 1 else 0 := by
    intro other
    rw [List.count_append, List.count_singleton]
    simp
  -- A positive entry is left, or a negative one, or none: the counts of other terms stay.
  intro other
  obtain ⟨positive', negative'⟩ := taking other
  rw [count]
  by_cases some : 0 < terms.count ⟨true, term⟩
  · have steps := count_cancelOne_of_mem (List.count_pos_iff.mp some)
      (by rw [Bool.not_true]; omega)
    rw [steps, steps]
    by_cases same : term = other
    · subst same
      simp
      omega
    · simp [same]
      omega
  by_cases odd : 0 < terms.count ⟨false, term⟩
  · have steps := count_cancelOne_of_mem (List.count_pos_iff.mp odd)
      (by rw [Bool.not_false]; omega)
    rw [steps, steps]
    by_cases same : term = other
    · subst same
      simp
      omega
    · simp [same]
      omega
  · have none : ∀ sign, terms.count ⟨sign, term⟩ = 0 := by
      rintro (_ | _) <;> omega
    rw [count_cancelOne_of_not_mem none, count_cancelOne_of_not_mem none]
    by_cases same : term = other
    · subst same
      simp
      omega
    · simp [same]
      omega

theorem Taking.foldl {given taken : List α} {kept : List (Signed α)} (taking : Taking given taken kept)
    (terms : List (Signed α)) :
    Taking given (taken ++ withSign false terms) (terms.foldl Signed.cancelOne kept) := by
  induction terms generalizing kept taken with
  | nil => simpa [withSign] using taking
  | cons first rest ih =>
      obtain ⟨plus, term⟩ := first
      cases plus with
      | true =>
          have same : Signed.cancelOne kept ⟨true, term⟩ = kept := by simp [Signed.cancelOne]
          have signs : withSign false (⟨true, term⟩ :: rest) = withSign false rest := by
            simp [withSign]
          rw [List.foldl_cons, same, signs]
          exact ih taking
      | false =>
          have signs : withSign false (⟨false, term⟩ :: rest) = term :: withSign false rest := by
            simp [withSign]
          rw [List.foldl_cons, signs, List.append_cons]
          exact ih (taking.cancelOne term)

theorem taking_cancel (terms : List (Signed α)) :
    Taking (withSign true terms) (withSign false terms) (cancel terms) := by
  have start : Taking (withSign true terms) [] (terms.filter Signed.plus) := by
    intro term
    rw [count_withSign, List.count_nil]
    refine ⟨?_, ?_⟩
    · rw [List.count_filter (by rfl), Nat.sub_zero]
    · rw [Nat.zero_sub, Nat.zero_mod, List.count_eq_zero]
      simp [List.mem_filter]
  exact start.foldl terms

theorem withSign_cancel_true (terms : List (Signed α)) :
    (withSign true (cancel terms)).Perm (kept terms) := by
  rw [List.perm_iff_count]
  intro term
  rw [count_withSign, (taking_cancel terms term).1, kept, List.count_diff]

theorem count_withSign_cancel_false (terms : List (Signed α)) (term : α) :
    (withSign false (cancel terms)).count term = (owed terms).count term % 2 := by
  rw [count_withSign, (taking_cancel terms term).2, owed, List.count_diff]

/-- The difference of two sums is the one of what they do not share. -/
theorem sum_map_diff (f : α → G) (first second : List α) :
    ((first.diff second).map f).sum - ((second.diff first).map f).sum =
      (first.map f).sum - (second.map f).sum := by
  have split : ∀ left right : List α, left.Perm (left.diff right ++ left.bagInter right) := by
    intro left right
    rw [List.perm_iff_count]
    intro term
    rw [List.count_append, List.count_diff, List.count_bagInter]
    omega
  have shared : (first.bagInter second).Perm (second.bagInter first) := by
    rw [List.perm_iff_count]
    intro term
    rw [List.count_bagInter, List.count_bagInter, Nat.min_comm]
  rw [((split first second).map f).sum_eq, ((split second first).map f).sum_eq, List.map_append,
    List.map_append, List.sum_append, List.sum_append, (shared.map f).sum_eq,
    add_sub_add_right_eq_sub]

/-- Cancelling adds what is lost. -/
theorem sum_cancel (f : α → G) (terms : List (Signed α)) :
    sum f (cancel terms) = sum f terms + lost f terms := by
  have odd : ((withSign false (cancel terms)).map f).sum =
      ∑ term ∈ (owed terms).toFinset, ((owed terms).count term % 2) • f term := by
    rw [Finset.sum_list_map_count]
    simp only [count_withSign_cancel_false]
    refine Finset.sum_subset ?_ ?_
    · intro term inside
      rw [List.mem_toFinset, ← List.count_pos_iff, count_withSign_cancel_false] at inside
      exact List.mem_toFinset.mpr (List.count_pos_iff.mp (by omega))
    · intro term _ outside
      rw [List.mem_toFinset, ← List.count_pos_iff, count_withSign_cancel_false] at outside
      rw [Nat.eq_zero_of_not_pos outside, zero_nsmul]
  have all : ((owed terms).map f).sum =
      ∑ term ∈ (owed terms).toFinset, (owed terms).count term • f term :=
    Finset.sum_list_map_count ..
  have parts : ((owed terms).map f).sum = ((withSign false (cancel terms)).map f).sum + lost f terms := by
    rw [odd, all, lost, ← Finset.sum_add_distrib]
    refine Finset.sum_congr rfl fun term _ => ?_
    rw [← add_nsmul, Nat.mod_add_div]
  rw [sum_withSign, sum_withSign, ((withSign_cancel_true terms).map f).sum_eq,
    ← sum_map_diff f (withSign true terms)]
  change _ = ((kept terms).map f).sum - ((owed terms).map f).sum + _
  rw [parts]
  abel

end Signed

end OpenCLDecompiler.Library
