import Mathlib.Algebra.BigOperators.Group.List.Lemmas
import Mathlib.Algebra.Order.Ring.Int
import Mathlib.Logic.Relation
import Mathlib.Tactic.Linarith
import Mathlib.Tactic.Ring
import OpenCLDecompiler.Registers.Operations

/-!
# When maybe_simplify keeps the value

Combinations are matched by their types only.  So a sum keeps its value exactly if the terms
of every combination that is found are positive, and the number of groups is in none of them.
-/

namespace OpenCLDecompiler.Registers.Operations

open Library

/-! ## Values -/

/-- The quantities of a work item, and the values of the other names. -/
structure Assignment where
  item : WorkItem
  names : String → Int
  globalSize : ∀ dim, item.globalSize dim = item.numGroups dim * item.localSize dim

/-- What texts say; the built-in functions say what they are for. -/
structure Reading where
  eval : WorkItem → (String → Int) → String → Int
  globalId : ∀ item names dim, eval item names (globalIdText dim) = item.globalId dim
  globalSize : ∀ item names dim, eval item names (globalSizeText dim) = item.globalSize dim

variable (reading : Reading)

def TermValue.eval (σ : Assignment) : TermValue → Int
  | .number value => value
  | .text source => reading.eval σ.item σ.names source

def Term.eval (σ : Assignment) (term : Term) : Int :=
  match term.sign with
  | .positive => term.value.eval reading σ
  | .negative => -term.value.eval reading σ

/-- The signed sum or the product of the terms. -/
def evalTerms (σ : Assignment) (terms : List Term) : OperationType → Int
  | .plus => (terms.map (Term.eval reading σ)).sum
  | .product => (terms.map (Term.eval reading σ)).prod

def Content.eval (σ : Assignment) (content : Content) : Int :=
  evalTerms reading σ content.terms content.operation

/-- The type of a term names what its text says, for every work item. -/
def Term.Described (term : Term) : Prop :=
  ∀ σ : Assignment, ∀ type quantity, term.type = .item type → σ.item.quantity type = some quantity →
    term.value.eval reading σ = quantity

/-- A content whose types describe its terms. -/
structure DescribedContent extends Content where
  described : ∀ term ∈ terms, term.Described reading

namespace Simplified

def terms : Simplified → List Term
  | register term _ => [term]
  | operation content => content.terms

def eval (σ : Assignment) : Simplified → Int
  | register term _ => term.eval reading σ
  | operation content => content.eval reading σ

end Simplified

/-- `maybe_simplify` raises nothing, and what it returns has the same value and right types. -/
def SimplifiesRight (content : Content) : Prop :=
  ∃ outcome, maybeSimplify content = some outcome ∧ ∀ result, outcome = some result →
    (∀ σ, result.eval reading σ = content.eval reading σ) ∧
      ∀ term ∈ result.terms, term.Described reading

/-! ## When it is right -/

/-- The content `later` is met in the recursion. -/
def Meets : Content → Content → Prop :=
  Relation.ReflTransGen fun content next => simplifyStep content = some next

/-- The combination that is taken next is one of positive terms that make up a global id. -/
def TakesWhole (content : Content) : Prop :=
  findOpposite content.terms = none → ∀ combination positions,
    findCombination content.terms = some (combination, positions) →
      (∀ dim, combination ≠ globalSizeOfGroups dim) ∧
        ∀ i ∈ positions, ∀ term, content.terms[i]? = some term → term.sign = .positive

/-- The first terms of the pairs of opposite ones, and the terms that are left. -/
def cancelPairs (terms : List Term) : List Term × List Term :=
  match _ : findOpposite terms with
  | none => ([], terms)
  | some (i, j) =>
      let (pairs, rest) := cancelPairs (Positions.without [i, j] terms)
      (terms[i]?.toList ++ pairs, rest)
termination_by terms.length
decreasing_by
  obtain ⟨first, second, -, -, -, -, perm⟩ := perm_opposite ‹findOpposite terms = some (i, j)›
  rw [← perm.length_eq]
  exact Nat.lt_succ_of_lt (Nat.lt_succ_self _)

/-- A content with one term has the lists that `maybe_simplify` reads. -/
def HasExtents (content : Content) : Prop :=
  ∀ term, content.terms = [term] → ∃ first rest, content.extents = .each (first :: rest)

/-- The factors that are taken out make 1, or there is a factor 0. -/
def CancelsOnes (σ : Assignment) (terms : List Term) : Prop :=
  ((cancelPairs terms).2.map (Term.eval reading σ)).prod = 0 ∨
    Even (cancelPairs terms).1.length ∧
      ((cancelPairs terms).1.map (Term.eval reading σ)).prod ^ 2 = 1

/-- The condition under which `maybe_simplify` is right. -/
def Simplifiable (content : Content) : Prop :=
  HasExtents content ∧ match content.operation with
    | .plus => ∀ later, Meets content later → TakesWhole later
    | .product => ∀ σ, CancelsOnes reading σ content.terms

/-! ## The end of the recursion -/

/-- The content without opposite terms and combinations. -/
def normalForm (content : Content) : Content :=
  match _ : simplifyStep content with
  | none => content
  | some next => normalForm next
termination_by content.terms.length
decreasing_by exact length_simplifyStep ‹simplifyStep content = some next›

theorem normalForm_of_none {content : Content} (ended : simplifyStep content = none) :
    normalForm content = content := by
  rw [normalForm]
  split
  · rfl
  · rename_i next stepped
    rw [ended] at stepped
    cases stepped

theorem normalForm_of_some {content next : Content} (stepped : simplifyStep content = some next) :
    normalForm content = normalForm next := by
  rw [normalForm]
  split
  · rename_i ended
    rw [ended] at stepped
    cases stepped
  · rename_i other again
    rw [stepped] at again
    cases again
    rfl

/-- The two ways in which a content becomes another one. -/
theorem simplifyStep_cases {content next : Content} (stepped : simplifyStep content = some next) :
    (∃ i j, findOpposite content.terms = some (i, j) ∧ next = content.without [i, j]) ∨
      findOpposite content.terms = none ∧ content.operation = .plus ∧ ∃ combination positions,
        findCombination content.terms = some (combination, positions) ∧
          next = (content.without positions).combine combination := by
  rw [simplifyStep] at stepped
  split at stepped
  · rename_i i j found
    cases stepped
    exact .inl ⟨i, j, found, rfl⟩
  · rename_i none
    split at stepped
    · rename_i plus
      obtain ⟨⟨combination, positions⟩, found, rfl⟩ := Option.map_eq_some_iff.mp stepped
      exact .inr ⟨none, plus, combination, positions, found, rfl⟩
    · cases stepped

theorem operation_step {content next : Content} (stepped : simplifyStep content = some next) :
    next.operation = content.operation := by
  rcases simplifyStep_cases stepped with ⟨i, j, -, rfl⟩ | ⟨-, -, combination, positions, -, rfl⟩ <;> rfl

theorem hasExtents_step {content next : Content} (stepped : simplifyStep content = some next) :
    HasExtents next := by
  intro term single
  have size := congrArg List.length single
  rcases simplifyStep_cases stepped with ⟨i, j, -, rfl⟩ | ⟨-, -, combination, positions, -, rfl⟩
  · refine ⟨content.extents, [], ?_⟩
    obtain ⟨kept, isKept⟩ := List.length_eq_one_iff.mp size
    show Extents.each (List.map _ _) = _
    rw [show Positions.without [i, j] content.terms = [kept] from isKept]
    rfl
  · have none : Positions.without positions content.terms = [] := by
      have total : (Positions.without positions content.terms ++ [_]).length = 1 := size
      rw [List.length_append, List.length_singleton] at total
      exact List.length_eq_zero_iff.mp (by omega)
    refine ⟨.one defaultRegisterSize .none, [], ?_⟩
    show Extents.append (.each (List.map _ _)) = _
    rw [none]
    rfl

theorem simplifyStep_single {content : Content} {term : Term} (single : content.terms = [term]) :
    simplifyStep content = none := by
  cases stepped : simplifyStep content with
  | none => rfl
  | some next =>
      rcases simplifyStep_cases stepped with ⟨i, j, found, -⟩ | ⟨-, -, combination, positions, found, -⟩
      · obtain ⟨first, second, -, -, -, -, perm⟩ := perm_opposite found
        rw [single] at perm
        have size := perm.length_eq
        simp at size
      · obtain ⟨taken, matched⟩ := findCombination_eq_some found
        have size := matched.perm.length_eq
        have types := congrArg List.length matched.types
        have several := length_types combination matched.inside
        rw [single, List.length_append, List.length_singleton] at size
        rw [List.length_map, List.length_map] at types
        omega

/-- Without lists of extents a single term raises an exception. -/
theorem hasExtents_of_maybeSimplify {content : Content} {outcome : Option Simplified}
    (ran : maybeSimplify content = some outcome) : HasExtents content := by
  intro term single
  rw [maybeSimplify] at ran
  simp only [single] at ran
  obtain ⟨first, isFirst, -⟩ := Option.map_eq_some_iff.mp ran
  cases extents : content.extents with
  | one size dataType =>
      rw [extents] at isFirst
      cases isFirst
  | each list =>
      cases list with
      | nil =>
          rw [extents] at isFirst
          cases isFirst
      | cons other rest => exact ⟨other, rest, rfl⟩

/-- What is returned has the terms and the value of the normal form. -/
theorem maybeSimplify_normalForm {content : Content} (extents : HasExtents content) :
    ∃ outcome, maybeSimplify content = some outcome ∧
      (outcome = none → normalForm content = content) ∧
      ∀ result, outcome = some result → result.terms = (normalForm content).terms ∧
        ∀ σ, result.eval reading σ = (normalForm content).eval reading σ := by
  induction size : content.terms.length using Nat.strong_induction_on generalizing content with
  | _ length ih =>
      rw [maybeSimplify]
      split
      · rename_i term single
        obtain ⟨first, rest, listed⟩ := extents term single
        refine ⟨some (.register term first), by rw [listed]; rfl, fun nothing => (by cases nothing), ?_⟩
        rintro result ⟨⟩
        rw [normalForm_of_none (simplifyStep_single single), single]
        refine ⟨rfl, fun σ => ?_⟩
        rw [Simplified.eval, Content.eval, single]
        cases content.operation <;> simp [evalTerms]
      · split
        · rename_i ended
          refine ⟨none, rfl, fun _ => normalForm_of_none ended, ?_⟩
          rintro result ⟨⟩
        · rename_i next stepped
          obtain ⟨outcome, ran, idle, holds⟩ :=
            ih _ (size ▸ length_simplifyStep stepped) (hasExtents_step stepped) rfl
          rw [ran, normalForm_of_some stepped]
          refine ⟨some (outcome.getD (.operation next)), rfl, fun nothing => (by cases nothing), ?_⟩
          rintro result ⟨⟩
          cases outcome with
          | none =>
              rw [idle rfl]
              exact ⟨rfl, fun _ => rfl⟩
          | some result => exact holds result rfl

/-! ## Sums -/

/-- Opposite terms add up to 0. -/
theorem eval_opposite {first second : Term} (σ : Assignment) (value : first.value = second.value)
    (sign : first.sign ≠ second.sign) : second.eval reading σ = -first.eval reading σ := by
  obtain ⟨value₁, type₁, sign₁⟩ := first
  obtain ⟨value₂, type₂, sign₂⟩ := second
  cases value
  cases sign₁ <;> cases sign₂ <;> simp_all [Term.eval]

/-- The quantity of a type, for a type that names one. -/
def amount (item : WorkItem) (type : RegisterType) : Int := ((item.quantity type).getD 0 : Nat)

def TermType.amount (item : WorkItem) : TermType → Int
  | .item type => Operations.amount item type
  | .other _ => 0

/-- The four combinations, each in every dimension. -/
theorem combinations_cases {combination : Combination} (inside : combination ∈ combinations) :
    ∃ dim, combination = globalIdOfThree dim ∨ combination = globalIdOfOffset dim ∨
      combination = globalIdOfItem dim ∨ combination = globalSizeOfGroups dim := by
  simp only [combinations, List.mem_append, List.mem_map] at inside
  obtain ((⟨dim, -, rfl⟩ | ⟨dim, -, rfl⟩) | ⟨dim, -, rfl⟩) | ⟨dim, -, rfl⟩ := inside
  · exact ⟨dim, .inl rfl⟩
  · exact ⟨dim, .inr (.inl rfl)⟩
  · exact ⟨dim, .inr (.inr (.inl rfl))⟩
  · exact ⟨dim, .inr (.inr (.inr rfl))⟩

/-- The combinations of a global id are right for every work item. -/
theorem amount_globalId (item : WorkItem) {combination : Combination}
    (inside : combination ∈ combinations) (noSize : ∀ dim, combination ≠ globalSizeOfGroups dim) :
    (combination.types.map (amount item)).sum = amount item combination.type := by
  obtain ⟨dim, rfl | rfl | rfl | rfl⟩ := combinations_cases inside
  · simp [globalIdOfThree, amount, WorkItem.quantity, WorkItem.globalId]
    ring
  · simp [globalIdOfOffset, amount, WorkItem.quantity, WorkItem.globalId]
    ring
  · simp [globalIdOfItem, amount, WorkItem.quantity, WorkItem.globalId]
    ring
  · exact absurd rfl (noSize dim)

/-- Every type of a combination names a quantity. -/
theorem quantity_of_mem_types (item : WorkItem) {combination : Combination}
    (inside : combination ∈ combinations) :
    ∀ type ∈ combination.types, item.quantity type = some (amount item type).toNat := by
  obtain ⟨dim, rfl | rfl | rfl | rfl⟩ := combinations_cases inside <;>
    simp [globalIdOfThree, globalIdOfOffset, globalIdOfItem, globalSizeOfGroups, amount,
      WorkItem.quantity]

theorem eval_combination (σ : Assignment) {combination : Combination}
    (inside : combination ∈ combinations) :
    reading.eval σ.item σ.names combination.value = amount σ.item combination.type := by
  obtain ⟨dim, rfl | rfl | rfl | rfl⟩ := combinations_cases inside <;>
    simp [globalIdOfThree, globalIdOfOffset, globalIdOfItem, globalSizeOfGroups, amount,
      WorkItem.quantity, reading.globalId, reading.globalSize]

section Taken

variable {reading} {content : Content} {combination : Combination} {positions : List Nat}
  {taken : List Term}

theorem mem_of_matched (matched : Matched content.terms combination positions taken) {term : Term}
    (inside : term ∈ taken) : term ∈ content.terms :=
  matched.perm.subset (List.mem_append_left _ inside)

/-- The texts of the terms that are taken out say the quantities of the combination. -/
theorem values_of_matched (matched : Matched content.terms combination positions taken)
    (described : ∀ term ∈ content.terms, term.Described reading) (σ : Assignment) :
    taken.map (fun term => term.value.eval reading σ) = combination.types.map (amount σ.item) := by
  have each : ∀ term ∈ taken, term.value.eval reading σ = term.type.amount σ.item := by
    intro term inside
    have isType : term.type ∈ combination.types.map TermType.item :=
      matched.types ▸ List.mem_map_of_mem inside
    obtain ⟨type, member, same⟩ := List.mem_map.mp isType
    have named := quantity_of_mem_types σ.item matched.inside type member
    rw [described term (mem_of_matched matched inside) σ type _ same.symm named, ← same]
    exact Int.toNat_of_nonneg (Int.natCast_nonneg _)
  calc taken.map (fun term => term.value.eval reading σ)
      = taken.map (fun term => term.type.amount σ.item) := List.map_congr_left each
    _ = (taken.map Term.type).map (TermType.amount σ.item) := by rw [List.map_map, Function.comp_def]
    _ = (combination.types.map TermType.item).map (TermType.amount σ.item) := by rw [matched.types]
    _ = combination.types.map (amount σ.item) := by rw [List.map_map]; rfl

/-- What the step changes: the terms of the combination for its value. -/
theorem eval_combine (plus : content.operation = .plus)
    (matched : Matched content.terms combination positions taken) (σ : Assignment) :
    ((content.without positions).combine combination).eval reading σ +
        (taken.map (Term.eval reading σ)).sum =
      content.eval reading σ + amount σ.item combination.type := by
  have total := (matched.perm.map (Term.eval reading σ)).sum_eq
  rw [List.map_append, List.sum_append] at total
  have after : ((content.without positions).combine combination).eval reading σ =
      ((Positions.without positions content.terms).map (Term.eval reading σ)).sum +
        amount σ.item combination.type := by
    show evalTerms reading σ (_ ++ [_]) content.operation = _
    rw [plus, evalTerms, List.map_append, List.sum_append, List.map_singleton, List.sum_singleton]
    exact congrArg _ (eval_combination reading σ matched.inside)
  rw [after, Content.eval, plus, evalTerms, ← total]
  ring

theorem sum_eval_of_positive {terms : List Term} (positive : ∀ term ∈ terms, term.sign = .positive)
    (σ : Assignment) :
    (terms.map (Term.eval reading σ)).sum =
      (terms.map fun term => term.value.eval reading σ).sum := by
  congr 1
  refine List.map_congr_left fun term inside => ?_
  rw [Term.eval, positive term inside]

/-- A negative term makes a sum of positive values smaller. -/
theorem sum_eval_le {terms : List Term} {σ : Assignment}
    (above : ∀ term ∈ terms, 0 < term.value.eval reading σ) :
    (terms.map (Term.eval reading σ)).sum ≤
        (terms.map fun term => term.value.eval reading σ).sum ∧
      ((terms.map (Term.eval reading σ)).sum =
          (terms.map fun term => term.value.eval reading σ).sum →
        ∀ term ∈ terms, term.sign = .positive) := by
  induction terms with
  | nil => exact ⟨le_rfl, fun _ _ inside => by cases inside⟩
  | cons first rest ih =>
      rw [List.forall_mem_cons] at above
      obtain ⟨smaller, equal⟩ := ih above.2
      have here := above.1
      rw [List.map_cons, List.map_cons, List.sum_cons, List.sum_cons]
      cases sign : first.sign with
      | positive =>
          rw [Term.eval, sign]
          refine ⟨by dsimp only; omega, fun same => List.forall_mem_cons.mpr ⟨sign, equal ?_⟩⟩
          dsimp only at same
          omega
      | negative =>
          rw [Term.eval, sign]
          refine ⟨by dsimp only; omega, fun same => ?_⟩
          dsimp only at same
          omega

end Taken

/-! ### A work item that shows a wrong combination -/

/-- One of three groups of two. -/
def sampleItem : WorkItem where
  localId _ := 1
  groupId _ := 1
  localSize _ := 2
  globalSize _ := 6
  numGroups _ := 3
  globalOffset _ := 1
  workDim := 3

def sample : Assignment := ⟨sampleItem, fun _ => 0, fun _ => rfl⟩

theorem amount_sample_pos : ∀ combination ∈ combinations, ∀ type ∈ combination.types,
    0 < amount sampleItem type := by decide

theorem amount_sample_le : ∀ combination ∈ combinations,
    (combination.types.map (amount sampleItem)).sum ≤ amount sampleItem combination.type := by decide

theorem amount_sample_lt (dim : Dim) :
    ((globalSizeOfGroups dim).types.map (amount sampleItem)).sum <
      amount sampleItem (globalSizeOfGroups dim).type := by
  cases dim <;> decide

/-! ### The steps of a sum -/

section Sum

variable {reading} {content next : Content}

theorem eval_without {i j : Nat} (plus : content.operation = .plus)
    (found : findOpposite content.terms = some (i, j)) (σ : Assignment) :
    (content.without [i, j]).eval reading σ = content.eval reading σ := by
  obtain ⟨first, second, -, value, sign, -, perm⟩ := perm_opposite found
  have total := (perm.map (Term.eval reading σ)).sum_eq
  rw [List.map_cons, List.map_cons, List.sum_cons, List.sum_cons,
    eval_opposite reading σ value sign] at total
  show evalTerms reading σ (Positions.without [i, j] content.terms) content.operation = _
  rw [Content.eval, plus, evalTerms, evalTerms, ← total]
  ring

theorem described_step (described : ∀ term ∈ content.terms, term.Described reading)
    (stepped : simplifyStep content = some next) : ∀ term ∈ next.terms, term.Described reading := by
  rcases simplifyStep_cases stepped with
    ⟨i, j, found, rfl⟩ | ⟨-, -, combination, positions, found, rfl⟩
  · obtain ⟨first, second, -, -, -, -, perm⟩ := perm_opposite found
    exact fun term inside => described term
      (perm.subset (List.mem_cons_of_mem _ (List.mem_cons_of_mem _ inside)))
  · obtain ⟨taken, matched⟩ := findCombination_eq_some found
    refine List.forall_mem_append.mpr ⟨fun term inside => described term
      (matched.perm.subset (List.mem_append_right _ inside)), List.forall_mem_singleton.mpr ?_⟩
    intro σ type quantity isType named
    cases isType
    show reading.eval σ.item σ.names combination.value = quantity
    rw [eval_combination reading σ matched.inside, amount, named, Option.getD_some]

/-- A step keeps the value for every work item if its combination is a whole one. -/
theorem eval_step_of_takesWhole (plus : content.operation = .plus)
    (described : ∀ term ∈ content.terms, term.Described reading)
    (stepped : simplifyStep content = some next) (whole : TakesWhole content) (σ : Assignment) :
    next.eval reading σ = content.eval reading σ := by
  rcases simplifyStep_cases stepped with
    ⟨i, j, found, rfl⟩ | ⟨none, -, combination, positions, found, rfl⟩
  · exact eval_without plus found σ
  · obtain ⟨noSize, positive⟩ := whole none combination positions found
    obtain ⟨taken, matched⟩ := findCombination_eq_some found
    have signs : ∀ term ∈ taken, term.sign = .positive := by
      intro term inside
      obtain ⟨position, member, here⟩ := matched.here.exists_position inside
      exact positive position member term here
    have change := @eval_combine reading _ _ _ _ plus matched σ
    rw [sum_eval_of_positive signs, values_of_matched matched described,
      amount_globalId σ.item matched.inside noSize] at change
    omega

/-- For the sample a step makes the value larger, unless its combination is a whole one. -/
theorem eval_step_sample (plus : content.operation = .plus)
    (described : ∀ term ∈ content.terms, term.Described reading)
    (stepped : simplifyStep content = some next) :
    content.eval reading sample ≤ next.eval reading sample ∧
      (next.eval reading sample = content.eval reading sample → TakesWhole content) := by
  rcases simplifyStep_cases stepped with
    ⟨i, j, found, rfl⟩ | ⟨none, -, combination, positions, found, rfl⟩
  · refine ⟨(eval_without plus found sample).ge, fun _ none => ?_⟩
    rw [found] at none
    cases none
  · obtain ⟨taken, matched⟩ := findCombination_eq_some found
    have change := @eval_combine reading _ _ _ _ plus matched sample
    have values := values_of_matched matched described sample
    have above : ∀ term ∈ taken, 0 < term.value.eval reading sample := by
      intro term inside
      have member := List.mem_map_of_mem (f := fun term => term.value.eval reading sample) inside
      rw [values] at member
      obtain ⟨type, isType, same⟩ := List.mem_map.mp member
      rw [← same]
      exact amount_sample_pos combination matched.inside type isType
    obtain ⟨smaller, equal⟩ := sum_eval_le above
    have most := amount_sample_le combination matched.inside
    rw [values] at smaller equal
    have item : sample.item = sampleItem := rfl
    rw [item] at change smaller equal
    refine ⟨by omega, fun same => ?_⟩
    rintro - other places again
    rw [found] at again
    cases again
    refine ⟨?_, fun i inside term here => ?_⟩
    · rintro dim rfl
      have less := amount_sample_lt dim
      omega
    · obtain ⟨element, member, there⟩ := matched.here.exists_of_mem inside
      rw [here] at there
      cases there
      exact equal (by omega) term member

theorem takesWhole_of_none (ended : simplifyStep content = none) (plus : content.operation = .plus) :
    TakesWhole content := by
  intro none combination positions found
  rw [simplifyStep, none, plus] at ended
  simp only [found, Option.map_some] at ended
  cases ended

theorem described_normalForm (described : ∀ term ∈ content.terms, term.Described reading) :
    ∀ term ∈ (normalForm content).terms, term.Described reading := by
  induction size : content.terms.length using Nat.strong_induction_on generalizing content with
  | _ length ih =>
      cases stepped : simplifyStep content with
      | none => rwa [normalForm_of_none stepped]
      | some next =>
          rw [normalForm_of_some stepped]
          exact ih _ (size ▸ length_simplifyStep stepped) (described_step described stepped) rfl

/-- The value is kept if every combination on the way is a whole one. -/
theorem eval_normalForm_of_takesWhole (plus : content.operation = .plus)
    (described : ∀ term ∈ content.terms, term.Described reading)
    (whole : ∀ later, Meets content later → TakesWhole later) (σ : Assignment) :
    (normalForm content).eval reading σ = content.eval reading σ := by
  induction size : content.terms.length using Nat.strong_induction_on generalizing content with
  | _ length ih =>
      cases stepped : simplifyStep content with
      | none => rw [normalForm_of_none stepped]
      | some next =>
          have first := whole content .refl
          have rest : ∀ later, Meets next later → TakesWhole later :=
            fun later met => whole later (.head stepped met)
          rw [normalForm_of_some stepped,
            ih _ (size ▸ length_simplifyStep stepped) ((operation_step stepped).trans plus)
              (described_step described stepped) rest rfl]
          exact eval_step_of_takesWhole plus described stepped first σ

/-- For the sample the value only grows, so it stays the same in every step or in none. -/
theorem eval_normalForm_sample (plus : content.operation = .plus)
    (described : ∀ term ∈ content.terms, term.Described reading) :
    content.eval reading sample ≤ (normalForm content).eval reading sample ∧
      ((normalForm content).eval reading sample = content.eval reading sample →
        ∀ later, Meets content later → TakesWhole later) := by
  induction size : content.terms.length using Nat.strong_induction_on generalizing content with
  | _ length ih =>
      cases stepped : simplifyStep content with
      | none =>
          rw [normalForm_of_none stepped]
          refine ⟨le_rfl, fun _ later met => ?_⟩
          rcases met.cases_head with rfl | ⟨next, again, -⟩
          · exact takesWhole_of_none stepped plus
          · rw [stepped] at again
            cases again
      | some next =>
          obtain ⟨larger, whole⟩ := eval_step_sample plus described stepped
          obtain ⟨largerRest, wholeRest⟩ := ih _ (size ▸ length_simplifyStep stepped)
            ((operation_step stepped).trans plus) (described_step described stepped) rfl
          rw [normalForm_of_some stepped]
          refine ⟨larger.trans largerRest, fun same later met => ?_⟩
          rcases met.cases_head with rfl | ⟨other, again, met⟩
          · exact whole (by omega)
          · rw [stepped] at again
            cases again
            exact wholeRest (by omega) later met

end Sum

/-! ## Products -/

section Product

variable {reading} {content next : Content} {terms : List Term}

theorem cancelPairs_of_none (none : findOpposite terms = none) : cancelPairs terms = ([], terms) := by
  rw [cancelPairs]
  split
  · rfl
  · rename_i found
    rw [none] at found
    cases found

theorem cancelPairs_of_some {i j : Nat} (found : findOpposite terms = some (i, j)) :
    cancelPairs terms = (terms[i]?.toList ++ (cancelPairs (Positions.without [i, j] terms)).1,
      (cancelPairs (Positions.without [i, j] terms)).2) := by
  rw [cancelPairs]
  split
  · rename_i none
    rw [found] at none
    cases none
  · rename_i again
    rw [found] at again
    cases again
    rfl

/-- The recursion over a product takes out the pairs. -/
theorem normalForm_product (product : content.operation = .product) :
    (normalForm content).terms = (cancelPairs content.terms).2 ∧
      (normalForm content).operation = .product := by
  induction size : content.terms.length using Nat.strong_induction_on generalizing content with
  | _ length ih =>
      cases stepped : simplifyStep content with
      | none =>
          rw [normalForm_of_none stepped]
          rw [simplifyStep, product] at stepped
          split at stepped
          · cases stepped
          · rename_i none
            exact ⟨by rw [cancelPairs_of_none none], product⟩
      | some next =>
          rw [normalForm_of_some stepped]
          obtain ⟨rest, still⟩ := ih _ (size ▸ length_simplifyStep stepped)
            ((operation_step stepped).trans product) rfl
          rcases simplifyStep_cases stepped with ⟨i, j, found, rfl⟩ | ⟨-, plus, -⟩
          · exact ⟨rest.trans (by rw [cancelPairs_of_some found]; rfl), still⟩
          · rw [product] at plus
            cases plus

/-- Every pair leaves the square of its factor behind, and a sign. -/
theorem prod_cancelPairs (σ : Assignment) :
    (terms.map (Term.eval reading σ)).prod =
      (-1) ^ (cancelPairs terms).1.length *
        ((cancelPairs terms).1.map (Term.eval reading σ)).prod ^ 2 *
          ((cancelPairs terms).2.map (Term.eval reading σ)).prod := by
  induction size : terms.length using Nat.strong_induction_on generalizing terms with
  | _ length ih =>
      cases found : findOpposite terms with
      | none => simp [cancelPairs_of_none found]
      | some positions =>
          obtain ⟨i, j⟩ := positions
          obtain ⟨first, second, -, value, sign, here, perm⟩ := perm_opposite found
          have fewer : (Positions.without [i, j] terms).length < length := by
            rw [← size, ← perm.length_eq]
            exact Nat.lt_succ_of_lt (Nat.lt_succ_self _)
          have total := (perm.map (Term.eval reading σ)).prod_eq
          rw [List.map_cons, List.map_cons, List.prod_cons, List.prod_cons,
            eval_opposite reading σ value sign, ih _ fewer rfl] at total
          rw [← total, cancelPairs_of_some found, here, Option.toList_some, List.singleton_append,
            List.map_cons, List.prod_cons, List.length_cons, pow_succ]
          ring

theorem cancelsOnes_iff (σ : Assignment) :
    ((cancelPairs terms).2.map (Term.eval reading σ)).prod = (terms.map (Term.eval reading σ)).prod ↔
      CancelsOnes reading σ terms := by
  have whole := @prod_cancelPairs reading terms σ
  rw [CancelsOnes, whole]
  generalize (cancelPairs terms).1.length = count
  generalize ((cancelPairs terms).1.map (Term.eval reading σ)).prod = pairs
  generalize ((cancelPairs terms).2.map (Term.eval reading σ)).prod = rest
  have square : 0 ≤ pairs ^ 2 := sq_nonneg pairs
  rcases Int.even_or_odd (count : Int) with even | odd
  · have even : Even count := by exact_mod_cast even
    have sign : (-1 : Int) ^ count = 1 := even.neg_one_pow
    rw [sign, one_mul, eq_comm, mul_left_eq_self₀, or_comm]
    simp [even]
  · have odd : Odd count := by exact_mod_cast odd
    have notEven : ¬Even count := Nat.not_even_iff_odd.mpr odd
    have sign : (-1 : Int) ^ count = -1 := odd.neg_one_pow
    rw [sign]
    simp only [notEven, false_and, or_false]
    constructor
    · intro same
      have zero : (pairs ^ 2 + 1) * rest = 0 := by linarith
      exact (mul_eq_zero.mp zero).resolve_left (by omega)
    · rintro rfl
      ring

end Product

/-! ## Both operations -/

theorem simplifiesRight_of_normalForm {content : Content} (extents : HasExtents content)
    (described : ∀ term ∈ content.terms, term.Described reading)
    (same : ∀ σ, (normalForm content).eval reading σ = content.eval reading σ) :
    SimplifiesRight reading content := by
  obtain ⟨outcome, ran, -, holds⟩ := maybeSimplify_normalForm reading extents
  refine ⟨outcome, ran, fun result is => ?_⟩
  obtain ⟨terms, value⟩ := holds result is
  exact ⟨fun σ => (value σ).trans (same σ), terms ▸ described_normalForm described⟩

theorem normalForm_of_simplifiesRight {content : Content} (right : SimplifiesRight reading content) :
    HasExtents content ∧ ∀ σ, (normalForm content).eval reading σ = content.eval reading σ := by
  obtain ⟨outcome, ran, holds⟩ := right
  have extents := hasExtents_of_maybeSimplify ran
  refine ⟨extents, fun σ => ?_⟩
  obtain ⟨other, again, idle, value⟩ := maybeSimplify_normalForm reading extents
  rw [ran] at again
  cases again
  cases outcome with
  | none => rw [idle rfl]
  | some result => exact ((value result rfl).2 σ).symm.trans ((holds result rfl).1 σ)

/-- `maybe_simplify` keeps the value of a sum exactly if every combination that it puts in the place
of terms is one of positive terms that make up a global id, and the value of a product exactly if
the pairs that it takes out make 1 or leave a factor 0. -/
theorem simplifiesRight_iff (content : DescribedContent reading) :
    SimplifiesRight reading content.toContent ↔ Simplifiable reading content.toContent := by
  obtain ⟨content, described⟩ := content
  constructor
  · intro right
    obtain ⟨extents, same⟩ := normalForm_of_simplifiesRight reading right
    refine ⟨extents, ?_⟩
    cases operation : content.operation with
    | plus => exact (eval_normalForm_sample operation described).2 (same sample)
    | product =>
        intro σ
        obtain ⟨rest, still⟩ := normalForm_product operation
        have equal := same σ
        rw [Content.eval, Content.eval, still, operation, rest] at equal
        exact (cancelsOnes_iff σ).mp equal
  · rintro ⟨extents, condition⟩
    refine simplifiesRight_of_normalForm reading extents described fun σ => ?_
    cases operation : content.operation with
    | plus =>
        simp only [operation] at condition
        exact eval_normalForm_of_takesWhole operation described condition σ
    | product =>
        simp only [operation] at condition
        obtain ⟨rest, still⟩ := normalForm_product operation
        rw [Content.eval, Content.eval, still, operation, rest]
        exact (cancelsOnes_iff σ).mpr (condition σ)

/-! ### A number of groups that is added -/

def groupsText : String := "get_num_groups(0)"

/-- The text of a group id times its work group's size. -/
def offsetText : String := "get_group_id(0) * get_local_size(0)"

/-- What the built-in functions of one dimension say; the other texts are names. -/
def functionQuantity (item : WorkItem) (dim : Dim) (source : String) : Option Nat :=
  if source = globalIdText dim then some (item.globalId dim)
  else if source = globalSizeText dim then some (item.globalSize dim)
  else none

/-- A reading of the built-in functions and of the two texts. -/
def plainReading : Reading where
  eval item names source :=
    if source = groupsText then item.numGroups .x
    else if source = offsetText then item.groupId .x * item.localSize .x
    else match dims.findSome? fun dim => functionQuantity item dim source with
      | some quantity => quantity
      | none => names source
  globalId item names dim := by cases dim <;> rfl
  globalSize item names dim := by cases dim <;> rfl

/-- The content of `get_num_groups(0) + get_group_id(0) * get_local_size(0)`. -/
def groupsAndOffset : DescribedContent plainReading where
  operation := .plus
  terms := [⟨.text groupsText, .item (.numGroups .x), .positive⟩,
    ⟨.text offsetText, .item (.workGroupIdLocalSize .x), .positive⟩]
  extents := .one defaultRegisterSize (some "u32")
  described := by
    refine List.forall_mem_cons.mpr ⟨?_, List.forall_mem_singleton.mpr ?_⟩
    · rintro σ type quantity ⟨⟩ ⟨⟩
      rfl
    · rintro σ type quantity ⟨⟩ ⟨⟩
      exact (Nat.cast_mul _ _).symm

theorem not_simplifiesRight_groups :
    ¬SimplifiesRight plainReading groupsAndOffset.toContent := by
  intro right
  have same := (normalForm_of_simplifiesRight plainReading right).2 sample
  have whole := (eval_normalForm_sample rfl groupsAndOffset.described).2 same _ .refl
  have found : findCombination groupsAndOffset.terms = some (globalSizeOfGroups .x, [0, 1]) := by
    decide
  exact (whole (by decide) _ _ found).1 .x rfl

end OpenCLDecompiler.Registers.Operations
