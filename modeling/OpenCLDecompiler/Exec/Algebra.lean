import OpenCLDecompiler.Exec.Conditions

/-!
# The algebra of execution conditions

`&`, `|` and `^` of conjunctions of literals against the operations on truth values.
-/

namespace OpenCLDecompiler

namespace ExecCondition

/-! ## Literals -/

/-- The shape in which `make_not` finds a negation. -/
def Negated (text : String) : Prop :=
  3 ≤ text.toList.length ∧ text.toList.take 2 = ['!', '('] ∧ text.toList.getLast? = some ')'

def Atomic (text : String) : Prop := text ≠ defaultCondition ∧ ¬Negated text

/-- An atomic condition or its negation. -/
def Literal (text : String) : Prop := Atomic text ∨ ∃ atom, Atomic atom ∧ text = makeNot atom

theorem makeNot_atomic {atom : String} (atomic : Atomic atom) :
    makeNot atom = "!(" ++ atom ++ ")" :=
  if_neg atomic.2

theorem makeNot_makeNot {text : String} (literal : Literal text) :
    makeNot (makeNot text) = text := by
  have twice : ∀ {atom : String}, Atomic atom → makeNot (makeNot atom) = atom := by
    intro atom atomic
    have closed : ('(' :: (atom.toList ++ [')'])).getLast? = some ')' := by
      rw [← List.cons_append]
      exact List.getLast?_concat
    rw [makeNot_atomic atomic, makeNot]
    simp [closed]
  obtain atomic | ⟨atom, atomic, rfl⟩ := literal
  · exact twice atomic
  · rw [twice atomic]

theorem areNegations_comm (left right : String) :
    areNegations left right = areNegations right left :=
  Bool.or_comm ..

theorem eq_makeNot_of_areNegations {left right : String} (literal : Literal left)
    (negations : areNegations left right = true) : left = makeNot right := by
  rw [areNegations, Bool.or_eq_true, beq_iff_eq, beq_iff_eq] at negations
  rcases negations with same | rfl
  · exact same
  · exact (makeNot_makeNot literal).symm

/-- A conjunction of literals. -/
structure Conjunction where
  cond : ExecCondition
  literals : ∀ text ∈ cond.conditionSet, Literal text

/-- The atoms hold as given. -/
def valuationOf (atoms : String → Bool) : Valuation :=
  .ofAtoms fun text => atoms (String.ofList text)

theorem truth_atomic (atoms : String → Bool) {text : String} (atomic : Atomic text) :
    (valuationOf atoms).truth text = atoms text := by
  have some : text.toList ≠ [] := fun none => atomic.1 (String.toList_injective none)
  have plain : ¬(3 ≤ text.toList.length ∧ text.toList.take 2 = ['!', '('] ∧
      text.toList.getLast? = Option.some ')') := atomic.2
  rw [valuationOf, Valuation.ofAtoms]
  dsimp only
  rw [truthOf, if_neg some, if_neg plain, String.ofList_toList]

/-- All atoms hold but these two. -/
def allBut (first second : String) : Valuation :=
  valuationOf fun atom => decide (atom ≠ first ∧ atom ≠ second)

/-- Literals that do not negate each other fail together. -/
theorem literals_fail {first second : String} (firstLiteral : Literal first)
    (secondLiteral : Literal second) (unrelated : areNegations first second = false) :
    (allBut first second).truth first = false ∧ (allBut first second).truth second = false := by
  constructor
  · obtain atomic | ⟨atom, atomic, rfl⟩ := firstLiteral
    · simp [allBut, truth_atomic _ atomic]
    · have apart : atom ≠ second := by
        rintro rfl
        simp [areNegations] at unrelated
      simp [allBut, truth_makeNot, truth_atomic _ atomic, (makeNot_ne atom).symm, apart]
  · obtain atomic | ⟨atom, atomic, rfl⟩ := secondLiteral
    · simp [allBut, truth_atomic _ atomic]
    · have apart : atom ≠ first := by
        rintro rfl
        simp [areNegations] at unrelated
      simp [allBut, truth_makeNot, truth_atomic _ atomic, (makeNot_ne atom).symm, apart]

/-- An atom and its negation are among the conditions. -/
def Contradictory (cond : ExecCondition) : Prop :=
  ∃ atom ∈ cond.conditionSet, makeNot atom ∈ cond.conditionSet

theorem not_eval_of_contradictory {cond : ExecCondition} (contradictory : cond.Contradictory)
    (valuation : Valuation) : cond.eval valuation.truth = false := by
  obtain ⟨atom, inside, negation⟩ := contradictory
  rw [← Bool.not_eq_true, eval_eq_true_iff]
  intro holds
  have both := holds _ negation
  rw [truth_makeNot, holds _ inside] at both
  cases both

/-- Without a contradiction the atoms of a conjunction make it true. -/
theorem eval_own_atoms (whole : Conjunction) (consistent : ¬whole.cond.Contradictory) :
    whole.cond.eval (valuationOf fun atom => decide (atom ∈ whole.cond.conditionSet)).truth =
      true := by
  rw [eval_eq_true_iff]
  intro text inside
  obtain atomic | ⟨atom, atomic, rfl⟩ := whole.literals text inside
  · rw [truth_atomic _ atomic]
    exact decide_eq_true inside
  · have absent : atom ∉ whole.cond.conditionSet := fun both => consistent ⟨atom, both, inside⟩
    rw [truth_makeNot, truth_atomic _ atomic]
    simp [absent]

/-! ## The fallback of `|` -/

/-- The conditions that `__or__` makes of the joined texts of two conjunctions. -/
def letters (left right : ExecCondition) : Finset String :=
  ((left.toText ++ "||" ++ right.toText).toList.map String.singleton).toFinset

theorem atomic_of_mem_letters {left right : ExecCondition} {letter : String}
    (inside : letter ∈ letters left right) : Atomic letter := by
  rw [letters, List.mem_toFinset, List.mem_map] at inside
  obtain ⟨c, -, rfl⟩ := inside
  have text : (String.singleton c).toList = [c] := by simp
  refine ⟨fun none => ?_, fun negated => ?_⟩
  · rw [none] at text
    cases text
  · rw [Negated, text] at negated
    have long : 3 ≤ 1 := negated.1
    omega

/-- Neither siblings nor one within the other: the letters decide. -/
theorem eval_or_letters {left right : ExecCondition} (valuation : Valuation)
    (unrecognised : ¬OrRecognised left right) :
    (left.or right).eval valuation.truth = true ↔
      ∀ letter ∈ letters left right, valuation.truth letter = true := by
  rw [OrRecognised, not_or, not_or] at unrecognised
  obtain ⟨noSibling, notLeft, notRight⟩ := unrecognised
  unfold or
  rw [Option.not_isSome_iff_eq_none.mp noSibling]
  dsimp only
  rw [if_neg notLeft, if_neg notRight, fromConditions, eval_ofChain, List.all_eq_true, letters]
  simp only [List.mem_toFinset]

/-! ## The laws -/

/-- The operators of `ExecCondition` are those of truth values. -/
structure Lawful (left right : ExecCondition) (valuation : Valuation) : Prop where
  and : ∀ text, (left.and text).eval valuation.truth =
    (left.eval valuation.truth && valuation.truth text)
  or : (left.or right).eval valuation.truth =
    (left.eval valuation.truth || right.eval valuation.truth)
  xor : ∀ result, left.xor right = some result → result.eval valuation.truth =
    (left.eval valuation.truth ^^ right.eval valuation.truth)
  sibling : ∀ parent, left.negatedSiblingParent right = some parent →
    parent.eval valuation.truth = (left.eval valuation.truth || right.eval valuation.truth) ∧
      (left.eval valuation.truth && right.eval valuation.truth) = false

theorem oneMore_of_xorSuperset {large small result : ExecCondition}
    (returned : large.xorSuperset small = some result) : OneMore large small := by
  unfold xorSuperset at returned
  split at returned
  · rename_i within
    obtain ⟨added, only, -⟩ := Option.map_eq_some_iff.mp returned
    exact ⟨within, added, eq_singleton_of_onlyElement? only⟩
  · cases returned

/-- `^` returns only for conjunctions one of which has one condition more. -/
theorem oneMore_of_xor {left right result : ExecCondition}
    (returned : left.xor right = some result) : OneMore left right ∨ OneMore right left := by
  unfold xor at returned
  split at returned
  · exact Or.inl (oneMore_of_xorSuperset returned)
  · split at returned
    · exact Or.inr (oneMore_of_xorSuperset returned)
    · cases returned

/-- Siblings do not hold together. -/
theorem disjoint_of_negatedSiblingParent {valuation : Valuation}
    {left right parent : ExecCondition}
    (sibling : left.negatedSiblingParent right = some parent) :
    (left.eval valuation.truth && right.eval valuation.truth) = false := by
  unfold negatedSiblingParent at sibling
  split at sibling
  · rename_i leftCond rightCond leftOnly rightOnly
    split at sibling
    · rename_i negations
      rw [← Bool.not_eq_true, Bool.and_eq_true,
        eval_eq_inter_and (eq_singleton_of_onlyElement? leftOnly),
        eval_eq_inter_and (eq_singleton_of_onlyElement? rightOnly),
        truth_of_areNegations valuation negations]
      rintro ⟨⟨-, holds⟩, -, fails⟩
      rw [holds] at fails
      cases fails
    · cases sibling
  · cases sibling

/-- `|` is right for siblings and nested conjunctions, and otherwise only by accident. -/
theorem lawful_of_or {left right : ExecCondition} {valuation : Valuation}
    (or : (left.or right).eval valuation.truth =
      (left.eval valuation.truth || right.eval valuation.truth)) :
    Lawful left right valuation where
  and := eval_and valuation left
  or := or
  xor result returned := by
    obtain ⟨same, returned', truth⟩ := eval_xor valuation (oneMore_of_xor returned)
    obtain rfl := Option.some.inj (returned.symm.trans returned')
    exact truth
  sibling parent sibling :=
    ⟨eval_negatedSiblingParent sibling, disjoint_of_negatedSiblingParent sibling⟩

/-! ## Unrelated conjunctions -/

/-- `left` never holds, and `right` is the conjunction of all letters of the joined text. -/
def SpelledOut (left right : Conjunction) : Prop :=
  (left.cond.Contradictory ∧ right.cond.conditionSet = letters left.cond right.cond) ∨
    (right.cond.Contradictory ∧ left.cond.conditionSet = letters left.cond right.cond)

/-- The letters decide like the disjunction. -/
def LettersDecide (left right : Conjunction) : Prop :=
  ∀ valuation : Valuation,
    (∀ letter ∈ letters left.cond right.cond, valuation.truth letter = true) ↔
      left.cond.eval valuation.truth = true ∨ right.cond.eval valuation.truth = true

section LettersDecide

variable {left right : Conjunction}

/-- A consistent conjunction contains all letters. -/
theorem letters_subset_left (same : LettersDecide left right)
    (consistent : ¬left.cond.Contradictory) :
    letters left.cond right.cond ⊆ left.cond.conditionSet := by
  intro letter inside
  have holds := (same _).mpr (Or.inl (eval_own_atoms left consistent)) letter inside
  rw [truth_atomic _ (atomic_of_mem_letters inside)] at holds
  exact of_decide_eq_true holds

theorem letters_subset_right (same : LettersDecide left right)
    (consistent : ¬right.cond.Contradictory) :
    letters left.cond right.cond ⊆ right.cond.conditionSet := by
  intro letter inside
  have holds := (same _).mpr (Or.inr (eval_own_atoms right consistent)) letter inside
  rw [truth_atomic _ (atomic_of_mem_letters inside)] at holds
  exact of_decide_eq_true holds

/-- Of two literals that are no letters, one that each side needs, one negates the other. -/
theorem negations_of_needed (same : LettersDecide left right) {first second : String}
    (firstLiteral : Literal first) (secondLiteral : Literal second)
    (firstApart : first ∉ letters left.cond right.cond)
    (secondApart : second ∉ letters left.cond right.cond)
    (leftNeeds : left.cond.Contradictory ∨ first ∈ left.cond.conditionSet)
    (rightNeeds : right.cond.Contradictory ∨ second ∈ right.cond.conditionSet) :
    areNegations first second = true := by
  by_contra unrelated
  rw [Bool.not_eq_true] at unrelated
  obtain ⟨firstFails, secondFails⟩ := literals_fail firstLiteral secondLiteral unrelated
  have lettersHold : ∀ letter ∈ letters left.cond right.cond,
      (allBut first second).truth letter = true := by
    intro letter inside
    rw [allBut, truth_atomic _ (atomic_of_mem_letters inside), decide_eq_true_eq]
    exact ⟨fun equal => firstApart (equal ▸ inside), fun equal => secondApart (equal ▸ inside)⟩
  rcases (same (allBut first second)).mp lettersHold with holds | holds
  · rcases leftNeeds with contradictory | inside
    · rw [not_eval_of_contradictory contradictory] at holds
      cases holds
    · rw [(eval_eq_true_iff ..).mp holds first inside] at firstFails
      cases firstFails
  · rcases rightNeeds with contradictory | inside
    · rw [not_eval_of_contradictory contradictory] at holds
      cases holds
    · rw [(eval_eq_true_iff ..).mp holds second inside] at secondFails
      cases secondFails

theorem not_areNegations_self (text : String) : areNegations text text = false := by
  simp [areNegations, (makeNot_ne text).symm]

/-- Some atom of the language is no letter of the joined text. -/
theorem not_both_contradictory (same : LettersDecide left right) :
    ¬(left.cond.Contradictory ∧ right.cond.Contradictory) := by
  rintro ⟨leftContradictory, rightContradictory⟩
  have lettersHold : ∀ letter ∈ letters left.cond right.cond,
      (valuationOf fun _ => true).truth letter = true := fun letter inside =>
    truth_atomic _ (atomic_of_mem_letters inside)
  rcases (same _).mp lettersHold with holds | holds
  · rw [not_eval_of_contradictory leftContradictory] at holds
    cases holds
  · rw [not_eval_of_contradictory rightContradictory] at holds
    cases holds

theorem spelledOut_of_contradictory (same : LettersDecide left right)
    (contradictory : left.cond.Contradictory ∨ right.cond.Contradictory) :
    SpelledOut left right := by
  rcases contradictory with leftFails | rightFails
  · have consistent : ¬right.cond.Contradictory := fun rightFails =>
      not_both_contradictory same ⟨leftFails, rightFails⟩
    refine Or.inl ⟨leftFails, Finset.Subset.antisymm (fun text inside => ?_)
      (letters_subset_right same consistent)⟩
    by_contra apart
    have negations := negations_of_needed same (right.literals text inside)
      (right.literals text inside) apart apart (Or.inl leftFails) (Or.inr inside)
    rw [not_areNegations_self] at negations
    cases negations
  · have consistent : ¬left.cond.Contradictory := fun leftFails =>
      not_both_contradictory same ⟨leftFails, rightFails⟩
    refine Or.inr ⟨rightFails, Finset.Subset.antisymm (fun text inside => ?_)
      (letters_subset_left same consistent)⟩
    by_contra apart
    have negations := negations_of_needed same (left.literals text inside)
      (left.literals text inside) apart apart (Or.inr inside) (Or.inl rightFails)
    rw [not_areNegations_self] at negations
    cases negations

/-- Without a contradiction the letters decide only for siblings and nested conjunctions. -/
theorem orRecognised_of_consistent (same : LettersDecide left right)
    (leftConsistent : ¬left.cond.Contradictory) (rightConsistent : ¬right.cond.Contradictory) :
    OrRecognised left.cond right.cond := by
  by_contra unrecognised
  have inLeft := letters_subset_left same leftConsistent
  have inRight := letters_subset_right same rightConsistent
  have negations : ∀ first ∈ left.cond.conditionSet \ right.cond.conditionSet,
      ∀ second ∈ right.cond.conditionSet \ left.cond.conditionSet,
        areNegations first second = true := by
    intro first firstIn second secondIn
    rw [Finset.mem_sdiff] at firstIn secondIn
    exact negations_of_needed same (left.literals first firstIn.1) (right.literals second secondIn.1)
      (fun letter => firstIn.2 (inRight letter)) (fun letter => secondIn.2 (inLeft letter))
      (Or.inr firstIn.1) (Or.inr secondIn.1)
  have notWithin : ¬right.cond.conditionSet ⊆ left.cond.conditionSet := fun within =>
    unrecognised (Or.inr (Or.inl (decide_eq_true within)))
  have notAround : ¬left.cond.conditionSet ⊆ right.cond.conditionSet := fun within =>
    unrecognised (Or.inr (Or.inr (decide_eq_true within)))
  obtain ⟨second, secondIn⟩ := Finset.sdiff_nonempty.mpr notWithin
  obtain ⟨first, firstIn⟩ := Finset.sdiff_nonempty.mpr notAround
  have leftOnly : left.cond.conditionSet \ right.cond.conditionSet = {first} := by
    refine Finset.eq_singleton_iff_unique_mem.mpr ⟨firstIn, fun other inside => ?_⟩
    rw [eq_makeNot_of_areNegations (left.literals other (Finset.mem_sdiff.mp inside).1)
        (negations other inside second secondIn),
      eq_makeNot_of_areNegations (left.literals first (Finset.mem_sdiff.mp firstIn).1)
        (negations first firstIn second secondIn)]
  have rightOnly : right.cond.conditionSet \ left.cond.conditionSet = {second} := by
    refine Finset.eq_singleton_iff_unique_mem.mpr ⟨secondIn, fun other inside => ?_⟩
    rw [eq_makeNot_of_areNegations (right.literals other (Finset.mem_sdiff.mp inside).1)
        ((areNegations_comm other first).trans (negations first firstIn other inside)),
      eq_makeNot_of_areNegations (right.literals second (Finset.mem_sdiff.mp secondIn).1)
        ((areNegations_comm second first).trans (negations first firstIn second secondIn))]
  refine unrecognised (Or.inl ?_)
  unfold negatedSiblingParent
  rw [leftOnly, rightOnly, onlyElement?_singleton, onlyElement?_singleton]
  dsimp only
  rw [if_pos (negations first firstIn second secondIn)]
  rfl

end LettersDecide

theorem lettersDecide_of_or {left right : Conjunction}
    (unrecognised : ¬OrRecognised left.cond right.cond)
    (or : ∀ valuation : Valuation, (left.cond.or right.cond).eval valuation.truth =
      (left.cond.eval valuation.truth || right.cond.eval valuation.truth)) :
    LettersDecide left right := by
  intro valuation
  rw [← eval_or_letters valuation unrecognised, or valuation, Bool.or_eq_true]

theorem or_of_spelledOut {left right : Conjunction} (spelledOut : SpelledOut left right)
    (unrecognised : ¬OrRecognised left.cond right.cond) (valuation : Valuation) :
    (left.cond.or right.cond).eval valuation.truth =
      (left.cond.eval valuation.truth || right.cond.eval valuation.truth) := by
  rw [Bool.eq_iff_iff, eval_or_letters valuation unrecognised, Bool.or_eq_true]
  rcases spelledOut with ⟨contradictory, spelled⟩ | ⟨contradictory, spelled⟩
  · rw [not_eval_of_contradictory contradictory, ← spelled, eval_eq_true_iff]
    simp
  · rw [not_eval_of_contradictory contradictory, ← spelled, eval_eq_true_iff]
    simp

/--
The operators of two conjunctions of literals are those of truth values exactly if the
conjunctions are siblings or nested, or one is a contradiction and the other spells out
the joined text.
-/
theorem lawful_iff (left right : Conjunction) :
    (∀ valuation, Lawful left.cond right.cond valuation) ↔
      OrRecognised left.cond right.cond ∨ SpelledOut left right := by
  by_cases recognised : OrRecognised left.cond right.cond
  · exact iff_of_true (fun valuation => lawful_of_or (eval_or valuation recognised))
      (Or.inl recognised)
  rw [or_iff_right recognised]
  constructor
  · intro lawful
    have same := lettersDecide_of_or recognised fun valuation => (lawful valuation).or
    by_contra notSpelled
    have consistent : ¬(left.cond.Contradictory ∨ right.cond.Contradictory) := fun contradictory =>
      notSpelled (spelledOut_of_contradictory same contradictory)
    rw [not_or] at consistent
    exact recognised (orRecognised_of_consistent same consistent.1 consistent.2)
  · exact fun spelledOut valuation =>
      lawful_of_or (or_of_spelledOut spelledOut recognised valuation)

/-! ### Two atoms -/

def single (text : String) (atomic : Atomic text) : Conjunction where
  cond := ofChain [text]
  literals other inside := by
    obtain rfl := List.mem_singleton.mp ((mem_conditionSet_ofChain [text] other).mp inside).1
    exact Or.inl atomic

theorem conditionSet_single {text : String} (atomic : Atomic text) :
    (single text atomic).cond.conditionSet = {text} := by
  ext other
  rw [single, mem_conditionSet_ofChain, List.mem_singleton, Finset.mem_singleton]
  exact and_iff_left_of_imp fun same => same ▸ atomic.1

theorem atomic_x : Atomic "x" := ⟨by decide, fun negated => absurd negated.1 (by decide)⟩

theorem atomic_y : Atomic "y" := ⟨by decide, fun negated => absurd negated.1 (by decide)⟩

theorem unrecognised_x_y :
    ¬OrRecognised (single "x" atomic_x).cond (single "y" atomic_y).cond := by
  have first : ({"x"} : Finset String) \ {"y"} = {"x"} := by decide
  have second : ({"y"} : Finset String) \ {"x"} = {"y"} := by decide
  have unrelated : areNegations "x" "y" = false := by decide
  simp [OrRecognised, negatedSiblingParent, isSupersetOf, conditionSet_single, first, second,
    unrelated]

/-- `x | y` is the conjunction of the letters of `(x)||(y)`. -/
theorem not_lawful_x_y :
    ¬∀ valuation, Lawful (single "x" atomic_x).cond (single "y" atomic_y).cond valuation := by
  intro lawful
  have bar : "|" ∈ letters (single "x" atomic_x).cond (single "y" atomic_y).cond := by
    rw [letters, List.mem_toFinset, List.mem_map]
    exact ⟨'|', by simp, rfl⟩
  have holds : (single "x" atomic_x).cond.eval (valuationOf fun atom => atom == "x").truth =
      true := by
    rw [single, eval_singleton, truth_atomic _ atomic_x]
    rfl
  have or := (lawful (valuationOf fun atom => atom == "x")).or
  rw [holds, Bool.true_or, eval_or_letters _ unrecognised_x_y] at or
  have barHolds := or "|" bar
  rw [truth_atomic _ (atomic_of_mem_letters bar)] at barHolds
  exact absurd barHolds (by decide)

end ExecCondition

end OpenCLDecompiler
