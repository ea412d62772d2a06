import OpenCLDecompiler.LogicalVariable

/-!
# Truth of execution conditions

The truth of a conjunction under a valuation of its texts, and what the
operators of `ExecCondition` do to it.
-/

namespace OpenCLDecompiler

/--
The truth of the condition texts for one lane.  The default text holds, and a
text in `!( )` is the negation of the text inside.
-/
structure Valuation where
  truth : String → Bool
  default_true : truth defaultCondition = true
  truth_not : ∀ text, truth ("!(" ++ text ++ ")") = !truth text

/-- Truth by the truth of the texts that are no negation. -/
def truthOf (atoms : List Char → Bool) (text : List Char) : Bool :=
  if text = [] then true
  else if 3 ≤ text.length ∧ text.take 2 = ['!', '('] ∧ text.getLast? = some ')' then
    !truthOf atoms (text.drop 2).dropLast
  else atoms text
termination_by text.length
decreasing_by
  rw [List.length_dropLast, List.length_drop]
  omega

/-- Every assignment to the texts that are no negation gives a valuation. -/
def Valuation.ofAtoms (atoms : List Char → Bool) : Valuation where
  truth text := truthOf atoms text.toList
  default_true := by simp [truthOf, defaultCondition]
  truth_not text := by
    have closed : ('(' :: (text.toList ++ [')'])).getLast? = some ')' := by
      rw [← List.cons_append]
      exact List.getLast?_concat
    rw [truthOf]
    simp [closed]

theorem Valuation.truth_ofAtoms (atoms : List Char → Bool) {text : String} (some : text.toList ≠ [])
    (atomic : text.toList.take 2 ≠ ['!', '(']) :
    (ofAtoms atoms).truth text = atoms text.toList := by
  rw [ofAtoms]
  dsimp only
  rw [truthOf, if_neg some, if_neg (fun shape => atomic shape.2.1)]

namespace ExecCondition

theorem truth_makeNot (valuation : Valuation) (cond : String) :
    valuation.truth (makeNot cond) = !valuation.truth cond := by
  unfold makeNot
  dsimp only
  split
  · rename_i shape
    obtain ⟨long, opening, closing⟩ := shape
    have inner : cond = "!(" ++ String.ofList (cond.toList.drop 2).dropLast ++ ")" := by
      apply String.toList_injective
      have notEmpty : cond.toList.drop 2 ≠ [] := by
        intro absent
        have short : cond.toList.length ≤ 2 := List.drop_eq_nil_iff.mp absent
        omega
      have last : (cond.toList.drop 2).getLast notEmpty = ')' := by
        rw [List.getLast_drop]
        exact Option.some.inj ((List.getLast?_eq_some_getLast _).symm.trans closing)
      have split := List.dropLast_append_getLast notEmpty
      rw [last] at split
      have whole := List.take_append_drop 2 cond.toList
      rw [opening, ← split] at whole
      simpa using whole.symm
    conv_rhs => rw [inner]
    rw [valuation.truth_not, Bool.not_not]
  · exact valuation.truth_not cond

theorem truth_of_areNegations {left right : String} (valuation : Valuation)
    (negations : areNegations left right = true) :
    valuation.truth right = !valuation.truth left := by
  rw [areNegations, Bool.or_eq_true, beq_iff_eq, beq_iff_eq] at negations
  rcases negations with rfl | rfl
  · rw [truth_makeNot, Bool.not_not]
  · exact truth_makeNot valuation left

theorem eval_ofChain (valuation : Valuation) (andChain : List String) :
    (ofChain andChain).eval valuation.truth = andChain.all valuation.truth := by
  rw [Bool.eq_iff_iff, eval_eq_true_iff, List.all_eq_true]
  constructor
  · intro holds text inside
    by_cases same : text = defaultCondition
    · exact same ▸ valuation.default_true
    · exact holds text ((mem_conditionSet_ofChain andChain text).mpr ⟨inside, same⟩)
  · intro holds text inside
    exact holds text ((mem_conditionSet_ofChain andChain text).mp inside).1

theorem eval_andChain (valuation : Valuation) (cond : ExecCondition) :
    cond.eval valuation.truth = cond.andChain.all valuation.truth := by
  have normal : ofChain cond.andChain = cond := by
    cases cond with
    | mk andChain normalized => exact (mk.injEq ..).mpr normalized
  rw [← eval_ofChain, normal]

@[simp]
theorem eval_default (valuation : String → Bool) : default.eval valuation = true := rfl

@[simp]
theorem eval_singleton (valuation : Valuation) (text : String) :
    (ofChain [text]).eval valuation.truth = valuation.truth text := by
  simp [eval_ofChain]

@[simp]
theorem eval_and (valuation : Valuation) (cond : ExecCondition) (text : String) :
    (cond.and text).eval valuation.truth =
      (cond.eval valuation.truth && valuation.truth text) := by
  rw [and, eval_ofChain, eval_andChain, List.all_append]
  simp

theorem eval_fromConditions_sort (valuation : Valuation) (texts : Finset String) :
    (fromConditions (texts.sort (· ≤ ·))).eval valuation.truth = true ↔
      ∀ text ∈ texts, valuation.truth text = true := by
  simp [fromConditions, eval_ofChain]

/-- The conjunction made of the set of a conjunction has its truth. -/
theorem eval_fromConditions_conditionSet (valuation : Valuation) (cond : ExecCondition) :
    (fromConditions (cond.conditionSet.sort (· ≤ ·))).eval valuation.truth =
      cond.eval valuation.truth := by
  rw [Bool.eq_iff_iff, eval_fromConditions_sort, eval_eq_true_iff]

theorem eq_singleton_of_onlyElement? {texts : Finset String} {text : String}
    (only : onlyElement? texts = some text) : texts = {text} := by
  unfold onlyElement? at only
  split at only
  · rename_i single sorted
    cases only
    have members := congrArg List.toFinset sorted
    simpa using members
  · cases only

/-- Two conjunctions with one further condition each, over what they share. -/
theorem eval_eq_inter_and {valuation : Valuation} {left right : ExecCondition} {text : String}
    (only : left.conditionSet \ right.conditionSet = {text}) :
    left.eval valuation.truth = true ↔
      (∀ shared ∈ left.conditionSet ∩ right.conditionSet, valuation.truth shared = true) ∧
        valuation.truth text = true := by
  rw [eval_eq_true_iff]
  constructor
  · intro holds
    have inside : text ∈ left.conditionSet := by
      have : text ∈ left.conditionSet \ right.conditionSet := by simp [only]
      exact (Finset.mem_sdiff.mp this).1
    exact ⟨fun shared both => holds shared (Finset.mem_inter.mp both).1, holds text inside⟩
  · rintro ⟨shared, further⟩ other inside
    by_cases common : other ∈ right.conditionSet
    · exact shared other (Finset.mem_inter.mpr ⟨inside, common⟩)
    · have lone : other ∈ left.conditionSet \ right.conditionSet :=
        Finset.mem_sdiff.mpr ⟨inside, common⟩
      rw [only, Finset.mem_singleton] at lone
      exact lone ▸ further

theorem eval_negatedSiblingParent {valuation : Valuation} {left right parent : ExecCondition}
    (sibling : left.negatedSiblingParent right = some parent) :
    parent.eval valuation.truth =
      (left.eval valuation.truth || right.eval valuation.truth) := by
  unfold negatedSiblingParent at sibling
  split at sibling
  · rename_i leftCond rightCond leftOnly rightOnly
    split at sibling
    · rename_i negations
      cases sibling
      have opposite := truth_of_areNegations valuation negations
      rw [Bool.eq_iff_iff, Bool.or_eq_true, eval_fromConditions_sort,
        eval_eq_inter_and (eq_singleton_of_onlyElement? leftOnly),
        eval_eq_inter_and (eq_singleton_of_onlyElement? rightOnly), opposite,
        Finset.inter_comm right.conditionSet]
      cases valuation.truth leftCond <;> simp
    · cases sibling
  · cases sibling

/-- `__or__` recognises the pair: siblings, or one conjunction within the other. -/
def OrRecognised (left right : ExecCondition) : Prop :=
  (left.negatedSiblingParent right).isSome ∨
    left.isSupersetOf right = true ∨ right.isSupersetOf left = true

theorem eval_le_of_isSupersetOf {valuation : String → Bool} {large small : ExecCondition}
    (superset : large.isSupersetOf small = true) (holds : large.eval valuation = true) :
    small.eval valuation = true := by
  rw [eval_eq_true_iff] at holds ⊢
  intro text inside
  exact holds text (of_decide_eq_true superset inside)

theorem eval_or {left right : ExecCondition} (valuation : Valuation)
    (recognised : OrRecognised left right) :
    (left.or right).eval valuation.truth =
      (left.eval valuation.truth || right.eval valuation.truth) := by
  unfold or
  split
  · rename_i parent sibling
    exact eval_negatedSiblingParent sibling
  · rename_i noSibling
    split
    · rename_i superset
      have stronger := @eval_le_of_isSupersetOf valuation.truth _ _ superset
      rw [eval_fromConditions_conditionSet]
      cases whole : left.eval valuation.truth with
      | false => rfl
      | true => exact stronger whole
    · rename_i notSuperset
      have superset : right.isSupersetOf left = true := by
        rcases recognised with sibling | superset | superset
        · simp [noSibling] at sibling
        · exact absurd superset notSuperset
        · exact superset
      have stronger := @eval_le_of_isSupersetOf valuation.truth _ _ superset
      rw [if_pos superset, eval_fromConditions_conditionSet]
      cases whole : right.eval valuation.truth with
      | false => exact (Bool.or_false _).symm
      | true => rw [stronger whole, Bool.or_true]

/-- `large` is `small` and one further condition: what the method `xor` asserts. -/
def OneMore (large small : ExecCondition) : Prop :=
  small.conditionSet ⊆ large.conditionSet ∧
    ∃ added, large.conditionSet \ small.conditionSet = {added}

theorem OneMore.ssubset {large small : ExecCondition} (more : OneMore large small) :
    small.conditionSet ⊂ large.conditionSet := by
  obtain ⟨within, added, only⟩ := more
  refine within.ssubset_of_ne fun same => ?_
  simp [same] at only

theorem eval_xorSuperset {large small : ExecCondition} (valuation : Valuation)
    (more : OneMore large small) :
    ∃ result, large.xorSuperset small = some result ∧
      result.eval valuation.truth =
        (large.eval valuation.truth ^^ small.eval valuation.truth) := by
  obtain ⟨within, added, only⟩ := more
  refine ⟨fromConditions (small.conditionSet.sort (· ≤ ·) ++ [makeNot added]), ?_, ?_⟩
  · rw [xorSuperset, if_pos within, only, onlyElement?_singleton]
    rfl
  · have largeHolds := @eval_eq_inter_and valuation _ _ _ only
    rw [Finset.inter_eq_right.mpr within, ← eval_eq_true_iff] at largeHolds
    have smallHolds := eval_fromConditions_conditionSet valuation small
    rw [fromConditions, eval_ofChain] at smallHolds
    have wholeTruth : large.eval valuation.truth =
        (small.eval valuation.truth && valuation.truth added) := by
      rw [Bool.eq_iff_iff, Bool.and_eq_true, largeHolds]
    rw [fromConditions, eval_ofChain, List.all_append, smallHolds, wholeTruth]
    simp only [List.all_cons, List.all_nil, truth_makeNot, Bool.and_true]
    cases small.eval valuation.truth <;> cases valuation.truth added <;> rfl

theorem eval_xor {left right : ExecCondition} (valuation : Valuation)
    (differ : OneMore left right ∨ OneMore right left) :
    ∃ result, left.xor right = some result ∧
      result.eval valuation.truth =
        (left.eval valuation.truth ^^ right.eval valuation.truth) := by
  unfold xor
  rcases differ with more | more
  · rw [if_pos ((isStrictSubsetOf_iff right left).mpr more.ssubset)]
    exact eval_xorSuperset valuation more
  · have notBelow : ¬right.isStrictSubsetOf left = true := by
      rw [isStrictSubsetOf_iff]
      exact fun below => below.asymm more.ssubset
    rw [if_neg notBelow, if_pos ((isStrictSubsetOf_iff left right).mpr more.ssubset),
      Bool.xor_comm]
    exact eval_xorSuperset valuation more

end ExecCondition

end OpenCLDecompiler
