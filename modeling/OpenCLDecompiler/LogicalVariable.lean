import Mathlib.Data.String.Basic
import Mathlib.Data.List.Sort
import Mathlib.Data.Finset.Sort
import Mathlib.Data.Finset.Dedup

/-!
# Execution conditions

`ExecCondition` is a conjunction of condition texts.  The chain is kept sorted
and without the default text, so an `ExecCondition` value is always normalised;
comparisons go through the set of its significant conditions.
-/

namespace OpenCLDecompiler

/-- `ExecCondition.DEFAULT`, the text of the condition that always holds. -/
def defaultCondition : String := ""

/-- The texts of a list other than the default text, in ascending order. -/
def sortedSignificant (texts : List String) : List String :=
  (texts.filter (fun text => text != defaultCondition)).insertionSort (· ≤ ·)

/-- `ExecCondition._normalize_and_chain`. -/
def normalizeAndChain (andChain : List String) : List String :=
  if sortedSignificant andChain = [] then [defaultCondition] else sortedSignificant andChain

theorem mem_sortedSignificant (texts : List String) (text : String) :
    text ∈ sortedSignificant texts ↔ text ∈ texts ∧ text ≠ defaultCondition := by
  simp [sortedSignificant]

theorem filter_default_normalizeAndChain (andChain : List String) :
    (normalizeAndChain andChain).filter (fun text => text != defaultCondition) =
      sortedSignificant andChain := by
  unfold normalizeAndChain
  split
  · rename_i absent
    rw [absent]
    rfl
  · apply List.filter_eq_self.mpr
    intro text inside
    simpa using ((mem_sortedSignificant andChain text).mp inside).2

theorem sortedSignificant_normalizeAndChain (andChain : List String) :
    sortedSignificant (normalizeAndChain andChain) = sortedSignificant andChain := by
  have sorted := List.pairwise_insertionSort (· ≤ ·)
    (andChain.filter (fun text => text != defaultCondition))
  conv_lhs => unfold sortedSignificant
  rw [filter_default_normalizeAndChain]
  exact sorted.insertionSort_eq

theorem normalizeAndChain_idem (andChain : List String) :
    normalizeAndChain (normalizeAndChain andChain) = normalizeAndChain andChain := by
  change (if sortedSignificant (normalizeAndChain andChain) = [] then [defaultCondition]
    else sortedSignificant (normalizeAndChain andChain)) = normalizeAndChain andChain
  rw [sortedSignificant_normalizeAndChain]
  rfl

/-- A normalised conjunction of condition texts. -/
structure ExecCondition where
  andChain : List String
  normalized : normalizeAndChain andChain = andChain

namespace ExecCondition

/-- The constructor `ExecCondition(and_chain)`. -/
def ofChain (andChain : List String) : ExecCondition :=
  ⟨normalizeAndChain andChain, normalizeAndChain_idem andChain⟩

def default : ExecCondition := ofChain [defaultCondition]

instance : Inhabited ExecCondition := ⟨default⟩

/-- `from_conditions`; the second normalisation of the source changes nothing. -/
def fromConditions (conditions : List String) : ExecCondition := ofChain conditions

/-- The last text of the sorted chain. -/
def top (cond : ExecCondition) : String := cond.andChain.getLastD defaultCondition

def significantConditions (cond : ExecCondition) : List String :=
  cond.andChain.filter (fun text => text != defaultCondition)

def conditionSet (cond : ExecCondition) : Finset String := cond.significantConditions.toFinset

/-- `__eq__` compares condition sets. -/
def same (left right : ExecCondition) : Bool := left.conditionSet = right.conditionSet

def isSubsetOf (left right : ExecCondition) : Bool := left.conditionSet ⊆ right.conditionSet

def isStrictSubsetOf (left right : ExecCondition) : Bool :=
  left.isSubsetOf right && !left.same right

def isSupersetOf (left right : ExecCondition) : Bool := right.conditionSet ⊆ left.conditionSet

def isStrictSupersetOf (left right : ExecCondition) : Bool :=
  left.isSupersetOf right && !left.same right

/-- `make_not`: strip an outer `!( )` or add one. -/
def makeNot (cond : String) : String :=
  let text := cond.toList
  if 3 ≤ text.length ∧ text.take 2 = ['!', '('] ∧ text.getLast? = some ')' then
    String.ofList (text.drop 2).dropLast
  else
    "!(" ++ cond ++ ")"

def areNegations (left right : String) : Bool := left == makeNot right || right == makeNot left

/-- `__and__` with a single condition text. -/
def and (cond : ExecCondition) (text : String) : ExecCondition := ofChain (cond.andChain ++ [text])

/-- The element of a one-element set; `none` for every other set. -/
def onlyElement? (texts : Finset String) : Option String :=
  match texts.sort (· ≤ ·) with
  | [text] => some text
  | _ => none

/-- `negated_sibling_parent`. -/
def negatedSiblingParent (left right : ExecCondition) : Option ExecCondition :=
  match onlyElement? (left.conditionSet \ right.conditionSet),
      onlyElement? (right.conditionSet \ left.conditionSet) with
  | some leftCond, some rightCond =>
      if areNegations leftCond rightCond then
        some (fromConditions ((left.conditionSet ∩ right.conditionSet).sort (· ≤ ·)))
      else none
  | _, _ => none

/-- `__str__`. -/
def toText (cond : ExecCondition) : String :=
  " && ".intercalate (cond.andChain.map fun text => "(" ++ text ++ ")")

/--
`__or__`.  The last branch hands one joined text to `from_conditions`, which
iterates over it and therefore makes one condition of every character.
-/
def or (left right : ExecCondition) : ExecCondition :=
  match left.negatedSiblingParent right with
  | some parent => parent
  | none =>
      if left.isSupersetOf right then fromConditions (right.conditionSet.sort (· ≤ ·))
      else if right.isSupersetOf left then fromConditions (left.conditionSet.sort (· ≤ ·))
      else fromConditions ((left.toText ++ "||" ++ right.toText).toList.map String.singleton)

/-- The method `xor`; `none` is a failed assertion. -/
def xorSuperset (left right : ExecCondition) : Option ExecCondition :=
  if right.conditionSet ⊆ left.conditionSet then
    (onlyElement? (left.conditionSet \ right.conditionSet)).map fun added =>
      fromConditions (right.conditionSet.sort (· ≤ ·) ++ [makeNot added])
  else none

/-- `__xor__`; `none` is a failed assertion. -/
def xor (left right : ExecCondition) : Option ExecCondition :=
  if right.isStrictSubsetOf left then left.xorSuperset right
  else if left.isStrictSubsetOf right then right.xorSuperset left
  else none

/-- Truth of a conjunction under a valuation of the condition texts. -/
def eval (valuation : String → Bool) (cond : ExecCondition) : Bool :=
  cond.significantConditions.all valuation

/-! ## Comparison through condition sets -/

theorem same_iff (left right : ExecCondition) :
    left.same right = true ↔ left.conditionSet = right.conditionSet := by
  simp [same]

theorem isStrictSubsetOf_iff (left right : ExecCondition) :
    left.isStrictSubsetOf right = true ↔ left.conditionSet ⊂ right.conditionSet := by
  simp [isStrictSubsetOf, isSubsetOf, same, Finset.ssubset_iff_subset_ne]

theorem isStrictSupersetOf_iff (left right : ExecCondition) :
    left.isStrictSupersetOf right = true ↔ right.conditionSet ⊂ left.conditionSet := by
  rw [Finset.ssubset_iff_subset_ne, ne_comm]
  simp [isStrictSupersetOf, isSupersetOf, same]

theorem eval_eq_true_iff (valuation : String → Bool) (cond : ExecCondition) :
    cond.eval valuation = true ↔ ∀ text ∈ cond.conditionSet, valuation text = true := by
  simp [eval, conditionSet]

@[simp]
theorem conditionSet_default : default.conditionSet = ∅ := rfl

/-- The set of a conjunction leaves the default text out. -/
theorem mem_conditionSet_ofChain (andChain : List String) (text : String) :
    text ∈ (ofChain andChain).conditionSet ↔ text ∈ andChain ∧ text ≠ defaultCondition := by
  rw [conditionSet, List.mem_toFinset, significantConditions]
  change text ∈ (normalizeAndChain andChain).filter _ ↔ _
  rw [filter_default_normalizeAndChain, mem_sortedSignificant]

theorem default_not_mem_conditionSet (cond : ExecCondition) :
    defaultCondition ∉ cond.conditionSet := by
  simp [conditionSet, significantConditions]

theorem conditionSet_fromConditions_sort {texts : Finset String}
    (significant : defaultCondition ∉ texts) :
    (fromConditions (texts.sort (· ≤ ·))).conditionSet = texts := by
  ext text
  rw [fromConditions, mem_conditionSet_ofChain, Finset.mem_sort]
  exact ⟨And.left, fun inside => ⟨inside, fun same => significant (same ▸ inside)⟩⟩

/-! ## Negation -/

theorem length_makeNot (cond : String) :
    (makeNot cond).length = cond.length + 3 ∨ (makeNot cond).length + 3 = cond.length := by
  unfold makeNot
  dsimp only
  split
  · rename_i long
    right
    have bound : 3 ≤ cond.toList.length := long.1
    rw [String.length_ofList, List.length_dropLast, List.length_drop, ← String.length_toList]
    omega
  · left
    rw [String.length_append, String.length_append]
    have opening : ("!(" : String).length = 2 := by decide
    have closing : (")" : String).length = 1 := by decide
    omega

theorem makeNot_ne (cond : String) : makeNot cond ≠ cond := by
  intro same
  have length := length_makeNot cond
  rw [same] at length
  omega

theorem areNegations_makeNot (cond : String) : areNegations cond (makeNot cond) = true := by
  simp [areNegations]

@[simp]
theorem onlyElement?_singleton (text : String) : onlyElement? {text} = some text := by
  simp [onlyElement?]

/-- Two conjunctions that differ in one negated condition have the rest in common. -/
theorem negatedSiblingParent_insert {left right : ExecCondition} {level : Finset String}
    {cond : String} (leftSet : left.conditionSet = insert cond level)
    (rightSet : right.conditionSet = insert (makeNot cond) level)
    (fresh : cond ∉ level) (freshNot : makeNot cond ∉ level) :
    ∃ parent, left.negatedSiblingParent right = some parent ∧ parent.conditionSet = level := by
  have different : cond ≠ makeNot cond := (makeNot_ne cond).symm
  have leftOnly : left.conditionSet \ right.conditionSet = {cond} := by
    rw [leftSet, rightSet]
    ext text
    simp only [Finset.mem_sdiff, Finset.mem_insert, Finset.mem_singleton]
    grind
  have rightOnly : right.conditionSet \ left.conditionSet = {makeNot cond} := by
    rw [leftSet, rightSet]
    ext text
    simp only [Finset.mem_sdiff, Finset.mem_insert, Finset.mem_singleton]
    grind
  have common : left.conditionSet ∩ right.conditionSet = level := by
    rw [leftSet, rightSet]
    ext text
    simp only [Finset.mem_inter, Finset.mem_insert]
    grind
  refine ⟨fromConditions (level.sort (· ≤ ·)), ?_, conditionSet_fromConditions_sort ?_⟩
  · unfold negatedSiblingParent
    rw [leftOnly, rightOnly, common, onlyElement?_singleton, onlyElement?_singleton]
    dsimp only
    rw [if_pos (areNegations_makeNot cond)]
  · intro inside
    refine default_not_mem_conditionSet left ?_
    rw [leftSet]
    exact Finset.mem_insert_of_mem inside

end ExecCondition

end OpenCLDecompiler
