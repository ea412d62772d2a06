import OpenCLDecompiler.Optimizations.Scaling
import OpenCLDecompiler.Optimizations.SumCorrect

/-!
# The optimisation of differences

`_optimized_nodes_sub`, which turns a difference that is taken from 0 around, writes a
product or a quotient that is taken from 0 as a product with -1, and adds the absolute
value of a negative constant.
-/

namespace OpenCLDecompiler.Optimizations

open Expressions Library Registers

variable {τ ι : Type}

/-- The comparison of nodes, which compares their ids and their content. -/
structure Identity (τ ι : Type) where
  same : Node τ ι → Node τ ι → Bool
  equal first second : same first second = true → first = second

variable [DecidableEq τ] [DecidableEq ι]

/--
`_optimized_nodes_sub` without the case of a 0.  The absolute value is a new node, so
that the sum finds no original of it.
-/
def subtractFrom (types : Types τ) (sizes : Dim → Int) (identity : Identity τ ι) (hint : τ)
    (s0 s1 : Node τ ι) : Option (Node τ ι) :=
  if s1.constZero then some s0
  else if s1.constNegative types then
    optimizedNodesSum types sizes identity.same (fun _ => none) s0 s1.absConst hint
  else if identity.same s0 s1 then some (.const (.int 0) (types.const types.uint))
  else some (.op .minus s0 s1 hint)

/-- `_optimized_nodes_sub`; `int` is the type of the constant -1. -/
def optimizedNodesSub (types : Types τ) (sizes : Dim → Int) (identity : Identity τ ι) (int hint : τ) :
    Node τ ι → Node τ ι → Option (Node τ ι)
  | s0, .op operation left right opHint =>
      if s0.constZero then
        match operation with
        | .minus => optimizedNodesSub types sizes identity int hint right left
        | .mul | .div => some (optimizedNodesMul types sizes (.const (.int (-1)) int)
            (.op operation left right opHint) hint)
        | _ => subtractFrom types sizes identity hint s0 (.op operation left right opHint)
      else subtractFrom types sizes identity hint s0 (.op operation left right opHint)
  | s0, s1 => subtractFrom types sizes identity hint s0 s1

/-! ## When the difference is right -/

/-- A pointer, and a constant with a fraction. -/
def FractionOffset (types : Types τ) (s0 s1 : Node τ ι) : Prop :=
  types.pointer (s0.hint types) = true ∧ ∃ value hint, s1 = .const (.float value) hint ∧ value.den ≠ 1

/-- The terms of the sum are kept. -/
def TermsKept (R : Type) [CommRing R] (sizes : Dim → Int) (s0 s1 : Node τ ι) : Prop :=
  Cancels (operandTerms s0 s1) ∨ ∀ meaning : Meaning τ ι R, meaning.Configured sizes →
    Signed.lost (Node.eval meaning) (operandTerms s0 s1) =
      meaning.forgottenAll sizes (keptTerms (operandTerms s0 s1))

/-- A negative constant is subtracted from 0, from a negative constant, or as a sum that is right. -/
def ConstantKept (R : Type) [CommRing R] (types : Types τ) (sizes : Dim → Int) (s0 s1 : Node τ ι) :
    Prop :=
  s1.constNegative types = true → s0.constZero = true ∨ s0.constNegative types = true ∨
    ¬FractionOffset types s0 s1.absConst ∧ TermsKept R sizes s0 s1.absConst

/-- The operands after differences that are taken from 0 have been turned around. -/
def turnedAround : Node τ ι → Node τ ι → Node τ ι × Node τ ι
  | s0, .op .minus left right hint =>
      if s0.constZero then turnedAround right left else (s0, .op .minus left right hint)
  | s0, s1 => (s0, s1)

/-- There is a node, and its value is the difference. -/
def DenotesDifference (R : Type) [CommRing R] (sizes : Dim → Int) (s0 s1 : Node τ ι)
    (result : Option (Node τ ι)) : Prop :=
  ∃ node, result = some node ∧ ∀ meaning : Meaning τ ι R, meaning.Configured sizes →
    node.eval meaning = s0.eval meaning - s1.eval meaning

variable {R : Type} [CommRing R]

omit [DecidableEq τ] [DecidableEq ι] in
/-- A constant is not both 0 and negative, and its absolute value is neither, nor is it a text. -/
theorem absConst_of_constNegative (types : Types τ) {node : Node τ ι}
    (negative : node.constNegative types = true) :
    node.constZero = false ∧ node.absConst.constZero = false ∧
      node.absConst.constNegative types = false ∧
      ∃ value hint, node.absConst = .const value hint ∧ ∀ text, value ≠ .hex text := by
  cases node with
  | const value hint =>
      rw [Node.constNegative, Bool.and_eq_true] at negative
      cases value with
      | int value =>
          have below : value < 0 := of_decide_eq_true negative.2
          refine ⟨decide_eq_false (by omega), decide_eq_false (by omega), ?_, _, _, rfl,
            fun _ same => (by cases same)⟩
          have least : ¬((value.natAbs : Int) < 0) := by omega
          rw [Node.absConst, Node.constNegative, Bool.and_eq_false_iff]
          exact .inr (decide_eq_false least)
      | hex value => cases negative.2
      | float value =>
          have below : value < 0 := of_decide_eq_true negative.2
          refine ⟨decide_eq_false below.ne, decide_eq_false (abs_ne_zero.mpr below.ne), ?_, _, _, rfl,
            fun _ same => (by cases same)⟩
          rw [Node.absConst, Node.constNegative, Bool.and_eq_false_iff]
          exact .inr (decide_eq_false (abs_nonneg value).not_gt)
  | _ => cases negative

omit [DecidableEq τ] [DecidableEq ι] in
/-- A constant that is no text is added as it is, unless it is a fraction behind a pointer. -/
theorem addend_const (types : Types τ) (s0 : Node τ ι) {value : ConstValue} (hint : τ)
    (noText : ∀ text, value ≠ .hex text) :
    addend types (fun _ => none) s0 (.const value hint) = some (.const value hint) ∧
        ¬FractionOffset types s0 (.const value hint) ∨
      addend types (fun _ => none) s0 (.const value hint) = none ∧
        FractionOffset types s0 (.const value hint) := by
  by_cases pointer : types.pointer (s0.hint types) = true
  · cases value with
    | int value =>
        refine .inl ⟨by simp [addend, pointer], ?_⟩
        rintro ⟨-, value, hint, same, -⟩
        cases same
    | hex text => exact absurd rfl (noText text)
    | float value =>
        by_cases whole : value.den = 1
        · refine .inl ⟨by simp [addend, pointer, whole], ?_⟩
          rintro ⟨-, value, hint, same, fraction⟩
          cases same
          exact fraction whole
        · exact .inr ⟨by simp [addend, pointer, whole], pointer, value, hint, rfl, whole⟩
  · refine .inl ⟨?_, fun offset => pointer offset.1⟩
    simp [addend, Bool.eq_false_of_not_eq_true pointer]

/-- The sum with the absolute value of a negative constant. -/
theorem optimizedNodesSum_absConst_iff (types : Types τ) (sizes : Dim → Int)
    (identity : Identity τ ι) (hint : τ) (s0 : Node τ ι) {s1 : Node τ ι}
    (negative : s1.constNegative types = true) :
    DenotesDifference R sizes s0 s1
        (optimizedNodesSum types sizes identity.same (fun _ => none) s0 s1.absConst hint) ↔
      s0.constZero = true ∨ s0.constNegative types = true ∨
        ¬FractionOffset types s0 s1.absConst ∧ TermsKept R sizes s0 s1.absConst := by
  obtain ⟨-, absZero, absNegative, value, valueHint, absolute, noText⟩ :=
    absConst_of_constNegative types negative
  have worth (meaning : Meaning τ ι R) : s1.absConst.eval meaning = -s1.eval meaning :=
    Node.eval_absConst types meaning negative
  by_cases zero : s0.constZero = true
  · refine iff_of_true ⟨s1.absConst, ?_, fun meaning _ => ?_⟩ (.inl zero)
    · simp [optimizedNodesSum, zero]
    · rw [worth, Node.eval_of_constZero meaning zero, zero_sub]
  by_cases both : s0.constNegative types = true
  · refine iff_of_true ⟨optimizedNodesSubConst types identity.same s1.absConst s0.absConst hint, ?_,
      fun meaning _ => ?_⟩ (.inr (.inl both))
    · simp [optimizedNodesSum, zero, absZero, both, absNegative]
    · rw [eval_optimizedNodesSubConst types identity.equal, worth,
        Node.eval_absConst types meaning both, sub_neg_eq_add, neg_add_eq_sub]
  rw [or_iff_right zero, or_iff_right both]
  have sum : optimizedNodesSum types sizes identity.same (fun _ => none) s0 s1.absConst hint =
      (addend types (fun _ => none) s0 s1.absConst).bind fun s1 =>
        optimizedNodesPlus types sizes s0 s1 hint := by
    simp [optimizedNodesSum, zero, absZero, both, absNegative]
  rw [sum]
  obtain ⟨added, whole⟩ | ⟨refused, fraction⟩ := addend_const types s0 valueHint noText
  · rw [← absolute] at added whole
    obtain ⟨node, built, right⟩ := optimizedNodesPlus_spec (R := R) types sizes s0 s1.absConst hint
    rw [added, Option.bind_some, built, and_iff_right whole, TermsKept]
    have exact' : DenotesDifference R sizes s0 s1 (some node) ↔ ∀ meaning : Meaning τ ι R,
        meaning.Configured sizes → node.eval meaning = s0.eval meaning + s1.absConst.eval meaning := by
      simp only [DenotesDifference, Option.some.injEq, exists_eq_left', worth, ← sub_eq_add_neg]
    rw [exact']
    constructor
    · intro correct
      by_cases cancels : Cancels (operandTerms s0 s1.absConst)
      · exact .inl cancels
      · exact .inr fun meaning configured =>
          ((right meaning configured).mp (correct meaning configured)).resolve_left cancels
    · rintro (cancels | balanced) meaning configured
      · exact (right meaning configured).mpr (.inl cancels)
      · exact (right meaning configured).mpr (.inr (balanced meaning configured))
  · rw [← absolute] at refused fraction
    rw [refused]
    exact iff_of_false nofun fun kept => kept.1 fraction

theorem subtractFrom_correct_iff (types : Types τ) (sizes : Dim → Int) (identity : Identity τ ι)
    (hint : τ) (s0 s1 : Node τ ι) :
    DenotesDifference R sizes s0 s1 (subtractFrom types sizes identity hint s0 s1) ↔
      ConstantKept R types sizes s0 s1 := by
  unfold subtractFrom
  split
  next zero =>
    refine iff_of_true ⟨s0, rfl, fun meaning _ => ?_⟩ fun negative => ?_
    · rw [Node.eval_of_constZero meaning zero, sub_zero]
    · rw [(absConst_of_constNegative types negative).1] at zero
      cases zero
  split
  next negative =>
    rw [ConstantKept, forall_prop_of_true negative]
    exact optimizedNodesSum_absConst_iff types sizes identity hint s0 negative
  next positive =>
  have kept : ConstantKept R types sizes s0 s1 := fun negative => absurd negative positive
  split
  next same =>
    refine iff_of_true ⟨_, rfl, fun meaning _ => ?_⟩ kept
    rw [identity.equal s0 s1 same, sub_self]
    exact Int.cast_zero
  next => exact iff_of_true ⟨_, rfl, fun meaning _ => rfl⟩ kept

omit [DecidableEq τ] [DecidableEq ι] in
/-- A product or a quotient that is taken from 0. -/
theorem optimizedNodesMul_minusOne (types : Types τ) (sizes : Dim → Int) (int hint opHint : τ)
    (operation : ExpressionOperationType) (left right : Node τ ι) :
    optimizedNodesMul types sizes (.const (.int (-1)) int) (.op operation left right opHint) hint =
      .op .mul (.const (.int (-1)) int) (.op operation left right opHint) hint := by
  simp [optimizedNodesMul, Node.constZero, Node.constOne, ConstValue.isZero, ConstValue.isOne,
    groupIdNodeMulSizeOfWorkGroups]

end OpenCLDecompiler.Optimizations
