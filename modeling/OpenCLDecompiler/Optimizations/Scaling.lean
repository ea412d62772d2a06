import OpenCLDecompiler.Library.Doubles
import OpenCLDecompiler.Optimizations.Nodes

/-!
# Products and quotients with constants

`add_operation` for `*` and `/` when one operand is a constant.  Two constants are
computed, and a quotient of a product is folded into the constant of the product; both
use the division of Python, which rounds to a double.
-/

namespace OpenCLDecompiler.Optimizations

open Expressions Library Registers

variable {τ ι : Type}

/-! ## Constants -/

namespace ConstValue

/-- `int(value, base=16)` for a text. -/
def read : ConstValue → ConstValue
  | .hex value => .int value
  | value => value

def toRat : ConstValue → ℚ
  | .int value => value
  | .hex value => value
  | .float value => value

/-- `int(result)` where this is the same number. -/
def ofDouble (result : ℚ) : ConstValue :=
  if result.den = 1 then .int result.num else .float result

end ConstValue

/-- `evaluate_operation` for `*`; `none` is an `OverflowError`. -/
def evaluateMul (left right : ConstValue) : Option ConstValue :=
  match left.read, right.read with
  | .int left, .int right => some (.int (left * right))
  | left, right => do
    let left ← double left.toRat
    let right ← double right.toRat
    (double (left * right)).map ConstValue.ofDouble

/-- `evaluate_operation` for `/` with a divisor that is not 0; `none` is an `OverflowError`. -/
def evaluateDiv (left right : ConstValue) : Option ConstValue :=
  match left.read, right.read with
  | .int left, .int right => (double (left / right)).map ConstValue.ofDouble
  | left, right => do
    let left ← double left.toRat
    let right ← double right.toRat
    (double (left / right)).map ConstValue.ofDouble

/-! ## Nodes -/

/-- `group_id_node_mul_size_of_work_groups`; `none` is `UNKNOWN`. -/
def groupIdNodeMulSizeOfWorkGroups (sizes : Dim → Int) : Node τ ι → Node τ ι → Option Dim
  | .workItem (.workGroupId dim), .const value _ => if value.equals (sizes dim) then some dim else none
  | .const value _, .workItem (.workGroupId dim) => if value.equals (sizes dim) then some dim else none
  | _, _ => none

/-- `_optimized_nodes_mul`. -/
def optimizedNodesMul (types : Types τ) (sizes : Dim → Int) (s0 s1 : Node τ ι) (hint : τ) :
    Node τ ι :=
  if s0.constZero then s0
  else if s1.constZero then s1
  else if s0.constOne then s1
  else if s1.constOne then s0
  else
    match groupIdNodeMulSizeOfWorkGroups sizes s0 s1 with
    | some dim => .op .mul (.workItem (.workGroupId dim)) (.workItem (.localSize dim)) types.uint
    | none => .op .mul s0 s1 hint

/-- `_optimized_nodes_div`; `none` is an exception. -/
def optimizedNodesDiv (types : Types τ) (s0 s1 : Node τ ι) (hint : τ) : Option (Node τ ι) :=
  if s1.constZero then none
  else if s1.constOne then some s0
  else
    match s0, s1 with
    | .op .mul left (.const value valueHint) mulHint, .const divisor divisorHint => do
        let value ← evaluateDiv value divisor
        if value.isOne then some left
        else some (.op .mul left
          (.const value (types.const (types.common valueHint divisorHint))) mulHint)
    | s0, s1 => some (.op .div s0 s1 hint)

/-- `add_operation` with `*`; `opHint` is the type of the result, which no step reads. -/
def addMul (types : Types τ) (sizes : Dim → Int) (opHint : Node τ ι → Node τ ι → τ) :
    Node τ ι → Node τ ι → Option (Node τ ι)
  | .const left leftHint, .const right rightHint =>
      (evaluateMul left right).map fun value =>
        .const value (types.const (types.common leftHint rightHint))
  | s0, s1 => some (optimizedNodesMul types sizes s0 s1 (opHint s0 s1))

/-- `add_operation` with `/`. -/
def addDiv (types : Types τ) (opHint : Node τ ι → Node τ ι → τ) :
    Node τ ι → Node τ ι → Option (Node τ ι)
  | .const left leftHint, .const right rightHint =>
      if right.isZero then none
      else (evaluateDiv left right).map fun value =>
        .const value (types.const (types.common leftHint rightHint))
  | s0, s1 => optimizedNodesDiv types s0 s1 (opHint s0 s1)

/-! ## Chains -/

/-- A constant that is an integer and not 0. -/
structure Factor (τ : Type) where
  value : ConstValue
  hint : τ
  integral : value.isInt = true
  nonzero : value.isZero = false

/-- A product or a quotient with a constant. -/
inductive Scale (τ : Type) where
  | mulRight (factor : Factor τ)
  | mulLeft (factor : Factor τ)
  | div (factor : Factor τ)

namespace Factor

def node (factor : Factor τ) : Node τ ι := .const factor.value factor.hint

/-- The number. -/
def number (factor : Factor τ) : Int := factor.value.eval

end Factor

namespace Scale

/-- The node for the product or the quotient. -/
def apply (types : Types τ) (sizes : Dim → Int) (opHint : Node τ ι → Node τ ι → τ)
    (node : Node τ ι) : Scale τ → Option (Node τ ι)
  | mulRight factor => addMul types sizes opHint node factor.node
  | mulLeft factor => addMul types sizes opHint factor.node node
  | div factor => addDiv types opHint node factor.node

/-- The product or the quotient in C. -/
def value (number : Int) : Scale τ → Int
  | mulRight factor => number * factor.number
  | mulLeft factor => factor.number * number
  | div factor => number.tdiv factor.number

end Scale

/-! ## Values -/

theorem ConstValue.ofDouble_intCast (value : Int) : ofDouble (value : ℚ) = .int value := by
  simp [ofDouble]

theorem ConstValue.read_of_isInt {value : ConstValue} (integral : value.isInt = true) :
    value.read = .int value.eval := by
  cases value with
  | int value => simp [read, eval]
  | hex value => simp [read, eval]
  | float value => cases integral

theorem evaluateMul_of_isInt {left right : ConstValue} (leftInt : left.isInt = true)
    (rightInt : right.isInt = true) :
    evaluateMul left right = some (.int (left.eval * right.eval)) := by
  simp only [evaluateMul, ConstValue.read_of_isInt leftInt, ConstValue.read_of_isInt rightInt]

theorem evaluateDiv_of_isInt {left right : ConstValue} (leftInt : left.isInt = true)
    (rightInt : right.isInt = true) : evaluateDiv left right =
      (double ((left.eval : Int) / (right.eval : Int))).map ConstValue.ofDouble := by
  simp only [evaluateDiv, ConstValue.read_of_isInt leftInt, ConstValue.read_of_isInt rightInt]

theorem Factor.number_ne_zero (factor : Factor τ) : factor.number ≠ 0 := by
  obtain ⟨value, hint, integral, nonzero⟩ := factor
  cases value with
  | int value => simpa [number, ConstValue.eval, ConstValue.isZero] using nonzero
  | hex value => simpa [number, ConstValue.eval, ConstValue.isZero] using nonzero
  | float value => cases integral

theorem Factor.integral_node (factor : Factor τ) : (factor.node : Node τ ι).Integral :=
  factor.integral

theorem ConstValue.isOne_iff {value : ConstValue} (integral : value.isInt = true) :
    value.isOne = true ↔ (value.eval : Int) = 1 := by
  cases value with
  | int value => simp [isOne, eval]
  | hex value => simp [isOne, eval]
  | float value => cases integral

theorem evaluateDiv_of_double {value : ConstValue} (integral : value.isInt = true)
    {factor : Factor τ} {quotient : Int}
    (rounded : double ((value.eval : Int) / factor.number) = some (quotient : ℚ)) :
    evaluateDiv value factor.value = some (.int quotient) := by
  have folded := congrArg (Option.map ConstValue.ofDouble) rounded
  rw [Option.map_some, ConstValue.ofDouble_intCast] at folded
  rw [evaluateDiv_of_isInt integral factor.integral]
  exact folded

theorem ConstValue.den_of_ofDouble {result : ℚ}
    (whole : (ofDouble result).isInt = true ∨ (ofDouble result).isOne = true) : result.den = 1 := by
  by_contra fraction
  have float : ofDouble result = .float result := if_neg fraction
  rw [float] at whole
  obtain isInt | isOne := whole
  · cases isInt
  · obtain rfl : result = 1 := of_decide_eq_true isOne
    exact fraction rfl

variable {R : Type} [CommRing R]

theorem eval_of_groupIdNodeMulSizeOfWorkGroups {sizes : Dim → Int} (meaning : Meaning τ ι R)
    (configured : meaning.Configured sizes) {s0 s1 : Node τ ι} {dim : Dim}
    (group : groupIdNodeMulSizeOfWorkGroups sizes s0 s1 = some dim) :
    meaning.groupId dim * meaning.localSize dim = s0.eval meaning * s1.eval meaning := by
  unfold groupIdNodeMulSizeOfWorkGroups at group
  split at group
  · split at group
    · rename_i value hint size
      cases group
      rw [configured dim, ← value.eval_of_equals size]
      rfl
    · cases group
  · split at group
    · rename_i value hint other size
      cases group
      rw [configured dim, ← value.eval_of_equals size, mul_comm]
      rfl
    · cases group
  · cases group

theorem optimizedNodesMul_spec (types : Types τ) (sizes : Dim → Int) {s0 s1 : Node τ ι}
    (integral0 : s0.Integral) (integral1 : s1.Integral) (hint : τ) :
    (optimizedNodesMul types sizes s0 s1 hint).Integral ∧
      ∀ meaning : Meaning τ ι R, meaning.Configured sizes →
        (optimizedNodesMul types sizes s0 s1 hint).eval meaning =
          s0.eval meaning * s1.eval meaning := by
  unfold optimizedNodesMul
  split
  · rename_i zero
    exact ⟨integral0, fun meaning _ => by rw [Node.eval_of_constZero meaning zero, zero_mul]⟩
  split
  · rename_i zero
    exact ⟨integral1, fun meaning _ => by rw [Node.eval_of_constZero meaning zero, mul_zero]⟩
  split
  · rename_i one
    exact ⟨integral1, fun meaning _ => by rw [Node.eval_of_constOne meaning one, one_mul]⟩
  split
  · rename_i one
    exact ⟨integral0, fun meaning _ => by rw [Node.eval_of_constOne meaning one, mul_one]⟩
  split
  · rename_i group
    exact ⟨⟨trivial, trivial⟩, fun meaning configured =>
      eval_of_groupIdNodeMulSizeOfWorkGroups meaning configured group⟩
  · exact ⟨⟨integral0, integral1⟩, fun meaning _ => rfl⟩

/-- An integer constant has its value in every ring. -/
theorem ConstValue.cast_eval {value : ConstValue} (integral : value.isInt = true) :
    ((value.eval : Int) : R) = value.eval := by
  cases value with
  | int value => rfl
  | hex value => exact Int.cast_natCast value
  | float value => cases integral

theorem addMul_spec (types : Types τ) (sizes : Dim → Int) (opHint : Node τ ι → Node τ ι → τ)
    {s0 s1 : Node τ ι} (integral0 : s0.Integral) (integral1 : s1.Integral) :
    ∃ after, addMul types sizes opHint s0 s1 = some after ∧ after.Integral ∧
      ∀ meaning : Meaning τ ι R, meaning.Configured sizes →
        after.eval meaning = s0.eval meaning * s1.eval meaning := by
  unfold addMul
  split
  · rename_i left leftHint right rightHint
    rw [evaluateMul_of_isInt integral0 integral1]
    refine ⟨_, rfl, rfl, fun meaning _ => (Int.cast_mul _ _).trans ?_⟩
    rw [ConstValue.cast_eval integral0, ConstValue.cast_eval integral1]
    rfl
  · exact ⟨_, rfl, optimizedNodesMul_spec types sizes integral0 integral1 _⟩

/-! ## Quotients -/

/-- A quotient of integers is the one of C. -/
def Meaning.Truncates (meaning : Meaning τ ι Int) : Prop :=
  ∀ hint left right, meaning.operation .div hint left right = left.tdiv right

/-- One work item with local sizes as configured. -/
def Meaning.single (sizes : Dim → Int) : Meaning τ ι Int where
  localId _ := 0
  groupId _ := 0
  localSize := sizes
  numGroups _ := 1
  globalOffset _ := 0
  workDim := 1
  leaf _ := 0
  operation _ _ left right := left.tdiv right
  not _ left := left

/-- The node is an integer expression, and worth `number` for every work item. -/
def Node.DenotesInt (sizes : Dim → Int) (node : Node τ ι) (number : Meaning τ ι Int → Int) : Prop :=
  node.Integral ∧ ∀ meaning : Meaning τ ι Int, meaning.Configured sizes → meaning.Truncates →
    node.eval meaning = number meaning

/-- A constant quotient that is the one of C. -/
def ExactQuotient (dividend divisor : Int) : Prop :=
  double (dividend / divisor) = some (dividend.tdiv divisor : ℚ)

/--
Constants beyond the digits of a double: their quotient is rounded to an integer, and
for the values of the other factor the rounding does not show.
-/
def RoundedAway (sizes : Dim → Int) (left : Node τ ι) (value divisor : Int) : Prop :=
  (2 ^ 53 ≤ |value| ∨ 2 ^ 1074 < |(divisor : ℚ)|) ∧
    ∃ quotient : Int, double (value / divisor) = some (quotient : ℚ) ∧
      ∀ meaning : Meaning τ ι Int, meaning.Configured sizes → meaning.Truncates →
        left.eval meaning * quotient = (left.eval meaning * value).tdiv divisor

/-- The step computes what C does. -/
def Scale.Exact (sizes : Dim → Int) (node : Node τ ι) : Scale τ → Prop
  | .div factor =>
      match node with
      | .const value _ => ExactQuotient value.eval factor.number
      | .op .mul left (.const value _) _ =>
          factor.number = 1 ∨
            factor.number ∣ value.eval ∧
              double ((value.eval : Int) / factor.number) =
                some (((value.eval : Int) / factor.number : Int) : ℚ) ∨
            RoundedAway sizes left value.eval factor.number
      | _ => True
  | _ => True

theorem tdiv_eq_of_dvd {dividend divisor : Int} (divides : divisor ∣ dividend) (number : Int)
    (nonzero : divisor ≠ 0) :
    (number * dividend).tdiv divisor = number * (dividend / divisor) := by
  obtain ⟨quotient, rfl⟩ := divides
  rw [Int.mul_ediv_cancel_left _ nonzero, mul_left_comm, Int.mul_tdiv_cancel_left _ nonzero]

theorem double_of_dvd {dividend divisor : Int} (small : |dividend| < 2 ^ 53) (nonzero : divisor ≠ 0)
    (divides : divisor ∣ dividend) :
    double (dividend / divisor) = some ((dividend / divisor : Int) : ℚ) := by
  rw [← Int.cast_div divides (Int.cast_ne_zero.mpr nonzero)]
  exact double_intCast (lt_of_le_of_lt (Int.abs_ediv_le_abs dividend divisor) small)

/-- Without big constants a quotient that is rounded to an integer is one. -/
theorem exact_of_small {dividend divisor quotient : Int} (small : |dividend| < 2 ^ 53)
    (few : |(divisor : ℚ)| ≤ 2 ^ 1074) (nonzero : divisor ≠ 0)
    (rounded : double (dividend / divisor) = some (quotient : ℚ)) :
    divisor ∣ dividend ∧
      double (dividend / divisor) = some ((dividend / divisor : Int) : ℚ) := by
  have divides := dvd_of_double small few nonzero rounded
  exact ⟨divides, double_of_dvd small nonzero divides⟩

/-- A constant below `2 ^ 53` is computed right if it is a multiple of the divisor. -/
theorem exactQuotient_iff_dvd {dividend divisor : Int} (small : |dividend| < 2 ^ 53)
    (few : |(divisor : ℚ)| ≤ 2 ^ 1074) (nonzero : divisor ≠ 0) :
    ExactQuotient dividend divisor ↔ divisor ∣ dividend := by
  refine ⟨dvd_of_double small few nonzero, fun divides => ?_⟩
  have truncated : dividend.tdiv divisor = dividend / divisor := by
    have scaled := tdiv_eq_of_dvd divides 1 nonzero
    rwa [one_mul, one_mul] at scaled
  rw [ExactQuotient, truncated]
  exact double_of_dvd small nonzero divides

/-- So is a product with such a constant. -/
theorem exact_scaled_iff_dvd {sizes : Dim → Int} {left : Node τ ι} {value : ConstValue}
    {valueHint mulHint : τ} {factor : Factor τ} (small : |(value.eval : Int)| < 2 ^ 53)
    (few : |(factor.number : ℚ)| ≤ 2 ^ 1074) :
    (Scale.div factor).Exact sizes (.op .mul left (.const value valueHint) mulHint) ↔
      factor.number ∣ value.eval := by
  constructor
  · rintro (one | ⟨divides, -⟩ | ⟨large, -⟩)
    · rw [one]
      exact one_dvd _
    · exact divides
    · exact absurd large (not_or.mpr ⟨not_le.mpr small, not_lt.mpr few⟩)
  · exact fun divides => .inr (.inl ⟨divides, double_of_dvd small factor.number_ne_zero divides⟩)

/-! ### One step -/

section Step

variable (types : Types τ) (sizes : Dim → Int) (opHint : Node τ ι → Node τ ι → τ)

theorem Factor.isOne_eq (factor : Factor τ) : factor.value.isOne = decide (factor.number = 1) := by
  rw [Bool.eq_iff_iff, decide_eq_true_eq, ConstValue.isOne_iff factor.integral]
  rfl

/-- A factor 1 leaves every node but a constant. -/
theorem addDiv_one {node : Node τ ι} (noConst : ∀ value hint, node ≠ .const value hint)
    {factor : Factor τ} (one : factor.number = 1) :
    addDiv types opHint node factor.node = some node := by
  have divides : optimizedNodesDiv types node factor.node (opHint node factor.node) = some node := by
    simp [optimizedNodesDiv, Factor.node, Node.constZero, Node.constOne, factor.nonzero,
      factor.isOne_eq, one]
  cases node with
  | const value hint => exact absurd rfl (noConst value hint)
  | _ => exact divides

theorem addDiv_scaled (left : Node τ ι) (value : ConstValue) (valueHint mulHint : τ)
    {factor : Factor τ} (notOne : factor.number ≠ 1) :
    addDiv types opHint (.op .mul left (.const value valueHint) mulHint) factor.node =
      (evaluateDiv value factor.value).bind fun quotient =>
        if quotient.isOne then some left
        else some (.op .mul left
          (.const quotient (types.const (types.common valueHint factor.hint))) mulHint) := by
  simp [addDiv, optimizedNodesDiv, Factor.node, Node.constZero, Node.constOne, factor.nonzero,
    factor.isOne_eq, notOne]

/-- The divisions that stay divisions. -/
def PlainDividend : Node τ ι → Prop
  | .const _ _ => False
  | .op .mul _ (.const _ _) _ => False
  | _ => True

theorem addDiv_plain {node : Node τ ι} (plain : PlainDividend node) {factor : Factor τ}
    (notOne : factor.number ≠ 1) : addDiv types opHint node factor.node =
      some (.op .div node factor.node (opHint node factor.node)) := by
  have divides : optimizedNodesDiv types node factor.node (opHint node factor.node) =
      some (.op .div node factor.node (opHint node factor.node)) := by
    unfold optimizedNodesDiv
    rw [if_neg (by simp [Factor.node, Node.constZero, factor.nonzero]),
      if_neg (by simp [Factor.node, Node.constOne, factor.isOne_eq, notOne])]
    split
    · cases plain
    · rfl
  cases node with
  | const value hint => cases plain
  | _ => exact divides

/-- A product with a constant whose quotient is rounded to an integer. -/
theorem addDiv_scaled_spec {left : Node τ ι} {value : ConstValue} {valueHint mulHint : τ}
    (integral : (Node.op .mul left (.const value valueHint) mulHint).Integral) {factor : Factor τ}
    (notOne : factor.number ≠ 1) {quotient : Int}
    (rounded : double ((value.eval : Int) / factor.number) = some (quotient : ℚ)) :
    ∃ after, addDiv types opHint (.op .mul left (.const value valueHint) mulHint) factor.node =
        some after ∧ after.Integral ∧
      ∀ meaning : Meaning τ ι Int, after.eval meaning = left.eval meaning * quotient := by
  rw [addDiv_scaled types opHint left value valueHint mulHint notOne,
    evaluateDiv_of_double integral.2 rounded, Option.bind_some]
  split
  · rename_i one
    obtain rfl : quotient = 1 := of_decide_eq_true one
    exact ⟨left, rfl, integral.1, fun meaning => (mul_one _).symm⟩
  · exact ⟨_, rfl, ⟨integral.1, rfl⟩, fun meaning => rfl⟩

/-- The step is right for a folded product only if it is exact. -/
theorem exact_of_scaled {left : Node τ ι} {value : ConstValue} {valueHint mulHint : τ}
    (integral : (Node.op .mul left (.const value valueHint) mulHint).Integral) {factor : Factor τ}
    (notOne : factor.number ≠ 1) {after : Node τ ι}
    (divides : addDiv types opHint (.op .mul left (.const value valueHint) mulHint) factor.node =
      some after)
    (denotes : after.DenotesInt sizes fun meaning =>
      (left.eval meaning * value.eval).tdiv factor.number) :
    factor.number ∣ value.eval ∧ double ((value.eval : Int) / factor.number) =
        some (((value.eval : Int) / factor.number : Int) : ℚ) ∨
      RoundedAway sizes left value.eval factor.number := by
  have whole : ∃ quotient : Int,
      double ((value.eval : Int) / factor.number) = some (quotient : ℚ) := by
    rw [addDiv_scaled types opHint left value valueHint mulHint notOne,
      evaluateDiv_of_isInt integral.2 factor.integral] at divides
    obtain ⟨quotient, folded, built⟩ := Option.bind_eq_some_iff.mp divides
    obtain ⟨result, rounded, rfl⟩ := Option.map_eq_some_iff.mp folded
    have den : result.den = 1 := by
      refine ConstValue.den_of_ofDouble ?_
      split at built
      · exact .inr (by assumption)
      · cases built
        exact .inl denotes.1.2
    refine ⟨result.num, ?_⟩
    rw [Rat.coe_int_num_of_den_eq_one den]
    exact rounded
  obtain ⟨quotient, rounded⟩ := whole
  obtain ⟨same, built, -, worth⟩ := addDiv_scaled_spec types opHint integral notOne rounded
  obtain rfl : same = after := Option.some.inj (built.symm.trans divides)
  by_cases large : 2 ^ 53 ≤ |(value.eval : Int)| ∨ 2 ^ 1074 < |(factor.number : ℚ)|
  · exact .inr ⟨large, quotient, rounded, fun meaning configured truncates =>
      (worth meaning).symm.trans (denotes.2 meaning configured truncates)⟩
  · obtain ⟨small, few⟩ := not_or.mp large
    exact .inl (exact_of_small (not_le.mp small) (not_lt.mp few) factor.number_ne_zero rounded)

/-- A product that keeps its constant, or folds it. -/
theorem apply_scaled_iff {left : Node τ ι} {value : ConstValue} {valueHint mulHint : τ}
    (integral : (Node.op .mul left (.const value valueHint) mulHint).Integral) (factor : Factor τ) :
    (∃ after, addDiv types opHint (.op .mul left (.const value valueHint) mulHint) factor.node =
        some after ∧ after.DenotesInt sizes fun meaning =>
          (left.eval meaning * value.eval).tdiv factor.number) ↔
      (Scale.div factor).Exact sizes (.op .mul left (.const value valueHint) mulHint) := by
  constructor
  · rintro ⟨after, divides, denotes⟩
    by_cases one : factor.number = 1
    · exact .inl one
    · exact .inr (exact_of_scaled types sizes opHint integral one divides denotes)
  · intro exact'
    by_cases one : factor.number = 1
    · refine ⟨_, addDiv_one types opHint (fun _ _ same => by cases same) one, integral,
        fun meaning _ _ => ?_⟩
      rw [one]
      exact (Int.tdiv_one _).symm
    · obtain ⟨divides, rounded⟩ | ⟨-, quotient, rounded, same⟩ := exact'.resolve_left one
      · obtain ⟨after, built, whole, worth⟩ :=
          addDiv_scaled_spec types opHint integral one rounded
        refine ⟨after, built, whole, fun meaning _ _ => ?_⟩
        exact (worth meaning).trans (tdiv_eq_of_dvd divides _ factor.number_ne_zero).symm
      · obtain ⟨after, built, whole, worth⟩ :=
          addDiv_scaled_spec types opHint integral one rounded
        exact ⟨after, built, whole, fun meaning configured truncates =>
          (worth meaning).trans (same meaning configured truncates)⟩

/-- Two constants are computed. -/
theorem apply_const_iff {value : ConstValue} (integral : value.isInt = true) (hint : τ)
    (factor : Factor τ) :
    (∃ after : Node τ ι, addDiv types opHint (.const value hint) factor.node = some after ∧
        after.DenotesInt sizes fun _ => (value.eval : Int).tdiv factor.number) ↔
      ExactQuotient value.eval factor.number := by
  have computed : addDiv types opHint (.const value hint : Node τ ι) factor.node =
      (evaluateDiv value factor.value).map fun quotient =>
        .const quotient (types.const (types.common hint factor.hint)) := by
    simp [addDiv, Factor.node, factor.nonzero]
  constructor
  · rintro ⟨after, divides, whole, worth⟩
    rw [computed, evaluateDiv_of_isInt integral factor.integral, Option.map_map] at divides
    obtain ⟨result, rounded, rfl⟩ := Option.map_eq_some_iff.mp divides
    have den : result.den = 1 := ConstValue.den_of_ofDouble (.inl whole)
    have number : result.num = (value.eval : Int).tdiv factor.number := by
      refine Eq.trans ?_ (worth (Meaning.single sizes) (fun _ => rfl) fun _ _ _ => rfl)
      simp [ConstValue.ofDouble, den, Node.eval, ConstValue.eval]
    rw [ExactQuotient, ← number, Rat.coe_int_num_of_den_eq_one den]
    exact rounded
  · intro rounded
    rw [computed, evaluateDiv_of_double integral rounded]
    exact ⟨_, rfl, rfl, fun _ _ _ => rfl⟩

theorem Scale.apply_denotes_iff {node : Node τ ι} (integral : node.Integral) (scale : Scale τ) :
    (∃ after, scale.apply types sizes opHint node = some after ∧
        after.DenotesInt sizes fun meaning => scale.value (node.eval meaning)) ↔
      scale.Exact sizes node := by
  cases scale with
  | mulRight factor =>
      obtain ⟨after, built, whole, worth⟩ := addMul_spec (R := Int) types sizes opHint integral
        factor.integral_node
      exact iff_of_true ⟨after, built, whole, fun meaning configured _ => worth meaning configured⟩
        trivial
  | mulLeft factor =>
      obtain ⟨after, built, whole, worth⟩ := addMul_spec (R := Int) types sizes opHint
        factor.integral_node integral
      exact iff_of_true ⟨after, built, whole, fun meaning configured _ => worth meaning configured⟩
        trivial
  | div factor =>
      by_cases plain : PlainDividend node
      · have right : (Scale.div factor).Exact sizes node := by
          unfold Scale.Exact
          dsimp only
          split
          · exact False.elim plain
          · exact False.elim plain
          · trivial
        refine iff_of_true ?_ right
        by_cases one : factor.number = 1
        · refine ⟨node, addDiv_one types opHint ?_ one, integral, fun meaning _ _ => ?_⟩
          · rintro value hint rfl
            exact plain
          · exact (by rw [one, Int.tdiv_one] :
              node.eval meaning = (node.eval meaning).tdiv factor.number)
        · exact ⟨_, addDiv_plain types opHint plain one, ⟨integral, factor.integral⟩,
            fun meaning _ truncates => truncates ..⟩
      · unfold PlainDividend at plain
        split at plain
        · exact apply_const_iff types sizes opHint integral _ factor
        · exact apply_scaled_iff types sizes opHint integral factor
        · exact absurd trivial plain

end Step

/-! ### Chains -/

/-- Every step of the chain is exact where it is taken. -/
def ExactChain (types : Types τ) (sizes : Dim → Int) (opHint : Node τ ι → Node τ ι → τ)
    (node : Node τ ι) : List (Scale τ) → Prop
  | [] => True
  | scale :: rest => scale.Exact sizes node ∧
      ∀ after, scale.apply types sizes opHint node = some after →
        ExactChain types sizes opHint after rest

/-- The node of a chain. -/
def applyChain (types : Types τ) (sizes : Dim → Int) (opHint : Node τ ι → Node τ ι → τ)
    (node : Node τ ι) (chain : List (Scale τ)) : Option (Node τ ι) :=
  chain.foldlM (fun node scale => scale.apply types sizes opHint node) node

def intFactor (number : Int) (nonzero : (ConstValue.int number).isZero = false) : Factor Unit where
  value := .int number
  hint := ()
  integral := rfl
  nonzero := nonzero

theorem four_few : |((intFactor 4 rfl).number : ℚ)| ≤ 2 ^ 1074 := by
  calc |((4 : Int) : ℚ)| = 2 ^ 2 := by norm_num
    _ ≤ 2 ^ 1074 := pow_le_pow_right₀ one_le_two (by decide)

end OpenCLDecompiler.Optimizations
