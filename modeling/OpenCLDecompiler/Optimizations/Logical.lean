import Mathlib.Data.BitVec
import Mathlib.Data.Int.Bitwise
import OpenCLDecompiler.Optimizations.Scaling

/-!
# Logical operations

`add_operation` for `&&`, `||` and `^`.  An UNKNOWN node is a leaf; which leaves are
UNKNOWN is a parameter.
-/

namespace OpenCLDecompiler.Optimizations

open Expressions

variable {τ ι : Type}

/-- Truth of a value in Python: a text that is not empty is true. -/
def ConstValue.truthy : ConstValue → Bool
  | .int value => value ≠ 0
  | .hex _ => true
  | .float value => value ≠ 0

/-- `int(result)` where this is the same number. -/
def ConstValue.whole : ConstValue → ConstValue
  | .float value => .ofDouble value
  | value => value

/-- `evaluate_operation` for the logical operators; `none` is a `TypeError`. -/
def evaluateLogical (op : ExpressionOperationType) (left right : ConstValue) : Option ConstValue :=
  match op with
  | .and => some (if left.read.truthy then right.read.whole else left.read.whole)
  | .or => some (if left.read.truthy then left.read.whole else right.read.whole)
  | .xor =>
      match left.read, right.read with
      | .int left, .int right => some (.int (Int.xor left right))
      | _, _ => none
  | _ => none

def isCompareOperator : ExpressionOperationType → Bool
  | .eq | .ne | .lt | .le | .gt | .ge | .lg => true
  | _ => false

/-- `add_logical_not_node`; `<>` has no inverted operation. -/
def addLogicalNot (types : Types τ) : Node τ ι → Option (Node τ ι)
  | .not left _ => some left
  | .op operation left right hint =>
      if isCompareOperator operation then
        operation.getInvertedOperation.map fun inverted => .op inverted left right hint
      else some (.not (.op operation left right hint) hint)
  | .const value _ =>
      some (.const (.int (if value.isZero then 1 else 0)) (types.const types.uint))
  | node => some (.not node (node.hint types))

def Node.isUnknown (unknown : ι → Bool) : Node τ ι → Bool
  | .leaf id _ => unknown id
  | _ => false

/-- A constant and another node. -/
def logicalWithConst (op : ExpressionOperationType) (value : ConstValue) (other whole : Node τ ι)
    (hint : τ) : Node τ ι :=
  if op = .or && value.truthy then .const (.int 1) hint
  else if op = .and then
    if value.truthy then other else .const (.int 0) hint
  else whole

/-- `_optimized_nodes_logical_operation`. -/
def optimizedNodesLogicalOperation (types : Types τ) (unknown : ι → Bool)
    (op : ExpressionOperationType) (s0 s1 : Node τ ι) (hint : τ) : Option (Node τ ι) :=
  if op = .xor && s0.isUnknown unknown then addLogicalNot types s1
  else if op = .xor && s1.isUnknown unknown then addLogicalNot types s0
  else if s0.isUnknown unknown then some s1
  else if s1.isUnknown unknown then some s0
  else
    match s0, s1 with
    | .const value _, other => some (logicalWithConst op value other (.op op s0 s1 hint) hint)
    | other, .const value _ => some (logicalWithConst op value other (.op op s0 s1 hint) hint)
    | s0, s1 => some (.op op s0 s1 hint)

/-- `add_operation` with a logical operator. -/
def addLogical (types : Types τ) (unknown : ι → Bool) (opHint : Node τ ι → Node τ ι → τ)
    (op : ExpressionOperationType) : Node τ ι → Node τ ι → Option (Node τ ι)
  | .const left leftHint, .const right rightHint =>
      (evaluateLogical op left right).map fun value =>
        .const value (types.const (types.common leftHint rightHint))
  | s0, s1 => optimizedNodesLogicalOperation types unknown op s0 s1 (opHint s0 s1)

/-! ## What is left of an operation -/

/-- The operators `&&` and `||`. -/
inductive Connective where
  | and
  | or
  deriving DecidableEq

def Connective.operation : Connective → ExpressionOperationType
  | .and => .and
  | .or => .or

/-- What becomes of a logical operation. -/
inductive Folding where
  | first
  | second
  | number (value : Int)
  | operation
  deriving DecidableEq

/-- The constant decides, or it leaves the other node or the operation. -/
def foldingWithConst (connective : Connective) (value : ConstValue) (other : Folding) : Folding :=
  match connective with
  | .and => if value.truthy then other else .number 0
  | .or => if value.truthy then .number 1 else .operation

/-- The folding when at most one node is a constant. -/
def foldingOfPart (connective : Connective) : Node τ ι → Node τ ι → Folding
  | .const value _, _ => foldingWithConst connective value .second
  | _, .const value _ => foldingWithConst connective value .first
  | _, _ => .operation

/-- How the operation of two nodes is folded. -/
def folding (unknown : ι → Bool) (connective : Connective) (s0 s1 : Node τ ι) : Folding :=
  match s0, s1 with
  | .const left _, .const _ _ =>
      match connective with
      | .and => if left.read.truthy then .second else .first
      | .or => if left.read.truthy then .first else .second
  | s0, s1 =>
      if s0.isUnknown unknown then .second
      else if s1.isUnknown unknown then .first
      else foldingOfPart connective s0 s1

variable {w : Nat}

/-- A truth value as a number of C. -/
def ofProp (p : Prop) [Decidable p] : BitVec w := if p then 1 else 0

/-- The value of `&&` or `||` in C. -/
def Connective.value (connective : Connective) (left right : BitVec w) : BitVec w :=
  match connective with
  | .and => ofProp (left ≠ 0 ∧ right ≠ 0)
  | .or => ofProp (left ≠ 0 ∨ right ≠ 0)

/-- `&&` and `||` are those of C. -/
def Meaning.Logical (meaning : Meaning τ ι (BitVec w)) : Prop :=
  ∀ (connective : Connective) hint left right,
    meaning.operation connective.operation hint left right = connective.value left right

def Folding.value (connective : Connective) (left right : BitVec w) : Folding → BitVec w
  | .first => left
  | .second => right
  | .number value => value
  | .operation => connective.value left right

theorem eval_ofDouble (value : ℚ) :
    ((ConstValue.ofDouble value).eval : BitVec w) = (ConstValue.float value).eval := by
  by_cases whole : value.den = 1
  · simp only [ConstValue.ofDouble, whole, if_true, ConstValue.eval]
  · simp only [ConstValue.ofDouble, whole, if_false]

theorem eval_read_whole (value : ConstValue) :
    (value.read.whole.eval : BitVec w) = value.eval := by
  cases value with
  | int value => rfl
  | hex value => exact Int.cast_natCast value
  | float value => exact eval_ofDouble value

theorem evaluateLogical_spec (unknown : ι → Bool) (connective : Connective)
    (left right : ConstValue) (leftHint rightHint : τ) :
    ∃ value, evaluateLogical connective.operation left right = some value ∧
      (value.eval : BitVec w) = (folding unknown connective (.const left leftHint)
        (.const right rightHint)).value connective left.eval right.eval := by
  cases connective with
  | and =>
      refine ⟨_, rfl, ?_⟩
      by_cases truthy : left.read.truthy = true
      · simp only [folding, truthy, if_true, Folding.value, eval_read_whole]
      · simp only [folding, truthy, Bool.false_eq_true, if_false, Folding.value, eval_read_whole]
  | or =>
      refine ⟨_, rfl, ?_⟩
      by_cases truthy : left.read.truthy = true
      · simp only [folding, truthy, if_true, Folding.value, eval_read_whole]
      · simp only [folding, truthy, Bool.false_eq_true, if_false, Folding.value, eval_read_whole]

/-- The value of an operation with a constant. -/
theorem logicalWithConst_spec {meaning : Meaning τ ι (BitVec w)} (logical : meaning.Logical)
    (connective : Connective) (value : ConstValue) {other s0 s1 : Node τ ι} (hint : τ)
    {kept : Folding}
    (same : kept.value connective (s0.eval meaning) (s1.eval meaning) = other.eval meaning) :
    (logicalWithConst connective.operation value other (.op connective.operation s0 s1 hint)
        hint).eval meaning =
      (foldingWithConst connective value kept).value connective (s0.eval meaning)
        (s1.eval meaning) := by
  cases connective with
  | and =>
      by_cases truthy : value.truthy = true
      · simpa [logicalWithConst, foldingWithConst, Connective.operation, truthy] using same.symm
      · simp [logicalWithConst, foldingWithConst, Connective.operation, truthy, Folding.value,
          Node.eval, ConstValue.eval]
  | or =>
      by_cases truthy : value.truthy = true
      · simp [logicalWithConst, foldingWithConst, Connective.operation, truthy, Folding.value,
          Node.eval, ConstValue.eval]
      · have both := logical .or hint (s0.eval meaning) (s1.eval meaning)
        simpa [logicalWithConst, foldingWithConst, Connective.operation, truthy, Folding.value,
          Node.eval] using both

/-- The folding of two nodes that are not both constants. -/
theorem folding_of_not_consts (unknown : ι → Bool) (connective : Connective) {s0 s1 : Node τ ι}
    (mixed : ∀ left leftHint right rightHint, s0 = .const left leftHint →
      s1 = .const right rightHint → False) :
    folding unknown connective s0 s1 =
      if s0.isUnknown unknown then .second
      else if s1.isUnknown unknown then .first
      else foldingOfPart connective s0 s1 := by
  unfold folding
  split
  · exact (mixed _ _ _ _ rfl rfl).elim
  · rfl

theorem optimizedNodesLogicalOperation_spec (types : Types τ) (unknown : ι → Bool)
    (connective : Connective) {s0 s1 : Node τ ι}
    (mixed : ∀ left leftHint right rightHint, s0 = .const left leftHint →
      s1 = .const right rightHint → False) (hint : τ) :
    ∃ node, optimizedNodesLogicalOperation types unknown connective.operation s0 s1 hint =
        some node ∧
      ∀ meaning : Meaning τ ι (BitVec w), meaning.Logical →
        node.eval meaning = (folding unknown connective s0 s1).value connective
          (s0.eval meaning) (s1.eval meaning) := by
  have noXor : (connective.operation = .xor) = False := by
    cases connective <;> simp [Connective.operation]
  rw [folding_of_not_consts unknown connective mixed]
  unfold optimizedNodesLogicalOperation
  simp only [noXor, decide_false, Bool.false_and, Bool.false_eq_true, if_false]
  split
  · exact ⟨s1, rfl, fun _ _ => rfl⟩
  split
  · exact ⟨s0, rfl, fun _ _ => rfl⟩
  split
  · exact ⟨_, rfl, fun meaning logical => logicalWithConst_spec logical connective _ hint rfl⟩
  · rename_i value valueHint noConst _
    rw [foldingOfPart.eq_2 connective s0 value valueHint noConst]
    exact ⟨_, rfl, fun meaning logical => logicalWithConst_spec logical connective _ hint rfl⟩
  · rename_i noFirst noSecond
    rw [foldingOfPart.eq_3 connective s0 s1 noFirst noSecond]
    refine ⟨_, rfl, fun meaning logical => ?_⟩
    have both := logical connective hint (s0.eval meaning) (s1.eval meaning)
    cases connective <;> exact both

/-- The node of a logical operation is worth what its folding says. -/
theorem addLogical_spec (types : Types τ) (unknown : ι → Bool)
    (opHint : Node τ ι → Node τ ι → τ) (connective : Connective) (s0 s1 : Node τ ι) :
    ∃ node, addLogical types unknown opHint connective.operation s0 s1 = some node ∧
      ∀ meaning : Meaning τ ι (BitVec w), meaning.Logical →
        node.eval meaning = (folding unknown connective s0 s1).value connective
          (s0.eval meaning) (s1.eval meaning) := by
  unfold addLogical
  split
  · rename_i left leftHint right rightHint
    obtain ⟨value, folded, same⟩ := evaluateLogical_spec (w := w) unknown connective left right
      leftHint rightHint
    rw [folded]
    exact ⟨_, rfl, fun _ _ => same⟩
  · rename_i mixed
    exact optimizedNodesLogicalOperation_spec types unknown connective mixed _

end OpenCLDecompiler.Optimizations
