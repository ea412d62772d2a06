import Mathlib.Algebra.Order.Ring.Rat
import Mathlib.Algebra.Ring.Defs
import Mathlib.Data.Int.Cast.Basic
import OpenCLDecompiler.Expressions.Printing
import OpenCLDecompiler.Registers.WorkItem

/-!
# Nodes of the expression manager

The trees that the optimisations read and build.  Types are only compared, joined and
asked for their sign, so they are a parameter; variables, ternaries and permutations
are leaves that are compared as a whole.
-/

namespace OpenCLDecompiler.Optimizations

open Expressions Registers

/-- The keys of `CONSTANT_VALUES`. -/
inductive WorkItemFunction where
  | globalId (dim : Dim)
  | workGroupId (dim : Dim)
  | workItemId (dim : Dim)
  | globalOffset (dim : Dim)
  | localSize (dim : Dim)
  | globalSize (dim : Dim)
  | numGroups (dim : Dim)
  | workDim
  deriving DecidableEq, Repr

/-- The value of a constant: a number, or a text that `int` reads with base 16. -/
inductive ConstValue where
  | int (value : Int)
  | hex (value : Nat)
  | float (value : Rat)
  deriving DecidableEq

/-- What the optimisations ask of `ExpressionValueTypeHint`. -/
structure Types (τ : Type) where
  signed : τ → Bool
  pointer : τ → Bool
  common : τ → τ → τ
  /-- The hint that `add_const_node` gives a constant. -/
  const : τ → τ
  uint : τ

/-- One type, signed and no pointer. -/
def plainTypes : Types Unit where
  signed _ := true
  pointer _ := false
  common _ _ := ()
  const _ := ()
  uint := ()

/-- `ExpressionNode`. -/
inductive Node (τ ι : Type) where
  | const (value : ConstValue) (hint : τ)
  | workItem (function : WorkItemFunction)
  | leaf (id : ι) (hint : τ)
  | op (operation : ExpressionOperationType) (left right : Node τ ι) (hint : τ)
  | not (left : Node τ ι) (hint : τ)
  deriving DecidableEq

variable {τ ι : Type}

namespace ConstValue

def isZero : ConstValue → Bool
  | .int value => value = 0
  | .hex value => value = 0
  | .float value => value = 0

def isOne : ConstValue → Bool
  | .int value => value = 1
  | .hex value => value = 1
  | .float value => value = 1

def isNegative : ConstValue → Bool
  | .int value => value < 0
  | .hex _ => false
  | .float value => value < 0

/-- `abs(value)`. -/
def abs : ConstValue → ConstValue
  | .int value => .int value.natAbs
  | .hex value => .hex value
  | .float value => .float |value|

def isInt : ConstValue → Bool
  | .float _ => false
  | _ => true

/-- `value == number`; a text is no number. -/
def equals (number : Int) : ConstValue → Bool
  | .int value => value = number
  | .hex _ => false
  | .float value => value = number

end ConstValue

namespace Node

/-- `value_type_hint`. -/
def hint (types : Types τ) : Node τ ι → τ
  | .const _ hint | .leaf _ hint | .op _ _ _ hint | .not _ hint => hint
  | .workItem _ => types.uint

/-- `const_zero_node`. -/
def constZero : Node τ ι → Bool
  | .const value _ => value.isZero
  | _ => false

/-- `const_one_node`. -/
def constOne : Node τ ι → Bool
  | .const value _ => value.isOne
  | _ => false

/-- `const_negative_node`. -/
def constNegative (types : Types τ) : Node τ ι → Bool
  | .const value hint => types.signed hint && value.isNegative
  | _ => false

/-- A constant with its absolute value; other nodes stay. -/
def absConst : Node τ ι → Node τ ι
  | .const value hint => .const value.abs hint
  | node => node

/-- There is no constant with a fraction in the node. -/
def Integral : Node τ ι → Prop
  | .const value _ => value.isInt = true
  | .workItem _ => True
  | .leaf _ _ => True
  | .op _ left right _ => left.Integral ∧ right.Integral
  | .not left _ => left.Integral

end Node

/-! ## Values -/

/-- The values of a work item and of the leaves, and the operators other than sums and products. -/
structure Meaning (τ ι R : Type) where
  localId : Dim → R
  groupId : Dim → R
  localSize : Dim → R
  numGroups : Dim → R
  globalOffset : Dim → R
  workDim : R
  leaf : ι → R
  operation : ExpressionOperationType → τ → R → R → R
  not : τ → R → R

variable {R : Type} [CommRing R]

/-- The value of a function of the work item. -/
def Meaning.function (meaning : Meaning τ ι R) : WorkItemFunction → R
  | .globalId dim =>
      meaning.globalOffset dim + meaning.groupId dim * meaning.localSize dim + meaning.localId dim
  | .workGroupId dim => meaning.groupId dim
  | .workItemId dim => meaning.localId dim
  | .globalOffset dim => meaning.globalOffset dim
  | .localSize dim => meaning.localSize dim
  | .globalSize dim => meaning.numGroups dim * meaning.localSize dim
  | .numGroups dim => meaning.numGroups dim
  | .workDim => meaning.workDim

/-- The work-group size is the configured one. -/
def Meaning.Configured (meaning : Meaning τ ι R) (sizes : Dim → Int) : Prop :=
  ∀ dim, meaning.localSize dim = sizes dim

/-- The value of a constant; one with a fraction has none and stands as 0. -/
def ConstValue.eval : ConstValue → R
  | .int value => value
  | .hex value => value
  | .float value => if value.den = 1 then value.num else 0

theorem ConstValue.eval_of_equals {value : ConstValue} {number : Int}
    (equal : value.equals number = true) : (value.eval : R) = number := by
  cases value with
  | int value =>
      obtain rfl := of_decide_eq_true equal
      rfl
  | hex value => cases equal
  | float value =>
      obtain rfl := of_decide_eq_true equal
      rfl

namespace Node

def eval (meaning : Meaning τ ι R) : Node τ ι → R
  | .const value _ => value.eval
  | .workItem function => meaning.function function
  | .leaf id _ => meaning.leaf id
  | .op operation left right hint =>
      match operation with
      | .plus => left.eval meaning + right.eval meaning
      | .minus => left.eval meaning - right.eval meaning
      | .mul => left.eval meaning * right.eval meaning
      | other => meaning.operation other hint (left.eval meaning) (right.eval meaning)
  | .not left hint => meaning.not hint (left.eval meaning)

@[simp]
theorem eval_plus (meaning : Meaning τ ι R) (left right : Node τ ι) (hint : τ) :
    (Node.op .plus left right hint).eval meaning = left.eval meaning + right.eval meaning := rfl

@[simp]
theorem eval_minus (meaning : Meaning τ ι R) (left right : Node τ ι) (hint : τ) :
    (Node.op .minus left right hint).eval meaning = left.eval meaning - right.eval meaning := rfl

@[simp]
theorem eval_mul (meaning : Meaning τ ι R) (left right : Node τ ι) (hint : τ) :
    (Node.op .mul left right hint).eval meaning = left.eval meaning * right.eval meaning := rfl

theorem eval_of_constZero (meaning : Meaning τ ι R) {node : Node τ ι}
    (zero : node.constZero = true) : node.eval meaning = 0 := by
  cases node with
  | const value hint =>
      cases value with
      | int value =>
          obtain rfl := of_decide_eq_true zero
          exact Int.cast_zero
      | hex value =>
          obtain rfl := of_decide_eq_true zero
          exact Nat.cast_zero
      | float value =>
          obtain rfl := of_decide_eq_true zero
          exact Int.cast_zero
  | _ => cases zero

theorem eval_of_constOne (meaning : Meaning τ ι R) {node : Node τ ι}
    (one : node.constOne = true) : node.eval meaning = 1 := by
  cases node with
  | const value hint =>
      cases value with
      | int value =>
          obtain rfl := of_decide_eq_true one
          exact Int.cast_one
      | hex value =>
          obtain rfl := of_decide_eq_true one
          exact Nat.cast_one
      | float value =>
          obtain rfl := of_decide_eq_true one
          exact Int.cast_one
  | _ => cases one

/-- The absolute value of a negative constant is its negation. -/
theorem eval_absConst (types : Types τ) (meaning : Meaning τ ι R) {node : Node τ ι}
    (negative : node.constNegative types = true) :
    node.absConst.eval meaning = -node.eval meaning := by
  cases node with
  | const value hint =>
      rw [constNegative, Bool.and_eq_true] at negative
      cases value with
      | int value =>
          have below : value < 0 := of_decide_eq_true negative.2
          have size : (value.natAbs : Int) = -value := by omega
          simp only [absConst, eval, ConstValue.abs, ConstValue.eval, size, Int.cast_neg]
      | hex value => cases negative.2
      | float value =>
          have below : value < 0 := of_decide_eq_true negative.2
          simp only [absConst, eval, ConstValue.abs, ConstValue.eval, abs_of_neg below,
            Rat.den_neg_eq_den, Rat.num_neg_eq_neg_num, Int.cast_neg]
          split
          · rfl
          · exact neg_zero.symm
  | _ => cases negative

end Node

end OpenCLDecompiler.Optimizations
