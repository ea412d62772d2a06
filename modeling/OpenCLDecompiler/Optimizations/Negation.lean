import OpenCLDecompiler.Library.Linked
import OpenCLDecompiler.Optimizations.ConstantFolding
import OpenCLDecompiler.Optimizations.Truth

/-!
# Negating a node

`add_logical_not_node` on nodes that other expressions use as well.  The node it
returns is a copy with another operator, a copy of what is negated, a constant or a new
negation, and the node it is given stays.
-/

namespace OpenCLDecompiler.Optimizations

open ConstantFolding (Value isScientific)
open Expressions Library Library.Linked PyNumbers

variable {τ ι V : Type} {unknown : ι → Bool}

/-! ## Nodes in memory -/

/-- Type, value and hint of a node; the operator `none` is `UNKNOWN`. -/
inductive Content (τ ι : Type) where
  | const (value : Value) (hint : τ)
  | workItem (function : WorkItemFunction)
  | leaf (id : ι) (hint : τ)
  | op (operation : Option ExpressionOperationType) (hint : τ)
  | not (hint : τ)
  deriving DecidableEq

/-- `value_type_hint`. -/
def Content.hint (types : Types τ) : Content τ ι → τ
  | const _ hint | leaf _ hint | op _ hint | not hint => hint
  | workItem _ => types.uint

/-- The number of a constant; a text is one in scientific notation or a hexadecimal one. -/
def numberOf : Value → Option ℚ
  | .int value => some value
  | .float value => some value
  | .text text =>
      if isScientific text then readFloat text else (readInt 16 text).map fun number : Int => (number : ℚ)

/-- `const_zero_node` of a constant; `none` is the `ValueError` of `int`. -/
def readsZero : Value → Option Bool
  | .int value => some (decide (value = 0))
  | .float value => some (decide (value = 0))
  | .text text => (readInt 16 text).map fun number => decide (number = 0)

/-- The constant that a number is. -/
def constOf : Value → Option ConstValue
  | .int value => some (.int value)
  | value => (numberOf value).map .float

/-- What the node stands for. -/
def readTree : LinkedTree (Content τ ι) → Option (Node τ ι)
  | .leaf (.const value hint) => (constOf value).map fun value => .const value hint
  | .leaf (.workItem function) => some (.workItem function)
  | .leaf (.leaf id hint) => some (.leaf id hint)
  | .unary (.not hint) left => (readTree left).map fun left => .not left hint
  | .binary (.op (some operation) hint) left right => do
      let left ← readTree left
      let right ← readTree right
      some (.op operation left right hint)
  | _ => none

/-- The node is the root of a tree that stands for the expression. -/
def Denotes (heap : Linked (Content τ ι)) (id : Nat) (node : Node τ ι) : Prop :=
  ∃ tree, Spells heap id tree ∧ readTree tree = some node

/-- `create_logical_not_node`. -/
def createLogicalNotNode (heap : Linked (Content τ ι)) (id : Nat) (hint : τ) :
    Linked (Content τ ι) :=
  heap.create (.not hint) [id] [id]

/--
`add_logical_not_node`: the nodes afterwards and the one that is returned.  `none` is an
exception.
-/
def addLogicalNotNode (types : Types τ) (heap : Linked (Content τ ι)) (id : Nat) :
    Option (Linked (Content τ ι) × Nat) := do
  let cell ← heap.cells[id]?
  let hint := cell.content.hint types
  match cell.content, cell.children with
  | .not _, [left] => some (createLogicalNotNode heap.deepcopy id hint, left + heap.size)
  | .op (some operation) _, _ =>
      if isCompareOperator operation then
        let inverted := Content.op operation.getInvertedOperation hint
        let copied := heap.deepcopy.setContent (id + heap.size) inverted
        some (createLogicalNotNode copied id hint, id + heap.size)
      else some (createLogicalNotNode heap id hint, heap.size)
  | .const value _, _ => do
      let zero ← readsZero value
      let folded := Content.const (.int (if zero then 1 else 0)) (types.const types.uint)
      some (createLogicalNotNode (heap.create folded [] []) id hint, heap.size)
  | _, _ => some (createLogicalNotNode heap id hint, heap.size)

/-! ## The tree that is returned -/

/-- The tree of the node that `add_logical_not_node` returns. -/
def negate (types : Types τ) : LinkedTree (Content τ ι) → Option (LinkedTree (Content τ ι))
  | .unary (.not _) left => some left
  | .binary (.op (some operation) hint) left right =>
      if isCompareOperator operation then
        some (.binary (.op operation.getInvertedOperation hint) left right)
      else some (.unary (.not hint) (.binary (.op (some operation) hint) left right))
  | .leaf (.const value _) =>
      (readsZero value).map fun zero =>
        .leaf (.const (.int (if zero then 1 else 0)) (types.const types.uint))
  | .leaf content => some (.unary (.not (content.hint types)) (.leaf content))
  | .unary content left => some (.unary (.not (content.hint types)) (.unary content left))
  | .binary content left right =>
      some (.unary (.not (content.hint types)) (.binary content left right))
  | .ternary content first left right =>
      some (.unary (.not (content.hint types)) (.ternary content first left right))

section

variable {types : Types τ} {heap : Linked (Content τ ι)} {id : Nat}
  {tree after : LinkedTree (Content τ ι)} {node : Node τ ι}

theorem addLogicalNotNode_none (spells : Spells heap id tree) (fails : negate types tree = none) :
    addLogicalNotNode types heap id = none := by
  cases spells with
  | @leaf _ content _ found =>
      cases content with
      | const value hint =>
          have unread : readsZero value = none := by
            rw [negate, Option.map_eq_none_iff] at fails
            exact fails
          simp [addLogicalNotNode, found, unread]
      | _ => cases fails
  | @unary _ _ content _ _ found _ => cases content <;> cases fails
  | @binary _ _ _ content _ _ _ found _ _ =>
      cases content with
      | op operation hint =>
          cases operation with
          | none => cases fails
          | some operation =>
              rw [negate] at fails
              split at fails <;> cases fails
      | _ => cases fails
  | ternary found _ _ _ => cases fails

/-- A new negation of the node. -/
theorem createLogicalNotNode_spec (spells : Spells heap id tree) (hint : τ) :
    Spells (createLogicalNotNode heap id hint) heap.size (.unary (.not hint) tree) :=
  .unary (find_create heap _ _ _) (spells.extend (extends_create heap _ _ _))

/-- All nodes stay, and the node that is returned is the root of the negated tree. -/
theorem addLogicalNotNode_spec (spells : Spells heap id tree) (reads : readTree tree = some node)
    (negated : negate types tree = some after) :
    ∃ later result, addLogicalNotNode types heap id = some (later, result) ∧
      Extends heap later ∧ Spells later result after := by
  have plain (hint : τ) : Extends heap (createLogicalNotNode heap id hint) ∧
      Spells (createLogicalNotNode heap id hint) heap.size (.unary (.not hint) tree) :=
    ⟨extends_create heap _ _ _, createLogicalNotNode_spec spells hint⟩
  cases spells with
  | @leaf _ content _ found =>
      cases content with
      | const value hint =>
          obtain ⟨zero, isZero, rfl⟩ := Option.map_eq_some_iff.mp negated
          let folded : Content τ ι := .const (.int (if zero then 1 else 0)) (types.const types.uint)
          refine ⟨createLogicalNotNode (heap.create folded [] []) id hint, heap.size, ?_,
            (extends_create heap _ _ _).trans (extends_create _ _ _ _),
            (Spells.leaf (find_create heap folded [] [])).extend (extends_create _ _ _ _)⟩
          simp [addLogicalNotNode, found, isZero, Content.hint, folded]
      | workItem function =>
          cases negated
          refine ⟨createLogicalNotNode heap id types.uint, heap.size, ?_, plain _⟩
          simp [addLogicalNotNode, found, Content.hint]
      | leaf name hint =>
          cases negated
          refine ⟨createLogicalNotNode heap id hint, heap.size, ?_, plain _⟩
          simp [addLogicalNotNode, found, Content.hint]
      | op operation hint => cases reads
      | not hint => cases reads
  | @unary _ left content _ leftTree found spellsLeft =>
      cases content with
      | not hint =>
          cases negated
          refine ⟨createLogicalNotNode heap.deepcopy id hint, left + heap.size, ?_,
            (extends_deepcopy heap).trans (extends_create _ _ _ _),
            spellsLeft.deepcopy.extend (extends_create _ _ _ _)⟩
          simp [addLogicalNotNode, found, Content.hint]
      | _ => cases reads
  | @binary _ left right content _ leftTree rightTree found spellsLeft spellsRight =>
      cases content with
      | op operation hint =>
          cases operation with
          | none => cases reads
          | some operation =>
              rw [negate] at negated
              split at negated
              next compare =>
                cases negated
                let inverted : Content τ ι := .op operation.getInvertedOperation hint
                have whole : Spells heap.deepcopy (id + heap.size)
                    (.binary (.op (some operation) hint) leftTree rightTree) :=
                  (Spells.binary found spellsLeft spellsRight).deepcopy
                have leftSmaller : leftTree.size <
                    (LinkedTree.binary (Content.op (ι := ι) (some operation) hint) leftTree
                      rightTree).size := by
                  rw [LinkedTree.size]
                  omega
                have rightSmaller : rightTree.size <
                    (LinkedTree.binary (Content.op (ι := ι) (some operation) hint) leftTree
                      rightTree).size := by
                  rw [LinkedTree.size]
                  omega
                have copied : Spells (heap.deepcopy.setContent (id + heap.size) inverted)
                    (id + heap.size) (.binary inverted leftTree rightTree) :=
                  .binary (find_setContent (find_deepcopy found) inverted)
                    (spellsLeft.deepcopy.setContent_of_smaller whole leftSmaller inverted)
                    (spellsRight.deepcopy.setContent_of_smaller whole rightSmaller inverted)
                refine ⟨createLogicalNotNode (heap.deepcopy.setContent (id + heap.size) inverted) id
                  hint, id + heap.size, ?_,
                  ((extends_deepcopy heap).setContent (Nat.le_add_left _ _) inverted).trans
                    (extends_create _ _ _ _), copied.extend (extends_create _ _ _ _)⟩
                simp [addLogicalNotNode, found, compare, Content.hint, inverted]
              next other =>
                cases negated
                refine ⟨createLogicalNotNode heap id hint, heap.size, ?_, plain _⟩
                simp [addLogicalNotNode, found, other, Content.hint]
      | _ => cases reads
  | ternary found _ _ _ => cases reads

theorem addLogicalNotNode_extends {later : Linked (Content τ ι)} {result : Nat}
    (spells : Spells heap id tree) (reads : readTree tree = some node)
    (call : addLogicalNotNode types heap id = some (later, result)) : Extends heap later := by
  cases negated : negate types tree with
  | none => cases call.symm.trans (addLogicalNotNode_none spells negated)
  | some after =>
      obtain ⟨later', result', call', extends', -⟩ := addLogicalNotNode_spec spells reads negated
      cases call.symm.trans call'
      exact extends'

end

/-! ## Truth -/

/-- A constant is taken for zero exactly when it is. -/
def ZeroRead : LinkedTree (Content τ ι) → Prop
  | .leaf (.const value _) => readsZero value = (numberOf value).map fun number => decide (number = 0)
  | _ => True

variable (semantics : Semantics τ ι V unknown)

/-- The negated tree is true where the tree is not. -/
def TreeNegated (types : Types τ) (tree : LinkedTree (Content τ ι)) (node : Node τ ι) : Prop :=
  ∃ after negated, negate types tree = some after ∧ readTree after = some negated ∧
    (negated.Holds semantics ↔ ¬node.Holds semantics)

/-- The constants and comparisons that `add_logical_not_node` negates. -/
def Negatable (tree : LinkedTree (Content τ ι)) (node : Node τ ι) : Prop :=
  ZeroRead tree ∧ Invertible semantics node

theorem toRat_of_constOf {value : Value} {const : ConstValue} (isConst : constOf value = some const) :
    numberOf value = some const.toRat := by
  cases value with
  | int value =>
      cases isConst
      rfl
  | float value =>
      cases isConst
      rfl
  | text text =>
      obtain ⟨number, isNumber, rfl⟩ := Option.map_eq_some_iff.mp isConst
      exact isNumber

theorem decide_toRat (const : ConstValue) : decide (const.toRat = 0) = const.isZero := by
  rw [Bool.eq_iff_iff, decide_eq_true_iff, const.isZero_iff]

section

variable {types : Types τ} {tree : LinkedTree (Content τ ι)} {node : Node τ ι}

theorem zeroRead_const {value : Value} {const : ConstValue} (isConst : constOf value = some const)
    (hint : τ) :
    ZeroRead (.leaf (.const value hint : Content τ ι)) ↔ readsZero value = some const.isZero := by
  rw [ZeroRead, toRat_of_constOf isConst, Option.map_some, decide_toRat]

/-- `add_logical_not_node` on trees without identities. -/
theorem bind_readTree_negate (reads : readTree tree = some node) (zeroRead : ZeroRead tree) :
    (negate types tree).bind readTree = addLogicalNot types node := by
  cases tree with
  | leaf content =>
      cases content with
      | const value hint =>
          obtain ⟨const, isConst, rfl⟩ := Option.map_eq_some_iff.mp reads
          rw [negate, (zeroRead_const isConst hint).mp zeroRead]
          rfl
      | workItem function =>
          cases reads
          rfl
      | leaf name hint =>
          cases reads
          rfl
      | op operation hint => cases reads
      | not hint => cases reads
  | unary content leftTree =>
      cases content with
      | not hint =>
          obtain ⟨left, readsLeft, rfl⟩ := Option.map_eq_some_iff.mp reads
          exact readsLeft
      | _ => cases reads
  | binary content leftTree rightTree =>
      cases content with
      | op operation hint =>
          cases operation with
          | none => cases reads
          | some operation =>
              obtain ⟨left, readsLeft, rest⟩ := Option.bind_eq_some_iff.mp reads
              obtain ⟨right, readsRight, same⟩ := Option.bind_eq_some_iff.mp rest
              cases same
              rw [negate, addLogicalNot]
              by_cases compare : isCompareOperator operation = true
              · rw [if_pos compare, if_pos compare]
                cases operation.getInvertedOperation with
                | none => rfl
                | some inverted =>
                    rw [Option.bind_some, readTree, readsLeft, readsRight]
                    rfl
              · rw [if_neg compare, if_neg compare, Option.bind_some, readTree, reads]
                rfl
      | _ => cases reads
  | ternary content first left right => cases reads

theorem treeNegated_iff (types : Types τ) (reads : readTree tree = some node) :
    TreeNegated semantics types tree node ↔ Negatable semantics tree node := by
  by_cases zeroRead : ZeroRead tree
  · rw [Negatable, and_iff_right zeroRead, ← addLogicalNot_truth_iff semantics types,
      ← bind_readTree_negate reads zeroRead]
    simp only [TreeNegated, Option.bind_eq_some_iff, exists_and_left]
    grind
  · refine iff_of_false ?_ fun both => zeroRead both.1
    rintro ⟨after, negated, isNegated, readsAfter, opposite⟩
    apply zeroRead
    cases tree with
    | leaf content =>
        cases content with
        | const value hint =>
            obtain ⟨const, isConst, rfl⟩ := Option.map_eq_some_iff.mp reads
            obtain ⟨zero, isZero, rfl⟩ := Option.map_eq_some_iff.mp isNegated
            cases readsAfter
            have number : (ConstValue.int (if zero then 1 else 0)).toRat ≠ 0 ↔ zero = true := by
              cases zero <;> simp [ConstValue.toRat]
            rw [holds_const, holds_const, not_not, ← const.isZero_iff, number] at opposite
            rw [zeroRead_const isConst, isZero, Bool.eq_iff_iff.mpr opposite]
        | _ => trivial
    | _ => trivial

end

/-! ## The nodes afterwards -/

/-- A node that is given to `add_logical_not_node`. -/
structure Original (τ ι : Type) where
  heap : Linked (Content τ ι)
  id : Nat
  tree : LinkedTree (Content τ ι)
  node : Node τ ι
  spells : Spells heap id tree
  reads : readTree tree = some node

/--
The call returns a node with the opposite truth, and all nodes stand for what they stood
for.
-/
def Negates (types : Types τ) (original : Original τ ι) : Prop :=
  ∃ later result negated, addLogicalNotNode types original.heap original.id = some (later, result) ∧
    (∀ id node, Denotes original.heap id node → Denotes later id node) ∧
    Denotes later result negated ∧
    (negated.Holds semantics ↔ ¬original.node.Holds semantics)

/-- The negation of the negation has the truth of the node. -/
def RestoredTwice (types : Types τ) (original : Original τ ι) : Prop :=
  ∃ later result last restoredId restored,
    addLogicalNotNode types original.heap original.id = some (later, result) ∧
    addLogicalNotNode types later result = some (last, restoredId) ∧
    Denotes last restoredId restored ∧
    (restored.Holds semantics ↔ original.node.Holds semantics)

/-- The node, or for a negation what it negates, is one that `add_logical_not_node` negates. -/
def TwiceNegatable : LinkedTree (Content τ ι) → Node τ ι → Prop
  | .unary _ leftTree, .not left _ => Negatable semantics leftTree left
  | tree, node => Negatable semantics tree node

theorem Denotes.extend {heap later : Linked (Content τ ι)} {id : Nat} {node : Node τ ι}
    (denotes : Denotes heap id node) (extends' : Extends heap later) : Denotes later id node := by
  obtain ⟨tree, spells, reads⟩ := denotes
  exact ⟨tree, spells.extend extends', reads⟩

theorem Denotes.of_spells {heap : Linked (Content τ ι)} {id : Nat} {node : Node τ ι}
    {tree : LinkedTree (Content τ ι)} (denotes : Denotes heap id node) (spells : Spells heap id tree) :
    readTree tree = some node := by
  obtain ⟨other, spells', reads⟩ := denotes
  rwa [spells.unique spells']

section

variable {types : Types τ} {tree after : LinkedTree (Content τ ι)} {node negated : Node τ ι}

theorem zeroRead_int (value : Int) (hint : τ) :
    ZeroRead (.leaf (.const (.int value) hint : Content τ ι)) := by
  rw [zeroRead_const (rfl : constOf (.int value) = some (.int value))]
  rfl

/-- The inverted comparison has an inverse, and it is the same one for values without an order. -/
theorem invertible_inverted {op inverted : ExpressionOperationType} {left right : Node τ ι}
    {hint : τ} (compare : isCompareOperator op = true)
    (inverse : op.getInvertedOperation = some inverted)
    (invertible : Invertible semantics (.op op left right hint)) :
    Invertible semantics (.op inverted left right hint) := by
  intro _
  obtain ⟨-, ordered⟩ := invertible compare
  refine ⟨?_, fun unordered => ?_⟩
  · rintro rfl
    cases op <;> cases compare <;> cases inverse
  · rcases ordered unordered with rfl | rfl <;> cases inverse
    · exact .inr rfl
    · exact .inl rfl

/-- The negated node can be negated again if what it negates can be. -/
theorem negatable_negate_iff (isNegated : negate types tree = some after)
    (reads : readTree tree = some node) (readsAfter : readTree after = some negated)
    (negatable : Negatable semantics tree node) :
    Negatable semantics after negated ↔ TwiceNegatable semantics tree node := by
  cases tree with
  | leaf content =>
      refine iff_of_true ?_ (by cases node <;> exact negatable)
      cases content with
      | const value hint =>
          obtain ⟨zero, isZero, rfl⟩ := Option.map_eq_some_iff.mp isNegated
          cases readsAfter
          exact ⟨zeroRead_int _ _, trivial⟩
      | workItem function =>
          cases isNegated
          cases readsAfter
          exact ⟨trivial, trivial⟩
      | leaf name hint =>
          cases isNegated
          cases readsAfter
          exact ⟨trivial, trivial⟩
      | op operation hint => cases reads
      | not hint => cases reads
  | unary content leftTree =>
      cases content with
      | not hint =>
          obtain ⟨left, readsLeft, rfl⟩ := Option.map_eq_some_iff.mp reads
          cases isNegated
          cases readsLeft.symm.trans readsAfter
          rfl
      | _ => cases reads
  | binary content leftTree rightTree =>
      refine iff_of_true ?_ (by cases node <;> exact negatable)
      cases content with
      | op operation hint =>
          cases operation with
          | none => cases reads
          | some operation =>
              rw [negate] at isNegated
              split at isNegated
              next compare =>
                obtain ⟨left, readsLeft, rest⟩ := Option.bind_eq_some_iff.mp reads
                obtain ⟨right, readsRight, same⟩ := Option.bind_eq_some_iff.mp rest
                cases same
                cases isNegated
                cases inverse : operation.getInvertedOperation with
                | none =>
                    rw [inverse] at readsAfter
                    cases readsAfter
                | some inverted =>
                    rw [inverse, readTree, readsLeft, readsRight] at readsAfter
                    cases readsAfter
                    exact ⟨trivial, invertible_inverted semantics compare inverse negatable.2⟩
              next other =>
                cases isNegated
                rw [readTree, reads] at readsAfter
                cases readsAfter
                exact ⟨trivial, trivial⟩
      | _ => cases reads
  | ternary content first left right => cases reads

variable {original : Original τ ι}

theorem negates_iff :
    Negates semantics types original ↔ Negatable semantics original.tree original.node := by
  rw [← treeNegated_iff semantics types original.reads]
  constructor
  · rintro ⟨later, result, negated, call, -, denotes, opposite⟩
    cases isNegated : negate types original.tree with
    | none => cases call.symm.trans (addLogicalNotNode_none original.spells isNegated)
    | some after =>
        obtain ⟨later', result', call', -, spells⟩ :=
          addLogicalNotNode_spec original.spells original.reads isNegated
        cases call.symm.trans call'
        exact ⟨after, negated, isNegated, denotes.of_spells spells, opposite⟩
  · rintro ⟨after, negated, isNegated, reads, opposite⟩
    obtain ⟨later, result, call, extends', spells⟩ :=
      addLogicalNotNode_spec original.spells original.reads isNegated
    exact ⟨later, result, negated, call, fun _ _ denotes => denotes.extend extends',
      ⟨after, spells, reads⟩, opposite⟩

/-- After one negation the second one restores the truth if it negates. -/
theorem restoredTwice_iff (negatable : Negatable semantics original.tree original.node) :
    RestoredTwice semantics types original ↔
      TwiceNegatable semantics original.tree original.node := by
  obtain ⟨after, negated, isNegated, readsAfter, opposite⟩ :=
    (treeNegated_iff semantics types original.reads).mpr negatable
  obtain ⟨later, result, call, -, spells⟩ :=
    addLogicalNotNode_spec original.spells original.reads isNegated
  let second : Original τ ι := ⟨later, result, after, negated, spells, readsAfter⟩
  have again : Negates semantics types second ↔ TwiceNegatable semantics original.tree original.node :=
    (negates_iff semantics).trans
      (negatable_negate_iff semantics isNegated original.reads readsAfter negatable)
  rw [← again]
  constructor
  · rintro ⟨later', result', last, restoredId, restored, first, again, denotes, same⟩
    cases call.symm.trans first
    have extends' : Extends later last := addLogicalNotNode_extends spells readsAfter again
    refine ⟨last, restoredId, restored, again, fun _ _ denotes => denotes.extend extends', denotes, ?_⟩
    rw [same, opposite, not_not]
  · rintro ⟨last, restoredId, restored, again, -, denotes, same⟩
    refine ⟨later, result, last, restoredId, restored, call, again, denotes, ?_⟩
    rw [same, opposite, not_not]

theorem negatable_of_twice (reads : readTree tree = some node)
    (twice : TwiceNegatable semantics tree node) : Negatable semantics tree node := by
  cases tree with
  | unary content leftTree =>
      cases content with
      | not hint =>
          obtain ⟨left, readsLeft, rfl⟩ := Option.map_eq_some_iff.mp reads
          exact ⟨trivial, trivial⟩
      | _ => cases reads
  | _ => cases node <;> exact twice

/--
A node is negated, and restored by the second negation, exactly if no constant's text is
taken for another number, a comparison has an inverse, and no order of values without
one is asked for; for a negation this is about what it negates.
-/
theorem addLogicalNotNode_right_iff (types : Types τ) (original : Original τ ι) :
    Negates semantics types original ∧ RestoredTwice semantics types original ↔
      TwiceNegatable semantics original.tree original.node := by
  rw [negates_iff]
  constructor
  · rintro ⟨negatable, restored⟩
    exact (restoredTwice_iff semantics negatable).mp restored
  · intro twice
    have negatable := negatable_of_twice semantics original.reads twice
    exact ⟨negatable, (restoredTwice_iff semantics negatable).mpr twice⟩

end

/-! ### Values that are no number -/

/-- A comparison; `none` is no number. -/
def orderedBy (test : Int → Int → Bool) : Option Int → Option Int → Option Int
  | some a, some b => some (if test a b then 1 else 0)
  | _, _ => some 0

/-- Comparisons and logical operations; `<>` is an order. -/
def floatOperation : ExpressionOperationType → Option Int → Option Int → Option Int
  | .and, a, b => some (if a ≠ some 0 ∧ b ≠ some 0 then 1 else 0)
  | .or, a, b => some (if a ≠ some 0 ∨ b ≠ some 0 then 1 else 0)
  | .eq, a, b => orderedBy (fun a b => a = b) a b
  | .xor, a, b | .ne, a, b => some (if orderedBy (fun a b => a = b) a b = some 0 then 1 else 0)
  | .lt, a, b => orderedBy (fun a b => a < b) a b
  | .le, a, b => orderedBy (fun a b => a ≤ b) a b
  | .gt, a, b => orderedBy (fun a b => a > b) a b
  | .ge, a, b => orderedBy (fun a b => a ≥ b) a b
  | .lg, a, b => orderedBy (fun a b => a ≠ b) a b
  | _, _, _ => none

/-- Variables with the given values, which may be no number. -/
def floats (leaf : ι → Option Int) : Semantics Unit ι (Option Int) fun _ => false where
  const value _ := some value.toRat.num
  workItem _ := some 0
  leaf := leaf
  operation op _ := floatOperation op
  not _ value := some (if value = some 0 then 1 else 0)
  holds value := value ≠ some 0
  unordered a b := a = none ∨ b = none
  holds_const value hint := by simp
  holds_unknown id isUnknown := nomatch isUnknown
  holds_not hint value := by simp
  holds_and hint a b := by simp [floatOperation]
  holds_or hint a b := by simp [floatOperation, or_iff_not_imp_left]
  holds_xor hint a b := by simp [floatOperation]
  holds_eq_left hint a b := by
    rintro zero
    rw [not_not] at zero
    subst zero
    cases b <;> simp [floatOperation, orderedBy, eq_comm]
  holds_eq_right hint a b := by
    rintro zero
    rw [not_not] at zero
    subst zero
    cases a <;> simp [floatOperation, orderedBy]
  holds_inverted op inverted hint a b compare inverse ordered := by
    cases op <;> cases compare <;> cases inverse <;> cases a <;> cases b <;>
      simp_all [floatOperation, orderedBy]
  holds_unordered op hint a b unordered compare notEq notNe := by
    cases op <;> cases compare <;> cases a <;> cases b <;>
      simp_all [floatOperation, orderedBy]

/-- A comparison of two variables. -/
def compared (operation : ExpressionOperationType) : Original Unit Nat where
  heap := ⟨[⟨.leaf 0 (), [], some 2⟩, ⟨.leaf 1 (), [], some 2⟩,
    ⟨.op (some operation) (), [0, 1], none⟩]⟩
  id := 2
  tree := .binary (.op (some operation) ()) (.leaf (.leaf 0 ())) (.leaf (.leaf 1 ()))
  node := .op operation (.leaf 0 ()) (.leaf 1 ()) ()
  spells := .binary rfl (.leaf rfl) (.leaf rfl)
  reads := rfl

/-- `x <> y` gets an operator that says nothing, and `x >= y` is no negation of `x < y`. -/
theorem not_negates_compared :
    ¬Negates (floats fun _ => some 1) plainTypes (compared .lg) ∧
      ¬Negates (floats fun id => if id = 0 then none else some 1) plainTypes (compared .lt) := by
  rw [negates_iff, negates_iff]
  refine ⟨fun negatable => (negatable.2 rfl).1 rfl, fun negatable => ?_⟩
  rcases (negatable.2 rfl).2 (.inl rfl) with same | same <;> cases same

end OpenCLDecompiler.Optimizations
