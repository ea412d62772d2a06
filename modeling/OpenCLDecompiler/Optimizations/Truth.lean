import OpenCLDecompiler.Optimizations.Logical

/-!
# The truth of logical operations

When the node that `add_operation` returns for `&&`, `||` or `^` is as true as the
operation on the truth of its operands.
-/

namespace OpenCLDecompiler.Optimizations

open Expressions

variable {τ ι V : Type} {unknown : ι → Bool}

/-! ## Values -/

/--
The values of nodes, with what C says about their truth.  The UNKNOWN leaves stand for
the mask of all lanes.
-/
structure Semantics (τ ι V : Type) (unknown : ι → Bool) where
  const : ConstValue → τ → V
  workItem : WorkItemFunction → V
  leaf : ι → V
  operation : ExpressionOperationType → τ → V → V → V
  not : τ → V → V
  holds : V → Prop
  /-- One of the values is no number, so that no order holds between them. -/
  unordered : V → V → Prop
  holds_const value hint : holds (const value hint) ↔ value.toRat ≠ 0
  holds_unknown id : unknown id = true → holds (leaf id)
  holds_not hint value : holds (not hint value) ↔ ¬holds value
  holds_and hint a b : holds (operation .and hint a b) ↔ holds a ∧ holds b
  holds_or hint a b : holds (operation .or hint a b) ↔ holds a ∨ holds b
  /-- `^` works on the bits. -/
  holds_xor hint a b : holds (operation .xor hint a b) ↔ ¬holds (operation .eq hint a b)
  holds_eq_left hint a b : ¬holds a → (holds (operation .eq hint a b) ↔ ¬holds b)
  holds_eq_right hint a b : ¬holds b → (holds (operation .eq hint a b) ↔ ¬holds a)
  holds_inverted op inverted hint a b : isCompareOperator op = true →
    op.getInvertedOperation = some inverted → (unordered a b → op = .eq ∨ op = .ne) →
    (holds (operation inverted hint a b) ↔ ¬holds (operation op hint a b))
  holds_unordered op hint a b : unordered a b → isCompareOperator op = true → op ≠ .eq →
    op ≠ .ne → ¬holds (operation op hint a b)

namespace Node

/-- The value of a node. -/
def worth (semantics : Semantics τ ι V unknown) : Node τ ι → V
  | .const value hint => semantics.const value hint
  | .workItem function => semantics.workItem function
  | .leaf id _ => semantics.leaf id
  | .op operation left right hint =>
      semantics.operation operation hint (left.worth semantics) (right.worth semantics)
  | .not left hint => semantics.not hint (left.worth semantics)

def Holds (semantics : Semantics τ ι V unknown) (node : Node τ ι) : Prop :=
  semantics.holds (node.worth semantics)

theorem holds_of_isUnknown (semantics : Semantics τ ι V unknown) {node : Node τ ι}
    (isUnknown : node.isUnknown unknown = true) : node.Holds semantics := by
  cases node with
  | leaf id hint => exact semantics.holds_unknown id isUnknown
  | _ => cases isUnknown

end Node

/-! ## Constants -/

namespace ConstValue

theorem isZero_iff (value : ConstValue) : value.isZero = true ↔ value.toRat = 0 := by
  cases value <;> simp [isZero, toRat]

theorem toRat_read (value : ConstValue) : value.read.toRat = value.toRat := by
  cases value <;> simp [read, toRat]

theorem toRat_ofDouble (result : ℚ) : (ofDouble result).toRat = result := by
  unfold ofDouble
  split
  · rename_i whole
    exact Rat.coe_int_num_of_den_eq_one whole
  · rfl

theorem toRat_whole (value : ConstValue) : value.whole.toRat = value.toRat := by
  cases value with
  | float value => exact toRat_ofDouble value
  | _ => rfl

theorem truthy_read (value : ConstValue) : value.read.truthy = true ↔ value.toRat ≠ 0 := by
  cases value <;> simp [read, truthy, toRat]

/-- A text of zero: it is true in Python, for it is not empty. -/
def isZeroText (value : ConstValue) : Bool := value.truthy && value.isZero

theorem toRat_of_isInt {value : ConstValue} (integral : value.isInt = true) :
    value.toRat = (value.eval : Int) := by
  cases value with
  | int value => rfl
  | hex value => exact (Int.cast_natCast value).symm
  | float value => cases integral

theorem truthy_of_ne_zero {value : ConstValue} (nonzero : value.toRat ≠ 0) :
    value.truthy = true := by
  cases value with
  | hex value => rfl
  | _ => simpa [truthy, toRat] using nonzero

theorem eq_zero_of_not_truthy {value : ConstValue} (false : ¬value.truthy = true) :
    value.toRat = 0 :=
  by_contra fun nonzero => false (truthy_of_ne_zero nonzero)

theorem truthy_of_isZeroText {value : ConstValue} (text : value.isZeroText = true) :
    value.truthy = true :=
  (Bool.and_eq_true_iff.mp text).1

theorem isZeroText_iff {value : ConstValue} (truthy : value.truthy = true) :
    value.isZeroText = true ↔ value.toRat = 0 := by
  rw [isZeroText, truthy, Bool.true_and, isZero_iff]

end ConstValue

theorem xor_eq_zero_iff (left right : Int) : Int.xor left right = 0 ↔ left = right := by
  cases left with
  | ofNat left =>
      cases right with
      | ofNat right =>
          change ((left ^^^ right : ℕ) : Int) = 0 ↔ _
          rw [Int.natCast_eq_zero, Nat.xor_eq_zero_iff]
          exact Int.ofNat_inj.symm
      | negSucc right => exact ⟨nofun, nofun⟩
  | negSucc left =>
      cases right with
      | ofNat right => exact ⟨nofun, nofun⟩
      | negSucc right =>
          change ((left ^^^ right : ℕ) : Int) = 0 ↔ _
          rw [Int.natCast_eq_zero, Nat.xor_eq_zero_iff, Int.negSucc_inj]

/-! ## Operations -/

/-- The logical operators with two operands. -/
inductive Junction where
  | and
  | or
  | xor
  deriving DecidableEq

namespace Junction

def operation : Junction → ExpressionOperationType
  | and => .and
  | or => .or
  | xor => .xor

/-- The operation on truth values. -/
def truth (first second : Prop) : Junction → Prop
  | and => first ∧ second
  | or => first ∨ second
  | xor => Xor first second

theorem truth_comm (junction : Junction) (first second : Prop) :
    junction.truth first second ↔ junction.truth second first := by
  cases junction with
  | and => exact and_comm
  | or => exact or_comm
  | xor => exact iff_of_eq (xor_comm first second)

end Junction

variable (semantics : Semantics τ ι V unknown)

/-- There is a node, and it is as true as the operation. -/
def SameTruth (junction : Junction) (s0 s1 : Node τ ι) (result : Option (Node τ ι)) : Prop :=
  ∃ node, result = some node ∧
    (node.Holds semantics ↔ junction.truth (s0.Holds semantics) (s1.Holds semantics))

theorem sameTruth_none (junction : Junction) (s0 s1 : Node τ ι) :
    ¬SameTruth semantics junction s0 s1 none := nofun

theorem sameTruth_some (junction : Junction) (s0 s1 node : Node τ ι) :
    SameTruth semantics junction s0 s1 (some node) ↔
      (node.Holds semantics ↔ junction.truth (s0.Holds semantics) (s1.Holds semantics)) :=
  ⟨fun ⟨_, same, truth⟩ => Option.some.inj same ▸ truth, fun truth => ⟨node, rfl, truth⟩⟩

/-! ### When the truth is kept -/

/-- The numbers are not two different ones that are both true. -/
def SameBits (left right : ConstValue) : Prop :=
  left.toRat = 0 ∨ right.toRat = 0 ∨ left.toRat = right.toRat

/-- Two constants. -/
def ConstsKept (left right : ConstValue) : Junction → Prop
  | .xor => (left.isInt = true ∧ right.isInt = true) ∧ SameBits left right
  | _ => True

/-- `add_logical_not_node` finds the negation. -/
def Invertible : Node τ ι → Prop
  | .op op left right _ =>
      isCompareOperator op = true → op ≠ .lg ∧
        (semantics.unordered (left.worth semantics) (right.worth semantics) → op = .eq ∨ op = .ne)
  | _ => True

/-- One node is UNKNOWN. -/
def UnknownKept (other : Node τ ι) : Junction → Prop
  | .and => True
  | .or => other.Holds semantics
  | .xor => Invertible semantics other

/-- `^` of two values that are true is 0. -/
def EqualIfTrue (s0 s1 : Node τ ι) (hint : τ) : Prop :=
  s0.Holds semantics → s1.Holds semantics →
    semantics.holds (semantics.operation .eq hint (s0.worth semantics) (s1.worth semantics))

/-- A constant and another node. -/
def ConstKept (value : ConstValue) (s0 s1 other : Node τ ι) (hint : τ) : Junction → Prop
  | .and => value.isZeroText = true → ¬other.Holds semantics
  | .or => value.isZeroText = true → other.Holds semantics
  | .xor => EqualIfTrue semantics s0 s1 hint

/-- No node is a constant. -/
def PlainKept (s0 s1 : Node τ ι) (hint : τ) : Junction → Prop
  | .xor => EqualIfTrue semantics s0 s1 hint
  | _ => True

/-- No node is UNKNOWN. -/
def KnownKept (s0 s1 : Node τ ι) (hint : τ) (junction : Junction) : Prop :=
  match s0, s1 with
  | .const value _, _ => ConstKept semantics value s0 s1 s1 hint junction
  | _, .const value _ => ConstKept semantics value s0 s1 s0 hint junction
  | _, _ => PlainKept semantics s0 s1 hint junction

/-- The nodes are not two constants. -/
def PartKept (s0 s1 : Node τ ι) (hint : τ) (junction : Junction) : Prop :=
  if s0.isUnknown unknown then UnknownKept semantics s1 junction
  else if s1.isUnknown unknown then UnknownKept semantics s0 junction
  else KnownKept semantics s0 s1 hint junction

/-- The operands with which `add_operation` keeps the truth of the operation. -/
def LogicalKept (opHint : Node τ ι → Node τ ι → τ) (junction : Junction) :
    Node τ ι → Node τ ι → Prop
  | .const left _, .const right _ => ConstsKept left right junction
  | s0, s1 => PartKept semantics s0 s1 (opHint s0 s1) junction

/-! ### Each kind of operands -/

theorem holds_const (value : ConstValue) (hint : τ) :
    (Node.const value hint : Node τ ι).Holds semantics ↔ value.toRat ≠ 0 :=
  semantics.holds_const value hint

theorem xor_truth_iff (left right : Int) :
    (Int.xor left right ≠ 0 ↔ Xor (left ≠ 0) (right ≠ 0)) ↔ left = 0 ∨ right = 0 ∨ left = right := by
  rw [ne_eq, xor_eq_zero_iff]
  unfold Xor
  grind

theorem evaluateLogical_xor (left right : ConstValue) :
    evaluateLogical .xor left right =
      if left.isInt ∧ right.isInt then some (.int (Int.xor left.eval right.eval)) else none := by
  cases left <;> cases right <;>
    simp [evaluateLogical, ConstValue.read, ConstValue.isInt, ConstValue.eval]

theorem sameTruth_consts (junction : Junction) (left right : ConstValue)
    (leftHint rightHint hint : τ) :
    SameTruth semantics junction (.const left leftHint) (.const right rightHint)
        ((evaluateLogical junction.operation left right).map fun value => .const value hint) ↔
      ConstsKept left right junction := by
  cases junction with
  | and =>
      refine iff_of_true ((sameTruth_some ..).mpr ?_) trivial
      by_cases truthy : left.read.truthy = true
      · simp only [truthy, if_true, holds_const, ConstValue.toRat_whole, ConstValue.toRat_read,
          Junction.truth]
        exact (and_iff_right (left.truthy_read.mp truthy)).symm
      · simp only [truthy, Bool.false_eq_true, if_false, holds_const, ConstValue.toRat_whole,
          ConstValue.toRat_read, Junction.truth]
        exact (and_iff_left_of_imp fun nonzero => absurd (left.truthy_read.mpr nonzero) truthy).symm
  | or =>
      refine iff_of_true ((sameTruth_some ..).mpr ?_) trivial
      by_cases truthy : left.read.truthy = true
      · simp only [truthy, if_true, holds_const, ConstValue.toRat_whole, ConstValue.toRat_read,
          Junction.truth]
        exact (or_iff_left_of_imp fun _ => left.truthy_read.mp truthy).symm
      · simp only [truthy, Bool.false_eq_true, if_false, holds_const, ConstValue.toRat_whole,
          ConstValue.toRat_read, Junction.truth]
        exact (or_iff_right fun nonzero => truthy (left.truthy_read.mpr nonzero)).symm
  | xor =>
      rw [Junction.operation, evaluateLogical_xor]
      split
      · rename_i integral
        have value : (ConstValue.int (Int.xor left.eval right.eval)).toRat =
            (Int.xor left.eval right.eval : Int) := rfl
        rw [Option.map_some, sameTruth_some, holds_const, holds_const, holds_const, ConstsKept,
          and_iff_right integral, SameBits, value, ConstValue.toRat_of_isInt integral.1,
          ConstValue.toRat_of_isInt integral.2, Junction.truth]
        exact_mod_cast xor_truth_iff left.eval right.eval
      · rename_i fraction
        exact iff_of_false (sameTruth_none semantics _ _ _) fun kept => fraction kept.1

theorem inverted_compare {op inverted : ExpressionOperationType}
    (compare : isCompareOperator op = true) (inverse : op.getInvertedOperation = some inverted) :
    isCompareOperator inverted = true ∧ op ≠ .lg ∧ (inverted = .eq → op = .ne) ∧
      (inverted = .ne → op = .eq) := by
  cases op <;> cases compare <;> cases inverse <;> decide

/-- The inverted comparison is the negation except for an order of values without one. -/
theorem inverted_truth_iff {op inverted : ExpressionOperationType}
    (compare : isCompareOperator op = true) (inverse : op.getInvertedOperation = some inverted)
    (hint : τ) (a b : V) :
    (semantics.holds (semantics.operation inverted hint a b) ↔
        ¬semantics.holds (semantics.operation op hint a b)) ↔
      (semantics.unordered a b → op = .eq ∨ op = .ne) := by
  obtain ⟨invertedCompare, -, ofEq, ofNe⟩ := inverted_compare compare inverse
  refine ⟨fun opposite unordered => ?_,
    fun ordered => semantics.holds_inverted op inverted hint a b compare inverse ordered⟩
  by_contra order
  rw [not_or] at order
  have opFails := semantics.holds_unordered op hint a b unordered compare order.1 order.2
  exact semantics.holds_unordered inverted hint a b unordered invertedCompare
    (fun same => order.2 (ofEq same)) (fun same => order.1 (ofNe same)) (opposite.mpr opFails)

/-- There is a node that holds where the node does not. -/
theorem addLogicalNot_truth_iff (types : Types τ) (node : Node τ ι) :
    (∃ negated, addLogicalNot types node = some negated ∧
        (negated.Holds semantics ↔ ¬node.Holds semantics)) ↔ Invertible semantics node := by
  cases node with
  | const value hint =>
      refine iff_of_true ⟨_, rfl, ?_⟩ trivial
      rw [holds_const, holds_const, not_not, ← value.isZero_iff]
      cases value.isZero <;> simp [ConstValue.toRat]
  | workItem function => exact iff_of_true ⟨_, rfl, semantics.holds_not ..⟩ trivial
  | leaf id hint => exact iff_of_true ⟨_, rfl, semantics.holds_not ..⟩ trivial
  | not left hint =>
      exact iff_of_true ⟨_, rfl, (not_iff_comm.mp (semantics.holds_not ..).symm).symm⟩ trivial
  | op op left right hint =>
      by_cases compare : isCompareOperator op = true
      · rw [Invertible, forall_prop_of_true compare, addLogicalNot, if_pos compare]
        cases inverse : op.getInvertedOperation with
        | none =>
            refine iff_of_false nofun fun other => other.1 ?_
            cases op <;> cases compare <;> first | rfl | cases inverse
        | some inverted =>
            rw [and_iff_right (inverted_compare compare inverse).2.1,
              ← inverted_truth_iff semantics compare inverse hint]
            constructor
            · rintro ⟨negated, same, opposite⟩
              obtain rfl := Option.some.inj same
              exact opposite
            · exact fun opposite => ⟨_, rfl, opposite⟩
      · exact iff_of_true ⟨_, if_neg compare, semantics.holds_not ..⟩ fun isCompare =>
          absurd isCompare compare

/-- What an UNKNOWN operand leaves of an operation, whichever side it stands on. -/
theorem sameTruth_comm (junction : Junction) (s0 s1 : Node τ ι) (result : Option (Node τ ι)) :
    SameTruth semantics junction s0 s1 result ↔ SameTruth semantics junction s1 s0 result := by
  simp only [SameTruth, junction.truth_comm (s0.Holds semantics)]

/-- What `_optimized_nodes_logical_operation` returns for an UNKNOWN node and another one. -/
def withUnknown (types : Types τ) (other : Node τ ι) : Junction → Option (Node τ ι)
  | .xor => addLogicalNot types other
  | _ => some other

theorem sameTruth_unknown (types : Types τ) (junction : Junction) {s0 : Node τ ι}
    (isUnknown : s0.isUnknown unknown = true) (other : Node τ ι) :
    SameTruth semantics junction s0 other (withUnknown types other junction) ↔
      UnknownKept semantics other junction := by
  have holds := s0.holds_of_isUnknown semantics isUnknown
  cases junction with
  | and => exact iff_of_true ((sameTruth_some ..).mpr (and_iff_right holds).symm) trivial
  | or =>
      rw [withUnknown, sameTruth_some, Junction.truth, or_iff_left_of_imp fun _ => holds]
      exact iff_true_right holds
      simp
  | xor =>
      have truth : Xor (s0.Holds semantics) (other.Holds semantics) ↔ ¬other.Holds semantics := by
        unfold Xor
        grind
      rw [UnknownKept, ← addLogicalNot_truth_iff semantics types]
      simp only [SameTruth, Junction.truth, truth, withUnknown]

theorem sameTruth_operation (junction : Junction) (s0 s1 : Node τ ι) (hint : τ) :
    SameTruth semantics junction s0 s1 (some (.op junction.operation s0 s1 hint)) ↔
      PlainKept semantics s0 s1 hint junction := by
  rw [sameTruth_some]
  cases junction with
  | and => exact iff_of_true (semantics.holds_and ..) trivial
  | or => exact iff_of_true (semantics.holds_or ..) trivial
  | xor =>
      have bits := semantics.holds_xor hint (s0.worth semantics) (s1.worth semantics)
      have left := semantics.holds_eq_left hint (s0.worth semantics) (s1.worth semantics)
      have right := semantics.holds_eq_right hint (s0.worth semantics) (s1.worth semantics)
      simp only [PlainKept, EqualIfTrue, Junction.truth, Junction.operation, Node.Holds, Node.worth,
        Xor] at bits left right ⊢
      grind

/-- The constant decides by its truth in Python, which a text of zero gets wrong. -/
theorem sameTruth_const (junction : Junction) {s0 s1 : Node τ ι} {value : ConstValue} {hint : τ}
    {other : Node τ ι} (truth : junction.truth (s0.Holds semantics) (s1.Holds semantics) ↔
      junction.truth (value.toRat ≠ 0) (other.Holds semantics)) :
    SameTruth semantics junction s0 s1 (some (logicalWithConst junction.operation value other
        (.op junction.operation s0 s1 hint) hint)) ↔
      ConstKept semantics value s0 s1 other hint junction := by
  cases junction with
  | and =>
      by_cases truthy : value.truthy = true
      · have result : logicalWithConst .and value other (.op .and s0 s1 hint) hint = other := by
          simp [logicalWithConst, truthy]
        rw [Junction.operation, result, sameTruth_some, truth, ConstKept,
          value.isZeroText_iff truthy, Junction.truth]
        grind
      · have result : logicalWithConst .and value other (.op .and s0 s1 hint) hint =
            .const (.int 0) hint := by
          simp [logicalWithConst, truthy]
        have zero : value.toRat = 0 := value.eq_zero_of_not_truthy truthy
        rw [Junction.operation, result, sameTruth_some, truth, holds_const, ConstKept,
          Junction.truth]
        refine iff_of_true (iff_of_false (not_not.mpr rfl) fun both => both.1 zero) fun text => ?_
        exact absurd (value.truthy_of_isZeroText text) truthy
  | or =>
      by_cases truthy : value.truthy = true
      · have result : logicalWithConst .or value other (.op .or s0 s1 hint) hint =
            .const (.int 1) hint := by
          simp [logicalWithConst, truthy]
        have one : (Node.const (.int 1) hint : Node τ ι).Holds semantics :=
          (holds_const ..).mpr one_ne_zero
        rw [Junction.operation, result, sameTruth_some, truth, ConstKept,
          value.isZeroText_iff truthy, Junction.truth, iff_true_left one, ← imp_iff_not_or]
      · have result : logicalWithConst .or value other (.op .or s0 s1 hint) hint =
            .op .or s0 s1 hint := by
          simp [logicalWithConst, truthy]
        rw [Junction.operation, result]
        exact iff_of_true ((sameTruth_operation semantics .or s0 s1 hint).mpr trivial) fun text =>
          absurd (value.truthy_of_isZeroText text) truthy
  | xor => exact sameTruth_operation semantics .xor s0 s1 hint

theorem sameTruth_known (types : Types τ) (junction : Junction) {s0 s1 : Node τ ι} (hint : τ)
    (known0 : s0.isUnknown unknown = false) (known1 : s1.isUnknown unknown = false) :
    SameTruth semantics junction s0 s1
        (optimizedNodesLogicalOperation types unknown junction.operation s0 s1 hint) ↔
      KnownKept semantics s0 s1 hint junction := by
  unfold optimizedNodesLogicalOperation
  simp only [known0, known1, Bool.and_false, Bool.false_eq_true, if_false]
  split
  · refine sameTruth_const semantics junction ?_
    rw [holds_const]
  · rename_i noConst
    rw [KnownKept.eq_2 semantics s0 hint junction _ _ noConst]
    refine sameTruth_const semantics junction ?_
    rw [holds_const, junction.truth_comm]
  · rename_i noFirst noSecond
    rw [KnownKept.eq_3 semantics s0 s1 hint junction noFirst noSecond]
    exact sameTruth_operation semantics junction s0 s1 hint

theorem optimizedNodesLogicalOperation_unknown (types : Types τ) (junction : Junction)
    {s0 : Node τ ι} (isUnknown : s0.isUnknown unknown = true) (s1 : Node τ ι) (hint : τ) :
    optimizedNodesLogicalOperation types unknown junction.operation s0 s1 hint =
      withUnknown types s1 junction := by
  cases junction <;>
    simp [optimizedNodesLogicalOperation, Junction.operation, isUnknown, withUnknown]

theorem optimizedNodesLogicalOperation_unknown_right (types : Types τ) (junction : Junction)
    {s0 s1 : Node τ ι} (known : s0.isUnknown unknown = false) (isUnknown : s1.isUnknown unknown = true)
    (hint : τ) :
    optimizedNodesLogicalOperation types unknown junction.operation s0 s1 hint =
      withUnknown types s0 junction := by
  cases junction <;>
    simp [optimizedNodesLogicalOperation, Junction.operation, known, isUnknown, withUnknown]

theorem sameTruth_part (types : Types τ) (junction : Junction) (s0 s1 : Node τ ι) (hint : τ) :
    SameTruth semantics junction s0 s1
        (optimizedNodesLogicalOperation types unknown junction.operation s0 s1 hint) ↔
      PartKept semantics s0 s1 hint junction := by
  unfold PartKept
  split
  · rename_i isUnknown
    rw [optimizedNodesLogicalOperation_unknown types junction isUnknown]
    exact sameTruth_unknown semantics types junction isUnknown s1
  · rename_i known0
    rw [Bool.not_eq_true] at known0
    split
    · rename_i isUnknown
      rw [optimizedNodesLogicalOperation_unknown_right types junction known0 isUnknown,
        sameTruth_comm]
      exact sameTruth_unknown semantics types junction isUnknown s0
    · rename_i known1
      exact sameTruth_known semantics types junction hint known0 (Bool.not_eq_true _ ▸ known1)

/--
The node for `&&`, `||` or `^` is as true as the operation exactly for operands whose
truth the simplification keeps.
-/
theorem addLogical_truth_iff (types : Types τ) (opHint : Node τ ι → Node τ ι → τ)
    (junction : Junction) (s0 s1 : Node τ ι) :
    SameTruth semantics junction s0 s1 (addLogical types unknown opHint junction.operation s0 s1) ↔
      LogicalKept semantics opHint junction s0 s1 := by
  unfold addLogical
  split
  · exact sameTruth_consts semantics junction _ _ _ _ _
  · rename_i mixed
    rw [LogicalKept.eq_2 semantics opHint junction s0 s1 mixed]
    exact sameTruth_part semantics types junction s0 s1 (opHint s0 s1)

/-! ### A text of zero -/

/-- Whole numbers, no leaf UNKNOWN; fractions are compared by their sign. -/
def wholeOperation : ExpressionOperationType → Int → Int → Int
  | .and, a, b => if a ≠ 0 ∧ b ≠ 0 then 1 else 0
  | .or, a, b => if a ≠ 0 ∨ b ≠ 0 then 1 else 0
  | .xor, a, b => Int.xor a b
  | .eq, a, b => if a = b then 1 else 0
  | .ne, a, b => if a ≠ b then 1 else 0
  | .lt, a, b => if a < b then 1 else 0
  | .le, a, b => if a ≤ b then 1 else 0
  | .gt, a, b => if a > b then 1 else 0
  | .ge, a, b => if a ≥ b then 1 else 0
  | .plus, a, b => a + b
  | .minus, a, b => a - b
  | .mul, a, b => a * b
  | _, _, _ => 0

/-- Integer variables with the given values. -/
def wholeNumbers (leaf : ι → Int) : Semantics Unit ι Int fun _ => false where
  const value _ := value.toRat.num
  workItem _ := 0
  leaf := leaf
  operation op _ := wholeOperation op
  not _ value := if value = 0 then 1 else 0
  holds value := value ≠ 0
  unordered _ _ := False
  holds_const value hint := Rat.num_ne_zero
  holds_unknown id isUnknown := nomatch isUnknown
  holds_not hint value := by simp
  holds_and hint a b := by simp [wholeOperation]
  holds_or hint a b := by simp [wholeOperation, or_iff_not_imp_left]
  holds_xor hint a b := by simp [wholeOperation, xor_eq_zero_iff]
  holds_eq_left hint a b := by simp +contextual [wholeOperation, eq_comm]
  holds_eq_right hint a b := by simp +contextual [wholeOperation]
  holds_inverted op inverted hint a b compare inverse := by
    cases op <;> cases compare <;> cases inverse <;> simp [wholeOperation]
  holds_unordered op hint a b unordered := unordered.elim

/-- `"0x0" && v` comes out as `v`. -/
theorem addLogical_zero_text :
    ¬SameTruth (wholeNumbers fun _ : Nat => 1) .and (.const (.hex 0) ()) (.leaf 0 ())
      (addLogical plainTypes (fun _ => false) (fun _ _ => ()) .and (.const (.hex 0) ())
        (.leaf 0 ())) := by
  have result : addLogical plainTypes (fun _ => false) (fun _ _ => ()) .and (.const (.hex 0) ())
      (.leaf 0 () : Node Unit Nat) = some (.leaf 0 ()) := rfl
  rw [result, sameTruth_some, holds_const]
  intro same
  exact (same.mp one_ne_zero).1 rfl

end OpenCLDecompiler.Optimizations
