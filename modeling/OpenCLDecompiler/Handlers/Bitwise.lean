import OpenCLDecompiler.Handlers.Contents

/-!
# Bitwise instructions

The handlers of `and`, `or` and `xor` outside predicates, and when the expression that
they record is the bitwise result.
-/

namespace OpenCLDecompiler.Handlers

open Expressions Library.Packed Optimizations Registers

variable {τ ι : Type} {w : Nat}

/-! ## Handlers -/

/-- `src0.value == "0xffff"`; a register has no `value`. -/
def isFullMask : Operand → Option Bool
  | .val value => some (value = .hex 0xffff)
  | _ => none

def isGlobalSize : RegisterType → Bool
  | .globalSize _ => true
  | _ => false

/-- `SAnd.to_fill_node` for a word and an operand that is not in the state. -/
def sAndWord (types : Types τ) (content : RegisterContent τ ι) (src0 : Operand) :
    Option (Node τ ι) :=
  match if content.type = .workDim then isFullMask src0 else some false with
  | none => none
  | some true => some content.expression
  | some false =>
      -- the alignment masks ask for `int(src0)`, which is no number
      if isGlobalSize content.type then none
      else
        match content, src0 with
        | .combined first rest, .val (.hex mask) =>
            (maskFields types (first :: rest) mask).map Content.expression
        | content, _ => some content.expression

section Handlers

variable (types : Types τ) (unknown : ι → Bool) (opHint : Node τ ι → Node τ ι → τ) (hint : τ)
  (state : State τ ι)

/-- `SAnd.to_fill_node`. -/
def sAnd (src0 src1 : Operand) : Option (Node τ ι) :=
  (addLogical types unknown opHint .and (src0.expression hint state)
      (src1.expression hint state)).bind fun node =>
    if src0.inState state && src1.inState state then
      (makeOp (.register src0) (.register src1)).map fun _ => node
    else
      match src1 with
      | .word reg => sAndWord types (state.words reg) src0
      | _ => (src0.firstWord state).map RegisterContent.expression

/-- `SOr.to_fill_node`. -/
def sOr (ssrc0 ssrc1 : Operand) : Option (Node τ ι) :=
  (addLogical types unknown opHint .or (ssrc0.expression hint state)
      (ssrc1.expression hint state)).bind fun node =>
    (makeOp (.register ssrc0) (.register ssrc1)).map fun _ => node

/-- `SXor.to_fill_node`. -/
def sXor (ssrc0 ssrc1 : Operand) : Option (Node τ ι) :=
  (addLogical types unknown opHint .xor (ssrc0.expression hint state)
      (ssrc1.expression hint state)).bind fun node =>
    (makeOp (.name ssrc0) (.name ssrc1)).map fun _ => node

/-- The instructions. -/
inductive Bitwise where
  | and
  | or
  | xor
  deriving DecidableEq

namespace Bitwise

/-- The expression that the handler records. -/
def record : Bitwise → Operand → Operand → Option (Node τ ι)
  | and => sAnd types unknown opHint hint state
  | or => sOr types unknown opHint hint state
  | xor => sXor types unknown opHint hint state

/-- The bits of the result. -/
def bits (left right : BitVec w) : Bitwise → BitVec w
  | and => left &&& right
  | or => left ||| right
  | xor => left ^^^ right

end Bitwise

/-- Values that a work item can meet: `&&` and `||` are those of C, and there are at most 3 dimensions. -/
structure Lawful (meaning : Meaning τ ι (BitVec w)) : Prop where
  logical : meaning.Logical
  workDim : meaning.workDim.toNat ≤ 3
  admits : state.Admits meaning

/-- The handler records an expression for the bits of the result, for all values of `w` bits. -/
def Bitwise.Correct (w : Nat) (instr : Bitwise) (src0 src1 : Operand) : Prop :=
  ∃ node, instr.record types unknown opHint hint state src0 src1 = some node ∧
    ∀ meaning : Meaning τ ι (BitVec w), Lawful state meaning →
      node.eval meaning = instr.bits (src0.held state meaning) (src1.held state meaning)

end Handlers

/-! ## Conditions -/

/--
The folding suits `&`: an operand that is kept shows the bits that the other one leaves of
it, and truth values have their lowest bit in common.
-/
def SuitsAnd (shown0 shown1 held0 held1 : BitVec w) : Folding → Prop
  | .first => shown0 = held0 &&& held1
  | .second => shown1 = held0 &&& held1
  | .number value => held0 &&& held1 = value
  | .operation =>
      (shown0 = 0 ∨ shown1 = 0) ∧ held0 &&& held1 = 0 ∨
        shown0 ≠ 0 ∧ shown1 ≠ 0 ∧ held0 &&& held1 = 1

/-- The folding suits `|`. -/
def SuitsOr (shown0 shown1 held0 held1 : BitVec w) : Folding → Prop
  | .first => shown0 = held0 ||| held1
  | .second => shown1 = held0 ||| held1
  | .number value => held0 ||| held1 = value
  | .operation =>
      shown0 = 0 ∧ shown1 = 0 ∧ held0 ||| held1 = 0 ∨
        (shown0 ≠ 0 ∨ shown1 ≠ 0) ∧ held0 ||| held1 = 1

theorem ofProp_eq_iff (p : Prop) [Decidable p] (value : BitVec w) :
    ofProp p = value ↔ ¬p ∧ value = 0 ∨ p ∧ value = 1 := by
  by_cases holds : p
  · rw [ofProp, if_pos holds, or_iff_right fun both => both.1 holds, and_iff_right holds, eq_comm]
  · rw [ofProp, if_neg holds, or_iff_left fun both => holds both.1, and_iff_right holds, eq_comm]

theorem value_and_iff (folding : Folding) (shown0 shown1 held0 held1 : BitVec w) :
    folding.value .and shown0 shown1 = held0 &&& held1 ↔
      SuitsAnd shown0 shown1 held0 held1 folding := by
  cases folding with
  | first => rfl
  | second => rfl
  | number value => exact eq_comm
  | operation =>
      refine (ofProp_eq_iff ..).trans ?_
      rw [SuitsAnd, not_and_or, not_not, not_not, and_assoc]

theorem value_or_iff (folding : Folding) (shown0 shown1 held0 held1 : BitVec w) :
    folding.value .or shown0 shown1 = held0 ||| held1 ↔
      SuitsOr shown0 shown1 held0 held1 folding := by
  cases folding with
  | first => rfl
  | second => rfl
  | number value => exact eq_comm
  | operation =>
      refine (ofProp_eq_iff ..).trans ?_
      rw [SuitsOr, not_or, not_not, not_not, and_assoc]

section Conditions

variable (types : Types τ) (unknown : ι → Bool) (opHint : Node τ ι → Node τ ι → τ) (hint : τ)
  (state : State τ ι)

/-- A kept register shows all that the mask leaves. -/
def Unmasked (w : Nat) (kept : RegisterContent τ ι) (src0 src1 : Operand) : Prop :=
  ∀ meaning : Meaning τ ι (BitVec w), Lawful state meaning →
    kept.expression.eval meaning = src0.held state meaning &&& src1.held state meaning

/-- A hexadecimal mask takes the lowest part of a combined register, whole, or parts that are 0. -/
def TakesLowest (w : Nat) (first : Field τ ι) (rest : List (Field τ ι)) (mask : Nat) : Prop :=
  mask = 0 ∨ ∃ content, maskFields types (first :: rest) mask = some content ∧
    ∀ meaning : Meaning τ ι (BitVec w), Lawful state meaning →
      zeros mask.bits = 0 ∧ (content.expression.eval meaning).toNat < 2 ^ ones mask.bits ∨
        content.expression.eval meaning = 0#w

/-- When `and` of a word and an operand outside the state is right. -/
def SAndWordHolds (w : Nat) (reg : Reg32) (src0 : Operand) : Prop :=
  match if (state.words reg).type = .workDim then isFullMask src0 else some false with
  | none => False
  | some true => Unmasked state w (state.words reg) src0 (.word reg)
  | some false =>
      isGlobalSize (state.words reg).type = false ∧
        match state.words reg, src0 with
        | .combined first rest, .val (.hex mask) => TakesLowest types state w first rest mask
        | content, src0 => Unmasked state w content src0 (.word reg)

/-- When `and` is right. -/
def SAndHolds (w : Nat) (src0 src1 : Operand) : Prop :=
  if src0.inState state && src1.inState state then
    ∀ meaning : Meaning τ ι (BitVec w), Lawful state meaning →
      SuitsAnd ((src0.expression hint state).eval meaning)
        ((src1.expression hint state).eval meaning) (src0.held state meaning)
        (src1.held state meaning)
        (folding unknown .and (src0.expression hint state) (src1.expression hint state))
  else
    match src1 with
    | .word reg => SAndWordHolds types state w reg src0
    | src1 => ∃ content, src0.firstWord state = some content ∧ Unmasked state w content src0 src1

/-- When `or` is right. -/
def SOrHolds (w : Nat) (ssrc0 ssrc1 : Operand) : Prop :=
  ∀ meaning : Meaning τ ι (BitVec w), Lawful state meaning →
    SuitsOr ((ssrc0.expression hint state).eval meaning)
      ((ssrc1.expression hint state).eval meaning) (ssrc0.held state meaning)
      (ssrc1.held state meaning)
      (folding unknown .or (ssrc0.expression hint state) (ssrc1.expression hint state))

def Bitwise.Holds (w : Nat) : Bitwise → Operand → Operand → Prop
  | and => SAndHolds types unknown hint state w
  | or => SOrHolds unknown hint state w
  | xor => fun _ _ => False

end Conditions

/-! ## Correctness -/

section Correct

variable {types : Types τ} {unknown : ι → Bool} {opHint : Node τ ι → Node τ ι → τ} {hint : τ}
  {state : State τ ι}

theorem exists_some_iff {p : Node τ ι → Prop} (node : Node τ ι) :
    (∃ other, some node = some other ∧ p other) ↔ p node := by
  simp

theorem sOr_correct_iff (ssrc0 ssrc1 : Operand) :
    Bitwise.or.Correct types unknown opHint hint state w ssrc0 ssrc1 ↔
      SOrHolds unknown hint state w ssrc0 ssrc1 := by
  obtain ⟨node, added, same⟩ := addLogical_spec (w := w) types unknown opHint .or
    (ssrc0.expression hint state) (ssrc1.expression hint state)
  have recorded : sOr types unknown opHint hint state ssrc0 ssrc1 = some node := by
    rw [sOr, show ExpressionOperationType.or = Connective.or.operation from rfl, added]
    rfl
  rw [Bitwise.Correct, Bitwise.record, recorded, exists_some_iff]
  refine forall₂_congr fun meaning lawful => ?_
  rw [same meaning lawful.logical]
  exact value_or_iff ..

theorem sXor_not_correct (ssrc0 ssrc1 : Operand) :
    ¬Bitwise.xor.Correct types unknown opHint hint state w ssrc0 ssrc1 := by
  rintro ⟨node, recorded, -⟩
  obtain ⟨other, -, raised⟩ := Option.bind_eq_some_iff.mp recorded
  cases raised

/-- A combined word and a hexadecimal mask. -/
theorem maskFields_correct_iff {reg : Reg32} {first : Field τ ι} {rest : List (Field τ ι)}
    (combined : state.words reg = .combined first rest) (mask : Nat) :
    (∃ node, (maskFields types (first :: rest) mask).map Content.expression = some node ∧
        ∀ meaning : Meaning τ ι (BitVec w), Lawful state meaning → node.eval meaning =
          (Operand.val (.hex mask)).held state meaning &&& (Operand.word reg).held state meaning) ↔
      TakesLowest types state w first rest mask := by
  have held (meaning : Meaning τ ι (BitVec w)) : (Operand.val (.hex mask)).held state meaning &&&
      (Operand.word reg).held state meaning =
        (RegisterContent.combined first rest).held meaning &&& BitVec.ofNat w mask := by
    rw [BitVec.and_comm, Operand.held, combined]
    rfl
  by_cases zero : mask = 0
  · refine iff_of_true ⟨_, by rw [maskFields, if_pos zero]; rfl, fun meaning _ => ?_⟩ (.inl zero)
    rw [held, zero]
    exact BitVec.and_zero.symm
  · rw [TakesLowest, or_iff_right zero]
    constructor
    · rintro ⟨node, found, same⟩
      obtain ⟨content, acquired, rfl⟩ := Option.map_eq_some_iff.mp found
      refine ⟨content, acquired, fun meaning lawful => ?_⟩
      have fitting := combined ▸ lawful.admits.words reg
      rw [← acquired_eq_iff zero acquired fitting, ← held]
      exact same meaning lawful
    · rintro ⟨content, acquired, lowest⟩
      refine ⟨content.expression, by rw [acquired]; rfl, fun meaning lawful => ?_⟩
      have fitting := combined ▸ lawful.admits.words reg
      rw [held, acquired_eq_iff zero acquired fitting]
      exact lowest meaning lawful

theorem sAndWord_correct_iff (reg : Reg32) (src0 : Operand) :
    (∃ node, sAndWord types (state.words reg) src0 = some node ∧
        ∀ meaning : Meaning τ ι (BitVec w), Lawful state meaning → node.eval meaning =
          src0.held state meaning &&& (Operand.word reg).held state meaning) ↔
      SAndWordHolds types state w reg src0 := by
  unfold sAndWord SAndWordHolds
  cases if (state.words reg).type = .workDim then isFullMask src0 else some false with
  | none => exact iff_of_false (fun ⟨_, raised, _⟩ => nomatch raised) id
  | some full =>
      cases full with
      | true => exact exists_some_iff _
      | false =>
          cases isGlobalSize (state.words reg).type with
          | true => exact iff_of_false (fun ⟨_, raised, _⟩ => nomatch raised) fun both => nomatch both.1
          | false =>
              refine Iff.trans ?_ (and_iff_right rfl).symm
              cases content : state.words reg with
              | plain plain => exact exists_some_iff _
              | combined first rest =>
                  cases src0 with
                  | val value =>
                      cases value with
                      | hex mask => exact maskFields_correct_iff content mask
                      | int value => exact exists_some_iff _
                      | float value => exact exists_some_iff _
                  | word other => exact exists_some_iff _
                  | pair other => exact exists_some_iff _

theorem firstWord_correct_iff (src0 src1 : Operand) :
    (∃ node, (src0.firstWord state).map RegisterContent.expression = some node ∧
        ∀ meaning : Meaning τ ι (BitVec w), Lawful state meaning → node.eval meaning =
          src0.held state meaning &&& src1.held state meaning) ↔
      ∃ content, src0.firstWord state = some content ∧ Unmasked state w content src0 src1 := by
  constructor
  · rintro ⟨node, found, same⟩
    obtain ⟨content, first, rfl⟩ := Option.map_eq_some_iff.mp found
    exact ⟨content, first, same⟩
  · rintro ⟨content, first, same⟩
    exact ⟨_, Option.map_eq_some_iff.mpr ⟨content, first, rfl⟩, same⟩

theorem sAnd_correct_iff (src0 src1 : Operand) :
    Bitwise.and.Correct types unknown opHint hint state w src0 src1 ↔
      SAndHolds types unknown hint state w src0 src1 := by
  obtain ⟨node, added, same⟩ := addLogical_spec (w := w) types unknown opHint .and
    (src0.expression hint state) (src1.expression hint state)
  change addLogical types unknown opHint .and (src0.expression hint state)
    (src1.expression hint state) = some node at added
  unfold Bitwise.Correct Bitwise.record sAnd SAndHolds
  simp only [added, Option.bind_some]
  cases both : src0.inState state && src1.inState state with
  | true =>
      refine (exists_some_iff node).trans (forall₂_congr fun meaning lawful => ?_)
      rw [same meaning lawful.logical]
      exact value_and_iff ..
  | false =>
      cases src1 with
      | word reg => exact sAndWord_correct_iff reg src0
      | pair reg => exact firstWord_correct_iff src0 _
      | val value => exact firstWord_correct_iff src0 _

end Correct

/-- For operands that show what they hold, `or` is kept right by truth values. -/
theorem suitsOr_operation_iff (held0 held1 : BitVec w) :
    SuitsOr held0 held1 held0 held1 .operation ↔ held0.toNat ≤ 1 ∧ held1.toNat ≤ 1 := by
  have truth (value : BitVec w) (small : value.toNat ≤ 1) : value = 0#w ∨ value = 1#w := by
    obtain zero | one := Nat.le_one_iff_eq_zero_or_eq_one.mp small
    · exact .inl (BitVec.eq_of_toNat_eq (by simpa using zero))
    · refine .inr (BitVec.eq_of_toNat_eq ?_)
      rw [BitVec.toNat_ofNat, one, Nat.mod_eq_of_lt (one ▸ value.isLt)]
  constructor
  · rintro (⟨zero0, zero1, -⟩ | ⟨-, one⟩)
    · rw [zero0, zero1]
      exact ⟨Nat.zero_le 1, Nat.zero_le 1⟩
    · have bound : (held0 ||| held1).toNat ≤ 1 := by
        rw [one]
        exact Nat.mod_le _ _
      rw [BitVec.toNat_or] at bound
      exact ⟨Nat.left_le_or.trans bound, Nat.right_le_or.trans bound⟩
  · rintro ⟨small0, small1⟩
    by_cases zero : held0 = 0 ∧ held1 = 0
    · obtain ⟨rfl, rfl⟩ := zero
      exact .inl ⟨rfl, rfl, BitVec.or_self⟩
    · refine .inr ⟨not_and_or.mp zero, ?_⟩
      obtain rfl | rfl := truth held0 small0 <;> obtain rfl | rfl := truth held1 small1
      · exact absurd ⟨rfl, rfl⟩ zero
      · exact BitVec.zero_or
      · exact BitVec.or_zero
      · exact BitVec.or_self

/-! ### A mask -/

/-- Leaves have the given values, and every other operation is 0. -/
def Meaning.ofLeaves (leaf : ι → BitVec w) : Meaning τ ι (BitVec w) where
  localId _ := 0
  groupId _ := 0
  localSize _ := 1
  numGroups _ := 1
  globalOffset _ := 0
  workDim := 1
  leaf := leaf
  operation op _ left right :=
    match op with
    | .and => Connective.and.value left right
    | .or => Connective.or.value left right
    | _ => 0
  not _ left := ofProp (left = 0)

theorem Meaning.logical_ofLeaves (leaf : ι → BitVec w) :
    (Meaning.ofLeaves leaf : Meaning τ ι (BitVec w)).Logical := by
  intro connective hint left right
  cases connective <;> rfl

/-- Every register holds a variable of its name. -/
def namedWords : State Unit String where
  words reg := .plain ⟨reg.name, .unknown, .leaf reg.name (), trivial⟩
  integrity _ := .entire
  pairs _ := none

end OpenCLDecompiler.Handlers
