import Mathlib.Algebra.Order.Ring.Int
import Mathlib.Tactic.Positivity
import OpenCLDecompiler.Library.PyNumbers

/-!
# When a cast is needed

`ExpressionNode.needs_cast` between integer types, for constants and variables, against
the ranges of the types.
-/

namespace OpenCLDecompiler.Casts

open Library

/-! ## Types -/

/-- An `OpenCLType` of integers. -/
structure IntegerType where
  bytes : Nat
  isSigned : Bool
  numberOfComponents : Nat
  sized : bytes ∈ [1, 2, 4, 8]
  counted : numberOfComponents ∈ [1, 2, 3, 4, 8]
  deriving DecidableEq

namespace IntegerType

/-- `get_size`. -/
def size (type : IntegerType) : Nat := type.bytes * type.numberOfComponents

def width (type : IntegerType) : Nat := type.bytes * 8

def least (type : IntegerType) : Int := if type.isSigned then -2 ^ (type.width - 1) else 0

def greatest (type : IntegerType) : Int :=
  if type.isSigned then 2 ^ (type.width - 1) - 1 else 2 ^ type.width - 1

/-- The number is a value of a component. -/
def Fits (type : IntegerType) (number : Int) : Prop :=
  type.least ≤ number ∧ number ≤ type.greatest

end IntegerType

inductive TypeAddressSpaceQualifiers where
  | unknown
  | global
  | local'
  | const
  | private'
  deriving DecidableEq

/-- `ExpressionValueTypeHint`. -/
structure ExpressionValueTypeHint where
  openclType : IntegerType
  qualifier : TypeAddressSpaceQualifiers
  isConst : Bool
  isPointer : Bool
  isAddress : Bool
  deriving DecidableEq

/-! ## Nodes -/

/-- `re.fullmatch(r"0x[\da-f]+", text)`. -/
def isHexText : List Char → Bool
  | '0' :: 'x' :: digits =>
      !digits.isEmpty && digits.all fun c => c.isDigit || (decide ('a' ≤ c) && decide (c ≤ 'f'))
  | _ => false

/-- A constant, a number or a text with the number that it spells, or a variable. -/
inductive Node where
  | number (value : Int) (hint : ExpressionValueTypeHint)
  | text (value : List Char) (spelled : Int) (reads : PyNumbers.readInt 16 value = some spelled)
      (hint : ExpressionValueTypeHint)
  | var (value : List Char) (named : isHexText value = false) (hint : ExpressionValueTypeHint)

namespace Node

def hint : Node → ExpressionValueTypeHint
  | number _ hint | text _ _ _ hint | var _ _ hint => hint

/-- `least <= value <= greatest`; `none` is the `TypeError` of a text. -/
def between (least greatest : Int) : Node → Option Bool
  | number value _ => some (decide (least ≤ value) && decide (value ≤ greatest))
  | _ => none

/-- `re.fullmatch` on `str(value)`. -/
def isHex : Node → Bool
  | number _ _ => false
  | text value _ _ _ | var value _ _ => isHexText value

/-- `isinstance(value, int) and value >= 0`. -/
def isNonnegativeInt : Node → Bool
  | number value _ => decide (0 ≤ value)
  | _ => false

/-- `needs_cast`. -/
def needsCast (node : Node) (toHint : ExpressionValueTypeHint) : Option Bool :=
  let fromType := node.hint.openclType
  let toType := toHint.openclType
  if node.hint = toHint then some false
  else if fromType.numberOfComponents ≠ toType.numberOfComponents then some true
  else if 1 < fromType.numberOfComponents ∧ fromType ≠ toType then some true
  else if fromType.isSigned = toType.isSigned then
    let rangeMax : Int := 2 ^ (toType.size * 8)
    let toHintMin := if toType.isSigned then -1 * rangeMax / 2 else 0
    let toHintMax := if toType.isSigned then rangeMax / 2 - 1 else rangeMax
    if toType.size < fromType.size then (node.between toHintMin toHintMax).map not
    else some false
  else if node.isHex then some false
  else some !node.isNonnegativeInt

end Node

/-! ## Values -/

namespace Node

/-- The source keeps its value in the target type. -/
def Keeps (target : IntegerType) : Node → Prop
  | number value _ => target.Fits value
  | text _ spelled _ _ => target.Fits spelled
  | var _ _ hint => ∀ value, hint.openclType.Fits value → target.Fits value

/-- `needs_cast` returns, and where it asks for no cast none is needed. -/
def CastCorrect (node : Node) (toHint : ExpressionValueTypeHint) : Prop :=
  ∃ answer, node.needsCast toHint = some answer ∧
    (answer = false → node.Keeps toHint.openclType)

/-- A cast to other components, which is always explicit. -/
def Reshaped (source target : IntegerType) : Prop :=
  source.numberOfComponents ≠ target.numberOfComponents ∨
    (1 < source.numberOfComponents ∧ source ≠ target)

/-- The sign stays, and the target is smaller. -/
def NarrowHolds (target : IntegerType) : Node → Prop
  | number value _ => target.isSigned = true ∨ value ≠ 2 ^ target.width
  | _ => False

/-- The sign stays, and the target is as large. -/
def WideHolds (target : IntegerType) : Node → Prop
  | number value _ => target.Fits value
  | text _ spelled _ _ => target.Fits spelled
  | var _ _ _ => True

/-- The sign changes. -/
def SignHolds (target : IntegerType) : Node → Prop
  | number value _ => value < 0 ∨ target.Fits value
  | text value spelled _ _ => isHexText value = true → target.Fits spelled
  | var _ _ _ => True

/-- The nodes and types with which `needs_cast` is right. -/
def CastHolds (node : Node) (target : IntegerType) : Prop :=
  Reshaped node.hint.openclType target ∨
    if node.hint.openclType.isSigned = target.isSigned then
      if target.size < node.hint.openclType.size then node.NarrowHolds target
      else node.WideHolds target
    else node.SignHolds target

end Node

/-! ## Ranges -/

namespace IntegerType

theorem bytes_pos (type : IntegerType) : 0 < type.bytes := by
  have sized := type.sized
  simp only [List.mem_cons, List.not_mem_nil, or_false] at sized
  omega

theorem components_pos (type : IntegerType) : 0 < type.numberOfComponents := by
  have counted := type.counted
  simp only [List.mem_cons, List.not_mem_nil, or_false] at counted
  omega

/-- A larger type of the same sign has all values of a smaller one. -/
theorem fits_of_width_le {source target : IntegerType}
    (sameSign : source.isSigned = target.isSigned) (wider : source.width ≤ target.width)
    {number : Int} (fits : source.Fits number) : target.Fits number := by
  have whole : (2 : Int) ^ source.width ≤ 2 ^ target.width :=
    pow_le_pow_right₀ (by decide) wider
  have half : (2 : Int) ^ (source.width - 1) ≤ 2 ^ (target.width - 1) :=
    pow_le_pow_right₀ (by decide) (by omega)
  unfold Fits least greatest at fits ⊢
  rw [sameSign] at fits
  cases sign : target.isSigned with
  | true =>
      simp only [sign, if_true] at fits ⊢
      omega
  | false =>
      simp only [sign, Bool.false_eq_true, if_false] at fits ⊢
      omega

theorem two_mul_half (type : IntegerType) :
    (2 : Int) ^ type.width = 2 * 2 ^ (type.width - 1) := by
  have positive := type.bytes_pos
  rw [← pow_succ', Nat.sub_add_cancel (by unfold width; omega)]

/-- The bounds that `needs_cast` computes let one number too many through. -/
theorem between_iff (type : IntegerType) (number : Int) :
    ((if type.isSigned then -1 * (2 : Int) ^ type.width / 2 else 0) ≤ number ∧
        number ≤ if type.isSigned then (2 : Int) ^ type.width / 2 - 1 else 2 ^ type.width) ↔
      type.Fits number ∨ (type.isSigned = false ∧ number = 2 ^ type.width) := by
  have halves := type.two_mul_half
  have positive : (0 : Int) < 2 ^ (type.width - 1) := by positivity
  unfold Fits least greatest
  cases sign : type.isSigned with
  | true =>
      simp only [if_true, Bool.true_eq_false, false_and, or_false]
      omega
  | false =>
      simp only [Bool.false_eq_true, if_false, true_and]
      omega

end IntegerType

namespace Node

theorem castCorrect_some {node : Node} {toHint : ExpressionValueTypeHint} {answer : Bool}
    (answers : node.needsCast toHint = some answer) :
    node.CastCorrect toHint ↔ (answer = false → node.Keeps toHint.openclType) := by
  rw [CastCorrect, answers]
  exact ⟨fun ⟨_, same, keeps⟩ => Option.some.inj same ▸ keeps, fun keeps => ⟨answer, rfl, keeps⟩⟩

/-- Without a change of sign a type that is as large keeps every variable. -/
theorem keeps_iff_wideHolds (node : Node) {target : IntegerType}
    (sameSign : node.hint.openclType.isSigned = target.isSigned)
    (wider : node.hint.openclType.width ≤ target.width) :
    node.Keeps target ↔ node.WideHolds target := by
  cases node with
  | number value hint => exact Iff.rfl
  | text value spelled reads hint => exact Iff.rfl
  | var value named hint =>
      exact iff_true_intro fun _ fits => IntegerType.fits_of_width_le sameSign wider fits

theorem needsCast_of_reshaped {node : Node} {toHint : ExpressionValueTypeHint}
    (reshaped : Reshaped node.hint.openclType toHint.openclType) :
    node.needsCast toHint = some true := by
  have different : node.hint ≠ toHint := by
    intro same
    rw [same] at reshaped
    exact reshaped.elim (fun apart => apart rfl) fun apart => apart.2 rfl
  unfold needsCast
  dsimp only
  rw [if_neg different]
  split
  · rfl
  · rename_i components
    rw [if_pos (reshaped.resolve_left components)]

/-- The answer for types with the same components. -/
theorem needsCast_of_not_reshaped {node : Node} {toHint : ExpressionValueTypeHint}
    (plain : ¬Reshaped node.hint.openclType toHint.openclType) :
    node.needsCast toHint =
      if node.hint.openclType.isSigned = toHint.openclType.isSigned then
        if toHint.openclType.size < node.hint.openclType.size then
          (node.between
            (if toHint.openclType.isSigned then -1 * 2 ^ (toHint.openclType.size * 8) / 2 else 0)
            (if toHint.openclType.isSigned then 2 ^ (toHint.openclType.size * 8) / 2 - 1
              else 2 ^ (toHint.openclType.size * 8))).map not
        else some false
      else if node.isHex then some false
      else some !node.isNonnegativeInt := by
  rw [Reshaped, not_or, not_not] at plain
  unfold needsCast
  dsimp only
  split
  · rename_i same
    rw [same, if_pos rfl, if_neg (lt_irrefl _)]
  · rw [if_neg (not_not.mpr plain.1), if_neg plain.2]

/-- Types with the same components that are not of the same size have one component. -/
theorem width_of_smaller {source target : IntegerType} (plain : ¬Reshaped source target)
    (smaller : target.size < source.size) : target.size * 8 = target.width := by
  rw [Reshaped, not_or, not_not, not_and, not_not] at plain
  have single : ¬1 < source.numberOfComponents := by
    intro several
    rw [plain.2 several] at smaller
    exact lt_irrefl _ smaller
  have one : target.numberOfComponents = 1 := by
    have counted := source.components_pos
    omega
  rw [IntegerType.size, one, Nat.mul_one, IntegerType.width]

theorem width_le_of_not_smaller {source target : IntegerType} (plain : ¬Reshaped source target)
    (larger : ¬target.size < source.size) : source.width ≤ target.width := by
  rw [Reshaped, not_or, not_not] at plain
  rw [IntegerType.size, IntegerType.size, plain.1, not_lt] at larger
  exact Nat.mul_le_mul_right 8 (Nat.le_of_mul_le_mul_right larger target.components_pos)

theorem castCorrect_narrow {node : Node} {toHint : ExpressionValueTypeHint}
    (plain : ¬Reshaped node.hint.openclType toHint.openclType)
    (sameSign : node.hint.openclType.isSigned = toHint.openclType.isSigned)
    (smaller : toHint.openclType.size < node.hint.openclType.size) :
    node.CastCorrect toHint ↔ node.NarrowHolds toHint.openclType := by
  have answers := needsCast_of_not_reshaped plain
  rw [if_pos sameSign, if_pos smaller, width_of_smaller plain smaller] at answers
  have raises (unread : node.needsCast toHint = none) : ¬node.CastCorrect toHint := by
    rintro ⟨answer, returned, -⟩
    rw [unread] at returned
    cases returned
  cases node with
  | text value spelled reads hint => exact iff_of_false (raises answers) not_false
  | var value named hint => exact iff_of_false (raises answers) not_false
  | number value hint =>
      rw [castCorrect_some answers, Bool.not_eq_false', ← Bool.decide_and, decide_eq_true_eq,
        IntegerType.between_iff, Keeps, NarrowHolds]
      have outside (unsigned : toHint.openclType.isSigned = false) :
          ¬toHint.openclType.Fits (2 ^ toHint.openclType.width) := by
        simp [IntegerType.Fits, IntegerType.greatest, unsigned]
      cases sign : toHint.openclType.isSigned with
      | true => simp
      | false =>
          have excluded : toHint.openclType.Fits value → value ≠ 2 ^ toHint.openclType.width :=
            fun fits same => outside sign (same ▸ fits)
          grind

theorem castCorrect_sign {node : Node} {toHint : ExpressionValueTypeHint}
    (plain : ¬Reshaped node.hint.openclType toHint.openclType)
    (otherSign : node.hint.openclType.isSigned ≠ toHint.openclType.isSigned) :
    node.CastCorrect toHint ↔ node.SignHolds toHint.openclType := by
  have answers := needsCast_of_not_reshaped plain
  rw [if_neg otherSign] at answers
  cases node with
  | number value hint =>
      have negative : (!decide (0 ≤ value)) = false ↔ ¬value < 0 := by simp
      rw [castCorrect_some answers, isNonnegativeInt, negative, Keeps, SignHolds, or_iff_not_imp_left]
  | text value spelled reads hint =>
      cases hexText : isHexText value with
      | true =>
          rw [isHex, if_pos hexText] at answers
          rw [castCorrect_some answers, SignHolds, forall_prop_of_true rfl,
            forall_prop_of_true hexText, Keeps]
      | false =>
          rw [isHex, if_neg (Bool.not_eq_true _ ▸ hexText)] at answers
          rw [castCorrect_some answers, SignHolds, hexText]
          exact iff_of_true nofun nofun
  | var value named hint =>
      rw [isHex, if_neg (Bool.not_eq_true _ ▸ named)] at answers
      rw [castCorrect_some answers]
      exact iff_of_true nofun trivial

/--
`needs_cast` returns and never omits a cast that changes the value exactly for the nodes and
types of `CastHolds`.
-/
theorem castCorrect_iff (node : Node) (toHint : ExpressionValueTypeHint) :
    node.CastCorrect toHint ↔ node.CastHolds toHint.openclType := by
  unfold CastHolds
  by_cases reshaped : Reshaped node.hint.openclType toHint.openclType
  · rw [castCorrect_some (needsCast_of_reshaped reshaped)]
    exact iff_of_true nofun (Or.inl reshaped)
  rw [or_iff_right reshaped]
  split
  · rename_i sameSign
    split
    · rename_i smaller
      exact castCorrect_narrow reshaped sameSign smaller
    · rename_i larger
      have answers := needsCast_of_not_reshaped reshaped
      rw [if_pos sameSign, if_neg larger] at answers
      rw [castCorrect_some answers, forall_prop_of_true rfl]
      exact keeps_iff_wideHolds node sameSign (width_le_of_not_smaller reshaped larger)
  · rename_i otherSign
    exact castCorrect_sign reshaped otherSign

/-! ### The limit of a type -/

def plainHint (openclType : IntegerType) : ExpressionValueTypeHint :=
  ⟨openclType, .unknown, false, false, false⟩

def uint : IntegerType := ⟨4, false, 1, by decide, by decide⟩

def uchar : IntegerType := ⟨1, false, 1, by decide, by decide⟩

/-- 256 of type `uint` is no `uchar`, and no cast is asked for. -/
theorem not_castCorrect_limit :
    ¬(number 256 (plainHint uint)).CastCorrect (plainHint uchar) := by
  have answers : (number 256 (plainHint uint)).needsCast (plainHint uchar) = some false := by decide
  rw [castCorrect_some answers, forall_prop_of_true rfl]
  exact fun keeps => absurd keeps.2 (by decide)

/-- A variable of type `uint` has no answer for `uchar`. -/
example (value : List Char) (named : isHexText value = false) :
    (var value named (plainHint uint)).needsCast (plainHint uchar) = none := rfl

end Node

end OpenCLDecompiler.Casts
