import Mathlib.Data.List.TakeWhile
import OpenCLDecompiler.Expressions.Casts
import OpenCLDecompiler.Expressions.Printing
import OpenCLDecompiler.Library.Wrapping

/-!
# Folding two constants

`evaluate_operation` and `get_sufficient_type_for_const` as `add_operation` uses them for
two constants, against the operations of C on words.
-/

namespace OpenCLDecompiler.ConstantFolding

open Casts Expressions Library Library.C PyNumbers Wrapping

/-! ## Types -/

/-- `OpenCLTypes` but `UNKNOWN`. -/
inductive OpenCLTypes where
  | integer (type : IntegerType)
  | floating (sizeBytes numberOfComponents : Nat)
  deriving DecidableEq

theorem max_sized {a b : Nat} {sizes : List Nat} (first : a ∈ sizes) (second : b ∈ sizes) :
    max a b ∈ sizes := by
  rcases max_choice a b with same | same <;> rw [same] <;> assumption

/-- The integer cases of `get_common_type`. -/
def commonInteger (first second : IntegerType) : IntegerType :=
  if first = second then first
  else if first.isSigned = second.isSigned then
    ⟨max first.bytes second.bytes, first.isSigned,
      max first.numberOfComponents second.numberOfComponents,
      max_sized first.sized second.sized, max_sized first.counted second.counted⟩
  else
    let signed := if first.isSigned then first else second
    let unsigned := if first.isSigned then second else first
    let numberOfComponents := max signed.numberOfComponents unsigned.numberOfComponents
    have counted := max_sized signed.counted unsigned.counted
    if signed.bytes ≤ unsigned.bytes then
      ⟨unsigned.bytes, false, numberOfComponents, unsigned.sized, counted⟩
    else
      let maxSignedValue := 2 ^ (signed.bytes * 8) - 1
      let maxUnsignedValue := 2 ^ (unsigned.bytes * 8) - 1
      ⟨signed.bytes, decide (maxUnsignedValue ≤ maxSignedValue), numberOfComponents,
        signed.sized, counted⟩

/-- `get_common_type`. -/
def getCommonType : OpenCLTypes → OpenCLTypes → OpenCLTypes
  | .integer first, .integer second => .integer (commonInteger first second)
  | .integer type, .floating sizeBytes numberOfComponents
  | .floating sizeBytes numberOfComponents, .integer type =>
      if type.size = sizeBytes * numberOfComponents then .floating sizeBytes numberOfComponents
      else
        .floating (max sizeBytes type.bytes) (max numberOfComponents type.numberOfComponents)
  | .floating sizeBytes numberOfComponents, .floating sizeBytes' numberOfComponents' =>
      .floating (max sizeBytes sizeBytes') (max numberOfComponents numberOfComponents')

/-! ## Constants -/

/-- The value of a constant node. -/
inductive Value where
  | int (value : Int)
  | float (value : ℚ)
  | text (value : List Char)
  deriving DecidableEq

/-- A constant node; the hint is its OpenCL type. -/
structure ConstNode where
  value : Value
  hint : OpenCLTypes
  deriving DecidableEq

/-- `re.fullmatch(r"[\d]+e[\d]+", value)`. -/
def isScientific (text : List Char) : Bool :=
  match text.dropWhile Char.isDigit with
  | 'e' :: exponent =>
      !(text.takeWhile Char.isDigit).isEmpty && !exponent.isEmpty && exponent.all Char.isDigit
  | _ => false

/-- `value.find(".")`. -/
def findPoint (text : List Char) : Int :=
  if '.' ∈ text then (text.takeWhile (· ≠ '.')).length else -1

/-- `get_sufficient_type_for_const`. -/
def getSufficientTypeForConst (value : Value) (hint : OpenCLTypes) : ConstNode :=
  match value with
  | .text text =>
      if isScientific text then ⟨.text text, .floating 8 1⟩
      else
        match readInt 10 text with
        | some number => ⟨.int number, hint⟩
        | none =>
            match readFloat text with
            | some number =>
                let floatPrecision := 7
                let decimalsAfterPoint := text.length - findPoint text
                ⟨.float number,
                  if decimalsAfterPoint ≤ floatPrecision then .floating 4 1 else .floating 8 1⟩
            | none => ⟨.text text, hint⟩
  | value => ⟨value, hint⟩

/-! ## Operations -/

/-- `int(value, base=16)` for a text; a fraction is no operand here. -/
def Value.readInteger : Value → Option Int
  | int value => some value
  | text value => readInt 16 value
  | float _ => none

/-- `int(result)` where this is the same number. -/
def wholeOrFloat (result : ℚ) : Value := if result.den = 1 then .int result.num else .float result

def ofBool (holds : Bool) : Value := .int (if holds then 1 else 0)

/-- `evaluate_operation` of integers; `none` is an exception. -/
def evaluateOperation (op : ExpressionOperationType) (left right : Int) : Option Value :=
  match op with
  | .plus => some (.int (left + right))
  | .minus => some (.int (left - right))
  | .mul => some (.int (left * right))
  | .div => if right = 0 then none else (double ((left : ℚ) / right)).map wholeOrFloat
  | .rem => if right = 0 then none else some (.int (left.fmod right))
  | .lshift => if right < 0 then none else some (.int (left * 2 ^ right.toNat))
  | .rshift => if right < 0 then none else some (.int (left / 2 ^ right.toNat))
  | .eq => some (ofBool (left = right))
  | .ne => some (ofBool (left ≠ right))
  | .lt => some (ofBool (left < right))
  | .le => some (ofBool (left ≤ right))
  | .gt => some (ofBool (left > right))
  | .ge => some (ofBool (left ≥ right))
  | .lg => some (ofBool (left > right ∨ left < right))
  | .not => some (ofBool (left = 0))
  | .and => some (.int (if left ≠ 0 then right else left))
  | .or => some (.int (if left ≠ 0 then left else right))
  | .xor => some (.int (Int.xor left right))
  | .bitwiseAnd => some (.int (Int.land left right))
  | .bitwiseOr => some (.int (Int.lor left right))
  | .min => some (.int (min left right))

/-- `add_operation` for two constants. -/
def addOperation (op : ExpressionOperationType) (left right : ConstNode) : Option ConstNode := do
  let leftValue ← left.value.readInteger
  let rightValue ← right.value.readInteger
  let result ← evaluateOperation op leftValue rightValue
  some (getSufficientTypeForConst result (getCommonType left.hint right.hint))

/-! ## Operands -/

/-- A minus sign or none. -/
def sign (negative : Bool) : List Char := if negative then ['-'] else []

/-- The number that digits spell, with a sign. -/
def spelled (base : Nat) (negative : Bool) (digits : List Char) : Int :=
  let number : Int := ((readNat base digits).getD 0 : Nat)
  if negative then -number else number

/-- A constant as it is given to `add_const_node`. -/
inductive Given where
  | int (value : Int)
  | decimal (negative : Bool) (digits : List Char)
      (valid : digits ≠ [] ∧ ∀ c ∈ digits, c.isDigit = true)
  | hexadecimal (negative : Bool) (digits : List Char)
      (valid : digits ≠ [] ∧ ∀ c ∈ digits, IsDigit 16 c)
  | scientific (mantissa exponent : List Char)
      (valid : mantissa ≠ [] ∧ ∀ c ∈ mantissa, c.isDigit = true)
      (validExponent : exponent ≠ [] ∧ ∀ c ∈ exponent, c.isDigit = true)

namespace Given

def value : Given → Value
  | int value => .int value
  | decimal negative digits _ => .text (sign negative ++ digits)
  | hexadecimal negative digits _ => .text (sign negative ++ '0' :: 'x' :: digits)
  | scientific mantissa exponent _ _ => .text (mantissa ++ 'e' :: exponent)

/-- The number that the constant stands for. -/
def number : Given → Int
  | int value => value
  | decimal negative digits _ => spelled 10 negative digits
  | hexadecimal negative digits _ => spelled 16 negative digits
  | scientific mantissa exponent _ _ =>
      spelled 10 false mantissa * 10 ^ (spelled 10 false exponent).toNat

def Scientific : Given → Prop
  | scientific _ _ _ _ => True
  | _ => False

instance : DecidablePred Scientific := fun given => by
  cases given <;> unfold Scientific <;> infer_instance

/-- The number that `int(value, base=16)` makes of the node. -/
def reading : Given → Int
  | scientific mantissa exponent _ _ => spelled 16 false (mantissa ++ 'e' :: exponent)
  | given => given.number

/-- `add_const_node`. -/
def node (given : Given) (hint : IntegerType) : ConstNode :=
  getSufficientTypeForConst given.value (.integer hint)

end Given

/-! ## Operations of C -/

/-- An operation in a type of C; `none` where C gives it no value. -/
def inC (type : IntegerType) (op : ExpressionOperationType) (a b : Int) : Option Int :=
  let left := BitVec.ofInt type.width a
  let right := BitVec.ofInt type.width b
  let truth (holds : Bool) : Option Int := some (if holds then 1 else 0)
  match op with
  | .lg => truth (left ≠ right)
  | .not => truth (left = 0)
  | .and => truth (left ≠ 0 ∧ right ≠ 0)
  | .or => truth (left ≠ 0 ∨ right ≠ 0)
  | .min =>
      some (value type.isSigned (if BinOp.lt.compare type.isSigned right left then right else left))
  | op =>
      op.toC.bind fun binary =>
        if binary.isShift then some (value type.isSigned (binary.shift type.isSigned left b))
        else if binary.isCompare then truth (binary.compare type.isSigned left right)
        else (binary.arith type.isSigned left right).map (value type.isSigned)

/-- An operation of C on doubles; `none` where C gives it no value. -/
def inDouble (op : ExpressionOperationType) (left right : ℚ) : Option ℚ :=
  let truth (holds : Bool) : Option ℚ := some (if holds then 1 else 0)
  match op with
  | .plus => double (left + right)
  | .minus => double (left - right)
  | .mul => double (left * right)
  | .div => if right = 0 then none else double (left / right)
  | .eq => truth (left = right)
  | .ne | .lg => truth (left ≠ right)
  | .lt => truth (left < right)
  | .le => truth (left ≤ right)
  | .gt => truth (left > right)
  | .ge => truth (left ≥ right)
  | .not => truth (left = 0)
  | .and => truth (left ≠ 0 ∧ right ≠ 0)
  | .or => truth (left ≠ 0 ∨ right ≠ 0)
  | .min => some (min left right)
  | .rem | .lshift | .rshift | .xor | .bitwiseAnd | .bitwiseOr => none

/-- The result in the type of C for the numbers of the operands. -/
def resultInC (op : ExpressionOperationType) (a b : Int) : OpenCLTypes → Option ℚ
  | .integer type => (inC type op a b).map fun (result : Int) => (result : ℚ)
  | .floating _ _ => do inDouble op (← double a) (← double b)

/-- The value is the number. -/
def Value.Denotes (number : ℚ) : Value → Prop
  | int value => (value : ℚ) = number
  | float value => value = number
  | text _ => False

/-- The folded constant denotes the result in the type of C. -/
def FoldsRight (op : ExpressionOperationType) (left right : Given)
    (leftHint rightHint : IntegerType) : Prop :=
  let type := getCommonType (left.node leftHint).hint (right.node rightHint).hint
  ∀ result, resultInC op left.number right.number type = some result →
    ∃ folded, addOperation op (left.node leftHint) (right.node rightHint) = some folded ∧
      folded.hint = type ∧ folded.value.Denotes result

/-! ## When the operations agree -/

/-- The number as the type has it. -/
def inType (type : IntegerType) (number : Int) : Int := wrap type.isSigned type.width number

/-- A number of the type. -/
def InRange (type : IntegerType) (number : Int) : Prop := Fits type.isSigned type.width number

/-- The operations of Python and C agree. -/
def Exact (type : IntegerType) (op : ExpressionOperationType) (a b : Int) : Prop :=
  match op with
  | .plus => InRange type (a + b)
  | .minus => InRange type (a - b)
  | .mul => InRange type (a * b)
  | .div => inType type b = 0 ∨
      double ((a : ℚ) / b) = some ((inType type ((inType type a).tdiv (inType type b)) : Int) : ℚ)
  | .rem => inType type b = 0 ∨ a.fmod b = (inType type a).tmod (inType type b)
  | .lshift => 0 ≤ b ∧ InRange type (a * 2 ^ b.toNat)
  | .rshift => 0 ≤ b ∧ a / 2 ^ b.toNat = inType type a / 2 ^ (b % type.width).toNat
  | .eq | .ne | .lg => a = b ↔ inType type a = inType type b
  | .lt | .ge => a < b ↔ inType type a < inType type b
  | .le | .gt => a ≤ b ↔ inType type a ≤ inType type b
  | .not => a = 0 ↔ inType type a = 0
  | .and => a = 0 ∨ b = 0 ∨ (b = 1 ∧ inType type a ≠ 0)
  | .or => a = 1 ∨ (a = 0 ∧ (b = 0 ∨ b = 1))
  | .xor => InRange type (Int.xor a b)
  | .bitwiseAnd => InRange type (Int.land a b)
  | .bitwiseOr => InRange type (Int.lor a b)
  | .min => min a b = min (inType type a) (inType type b)

/-- The operation on two numbers in doubles is the one on their readings. -/
def ExactDouble (op : ExpressionOperationType) (left right : ℚ) (a b : Int) : Prop :=
  match op with
  | .plus => ∀ result, double (left + right) = some result → result = ((a + b : Int) : ℚ)
  | .minus => ∀ result, double (left - right) = some result → result = ((a - b : Int) : ℚ)
  | .mul => ∀ result, double (left * right) = some result → result = ((a * b : Int) : ℚ)
  | .div => right ≠ 0 → ∀ result, double (left / right) = some result →
      b ≠ 0 ∧ double ((a : ℚ) / b) = some result
  | .eq | .ne | .lg => a = b ↔ left = right
  | .lt | .ge => a < b ↔ left < right
  | .le | .gt => a ≤ b ↔ left ≤ right
  | .not => a = 0 ↔ left = 0
  | .and => (a = 0 ∨ b = 0) ∧ (left = 0 ∨ right = 0) ∨ a ≠ 0 ∧ b = 1 ∧ left ≠ 0 ∧ right ≠ 0
  | .or => a = 0 ∧ b = 0 ∧ left = 0 ∧ right = 0 ∨
      (a = 1 ∨ (a = 0 ∧ b = 1)) ∧ (left ≠ 0 ∨ right ≠ 0)
  | .min => min left right = ((min a b : Int) : ℚ)
  | .rem | .lshift | .rshift | .xor | .bitwiseAnd | .bitwiseOr => True

/-- The operations of Python on the readings and of C on the numbers agree. -/
def FoldHolds (op : ExpressionOperationType) (left right : Given)
    (leftHint rightHint : IntegerType) : Prop :=
  if left.Scientific ∨ right.Scientific then
    ∀ a b, double left.number = some a → double right.number = some b →
      ExactDouble op a b left.reading right.reading
  else Exact (commonInteger leftHint rightHint) op left.number right.number

/-! ## Reading the operands -/

theorem spelled_of_readNat {base number : Nat} {digits : List Char}
    (read : readNat base digits = some number) (negative : Bool) :
    spelled base negative digits = if negative then -(number : Int) else number := by
  rw [spelled, read]
  rfl

theorem isScientific_of_not_mem {text : List Char} (absent : ∀ exponent,
    text.dropWhile Char.isDigit ≠ 'e' :: exponent) : isScientific text = false := by
  unfold isScientific
  split
  · rename_i exponent same
    exact absurd same (absent exponent)
  · rfl

theorem isScientific_minus (text : List Char) : isScientific ('-' :: text) = false :=
  isScientific_of_not_mem fun _ same => by cases same

theorem isScientific_digits {digits : List Char} (valid : ∀ c ∈ digits, c.isDigit = true) :
    isScientific digits = false := by
  refine isScientific_of_not_mem fun exponent same => ?_
  rw [List.dropWhile_eq_nil_iff.mpr (by simpa using valid)] at same
  cases same

theorem isScientific_hexadecimal (negative : Bool) (digits : List Char) :
    isScientific (sign negative ++ '0' :: 'x' :: digits) = false := by
  cases negative with
  | true => exact isScientific_minus _
  | false => exact isScientific_of_not_mem fun _ same => by cases same

theorem readInt_sign {base : Nat} {text : List Char} (plain : ∀ c ∈ text.head?, c ≠ '-' ∧ c ≠ '+')
    (negative : Bool) :
    readInt base (sign negative ++ text) = (readUnsigned base text).map fun number =>
      if negative then -(number : Int) else (number : Int) := by
  cases negative with
  | true => rfl
  | false =>
      change readInt base text = (readUnsigned base text).map fun number => (number : Int)
      cases text with
      | nil => rfl
      | cons c text =>
          obtain ⟨noMinus, noPlus⟩ := plain c rfl
          unfold readInt
          split
          · rename_i same
            exact absurd (List.cons.inj same).left noMinus
          · rename_i same
            exact absurd (List.cons.inj same).left noPlus
          · rfl

theorem readUnsigned_ten (text : List Char) : readUnsigned 10 text = readNat 10 text := by
  unfold readUnsigned
  split
  · rfl
  · rfl

theorem plain_of_digits {digits : List Char} (valid : ∀ c ∈ digits, c.isDigit = true) :
    ∀ c ∈ digits.head?, c ≠ '-' ∧ c ≠ '+' := by
  intro c first
  have isDigit := valid c (List.mem_of_mem_head? first)
  constructor <;> rintro rfl <;> cases isDigit

theorem readInt_decimal (negative : Bool) {digits : List Char}
    (valid : digits ≠ [] ∧ ∀ c ∈ digits, c.isDigit = true) :
    readInt 10 (sign negative ++ digits) = some (spelled 10 negative digits) := by
  obtain ⟨number, read⟩ := readNat_of_digits valid.left fun c inside =>
    isDigit_ten (valid.right c inside)
  rw [readInt_sign (plain_of_digits valid.right), readUnsigned_ten, spelled_of_readNat read, read]
  rfl

theorem plain_hexadecimal (digits : List Char) :
    ∀ c ∈ ('0' :: 'x' :: digits).head?, c ≠ '-' ∧ c ≠ '+' := by
  rintro c ⟨⟩
  exact ⟨by decide, by decide⟩

theorem readInt_hexadecimal (negative : Bool) {digits : List Char}
    (valid : digits ≠ [] ∧ ∀ c ∈ digits, IsDigit 16 c) :
    readInt 16 (sign negative ++ '0' :: 'x' :: digits) = some (spelled 16 negative digits) := by
  obtain ⟨number, read⟩ := readNat_of_digits valid.left valid.right
  have prefixed : readUnsigned 16 ('0' :: 'x' :: digits) = readNat 16 digits := rfl
  rw [readInt_sign (plain_hexadecimal digits), prefixed, spelled_of_readNat read, read]
  rfl

theorem readInt_ten_hexadecimal (negative : Bool) (digits : List Char) :
    readInt 10 (sign negative ++ '0' :: 'x' :: digits) = none := by
  rw [readInt_sign (plain_hexadecimal digits), readUnsigned_ten,
    readNat_of_mem (c := 'x') (by simp) not_isDigit_x]
  rfl

/-- A letter before the exponent spoils a number with a point. -/
theorem readUnsignedFloat_hexadecimal (digits : List Char) :
    readUnsignedFloat ('0' :: 'x' :: digits) = none := by
  have mantissa : ('0' :: 'x' :: digits).takeWhile (!isExponentLetter ·) =
      '0' :: 'x' :: digits.takeWhile (!isExponentLetter ·) := rfl
  have whole (rest : List Char) : ('0' :: 'x' :: rest).takeWhile (· ≠ '.') =
      '0' :: 'x' :: rest.takeWhile (· ≠ '.') := rfl
  have spoiled (rest : List Char) : readNat 10 ('0' :: 'x' :: rest) = none :=
    readNat_of_mem (c := 'x') (by simp) not_isDigit_x
  unfold readUnsignedFloat
  simp only [mantissa, whole, List.cons_append, spoiled]
  rfl

theorem readFloat_hexadecimal (negative : Bool) (digits : List Char) :
    readFloat (sign negative ++ '0' :: 'x' :: digits) = none := by
  cases negative with
  | true =>
      change (readUnsignedFloat ('0' :: 'x' :: digits)).map (fun number => -number) = none
      rw [readUnsignedFloat_hexadecimal]
      rfl
  | false => exact readUnsignedFloat_hexadecimal digits

/-- A decimal text becomes its number. -/
theorem node_decimal (hint : IntegerType) (negative : Bool) {digits : List Char}
    (valid : digits ≠ [] ∧ ∀ c ∈ digits, c.isDigit = true) :
    (Given.decimal negative digits valid).node hint =
      ⟨.int (spelled 10 negative digits), .integer hint⟩ := by
  have noExponent : isScientific (sign negative ++ digits) = false := by
    cases negative with
    | true => exact isScientific_minus _
    | false => exact isScientific_digits valid.right
  unfold Given.node Given.value getSufficientTypeForConst
  simp only [noExponent, readInt_decimal negative valid, Bool.false_eq_true, if_false]

/-- A hexadecimal text stays as it is. -/
theorem node_hexadecimal (hint : IntegerType) (negative : Bool) {digits : List Char}
    (valid : digits ≠ [] ∧ ∀ c ∈ digits, IsDigit 16 c) :
    (Given.hexadecimal negative digits valid).node hint =
      ⟨.text (sign negative ++ '0' :: 'x' :: digits), .integer hint⟩ := by
  unfold Given.node Given.value getSufficientTypeForConst
  simp only [isScientific_hexadecimal, readInt_ten_hexadecimal, readFloat_hexadecimal,
    Bool.false_eq_true, if_false]

theorem isScientific_scientific {mantissa exponent : List Char}
    (valid : mantissa ≠ [] ∧ ∀ c ∈ mantissa, c.isDigit = true)
    (validExponent : exponent ≠ [] ∧ ∀ c ∈ exponent, c.isDigit = true) :
    isScientific (mantissa ++ 'e' :: exponent) = true := by
  have front : (mantissa ++ 'e' :: exponent).takeWhile Char.isDigit = mantissa := by
    rw [List.takeWhile_append_of_pos valid.right]
    exact List.append_nil _
  have back : (mantissa ++ 'e' :: exponent).dropWhile Char.isDigit = 'e' :: exponent :=
    List.dropWhile_append_of_pos valid.right
  unfold isScientific
  simp only [front, back]
  simpa [valid.left, validExponent.left] using validExponent.right

theorem node_scientific (hint : IntegerType) {mantissa exponent : List Char}
    (valid : mantissa ≠ [] ∧ ∀ c ∈ mantissa, c.isDigit = true)
    (validExponent : exponent ≠ [] ∧ ∀ c ∈ exponent, c.isDigit = true) :
    (Given.scientific mantissa exponent valid validExponent).node hint =
      ⟨.text (mantissa ++ 'e' :: exponent), .floating 8 1⟩ := by
  unfold Given.node Given.value getSufficientTypeForConst
  simp only [isScientific_scientific valid validExponent, if_true]

theorem isDigit_e : IsDigit 16 'e' := ⟨14, rfl, by decide⟩

/-- Without the letter of the prefix all letters are digits. -/
theorem readUnsigned_of_not_mem {base : Nat} {text : List Char}
    (small : 'x' ∉ text) (capital : 'X' ∉ text) : readUnsigned base text = readNat base text := by
  unfold readUnsigned
  split
  · rename_i c digits
    refine if_neg fun prefixed => ?_
    rcases prefixed.right with rfl | rfl
    · exact small (by simp)
    · exact capital (by simp)
  · rfl

theorem readInt_scientific {mantissa exponent : List Char}
    (valid : mantissa ≠ [] ∧ ∀ c ∈ mantissa, c.isDigit = true)
    (validExponent : exponent ≠ [] ∧ ∀ c ∈ exponent, c.isDigit = true) :
    readInt 16 (mantissa ++ 'e' :: exponent) =
      some (spelled 16 false (mantissa ++ 'e' :: exponent)) := by
  have letters : ∀ c ∈ mantissa ++ 'e' :: exponent, c.isDigit = true ∨ c = 'e' := by
    intro c inside
    rcases List.mem_append.mp inside with inside | inside
    · exact .inl (valid.right c inside)
    rcases List.mem_cons.mp inside with rfl | inside
    · exact .inr rfl
    · exact .inl (validExponent.right c inside)
  have absent (c : Char) (other : c.isDigit = false ∧ c ≠ 'e') :
      c ∉ mantissa ++ 'e' :: exponent := by
    intro inside
    rcases letters c inside with isDigit | same
    · rw [other.left] at isDigit
      cases isDigit
    · exact other.right same
  have plain : ∀ c ∈ (mantissa ++ 'e' :: exponent).head?, c ≠ '-' ∧ c ≠ '+' := by
    intro c first
    have inside := List.mem_of_mem_head? first
    constructor <;> rintro rfl <;> exact absent _ (by decide) inside
  have digits : ∀ c ∈ mantissa ++ 'e' :: exponent, IsDigit 16 c := fun c inside =>
    (letters c inside).elim isDigit_sixteen fun same => same ▸ isDigit_e
  obtain ⟨number, read⟩ := readNat_of_digits (by simp) digits
  have signed : readInt 16 (sign false ++ (mantissa ++ 'e' :: exponent)) = _ :=
    readInt_sign plain false
  rw [readUnsigned_of_not_mem (absent 'x' (by decide)) (absent 'X' (by decide)), read] at signed
  rw [spelled_of_readNat read]
  exact signed

theorem readInteger_node (hint : IntegerType) (given : Given) :
    (given.node hint).value.readInteger = some given.reading := by
  cases given with
  | int value => rfl
  | decimal negative digits valid =>
      rw [node_decimal]
      rfl
  | hexadecimal negative digits valid =>
      rw [node_hexadecimal]
      exact readInt_hexadecimal negative valid
  | scientific mantissa exponent valid validExponent =>
      rw [node_scientific]
      exact readInt_scientific valid validExponent

theorem hint_node (hint : IntegerType) (given : Given) :
    (given.node hint).hint = if given.Scientific then .floating 8 1 else .integer hint := by
  cases given with
  | int value => rfl
  | decimal negative digits valid =>
      rw [node_decimal]
      rfl
  | hexadecimal negative digits valid =>
      rw [node_hexadecimal]
      rfl
  | scientific mantissa exponent valid validExponent =>
      rw [node_scientific]
      rfl

theorem reading_of_plain {given : Given} (plain : ¬given.Scientific) :
    given.reading = given.number := by
  cases given with
  | scientific mantissa exponent valid validExponent => exact absurd trivial plain
  | _ => rfl

end OpenCLDecompiler.ConstantFolding
