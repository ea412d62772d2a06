import OpenCLDecompiler.Library.CSyntax
import Mathlib.Data.BitVec

/-!
# Values of C expressions

Integers wrap around and a division by zero has no value.  The floating-point
operations are a parameter, of which nothing is assumed.
-/

namespace OpenCLDecompiler.Library.C

/-- The types in which integers are combined. -/
inductive IntType where
  | int
  | uint
  | long
  | ulong
  deriving DecidableEq, Repr

namespace IntType

def width : IntType → Nat
  | .int | .uint => 32
  | .long | .ulong => 64

def signed : IntType → Bool
  | .int | .long => true
  | .uint | .ulong => false

def rank : IntType → Nat
  | .int => 0
  | .uint => 1
  | .long => 2
  | .ulong => 3

/-- The usual arithmetic conversions. -/
def join (first second : IntType) : IntType :=
  if first.rank ≤ second.rank then second else first

def toInt (type : IntType) (bits : BitVec type.width) : Int :=
  if type.signed then bits.toInt else bits.toNat

def convert (target : IntType) {type : IntType} (bits : BitVec type.width) :
    BitVec target.width :=
  BitVec.ofInt target.width (type.toInt bits)

end IntType

/-- The type of a value. -/
inductive NumType where
  | int (type : IntType)
  | float (double : Bool)
  deriving DecidableEq, Repr

def NumType.join : NumType → NumType → NumType
  | .int first, .int second => .int (first.join second)
  | .int _, .float double => .float double
  | .float double, .int _ => .float double
  | .float first, .float second => .float (first || second)

/-- The types of variables. -/
inductive ScalarType where
  | char | uchar
  | short | ushort
  | int | uint
  | long | ulong
  | float | double
  deriving DecidableEq, Repr

namespace ScalarType

def size : ScalarType → Nat
  | .char | .uchar => 1
  | .short | .ushort => 2
  | .int | .uint | .float => 4
  | .long | .ulong | .double => 8

def signed : ScalarType → Bool
  | .uchar | .ushort | .uint | .ulong => false
  | _ => true

def integer : ScalarType → Bool
  | .float | .double => false
  | _ => true

/-- The integer promotions. -/
def promote : ScalarType → NumType
  | .char | .uchar | .short | .ushort | .int => .int .int
  | .uint => .int .uint
  | .long => .int .long
  | .ulong => .int .ulong
  | .float => .float false
  | .double => .float true

end ScalarType

inductive Value (F : Type) where
  | int (type : IntType) (bits : BitVec type.width)
  | float (double : Bool) (value : F)
  deriving DecidableEq

/-- The floating-point operations, in single or in double precision. -/
structure FloatUnit (F : Type) where
  ofInt : Bool → Int → F
  convert : Bool → F → F
  arith : BinOp → Bool → F → F → Option F
  compare : BinOp → F → F → Bool
  negate : F → F
  isZero : F → Bool

/-- What a variable holds. -/
def ScalarType.Stored (F : Type) (type : ScalarType) : Type :=
  if type.integer then BitVec (8 * type.size) else F

def ScalarType.load {F : Type} : (type : ScalarType) → type.Stored F → Value F
  | .char, bits => .int .int (BitVec.signExtend 32 (bits : BitVec 8))
  | .uchar, bits => .int .int (BitVec.zeroExtend 32 (bits : BitVec 8))
  | .short, bits => .int .int (BitVec.signExtend 32 (bits : BitVec 16))
  | .ushort, bits => .int .int (BitVec.zeroExtend 32 (bits : BitVec 16))
  | .int, bits => .int .int bits
  | .uint, bits => .int .uint bits
  | .long, bits => .int .long bits
  | .ulong, bits => .int .ulong bits
  | .float, value => .float false value
  | .double, value => .float true value

/-! ## Operators -/

namespace BinOp

def isShift : BinOp → Bool
  | .shl | .shr => true
  | _ => false

def isCompare : BinOp → Bool
  | .lt | .gt | .le | .ge | .eq | .ne => true
  | _ => false

/-- The amount is taken modulo the width. -/
def shift (op : BinOp) (signed : Bool) {width : Nat} (bits : BitVec width) (amount : Int) :
    BitVec width :=
  let places := (amount % width).toNat
  if op = .shl then bits <<< places
  else if signed then bits.sshiftRight places
  else bits >>> places

def compare (op : BinOp) (signed : Bool) {width : Nat} (left right : BitVec width) : Bool :=
  match op with
  | .lt => if signed then left.slt right else left.ult right
  | .gt => if signed then right.slt left else right.ult left
  | .le => if signed then left.sle right else left.ule right
  | .ge => if signed then right.sle left else right.ule left
  | .eq => left = right
  | _ => left ≠ right

def arith (op : BinOp) (signed : Bool) {width : Nat} (left right : BitVec width) :
    Option (BitVec width) :=
  match op with
  | .mul => some (left * right)
  | .add => some (left + right)
  | .sub => some (left - right)
  | .bitAnd => some (left &&& right)
  | .bitXor => some (left ^^^ right)
  | .bitOr => some (left ||| right)
  | .div => if right = 0 then none else some (if signed then left.sdiv right else left / right)
  | .rem => if right = 0 then none else some (if signed then left.srem right else left % right)
  | _ => none

end BinOp

section Eval

variable {F : Type} (unit : FloatUnit F)

namespace Value

def type : Value F → NumType
  | .int type _ => .int type
  | .float double _ => .float double

def ofBool (bit : Bool) : Value F := .int .int (if bit then 1 else 0)

def isTrue : Value F → Bool
  | .int _ bits => bits ≠ 0
  | .float _ value => !unit.isZero value

def toFloat (double : Bool) : Value F → F
  | .int type bits => unit.ofInt double (type.toInt bits)
  | .float _ value => unit.convert double value

def negate : Value F → Value F
  | .int type bits => .int type (-bits)
  | .float double value => .float double (unit.negate value)

def isDouble : Value F → Bool
  | .int _ _ => false
  | .float double _ => double

def binaryInt (op : BinOp) {first second : IntType} (x : BitVec first.width)
    (y : BitVec second.width) : Option (Value F) :=
  let type := first.join second
  if op.isShift then some (.int first (op.shift first.signed x (second.toInt y)))
  else if op.isCompare then some (ofBool (op.compare type.signed (type.convert x) (type.convert y)))
  else (op.arith type.signed (type.convert x) (type.convert y)).map (.int type)

def binaryFloat (op : BinOp) (double : Bool) (x y : F) : Option (Value F) :=
  if op.isShift then none
  else if op.isCompare then some (ofBool (unit.compare op x y))
  else (unit.arith op double x y).map (.float double)

/-- The operators that evaluate both operands. -/
def binary (op : BinOp) : Value F → Value F → Option (Value F)
  | .int _ x, .int _ y => binaryInt op x y
  | left, right =>
      let double := left.isDouble || right.isDouble
      binaryFloat unit op double (left.toFloat unit double) (right.toFloat unit double)

end Value

def hexDigit (c : Char) : Nat := if c.isDigit then c.toNat - 48 else c.toNat - 87

def natLiteral (base : Nat) (digits : List Char) : Nat :=
  digits.foldl (fun value c => value * base + hexDigit c) 0

/-- The first type of the list that has the number. -/
def firstFitting (n : Nat) (types : List IntType) : Option (Value F) :=
  (types.find? fun type => n < 2 ^ (type.width - if type.signed then 1 else 0)).map
    fun type => .int type (BitVec.ofNat type.width n)

/-- A number: hexadecimal, octal or decimal. -/
def literal : List Char → Option (Value F)
  | '0' :: 'x' :: digits => firstFitting (natLiteral 16 digits) [.int, .uint, .long, .ulong]
  | '0' :: digits => firstFitting (natLiteral 8 digits) [.int, .uint, .long, .ulong]
  | digits => firstFitting (natLiteral 10 digits) [.int, .long]

namespace Expr

/-- The value under an assignment of the variables. -/
def eval (assignment : List Char → Value F) : Expr → Option (Value F)
  | .var name => some (assignment name)
  | .lit digits => literal digits
  | .neg operand => (operand.eval assignment).map (Value.negate unit)
  | .not operand => (operand.eval assignment).map fun x => .ofBool (!x.isTrue unit)
  | .bin .and left right =>
      (left.eval assignment).bind fun x =>
        if x.isTrue unit then
          (right.eval assignment).map fun y => .ofBool (y.isTrue unit)
        else some (.ofBool false)
  | .bin .or left right =>
      (left.eval assignment).bind fun x =>
        if x.isTrue unit then some (.ofBool true)
        else (right.eval assignment).map fun y => .ofBool (y.isTrue unit)
  | .bin op left right =>
      (left.eval assignment).bind fun x =>
        (right.eval assignment).bind fun y => x.binary unit op y

end Expr

end Eval

/-! ## Types of expressions -/

def BinOp.type (op : BinOp) (left right : NumType) : NumType :=
  if op.isShift then left
  else if op.isCompare || op = .and || op = .or then .int .int
  else left.join right

def Expr.type (declared : List Char → ScalarType) : Expr → NumType
  | .var name => (declared name).promote
  | .lit digits => ((@literal Unit digits).map Value.type).getD (.int .int)
  | .neg operand => operand.type declared
  | .not _ => .int .int
  | .bin op left right => op.type (left.type declared) (right.type declared)

section Types

variable {F : Type} (unit : FloatUnit F)

/-- Every variable holds a value of its type. -/
def assign {declared : List Char → ScalarType} (stored : ∀ name, (declared name).Stored F)
    (name : List Char) : Value F :=
  (declared name).load (stored name)

theorem ScalarType.load_type (type : ScalarType) (stored : type.Stored F) :
    (type.load stored).type = type.promote := by
  cases type <;> rfl

theorem literal_type {digits : List Char} {value : Value F} (reads : literal digits = some value) :
    ((@literal Unit digits).map Value.type).getD (.int .int) = value.type := by
  have fitting (n : Nat) (types : List IntType) (found : firstFitting n types = some value) :
      ((@firstFitting Unit n types).map Value.type).getD (.int .int) = value.type := by
    unfold firstFitting at found ⊢
    obtain ⟨type, here, rfl⟩ := Option.map_eq_some_iff.mp found
    simp [here, Value.type]
  unfold literal at reads ⊢
  split at reads <;> exact fitting _ _ reads

@[simp] theorem Value.ofBool_type (bit : Bool) : (ofBool bit : Value F).type = .int .int := rfl

theorem Value.binaryInt_type {op : BinOp} {first second : IntType} {x : BitVec first.width}
    {y : BitVec second.width} {value : Value F} (strict : op ≠ .and ∧ op ≠ .or)
    (computes : binaryInt op x y = some value) :
    value.type = op.type (.int first) (.int second) := by
  unfold binaryInt at computes
  unfold BinOp.type
  split at computes
  · obtain rfl := Option.some.inj computes
    simp_all [Value.type]
  · split at computes
    · obtain rfl := Option.some.inj computes
      simp_all
    · obtain ⟨bits, -, rfl⟩ := Option.map_eq_some_iff.mp computes
      simp_all [Value.type, NumType.join]

theorem Value.binaryFloat_type {op : BinOp} {double : Bool} {x y : F} {value : Value F}
    {left right : NumType} (strict : op ≠ .and ∧ op ≠ .or)
    (joined : left.join right = .float double)
    (computes : binaryFloat unit op double x y = some value) :
    value.type = op.type left right := by
  unfold binaryFloat at computes
  unfold BinOp.type
  split at computes
  · contradiction
  · split at computes
    · obtain rfl := Option.some.inj computes
      simp_all
    · obtain ⟨result, -, rfl⟩ := Option.map_eq_some_iff.mp computes
      simp_all [Value.type]

theorem Value.binary_type {op : BinOp} {left right value : Value F} (strict : op ≠ .and ∧ op ≠ .or)
    (computes : left.binary unit op right = some value) :
    value.type = op.type left.type right.type := by
  cases left with
  | int first x =>
      cases right with
      | int second y => exact binaryInt_type strict computes
      | float double y => exact binaryFloat_type unit strict (by simp [NumType.join, type, isDouble]) computes
  | float double x =>
      cases right with
      | int second y => exact binaryFloat_type unit strict (by simp [NumType.join, type, isDouble]) computes
      | float other y => exact binaryFloat_type unit strict (by simp [NumType.join, type, isDouble]) computes

theorem Expr.eval_strict (assignment : List Char → Value F) {op : BinOp}
    (strict : op ≠ .and ∧ op ≠ .or) (left right : Expr) :
    (Expr.bin op left right).eval unit assignment =
      (left.eval unit assignment).bind fun x =>
        (right.eval unit assignment).bind fun y => x.binary unit op y := by
  cases op <;> simp_all [Expr.eval]

theorem Expr.eval_logic_type {assignment : List Char → Value F} {op : BinOp}
    (logic : op = .and ∨ op = .or) {left right : Expr} {value : Value F}
    (computes : (Expr.bin op left right).eval unit assignment = some value) :
    value.type = .int .int := by
  rcases logic with rfl | rfl
  · simp only [Expr.eval] at computes
    obtain ⟨x, -, rest⟩ := Option.bind_eq_some_iff.mp computes
    split at rest
    · obtain ⟨y, -, rfl⟩ := Option.map_eq_some_iff.mp rest
      rfl
    · exact Option.some.inj rest ▸ rfl
  · simp only [Expr.eval] at computes
    obtain ⟨x, -, rest⟩ := Option.bind_eq_some_iff.mp computes
    split at rest
    · exact Option.some.inj rest ▸ rfl
    · obtain ⟨y, -, rfl⟩ := Option.map_eq_some_iff.mp rest
      rfl

theorem Expr.eval_type {declared : List Char → ScalarType}
    (stored : ∀ name, (declared name).Stored F) (expr : Expr) {value : Value F}
    (computes : expr.eval unit (assign stored) = some value) :
    value.type = expr.type declared := by
  induction expr generalizing value with
  | var name =>
      obtain rfl := Option.some.inj computes
      exact ScalarType.load_type _ _
  | lit digits => exact (literal_type computes).symm
  | neg operand ih =>
      obtain ⟨inner, here, rfl⟩ := Option.map_eq_some_iff.mp computes
      rw [Expr.type, ← ih here]
      cases inner <;> rfl
  | not operand ih =>
      obtain ⟨inner, here, rfl⟩ := Option.map_eq_some_iff.mp computes
      rfl
  | bin op left right ihLeft ihRight =>
      by_cases logic : op = .and ∨ op = .or
      · rw [Expr.eval_logic_type unit logic computes]
        rcases logic with rfl | rfl <;> rfl
      · have strict := not_or.mp logic
        rw [Expr.eval_strict unit _ strict] at computes
        obtain ⟨x, first, rest⟩ := Option.bind_eq_some_iff.mp computes
        obtain ⟨y, second, result⟩ := Option.bind_eq_some_iff.mp rest
        rw [Expr.type, ← ihLeft first, ← ihRight second]
        exact Value.binary_type unit strict result

end Types

/-! ## Regrouping -/

/-- `x op (y op z)` has the value of `(x op y) op z` for all operands of these types. -/
def BinOp.Regroups (op : BinOp) (x y z : NumType) : Bool :=
  match op, x, y, z with
  | .and, _, _, _ | .or, _, _, _ => true
  | .mul, .int x, .int y, .int z | .add, .int x, .int y, .int z
  | .bitXor, .int x, .int y, .int z =>
      let whole := (x.join y).join z
      (y.join z).width = whole.width && (x.join y).width = whole.width
  | _, _, _, _ => false

section Regrouping

variable {F : Type} (unit : FloatUnit F)

/-- An operator on bits that groups either way. -/
structure Associates (op : BinOp) where
  run : ∀ width, BitVec width → BitVec width → BitVec width
  arith : ∀ signed width (x y : BitVec width), op.arith signed x y = some (run width x y)
  assoc : ∀ width (x y z : BitVec width), run width x (run width y z) = run width (run width x y) z
  plain : op.isShift = false ∧ op.isCompare = false

def associatesMul : Associates .mul :=
  ⟨fun _ x y => x * y, fun _ _ _ _ => rfl, fun _ x y z => (BitVec.mul_assoc x y z).symm, rfl, rfl⟩

def associatesAdd : Associates .add :=
  ⟨fun _ x y => x + y, fun _ _ _ _ => rfl, fun _ x y z => (BitVec.add_assoc x y z).symm, rfl, rfl⟩

def associatesXor : Associates .bitXor :=
  ⟨fun _ x y => x ^^^ y, fun _ _ _ _ => rfl, fun _ x y z => (BitVec.xor_assoc x y z).symm,
    rfl, rfl⟩

theorem Associates.binary {op : BinOp} (ops : Associates op) {first second : IntType}
    (x : BitVec first.width) (y : BitVec second.width) :
    (Value.int first x).binary unit op (.int second y) =
      some (.int (first.join second)
        (ops.run _ ((first.join second).convert x) ((first.join second).convert y))) := by
  simp [Value.binary, Value.binaryInt, ops.plain, ops.arith]

theorem Associates.regroup {op : BinOp} (ops : Associates op) {first second third : IntType}
    (x : BitVec first.width) (y : BitVec second.width) (z : BitVec third.width)
    (right : (second.join third).width = ((first.join second).join third).width)
    (left : (first.join second).width = ((first.join second).join third).width) :
    ((Value.int second y).binary unit op (.int third z)).bind
        (fun inner => (Value.int first x).binary unit op inner) =
      ((Value.int first x).binary unit op (.int second y)).bind
        (fun inner => inner.binary unit op (.int third z)) := by
  simp only [Associates.binary unit ops, Option.bind_some, Option.some.injEq]
  cases first <;> cases second <;> cases third <;>
    first
      | (exfalso; revert right left; decide)
      | simp [IntType.join, IntType.rank, IntType.width, IntType.convert, IntType.toInt,
          IntType.signed, ops.assoc]

theorem Value.binary_regroup {op : BinOp} (strict : op ≠ .and ∧ op ≠ .or) (x y z : Value F)
    (regroups : op.Regroups x.type y.type z.type) :
    (y.binary unit op z).bind (fun inner => x.binary unit op inner) =
      (x.binary unit op y).bind (fun inner => inner.binary unit op z) := by
  cases x with
  | float double x => cases op <;> simp_all [BinOp.Regroups, Value.type]
  | int first x =>
      cases y with
      | float double y => cases op <;> simp_all [BinOp.Regroups, Value.type]
      | int second y =>
          cases z with
          | float double z => cases op <;> simp_all [BinOp.Regroups, Value.type]
          | int third z =>
              cases op <;>
                simp only [BinOp.Regroups, Value.type, Bool.and_eq_true, decide_eq_true_eq,
                  Bool.false_eq_true, ne_eq, not_true_eq_false, false_and, and_false] at regroups strict
              case mul => exact associatesMul.regroup unit x y z regroups.1 regroups.2
              case add => exact associatesAdd.regroup unit x y z regroups.1 regroups.2
              case bitXor => exact associatesXor.regroup unit x y z regroups.1 regroups.2

@[simp] theorem Value.ofBool_isTrue (bit : Bool) : (ofBool bit : Value F).isTrue unit = bit := by
  cases bit <;> rfl

theorem Expr.eval_congr_left (assignment : List Char → Value F) (op : BinOp)
    {left other : Expr} (right : Expr)
    (same : left.eval unit assignment = other.eval unit assignment) :
    (Expr.bin op left right).eval unit assignment =
      (Expr.bin op other right).eval unit assignment := by
  cases op <;> simp [Expr.eval, same]

theorem Expr.eval_congr_right (assignment : List Char → Value F) (op : BinOp) (left : Expr)
    {right other : Expr} (same : right.eval unit assignment = other.eval unit assignment) :
    (Expr.bin op left right).eval unit assignment =
      (Expr.bin op left other).eval unit assignment := by
  cases op <;> simp [Expr.eval, same]

/-- The rule for an operator whose right operand is read into the chain on its left. -/
theorem Expr.eval_regroup {declared : List Char → ScalarType}
    (stored : ∀ name, (declared name).Stored F) {op : BinOp} (left middle right : Expr)
    (regroups : op.Regroups (left.type declared) (middle.type declared) (right.type declared)) :
    (Expr.bin op left (.bin op middle right)).eval unit (assign stored) =
      (Expr.bin op (.bin op left middle) right).eval unit (assign stored) := by
  by_cases logic : op = .and ∨ op = .or
  · rcases logic with rfl | rfl <;> simp only [Expr.eval] <;>
      cases left.eval unit (assign stored) with
      | none => rfl
      | some x =>
          cases middle.eval unit (assign stored) with
          | none => by_cases truth : x.isTrue unit <;> simp [truth]
          | some y =>
              by_cases truth : x.isTrue unit <;> by_cases other : y.isTrue unit <;>
                simp [truth, other, Function.comp_def]
  · have strict := not_or.mp logic
    simp only [Expr.eval_strict unit _ strict]
    cases first : left.eval unit (assign stored) with
    | none => rfl
    | some x =>
        cases second : middle.eval unit (assign stored) with
        | none => rfl
        | some y =>
            cases third : right.eval unit (assign stored) with
            | none => simp
            | some z =>
                have grouped := Value.binary_regroup unit strict x y z (by
                  rw [Expr.eval_type unit stored left first, Expr.eval_type unit stored middle second,
                    Expr.eval_type unit stored right third]
                  exact regroups)
                simpa using grouped

end Regrouping

end OpenCLDecompiler.Library.C
