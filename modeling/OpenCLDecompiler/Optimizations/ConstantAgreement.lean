import OpenCLDecompiler.Optimizations.ConstantFolding

/-!
# When folding two constants is right

For each operator the numbers on which Python and C agree, and from this the operands whose
folded constant denotes the result of C.
-/

namespace OpenCLDecompiler.ConstantFolding

open Casts Expressions Library Library.C Wrapping

/-! ## Agreement -/

/-- Python computes a value that denotes the one of C, where C gives one. -/
def Matches (inC : Option ℚ) (inPython : Option Value) : Prop :=
  ∀ result, inC = some result → ∃ value, inPython = some value ∧ value.Denotes result

theorem matches_some {result : ℚ} {value : Value} :
    Matches (some result) (some value) ↔ value.Denotes result := by
  simp [Matches]

theorem matches_none (inPython : Option Value) : Matches none inPython := by
  intro result absent
  cases absent

theorem not_matches_none (result : ℚ) : ¬Matches (some result) none := by
  intro same
  obtain ⟨value, absent, -⟩ := same result rfl
  cases absent

theorem denotes_wholeOrFloat (result number : ℚ) :
    (wholeOrFloat result).Denotes number ↔ result = number := by
  unfold wholeOrFloat
  split
  · rename_i whole
    rw [Value.Denotes, Rat.coe_int_num_of_den_eq_one whole]
  · rfl

/-- The two operations on integers. -/
def Agrees (type : IntegerType) (op : ExpressionOperationType) (a b : Int) : Prop :=
  Matches ((inC type op a b).map fun (result : Int) => (result : ℚ)) (evaluateOperation op a b)

theorem agrees_some {type : IntegerType} {op : ExpressionOperationType} {a b inPython result : Int}
    (python : evaluateOperation op a b = some (.int inPython))
    (c : inC type op a b = some result) : Agrees type op a b ↔ inPython = result := by
  unfold Agrees
  rw [python, c]
  exact matches_some.trans Int.cast_inj

theorem not_agrees {type : IntegerType} {op : ExpressionOperationType} {a b result : Int}
    (python : evaluateOperation op a b = none)
    (c : inC type op a b = some result) : ¬Agrees type op a b := by
  unfold Agrees
  rw [python, c]
  exact not_matches_none _

theorem agrees_none {type : IntegerType} {op : ExpressionOperationType} {a b : Int}
    (c : inC type op a b = none) : Agrees type op a b := by
  unfold Agrees
  rw [c]
  exact matches_none _

theorem width_pos (type : IntegerType) : 0 < type.width :=
  Nat.mul_pos type.bytes_pos (by decide)

theorem inType_eq_self_iff (type : IntegerType) (number : Int) :
    number = inType type number ↔ InRange type number :=
  eq_comm.trans (wrap_eq_self_iff (width_pos type) type.isSigned number)

theorem ofInt_eq_zero_iff (type : IntegerType) (number : Int) :
    BitVec.ofInt type.width number = BitVec.ofNat type.width 0 ↔ inType type number = 0 := by
  have zero : value type.isSigned (BitVec.ofNat type.width 0) = 0 := by cases type.isSigned <;> simp [value]
  unfold inType wrap
  rw [← zero, value_inj]

theorem agrees_truth {type : IntegerType} {op : ExpressionOperationType} {a b : Int}
    {inPython inCType : Prop} [Decidable inPython] [Decidable inCType]
    (python : evaluateOperation op a b = some (ofBool inPython))
    (c : inC type op a b = some (if inCType then 1 else 0)) :
    Agrees type op a b ↔ (inPython ↔ inCType) := by
  refine (agrees_some python c).trans ?_
  by_cases first : inPython <;> by_cases second : inCType <;> simp [first, second]

section Operators

variable (type : IntegerType) (a b : Int)

theorem agrees_plus : Agrees type .plus a b ↔ InRange type (a + b) := by
  have c : inC type .plus a b = some (inType type (a + b)) :=
    congrArg some (value_add a b type.isSigned)
  rw [agrees_some rfl c, inType_eq_self_iff]

theorem agrees_minus : Agrees type .minus a b ↔ InRange type (a - b) := by
  have c : inC type .minus a b = some (inType type (a - b)) :=
    congrArg some (value_sub a b type.isSigned)
  rw [agrees_some rfl c, inType_eq_self_iff]

theorem agrees_mul : Agrees type .mul a b ↔ InRange type (a * b) := by
  have c : inC type .mul a b = some (inType type (a * b)) :=
    congrArg some (value_mul a b type.isSigned)
  rw [agrees_some rfl c, inType_eq_self_iff]

theorem agrees_bitwiseAnd : Agrees type .bitwiseAnd a b ↔ InRange type (Int.land a b) := by
  have c : inC type .bitwiseAnd a b = some (inType type (Int.land a b)) :=
    congrArg (some ∘ value type.isSigned) (ofInt_land a b).symm
  rw [agrees_some rfl c, inType_eq_self_iff]

theorem agrees_bitwiseOr : Agrees type .bitwiseOr a b ↔ InRange type (Int.lor a b) := by
  have c : inC type .bitwiseOr a b = some (inType type (Int.lor a b)) :=
    congrArg (some ∘ value type.isSigned) (ofInt_lor a b).symm
  rw [agrees_some rfl c, inType_eq_self_iff]

theorem agrees_xor : Agrees type .xor a b ↔ InRange type (Int.xor a b) := by
  have c : inC type .xor a b = some (inType type (Int.xor a b)) :=
    congrArg (some ∘ value type.isSigned) (ofInt_xor a b).symm
  rw [agrees_some rfl c, inType_eq_self_iff]

/-! ### Comparisons -/

theorem agrees_eq : Agrees type .eq a b ↔ (a = b ↔ inType type a = inType type b) := by
  have c : inC type .eq a b = some (if inType type a = inType type b then 1 else 0) := by
    simp only [inType, wrap, value_inj]
    change some (if decide (_ = _) = true then (1 : Int) else 0) = _
    simp only [decide_eq_true_eq]
  exact agrees_truth rfl c

theorem agrees_ne : Agrees type .ne a b ↔ (a = b ↔ inType type a = inType type b) := by
  have c : inC type .ne a b = some (if inType type a ≠ inType type b then 1 else 0) := by
    simp only [inType, wrap, ne_eq, value_inj]
    change some (if decide (_ ≠ _) = true then (1 : Int) else 0) = _
    simp only [decide_eq_true_eq, ne_eq]
  exact (agrees_truth rfl c).trans not_iff_not

theorem agrees_lg : Agrees type .lg a b ↔ (a = b ↔ inType type a = inType type b) := by
  have c : inC type .lg a b = some (if inType type a ≠ inType type b then 1 else 0) :=
    congrArg some (if_congr (decide_eq_true_iff.trans value_inj.not.symm) rfl rfl)
  refine (agrees_truth rfl c).trans ?_
  rw [or_comm, ← ne_iff_lt_or_gt]
  exact not_iff_not

theorem agrees_lt : Agrees type .lt a b ↔ (a < b ↔ inType type a < inType type b) := by
  have c : inC type .lt a b = some (if inType type a < inType type b then 1 else 0) := by
    simp only [inType, wrap, value_lt_iff]
    rfl
  exact agrees_truth rfl c

theorem agrees_le : Agrees type .le a b ↔ (a ≤ b ↔ inType type a ≤ inType type b) := by
  have c : inC type .le a b = some (if inType type a ≤ inType type b then 1 else 0) := by
    simp only [inType, wrap, value_le_iff]
    rfl
  exact agrees_truth rfl c

theorem agrees_gt : Agrees type .gt a b ↔ (a ≤ b ↔ inType type a ≤ inType type b) := by
  have c : inC type .gt a b = some (if inType type a > inType type b then 1 else 0) := by
    simp only [inType, wrap, gt_iff_lt, value_lt_iff]
    rfl
  refine (agrees_truth rfl c).trans ?_
  rw [gt_iff_lt, gt_iff_lt, ← not_le, ← not_le]
  exact not_iff_not

theorem agrees_ge : Agrees type .ge a b ↔ (a < b ↔ inType type a < inType type b) := by
  have c : inC type .ge a b = some (if inType type a ≥ inType type b then 1 else 0) := by
    simp only [inType, wrap, ge_iff_le, value_le_iff]
    rfl
  refine (agrees_truth rfl c).trans ?_
  rw [ge_iff_le, ge_iff_le, ← not_lt, ← not_lt]
  exact not_iff_not

theorem agrees_min : Agrees type .min a b ↔ min a b = min (inType type a) (inType type b) := by
  have c : inC type .min a b = some (min (inType type a) (inType type b)) := by
    rw [min_comm, min_def_lt]
    simp only [inType, wrap, value_lt_iff]
    exact congrArg some (apply_ite _ _ _ _)
  exact agrees_some rfl c

/-! ### Truth -/

theorem agrees_not : Agrees type .not a b ↔ (a = 0 ↔ inType type a = 0) := by
  have c : inC type .not a b = some (if inType type a = 0 then 1 else 0) :=
    congrArg some (if_congr (decide_eq_true_iff.trans (ofInt_eq_zero_iff type a)) rfl rfl)
  exact agrees_truth rfl c

theorem inType_zero : inType type 0 = 0 := by
  rw [← ofInt_eq_zero_iff]
  exact BitVec.ofInt_natCast ..

theorem inType_one : inType type 1 ≠ 0 := by
  rw [ne_eq, ← ofInt_eq_zero_iff]
  intro zero
  have one : (BitVec.ofInt type.width 1).toNat = 1 % 2 ^ type.width := by
    rw [← BitVec.toNat_ofNat]
    exact congrArg _ (BitVec.ofInt_natCast ..)
  rw [zero, Nat.one_mod_two_pow_eq_one.mpr (width_pos type)] at one
  exact absurd one (by simp)

theorem agrees_and :
    Agrees type .and a b ↔ a = 0 ∨ b = 0 ∨ (b = 1 ∧ inType type a ≠ 0) := by
  have c : inC type .and a b = some (if inType type a ≠ 0 ∧ inType type b ≠ 0 then 1 else 0) :=
    congrArg some (if_congr (decide_eq_true_iff.trans
      (and_congr (ofInt_eq_zero_iff type a).not (ofInt_eq_zero_iff type b).not)) rfl rfl)
  rw [agrees_some rfl c]
  have one := inType_one type
  have zero := inType_zero type
  by_cases leftZero : a = 0
  · simp [leftZero, zero]
  by_cases rightZero : b = 0
  · simp [leftZero, rightZero, zero]
  rw [if_pos leftZero]
  constructor
  · intro same
    split at same
    · rename_i holds
      exact .inr (.inr ⟨same, holds.left⟩)
    · exact absurd same rightZero
  · rintro (isZero | isZero | ⟨rfl, leftSome⟩)
    · exact absurd isZero leftZero
    · exact absurd isZero rightZero
    · rw [if_pos ⟨leftSome, one⟩]

theorem agrees_or : Agrees type .or a b ↔ a = 1 ∨ (a = 0 ∧ (b = 0 ∨ b = 1)) := by
  have c : inC type .or a b = some (if inType type a ≠ 0 ∨ inType type b ≠ 0 then 1 else 0) :=
    congrArg some (if_congr (decide_eq_true_iff.trans
      (or_congr (ofInt_eq_zero_iff type a).not (ofInt_eq_zero_iff type b).not)) rfl rfl)
  rw [agrees_some rfl c]
  have one := inType_one type
  have zero := inType_zero type
  constructor
  · intro same
    by_cases leftZero : a = 0
    · rw [if_neg (not_not.mpr leftZero)] at same
      split at same
      · exact .inr ⟨leftZero, .inr same⟩
      · exact .inr ⟨leftZero, .inl same⟩
    · rw [if_pos leftZero] at same
      split at same
      · exact .inl same
      · exact absurd same leftZero
  · rintro (rfl | ⟨rfl, rfl | rfl⟩)
    · simp [one]
    · simp [zero]
    · simp [zero, one]

/-! ### Division and shifts -/

theorem inC_div : inC type .div a b =
    if inType type b = 0 then none
    else some (inType type ((inType type a).tdiv (inType type b))) := by
  have quotient := value_div type.isSigned (BitVec.ofInt type.width a) (BitVec.ofInt type.width b)
  exact (apply_ite (Option.map (value type.isSigned)) _ _ _).trans
    (if_congr (ofInt_eq_zero_iff type b) rfl (congrArg some quotient))

theorem inC_rem : inC type .rem a b =
    if inType type b = 0 then none else some ((inType type a).tmod (inType type b)) := by
  have remainder := value_rem type.isSigned (BitVec.ofInt type.width a) (BitVec.ofInt type.width b)
  exact (apply_ite (Option.map (value type.isSigned)) _ _ _).trans
    (if_congr (ofInt_eq_zero_iff type b) rfl (congrArg some remainder))

theorem agrees_div : Agrees type .div a b ↔ inType type b = 0 ∨
    double ((a : ℚ) / b) = some ((inType type ((inType type a).tdiv (inType type b)) : Int) : ℚ) := by
  have c := inC_div type a b
  by_cases zero : inType type b = 0
  · rw [if_pos zero] at c
    exact iff_of_true (agrees_none c) (.inl zero)
  rw [if_neg zero] at c
  have some' : b ≠ 0 := by
    rintro rfl
    exact zero (inType_zero type)
  have python : evaluateOperation .div a b = (double ((a : ℚ) / b)).map wholeOrFloat := if_neg some'
  rw [or_iff_right zero, Agrees, c, python]
  cases double ((a : ℚ) / b) with
  | none => exact iff_of_false (not_matches_none _) (by simp)
  | some result =>
      rw [Option.some.injEq]
      exact matches_some.trans (denotes_wholeOrFloat _ _)

theorem agrees_rem : Agrees type .rem a b ↔
    inType type b = 0 ∨ a.fmod b = (inType type a).tmod (inType type b) := by
  have c := inC_rem type a b
  by_cases zero : inType type b = 0
  · rw [if_pos zero] at c
    exact iff_of_true (agrees_none c) (.inl zero)
  rw [if_neg zero] at c
  have some' : b ≠ 0 := by
    rintro rfl
    exact zero (inType_zero type)
  have python : evaluateOperation .rem a b = some (.int (a.fmod b)) := if_neg some'
  rw [or_iff_right zero]
  exact agrees_some python c

/-- A number that is shifted past the width is out of range. -/
theorem not_inRange_of_width_le {number : Int} {places : Nat} (some' : number ≠ 0)
    (far : type.width ≤ places) : ¬InRange type (number * 2 ^ places) := by
  have reach : (2 : Int) ^ type.width ≤ |number * 2 ^ places| := by
    rw [abs_mul, abs_of_pos (pow_pos (by norm_num : (0 : Int) < 2) places)]
    calc (2 : Int) ^ type.width ≤ 2 ^ places := pow_le_pow_right₀ (by norm_num) far
      _ ≤ |number| * 2 ^ places :=
        le_mul_of_one_le_left (by positivity) (Int.one_le_abs some')
  have halves := two_mul_half (width_pos type)
  have positive : (0 : Int) < 2 ^ (type.width - 1) := by positivity
  unfold InRange Fits
  rcases abs_cases (number * 2 ^ places) with ⟨same, -⟩ | ⟨same, -⟩ <;> rw [same] at reach <;>
    split <;> omega

theorem agrees_lshift : Agrees type .lshift a b ↔ 0 ≤ b ∧ InRange type (a * 2 ^ b.toNat) := by
  have c : inC type .lshift a b = some (inType type (a * 2 ^ (b % type.width).toNat)) :=
    congrArg some (value_shiftLeft a type.isSigned _)
  by_cases negative : b < 0
  · have python : evaluateOperation .lshift a b = none := if_pos negative
    exact iff_of_false (not_agrees python c) fun holds => negative.not_ge holds.left
  have python : evaluateOperation .lshift a b = some (.int (a * 2 ^ b.toNat)) := if_neg negative
  rw [and_iff_right (not_lt.mp negative), agrees_some python c]
  by_cases near : b < type.width
  · rw [Int.emod_eq_of_lt (not_lt.mp negative) near, inType_eq_self_iff]
  by_cases zero : a = 0
  · rw [zero, zero_mul, zero_mul, inType_eq_self_iff]
  have far : type.width ≤ b.toNat := by omega
  have outside := not_inRange_of_width_le type zero far
  refine iff_of_false (fun same => outside ?_) outside
  rw [same]
  exact fits_value type.isSigned _

theorem agrees_rshift : Agrees type .rshift a b ↔
    0 ≤ b ∧ a / 2 ^ b.toNat = inType type a / 2 ^ (b % type.width).toNat := by
  have c : inC type .rshift a b = some (inType type a / 2 ^ (b % type.width).toNat) :=
    congrArg some (value_shiftRight type.isSigned (BitVec.ofInt type.width a) _)
  by_cases negative : b < 0
  · have python : evaluateOperation .rshift a b = none := if_pos negative
    exact iff_of_false (not_agrees python c) fun holds => negative.not_ge holds.left
  have python : evaluateOperation .rshift a b = some (.int (a / 2 ^ b.toNat)) := if_neg negative
  rw [and_iff_right (not_lt.mp negative)]
  exact agrees_some python c

end Operators

/-- The operation on integers is right exactly when the table says so. -/
theorem agrees_iff (type : IntegerType) (op : ExpressionOperationType) (a b : Int) :
    Agrees type op a b ↔ Exact type op a b := by
  cases op with
  | plus => exact agrees_plus type a b
  | minus => exact agrees_minus type a b
  | mul => exact agrees_mul type a b
  | div => exact agrees_div type a b
  | rem => exact agrees_rem type a b
  | lshift => exact agrees_lshift type a b
  | rshift => exact agrees_rshift type a b
  | eq => exact agrees_eq type a b
  | ne => exact agrees_ne type a b
  | lt => exact agrees_lt type a b
  | le => exact agrees_le type a b
  | gt => exact agrees_gt type a b
  | ge => exact agrees_ge type a b
  | lg => exact agrees_lg type a b
  | not => exact agrees_not type a b
  | and => exact agrees_and type a b
  | or => exact agrees_or type a b
  | xor => exact agrees_xor type a b
  | bitwiseAnd => exact agrees_bitwiseAnd type a b
  | bitwiseOr => exact agrees_bitwiseOr type a b
  | min => exact agrees_min type a b

/-! ## Doubles -/

section Doubles

variable (x y : ℚ) (a b : Int)

theorem matches_int {c : Option ℚ} (inPython : Int) :
    Matches c (some (.int inPython)) ↔ ∀ result, c = some result → result = (inPython : ℚ) := by
  simp [Matches, Value.Denotes, eq_comm]

theorem matches_truth {inPython inC : Prop} [Decidable inPython] [Decidable inC] :
    Matches (some (if decide inC = true then 1 else 0)) (some (ofBool inPython)) ↔
      (inPython ↔ inC) := by
  refine matches_some.trans ?_
  by_cases first : inPython <;> by_cases second : inC <;>
    simp [ofBool, Value.Denotes, first, second]

theorem matches_div : Matches (inDouble .div x y) (evaluateOperation .div a b) ↔
    ExactDouble .div x y a b := by
  by_cases zero : y = 0
  · have c : inDouble .div x y = none := if_pos zero
    rw [c]
    exact iff_of_true (matches_none _) fun some' => absurd zero some'
  have c : inDouble .div x y = double (x / y) := if_neg zero
  rw [c]
  have expected : ExactDouble .div x y a b ↔ ∀ result, double (x / y) = some result →
      b ≠ 0 ∧ double ((a : ℚ) / b) = some result := forall_prop_of_true zero
  refine Iff.trans ?_ expected.symm
  refine forall₂_congr fun result _ => ?_
  by_cases byZero : b = 0
  · have python : evaluateOperation .div a b = none := if_pos byZero
    rw [python]
    simp [byZero]
  have python : evaluateOperation .div a b = (double ((a : ℚ) / b)).map wholeOrFloat :=
    if_neg byZero
  rw [python, and_iff_right byZero]
  cases double ((a : ℚ) / b) <;> simp [denotes_wholeOrFloat]

theorem matches_and : Matches (inDouble .and x y) (evaluateOperation .and a b) ↔
    ExactDouble .and x y a b := by
  have bothTrue : (decide (x ≠ 0 ∧ y ≠ 0) = true) ↔ ¬(x = 0 ∨ y = 0) :=
    decide_eq_true_iff.trans (by tauto)
  have c : inDouble .and x y = some (if x = 0 ∨ y = 0 then 0 else 1) := by
    rw [← ite_not, ← if_congr bothTrue rfl rfl]
    rfl
  rw [c]
  refine matches_some.trans ?_
  change (((if a ≠ 0 then b else a : Int)) : ℚ) = _ ↔
    (a = 0 ∨ b = 0) ∧ (x = 0 ∨ y = 0) ∨ a ≠ 0 ∧ b = 1 ∧ x ≠ 0 ∧ y ≠ 0
  by_cases first : a = 0 <;> by_cases second : x = 0 <;> by_cases third : y = 0 <;>
    simp [first, second, third]

theorem matches_or : Matches (inDouble .or x y) (evaluateOperation .or a b) ↔
    ExactDouble .or x y a b := by
  have c : inDouble .or x y = some (if x ≠ 0 ∨ y ≠ 0 then 1 else 0) :=
    congrArg some (if_congr decide_eq_true_iff rfl rfl)
  rw [c]
  refine matches_some.trans ?_
  change (((if a ≠ 0 then a else b : Int)) : ℚ) = _ ↔
    a = 0 ∧ b = 0 ∧ x = 0 ∧ y = 0 ∨ (a = 1 ∨ (a = 0 ∧ b = 1)) ∧ (x ≠ 0 ∨ y ≠ 0)
  by_cases first : a = 0 <;> by_cases second : x = 0 <;> by_cases third : y = 0 <;>
    simp [first, second, third]

/-- The operation on doubles is right exactly when the table says so. -/
theorem matches_double_iff (op : ExpressionOperationType) :
    Matches (inDouble op x y) (evaluateOperation op a b) ↔ ExactDouble op x y a b := by
  cases op with
  | plus => exact matches_int (a + b)
  | minus => exact matches_int (a - b)
  | mul => exact matches_int (a * b)
  | div => exact matches_div x y a b
  | eq => exact matches_truth
  | ne => exact matches_truth.trans not_iff_not
  | lg =>
      refine matches_truth.trans ?_
      rw [or_comm, ← ne_iff_lt_or_gt]
      exact not_iff_not
  | lt => exact matches_truth
  | le => exact matches_truth
  | gt =>
      refine matches_truth.trans ?_
      rw [gt_iff_lt, gt_iff_lt, ← not_le, ← not_le]
      exact not_iff_not
  | ge =>
      refine matches_truth.trans ?_
      rw [ge_iff_le, ge_iff_le, ← not_lt, ← not_lt]
      exact not_iff_not
  | not => exact matches_truth
  | and => exact matches_and x y a b
  | or => exact matches_or x y a b
  | min => exact matches_some.trans eq_comm
  | rem | lshift | rshift | xor | bitwiseAnd | bitwiseOr =>
      exact iff_of_true (matches_none _) trivial

end Doubles

/-! ## Folding -/

/-- A type of doubles makes the common type one of floating numbers. -/
theorem getCommonType_floating (type : OpenCLTypes) {sizeBytes numberOfComponents : Nat} :
    ∃ size count, getCommonType (.floating sizeBytes numberOfComponents) type = .floating size count ∧
      getCommonType type (.floating sizeBytes numberOfComponents) = .floating size count := by
  cases type with
  | integer type =>
      by_cases same : type.size = sizeBytes * numberOfComponents
      · exact ⟨_, _, if_pos same, if_pos same⟩
      · exact ⟨_, _, if_neg same, if_neg same⟩
  | floating sizeBytes' numberOfComponents' =>
      refine ⟨_, _, rfl, ?_⟩
      rw [max_comm sizeBytes, max_comm numberOfComponents]
      rfl

/-- A result is no text. -/
theorem evaluateOperation_not_text {op : ExpressionOperationType} {a b : Int} {text : List Char} :
    evaluateOperation op a b ≠ some (.text text) := by
  intro same
  cases op with
  | div =>
      change (if b = 0 then none else (double ((a : ℚ) / b)).map wholeOrFloat) = _ at same
      split at same
      · cases same
      obtain ⟨result, -, isText⟩ := Option.map_eq_some_iff.mp same
      unfold wholeOrFloat at isText
      split at isText <;> cases isText
  | rem =>
      change (if b = 0 then none else some (Value.int _)) = _ at same
      split at same <;> cases same
  | lshift | rshift =>
      change (if b < 0 then none else some (Value.int _)) = _ at same
      split at same <;> cases same
  | _ => cases same

/-- The folded constant is the result of the operation. -/
theorem addOperation_node (op : ExpressionOperationType) (left right : Given)
    (leftHint rightHint : IntegerType) :
    addOperation op (left.node leftHint) (right.node rightHint) =
      (evaluateOperation op left.reading right.reading).map fun value =>
        ⟨value, getCommonType (left.node leftHint).hint (right.node rightHint).hint⟩ := by
  unfold addOperation
  rw [readInteger_node, readInteger_node]
  change (evaluateOperation op left.reading right.reading).bind _ = _
  cases result : evaluateOperation op left.reading right.reading with
  | none => rfl
  | some value =>
      cases value with
      | text text => exact absurd result evaluateOperation_not_text
      | int value => rfl
      | float value => rfl

theorem foldsRight_iff_matches (op : ExpressionOperationType) (left right : Given)
    (leftHint rightHint : IntegerType) :
    FoldsRight op left right leftHint rightHint ↔
      Matches (resultInC op left.number right.number
        (getCommonType (left.node leftHint).hint (right.node rightHint).hint))
        (evaluateOperation op left.reading right.reading) := by
  unfold FoldsRight Matches
  rw [addOperation_node]
  refine forall₂_congr fun result _ => ?_
  cases evaluateOperation op left.reading right.reading <;> simp

theorem common_of_scientific {left right : Given} (leftHint rightHint : IntegerType)
    (scientific : left.Scientific ∨ right.Scientific) :
    ∃ size count, getCommonType (left.node leftHint).hint (right.node rightHint).hint =
      .floating size count := by
  rcases scientific with isLeft | isRight
  · obtain ⟨size, count, common, -⟩ := getCommonType_floating (right.node rightHint).hint
    exact ⟨size, count, by rw [hint_node leftHint, if_pos isLeft, common]⟩
  · obtain ⟨size, count, -, common⟩ := getCommonType_floating (left.node leftHint).hint
    exact ⟨size, count, by rw [hint_node rightHint, if_pos isRight, common]⟩

theorem foldsRight_of_plain {op : ExpressionOperationType} {left right : Given}
    {leftHint rightHint : IntegerType} (plainLeft : ¬left.Scientific)
    (plainRight : ¬right.Scientific) :
    FoldsRight op left right leftHint rightHint ↔
      Exact (commonInteger leftHint rightHint) op left.number right.number := by
  rw [foldsRight_iff_matches, hint_node, hint_node, if_neg plainLeft, if_neg plainRight,
    reading_of_plain plainLeft, reading_of_plain plainRight]
  exact agrees_iff _ op _ _

theorem foldsRight_of_scientific {op : ExpressionOperationType} {left right : Given}
    {leftHint rightHint : IntegerType} (scientific : left.Scientific ∨ right.Scientific) :
    FoldsRight op left right leftHint rightHint ↔
      ∀ a b, double left.number = some a → double right.number = some b →
        ExactDouble op a b left.reading right.reading := by
  obtain ⟨size, count, common⟩ := common_of_scientific leftHint rightHint scientific
  rw [foldsRight_iff_matches, common]
  change Matches ((double left.number).bind fun x => (double right.number).bind fun y =>
    inDouble op x y) _ ↔ _
  cases double (left.number : ℚ) with
  | none => exact iff_of_true (matches_none _) fun _ _ absent => by cases absent
  | some x =>
      cases double (right.number : ℚ) with
      | none => exact iff_of_true (matches_none _) fun _ _ _ absent => by cases absent
      | some y =>
          refine (matches_double_iff x y _ _ op).trans ⟨?_, fun holds => holds x y rfl rfl⟩
          rintro holds _ _ ⟨⟩ ⟨⟩
          exact holds

def uint : IntegerType := ⟨4, false, 1, .tail _ (.tail _ (.head _)), .head _⟩

end OpenCLDecompiler.ConstantFolding
