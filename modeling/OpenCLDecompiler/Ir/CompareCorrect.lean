import OpenCLDecompiler.Expressions.Printing
import OpenCLDecompiler.Ir.Compare

/-!
# When the recorded condition is the comparison

Every comparison is lowered with its own relation, but all of them are written with `int`.
-/

namespace OpenCLDecompiler.Compare

open Library Library.C Wrapping

/-! ## Lowering -/

theorem split_setp (comparison : PtxComparison) (type : CompareType) :
    Text.split ['.'] (Opcode.setp comparison type).text =
      ["setp".toList, comparison.text, type.ptxText] := by
  have freeComparison : '.' ∉ comparison.text := by cases comparison <;> decide
  have freeType : '.' ∉ type.ptxText := by cases type <;> decide
  have joined : ['.'].intercalate ["setp".toList, comparison.text, type.ptxText] =
      "setp".toList ++ '.' :: (comparison.text ++ '.' :: type.ptxText) := by
    simp [List.intercalate_cons_cons]
  have spelled : (Opcode.setp comparison type).text =
      "setp".toList ++ '.' :: (comparison.text ++ '.' :: type.ptxText) := rfl
  rw [spelled, ← joined]
  exact Text.split_letter (List.cons_ne_nil _ _) (by simp [freeComparison, freeType])

/-- The parts of an opcode of AMD. -/
theorem split_amd {start second : Text} (free : '_' ∉ start) (free' : '_' ∉ second)
    (comparison : AmdComparison) (type : CompareType) :
    Text.split ['_'] (start ++ '_' :: (second ++ '_' :: (comparison.text ++ '_' :: type.amdText))) =
      [start, second, comparison.text, type.amdText] := by
  have freeComparison : '_' ∉ comparison.text := by cases comparison <;> decide
  have freeType : '_' ∉ type.amdText := by cases type <;> decide
  have joined : ['_'].intercalate [start, second, comparison.text, type.amdText] =
      start ++ '_' :: (second ++ '_' :: (comparison.text ++ '_' :: type.amdText)) := by
    simp [List.intercalate_cons_cons]
  rw [← joined]
  exact Text.split_letter (List.cons_ne_nil _ _)
    (by simp [free, free', freeComparison, freeType])

def CompareType.irType : CompareType → IRType
  | u32 => .u32 | i32 => .i32 | u64 => .u64 | i64 => .i64

theorem irType_allowed (type : CompareType) : type.irType ∈ allowedTypes := by
  cases type <;> decide

theorem makeCompare_eq {comparison : Option Text} {opType : Option IRType} {relation : Relation}
    {type : CompareType} (name : Text) (named : comparison = some name)
    (relates : compareClasses.lookup name = some relation) (typed : opType = some type.irType)
    (destination : Text) (operand1 operand2 : Operand) :
    makeCompare comparison opType destination operand1 operand2 =
      some ⟨relation, destination, operand1, operand2, type.irType⟩ := by
  unfold makeCompare
  rw [named, Option.bind_eq_bind, Option.bind_some, relates, typed]
  exact if_pos (irType_allowed type)

theorem makeCompare_amd (start second : Text) (free : '_' ∉ start) (free' : '_' ∉ second)
    (comparison : AmdComparison) (type : CompareType) {opcode : Text}
    (spelled : opcode =
      start ++ '_' :: (second ++ '_' :: (comparison.text ++ '_' :: type.amdText)))
    (destination : Text) (operand1 operand2 : Operand) :
    makeCompare (parseCompareOpcode opcode) (some (parseCompareType opcode)) destination
      operand1 operand2 =
        some ⟨comparison.relation, destination, operand1, operand2, type.irType⟩ := by
  have parts := split_amd free free' comparison type
  refine makeCompare_eq comparison.text ?_ ?_ ?_ destination operand1 operand2
  · unfold parseCompareOpcode
    rw [spelled, parts]
    cases comparison <;> rfl
  · cases comparison <;> rfl
  · unfold parseCompareType
    rw [spelled, parts]
    cases type <;> rfl

/-- Every opcode is read as it is written. -/
theorem lower_line (opcode : Opcode) (destination : Text) (operand1 operand2 : Operand) :
    ∃ target, lower ⟨opcode.text, destination, operand1, operand2⟩ =
      some ⟨opcode.relation, target, operand1, operand2, opcode.type.irType⟩ := by
  cases opcode with
  | setp comparison type =>
      refine ⟨destination, ?_⟩
      refine makeCompare_eq ((setpComparisons.lookup comparison.text).getD comparison.text)
        ?_ ?_ ?_ destination operand1 operand2
      · unfold parseSetpOpcode
        rw [split_setp]
      · cases comparison <;> rfl
      · unfold parsePtxOpcodeType
        rw [split_setp]
        cases type <;> rfl
  | scalar comparison type =>
      exact ⟨_, makeCompare_amd ['s'] "cmp".toList (by decide) (by decide)
        comparison type rfl ..⟩
  | vector comparison type =>
      exact ⟨_, makeCompare_amd ['v'] "cmp".toList (by decide) (by decide)
        comparison type rfl ..⟩
  | masked comparison type =>
      exact ⟨_, makeCompare_amd ['v'] "cmpx".toList (by decide) (by decide)
        comparison type rfl ..⟩

theorem recorded_line (opcode : Opcode) (destination : Text) (operand1 operand2 : Operand) :
    recorded ⟨opcode.text, destination, operand1, operand2⟩ =
      some ⟨opcode.relation, changeValsForMakeOp operand1, changeValsForMakeOp operand2⟩ := by
  obtain ⟨target, lowers⟩ := lower_line opcode destination operand1 operand2
  rw [recorded, lowers]
  rfl

/-! ## Casts -/

theorem unsigned_sign (negative : Bool) {text : Text}
    (plain : ∀ c ∈ text.head?, c ≠ '-' ∧ c ≠ '+') : unsigned (sign negative ++ text) = text := by
  cases negative with
  | true => rfl
  | false =>
      refine if_neg fun signed => ?_
      rcases signed with minus | plus
      · exact (plain _ minus).left rfl
      · exact (plain _ plus).right rfl

theorem isNumber_decimal (negative : Bool) (number : Nat) :
    isNumber (sign negative ++ Nat.toDigits 10 number) = true := by
  have digits : ∀ c ∈ Nat.toDigits 10 number, c.isDigit = true := fun c inside =>
    Nat.isDigit_of_mem_toDigits (by decide) (by decide) inside
  have plain : ∀ c ∈ (Nat.toDigits 10 number).head?, c ≠ '-' ∧ c ≠ '+' := by
    intro c first
    have digit := digits c (List.mem_of_mem_head? first)
    constructor <;> rintro rfl <;> cases digit
  unfold isNumber
  rw [unsigned_sign negative plain, List.takeWhile_eq_self_iff.mpr digits,
    List.dropWhile_eq_nil_iff.mpr digits]
  simp [Nat.toDigits_ne_nil]

theorem isHexText_toDigits (number : Nat) :
    Casts.isHexText ('0' :: 'x' :: Nat.toDigits 16 number) = true := by
  have sixteen : 1 < 16 := by decide
  have letters := PyNumbers.mem_toDigits sixteen
    (fun c => (c.isDigit || (decide ('a' ≤ c) && decide (c ≤ 'f'))) = true) (by decide) number
  change (!(Nat.toDigits 16 number).isEmpty && (Nat.toDigits 16 number).all _) = true
  rw [Bool.and_eq_true, List.all_eq_true]
  exact ⟨by simp [Nat.toDigits_ne_nil], letters⟩

theorem isHexText_digits {value : Text} (digits : value.all Char.isDigit = true) :
    Casts.isHexText value = false := by
  unfold Casts.isHexText
  split
  · exact absurd (List.all_eq_true.mp digits 'x' (by simp)) (by decide)
  · rfl

/-- An unsigned content is always cast. -/
theorem needsCast_unsigned (value : Text) {fromType : DataType}
    (unsignedType : fromType.isSigned = false) : checkValueNeedsCast value (some fromType) = true := by
  cases fromType with
  | i | char | short => cases unsignedType
  | u width | b width =>
      change (_ || !(!value.isEmpty && value.all Char.isDigit) || !Casts.isHexText value || _) = true
      cases digits : value.all Char.isDigit with
      | false => simp
      | true => simp [isHexText_digits digits]

/-- A constant is cast when it is no number for the patterns. -/
theorem needsCast_constant (content : Content) (typed) :
    checkValueNeedsCast content.text none = true ↔ (Operand.mk content none typed).IsCast := by
  cases content with
  | expression text type number noNumber integer fits =>
      obtain ⟨noPlain, noHex, noScientific⟩ := noNumber
      refine iff_of_true ?_ trivial
      change (if isNumber text then false else !Casts.isHexText text && !isScientificNumber text) = true
      rw [noPlain, noHex, noScientific]
      rfl
  | decimal negative number =>
      refine iff_of_false ?_ id
      change ¬(if isNumber (sign negative ++ Nat.toDigits 10 number) then false else _) = true
      rw [isNumber_decimal]
      exact Bool.false_ne_true
  | hexadecimal negative number =>
      cases negative with
      | true => exact iff_of_true rfl trivial
      | false =>
          refine iff_of_false ?_ id
          change ¬(!Casts.isHexText ('0' :: 'x' :: Nat.toDigits 16 number) && _) = true
          rw [isHexText_toDigits]
          exact Bool.false_ne_true

theorem cast_iff (operand : Operand) :
    (changeValsForMakeOp operand).cast = true ↔ operand.IsCast := by
  obtain ⟨content, dataType, typed⟩ := operand
  change checkValueNeedsCast content.text dataType = true ↔ _
  cases dataType with
  | none => exact needsCast_constant content typed
  | some data =>
      cases data with
      | u width | b width => exact iff_of_true (needsCast_unsigned _ rfl) trivial
      | char | short => exact iff_of_false Bool.false_ne_true id
      | i width =>
          cases width with
          | w64 => exact iff_of_true rfl trivial
          | w8 | w16 | w32 => exact iff_of_false Bool.false_ne_true id

/-! ## Readings -/

theorem convert_convert {outer inner : IntType} (narrow : outer.width ≤ inner.width)
    (number : Int) : convert outer (convert inner number) = convert outer number :=
  wrap_wrap narrow number

theorem fits_promote {type : ScalarType} {promoted : IntType} {number : Int}
    (promotes : type.promote = .int promoted) (fits : Fits type.signed (8 * type.size) number) :
    Fits promoted.signed promoted.width number := by
  cases type <;> cases promotes <;>
    simp only [Fits, ScalarType.signed, ScalarType.size, IntType.signed, IntType.width, if_true,
      Bool.false_eq_true, if_false] at fits ⊢ <;> omega

theorem width_pos (type : IntType) : 0 < type.width := by
  cases type <;> decide

theorem literalInC_number {negative : Bool} {number : Nat} {types : List IntType} {type : IntType}
    {value : Int} (reads : literalInC negative number types = some (type, value)) :
    value = convert type (if negative then -number else number) := by
  obtain ⟨found, -, same⟩ := Option.map_eq_some_iff.mp reads
  obtain ⟨rfl, rfl⟩ := Prod.mk.inj same
  rfl

/-- The value of a content is its number in the type. -/
theorem inC_number {content : Content} {type : IntType} {value : Int}
    (reads : content.inC = some (type, value)) : value = convert type content.number := by
  cases content with
  | expression text scalar number noNumber integer fits =>
      change promotedInC scalar number = _ at reads
      unfold promotedInC at reads
      split at reads
      · rename_i promoted promotes
        obtain ⟨rfl, rfl⟩ := Prod.mk.inj (Option.some.inj reads)
        exact (wrap_of_fits (width_pos _) (fits_promote promotes fits)).symm
      · cases reads
  | decimal negative number => exact literalInC_number reads
  | hexadecimal negative number => exact literalInC_number reads

theorem width_int_le (type : IntType) : IntType.int.width ≤ type.width := by
  cases type <;> decide

theorem map_inC (operand : Operand) :
    (operand.content.inC.map fun value => (IntType.int, convert .int value.2)) =
      operand.content.inC.map fun _ => (IntType.int, operand.low) := by
  cases reads : operand.content.inC with
  | none => rw [Option.map_none, Option.map_none]
  | some value =>
      have number : value.2 = convert value.1 operand.content.number := inC_number reads
      have low : convert .int value.2 = operand.low := by
        rw [number]
        exact convert_convert (width_int_le value.1) _
      exact congrArg (fun number => some (IntType.int, number)) low

theorem inC_changeVals (operand : Operand) :
    (changeValsForMakeOp operand).inC = operand.reading := by
  have same : (changeValsForMakeOp operand).operand = operand := rfl
  unfold Written.inC Operand.reading
  rw [same, map_inC]
  by_cases cast : operand.IsCast
  · rw [if_pos cast, if_pos ((cast_iff operand).mpr cast)]
  · rw [if_neg cast, if_neg (mt (cast_iff operand).mp cast)]

/-- A reading as an `int` is the lower half of the number. -/
theorem low_of_reading {operand : Operand} {value : Int}
    (reads : operand.reading = some (.int, value)) : value = operand.low := by
  unfold Operand.reading at reads
  split at reads
  · obtain ⟨-, -, same⟩ := Option.map_eq_some_iff.mp reads
    exact (Prod.mk.inj same).right.symm
  · exact inC_number reads

/-! ## Comparisons -/

theorem comparesRight_iff_agree (opcode : Opcode) (destination : Text)
    (operand1 operand2 : Operand) :
    ComparesRight opcode destination operand1 operand2 ↔
      ∃ left right, operand1.reading = some left ∧ operand2.reading = some right ∧
        (opcode.relation.Holds (convert (left.1.join right.1) left.2)
          (convert (left.1.join right.1) right.2) ↔
            opcode.relation.Holds (opcode.type.read operand1.content.number)
              (opcode.type.read operand2.content.number)) := by
  unfold ComparesRight
  rw [recorded_line]
  have truth : (Condition.mk opcode.relation (changeValsForMakeOp operand1)
      (changeValsForMakeOp operand2)).truth = operand1.reading.bind fun left =>
        operand2.reading.bind fun right => some (decide (opcode.relation.Holds
          (convert (left.1.join right.1) left.2) (convert (left.1.join right.1) right.2))) := by
    unfold Condition.truth
    simp only [inC_changeVals]
    rfl
  constructor
  · rintro ⟨condition, same, holds⟩
    obtain rfl := Option.some.inj same
    rw [truth] at holds
    obtain ⟨left, first, holds⟩ := Option.bind_eq_some_iff.mp holds
    obtain ⟨right, second, holds⟩ := Option.bind_eq_some_iff.mp holds
    exact ⟨left, right, first, second, decide_eq_decide.mp (Option.some.inj holds)⟩
  · rintro ⟨left, right, first, second, agree⟩
    refine ⟨_, rfl, ?_⟩
    rw [truth, first, second, Option.bind_some, Option.bind_some, Option.some.injEq]
    exact decide_eq_decide.mpr agree

/-! ### 32 bits -/

theorem read_u32 (number : Int) : CompareType.u32.read number =
    if convert .int number < 0 then convert .int number + 2 ^ 32 else convert .int number :=
  value_unsigned _

theorem convert_int_bounds (number : Int) :
    -2 ^ 31 ≤ convert .int number ∧ convert .int number < 2 ^ 31 :=
  fits_value true (BitVec.ofInt 32 number)

/-- Unsigned words are in the order of their signed readings, if these have one sign. -/
theorem holds_u32_iff (relation : Relation) (a b : Int) :
    (relation.Holds (convert .int a) (convert .int b) ↔
      relation.Holds (CompareType.u32.read a) (CompareType.u32.read b)) ↔
        relation = .eq ∨ relation = .ne ∨ (convert .int a < 0 ↔ convert .int b < 0) := by
  obtain ⟨least, greatest⟩ := convert_int_bounds a
  obtain ⟨least', greatest'⟩ := convert_int_bounds b
  rw [read_u32, read_u32]
  generalize convert .int a = first at *
  generalize convert .int b = second at *
  cases relation <;> simp only [Relation.Holds, reduceCtorEq, or_true, true_or, false_or, iff_true] <;>
    split <;> split <;> omega

theorem comparesRight_of_readings {opcode : Opcode} {destination : Text}
    {operand1 operand2 : Operand} {left right : IntType × Int}
    (first : operand1.reading = some left) (second : operand2.reading = some right) :
    ComparesRight opcode destination operand1 operand2 ↔
      (opcode.relation.Holds (convert (left.1.join right.1) left.2)
        (convert (left.1.join right.1) right.2) ↔
          opcode.relation.Holds (opcode.type.read operand1.content.number)
            (opcode.type.read operand2.content.number)) := by
  rw [comparesRight_iff_agree]
  constructor
  · rintro ⟨left', right', first', second', agree⟩
    obtain rfl := Option.some.inj (first.symm.trans first')
    obtain rfl := Option.some.inj (second.symm.trans second')
    exact agree
  · intro agree
    exact ⟨left, right, first, second, agree⟩

/-- Two operands that are read as `int`. -/
theorem comparesRight_of_int {opcode : Opcode} {destination : Text} {operand1 operand2 : Operand}
    {left right : Int} (first : operand1.reading = some (.int, left))
    (second : operand2.reading = some (.int, right)) :
    ComparesRight opcode destination operand1 operand2 ↔
      (opcode.relation.Holds operand1.low operand2.low ↔
        opcode.relation.Holds (opcode.type.read operand1.content.number)
          (opcode.type.read operand2.content.number)) := by
  obtain rfl := low_of_reading first
  obtain rfl := low_of_reading second
  have narrow : IntType.int.width ≤ IntType.int.width := Nat.le_refl _
  have again (operand : Operand) : convert (IntType.int.join .int) operand.low = operand.low :=
    convert_convert narrow _
  rw [comparesRight_of_readings first second, again, again]

/-- A register with an unsigned word. -/
def wordOperand (text : Text) (number : Int) (noNumber : isNumber text = false ∧
    Casts.isHexText text = false ∧ isScientificNumber text = false)
    (fits : Fits false 32 number) : Operand where
  content := .expression text .uint number noNumber rfl fits
  dataType := some (.u .w32)
  typed := by
    rintro text type number noNumber integer fits same data ⟨⟩
    cases same
    rfl

end OpenCLDecompiler.Compare
