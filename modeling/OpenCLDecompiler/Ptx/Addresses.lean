import OpenCLDecompiler.Ptx.IntegerRules
import OpenCLDecompiler.Ptx.ParametersCorrect

/-!
# Memory operands with an offset

A memory operand such as `[%rd1+-8]` is read by two patterns: one for the register, in
`_normalize_memory_operand_for_rf`, and one for the offset, in `_parse_memory_address_offset`.
`_emit_address_operand` adds the offset to the register in front of a global access.
-/

namespace OpenCLDecompiler.Ptx.Addresses

open Library Library.C IntegerRules
open OpenCLDecompiler.Ptx.Parser OpenCLDecompiler.Ptx.Parameters

/-! ## The pattern of the offset -/

def spanSign : Text → Option (Char × Text)
  | [] => none
  | c :: rest => if c = '+' ∨ c = '-' then some (c, rest) else none

/-- `0x[0-9a-fA-F]+|\d+`. -/
def spanLiteral (text : Text) : Option (Text × Text) :=
  ((expect ['0', 'x'] text).bind fun digits =>
    (span isHexDigit digits).map fun found => ('0' :: 'x' :: found.1, found.2)).or
    (span Char.isDigit text)

/-- The third group: a literal with or without a sign of its own. -/
def spanOffset (text : Text) : Option (Text × Text) :=
  match spanSign text with
  | some (sign, rest) => (spanLiteral rest).map fun found => (sign :: found.1, found.2)
  | none => spanLiteral text

/-- `_MEMORY_ADDRESS_OFFSET_PATTERN.match` of `instruction_rules`, with its three groups. -/
def matchMemoryAddress (token : Text) : Option (Text × Char × Text) := do
  let text ← expect ['['] token
  let text ← expect ['%'] (text.dropWhile isBlank)
  let (name, text) ← span isPredicateChar text
  let (sign, text) ← spanSign (text.dropWhile isBlank)
  let (offset, text) ← spanOffset (text.dropWhile isBlank)
  let rest ← expect [']'] (text.dropWhile isBlank)
  if rest = [] then some ('%' :: name, sign, offset) else none

/-! ## The offset -/

/-- `sys.int_info.default_max_str_digits`. -/
def maxStrDigits : Nat := 4300

/-- A literal of base 0: decimal digits start with a zero only if all of them are zeros. -/
def readLiteral : Text → Option Nat
  | '0' :: 'x' :: digits => PyNumbers.readNat 16 digits
  | digits =>
      if maxStrDigits < digits.length ∨ digits.head? = some '0' ∧ digits.any (· ≠ '0') then none
      else PyNumbers.readNat 10 digits

/-- `int(text, 0)`; `none` is a `ValueError`. -/
def readInt0 : Text → Option Int
  | '-' :: text => (readLiteral text).map fun number : Nat => -(number : Int)
  | '+' :: text => (readLiteral text).map fun number : Nat => (number : Int)
  | text => (readLiteral text).map fun number : Nat => (number : Int)

/-- `str(number)`, as the number that it spells; `none` is a `ValueError`. -/
def str (number : Int) : Option Int :=
  if number.natAbs < 10 ^ maxStrDigits then some number else none

/-- `_parse_memory_address_offset`; `none` is an exception. -/
def parseMemoryAddressOffset (token : Text) : Option (Option Int) :=
  match matchMemoryAddress token with
  | none => some none
  | some (_, sign, offset) => do
      let number ← readInt0 offset
      let value ← str (if sign = '-' then -number else number)
      some (some value)

/-! ## The access -/

/-- An operand with 64 bits: a register, or a `Val` whose text is a symbol. -/
inductive AddressOperand where
  | register (operand : Operand)
  | symbol (name : Text)

def sourceName (name : Text) : RegName := .source (String.ofList name)

/-- `PTX_32BIT_REGISTER_PREFIXES`. -/
def prefixes32 : List Text :=
  ["%r".toList, "%rs".toList, "%f".toList, "%tid".toList, "%ctaid".toList, "%ntid".toList,
    "%envreg".toList]

/-- `_create_register` of an operand that is no vector; a `PredReg` has the parts of a `Reg64`. -/
def createRegister (regName : Text) : AddressOperand :=
  let name := createdName regName
  if "%rd".toList <+: name ∨ "%fd".toList <+: name then .register (.reg64 (sourceName name))
  else if "%p".toList <+: name then .register (.reg64 (sourceName name))
  else if ∃ start ∈ prefixes32, start <+: name then .register (.reg32 (.word (sourceName name)))
  else .symbol name

/-- `Mov` of `I32`, `Cvt32To64` of `I64_I32` and `Add` of `U64`. -/
inductive AddressInstr where
  | mov (destination : RegName) (source : Operand)
  | cvt32To64 (destination source : RegName)
  | add (destination : RegName) (operand1 : AddressOperand) (operand2 : RegName)

/-- What an access is lowered to: the instructions in front of it, its address and its offset. -/
structure Access where
  before : List AddressInstr
  address : AddressOperand
  offset : Int

/-- `_emit_address_operand`; `none` is an exception. -/
def emitAddressOperand (operand : AddressOperand) (token : Text) :
    Option (List AddressInstr × AddressOperand) :=
  (parseMemoryAddressOffset token).map fun offset => match offset with
    | none => ([], operand)
    | some offset =>
        ([.mov (.temp "offset") (.val false offset),
          .cvt32To64 (.temp "offset64") (.temp "offset"),
          .add (.temp "address") operand (.temp "offset64")],
          .register (.reg64 (.temp "address")))

/-- The rules whose operand is an address. -/
inductive MemoryRule where
  | ldGlobal | stGlobal | ldShared | stShared | atomShared
  deriving DecidableEq

/-- The access of a rule to a memory operand; the rules for shared memory take the register. -/
def MemoryRule.emit (rule : MemoryRule) (token : Text) : Option Access :=
  let operand := createRegister (normalizeMemoryOperandForRf token)
  match rule with
  | .ldGlobal | .stGlobal =>
      (emitAddressOperand operand token).map fun emitted => ⟨emitted.1, emitted.2, 0⟩
  | .ldShared | .stShared | .atomShared => some ⟨[], operand, 0⟩

/-! ## What the instructions mean -/

/-- The registers, and the values of the symbols. -/
structure Machine where
  registers : IntegerRules.State
  symbols : Text → BitVec 64

/-- A register of 32 bits is extended by zeros. -/
def Machine.value (machine : Machine) : AddressOperand → Option (BitVec 64)
  | .register (.reg32 cell) => some ((machine.registers.cells cell).setWidth 64)
  | .register operand => machine.registers.dword operand
  | .symbol name => some (machine.symbols name)

/-- The registers behind an instruction. -/
def AddressInstr.run (machine : Machine) : AddressInstr → Option IntegerRules.State
  | .mov destination source => Backend.run machine.registers (.sMovB32 (.word destination) source)
  | .cvt32To64 destination source =>
      (Ir.toFillNode ⟨.cvt32To64, .i64I32, [.reg64 destination, .reg32 (.word source)]⟩).bind
        (Backend.runAll machine.registers)
  | .add destination operand1 operand2 =>
      (machine.value operand1).bind fun x =>
        (machine.value (.register (.reg64 operand2))).map fun y =>
          machine.registers.writePair (.low destination) (.high destination) (x + y)

def Machine.runAll (machine : Machine) : List AddressInstr → Option Machine
  | [] => some machine
  | instr :: rest =>
      (instr.run machine).bind fun registers => runAll { machine with registers } rest

/-- The address that is accessed. -/
def Access.effective (access : Access) (machine : Machine) : Option (BitVec 64) :=
  (machine.runAll access.before).bind fun after =>
    (after.value access.address).map fun address => address + BitVec.ofInt 64 access.offset

/-! ## Memory operands -/

inductive Sign where
  | plus
  | minus

def Sign.char : Sign → Char
  | .plus => '+'
  | .minus => '-'

def Sign.apply (number : Int) : Sign → Int
  | .plus => number
  | .minus => -number

/-- A memory operand with a register, a sign and an offset, which can have a sign of its own. -/
structure MemoryOperand where
  name : Text
  sign : Sign
  inner : Option Sign
  literal : Literal
  afterOpen : Text
  afterName : Text
  afterSign : Text
  beforeClose : Text
  named : name ≠ [] ∧ ∀ c ∈ name, isPredicateChar c = true
  blanks : Blanks afterOpen ∧ Blanks afterName ∧ Blanks afterSign ∧ Blanks beforeClose

namespace MemoryOperand

variable (operand : MemoryOperand)

def base : Text := '%' :: operand.name

/-- The third group. -/
def offsetText : Text := operand.inner.elim [] (fun sign => [sign.char]) ++ operand.literal.text

def text : Text :=
  '[' :: (operand.afterOpen ++ '%' :: (operand.name ++ (operand.afterName ++ operand.sign.char ::
    (operand.afterSign ++ (operand.offsetText ++ (operand.beforeClose ++ [']']))))))

/-- The signed offset. -/
def offset : Int :=
  operand.sign.apply (operand.inner.elim (operand.literal.number : Int)
    fun sign => sign.apply operand.literal.number)

/--
Both patterns recognise the operand and its register, and the access is to the register
plus the offset.
-/
def Right (rule : MemoryRule) : Prop :=
  normalizeMemoryOperandForRf operand.text = '[' :: operand.base ++ [']'] ∧
    (matchMemoryAddress operand.text).map Prod.fst = some operand.base ∧
    ∃ access, rule.emit operand.text = some access ∧
      ∀ machine : Machine, access.effective machine =
        (machine.value (createRegister operand.base)).map (· + BitVec.ofInt 64 operand.offset)

/-- `int` and `str` read and write the offset. -/
def Readable : Prop :=
  (match operand.literal with
    | .decimal digits _ => digits.length ≤ maxStrDigits ∧
        (digits.head? = some '0' → ∀ c ∈ digits, c = '0')
    | .hexadecimal _ _ => True) ∧
    operand.literal.number < 10 ^ maxStrDigits

/-- When the access is right. -/
def Holds : MemoryRule → Prop
  | .ldGlobal | .stGlobal =>
      operand.Readable ∧ -2 ^ 31 ≤ operand.offset.bmod (2 ^ 64) ∧
        operand.offset.bmod (2 ^ 64) < 2 ^ 31
  | .ldShared | .stShared | .atomShared => (2 ^ 64 : Int) ∣ operand.offset

end MemoryOperand

/-! ## The two patterns -/

theorem expectSign_eq (text : Text) : expectSign text = (spanSign text).map Prod.snd := by
  cases text with
  | nil => rfl
  | cons c rest =>
      unfold expectSign spanSign
      by_cases plus : c = '+'
      · subst plus
        rw [expect_singleton]
        rfl
      · rw [expect_of_ne plus, Option.none_or]
        by_cases minus : c = '-'
        · subst minus
          rw [expect_singleton]
          rfl
        · dsimp only
          rw [expect_of_ne minus, if_neg (not_or.mpr ⟨plus, minus⟩)]
          rfl

theorem spanNumber_eq (text : Text) :
    (spanNumber text).map Prod.snd = (spanLiteral text).map Prod.snd := by
  unfold spanNumber spanLiteral
  cases expect ['0', 'x'] text with
  | none => rfl
  | some digits =>
      rw [Option.bind_some, Option.bind_some]
      cases span isHexDigit digits with
      | none => rfl
      | some found => rfl

theorem spanOffset_eq (text : Text) :
    (spanOffset text).map Prod.snd =
      (spanNumber ((expectSign text).getD text)).map Prod.snd := by
  rw [expectSign_eq, spanNumber_eq]
  unfold spanOffset
  cases spanSign text with
  | none => rfl
  | some found => rw [Option.map_map]; rfl

/-- What follows the register is read alike. -/
theorem matchShift_eq (text : Text) :
    matchShift text = (spanSign (text.dropWhile isBlank)).bind fun found =>
      (spanOffset (found.2.dropWhile isBlank)).bind fun found =>
        expect [']'] (found.2.dropWhile isBlank) := by
  unfold matchShift
  rw [expectSign_eq]
  cases spanSign (text.dropWhile isBlank) with
  | none => rfl
  | some found =>
      have same := spanOffset_eq (found.2.dropWhile isBlank)
      simp only [Option.map_some, Option.bind_eq_bind, Option.bind_some]
      cases number : spanNumber ((expectSign (found.2.dropWhile isBlank)).getD
          (found.2.dropWhile isBlank)) with
      | none =>
          rw [number, Option.map_none, Option.map_eq_none_iff] at same
          rw [same]
      | some other =>
          rw [number, Option.map_some] at same
          obtain ⟨offset, isOffset, rest⟩ := Option.map_eq_some_iff.mp same
          rw [isOffset, Option.bind_some, Option.bind_some, rest]

/-- Both patterns recognise the same operands and the same register. -/
theorem matchAddressOffset_eq (text : Text) :
    matchAddressOffset text = (matchMemoryAddress text).map Prod.fst := by
  unfold matchAddressOffset matchMemoryAddress
  simp only [matchShift_eq, Option.bind_eq_bind, Option.map_bind, Function.comp_def,
    Option.bind_assoc]
  refine Option.bind_congr fun text _ => Option.bind_congr fun text _ =>
    Option.bind_congr fun named _ => Option.bind_congr fun sign _ =>
      Option.bind_congr fun offset _ => Option.bind_congr fun rest _ => ?_
  split <;> rfl

/-! ## The operands that are recognised -/

theorem dropWhile_blanks {blanks rest : Text} {c : Char} (blank : Blanks blanks)
    (printed : isBlank c = false) :
    (blanks ++ c :: rest).dropWhile isBlank = c :: rest := by
  rw [List.dropWhile_append_of_pos blank, dropWhile_isBlank printed]

theorem isBlank_sign (sign : Sign) : isBlank sign.char = false := by cases sign <;> rfl

theorem spanSign_char (sign : Sign) (rest : Text) :
    spanSign (sign.char :: rest) = some (sign.char, rest) := by cases sign <;> rfl

theorem isPredicateChar_of_isBlank {c : Char} (blank : isBlank c = true) :
    isPredicateChar c = false := by
  have noPoint : c ≠ '.' := by rintro rfl; cases blank
  have noDollar : c ≠ '$' := by rintro rfl; cases blank
  simp [isPredicateChar, isWordChar_of_isBlank blank, noPoint, noDollar]

/-- A hexadecimal digit is one of base 16. -/
theorem isDigit_of_isHexDigit {c : Char} (digit : isHexDigit c = true) :
    PyNumbers.IsDigit 16 c ∧ isBlank c = false := by
  simp only [isHexDigit, Bool.or_eq_true, Bool.and_eq_true, decide_eq_true_eq] at digit
  rcases digit with (decimal | ⟨low, high⟩) | ⟨low, high⟩
  · exact ⟨PyNumbers.isDigit_sixteen decimal, isBlank_of_isDigit decimal⟩
  · have above : 97 ≤ c.toNat := UInt32.le_iff_toNat_le.mp low
    have below : c.toNat ≤ 102 := UInt32.le_iff_toNat_le.mp high
    have noDecimal : c.isDigit = false := by
      simp [Char.isDigit, UInt32.le_iff_toNat_le]
      intro _
      exact Nat.lt_of_lt_of_le (by decide) above
    have upTo : c.val ≤ 'z'.val := UInt32.le_iff_toNat_le.mpr (Nat.le_trans below (by decide))
    have lower : c.isLower = true :=
      Bool.and_eq_true_iff.mpr ⟨decide_eq_true low, decide_eq_true upTo⟩
    refine ⟨⟨c.toNat - 87, by simp [PyNumbers.digit, noDecimal, lower], by omega⟩,
      isBlank_of_printed (by omega) (by omega)⟩
  · have above : 65 ≤ c.toNat := UInt32.le_iff_toNat_le.mp low
    have below : c.toNat ≤ 70 := UInt32.le_iff_toNat_le.mp high
    have noDecimal : c.isDigit = false := by
      simp [Char.isDigit, UInt32.le_iff_toNat_le]
      intro _
      exact Nat.lt_of_lt_of_le (by decide) above
    have before : ¬('a'.val ≤ c.val) := fun from_ =>
      absurd (Nat.le_trans (UInt32.le_iff_toNat_le.mp from_) below) (by decide)
    have noLower : c.isLower = false :=
      Bool.and_eq_false_iff.mpr (.inl (decide_eq_false before))
    have upTo : c.val ≤ 'Z'.val := UInt32.le_iff_toNat_le.mpr (Nat.le_trans below (by decide))
    have upper : c.isUpper = true := decide_eq_true ⟨low, upTo⟩
    refine ⟨⟨c.toNat - 55, by simp [PyNumbers.digit, noDecimal, noLower, upper], by omega⟩,
      isBlank_of_printed (by omega) (by omega)⟩

theorem isHexDigit_of_isBlank {c : Char} (blank : isBlank c = true) : isHexDigit c = false := by
  by_contra digit
  rw [(isDigit_of_isHexDigit (Bool.eq_true_of_not_eq_false digit)).2] at blank
  cases blank

theorem spanSign_literal (literal : Literal) (rest : Text) :
    spanSign (literal.text ++ rest) = none := by
  obtain ⟨c, others, same, digit⟩ := literal_head literal
  rw [same, List.cons_append, spanSign, if_neg]
  rintro (rfl | rfl)
  · cases digit
  · cases digit

/-- Decimal digits have no prefix. -/
theorem expect_decimal {digits rest : Text} (some' : digits ≠ [])
    (letters : ∀ c ∈ digits, c.isDigit = true) (stops : ∀ c ∈ rest.head?, c ≠ 'x') :
    expect ['0', 'x'] (digits ++ rest) = none := by
  have noPrefix : ['0', 'x'].isPrefixOf (digits ++ rest) = false := by
    rcases digits with _ | ⟨first, _ | ⟨second, digits⟩⟩
    · exact absurd rfl some'
    · cases rest with
      | nil => simp [List.isPrefixOf]
      | cons c rest =>
          have other : ('x' == c) = false := beq_false_of_ne (stops c rfl).symm
          simp [List.isPrefixOf, other]
    · have other : ('x' == second) = false :=
        beq_false_of_ne (isDigit_ne (letters second (by simp)) rfl).symm
      simp [List.isPrefixOf, other]
  unfold expect
  rw [noPrefix]
  rfl

theorem spanLiteral_text (literal : Literal) {rest : Text}
    (stops : ∀ c ∈ rest.head?, isHexDigit c = false ∧ c ≠ 'x') :
    spanLiteral (literal.text ++ rest) = some (literal.text, rest) := by
  unfold spanLiteral
  cases literal with
  | decimal digits valid =>
      have ends : ∀ c ∈ rest.head?, c.isDigit = false := by
        intro c first
        have stopped := (stops c first).1
        simp only [isHexDigit, Bool.or_eq_false_iff] at stopped
        exact stopped.1.1
      rw [Literal.text, expect_decimal valid.1 valid.2 fun c first => (stops c first).2,
        span_append valid.1 valid.2 ends]
      rfl
  | hexadecimal digits valid =>
      have start : expect ['0', 'x'] ('0' :: 'x' :: (digits ++ rest)) = some (digits ++ rest) :=
        expect_append ['0', 'x'] _
      rw [Literal.text, List.cons_append, List.cons_append, start, Option.bind_some,
        span_append valid.1 valid.2 fun c first => (stops c first).1]
      rfl

namespace MemoryOperand

variable (operand : MemoryOperand)

theorem spanOffset_text {rest : Text}
    (stops : ∀ c ∈ rest.head?, isHexDigit c = false ∧ c ≠ 'x') :
    spanOffset (operand.offsetText ++ rest) = some (operand.offsetText, rest) := by
  unfold spanOffset offsetText
  cases operand.inner with
  | none =>
      rw [Option.elim_none, List.nil_append, spanSign_literal]
      exact spanLiteral_text operand.literal stops
  | some sign =>
      rw [Option.elim_some, List.singleton_append, List.cons_append, spanSign_char]
      dsimp only
      rw [spanLiteral_text operand.literal stops]
      rfl

/-- The offset starts with a sign or a digit. -/
theorem offsetText_head (rest : Text) :
    (operand.offsetText ++ rest).dropWhile isBlank = operand.offsetText ++ rest := by
  unfold offsetText
  cases operand.inner with
  | none =>
      obtain ⟨c, others, same, digit⟩ := literal_head operand.literal
      rw [Option.elim_none, List.nil_append, same]
      exact dropWhile_isBlank (isBlank_of_isDigit digit) _
  | some sign => exact dropWhile_isBlank (isBlank_sign sign) _

/-- The pattern of the offset recognises a memory operand, with its groups. -/
theorem matchMemoryAddress_text :
    matchMemoryAddress operand.text =
      some (operand.base, operand.sign.char, operand.offsetText) := by
  obtain ⟨afterOpen, afterName, afterSign, beforeClose⟩ := operand.blanks
  have nameEnds : ∀ c ∈ (operand.afterName ++ operand.sign.char :: (operand.afterSign ++
      (operand.offsetText ++ (operand.beforeClose ++ [']'])))).head?,
      isPredicateChar c = false := by
    cases same : operand.afterName with
    | nil =>
        rintro c ⟨⟩
        cases operand.sign <;> rfl
    | cons first rest =>
        rintro c ⟨⟩
        exact isPredicateChar_of_isBlank (afterName _ (by rw [same]; exact List.mem_cons_self))
  have numberEnds : ∀ c ∈ (operand.beforeClose ++ [']']).head?,
      isHexDigit c = false ∧ c ≠ 'x' := by
    cases same : operand.beforeClose with
    | nil =>
        rintro c ⟨⟩
        exact ⟨by decide, by decide⟩
    | cons first rest =>
        rintro c ⟨⟩
        have blank := beforeClose first (by rw [same]; exact List.mem_cons_self)
        exact ⟨isHexDigit_of_isBlank blank, by rintro rfl; cases blank⟩
  unfold matchMemoryAddress text
  simp only [Option.bind_eq_bind, expect_singleton, Option.bind_some,
    dropWhile_blanks afterOpen (c := '%') rfl,
    span_append operand.named.1 operand.named.2 nameEnds,
    dropWhile_blanks afterName (isBlank_sign operand.sign), spanSign_char,
    List.dropWhile_append_of_pos afterSign, operand.offsetText_head,
    operand.spanOffset_text numberEnds, dropWhile_blanks beforeClose (c := ']') rfl]
  rfl

end MemoryOperand

/-- What a pattern takes from a text stands at its start. -/
theorem expect_eq_some {start text rest : Text} (found : expect start text = some rest) :
    text = start ++ rest := by
  unfold expect at found
  split at found
  · rename_i isPrefix
    obtain ⟨others, same⟩ := List.isPrefixOf_iff_prefix.mp isPrefix
    rw [← same, List.drop_left] at found
    rw [← same, Option.some.inj found]
  · cases found

theorem span_eq_some {keep : Char → Bool} {text word rest : Text}
    (found : span keep text = some (word, rest)) :
    text = word ++ rest ∧ word ≠ [] ∧ ∀ c ∈ word, keep c = true := by
  unfold span at found
  split at found
  · cases found
  · rename_i filled
    obtain ⟨rfl, rfl⟩ := Prod.mk.inj (Option.some.inj found)
    refine ⟨List.takeWhile_append_dropWhile.symm, ?_, fun c inside => List.mem_takeWhile_imp inside⟩
    rintro empty
    exact filled (List.isEmpty_iff.mpr empty)

theorem spanSign_eq_some {text rest : Text} {c : Char} (found : spanSign text = some (c, rest)) :
    ∃ sign : Sign, c = sign.char ∧ text = c :: rest := by
  cases text with
  | nil => cases found
  | cons first text =>
      rw [spanSign] at found
      split at found
      · rename_i sign
        obtain ⟨rfl, rfl⟩ := Prod.mk.inj (Option.some.inj found)
        rcases sign with rfl | rfl
        · exact ⟨.plus, rfl, rfl⟩
        · exact ⟨.minus, rfl, rfl⟩
      · cases found

theorem spanLiteral_eq_some {text word rest : Text}
    (found : spanLiteral text = some (word, rest)) :
    ∃ literal : Literal, word = literal.text ∧ text = word ++ rest := by
  unfold spanLiteral at found
  rcases Option.or_eq_some_iff.mp found with hexadecimal | ⟨_, decimal⟩
  · obtain ⟨digits, start, found⟩ := Option.bind_eq_some_iff.mp hexadecimal
    obtain ⟨⟨letters, others⟩, spanned, same⟩ := Option.map_eq_some_iff.mp found
    obtain ⟨rfl, rfl⟩ := Prod.mk.inj same
    obtain ⟨parts, some', valid⟩ := span_eq_some spanned
    exact ⟨.hexadecimal letters ⟨some', valid⟩, rfl, by rw [expect_eq_some start, parts]; rfl⟩
  · obtain ⟨parts, some', valid⟩ := span_eq_some decimal
    exact ⟨.decimal word ⟨some', valid⟩, rfl, parts⟩

theorem spanOffset_eq_some {text word rest : Text} (found : spanOffset text = some (word, rest)) :
    ∃ (inner : Option Sign) (literal : Literal),
      word = inner.elim [] (fun sign => [sign.char]) ++ literal.text ∧ text = word ++ rest := by
  unfold spanOffset at found
  split at found
  · rename_i c others signed
    obtain ⟨⟨letters, last⟩, spanned, same⟩ := Option.map_eq_some_iff.mp found
    obtain ⟨rfl, rfl⟩ := Prod.mk.inj same
    obtain ⟨sign, rfl, rfl⟩ := spanSign_eq_some signed
    obtain ⟨literal, rfl, rfl⟩ := spanLiteral_eq_some spanned
    exact ⟨some sign, literal, rfl, rfl⟩
  · obtain ⟨literal, rfl, parts⟩ := spanLiteral_eq_some found
    exact ⟨none, literal, rfl, parts⟩

theorem blanks_takeWhile (text : Text) : Blanks (text.takeWhile isBlank) :=
  fun _ inside => List.mem_takeWhile_imp inside

theorem takeWhile_blanks {text rest : Text} (same : text.dropWhile isBlank = rest) :
    text = text.takeWhile isBlank ++ rest := by
  rw [← same, List.takeWhile_append_dropWhile]

/-- The pattern recognises nothing else. -/
theorem exists_memoryOperand {text : Text} (found : (matchMemoryAddress text).isSome = true) :
    ∃ operand : MemoryOperand, operand.text = text := by
  obtain ⟨groups, found⟩ := Option.isSome_iff_exists.mp found
  unfold matchMemoryAddress at found
  simp only [Option.bind_eq_bind, Option.bind_eq_some_iff] at found
  obtain ⟨afterOpen, opened, afterPercent, percent, ⟨name, afterName⟩, named, ⟨c, afterSign⟩,
    signed, ⟨number, afterNumber⟩, numbered, last, closed, ends⟩ := found
  obtain ⟨nameText, filled, letters⟩ := span_eq_some named
  obtain ⟨sign, rfl, signText⟩ := spanSign_eq_some signed
  obtain ⟨inner, literal, rfl, numberText⟩ := spanOffset_eq_some numbered
  dsimp only at signed numbered closed signText numberText
  have noRest : last = [] := by
    by_contra more
    rw [if_neg more] at ends
    cases ends
  refine ⟨⟨name, sign, inner, literal, _, _, _, _, ⟨filled, letters⟩, blanks_takeWhile afterOpen,
    blanks_takeWhile afterName, blanks_takeWhile afterSign, blanks_takeWhile afterNumber⟩, ?_⟩
  have openText := takeWhile_blanks (expect_eq_some percent)
  have nameBlanks := takeWhile_blanks signText
  have signBlanks := takeWhile_blanks numberText
  have numberBlanks := takeWhile_blanks (expect_eq_some closed)
  calc
    _ = '[' :: (afterOpen.takeWhile isBlank ++ '%' :: (name ++ (afterName.takeWhile isBlank ++
          sign.char :: (afterSign.takeWhile isBlank ++ ((inner.elim [] (fun sign => [sign.char]) ++
            literal.text) ++ (afterNumber.takeWhile isBlank ++ [']'])))))) := rfl
    _ = '[' :: (afterOpen.takeWhile isBlank ++ '%' :: (name ++ afterName)) := by
        rw [noRest, List.append_nil] at numberBlanks
        rw [← numberBlanks, ← signBlanks, ← nameBlanks]
    _ = text := by
        rw [← nameText, expect_eq_some opened]
        exact congrArg ('[' :: ·) openText.symm

/-! ## The number of an offset -/

theorem readNat_decimal {digits : Text}
    (valid : digits ≠ [] ∧ ∀ c ∈ digits, c.isDigit = true) :
    PyNumbers.readNat 10 digits = some (Literal.decimal digits valid).number := by
  obtain ⟨number, read⟩ := PyNumbers.readNat_of_digits valid.1 fun c inside =>
    PyNumbers.isDigit_ten (valid.2 c inside)
  rw [Literal.number, read, Option.getD_some]

theorem readNat_hexadecimal {digits : Text}
    (valid : digits ≠ [] ∧ ∀ c ∈ digits, isHexDigit c = true) :
    PyNumbers.readNat 16 digits = some (Literal.hexadecimal digits valid).number := by
  obtain ⟨number, read⟩ := PyNumbers.readNat_of_digits valid.1 fun c inside =>
    (isDigit_of_isHexDigit (valid.2 c inside)).1
  rw [Literal.number, read, Option.getD_some]

/-- `int` raises for too many decimal digits, and for a zero in front of another digit. -/
def Spelled : Literal → Prop
  | .decimal digits _ =>
      digits.length ≤ maxStrDigits ∧ (digits.head? = some '0' → ∀ c ∈ digits, c = '0')
  | .hexadecimal _ _ => True

theorem readLiteral_decimal {digits : Text} (letters : ∀ c ∈ digits, c.isDigit = true) :
    readLiteral digits =
      if maxStrDigits < digits.length ∨ digits.head? = some '0' ∧ digits.any (· ≠ '0') then none
      else PyNumbers.readNat 10 digits := by
  unfold readLiteral
  split
  · rename_i rest
    have digit : ('x' : Char).isDigit = true := letters 'x' (by simp)
    cases digit
  · rfl

theorem readLiteral_spelled {literal : Literal} (spelled : Spelled literal) :
    readLiteral literal.text = some literal.number := by
  cases literal with
  | decimal digits valid =>
      rw [Literal.text, readLiteral_decimal valid.2, if_neg]
      · exact readNat_decimal valid
      · rintro (long | ⟨zero, some_⟩)
        · exact absurd spelled.1 (Nat.not_le.mpr long)
        · obtain ⟨c, inside, other⟩ := List.any_eq_true.mp some_
          exact of_decide_eq_true other (spelled.2 zero c inside)
  | hexadecimal digits valid => exact readNat_hexadecimal valid

theorem readLiteral_unspelled {literal : Literal} (unspelled : ¬Spelled literal) :
    readLiteral literal.text = none := by
  cases literal with
  | decimal digits valid =>
      rw [Literal.text, readLiteral_decimal valid.2, if_pos]
      by_contra neither
      obtain ⟨short, zeros⟩ := not_or.mp neither
      refine unspelled ⟨Nat.not_lt.mp short, fun zero c inside => ?_⟩
      by_contra other
      exact zeros ⟨zero, List.any_eq_true.mpr ⟨c, inside, decide_eq_true other⟩⟩
  | hexadecimal digits valid => exact absurd trivial unspelled

theorem readInt0_unsigned {text : Text} (unsigned : spanSign text = none) :
    readInt0 text = (readLiteral text).map fun number : Nat => (number : Int) := by
  unfold readInt0
  split
  · cases unsigned
  · cases unsigned
  · rfl

namespace MemoryOperand

variable (operand : MemoryOperand)

theorem readInt0_offsetText :
    readInt0 operand.offsetText = (readLiteral operand.literal.text).map fun number : Nat =>
      operand.inner.elim (number : Int) fun sign => sign.apply number := by
  unfold offsetText
  cases operand.inner with
  | none =>
      have unsigned := spanSign_literal operand.literal []
      rw [List.append_nil] at unsigned
      exact readInt0_unsigned unsigned
  | some sign => cases sign <;> rfl

theorem signed_offset (number : Int) :
    (if operand.sign.char = '-' then -number else number) = operand.sign.apply number := by
  cases operand.sign <;> rfl

theorem natAbs_offset : operand.offset.natAbs = operand.literal.number := by
  unfold offset
  rcases operand.inner with _ | inner
  · cases operand.sign <;> simp [Sign.apply]
  · cases operand.sign <;> cases inner <;> simp [Sign.apply]

theorem parse_text :
    parseMemoryAddressOffset operand.text =
      (readLiteral operand.literal.text).bind fun _ => (str operand.offset).map some := by
  have read := readInt0_offsetText operand
  unfold parseMemoryAddressOffset
  rw [operand.matchMemoryAddress_text]
  simp only [read]
  cases found : readLiteral operand.literal.text with
  | none => rfl
  | some number =>
      have spelled : Spelled operand.literal := by
        by_contra unspelled
        rw [readLiteral_unspelled unspelled] at found
        cases found
      rw [readLiteral_spelled spelled] at found
      obtain rfl := Option.some.inj found
      have signed : operand.sign.apply (operand.inner.elim (operand.literal.number : Int)
          fun sign => sign.apply operand.literal.number) = operand.offset := rfl
      simp only [Option.map_some, Option.bind_eq_bind, Option.bind_some, signed_offset, signed]
      cases str operand.offset with
      | none => rfl
      | some value => rfl

theorem readable_iff :
    operand.Readable ↔ Spelled operand.literal ∧ operand.literal.number < 10 ^ maxStrDigits :=
  and_congr_left fun _ => by cases operand.literal <;> rfl

theorem parse_readable (readable : operand.Readable) :
    parseMemoryAddressOffset operand.text = some (some operand.offset) := by
  obtain ⟨spelled, short⟩ := operand.readable_iff.mp readable
  rw [operand.parse_text, readLiteral_spelled spelled, Option.bind_some, str, operand.natAbs_offset,
    if_pos short]
  rfl

theorem parse_unreadable (unreadable : ¬operand.Readable) :
    parseMemoryAddressOffset operand.text = none := by
  rw [operand.readable_iff, not_and_or] at unreadable
  rw [operand.parse_text]
  rcases unreadable with unspelled | long
  · rw [readLiteral_unspelled unspelled]
    rfl
  · rw [str, operand.natAbs_offset, if_neg long]
    cases readLiteral operand.literal.text <;> rfl

end MemoryOperand

/-! ## The emitted instructions -/

theorem createRegister_cases (name : Text) :
    (∃ source, createRegister name = .register (.reg64 (sourceName source))) ∨
      (∃ source, createRegister name = .register (.reg32 (.word (sourceName source)))) ∨
      ∃ symbol, createRegister name = .symbol symbol := by
  unfold createRegister
  dsimp only
  split
  · exact .inl ⟨_, rfl⟩
  · split
    · exact .inl ⟨_, rfl⟩
    · split
      · exact .inr (.inl ⟨_, rfl⟩)
      · exact .inr (.inr ⟨_, rfl⟩)

/-- The first two instructions extend the lower half of the offset by its sign. -/
theorem run_offset (machine : Machine) (offset : Int) (rest : List AddressInstr) :
    ∃ after : IntegerRules.State,
      machine.runAll (.mov (.temp "offset") (.val false offset) ::
          .cvt32To64 (.temp "offset64") (.temp "offset") :: rest) =
        Machine.runAll { machine with registers := after } rest ∧
      after.pair (.low (.temp "offset64")) (.high (.temp "offset64")) =
        (BitVec.ofInt 32 offset).signExtend 64 ∧
      ∀ name, Machine.value { machine with registers := after } (createRegister name) =
        machine.value (createRegister name) := by
  refine ⟨((machine.registers.write (.word (.temp "offset")) (BitVec.ofInt 32 offset)).write
    (.low (.temp "offset64")) (BitVec.ofInt 32 offset)).write (.high (.temp "offset64"))
      ((BitVec.ofInt 32 offset).sshiftRight 31), ?_, ?_, ?_⟩
  · simp [Machine.runAll, AddressInstr.run, Ir.toFillNode, Backend.runAll, Backend.run, State.word,
      State.write]
  · simp [State.pair, State.write, signExtend_high]
  · intro name
    rcases createRegister_cases name with ⟨source, same⟩ | ⟨source, same⟩ | ⟨symbol, same⟩ <;>
      rw [same] <;> simp [Machine.value, State.dword, State.pair, State.write, sourceName]

theorem effective_emitted (name : Text) (offset : Int) (machine : Machine) :
    Access.effective
      ⟨[.mov (.temp "offset") (.val false offset), .cvt32To64 (.temp "offset64") (.temp "offset"),
        .add (.temp "address") (createRegister name) (.temp "offset64")],
        .register (.reg64 (.temp "address")), 0⟩ machine =
      (machine.value (createRegister name)).map (· + (BitVec.ofInt 32 offset).signExtend 64) := by
  obtain ⟨after, run, extended, kept⟩ := run_offset machine offset
    [.add (.temp "address") (createRegister name) (.temp "offset64")]
  rw [Access.effective, run]
  simp only [Machine.runAll, AddressInstr.run, kept]
  cases machine.value (createRegister name) with
  | none => rfl
  | some base =>
      simp [Machine.value, State.dword, State.pair_writePair, extended]

/-- The offset has to be one of 32 bits with a sign. -/
theorem ofInt_eq_signExtend_iff (offset : Int) :
    BitVec.ofInt 64 offset = (BitVec.ofInt 32 offset).signExtend 64 ↔
      -2 ^ 31 ≤ offset.bmod (2 ^ 64) ∧ offset.bmod (2 ^ 64) < 2 ^ 31 := by
  rw [← BitVec.toInt_inj, BitVec.toInt_ofInt, BitVec.toInt_signExtend_of_le (by decide),
    BitVec.toInt_ofInt]
  constructor
  · intro same
    rw [same]
    exact ⟨Int.le_bmod (by decide), Int.bmod_lt (by decide)⟩
  · rintro ⟨low, high⟩
    have inner : (offset.bmod (2 ^ 64)).bmod (2 ^ 32) = offset.bmod (2 ^ 32) := by
      exact Int.bmod_bmod_of_dvd (by decide)
    rw [← inner]
    exact (Int.bmod_eq_of_le low high).symm

theorem ofInt_eq_zero_iff (offset : Int) :
    BitVec.ofInt 64 offset = 0 ↔ (2 ^ 64 : Int) ∣ offset := by
  rw [← BitVec.toInt_inj, BitVec.toInt_ofInt]
  exact Int.dvd_iff_bmod_eq_zero.symm

namespace MemoryOperand

variable (operand : MemoryOperand)

theorem normalize_text :
    normalizeMemoryOperandForRf operand.text = '[' :: operand.base ++ [']'] := by
  rw [normalizeMemoryOperandForRf, matchAddressOffset_eq, operand.matchMemoryAddress_text]
  rfl

/-- The brackets do not count for the register. -/
theorem createRegister_normalized :
    createRegister (normalizeMemoryOperandForRf operand.text) = createRegister operand.base := by
  have inner : createdName ('[' :: operand.base ++ [']']) = operand.base := by
    have last : ('[' :: operand.base ++ [']']).getLast? = some ']' := List.getLast?_concat
    rw [createdName, if_pos ⟨rfl, last⟩]
    exact List.dropLast_concat
  have plain : createdName operand.base = operand.base := by
    rw [createdName, if_neg]
    rintro ⟨first, _⟩
    exact absurd (Option.some.inj first) (by decide)
  rw [operand.normalize_text, createRegister, createRegister, inner, plain]

/-- Of a register there is always a value. -/
theorem exists_value (machine : Machine) (name : Text) :
    ∃ base, machine.value (createRegister name) = some base := by
  rcases createRegister_cases name with ⟨source, same⟩ | ⟨source, same⟩ | ⟨symbol, same⟩ <;>
    rw [same] <;> exact ⟨_, rfl⟩

/-- A base plus two numbers is the same for every machine only if the numbers are. -/
theorem forall_value_iff (name : Text) (x y : BitVec 64) :
    (∀ machine : Machine, (machine.value (createRegister name)).map (· + x) =
      (machine.value (createRegister name)).map (· + y)) ↔ x = y := by
  constructor
  · intro same
    have machine : Machine := ⟨⟨fun _ => 0, fun _ => false, fun _ => 0⟩, fun _ => 0⟩
    obtain ⟨base, found⟩ := exists_value machine name
    have sums := same machine
    rw [found] at sums
    exact (BitVec.add_right_inj base).mp (Option.some.inj sums)
  · rintro rfl _
    rfl

theorem right_iff (rule : MemoryRule) :
    operand.Right rule ↔ ∃ access, rule.emit operand.text = some access ∧
      ∀ machine : Machine, access.effective machine =
        (machine.value (createRegister operand.base)).map
          (· + BitVec.ofInt 64 operand.offset) := by
  have found : (matchMemoryAddress operand.text).map Prod.fst = some operand.base := by
    rw [operand.matchMemoryAddress_text]
    rfl
  constructor
  · rintro ⟨_, _, lowered⟩
    exact lowered
  · intro lowered
    exact ⟨operand.normalize_text, found, lowered⟩

/-- A global access. -/
theorem emit_global_iff (access : Access) :
    ((emitAddressOperand (createRegister (normalizeMemoryOperandForRf operand.text))
      operand.text).map fun emitted => (⟨emitted.1, emitted.2, 0⟩ : Access)) = some access ↔
      operand.Readable ∧
        access = ⟨[.mov (.temp "offset") (.val false operand.offset),
          .cvt32To64 (.temp "offset64") (.temp "offset"),
          .add (.temp "address") (createRegister operand.base) (.temp "offset64")],
          .register (.reg64 (.temp "address")), 0⟩ := by
  rw [operand.createRegister_normalized, emitAddressOperand]
  by_cases readable : operand.Readable
  · rw [operand.parse_readable readable]
    simp [readable, eq_comm]
  · rw [operand.parse_unreadable readable]
    simp [readable]

theorem global_iff :
    (∃ access, ((emitAddressOperand (createRegister (normalizeMemoryOperandForRf operand.text))
        operand.text).map fun emitted => (⟨emitted.1, emitted.2, 0⟩ : Access)) = some access ∧
      ∀ machine : Machine, access.effective machine =
        (machine.value (createRegister operand.base)).map
          (· + BitVec.ofInt 64 operand.offset)) ↔
      operand.Readable ∧ -2 ^ 31 ≤ operand.offset.bmod (2 ^ 64) ∧
        operand.offset.bmod (2 ^ 64) < 2 ^ 31 := by
  rw [← ofInt_eq_signExtend_iff, ← forall_value_iff operand.base]
  constructor
  · rintro ⟨access, emitted, holds⟩
    obtain ⟨readable, rfl⟩ := (operand.emit_global_iff access).mp emitted
    refine ⟨readable, fun machine => ?_⟩
    rw [← holds machine, effective_emitted]
  · rintro ⟨readable, holds⟩
    refine ⟨_, (operand.emit_global_iff _).mpr ⟨readable, rfl⟩, fun machine => ?_⟩
    rw [effective_emitted]
    exact (holds machine).symm

/-- An access to shared memory is to the register alone. -/
theorem shared_iff :
    (∃ access, some (⟨[], createRegister (normalizeMemoryOperandForRf operand.text), 0⟩ : Access) =
        some access ∧
      ∀ machine : Machine, access.effective machine =
        (machine.value (createRegister operand.base)).map
          (· + BitVec.ofInt 64 operand.offset)) ↔
      (2 ^ 64 : Int) ∣ operand.offset := by
  rw [operand.createRegister_normalized, ← ofInt_eq_zero_iff, eq_comm,
    ← forall_value_iff operand.base]
  constructor
  · rintro ⟨access, emitted, holds⟩
    obtain rfl := Option.some.inj emitted
    exact holds
  · intro holds
    exact ⟨_, rfl, holds⟩

end MemoryOperand

/--
Both patterns recognise the same operands, and which accesses are to the address that is
meant: a global access needs an offset that `int` reads and that fits 32 bits with a sign,
and an access to shared memory one that does not count.
-/
theorem addresses_iff (text : Text) (operand : MemoryOperand) (rule : MemoryRule) :
    ((matchMemoryAddress text).isSome = true ↔ ∃ written : MemoryOperand, written.text = text) ∧
    matchAddressOffset text = (matchMemoryAddress text).map Prod.fst ∧
    (operand.Right rule ↔ operand.Holds rule) := by
  refine ⟨⟨exists_memoryOperand, ?_⟩, matchAddressOffset_eq text, ?_⟩
  · rintro ⟨written, rfl⟩
    rw [written.matchMemoryAddress_text]
    rfl
  · rw [operand.right_iff]
    cases rule with
    | ldGlobal => exact operand.global_iff
    | stGlobal => exact operand.global_iff
    | ldShared => exact operand.shared_iff
    | stShared => exact operand.shared_iff
    | atomShared => exact operand.shared_iff

/-- `[%rd1+2147483648]`. -/
def farOperand : MemoryOperand where
  name := "rd1".toList
  sign := .plus
  inner := none
  literal := .decimal "2147483648".toList ⟨by decide, List.all_eq_true.mp (by decide)⟩
  afterOpen := []
  afterName := []
  afterSign := []
  beforeClose := []
  named := ⟨by decide, List.all_eq_true.mp (by decide)⟩
  blanks := by decide

/-- `[%rd1+010]`. -/
def zeroOperand : MemoryOperand :=
  { farOperand with literal := .decimal "010".toList ⟨by decide, List.all_eq_true.mp (by decide)⟩ }

/-- A load with `[%rd1+010]` raises, and one with `[%rd1+2147483648]` is elsewhere. -/
theorem zero_and_far_wrong :
    ¬zeroOperand.Right .ldGlobal ∧ ¬farOperand.Right .ldGlobal := by
  constructor
  · intro right
    obtain ⟨⟨⟨_, zeros⟩, _⟩, _⟩ :=
      zeroOperand.global_iff.mp ((zeroOperand.right_iff .ldGlobal).mp right)
    exact absurd (zeros rfl '1' (by decide)) (by decide)
  · intro right
    obtain ⟨_, _, high⟩ := farOperand.global_iff.mp ((farOperand.right_iff .ldGlobal).mp right)
    have far : farOperand.offset = 2147483648 := rfl
    rw [far] at high
    exact absurd high (by decide)

end OpenCLDecompiler.Ptx.Addresses
