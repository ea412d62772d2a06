import OpenCLDecompiler.Library.CBrackets

/-!
# Printing expressions

`expression_to_string` for trees of variables that are no pointers, integer
constants and operators.  The types of the leaves decide about casts.
-/

namespace OpenCLDecompiler.Expressions

open Library Library.C

inductive ExpressionOperationType where
  | plus | minus | mul | div | rem
  | lshift | rshift
  | eq | ne | lt | le | gt | ge | lg
  | not | and | or | xor
  | bitwiseAnd | bitwiseOr
  | min
  deriving DecidableEq, Repr

namespace ExpressionOperationType

def value : ExpressionOperationType → List Char
  | .plus => ['+'] | .minus => ['-'] | .mul => ['*'] | .div => ['/'] | .rem => ['%']
  | .lshift => ['<', '<'] | .rshift => ['>', '>']
  | .eq => ['=', '='] | .ne => ['!', '='] | .lt => ['<'] | .le => ['<', '=']
  | .gt => ['>'] | .ge => ['>', '='] | .lg => ['<', '>']
  | .not => ['!'] | .and => ['&', '&'] | .or => ['|', '|'] | .xor => ['^']
  | .bitwiseAnd => ['&'] | .bitwiseOr => ['|']
  | .min => ['m', 'i', 'n']

def isBitshiftOperator (op : ExpressionOperationType) : Bool := op = .lshift || op = .rshift

def isBitwiseOperator (op : ExpressionOperationType) : Bool := op = .bitwiseAnd || op = .bitwiseOr

/-- `none` stands for `UNKNOWN`. -/
def getInvertedOperation : ExpressionOperationType → Option ExpressionOperationType
  | .plus => some .minus | .minus => some .plus
  | .mul => some .div | .div => some .mul
  | .lshift => some .rshift | .rshift => some .lshift
  | .eq => some .ne | .ne => some .eq
  | .lt => some .ge | .ge => some .lt
  | .le => some .gt | .gt => some .le
  | _ => none

def areOperationsInverted (first second : ExpressionOperationType) : Bool :=
  first.getInvertedOperation = some second

/-- The operator of C, if there is one with two operands. -/
def toC : ExpressionOperationType → Option BinOp
  | .plus => some .add | .minus => some .sub
  | .mul => some .mul | .div => some .div | .rem => some .rem
  | .lshift => some .shl | .rshift => some .shr
  | .eq => some .eq | .ne => some .ne
  | .lt => some .lt | .le => some .le | .gt => some .gt | .ge => some .ge
  | .and => some .and | .or => some .or | .xor => some .bitXor
  | .bitwiseAnd => some .bitAnd | .bitwiseOr => some .bitOr
  | .lg | .not | .min => none

end ExpressionOperationType

/-- A name of C. -/
def isName : List Char → Bool
  | [] => false
  | c :: rest => !c.isDigit && (c :: rest).all isWordChar

/-- The value of a leaf: an integer, a hexadecimal text or the name of a variable. -/
inductive LeafValue where
  | int (value : Int)
  | hex (value : Nat)
  | name (name : { name : List Char // isName name = true })

def LeafValue.text : LeafValue → List Char
  | .int value =>
      if value < 0 then '-' :: Nat.toDigits 10 value.natAbs else Nat.toDigits 10 value.natAbs
  | .hex value => '0' :: 'x' :: Nat.toDigits 16 value
  | .name variableName => variableName.val

inductive ExpressionNode where
  | leaf (value : LeafValue) (hint : ScalarType)
  | not (left : ExpressionNode)
  | op (operation : ExpressionOperationType) (left right : ExpressionNode)

/-- `str` of an OpenCL type. -/
def typeName : ScalarType → List Char
  | .char => "char".toList | .uchar => "uchar".toList
  | .short => "short".toList | .ushort => "ushort".toList
  | .int => "int".toList | .uint => "uint".toList
  | .long => "long".toList | .ulong => "ulong".toList
  | .float => "float".toList | .double => "double".toList

/-- `needs_cast`; `none` is the exception of a comparison of a text with a number. -/
def needsCast (value : LeafValue) (source target : ScalarType) : Option Bool :=
  let isToTypeSmaller := decide (target.size < source.size)
  if source = target then some false
  else if !source.integer && !target.integer then some isToTypeSmaller
  else if source.integer && target.integer then
    if source.signed = target.signed then
      let rangeMax : Int := 2 ^ (target.size * 8)
      let toHintMin := if target.signed then -rangeMax / 2 else 0
      let toHintMax := if target.signed then rangeMax / 2 - 1 else rangeMax
      if isToTypeSmaller then
        match value with
        | .int value => some (!(decide (toHintMin ≤ value) && decide (value ≤ toHintMax)))
        | _ => none
      else some false
    else
      match value with
      | .int value => some (!decide (0 ≤ value))
      | .hex _ => some false
      | .name _ => some true
  else
    match value with
    | .name _ => some isToTypeSmaller
    | .int value =>
        if source.integer || target.signed then some isToTypeSmaller
        else some (decide (value < 0) || isToTypeSmaller)
    | .hex _ => if source.integer then some false else none

/-- `check_op_node_needs_brackets`. -/
def checkOpNodeNeedsBrackets (op : ExpressionOperationType) (childNode : ExpressionNode) : Bool :=
  let check (childOp : ExpressionOperationType) : Bool :=
    if childOp.isBitshiftOperator || childOp.isBitwiseOperator then true
    else if ExpressionOperationType.areOperationsInverted op childOp then true
    else if op = childOp && op = .minus then true
    else op ≠ childOp
  match childNode with
  | .op childOp _ _ => check childOp
  | .not _ => check .not
  | .leaf _ _ => false

/-- `expression_to_string`; the target `none` is the type `UNKNOWN`. -/
def expressionToString (castTo : Option ScalarType) : ExpressionNode → Option (List Char)
  | .leaf value hint =>
      match castTo with
      | none => some value.text
      | some target =>
          (needsCast value hint target).map fun cast =>
            if cast then '(' :: typeName target ++ ')' :: value.text else value.text
  | .not left => (expressionToString castTo left).map fun text => '!' :: '(' :: text ++ [')']
  | .op operation left right =>
      (expressionToString castTo left).bind fun leftValue =>
        (expressionToString castTo right).map fun rightValue =>
          if operation = .min then "min(".toList ++ leftValue ++ ',' :: ' ' :: rightValue ++ [')']
          else
            (if checkOpNodeNeedsBrackets operation left && !leftValue.contains '[' then
                '(' :: leftValue ++ [')']
              else leftValue) ++
            (' ' :: operation.value ++ [' ']) ++
            (if checkOpNodeNeedsBrackets operation right then '(' :: rightValue ++ [')']
              else rightValue) ++
            (if leftValue.contains '[' then [']'] else [])

namespace ExpressionNode

/-- No leaf of the tree is printed with a cast. -/
def NoCast (castTo : Option ScalarType) : ExpressionNode → Prop
  | .leaf value hint => ∀ target ∈ castTo, needsCast value hint target = some false
  | .not left => left.NoCast castTo
  | .op _ left right => left.NoCast castTo ∧ right.NoCast castTo

/-- The expression of C that the tree stands for. -/
def toC : ExpressionNode → Option Expr
  | .leaf (.int value) _ =>
      some (if value < 0 then .neg (.lit (Nat.toDigits 10 value.natAbs))
        else .lit (Nat.toDigits 10 value.natAbs))
  | .leaf (.hex value) _ => some (.lit ('0' :: 'x' :: Nat.toDigits 16 value))
  | .leaf (.name name) _ => some (.var name.val)
  | .not left => left.toC.map .not
  | .op operation left right =>
      operation.toC.bind fun op =>
        left.toC.bind fun first => right.toC.map fun second => .bin op first second

end ExpressionNode

/-! ## The brackets over expressions of C -/

def isBare (op : BinOp) : Bool :=
  match op with
  | .sub | .shl | .shr | .bitAnd | .bitOr => false
  | _ => true

/-- An operand that is an operation stays bare below the same operator, but for five of them. -/
def needsBrackets (op : BinOp) : Expr → Bool
  | .bin inner _ _ => !(inner = op && isBare op)
  | .not _ => true
  | _ => false

theorem checkOpNodeNeedsBrackets_toC {operation : ExpressionOperationType} {op : BinOp}
    (operator : operation.toC = some op) {child : ExpressionNode} {expr : Expr}
    (inC : child.toC = some expr) :
    checkOpNodeNeedsBrackets operation child = needsBrackets op expr := by
  cases child with
  | leaf value hint =>
      cases value with
      | int value =>
          obtain rfl := Option.some.inj inC
          split <;> rfl
      | hex value => obtain rfl := Option.some.inj inC; rfl
      | name name => obtain rfl := Option.some.inj inC; rfl
  | not left =>
      obtain ⟨inner, -, rfl⟩ := Option.map_eq_some_iff.mp inC
      cases operation <;> simp_all [ExpressionOperationType.toC, needsBrackets,
        checkOpNodeNeedsBrackets]
  | op childOp left right =>
      obtain ⟨childC, childOperator, rest⟩ := Option.bind_eq_some_iff.mp inC
      obtain ⟨first, -, rest⟩ := Option.bind_eq_some_iff.mp rest
      obtain ⟨second, -, rfl⟩ := Option.map_eq_some_iff.mp rest
      revert operator childOperator
      cases operation <;> cases childOp <;> rintro ⟨⟩ ⟨⟩ <;> rfl

theorem needsBrackets_bare (op inner : BinOp) (left right : Expr)
    (bare : needsBrackets op (.bin inner left right) = false) : inner = op := by
  simp only [needsBrackets, Bool.not_eq_false', Bool.and_eq_true, decide_eq_true_eq] at bare
  exact bare.1

/-! ## The text of a tree -/

/-- A text that is no part of an array access and whose tokens are known. -/
structure Reads (text : List Char) (tokens : List Token) : Prop where
  noIndex : '[' ∉ text
  lex : ∀ rest, Ends rest → lex (text ++ rest) = (C.lex rest).map (tokens ++ ·)

namespace Reads

theorem word {word : List Char} (letters : ∀ c ∈ word, isWordChar c) : Reads word (wordToken word) := by
  refine ⟨?_, fun rest ends => lex_word word rest letters ends⟩
  intro member
  have letter := letters _ member
  revert letter
  decide

theorem brackets {text : List Char} {tokens : List Token} (reads : Reads text tokens) :
    Reads ('(' :: text ++ [')']) (C.brackets tokens) := by
  refine ⟨?_, fun rest ends => ?_⟩
  · simp [reads.noIndex]
  · have inner := reads.lex (')' :: rest) (.cons (by decide))
    rw [lex_closing] at inner
    simp only [List.cons_append, List.append_assoc, List.nil_append, lex_opening, inner]
    simp [C.brackets, Function.comp_def]

theorem not {text : List Char} {tokens : List Token} (reads : Reads text tokens) :
    Reads ('!' :: '(' :: text ++ [')']) (.not :: C.brackets tokens) := by
  refine ⟨?_, fun rest ends => ?_⟩
  · simp [reads.noIndex]
  · have inner := reads.lex (')' :: rest) (.cons (by decide))
    rw [lex_closing] at inner
    simp only [List.cons_append, List.append_assoc, List.nil_append, lex_not, inner]
    simp [C.brackets, Function.comp_def]

theorem minus {c : Char} {rest : List Char} {tokens : List Token} (letter : isWordChar c)
    (reads : Reads (c :: rest) tokens) : Reads ('-' :: c :: rest) (.op .sub :: tokens) := by
  refine ⟨?_, fun behind ends => ?_⟩
  · have none := reads.noIndex
    simp_all
  · have inner := reads.lex behind ends
    rw [List.cons_append] at inner
    simp only [List.cons_append, lex_minus c _ letter, inner]
    simp [Function.comp_def]

theorem op {left right : List Char} {leftTokens rightTokens : List Token} (op : BinOp)
    (readsLeft : Reads left leftTokens) (readsRight : Reads right rightTokens) :
    Reads (left ++ (' ' :: op.text ++ [' ']) ++ right) (leftTokens ++ .op op :: rightTokens) := by
  refine ⟨?_, fun rest ends => ?_⟩
  · have plain : '[' ∉ op.text := by cases op <;> decide
    simp [readsLeft.noIndex, readsRight.noIndex, plain]
  · have second := readsRight.lex rest ends
    have middle := lex_op op (right ++ rest)
    have first := readsLeft.lex (' ' :: op.text ++ ' ' :: (right ++ rest)) (.cons (by decide))
    rw [middle, second] at first
    simpa [Function.comp_def] using first

end Reads

theorem toDigits_word {base : Nat} (least : 1 < base) (most : base ≤ 16) (n : Nat) :
    ∀ c ∈ Nat.toDigits base n, isWordChar c := by
  have below : ∀ m < 16, isWordChar m.digitChar := by decide
  have digit (m : Nat) (small : m < base) : isWordChar m.digitChar :=
    below m (Nat.lt_of_lt_of_le small most)
  induction n using Nat.strong_induction_on with
  | _ n ih =>
      rw [Nat.toDigits_eq_if least]
      split
      · rename_i small
        simpa using digit n small
      · rename_i large
        have positive : 0 < n := by omega
        intro c member
        rcases List.mem_append.mp member with before | last
        · exact ih (n / base) (Nat.div_lt_self positive least) c before
        · rw [List.mem_singleton.mp last]
          exact digit _ (Nat.mod_lt n (by omega))

theorem toDigits_cons (n : Nat) :
    ∃ c rest, Nat.toDigits 10 n = c :: rest ∧ c.isDigit ∧ isWordChar c := by
  obtain ⟨c, rest, digits⟩ := List.exists_cons_of_ne_nil (@Nat.toDigits_ne_nil n 10)
  refine ⟨c, rest, digits, ?_, ?_⟩
  · exact Nat.isDigit_of_mem_toDigits (by decide) (by decide) (digits ▸ List.mem_cons_self)
  · exact toDigits_word (by decide) (by decide) n c (digits ▸ List.mem_cons_self)

theorem reads_digits (n : Nat) : Reads (Nat.toDigits 10 n) [.number (Nat.toDigits 10 n)] := by
  obtain ⟨c, rest, digits, digit, -⟩ := toDigits_cons n
  have whole := Reads.word (toDigits_word (by decide) (by decide) n : ∀ c ∈ Nat.toDigits 10 n, _)
  rw [digits] at whole ⊢
  simpa [wordToken, digit] using whole

theorem LeafValue.reads (value : LeafValue) (hint : ScalarType) {expr : Expr}
    (inC : (ExpressionNode.leaf value hint).toC = some expr) :
    Reads value.text (expr.tokens needsBrackets) := by
  cases value with
  | int value =>
      obtain rfl := Option.some.inj inC
      have digits := reads_digits value.natAbs
      by_cases negative : value < 0
      · obtain ⟨c, rest, shape, -, letter⟩ := toDigits_cons value.natAbs
        simp only [LeafValue.text, negative, if_true, Expr.tokens, Expr.isLiteral, shape] at digits ⊢
        exact digits.minus letter
      · simpa [LeafValue.text, negative, Expr.tokens] using digits
  | hex value =>
      obtain rfl := Option.some.inj inC
      have letters : ∀ c ∈ '0' :: 'x' :: Nat.toDigits 16 value, isWordChar c := by
        have rest := toDigits_word (by decide : 1 < 16) (by decide) value
        simpa [isWordChar] using rest
      simpa [LeafValue.text, wordToken, Expr.tokens] using Reads.word letters
  | name name =>
      obtain rfl := Option.some.inj inC
      obtain ⟨text, valid⟩ := name
      cases text with
      | nil => exact absurd valid (by decide)
      | cons c rest =>
          simp only [isName, Bool.and_eq_true, Bool.not_eq_true', List.all_eq_true] at valid
          simpa [LeafValue.text, wordToken, Expr.tokens, valid.1] using Reads.word valid.2

theorem ExpressionOperationType.value_toC {operation : ExpressionOperationType} {op : BinOp}
    (operator : operation.toC = some op) : operation.value = op.text ∧ operation ≠ .min := by
  cases operation <;> first | contradiction | (obtain rfl := Option.some.inj operator; decide)

theorem expressionToString_reads (castTo : Option ScalarType) (tree : ExpressionNode) {expr : Expr}
    (inC : tree.toC = some expr) (noCast : tree.NoCast castTo) :
    ∃ text, expressionToString castTo tree = some text ∧
      Reads text (expr.tokens needsBrackets) := by
  induction tree generalizing expr with
  | leaf value hint =>
      refine ⟨value.text, ?_, value.reads hint inC⟩
      cases castTo with
      | none => rfl
      | some target => simp [expressionToString, noCast target rfl]
  | not left ih =>
      obtain ⟨inner, innerC, rfl⟩ := Option.map_eq_some_iff.mp inC
      obtain ⟨text, prints, reads⟩ := ih innerC noCast
      exact ⟨_, by rw [expressionToString, prints]; rfl, reads.not⟩
  | op operation left right ihLeft ihRight =>
      obtain ⟨op, operator, rest⟩ := Option.bind_eq_some_iff.mp inC
      obtain ⟨first, firstC, rest⟩ := Option.bind_eq_some_iff.mp rest
      obtain ⟨second, secondC, rfl⟩ := Option.map_eq_some_iff.mp rest
      obtain ⟨leftText, printsLeft, readsLeft⟩ := ihLeft firstC noCast.1
      obtain ⟨rightText, printsRight, readsRight⟩ := ihRight secondC noCast.2
      obtain ⟨sign, binary⟩ := ExpressionOperationType.value_toC operator
      have side {text : List Char} {tokens : List Token} (reads : Reads text tokens) (needs : Bool) :
          Reads (if needs then '(' :: text ++ [')'] else text)
            (if needs then C.brackets tokens else tokens) := by
        cases needs
        · exact reads
        · exact reads.brackets
      refine ⟨_, by rw [expressionToString, printsLeft, printsRight]; rfl, ?_⟩
      have whole := Reads.op op (side readsLeft (needsBrackets op first))
        (side readsRight (needsBrackets op second))
      simpa [binary, sign, readsLeft.noIndex, checkOpNodeNeedsBrackets_toC operator firstC,
        checkOpNodeNeedsBrackets_toC operator secondC, Expr.tokens] using whole

/-! ## The printed tree and the parsed one -/

/-- C reads the text of the tree as an expression with the value of the tree. -/
def PrintsValue (declared : List Char → ScalarType) (castTo : Option ScalarType)
    (tree : ExpressionNode) (expr : Expr) : Prop :=
  ∃ text parsed, expressionToString castTo tree = some text ∧ Settles (parse text) parsed ∧
    ∀ (F : Type) (unit : FloatUnit F) (stored : ∀ name, (declared name).Stored F),
      parsed.eval unit (assign stored) = expr.eval unit (assign stored)

theorem expressionToString_parses (castTo : Option ScalarType) (tree : ExpressionNode)
    {expr : Expr} (inC : tree.toC = some expr) (noCast : tree.NoCast castTo) :
    ∃ text, expressionToString castTo tree = some text ∧
      Settles (parse text) (expr.parsed needsBrackets) := by
  obtain ⟨text, prints, reads⟩ := expressionToString_reads castTo tree inC noCast
  refine ⟨text, prints, ?_⟩
  have lexes := reads.lex [] .nil
  have tokens : lex text = some (expr.tokens needsBrackets) := by
    simpa [lex, lexFrom, wordToken] using lexes
  exact parse_settles tokens (Expr.binary_tokens needsBrackets needsBrackets_bare expr)

/-- Where every bare right operand regroups, the text has the value of the tree. -/
theorem expressionToString_value (declared : List Char → ScalarType) (castTo : Option ScalarType)
    (tree : ExpressionNode) (expr : Expr) (inC : tree.toC = some expr)
    (noCast : tree.NoCast castTo) (grouped : expr.Grouped needsBrackets declared) :
    PrintsValue declared castTo tree expr := by
  obtain ⟨text, prints, settles⟩ := expressionToString_parses castTo tree inC noCast
  refine ⟨text, expr.parsed needsBrackets, prints, settles, ?_⟩
  intro F unit stored
  exact Expr.eval_parsed needsBrackets unit stored needsBrackets_bare expr grouped

/-- The variable `a`, `b` or `c`. -/
def letterNode (c : Char) (valid : isName [c] = true) (hint : ScalarType) : ExpressionNode :=
  .leaf (.name ⟨[c], valid⟩) hint

/-- `a op (b op c)` over variables of type `int`. -/
def nested (op : ExpressionOperationType) : ExpressionNode :=
  .op op (letterNode 'a' rfl .int)
    (.op op (letterNode 'b' rfl .int) (letterNode 'c' rfl .int))

theorem expressionToString_sums :
    PrintsValue (fun _ => .int) (some .long) (nested .plus)
      (.bin .add (.var ['a']) (.bin .add (.var ['b']) (.var ['c']))) := by
  apply expressionToString_value (fun _ => .int) (some .long) (nested .plus)
  · rfl
  · simp [nested, letterNode, ExpressionNode.NoCast, needsCast, ScalarType.integer,
      ScalarType.signed, ScalarType.size]
  · rfl

/-- `a / (b / c)` is printed without its brackets. -/
theorem expressionToString_quotients :
    (nested .div).toC =
        some (.bin .div (.var ['a']) (.bin .div (.var ['b']) (.var ['c']))) ∧
      (nested .div).NoCast none ∧
      ¬ PrintsValue (fun _ => .int) none (nested .div)
        (.bin .div (.var ['a']) (.bin .div (.var ['b']) (.var ['c']))) := by
  have noCast : (nested .div).NoCast none := by
    simp [nested, letterNode, ExpressionNode.NoCast]
  refine ⟨rfl, noCast, ?_⟩
  rintro ⟨text, parsed, prints, settles, same⟩
  obtain ⟨printed, again, parses⟩ := expressionToString_parses none (nested .div) rfl noCast
  have texts : printed = text := Option.some.inj (again.symm.trans prints)
  subst texts
  have tree := settles.unique parses
  let unit : FloatUnit Unit := ⟨fun _ _ => (), fun _ _ => (), fun _ _ _ _ => none,
    fun _ _ _ => false, fun _ => (), fun _ => true⟩
  let stored (name : List Char) : BitVec 32 :=
    if name = ['a'] then 8 else if name = ['b'] then 4 else 2
  have values := same Unit unit stored
  rw [tree] at values
  revert values
  decide

end OpenCLDecompiler.Expressions
