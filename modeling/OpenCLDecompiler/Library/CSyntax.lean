import OpenCLDecompiler.Library.Settles
import Mathlib.Data.List.Basic

/-!
# Expressions of C

The tokens of an expression and a parser with the precedence and the associativity
of C.  The parser bounds its recursion; `Settles` is its result for a large bound.
-/

namespace OpenCLDecompiler.Library.C

inductive BinOp where
  | mul | div | rem
  | add | sub
  | shl | shr
  | lt | gt | le | ge
  | eq | ne
  | bitAnd | bitXor | bitOr
  | and | or
  deriving DecidableEq, Repr

/-- The precedence of the grammar; all these operators group to the left. -/
def BinOp.precedence : BinOp → Nat
  | .mul | .div | .rem => 10
  | .add | .sub => 9
  | .shl | .shr => 8
  | .lt | .gt | .le | .ge => 7
  | .eq | .ne => 6
  | .bitAnd => 5
  | .bitXor => 4
  | .bitOr => 3
  | .and => 2
  | .or => 1

def BinOp.text : BinOp → List Char
  | .mul => ['*'] | .div => ['/'] | .rem => ['%']
  | .add => ['+'] | .sub => ['-']
  | .shl => ['<', '<'] | .shr => ['>', '>']
  | .lt => ['<'] | .gt => ['>'] | .le => ['<', '='] | .ge => ['>', '=']
  | .eq => ['=', '='] | .ne => ['!', '=']
  | .bitAnd => ['&'] | .bitXor => ['^'] | .bitOr => ['|']
  | .and => ['&', '&'] | .or => ['|', '|']

/-- Expressions; a name or a number is kept as it is spelled. -/
inductive Expr where
  | var (name : List Char)
  | lit (digits : List Char)
  | neg (operand : Expr)
  | not (operand : Expr)
  | bin (op : BinOp) (left right : Expr)
  deriving DecidableEq, Repr

/-! ## Tokens -/

inductive Token where
  | ident (name : List Char)
  | number (digits : List Char)
  | op (op : BinOp)
  | not
  | opening
  | closing
  deriving DecidableEq, Repr

def isWordChar (c : Char) : Bool := c.isAlphanum || c = '_'

/-- An operator or a bracket, with whether it has a second character. -/
def punctuator (c : Char) (next : Option Char) : Option (Token × Bool) :=
  match c, next with
  | '<', some '<' => some (.op .shl, true)
  | '>', some '>' => some (.op .shr, true)
  | '<', some '=' => some (.op .le, true)
  | '>', some '=' => some (.op .ge, true)
  | '=', some '=' => some (.op .eq, true)
  | '!', some '=' => some (.op .ne, true)
  | '&', some '&' => some (.op .and, true)
  | '|', some '|' => some (.op .or, true)
  | '-', some '-' | '-', some '=' | '-', some '>' | '+', some '+' | '+', some '=' => none
  | '*', some '=' | '/', some '=' | '%', some '=' | '&', some '=' | '|', some '=' => none
  | '^', some '=' | '/', some '/' | '/', some '*' => none
  | '*', _ => some (.op .mul, false)
  | '/', _ => some (.op .div, false)
  | '%', _ => some (.op .rem, false)
  | '+', _ => some (.op .add, false)
  | '-', _ => some (.op .sub, false)
  | '<', _ => some (.op .lt, false)
  | '>', _ => some (.op .gt, false)
  | '&', _ => some (.op .bitAnd, false)
  | '^', _ => some (.op .bitXor, false)
  | '|', _ => some (.op .bitOr, false)
  | '!', _ => some (.not, false)
  | '(', _ => some (.opening, false)
  | ')', _ => some (.closing, false)
  | _, _ => none

/-- The token of a longest run of letters and digits. -/
def wordToken : List Char → List Token
  | [] => []
  | c :: rest => if c.isDigit then [.number (c :: rest)] else [.ident (c :: rest)]

/-- The tokens of a text behind the start of a word; `skip` stands for a second character. -/
def lexFrom : List Char → Bool → List Char → Option (List Token)
  | word, _, [] => some (wordToken word)
  | word, true, _ :: rest => lexFrom word false rest
  | word, false, c :: rest =>
      if isWordChar c then lexFrom (word ++ [c]) false rest
      else if c = ' ' then (lexFrom [] false rest).map (wordToken word ++ ·)
      else
        (punctuator c rest.head?).bind fun found =>
          (lexFrom [] found.2 rest).map (wordToken word ++ found.1 :: ·)

def lex (text : List Char) : Option (List Token) := lexFrom [] false text

/-- The text goes on with no letter or digit. -/
def Ends (text : List Char) : Prop := ∀ c ∈ text.head?, isWordChar c = false

theorem Ends.nil : Ends [] := by simp [Ends]

theorem Ends.cons {c : Char} {text : List Char} (other : isWordChar c = false) :
    Ends (c :: text) := by simpa [Ends] using other

theorem lexFrom_word (word tail rest : List Char) (letters : ∀ c ∈ tail, isWordChar c)
    (ends : Ends rest) :
    lexFrom word false (tail ++ rest) = (lex rest).map (wordToken (word ++ tail) ++ ·) := by
  induction tail generalizing word with
  | nil =>
      cases rest with
      | nil => simp [lex, lexFrom, wordToken]
      | cons c rest =>
          have other : isWordChar c = false := by simpa [Ends] using ends
          simp only [List.nil_append, List.append_nil, lex, lexFrom, other]
          by_cases space : c = ' '
          · simp [space, wordToken]
          · cases found : punctuator c rest.head? <;>
              simp [space, wordToken, Function.comp_def]
  | cons c tail ih =>
      have letter : isWordChar c = true := letters c List.mem_cons_self
      have later := ih (word ++ [c]) fun d member => letters d (List.mem_cons_of_mem c member)
      simpa [lexFrom, letter] using later

theorem lex_word (word rest : List Char) (letters : ∀ c ∈ word, isWordChar c)
    (ends : Ends rest) : lex (word ++ rest) = (lex rest).map (wordToken word ++ ·) := by
  exact lexFrom_word [] word rest letters ends

theorem lex_op (op : BinOp) (rest : List Char) :
    lex (' ' :: op.text ++ ' ' :: rest) = (lex rest).map (.op op :: ·) := by
  cases op <;>
    simp [lex, lexFrom, BinOp.text, isWordChar, punctuator, wordToken, Function.comp_def]

theorem lex_opening (rest : List Char) : lex ('(' :: rest) = (lex rest).map (.opening :: ·) := by
  simp [lex, lexFrom, isWordChar, punctuator, wordToken]

theorem lex_closing (rest : List Char) : lex (')' :: rest) = (lex rest).map (.closing :: ·) := by
  simp [lex, lexFrom, isWordChar, punctuator, wordToken]

theorem lex_not (rest : List Char) :
    lex ('!' :: '(' :: rest) = (lex rest).map (.not :: .opening :: ·) := by
  simp [lex, lexFrom, isWordChar, punctuator, wordToken, Function.comp_def]

theorem lex_minus (c : Char) (rest : List Char) (letter : isWordChar c) :
    lex ('-' :: c :: rest) = (lex (c :: rest)).map (.op .sub :: ·) := by
  have plain : punctuator '-' (some c) = some (.op .sub, false) := by
    unfold punctuator
    split <;> simp_all [isWordChar]
  simp [lex, lexFrom, isWordChar, plain, wordToken]

/-! ## The parser -/

mutual

/-- An operand: a name, a number, `-` or `!` before an operand, or brackets. -/
def parseUnary : Nat → List Token → Option (Expr × List Token)
  | 0, _ => none
  | _ + 1, .ident name :: rest => some (.var name, rest)
  | _ + 1, .number digits :: rest => some (.lit digits, rest)
  | bound + 1, .op .sub :: rest =>
      (parseUnary bound rest).map fun parsed => (.neg parsed.1, parsed.2)
  | bound + 1, .not :: rest =>
      (parseUnary bound rest).map fun parsed => (.not parsed.1, parsed.2)
  | bound + 1, .opening :: rest =>
      (parseBinary bound 0 rest).bind fun parsed =>
        match parsed.2 with
        | .closing :: behind => some (parsed.1, behind)
        | _ => none
  | _ + 1, _ => none

/-- The longest expression whose operators bind at least as strongly as `least`. -/
def parseBinary : Nat → Nat → List Token → Option (Expr × List Token)
  | 0, _, _ => none
  | bound + 1, least, tokens =>
      (parseUnary bound tokens).bind fun parsed => climb bound least parsed.1 parsed.2

/-- The operators behind an expression that is already read. -/
def climb : Nat → Nat → Expr → List Token → Option (Expr × List Token)
  | 0, _, _, _ => none
  | bound + 1, least, left, .op op :: rest =>
      if least ≤ op.precedence then
        (parseBinary bound (op.precedence + 1) rest).bind fun parsed =>
          climb bound least (.bin op left parsed.1) parsed.2
      else some (left, .op op :: rest)
  | _ + 1, _, left, rest => some (left, rest)

end

/-- The expression that is the whole text. -/
def parse (text : List Char) (bound : Nat) : Option Expr :=
  (lex text).bind fun tokens =>
    (parseBinary bound 0 tokens).bind fun parsed => if parsed.2 = [] then some parsed.1 else none

/-! ## Rules of the parser -/

/-- No operator that binds at least as strongly as `least` comes next. -/
def Stops (least : Nat) (tokens : List Token) : Prop :=
  ∀ op, tokens.head? = some (.op op) → op.precedence < least

theorem Stops.nil (least : Nat) : Stops least [] := by simp [Stops]

theorem Stops.closing (least : Nat) (rest : List Token) : Stops least (.closing :: rest) := by
  simp [Stops]

theorem Stops.op (op : BinOp) (rest : List Token) :
    Stops (op.precedence + 1) (.op op :: rest) := by
  simp [Stops]

theorem Stops.mono {least more : Nat} {tokens : List Token} (stops : Stops least tokens)
    (above : least ≤ more) : Stops more tokens :=
  fun op head => Nat.lt_of_lt_of_le (stops op head) above

def Unary (tokens : List Token) (expr : Expr) (rest : List Token) : Prop :=
  Settles (fun bound => parseUnary bound tokens) (expr, rest)

def Binary (least : Nat) (tokens : List Token) (expr : Expr) (rest : List Token) : Prop :=
  Settles (fun bound => parseBinary bound least tokens) (expr, rest)

def Climbs (least : Nat) (left : Expr) (tokens : List Token) (expr : Expr) (rest : List Token) :
    Prop :=
  Settles (fun bound => climb bound least left tokens) (expr, rest)

theorem Unary.ident (name : List Char) (rest : List Token) :
    Unary (.ident name :: rest) (.var name) rest :=
  .of_succ (fun _ => by rw [parseUnary]) (.const _)

theorem Unary.number (digits : List Char) (rest : List Token) :
    Unary (.number digits :: rest) (.lit digits) rest :=
  .of_succ (fun _ => by rw [parseUnary]) (.const _)

theorem Unary.neg {tokens : List Token} {expr : Expr} {rest : List Token}
    (operand : Unary tokens expr rest) : Unary (.op .sub :: tokens) (.neg expr) rest :=
  .of_succ (fun _ => by rw [parseUnary])
    (operand.map fun parsed => (Expr.neg parsed.1, parsed.2))

theorem Unary.not {tokens : List Token} {expr : Expr} {rest : List Token}
    (operand : Unary tokens expr rest) : Unary (.not :: tokens) (.not expr) rest :=
  .of_succ (fun _ => by rw [parseUnary])
    (operand.map fun parsed => (Expr.not parsed.1, parsed.2))

theorem Unary.brackets {tokens : List Token} {expr : Expr} {rest : List Token}
    (inner : Binary 0 tokens expr (.closing :: rest)) : Unary (.opening :: tokens) expr rest :=
  .of_succ (fun _ => by rw [parseUnary]) (inner.bind (.const _))

theorem Binary.of_unary {least : Nat} {tokens middle rest : List Token} {left expr : Expr}
    (operand : Unary tokens left middle) (climbs : Climbs least left middle expr rest) :
    Binary least tokens expr rest := by
  have both : Settles (fun bound => (parseUnary bound tokens).bind fun parsed =>
      climb bound least parsed.1 parsed.2) (expr, rest) := by
    apply Settles.bind operand
    exact climbs
  exact .of_succ (fun _ => by rw [parseBinary]) both

theorem Climbs.stop {least : Nat} {rest : List Token} (left : Expr) (stops : Stops least rest) :
    Climbs least left rest left rest := by
  have done : Settles (fun _ => some (left, rest)) (left, rest) := .const _
  refine .of_succ (fun bound => ?_) done
  match rest with
  | [] => rw [climb]; simp
  | .op op :: rest =>
      have weaker : ¬ least ≤ op.precedence := Nat.not_le.mpr (stops op rfl)
      rw [climb, if_neg weaker]
  | .ident _ :: _ | .number _ :: _ | .not :: _ | .opening :: _ | .closing :: _ =>
      rw [climb]; simp

theorem Climbs.step {least : Nat} {op : BinOp} {tokens middle rest : List Token}
    {left right expr : Expr} (binds : least ≤ op.precedence)
    (operand : Binary (op.precedence + 1) tokens right middle)
    (climbs : Climbs least (.bin op left right) middle expr rest) :
    Climbs least left (.op op :: tokens) expr rest := by
  have both : Settles (fun bound => (parseBinary bound (op.precedence + 1) tokens).bind
      fun parsed => climb bound least (.bin op left parsed.1) parsed.2) (expr, rest) := by
    apply Settles.bind operand
    exact climbs
  exact .of_succ (fun _ => by rw [climb, if_pos binds]) both

theorem parse_settles {text : List Char} {tokens : List Token} {expr : Expr}
    (lexes : lex text = some tokens) (parses : Binary 0 tokens expr []) :
    Settles (parse text) expr := by
  have whole : Settles (fun bound => (parseBinary bound 0 tokens).bind fun parsed =>
      if parsed.2 = [] then some parsed.1 else none) expr :=
    parses.bind (.const _)
  refine whole.congr fun bound => ?_
  simp [parse, lexes]

end OpenCLDecompiler.Library.C
