import OpenCLDecompiler.Library.CValues

/-!
# Expressions printed with few brackets

`needs op child` says whether an operand stands in brackets.  An operand may stay
bare when it is a chain of the same operator; on the right of the operator the parser
then reads its parts into the chain on the left.
-/

namespace OpenCLDecompiler.Library.C

variable (needs : BinOp → Expr → Bool)

def brackets (tokens : List Token) : List Token := .opening :: tokens ++ [.closing]

def Expr.isLiteral : Expr → Bool
  | .lit _ => true
  | _ => false

def Expr.tokens : Expr → List Token
  | .var name => [.ident name]
  | .lit digits => [.number digits]
  | .neg operand =>
      .op .sub :: if operand.isLiteral then operand.tokens else brackets operand.tokens
  | .not operand => .not :: brackets operand.tokens
  | .bin op left right =>
      (if needs op left then brackets left.tokens else left.tokens) ++
        .op op :: if needs op right then brackets right.tokens else right.tokens

mutual

/-- The tree the parser makes of the tokens. -/
def Expr.parsed : Expr → Expr
  | .var name => .var name
  | .lit digits => .lit digits
  | .neg operand => .neg operand.parsed
  | .not operand => .not operand.parsed
  | .bin op left right => right.graft op left.parsed

/-- The operand goes behind a chain of the operator. -/
def Expr.graft (op : BinOp) : (operand chain : Expr) → Expr
  | .var name, chain => .bin op chain (.var name)
  | .lit digits, chain => .bin op chain (.lit digits)
  | .neg operand, chain => .bin op chain (.neg operand.parsed)
  | .not operand, chain => .bin op chain (.not operand.parsed)
  | .bin inner left right, chain =>
      if needs op (.bin inner left right) then .bin op chain (right.graft inner left.parsed)
      else right.graft op (left.graft op chain)

end

/-- The operand goes behind the chain as a whole. -/
def Expr.Closed (op : BinOp) : Expr → Prop
  | .bin inner left right => needs op (.bin inner left right) = true
  | _ => True

theorem Expr.graft_closed {op : BinOp} {chain operand : Expr} (closed : operand.Closed needs op) :
    operand.graft needs op chain = .bin op chain (operand.parsed needs) := by
  cases operand <;> simp_all [Expr.graft, Expr.parsed, Expr.Closed]

/-- What comes behind does not go on with the expression. -/
def Expr.Fits (least : Nat) (rest : List Token) : Expr → Prop
  | .bin op _ _ => least ≤ op.precedence ∧ Stops (op.precedence + 1) rest
  | _ => True

section Parsing

-- Only a chain of the same operator stays bare.
variable (bare : ∀ op inner left right, needs op (.bin inner left right) = false → inner = op)

theorem Expr.unary_brackets {expr : Expr}
    (parses : ∀ least rest result behind, expr.Fits least rest →
      Climbs least (expr.parsed needs) rest result behind →
        Binary least (expr.tokens needs ++ rest) result behind) (rest : List Token) :
    Unary (brackets (expr.tokens needs) ++ rest) (expr.parsed needs) rest := by
  have fits : expr.Fits 0 (.closing :: rest) := by
    cases expr with
    | bin op left right => exact ⟨Nat.zero_le _, .closing _ _⟩
    | _ => trivial
  have inner := parses 0 (.closing :: rest) _ _ fits (.stop _ (.closing _ _))
  simpa [brackets] using Unary.brackets inner

include bare

theorem Expr.parses_tokens (expr : Expr) :
    (∀ least rest result behind, expr.Fits least rest →
      Climbs least (expr.parsed needs) rest result behind →
        Binary least (expr.tokens needs ++ rest) result behind) ∧
    (∀ op least chain rest result behind, least ≤ op.precedence →
      Stops (op.precedence + 1) rest →
      Climbs least (expr.graft needs op chain) rest result behind →
        Climbs least chain
          (.op op :: (if needs op expr then brackets (expr.tokens needs) else expr.tokens needs) ++
            rest) result behind) := by
  -- An operand that goes behind the chain as a whole, in brackets or not.
  have whole (expr : Expr)
      (parses : ∀ least rest result behind, expr.Fits least rest →
        Climbs least (expr.parsed needs) rest result behind →
          Binary least (expr.tokens needs ++ rest) result behind) (op : BinOp)
      (closed : expr.Closed needs op) (least : Nat) (chain : Expr) (rest : List Token)
      (result : Expr) (behind : List Token) (binds : least ≤ op.precedence)
      (stops : Stops (op.precedence + 1) rest)
      (climbs : Climbs least (expr.graft needs op chain) rest result behind) :
      Climbs least chain
        (.op op :: (if needs op expr then brackets (expr.tokens needs) else expr.tokens needs) ++
          rest) result behind := by
    rw [Expr.graft_closed needs closed] at climbs
    refine Climbs.step binds ?_ climbs
    have here : Climbs (op.precedence + 1) (expr.parsed needs) rest (expr.parsed needs) rest :=
      .stop _ stops
    by_cases brackets : needs op expr
    · simp only [brackets, if_true]
      exact .of_unary (Expr.unary_brackets needs parses rest) here
    · simp only [brackets, Bool.false_eq_true, if_false]
      refine parses _ _ _ _ ?_ here
      cases expr with
      | bin inner left right => exact absurd closed brackets
      | _ => trivial
  induction expr with
  | var name =>
      have parses : ∀ least rest result behind, (Expr.var name).Fits least rest →
          Climbs least ((Expr.var name).parsed needs) rest result behind →
            Binary least ((Expr.var name).tokens needs ++ rest) result behind :=
        fun _ _ _ _ _ climbs => .of_unary (.ident name _) climbs
      exact ⟨parses, fun op => whole _ parses op trivial⟩
  | lit digits =>
      have parses : ∀ least rest result behind, (Expr.lit digits).Fits least rest →
          Climbs least ((Expr.lit digits).parsed needs) rest result behind →
            Binary least ((Expr.lit digits).tokens needs ++ rest) result behind :=
        fun _ _ _ _ _ climbs => .of_unary (.number digits _) climbs
      exact ⟨parses, fun op => whole _ parses op trivial⟩
  | neg operand ih =>
      have parses : ∀ least rest result behind, (Expr.neg operand).Fits least rest →
          Climbs least ((Expr.neg operand).parsed needs) rest result behind →
            Binary least ((Expr.neg operand).tokens needs ++ rest) result behind := by
        intro least rest result behind fits climbs
        have inner : Unary ((if operand.isLiteral then operand.tokens needs
            else brackets (operand.tokens needs)) ++ rest) (operand.parsed needs) rest := by
          cases operand with
          | lit digits => exact .number digits rest
          | _ => exact Expr.unary_brackets needs ih.1 rest
        exact .of_unary (.neg inner) climbs
      exact ⟨parses, fun op => whole _ parses op trivial⟩
  | not operand ih =>
      have parses : ∀ least rest result behind, (Expr.not operand).Fits least rest →
          Climbs least ((Expr.not operand).parsed needs) rest result behind →
            Binary least ((Expr.not operand).tokens needs ++ rest) result behind :=
        fun _ rest _ _ _ climbs => .of_unary (.not (Expr.unary_brackets needs ih.1 rest)) climbs
      exact ⟨parses, fun op => whole _ parses op trivial⟩
  | bin op left right ihLeft ihRight =>
      have parses : ∀ least rest result behind, (Expr.bin op left right).Fits least rest →
          Climbs least ((Expr.bin op left right).parsed needs) rest result behind →
            Binary least ((Expr.bin op left right).tokens needs ++ rest) result behind := by
        intro least rest result behind fits climbs
        have chain := ihRight.2 op least (left.parsed needs) rest result behind fits.1 fits.2
          (by simpa [Expr.parsed] using climbs)
        rw [Expr.tokens, List.append_assoc]
        by_cases brackets : needs op left
        · simp only [brackets, if_true]
          exact .of_unary (Expr.unary_brackets needs ihLeft.1 _) chain
        · simp only [brackets, Bool.false_eq_true, if_false]
          refine ihLeft.1 _ _ _ _ ?_ chain
          cases left with
          | bin inner first second =>
              have same := bare op inner first second (by simpa using brackets)
              rw [same]
              exact ⟨fits.1, .op op _⟩
          | _ => trivial
      refine ⟨parses, ?_⟩
      intro outer least chain rest result behind binds stops climbs
      by_cases brackets : needs outer (.bin op left right)
      · exact whole _ parses outer brackets least chain rest result behind binds stops climbs
      · have same := bare outer op left right (by simpa using brackets)
        subst same
        rw [Expr.graft, if_neg brackets] at climbs
        have tail := ihRight.2 op least _ rest result behind binds stops climbs
        have head := ihLeft.2 op least chain _ result behind binds (.op op _) tail
        simpa [brackets, Expr.tokens] using head

theorem Expr.binary_tokens (expr : Expr) :
    Binary 0 (expr.tokens needs) (expr.parsed needs) [] := by
  have fits : expr.Fits 0 [] := by
    cases expr with
    | bin op left right => exact ⟨Nat.zero_le _, .nil _⟩
    | _ => trivial
  have whole := (Expr.parses_tokens needs bare expr).1 0 [] _ _ fits (.stop _ (.nil 0))
  simpa using whole

end Parsing

/-! ## Values -/

section Values

variable (declared : List Char → ScalarType)

/-- The operators of a bare right operand regroup behind a chain of the given type. -/
def Expr.Chain (op : BinOp) (type : NumType) : Expr → Bool
  | .bin inner left right =>
      needs op (.bin inner left right) ||
        (op.Regroups type (left.type declared) (right.type declared) && left.Chain op type &&
          right.Chain op (op.type type (left.type declared)))
  | _ => true

/-- Every bare right operand regroups. -/
def Expr.Grouped : Expr → Bool
  | .var _ | .lit _ => true
  | .neg operand | .not operand => operand.Grouped
  | .bin op left right =>
      left.Grouped && right.Grouped && right.Chain needs declared op (left.type declared)

variable {declared}
variable {F : Type} (unit : FloatUnit F) (stored : ∀ name, (declared name).Stored F)

theorem Expr.eval_graft_closed {op : BinOp} {expr chain source : Expr}
    (closed : expr.Closed needs op)
    (same : (expr.parsed needs).eval unit (assign stored) = expr.eval unit (assign stored))
    (chained : chain.eval unit (assign stored) = source.eval unit (assign stored)) :
    (expr.graft needs op chain).eval unit (assign stored) =
      (Expr.bin op source expr).eval unit (assign stored) := by
  rw [Expr.graft_closed needs closed, Expr.eval_congr_left unit _ op _ chained,
    Expr.eval_congr_right unit _ op _ same]

theorem Expr.eval_parsed_and_graft
    (bare : ∀ op inner left right, needs op (.bin inner left right) = false → inner = op)
    (expr : Expr) (grouped : expr.Grouped needs declared) :
    (expr.parsed needs).eval unit (assign stored) = expr.eval unit (assign stored) ∧
      ∀ op chain source, chain.eval unit (assign stored) = source.eval unit (assign stored) →
        expr.Chain needs declared op (source.type declared) →
          (expr.graft needs op chain).eval unit (assign stored) =
            (Expr.bin op source expr).eval unit (assign stored) := by
  induction expr with
  | var name => exact ⟨rfl, fun op _ _ chained _ => eval_graft_closed needs unit stored trivial rfl chained⟩
  | lit digits =>
      exact ⟨rfl, fun op _ _ chained _ => eval_graft_closed needs unit stored trivial rfl chained⟩
  | neg operand ih =>
      have same : ((Expr.neg operand).parsed needs).eval unit (assign stored) =
          (Expr.neg operand).eval unit (assign stored) := by
        simp only [Expr.parsed, Expr.eval, (ih grouped).1]
      exact ⟨same, fun op _ _ chained _ => eval_graft_closed needs unit stored trivial same chained⟩
  | not operand ih =>
      have same : ((Expr.not operand).parsed needs).eval unit (assign stored) =
          (Expr.not operand).eval unit (assign stored) := by
        simp only [Expr.parsed, Expr.eval, (ih grouped).1]
      exact ⟨same, fun op _ _ chained _ => eval_graft_closed needs unit stored trivial same chained⟩
  | bin inner left right ihLeft ihRight =>
      simp only [Expr.Grouped, Bool.and_eq_true] at grouped
      obtain ⟨⟨groupedLeft, groupedRight⟩, regroups⟩ := grouped
      have same : ((Expr.bin inner left right).parsed needs).eval unit (assign stored) =
          (Expr.bin inner left right).eval unit (assign stored) :=
        (ihRight groupedRight).2 inner (left.parsed needs) left (ihLeft groupedLeft).1 regroups
      refine ⟨same, ?_⟩
      rintro op chain source chained further
      by_cases brackets : needs op (.bin inner left right)
      · exact eval_graft_closed needs unit stored brackets same chained
      · -- The parts of the operand follow the chain one after the other.
        have equal := bare op inner left right (by simpa using brackets)
        subst equal
        simp only [Expr.Chain, brackets, Bool.false_or, Bool.and_eq_true] at further
        obtain ⟨⟨here, first⟩, second⟩ := further
        have head := (ihLeft groupedLeft).2 inner chain source chained first
        have tail := (ihRight groupedRight).2 inner _ (.bin inner source left) head second
        rw [Expr.graft, if_neg brackets, tail]
        exact (Expr.eval_regroup unit stored source left right here).symm

/-- The parser gives a tree of the same value. -/
theorem Expr.eval_parsed
    (bare : ∀ op inner left right, needs op (.bin inner left right) = false → inner = op)
    (expr : Expr) (grouped : expr.Grouped needs declared) :
    (expr.parsed needs).eval unit (assign stored) = expr.eval unit (assign stored) :=
  (Expr.eval_parsed_and_graft needs unit stored bare expr grouped).1

end Values

end OpenCLDecompiler.Library.C
