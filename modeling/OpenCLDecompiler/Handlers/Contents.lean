import OpenCLDecompiler.Library.Packed
import OpenCLDecompiler.Optimizations.Logical
import OpenCLDecompiler.Registers.Reg

/-!
# Contents of registers

What the handlers of instructions read: the contents of the registers, the operands,
and the expression that `get_expression_node` finds for an operand.
-/

namespace OpenCLDecompiler.Handlers

export Optimizations (Node)

open Library.Packed Optimizations Registers

variable {τ ι : Type} {w : Nat}

/-- `RegisterContent` with the integer node that `get_expression_node` finds for it. -/
structure Content (τ ι : Type) where
  value : String
  type : RegisterType
  expression : Node τ ι
  integral : expression.Integral

/-- A part of a `CombinedRegisterContent`. -/
structure Field (τ ι : Type) extends Content τ ι where
  size : Nat

/-- `RegisterContent` or `CombinedRegisterContent`. -/
inductive RegisterContent (τ ι : Type) where
  | plain (content : Content τ ι)
  | combined (first : Field τ ι) (rest : List (Field τ ι))

namespace RegisterContent

/-- What the getters answer from: of a combined content the first part. -/
def content : RegisterContent τ ι → Content τ ι
  | plain content => content
  | combined first _ => first.toContent

def type (content : RegisterContent τ ι) : RegisterType := content.content.type

def value (content : RegisterContent τ ι) : String := content.content.value

def expression (content : RegisterContent τ ι) : Node τ ι := content.content.expression

end RegisterContent

/-! ## Values -/

/-- The value of a part and its size. -/
def Field.piece (meaning : Meaning τ ι (BitVec w)) (field : Field τ ι) : Piece w :=
  ⟨field.expression.eval meaning, field.size⟩

namespace RegisterContent

/-- What the register holds: of a combined content the parts one above the other. -/
def held (meaning : Meaning τ ι (BitVec w)) : RegisterContent τ ι → BitVec w
  | plain content => content.expression.eval meaning
  | combined first rest => pack 0 ((first :: rest).map (Field.piece meaning))

/-- The parts of a combined content take no more bits than they have. -/
def Fitting (meaning : Meaning τ ι (BitVec w)) : RegisterContent τ ι → Prop
  | plain _ => True
  | combined first rest => Fits ((first :: rest).map (Field.piece meaning))

end RegisterContent

/-! ## Masks of combined contents -/

/-- `_maybe_acquire_content`, from bit `pos` on. -/
def acquireContent (begin last : Nat) : Nat → List (Field τ ι) → Option (Content τ ι)
  | _, [] => none
  | pos, field :: rest =>
      if pos = begin ∧ last < pos + field.size then some field.toContent
      else acquireContent begin last (pos + field.size) rest

/-- `CombinedRegisterContent & mask`; `none` is an exception of the register that is made of it. -/
def maskFields (types : Types τ) (fields : List (Field τ ι)) (mask : Nat) :
    Option (Content τ ι) :=
  if mask = 0 then
    some {
      value := "0"
      type := .unknown
      expression := .const (.int 0) (types.const types.uint)
      integral := rfl }
  else if oneRun mask.bits then
    acquireContent (zeros mask.bits) (zeros mask.bits + ones mask.bits - 1) 0 fields
  else none

theorem acquireContent_spec {begin last pos : Nat} {fields : List (Field τ ι)}
    {content : Content τ ι} (found : acquireContent begin last pos fields = some content) :
    ∃ before field after, fields = before ++ field :: after ∧ content = field.toContent ∧
      pos + (before.map Field.size).sum = begin ∧ last < begin + field.size := by
  induction fields generalizing pos with
  | nil => cases found
  | cons field rest ih =>
      unfold acquireContent at found
      split at found
      · rename_i here
        cases found
        exact ⟨[], field, rest, rfl, rfl, here.1, here.1 ▸ here.2⟩
      · obtain ⟨before, other, after, rfl, same, start, room⟩ := ih found
        refine ⟨field :: before, other, after, rfl, same, ?_, room⟩
        rw [List.map_cons, List.sum_cons, ← Nat.add_assoc]
        exact start

/--
A part that is acquired is what the mask leaves of the register if it stands at the
lowest bit and the mask covers its bits, or if it is 0.
-/
theorem acquired_eq_iff {types : Types τ} {first : Field τ ι} {rest : List (Field τ ι)} {mask : Nat}
    {content : Content τ ι} (nonzero : mask ≠ 0)
    (found : maskFields types (first :: rest) mask = some content)
    {meaning : Meaning τ ι (BitVec w)}
    (fitting : (RegisterContent.combined first rest).Fitting meaning) :
    content.expression.eval meaning =
        (RegisterContent.combined first rest).held meaning &&& BitVec.ofNat w mask ↔
      zeros mask.bits = 0 ∧ (content.expression.eval meaning).toNat < 2 ^ ones mask.bits ∨
        content.expression.eval meaning = 0#w := by
  rw [maskFields, if_neg nonzero] at found
  split at found
  · rename_i run
    obtain ⟨before, field, after, split, rfl, start, room⟩ := acquireContent_spec found
    have some_ := ones_pos nonzero run
    have parts : (first :: rest).map (Field.piece meaning) =
        before.map (Field.piece meaning) ++ field.piece meaning :: after.map (Field.piece meaning) := by
      rw [split, List.map_append, List.map_cons]
    have low : zeros mask.bits = width (before.map (Field.piece meaning)) := by
      rw [width, List.map_map, ← start, Nat.zero_add]
      rfl
    have fits : Fits (before.map (Field.piece meaning) ++
        field.piece meaning :: after.map (Field.piece meaning)) := parts ▸ fitting
    have few : ones mask.bits ≤ (field.piece meaning).size := by
      have size : (field.piece meaning).size = field.size := rfl
      omega
    rw [RegisterContent.held, parts]
    exact value_eq_pack_and_iff fits run low few
  · cases found

/-! ## Operands -/

/-- `Node.state`: every word was written before it is read, a pair perhaps only in its halves. -/
structure State (τ ι : Type) where
  words : Reg32 → RegisterContent τ ι
  integrity : Reg32 → Integrity
  pairs : Reg64 → Option (RegisterContent τ ι)

/-- `Reg32`, `Reg64` or `Val`. -/
inductive Operand where
  | word (reg : Reg32)
  | pair (reg : Reg64)
  | val (value : ConstValue)

namespace Operand

/-- `operand.name in state`. -/
def inState (state : State τ ι) : Operand → Bool
  | word _ => true
  | pair reg => (state.pairs reg).isSome
  | val _ => false

/-- `get_reg_rang(operand)[0]` in the state; an immediate has no register. -/
def firstWord (state : State τ ι) : Operand → Option (RegisterContent τ ι)
  | word reg => some (state.words reg)
  | pair reg => some (state.words reg.lo)
  | val _ => none

/--
`get_expression_node` with the type of the instruction; for a pair that was written in
halves the low half answers.
-/
def expression (hint : τ) (state : State τ ι) : Operand → Node τ ι
  | word reg => (state.words reg).expression
  | pair reg => ((state.pairs reg).getD (state.words reg.lo)).expression
  | val value => .const value hint

/-- The value of the operand. -/
def held (state : State τ ι) (meaning : Meaning τ ι (BitVec w)) : Operand → BitVec w
  | word reg => (state.words reg).held meaning
  | pair reg => ((state.pairs reg).getD (state.words reg.lo)).held meaning
  | val value => value.eval

end Operand

/-- What the registers hold is as their contents say. -/
structure State.Admits (state : State τ ι) (meaning : Meaning τ ι (BitVec w)) : Prop where
  words : ∀ reg, (state.words reg).Fitting meaning
  pairs : ∀ reg content, state.pairs reg = some content → content.Fitting meaning

/-! ## Texts -/

/-- What a handler gives to `make_op`. -/
inductive Argument where
  | register (operand : Operand)
  | name (operand : Operand)

/-- `make_op`, without its text: a name in place of a register is an `AssertionError`. -/
def makeOp : Argument → Argument → Option Unit
  | .register _, .register _ => some ()
  | _, _ => none

end OpenCLDecompiler.Handlers
