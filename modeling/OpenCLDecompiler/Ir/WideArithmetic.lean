import Mathlib.Logic.Function.Basic
import OpenCLDecompiler.Library.Words
import OpenCLDecompiler.Registers.Reg

/-!
# Products and differences of 64 bits

`MulLo`, `MulHi` and `Sub` become backend instructions on words.  The handlers of
these record an expression for the destination; here a register has the value of
its expression.  `none` is an exception.
-/

namespace OpenCLDecompiler.Ir.WideArithmetic

open Library.Words Registers

/-- `Reg32` or `Val`. -/
inductive Part where
  | word (reg : Reg32)
  | val (value : Int)
  deriving DecidableEq

/-- A pair of words or an immediate. -/
inductive Operand where
  | pair (reg : Reg64)
  | val (value : Int)
  deriving DecidableEq

/-- `get_reg_rang`: an immediate is its only part. -/
def Operand.rang : Operand → List Part
  | .pair reg => [.word reg.lo, .word reg.hi]
  | .val value => [.val value]

abbrev State := Reg32 → BitVec 32

def Part.value (state : State) : Part → BitVec 32
  | .word reg => state reg
  | .val value => BitVec.ofInt 32 value

def Operand.value (state : State) : Operand → BitVec 64
  | .pair reg => state reg.hi ++ state reg.lo
  | .val value => BitVec.ofInt 64 value

/-! ## Handlers -/

inductive BackendClass where
  | vMulLo | vMulHi | vAdd | vSub
  deriving DecidableEq

/-- What `emit_backend` gets; no handler reads the opcode. -/
structure Backend where
  backendClass : BackendClass
  opcode : String
  vdst : Reg32
  src0 : Part
  src1 : Part

/-- `VMulLo.to_fill_node` outside divisions: the integrity of an immediate does not exist. -/
def vMulLo (src0 src1 : Part) (state : State) : Option (BitVec 32) :=
  match src0 with
  | .word _ => some (src0.value state * src1.value state)
  | .val _ => none

/-- `VMulHi` inherits everything from `VMulLo`. -/
def vMulHi (src0 src1 : Part) (state : State) : Option (BitVec 32) := vMulLo src0 src1 state

/-- `VAdd.to_fill_node` outside pointers and work-item quantities. -/
def vAdd (src0 src1 : Part) (state : State) : Option (BitVec 32) :=
  some (src0.value state + src1.value state)

/-- `VSub.to_fill_node`, also of `v_subb_u32`. -/
def vSub (src0 src1 : Part) (state : State) : Option (BitVec 32) :=
  some (src0.value state - src1.value state)

def Backend.run (state : State) (instr : Backend) : Option State :=
  let handler := match instr.backendClass with
    | .vMulLo => vMulLo
    | .vMulHi => vMulHi
    | .vAdd => vAdd
    | .vSub => vSub
  (handler instr.src0 instr.src1 state).map (Function.update state instr.vdst)

/-- The backend instructions one after the other. -/
def runAll (state : State) (instrs : List Backend) : Option State := instrs.foldlM Backend.run state

/-! ## Expansions -/

/-- `MulLo.to_fill_node` of 64 bits. -/
def mulLo (destination : Reg64) (operand1 operand2 : Operand) : Option (List Backend) :=
  match operand1.rang, operand2.rang with
  | [op1Lo, op1Hi], [op2Lo, op2Hi] =>
      some
        [⟨.vMulHi, "v_mul_hi_u32", destination.lo, op1Lo, op2Lo⟩,
          ⟨.vMulLo, "v_mul_lo_u32", destination.hi, op1Lo, op2Hi⟩,
          ⟨.vAdd, "v_add_u32", destination.hi, .word destination.hi, .word destination.lo⟩,
          ⟨.vMulLo, "v_mul_lo_u32", destination.lo, op1Hi, op2Lo⟩,
          ⟨.vAdd, "v_add_u32", destination.hi, .word destination.hi, .word destination.lo⟩,
          ⟨.vMulLo, "v_mul_lo_u32", destination.lo, op1Lo, op2Lo⟩]
  | _, _ => none

/-- `MulHi.to_fill_node`. -/
def mulHi (signed : Bool) (destination : Reg32) (operand1 operand2 : Part) :
    Option (List Backend) :=
  some [⟨.vMulHi, if signed then "v_mul_hi_i32" else "s_mul_hi_u32", destination, operand1, operand2⟩]

/-- `Sub.to_fill_node` of 64 bits. -/
def sub (destination : Reg64) (operand1 operand2 : Operand) : Option (List Backend) :=
  match operand1.rang, operand2.rang with
  | [op1Lo, op1Hi], [op2Lo, op2Hi] =>
      some
        [⟨.vSub, "v_sub_u32", destination.lo, op1Lo, op2Lo⟩,
          ⟨.vSub, "v_subb_u32", destination.hi, op1Hi, op2Hi⟩]
  | _, _ => none

inductive WideInstr where
  | mulLo (destination : Reg64) (operand1 operand2 : Operand)
  | mulHi (signed : Bool) (destination : Reg32) (operand1 operand2 : Part)
  | sub (destination : Reg64) (operand1 operand2 : Operand)

namespace WideInstr

def toFillNode : WideInstr → Option (List Backend)
  | .mulLo destination operand1 operand2 => WideArithmetic.mulLo destination operand1 operand2
  | .mulHi signed destination operand1 operand2 =>
      WideArithmetic.mulHi signed destination operand1 operand2
  | .sub destination operand1 operand2 => WideArithmetic.sub destination operand1 operand2

/-- The state behind the instruction. -/
def execute (state : State) (instr : WideInstr) : Option State :=
  instr.toFillNode.bind (runAll state)

end WideInstr

/-- The product of two words as a double word. -/
def product (signed : Bool) (x y : BitVec 32) : BitVec 64 :=
  if signed then x.signExtend 64 * y.signExtend 64 else x.setWidth 64 * y.setWidth 64

/-- The value that the instruction leaves in its destination. -/
def WideInstr.Leaves (before after : State) : WideInstr → Prop
  | .mulLo destination operand1 operand2 =>
      (Operand.pair destination).value after = operand1.value before * operand2.value before
  | .mulHi signed destination operand1 operand2 =>
      after destination =
        (product signed (operand1.value before) (operand2.value before) >>> 32).setWidth 32
  | .sub destination operand1 operand2 =>
      (Operand.pair destination).value after = operand1.value before - operand2.value before

/-- From every state the expansion leaves what the instruction defines. -/
def WideInstr.Correct (instr : WideInstr) : Prop :=
  ∀ before, ∃ after, instr.execute before = some after ∧ instr.Leaves before after

/-- When the expansion is right. -/
def WideInstr.Holds : WideInstr → Prop
  | .mulLo _ _ _ => False
  | .mulHi _ _ operand1 operand2 =>
      (∃ reg, operand1 = .word reg) ∧ ∃ value, operand2 = .val value ∧ BitVec.ofInt 32 value = 0
  | .sub destination operand1 operand2 =>
      ∃ first second, operand1 = .pair first ∧ operand2 = .pair second ∧ first.lo = second.lo ∧
        (first.hi = second.hi ∨ destination.lo ≠ first.hi ∧ destination.lo ≠ second.hi)

/-! ## Products -/

/-- Every word is 0 or `2 ^ 16`, so that every product is 0. -/
def Small (state : State) : Prop := ∀ reg, state reg = 0 ∨ state reg = 0x10000

theorem Small.update {state : State} (small : Small state) (reg : Reg32) :
    Small (Function.update state reg 0) := by
  intro other
  by_cases same : other = reg
  · exact .inl (same ▸ Function.update_self ..)
  · rw [Function.update_of_ne same]
    exact small other

theorem Small.mul {state : State} (small : Small state) (first second : Reg32) :
    state first * state second = 0 := by
  rcases small first with left | left <;> rcases small second with right | right <;>
    rw [left, right] <;> rfl

theorem Small.run_mul {state : State} (small : Small state) {backendClass : BackendClass}
    (multiplies : backendClass = .vMulLo ∨ backendClass = .vMulHi) (opcode : String)
    (vdst src0 src1 : Reg32) :
    Backend.run state ⟨backendClass, opcode, vdst, .word src0, .word src1⟩ =
      some (Function.update state vdst 0) := by
  have value : vMulLo (.word src0) (.word src1) state = some 0 := congrArg some (small.mul src0 src1)
  rcases multiplies with rfl | rfl
  · exact congrArg (Option.map (Function.update state vdst)) value
  · exact congrArg (Option.map (Function.update state vdst)) value

theorem run_add_zero {state : State} {first second : Reg32} (left : state first = 0)
    (right : state second = 0) (opcode : String) (vdst : Reg32) :
    Backend.run state ⟨.vAdd, opcode, vdst, .word first, .word second⟩ =
      some (Function.update state vdst 0) := by
  have value : vAdd (.word first) (.word second) state = some 0 := by
    simp [vAdd, Part.value, left, right]
  exact congrArg (Option.map (Function.update state vdst)) value

/-- From small words, the expansion leaves 0. -/
theorem Small.mulLo {state : State} (small : Small state) (destination op1 op2 : Reg64) :
    ∃ after, WideInstr.execute state (.mulLo destination (.pair op1) (.pair op2)) = some after ∧
      after destination.hi = 0 ∧ after destination.lo = 0 := by
  obtain ⟨-, dLo, dHi, apart⟩ := destination
  have small₁ := small.update dLo
  have small₂ := small₁.update dHi
  have small₃ := small₂.update dHi
  have small₄ := small₃.update dLo
  have small₅ := small₄.update dHi
  have sum₁ : Function.update (Function.update state dLo 0) dHi 0 dLo = 0 := by
    rw [Function.update_of_ne apart, Function.update_self]
  have sum₂ : Function.update (Function.update (Function.update (Function.update state dLo 0)
      dHi 0) dHi 0) dLo 0 dHi = 0 := by
    rw [Function.update_of_ne apart.symm, Function.update_self]
  refine ⟨Function.update (Function.update (Function.update (Function.update (Function.update
    (Function.update state dLo 0) dHi 0) dHi 0) dLo 0) dHi 0) dLo 0, ?_, ?_, ?_⟩
  · simp only [WideInstr.execute, WideInstr.toFillNode, WideArithmetic.mulLo, Operand.rang,
      Option.bind_some, runAll, List.foldlM_cons, List.foldlM_nil]
    rw [small.run_mul (.inr rfl)]
    dsimp only [Option.bind_eq_bind, Option.bind_some]
    rw [small₁.run_mul (.inl rfl)]
    dsimp only [Option.bind_some]
    rw [run_add_zero (Function.update_self ..) sum₁]
    dsimp only [Option.bind_some]
    rw [small₃.run_mul (.inl rfl)]
    dsimp only [Option.bind_some]
    rw [run_add_zero sum₂ (Function.update_self ..)]
    dsimp only [Option.bind_some]
    rw [small₅.run_mul (.inl rfl)]
    rfl
  · rw [Function.update_of_ne apart.symm, Function.update_self]
  · exact Function.update_self ..

/-- Every word is `2 ^ 16`. -/
def powers : State := fun _ => 0x10000

theorem small_powers : Small powers := fun _ => .inr rfl

theorem mulLo_not_correct (destination : Reg64) (operand1 operand2 : Operand) :
    ¬(WideInstr.mulLo destination operand1 operand2).Correct := by
  intro correct
  obtain ⟨after, run, leaves⟩ := correct powers
  cases operand1 with
  | val value => cases run
  | pair op1 =>
      cases operand2 with
      | val value => cases run
      | pair op2 =>
          obtain ⟨final, runs, high, low⟩ := small_powers.mulLo destination op1 op2
          rw [run] at runs
          obtain rfl := Option.some.inj runs
          have value : ∀ reg, (Operand.pair reg).value powers = 0x1000000010000 := by
            intro reg
            exact (by decide : (0x10000 : BitVec 32) ++ (0x10000 : BitVec 32) =
              (0x1000000010000 : BitVec (32 + 32)))
          rw [WideInstr.Leaves, value, value, Operand.value, high, low] at leaves
          exact absurd leaves (by decide)

theorem mulHi_execute (signed : Bool) (destination reg : Reg32) (operand2 : Part) (state : State) :
    WideInstr.execute state (.mulHi signed destination (.word reg) operand2) =
      some (Function.update state destination (state reg * operand2.value state)) := rfl

theorem product_one (signed : Bool) (value : BitVec 32) :
    product signed 1 value = if signed then value.signExtend 64 else value.setWidth 64 := by
  have signExtended : (1 : BitVec 32).signExtend 64 = 1 := by decide
  have zeroExtended : (1 : BitVec 32).setWidth 64 = 1 := by decide
  unfold product
  rw [signExtended, zeroExtended, one_mul, one_mul]

/-- The high half of the product with 1 repeats a single bit. -/
theorem highHalf_one (signed : Bool) (value : BitVec 32) :
    (product signed 1 value >>> 32).setWidth 32 = 0 ∨
      (product signed 1 value >>> 32).setWidth 32 = BitVec.allOnes 32 := by
  rw [product_one]
  cases signed with
  | false =>
      left
      apply BitVec.eq_of_getLsbD_eq
      intro place small
      simp
  | true =>
      cases sign : value.msb with
      | false =>
          left
          apply BitVec.eq_of_getLsbD_eq
          intro place small
          simp [BitVec.getLsbD_signExtend, sign]
      | true =>
          right
          apply BitVec.eq_of_getLsbD_eq
          intro place small
          have inside : 32 + place < 64 := by omega
          rw [BitVec.getLsbD_setWidth, BitVec.getLsbD_allOnes]
          simp [BitVec.getLsbD_ushiftRight, BitVec.getLsbD_signExtend, sign, small, inside]

/-- The low product is the high one for every first factor only if the second factor is 0. -/
theorem high_eq_low_iff (signed : Bool) (value : BitVec 32) :
    (∀ x, x * value = (product signed x value >>> 32).setWidth 32) ↔ value = 0 := by
  constructor
  · intro same
    have one := same 1
    rw [one_mul] at one
    rcases highHalf_one signed value with none | all
    · exact one.trans none
    · have isOnes := one.trans all
      have two := same 2
      rw [isOnes] at two
      cases signed <;> exact absurd two (by decide)
  · rintro rfl x
    cases signed <;> simp [product]

theorem mulHi_correct_iff (signed : Bool) (destination : Reg32) (operand1 operand2 : Part) :
    (WideInstr.mulHi signed destination operand1 operand2).Correct ↔
      (WideInstr.mulHi signed destination operand1 operand2).Holds := by
  cases operand1 with
  | val value =>
      refine iff_of_false (fun correct => ?_) (fun holds => ?_)
      · obtain ⟨after, run, -⟩ := correct powers
        cases run
      · obtain ⟨⟨reg, same⟩, -⟩ := holds
        cases same
  | word reg =>
      cases operand2 with
      | word other =>
          refine iff_of_false (fun correct => ?_) (fun holds => ?_)
          · obtain ⟨after, run, leaves⟩ := correct powers
            obtain rfl := Option.some.inj ((mulHi_execute ..).symm.trans run)
            rw [WideInstr.Leaves, Function.update_self] at leaves
            change (0x10000 : BitVec 32) * 0x10000 =
              (product signed 0x10000 0x10000 >>> 32).setWidth 32 at leaves
            cases signed <;> exact absurd leaves (by decide)
          · obtain ⟨-, value, same, -⟩ := holds
            cases same
      | val value =>
          have leaves : ∀ state, WideInstr.Leaves state
              (Function.update state destination (state reg * BitVec.ofInt 32 value))
              (.mulHi signed destination (.word reg) (.val value)) ↔
              state reg * BitVec.ofInt 32 value =
                (product signed (state reg) (BitVec.ofInt 32 value) >>> 32).setWidth 32 := by
            intro state
            rw [WideInstr.Leaves, Function.update_self]
            rfl
          constructor
          · intro correct
            refine ⟨⟨reg, rfl⟩, value, rfl, (high_eq_low_iff signed _).mp fun x => ?_⟩
            obtain ⟨after, run, right⟩ := correct fun _ => x
            obtain rfl := Option.some.inj ((mulHi_execute ..).symm.trans run)
            exact (leaves _).mp right
          · rintro ⟨-, other, same, zero⟩ state
            cases same
            exact ⟨_, mulHi_execute .., (leaves state).mpr ((high_eq_low_iff signed _).mpr zero _)⟩

/-! ## Differences -/

/-- The states that tell the aliasing patterns apart: one word is 1. -/
def only (one : Reg32) : State := fun reg => if reg = one then 1 else 0

theorem only_self (one : Reg32) : only one one = 1 := if_pos rfl

theorem only_of_ne {one reg : Reg32} (different : reg ≠ one) : only one reg = 0 := if_neg different

theorem only_cases (one reg : Reg32) : only one reg = 0 ∨ only one reg = 1 := by
  unfold only
  split
  · exact .inr rfl
  · exact .inl rfl

/-- The word that the second instruction reads. -/
def behindLow (destination op1 op2 : Reg64) (state : State) (reg : Reg32) : BitVec 32 :=
  if reg = destination.lo then state op1.lo - state op2.lo else state reg

theorem sub_execute (destination op1 op2 : Reg64) (state : State) :
    ∃ after, WideInstr.execute state (.sub destination (.pair op1) (.pair op2)) = some after ∧
      after destination.lo = state op1.lo - state op2.lo ∧
      after destination.hi = behindLow destination op1 op2 state op1.hi -
        behindLow destination op1 op2 state op2.hi := by
  refine ⟨_, rfl, ?_, ?_⟩
  · rw [Function.update_of_ne destination.different, Function.update_self]
    rfl
  · rw [Function.update_self]
    simp only [Part.value, Function.update_apply, behindLow]

theorem sub_correct_iff_words (destination op1 op2 : Reg64) :
    (WideInstr.sub destination (.pair op1) (.pair op2)).Correct ↔
      ∀ state, behindLow destination op1 op2 state op1.hi -
        behindLow destination op1 op2 state op2.hi =
          state op1.hi - state op2.hi - borrow (state op1.lo) (state op2.lo) := by
  have leaves : ∀ state after : State, after destination.lo = state op1.lo - state op2.lo →
      (WideInstr.Leaves state after (.sub destination (.pair op1) (.pair op2)) ↔
        after destination.hi =
          state op1.hi - state op2.hi - borrow (state op1.lo) (state op2.lo)) := by
    intro state after low
    simp only [WideInstr.Leaves, Operand.value]
    rw [append_sub_append, append_eq_iff]
    exact and_iff_left low
  constructor
  · intro correct state
    obtain ⟨after, run, right⟩ := correct state
    obtain ⟨final, runs, low, high⟩ := sub_execute destination op1 op2 state
    rw [run] at runs
    obtain rfl := Option.some.inj runs
    rw [← high]
    exact (leaves state after low).mp right
  · intro words state
    obtain ⟨after, run, low, high⟩ := sub_execute destination op1 op2 state
    exact ⟨after, run, (leaves state after low).mpr (high.trans (words state))⟩

theorem borrow_self (x : BitVec 32) : borrow x x = 0 := if_neg (Nat.lt_irrefl _)

/-- Different low words borrow at some state, and no aliasing makes up for it. -/
theorem low_eq_of_words {destination op1 op2 : Reg64}
    (words : ∀ state, behindLow destination op1 op2 state op1.hi -
      behindLow destination op1 op2 state op2.hi =
        state op1.hi - state op2.hi - borrow (state op1.lo) (state op2.lo)) :
    op1.lo = op2.lo := by
  by_contra different
  have atSecond := words (only op2.lo)
  have atFirst := words (only op1.lo)
  have second : only op2.lo op2.hi = 0 := only_of_ne op2.different.symm
  have first : only op1.lo op1.hi = 0 := only_of_ne op1.different.symm
  simp only [behindLow, only_self, only_of_ne different, only_of_ne (Ne.symm different), first,
    second] at atSecond atFirst
  split_ifs at atSecond atFirst with left right right
  · -- Both high words are read behind the write, so they are the same word.
    rw [left.trans right.symm, second] at atSecond
    exact absurd atSecond (by decide)
  · rcases only_cases op1.lo op2.hi with value | value <;> rw [value] at atFirst <;>
      exact absurd atFirst (by decide)
  · rcases only_cases op2.lo op1.hi with value | value <;> rw [value] at atSecond <;>
      exact absurd atSecond (by decide)
  · rcases only_cases op2.lo op1.hi with value | value <;> rw [value] at atSecond <;>
      exact absurd atSecond (by decide)

theorem high_of_words {destination op1 op2 : Reg64} (low : op1.lo = op2.lo)
    (words : ∀ state, behindLow destination op1 op2 state op1.hi -
      behindLow destination op1 op2 state op2.hi =
        state op1.hi - state op2.hi - borrow (state op1.lo) (state op2.lo)) :
    op1.hi = op2.hi ∨ destination.lo ≠ op1.hi ∧ destination.lo ≠ op2.hi := by
  by_cases high : op1.hi = op2.hi
  · exact .inl high
  have wrong := words (only destination.lo)
  have written : ∀ reg, reg = destination.lo →
      behindLow destination op1 op2 (only destination.lo) reg = 0 := by
    rintro reg same
    rw [behindLow, if_pos same, low, sub_self]
  have kept : ∀ reg, reg ≠ destination.lo →
      behindLow destination op1 op2 (only destination.lo) reg = 0 := by
    rintro reg different
    rw [behindLow, if_neg different, only_of_ne different]
  rw [low, borrow_self] at wrong
  refine .inr ⟨fun first => ?_, fun second => ?_⟩
  · have other : op2.hi ≠ destination.lo := fun same => high (first.symm.trans same.symm)
    rw [written _ first.symm, kept _ other, ← first, only_self, only_of_ne other] at wrong
    exact absurd wrong (by decide)
  · have other : op1.hi ≠ destination.lo := fun same => high (same.trans second)
    rw [written _ second.symm, kept _ other, ← second, only_self, only_of_ne other] at wrong
    exact absurd wrong (by decide)

theorem words_of_aliasing {destination op1 op2 : Reg64} (low : op1.lo = op2.lo)
    (high : op1.hi = op2.hi ∨ destination.lo ≠ op1.hi ∧ destination.lo ≠ op2.hi) (state : State) :
    behindLow destination op1 op2 state op1.hi - behindLow destination op1 op2 state op2.hi =
      state op1.hi - state op2.hi - borrow (state op1.lo) (state op2.lo) := by
  rw [low, borrow_self, sub_zero]
  rcases high with same | ⟨first, second⟩
  · rw [same, sub_self, sub_self]
  · rw [behindLow, behindLow, if_neg first.symm, if_neg second.symm]

theorem sub_correct_iff (destination : Reg64) (operand1 operand2 : Operand) :
    (WideInstr.sub destination operand1 operand2).Correct ↔
      (WideInstr.sub destination operand1 operand2).Holds := by
  cases operand1 with
  | val value =>
      refine iff_of_false (fun correct => ?_) (fun holds => ?_)
      · obtain ⟨after, run, -⟩ := correct powers
        cases run
      · obtain ⟨first, second, same, -⟩ := holds
        cases same
  | pair op1 =>
      cases operand2 with
      | val value =>
          refine iff_of_false (fun correct => ?_) (fun holds => ?_)
          · obtain ⟨after, run, -⟩ := correct powers
            cases run
          · obtain ⟨first, second, -, same, -⟩ := holds
            cases same
      | pair op2 =>
          rw [sub_correct_iff_words]
          constructor
          · intro words
            have low := low_eq_of_words words
            exact ⟨op1, op2, rfl, rfl, low, high_of_words low words⟩
          · rintro ⟨first, second, same, same', low, high⟩ state
            cases same
            cases same'
            exact words_of_aliasing low high state

/-- When the expansions leave the low and the high half of a product and a difference. -/
theorem WideInstr.wide_correct_iff (instr : WideInstr) : instr.Correct ↔ instr.Holds := by
  cases instr with
  | mulLo destination operand1 operand2 =>
      exact iff_of_false (mulLo_not_correct destination operand1 operand2) id
  | mulHi signed destination operand1 operand2 =>
      exact mulHi_correct_iff signed destination operand1 operand2
  | sub destination operand1 operand2 => exact sub_correct_iff destination operand1 operand2

/-- Three pairs of different words. -/
def pairAt (name : String) : Reg64 :=
  ⟨name, ⟨name ++ "|lo"⟩, ⟨name ++ "|hi"⟩, fun same => by simpa using congrArg Reg32.name same⟩

/-- The product of `2 ^ 48 + 2 ^ 16` with itself, and 0 less 1. -/
theorem wide_wrong :
    ¬(WideInstr.mulLo (pairAt "%rd1") (.pair (pairAt "%rd2")) (.pair (pairAt "%rd3"))).Correct ∧
    ¬(WideInstr.mulHi false ⟨"%r1"⟩ (.word ⟨"%r2"⟩) (.word ⟨"%r3"⟩)).Correct ∧
    ¬(WideInstr.sub (pairAt "%rd1") (.pair (pairAt "%rd2")) (.pair (pairAt "%rd3"))).Correct := by
  refine ⟨mulLo_not_correct _ _ _, fun correct => ?_, fun correct => ?_⟩
  · obtain ⟨⟨reg, -⟩, value, same, -⟩ := (mulHi_correct_iff ..).mp correct
    cases same
  · obtain ⟨first, second, same, same', low, -⟩ := (sub_correct_iff ..).mp correct
    cases same
    cases same'
    exact absurd low (by decide)

end OpenCLDecompiler.Ir.WideArithmetic
