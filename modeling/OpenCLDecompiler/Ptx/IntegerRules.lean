import Mathlib.Logic.Function.Basic
import OpenCLDecompiler.Library.Words

/-!
# The PTX rules for integers

`instruction_rules` turns an instruction into an IR instruction, whose
`to_fill_node` emits backend instructions.  These mean what their opcodes mean in
the instruction set, on the operands that their classes pick; an operand that a
class cannot read is an exception.
-/

namespace OpenCLDecompiler.Ptx.IntegerRules

open Library.Words

/-! ## Registers -/

/-- A register of the PTX text or one of `TemporaryVariableAllocator`. -/
inductive RegName where
  | source (name : String)
  | temp (name : String)
  deriving DecidableEq, Repr

/-- A `Reg32`, or the first or the second register of a `Reg64`. -/
inductive Cell where
  | word (name : RegName)
  | low (name : RegName)
  | high (name : RegName)
  deriving DecidableEq, Repr

structure State where
  cells : Cell → BitVec 32
  preds : String → Bool
  shared : BitVec 64 → BitVec 32

/-- `Reg32`, `Reg64`, `CompositeReg` of two registers, `PredReg` and `Val`. -/
inductive Operand where
  | reg32 (cell : Cell)
  | reg64 (name : RegName)
  | composite (low high : Cell)
  | pred (name : String)
  | val (hex : Bool) (value : Int)
  deriving DecidableEq, Repr

namespace State

def write (st : State) (cell : Cell) (value : BitVec 32) : State :=
  { st with cells := Function.update st.cells cell value }

def pair (st : State) (low high : Cell) : BitVec 64 := st.cells high ++ st.cells low

def writePair (st : State) (low high : Cell) (value : BitVec 64) : State :=
  (st.write low (value.setWidth 32)).write high ((value >>> 32).setWidth 32)

/-- The value of an operand of 32 bits. -/
def word (st : State) : Operand → Option (BitVec 32)
  | .reg32 cell => some (st.cells cell)
  | .val _ value => some (BitVec.ofInt 32 value)
  | _ => none

/-- The value of an operand of 64 bits. -/
def dword (st : State) : Operand → Option (BitVec 64)
  | .reg64 name => some (st.pair (.low name) (.high name))
  | .val _ value => some (BitVec.ofInt 64 value)
  | _ => none

end State

/-- `get_reg_rang` of a register with two parts. -/
def Operand.parts : Operand → Option (Cell × Cell)
  | .reg64 name => some (.low name, .high name)
  | .composite low high => some (low, high)
  | _ => none

/-- `int(operand.value)`, which raises for a hexadecimal text. -/
def Operand.int? : Operand → Option Int
  | .val false value => some value
  | _ => none

def Operand.isReg : Operand → Bool
  | .val _ _ => false
  | _ => true

/-! ## Backend instructions -/

inductive Backend where
  | sMovB32 (dst : Cell) (src : Operand)
  | sAndB32 (dst : Cell) (mask : Int) (src : Operand)
  | vAshrrevI32 (dst : Cell) (amount : Nat) (src : Operand)
  | vLshrrevB64 (dst src0 src1 : Operand)
  | vMad (signed : Bool) (vdst src0 src1 src2 : Operand)
  | sNotB64 (sdst ssrc0 : Operand)
  | sMinI32 (sdst ssrc0 ssrc1 : Operand)
  | vCndmaskB32 (vdst src0 src1 ssrc2 : Operand)
  | dsAddU32 (addr vdata0 : Operand)

def extend (signed : Bool) (value : BitVec 32) : BitVec 64 :=
  if signed then value.signExtend 64 else value.setWidth 64

/-- A source of `VMad`: of a pair it takes the second register. -/
def vMadSource (signed : Bool) (st : State) : Operand → Option (BitVec 64)
  | .reg32 cell => some (extend signed (st.cells cell))
  | .reg64 name => some (extend signed (st.cells (.high name)))
  | operand => operand.int?.map fun value => extend signed (BitVec.ofInt 32 value)

namespace Backend

def run (st : State) : Backend → Option State
  | .sMovB32 dst src => (st.word src).map (st.write dst)
  | .sAndB32 dst mask src =>
      if src.isReg then (st.word src).map fun value => st.write dst (BitVec.ofInt 32 mask &&& value)
      else none
  | .vAshrrevI32 dst amount src => (st.word src).map fun value => st.write dst (value.sshiftRight amount)
  | .vLshrrevB64 dst src0 src1 =>
      match dst.parts, src0.int?, src1 with
      | some (low, high), some amount, .reg64 name =>
          if 0 ≤ amount then
            some (st.writePair low high (st.pair (.low name) (.high name) >>> amount.toNat))
          else none
      | _, _, _ => none
  | .vMad signed vdst src0 src1 src2 =>
      -- A number times a register raises; a register times a number does not.
      match vdst.parts, src0.isReg, vMadSource signed st src0, vMadSource signed st src1,
        vMadSource signed st src2 with
      | some (low, high), true, some x, some y, some z => some (st.writePair low high (x * y + z))
      | _, _, _, _, _ => none
  | .sNotB64 (.reg32 dst) (.reg32 src) => some (st.write dst (~~~st.cells src))
  | .sMinI32 (.reg32 dst) (.reg32 first) (.reg32 second) =>
      let x := st.cells first
      let y := st.cells second
      some (st.write dst (if x.sle y then x else y))
  | .vCndmaskB32 (.reg32 dst) src0 src1 (.pred cond) =>
      (st.word src0).bind fun x => (st.word src1).map fun y =>
        st.write dst (if st.preds cond then x else y)
  | .vCndmaskB32 (.reg64 dst) src0 src1 (.pred cond) =>
      (st.dword src0).bind fun x => (st.dword src1).map fun y =>
        st.writePair (.low dst) (.high dst) (if st.preds cond then x else y)
  | .dsAddU32 addr (.reg32 data) =>
      (st.dword addr).map fun place =>
        { st with shared :=
            Function.update st.shared place (st.shared place + st.cells data) }
  | _ => none

/-- The backend instructions one after the other. -/
def runAll (st : State) : List Backend → Option State
  | [] => some st
  | instr :: rest => (instr.run st).bind fun after => runAll after rest

end Backend

/-! ## IR instructions -/

inductive IRType where
  | b32 | b64 | u32 | i32 | i64
  | i64I32 | u64U32 | u32U64 | u16U32 | i32I16
  deriving DecidableEq, Repr

inductive IrClass where
  | mulWide | mad | lShr | notInstruction | irMin | cSelect
  | cvt32To64 | cvt64To32 | cvt16To32
  | localAdd
  deriving DecidableEq, Repr

structure Ir where
  irClass : IrClass
  opType : IRType
  operands : List Operand

/-- `to_fill_node`; `none` is an exception. -/
def Ir.toFillNode (ir : Ir) : Option (List Backend) :=
  match ir.irClass, ir.operands with
  | .mulWide, [dst, op1, op2] =>
      some [.vMad (ir.opType = .i64I32) dst op1 op2 (.val false 0)]
  | .mad, [.reg32 dst, op1, op2, op3] =>
      -- A destination of 32 bits gets a second register of its own.
      let vdst := Operand.composite dst (.word (.temp "desthi"))
      if op3.isReg then some [.vMad (ir.opType = .i64I32) vdst op1 op2 op3]
      else
        some [.sMovB32 (.low (.temp "mad")) op3, .sMovB32 (.high (.temp "mad")) (.val false 0),
          .vMad (ir.opType = .i64I32) vdst op1 op2 (.reg64 (.temp "mad"))]
  | .lShr, [dst, op1, op2] => some [.vLshrrevB64 dst op2 op1]
  | .notInstruction, [dst, src] => some [.sNotB64 dst src]
  | .irMin, [dst, src0, src1] => some [.sMinI32 dst src0 src1]
  | .cSelect, [dst, src0, src1, cond] => some [.vCndmaskB32 dst src0 src1 cond]
  | .cvt32To64, [.reg64 dst, op1] =>
      some [.sMovB32 (.low dst) op1,
        if ir.opType = .i64I32 then .vAshrrevI32 (.high dst) 31 op1
        else .sMovB32 (.high dst) (.val false 0)]
  | .cvt64To32, [.reg32 dst, .reg64 src] => some [.sMovB32 dst (.reg32 (.low src))]
  | .cvt16To32, [.reg32 dst, op1] => some [.sAndB32 dst 0xffff op1]
  | .localAdd, [dst, value] =>
      if value.isReg then some [.dsAddU32 dst value]
      else some [.sMovB32 (.word (.temp "ladd")) value, .dsAddU32 dst (.reg32 (.word (.temp "ladd")))]
  | _, _ => none

/-! ## Instructions -/

/-- A source operand of PTX: a register or a number. -/
inductive Source where
  | reg (name : String)
  | imm (hex : Bool) (value : Int)
  deriving DecidableEq, Repr

namespace Source

def isReg : Source → Bool
  | .reg _ => true
  | .imm _ _ => false

def isHex : Source → Bool
  | .imm hex _ => hex
  | .reg _ => false

def operand32 : Source → Operand
  | .reg name => .reg32 (.word (.source name))
  | .imm hex value => .val hex value

def operand64 : Source → Operand
  | .reg name => .reg64 (.source name)
  | .imm hex value => .val hex value

def value32 (st : State) : Source → BitVec 32
  | .reg name => st.cells (.word (.source name))
  | .imm _ value => BitVec.ofInt 32 value

def value64 (st : State) : Source → BitVec 64
  | .reg name => st.pair (.low (.source name)) (.high (.source name))
  | .imm _ value => BitVec.ofInt 64 value

end Source

/-- The amount of a shift. -/
inductive Amount where
  | reg (name : String)
  | imm (hex : Bool) (places : Nat)
  deriving DecidableEq, Repr

def Amount.operand : Amount → Operand
  | .reg name => .reg32 (.word (.source name))
  | .imm hex places => .val hex places

def Amount.places (st : State) : Amount → Nat
  | .reg name => (st.cells (.word (.source name))).toNat
  | .imm _ places => places

/-- The instructions for integers that widen, narrow, select or combine. -/
inductive Instruction where
  | mulWideS32 (d : String) (a b : Source)
  | mulWideU32 (d : String) (a b : Source)
  | madLoS32 (d : String) (a b c : Source)
  | shrS64 (d : String) (a : Source) (b : Amount)
  | negS32 (d : String) (a : Source)
  | minS32 (d : String) (a b : Source)
  | selpB32 (d : String) (a b : Source) (p : String)
  | selpB64 (d : String) (a b : Source) (p : String)
  | cvtS64S32 (d : String) (a : Source)
  | cvtU64U32 (d : String) (a : Source)
  | cvtU32U64 (d : String) (a : Source)
  | cvtU16U32 (d : String) (a : Source)
  | cvtS32S16 (d : String) (a : Source)
  | atomSharedAddU32 (d address : String) (b : Source)

namespace Instruction

def dst32 (d : String) : Operand := .reg32 (.word (.source d))

def dst64 (d : String) : Operand := .reg64 (.source d)

/-- `instruction_rules`: the class and the type of each opcode; the atomic drops its destination. -/
def rule : Instruction → Ir
  | .mulWideS32 d a b => ⟨.mulWide, .i64I32, [dst64 d, a.operand32, b.operand32]⟩
  | .mulWideU32 d a b => ⟨.mulWide, .u64U32, [dst64 d, a.operand32, b.operand32]⟩
  | .madLoS32 d a b c => ⟨.mad, .i64I32, [dst32 d, a.operand32, b.operand32, c.operand32]⟩
  | .shrS64 d a b => ⟨.lShr, .i64, [dst64 d, a.operand64, b.operand]⟩
  | .negS32 d a => ⟨.notInstruction, .i32, [dst32 d, a.operand32]⟩
  | .minS32 d a b => ⟨.irMin, .i32, [dst32 d, a.operand32, b.operand32]⟩
  | .selpB32 d a b p => ⟨.cSelect, .b32, [dst32 d, a.operand32, b.operand32, .pred p]⟩
  | .selpB64 d a b p => ⟨.cSelect, .b64, [dst64 d, a.operand64, b.operand64, .pred p]⟩
  | .cvtS64S32 d a => ⟨.cvt32To64, .i64I32, [dst64 d, a.operand32]⟩
  | .cvtU64U32 d a => ⟨.cvt32To64, .u64U32, [dst64 d, a.operand32]⟩
  | .cvtU32U64 d a => ⟨.cvt64To32, .u32U64, [dst32 d, a.operand64]⟩
  | .cvtU16U32 d a => ⟨.cvt16To32, .u16U32, [dst32 d, a.operand32]⟩
  | .cvtS32S16 d a => ⟨.cvt16To32, .i32I16, [dst32 d, a.operand32]⟩
  | .atomSharedAddU32 _ address b => ⟨.localAdd, .u32, [.reg64 (.source address), b.operand32]⟩

/-- The state behind the instruction. -/
def execute (st : State) (instr : Instruction) : Option State :=
  instr.rule.toFillNode.bind (Backend.runAll st)

/-- The destination of an instruction has the value that PTX defines. -/
def Defines (before after : State) : Instruction → Prop
  | .mulWideS32 d a b =>
      (Source.reg d).value64 after =
        (a.value32 before).signExtend 64 * (b.value32 before).signExtend 64
  | .mulWideU32 d a b =>
      (Source.reg d).value64 after =
        (a.value32 before).setWidth 64 * (b.value32 before).setWidth 64
  | .madLoS32 d a b c =>
      (Source.reg d).value32 after =
        a.value32 before * b.value32 before + c.value32 before
  | .shrS64 d a b =>
      (Source.reg d).value64 after = (a.value64 before).sshiftRight (b.places before)
  | .negS32 d a => (Source.reg d).value32 after = -a.value32 before
  | .minS32 d a b =>
      (Source.reg d).value32 after =
        if (a.value32 before).sle (b.value32 before) then a.value32 before else b.value32 before
  | .selpB32 d a b p =>
      (Source.reg d).value32 after =
        if before.preds p then a.value32 before else b.value32 before
  | .selpB64 d a b p =>
      (Source.reg d).value64 after =
        if before.preds p then a.value64 before else b.value64 before
  | .cvtS64S32 d a => (Source.reg d).value64 after = (a.value32 before).signExtend 64
  | .cvtU64U32 d a => (Source.reg d).value64 after = (a.value32 before).setWidth 64
  | .cvtU32U64 d a => (Source.reg d).value32 after = (a.value64 before).setWidth 32
  | .cvtU16U32 d a =>
      (Source.reg d).value32 after = ((a.value32 before).setWidth 16).setWidth 32
  | .cvtS32S16 d a =>
      (Source.reg d).value32 after = ((a.value32 before).setWidth 16).signExtend 32
  | .atomSharedAddU32 d address _ =>
      (Source.reg d).value32 after = before.shared ((Source.reg address).value64 before)

/-- The rule of the instruction leaves the value that PTX defines. -/
def Correct (before : State) (instr : Instruction) : Prop :=
  ∃ after, instr.execute before = some after ∧ instr.Defines before after

/-- When the rule is right. -/
def Holds (before : State) : Instruction → Prop
  | .mulWideS32 _ a b | .mulWideU32 _ a b => a.isReg ∧ ¬ b.isHex
  | .madLoS32 _ a b c => a.isReg ∧ ¬ b.isHex ∧ (c.isReg ∨ c.value32 before = 0)
  | .shrS64 _ a (.imm false places) =>
      a.isReg ∧ ((a.value64 before).msb = false ∨ places = 0)
  | .shrS64 _ _ _ => False
  | .negS32 _ _ => False
  | .minS32 _ a b => a.isReg ∧ b.isReg
  | .selpB32 _ _ _ _ | .selpB64 _ _ _ _ => True
  | .cvtS64S32 _ _ | .cvtU64U32 _ _ => True
  | .cvtU32U64 _ a | .cvtU16U32 _ a => a.isReg
  | .cvtS32S16 _ a => a.isReg ∧ (a.value32 before).getLsbD 15 = false
  | .atomSharedAddU32 d address _ =>
      (Source.reg d).value32 before = before.shared ((Source.reg address).value64 before)

end Instruction

/-! ## Bits -/

theorem State.pair_writePair (st : State) (name : RegName) (value : BitVec 64) :
    (st.writePair (.low name) (.high name) value).pair (.low name) (.high name) = value := by
  simp only [pair, writePair, write, Function.update_self]
  rw [Function.update_of_ne (by simp), Function.update_self, append_halves]

theorem setWidth_signExtend (value : BitVec 32) : (value.signExtend 64).setWidth 32 = value := by
  apply BitVec.eq_of_getLsbD_eq
  intro place small
  have wide : place < 64 := by omega
  simp [BitVec.getElem_signExtend, small, wide]

theorem signExtend_high (value : BitVec 32) :
    value.sshiftRight 31 ++ value = value.signExtend 64 := by
  apply BitVec.eq_of_getLsbD_eq
  intro place small
  rw [BitVec.getLsbD_append, BitVec.getLsbD_signExtend]
  by_cases inLow : place < 32
  · simp [inLow, small]
  · have inHigh : ¬ 31 + (place - 32) < 32 ∨ place = 32 := by omega
    rcases inHigh with beyond | rfl
    · simp [inLow, small, BitVec.getLsbD_sshiftRight, beyond]
      omega
    · simp [BitVec.getElem_sshiftRight, BitVec.msb_eq_getLsbD_last]

theorem zeroExtend_high (value : BitVec 32) : 0#32 ++ value = value.setWidth 64 := by
  apply BitVec.eq_of_getLsbD_eq
  intro place small
  rw [BitVec.getLsbD_append]
  by_cases inLow : place < 32
  · simp [inLow, small]
  · have beyond : 32 ≤ place := by omega
    simp [inLow, BitVec.getLsbD_of_ge value place beyond]

theorem ushiftRight_eq_sshiftRight_iff (value : BitVec 64) (places : Nat) :
    value >>> places = value.sshiftRight places ↔ value.msb = false ∨ places = 0 := by
  constructor
  · intro same
    by_contra neither
    obtain ⟨negative, some⟩ := not_or.mp neither
    have last : (value >>> places).getLsbD 63 = (value.sshiftRight places).getLsbD 63 := by
      rw [same]
    have beyond : 64 ≤ places + 63 := by omega
    have past : ¬ places + 63 < 64 := by omega
    have sign : value.msb = true := by simpa using negative
    rw [BitVec.getLsbD_ushiftRight, BitVec.getLsbD_of_ge value _ beyond,
      BitVec.getLsbD_sshiftRight, if_neg past, sign] at last
    exact absurd last (by decide)
  · rintro (positive | rfl)
    · exact (BitVec.sshiftRight_eq_of_msb_false positive).symm
    · simp

theorem not_ne_neg (value : BitVec 32) : ~~~value ≠ -value := by
  rw [BitVec.neg_eq_not_add]
  simp

theorem and_mask (value : BitVec 32) :
    BitVec.ofInt 32 0xffff &&& value = (value.setWidth 16).setWidth 32 := by
  apply BitVec.eq_of_getLsbD_eq
  intro place small
  have mask : (BitVec.ofInt 32 0xffff).getLsbD place = decide (place < 16) := by
    revert place
    decide
  rw [BitVec.getLsbD_and, mask]
  by_cases low : place < 16 <;> simp [low, small]

theorem and_mask_eq_signExtend_iff (value : BitVec 32) :
    BitVec.ofInt 32 0xffff &&& value = (value.setWidth 16).signExtend 32 ↔
      value.getLsbD 15 = false := by
  have sign : (value.setWidth 16).msb = value.getLsbD 15 := by
    simp [BitVec.msb_eq_getLsbD_last]
  rw [and_mask]
  constructor
  · intro same
    have last : ((value.setWidth 16).setWidth 32).getLsbD 31 =
        ((value.setWidth 16).signExtend 32).getLsbD 31 := by rw [same]
    simpa [BitVec.getElem_signExtend, sign] using last.symm
  · intro positive
    rw [BitVec.signExtend_eq_setWidth_of_msb_false (sign.trans positive)]

theorem setWidth_extend (signed : Bool) (value : BitVec 32) :
    (extend signed value).setWidth 32 = value := by
  cases signed
  · simp [extend]
  · exact setWidth_signExtend value

/-- The low half of a product does not depend on the extension. -/
theorem setWidth_mad (signed : Bool) (x y z : BitVec 32) :
    (extend signed x * extend signed y + extend signed z).setWidth 32 = x * y + z := by
  rw [BitVec.setWidth_add _ _ (by decide), BitVec.setWidth_mul _ _ (by decide)]
  simp only [setWidth_extend]

/-! ## The rules -/

namespace Instruction

-- An instruction is executed by unfolding its rule.
attribute [local simp] Correct execute rule Ir.toFillNode Backend.runAll Backend.run Defines

theorem mulWide_iff (signed : Bool) (before : State) (d : String) (a b : Source) :
    (∃ after, Backend.run before (.vMad signed (dst64 d) a.operand32 b.operand32 (.val false 0)) =
        some after ∧
      (Source.reg d).value64 after =
        extend signed (a.value32 before) * extend signed (b.value32 before)) ↔
      a.isReg ∧ ¬ b.isHex := by
  cases a with
  | imm hex value => simp [dst64, Operand.parts, Source.operand32, Operand.isReg, Source.isReg]
  | reg first =>
      have zero : extend signed 0#32 = 0#64 := by cases signed <;> rfl
      cases b with
      | reg second =>
          simp [dst64, Operand.parts, Source.operand32, Operand.isReg, Source.isReg, Source.isHex,
            vMadSource, Operand.int?, Source.value64, Source.value32, State.pair_writePair, zero]
      | imm hex value =>
          cases hex <;>
            simp [dst64, Operand.parts, Source.operand32, Operand.isReg, Source.isReg,
              Source.isHex, vMadSource, Operand.int?, Source.value64, Source.value32,
              State.pair_writePair, zero]

theorem madLo_iff (before : State) (d : String) (a b c : Source) :
    (Instruction.madLoS32 d a b c).Correct before ↔
      a.isReg ∧ ¬ b.isHex ∧ (c.isReg ∨ c.value32 before = 0) := by
  cases a with
  | imm hex value =>
      cases c <;> simp [dst32, Source.operand32, Operand.isReg, Source.isReg, Operand.parts,
        State.word]
  | reg first =>
      have low (st : State) (value : BitVec 64) (cell : Cell) (other : cell ≠ .word (.temp "desthi")) :
          (st.writePair cell (.word (.temp "desthi")) value).cells cell = value.setWidth 32 := by
        simp [State.writePair, State.write, Function.update_of_ne other]
      cases c with
      | reg third =>
          rcases b with second | ⟨_ | _, value⟩ <;>
            simp [dst32, Source.operand32, Operand.isReg, Source.isReg, Source.isHex,
              Operand.parts, vMadSource, Operand.int?, Source.value32, low, setWidth_mad]
      | imm hex value =>
          rcases b with second | ⟨_ | _, other⟩ <;>
            simp [dst32, Source.operand32, Operand.isReg, Source.isReg, Source.isHex,
              Operand.parts, vMadSource, Operand.int?, Source.value32, low, setWidth_mad,
              State.word, State.write]

theorem shr_iff (before : State) (d : String) (a : Source) (b : Amount) :
    (Instruction.shrS64 d a b).Correct before ↔ (Instruction.shrS64 d a b).Holds before := by
  rcases b with amount | ⟨_ | _, places⟩
  · simp [dst64, Amount.operand, Operand.parts, Operand.int?, Holds]
  · cases a with
    | imm hex value =>
        simp [dst64, Amount.operand, Operand.parts, Operand.int?, Holds, Source.operand64,
          Source.isReg]
    | reg first =>
        simp [dst64, Amount.operand, Operand.parts, Operand.int?, Holds, Source.operand64,
          Source.isReg, Source.value64, State.pair_writePair, Amount.places,
          ushiftRight_eq_sshiftRight_iff]
  · simp [dst64, Amount.operand, Operand.parts, Operand.int?, Holds]

theorem neg_false (before : State) (d : String) (a : Source) :
    ¬ (Instruction.negS32 d a).Correct before := by
  cases a with
  | imm hex value =>
      simp [dst32, Source.operand32]
  | reg first =>
      simp [dst32, Source.operand32, Source.value32, State.write, not_ne_neg]

theorem min_iff (before : State) (d : String) (a b : Source) :
    (Instruction.minS32 d a b).Correct before ↔ a.isReg ∧ b.isReg := by
  cases a with
  | imm hex value =>
      simp [dst32, Source.operand32, Source.isReg]
  | reg first =>
      cases b with
      | imm hex value =>
          simp [dst32, Source.operand32, Source.isReg]
      | reg second =>
          refine iff_of_true ⟨_, rfl, ?_⟩ ⟨rfl, rfl⟩
          simp only [Defines, Source.value32, State.write, Function.update_self]
          rfl

theorem selpB32_correct (before : State) (d : String) (a b : Source) (p : String) :
    (Instruction.selpB32 d a b p).Correct before := by
  cases a <;> cases b <;>
    simp [dst32, Source.operand32, Source.value32, State.write, State.word]

theorem selpB64_correct (before : State) (d : String) (a b : Source) (p : String) :
    (Instruction.selpB64 d a b p).Correct before := by
  cases a <;> cases b <;>
    simp [dst64, Source.operand64, Source.value64, State.dword, State.pair_writePair]

theorem cvtS64S32_correct (before : State) (d : String) (a : Source) :
    (Instruction.cvtS64S32 d a).Correct before := by
  cases a <;>
    simp [dst64, Source.operand32, Source.value64, Source.value32, State.word, State.write,
      State.pair, signExtend_high]

theorem cvtU64U32_correct (before : State) (d : String) (a : Source) :
    (Instruction.cvtU64U32 d a).Correct before := by
  cases a <;>
    simp [dst64, Source.operand32, Source.value64, Source.value32, State.word, State.write,
      State.pair, zeroExtend_high]

theorem cvtU32U64_iff (before : State) (d : String) (a : Source) :
    (Instruction.cvtU32U64 d a).Correct before ↔ a.isReg := by
  cases a with
  | imm hex value =>
      simp [dst32, Source.operand64, Source.isReg]
  | reg first =>
      simp [dst32, Source.operand64, Source.isReg, Source.value64, Source.value32, State.word,
        State.write, State.pair, setWidth_append_low]

theorem cvtU16U32_iff (before : State) (d : String) (a : Source) :
    (Instruction.cvtU16U32 d a).Correct before ↔ a.isReg := by
  have mask := and_mask (a.value32 before)
  cases a <;>
    simp_all [dst32, Source.operand32, Source.isReg, Source.value32, State.word, State.write,
      Operand.isReg]

theorem cvtS32S16_iff (before : State) (d : String) (a : Source) :
    (Instruction.cvtS32S16 d a).Correct before ↔
      a.isReg ∧ (a.value32 before).getLsbD 15 = false := by
  have mask := and_mask_eq_signExtend_iff (a.value32 before)
  cases a <;>
    simp_all [dst32, Source.operand32, Source.isReg, Source.value32, State.word, State.write,
      Operand.isReg]

theorem atomSharedAddU32_iff (before : State) (d address : String) (b : Source) :
    (Instruction.atomSharedAddU32 d address b).Correct before ↔
      (Source.reg d).value32 before = before.shared ((Source.reg address).value64 before) := by
  cases b <;>
    simp [Source.operand32, Operand.isReg, Source.value32, Source.value64, State.word, State.dword,
      State.write, State.pair]

end Instruction

end OpenCLDecompiler.Ptx.IntegerRules
