import Mathlib.Data.List.FinRange
import Mathlib.Logic.Function.Basic
import OpenCLDecompiler.Library.Words

/-!
# The AMD rules for masks, borrows and local memory

`instruction_rules` turns an instruction into a few IR instructions, run one
after the other on a wave of 64 work items.  An IR instruction writes its first
operand and nothing else; the instruction set also defines scc for some of the
instructions, and reads every source before it writes.
-/

namespace OpenCLDecompiler.Amd.MaskRules

open Library.Words

/-! ## Registers -/

/-- `exec`, `vcc` and the aligned pairs `s[2k:2k+1]`. -/
inductive Mask where
  | exec
  | vcc
  | pair (k : Nat)
  deriving DecidableEq, Repr

inductive Operand where
  | mask (reg : Mask)
  | sgpr (n : Nat)
  | vgpr (n : Nat)
  | vgprPair (n : Nat)
  | val (value : Int)
  | scc
  | temp (name : String)
  | lc (offset : BitVec 16)
  deriving DecidableEq, Repr

namespace Operand

def isWide : Operand → Bool
  | .mask _ | .val _ => true
  | _ => false

def isScalar : Operand → Bool
  | .mask _ | .val _ | .sgpr _ => true
  | _ => false

def isVector : Operand → Bool
  | .mask _ | .val _ | .sgpr _ | .vgpr _ | .vgprPair _ => true
  | _ => false

end Operand

/-- A source of a scalar instruction of 64 bits. -/
abbrev MaskSource := { op : Operand // op.isWide }

/-- A source of a scalar instruction. -/
abbrev ScalarSource := { op : Operand // op.isScalar }

/-- A source of a vector instruction. -/
abbrev VectorSource := { op : Operand // op.isVector }

abbrev Lane := Fin 64

/-- The registers of a wave, its local memory by the dword and the temporaries of a rule. -/
structure Wave where
  exec : BitVec 64
  vcc : BitVec 64
  scc : Bool
  sgpr : Nat → BitVec 32
  vgpr : Nat → Lane → BitVec 32
  lds : Nat → BitVec 32
  temp : String → Lane → BitVec 64

namespace Wave

def active (wave : Wave) (lane : Lane) : Bool := wave.exec.getLsbD lane

def read (wave : Wave) : Mask → BitVec 64
  | .exec => wave.exec
  | .vcc => wave.vcc
  | .pair k => wave.sgpr (2 * k + 1) ++ wave.sgpr (2 * k)

def write (wave : Wave) (value : BitVec 64) : Mask → Wave
  | .exec => { wave with exec := value }
  | .vcc => { wave with vcc := value }
  | .pair k =>
      { wave with
        sgpr := Function.update (Function.update wave.sgpr (2 * k) (value.setWidth 32))
          (2 * k + 1) ((value >>> 32).setWidth 32) }

/-- The value of an operand in a lane; a scalar has one value in all of them. -/
def value (wave : Wave) (lane : Lane) : Operand → BitVec 64
  | .mask reg => wave.read reg
  | .sgpr n => (wave.sgpr n).setWidth 64
  | .vgpr n => (wave.vgpr n lane).setWidth 64
  | .vgprPair n => wave.vgpr (n + 1) lane ++ wave.vgpr n lane
  | .val value => BitVec.ofInt 64 value
  | .scc => if wave.scc then 1 else 0
  | .temp name => wave.temp name lane
  | .lc offset => offset.setWidth 64

def scalar (wave : Wave) (op : Operand) : BitVec 64 := wave.value 0 op

def word (wave : Wave) (lane : Lane) (op : Operand) : BitVec 32 :=
  (wave.value lane op).setWidth 32

/-- The mask of the active lanes in which a condition holds. -/
def activeMask (wave : Wave) (condition : Lane → Bool) : BitVec 64 :=
  ofLanes fun lane => wave.active lane && condition lane

def writeVgpr (wave : Wave) (n : Nat) (values : Lane → BitVec 32) : Wave :=
  { wave with
    vgpr := Function.update wave.vgpr n fun lane =>
      if wave.active lane then values lane else wave.vgpr n lane }

def writeTemp (wave : Wave) (name : String) (values : Lane → BitVec 64) : Wave :=
  { wave with
    temp := Function.update wave.temp name fun lane =>
      if wave.active lane then values lane else wave.temp name lane }

/-- The active lanes change local memory, the lowest first. -/
def changedLds (wave : Wave) (address : Lane → Nat)
    (change : Lane → BitVec 32 → BitVec 32) : Nat → BitVec 32 :=
  (List.finRange 64).foldl
    (fun lds lane =>
      if wave.active lane then
        Function.update lds (address lane) (change lane (lds (address lane)))
      else lds)
    wave.lds

end Wave

/-! ## Operations -/

inductive LogicalOp where
  | and | or | xor | andn2
  deriving DecidableEq, Repr

/-- `And`, `Or` and `Xor`; the table has `Xor` for `andn2`. -/
inductive LogicalClass where
  | and | or | xor
  deriving DecidableEq, Repr

def LogicalOp.irClass : LogicalOp → LogicalClass
  | .and => .and
  | .or => .or
  | .xor | .andn2 => .xor

def LogicalOp.value (x y : BitVec 64) : LogicalOp → BitVec 64
  | .and => x &&& y
  | .or => x ||| y
  | .xor => x ^^^ y
  | .andn2 => x &&& ~~~y

def LogicalClass.value (x y : BitVec 64) : LogicalClass → BitVec 64
  | .and => x &&& y
  | .or => x ||| y
  | .xor => x ^^^ y

/-- The word of a comparison in an opcode. -/
inductive Comparison where
  | eq | ne | lg | lt | le | gt | ge
  deriving DecidableEq, Repr

inductive CompareClass where
  | eq | ne | lt | le | gt | ge
  deriving DecidableEq, Repr

/-- `get_compare_class`. -/
def getCompareClass : Comparison → CompareClass
  | .eq => .eq
  | .ne | .lg => .ne
  | .lt => .lt
  | .le => .le
  | .gt => .gt
  | .ge => .ge

/-- The suffix of a comparison. -/
inductive CompareType where
  | i16 | u16 | i32 | u32 | i64 | u64 | f16 | f32 | f64
  deriving DecidableEq, Repr

inductive IRType where
  | u32 | u64 | i32 | i64 | f32 | f64
  deriving DecidableEq, Repr

/-- `_parse_compare_type`: a suffix outside `_AMD_TYPE_BY_SUFFIX` is read as `i32`. -/
def CompareType.opType : CompareType → IRType
  | .u32 => .u32
  | .u64 => .u64
  | .i64 => .i64
  | .f32 => .f32
  | .f64 => .f64
  | .i16 | .u16 | .f16 | .i32 => .i32

def CompareClass.signed {width : Nat} (x y : BitVec width) : CompareClass → Bool
  | .eq => x == y
  | .ne => x != y
  | .lt => x.slt y
  | .le => x.sle y
  | .gt => y.slt x
  | .ge => y.sle x

def CompareClass.unsigned {width : Nat} (x y : BitVec width) : CompareClass → Bool
  | .eq => x == y
  | .ne => x != y
  | .lt => x.ult y
  | .le => x.ule y
  | .gt => y.ult x
  | .ge => y.ule x

/-- What the instruction set computes on floating point words. -/
structure FloatUnit where
  mac : BitVec 32 → BitVec 32 → BitVec 32 → BitVec 32
  compare : (width : Nat) → Comparison → BitVec width → BitVec width → Bool

/-- The comparison that the instruction set defines. -/
def FloatUnit.holds (floats : FloatUnit) (comparison : Comparison) (x y : BitVec 64) :
    CompareType → Bool
  | .i16 => (getCompareClass comparison).signed (x.setWidth 16) (y.setWidth 16)
  | .u16 => (getCompareClass comparison).unsigned (x.setWidth 16) (y.setWidth 16)
  | .i32 => (getCompareClass comparison).signed (x.setWidth 32) (y.setWidth 32)
  | .u32 => (getCompareClass comparison).unsigned (x.setWidth 32) (y.setWidth 32)
  | .i64 => (getCompareClass comparison).signed x y
  | .u64 => (getCompareClass comparison).unsigned x y
  | .f16 => floats.compare 16 comparison (x.setWidth 16) (y.setWidth 16)
  | .f32 => floats.compare 32 comparison (x.setWidth 32) (y.setWidth 32)
  | .f64 => floats.compare 64 comparison x y

/-! ## IR instructions -/

inductive Ir where
  | mov (destination source : Operand)
  | logical (irClass : LogicalClass) (destination operand1 operand2 : Operand)
  | changeMask
  | sub (destination operand1 operand2 : Operand)
  | macF32 (destination operand1 operand2 operand3 : Operand)
  | cSelect (dst src0 src1 cond : Operand)
  | compare (irClass : CompareClass) (opType : IRType) (destination operand1 operand2 : Operand)
  | cvt32To64 (destination operand1 : Operand)
  | add (destination operand1 operand2 : Operand)
  | localStore (destination val : Operand)
  | localLoad (destination fromMem : Operand)
  | localAdd (destination val : Operand)

namespace Ir

/-- `BaseCompare` emits `v_cmp_{operation}_i32`, whatever the type of the operation is. -/
def compared (wave : Wave) (lane : Lane) (irClass : CompareClass) (_opType : IRType)
    (operand1 operand2 : Operand) : Bool :=
  irClass.signed (wave.word lane operand1) (wave.word lane operand2)

def run (floats : FloatUnit) (wave : Wave) : Ir → Option Wave
  | .mov (.mask d) source => some (wave.write (wave.scalar source) d)
  | .mov (.temp name) source => some (wave.writeTemp name fun lane => wave.value lane source)
  | .logical irClass (.mask d) operand1 operand2 =>
      some (wave.write (irClass.value (wave.scalar operand1) (wave.scalar operand2)) d)
  | .changeMask => some wave
  | .sub (.sgpr d) operand1 operand2 =>
      some { wave with
        sgpr := Function.update wave.sgpr d (wave.word 0 operand1 - wave.word 0 operand2) }
  | .sub (.vgpr d) operand1 operand2 =>
      some (wave.writeVgpr d fun lane => wave.word lane operand1 - wave.word lane operand2)
  | .macF32 (.vgpr d) operand1 operand2 operand3 =>
      some (wave.writeVgpr d fun lane =>
        floats.mac (wave.word lane operand1) (wave.word lane operand2) (wave.word lane operand3))
  | .cSelect (.mask d) src0 src1 .scc =>
      some (wave.write (if wave.scc then wave.scalar src0 else wave.scalar src1) d)
  | .cSelect (.vgpr d) src0 src1 (.mask cond) =>
      some (wave.writeVgpr d fun lane =>
        if (wave.read cond).getLsbD lane then wave.word lane src0 else wave.word lane src1)
  | .compare irClass opType .scc operand1 operand2 =>
      some { wave with scc := compared wave 0 irClass opType operand1 operand2 }
  | .compare irClass opType (.mask d) operand1 operand2 =>
      some (wave.write
        (wave.activeMask fun lane => compared wave lane irClass opType operand1 operand2) d)
  | .cvt32To64 (.temp name) operand1 =>
      some (wave.writeTemp name fun lane => (wave.word lane operand1).setWidth 64)
  | .add (.temp name) operand1 operand2 =>
      some (wave.writeTemp name fun lane => wave.value lane operand1 + wave.value lane operand2)
  | .localStore destination val =>
      some { wave with
        lds := wave.changedLds (fun lane => (wave.value lane destination).toNat)
          fun lane _ => wave.word lane val }
  | .localLoad (.vgpr d) fromMem =>
      some (wave.writeVgpr d fun lane => wave.lds (wave.value lane fromMem).toNat)
  | .localAdd destination val =>
      some { wave with
        lds := wave.changedLds (fun lane => (wave.value lane destination).toNat)
          fun lane old => old + wave.word lane val }
  | _ => none

/-- The instructions one after the other. -/
def runAll (floats : FloatUnit) (wave : Wave) : List Ir → Option Wave
  | [] => some wave
  | ir :: rest => (ir.run floats wave).bind fun after => runAll floats after rest

end Ir

/-! ## Instructions -/

inductive Instruction where
  | sMovB64 (sdst : Mask) (ssrc0 : MaskSource)
  | sLogicalB64 (op : LogicalOp) (sdst : Mask) (ssrc0 ssrc1 : MaskSource)
  | sSaveexecB64 (op : LogicalOp) (sdst : Mask) (ssrc0 : MaskSource)
  | sCselectB64 (sdst : Mask) (ssrc0 ssrc1 : MaskSource)
  | sSubbU32 (sdst : Nat) (ssrc0 ssrc1 : ScalarSource)
  | vSubbU32 (vdst : Nat) (sdst : Mask) (src0 src1 : VectorSource) (ssrc2 : Mask)
  | vMacF32 (vdst : Nat) (src0 src1 : VectorSource)
  | vCndmaskB32 (vdst : Nat) (src0 src1 : VectorSource) (ssrc2 : Mask)
  | sCmp (comparison : Comparison) (type : CompareType) (ssrc0 ssrc1 : ScalarSource)
  | vCmp (comparison : Comparison) (type : CompareType) (sdst : Mask) (src0 src1 : VectorSource)
  | vCmpx (comparison : Comparison) (type : CompareType) (src0 src1 : VectorSource)
  | vCmpxTo (comparison : Comparison) (type : CompareType) (sdst : Mask) (src0 src1 : VectorSource)
  | dsWriteB32 (addr data0 : Nat) (offset : BitVec 16)
  | dsReadB32 (vdst addr : Nat) (offset : BitVec 16)
  | dsAddU32 (addr data0 : Nat) (offset : BitVec 16)

/-- `_same_with_exec_mask` and `_compare_rule` tell the graph that exec is another. -/
def maskChange (d : Mask) : List Ir := if d = .exec then [.changeMask] else []

/-- `replace_exec`. -/
def replaceExec (op : Operand) : Operand := if op = .mask .exec then .val 1 else op

/-- The first three instructions of the rules for local memory. -/
def localAddress (addr : Nat) (offset : BitVec 16) : List Ir :=
  [.mov (.temp "base") (.lc offset), .cvt32To64 (.temp "index") (.vgpr addr),
    .add (.temp "address") (.temp "base") (.temp "index")]

namespace Instruction

/-- `get_instruction_rule`; `none` is an exception of the rule. -/
def rule : Instruction → Option (List Ir)
  | .sMovB64 sdst ssrc0 => some (.mov (.mask sdst) ssrc0 :: maskChange sdst)
  | .sLogicalB64 op sdst ssrc0 ssrc1 =>
      some (.logical op.irClass (.mask sdst) ssrc0 ssrc1 :: maskChange sdst)
  | .sSaveexecB64 op sdst ssrc0 =>
      some [.mov (.mask sdst) (.mask .exec),
        .logical op.irClass (.mask .exec) (.mask .exec) ssrc0, .changeMask]
  | .sCselectB64 sdst ssrc0 ssrc1 =>
      some [.cSelect (.mask sdst) (replaceExec ssrc1) (replaceExec ssrc0) .scc]
  | .sSubbU32 sdst ssrc0 ssrc1 => some [.sub (.sgpr sdst) ssrc0 ssrc1]
  | .vSubbU32 vdst sdst src0 src1 _ =>
      -- With another register for the borrow all five operands go to `Sub`.
      if sdst = .vcc then some [.sub (.vgpr vdst) src0 src1] else none
  | .vMacF32 vdst src0 src1 => some [.macF32 (.vgpr vdst) src0 src1 (.vgpr vdst)]
  | .vCndmaskB32 vdst src0 src1 ssrc2 => some [.cSelect (.vgpr vdst) src1 src0 (.mask ssrc2)]
  | .sCmp comparison type ssrc0 ssrc1 =>
      some [.compare (getCompareClass comparison) type.opType .scc ssrc0 ssrc1]
  | .vCmp comparison type sdst src0 src1 =>
      some [.compare (getCompareClass comparison) type.opType (.mask sdst) src0 src1]
  | .vCmpx comparison type src0 src1 =>
      some [.compare (getCompareClass comparison) type.opType (.mask .exec) src0 src1, .changeMask]
  | .vCmpxTo comparison type sdst src0 _ =>
      some [.compare (getCompareClass comparison) type.opType (.mask .exec) (.mask sdst) src0,
        .changeMask]
  | .dsWriteB32 addr data0 offset =>
      some (localAddress addr offset ++ [.localStore (.temp "address") (.vgpr data0)])
  | .dsReadB32 vdst addr offset =>
      some (localAddress addr offset ++ [.localLoad (.vgpr vdst) (.temp "address")])
  | .dsAddU32 addr data0 offset =>
      some (localAddress addr offset ++ [.localAdd (.temp "address") (.vgpr data0)])

def execute (floats : FloatUnit) (before : Wave) (instr : Instruction) : Option Wave :=
  instr.rule.bind (Ir.runAll floats before)

/-! ## The instruction set -/

/-- A mask is written, scc is set, and exec is written only as the destination. -/
def SetsMask (before after : Wave) (sdst : Mask) (result : BitVec 64) (scc : Bool) : Prop :=
  after.read sdst = result ∧ (sdst ≠ .exec → after.exec = before.exec) ∧ after.scc = scc

/-- The active lanes of a vector register are written. -/
def SetsLanes (before after : Wave) (vdst : Nat) (values : Lane → BitVec 32) : Prop :=
  (∀ lane, after.vgpr vdst lane =
    if before.active lane then values lane else before.vgpr vdst lane) ∧
    after.exec = before.exec ∧ after.scc = before.scc

/-- The dword that a lane of a ds instruction accesses. -/
def dsAddress (before : Wave) (addr : Nat) (offset : BitVec 16) (lane : Lane) : Nat :=
  (before.vgpr addr lane).toNat + offset.toNat

/-- The mask of a vector comparison. -/
def compareMask (floats : FloatUnit) (before : Wave) (comparison : Comparison) (type : CompareType)
    (src0 src1 : VectorSource) : BitVec 64 :=
  before.activeMask fun lane =>
    floats.holds comparison (before.value lane src0) (before.value lane src1) type

/-- The destination, exec and scc have the values that the instruction set defines. -/
def Defines (floats : FloatUnit) (before after : Wave) : Instruction → Prop
  | .sMovB64 sdst ssrc0 => SetsMask before after sdst (before.scalar ssrc0) before.scc
  | .sLogicalB64 op sdst ssrc0 ssrc1 =>
      let result := op.value (before.scalar ssrc0) (before.scalar ssrc1)
      SetsMask before after sdst result (decide (result ≠ 0))
  | .sSaveexecB64 op sdst ssrc0 =>
      let result := op.value (before.scalar ssrc0) before.exec
      (sdst ≠ .exec → after.read sdst = before.exec) ∧ after.exec = result ∧
        after.scc = decide (result ≠ 0)
  | .sCselectB64 sdst ssrc0 ssrc1 =>
      SetsMask before after sdst
        (if before.scc then before.scalar ssrc0 else before.scalar ssrc1) before.scc
  | .sSubbU32 sdst ssrc0 ssrc1 =>
      let x := before.word 0 ssrc0
      let y := before.word 0 ssrc1
      let borrow := before.scc.toNat
      after.sgpr sdst = x - y - BitVec.ofNat 32 borrow ∧ after.exec = before.exec ∧
        after.scc = decide (x.toNat < y.toNat + borrow)
  | .vSubbU32 vdst sdst src0 src1 ssrc2 =>
      let x := fun lane => before.word lane src0
      let y := fun lane => before.word lane src1
      let borrow := fun lane : Lane => ((before.read ssrc2).getLsbD lane).toNat
      SetsLanes before after vdst (fun lane => x lane - y lane - BitVec.ofNat 32 (borrow lane)) ∧
        ∀ lane : Lane, before.active lane →
          (after.read sdst).getLsbD lane =
            decide ((x lane).toNat < (y lane).toNat + borrow lane)
  | .vMacF32 vdst src0 src1 =>
      SetsLanes before after vdst fun lane =>
        floats.mac (before.word lane src0) (before.word lane src1) (before.vgpr vdst lane)
  | .vCndmaskB32 vdst src0 src1 ssrc2 =>
      SetsLanes before after vdst fun lane =>
        if (before.read ssrc2).getLsbD lane then before.word lane src1 else before.word lane src0
  | .sCmp comparison type ssrc0 ssrc1 =>
      after.exec = before.exec ∧
        after.scc = floats.holds comparison (before.scalar ssrc0) (before.scalar ssrc1) type
  | .vCmp comparison type sdst src0 src1 =>
      SetsMask before after sdst (compareMask floats before comparison type src0 src1) before.scc
  | .vCmpx comparison type src0 src1 =>
      SetsMask before after .exec (compareMask floats before comparison type src0 src1) before.scc
  | .vCmpxTo comparison type sdst src0 src1 =>
      let result := compareMask floats before comparison type src0 src1
      after.read sdst = result ∧ after.exec = result ∧ after.scc = before.scc
  | .dsWriteB32 addr data0 offset =>
      after.lds = before.changedLds (dsAddress before addr offset)
          (fun lane _ => before.vgpr data0 lane) ∧
        after.exec = before.exec ∧ after.scc = before.scc
  | .dsReadB32 vdst addr offset =>
      SetsLanes before after vdst fun lane => before.lds (dsAddress before addr offset lane)
  | .dsAddU32 addr data0 offset =>
      after.lds = before.changedLds (dsAddress before addr offset)
          (fun lane old => old + before.vgpr data0 lane) ∧
        after.exec = before.exec ∧ after.scc = before.scc

/-- The rule gives the destination, exec and scc the values that the instruction set defines. -/
def Correct (floats : FloatUnit) (before : Wave) (instr : Instruction) : Prop :=
  ∃ after, instr.execute floats before = some after ∧ instr.Defines floats before after

/-! ## When a rule is right -/

/-- The words compare as signed ones the way the type compares them. -/
def Agrees (floats : FloatUnit) (comparison : Comparison) (type : CompareType) (x y : BitVec 64) :
    Prop :=
  (getCompareClass comparison).signed (x.setWidth 32) (y.setWidth 32) =
    floats.holds comparison x y type

def AgreesInLanes (floats : FloatUnit) (before : Wave) (comparison : Comparison)
    (type : CompareType) (src0 src1 : VectorSource) : Prop :=
  ∀ lane, before.active lane →
    Agrees floats comparison type (before.value lane src0) (before.value lane src1)

/-- Where a source of a saveexec instruction is its destination, exec has replaced it. -/
def SaveexecFits (op : LogicalOp) (overwritten : Prop) (source exec : BitVec 64) : Prop :=
  match op with
  | .and => overwritten → Within exec source
  | .or => overwritten → Within source exec
  | .xor => overwritten → source = exec
  | .andn2 => (overwritten → Within source exec) ∧ (¬ overwritten → Within exec source)

/-- When the rule is right. -/
def Holds (floats : FloatUnit) (before : Wave) : Instruction → Prop
  | .sMovB64 _ _ => True
  | .sLogicalB64 op _ ssrc0 ssrc1 =>
      before.scc = decide (op.value (before.scalar ssrc0) (before.scalar ssrc1) ≠ 0) ∧
        (op = .andn2 → Within (before.scalar ssrc1) (before.scalar ssrc0))
  | .sSaveexecB64 op sdst ssrc0 =>
      before.scc = decide (op.value (before.scalar ssrc0) before.exec ≠ 0) ∧
        SaveexecFits op (ssrc0.1 = .mask sdst) (before.scalar ssrc0) before.exec
  | .sCselectB64 _ ssrc0 ssrc1 =>
      if before.scc then before.scalar (replaceExec ssrc1) = before.scalar ssrc0
      else before.scalar (replaceExec ssrc0) = before.scalar ssrc1
  | .sSubbU32 _ ssrc0 ssrc1 =>
      before.scc = false ∧ (before.word 0 ssrc1).toNat ≤ (before.word 0 ssrc0).toNat
  | .vSubbU32 _ sdst src0 src1 ssrc2 =>
      sdst = .vcc ∧ ∀ lane : Lane, before.active lane →
        (before.read ssrc2).getLsbD lane = false ∧
          before.vcc.getLsbD lane =
            decide ((before.word lane src0).toNat < (before.word lane src1).toNat)
  | .vMacF32 _ _ _ | .vCndmaskB32 _ _ _ _ => True
  | .sCmp comparison type ssrc0 ssrc1 =>
      Agrees floats comparison type (before.scalar ssrc0) (before.scalar ssrc1)
  | .vCmp comparison type _ src0 src1 | .vCmpx comparison type src0 src1 =>
      AgreesInLanes floats before comparison type src0 src1
  | .vCmpxTo comparison type sdst src0 src1 =>
      -- The destination is compared with the first source.
      (∀ lane, before.active lane →
        (getCompareClass comparison).signed (before.word lane (.mask sdst))
            (before.word lane src0) =
          floats.holds comparison (before.value lane src0) (before.value lane src1) type) ∧
        (sdst ≠ .exec →
          before.read sdst = compareMask floats before comparison type src0 src1)
  | .dsWriteB32 _ _ _ | .dsReadB32 _ _ _ | .dsAddU32 _ _ _ => True

end Instruction

/-! ## Masks -/

namespace Wave

theorem read_write (wave : Wave) (value : BitVec 64) (d reg : Mask) :
    (wave.write value d).read reg = if reg = d then value else wave.read reg := by
  cases d with
  | exec => cases reg <;> simp [write, read]
  | vcc => cases reg <;> simp [write, read]
  | pair k =>
      cases reg with
      | exec => simp [write, read]
      | vcc => simp [write, read]
      | pair other =>
          by_cases same : other = k
          · subst same
            simp only [write, read, Function.update_self]
            rw [Function.update_of_ne (by omega), Function.update_self, append_halves, if_pos trivial]
          · have low : 2 * other ≠ 2 * k := by omega
            have cross : 2 * other + 1 ≠ 2 * k := by omega
            have across : 2 * other ≠ 2 * k + 1 := by omega
            simp [write, read, same, Function.update_of_ne, low, cross, across]

@[simp] theorem exec_write (wave : Wave) (value : BitVec 64) (d : Mask) :
    (wave.write value d).exec = if d = .exec then value else wave.exec := by
  cases d <;> simp [write]

@[simp] theorem scc_write (wave : Wave) (value : BitVec 64) (d : Mask) :
    (wave.write value d).scc = wave.scc := by
  cases d <;> rfl

theorem scalar_write (wave : Wave) (value : BitVec 64) (d : Mask) (source : MaskSource) :
    (wave.write value d).scalar source =
      if source.1 = .mask d then value else wave.scalar source := by
  obtain ⟨op, wide⟩ := source
  cases op with
  | mask reg => simp [scalar, Wave.value, read_write]
  | val number => simp [scalar, Wave.value]
  | sgpr | vgpr | vgprPair | scc | temp | lc => simp [Operand.isWide] at wide

theorem activeMask_eq_iff (wave : Wave) (first second : Lane → Bool) :
    wave.activeMask first = wave.activeMask second ↔
      ∀ lane, wave.active lane → first lane = second lane := by
  rw [activeMask, activeMask, ofLanes_eq_iff]
  refine forall_congr' fun lane => ?_
  cases wave.active lane <;> simp

/-- Only the addresses of the active lanes matter. -/
theorem changedLds_congr (wave other : Wave) (address address' : Lane → Nat)
    (change : Lane → BitVec 32 → BitVec 32) (exec : wave.exec = other.exec)
    (lds : wave.lds = other.lds)
    (same : ∀ lane, wave.active lane → address lane = address' lane) :
    wave.changedLds address change = other.changedLds address' change := by
  unfold changedLds
  rw [lds]
  congr 1
  funext mem lane
  have active : other.active lane = wave.active lane := by rw [active, active, exec]
  rw [active]
  by_cases on : wave.active lane
  · rw [if_pos on, if_pos on, same lane on]
  · rw [if_neg on, if_neg on]

end Wave

/-! ## The rules -/

namespace Instruction

variable (floats : FloatUnit) (before : Wave)

theorem correct_iff_defines {instr : Instruction} {after : Wave}
    (runs : instr.execute floats before = some after) :
    instr.Correct floats before ↔ instr.Defines floats before after := by
  constructor
  · rintro ⟨other, execute, defines⟩
    rw [runs] at execute
    cases execute
    exact defines
  · intro defines
    exact ⟨after, runs, defines⟩

theorem runAll_maskChange (wave : Wave) (d : Mask) :
    Ir.runAll floats wave (maskChange d) = some wave := by
  unfold maskChange
  split
  · rfl
  · rfl

theorem setsMask_write (value result : BitVec 64) (d : Mask) (scc : Bool) :
    SetsMask before (before.write value d) d result scc ↔ value = result ∧ before.scc = scc := by
  unfold SetsMask
  constructor
  · rintro ⟨written, -, kept⟩
    rw [Wave.read_write, if_pos rfl] at written
    exact ⟨written, by simpa using kept⟩
  · rintro ⟨rfl, rfl⟩
    refine ⟨by rw [Wave.read_write, if_pos rfl], ?_, Wave.scc_write _ _ _⟩
    intro other
    rw [Wave.exec_write, if_neg other]

theorem setsLanes_writeVgpr (vdst : Nat) (values results : Lane → BitVec 32) :
    SetsLanes before (before.writeVgpr vdst values) vdst results ↔
      ∀ lane, before.active lane → values lane = results lane := by
  constructor
  · rintro ⟨written, -, -⟩ lane on
    simpa [Wave.writeVgpr, on] using written lane
  · intro agree
    refine ⟨fun lane => ?_, rfl, rfl⟩
    simp only [Wave.writeVgpr, Function.update_self]
    by_cases on : before.active lane
    · rw [if_pos on, if_pos on, agree lane on]
    · rw [if_neg on, if_neg on]

theorem sMovB64_correct (sdst : Mask) (ssrc0 : MaskSource) :
    (Instruction.sMovB64 sdst ssrc0).Correct floats before := by
  have runs : (Instruction.sMovB64 sdst ssrc0).execute floats before =
      some (before.write (before.scalar ssrc0) sdst) := by
    simp [execute, rule, Ir.runAll, Ir.run, runAll_maskChange]
  rw [correct_iff_defines floats before runs, Defines, setsMask_write]
  exact ⟨rfl, rfl⟩

theorem sLogicalB64_iff (op : LogicalOp) (sdst : Mask) (ssrc0 ssrc1 : MaskSource) :
    (Instruction.sLogicalB64 op sdst ssrc0 ssrc1).Correct floats before ↔
      (Instruction.sLogicalB64 op sdst ssrc0 ssrc1).Holds floats before := by
  have runs : (Instruction.sLogicalB64 op sdst ssrc0 ssrc1).execute floats before =
      some (before.write (op.irClass.value (before.scalar ssrc0) (before.scalar ssrc1)) sdst) := by
    simp [execute, rule, Ir.runAll, Ir.run, runAll_maskChange]
  rw [correct_iff_defines floats before runs, Defines, setsMask_write, Holds, and_comm]
  refine and_congr_right fun _ => ?_
  cases op with
  | and | or | xor => simp [LogicalOp.irClass, LogicalOp.value, LogicalClass.value]
  | andn2 => simpa [LogicalOp.irClass, LogicalOp.value, LogicalClass.value] using xor_eq_and_not_iff _ _

/-- What the second step computes after the first has overwritten a source. -/
theorem saveexecFits_iff (op : LogicalOp) (overwritten : Prop) [Decidable overwritten]
    (source exec : BitVec 64) :
    op.irClass.value exec (if overwritten then exec else source) = op.value source exec ↔
      SaveexecFits op overwritten source exec := by
  cases op with
  | and =>
      by_cases gone : overwritten
      · simpa [gone, LogicalOp.irClass, LogicalOp.value, LogicalClass.value, SaveexecFits] using
          eq_and_iff exec source
      · simp [gone, LogicalOp.irClass, LogicalOp.value, LogicalClass.value, SaveexecFits,
          BitVec.and_comm]
  | or =>
      by_cases gone : overwritten
      · simpa [gone, LogicalOp.irClass, LogicalOp.value, LogicalClass.value, SaveexecFits] using
          eq_or_iff exec source
      · simp [gone, LogicalOp.irClass, LogicalOp.value, LogicalClass.value, SaveexecFits,
          BitVec.or_comm]
  | xor =>
      by_cases gone : overwritten
      · rw [if_pos gone, LogicalOp.irClass, LogicalClass.value, LogicalOp.value, BitVec.xor_self,
          eq_comm, BitVec.xor_eq_zero_iff]
        simp [SaveexecFits, gone]
      · simp [gone, LogicalOp.irClass, LogicalOp.value, LogicalClass.value, SaveexecFits,
          BitVec.xor_comm]
  | andn2 =>
      by_cases gone : overwritten
      · simp [gone, LogicalOp.irClass, LogicalOp.value, LogicalClass.value, SaveexecFits, Within,
          eq_comm]
      · have swapped := xor_eq_and_not_iff source exec
        rw [BitVec.xor_comm] at swapped
        simpa [gone, LogicalOp.irClass, LogicalOp.value, LogicalClass.value, SaveexecFits] using
          swapped

theorem sSaveexecB64_iff (op : LogicalOp) (sdst : Mask) (ssrc0 : MaskSource) :
    (Instruction.sSaveexecB64 op sdst ssrc0).Correct floats before ↔
      (Instruction.sSaveexecB64 op sdst ssrc0).Holds floats before := by
  let saved := before.write before.exec sdst
  have kept : saved.exec = before.exec := by simp [saved]
  have source := before.scalar_write before.exec sdst ssrc0
  have runs : (Instruction.sSaveexecB64 op sdst ssrc0).execute floats before =
      some (saved.write (op.irClass.value saved.exec (saved.scalar ssrc0)) .exec) := rfl
  rw [correct_iff_defines floats before runs, Defines, Holds, ← saveexecFits_iff, kept, source]
  simp only [Wave.exec_write, Wave.scc_write, Wave.read_write, if_true]
  constructor
  · rintro ⟨-, exec, scc⟩
    exact ⟨by simpa [saved] using scc, exec⟩
  · rintro ⟨scc, exec⟩
    refine ⟨?_, exec, by simpa [saved] using scc⟩
    intro other
    simp [saved, Wave.read_write, other]

theorem sCselectB64_iff (sdst : Mask) (ssrc0 ssrc1 : MaskSource) :
    (Instruction.sCselectB64 sdst ssrc0 ssrc1).Correct floats before ↔
      (Instruction.sCselectB64 sdst ssrc0 ssrc1).Holds floats before := by
  have runs : (Instruction.sCselectB64 sdst ssrc0 ssrc1).execute floats before =
      some (before.write (if before.scc then before.scalar (replaceExec ssrc1)
        else before.scalar (replaceExec ssrc0)) sdst) := rfl
  rw [correct_iff_defines floats before runs, Defines, setsMask_write, Holds]
  cases before.scc <;> simp

/-- A difference without the borrow is the one with it when there is none. -/
theorem sub_borrow_iff (x y : BitVec 32) (borrow : Bool) :
    x - y = x - y - BitVec.ofNat 32 borrow.toNat ↔ borrow = false := by
  rw [eq_comm, sub_eq_self]
  cases borrow <;> decide

theorem sSubbU32_iff (sdst : Nat) (ssrc0 ssrc1 : ScalarSource) :
    (Instruction.sSubbU32 sdst ssrc0 ssrc1).Correct floats before ↔
      (Instruction.sSubbU32 sdst ssrc0 ssrc1).Holds floats before := by
  have runs : (Instruction.sSubbU32 sdst ssrc0 ssrc1).execute floats before =
      some { before with
        sgpr := Function.update before.sgpr sdst
          (before.word 0 ssrc0 - before.word 0 ssrc1) } := rfl
  rw [correct_iff_defines floats before runs, Defines, Holds]
  simp only [Function.update_self, sub_borrow_iff, true_and]
  refine and_congr_right fun none => ?_
  rw [none]
  simp

theorem vSubbU32_iff (vdst : Nat) (sdst : Mask) (src0 src1 : VectorSource) (ssrc2 : Mask) :
    (Instruction.vSubbU32 vdst sdst src0 src1 ssrc2).Correct floats before ↔
      (Instruction.vSubbU32 vdst sdst src0 src1 ssrc2).Holds floats before := by
  by_cases explicit : sdst = .vcc
  · subst explicit
    have runs : (Instruction.vSubbU32 vdst .vcc src0 src1 ssrc2).execute floats before =
        some (before.writeVgpr vdst fun lane =>
          before.word lane src0 - before.word lane src1) := rfl
    rw [correct_iff_defines floats before runs, Defines, Holds, setsLanes_writeVgpr,
      ← forall_and]
    simp only [true_and, sub_borrow_iff]
    refine forall_congr' fun lane => ?_
    rw [← imp_and]
    refine imp_congr_right fun _ => and_congr_right fun none => ?_
    simp only [none, Bool.toNat_false, add_zero]
    rfl
  · have fails : (Instruction.vSubbU32 vdst sdst src0 src1 ssrc2).execute floats before = none := by
      simp [execute, rule, explicit]
    refine iff_of_false ?_ fun holds => explicit holds.1
    rintro ⟨after, runs, -⟩
    rw [fails] at runs
    cases runs

theorem vMacF32_correct (vdst : Nat) (src0 src1 : VectorSource) :
    (Instruction.vMacF32 vdst src0 src1).Correct floats before := by
  have runs : (Instruction.vMacF32 vdst src0 src1).execute floats before =
      some (before.writeVgpr vdst fun lane =>
        floats.mac (before.word lane src0) (before.word lane src1)
          (before.word lane (.vgpr vdst))) := rfl
  rw [correct_iff_defines floats before runs, Defines, setsLanes_writeVgpr]
  intro lane _
  simp [Wave.word, Wave.value]

theorem vCndmaskB32_correct (vdst : Nat) (src0 src1 : VectorSource) (ssrc2 : Mask) :
    (Instruction.vCndmaskB32 vdst src0 src1 ssrc2).Correct floats before := by
  have runs : (Instruction.vCndmaskB32 vdst src0 src1 ssrc2).execute floats before =
      some (before.writeVgpr vdst fun lane =>
        if (before.read ssrc2).getLsbD lane then before.word lane src1
        else before.word lane src0) := rfl
  rw [correct_iff_defines floats before runs, Defines, setsLanes_writeVgpr]
  intro lane _
  rfl

theorem sCmp_iff (comparison : Comparison) (type : CompareType) (ssrc0 ssrc1 : ScalarSource) :
    (Instruction.sCmp comparison type ssrc0 ssrc1).Correct floats before ↔
      Agrees floats comparison type (before.scalar ssrc0) (before.scalar ssrc1) := by
  have runs : (Instruction.sCmp comparison type ssrc0 ssrc1).execute floats before =
      some { before with
        scc := Ir.compared before 0 (getCompareClass comparison) type.opType ssrc0 ssrc1 } := rfl
  rw [correct_iff_defines floats before runs, Defines]
  exact and_iff_right rfl

theorem vCmp_iff (comparison : Comparison) (type : CompareType) (sdst : Mask)
    (src0 src1 : VectorSource) :
    (Instruction.vCmp comparison type sdst src0 src1).Correct floats before ↔
      AgreesInLanes floats before comparison type src0 src1 := by
  have runs : (Instruction.vCmp comparison type sdst src0 src1).execute floats before =
      some (before.write (before.activeMask fun lane =>
        Ir.compared before lane (getCompareClass comparison) type.opType src0 src1) sdst) := rfl
  rw [correct_iff_defines floats before runs, Defines, setsMask_write, compareMask,
    Wave.activeMask_eq_iff]
  exact and_iff_left rfl

theorem vCmpx_iff (comparison : Comparison) (type : CompareType) (src0 src1 : VectorSource) :
    (Instruction.vCmpx comparison type src0 src1).Correct floats before ↔
      AgreesInLanes floats before comparison type src0 src1 := by
  have runs : (Instruction.vCmpx comparison type src0 src1).execute floats before =
      some (before.write (before.activeMask fun lane =>
        Ir.compared before lane (getCompareClass comparison) type.opType src0 src1) .exec) := rfl
  rw [correct_iff_defines floats before runs, Defines, setsMask_write, compareMask,
    Wave.activeMask_eq_iff]
  exact and_iff_left rfl

theorem vCmpxTo_iff (comparison : Comparison) (type : CompareType) (sdst : Mask)
    (src0 src1 : VectorSource) :
    (Instruction.vCmpxTo comparison type sdst src0 src1).Correct floats before ↔
      (Instruction.vCmpxTo comparison type sdst src0 src1).Holds floats before := by
  have runs : (Instruction.vCmpxTo comparison type sdst src0 src1).execute floats before =
      some (before.write (before.activeMask fun lane =>
        Ir.compared before lane (getCompareClass comparison) type.opType (.mask sdst) src0)
        .exec) := rfl
  rw [correct_iff_defines floats before runs, Defines, Holds]
  simp only [Wave.exec_write, Wave.scc_write, Wave.read_write, if_true, compareMask,
    Wave.activeMask_eq_iff]
  constructor
  · rintro ⟨written, agree, -⟩
    refine ⟨agree, fun other => ?_⟩
    rwa [if_neg other] at written
  · rintro ⟨agree, kept⟩
    refine ⟨?_, agree, trivial⟩
    split
    · rwa [Wave.activeMask_eq_iff]
    · rename_i other
      exact kept other

/-! ## Local memory -/

/-- The wave in front of the last instruction of a rule for local memory. -/
def addressed (before : Wave) (addr : Nat) (offset : BitVec 16) : Wave :=
  let based := before.writeTemp "base" fun _ => offset.setWidth 64
  let indexed := based.writeTemp "index" fun lane => (based.word lane (.vgpr addr)).setWidth 64
  indexed.writeTemp "address" fun lane =>
    indexed.value lane (.temp "base") + indexed.value lane (.temp "index")

/-- The address of a lane is exact: an offset and a register do not fill 64 bits. -/
theorem toNat_address (addr : Nat) (offset : BitVec 16) (lane : Lane) (on : before.active lane) :
    ((addressed before addr offset).value lane (.temp "address")).toNat =
      dsAddress before addr offset lane := by
  have register := (before.vgpr addr lane).isLt
  have base := offset.isLt
  have small : offset.toNat + (before.vgpr addr lane).toNat < 2 ^ 64 := by omega
  have low : offset.toNat < 2 ^ 64 := by omega
  have high : (before.vgpr addr lane).toNat < 2 ^ 64 := by omega
  have here : before.exec.getLsbD lane = true := on
  simp only [addressed, Wave.value, Wave.word, Wave.writeTemp, Wave.active, here, if_true,
    Function.update_self, Function.update_of_ne, ne_eq, String.reduceEq, not_false_eq_true,
    BitVec.toNat_add, BitVec.toNat_setWidth]
  simp only [dsAddress]
  omega

theorem ds_lds (addr : Nat) (offset : BitVec 16) (change : Lane → BitVec 32 → BitVec 32) :
    (addressed before addr offset).changedLds
        (fun lane => ((addressed before addr offset).value lane (.temp "address")).toNat) change =
      before.changedLds (dsAddress before addr offset) change := by
  apply Wave.changedLds_congr
  · rfl
  · rfl
  · intro lane on
    exact toNat_address before addr offset lane on

theorem dsWriteB32_correct (addr data0 : Nat) (offset : BitVec 16) :
    (Instruction.dsWriteB32 addr data0 offset).Correct floats before := by
  let ready := addressed before addr offset
  refine ⟨{ ready with
    lds := ready.changedLds (fun lane => (ready.value lane (.temp "address")).toNat)
      fun lane _ => ready.word lane (.vgpr data0) }, rfl, ?_, rfl, rfl⟩
  have data (lane : Lane) : ready.word lane (.vgpr data0) = before.vgpr data0 lane := by
    simp [ready, addressed, Wave.word, Wave.value, Wave.writeTemp]
  simp only [data]
  exact ds_lds before addr offset _

theorem dsAddU32_correct (addr data0 : Nat) (offset : BitVec 16) :
    (Instruction.dsAddU32 addr data0 offset).Correct floats before := by
  let ready := addressed before addr offset
  refine ⟨{ ready with
    lds := ready.changedLds (fun lane => (ready.value lane (.temp "address")).toNat)
      fun lane old => old + ready.word lane (.vgpr data0) }, rfl, ?_, rfl, rfl⟩
  have data (lane : Lane) : ready.word lane (.vgpr data0) = before.vgpr data0 lane := by
    simp [ready, addressed, Wave.word, Wave.value, Wave.writeTemp]
  simp only [data]
  exact ds_lds before addr offset _

theorem dsReadB32_correct (vdst addr : Nat) (offset : BitVec 16) :
    (Instruction.dsReadB32 vdst addr offset).Correct floats before := by
  let ready := addressed before addr offset
  refine ⟨ready.writeVgpr vdst fun lane => ready.lds (ready.value lane (.temp "address")).toNat,
    rfl, ?_⟩
  have lanes := (setsLanes_writeVgpr ready vdst
    (fun lane => ready.lds (ready.value lane (.temp "address")).toNat)
    (fun lane => before.lds (dsAddress before addr offset lane))).mpr ?_
  · exact lanes
  · intro lane on
    have place := toNat_address before addr offset lane on
    rw [place]
    rfl

/-! ## The table -/

/-- Unsigned words in order are those in the same half of the range. -/
theorem agrees_u32_iff (comparison : Comparison) (x y : BitVec 64) :
    Agrees floats comparison .u32 x y ↔
      comparison = .eq ∨ comparison = .ne ∨ comparison = .lg ∨
        (x.setWidth 32).msb = (y.setWidth 32).msb := by
  unfold Agrees FloatUnit.holds
  generalize x.setWidth 32 = first
  generalize y.setWidth 32 = second
  cases comparison with
  | eq | ne | lg => simp [getCompareClass, CompareClass.signed, CompareClass.unsigned]
  | lt =>
      simp only [getCompareClass, CompareClass.signed, CompareClass.unsigned, BitVec.slt_eq_ult]
      cases first.msb <;> cases second.msb <;> simp
  | le =>
      simp only [getCompareClass, CompareClass.signed, CompareClass.unsigned, BitVec.sle_eq_ule]
      cases first.msb <;> cases second.msb <;> simp
  | gt =>
      simp only [getCompareClass, CompareClass.signed, CompareClass.unsigned, BitVec.slt_eq_ult]
      cases first.msb <;> cases second.msb <;> simp
  | ge =>
      simp only [getCompareClass, CompareClass.signed, CompareClass.unsigned, BitVec.sle_eq_ule]
      cases first.msb <;> cases second.msb <;> simp

end Instruction

end OpenCLDecompiler.Amd.MaskRules
