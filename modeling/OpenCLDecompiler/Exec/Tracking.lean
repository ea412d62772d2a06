import OpenCLDecompiler.Library.PyDict
import OpenCLDecompiler.Library.Run
import OpenCLDecompiler.LogicalVariable
import Mathlib.Logic.Function.Basic

/-!
# Tracking of predicate registers

A mask register is known to the decompiler in two ways: `exec_registers` holds a
conjunction for it, and the state of the node holds a text.  This file has the
handlers that update both, the lowering of the mask instructions to these
handlers, and what the instructions do to the bit of one lane.
-/

namespace OpenCLDecompiler.Exec

open Library

/-- A 64-bit mask operand: a `PredReg`, or a plain register pair (`CompositeReg`). -/
structure MaskReg where
  name : String
  isPredicate : Bool
  exec_isPredicate : name = "exec" → isPredicate = true
  deriving DecidableEq

def execReg : MaskReg := ⟨"exec", true, fun _ => rfl⟩

def maskName : String := "$MASK"

/-- The operands of a logical instruction on masks; one of them is a predicate. -/
structure LogicOperands where
  dest : MaskReg
  src0 : MaskReg
  src1 : MaskReg
  somePredicate : dest.isPredicate || src0.isPredicate || src1.isPredicate = true

/-- The backend instructions that write predicate registers. -/
inductive BackendInstr where
  /-- `newValue` is the text `make_op` builds from the compared operands. -/
  | vCmp (d0 : MaskReg) (newValue : String)
  | sAnd (operands : LogicOperands)
  | sOr (operands : LogicOperands)
  | sXor (operands : LogicOperands)
  | sNot (sdst ssrc0 : MaskReg)
  | sMov (sdst ssrc0 : MaskReg)
  | useMask (src : MaskReg)

/--
`DecompilerData.exec_registers` and the `val` fields of the state of the node.
A register with a conjunction has a text too.
-/
structure TrackState where
  execRegisters : PyDict String ExecCondition
  vals : PyDict String String
  covered : ∀ name, (execRegisters.get? name).isSome = true → (vals.get? name).isSome = true

namespace TrackState

/-- `node.state[name]` gets a new text. -/
def setVal (st : TrackState) (name text : String) : TrackState where
  execRegisters := st.execRegisters
  vals := st.vals.set name text
  covered other known := by
    rw [PyDict.get?_set]
    split
    · rfl
    · exact st.covered other known

/-- `exec_registers[name]` and the text of the register are written. -/
def write (st : TrackState) (name : String) (cond : ExecCondition) (text : String) :
    TrackState where
  execRegisters := st.execRegisters.set name cond
  vals := st.vals.set name text
  covered other known := by
    rw [PyDict.get?_set] at known ⊢
    split
    · rfl
    · rename_i different
      rw [if_neg different] at known
      exact st.covered other known

/-- `InitPred`. -/
def initPred (st : TrackState) (name : String) : TrackState :=
  st.write name .default defaultCondition

def empty : TrackState := ⟨.empty, .empty, by simp⟩

/-- The state behind the `InitPred` instructions at the head of the kernel. -/
def start (predicates : List String) : TrackState :=
  (maskName :: predicates).foldl initPred empty

end TrackState

/-- `SAnd` makes a predicate its first source, if there is one. -/
def LogicOperands.andSources (operands : LogicOperands) : MaskReg × MaskReg :=
  if operands.src0.isPredicate then (operands.src0, operands.src1)
  else (operands.src1, operands.src0)

/-- `SOr` and `SXor` exchange their sources when the second one is a predicate. -/
def LogicOperands.orSources (operands : LogicOperands) : MaskReg × MaskReg :=
  if operands.src1.isPredicate then (operands.src1, operands.src0)
  else (operands.src0, operands.src1)

/-- `SAnd.to_fill_node`: the second source enters with its text only. -/
def sAnd (st : TrackState) (operands : LogicOperands) : Option TrackState := do
  let old ← st.execRegisters.get? operands.andSources.1.name
  let newCond ← st.vals.get? operands.andSources.2.name
  some (st.write operands.dest.name (old.and newCond) (old.and newCond).top)

/-- `SOr.to_fill_node` and `SXor.to_fill_node`: both sources enter with their conjunctions. -/
def sCombine (combine : ExecCondition → ExecCondition → Option ExecCondition) (st : TrackState)
    (operands : LogicOperands) : Option TrackState := do
  let old ← st.execRegisters.get? operands.orSources.1.name
  let newCond ← st.execRegisters.get? operands.orSources.2.name
  let combined ← combine old newCond
  some (st.write operands.dest.name combined combined.top)

def sOr : TrackState → LogicOperands → Option TrackState :=
  sCombine fun left right => some (left.or right)

def sXor : TrackState → LogicOperands → Option TrackState :=
  sCombine ExecCondition.xor

/-- `SNot.to_fill_node`. -/
def sNot (st : TrackState) (sdst ssrc0 : MaskReg) : Option TrackState := do
  let text ← st.vals.get? ssrc0.name
  let newValue := "!(" ++ text ++ ")"
  some (if sdst.isPredicate && ssrc0.isPredicate then
      st.write sdst.name (.ofChain [newValue]) newValue
    else st.setVal sdst.name newValue)

/-- `SMov.to_fill_node`; a plain source that has no text is not a `Val` either. -/
def sMov (st : TrackState) (sdst ssrc0 : MaskReg) : Option TrackState :=
  if ssrc0.isPredicate || sdst.isPredicate then do
    let cond ← st.execRegisters.get? ssrc0.name
    let text ← st.vals.get? ssrc0.name
    some (st.write sdst.name cond text)
  else (st.vals.get? ssrc0.name).map fun text => st.setVal sdst.name text

/-- `to_fill_node` of the backend instructions; `none` is an exception. -/
def fill (st : TrackState) : BackendInstr → Option TrackState
  | .vCmp d0 newValue =>
      some (if d0.isPredicate then st.write d0.name (.ofChain [newValue]) newValue
        else st.setVal d0.name newValue)
  | .sAnd operands => sAnd st operands
  | .sOr operands => sOr st operands
  | .sXor operands => sXor st operands
  | .sNot sdst ssrc0 => sNot st sdst ssrc0
  | .sMov sdst ssrc0 => sMov st sdst ssrc0
  | .useMask src => (st.execRegisters.get? src.name).map fun cond => st.setVal maskName cond.top

/-! ## Mask instructions -/

inductive LogicOp where
  | and
  | or
  | xor
  | andn2
  deriving DecidableEq, Repr

inductive MaskInstr where
  | cmp (dest : MaskReg) (newValue : String)
  | cmpx (newValue : String)
  | logic (op : LogicOp) (operands : LogicOperands)
  | not (dest source : MaskReg)
  | mov (dest source : MaskReg)
  | saveexec (op : LogicOp) (dest source : MaskReg)

/-- The classes of `instruction_rules`; `s_andn2` has the class of `s_xor`. -/
def LogicOp.backend : LogicOp → LogicOperands → BackendInstr
  | .and => .sAnd
  | .or => .sOr
  | .xor => .sXor
  | .andn2 => .sXor

/-- The `ChangeMask` behind an instruction that writes `exec`. -/
def maskAfter (dest : MaskReg) : List BackendInstr :=
  if dest.name = "exec" then [.useMask execReg] else []

/-- `exec := exec op source`, the second instruction of `_saveexec`. -/
def saveexecOperands (source : MaskReg) : LogicOperands := ⟨execReg, execReg, source, rfl⟩

/-- `instruction_rules` and the compare rules, down to the backend instructions. -/
def lower : MaskInstr → List BackendInstr
  | .cmp dest newValue => [.vCmp dest newValue]
  | .cmpx newValue => [.vCmp execReg newValue, .useMask execReg]
  | .logic op operands => op.backend operands :: maskAfter operands.dest
  | .not dest source => [.sNot dest source]
  | .mov dest source => .sMov dest source :: maskAfter dest
  | .saveexec op dest source =>
      [.sMov dest execReg, op.backend (saveexecOperands source), .useMask execReg]

/-- One mask instruction through its backend instructions. -/
def track (st : TrackState) (instr : MaskInstr) : Option TrackState :=
  Run.runFrom fill st (lower instr)

/-! ## The bit of one lane -/

/-- The bit of one lane in every mask register. -/
abbrev Bits := String → Bool

def LogicOp.bit : LogicOp → Bool → Bool → Bool
  | .and, left, right => left && right
  | .or, left, right => left || right
  | .xor, left, right => left ^^ right
  | .andn2, left, right => left && !right

/-- What the instruction does on the hardware, where the compares have the given results. -/
def hardware (truth : String → Bool) (bits : Bits) : MaskInstr → Bits
  | .cmp dest newValue => Function.update bits dest.name (bits "exec" && truth newValue)
  | .cmpx newValue => Function.update bits "exec" (bits "exec" && truth newValue)
  | .logic op operands =>
      Function.update bits operands.dest.name
        (op.bit (bits operands.src0.name) (bits operands.src1.name))
  | .not dest source => Function.update bits dest.name !bits source.name
  | .mov dest source => Function.update bits dest.name (bits source.name)
  | .saveexec op dest source =>
      Function.update (Function.update bits dest.name (bits "exec")) "exec"
        (op.bit (bits source.name) (bits "exec"))

end OpenCLDecompiler.Exec
