import Mathlib.Data.List.Nodup

/-!
# Registers

A register is a 32-bit word or a composite of words.  The words of a composite
are registers of their own, and composites may share words.
-/

namespace OpenCLDecompiler.Registers

/-- `Reg32`. -/
structure Reg32 where
  name : String
  deriving DecidableEq, Repr

/-- `Reg32` or `CompositeReg`. -/
inductive Reg where
  | word (reg : Reg32)
  | composite (name : String) (regs : List Reg32)
  deriving DecidableEq, Repr

/-- `get_reg_rang`. -/
def Reg.rang : Reg → List Reg32
  | .word reg => [reg]
  | .composite _ regs => regs

/-- `Reg64`, and the AMD pairs: a composite of two different words. -/
structure Reg64 where
  name : String
  lo : Reg32
  hi : Reg32
  different : lo ≠ hi
  deriving DecidableEq

/-- The whole register. -/
def Reg64.whole (reg : Reg64) : Reg := .composite reg.name [reg.lo, reg.hi]

/-- `Integrity`. -/
inductive Integrity where
  | entire
  | lowPart
  | highPart
  deriving DecidableEq, Repr

end OpenCLDecompiler.Registers
