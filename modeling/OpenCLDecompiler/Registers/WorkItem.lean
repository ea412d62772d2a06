import Mathlib.Algebra.Order.Ring.Nat
import Mathlib.Logic.Function.Basic

/-!
# Work-item quantities

The register types that say what a register holds, and the quantity of a work
item that such a type names.
-/

namespace OpenCLDecompiler.Registers

inductive Dim where
  | x
  | y
  | z
  deriving DecidableEq, Repr

/-- The index of a dimension in `get_global_id` and its siblings. -/
def Dim.text : Dim → String
  | .x => "0"
  | .y => "1"
  | .z => "2"

/-- `RegisterType`, without the types of pointers, arguments and loads. -/
inductive RegisterType where
  | unknown
  | int32
  | workDim
  | globalId (dim : Dim)
  | workGroupId (dim : Dim)
  | workItemId (dim : Dim)
  | globalOffset (dim : Dim)
  | workGroupIdLocalSize (dim : Dim)
  | workGroupIdLocalSizeOffset (dim : Dim)
  | workGroupIdWorkItemId (dim : Dim)
  | localSize (dim : Dim)
  | globalSize (dim : Dim)
  | numGroups (dim : Dim)
  | divisionPt3
  | divisionPt4
  | divisionPt5
  | divisionPt6
  | divisionPt7
  | divisionPass
  deriving DecidableEq, Repr

/-- The values the built-in functions have for one work item. -/
structure WorkItem where
  localId : Dim → Nat
  groupId : Dim → Nat
  localSize : Dim → Nat
  globalSize : Dim → Nat
  numGroups : Dim → Nat
  globalOffset : Dim → Nat
  workDim : Nat

namespace WorkItem

def globalId (item : WorkItem) (dim : Dim) : Nat :=
  item.groupId dim * item.localSize dim + item.globalOffset dim + item.localId dim

/-- The quantity a type names; the other types name none. -/
def quantity (item : WorkItem) : RegisterType → Option Nat
  | .globalId dim => some (item.globalId dim)
  | .workGroupId dim => some (item.groupId dim)
  | .workItemId dim => some (item.localId dim)
  | .globalOffset dim => some (item.globalOffset dim)
  | .workGroupIdLocalSize dim => some (item.groupId dim * item.localSize dim)
  | .workGroupIdLocalSizeOffset dim =>
      some (item.groupId dim * item.localSize dim + item.globalOffset dim)
  | .workGroupIdWorkItemId dim =>
      some (item.groupId dim * item.localSize dim + item.localId dim)
  | .localSize dim => some (item.localSize dim)
  | .globalSize dim => some (item.globalSize dim)
  | .numGroups dim => some (item.numGroups dim)
  | _ => none

end WorkItem

/-- The 32-bit word of a number at an index. -/
def wordOf (number index : Nat) : BitVec 32 := BitVec.ofNat 32 (number / 2 ^ (32 * index))

theorem wordOf_zero (number : Nat) : wordOf number 0 = BitVec.ofNat 32 number := by
  simp [wordOf]

theorem wordOf_eq_iff (first second : Nat) :
    wordOf first 0 = wordOf second 0 ↔ first % 2 ^ 32 = second % 2 ^ 32 := by
  rw [wordOf_zero, wordOf_zero, ← BitVec.toNat_inj, BitVec.toNat_ofNat, BitVec.toNat_ofNat]

theorem toNat_wordOf_zero (number : Nat) : (wordOf number 0).toNat = number % 2 ^ 32 := by
  rw [wordOf_zero, BitVec.toNat_ofNat]

/-- The low word of a sum depends on the low words only. -/
theorem wordOf_add_toNat (first second : Nat) :
    wordOf ((wordOf first 0).toNat + (wordOf second 0).toNat) 0 = wordOf (first + second) 0 := by
  rw [wordOf_eq_iff, toNat_wordOf_zero, toNat_wordOf_zero, ← Nat.add_mod]

theorem wordOf_mul_toNat (first second : Nat) :
    wordOf ((wordOf first 0).toNat * (wordOf second 0).toNat) 0 = wordOf (first * second) 0 := by
  rw [wordOf_eq_iff, toNat_wordOf_zero, toNat_wordOf_zero, ← Nat.mul_mod]

theorem wordOf_toNat_mul (first second : Nat) :
    wordOf ((wordOf first 0).toNat * second) 0 = wordOf (first * second) 0 := by
  rw [wordOf_eq_iff, toNat_wordOf_zero, Nat.mod_mul_mod]

end OpenCLDecompiler.Registers
