import Mathlib.Data.BitVec
import Mathlib.Data.Int.Bitwise
import Mathlib.Algebra.Order.Ring.Int
import Mathlib.Tactic.Positivity

/-!
# Integers that wrap around

The numbers that words stand for, signed or unsigned, and what the operations on words do
to them.
-/

namespace OpenCLDecompiler.Library.Wrapping

variable {w : Nat}

/-- The number that a word stands for. -/
def value (signed : Bool) (bits : BitVec w) : Int := if signed then bits.toInt else bits.toNat

/-- The number that is left of a number in a word. -/
def wrap (signed : Bool) (w : Nat) (number : Int) : Int := value signed (BitVec.ofInt w number)

/-- Some word stands for the number. -/
def Fits (signed : Bool) (w : Nat) (number : Int) : Prop :=
  if signed then -2 ^ (w - 1) ≤ number ∧ number < 2 ^ (w - 1) else 0 ≤ number ∧ number < 2 ^ w

instance (signed : Bool) (w : Nat) (number : Int) : Decidable (Fits signed w number) := by
  unfold Fits
  infer_instance

@[simp]
theorem ofInt_value (signed : Bool) (bits : BitVec w) : BitVec.ofInt w (value signed bits) = bits := by
  cases signed with
  | true => exact BitVec.ofInt_toInt
  | false => exact (BitVec.ofInt_natCast ..).trans ((BitVec.ofNat_toNat ..).trans (BitVec.setWidth_eq _))

theorem value_inj {signed : Bool} {first second : BitVec w} :
    value signed first = value signed second ↔ first = second :=
  ⟨fun same => by rw [← ofInt_value signed first, same, ofInt_value], congrArg _⟩

theorem two_mul_half (positive : 0 < w) : (2 : Int) ^ w = 2 * 2 ^ (w - 1) := by
  rw [← pow_succ', Nat.sub_add_cancel positive]

theorem fits_value (signed : Bool) (bits : BitVec w) :
    Fits signed w (value signed bits) := by
  cases signed with
  | true =>
      have least := BitVec.le_toInt bits
      have greatest := BitVec.toInt_lt (x := bits)
      exact ⟨least, greatest⟩
  | false =>
      refine ⟨Int.natCast_nonneg _, ?_⟩
      change (bits.toNat : Int) < 2 ^ w
      exact_mod_cast bits.isLt

theorem wrap_of_fits (positive : 0 < w) {signed : Bool} {number : Int}
    (fits : Fits signed w number) : wrap signed w number = number := by
  have halves := two_mul_half positive
  cases signed with
  | true =>
      obtain ⟨least, greatest⟩ : -2 ^ (w - 1) ≤ number ∧ number < 2 ^ (w - 1) := fits
      exact BitVec.toInt_ofInt_eq_self positive least greatest
  | false =>
      obtain ⟨least, greatest⟩ : 0 ≤ number ∧ number < 2 ^ w := fits
      change ((BitVec.ofInt w number).toNat : Int) = number
      rw [BitVec.toNat_ofInt]
      have reduced : number % ((2 ^ w : Nat) : Int) = number :=
        Int.emod_eq_of_lt least (by exact_mod_cast greatest)
      rw [reduced]
      exact Int.toNat_of_nonneg least

theorem wrap_eq_self_iff (positive : 0 < w) (signed : Bool) (number : Int) :
    wrap signed w number = number ↔ Fits signed w number :=
  ⟨fun same => same ▸ fits_value signed _, wrap_of_fits positive⟩

theorem dvd_wrap_sub (signed : Bool) (w : Nat) (number : Int) :
    ((2 ^ w : Nat) : Int) ∣ wrap signed w number - number := by
  cases signed with
  | true =>
      change _ ∣ (BitVec.ofInt w number).toInt - number
      rw [BitVec.toInt_ofInt]
      exact Int.dvd_bmod_sub_self
  | false =>
      change _ ∣ ((BitVec.ofInt w number).toNat : Int) - number
      rw [BitVec.toNat_ofInt, Int.toNat_of_nonneg (Int.emod_nonneg _ (by positivity))]
      exact Int.dvd_emod_sub_self

theorem ofInt_eq_of_dvd {a b : Int} (congruent : ((2 ^ w : Nat) : Int) ∣ a - b) :
    BitVec.ofInt w a = BitVec.ofInt w b := by
  apply BitVec.eq_of_toNat_eq
  rw [BitVec.toNat_ofInt, BitVec.toNat_ofInt,
    Int.emod_eq_emod_iff_emod_sub_eq_zero.mpr (Int.emod_eq_zero_of_dvd congruent)]

/-- Wrapping to fewer bits does not see a wrapping to more bits before. -/
theorem wrap_wrap {outer inner : Bool} {w w' : Nat} (narrow : w ≤ w') (number : Int) :
    wrap outer w (wrap inner w' number) = wrap outer w number := by
  have fewer : ((2 ^ w : Nat) : Int) ∣ ((2 ^ w' : Nat) : Int) :=
    Int.natCast_dvd_natCast.mpr (Nat.pow_dvd_pow 2 narrow)
  exact congrArg (value outer) (ofInt_eq_of_dvd (fewer.trans (dvd_wrap_sub inner w' number)))

/-! ## Arithmetic -/

section

variable (a b : Int)

theorem value_add (signed : Bool) :
    value signed (BitVec.ofInt w a + BitVec.ofInt w b) = wrap signed w (a + b) := by
  rw [wrap, BitVec.ofInt_add]

theorem value_mul (signed : Bool) :
    value signed (BitVec.ofInt w a * BitVec.ofInt w b) = wrap signed w (a * b) := by
  rw [wrap, BitVec.ofInt_mul]

theorem value_sub (signed : Bool) :
    value signed (BitVec.ofInt w a - BitVec.ofInt w b) = wrap signed w (a - b) := by
  rw [wrap, Int.sub_eq_add_neg, BitVec.ofInt_add, BitVec.ofInt_neg, BitVec.sub_eq_add_neg]

theorem value_shiftLeft (signed : Bool) (places : Nat) :
    value signed (BitVec.ofInt w a <<< places) = wrap signed w (a * 2 ^ places) := by
  rw [wrap, BitVec.ofInt_mul, BitVec.shiftLeft_eq_mul_twoPow]
  congr 2
  apply BitVec.eq_of_toNat_eq
  rw [BitVec.toNat_twoPow, BitVec.toNat_ofInt]
  norm_cast

end

theorem value_div (signed : Bool) (x y : BitVec w) :
    value signed (if signed then x.sdiv y else x / y) =
      wrap signed w ((value signed x).tdiv (value signed y)) := by
  cases signed with
  | true =>
      change (x.sdiv y).toInt = (BitVec.ofInt w (x.toInt.tdiv y.toInt)).toInt
      rw [BitVec.toInt_sdiv, BitVec.toInt_ofInt]
  | false =>
      change ((x / y).toNat : Int) = ((BitVec.ofInt w ((x.toNat : Int).tdiv y.toNat)).toNat : Int)
      have quotient : ((x.toNat : Int).tdiv y.toNat) = ((x.toNat / y.toNat : Nat) : Int) := rfl
      rw [quotient, BitVec.ofInt_natCast, BitVec.toNat_udiv, BitVec.toNat_ofNat,
        Nat.mod_eq_of_lt ((Nat.div_le_self ..).trans_lt x.isLt)]

theorem value_rem (signed : Bool) (x y : BitVec w) :
    value signed (if signed then x.srem y else x % y) =
      (value signed x).tmod (value signed y) := by
  cases signed with
  | true => exact BitVec.toInt_srem x y
  | false => rfl

theorem value_shiftRight (signed : Bool) (x : BitVec w) (places : Nat) :
    value signed (if signed then x.sshiftRight places else x >>> places) =
      value signed x / 2 ^ places := by
  cases signed with
  | true =>
      change (x.sshiftRight places).toInt = x.toInt / 2 ^ places
      rw [BitVec.toInt_sshiftRight, Int.shiftRight_eq_div_pow]
      norm_cast
  | false =>
      change ((x >>> places).toNat : Int) = (x.toNat : Int) / 2 ^ places
      rw [BitVec.toNat_ushiftRight, Nat.shiftRight_eq_div_pow]
      norm_cast

/-! ## Orders -/

theorem value_lt_iff (signed : Bool) (x y : BitVec w) :
    value signed x < value signed y ↔ (if signed then x.slt y else x.ult y) = true := by
  cases signed with
  | true => exact BitVec.slt_iff_toInt_lt.symm
  | false =>
      change (x.toNat : Int) < y.toNat ↔ _
      rw [Int.ofNat_lt]
      exact BitVec.ult_iff_toNat_lt.symm

theorem value_le_iff (signed : Bool) (x y : BitVec w) :
    value signed x ≤ value signed y ↔ (if signed then x.sle y else x.ule y) = true := by
  cases signed with
  | true => exact BitVec.sle_iff_toInt_le.symm
  | false =>
      change (x.toNat : Int) ≤ y.toNat ↔ _
      rw [Int.ofNat_le]
      exact BitVec.ule_iff_toNat_le.symm

/-- The unsigned number of a word is the signed one, moved up if this is negative. -/
theorem value_unsigned (bits : BitVec w) : value false bits =
    if value true bits < 0 then value true bits + 2 ^ w else value true bits := by
  change (bits.toNat : Int) = if bits.toInt < 0 then bits.toInt + 2 ^ w else bits.toInt
  have small : (bits.toNat : Int) < 2 ^ w := by exact_mod_cast bits.isLt
  rw [BitVec.toInt_eq_toNat_cond]
  push_cast
  split <;> split <;> omega

/-! ## Bits -/

theorem getElem_ofInt (number : Int) {place : Nat} (inside : place < w) :
    (BitVec.ofInt w number)[place] = number.testBit place := by
  have ofNat_bit (number : Nat) : (BitVec.ofNat w number)[place] = number.testBit place := by
    rw [← BitVec.getLsbD_eq_getElem, BitVec.getLsbD_ofNat, decide_eq_true inside, Bool.true_and]
  cases number with
  | ofNat number =>
      change (BitVec.ofInt w (number : Int))[place] = number.testBit place
      rw [BitVec.ofInt_natCast, ofNat_bit]
  | negSucc number =>
      change (BitVec.ofInt w (Int.negSucc number))[place] = !number.testBit place
      rw [BitVec.ofInt_negSucc_eq_not_ofNat, BitVec.getElem_not, ofNat_bit]

theorem ofInt_land (a b : Int) :
    BitVec.ofInt w (Int.land a b) = BitVec.ofInt w a &&& BitVec.ofInt w b := by
  ext place inside
  rw [BitVec.getElem_and, getElem_ofInt, getElem_ofInt, getElem_ofInt, Int.testBit_land]

theorem ofInt_lor (a b : Int) :
    BitVec.ofInt w (Int.lor a b) = BitVec.ofInt w a ||| BitVec.ofInt w b := by
  ext place inside
  rw [BitVec.getElem_or, getElem_ofInt, getElem_ofInt, getElem_ofInt, Int.testBit_lor]

theorem ofInt_xor (a b : Int) :
    BitVec.ofInt w (Int.xor a b) = BitVec.ofInt w a ^^^ BitVec.ofInt w b := by
  ext place inside
  rw [BitVec.getElem_xor, getElem_ofInt, getElem_ofInt, getElem_ofInt, Int.testBit_lxor]

end OpenCLDecompiler.Library.Wrapping
