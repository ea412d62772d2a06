import Mathlib.Algebra.Order.Ring.Nat
import Mathlib.Data.Nat.Size
import OpenCLDecompiler.Library.Packed

/-!
# Numbers in fields

A number whose bits are divided among fields, the lowest field first: what is left of it
when it is shifted to the right, and what a mask of one run leaves.
-/

namespace OpenCLDecompiler.Library.Fields

open Packed (zeros ones oneRun fromLowest testBit_of_oneRun)

/-- A value and the number of bits that it takes. -/
structure Field where
  value : Nat
  size : Nat

/-- Every value takes no more bits than it has. -/
def Fits (fields : List Field) : Prop := ∀ field ∈ fields, field.value < 2 ^ field.size

def width (fields : List Field) : Nat := (fields.map Field.size).sum

/-- The number that the fields hold together. -/
def number : List Field → Nat
  | [] => 0
  | field :: rest => field.value + 2 ^ field.size * number rest

@[simp] theorem width_nil : width [] = 0 := rfl

@[simp] theorem width_cons (field : Field) (rest : List Field) :
    width (field :: rest) = field.size + width rest := by
  rw [width, List.map_cons, List.sum_cons]
  rfl

theorem Fits.tail {field : Field} {rest : List Field} (fits : Fits (field :: rest)) : Fits rest :=
  fun other inside => fits other (List.mem_cons_of_mem _ inside)

/-- There is one field with bits at a position. -/
theorem eq_of_width_eq {before after front back : List Field} {first second : Field}
    (same : before ++ first :: after = front ++ second :: back)
    (start : width before = width front) (some_ : 0 < first.size) (more : 0 < second.size) :
    first = second := by
  induction before generalizing front with
  | nil =>
      cases front with
      | nil => exact (List.cons.inj same).1
      | cons field rest =>
          cases same
          rw [width_nil, width_cons] at start
          omega
  | cons field rest ih =>
      cases front with
      | nil =>
          cases same
          rw [width_nil, width_cons] at start
          omega
      | cons other others =>
          cases (List.cons.inj same).1
          rw [width_cons, width_cons] at start
          exact ih (List.cons.inj same).2 (by omega)

/-! ## Shifts -/

/-- A shift by more than the first field drops it. -/
theorem shiftRight_cons {field : Field} {rest : List Field} {bits : Nat}
    (small : field.value < 2 ^ field.size) (past : field.size ≤ bits) :
    number (field :: rest) >>> bits = number rest >>> (bits - field.size) := by
  have positive : 0 < 2 ^ field.size := Nat.two_pow_pos _
  have split : 2 ^ bits = 2 ^ field.size * 2 ^ (bits - field.size) := by
    rw [← pow_add]
    congr 1
    omega
  rw [number, Nat.shiftRight_eq_div_pow, Nat.shiftRight_eq_div_pow, split,
    ← Nat.div_div_eq_div_mul, Nat.add_mul_div_left _ _ positive, Nat.div_eq_of_lt small, zero_add]

theorem shiftRight_append {before after : List Field} (fits : Fits (before ++ after)) :
    number (before ++ after) >>> width before = number after := by
  induction before with
  | nil => rfl
  | cons field rest ih =>
      rw [List.cons_append, shiftRight_cons (fits field (by simp)) (by simp), width_cons,
        Nat.add_sub_cancel_left, ih fits.tail]

/-- A shift inside the first field leaves the upper bits of it. -/
theorem shiftRight_inside (field : Field) (rest : List Field) {bits : Nat}
    (inside : bits ≤ field.size) :
    number (field :: rest) >>> bits =
      field.value >>> bits + 2 ^ (field.size - bits) * number rest := by
  have positive : 0 < 2 ^ bits := Nat.two_pow_pos _
  have split : 2 ^ field.size = 2 ^ bits * 2 ^ (field.size - bits) := by
    rw [← pow_add]
    congr 1
    omega
  rw [number, Nat.shiftRight_eq_div_pow, Nat.shiftRight_eq_div_pow, split, mul_assoc,
    Nat.add_mul_div_left _ _ positive]

/-- Zeros in the place of the upper bits of a field are right if these are zeros. -/
theorem padded_eq_shiftRight_iff (field : Field) (rest : List Field) {bits : Nat}
    (inside : bits ≤ field.size) :
    2 ^ (field.size - bits) * number rest = number (field :: rest) >>> bits ↔
      field.value < 2 ^ bits := by
  rw [shiftRight_inside field rest inside, Nat.shiftRight_eq_div_pow]
  constructor
  · intro same
    have gone : field.value / 2 ^ bits = 0 := by omega
    exact (Nat.div_eq_zero_iff_lt (Nat.two_pow_pos _)).mp gone
  · intro small
    rw [Nat.div_eq_of_lt small, zero_add]

/-- A field in which bit `bits` stands, but not as its first one, has no bit from there on. -/
def ClearFrom (bits : Nat) (fields : List Field) : Prop :=
  ∀ before field after, fields = before ++ field :: after → width before < bits →
    bits < width before + field.size → field.value < 2 ^ (bits - width before)

theorem clearFrom_zero (fields : List Field) : ClearFrom 0 fields :=
  fun _ _ _ _ below _ => absurd below (Nat.not_lt_zero _)

theorem clearFrom_cons_inside {field : Field} {rest : List Field} {bits : Nat} (later : 0 < bits)
    (inside : bits < field.size) : ClearFrom bits (field :: rest) ↔ field.value < 2 ^ bits := by
  constructor
  · intro clear
    exact clear [] field rest rfl later (by simpa using inside)
  · intro small before other after same start _
    cases before with
    | nil =>
        cases same
        exact small
    | cons first others =>
        cases same
        rw [width_cons] at start
        omega

theorem clearFrom_cons_past {field : Field} {rest : List Field} {bits : Nat}
    (past : field.size ≤ bits) :
    ClearFrom bits (field :: rest) ↔ ClearFrom (bits - field.size) rest := by
  constructor
  · intro clear before other after same start stop
    have small := clear (field :: before) other after (by rw [same, List.cons_append])
      (by rw [width_cons]; omega) (by rw [width_cons]; omega)
    rwa [width_cons, Nat.sub_add_eq] at small
  · intro clear before other after same start stop
    cases before with
    | nil =>
        cases same
        rw [width_nil, zero_add] at stop
        omega
    | cons first others =>
        cases same
        rw [width_cons] at start stop ⊢
        rw [Nat.sub_add_eq]
        exact clear others other after rfl (by omega) (by omega)

/-! ## Masks -/

/-- What a mask of one run leaves: the bits of the run, where they stand. -/
theorem and_of_oneRun (value : Nat) {mask : Nat} (run : oneRun mask.bits = true) :
    value &&& mask =
      2 ^ zeros mask.bits * ((value >>> zeros mask.bits) % 2 ^ ones mask.bits) := by
  refine Nat.eq_of_testBit_eq fun i => ?_
  rw [Nat.testBit_and, testBit_of_oneRun run, Nat.testBit_two_pow_mul, Nat.testBit_mod_two_pow,
    Nat.testBit_shiftRight]
  by_cases above : zeros mask.bits ≤ i
  · rw [Nat.add_sub_cancel' above]
    by_cases below : i < zeros mask.bits + ones mask.bits
    · have within : i - zeros mask.bits < ones mask.bits := by omega
      simp [above, below, within]
    · have without_ : ¬i - zeros mask.bits < ones mask.bits := by omega
      simp [below, without_]
  · simp [above]

/-- A mask of one run that stands in one field. -/
theorem number_and {before after : List Field} {field : Field} {mask : Nat}
    (fits : Fits (before ++ field :: after)) (run : oneRun mask.bits = true)
    (low : width before = zeros mask.bits) (few : ones mask.bits ≤ field.size) :
    number (before ++ field :: after) &&& mask =
      2 ^ zeros mask.bits * (field.value % 2 ^ ones mask.bits) := by
  have upper : 2 ^ field.size = 2 ^ ones mask.bits * 2 ^ (field.size - ones mask.bits) := by
    rw [← pow_add]
    congr 1
    omega
  rw [and_of_oneRun _ run, ← low, shiftRight_append fits, number, upper, mul_assoc,
    Nat.add_mul_mod_self_left]

/-- No number but 0 is made of its own bits, moved up. -/
theorem eq_moved_iff (value bits moved : Nat) :
    value = 2 ^ moved * (value % 2 ^ bits) ↔ moved = 0 ∧ value < 2 ^ bits ∨ value = 0 := by
  constructor
  · intro same
    rcases Nat.eq_zero_or_pos moved with rfl | up
    · rw [pow_zero, one_mul] at same
      exact .inl ⟨rfl, same ▸ Nat.mod_lt _ (Nat.two_pow_pos _)⟩
    · refine .inr (Nat.eq_of_testBit_eq fun i => ?_)
      rw [Nat.zero_testBit]
      -- a bit that is set comes from a lower one
      induction i using Nat.strong_induction_on with
      | _ i ih =>
          rw [same, Nat.testBit_two_pow_mul, Nat.testBit_mod_two_pow]
          by_cases above : moved ≤ i
          · rw [ih (i - moved) (by omega), Bool.and_false, Bool.and_false]
          · rw [decide_eq_false above, Bool.false_and]
  · rintro (⟨rfl, small⟩ | rfl)
    · rw [pow_zero, one_mul, Nat.mod_eq_of_lt small]
    · rw [Nat.zero_mod, mul_zero]

/-- The field in which the run of a mask stands is the lowest one and ends below the run, or is 0. -/
def Unmoved (mask : Nat) (fields : List Field) : Prop :=
  mask = 0 ∨ ∀ before field after, fields = before ++ field :: after →
    width before = zeros mask.bits → ones mask.bits ≤ field.size →
      zeros mask.bits = 0 ∧ field.value < 2 ^ ones mask.bits ∨ field.value = 0

/-! ### The mask of the lowest bits -/

theorem bits_pred_two_pow (size : Nat) : (2 ^ size - 1).bits = List.replicate size true := by
  induction size with
  | zero => rfl
  | succ size ih =>
      have positive : 0 < 2 ^ size := Nat.two_pow_pos _
      have odd : 2 ^ (size + 1) - 1 = Nat.bit true (2 ^ size - 1) := by
        rw [Nat.bit_true_apply, pow_succ]
        omega
      rw [odd, Nat.bits_append_bit _ _ fun _ => rfl, ih, List.replicate_succ]

theorem zeros_pred_two_pow (size : Nat) : zeros (2 ^ size - 1).bits = 0 := by
  rw [bits_pred_two_pow]
  cases size <;> rfl

theorem fromLowest_pred_two_pow (size : Nat) :
    fromLowest (2 ^ size - 1).bits = List.replicate size true := by
  rw [bits_pred_two_pow]
  cases size <;> rfl

theorem ones_pred_two_pow (size : Nat) : ones (2 ^ size - 1).bits = size := by
  simp [ones, fromLowest_pred_two_pow]

theorem oneRun_pred_two_pow (size : Nat) : oneRun (2 ^ size - 1).bits = true := by
  simp [oneRun, fromLowest_pred_two_pow]

end OpenCLDecompiler.Library.Fields
