import Mathlib.Data.Nat.Digits.Defs

/-!
# Hexadecimal texts

`hex` of Python, digits filled up with zeros to a length, and a number that is written in
front of the digits of another one.
-/

namespace OpenCLDecompiler.Library.Hexadecimal

def digits (number : Nat) : List Char := Nat.toDigits 16 number

/-- `hex(number)`. -/
def hex : Int → List Char
  | .ofNat number => '0' :: 'x' :: digits number
  | .negSucc number => '-' :: '0' :: 'x' :: digits (number + 1)

/-- The digits, filled up with zeros. -/
def padded (length number : Nat) : List Char :=
  List.replicate (length - (digits number).length) '0' ++ digits number

theorem digitChar_inj {first second : Nat} (low : first < 16) (below : second < 16)
    (same : first.digitChar = second.digitChar) : first = second := by
  have all : ∀ first second : Fin 16, first.val.digitChar = second.val.digitChar →
      first = second := by decide
  exact congrArg Fin.val (all ⟨first, low⟩ ⟨second, below⟩ same)

theorem digits_of_lt {number : Nat} (small : number < 16) : digits number = [number.digitChar] :=
  Nat.toDigits_of_lt_base small

theorem digits_of_le {number : Nat} (large : 16 ≤ number) :
    digits number = digits (number / 16) ++ [(number % 16).digitChar] :=
  Nat.toDigits_of_base_le (by decide) large

theorem digits_ne_nil (number : Nat) : digits number ≠ [] := Nat.toDigits_ne_nil

theorem digits_inj {first second : Nat} (same : digits first = digits second) :
    first = second := by
  induction first using Nat.strong_induction_on generalizing second with
  | _ first ih =>
      rcases Nat.lt_or_ge first 16 with low | high <;>
        rcases Nat.lt_or_ge second 16 with below | above
      · rw [digits_of_lt low, digits_of_lt below] at same
        exact digitChar_inj low below (List.cons.inj same).1
      · rw [digits_of_lt low, digits_of_le above] at same
        have short := congrArg List.length same
        rw [List.length_append, List.length_singleton, List.length_singleton] at short
        exact absurd (List.length_eq_zero_iff.mp (by omega)) (digits_ne_nil (second / 16))
      · rw [digits_of_le high, digits_of_lt below] at same
        have short := congrArg List.length same
        rw [List.length_append, List.length_singleton, List.length_singleton] at short
        exact absurd (List.length_eq_zero_iff.mp (by omega)) (digits_ne_nil (first / 16))
      · rw [digits_of_le high, digits_of_le above] at same
        obtain ⟨front, last⟩ := List.append_inj' same rfl
        have quotients := ih (first / 16) (Nat.div_lt_self (by omega) (by decide)) front
        have rests := digitChar_inj (Nat.mod_lt _ (by decide)) (Nat.mod_lt _ (by decide))
          (List.cons.inj last).1
        omega

theorem hex_inj {first second : Int} (same : hex first = hex second) : first = second := by
  cases first with
  | ofNat first =>
      cases second with
      | ofNat second =>
          exact congrArg Int.ofNat (digits_inj (List.cons.inj (List.cons.inj same).2).2)
      | negSucc second => cases same
  | negSucc first =>
      cases second with
      | ofNat second => cases same
      | negSucc second =>
          have numbers := digits_inj
            (List.cons.inj (List.cons.inj (List.cons.inj same).2).2).2
          exact congrArg Int.negSucc (Nat.succ_inj.mp numbers)

/-! ## Padding -/

theorem padded_succ {length : Nat} (some_ : 0 < length) (number : Nat) :
    padded (length + 1) number = padded length (number / 16) ++ [(number % 16).digitChar] := by
  rcases Nat.lt_or_ge number 16 with small | large
  · have zeros : length = length - 1 + 1 := by omega
    rw [padded, padded, digits_of_lt small, Nat.div_eq_of_lt small, Nat.mod_eq_of_lt small,
      digits_of_lt (by decide : 0 < 16), List.length_singleton, List.length_singleton,
      Nat.add_sub_cancel]
    conv_lhs => rw [zeros, List.replicate_succ']
    rfl
  · rw [padded, padded, digits_of_le large, List.length_append, List.length_singleton,
      Nat.add_sub_add_right, List.append_assoc]

/-- A number in front of the digits of another one. -/
theorem digits_append {high low length : Nat} (some_ : 0 < length) (positive : 0 < high)
    (small : low < 16 ^ length) :
    digits (high * 16 ^ length + low) = digits high ++ padded length low := by
  induction length, some_ using Nat.le_induction generalizing low with
  | base =>
      have one : padded 1 low = digits low := by
        rw [padded, digits_of_lt (by simpa using small)]
        rfl
      rw [one, pow_one, Nat.mul_comm]
      exact (Nat.toDigits_append_toDigits (by decide) positive (by simpa using small)).symm
  | succ length some_ ih =>
      have power : 16 ^ (length + 1) = 16 * 16 ^ length := by rw [pow_succ, Nat.mul_comm]
      have parts : high * 16 ^ (length + 1) + low =
          16 * (high * 16 ^ length + low / 16) + low % 16 := by
        have back := Nat.div_add_mod low 16
        rw [power, Nat.mul_left_comm]
        omega
      have large : 0 < high * 16 ^ length + low / 16 :=
        Nat.add_pos_left (Nat.mul_pos positive (Nat.pow_pos (by decide))) _
      rw [parts, padded_succ some_, ← List.append_assoc, ← ih (by omega),
        ← digits_of_lt (Nat.mod_lt low (by decide))]
      exact (Nat.toDigits_append_toDigits (by decide) large (Nat.mod_lt low (by decide))).symm

theorem length_padded {length number : Nat} (some_ : 0 < length) (small : number < 16 ^ length) :
    (padded length number).length = length := by
  have short : (digits number).length ≤ length := Nat.toDigits_length 16 number length some_ small
  rw [padded, List.length_append, List.length_replicate]
  omega

theorem padded_inj {length first second : Nat} (some_ : 0 < length) (small : first < 16 ^ length)
    (below : second < 16 ^ length) (same : padded length first = padded length second) :
    first = second := by
  have numbers : digits (1 * 16 ^ length + first) = digits (1 * 16 ^ length + second) := by
    rw [digits_append some_ (by decide) small, digits_append some_ (by decide) below, same]
  exact Nat.add_left_cancel (digits_inj numbers)

end OpenCLDecompiler.Library.Hexadecimal
