import OpenCLDecompiler.Library.Doubles

/-!
# The numbers that texts spell

`int(text, base)` and `float(text)` of Python for texts without blanks and underscores.
-/

namespace OpenCLDecompiler.Library.PyNumbers

/-- The worth of a digit; letters count in either case. -/
def digit (c : Char) : Option Nat :=
  if c.isDigit then some (c.toNat - 48)
  else if c.isLower then some (c.toNat - 87)
  else if c.isUpper then some (c.toNat - 55)
  else none

/-- One more digit behind a number. -/
def push (base number : Nat) (c : Char) : Option Nat :=
  match digit c with
  | some worth => if worth < base then some (number * base + worth) else none
  | none => none

def readNat (base : Nat) (text : List Char) : Option Nat :=
  if text = [] then none else text.foldlM (push base) 0

/-- Base 16 allows a prefix. -/
def readUnsigned (base : Nat) : List Char → Option Nat
  | '0' :: c :: digits =>
      if base = 16 ∧ (c = 'x' ∨ c = 'X') then readNat base digits
      else readNat base ('0' :: c :: digits)
  | digits => readNat base digits

/-- `int(text, base)`; `none` is a `ValueError`. -/
def readInt (base : Nat) : List Char → Option Int
  | '-' :: text => (readUnsigned base text).map fun number => -(number : Int)
  | '+' :: text => (readUnsigned base text).map fun number => (number : Int)
  | text => (readUnsigned base text).map fun number => (number : Int)

def isExponentLetter (c : Char) : Bool := c = 'e' || c = 'E'

/-- A decimal number with a point and an exponent, either of which may be missing. -/
def readUnsignedFloat (text : List Char) : Option ℚ := do
  let mantissa := text.takeWhile (!isExponentLetter ·)
  let fraction := (mantissa.dropWhile (· ≠ '.')).drop 1
  let number ← readNat 10 (mantissa.takeWhile (· ≠ '.') ++ fraction)
  let power ← match text.dropWhile (!isExponentLetter ·) with
    | [] => some 0
    | _ :: digits => readInt 10 digits
  double ((number : ℚ) * 10 ^ (power - (fraction.length : Int)))

/-- `float(text)` for finite numbers; `none` is a `ValueError`. -/
def readFloat : List Char → Option ℚ
  | '-' :: text => (readUnsignedFloat text).map fun number => -number
  | '+' :: text => readUnsignedFloat text
  | text => readUnsignedFloat text

/-! ## Digits -/

/-- A digit of the base. -/
def IsDigit (base : Nat) (c : Char) : Prop := ∃ worth, digit c = some worth ∧ worth < base

theorem isDigit_ten {c : Char} (isDigit : c.isDigit = true) : IsDigit 10 c := by
  refine ⟨c.toNat - 48, by simp [digit, isDigit], ?_⟩
  have bounds : 48 ≤ c.toNat ∧ c.toNat ≤ 57 := by
    simpa [Char.isDigit, UInt32.le_iff_toNat_le] using isDigit
  omega

theorem not_isDigit_x : ¬IsDigit 10 'x' := by
  rintro ⟨worth, same, small⟩
  obtain rfl : 33 = worth := Option.some.inj same
  omega

theorem isDigit_sixteen {c : Char} (isDigit : c.isDigit = true) : IsDigit 16 c := by
  obtain ⟨worth, same, small⟩ := isDigit_ten isDigit
  exact ⟨worth, same, by omega⟩

theorem push_of_isDigit {base : Nat} {c : Char} (isDigit : IsDigit base c) (number : Nat) :
    ∃ next, push base number c = some next := by
  obtain ⟨worth, same, small⟩ := isDigit
  exact ⟨number * base + worth, by simp [push, same, small]⟩

theorem foldlM_push {base : Nat} {digits : List Char} (valid : ∀ c ∈ digits, IsDigit base c)
    (number : Nat) : ∃ last, digits.foldlM (push base) number = some last := by
  induction digits generalizing number with
  | nil => exact ⟨number, rfl⟩
  | cons c digits ih =>
      obtain ⟨next, pushed⟩ := push_of_isDigit (valid c List.mem_cons_self) number
      obtain ⟨last, rest⟩ := ih (fun c inside => valid c (List.mem_cons_of_mem _ inside)) next
      exact ⟨last, by rw [List.foldlM_cons, pushed]; exact rest⟩

theorem readNat_of_digits {base : Nat} {digits : List Char} (some' : digits ≠ [])
    (valid : ∀ c ∈ digits, IsDigit base c) : ∃ number, readNat base digits = some number := by
  rw [readNat, if_neg some']
  exact foldlM_push valid 0

theorem foldlM_push_of_mem {base : Nat} {text : List Char} {c : Char} (inside : c ∈ text)
    (other : ¬IsDigit base c) (number : Nat) : text.foldlM (push base) number = none := by
  induction text generalizing number with
  | nil => cases inside
  | cons first text ih =>
      rw [List.foldlM_cons]
      rcases List.mem_cons.mp inside with rfl | inside
      · have stops : push base number c = none := by
          unfold push
          split
          · rename_i worth same
            exact if_neg fun small => other ⟨worth, same, small⟩
          · rfl
        rw [stops]
        rfl
      · cases push base number first with
        | none => rfl
        | some next => exact ih inside next

/-- A letter that is no digit of the base spoils a number. -/
theorem readNat_of_mem {base : Nat} {text : List Char} {c : Char} (inside : c ∈ text)
    (other : ¬IsDigit base c) : readNat base text = none := by
  rw [readNat, if_neg (List.ne_nil_of_mem inside)]
  exact foldlM_push_of_mem inside other 0

/-- What holds of the digits of a base holds of the digits of a number. -/
theorem mem_toDigits {base : Nat} (least : 1 < base) (holds : Char → Prop)
    (below : ∀ worth < base, holds worth.digitChar) (number : Nat) :
    ∀ c ∈ Nat.toDigits base number, holds c := by
  induction number using Nat.strong_induction_on with
  | _ number ih =>
      rw [Nat.toDigits_eq_if least]
      split
      · rename_i small
        simpa using below number small
      · rename_i large
        have positive : 0 < number := by omega
        intro c member
        rcases List.mem_append.mp member with before | last
        · exact ih (number / base) (Nat.div_lt_self positive least) c before
        · rw [List.mem_singleton.mp last]
          exact below _ (Nat.mod_lt number (by omega))

end OpenCLDecompiler.Library.PyNumbers
