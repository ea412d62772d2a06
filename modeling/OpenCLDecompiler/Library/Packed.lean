import Mathlib.Data.BitVec
import Mathlib.Data.List.TakeWhile
import Mathlib.Data.Nat.Bitwise

/-!
# Packed words

Pieces that stand one above the other in a word, masks that are one run of bits, and
what such a mask leaves of a packed word.
-/

namespace OpenCLDecompiler.Library.Packed

variable {w : Nat}

/-- A value and the number of bits that it takes. -/
structure Piece (w : Nat) where
  value : BitVec w
  size : Nat

/-- The pieces one above the other, the first one at bit `start`. -/
def pack (start : Nat) : List (Piece w) → BitVec w
  | [] => 0#w
  | piece :: rest => piece.value <<< start ||| pack (start + piece.size) rest

/-- Every value takes no more bits than it has. -/
def Fits (pieces : List (Piece w)) : Prop := ∀ piece ∈ pieces, piece.value.toNat < 2 ^ piece.size

def width (pieces : List (Piece w)) : Nat := (pieces.map Piece.size).sum

theorem getLsbD_pack_below (pieces : List (Piece w)) {start i : Nat} (below : i < start) :
    (pack start pieces).getLsbD i = false := by
  induction pieces generalizing start with
  | nil => simp [pack]
  | cons piece rest ih =>
      rw [pack, BitVec.getLsbD_or, ih (by omega), BitVec.getLsbD_shiftLeft]
      simp [below]

theorem getLsbD_of_lt {value : BitVec w} {size i : Nat} (small : value.toNat < 2 ^ size)
    (above : size ≤ i) : value.getLsbD i = false :=
  Nat.testBit_lt_two_pow (lt_of_lt_of_le small (Nat.pow_le_pow_right Nat.two_pos above))

/-- Where a piece stands, the word has its bits. -/
theorem getLsbD_pack {before after : List (Piece w)} {piece : Piece w} {start i : Nat}
    (fits : Fits (before ++ piece :: after)) (inside : i < w)
    (above : start + width before ≤ i) (below : i < start + width before + piece.size) :
    (pack start (before ++ piece :: after)).getLsbD i =
      piece.value.getLsbD (i - (start + width before)) := by
  induction before generalizing start with
  | nil =>
      have later : (pack (start + piece.size) after).getLsbD i = false :=
        getLsbD_pack_below after below
      have here : ¬i < start := Nat.not_lt.mpr above
      rw [List.nil_append, pack, BitVec.getLsbD_or, later, BitVec.getLsbD_shiftLeft]
      simp only [inside, here, decide_true, decide_false, Bool.not_false, Bool.true_and,
        Bool.or_false]
      rfl
  | cons first rest ih =>
      have parts : width (first :: rest) = first.size + width rest := by simp [width]
      have small : first.value.toNat < 2 ^ first.size := fits first (by simp)
      have gone : first.value.getLsbD (i - start) = false := getLsbD_of_lt small (by omega)
      rw [List.cons_append, pack, BitVec.getLsbD_or, BitVec.getLsbD_shiftLeft, gone,
        ih (fun other member => fits other (List.mem_cons_of_mem _ member)) (by omega) (by omega),
        Bool.and_false, Bool.false_or, parts, Nat.add_assoc]

/-! ## Masks -/

/-- The number of zeros below the lowest bit. -/
def zeros (bits : List Bool) : Nat := (bits.takeWhile (· == false)).length

/-- The bits from the lowest one on. -/
def fromLowest (bits : List Bool) : List Bool := bits.dropWhile (· == false)

/-- The number of ones from the lowest on. -/
def ones (bits : List Bool) : Nat := ((fromLowest bits).takeWhile (· == true)).length

/-- There is no bit above the ones. -/
def oneRun (bits : List Bool) : Bool := ((fromLowest bits).dropWhile (· == true)).all (· == false)

theorem takeWhile_eq_replicate (bits : List Bool) (value : Bool) :
    bits.takeWhile (· == value) =
      List.replicate (bits.takeWhile (· == value)).length value :=
  List.eq_replicate_of_mem fun _ inside =>
    beq_iff_eq.mp (@List.mem_takeWhile_imp _ (· == value) bits _ inside)

/-- The zeros, the ones of the run, and what stands above. -/
theorem bits_eq (bits : List Bool) : bits = List.replicate (zeros bits) false ++
    (List.replicate (ones bits) true ++ (fromLowest bits).dropWhile (· == true)) := by
  rw [ones, ← takeWhile_eq_replicate, List.takeWhile_append_dropWhile, zeros,
    ← takeWhile_eq_replicate, fromLowest, List.takeWhile_append_dropWhile]

theorem getD_run (low count rest i : Nat) :
    (List.replicate low false ++ (List.replicate count true ++ List.replicate rest false))[i]?.getD
      false = decide (low ≤ i ∧ i < low + count) := by
  by_cases below : i < low
  · rw [List.getElem?_append_left (by simpa using below)]
    simp [below]
  rw [List.getElem?_append_right (by simpa using below), List.length_replicate]
  by_cases inside : i - low < count
  · rw [List.getElem?_append_left (by simpa using inside)]
    simp only [List.getElem?_replicate, inside, if_true, Option.getD_some]
    exact (decide_eq_true ⟨by omega, by omega⟩).symm
  · rw [List.getElem?_append_right (by simpa using inside)]
    have outside : ¬(low ≤ i ∧ i < low + count) := by omega
    rw [decide_eq_false outside, List.getElem?_replicate]
    split <;> rfl

/-- A mask of one run has the bits of the run. -/
theorem testBit_of_oneRun {mask : Nat} (run : oneRun mask.bits = true) (i : Nat) :
    mask.testBit i =
      decide (zeros mask.bits ≤ i ∧ i < zeros mask.bits + ones mask.bits) := by
  have rest : (fromLowest mask.bits).dropWhile (· == true) = List.replicate
      ((fromLowest mask.bits).dropWhile (· == true)).length false :=
    List.eq_replicate_of_mem fun bit inside => by
      simpa using List.all_eq_true.mp run bit inside
  have bits := bits_eq mask.bits
  rw [rest] at bits
  rw [Nat.testBit_eq_inth, List.getI_eq_getElem?_getD, bits]
  exact (getD_run ..).trans (by rw [← bits])

/-- There is a bit in a number that is not 0. -/
theorem ones_pos {mask : Nat} (nonzero : mask ≠ 0) (run : oneRun mask.bits = true) :
    0 < ones mask.bits := by
  obtain ⟨i, bit⟩ := Nat.exists_testBit_of_ne_zero nonzero
  rw [testBit_of_oneRun run, decide_eq_true_eq] at bit
  omega

/-- What a mask of one run leaves of a packed word. -/
theorem getLsbD_pack_and {before after : List (Piece w)} {piece : Piece w} {mask : Nat}
    (fits : Fits (before ++ piece :: after)) (run : oneRun mask.bits = true)
    (low : zeros mask.bits = width before) (few : ones mask.bits ≤ piece.size) (i : Nat) :
    (pack 0 (before ++ piece :: after) &&& BitVec.ofNat w mask).getLsbD i =
      (decide (i < w ∧ width before ≤ i ∧ i < width before + ones mask.bits) &&
        piece.value.getLsbD (i - width before)) := by
  rw [BitVec.getLsbD_and, BitVec.getLsbD_ofNat, testBit_of_oneRun run, low]
  by_cases inside : i < w ∧ width before ≤ i ∧ i < width before + ones mask.bits
  · have here : (pack 0 (before ++ piece :: after)).getLsbD i =
        piece.value.getLsbD (i - (0 + width before)) :=
      getLsbD_pack fits inside.1 (by omega) (by omega)
    rw [Nat.zero_add] at here
    rw [here, decide_eq_true inside, decide_eq_true inside.1, decide_eq_true inside.2]
    simp
  · rw [decide_eq_false inside, Bool.false_and]
    by_cases within : i < w
    · have outside : ¬(width before ≤ i ∧ i < width before + ones mask.bits) := by omega
      rw [decide_eq_false outside, Bool.and_false, Bool.and_false]
    · rw [decide_eq_false within, Bool.false_and, Bool.and_false]

/--
A piece is what the mask leaves of the word if it stands at the lowest bit and the mask
covers its bits, or if it is 0.
-/
theorem value_eq_pack_and_iff {before after : List (Piece w)} {piece : Piece w} {mask : Nat}
    (fits : Fits (before ++ piece :: after)) (run : oneRun mask.bits = true)
    (low : zeros mask.bits = width before) (few : ones mask.bits ≤ piece.size) :
    piece.value = pack 0 (before ++ piece :: after) &&& BitVec.ofNat w mask ↔
      zeros mask.bits = 0 ∧ piece.value.toNat < 2 ^ ones mask.bits ∨
        piece.value = 0#w := by
  have bits := getLsbD_pack_and fits run low few
  rw [low]
  constructor
  · intro same
    rw [← same] at bits
    by_cases lowest : width before = 0
    · refine .inl ⟨lowest, Nat.lt_pow_two_of_testBit _ fun i above => ?_⟩
      have gone := bits i
      rw [decide_eq_false (by omega), Bool.false_and] at gone
      exact gone
    · refine .inr (BitVec.eq_of_getLsbD_eq fun i _ => ?_)
      rw [BitVec.getLsbD_zero]
      -- a bit that is set comes from a lower one
      induction i using Nat.strong_induction_on with
      | _ i ih =>
          rw [bits i]
          by_cases inside : i < w ∧ width before ≤ i ∧ i < width before + ones mask.bits
          · rw [ih (i - width before) (by omega) (by omega), Bool.and_false]
          · rw [decide_eq_false inside, Bool.false_and]
  · rintro (⟨lowest, small⟩ | zero)
    · refine BitVec.eq_of_getLsbD_eq fun i within => ?_
      rw [bits i, lowest, Nat.sub_zero]
      by_cases inside : i < ones mask.bits
      · rw [decide_eq_true ⟨within, by omega, by omega⟩, Bool.true_and]
      · rw [getLsbD_of_lt small (by omega), Bool.and_false]
    · refine BitVec.eq_of_getLsbD_eq fun i _ => ?_
      rw [bits i, zero, BitVec.getLsbD_zero, BitVec.getLsbD_zero, Bool.and_false]

end OpenCLDecompiler.Library.Packed
