import Mathlib.Data.BitVec

/-!
# Words of bits

Words as sets of lanes, and the two halves of a double word.
-/

namespace OpenCLDecompiler.Library.Words

variable {width : Nat}

/-! ## Halves -/

theorem append_halves (value : BitVec 64) :
    (value >>> 32).setWidth 32 ++ value.setWidth 32 = value := by
  apply BitVec.eq_of_getLsbD_eq
  intro place small
  rw [BitVec.getLsbD_append]
  by_cases inLow : place < 32
  · simp [inLow, small]
  · have back : 32 + (place - 32) = place := by omega
    have inHigh : place - 32 < 32 := by omega
    simp [inLow, inHigh, back]

theorem setWidth_append_low (high low : BitVec 32) : (high ++ low).setWidth 32 = low := by
  apply BitVec.eq_of_getLsbD_eq
  intro place small
  rw [BitVec.getLsbD_setWidth, BitVec.getLsbD_append]
  simp [small]

theorem setWidth_append_high (high low : BitVec 32) :
    ((high ++ low) >>> 32).setWidth 32 = high := by
  apply BitVec.eq_of_getLsbD_eq
  intro place small
  rw [BitVec.getLsbD_setWidth, BitVec.getLsbD_ushiftRight, BitVec.getLsbD_append]
  simp [small]

theorem append_eq_iff (high low high' low' : BitVec 32) :
    high ++ low = high' ++ low' ↔ high = high' ∧ low = low' := by
  constructor
  · rintro same
    refine ⟨?_, ?_⟩
    · rw [← setWidth_append_high high low, same, setWidth_append_high]
    · rw [← setWidth_append_low high low, same, setWidth_append_low]
  · rintro ⟨rfl, rfl⟩
    rfl

/-- The borrow of a difference. -/
def borrow (x y : BitVec 32) : BitVec 32 := if x.toNat < y.toNat then 1 else 0

/-- The difference of double words, word by word. -/
theorem append_sub_append (xHigh xLow yHigh yLow : BitVec 32) :
    (xHigh ++ xLow) - (yHigh ++ yLow) = (xHigh - yHigh - borrow xLow yLow) ++ (xLow - yLow) := by
  have appended : ∀ high low : BitVec 32, (high ++ low).toNat = high.toNat * 2 ^ 32 + low.toNat := by
    intro high low
    rw [BitVec.toNat_append, ← Nat.shiftLeft_add_eq_or_of_lt low.isLt, Nat.shiftLeft_eq]
  have xh := xHigh.isLt
  have xl := xLow.isLt
  have yh := yHigh.isLt
  have yl := yLow.isLt
  apply BitVec.eq_of_toNat_eq
  rw [appended]
  simp only [BitVec.toNat_sub, appended, borrow]
  split
  · have one : (1 : BitVec 32).toNat = 1 := rfl
    rw [one]
    omega
  · have zero : (0 : BitVec 32).toNat = 0 := rfl
    rw [zero]
    omega

/-! ## Sets of lanes -/

/-- Every lane of the first word is one of the second. -/
def Within (x y : BitVec width) : Prop := x &&& ~~~y = 0

instance (x y : BitVec width) : Decidable (Within x y) :=
  inferInstanceAs (Decidable (x &&& ~~~y = 0))

theorem within_iff (x y : BitVec width) :
    Within x y ↔ ∀ place < width, x.getLsbD place = true → y.getLsbD place = true := by
  rw [Within, BitVec.eq_of_getLsbD_eq_iff]
  refine forall_congr' fun place => forall_congr' fun small => ?_
  simp [small]

theorem eq_and_iff (x y : BitVec width) : x = y &&& x ↔ Within x y := by
  rw [within_iff, BitVec.eq_of_getLsbD_eq_iff]
  refine forall_congr' fun place => forall_congr' fun small => ?_
  simp

theorem eq_or_iff (x y : BitVec width) : x = y ||| x ↔ Within y x := by
  rw [within_iff, BitVec.eq_of_getLsbD_eq_iff]
  refine forall_congr' fun place => forall_congr' fun small => ?_
  simp

theorem xor_eq_and_not_iff (x y : BitVec width) : x ^^^ y = x &&& ~~~y ↔ Within y x := by
  rw [within_iff, BitVec.eq_of_getLsbD_eq_iff]
  refine forall_congr' fun place => forall_congr' fun small => ?_
  rw [BitVec.getLsbD_xor, BitVec.getLsbD_and, BitVec.getLsbD_not]
  cases x.getLsbD place <;> cases y.getLsbD place <;> simp [small]

/-- The word of the lanes in which a condition holds. -/
def ofLanes (condition : Fin width → Bool) : BitVec width :=
  (BitVec.iunfoldr (fun lane (_ : Unit) => ((), condition lane)) ()).2

theorem getLsbD_ofLanes (condition : Fin width → Bool) (lane : Fin width) :
    (ofLanes condition).getLsbD lane = condition lane :=
  BitVec.iunfoldr_getLsbD (fun _ => ()) lane fun _ => rfl

theorem ofLanes_eq_iff (first second : Fin width → Bool) :
    ofLanes first = ofLanes second ↔ ∀ lane, first lane = second lane := by
  constructor
  · intro same lane
    rw [← getLsbD_ofLanes first, ← getLsbD_ofLanes second, same]
  · intro agree
    exact congrArg ofLanes (funext agree)

end OpenCLDecompiler.Library.Words
