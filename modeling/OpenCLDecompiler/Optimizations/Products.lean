import OpenCLDecompiler.Optimizations.Negation

/-!
# Products

`_optimized_nodes_mul` for all operands and all configurations.  The sizes of the work
groups may be missing, or fewer than three.
-/

namespace OpenCLDecompiler.Optimizations.Products

open ConstantFolding (Value isScientific)
open Expressions Library PyNumbers Registers

variable {τ ι : Type}

/-! ## Texts in base 16 -/

theorem le_of_push {base number next worth : Nat} {c : Char} (positive : 0 < base)
    (pushed : push base number c = some next) (isDigit : digit c = some worth) :
    number ≤ next ∧ worth ≤ next := by
  simp only [push, isDigit] at pushed
  split at pushed
  · cases pushed
    have grows : number * 1 ≤ number * base := Nat.mul_le_mul_left _ positive
    omega
  · cases pushed

/-- A number is at least as large as each of its digits. -/
theorem le_of_foldlM_push {base number last : Nat} {text : List Char} (positive : 0 < base)
    (read : text.foldlM (push base) number = some last) :
    number ≤ last ∧ ∀ c ∈ text, ∀ worth, digit c = some worth → worth ≤ last := by
  induction text generalizing number with
  | nil =>
      cases read
      exact ⟨le_rfl, nofun⟩
  | cons c text ih =>
      rw [List.foldlM_cons] at read
      obtain ⟨next, pushed, rest⟩ := Option.bind_eq_some_iff.mp read
      obtain ⟨grows, digits⟩ := ih rest
      have isDigit : ∃ worth, digit c = some worth := by
        cases isDigit : digit c with
        | none => simp [push, isDigit] at pushed
        | some worth => exact ⟨worth, rfl⟩
      obtain ⟨worth, isDigit⟩ := isDigit
      obtain ⟨before, least⟩ := le_of_push positive pushed isDigit
      refine ⟨before.trans grows, fun other inside worth' isDigit' => ?_⟩
      rcases List.mem_cons.mp inside with rfl | inside
      · cases isDigit.symm.trans isDigit'
        exact least.trans grows
      · exact digits other inside worth' isDigit'

/-- The letters of a text in scientific notation. -/
theorem letters_of_isScientific {text : List Char} (scientific : isScientific text = true) :
    'e' ∈ text ∧ (∀ c ∈ text, c.isDigit = true ∨ c = 'e') ∧
      ∃ first rest, text = first :: rest ∧ first.isDigit = true := by
  unfold isScientific at scientific
  split at scientific
  next exponent same =>
    simp only [Bool.and_eq_true, Bool.not_eq_true', List.all_eq_true] at scientific
    obtain ⟨⟨nonempty, -⟩, digits⟩ := scientific
    have whole : text.takeWhile Char.isDigit ++ 'e' :: exponent = text := by
      rw [← same]
      exact List.takeWhile_append_dropWhile
    refine ⟨?_, fun c inside => ?_, ?_⟩
    · rw [← whole]
      simp
    · rw [← whole, List.mem_append, List.mem_cons] at inside
      rcases inside with before | rfl | after
      · exact .inl (List.mem_takeWhile_imp before)
      · exact .inr rfl
      · exact .inl (digits c after)
    · cases text with
      | nil => cases nonempty
      | cons first rest =>
          refine ⟨first, rest, rfl, ?_⟩
          by_contra other
          rw [List.takeWhile_cons, if_neg other] at nonempty
          cases nonempty
  next => cases scientific

/-- A text in scientific notation is a number with the digit `e` in base 16. -/
theorem readInt_of_isScientific {text : List Char} (scientific : isScientific text = true) :
    ∃ number, readInt 16 text = some number ∧ 14 ≤ number := by
  obtain ⟨letter, letters, first, rest, rfl, isDigit⟩ := letters_of_isScientific scientific
  have valid : ∀ c ∈ first :: rest, IsDigit 16 c := by
    intro c inside
    rcases letters c inside with isDigit | rfl
    · exact isDigit_sixteen isDigit
    · exact ⟨14, rfl, by omega⟩
  obtain ⟨number, read⟩ := foldlM_push valid 0
  have large : 14 ≤ number := (le_of_foldlM_push (by omega) read).2 'e' letter 14 rfl
  have whole : readNat 16 (first :: rest) = some number := by
    rw [readNat, if_neg (List.cons_ne_nil _ _)]
    exact read
  have unsigned : readUnsigned 16 (first :: rest) = some number := by
    unfold readUnsigned
    split
    · rename_i c digits same
      cases same
      rw [if_neg, whole]
      have second : c.isDigit = true ∨ c = 'e' := letters c (by simp)
      rintro ⟨-, rfl | rfl⟩ <;> exact absurd second (by decide)
    · exact whole
  refine ⟨number, ?_, by exact_mod_cast large⟩
  unfold readInt
  split
  · rename_i same
    cases same
    cases isDigit
  · rename_i same
    cases same
    cases isDigit
  · rw [unsigned]
    rfl

/-! ## Constants -/

/-- The comparison of `const_zero_node` and `const_one_node`; `none` is the `ValueError` of `int`. -/
def readsAs (number : Int) : Value → Option Bool
  | .int value => some (decide (value = number))
  | .float value => some (decide (value = number))
  | .text text => (readInt 16 text).map fun worth => decide (worth = number)

/-- A constant is read, and what is taken for a small number is it. -/
theorem readsAs_of_constOf {value : Value} {const : ConstValue} (isConst : constOf value = some const)
    {number : Int} (small : number < 14) :
    ∃ same, readsAs number value = some same ∧ (same = true → const.toRat = number) := by
  cases value with
  | int value =>
      cases isConst
      exact ⟨_, rfl, fun same => congrArg Int.cast (of_decide_eq_true same)⟩
  | float value =>
      cases isConst
      exact ⟨_, rfl, of_decide_eq_true⟩
  | text text =>
      have isNumber := toRat_of_constOf isConst
      rw [numberOf] at isNumber
      split at isNumber
      next scientific =>
        obtain ⟨worth, read, large⟩ := readInt_of_isScientific scientific
        refine ⟨decide (worth = number), by rw [readsAs, read]; rfl, fun same => ?_⟩
        have equal := of_decide_eq_true same
        omega
      next =>
        obtain ⟨worth, read, same⟩ := Option.map_eq_some_iff.mp isNumber
        refine ⟨decide (worth = number), by rw [readsAs, read]; rfl, fun equal => ?_⟩
        rw [← same, of_decide_eq_true equal]

/-! ## The optimisation -/

/-- `"XYZ".index(dim)`. -/
def dimIndex : Dim → Nat
  | .x => 0
  | .y => 1
  | .z => 2

/--
`size_of_work_groups[i]`; `none` is the `IndexError` of a list that is too short, or the
`TypeError` of `None`.
-/
def sizeOfWorkGroup (sizes : Option (List Int)) (dim : Dim) : Option Int := do
  (← sizes)[dimIndex dim]?

/-- `const_zero_node` and `const_one_node`. -/
def constNode (number : Int) : LinkedTree (Content τ ι) → Option Bool
  | .leaf (.const value _) => readsAs number value
  | _ => some false

/-- `right.value == size_of_work_groups[i]`; a text is no number. -/
def equalsSize (size : Int) : Value → Bool
  | .int value => value = size
  | .float value => value = size
  | .text _ => false

/-- `group_id_node_mul_size_of_work_groups`; the dimension `none` is `UNKNOWN`. -/
def groupIdNodeMulSizeOfWorkGroups (sizes : Option (List Int)) :
    LinkedTree (Content τ ι) → LinkedTree (Content τ ι) → Option (Option Dim)
  | .leaf (.workItem (.workGroupId dim)), .leaf (.const value _)
  | .leaf (.const value _), .leaf (.workItem (.workGroupId dim)) =>
      (sizeOfWorkGroup sizes dim).map fun size => if equalsSize size value then some dim else none
  | _, _ => some none

/-- `add_register_node` of a `WORK_GROUP_ID_X_LOCAL_SIZE` and its siblings. -/
def addRegisterNode (types : Types τ) (dim : Dim) : LinkedTree (Content τ ι) :=
  .binary (.op (some .mul) types.uint) (.leaf (.workItem (.workGroupId dim)))
    (.leaf (.workItem (.localSize dim)))

/-- `if test: return node`. -/
def returnIf {α : Type} (test : Option Bool) (node : α) (rest : Option α) : Option α :=
  test.bind fun holds => if holds then some node else rest

/-- `_optimized_nodes_mul`; `none` is an exception. -/
def optimizedNodesMul (types : Types τ) (sizes : Option (List Int))
    (s0 s1 : LinkedTree (Content τ ι)) (hint : τ) : Option (LinkedTree (Content τ ι)) :=
  returnIf (constNode 0 s0) s0 <|
  returnIf (constNode 0 s1) s1 <|
  returnIf (constNode 1 s0) s1 <|
  returnIf (constNode 1 s1) s0 <|
  (groupIdNodeMulSizeOfWorkGroups sizes s0 s1).map fun
    | some dim => addRegisterNode types dim
    | none => .binary (.op (some .mul) hint) s0 s1

/-! ## Values -/

/-- The constants among the values; integers are themselves. -/
structure Numerals (R : Type) [CommRing R] where
  value : ℚ → R
  value_intCast (number : Int) : value number = number

variable {R : Type} [CommRing R]

/-- The value of a node whose constants may be fractions. -/
def evalWith (numerals : Numerals R) (meaning : Meaning τ ι R) : Node τ ι → R
  | .const value _ => numerals.value value.toRat
  | .workItem function => meaning.function function
  | .leaf id _ => meaning.leaf id
  | .op operation left right hint =>
      let left := evalWith numerals meaning left
      let right := evalWith numerals meaning right
      match operation with
      | .plus => left + right
      | .minus => left - right
      | .mul => left * right
      | other => meaning.operation other hint left right
  | .not left hint => meaning.not hint (evalWith numerals meaning left)

/-- The local sizes are the sizes of the work groups that are known. -/
def KnownSizes (sizes : Option (List Int)) (meaning : Meaning τ ι R) : Prop :=
  ∀ dim size, sizeOfWorkGroup sizes dim = some size → meaning.localSize dim = size

/-- A node and what it stands for. -/
structure Operand (τ ι : Type) where
  tree : LinkedTree (Content τ ι)
  node : Node τ ι
  reads : readTree tree = some node

/-- There is a node, and its value is the product. -/
def DenotesProduct (types : Types τ) (sizes : Option (List Int)) (hint : τ) (s0 s1 : Operand τ ι) :
    Prop :=
  ∃ after node, optimizedNodesMul types sizes s0.tree s1.tree hint = some after ∧
    readTree after = some node ∧
    ∀ (R : Type) [CommRing R] (numerals : Numerals R) (meaning : Meaning τ ι R),
      KnownSizes sizes meaning → evalWith numerals meaning node =
        evalWith numerals meaning s0.node * evalWith numerals meaning s1.node

/--
The group id of a dimension without a known size is multiplied with a constant that is
not taken for 0 or 1.
-/
def SizeMissing (sizes : Option (List Int)) :
    LinkedTree (Content τ ι) → LinkedTree (Content τ ι) → Prop
  | .leaf (.workItem (.workGroupId dim)), .leaf (.const value _)
  | .leaf (.const value _), .leaf (.workItem (.workGroupId dim)) =>
      readsAs 0 value = some false ∧ readsAs 1 value = some false ∧ sizeOfWorkGroup sizes dim = none
  | _, _ => False

@[simp]
theorem returnIf_true {α : Type} (node : α) (rest : Option α) :
    returnIf (some true) node rest = some node := rfl

@[simp]
theorem returnIf_false {α : Type} (node : α) (rest : Option α) :
    returnIf (some false) node rest = rest := rfl

/-- A constant that is taken for a number is worth it. -/
theorem constNode_spec (operand : Operand τ ι) {number : Int} (small : number < 14) :
    ∃ same, constNode number operand.tree = some same ∧ (same = true →
      ∀ (R : Type) [CommRing R] (numerals : Numerals R) (meaning : Meaning τ ι R),
        evalWith numerals meaning operand.node = number) := by
  obtain ⟨tree, node, reads⟩ := operand
  cases tree with
  | leaf content =>
      cases content with
      | const value hint =>
          obtain ⟨const, isConst, rfl⟩ := Option.map_eq_some_iff.mp reads
          obtain ⟨same, read, worth⟩ := readsAs_of_constOf isConst small
          refine ⟨same, read, fun isSame R _ numerals meaning => ?_⟩
          rw [evalWith, worth isSame, numerals.value_intCast]
      | _ => exact ⟨false, rfl, nofun⟩
  | _ => exact ⟨false, rfl, nofun⟩

/-- The table of sizes is asked in vain after all constants have been looked at. -/
theorem sizeMissing_iff (sizes : Option (List Int)) (s0 s1 : LinkedTree (Content τ ι)) :
    SizeMissing sizes s0 s1 ↔ constNode 0 s0 = some false ∧ constNode 0 s1 = some false ∧
      constNode 1 s0 = some false ∧ constNode 1 s1 = some false ∧
        groupIdNodeMulSizeOfWorkGroups sizes s0 s1 = none := by
  unfold SizeMissing
  split
  next => simp [constNode, groupIdNodeMulSizeOfWorkGroups]
  next => simp [constNode, groupIdNodeMulSizeOfWorkGroups]
  next first second =>
    rw [groupIdNodeMulSizeOfWorkGroups.eq_3 sizes s0 s1 first second]
    simp

theorem toRat_of_equalsSize {size : Int} {value : Value} {const : ConstValue}
    (isConst : constOf value = some const) (equals : equalsSize size value = true) :
    const.toRat = size := by
  cases value with
  | int value =>
      cases isConst
      exact congrArg Int.cast (of_decide_eq_true equals)
  | float value =>
      cases isConst
      exact of_decide_eq_true equals
  | text text => cases equals

/-- A constant that equals the size of a dimension is its local size. -/
theorem localSize_of_equalsSize {sizes : Option (List Int)} {dim : Dim} {size : Int} {value : Value}
    {const : ConstValue} (found : sizeOfWorkGroup sizes dim = some size)
    (isConst : constOf value = some const) (equals : equalsSize size value = true)
    (numerals : Numerals R) {meaning : Meaning τ ι R} (known : KnownSizes sizes meaning) :
    meaning.localSize dim = numerals.value const.toRat := by
  rw [toRat_of_equalsSize isConst equals, numerals.value_intCast, known dim size found]

/-- The group id of a dimension times its size is the product of the two functions. -/
theorem groupId_mul_size {sizes : Option (List Int)} {s0 s1 : Operand τ ι} {dim : Dim}
    (group : groupIdNodeMulSizeOfWorkGroups sizes s0.tree s1.tree = some (some dim))
    (numerals : Numerals R) (meaning : Meaning τ ι R) (known : KnownSizes sizes meaning) :
    meaning.groupId dim * meaning.localSize dim =
      evalWith numerals meaning s0.node * evalWith numerals meaning s1.node := by
  obtain ⟨tree0, node0, reads0⟩ := s0
  obtain ⟨tree1, node1, reads1⟩ := s1
  dsimp only at group ⊢
  unfold groupIdNodeMulSizeOfWorkGroups at group
  split at group
  next other value hint =>
    cases reads0
    obtain ⟨const, isConst, rfl⟩ := Option.map_eq_some_iff.mp reads1
    obtain ⟨size, found, equal⟩ := Option.map_eq_some_iff.mp group
    split at equal
    · cases equal
      rw [localSize_of_equalsSize found isConst ‹_› numerals known]
      rfl
    · cases equal
  next value hint other =>
    cases reads1
    obtain ⟨const, isConst, rfl⟩ := Option.map_eq_some_iff.mp reads0
    obtain ⟨size, found, equal⟩ := Option.map_eq_some_iff.mp group
    split at equal
    · cases equal
      rw [localSize_of_equalsSize found isConst ‹_› numerals known, mul_comm]
      rfl
    · cases equal
  next => cases group

/--
The product of two nodes is right exactly if no group id without a known size is
multiplied with a constant other than 0 and 1.
-/
theorem optimizedNodesMul_denotes_iff (types : Types τ) (sizes : Option (List Int)) (hint : τ)
    (s0 s1 : Operand τ ι) :
    DenotesProduct types sizes hint s0 s1 ↔ ¬SizeMissing sizes s0.tree s1.tree := by
  obtain ⟨zero0, isZero0, worthZero0⟩ := constNode_spec s0 (show (0 : Int) < 14 by omega)
  obtain ⟨zero1, isZero1, worthZero1⟩ := constNode_spec s1 (show (0 : Int) < 14 by omega)
  obtain ⟨one0, isOne0, worthOne0⟩ := constNode_spec s0 (show (1 : Int) < 14 by omega)
  obtain ⟨one1, isOne1, worthOne1⟩ := constNode_spec s1 (show (1 : Int) < 14 by omega)
  simp only [sizeMissing_iff, DenotesProduct, optimizedNodesMul, isZero0, isZero1, isOne0, isOne1]
  cases zero0 with
  | true =>
      refine iff_of_true ⟨s0.tree, s0.node, rfl, s0.reads, fun R _ numerals meaning _ => ?_⟩ (by simp)
      rw [worthZero0 rfl, Int.cast_zero, zero_mul]
  | false =>
  cases zero1 with
  | true =>
      refine iff_of_true ⟨s1.tree, s1.node, rfl, s1.reads, fun R _ numerals meaning _ => ?_⟩ (by simp)
      rw [worthZero1 rfl, Int.cast_zero, mul_zero]
  | false =>
  cases one0 with
  | true =>
      refine iff_of_true ⟨s1.tree, s1.node, rfl, s1.reads, fun R _ numerals meaning _ => ?_⟩ (by simp)
      rw [worthOne0 rfl, Int.cast_one, one_mul]
  | false =>
  cases one1 with
  | true =>
      refine iff_of_true ⟨s0.tree, s0.node, rfl, s0.reads, fun R _ numerals meaning _ => ?_⟩ (by simp)
      rw [worthOne1 rfl, Int.cast_one, mul_one]
  | false =>
  simp only [returnIf_false, true_and]
  cases group : groupIdNodeMulSizeOfWorkGroups sizes s0.tree s1.tree with
  | none => exact iff_of_false nofun (by simp)
  | some found =>
      refine iff_of_true ?_ nofun
      cases found with
      | none =>
          refine ⟨_, .op .mul s0.node s1.node hint, rfl, ?_, fun R _ numerals meaning _ => rfl⟩
          simp [readTree, s0.reads, s1.reads]
      | some dim =>
          exact ⟨_, .op .mul (.workItem (.workGroupId dim)) (.workItem (.localSize dim)) types.uint,
            rfl, rfl, fun R _ numerals meaning known => groupId_mul_size group numerals meaning known⟩

/-- Without a work-group size `get_group_id(0) * 64` raises. -/
theorem not_denotesProduct_of_none :
    ¬DenotesProduct plainTypes none ()
      (⟨.leaf (.workItem (.workGroupId .x)), .workItem (.workGroupId .x), rfl⟩ : Operand Unit Nat)
      ⟨.leaf (.const (.int 64) ()), .const (.int 64) (), rfl⟩ := by
  rintro ⟨after, node, built, -⟩
  cases built

end OpenCLDecompiler.Optimizations.Products
