import OpenCLDecompiler.Library.Checked
import OpenCLDecompiler.Ptx.Parameters
import OpenCLDecompiler.Ptx.ParserCorrect

/-!
# Where the parameters are

The loop of `text_to_ir` places the arguments, the dictionary has the place of every name,
and from this follows which loads find their parameter.
-/

namespace OpenCLDecompiler.Ptx.Parameters

open Library Library.C Placement OpenCLDecompiler.Ptx.Parser

/-! ## Names -/

namespace Identifier

theorem mem_text {name : Identifier} {c : Char} (inside : c ∈ name.text) :
    isWordChar c = true ∨ c = '$' ∨ c = '%' := by
  rcases List.mem_cons.mp inside with rfl | inside
  · exact name.starts
  · exact (name.followed c inside).imp_right .inl

theorem not_mem_text (name : Identifier) {c : Char}
    (other : isWordChar c = false ∧ c ≠ '$' ∧ c ≠ '%') : c ∉ name.text := by
  intro inside
  rcases mem_text inside with word | same | same
  · exact absurd word (by simp [other.left])
  · exact other.right.left same
  · exact other.right.right same

end Identifier

theorem takeWhile_text (name : Identifier) (suffix : Text) :
    (name.text ++ suffix).takeWhile (· ≠ '[') = name.text ++ suffix.takeWhile (· ≠ '[') := by
  refine List.takeWhile_append_of_pos fun c inside => ?_
  have other : c ≠ '[' := fun same => name.not_mem_text (by decide) (same ▸ inside)
  exact decide_eq_true other

theorem dropWhile_text (name : Identifier) (suffix : Text) :
    (name.text ++ suffix).dropWhile (· ≠ '[') = suffix.dropWhile (· ≠ '[') := by
  refine List.dropWhile_append_of_pos fun c inside => ?_
  have other : c ≠ '[' := fun same => name.not_mem_text (by decide) (same ▸ inside)
  exact decide_eq_true other

/-- The dictionary gets the name without the size. -/
theorem stripArraySuffix_argument (param : Declaration) :
    stripArraySuffix param.argument.name = param.name.text := by
  rw [stripArraySuffix, param.spelled, takeWhile_text]
  cases param.count with
  | none => exact List.append_nil _
  | some literal => exact List.append_nil _

/-! ## Sizes -/

theorem extractArraySize_plain (name : Identifier) : extractArraySize name.text = none :=
  if_pos (.inl (name.not_mem_text (by decide)))

theorem extractArraySize_sized (name : Identifier) (literal : Literal) :
    extractArraySize (name.text ++ '[' :: literal.text ++ [']']) =
      if literal.text = [] ∨ literal.text.all Char.isDigit = false then none
      else PyNumbers.readNat 10 literal.text := by
  have opened : '[' ∈ name.text ++ '[' :: literal.text ++ [']'] := by simp
  have closed : (name.text ++ '[' :: literal.text ++ [']']).getLast? = some ']' :=
    List.getLast?_concat
  have inner : (((name.text ++ '[' :: literal.text ++ [']']).dropWhile (· ≠ '[')).drop 1).dropLast =
      literal.text := by
    rw [List.append_assoc, dropWhile_text]
    exact List.dropLast_concat
  unfold extractArraySize
  rw [if_neg (not_or.mpr ⟨not_not.mpr opened, not_not.mpr closed⟩)]
  simp only [inner]

/-- Only a decimal size is read. -/
theorem extractArraySize_argument (param : Declaration) :
    extractArraySize param.argument.name =
      match param.count with
      | some (.decimal digits valid) => some (Literal.decimal digits valid).number
      | _ => none := by
  rw [param.spelled]
  rcases param.count with _ | ⟨digits, valid⟩ | ⟨digits, valid⟩
  · rw [Option.elim_none, List.append_nil]
    exact extractArraySize_plain param.name
  · obtain ⟨number, read⟩ := PyNumbers.readNat_of_digits valid.left fun c inside =>
      PyNumbers.isDigit_ten (valid.right c inside)
    rw [Option.elim_some, ← List.append_assoc, extractArraySize_sized]
    have allDigits : digits.all Char.isDigit = true := List.all_eq_true.mpr valid.right
    have some' : ¬(digits = [] ∨ digits.all Char.isDigit = false) := by
      simp [valid.left, allDigits]
    change (if _ then none else PyNumbers.readNat 10 digits) = some ((PyNumbers.readNat 10 digits).getD 0)
    rw [read]
    exact if_neg some'
  · rw [Option.elim_some, ← List.append_assoc, extractArraySize_sized]
    have letter : ('0' :: 'x' :: digits).all Char.isDigit = false := rfl
    exact if_pos (.inr letter)

theorem elementSize_bounds (param : Declaration) :
    1 ≤ param.argument.size / 8 ∧ param.argument.size / 8 ≤ 8 := by
  have sized := param.sized
  simp only [List.mem_cons, List.not_mem_nil, or_false] at sized
  rcases sized with same | same | same | same <;> rw [same] <;> decide

theorem le_alignToEight (size : Nat) : size ≤ alignToEight size := by
  unfold alignToEight
  omega

theorem eight_dvd_alignToEight (size : Nat) : 8 ∣ alignToEight size := Nat.dvd_mul_left ..

/-- The room of a parameter that is no array with a decimal size. -/
theorem alignToEight_single {param : Declaration}
    (single : ∀ digits valid, param.count ≠ some (.decimal digits valid)) :
    alignToEight (argumentDeclaredSize param.argument) = 8 := by
  obtain ⟨least, greatest⟩ := elementSize_bounds param
  have noSize : extractArraySize param.argument.name = none := by
    rw [extractArraySize_argument]
    split
    · rename_i digits valid same
      exact absurd same (single digits valid)
    · rfl
  unfold argumentDeclaredSize
  split
  · rfl
  · simp only [noSize]
    unfold alignToEight
    omega

/-- A parameter fits into its room exactly when the size can be read. -/
theorem fits_iff (param : Declaration) :
    param.declaredSize ≤ alignToEight (argumentDeclaredSize param.argument) ↔ param.Roomy := by
  obtain ⟨least, greatest⟩ := elementSize_bounds param
  unfold Declaration.Roomy
  split
  · rename_i digits valid same
    have single : ∀ digits valid, param.count ≠ some (.decimal digits valid) := by simp [same]
    rw [alignToEight_single single]
  · rename_i other
    refine iff_of_true ?_ trivial
    rcases counted : param.count with _ | ⟨digits, valid⟩ | ⟨digits, valid⟩
    · have single : ∀ digits valid, param.count ≠ some (.decimal digits valid) := by
        simp [counted]
      rw [alignToEight_single single, Declaration.declaredSize, counted]
      change param.argument.size / 8 * 1 ≤ 8
      omega
    · have noPointer : ¬param.argument.isPointer = true := fun pointer => by
        have none' := param.single pointer
        rw [counted] at none'
        cases none'
      refine Nat.le_trans ?_ (le_alignToEight _)
      unfold argumentDeclaredSize
      rw [if_neg noPointer, extractArraySize_argument, counted, Declaration.declaredSize, counted]
      change param.argument.size / 8 * (Literal.decimal digits valid).number ≤ _
      simp only [Nat.max_eq_right least]
      refine Nat.mul_le_mul_left _ ?_
      split
      · rename_i absent
        cases absent
      · rename_i zero
        rw [Option.some.inj zero]
        exact Nat.zero_le _
      · rename_i same
        exact (Option.some.inj same).le
    · exact absurd counted (other digits valid)

/-! ## The loop over the arguments -/

def room (item : PTXArgument × Nat) : Nat := alignToEight (argumentDeclaredSize item.1)

def placedArgument (placed : Nat × PTXArgument × Nat) : KernelArgument :=
  kernelArgument placed.2.2 placed.1 placed.2.1

/-- The loop places the arguments with their numbers. -/
theorem arguments_foldl (st : ArgumentLoop) (args : List PTXArgument) :
    (args.foldl addArgument st).arguments =
      st.arguments ++ (place room st.offset (args.zipIdx st.argIdx)).map placedArgument := by
  induction args generalizing st with
  | nil => exact (List.append_nil _).symm
  | cons arg args ih =>
      rw [List.foldl_cons, ih, List.zipIdx_cons, place, List.map_cons]
      exact List.append_assoc ..

theorem get?_foldl_of_not_mem {key : Text} {args : List PTXArgument}
    (absent : ∀ arg ∈ args, stripArraySuffix arg.name ≠ key) (st : ArgumentLoop) :
    (args.foldl addArgument st).argsOffset.get? key = st.argsOffset.get? key := by
  induction args generalizing st with
  | nil => rfl
  | cons arg args ih =>
      rw [List.foldl_cons, ih fun other inside => absent other (List.mem_cons_of_mem _ inside)]
      exact PyDict.get?_set_of_ne _ (Ne.symm (absent arg List.mem_cons_self)) _

/-- The dictionary has the place of every argument. -/
theorem get?_foldl {args : List PTXArgument}
    (distinct : (args.map fun arg => stripArraySuffix arg.name).Nodup) (st : ArgumentLoop)
    {placed : Nat × PTXArgument × Nat}
    (member : placed ∈ place room st.offset (args.zipIdx st.argIdx)) :
    (args.foldl addArgument st).argsOffset.get? (stripArraySuffix placed.2.1.name) =
      some placed.1 := by
  induction args generalizing st with
  | nil => cases member
  | cons arg args ih =>
      obtain ⟨new, others⟩ := List.nodup_cons.mp distinct
      rw [List.foldl_cons]
      rw [List.zipIdx_cons, place] at member
      rcases List.mem_cons.mp member with rfl | later
      · rw [get?_foldl_of_not_mem fun other inside same =>
          new (List.mem_map.mpr ⟨other, inside, same⟩)]
        exact PyDict.get?_set_self ..
      · exact ih others (addArgument st arg) later

/-! ## The placed parameters -/

def paramRoom (item : Declaration × Nat) : Nat :=
  alignToEight (argumentDeclaredSize item.1.argument)

/-- The parameters with their offsets and numbers. -/
def ParameterList.placed (list : ParameterList) : List (Nat × Declaration × Nat) :=
  place paramRoom 0 list.params.zipIdx

def placedParam (placed : Nat × Declaration × Nat) : Declaration × KernelArgument :=
  (placed.2.1, kernelArgument placed.2.2 placed.1 placed.2.1.argument)

theorem place_arguments (list : ParameterList) :
    place room 0 list.arguments.zipIdx =
      list.placed.map fun placed => (placed.1, placed.2.1.argument, placed.2.2) := by
  rw [ParameterList.arguments, List.zipIdx_map]
  exact place_map ..

theorem map_param_placed (list : ParameterList) :
    (list.placed.map fun placed => placed.2.1) = list.params := by
  have items : list.placed.map Prod.snd = list.params.zipIdx := map_snd_place ..
  calc (list.placed.map fun placed => placed.2.1)
      = (list.placed.map Prod.snd).map Prod.fst := (List.map_map ..).symm
    _ = list.params := by rw [items, List.zipIdx_map_fst]

theorem arguments_eq (list : ParameterList) :
    (addArguments list.arguments).arguments = list.placed.map fun placed => (placedParam placed).2 := by
  rw [addArguments, arguments_foldl, place_arguments, List.map_map]
  rfl

theorem zip_arguments (list : ParameterList) :
    list.params.zip (addArguments list.arguments).arguments = list.placed.map placedParam := by
  rw [arguments_eq]
  nth_rewrite 1 [← map_param_placed list]
  exact List.zip_map'

/-- The ranges are right exactly when every size but the last can be read. -/
theorem rangesRight_iff (list : ParameterList) :
    RangesRight list (addArguments list.arguments).arguments ↔
      ∀ param ∈ list.params.dropLast, param.Roomy := by
  have aligned : ∀ pair ∈ list.placed.map placedParam, 8 ∣ pair.2.offset := by
    rintro pair member
    obtain ⟨placed, inside, rfl⟩ := List.mem_map.mp member
    exact dvd_of_mem_place (fun item _ => eight_dvd_alignToEight _) (Nat.dvd_zero 8) inside
  have inOrder : InOrder (fun item => item.1.declaredSize) list.placed ↔ _ :=
    inOrder_place_iff (fun item : Declaration × Nat => item.1.declaredSize) 0 list.params.zipIdx
  have items : list.params.zipIdx.dropLast.map Prod.fst = list.params.dropLast := by
    rw [List.map_dropLast, List.zipIdx_map_fst]
  unfold RangesRight
  rw [zip_arguments]
  refine (and_iff_right aligned).trans (List.pairwise_map.trans (inOrder.trans ?_))
  rw [← items, List.forall_mem_map]
  exact forall₂_congr fun item _ => fits_iff item.1

/-! ## Looking a parameter up -/

/-- The entry of a parameter is the offset of its argument. -/
theorem get?_of_mem {list : ParameterList} {param : Declaration} {argument : KernelArgument}
    (member : (param, argument) ∈ list.params.zip (addArguments list.arguments).arguments) :
    (addArguments list.arguments).argsOffset.get? param.name.text = some argument.offset := by
  rw [zip_arguments] at member
  obtain ⟨placed, inside, same⟩ := List.mem_map.mp member
  obtain ⟨rfl, rfl⟩ := Prod.mk.inj same
  have distinct : (list.arguments.map fun arg => stripArraySuffix arg.name).Nodup := by
    rw [ParameterList.arguments, List.map_map]
    have names : (fun arg => stripArraySuffix (PTXArgument.name arg)) ∘ Declaration.argument =
        fun param => param.name.text := funext stripArraySuffix_argument
    rw [names]
    exact list.distinct
  have found := get?_foldl distinct {} (by
    rw [place_arguments]
    exact List.mem_map.mpr ⟨placed, inside, rfl⟩)
  rw [stripArraySuffix_argument] at found
  exact found

theorem exists_argument {list : ParameterList} {param : Declaration}
    (member : param ∈ list.params) :
    ∃ argument, (param, argument) ∈ list.params.zip (addArguments list.arguments).arguments := by
  rw [← map_param_placed list] at member
  obtain ⟨placed, inside, rfl⟩ := List.mem_map.mp member
  rw [zip_arguments]
  exact ⟨(placedParam placed).2, List.mem_map.mpr ⟨placed, inside, rfl⟩⟩

/-- No name has a sign in it. -/
theorem get?_of_sign (list : ParameterList) {key : Text} (signed : '+' ∈ key) :
    (addArguments list.arguments).argsOffset.get? key = none := by
  refine (get?_foldl_of_not_mem (fun arg inside same => ?_) {}).trans (PyDict.get?_empty key)
  obtain ⟨param, -, rfl⟩ := List.mem_map.mp inside
  rw [stripArraySuffix_argument] at same
  exact param.name.not_mem_text (by decide) (same ▸ signed)

/-! ## The operand -/

theorem parseMemoryAccessType_line {list : ParameterList} (access : Access list) :
    parseMemoryAccessType access.line.opcode = some ⟨access.baseType, access.vector.width⟩ := by
  unfold Access.line
  cases access.vector <;> cases access.baseType <;> rfl

theorem createdName_brackets (name : Text) : createdName ('[' :: name ++ [']']) = name := by
  have closed : ('[' :: name ++ [']']).getLast? = some ']' := List.getLast?_concat
  unfold createdName
  rw [if_pos ⟨rfl, closed⟩]
  exact List.dropLast_concat

theorem expect_of_ne {c other : Char} (different : c ≠ other) (rest : Text) :
    expect [other] (c :: rest) = none := by
  have noPrefix : [other].isPrefixOf (c :: rest) = false := by
    simp [List.isPrefixOf, Ne.symm different]
  unfold expect
  rw [noPrefix]
  rfl

theorem dropWhile_isBlank {c : Char} (printed : isBlank c = false) (rest : Text) :
    (c :: rest).dropWhile isBlank = c :: rest :=
  List.dropWhile_cons_of_neg (by simp [printed])

theorem matchAddressOffset_other {c : Char} (printed : isBlank c = false) (other : c ≠ '%')
    (rest : Text) : matchAddressOffset ('[' :: c :: rest) = none := by
  unfold matchAddressOffset
  rw [expect_singleton, Option.bind_eq_bind, Option.bind_some, dropWhile_isBlank printed,
    expect_of_ne other]
  rfl

theorem matchAddressOffset_name {name rest : Text} (some' : name ≠ [])
    (letters : ∀ c ∈ name, isPredicateChar c = true)
    (stops : ∀ c ∈ rest.head?, isPredicateChar c = false) :
    matchAddressOffset ('[' :: '%' :: (name ++ rest)) =
      (matchShift rest).bind fun rest => if rest = [] then some ('%' :: name) else none := by
  have printed : isBlank '%' = false := by decide
  unfold matchAddressOffset
  rw [expect_singleton, Option.bind_eq_bind, Option.bind_some, dropWhile_isBlank printed,
    expect_singleton, Option.bind_eq_bind, Option.bind_some, span_append some' letters stops]
  rfl

theorem matchShift_bracket : matchShift [']'] = none := rfl

theorem isDigit_ne {c other : Char} (digit : c.isDigit = true) (letter : other.isDigit = false) :
    c ≠ other := by
  rintro rfl
  rw [digit] at letter
  cases letter

theorem isBlank_of_isDigit {c : Char} (digit : c.isDigit = true) : isBlank c = false := by
  refine isBlank_of_isWordChar ?_
  simp [isWordChar, Char.isAlphanum, digit]

theorem literal_head (literal : Literal) :
    ∃ c rest, literal.text = c :: rest ∧ c.isDigit = true := by
  cases literal with
  | decimal digits valid =>
      obtain ⟨some', letters⟩ := valid
      cases digits with
      | nil => exact absurd rfl some'
      | cons c rest => exact ⟨c, rest, rfl, letters c List.mem_cons_self⟩
  | hexadecimal digits valid => exact ⟨'0', 'x' :: digits, rfl, rfl⟩

/-- Decimal digits have no prefix. -/
theorem expect_hexadecimal {digits : Text} (letters : ∀ c ∈ digits, c.isDigit = true) :
    expect ['0', 'x'] (digits ++ [']']) = none := by
  have noPrefix : ['0', 'x'].isPrefixOf (digits ++ [']']) = false := by
    rcases digits with _ | ⟨first, _ | ⟨second, digits⟩⟩
    · rfl
    · simp [List.isPrefixOf]
    · have other : ('x' == second) = false :=
        beq_false_of_ne (isDigit_ne (letters second (by simp)) rfl).symm
      simp [List.isPrefixOf, other]
  unfold expect
  rw [noPrefix]
  rfl

theorem spanNumber_literal (literal : Literal) :
    ∃ digits, spanNumber (literal.text ++ [']']) = some (digits, [']']) := by
  unfold spanNumber
  cases literal with
  | decimal digits valid =>
      have stops : ∀ c ∈ [']'].head?, c.isDigit = false := by
        rintro c ⟨⟩
        rfl
      refine ⟨digits, ?_⟩
      change ((expect ['0', 'x'] (digits ++ [']'])).bind _).or (span Char.isDigit (digits ++ [']'])) = _
      rw [expect_hexadecimal valid.right, span_append valid.left valid.right stops]
      rfl
  | hexadecimal digits valid =>
      have stops : ∀ c ∈ [']'].head?, isHexDigit c = false := by
        rintro c ⟨⟩
        rfl
      have start : expect ['0', 'x'] ('0' :: 'x' :: (digits ++ [']'])) = some (digits ++ [']']) :=
        expect_append ['0', 'x'] _
      refine ⟨digits, ?_⟩
      change ((expect ['0', 'x'] ('0' :: 'x' :: (digits ++ [']']))).bind (span isHexDigit)).or _ = _
      rw [start, Option.bind_some, span_append valid.left valid.right stops]
      rfl

/-- The number of a literal, up to the bracket. -/
theorem matchShift_literal (literal : Literal) :
    matchShift ('+' :: (literal.text ++ [']'])) = some [] := by
  obtain ⟨c, rest, same, digit⟩ := literal_head literal
  obtain ⟨digits, number⟩ := spanNumber_literal literal
  have plus : expectSign ('+' :: (literal.text ++ [']'])) = some (literal.text ++ [']']) := by
    unfold expectSign
    rw [expect_singleton, Option.some_or]
  have starts : (literal.text ++ [']']).dropWhile isBlank = literal.text ++ [']'] := by
    rw [same]
    exact dropWhile_isBlank (isBlank_of_isDigit digit) _
  have unsigned : expectSign (literal.text ++ [']']) = none := by
    unfold expectSign
    rw [same, List.cons_append, expect_of_ne (isDigit_ne digit rfl),
      expect_of_ne (isDigit_ne digit rfl)]
    rfl
  unfold matchShift
  rw [dropWhile_isBlank (by decide), plus, Option.bind_eq_bind, Option.bind_some]
  simp only [starts, unsigned, Option.getD_none, number]
  rfl

theorem normalize_of_none {operand : Text} (none' : matchAddressOffset operand = none) :
    normalizeMemoryOperandForRf operand = operand := by
  unfold normalizeMemoryOperandForRf
  rw [none']

theorem normalize_of_some {operand name : Text} (found : matchAddressOffset operand = some name) :
    normalizeMemoryOperandForRf operand = '[' :: name ++ [']'] := by
  unfold normalizeMemoryOperandForRf
  rw [found]

/-- What the operand of an access has behind the name. -/
def Access.shiftText {list : ParameterList} (access : Access list) : Text :=
  access.shift.elim [] fun literal => '+' :: literal.text

theorem matchAddressOffset_percent {list : ParameterList} (access : Access list)
    (percent : access.param.name.first = '%') :
    matchAddressOffset access.line.operand =
      if access.shift = none then none else some access.param.name.text := by
  have letters : ∀ c ∈ access.param.name.rest, isPredicateChar c = true := by
    intro c inside
    rcases access.param.name.followed c inside with word | rfl
    · simp [isPredicateChar, word]
    · rfl
  have stops : ∀ c ∈ (access.shiftText ++ [']']).head?, isPredicateChar c = false := by
    unfold Access.shiftText
    cases access.shift <;> rintro c ⟨⟩ <;> rfl
  have shape : access.line.operand =
      '[' :: '%' :: (access.param.name.rest ++ (access.shiftText ++ [']'])) := by
    rw [← percent, ← List.append_assoc]
    rfl
  have name : '%' :: access.param.name.rest = access.param.name.text := by
    rw [← percent]
    rfl
  rw [shape, matchAddressOffset_name (access.param.name.longer percent) letters stops]
  unfold Access.shiftText
  cases access.shift with
  | none =>
      rw [Option.elim_none, List.nil_append, matchShift_bracket]
      rfl
  | some literal =>
      rw [Option.elim_some, List.cons_append, matchShift_literal, name]
      rfl

theorem matchAddressOffset_plain {list : ParameterList} (access : Access list)
    (other : access.param.name.first ≠ '%') : matchAddressOffset access.line.operand = none := by
  refine matchAddressOffset_other ?_ other _
  rcases access.param.name.starts with word | same | same
  · exact isBlank_of_isWordChar word
  · rw [same]
    decide
  · exact absurd same other

/-- The name under which the offset is looked up. -/
theorem createdName_line {list : ParameterList} (access : Access list) :
    createdName (normalizeMemoryOperandForRf access.line.operand) =
      access.param.name.text ++
        if access.param.name.first = '%' then [] else access.shiftText := by
  have shape : access.line.operand =
      '[' :: (access.param.name.text ++ access.shiftText) ++ [']'] := rfl
  by_cases percent : access.param.name.first = '%'
  · rw [if_pos percent, List.append_nil]
    have found := matchAddressOffset_percent access percent
    by_cases alone : access.shift = none
    · rw [if_pos alone] at found
      rw [normalize_of_none found, shape, createdName_brackets, Access.shiftText, alone]
      exact List.append_nil _
    · rw [if_neg alone] at found
      rw [normalize_of_some found, createdName_brackets]
  · rw [if_neg percent, normalize_of_none (matchAddressOffset_plain access percent), shape,
      createdName_brackets]

theorem paramLoad_line {list : ParameterList} (access : Access list)
    (argsOffset : PyDict Text Nat) :
    paramLoad argsOffset access.line =
      (argsOffset.get? (createdName (normalizeMemoryOperandForRf access.line.operand))).map
        fun offset => .load false access.destination "argptr" (some offset)
          ⟨access.baseType, access.vector.width⟩ := by
  unfold paramLoad
  rw [parseMemoryAccessType_line]
  cases argsOffset.get? (createdName (normalizeMemoryOperandForRf access.line.operand)) <;> rfl

/-! ## Loads -/

theorem store_mem {list : ParameterList} {kernel : ParamKernel} {param : Declaration}
    {argument : KernelArgument} (pointed : kernel.argPtr = some "argptr")
    (fresh : kernel.storesMaterialized = false)
    (member : (param, argument) ∈ list.params.zip kernel.arguments) :
    .store "argptr" argument.name argument.typeName (Nat.toDigits 10 argument.offset) ∈
      (materializeArgumentStores kernel).instructions := by
  unfold materializeArgumentStores
  rw [fresh, pointed]
  refine List.mem_cons_of_mem _ (List.mem_append_left _ ?_)
  exact List.mem_map.mpr ⟨argument, (List.of_mem_zip member).right, rfl⟩

/-- One load lowers to what it names exactly when it is plain. -/
theorem loadsRight_iff {list : ParameterList} (access : Access list) (kernel : ParamKernel)
    (same : kernel.arguments = (addArguments list.arguments).arguments)
    (pointed : kernel.argPtr = some "argptr") (fresh : kernel.storesMaterialized = false) :
    (∃ instr, paramLoad (addArguments list.arguments).argsOffset access.line = some instr ∧
      access.LoadsRight kernel (.typed instr)) ↔ access.Plain := by
  rw [paramLoad_line, createdName_line]
  constructor
  · rintro ⟨instr, lowered, argument, member, loads, -⟩
    obtain ⟨offset, found, rfl⟩ := Option.map_eq_some_iff.mp lowered
    obtain rfl : offset = argument.offset + access.distance :=
      Option.some.inj (TypedInstr.load.inj (Instr.typed.inj loads)).right.right.right.left
    by_cases alone : access.shift = none
    · exact .inl alone
    by_cases percent : access.param.name.first = '%'
    · rw [if_pos percent, List.append_nil] at found
      rw [same] at member
      have entry := Option.some.inj ((get?_of_mem member).symm.trans found)
      exact .inr ⟨percent, by omega⟩
    · obtain ⟨literal, shifted⟩ := Option.ne_none_iff_exists'.mp alone
      have signed : '+' ∈ access.param.name.text ++ access.shiftText := by
        simp [Access.shiftText, shifted]
      rw [if_neg percent, get?_of_sign list signed] at found
      cases found
  · intro plain
    obtain ⟨argument, member⟩ := exists_argument access.member
    have noDistance : access.distance = 0 := by
      rcases plain with alone | ⟨-, zero⟩
      · rw [Access.distance, alone]
        rfl
      · exact zero
    have noShift : (if access.param.name.first = '%' then [] else access.shiftText) = [] := by
      rcases plain with alone | ⟨percent, -⟩
      · rw [Access.shiftText, alone]
        exact ite_self _
      · exact if_pos percent
    rw [noShift, List.append_nil, get?_of_mem member]
    refine ⟨_, rfl, argument, same ▸ member, ?_, store_mem pointed fresh (same ▸ member)⟩
    rw [noDistance]
    rfl

/-- The kernel before the stores are materialised. -/
def lowered (list : ParameterList) (loads : List TypedInstr) : ParamKernel :=
  ⟨(addArguments list.arguments).arguments, some "argptr", false, loads.map Instr.typed⟩

theorem textToIr_eq_some_iff {list : ParameterList} {accesses : List (Access list)}
    {kernel : ParamKernel} :
    textToIr list.arguments (accesses.map Access.line) = some kernel ↔
      ∃ loads, List.Forall₂ (fun access instr =>
        paramLoad (addArguments list.arguments).argsOffset access.line = some instr) accesses loads ∧
          lowered list loads = kernel := by
  refine Option.bind_eq_some_iff.trans (exists_congr fun loads => ?_)
  refine and_congr ?_ Option.some_inj
  rw [Checked.mapM_eq_some_iff]
  exact List.forall₂_map_left_iff

/-- All loads are right exactly when every access is plain. -/
theorem loads_iff (list : ParameterList) (accesses : List (Access list)) :
    (∃ kernel, textToIr list.arguments (accesses.map Access.line) = some kernel ∧
      List.Forall₂ (Access.LoadsRight kernel) accesses kernel.instructions) ↔
        ∀ access ∈ accesses, access.Plain := by
  constructor
  · rintro ⟨kernel, lowers, right⟩ access member
    obtain ⟨loads, runs, rfl⟩ := textToIr_eq_some_iff.mp lowers
    have pairs := Checked.forall₂_both runs (List.forall₂_map_right_iff.mp right)
    exact (loadsRight_iff access _ rfl rfl rfl).mp (Checked.exists_of_forall₂ pairs member)
  · intro plain
    obtain ⟨loads, pairs⟩ := Checked.exists_forall₂
      (fun (access : Access list) instr =>
        paramLoad (addArguments list.arguments).argsOffset access.line = some instr ∧
          ∀ loads, access.LoadsRight (lowered list loads) (.typed instr))
      fun access (member : access ∈ accesses) => by
        obtain ⟨instr, loaded, -⟩ :=
          (loadsRight_iff access (lowered list []) rfl rfl rfl).mpr (plain access member)
        refine ⟨instr, loaded, fun loads => ?_⟩
        obtain ⟨other, again, right⟩ :=
          (loadsRight_iff access (lowered list loads) rfl rfl rfl).mpr (plain access member)
        rw [loaded] at again
        exact Option.some.inj again ▸ right
    refine ⟨lowered list loads, textToIr_eq_some_iff.mpr ⟨loads, ?_, rfl⟩, ?_⟩
    · exact pairs.imp fun _ _ both => both.left
    · exact List.forall₂_map_right_iff.mpr (pairs.imp fun _ _ both => both.right loads)

/-- The parameters are where they are loaded from exactly under the two conditions. -/
theorem parametersRight_iff (list : ParameterList) (accesses : List (Access list)) :
    ParametersRight list accesses ↔
      (∀ param ∈ list.params.dropLast, param.Roomy) ∧ ∀ access ∈ accesses, access.Plain :=
  and_congr (rangesRight_iff list) (loads_iff list accesses)

/-- `.param .align 8 .b8 pair[16]`. -/
def pairParam : Declaration where
  name := ⟨'p', "air".toList, .inl rfl,
    fun c inside => .inl ((List.all_eq_true (p := isWordChar)).mp rfl c inside), by decide⟩
  count := some (.decimal "16".toList ⟨by decide, List.all_eq_true.mp rfl⟩)
  argument := { name := "pair[16]".toList, size := 8, typeName := "b8".toList, alignment := some 8 }
  spelled := rfl
  sized := by decide
  single := by decide

def pairList : ParameterList := ⟨[pairParam], List.nodup_singleton _⟩

/-- `ld.param.u64 %rd1, [pair+8]`. -/
def pairAccess : Access pairList where
  param := pairParam
  member := List.mem_singleton.mpr rfl
  shift := some (.decimal "8".toList ⟨by decide, List.all_eq_true.mp rfl⟩)
  inside := by decide
  vector := .scalar
  baseType := .u64
  destination := .wide "%rd1"

/-- The second half of a parameter of 16 bytes is not found. -/
theorem not_parametersRight_pair : ¬ParametersRight pairList [pairAccess] := by
  rintro ⟨-, right⟩
  rcases (loads_iff pairList [pairAccess]).mp right pairAccess List.mem_cons_self with
    alone | ⟨percent, -⟩
  · cases alone
  · cases percent

end OpenCLDecompiler.Ptx.Parameters
