import OpenCLDecompiler.Ptx.Parser

/-!
# The operands of an instruction

`_split_operands` goes through the text behind an opcode letter by letter and parts it at
the commas that stand outside of all braces and brackets.
-/

namespace OpenCLDecompiler.Ptx.Operands

open Library OpenCLDecompiler.Ptx.Parser

/-! ## The splitter -/

/-- The variables of the loop of `_split_operands`. -/
structure SplitLoop where
  operands : List Text
  current : Text
  braceDepth : Int
  bracketDepth : Int

namespace SplitLoop

def init : SplitLoop := ⟨[], [], 0, 0⟩

/-- The buffered text becomes an operand if something is left of it without blanks. -/
def flush (loop : SplitLoop) : SplitLoop :=
  let operand := Text.strip isBlank loop.current
  { loop with
    operands := if operand = [] then loop.operands else loop.operands ++ [operand]
    current := [] }

/-- The depths behind a letter. -/
def count (loop : SplitLoop) (char : Char) : SplitLoop :=
  if char = '{' then { loop with braceDepth := loop.braceDepth + 1 }
  else if char = '}' then { loop with braceDepth := loop.braceDepth - 1 }
  else if char = '[' then { loop with bracketDepth := loop.bracketDepth + 1 }
  else if char = ']' then { loop with bracketDepth := loop.bracketDepth - 1 }
  else loop

/-- The body of the loop. -/
def step (loop : SplitLoop) (char : Char) : SplitLoop :=
  let loop := loop.count char
  if char = ',' ∧ loop.braceDepth = 0 ∧ loop.bracketDepth = 0 then loop.flush
  else { loop with current := loop.current ++ [char] }

end SplitLoop

/-- `_split_operands`. -/
def splitOperands (text : Text) : List Text := (text.foldl SplitLoop.step .init).flush.operands

/-! ## Operands -/

/-- How many of the opened pairs have not been closed. -/
def depth (opening closing : Char) (text : Text) : Int := text.count opening - text.count closing

/-- Every pair is opened before it is closed, and closed. -/
structure Balanced (opening closing : Char) (text : Text) : Prop where
  opened : ∀ before, before <+: text → 0 ≤ depth opening closing before
  closed : depth opening closing text = 0

/-- An operand as the text of an instruction can have it. -/
structure IsOperand (text : Text) : Prop where
  nonempty : text ≠ []
  trimmed : Text.strip isBlank text = text
  braces : Balanced '{' '}' text
  brackets : Balanced '[' ']' text
  commas : ∀ before, before ++ [','] <+: text →
    0 < depth '{' '}' before ∨ 0 < depth '[' ']' before

/-- An operand with the blanks around it. -/
structure SpacedOperand where
  lead : Text
  operand : Text
  trail : Text
  isOperand : IsOperand operand
  blankLead : ∀ c ∈ lead, isBlank c = true
  blankTrail : ∀ c ∈ trail, isBlank c = true

def SpacedOperand.text (spaced : SpacedOperand) : Text :=
  spaced.lead ++ spaced.operand ++ spaced.trail

/-- The operands joined by commas. -/
def joinOperands (operands : List SpacedOperand) : Text :=
  [','].intercalate (operands.map SpacedOperand.text)

/-! ## Depths -/

@[simp]
theorem depth_nil (opening closing : Char) : depth opening closing [] = 0 := rfl

theorem depth_append (opening closing : Char) (first second : Text) :
    depth opening closing (first ++ second) =
      depth opening closing first + depth opening closing second := by
  simp only [depth, List.count_append]
  omega

theorem depth_of_notMem {opening closing : Char} {text : Text} (noOpening : opening ∉ text)
    (noClosing : closing ∉ text) : depth opening closing text = 0 := by
  rw [depth, List.count_eq_zero_of_not_mem noOpening, List.count_eq_zero_of_not_mem noClosing]
  rfl

/-- The depths of the loop follow those of the text. -/
theorem count_eq (loop : SplitLoop) (char : Char) :
    loop.count char =
      { loop with
        braceDepth := loop.braceDepth + depth '{' '}' [char]
        bracketDepth := loop.bracketDepth + depth '[' ']' [char] } := by
  unfold SplitLoop.count depth
  by_cases openBrace : char = '{'
  · subst openBrace
    simp
  by_cases closeBrace : char = '}'
  · subst closeBrace
    simp [Int.sub_eq_add_neg]
  by_cases openBracket : char = '['
  · subst openBracket
    simp
  by_cases closeBracket : char = ']'
  · subst closeBracket
    simp [Int.sub_eq_add_neg]
  simp [openBrace, closeBrace, openBracket, closeBracket]

/-- A letter goes into the buffer unless it is a comma outside of everything. -/
theorem step_kept (loop : SplitLoop) {char : Char}
    (kept : char = ',' → loop.braceDepth ≠ 0 ∨ loop.bracketDepth ≠ 0) :
    loop.step char =
      ⟨loop.operands, loop.current ++ [char], loop.braceDepth + depth '{' '}' [char],
        loop.bracketDepth + depth '[' ']' [char]⟩ := by
  rw [SplitLoop.step, count_eq]
  refine if_neg ?_
  rintro ⟨rfl, noBrace, noBracket⟩
  rcases kept rfl with inside | inside
  · exact inside (by simpa [depth] using noBrace)
  · exact inside (by simpa [depth] using noBracket)

theorem step_comma (operands : List Text) (current : Text) :
    SplitLoop.step ⟨operands, current, 0, 0⟩ ',' = SplitLoop.flush ⟨operands, current, 0, 0⟩ := by
  rw [SplitLoop.step, count_eq]
  exact if_pos ⟨rfl, rfl, rfl⟩

theorem balanced_nil (opening closing : Char) : Balanced opening closing [] where
  opened before front := by
    rw [List.prefix_nil.mp front]
    exact Int.le_refl 0
  closed := rfl

theorem balanced_of_notMem {opening closing : Char} {text : Text} (noOpening : opening ∉ text)
    (noClosing : closing ∉ text) : Balanced opening closing text where
  opened _ front := Int.le_of_eq (depth_of_notMem
    (fun inside => noOpening (front.subset inside))
    fun inside => noClosing (front.subset inside)).symm
  closed := depth_of_notMem noOpening noClosing

theorem prefix_append_cases {before first second : Text} (front : before <+: first ++ second) :
    before <+: first ∨ ∃ rest, rest <+: second ∧ before = first ++ rest := by
  rcases List.prefix_or_prefix_of_prefix front (List.prefix_append first second) with
    inside | ⟨rest, rfl⟩
  · exact .inl inside
  · exact .inr ⟨rest, (List.prefix_append_right_inj first).mp front, rfl⟩

section Balanced

variable {opening closing : Char} {first second : Text}

theorem Balanced.append (left : Balanced opening closing first)
    (right : Balanced opening closing second) : Balanced opening closing (first ++ second) where
  opened before front := by
    rcases prefix_append_cases front with inside | ⟨rest, inside, rfl⟩
    · exact left.opened before inside
    · rw [depth_append, left.closed, Int.zero_add]
      exact right.opened rest inside
  closed := by rw [depth_append, left.closed, right.closed]; rfl

/-- Inside of a pair the depth is one more. -/
theorem depth_opened (differ : opening ≠ closing) (text : Text) :
    depth opening closing (opening :: text) = depth opening closing text + 1 := by
  have alone : depth opening closing [opening] = 1 := by simp [depth, differ]
  rw [← List.singleton_append, depth_append, alone, Int.add_comm]

theorem depth_closing (differ : opening ≠ closing) : depth opening closing [closing] = -1 := by
  simp [depth, differ.symm]

theorem Balanced.enclose (inner : Balanced opening closing first) (differ : opening ≠ closing) :
    Balanced opening closing (opening :: (first ++ [closing])) where
  opened before front := by
    cases before with
    | nil => exact Int.le_refl 0
    | cons letter before =>
        obtain ⟨rfl, inside⟩ := List.cons_prefix_cons.mp front
        rw [depth_opened differ]
        rcases prefix_append_cases inside with within | ⟨rest, last, rfl⟩
        · have counted := inner.opened before within
          omega
        · rw [depth_append, inner.closed]
          rcases List.prefix_concat_iff.mp (show rest <+: [] ++ [closing] from last) with rfl | none
          · rw [List.nil_append, depth_closing differ]
            omega
          · rw [List.prefix_nil.mp none, depth_nil]
            omega
  closed := by
    rw [depth_opened differ, depth_append, inner.closed, depth_closing differ]
    rfl

end Balanced

/-! ## One operand -/

/-- A comma of the text stands inside of something, counted from outside. -/
def CommasInside (text : Text) : Prop :=
  ∀ before, before ++ [','] <+: text → depth '{' '}' before ≠ 0 ∨ depth '[' ']' before ≠ 0

/-- A text without commas outside goes into the buffer. -/
theorem foldl_step (operands : List Text) (current : Text) {text : Text}
    (inside : CommasInside text) :
    text.foldl SplitLoop.step ⟨operands, current, 0, 0⟩ =
      ⟨operands, current ++ text, depth '{' '}' text, depth '[' ']' text⟩ := by
  induction text using List.reverseRecOn with
  | nil => simp
  | append_singleton before char ih =>
      have earlier : CommasInside before := fun front comma =>
        inside front (comma.trans (List.prefix_append _ _))
      rw [List.foldl_append, ih earlier, List.foldl_cons, List.foldl_nil, step_kept]
      · rw [depth_append, depth_append, List.append_assoc]
      · rintro rfl
        exact inside before List.prefix_rfl

theorem IsOperand.commasInside {text : Text} (isOperand : IsOperand text) : CommasInside text :=
  fun before comma => (isOperand.commas before comma).imp Int.ne_of_gt Int.ne_of_gt

/-- No blank is a comma, a brace or a bracket. -/
theorem notMem_blanks {blanks : Text} (blank : ∀ c ∈ blanks, isBlank c = true) {c : Char}
    (printed : isBlank c = false) : c ∉ blanks := by
  intro member
  rw [blank c member] at printed
  cases printed

theorem foldl_blanks (operands : List Text) (current : Text) {blanks : Text}
    (blank : ∀ c ∈ blanks, isBlank c = true) :
    blanks.foldl SplitLoop.step ⟨operands, current, 0, 0⟩ = ⟨operands, current ++ blanks, 0, 0⟩ := by
  have noComma : CommasInside blanks := fun before comma =>
    absurd (comma.subset (by simp)) (notMem_blanks blank (c := ',') rfl)
  rw [foldl_step operands current noComma,
    depth_of_notMem (notMem_blanks blank rfl) (notMem_blanks blank rfl),
    depth_of_notMem (notMem_blanks blank rfl) (notMem_blanks blank rfl)]

namespace SpacedOperand

variable (spaced : SpacedOperand)

theorem foldl_text (operands : List Text) :
    spaced.text.foldl SplitLoop.step ⟨operands, [], 0, 0⟩ = ⟨operands, spaced.text, 0, 0⟩ := by
  rw [text, List.foldl_append, List.foldl_append, foldl_blanks operands [] spaced.blankLead,
    foldl_step operands _ spaced.isOperand.commasInside, spaced.isOperand.braces.closed,
    spaced.isOperand.brackets.closed, foldl_blanks operands _ spaced.blankTrail, List.nil_append]

theorem strip_text : Text.strip isBlank spaced.text = spaced.operand := by
  rw [text, Text.strip_blanks isBlank spaced.blankLead spaced.blankTrail,
    spaced.isOperand.trimmed]

/-- Behind an operand the buffered text becomes the operand. -/
theorem flush_text (operands : List Text) :
    SplitLoop.flush ⟨operands, spaced.text, 0, 0⟩ = ⟨operands ++ [spaced.operand], [], 0, 0⟩ := by
  rw [SplitLoop.flush, spaced.strip_text]
  dsimp only
  rw [if_neg spaced.isOperand.nonempty]

end SpacedOperand

/-! ## Vectors and memory operands -/

theorem balanced_text {opening closing : Char} (spaced : SpacedOperand)
    (balanced : Balanced opening closing spaced.operand) (printed : isBlank opening = false)
    (printed' : isBlank closing = false) : Balanced opening closing spaced.text :=
  ((balanced_of_notMem (notMem_blanks spaced.blankLead printed)
    (notMem_blanks spaced.blankLead printed')).append balanced).append
      (balanced_of_notMem (notMem_blanks spaced.blankTrail printed)
        (notMem_blanks spaced.blankTrail printed'))

theorem balanced_joinOperands {opening closing : Char} (operands : List SpacedOperand)
    (balanced : ∀ spaced ∈ operands, Balanced opening closing spaced.operand)
    (printed : isBlank opening = false) (printed' : isBlank closing = false)
    (noComma : ',' ≠ opening ∧ ',' ≠ closing) :
    Balanced opening closing (joinOperands operands) := by
  induction operands with
  | nil => exact balanced_nil opening closing
  | cons first rest ih =>
      rw [List.forall_mem_cons] at balanced
      have here := balanced_text first balanced.1 printed printed'
      cases rest with
      | nil =>
          rw [joinOperands, List.map_singleton, List.intercalate_singleton]
          exact here
      | cons second rest =>
          have comma : Balanced opening closing [','] :=
            balanced_of_notMem (by simpa using noComma.1.symm) (by simpa using noComma.2.symm)
          rw [joinOperands, List.map_cons, List.map_cons, List.intercalate_cons_cons]
          exact (here.append comma).append (ih balanced.2)

/-- A pair around operands with commas between them. -/
def enclose (opening closing : Char) (operands : List SpacedOperand) : Text :=
  opening :: (joinOperands operands ++ [closing])

theorem strip_enclose {opening closing : Char} (operands : List SpacedOperand)
    (printed : isBlank opening = false) (printed' : isBlank closing = false) :
    Text.strip isBlank (enclose opening closing operands) = enclose opening closing operands := by
  refine Text.strip_of_ends isBlank ?_ ?_
  · rintro letter first
    cases first
    exact printed
  · rintro letter last
    rw [enclose, ← List.cons_append, List.getLast?_concat] at last
    cases last
    exact printed'

theorem depth_inside {opening closing : Char} {text : Text}
    (balanced : Balanced opening closing text) (differ : opening ≠ closing)
    (noComma : ',' ≠ opening ∧ ',' ≠ closing) {before : Text}
    (front : before ++ [','] <+: opening :: (text ++ [closing])) :
    0 < depth opening closing before := by
  cases before with
  | nil => exact absurd (List.cons_prefix_cons.mp front).1 noComma.1
  | cons letter before =>
      obtain ⟨rfl, inside⟩ := List.cons_prefix_cons.mp front
      rw [depth_opened differ]
      rcases prefix_append_cases inside with within | ⟨rest, last, same⟩
      · have counted := balanced.opened before ((List.prefix_append _ _).trans within)
        omega
      · rcases List.prefix_concat_iff.mp (show rest <+: [] ++ [closing] from last) with rfl | none
        · exact absurd (List.append_inj' same rfl).2 (by simpa using noComma.2)
        · rw [List.prefix_nil.mp none, List.append_nil] at same
          have counted := balanced.opened before (same ▸ List.prefix_append _ _)
          omega

/-- A vector of operands is an operand. -/
theorem isOperand_vector (operands : List SpacedOperand) :
    IsOperand (enclose '{' '}' operands) := by
  have braces : Balanced '{' '}' (joinOperands operands) :=
    balanced_joinOperands operands (fun spaced _ => spaced.isOperand.braces) rfl rfl (by decide)
  have brackets : Balanced '[' ']' (joinOperands operands) :=
    balanced_joinOperands operands (fun spaced _ => spaced.isOperand.brackets) rfl rfl (by decide)
  have opened : Balanced '[' ']' ['{'] := balanced_of_notMem (by decide) (by decide)
  have closed : Balanced '[' ']' ['}'] := balanced_of_notMem (by decide) (by decide)
  exact ⟨List.cons_ne_nil _ _, strip_enclose operands rfl rfl, braces.enclose (by decide),
    (opened.append brackets).append closed,
    fun before front => .inl (depth_inside braces (by decide) (by decide) front)⟩

/-- Operands in brackets are an operand. -/
theorem isOperand_memory (operands : List SpacedOperand) :
    IsOperand (enclose '[' ']' operands) := by
  have braces : Balanced '{' '}' (joinOperands operands) :=
    balanced_joinOperands operands (fun spaced _ => spaced.isOperand.braces) rfl rfl (by decide)
  have brackets : Balanced '[' ']' (joinOperands operands) :=
    balanced_joinOperands operands (fun spaced _ => spaced.isOperand.brackets) rfl rfl (by decide)
  have opened : Balanced '{' '}' ['['] := balanced_of_notMem (by decide) (by decide)
  have closed : Balanced '{' '}' [']'] := balanced_of_notMem (by decide) (by decide)
  exact ⟨List.cons_ne_nil _ _, strip_enclose operands rfl rfl,
    (opened.append braces).append closed, brackets.enclose (by decide),
    fun before front => .inr (depth_inside brackets (by decide) (by decide) front)⟩

/-- A word without commas, braces and brackets, such as a register or a number. -/
theorem isOperand_word {text : Text} (nonempty : text ≠ [])
    (trimmed : Text.strip isBlank text = text)
    (plain : ∀ c ∈ [',', '{', '}', '[', ']'], c ∉ text) : IsOperand text where
  nonempty := nonempty
  trimmed := trimmed
  braces := balanced_of_notMem (plain '{' (by decide)) (plain '}' (by decide))
  brackets := balanced_of_notMem (plain '[' (by decide)) (plain ']' (by decide))
  commas before front := absurd (front.subset (by simp)) (plain ',' (by decide))

/-! ## All operands -/

theorem flush_foldl (operands : List SpacedOperand) (found : List Text) :
    (((joinOperands operands).foldl SplitLoop.step ⟨found, [], 0, 0⟩).flush).operands =
      found ++ operands.map SpacedOperand.operand := by
  induction operands generalizing found with
  | nil => simp [joinOperands, SplitLoop.flush, Text.strip]
  | cons first rest ih =>
      cases rest with
      | nil =>
          rw [joinOperands, List.map_singleton, List.intercalate_singleton, first.foldl_text,
            first.flush_text]
          rfl
      | cons second rest =>
          rw [joinOperands, List.map_cons, List.map_cons, List.intercalate_cons_cons,
            List.foldl_append, List.foldl_append, first.foldl_text, List.foldl_cons,
            List.foldl_nil, step_comma, first.flush_text]
          exact (ih _).trans (List.append_assoc ..)

/-- The operands of an instruction are read as they were written. -/
theorem splitOperands_joinOperands (operands : List SpacedOperand) :
    splitOperands (joinOperands operands) = operands.map SpacedOperand.operand :=
  flush_foldl operands []

example : splitOperands "{%r1,  %r2}, [%rd1+4] ".toList =
    ["{%r1,  %r2}".toList, "[%rd1+4]".toList] := by decide +kernel

end OpenCLDecompiler.Ptx.Operands
