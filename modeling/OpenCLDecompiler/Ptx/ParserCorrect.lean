import Mathlib.Algebra.GroupWithZero.Nat
import OpenCLDecompiler.Ptx.Written

/-!
# When the parser reads what is written

A kernel is read as written if its parameters end behind the line of its name, nothing
follows the end of an inner scope, and it declares no registers.  Otherwise a line is
lost, or the registers are counted from 1.
-/

namespace OpenCLDecompiler.Ptx.Parser

open Library Library.C

/-! ## Texts -/

@[simp]
theorem expect_append (start rest : Text) : expect start (start ++ rest) = some rest := by
  simp [expect]

@[simp]
theorem expect_singleton (c : Char) (rest : Text) : expect [c] (c :: rest) = some rest :=
  expect_append [c] rest

theorem span_append {keep : Char → Bool} {word rest : Text} (some' : word ≠ [])
    (kept : ∀ c ∈ word, keep c = true) (stops : ∀ c ∈ rest.head?, keep c = false) :
    span keep (word ++ rest) = some (word, rest) := by
  have stopped : rest.takeWhile keep = [] ∧ rest.dropWhile keep = rest := by
    cases rest with
    | nil => exact ⟨rfl, rfl⟩
    | cons c rest => simp [stops c rfl]
  rw [span, List.takeWhile_append_of_pos kept, List.dropWhile_append_of_pos kept, stopped.1,
    stopped.2, List.append_nil, if_neg (by simpa using some')]

theorem isBlank_of_printed {c : Char} (above : 33 ≤ c.toNat) (below : c.toNat ≤ 132) :
    isBlank c = false := by
  simp only [isBlank, List.mem_cons, List.not_mem_nil, or_false, Bool.or_eq_false_iff,
    decide_eq_false_iff_not, Bool.and_eq_false_iff]
  omega

theorem toNat_of_isWordChar {c : Char} (word : isWordChar c = true) :
    48 ≤ c.toNat ∧ c.toNat ≤ 122 := by
  change (((decide (c.val ≥ 65 ∧ c.val ≤ 90) || decide (c.val ≥ 97) && decide (c.val ≤ 122)) ||
    decide (c.val ≥ 48) && decide (c.val ≤ 57)) || decide (c = '_')) = true at word
  simp only [ge_iff_le, Bool.or_eq_true, Bool.and_eq_true, decide_eq_true_eq,
    UInt32.le_iff_toNat_le] at word
  obtain ((⟨lower, upper⟩ | ⟨lower, upper⟩) | ⟨lower, upper⟩) | rfl := word
  · exact ⟨le_trans (by decide) lower, le_trans upper (by decide)⟩
  · exact ⟨le_trans (by decide) lower, le_trans upper (by decide)⟩
  · exact ⟨lower, le_trans upper (by decide)⟩
  · decide

theorem isBlank_of_isWordChar {c : Char} (word : isWordChar c = true) : isBlank c = false :=
  isBlank_of_printed (le_trans (by decide) (toNat_of_isWordChar word).1)
    (le_trans (toNat_of_isWordChar word).2 (by decide))

theorem isWordChar_of_isBlank {c : Char} (blank : isBlank c = true) : isWordChar c = false := by
  by_contra word
  rw [Bool.not_eq_false] at word
  rw [isBlank_of_isWordChar word] at blank
  cases blank

/-- The first letter of two texts is one of the first text, if it has any. -/
theorem head?_append_of_ne_nil {first : Text} (some' : first ≠ []) (rest : Text) :
    (first ++ rest).head? = first.head? := by
  cases first with
  | nil => exact absurd rfl some'
  | cons c first => rfl

/-- Blanks, and then a letter that is none. -/
theorem span_blanks {gap rest : Text} (blanks : gap ≠ [] ∧ Blanks gap)
    (stops : ∀ c ∈ rest.head?, isBlank c = false) : span isBlank (gap ++ rest) = some (gap, rest) :=
  span_append blanks.1 blanks.2 stops

/-- A word, and then blanks. -/
theorem span_word_blanks {word gap : Text} (some' : word ≠ [])
    (letters : ∀ c ∈ word, isWordChar c = true) (blanks : gap ≠ [] ∧ Blanks gap) (rest : Text) :
    span isWordChar (word ++ (gap ++ rest)) = some (word, gap ++ rest) := by
  refine span_append some' letters fun c first => isWordChar_of_isBlank (blanks.2 c ?_)
  rw [head?_append_of_ne_nil blanks.1] at first
  exact List.mem_of_mem_head? first

/-! ## Declarations -/

theorem matchReg_text (decl : RegDecl) :
    matchReg decl.text = some (decl.rtype, decl.stem, decl.count.text) := by
  obtain ⟨rtype, stem, count, first, second, tail, typed, named, ⟨blankFirst, blankSecond⟩, -⟩ := decl
  have point : ∀ rest : Text, ∀ c ∈ ('.' :: rest).head?, isBlank c = false := by
    rintro rest c ⟨⟩
    decide
  have percent : ∀ rest : Text, ∀ c ∈ ('%' :: rest).head?, isBlank c = false := by
    rintro rest c ⟨⟩
    decide
  have angle : ∀ rest : Text, ∀ c ∈ ('<' :: rest).head?, isWordChar c = false := by
    rintro rest c ⟨⟩
    decide
  have close : ∀ rest : Text, ∀ c ∈ ('>' :: rest).head?, c.isDigit = false := by
    rintro rest c ⟨⟩
    decide
  unfold matchReg RegDecl.text
  refine Option.bind_eq_some_iff.mpr ⟨_, expect_append .., ?_⟩
  refine Option.bind_eq_some_iff.mpr ⟨_, span_blanks blankFirst (point _), ?_⟩
  refine Option.bind_eq_some_iff.mpr ⟨_, expect_singleton .., ?_⟩
  refine Option.bind_eq_some_iff.mpr ⟨_, span_word_blanks typed.1 typed.2 blankSecond _, ?_⟩
  refine Option.bind_eq_some_iff.mpr ⟨_, span_blanks blankSecond (percent _), ?_⟩
  refine Option.bind_eq_some_iff.mpr ⟨_, expect_singleton .., ?_⟩
  refine Option.bind_eq_some_iff.mpr ⟨_, span_append named.1 named.2 (angle _), ?_⟩
  refine Option.bind_eq_some_iff.mpr ⟨_, expect_singleton .., ?_⟩
  refine Option.bind_eq_some_iff.mpr ⟨_, span_append count.nonempty count.digits (close _), ?_⟩
  exact Option.bind_eq_some_iff.mpr ⟨_, expect_singleton .., rfl⟩

/-- What a declaration adds: registers counted from 1. -/
def RegDecl.read (decl : RegDecl) : List PTXRegister :=
  (List.range decl.count.number).map fun n => numbered decl.rtype decl.stem (n + 1)

theorem parseReg_text (func : PTXKernel) (decl : RegDecl) :
    parseReg func decl.text = { func with registers := func.registers ++ decl.read } := by
  rw [parseReg, matchReg_text]
  rfl

theorem searchEntry_entryLine (header : Header)
    (stops : ∀ c ∈ header.layout.first.head?, isWordChar c = false) :
    searchEntry header.entryLine = some header.name := by
  have letter : ∀ c ∈ (header.name ++ header.layout.first).head?, isBlank c = false := by
    intro c first
    rw [head?_append_of_ne_nil header.named.1] at first
    exact isBlank_of_isWordChar (header.named.2 c (List.mem_of_mem_head? first))
  have found : entryAt header.entryLine = some header.name := by
    unfold entryAt Header.entryLine
    refine Option.bind_eq_some_iff.mpr ⟨_, expect_append .., ?_⟩
    refine Option.bind_eq_some_iff.mpr ⟨_, span_blanks header.parted letter, ?_⟩
    exact Option.bind_eq_some_iff.mpr ⟨_, span_append header.named.1 header.named.2 stops, rfl⟩
  cases text : header.entryLine with
  | nil => cases text
  | cons c rest => rw [searchEntry, ← text, found, Option.some_or]

/-! ## Parameters -/

@[simp]
theorem matchType_type (letter : BaseLetter) (width : Width) :
    matchType (letter.letter :: width.text) = some width.size := by
  cases letter <;> cases width <;> rfl

theorem readInt_digits (digits : Digits) : readInt digits.text = some (digits.number : Int) := by
  obtain ⟨text, nonempty, digits⟩ := digits
  have noUnderscore : ¬['_'] <:+: text := by
    rintro ⟨before, after, rfl⟩
    exact absurd (digits '_' (by simp)) (by decide)
  have groups : Text.split ['_'] text = [text] := by
    rw [Text.split, Text.splitFrom_last [] text noUnderscore, List.nil_append]
  have read : readDigits text = some (numberOf text) := by
    rw [readDigits, groups]
    simp only [List.all_cons, List.all_nil, Bool.and_true, List.flatten_cons, List.flatten_nil,
      List.append_nil]
    rw [if_pos]
    simpa [nonempty] using digits
  cases text with
  | nil => exact absurd rfl nonempty
  | cons c rest =>
      have sign : c ≠ '-' ∧ c ≠ '+' := by
        constructor <;> rintro rfl <;> exact absurd (digits _ List.mem_cons_self) (by decide)
      unfold readInt
      split
      · rename_i same
        exact absurd (List.cons.inj same).1 sign.1
      · rename_i same
        exact absurd (List.cons.inj same).1 sign.2
      · rw [read]
        rfl

theorem readTokens_point (arg : PTXArgument) (d : Text) (noAlign : d ≠ "align".toList)
    (rest : List Text) :
    readTokens arg (('.' :: d) :: rest) = readTokens (readAttribute arg d) rest := by
  have other : ('.' :: d) ≠ ".align".toList := fun same => noAlign (List.cons.inj same).2
  rw [readTokens.eq_def]
  dsimp only
  rw [if_pos List.head?_cons, if_neg other, List.tail_cons]

theorem readTokens_align (arg : PTXArgument) (value : Digits) (rest : List Text) :
    readTokens arg (".align".toList :: value.text :: rest) =
      readTokens { arg with alignment := some value.number } rest := by
  rw [readTokens.eq_def]
  dsimp only
  rw [if_pos (by decide), if_pos rfl, readInt_digits]

/-- The words of an attribute set it. -/
theorem readTokens_words (arg : PTXArgument) (said : Attribute) (rest : List Text) :
    readTokens arg (said.words ++ rest) = readTokens (said.set arg) rest := by
  cases said with
  | type letter width =>
      have noAlign : letter.letter :: width.text ≠ "align".toList := by
        cases letter <;> cases width <;> decide
      rw [Attribute.words, List.singleton_append, readTokens_point arg _ noAlign, readAttribute,
        matchType_type]
      rfl
  | ptr => exact readTokens_point arg "ptr".toList (by decide) rest
  | constant => exact readTokens_point arg "constant".toList (by decide) rest
  | space kind =>
      cases kind with
      | global => exact readTokens_point arg "global".toList (by decide) rest
      | local' => exact readTokens_point arg "local".toList (by decide) rest
      | shared => exact readTokens_point arg "shared".toList (by decide) rest
  | align value => exact readTokens_align arg value rest

theorem readTokens_attributes (arg : PTXArgument) (attributes : List Attribute) (rest : List Text) :
    readTokens arg (attributes.flatMap Attribute.words ++ rest) =
      readTokens (attributes.foldl Attribute.set arg) rest := by
  induction attributes generalizing arg with
  | nil => rfl
  | cons said attributes ih =>
      rw [List.flatMap_cons, List.append_assoc, readTokens_words, ih, List.foldl_cons]

/-- The commas and semicolons at the end of a text are dropped. -/
theorem rdropWhile_eq_self {c : Char} {text : Text} (ends : text.getLast? ≠ some c) :
    text.rdropWhile (· = c) = text := by
  cases text using List.reverseRecOn with
  | nil => rfl
  | append_singleton text last =>
      have other : last ≠ c := by simpa using ends
      simp [other]

theorem readTokens_name (arg : PTXArgument) (param : Param) :
    readTokens arg [if param.comma then param.name ++ [','] else param.name] =
      { arg with name := param.name } := by
  have noPoint : (if param.comma then param.name ++ [','] else param.name).head? ≠ some '.' := by
    split
    · rw [head?_append_of_ne_nil param.nonempty]
      exact param.noAttribute
    · exact param.noAttribute
  have dropped : (if param.comma then param.name ++ [','] else param.name).rdropWhile (· = ',') =
      param.name := by
    have bare := rdropWhile_eq_self param.noComma
    split
    · rw [List.rdropWhile_concat, if_pos (by simp), bare]
    · exact bare
  rw [readTokens.eq_def]
  dsimp only
  rw [if_neg noPoint, dropped, readTokens]

theorem readEntry_text (param : Param) : readEntry param.text = some param.argument := by
  have some' : Text.strip isBlank param.text ≠ [] := by
    rw [Ne, Text.strip_eq_nil_iff, param.reads]
    simp
  unfold readEntry
  rw [if_neg some', Text.words_strip, param.reads, readTokens_attributes, readTokens_name]
  exact if_neg param.nonempty

theorem not_mem_of_kept {keep : Char → Bool} {text : Text} (kept : ∀ c ∈ text, keep c = true)
    {c : Char} (other : keep c = false) : c ∉ text := by
  intro inside
  rw [kept c inside] at other
  cases other

theorem not_mem_of_blanks {text : Text} (blanks : Blanks text) {c : Char}
    (printed : isBlank c = false) : c ∉ text :=
  not_mem_of_kept blanks printed

theorem readEntry_blanks {text : Text} (blanks : Blanks text) : readEntry text = none := by
  have none : Text.strip isBlank text = [] := by
    rw [Text.strip, List.dropWhile_eq_nil_iff.mpr blanks]
    rfl
  unfold readEntry
  exact if_pos none

/-- What stands before the bracket that opens the parameters. -/
def Header.opening (header : Header) (list : ParamList) : Text :=
  ".entry".toList ++ (header.gap ++ (header.name ++ list.before))

/-- What stands behind it, without the one that closes them. -/
def ParamList.inside (list : ParamList) : Text :=
  list.lead ++ list.params.flatMap fun param => ".param".toList ++ param.text

theorem not_mem_opening (header : Header) (list : ParamList) {c : Char} (bracket : c = '(' ∨ c = ')') :
    c ∉ header.opening list := by
  have printed : isBlank c = false := by
    obtain rfl | rfl := bracket <;> decide
  have noWord : isWordChar c = false := by
    obtain rfl | rfl := bracket <;> decide
  have noEntry : c ∉ ".entry".toList := by
    obtain rfl | rfl := bracket <;> decide
  intro inside
  obtain entry | inside := List.mem_append.mp inside
  · exact noEntry entry
  obtain gap | inside := List.mem_append.mp inside
  · exact not_mem_of_blanks header.parted.2 printed gap
  obtain name | before := List.mem_append.mp inside
  · exact not_mem_of_kept header.named.2 noWord name
  · exact not_mem_of_blanks list.blankBefore printed before

theorem not_mem_inside (list : ParamList) {c : Char} (bracket : c = '(' ∨ c = ')') :
    c ∉ list.inside := by
  have printed : isBlank c = false := by
    obtain rfl | rfl := bracket <;> decide
  have noParam : c ∉ ".param".toList := by
    obtain rfl | rfl := bracket <;> decide
  intro inside
  obtain lead | inside := List.mem_append.mp inside
  · exact not_mem_of_blanks list.blankLead printed lead
  obtain ⟨param, -, inside⟩ := List.mem_flatMap.mp inside
  obtain start | inside := List.mem_append.mp inside
  · exact noParam start
  · obtain rfl | rfl := bracket
    · exact param.noBracket.1 inside
    · exact param.noBracket.2 inside

theorem split_inside (list : ParamList) :
    Text.split ".param".toList list.inside = list.lead :: list.params.map Param.text := by
  have joined : list.inside =
      ".param".toList.intercalate (list.lead :: list.params.map Param.text) := by
    rw [Text.intercalate_cons, List.flatMap_map, ParamList.inside]
  rw [joined]
  refine Text.split_intercalate (Text.unbordered_of_once (by decide)) (by decide) _ (by simp) ?_
  intro piece inside
  obtain rfl | declared := List.mem_cons.mp inside
  · exact fun occurs => not_mem_of_blanks list.blankLead (c := '.') (by decide)
      (occurs.subset (by decide))
  · obtain ⟨param, -, rfl⟩ := List.mem_map.mp declared
    exact param.noParam

theorem filter_bracket {text : Text} (absent : ')' ∉ text) : text.filter (· ≠ ')') = text :=
  List.filter_eq_self.mpr fun _ inside => decide_eq_true fun same => absent (same ▸ inside)

theorem parseParams_text (func : PTXKernel) (header : Header) (list : ParamList) :
    parseParams func (header.opening list ++ '(' :: (list.inside ++ [')'])) =
      some { func with arguments := func.arguments ++ list.params.map Param.argument } := by
  have kept : (header.opening list ++ '(' :: (list.inside ++ [')'])).filter (· ≠ ')') =
      ['('].intercalate [header.opening list, list.inside] := by
    rw [List.filter_append, filter_bracket (not_mem_opening header list (.inr rfl)),
      List.filter_cons_of_pos (by decide), List.filter_append,
      filter_bracket (not_mem_inside list (.inr rfl)), List.filter_singleton]
    simp
  have split : Text.split ['('] (['('].intercalate [header.opening list, list.inside]) =
      [header.opening list, list.inside] := by
    refine Text.split_intercalate (Text.unbordered_of_once (by simp)) (by simp) _ (by simp) ?_
    intro piece inside occurs
    have bracket : '(' ∈ piece := occurs.subset List.mem_cons_self
    simp only [List.mem_cons, List.not_mem_nil, or_false] at inside
    obtain rfl | rfl := inside
    · exact not_mem_opening header list (.inl rfl) bracket
    · exact not_mem_inside list (.inl rfl) bracket
  have entries : (list.lead :: list.params.map Param.text).filterMap readEntry =
      list.params.map Param.argument := by
    rw [List.filterMap_cons_none (readEntry_blanks list.blankLead), List.filterMap_map]
    have each : readEntry ∘ Param.text = some ∘ Param.argument := funext readEntry_text
    rw [each, List.filterMap_eq_map]
  simp only [parseParams, kept, split, split_inside, entries]

/-! ## Instructions -/

theorem Instr.mem_words (instr : Instr) {word : Text} (inside : word ∈ instr.words) :
    word ≠ [] ∧ ∀ c ∈ word, isBlank c = false := by
  have read : word ∈ Text.words isBlank (instr.text.rdropWhile (· = ';')) := by
    rw [instr.reads]
    exact List.mem_append_right _ inside
  exact Text.mem_words isBlank read

/-- The words of an instruction start and end with no blank. -/
theorem Instr.ends (instr : Instr) :
    (∀ c ∈ ([' '].intercalate instr.words).head?, isBlank c = false) ∧
      ∀ c ∈ ([' '].intercalate instr.words).getLast?, isBlank c = false := by
  obtain ⟨starts, ends⟩ := @Text.ends_intercalate _ ' ' _ fun word inside =>
    (instr.mem_words inside).1
  constructor
  · intro c first
    obtain ⟨word, inside, letter⟩ := starts c first
    exact (instr.mem_words inside).2 c letter
  · intro c last
    obtain ⟨word, inside, letter⟩ := ends c last
    exact (instr.mem_words inside).2 c letter

theorem matchPredicate_none {text : Text} (other : text.head? ≠ some '@') :
    matchPredicate text = none := by
  have refused : expect "@".toList text = none := by
    refine if_neg fun starts => other ?_
    obtain ⟨rest, rfl⟩ := List.isPrefixOf_iff_prefix.mp starts
    rfl
  rw [matchPredicate, refused]
  rfl

theorem matchPredicate_guard (guard : Guard) {body : Text} (some' : body ≠ [])
    (starts : ∀ c ∈ body.head?, isBlank c = false) :
    matchPredicate (guard.word ++ ' ' :: body) =
      some (guard.negated, '%' :: guard.predicate, body) := by
  obtain ⟨negated, predicate, named⟩ := guard
  have stops : ∀ c ∈ (' ' :: body).head?, isPredicateChar c = false := by
    rintro c ⟨⟩
    decide
  have blank : Blanks [' '] := by
    intro c inside
    obtain rfl := List.mem_singleton.mp inside
    decide
  have gap : span isBlank (' ' :: body) = some ([' '], body) :=
    span_blanks ⟨List.cons_ne_nil _ _, blank⟩ starts
  unfold matchPredicate Guard.word
  refine Option.bind_eq_some_iff.mpr ⟨_, expect_singleton .., ?_⟩
  refine Option.bind_eq_some_iff.mpr ⟨predicate ++ ' ' :: body, ?_, ?_⟩
  · cases negated <;> exact expect_singleton ..
  refine Option.bind_eq_some_iff.mpr ⟨_, span_append named.1 named.2 stops, ?_⟩
  refine Option.bind_eq_some_iff.mpr ⟨_, gap, ?_⟩
  dsimp only
  rw [if_neg (by simpa using some')]
  cases negated <;> rfl

theorem parseInstruction_text (instr : Instr) : parseInstruction instr.text = instr.instruction := by
  obtain ⟨starts, ends⟩ := instr.ends
  obtain ⟨first, rest, split⟩ := List.exists_cons_of_ne_nil instr.nonempty
  have some' : [' '].intercalate instr.words ≠ [] := by
    rw [split, Text.intercalate_cons]
    refine List.append_ne_nil_of_left_ne_nil (instr.mem_words ?_).1 _
    rw [split]
    exact List.mem_cons_self
  unfold parseInstruction
  rw [instr.reads]
  cases guarded : instr.guard with
  | none =>
      have noGuard : ([' '].intercalate instr.words).head? ≠ some '@' := by
        intro at'
        refine instr.unguarded guarded first ?_ ?_
        · rw [split]
          rfl
        · rw [split, Text.intercalate_cons, head?_append_of_ne_nil] at at'
          · exact at'
          · refine (instr.mem_words ?_).1
            rw [split]
            exact List.mem_cons_self
      simp only [Option.map_none, Option.toList_none, List.nil_append, matchPredicate_none noGuard,
        Instr.instruction, guarded, Option.elim_none]
  | some guard =>
      have joined : [' '].intercalate (guard.word :: instr.words) =
          guard.word ++ ' ' :: [' '].intercalate instr.words := by
        rw [split, List.intercalate_cons_cons, List.append_assoc]
        rfl
      simp only [Option.map_some, Option.toList_some, List.singleton_append, joined,
        matchPredicate_guard guard some' starts, Instr.instruction, guarded, Option.elim_some,
        Text.strip_of_ends isBlank starts ends]

/-! ## Lines -/

/-- The states behind lines without comments and blanks, and the kernels they yield. -/
def steps (state : ParserState) : List Text → Option (ParserState × List PTXKernel)
  | [] => some (state, [])
  | line :: rest => do
    let (state, yielded) ← step state line
    let (last, others) ← steps state rest
    some (last, yielded ++ others)

theorem steps_append (state : ParserState) (first second : List Text) :
    steps state (first ++ second) = (do
      let (middle, yielded) ← steps state first
      let (last, others) ← steps middle second
      some (last, yielded ++ others)) := by
  induction first generalizing state with
  | nil =>
      change _ = (steps state second).bind fun result => some (result.1, [] ++ result.2)
      rw [List.nil_append]
      cases steps state second <;> rfl
  | cons line first ih =>
      rw [List.cons_append, steps, steps]
      cases step state line with
      | none => rfl
      | some result =>
          obtain ⟨next, yielded⟩ := result
          simp only [Option.bind_eq_bind, Option.bind_some, ih]
          cases steps next first with
          | none => rfl
          | some middle =>
              obtain ⟨middle, others⟩ := middle
              simp only [Option.bind_some]
              cases steps middle second with
              | none => rfl
              | some last => simp

/-- The lines that are not empty without their blanks and comments. -/
def cleanLines (lines : List Text) : List Text := (lines.map cleanLine).filter (· ≠ [])

theorem run_eq_steps (state : ParserState) (lines : List Text) :
    run state lines = (steps state (cleanLines lines)).map Prod.snd := by
  induction lines generalizing state with
  | nil => rfl
  | cons line rest ih =>
      rw [run, cleanLines, List.map_cons, List.filter_cons]
      by_cases empty : cleanLine line = []
      · rw [if_pos empty, if_neg (by simp [empty]), ih]
        rfl
      · rw [if_neg empty, if_pos (by simp [empty]), steps]
        cases step state (cleanLine line) with
        | none => rfl
        | some result =>
            obtain ⟨next, yielded⟩ := result
            simp only [Option.bind_eq_bind, Option.bind_some, ih]
            change _ = Option.map Prod.snd ((steps next (cleanLines rest)).bind _)
            cases steps next (cleanLines rest) with
            | none => rfl
            | some last => rfl

theorem steps_append_of_some {state middle : ParserState} {first : List Text}
    {yielded : List PTXKernel} (done : steps state first = some (middle, yielded))
    (second : List Text) : steps state (first ++ second) =
      (steps middle second).map fun result => (result.1, yielded ++ result.2) := by
  rw [steps_append, done]
  change (steps middle second).bind _ = _
  cases steps middle second <;> rfl

/-- Lines that yield nothing only move the state. -/
theorem steps_append_silent {state middle : ParserState} {first : List Text}
    (done : steps state first = some (middle, [])) (second : List Text) :
    steps state (first ++ second) = steps middle second := by
  rw [steps_append_of_some done]
  exact Option.map_id'

theorem steps_append_iff {state last : ParserState} {first second : List Text}
    {yielded : List PTXKernel} : steps state (first ++ second) = some (last, yielded) ↔
      ∃ middle before after, steps state first = some (middle, before) ∧
        steps middle second = some (last, after) ∧ yielded = before ++ after := by
  constructor
  · intro done
    cases start : steps state first with
    | none =>
        rw [steps_append, start] at done
        cases done
    | some result =>
        obtain ⟨middle, before⟩ := result
        rw [steps_append_of_some start] at done
        obtain ⟨⟨_, after⟩, rest, same⟩ := Option.map_eq_some_iff.mp done
        cases same
        exact ⟨middle, before, after, rfl, rest, rfl⟩
  · rintro ⟨middle, before, after, start, rest, rfl⟩
    rw [steps_append_of_some start, rest]
    rfl

/-! ## Lines of a kernel -/

theorem not_isPrefixOf {start text : Text} (point : start.head? = some '.')
    (other : text.head? ≠ some '.') : start.isPrefixOf text = false := by
  rw [Bool.eq_false_iff, Ne, List.isPrefixOf_iff_prefix]
  rintro ⟨rest, rfl⟩
  refine other ?_
  cases start with
  | nil => cases point
  | cons c start => exact point

/-- What a statement adds to the registers: the parser counts them from 1. -/
def Statement.readRegisters : Statement → List PTXRegister
  | .reg decl => decl.read
  | _ => []

/-- A listing with more registers and instructions. -/
def Listing.add (listing : Listing) (registers : List PTXRegister)
    (instructions : List PTXInstruction) : Listing :=
  { listing with
    registers := listing.registers ++ registers
    instructions := listing.instructions ++ instructions }

theorem stepBody_directive (func : PTXKernel) (line : Directive) :
    ∃ after, stepBody func line.text = some (.body after, []) ∧ after.listing = func.listing := by
  have noBrace : line.text ≠ "\x7b".toList ∧ line.text ≠ "\x7d".toList := by
    constructor <;> intro same <;> have point := line.point <;> rw [same] at point <;> cases point
  have point : ".".toList.isPrefixOf line.text = true := by
    obtain ⟨rest, same⟩ : ∃ rest, line.text = '.' :: rest := by
      cases text : line.text with
      | nil =>
          have point := line.point
          rw [text] at point
          cases point
      | cons c rest =>
          have point := line.point
          rw [text] at point
          exact ⟨rest, by rw [Option.some.inj point]⟩
    rw [same]
    rfl
  unfold stepBody
  split
  · split
    · exact ⟨_, rfl, rfl⟩
    · exact ⟨func, rfl, rfl⟩
  rw [if_neg (by simpa [List.isPrefixOf_iff_prefix] using line.noReg)]
  split
  · unfold parseLocals
    split
    · rename_i rtype name count matched
      obtain ⟨size, known⟩ := Option.isSome_iff_exists.mp (line.sized rtype name count matched)
      rw [known]
      exact ⟨_, rfl, rfl⟩
    · exact ⟨func, rfl, rfl⟩
  · rw [if_neg noBrace.1, if_neg noBrace.2, point]
    exact ⟨func, rfl, rfl⟩

theorem stepBody_reg (func : PTXKernel) (decl : RegDecl) : stepBody func decl.text =
    some (.body { func with registers := func.registers ++ decl.read }, []) := by
  have noReqntid : ".reqntid".toList.isPrefixOf decl.text = false := rfl
  have reg : ".reg".toList.isPrefixOf decl.text = true :=
    List.isPrefixOf_iff_prefix.mpr ⟨_, rfl⟩
  rw [stepBody, if_neg (by rw [noReqntid]; simp), if_pos reg, parseReg_text]

theorem stepBody_instr (func : PTXKernel) (instr : Instr) :
    stepBody func instr.text = some (.body { func with
      instructions := func.instructions ++ [instr.instruction]
      specialRegisters := func.specialRegisters ++ findSpecials 0 instr.instruction.text }, []) := by
  have point : ∀ start : Text, start.head? = some '.' → ¬start.isPrefixOf instr.text = true := by
    intro start first
    rw [not_isPrefixOf first instr.noPoint]
    exact Bool.false_ne_true
  rw [stepBody, if_neg (point _ rfl), if_neg (point _ rfl), if_neg (point _ rfl),
    if_neg instr.noBrace.1, if_neg instr.noBrace.2, not_isPrefixOf rfl instr.noPoint]
  rw [Bool.not_false, if_pos rfl, parseInstruction_text]

theorem stepBody_statement (func : PTXKernel) (statement : Statement) :
    ∃ after, stepBody func statement.text = some (.body after, []) ∧
      after.listing = func.listing.add statement.readRegisters statement.instructions := by
  cases statement with
  | directive line =>
      obtain ⟨after, taken, same⟩ := stepBody_directive func line
      refine ⟨after, taken, same.trans ?_⟩
      simp [Listing.add, Statement.readRegisters, Statement.instructions]
  | reg decl =>
      refine ⟨_, stepBody_reg func decl, ?_⟩
      simp [Listing.add, Statement.readRegisters, Statement.instructions, PTXKernel.listing]
  | instr line =>
      refine ⟨_, stepBody_instr func line, ?_⟩
      simp [Listing.add, Statement.readRegisters, Statement.instructions, PTXKernel.listing]

/-- How many registers and instructions a line adds. -/
def Line.credit : Line → Nat
  | .statement content => content.credit
  | _ => 0

def credits (lines : List Line) : Nat := (lines.map Line.credit).sum

@[simp]
theorem credits_nil : credits [] = 0 := rfl

@[simp]
theorem credits_cons (line : Line) (rest : List Line) :
    credits (line :: rest) = line.credit + credits rest := rfl

@[simp]
theorem credits_append (first second : List Line) :
    credits (first ++ second) = credits first + credits second := by
  simp [credits]

theorem Line.noEntry (line : Line) : ".entry".toList.isPrefixOf line.text = false := by
  cases line with
  | opening => rfl
  | closing => rfl
  | statement content =>
      cases content with
      | directive line =>
          rw [Bool.eq_false_iff, Ne, List.isPrefixOf_iff_prefix]
          exact line.noEntry
      | reg decl => rfl
      | instr line => exact not_isPrefixOf rfl line.noPoint

/-- Between kernels, the lines of a kernel are skipped. -/
theorem steps_start (lines : List Line) :
    steps .start (lines.map Line.text) = some (.start, []) := by
  induction lines with
  | nil => rfl
  | cons line rest ih =>
      have skipped : step .start line.text = some (.start, []) := by
        rw [step, line.noEntry]
        rfl
      rw [List.map_cons, steps, skipped]
      change (steps .start (rest.map Line.text)).bind _ = _
      rw [ih]
      rfl

theorem RegDecl.noBracket_text (decl : RegDecl) : ')' ∉ decl.text := by
  intro bracket
  obtain start | bracket := List.mem_append.mp bracket
  · exact absurd start (by decide)
  obtain first | bracket := List.mem_append.mp bracket
  · exact not_mem_of_blanks decl.parted.1.2 (by decide) first
  obtain rtype | bracket := List.mem_append.mp (List.mem_of_ne_of_mem (by decide) bracket)
  · exact not_mem_of_kept decl.typed.2 (by decide) rtype
  obtain second | bracket := List.mem_append.mp bracket
  · exact not_mem_of_blanks decl.parted.2.2 (by decide) second
  obtain stem | bracket := List.mem_append.mp (List.mem_of_ne_of_mem (by decide) bracket)
  · exact not_mem_of_kept decl.named.2 (by decide) stem
  obtain count | bracket := List.mem_append.mp (List.mem_of_ne_of_mem (by decide) bracket)
  · exact not_mem_of_kept decl.count.digits (by decide) count
  · exact decl.noBracket (List.mem_of_ne_of_mem (by decide) bracket)

/-- A bracket stands in an instruction only. -/
theorem Line.credit_of_bracket {line : Line} (bracket : ')' ∈ line.text) : 0 < line.credit := by
  cases line with
  | opening => exact absurd bracket (by decide)
  | closing => exact absurd bracket (by decide)
  | statement content =>
      cases content with
      | directive line => exact absurd bracket line.noBracket
      | instr line => exact Nat.one_pos
      | reg decl => exact absurd bracket (RegDecl.noBracket_text decl)

/-! ## What can be lost -/

/-- A kernel, its registers and its instructions. -/
def PTXKernel.weight (kernel : PTXKernel) : Nat :=
  1 + kernel.registers.length + kernel.instructions.length

def weights (kernels : List PTXKernel) : Nat := (kernels.map PTXKernel.weight).sum

/-- What has been read of a kernel that is not yielded yet. -/
def ParserState.pending : ParserState → Nat
  | .start => 0
  | .params func _ => func.weight
  | .body func => func.weight

theorem weights_append (first second : List PTXKernel) :
    weights (first ++ second) = weights first + weights second := by
  simp [weights]

theorem length_readRegisters (statement : Statement) :
    statement.readRegisters.length + statement.instructions.length = statement.credit := by
  cases statement with
  | directive line => rfl
  | reg decl => simp [Statement.readRegisters, Statement.instructions, Statement.credit, RegDecl.read]
  | instr line => rfl

/-- In a kernel, a line adds what it is worth. -/
theorem step_body_weight (func : PTXKernel) (line : Line) {after : ParserState}
    {yielded : List PTXKernel} (taken : step (.body func) line.text = some (after, yielded)) :
    weights yielded + after.pending = func.weight + line.credit := by
  cases line with
  | opening =>
      cases taken
      exact Nat.zero_add _
  | closing =>
      cases taken
      exact Nat.add_zero _
  | statement content =>
      obtain ⟨next, same, added⟩ := stepBody_statement func content
      cases Option.some.inj (same.symm.trans taken)
      have registers := congrArg (fun listing => listing.registers.length) added
      have instructions := congrArg (fun listing => listing.instructions.length) added
      have length := length_readRegisters content
      simp only [PTXKernel.listing, Listing.add, List.length_append] at registers instructions
      simp only [weights, List.map_nil, List.sum_nil, ParserState.pending, PTXKernel.weight,
        registers, instructions, Line.credit]
      omega

theorem parseParams_weight {func after : PTXKernel} {text : Text}
    (taken : parseParams func text = some after) : after.weight = func.weight := by
  unfold parseParams at taken
  split at taken
  · cases taken
    rfl
  · cases taken

/-- No line of a kernel adds more than it is worth. -/
theorem step_weight {state after : ParserState} (line : Line) {yielded : List PTXKernel}
    (taken : step state line.text = some (after, yielded)) :
    weights yielded + after.pending ≤ state.pending + line.credit := by
  cases state with
  | start =>
      rw [step, line.noEntry] at taken
      cases taken
      exact Nat.zero_le _
  | params func paramBuffer =>
      rw [step] at taken
      split at taken
      · obtain ⟨parsed, read, same⟩ := Option.map_eq_some_iff.mp taken
        cases same
        change 0 + parsed.weight ≤ func.weight + line.credit
        rw [parseParams_weight read]
        omega
      · cases taken
        change 0 + func.weight ≤ func.weight + line.credit
        omega
  | body func => exact (step_body_weight func line taken).le

theorem steps_cons_iff {state last : ParserState} {line : Text} {rest : List Text}
    {yielded : List PTXKernel} : steps state (line :: rest) = some (last, yielded) ↔
      ∃ middle before after, step state line = some (middle, before) ∧
        steps middle rest = some (last, after) ∧ yielded = before ++ after := by
  rw [show line :: rest = [line] ++ rest from rfl, steps_append_iff]
  have single : ∀ middle before, steps state [line] = some (middle, before) ↔
      step state line = some (middle, before) := by
    intro middle before
    rw [steps]
    cases step state line with
    | none => rfl
    | some result => simp [steps, Prod.ext_iff]
  simp only [single]

/-- A run over lines of kernels adds no more than they are worth. -/
theorem steps_weight {state last : ParserState} (lines : List Line) {yielded : List PTXKernel}
    (taken : steps state (lines.map Line.text) = some (last, yielded)) :
    weights yielded + last.pending ≤ state.pending + credits lines := by
  induction lines generalizing state yielded with
  | nil =>
      cases taken
      exact le_of_eq (Nat.zero_add _)
  | cons line rest ih =>
      rw [List.map_cons, steps_cons_iff] at taken
      obtain ⟨middle, before, after, first, others, rfl⟩ := taken
      have one := step_weight line first
      have more := ih others
      rw [weights_append, credits_cons]
      omega

/-- Behind a header that has not ended, the lines are taken for parameters. -/
theorem steps_params (func : PTXKernel) (paramBuffer : Text) (lines : List Line)
    {last : ParserState} {yielded : List PTXKernel}
    (taken : steps (.params func paramBuffer) (lines.map Line.text) = some (last, yielded)) :
    (∃ buffer, last = .params func buffer ∧ yielded = []) ∨
      weights yielded + last.pending < func.weight + credits lines := by
  induction lines generalizing paramBuffer yielded with
  | nil =>
      cases taken
      exact .inl ⟨paramBuffer, rfl, rfl⟩
  | cons line rest ih =>
      rw [List.map_cons, steps_cons_iff] at taken
      obtain ⟨middle, before, after, first, others, rfl⟩ := taken
      rw [step] at first
      split at first
      · rename_i bracket
        -- The bracket is the one of an instruction, which is lost.
        have lost := Line.credit_of_bracket bracket
        obtain ⟨parsed, read, same⟩ := Option.map_eq_some_iff.mp first
        cases same
        have more := steps_weight rest others
        change _ ≤ parsed.weight + _ at more
        rw [parseParams_weight read] at more
        rw [List.nil_append, credits_cons]
        exact .inr (by omega)
      · cases first
        rw [List.nil_append, credits_cons]
        obtain still | less := ih _ others
        · exact .inl still
        · exact .inr (by omega)

/-! ## Headers -/

/-- Lines without a closing bracket are parameters. -/
theorem steps_params_plain (func : PTXKernel) (paramBuffer : Text) (lines : List Text)
    (plain : ∀ line ∈ lines, ')' ∉ line) : steps (.params func paramBuffer) lines =
      some (.params func (lines.foldl (fun buffer line => buffer ++ ' ' :: line) paramBuffer), []) := by
  induction lines generalizing paramBuffer with
  | nil => rfl
  | cons line rest ih =>
      have taken : step (.params func paramBuffer) line =
          some (.params func (paramBuffer ++ ' ' :: line), []) :=
        if_neg (plain line List.mem_cons_self)
      refine steps_cons_iff.mpr ⟨_, [], [], taken, ?_, rfl⟩
      exact ih _ fun other inside => plain other (List.mem_cons_of_mem _ inside)

theorem step_params_closing {func read : PTXKernel} {paramBuffer line : Text}
    (closes : ')' ∈ line) (parsed : parseParams func (paramBuffer ++ ' ' :: line) = some read) :
    step (.params func paramBuffer) line = some (.body read, []) := by
  rw [step, if_pos closes, parsed, Option.map_some]

theorem ParamList.text_eq (list : ParamList) : list.text = list.before ++ '(' :: list.inside := rfl

theorem ParamList.noBracket (list : ParamList) : ')' ∉ list.text := by
  rw [ParamList.text_eq, List.mem_append, List.mem_cons]
  rintro (before | bracket | inside)
  · exact not_mem_of_blanks list.blankBefore (by decide) before
  · exact absurd bracket (by decide)
  · exact not_mem_inside list (.inr rfl) inside

/-- The first of joined texts starts what they make up. -/
theorem not_mem_of_intercalate {parting c : Char} {texts : List Text}
    (absent : c ∉ [parting].intercalate texts) : ∀ text ∈ texts, c ∉ text := by
  induction texts with
  | nil => simp
  | cons first rest ih =>
      cases rest with
      | nil => simpa using absent
      | cons next rest =>
          rw [List.intercalate_cons_cons, List.mem_append, List.mem_append, not_or, not_or] at absent
          intro text inside
          obtain rfl | later := List.mem_cons.mp inside
          · exact absent.1.1
          · exact ih absent.2 text later

/-- Only the last line of a header may close its parameters. -/
theorem Header.lines_split (header : Header) : ∃ init last, header.lines = init ++ [last] ∧
    ∀ line ∈ init, ')' ∉ line := by
  obtain ⟨name, gap, layout, named, parted⟩ := header
  cases layout with
  | none => exact ⟨[], _, rfl, by simp⟩
  | oneLine list => exact ⟨[], _, rfl, by simp⟩
  | lines list after middle final joined =>
      have plain := not_mem_of_intercalate (joined ▸ list.noBracket)
      refine ⟨_ :: middle, final ++ [')'], rfl, fun line inside => ?_⟩
      obtain rfl | later := List.mem_cons.mp inside
      · intro bracket
        obtain entry | bracket := List.mem_append.mp bracket
        · exact absurd entry (by decide)
        obtain inGap | bracket := List.mem_append.mp bracket
        · exact not_mem_of_blanks parted.2 (by decide) inGap
        obtain inName | inAfter := List.mem_append.mp bracket
        · exact not_mem_of_kept named.2 (by decide) inName
        · exact plain after List.mem_cons_self inAfter
      · exact plain line (List.mem_cons_of_mem _ (List.mem_append_left _ later))

/-- A header that is taken for parameters adds nothing. -/
theorem steps_params_header (func : PTXKernel) (paramBuffer : Text) (header : Header)
    {last : ParserState} {yielded : List PTXKernel}
    (taken : steps (.params func paramBuffer) header.lines = some (last, yielded)) :
    yielded = [] ∧ last.pending = func.weight := by
  obtain ⟨init, line, split, plain⟩ := header.lines_split
  rw [split, steps_append_of_some (steps_params_plain func paramBuffer init plain)] at taken
  obtain ⟨⟨_, after⟩, rest, same⟩ := Option.map_eq_some_iff.mp taken
  cases same
  obtain ⟨middle, first, others, one, none, rfl⟩ := steps_cons_iff.mp rest
  cases none
  rw [step] at one
  split at one
  · obtain ⟨parsed, read, same⟩ := Option.map_eq_some_iff.mp one
    cases same
    exact ⟨rfl, parseParams_weight read⟩
  · cases one
    exact ⟨rfl, rfl⟩

theorem step_entryLine (header : Header) : step .start header.entryLine =
    (searchEntry header.entryLine).map fun name =>
      (.params { name := name } header.entryLine, []) := by
  have starts : ".entry".toList.isPrefixOf header.entryLine = true :=
    List.isPrefixOf_iff_prefix.mpr ⟨_, rfl⟩
  rw [step, if_pos starts]

theorem ParamList.head_text (list : ParamList) : ∀ c ∈ list.text.head?, isWordChar c = false := by
  intro c first
  cases before : list.before with
  | nil =>
      rw [ParamList.text_eq, before] at first
      obtain rfl : '(' = c := Option.some.inj first
      decide
  | cons blank rest =>
      rw [ParamList.text_eq, before] at first
      obtain rfl : blank = c := Option.some.inj first
      refine isWordChar_of_isBlank (list.blankBefore blank ?_)
      rw [before]
      exact List.mem_cons_self

theorem foldl_buffer (buffer : Text) (lines : List Text) :
    lines.foldl (fun buffer line => buffer ++ ' ' :: line) buffer =
      buffer ++ lines.flatMap ([' '] ++ ·) := by
  induction lines generalizing buffer with
  | nil => simp
  | cons line rest ih => rw [List.foldl_cons, ih, List.flatMap_cons, List.append_assoc]; rfl

/-- The lines of a header make up its text. -/
theorem foldl_header (start : Text) (list : ParamList) {after final : Text} {middle : List Text}
    (joined : [' '].intercalate (after :: (middle ++ [final])) = list.text) :
    middle.foldl (fun buffer line => buffer ++ ' ' :: line) (start ++ after) ++
      ' ' :: (final ++ [')']) = (start ++ list.before) ++ '(' :: (list.inside ++ [')']) := by
  have parameters : after ++ (middle.flatMap ([' '] ++ ·) ++ ' ' :: final) =
      list.before ++ '(' :: list.inside := by
    rw [Text.intercalate_cons, List.flatMap_append, ParamList.text_eq] at joined
    simpa using joined
  have whole := congrArg (fun text => start ++ (text ++ [')'])) parameters
  rw [foldl_buffer]
  simpa using whole

/-- The lines of a header, with a blank between them, are its opening and its parameters. -/
theorem Header.buffer (header : Header) {list : ParamList} {after final : Text}
    {middle : List Text} (joined : [' '].intercalate (after :: (middle ++ [final])) = list.text)
    (first : header.layout.first = after) :
    middle.foldl (fun buffer line => buffer ++ ' ' :: line) header.entryLine ++
      ' ' :: (final ++ [')']) = header.opening list ++ '(' :: (list.inside ++ [')']) := by
  -- `rw` would first make the equations of both, which spells out the letters
  unfold Header.entryLine Header.opening
  rw [first]
  generalize ".entry".toList = start
  have text := foldl_header (start ++ (header.gap ++ header.name)) list joined
  simpa only [List.append_assoc] using text

/-- A header that continues is read as it is written. -/
theorem steps_header (header : Header) (continues : header.layout.Continues) :
    steps .start header.lines = some (.body {
      name := header.name
      arguments := header.layout.params.map Param.argument }, []) := by
  cases shape : header.layout with
  | none => rw [shape] at continues; cases continues
  | oneLine list => rw [shape] at continues; cases continues
  | lines list after middle final joined =>
      have first : header.layout.first = after := congrArg Layout.first shape
      have others : header.layout.others = middle ++ [final ++ [')']] :=
        congrArg Layout.others shape
      have plain := not_mem_of_intercalate (joined ▸ list.noBracket)
      have stops : ∀ c ∈ header.layout.first.head?, isWordChar c = false := by
        rw [first]
        intro c start
        refine list.head_text c ?_
        rw [← joined, Text.intercalate_cons]
        cases after with
        | nil => cases start
        | cons letter rest => exact start
      have entry : step .start header.entryLine =
          some (.params { name := header.name } header.entryLine, []) :=
        (step_entryLine header).trans (congrArg _ (searchEntry_entryLine header stops))
      have inner := steps_params_plain { name := header.name } header.entryLine middle
        fun line inside => plain line (List.mem_cons_of_mem _ (List.mem_append_left _ inside))
      have closes : ')' ∈ final ++ [')'] := List.mem_append_right _ List.mem_cons_self
      have parsed := parseParams_text { name := header.name } header list
      rw [← header.buffer joined first] at parsed
      have ends := step_params_closing closes parsed
      rw [Header.lines, others]
      refine steps_cons_iff.mpr ⟨_, [], [], entry, ?_, rfl⟩
      refine steps_append_iff.mpr ⟨_, [], [], inner, ?_, rfl⟩
      exact steps_cons_iff.mpr ⟨_, [], [], ends, rfl, rfl⟩

/-! ## Bodies -/

/-- The lines before the first closing brace. -/
def beforeClosing : List Line → List Line
  | [] => []
  | .closing :: _ => []
  | line :: rest => line :: beforeClosing rest

/-- The lines behind the first closing brace. -/
def behindClosing : List Line → List Line
  | [] => []
  | .closing :: rest => rest
  | _ :: rest => behindClosing rest

theorem split_closing {lines : List Line} (closes : .closing ∈ lines) :
    lines = beforeClosing lines ++ .closing :: behindClosing lines := by
  induction lines with
  | nil => cases closes
  | cons line rest ih =>
      cases line with
      | closing => rfl
      | opening => exact congrArg _ (ih (List.mem_of_ne_of_mem (by simp) closes))
      | statement content => exact congrArg _ (ih (List.mem_of_ne_of_mem (by simp) closes))

theorem not_mem_beforeClosing (lines : List Line) : .closing ∉ beforeClosing lines := by
  induction lines with
  | nil => simp [beforeClosing]
  | cons line rest ih => cases line <;> simp [beforeClosing, ih]

/-- What follows the first closing brace of the kernel. -/
def WrittenKernel.late (kernel : WrittenKernel) : List Line := behindClosing kernel.innerLines

def WrittenKernel.early (kernel : WrittenKernel) : List Line := beforeClosing kernel.innerLines

/-- No register and no instruction follows the end of a scope. -/
def WrittenKernel.Closed (kernel : WrittenKernel) : Prop := credits kernel.late = 0

theorem WrittenKernel.innerLines_split (kernel : WrittenKernel) :
    kernel.innerLines = kernel.early ++ .closing :: kernel.late :=
  split_closing (by simp [WrittenKernel.innerLines])

/-- The statements of lines. -/
def statementsOf (lines : List Line) : List Statement :=
  lines.filterMap fun
    | .statement content => some content
    | _ => none

theorem Body.statementsOf_lines (body : Body) : statementsOf body.lines = body.statements := by
  induction body with
  | nil => rfl
  | statement head rest ih => rw [Body.lines, Body.statements, ← ih]; rfl
  | scope inner rest ihInner ihRest =>
      rw [Body.lines, Body.statements, ← ihInner, ← ihRest]
      simp [statementsOf]

theorem statementsOf_append (first second : List Line) :
    statementsOf (first ++ second) = statementsOf first ++ statementsOf second :=
  List.filterMap_append ..

theorem statementsOf_directives (directives : List Directive) :
    (statementsOf (directives.map fun line => .statement (.directive line))) =
      directives.map .directive := by
  induction directives with
  | nil => rfl
  | cons line rest ih => exact congrArg _ ih

/-- What lines without a closing brace add to a kernel. -/
theorem steps_body (func : PTXKernel) (lines : List Line) (opened : .closing ∉ lines) :
    ∃ after, steps (.body func) (lines.map Line.text) = some (.body after, []) ∧
      after.listing = func.listing.add ((statementsOf lines).flatMap Statement.readRegisters)
        ((statementsOf lines).flatMap Statement.instructions) := by
  induction lines generalizing func with
  | nil => exact ⟨func, rfl, by simp [statementsOf, Listing.add]⟩
  | cons line rest ih =>
      have others : .closing ∉ rest := fun inside => opened (List.mem_cons_of_mem _ inside)
      cases line with
      | closing => exact absurd List.mem_cons_self opened
      | opening =>
          obtain ⟨after, taken, same⟩ := ih func others
          exact ⟨after, steps_cons_iff.mpr ⟨_, [], [], rfl, taken, rfl⟩, same⟩
      | statement content =>
          obtain ⟨middle, first, one⟩ := stepBody_statement func content
          obtain ⟨after, taken, same⟩ := ih middle others
          refine ⟨after, steps_cons_iff.mpr ⟨_, [], [], first, taken, rfl⟩, ?_⟩
          rw [same, one]
          simp [statementsOf, Listing.add]

/-! ## Kernels -/

/-- The kernel that the parser makes of a header that continues. -/
def WrittenKernel.readListing (kernel : WrittenKernel) : Listing where
  name := kernel.header.name
  arguments := kernel.header.layout.params.map Param.argument
  registers := (statementsOf kernel.early).flatMap Statement.readRegisters
  instructions := (statementsOf kernel.early).flatMap Statement.instructions

theorem steps_before (before : List Directive) :
    steps .start (before.map Directive.text) = some (.start, []) := by
  have lines := steps_start (before.map fun line => .statement (.directive line))
  rwa [List.map_map] at lines

theorem steps_kernel (kernel : WrittenKernel) (continues : kernel.header.layout.Continues) :
    ∃ read, steps .start kernel.lines = some (.start, [read]) ∧
      read.listing = kernel.readListing := by
  obtain ⟨read, body, same⟩ := steps_body
    { name := kernel.header.name, arguments := kernel.header.layout.params.map Param.argument }
    kernel.early (not_mem_beforeClosing kernel.innerLines)
  refine ⟨read, ?_, same⟩
  rw [WrittenKernel.lines, kernel.innerLines_split, List.map_append, List.map_cons,
    steps_append_silent (steps_before kernel.before),
    steps_append_silent (steps_header kernel.header continues), steps_append_silent body]
  exact steps_cons_iff.mpr ⟨_, [read], [], rfl, steps_start kernel.late, rfl⟩

/-- A kernel, its registers and its instructions. -/
def WrittenKernel.worth (kernel : WrittenKernel) : Nat := 1 + credits kernel.innerLines

theorem Layout.others_of_not_continues {layout : Layout} (ends : ¬layout.Continues) :
    layout.others = [] := by
  cases layout with
  | none => rfl
  | oneLine list => rfl
  | lines list after middle final joined => exact absurd trivial ends

theorem kernel_params_weight {kernel : WrittenKernel} {func : PTXKernel} {paramBuffer : Text}
    {last : ParserState} {yielded : List PTXKernel}
    (taken : steps (.params func paramBuffer) kernel.lines = some (last, yielded)) :
    weights yielded + last.pending ≤ func.weight + credits kernel.innerLines := by
  have plain : ∀ line ∈ kernel.before.map Directive.text, ')' ∉ line := by
    intro line inside
    obtain ⟨line, -, rfl⟩ := List.mem_map.mp inside
    exact line.noBracket
  rw [WrittenKernel.lines, steps_append_silent (steps_params_plain _ _ _ plain)] at taken
  obtain ⟨middle, none, others, header, inner, rfl⟩ := steps_append_iff.mp taken
  obtain ⟨rfl, pending⟩ := steps_params_header _ _ _ header
  rw [← pending]
  exact steps_weight kernel.innerLines inner

/-- A header that ends on its first line loses a line, or the kernel. -/
theorem kernel_start_weight {kernel : WrittenKernel} (ends : ¬kernel.header.layout.Continues)
    {last : ParserState} {yielded : List PTXKernel}
    (taken : steps .start kernel.lines = some (last, yielded)) :
    (∃ func buffer, last = .params func buffer ∧ yielded = [] ∧ func.weight ≤ kernel.worth) ∨
      weights yielded + last.pending < kernel.worth := by
  rw [WrittenKernel.lines, steps_append_silent (steps_before kernel.before), Header.lines,
    Layout.others_of_not_continues ends] at taken
  obtain ⟨middle, none, others, entry, inner, rfl⟩ := steps_cons_iff.mp taken
  rw [step_entryLine] at entry
  obtain ⟨name, -, same⟩ := Option.map_eq_some_iff.mp entry
  cases same
  obtain ⟨buffer, rfl, rfl⟩ | less := steps_params _ _ kernel.innerLines inner
  · exact .inl ⟨_, buffer, rfl, rfl, Nat.le_add_right 1 _⟩
  · exact .inr less

theorem kernel_weight {kernel : WrittenKernel} {state last : ParserState}
    (outside : ∀ func, state ≠ .body func) {yielded : List PTXKernel}
    (taken : steps state kernel.lines = some (last, yielded)) :
    weights yielded + last.pending ≤ state.pending + kernel.worth := by
  cases state with
  | body func => exact absurd rfl (outside func)
  | params func paramBuffer =>
      have less := kernel_params_weight taken
      rw [WrittenKernel.worth, ParserState.pending]
      omega
  | start =>
      rw [ParserState.pending, Nat.zero_add]
      by_cases continues : kernel.header.layout.Continues
      · rw [WrittenKernel.lines, steps_append_silent (steps_before kernel.before),
          steps_append_silent (steps_header kernel.header continues)] at taken
        exact steps_weight kernel.innerLines taken
      · obtain ⟨func, buffer, rfl, rfl, most⟩ | less := kernel_start_weight continues taken
        · exact (Nat.zero_add _).trans_le most
        · exact less.le

/-- The last brace of a kernel leaves it. -/
theorem kernel_outside {kernel : WrittenKernel} {state last : ParserState}
    {yielded : List PTXKernel} (taken : steps state kernel.lines = some (last, yielded)) :
    ∀ func, last ≠ .body func := by
  obtain ⟨lines, split⟩ : ∃ lines, kernel.lines = lines ++ [Line.closing.text] := by
    refine ⟨kernel.before.map Directive.text ++ (kernel.header.lines ++ (kernel.directives.map
      (fun line => Line.statement (.directive line)) ++ (.opening :: kernel.body.lines)).map
        Line.text), ?_⟩
    simp [WrittenKernel.lines, WrittenKernel.innerLines]
  rw [split] at taken
  obtain ⟨middle, before, after, -, closes, -⟩ := steps_append_iff.mp taken
  obtain ⟨next, first, others, one, done, -⟩ := steps_cons_iff.mp closes
  cases done
  rintro func rfl
  cases middle with
  | start => cases one
  | params other buffer => cases one
  | body other => cases one

def worths (kernels : List WrittenKernel) : Nat := (kernels.map WrittenKernel.worth).sum

theorem kernels_weight (kernels : List WrittenKernel) {state last : ParserState}
    (outside : ∀ func, state ≠ .body func) {yielded : List PTXKernel}
    (taken : steps state (kernels.flatMap WrittenKernel.lines) = some (last, yielded)) :
    weights yielded + last.pending ≤ state.pending + worths kernels := by
  induction kernels generalizing state yielded with
  | nil =>
      cases taken
      exact (Nat.zero_add _).le
  | cons kernel kernels ih =>
      rw [List.flatMap_cons] at taken
      obtain ⟨middle, before, after, first, others, rfl⟩ := steps_append_iff.mp taken
      have one := kernel_weight outside first
      have more := ih (kernel_outside first) others
      rw [weights_append, worths, List.map_cons, List.sum_cons]
      change _ ≤ middle.pending + worths kernels at more
      change _ ≤ _ + (kernel.worth + worths kernels)
      omega

/-- A kernel whose parameters swallow others is lost with them. -/
theorem kernels_params (kernels : List WrittenKernel) {func : PTXKernel} {paramBuffer : Text}
    {last : ParserState} {yielded : List PTXKernel}
    (taken : steps (.params func paramBuffer) (kernels.flatMap WrittenKernel.lines) =
      some (last, yielded)) : weights yielded < func.weight + worths kernels := by
  cases kernels with
  | nil =>
      cases taken
      have counted : 0 < func.weight := by
        rw [PTXKernel.weight]
        omega
      exact counted
  | cons kernel kernels =>
      rw [List.flatMap_cons] at taken
      obtain ⟨middle, before, after, first, others, rfl⟩ := steps_append_iff.mp taken
      have one := kernel_params_weight first
      have more := kernels_weight kernels (kernel_outside first) others
      have worth : worths (kernel :: kernels) = 1 + credits kernel.innerLines + worths kernels := rfl
      rw [weights_append, worth]
      omega

/-! ## The parser -/

theorem length_registers (statement : Statement) :
    statement.registers.length + statement.instructions.length = statement.credit := by
  cases statement with
  | directive line => rfl
  | reg decl =>
      simp [Statement.registers, Statement.instructions, Statement.credit, RegDecl.registers]
  | instr line => rfl

/-- The registers, however they are counted, and the instructions make up the credit. -/
theorem length_statementsOf (registers : Statement → List PTXRegister)
    (counted : ∀ statement, (registers statement).length + statement.instructions.length =
      statement.credit) (lines : List Line) :
    ((statementsOf lines).flatMap registers).length +
      ((statementsOf lines).flatMap Statement.instructions).length = credits lines := by
  induction lines with
  | nil => rfl
  | cons line rest ih =>
      cases line with
      | opening => exact ih.trans (Nat.zero_add _).symm
      | closing => exact ih.trans (Nat.zero_add _).symm
      | statement content =>
          have one := counted content
          change ((content :: statementsOf rest).flatMap registers).length +
            ((content :: statementsOf rest).flatMap Statement.instructions).length =
              content.credit + credits rest
          rw [List.flatMap_cons, List.flatMap_cons, List.length_append, List.length_append]
          omega

theorem flatMap_innerLines {α : Type} (kernel : WrittenKernel) (add : Statement → List α)
    (none : ∀ line, add (.directive line) = []) :
    (statementsOf kernel.innerLines).flatMap add = kernel.body.statements.flatMap add := by
  have directives : ((kernel.directives.map Statement.directive).flatMap add) = [] := by
    rw [List.flatMap_map, List.flatMap_eq_nil_iff]
    exact fun line _ => none line
  have split : statementsOf kernel.innerLines =
      kernel.directives.map .directive ++ kernel.body.statements := by
    rw [WrittenKernel.innerLines, statementsOf_append, statementsOf_directives,
      ← kernel.body.statementsOf_lines]
    simp [statementsOf]
  rw [split, List.flatMap_append, directives, List.nil_append]

theorem flatMap_split {α : Type} (kernel : WrittenKernel) (add : Statement → List α) :
    (statementsOf kernel.innerLines).flatMap add =
      (statementsOf kernel.early).flatMap add ++ (statementsOf kernel.late).flatMap add := by
  rw [kernel.innerLines_split, statementsOf_append, List.flatMap_append]
  rfl

def Listing.weight (listing : Listing) : Nat :=
  1 + listing.registers.length + listing.instructions.length

theorem WrittenKernel.weight_listing (kernel : WrittenKernel) :
    kernel.listing.weight = kernel.worth := by
  have counted := length_statementsOf Statement.registers length_registers kernel.innerLines
  rw [flatMap_innerLines kernel _ fun _ => rfl, flatMap_innerLines kernel _ fun _ => rfl] at counted
  change 1 + (kernel.body.statements.flatMap Statement.registers).length +
    (kernel.body.statements.flatMap Statement.instructions).length = 1 + credits kernel.innerLines
  omega

theorem WrittenKernel.weight_readListing (kernel : WrittenKernel) :
    kernel.readListing.weight = 1 + credits kernel.early := by
  have counted := length_statementsOf Statement.readRegisters length_readRegisters kernel.early
  change 1 + ((statementsOf kernel.early).flatMap Statement.readRegisters).length +
    ((statementsOf kernel.early).flatMap Statement.instructions).length = 1 + credits kernel.early
  omega

theorem numbered_zero_ne_one (rtype stem : Text) : numbered rtype stem 1 ≠ numbered rtype stem 0 := by
  intro same
  have names := congrArg PTXRegister.name same
  have digits : Nat.toDigits 10 1 = Nat.toDigits 10 0 :=
    List.append_cancel_left (List.cons.inj names).2
  exact absurd digits (by decide)

/-- Registers that are counted from 1 are the declared ones only if there are none. -/
theorem registers_eq {statements : List Statement}
    (same : statements.flatMap Statement.readRegisters = statements.flatMap Statement.registers) :
    ∀ decl, Statement.reg decl ∈ statements → decl.count.number = 0 := by
  induction statements with
  | nil => exact fun _ inside => absurd inside List.not_mem_nil
  | cons statement rest ih =>
      rw [List.flatMap_cons, List.flatMap_cons] at same
      cases statement with
      | directive line =>
          exact fun decl inside => ih same decl (List.mem_of_ne_of_mem (by simp) inside)
      | instr line =>
          exact fun decl inside => ih same decl (List.mem_of_ne_of_mem (by simp) inside)
      | reg first =>
          change first.read ++ _ = first.registers ++ _ at same
          cases count : first.count.number with
          | zero =>
              rw [RegDecl.read, RegDecl.registers, count] at same
              intro decl inside
              obtain same' | later := List.mem_cons.mp inside
              · rwa [Statement.reg.inj same']
              · exact ih same decl later
          | succ number =>
              rw [RegDecl.read, RegDecl.registers, count, List.range_succ_eq_map] at same
              exact absurd (List.cons.inj same).1 (numbered_zero_ne_one _ _)

/-- What the parser asks of a kernel. -/
structure WrittenKernel.Readable (kernel : WrittenKernel) : Prop where
  /-- The parameters end on a line behind the one of the name. -/
  continues : kernel.header.layout.Continues
  closed : kernel.Closed
  noRegisters : ∀ decl, Statement.reg decl ∈ kernel.body.statements → decl.count.number = 0

theorem credit_of_mem {lines : List Line} (none : credits lines = 0) {statement : Statement}
    (inside : statement ∈ statementsOf lines) : statement.credit = 0 := by
  induction lines with
  | nil => cases inside
  | cons line rest ih =>
      rw [credits_cons, Nat.add_eq_zero_iff] at none
      cases line with
      | opening => exact ih none.2 inside
      | closing => exact ih none.2 inside
      | statement content =>
          obtain rfl | later := List.mem_cons.mp inside
          · exact none.1
          · exact ih none.2 later

theorem WrittenKernel.reg_mem_iff (kernel : WrittenKernel) (decl : RegDecl) :
    Statement.reg decl ∈ kernel.body.statements ↔
      Statement.reg decl ∈ statementsOf kernel.early ∨
        Statement.reg decl ∈ statementsOf kernel.late := by
  have inner : Statement.reg decl ∈ statementsOf kernel.innerLines ↔
      Statement.reg decl ∈ kernel.body.statements := by
    rw [WrittenKernel.innerLines, statementsOf_append, statementsOf_directives,
      ← kernel.body.statementsOf_lines]
    simp [statementsOf]
  rw [← inner, kernel.innerLines_split, statementsOf_append, List.mem_append]
  rfl

theorem readRegisters_of_count {statement : Statement}
    (none : ∀ decl, statement = .reg decl → decl.count.number = 0) :
    statement.readRegisters = [] ∧ statement.registers = [] := by
  cases statement with
  | directive line => exact ⟨rfl, rfl⟩
  | instr line => exact ⟨rfl, rfl⟩
  | reg decl =>
      have count := none decl rfl
      simp [Statement.readRegisters, Statement.registers, RegDecl.read, RegDecl.registers, count]

theorem WrittenKernel.readListing_eq_iff (kernel : WrittenKernel) :
    kernel.readListing = kernel.listing ↔ kernel.Closed ∧
      ∀ decl, Statement.reg decl ∈ kernel.body.statements → decl.count.number = 0 := by
  have registers := flatMap_split kernel Statement.registers
  have instructions := flatMap_split kernel Statement.instructions
  rw [flatMap_innerLines kernel _ fun _ => rfl] at registers instructions
  have noLate : kernel.Closed →
      (statementsOf kernel.late).flatMap Statement.registers = [] ∧
        (statementsOf kernel.late).flatMap Statement.instructions = [] := by
    intro closed
    have counted := length_statementsOf Statement.registers length_registers kernel.late
    rw [show credits kernel.late = 0 from closed, Nat.add_eq_zero_iff] at counted
    exact ⟨List.length_eq_zero_iff.mp counted.1, List.length_eq_zero_iff.mp counted.2⟩
  constructor
  · intro same
    have closed : kernel.Closed := by
      have weight := congrArg Listing.weight same
      rw [kernel.weight_readListing, kernel.weight_listing, WrittenKernel.worth,
        kernel.innerLines_split, credits_append, credits_cons] at weight
      rw [WrittenKernel.Closed]
      omega
    refine ⟨closed, fun decl inside => ?_⟩
    obtain early | late := (kernel.reg_mem_iff decl).mp inside
    · refine registers_eq ?_ decl early
      have read : (statementsOf kernel.early).flatMap Statement.readRegisters =
          kernel.body.statements.flatMap Statement.registers := congrArg Listing.registers same
      rw [read, registers, (noLate closed).1, List.append_nil]
    · exact credit_of_mem closed late
  · rintro ⟨closed, noRegisters⟩
    have read : (statementsOf kernel.early).flatMap Statement.readRegisters = [] := by
      refine List.flatMap_eq_nil_iff.mpr fun statement inside => (readRegisters_of_count ?_).1
      rintro decl rfl
      exact noRegisters decl ((kernel.reg_mem_iff decl).mpr (.inl inside))
    have declared : kernel.body.statements.flatMap Statement.registers = [] := by
      refine List.flatMap_eq_nil_iff.mpr fun statement inside => (readRegisters_of_count ?_).2
      rintro decl rfl
      exact noRegisters decl inside
    rw [(noLate closed).2, List.append_nil] at instructions
    rw [WrittenKernel.readListing, WrittenKernel.listing, read, declared, instructions]

theorem weight_listing (kernel : PTXKernel) : kernel.listing.weight = kernel.weight := rfl

/-- Behind a kernel that ends on its first line, not all that is written is yielded. -/
theorem lost_of_not_continues {kernel : WrittenKernel} (ends : ¬kernel.header.layout.Continues)
    (kernels : List WrittenKernel) {last : ParserState} {yielded : List PTXKernel}
    (taken : steps .start ((kernel :: kernels).flatMap WrittenKernel.lines) =
      some (last, yielded)) :
    weights yielded < worths (kernel :: kernels) := by
  rw [List.flatMap_cons] at taken
  obtain ⟨middle, before, after, first, others, rfl⟩ := steps_append_iff.mp taken
  rw [weights_append]
  change _ < kernel.worth + worths kernels
  obtain ⟨func, buffer, rfl, rfl, most⟩ | less := kernel_start_weight ends first
  · have lost := kernels_params kernels others
    change 0 + _ < _
    omega
  · have more := kernels_weight kernels (kernel_outside first) others
    omega

theorem weights_of_listings {yielded : List PTXKernel} {kernels : List WrittenKernel}
    (same : yielded.map PTXKernel.listing = kernels.map WrittenKernel.listing) :
    weights yielded = worths kernels := by
  have listed := congrArg (fun listings => (listings.map Listing.weight).sum) same
  simp only [List.map_map] at listed
  have read : Listing.weight ∘ PTXKernel.listing = PTXKernel.weight := rfl
  have written : Listing.weight ∘ WrittenKernel.listing = WrittenKernel.worth :=
    funext WrittenKernel.weight_listing
  rw [read, written] at listed
  exact listed

theorem steps_listing_iff (kernels : List WrittenKernel) :
    (∃ last yielded, steps .start (kernels.flatMap WrittenKernel.lines) = some (last, yielded) ∧
        yielded.map PTXKernel.listing = kernels.map WrittenKernel.listing) ↔
      ∀ kernel ∈ kernels, kernel.Readable := by
  induction kernels with
  | nil => exact iff_of_true ⟨.start, [], rfl, rfl⟩ fun _ inside => absurd inside List.not_mem_nil
  | cons kernel kernels ih =>
      rw [List.forall_mem_cons, ← ih]
      by_cases continues : kernel.header.layout.Continues
      · obtain ⟨read, taken, same⟩ := steps_kernel kernel continues
        have readable : kernel.Readable ↔ read.listing = kernel.listing := by
          rw [same, kernel.readListing_eq_iff]
          exact ⟨fun whole => ⟨whole.closed, whole.noRegisters⟩,
            fun ⟨closed, noRegisters⟩ => ⟨continues, closed, noRegisters⟩⟩
        rw [readable, List.flatMap_cons, steps_append_of_some taken]
        constructor
        · rintro ⟨last, yielded, done, listed⟩
          obtain ⟨⟨_, after⟩, rest, whole⟩ := Option.map_eq_some_iff.mp done
          cases whole
          obtain ⟨first, others⟩ := List.cons.inj listed
          exact ⟨first, _, after, rest, others⟩
        · rintro ⟨first, last, yielded, done, listed⟩
          refine ⟨last, read :: yielded, by rw [done]; rfl, ?_⟩
          rw [List.map_cons, List.map_cons, first, listed]
      · refine iff_of_false ?_ fun both => continues both.1.continues
        rintro ⟨last, yielded, done, listed⟩
        have lost := lost_of_not_continues continues kernels done
        exact absurd (weights_of_listings listed) lost.ne

def emptyList : ParamList where
  before := []
  lead := " ".toList
  params := []
  blankBefore := by decide
  blankLead := by decide

def plainHeader : Header where
  name := "f".toList
  gap := " ".toList
  layout := .lines emptyList "(".toList [] [] (by decide)
  named := ⟨by decide, List.all_eq_true.mp rfl⟩
  parted := by decide

def returnInstr : Instr where
  guard := none
  words := ["ret".toList]
  text := "ret;".toList
  nonempty := by decide
  unguarded := by decide
  reads := by decide
  noPoint := by decide
  noBrace := by decide

/-- `.reg .b32 %r<2>;` -/
def twoRegisters : RegDecl where
  rtype := "b32".toList
  stem := "r".toList
  count := ⟨"2".toList, by decide, List.all_eq_true.mp rfl⟩
  first := " ".toList
  second := " ".toList
  tail := ";".toList
  typed := ⟨by decide, List.all_eq_true.mp rfl⟩
  named := ⟨by decide, List.all_eq_true.mp rfl⟩
  parted := by decide
  noBracket := by decide

def returnKernel : WrittenKernel := ⟨[], plainHeader, [], .statement (.instr returnInstr) .nil⟩

def registerKernel : WrittenKernel :=
  ⟨[], plainHeader, [], .statement (.reg twoRegisters) (.statement (.instr returnInstr) .nil)⟩

/-- A kernel whose parameters end on the line of its name is not yielded. -/
example : (parseKernel [".entry f()".toList, "\x7b".toList, "ret;".toList, "\x7d".toList]).map
    (List.map PTXKernel.listing) = some [] := by
  decide

end OpenCLDecompiler.Ptx.Parser
