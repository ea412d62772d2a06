import Mathlib.Data.List.Basic
import Mathlib.Data.List.DropRight
import Mathlib.Data.List.Infix
import Mathlib.Data.List.TakeWhile

/-!
# Texts

The operations of Python on strings, over lists of any letters: splitting at a
separator and taking off a prefix or a suffix.
-/

namespace OpenCLDecompiler.Library.Text

instance lawfulLetters : LawfulBEq (List Char) := inferInstance

variable {α : Type} [DecidableEq α]

/-- `text.removeprefix(start)`. -/
def removePrefix (start text : List α) : List α :=
  if start.isPrefixOf text then text.drop start.length else text

/-- `text.removesuffix(stop)`. -/
def removeSuffix (stop text : List α) : List α :=
  if stop.isSuffixOf text then text.take (text.length - stop.length) else text

@[simp]
theorem removePrefix_append (start text : List α) : removePrefix start (start ++ text) = text := by
  simp [removePrefix]

@[simp]
theorem removeSuffix_append (stop text : List α) : removeSuffix stop (text ++ stop) = text := by
  simp [removeSuffix]

theorem removeSuffix_of_not {stop text : List α} (absent : ¬stop <:+ text) :
    removeSuffix stop text = text := by
  simp [removeSuffix, absent]

omit [DecidableEq α] in
/-- The first place of a letter says where a text is split. -/
theorem first_letter_inj {letter : α} {first second rest behind : List α} (notFirst : letter ∉ first)
    (notSecond : letter ∉ second) (same : first ++ letter :: rest = second ++ letter :: behind) :
    first = second ∧ rest = behind := by
  induction first generalizing second with
  | nil =>
      cases second with
      | nil => exact ⟨rfl, (List.cons.inj same).2⟩
      | cons other second => exact absurd (List.cons.inj same).1 fun equal => notSecond (equal ▸ List.mem_cons_self)
  | cons other first ih =>
      cases second with
      | nil => exact absurd (List.cons.inj same).1.symm fun equal => notFirst (equal ▸ List.mem_cons_self)
      | cons another second =>
          obtain ⟨rfl, later⟩ := List.cons.inj same
          rw [List.mem_cons, not_or] at notFirst notSecond
          obtain ⟨rfl, behind⟩ := ih notFirst.2 notSecond.2 later
          exact ⟨rfl, behind⟩

/-! ## Splitting -/

/-- The words behind `word`, the letters read since the last separator; `skip` letters are left. -/
def splitFrom (separator : List α) : List α → Nat → List α → List (List α)
  | word, _, [] => [word]
  | word, skip + 1, _ :: rest => splitFrom separator word skip rest
  | word, 0, letter :: rest =>
      if separator.isPrefixOf (letter :: rest) then
        word :: splitFrom separator [] (separator.length - 1) rest
      else splitFrom separator (word ++ [letter]) 0 rest

/-- `text.split(separator)`. -/
def split (separator text : List α) : List (List α) := splitFrom separator [] 0 text

/-- No end of the separator is also a start of it. -/
def Unbordered (separator : List α) : Prop :=
  ∀ border, border ≠ [] → border ≠ separator → border <:+ separator → ¬border <+: separator

omit [DecidableEq α] in
theorem unbordered_of_once {first : α} {rest : List α} (once : first ∉ rest) :
    Unbordered (first :: rest) := by
  intro border some proper ends starts
  cases border with
  | nil => exact some rfl
  | cons letter border =>
      obtain rfl : letter = first := (List.cons_prefix_cons.mp starts).1
      obtain whole | inside := List.suffix_cons_iff.mp ends
      · exact proper whole
      · exact once (inside.subset List.mem_cons_self)

omit [DecidableEq α] in
theorem unbordered_of_last_once {last : α} {before : List α} (once : last ∉ before) :
    Unbordered (before ++ [last]) := by
  intro border some proper ends starts
  obtain ⟨rest, rfl, -⟩ := (List.suffix_concat_iff.mp ends).resolve_left some
  obtain whole | inside := List.prefix_concat_iff.mp starts
  · exact proper whole
  · exact once (inside.subset (by simp))

omit [DecidableEq α] in
theorem intercalate_cons (separator word : List α) (words : List (List α)) :
    separator.intercalate (word :: words) = word ++ words.flatMap (separator ++ ·) := by
  induction words generalizing word with
  | nil => simp
  | cons next words ih =>
      rw [List.intercalate_cons_cons, ih, List.flatMap_cons, List.append_assoc, List.append_assoc]

section Split

variable {separator : List α}

theorem splitFrom_skip (word skipped rest : List α) :
    splitFrom separator word skipped.length (skipped ++ rest) =
      splitFrom separator word 0 rest := by
  induction skipped with
  | nil => rfl
  | cons letter skipped ih =>
      rw [List.length_cons, List.cons_append, splitFrom]
      exact ih

theorem splitFrom_separator (inhabited : separator ≠ []) (word rest : List α) :
    splitFrom separator word 0 (separator ++ rest) = word :: splitFrom separator [] 0 rest := by
  obtain ⟨first, others, rfl⟩ := List.exists_cons_of_ne_nil inhabited
  rw [List.cons_append, splitFrom, if_pos (by simp)]
  exact congrArg (word :: ·) (splitFrom_skip [] others rest)

omit [DecidableEq α] in
/-- A separator does not begin in a word without one, also not at its end. -/
theorem not_prefix_of_word (unbordered : Unbordered separator) {word rest : List α}
    (nonempty : word ≠ []) (absent : ¬separator <:+: word) :
    ¬separator <+: word ++ (separator ++ rest) := by
  rintro starts
  rcases List.prefix_or_prefix_of_prefix starts (List.prefix_append ..) with inside | ⟨border, eq⟩
  · exact absent inside.isInfix
  · have some : border ≠ [] := by
      rintro rfl
      rw [List.append_nil] at eq
      exact absent (eq ▸ List.infix_rfl)
    have shorter : border.length < separator.length := by
      have size := congrArg List.length eq
      have positive := List.length_pos_of_ne_nil nonempty
      rw [List.length_append] at size
      omega
    have notAll : border ≠ separator := fun same => by
      rw [same] at shorter
      exact Nat.lt_irrefl _ shorter
    have behind : border <+: separator ++ rest := by
      rw [← eq, List.append_assoc] at starts
      have tail := (List.prefix_append_right_inj word).mp starts
      rwa [← List.append_assoc, eq] at tail
    have start : border <+: separator :=
      List.prefix_of_prefix_length_le behind (List.prefix_append ..) (Nat.le_of_lt shorter)
    exact unbordered border some notAll ⟨word, eq⟩ start

theorem splitFrom_word (unbordered : Unbordered separator) (inhabited : separator ≠ [])
    (read word rest : List α) (absent : ¬separator <:+: word) :
    splitFrom separator read 0 (word ++ (separator ++ rest)) =
      (read ++ word) :: splitFrom separator [] 0 rest := by
  induction word generalizing read with
  | nil => simpa using splitFrom_separator inhabited read rest
  | cons letter word ih =>
      have not : ¬separator <+: letter :: word ++ (separator ++ rest) :=
        not_prefix_of_word unbordered (List.cons_ne_nil _ _) absent
      have absentRest : ¬separator <:+: word := fun inside =>
        absent (inside.trans (List.suffix_cons ..).isInfix)
      rw [List.cons_append, splitFrom, if_neg (by simpa using not), ih _ absentRest,
        List.append_assoc, List.singleton_append]

theorem splitFrom_last (read word : List α) (absent : ¬separator <:+: word) :
    splitFrom separator read 0 word = [read ++ word] := by
  induction word generalizing read with
  | nil => simp [splitFrom]
  | cons letter word ih =>
      have not : ¬separator <+: letter :: word := fun starts => absent starts.isInfix
      have absentRest : ¬separator <:+: word := fun inside =>
        absent (inside.trans (List.suffix_cons ..).isInfix)
      rw [splitFrom, if_neg (by simpa using not), ih _ absentRest, List.append_assoc,
        List.singleton_append]

/-- Splitting undoes joining. -/
theorem split_intercalate (unbordered : Unbordered separator) (inhabited : separator ≠ [])
    (words : List (List α)) (nonempty : words ≠ []) (absent : ∀ word ∈ words, ¬separator <:+: word) :
    split separator (separator.intercalate words) = words := by
  unfold split
  induction words with
  | nil => exact absurd rfl nonempty
  | cons word words ih =>
      have first := absent word List.mem_cons_self
      cases words with
      | nil => simpa using splitFrom_last [] word first
      | cons next words =>
          rw [List.intercalate_cons_cons, List.append_assoc,
            splitFrom_word unbordered inhabited [] word _ first, List.nil_append,
            ih (List.cons_ne_nil _ _) fun other inside =>
              absent other (List.mem_cons_of_mem _ inside)]

/-- Splitting at a letter that none of the words has. -/
theorem split_letter {parting : α} {words : List (List α)} (nonempty : words ≠ [])
    (free : ∀ word ∈ words, parting ∉ word) : split [parting] ([parting].intercalate words) = words :=
  split_intercalate (unbordered_of_once List.not_mem_nil) (List.cons_ne_nil _ _) words nonempty
    fun word member inside => free word member (inside.subset List.mem_cons_self)

omit [DecidableEq α] in
/-- Joined words end as the last of them does, or as the separator. -/
theorem getLast?_intercalate (inhabited : separator ≠ []) (words : List (List α)) {last : α}
    (ends : (separator.intercalate words).getLast? = some last) :
    (∃ word ∈ words.getLast?, word.getLast? = some last) ∨ separator.getLast? = some last := by
  induction words with
  | nil => simp at ends
  | cons word words ih =>
      cases words with
      | nil => exact .inl ⟨word, rfl, by simpa using ends⟩
      | cons next words =>
          rw [List.intercalate_cons_cons, List.getLast?_append] at ends
          cases rest : (separator.intercalate (next :: words)).getLast? with
          | some other =>
              rw [rest, Option.some_or] at ends
              exact ih (rest.trans ends)
          | none =>
              rw [rest, Option.none_or, List.getLast?_append] at ends
              cases stop : separator.getLast? with
              | some other => exact .inr (by rwa [stop, Option.some_or] at ends)
              | none => exact absurd (List.getLast?_eq_none_iff.mp stop) inhabited

end Split

/-! ## Words -/

section Words

variable (blank : α → Bool)

omit [DecidableEq α]

/-- The words behind `word`, the letters read since the last blank. -/
def wordsFrom : List α → List α → List (List α)
  | word, [] => if word.isEmpty then [] else [word]
  | word, letter :: rest =>
      if blank letter then (if word.isEmpty then [] else [word]) ++ wordsFrom [] rest
      else wordsFrom (word ++ [letter]) rest

/-- `text.split()`. -/
def words (text : List α) : List (List α) := wordsFrom blank [] text

/-- `text.strip()`. -/
def strip (text : List α) : List α := (text.dropWhile blank).rdropWhile blank

theorem words_dropWhile (text : List α) : words blank (text.dropWhile blank) = words blank text := by
  induction text with
  | nil => rfl
  | cons letter rest ih =>
      rw [List.dropWhile_cons]
      split
      · rename_i skipped
        rw [ih, words, words, wordsFrom, if_pos skipped]
        rfl
      · rfl

theorem wordsFrom_append_blank (word text : List α) {letter : α} (skipped : blank letter = true) :
    wordsFrom blank word (text ++ [letter]) = wordsFrom blank word text := by
  induction text generalizing word with
  | nil => simp [wordsFrom, skipped]
  | cons first rest ih => simp only [List.cons_append, wordsFrom, ih]

theorem words_rdropWhile (text : List α) :
    words blank (text.rdropWhile blank) = words blank text := by
  induction text using List.reverseRecOn with
  | nil => rfl
  | append_singleton text letter ih =>
      rw [List.rdropWhile_concat]
      split
      · rename_i skipped
        rw [ih, words, words, wordsFrom_append_blank blank [] text skipped]
      · rfl

@[simp]
theorem words_strip (text : List α) : words blank (strip blank text) = words blank text := by
  rw [strip, words_rdropWhile, words_dropWhile]

theorem wordsFrom_ne_nil {word : List α} (read : word ≠ []) (text : List α) :
    wordsFrom blank word text ≠ [] := by
  induction text generalizing word with
  | nil => simp [wordsFrom, read]
  | cons letter rest ih =>
      rw [wordsFrom]
      split
      · simp [read]
      · exact ih (by simp)

theorem all_blank_of_words {text : List α} (none : words blank text = []) :
    ∀ letter ∈ text, blank letter = true := by
  induction text with
  | nil => simp
  | cons letter rest ih =>
      rw [words, wordsFrom] at none
      split at none
      · rename_i skipped
        simp only [List.isEmpty_nil, if_true, List.nil_append] at none
        simpa [skipped] using ih none
      · exact absurd none (wordsFrom_ne_nil blank (by simp) rest)

/-- Nothing is left of a text if it has no words. -/
theorem strip_eq_nil_iff (text : List α) : strip blank text = [] ↔ words blank text = [] := by
  constructor
  · intro none
    rw [← words_strip, none]
    rfl
  · intro none
    have skipped := all_blank_of_words blank none
    rw [strip, List.dropWhile_eq_nil_iff.mpr skipped]
    rfl

theorem mem_wordsFrom {word text read : List α} (clean : ∀ letter ∈ read, blank letter = false)
    (inside : word ∈ wordsFrom blank read text) :
    word ≠ [] ∧ ∀ letter ∈ word, blank letter = false := by
  induction text generalizing read with
  | nil =>
      rw [wordsFrom] at inside
      split at inside
      · cases inside
      · rename_i some
        obtain rfl := List.mem_singleton.mp inside
        exact ⟨by simpa using some, clean⟩
  | cons letter rest ih =>
      rw [wordsFrom] at inside
      split at inside
      · obtain first | later := List.mem_append.mp inside
        · split at first
          · cases first
          · rename_i some
            obtain rfl := List.mem_singleton.mp first
            exact ⟨by simpa using some, clean⟩
        · exact ih (by simp) later
      · rename_i kept
        refine ih (fun other within => ?_) inside
        obtain old | new := List.mem_append.mp within
        · exact clean other old
        · obtain rfl := List.mem_singleton.mp new
          simpa using kept

/-- A word has letters, and none of them is blank. -/
theorem mem_words {word text : List α} (inside : word ∈ words blank text) :
    word ≠ [] ∧ ∀ letter ∈ word, blank letter = false :=
  mem_wordsFrom blank (by simp) inside

theorem wordsFrom_of_clean {read text : List α} (some : read ++ text ≠ [])
    (clean : ∀ letter ∈ text, blank letter = false) : wordsFrom blank read text = [read ++ text] := by
  induction text generalizing read with
  | nil =>
      rw [List.append_nil] at some ⊢
      simp [wordsFrom, some]
  | cons letter rest ih =>
      rw [List.forall_mem_cons] at clean
      rw [wordsFrom, if_neg (by simp [clean.1]), ih (by simp) clean.2, List.append_assoc,
        List.singleton_append]

theorem words_of_clean {text : List α} (some : text ≠ [])
    (clean : ∀ letter ∈ text, blank letter = false) : words blank text = [text] :=
  wordsFrom_of_clean blank (by simpa using some) clean

theorem strip_of_ends {text : List α} (starts : ∀ letter ∈ text.head?, blank letter = false)
    (ends : ∀ letter ∈ text.getLast?, blank letter = false) : strip blank text = text := by
  have front : text.dropWhile blank = text := by
    cases text with
    | nil => rfl
    | cons letter rest => simp [starts letter rfl]
  rw [strip, front]
  cases text using List.reverseRecOn with
  | nil => rfl
  | append_singleton rest letter => simp [ends letter (by simp)]

theorem rdropWhile_blanks (text : List α) {trail : List α}
    (blankTrail : ∀ letter ∈ trail, blank letter = true) :
    (text ++ trail).rdropWhile blank = text.rdropWhile blank := by
  induction trail using List.reverseRecOn with
  | nil => rw [List.append_nil]
  | append_singleton trail letter ih =>
      rw [List.forall_mem_append, List.forall_mem_singleton] at blankTrail
      rw [← List.append_assoc, List.rdropWhile_concat_pos _ _ _ blankTrail.2, ih blankTrail.1]

/-- Blanks around a text are stripped with it. -/
theorem strip_blanks {lead text trail : List α} (blankLead : ∀ letter ∈ lead, blank letter = true)
    (blankTrail : ∀ letter ∈ trail, blank letter = true) :
    strip blank (lead ++ text ++ trail) = strip blank text := by
  have front : (lead ++ text ++ trail).dropWhile blank = (text ++ trail).dropWhile blank := by
    rw [List.append_assoc, List.dropWhile_append_of_pos blankLead]
  rw [strip, front, strip]
  by_cases printed : text.dropWhile blank = []
  · have all := List.dropWhile_eq_nil_iff.mp printed
    rw [printed, List.dropWhile_eq_nil_iff.mpr (List.forall_mem_append.mpr ⟨all, blankTrail⟩)]
  · rw [List.dropWhile_append, if_neg (by simpa using printed), rdropWhile_blanks blank _ blankTrail]

/-- Words joined by a letter start and end with letters of a word. -/
theorem ends_intercalate {parting : α} {words : List (List α)} (some : ∀ word ∈ words, word ≠ []) :
    (∀ letter ∈ ([parting].intercalate words).head?, ∃ word ∈ words, letter ∈ word) ∧
      ∀ letter ∈ ([parting].intercalate words).getLast?, ∃ word ∈ words, letter ∈ word := by
  induction words with
  | nil => simp
  | cons word words ih =>
      have nonempty := some word List.mem_cons_self
      obtain ⟨-, ends⟩ := ih fun other inside => some other (List.mem_cons_of_mem _ inside)
      constructor
      · intro letter first
        refine ⟨word, List.mem_cons_self, ?_⟩
        obtain ⟨start, rest, rfl⟩ := List.exists_cons_of_ne_nil nonempty
        rw [intercalate_cons] at first
        obtain rfl : start = letter := Option.some.inj first
        exact List.mem_cons_self
      · intro letter last
        cases words with
        | nil => exact ⟨word, List.mem_cons_self, List.mem_of_mem_getLast? (by simpa using last)⟩
        | cons next words =>
            have tail : ([parting].intercalate (next :: words)).getLast? = Option.some letter := by
              have joined : [parting].intercalate (next :: words) ≠ [] := by
                rw [intercalate_cons]
                exact List.append_ne_nil_of_left_ne_nil (some next (by simp)) _
              rwa [List.intercalate_cons_cons, Option.mem_def,
                List.getLast?_append_of_ne_nil _ joined] at last
            obtain ⟨other, inside, found⟩ := ends letter tail
            exact ⟨other, List.mem_cons_of_mem _ inside, found⟩

end Words

end OpenCLDecompiler.Library.Text
