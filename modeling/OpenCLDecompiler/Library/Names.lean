import OpenCLDecompiler.Library.Text

/-!
# Names in texts

Replacing a text everywhere changes the names that are equal to it, and also those that
only contain it.  The two agree exactly if no name of the text contains the replaced one.
-/

namespace OpenCLDecompiler.Library.Names

open Text

variable {α : Type} [DecidableEq α]

/-! ## Replacing -/

/-- The occurrences of a text that is not empty; `skip` letters have been replaced already. -/
def replaceFrom (old new : List α) : Nat → List α → List α
  | _, [] => []
  | skip + 1, _ :: rest => replaceFrom old new skip rest
  | 0, letter :: rest =>
      if old.isPrefixOf (letter :: rest) then new ++ replaceFrom old new (old.length - 1) rest
      else letter :: replaceFrom old new 0 rest

/-- `text.replace(old, new)`; the empty text stands between any two letters. -/
def replace (old new text : List α) : List α :=
  if old = [] then new ++ text.flatMap (· :: new) else replaceFrom old new 0 text

section Replace

variable {old new : List α}

theorem replaceFrom_skip (skip : Nat) (text : List α) :
    replaceFrom old new skip text = replaceFrom old new 0 (text.drop skip) := by
  induction skip generalizing text with
  | zero => rfl
  | succ skip ih =>
      cases text with
      | nil => rfl
      | cons letter rest => exact ih rest

theorem replaceFrom_old (some : old ≠ []) (rest : List α) :
    replaceFrom old new 0 (old ++ rest) = new ++ replaceFrom old new 0 rest := by
  obtain ⟨first, others, rfl⟩ := List.exists_cons_of_ne_nil some
  rw [List.cons_append, replaceFrom, if_pos (by simp), replaceFrom_skip]
  simp

theorem replaceFrom_letter {letter : α} {rest : List α} (starts : ¬old <+: letter :: rest) :
    replaceFrom old new 0 (letter :: rest) = letter :: replaceFrom old new 0 rest := by
  rw [replaceFrom, if_neg (by simpa using starts)]

/-- Either the text starts with the replaced one or its first letter stays. -/
theorem replaceFrom_cases (some : old ≠ []) (letter : α) (rest : List α) :
    (∃ behind, letter :: rest = old ++ behind ∧ behind.length ≤ rest.length ∧
        replaceFrom old new 0 (letter :: rest) = new ++ replaceFrom old new 0 behind) ∨
      ¬old <+: letter :: rest ∧
        replaceFrom old new 0 (letter :: rest) = letter :: replaceFrom old new 0 rest := by
  by_cases starts : old <+: letter :: rest
  · obtain ⟨behind, same⟩ := starts
    refine .inl ⟨behind, same.symm, ?_, by rw [← same, replaceFrom_old some]⟩
    have size := congrArg List.length same
    have positive := List.length_pos_of_ne_nil some
    rw [List.length_append, List.length_cons] at size
    omega
  · exact .inr ⟨starts, replaceFrom_letter starts⟩

theorem replaceFrom_absent {text : List α} (absent : ¬old <:+: text) :
    replaceFrom old new 0 text = text := by
  induction text with
  | nil => rfl
  | cons letter rest ih =>
      rw [replaceFrom_letter fun starts => absent starts.isInfix,
        ih fun inside => absent (inside.trans (List.suffix_cons ..).isInfix)]

/-- The first text is at least as long as the second if the new name is longer, and conversely. -/
def Grows (old new first second : List α) : Prop :=
  (old.length ≤ new.length → second.length ≤ first.length) ∧
    (new.length ≤ old.length → first.length ≤ second.length)

omit [DecidableEq α] in
theorem Grows.append {first second third fourth : List α} (front : Grows old new first second)
    (back : Grows old new third fourth) : Grows old new (first ++ third) (second ++ fourth) := by
  unfold Grows at *
  simp only [List.length_append]
  omega

omit [DecidableEq α] in
theorem Grows.refl (text : List α) : Grows old new text text := ⟨fun _ => le_rfl, fun _ => le_rfl⟩

omit [DecidableEq α] in
/-- Texts that grow the same way are equal only piece by piece. -/
theorem Grows.append_inj {first second third fourth : List α} (front : Grows old new first second)
    (back : Grows old new third fourth) (same : first ++ third = second ++ fourth) :
    first = second ∧ third = fourth := by
  have size := congrArg List.length same
  simp only [List.length_append] at size
  unfold Grows at front back
  exact List.append_inj same (by omega)

theorem grows_replaceFrom (some : old ≠ []) (text : List α) :
    Grows old new (replaceFrom old new 0 text) text := by
  induction size : text.length using Nat.strong_induction_on generalizing text with
  | _ length ih =>
      cases text with
      | nil => exact .refl []
      | cons letter rest =>
          rw [List.length_cons] at size
          rcases @replaceFrom_cases _ _ _ new some letter rest with
            ⟨behind, same, shorter, replaced⟩ | ⟨-, replaced⟩
          · rw [replaced, same]
            exact .append ⟨id, id⟩ (ih _ (by omega) behind rfl)
          · rw [replaced]
            exact .append (.refl [letter]) (ih _ (by omega) rest rfl)

/-- An occurrence changes the text. -/
theorem replaceFrom_ne (some : old ≠ []) (differs : new ≠ old) {text : List α}
    (inside : old <:+: text) : replaceFrom old new 0 text ≠ text := by
  induction text with
  | nil => exact absurd (List.infix_nil.mp inside) some
  | cons letter rest ih =>
      rcases @replaceFrom_cases _ _ _ new some letter rest with
        ⟨behind, same, -, replaced⟩ | ⟨starts, replaced⟩
      · rw [replaced, same]
        exact fun equal => differs
          (Grows.append_inj ⟨id, id⟩ (grows_replaceFrom some behind) equal).1
      · rw [replaced]
        intro equal
        refine ih ((List.infix_cons_iff.mp inside).resolve_left starts) ?_
        exact (List.cons.inj equal).2

/-- No occurrence goes over a letter that the replaced text does not have. -/
theorem replaceFrom_append (some : old ≠ []) {letter : α} (absent : letter ∉ old)
    (word rest : List α) :
    replaceFrom old new 0 (word ++ letter :: rest) =
      replaceFrom old new 0 word ++ letter :: replaceFrom old new 0 rest := by
  induction size : word.length using Nat.strong_induction_on generalizing word with
  | _ length ih =>
      cases word with
      | nil =>
          refine replaceFrom_letter fun starts => ?_
          obtain ⟨first, others, rfl⟩ := List.exists_cons_of_ne_nil some
          obtain ⟨rfl, -⟩ := List.cons_prefix_cons.mp starts
          exact absent List.mem_cons_self
      | cons first word =>
          rw [List.length_cons] at size
          rcases @replaceFrom_cases _ _ _ new some first word with
            ⟨behind, same, shorter, replaced⟩ | ⟨starts, replaced⟩
          · rw [replaced, same, List.append_assoc, replaceFrom_old some,
              ih _ (by omega) behind rfl, List.append_assoc]
          · rw [replaced, List.cons_append, List.cons_append, replaceFrom_letter, ih _ (by omega) word rfl]
            intro longer
            rw [← List.cons_append] at longer
            rcases List.prefix_or_prefix_of_prefix longer (List.prefix_append ..) with
              inside | ⟨crossing, rfl⟩
            · exact starts inside
            · cases crossing with
              | nil => exact starts (by simp)
              | cons other crossing =>
                  have behind := (List.prefix_append_right_inj (first :: word)).mp longer
                  obtain ⟨rfl, -⟩ := List.cons_prefix_cons.mp behind
                  exact absent (by simp)

theorem replaceFrom_self (some : old ≠ []) (text : List α) : replaceFrom old old 0 text = text := by
  induction size : text.length using Nat.strong_induction_on generalizing text with
  | _ length ih =>
      cases text with
      | nil => rfl
      | cons letter rest =>
          rw [List.length_cons] at size
          rcases @replaceFrom_cases _ _ _ old some letter rest with
            ⟨behind, same, shorter, replaced⟩ | ⟨-, replaced⟩
          · rw [replaced, ih _ (by omega) behind rfl, same]
          · rw [replaced, ih _ (by omega) rest rfl]

end Replace

/-! ## Renaming -/

section Rename

variable (isWord : α → Bool) (mark old new : List α)

/-- The part of a name in front of the mark of its components. -/
def stem : List α → List α
  | [] => []
  | letter :: rest => if mark.isPrefixOf (letter :: rest) then [] else letter :: stem rest

theorem stem_prefix (word : List α) : stem mark word <+: word := by
  induction word with
  | nil => exact List.prefix_rfl
  | cons letter rest ih =>
      rw [stem]
      split
      · exact List.nil_prefix
      · exact List.cons_prefix_cons.mpr ⟨rfl, ih⟩

theorem stem_of_absent {mark word : List α} (absent : ¬mark <:+: word) : stem mark word = word := by
  induction word with
  | nil => rfl
  | cons letter rest ih =>
      have starts : ¬mark <+: letter :: rest := fun starts => absent starts.isInfix
      rw [stem, if_neg (by simpa using starts),
        ih fun inside => absent (inside.trans (List.suffix_cons ..).isInfix)]

/-- The component stays when the name is another one. -/
def renameWord (word : List α) : List α :=
  if stem mark word = old then new ++ word.drop old.length else word

/-- Every name of a text; `word` is what has been read of one. -/
def renameFrom : List α → List α → List α
  | word, [] => renameWord mark old new word
  | word, letter :: rest =>
      if isWord letter then renameFrom (word ++ [letter]) rest
      else renameWord mark old new word ++ letter :: renameFrom [] rest

def rename (text : List α) : List α := renameFrom isWord mark old new [] text

/-- The name of a word is the only occurrence in it. -/
def OnlyName (word : List α) : Prop :=
  ¬old <:+: if stem mark word = old then word.drop old.length else word

instance (word : List α) : Decidable (OnlyName mark old word) := by
  unfold OnlyName
  infer_instance

variable {isWord mark old new}

theorem grows_renameWord (some : old ≠ []) (word : List α) :
    Grows old new (replaceFrom old new 0 word) (renameWord mark old new word) := by
  rw [renameWord]
  split
  · rename_i named
    obtain ⟨component, same⟩ := stem_prefix mark word
    rw [named] at same
    rw [← same, replaceFrom_old some, List.drop_left]
    exact .append (.refl new) (grows_replaceFrom some component)
  · exact grows_replaceFrom some word

theorem replaceFrom_eq_renameWord_iff (some : old ≠ []) (differs : new ≠ old) (word : List α) :
    replaceFrom old new 0 word = renameWord mark old new word ↔ OnlyName mark old word := by
  rw [renameWord, OnlyName]
  split
  · rename_i named
    obtain ⟨component, same⟩ := stem_prefix mark word
    rw [named] at same
    rw [← same, replaceFrom_old some, List.drop_left, List.append_cancel_left_eq]
    exact ⟨fun equal inside => replaceFrom_ne some differs inside equal, replaceFrom_absent⟩
  · exact ⟨fun equal inside => replaceFrom_ne some differs inside equal, replaceFrom_absent⟩

theorem grows_renameFrom (some : old ≠ []) (ofWords : ∀ letter ∈ old, isWord letter = true)
    (word text : List α) :
    Grows old new (replaceFrom old new 0 (word ++ text)) (renameFrom isWord mark old new word text) := by
  induction text generalizing word with
  | nil =>
      rw [List.append_nil, renameFrom]
      exact grows_renameWord some word
  | cons letter rest ih =>
      rw [renameFrom]
      split
      · rw [List.append_cons]
        exact ih _
      · rename_i parting
        rw [replaceFrom_append some fun inside => parting (ofWords letter inside)]
        exact .append (grows_renameWord some word) (.append (.refl [letter]) (ih []))

theorem replaceFrom_eq_renameFrom_iff (some : old ≠ []) (differs : new ≠ old)
    (ofWords : ∀ letter ∈ old, isWord letter = true) (word text : List α) :
    replaceFrom old new 0 (word ++ text) = renameFrom isWord mark old new word text ↔
      ∀ name ∈ wordsFrom (fun letter => !isWord letter) word text, OnlyName mark old name := by
  have skipEmpty : ∀ word : List α, (∀ name ∈ if word.isEmpty then [] else [word],
      OnlyName mark old name) ↔ OnlyName mark old word := by
    intro word
    cases word with
    | nil => simp [OnlyName, stem, some.symm, some]
    | cons letter rest => simp
  induction text generalizing word with
  | nil =>
      rw [List.append_nil, renameFrom, replaceFrom_eq_renameWord_iff some differs, wordsFrom, skipEmpty]
  | cons letter rest ih =>
      rw [renameFrom, wordsFrom]
      cases kept : isWord letter with
      | true =>
          rw [List.append_cons]
          exact ih (word ++ [letter])
      | false =>
          have parting : letter ∉ old := fun inside => by
            rw [ofWords letter inside] at kept
            cases kept
          simp only [Bool.false_eq_true, if_false, Bool.not_false, if_true, List.forall_mem_append]
          rw [replaceFrom_append some parting, skipEmpty]
          refine Iff.trans ?_ (and_congr (replaceFrom_eq_renameWord_iff some differs word) (ih []))
          constructor
          · intro same
            obtain ⟨front, back⟩ := Grows.append_inj (grows_renameWord some word)
              (.append (.refl [letter]) (grows_renameFrom some ofWords [] rest)) same
            exact ⟨front, (List.cons.inj back).2⟩
          · rintro ⟨front, back⟩
            rw [List.nil_append] at back
            rw [front, back]

theorem renameWord_self (word : List α) : renameWord mark old old word = word := by
  rw [renameWord]
  split
  · rename_i named
    obtain ⟨component, same⟩ := stem_prefix mark word
    rw [named] at same
    rw [← same, List.drop_left]
  · rfl

theorem renameFrom_self (word text : List α) : renameFrom isWord mark old old word text = word ++ text := by
  induction text generalizing word with
  | nil => rw [renameFrom, renameWord_self, List.append_nil]
  | cons letter rest ih =>
      rw [renameFrom, ih, ih, renameWord_self]
      split
      · exact (List.append_cons ..).symm
      · rfl

/-- Replacing is renaming exactly if no name of the text has the replaced one somewhere else. -/
theorem replace_eq_rename_iff (some : old ≠ []) (ofWords : ∀ letter ∈ old, isWord letter = true)
    (text : List α) :
    replace old new text = rename isWord mark old new text ↔
      new = old ∨ ∀ name ∈ words (fun letter => !isWord letter) text, OnlyName mark old name := by
  rw [replace, if_neg some, rename]
  by_cases same : new = old
  · subst same
    exact iff_of_true (by rw [replaceFrom_self some, renameFrom_self, List.nil_append]) (.inl rfl)
  · rw [or_iff_right same]
    exact replaceFrom_eq_renameFrom_iff some same ofWords [] text

end Rename

end OpenCLDecompiler.Library.Names
