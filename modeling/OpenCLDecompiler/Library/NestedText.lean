import OpenCLDecompiler.Library.Text

/-!
# Nested text

Lines and blocks in braces, indented by four blanks for each block around them.
Reading the lines from the last one to the first undoes writing them.
-/

namespace OpenCLDecompiler.Library

open Text

/-- Lines and blocks with a head, one after the other. -/
inductive NestedText where
  | done
  | line (text : List Char) (rest : NestedText)
  | block (head : List Char) (body rest : NestedText)
  deriving DecidableEq, Repr

namespace NestedText

def indentation (depth : Nat) : List Char := List.replicate (4 * depth) ' '

theorem indentation_length (depth : Nat) : (indentation depth).length = 4 * depth :=
  List.length_replicate

theorem indentation_succ (depth : Nat) :
    indentation (depth + 1) = indentation depth ++ [' ', ' ', ' ', ' '] := by
  rw [indentation, indentation, Nat.mul_succ, List.replicate_add]
  rfl

def opening : List Char := [' ', '{']

def closing : List Char := ['}']

/-! ## Lines -/

/-- The lines of a text inside as many blocks. -/
def lines : NestedText → Nat → List (List Char)
  | done, _ => []
  | line text rest, depth => (indentation depth ++ text) :: rest.lines depth
  | block head body rest, depth =>
      (indentation depth ++ (head ++ opening)) ::
        (body.lines (depth + 1) ++ (indentation depth ++ closing) :: rest.lines depth)

/--
A line in front of lines that are read.  The texts are the one that the line
belongs to and, behind it, those of the blocks around it.
-/
def readLine (outer : Nat) (text : List Char) (texts : List NestedText) :
    Option (List NestedText) :=
  if text.getLast? = some '}' then some (done :: texts)
  else if text.getLast? = some '{' then
    match texts with
    | body :: rest :: around =>
        some (block (removeSuffix opening (text.drop (4 * (outer + around.length)))) body rest ::
          around)
    | _ => none
  else
    match texts with
    | rest :: around => some (line (text.drop (4 * (outer + around.length))) rest :: around)
    | [] => none

def readLines (outer : Nat) (behind : List NestedText) :
    List (List Char) → Option (List NestedText)
  | [] => some behind
  | first :: rest => (readLines outer behind rest).bind (readLine outer first)

theorem readLines_append (outer : Nat) (first second : List (List Char))
    (behind : List NestedText) : readLines outer behind (first ++ second) =
      (readLines outer behind second).bind fun texts => readLines outer texts first := by
  induction first with
  | nil => exact (Option.bind_fun_some _).symm
  | cons line rest ih =>
      rw [List.cons_append, readLines, ih, Option.bind_assoc]
      rfl

/-- No line ends like the head or the end of a block. -/
def Plain : NestedText → Prop
  | done => True
  | line text rest => text.getLast? ≠ some '{' ∧ text.getLast? ≠ some '}' ∧ rest.Plain
  | block _ body rest => body.Plain ∧ rest.Plain

theorem getLast?_indented {depth : Nat} {text : List Char} {letter : Char} (notBlank : letter ≠ ' ')
    (other : text.getLast? ≠ some letter) :
    (indentation depth ++ text).getLast? ≠ some letter := by
  cases text with
  | nil =>
      rintro ends
      rw [List.append_nil] at ends
      exact notBlank (List.eq_of_mem_replicate (List.mem_of_getLast? ends))
  | cons first rest =>
      rw [List.getLast?_append_of_ne_nil _ (List.cons_ne_nil first rest)]
      exact other

theorem drop_indentation (depth : Nat) (text : List Char) :
    (indentation depth ++ text).drop (4 * depth) = text := by
  rw [← indentation_length depth]
  exact List.drop_left

theorem readLine_line {outer : Nat} {text : List Char} (notOpening : text.getLast? ≠ some '{')
    (notClosing : text.getLast? ≠ some '}') (rest : NestedText) (around : List NestedText) :
    readLine outer (indentation (outer + around.length) ++ text) (rest :: around) =
      some (line text rest :: around) := by
  unfold readLine
  rw [if_neg (getLast?_indented (by decide) notClosing),
    if_neg (getLast?_indented (by decide) notOpening)]
  dsimp only
  rw [drop_indentation]

theorem readLine_closing (outer depth : Nat) (texts : List NestedText) :
    readLine outer (indentation depth ++ closing) texts = some (done :: texts) :=
  if_pos (List.getLast?_append_of_ne_nil _ (List.cons_ne_nil _ _))

theorem readLine_opening (outer : Nat) (head : List Char) (body rest : NestedText)
    (around : List NestedText) :
    readLine outer (indentation (outer + around.length) ++ (head ++ opening))
      (body :: rest :: around) = some (block head body rest :: around) := by
  have opens : (indentation (outer + around.length) ++ (head ++ opening)).getLast? = some '{' := by
    rw [← List.append_assoc]
    exact List.getLast?_append_of_ne_nil _ (List.cons_ne_nil _ _)
  unfold readLine
  rw [opens, if_neg (by decide), if_pos rfl]
  dsimp only
  rw [drop_indentation, removeSuffix_append]

/-- Reading the lines of a text puts it in front of the texts around it. -/
theorem readLines_lines {text : NestedText} (plain : text.Plain) (outer : Nat)
    (around : List NestedText) : readLines outer (done :: around)
      (text.lines (outer + around.length)) = some (text :: around) := by
  induction text generalizing around with
  | done => rfl
  | line text rest ih =>
      obtain ⟨notOpening, notClosing, restPlain⟩ := plain
      rw [lines, readLines, ih restPlain, Option.bind_some, readLine_line notOpening notClosing]
  | block head body rest bodyIh restIh =>
      obtain ⟨bodyPlain, restPlain⟩ := plain
      have inside : readLines outer (done :: rest :: around)
          (body.lines (outer + around.length + 1)) = some (body :: rest :: around) :=
        bodyIh bodyPlain (rest :: around)
      rw [lines, readLines, readLines_append, readLines, restIh restPlain, Option.bind_some,
        readLine_closing, Option.bind_some, inside, Option.bind_some, readLine_opening]

/-! ## Text -/

/-- The lines with a line break behind each of them. -/
def write (text : NestedText) (depth : Nat) : List Char :=
  (text.lines depth).flatMap fun line => line ++ ['\n']

theorem write_line (text : List Char) (rest : NestedText) (depth : Nat) :
    (line text rest).write depth = indentation depth ++ (text ++ ['\n']) ++ rest.write depth := by
  simp only [write, lines, List.flatMap_cons, List.append_assoc]

theorem write_block (head : List Char) (body rest : NestedText) (depth : Nat) :
    (block head body rest).write depth = indentation depth ++ (head ++ (opening ++ ['\n'])) ++
      (body.write (depth + 1) ++ (indentation depth ++ (closing ++ ['\n']) ++ rest.write depth)) := by
  simp only [write, lines, List.flatMap_cons, List.flatMap_append, List.append_assoc]

def linesOf (text : List Char) : List (List Char) := (split ['\n'] text).dropLast

def read (outer : Nat) (text : List Char) : Option NestedText :=
  match readLines outer [done] (linesOf text) with
  | some [text] => some text
  | _ => none

/-- No text has a line break. -/
def Unbroken : NestedText → Prop
  | done => True
  | line text rest => '\n' ∉ text ∧ rest.Unbroken
  | block head body rest => '\n' ∉ head ∧ body.Unbroken ∧ rest.Unbroken

theorem not_mem_indented {depth : Nat} {text : List Char} (unbroken : '\n' ∉ text) :
    '\n' ∉ indentation depth ++ text := by
  have blank : '\n' ∉ indentation depth := by
    rintro inside
    exact absurd (List.eq_of_mem_replicate inside) (by decide)
  exact List.not_mem_append blank unbroken

theorem Unbroken.lines {text : NestedText} (unbroken : text.Unbroken) (depth : Nat) :
    ∀ line ∈ text.lines depth, '\n' ∉ line := by
  induction text generalizing depth with
  | done => exact List.forall_mem_nil _
  | line text rest ih =>
      exact List.forall_mem_cons.mpr ⟨not_mem_indented unbroken.1, ih unbroken.2 depth⟩
  | block head body rest bodyIh restIh =>
      obtain ⟨headUnbroken, bodyUnbroken, restUnbroken⟩ := unbroken
      have opens : '\n' ∉ head ++ opening := List.not_mem_append headUnbroken (by decide)
      exact List.forall_mem_cons.mpr ⟨not_mem_indented opens, List.forall_mem_append.mpr
        ⟨bodyIh bodyUnbroken (depth + 1), List.forall_mem_cons.mpr
          ⟨not_mem_indented (by decide), restIh restUnbroken depth⟩⟩⟩

/-- A break behind every line is a break between the lines and an empty one. -/
theorem flatMap_break (lines : List (List Char)) :
    (lines.flatMap fun line => line ++ ['\n']) = ['\n'].intercalate (lines ++ [[]]) := by
  induction lines with
  | nil => rfl
  | cons line rest ih =>
      rw [List.flatMap_cons, ih]
      cases rest with
      | nil => simp
      | cons next rest => simp [List.intercalate_cons_cons]

theorem linesOf_flatMap {lines : List (List Char)} (unbroken : ∀ line ∈ lines, '\n' ∉ line) :
    linesOf (lines.flatMap fun line => line ++ ['\n']) = lines := by
  have free : ∀ line ∈ lines ++ [[]], '\n' ∉ line :=
    List.forall_mem_append.mpr ⟨unbroken, List.forall_mem_singleton.mpr List.not_mem_nil⟩
  rw [linesOf, flatMap_break, split_letter
    (List.append_ne_nil_of_right_ne_nil _ (List.cons_ne_nil _ _)) free, List.dropLast_concat]

/-- Reading undoes writing. -/
theorem read_write {text : NestedText} (plain : text.Plain) (unbroken : text.Unbroken)
    (depth : Nat) : read depth (text.write depth) = some text := by
  have whole : readLines depth [done] (text.lines depth) = some [text] :=
    readLines_lines plain depth []
  rw [read, write, linesOf_flatMap (unbroken.lines depth), whole]

end NestedText

end OpenCLDecompiler.Library
