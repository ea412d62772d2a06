import OpenCLDecompiler.Expressions.Indices
import OpenCLDecompiler.Library.CSyntax
import OpenCLDecompiler.Library.Checked
import OpenCLDecompiler.Library.PyNumbers
import OpenCLDecompiler.Library.Text

/-!
# Indices that keep their values

The loop rewrites the indices of a line one after another and copies what stands between
them.  An index in an index is cut at the first bracket that closes.  Expressions that are
equal over the rationals can differ in C, where a quotient is cut off.
-/

namespace OpenCLDecompiler.Expressions.Indices

open Library

/-! ## The loop -/

theorem findFrom_of_drop {c : Char} {text middle behind : List Char} {start : Nat}
    (here : text.drop start = middle ++ c :: behind) (absent : c ∉ middle) :
    findFrom c text start = some (start + middle.length) := by
  have found : (middle ++ c :: behind).findIdx? (· = c) = some middle.length := by
    rw [List.findIdx?_append, List.findIdx?_eq_none_iff.mpr]
    · simp [List.findIdx?_cons]
    · intro letter inside
      exact decide_eq_false fun same => absent (same ▸ inside)
  rw [findFrom, here, found, Option.map_some]

theorem findFrom_of_notMem {c : Char} {text : List Char} {start : Nat}
    (absent : c ∉ text.drop start) : findFrom c text start = none := by
  rw [findFrom, List.findIdx?_eq_none_iff.mpr, Option.map_none]
  intro letter inside
  exact decide_eq_false fun same => absent (same ▸ inside)

/-- The loop stands at `rest`, and `written` is what it makes of the text before. -/
structure Reached (text : List Char) (startOpen : Nat) (startClose : Int) (newLine written rest : List Char) :
    Prop where
  opens : ∃ skipped, '[' ∉ skipped ∧ text.drop (startOpen + 1) = skipped ++ rest
  closes : text.drop (startClose + 1).toNat = rest
  notBefore : -1 < startClose
  before : ∀ middle behind, rest = middle ++ behind →
    newLine ++ (if startClose = 0 then slice text startClose (text.length - behind.length : Nat)
      else slice text (startClose + 1) (text.length - behind.length : Nat)) = written ++ middle
  finish : (if startClose ≠ 0 then newLine ++ slice text (startClose + 1) text.length else text) =
    written ++ rest

section Loop

variable {rewrite : List Char → Option (List Char)} {text : List Char} {startOpen : Nat} {startClose : Int}
  {newLine written : List Char}

theorem slice_to_end (text : List Char) {first : Int} (inside : 0 ≤ first) :
    slice text first text.length = text.drop first.toNat := by
  rw [slice, position, position, if_pos inside, if_pos (Int.natCast_nonneg _), Int.toNat_natCast,
    List.take_length]

/-- From the middle of a text to the rest. -/
theorem slice_of_drop {first : Int} (inside : 0 ≤ first) {middle behind : List Char}
    (here : text.drop first.toNat = middle ++ behind) :
    slice text first (text.length - behind.length : Nat) = middle := by
  have size := congrArg List.length here
  rw [List.length_drop, List.length_append] at size
  rw [slice, position, position, if_pos inside, if_pos (Int.natCast_nonneg _), Int.toNat_natCast,
    List.drop_take, here, List.take_append_of_le_length (by omega)]
  exact List.take_of_length_le (by omega)

theorem reached_start (c : Char) (rest : List Char) : Reached (c :: rest) 0 0 [] [c] rest where
  opens := ⟨[], List.not_mem_nil, rfl⟩
  closes := rfl
  notBefore := by decide
  before := by
    rintro middle behind rfl
    have whole : (c :: (middle ++ behind)).drop (0 : Int).toNat = c :: middle ++ behind := rfl
    rw [if_pos rfl, List.nil_append, slice_of_drop le_rfl whole]
    rfl
  finish := rfl

theorem reached_behind {openPosition : Nat} {closePosition : Int} {index behind : List Char}
    (opened : text.drop (openPosition + 1) = index ++ ']' :: behind) (noOpen : '[' ∉ index)
    (positive : 0 < closePosition) (closed : text.drop (closePosition + 1).toNat = behind)
    (newLine : List Char) : Reached text openPosition closePosition newLine newLine behind where
  opens := ⟨index ++ [']'], by simp [noOpen], by simp [opened]⟩
  closes := closed
  notBefore := by omega
  before := by
    intro middle rest split
    rw [if_neg positive.ne', slice_of_drop (by omega) (closed.trans split)]
  finish := by
    rw [if_pos positive.ne', slice_to_end text (by omega), closed]

theorem simplifyFrom_of_some {openPosition : Nat} {closePosition : Nat}
    (opened : findFrom '[' text (startOpen + 1) = some openPosition)
    (closed : findFrom ']' text (startClose + 1).toNat = some closePosition) :
    simplifyFrom rewrite text startOpen startClose newLine =
      (rewrite (slice text (openPosition + 1) closePosition)).bind fun substring =>
        simplifyFrom rewrite text openPosition closePosition (newLine ++
          (if startClose = 0 then slice text startClose (openPosition + 1)
            else slice text (startClose + 1) (openPosition + 1)) ++ substring ++ [']']) := by
  rw [simplifyFrom]
  split
  · rename_i none
    rw [opened] at none
    cases none
  · rename_i found again
    rw [opened] at again
    cases again
    simp only [closed]

theorem simplifyFrom_of_none {tail : List Char} (reached : Reached text startOpen startClose newLine written tail)
    (plain : Plain tail) :
    simplifyFrom rewrite text startOpen startClose newLine = some (written ++ tail) := by
  obtain ⟨skipped, absent, opens⟩ := reached.opens
  have nothing : findFrom '[' text (startOpen + 1) = none := by
    apply findFrom_of_notMem
    rw [opens, List.mem_append]
    exact fun inside => inside.elim absent plain.1
  rw [simplifyFrom]
  split
  · rw [reached.finish]
  · rename_i found again
    rw [nothing] at again
    cases again

theorem drop_behind {front behind : List Char} {c : Char} {start : Nat} {text : List Char}
    (here : text.drop start = front ++ c :: behind) : text.drop (start + front.length + 1) = behind := by
  have whole : front ++ c :: behind = (front ++ [c]) ++ behind := by simp
  rw [Nat.add_assoc, ← List.drop_drop, here, whole, List.drop_left' (by simp)]

/-- One round of the loop; the index goes to the first bracket that closes. -/
theorem simplifyFrom_step {outside index behind : List Char}
    (reached : Reached text startOpen startClose newLine written (outside ++ '[' :: (index ++ ']' :: behind)))
    (plain : Plain outside) (closed : ']' ∉ index) :
    ∃ openPosition closePosition,
      simplifyFrom rewrite text startOpen startClose newLine = (rewrite index).bind (fun substring =>
        simplifyFrom rewrite text openPosition closePosition
          (written ++ (outside ++ ['[']) ++ substring ++ [']'])) ∧
      ('[' ∉ index → ∀ newLine, Reached text openPosition closePosition newLine newLine behind) := by
  obtain ⟨skipped, absent, opens⟩ := reached.opens
  rw [← List.append_assoc] at opens
  have rest : text.drop (startClose + 1).toNat = (outside ++ '[' :: index) ++ ']' :: behind := by
    rw [reached.closes]
    simp
  have opened : findFrom '[' text (startOpen + 1) = some (startOpen + 1 + (skipped ++ outside).length) := by
    refine findFrom_of_drop opens ?_
    rw [List.mem_append]
    exact fun inside => inside.elim absent plain.1
  have ends : findFrom ']' text (startClose + 1).toNat =
      some ((startClose + 1).toNat + (outside ++ '[' :: index).length) :=
    findFrom_of_drop rest (by simp [plain.2, closed])
  have dropOpen := drop_behind opens
  have dropClose := drop_behind rest
  generalize openIs : startOpen + 1 + (skipped ++ outside).length = openPosition at opened dropOpen
  generalize closeIs : (startClose + 1).toNat + (outside ++ '[' :: index).length = closePosition at ends dropClose
  have sizeOpen := congrArg List.length dropOpen
  have sizeClose := congrArg List.length rest
  simp only [List.length_drop, List.length_append, List.length_cons] at sizeOpen sizeClose closeIs
  refine ⟨openPosition, closePosition, ?_, fun noOpen newLine => ?_⟩
  · have indexEnd : (closePosition : Int) = (text.length - (']' :: behind).length : Nat) := by
      rw [List.length_cons]
      omega
    have openEnd : ((openPosition : Int) + 1) = (text.length - (index ++ ']' :: behind).length : Nat) := by
      rw [List.length_append, List.length_cons]
      omega
    have substring : slice text (openPosition + 1) closePosition = index := by
      rw [indexEnd]
      exact slice_of_drop (by omega) dropOpen
    have before := reached.before (outside ++ ['[']) (index ++ ']' :: behind) (by simp)
    rw [simplifyFrom_of_some opened ends, substring, openEnd, before]
  · exact reached_behind dropOpen noOpen (by omega) (by exact_mod_cast dropClose) newLine

end Loop

/-! ## Brackets -/

namespace Balanced

variable {text : List Char}

/-- Without an index no bracket closes either. -/
theorem plain (balanced : Balanced text) (flat : '[' ∉ text) : Plain text := by
  refine ⟨flat, ?_⟩
  induction balanced with
  | nil => exact List.not_mem_nil
  | letter noOpen noClose _ ih =>
      rw [List.mem_cons, not_or] at flat ⊢
      exact ⟨Ne.symm noClose, ih flat.2⟩
  | index _ _ _ _ => exact absurd List.mem_cons_self flat

/-- A text with an index opens it before the first bracket that closes. -/
theorem exists_inner (balanced : Balanced text) (opens : '[' ∈ text) :
    ∃ inner behind, text = inner ++ ']' :: behind ∧ '[' ∈ inner ∧ ']' ∉ inner := by
  induction balanced with
  | nil => cases opens
  | @letter c rest noOpen noClose _ ih =>
      obtain ⟨inner, behind, rfl, first, second⟩ :=
        ih ((List.mem_cons.mp opens).resolve_left (Ne.symm noOpen))
      refine ⟨c :: inner, behind, rfl, List.mem_cons_of_mem _ first, ?_⟩
      rw [List.mem_cons, not_or]
      exact ⟨Ne.symm noClose, second⟩
  | @index inner rest inside _ ih _ =>
      by_cases nested : '[' ∈ inner
      · obtain ⟨first, behind, rfl, -, closes⟩ := ih nested
        exact ⟨'[' :: first, behind ++ ']' :: rest, by simp, List.mem_cons_self, by simp [closes]⟩
      · exact ⟨'[' :: inner, rest, rfl, List.mem_cons_self, by simp [(inside.plain nested).2]⟩

end Balanced

theorem render_cons (part : List Char × List Char) (parts : List (List Char × List Char)) (tail : List Char) :
    render (part :: parts) tail = part.1 ++ '[' :: (part.2 ++ ']' :: render parts tail) := by
  simp [render]

/-- What the loop makes of a line: it rewrites every index, or an index in an index raises. -/
theorem simplifyFrom_render {rewrite : List Char → Option (List Char)} {text : List Char} {startOpen : Nat}
    {startClose : Int} {newLine written tail : List Char} {parts : List (List Char × List Char)}
    (reached : Reached text startOpen startClose newLine written (render parts tail))
    (outside : ∀ part ∈ parts, Plain part.1) (plainTail : Plain tail)
    (balanced : ∀ part ∈ parts, Balanced part.2)
    (refuses : ∀ part ∈ parts, '[' ∈ part.2 → ∀ index, '[' ∈ index → rewrite index = none) :
    simplifyFrom rewrite text startOpen startClose newLine =
      (parts.mapM fun part => (rewrite part.2).map fun new => (part.1, new)).map fun news =>
        written ++ render news tail := by
  induction parts generalizing startOpen startClose newLine written with
  | nil => exact simplifyFrom_of_none reached plainTail
  | cons part rest ih =>
      rw [List.forall_mem_cons] at outside balanced refuses
      rw [render_cons] at reached
      rw [List.mapM_cons]
      by_cases nested : '[' ∈ part.2
      · obtain ⟨inner, behind, same, opens, closes⟩ := balanced.1.exists_inner nested
        rw [same, List.append_assoc, List.cons_append] at reached
        obtain ⟨openPosition, closePosition, step, -⟩ := simplifyFrom_step reached outside.1 closes
        rw [step, refuses.1 nested inner opens, refuses.1 nested part.2 nested]
        rfl
      · have plain := balanced.1.plain nested
        obtain ⟨openPosition, closePosition, step, next⟩ := simplifyFrom_step reached outside.1 plain.2
        rw [step]
        cases rewrite part.2 with
        | none => rfl
        | some new =>
            have later := ih (next nested (written ++ (part.1 ++ ['[']) ++ new ++ [']']))
              outside.2 balanced.2 refuses.2
            rw [Option.bind_some, later]
            cases rest.mapM fun part => (rewrite part.2).map fun new => (part.1, new) with
            | none => rfl
            | some news => simp [render_cons]

/-- The brackets say what the indices of a line are. -/
theorem render_injective {parts news : List (List Char × List Char)} {tail : List Char}
    (same : parts.map Prod.fst = news.map Prod.fst)
    (flat : ∀ part ∈ parts, Plain part.2) (balanced : ∀ new ∈ news, Balanced new.2)
    (equal : render parts tail = render news tail) : parts = news := by
  induction parts generalizing news with
  | nil => exact (List.map_eq_nil_iff.mp same.symm).symm
  | cons part parts ih =>
      cases news with
      | nil => cases same
      | cons new news =>
          rw [List.forall_mem_cons] at flat balanced
          obtain ⟨text, index⟩ := part
          obtain ⟨other, image⟩ := new
          obtain ⟨outside, outsides⟩ := List.cons.inj same
          cases outside
          rw [render_cons, render_cons, List.append_cancel_left_eq, List.cons.injEq] at equal
          have indices : index = image ∧ render parts tail = render news tail := by
            by_cases nested : '[' ∈ image
            · obtain ⟨inner, behind, rfl, opens, closes⟩ := balanced.1.exists_inner nested
              have shape := equal.2
              rw [List.append_assoc, List.cons_append] at shape
              obtain ⟨rfl, -⟩ := Text.first_letter_inj flat.1.2 closes shape
              exact absurd opens flat.1.1
            · exact Text.first_letter_inj flat.1.2 (balanced.1.plain nested).2 equal.2
          rw [indices.1, ih outsides flat.2 balanced.2 indices.2]

/-! ## Whole lines -/

theorem rewriteIndex_empty (simplify : List Char → Option (List Char)) (substring : List Char) :
    rewriteIndex simplify .empty substring = if substring = [] then some [] else simplify substring := by
  have none : currentConversions .empty substring = [] := rfl
  simp only [rewriteIndex, none, takeOut, List.foldl_nil]
  exact Option.map_id'

theorem replace_nil (old new : List Char) (nothing : old = [] → new = []) : Names.replace old new [] = [] := by
  rw [Names.replace]
  split
  · rename_i none
    rw [nothing none]
    rfl
  · rfl

theorem takeOut_nil (current : List (List Char × List Char)) : takeOut current [] = [] := by
  rw [takeOut]
  induction current with
  | nil => rfl
  | cons entry rest ih =>
      obtain ⟨key, dataType⟩ := entry
      rw [List.foldl_cons]
      show rest.foldl _ (Names.replace dataType [] []) = []
      rwa [replace_nil _ _ fun _ => rfl]

/-- The index that is left out stays left out. -/
theorem rewriteIndex_nil (simplify : List Char → Option (List Char)) (conversions : Conversions) :
    rewriteIndex simplify conversions [] = some [] := by
  have back : ∀ current : List (List Char × List Char), (∀ entry ∈ current, entry.2 = []) →
      putBack current [] = [] := by
    intro current empty
    rw [putBack]
    induction current with
    | nil => rfl
    | cons entry rest ih =>
        obtain ⟨key, dataType⟩ := entry
        obtain ⟨rfl, later⟩ := List.forall_mem_cons.mp empty
        have here : (if key <:+: [] then Names.replace key ([] ++ key) [] else []) = [] := by
          split
          · exact replace_nil _ _ id
          · rfl
        rw [List.foldl_cons]
        show rest.foldl _ (if key <:+: [] then Names.replace key ([] ++ key) [] else []) = []
        rw [here]
        exact ih later
  simp only [rewriteIndex, takeOut_nil, if_pos, Option.map_some]
  rw [back]
  intro entry inside
  have here := (List.mem_filter.mp inside).2
  simp only [decide_eq_true_eq, List.infix_nil, List.append_eq_nil_iff] at here
  exact here.1

section Lines

variable {language : Language} (line : Line language)

/-- Every index is rewritten, and everything else stays. -/
theorem simplify_text (simplify : List Char → Option (List Char)) (conversions : Conversions)
    (refuses : ∀ part ∈ line.parts, '[' ∈ part.2 → ∀ index, '[' ∈ index →
      rewriteIndex simplify conversions index = none) :
    simplifyOpenclStatement simplify conversions line.text =
      (line.parts.mapM fun part =>
        (rewriteIndex simplify conversions part.2).map fun new => (part.1, new)).map fun news =>
          render news line.tail := by
  obtain ⟨parts, tail, outside, plainTail, balanced, starts, valued⟩ := line
  cases parts with
  | nil =>
      have closed : findFrom '[' tail 1 = none :=
        findFrom_of_notMem fun inside => plainTail.1 (List.mem_of_mem_drop inside)
      rw [simplifyOpenclStatement, Line.text, simplifyFrom]
      split
      · rfl
      · rename_i found again
        rw [show render [] tail = tail from rfl, closed] at again
        cases again
  | cons part rest =>
      obtain ⟨text, index⟩ := part
      cases text with
      | nil => exact absurd rfl (starts _ rfl)
      | cons c text =>
          rw [List.forall_mem_cons] at outside balanced refuses
          have plain : Plain text := by
            rw [Plain, List.mem_cons, List.mem_cons, not_or, not_or] at outside
            exact ⟨outside.1.1.2, outside.1.2.2⟩
          have outsides : ∀ part ∈ (text, index) :: rest, Plain part.1 :=
            List.forall_mem_cons.mpr ⟨plain, outside.2⟩
          have run := simplifyFrom_render (reached_start c _) outsides plainTail
            (List.forall_mem_cons.mpr balanced) (List.forall_mem_cons.mpr refuses)
          rw [simplifyOpenclStatement]
          refine Eq.trans run ?_
          rw [List.mapM_cons, List.mapM_cons]
          cases rewriteIndex simplify conversions index with
          | none => rfl
          | some new =>
              cases rest.mapM fun part =>
                  (rewriteIndex simplify conversions part.2).map fun new => (part.1, new) with
              | none => rfl
              | some news => rfl

/-- Sympy with an answer that C does not read the same way; an index in an index raises. -/
def unevenSympy (language : Language) : Sympy language where
  simplify text := if '[' ∈ text then none else some (shifted text)
  returns text σ result reads := ⟨_, if_neg (language.noSubscripts text σ result reads)⟩
  equal := by
    intro text other answers σ first second here there
    split at answers
    · cases answers
    · cases answers
      exact (language.shifted_rational text σ first second here there).symm

theorem plain_shifted {text : List Char} (plain : Plain text) : Plain (shifted text) := by
  obtain ⟨noOpen, noClose⟩ := plain
  constructor <;> simp [shifted, noOpen, noClose]

/-- The uneven answers. -/
def unevenIndex (index : List Char) : Option (List Char) :=
  if index = [] then some [] else if '[' ∈ index then none else some (shifted index)

theorem rewriteIndex_uneven (language : Language) (index : List Char) :
    rewriteIndex (unevenSympy language).simplify .empty index = unevenIndex index :=
  rewriteIndex_empty _ index

theorem unevenIndex_cases {index new : List Char} (balanced : Balanced index)
    (is : unevenIndex index = some new) : Plain new ∧ (index ≠ [] → new = shifted index) := by
  rw [unevenIndex] at is
  split at is
  · rename_i empty
    cases is
    exact ⟨⟨List.not_mem_nil, List.not_mem_nil⟩, fun some => absurd empty some⟩
  · split at is
    · cases is
    · rename_i flat
      cases is
      exact ⟨plain_shifted (balanced.plain flat), fun _ => rfl⟩

theorem unevenIndex_nested {index : List Char} (nested : '[' ∈ index) : unevenIndex index = none := by
  rw [unevenIndex, if_neg (List.ne_nil_of_mem nested), if_pos nested]

theorem map_fst_of_forall₂ {related : List Char × List Char → List Char × List Char → Prop}
    {parts news : List (List Char × List Char)} (pairs : List.Forall₂ related parts news)
    (each : ∀ part new, related part new → new.1 = part.1) : news.map Prod.fst = parts.map Prod.fst := by
  induction pairs with
  | nil => rfl
  | cons here _ ih => rw [List.map_cons, List.map_cons, each _ _ here, ih]

end Lines

/-! ### An index that is rounded down -/

/-- Integers with the division of C; the other operators have no value here. -/
def valueOf (σ : List Char → Int) : C.Expr → Option Int
  | .var name => some (σ name)
  | .lit digits => (PyNumbers.readNat 10 digits).map fun number => (number : Int)
  | .neg operand => (valueOf σ operand).map fun value => -value
  | .bin op left right => do
      let left ← valueOf σ left
      let right ← valueOf σ right
      match op with
      | .add => some (left + right)
      | .sub => some (left - right)
      | .mul => some (left * right)
      | .div => if right = 0 then none else some (left.tdiv right)
      | _ => none
  | _ => none

/-- The same expressions over the rationals. -/
def rationalOf (σ : List Char → Int) : C.Expr → Option ℚ
  | .var name => some (σ name)
  | .lit digits => (PyNumbers.readNat 10 digits).map fun number => (number : ℚ)
  | .neg operand => (rationalOf σ operand).map fun value => -value
  | .bin op left right => do
      let left ← rationalOf σ left
      let right ← rationalOf σ right
      match op with
      | .add => some (left + right)
      | .sub => some (left - right)
      | .mul => some (left * right)
      | .div => if right = 0 then none else some (left / right)
      | _ => none
  | _ => none

/-- The expression of a text without brackets. -/
def plainExpr (text : List Char) : Option C.Expr :=
  if '(' ∈ text ∨ '[' ∈ text then none else C.parse text 100

theorem plainExpr_shifted (text : List Char) : plainExpr (shifted text) = none := by
  rw [plainExpr, if_pos]
  simp [shifted]

/-- Texts without brackets, as C and sympy read them. -/
def plainLanguage : Language where
  Assignment := List Char → Int
  value text σ := (plainExpr text).bind (valueOf σ)
  rational text σ := (plainExpr text).bind (rationalOf σ)
  shifted_value text σ result _ := by
    rw [plainExpr_shifted]
    exact Option.some_ne_none result |>.symm
  shifted_rational text σ result other _ reads := by
    rw [plainExpr_shifted] at reads
    cases reads
  noSubscripts text σ result reads := by
    obtain ⟨expr, parsed, -⟩ := Option.bind_eq_some_iff.mp reads
    rw [plainExpr] at parsed
    split at parsed
    · cases parsed
    · rename_i plain
      exact fun inside => plain (.inr inside)

/-- `x/4*4`. -/
def roundedIndex : List Char := ['x', '/', '4', '*', '4']

theorem rounded_value (σ : List Char → Int) :
    plainLanguage.value roundedIndex σ = some ((σ ['x']).tdiv 4 * 4) := rfl

theorem plainExpr_rounded : plainExpr roundedIndex =
    some (.bin .mul (.bin .div (.var ['x']) (.lit ['4'])) (.lit ['4'])) := rfl

theorem rounded_rational (σ : List Char → Int) {result : ℚ}
    (reads : plainLanguage.rational roundedIndex σ = some result) : result = σ ['x'] := by
  have four : PyNumbers.readNat 10 ['4'] = some 4 := rfl
  change (plainExpr roundedIndex).bind (rationalOf σ) = some result at reads
  simp [plainExpr_rounded, rationalOf, four] at reads
  exact reads.symm

/-- Sympy, as far as this index goes: it cancels the quotient, and other expressions stay. -/
def cancelling : Sympy plainLanguage where
  simplify text := if text = roundedIndex then some ['x'] else some text
  returns text _ _ _ := by
    split
    · exact ⟨_, rfl⟩
    · exact ⟨_, rfl⟩
  equal := by
    intro text other answers σ first second here there
    split at answers
    · rename_i rounded
      cases answers
      subst rounded
      cases there
      exact rounded_rational σ here
    · cases answers
      exact Option.some.inj (here.symm.trans there)

/-- `a[x/4*4] = 0;`. -/
def roundedLine : Line plainLanguage where
  parts := [(['a'], roundedIndex)]
  tail := [' ', '=', ' ', '0', ';']
  outside := by simp [Plain]
  plainTail := by simp [Plain]
  balanced := by
    rw [List.forall_mem_singleton]
    iterate 5 refine .letter (by decide) (by decide) ?_
    exact .nil
  starts := by simp
  valued := by
    rw [List.forall_mem_singleton]
    exact .inr ⟨fun _ => 0, _, rounded_value _⟩

end OpenCLDecompiler.Expressions.Indices
