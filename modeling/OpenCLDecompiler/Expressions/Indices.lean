import Mathlib.Algebra.Order.Field.Rat
import Mathlib.Data.List.Forall2
import OpenCLDecompiler.Library.Names
import OpenCLDecompiler.Library.PyDict

/-!
# Indices of statements

`simplify_opencl_statement` goes through the brackets of a line, takes out the casts of
an index, has sympy simplify it and puts the casts back.  Sympy simplifies over the
rationals, and the index is a C expression.
-/

namespace OpenCLDecompiler.Expressions.Indices

open Library

/-! ## The operations of Python -/

/-- `text.find(c, start)`; `none` is -1. -/
def findFrom (c : Char) (text : List Char) (start : Nat) : Option Nat :=
  ((text.drop start).findIdx? (· = c)).map (start + ·)

/-- A position of a slice, counted from the end if it is negative. -/
def position (text : List Char) (index : Int) : Nat :=
  if 0 ≤ index then index.toNat else (text.length + index).toNat

/-- `text[first:last]`. -/
def slice (text : List Char) (first last : Int) : List Char :=
  (text.take (position text last)).drop (position text first)

/-! ## simplify_opencl_statement -/

/-- `type_conversion`: the casts of the expressions. -/
abbrev Conversions := PyDict (List Char) (List Char)

section Code

variable (simplify : List Char → Option (List Char)) (conversions : Conversions)

/-- `current_type_conversion`. -/
def currentConversions (substring : List Char) : List (List Char × List Char) :=
  conversions.entries.filter fun (key, dataType) => dataType ++ key <:+: substring

def takeOut (current : List (List Char × List Char)) (substring : List Char) : List Char :=
  current.foldl (fun substring (_, dataType) => Names.replace dataType [] substring) substring

def putBack (current : List (List Char × List Char)) (substring : List Char) : List Char :=
  current.foldl (fun substring (key, dataType) =>
    if key <:+: substring then Names.replace key (dataType ++ key) substring else substring) substring

/-- What an index becomes; `simplify` is `sympy.sstr(sympy.simplify(...))`, and `none` is an exception. -/
def rewriteIndex (substring : List Char) : Option (List Char) :=
  let current := currentConversions conversions substring
  let stripped := takeOut current substring
  (if stripped = [] then some [] else simplify stripped).map (putBack current)

/-- The loop from a pair of brackets on, with what stands behind it. -/
def simplifyFrom (rewrite : List Char → Option (List Char)) (text : List Char) (startOpen : Nat)
    (startClose : Int) (newLine : List Char) : Option (List Char) :=
  match _ : findFrom '[' text (startOpen + 1) with
  | none => some (if startClose ≠ 0 then newLine ++ slice text (startClose + 1) text.length else text)
  | some openPosition =>
      let closePosition : Int := match findFrom ']' text (startClose + 1).toNat with
        | some found => found
        | none => -1
      let before := if startClose = 0 then slice text startClose (openPosition + 1)
        else slice text (startClose + 1) (openPosition + 1)
      (rewrite (slice text (openPosition + 1) closePosition)).bind fun substring =>
        simplifyFrom rewrite text openPosition closePosition (newLine ++ before ++ substring ++ [']'])
termination_by text.length - startOpen
decreasing_by
  obtain ⟨index, found, rfl⟩ := Option.map_eq_some_iff.mp ‹findFrom '[' text (startOpen + 1) = _›
  have inside := (List.findIdx?_eq_some_iff_findIdx_eq.mp found).1
  rw [List.length_drop] at inside
  omega

def simplifyOpenclStatement (opencl_line : List Char) : Option (List Char) :=
  simplifyFrom (rewriteIndex simplify conversions) opencl_line 0 0 []

end Code

/-! ## Lines -/

/-- No bracket of an index. -/
def Plain (text : List Char) : Prop := '[' ∉ text ∧ ']' ∉ text

/-- A text that can be an index; it can have indices itself. -/
inductive Balanced : List Char → Prop where
  | nil : Balanced []
  | letter {c : Char} {rest : List Char} (noOpen : c ≠ '[') (noClose : c ≠ ']') (later : Balanced rest) :
      Balanced (c :: rest)
  | index {inner rest : List Char} (inside : Balanced inner) (later : Balanced rest) :
      Balanced ('[' :: inner ++ ']' :: rest)

/-- Texts with an index behind each of them, and the end of the line. -/
def render (parts : List (List Char × List Char)) (tail : List Char) : List Char :=
  parts.foldr (fun part behind => part.1 ++ '[' :: part.2 ++ ']' :: behind) tail

/-- What texts say in C, and what they say to sympy. -/
structure Reading where
  Assignment : Type
  value : List Char → Assignment → Option Int
  rational : List Char → Assignment → Option ℚ

/-- A text minus 1, with the 1 as a quotient of which C cuts off the half: `1/2*2-1+(text)`. -/
def shifted (text : List Char) : List Char :=
  ['1', '/', '2', '*', '2', '-', '1', '+', '('] ++ text ++ [')']

/-- What is used of C and of sympy's language. -/
structure Language extends Reading where
  shifted_value : ∀ text σ result, value text σ = some result → value (shifted text) σ ≠ some result
  shifted_rational : ∀ text σ result other, rational text σ = some result →
    rational (shifted text) σ = some other → other = result
  noSubscripts : ∀ text σ result, rational text σ = some result → '[' ∉ text

/-- A function that returns expressions that are equal over the rationals. -/
structure Sympy (language : Language) where
  simplify : List Char → Option (List Char)
  returns : ∀ text σ result, language.rational text σ = some result → ∃ other, simplify text = some other
  equal : ∀ text other, simplify text = some other → ∀ σ first second,
    language.rational text σ = some first → language.rational other σ = some second → first = second

/-- A line of a statement; its indices are expressions, and it does not start with one. -/
structure Line (language : Language) where
  parts : List (List Char × List Char)
  tail : List Char
  outside : ∀ part ∈ parts, Plain part.1
  plainTail : Plain tail
  balanced : ∀ part ∈ parts, Balanced part.2
  starts : ∀ part ∈ parts.head?, part.1 ≠ []
  valued : ∀ part ∈ parts, part.2 = [] ∨ ∃ σ result, language.value part.2 σ = some result

namespace Line

variable {language : Language} (line : Line language)

def text : List Char := render line.parts line.tail

def indices : List (List Char) := line.parts.map Prod.snd

/-- Everything outside the indices is the same, and the indices have the same values in C. -/
def Simplifies (sympy : Sympy language) (conversions : Conversions) : Prop :=
  ∃ parts, (∀ part ∈ parts, Balanced part.2) ∧
    simplifyOpenclStatement sympy.simplify conversions line.text = some (render parts line.tail) ∧
    List.Forall₂ (fun part new => new.1 = part.1 ∧
      ∀ σ result, language.value part.2 σ = some result → language.value new.2 σ = some result)
      line.parts parts

end Line

end OpenCLDecompiler.Expressions.Indices
