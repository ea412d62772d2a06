import Mathlib.Algebra.BigOperators.Group.List.Basic
import OpenCLDecompiler.Library.Positions
import OpenCLDecompiler.Registers.WorkItem

/-!
# Contents of several terms

A register can hold the sum or the product of terms.  `maybe_simplify` takes out terms with
opposite signs and puts the built-in functions in the place of the sums that make them up.
-/

namespace OpenCLDecompiler.Registers.Operations

open Library

/-! ## Contents -/

inductive RegisterSignType where
  | positive
  | negative
  deriving DecidableEq, Repr

/-- A value of a term is a text or, as the factor of a product, a number. -/
inductive TermValue where
  | number (value : Int)
  | text (text : String)
  deriving DecidableEq, Repr

/-- A type that names a quantity, or one of pointers, arguments and loads. -/
inductive TermType where
  | item (type : RegisterType)
  | other (name : String)
  deriving DecidableEq, Repr

structure Term where
  value : TermValue
  type : TermType
  sign : RegisterSignType
  deriving DecidableEq, Repr

/-- `OperationType`; the constructor turns a difference into a sum. -/
inductive OperationType where
  | plus
  | product
  deriving DecidableEq, Repr

/-- `_size` and `_data_type`: one for all terms, or lists that are built together. -/
inductive Extents where
  | one (size : Nat) (dataType : Option String)
  | each (extents : List Extents)

/-- `OperationRegisterContent` without its expression node. -/
structure Content where
  operation : OperationType
  terms : List Term
  extents : Extents

/-! ## Combinations -/

/-- An entry of `_SUM_SIMPLIFY_COMBINATIONS`; its sign is positive. -/
structure Combination where
  types : List RegisterType
  value : String
  type : RegisterType
  deriving DecidableEq

def globalIdText (dim : Dim) : String := "get_global_id(" ++ dim.text ++ ")"

def globalSizeText (dim : Dim) : String := "get_global_size(" ++ dim.text ++ ")"

def dims : List Dim := [.x, .y, .z]

def globalIdOfThree (dim : Dim) : Combination :=
  ⟨[.globalOffset dim, .workItemId dim, .workGroupIdLocalSize dim], globalIdText dim, .globalId dim⟩

def globalIdOfOffset (dim : Dim) : Combination :=
  ⟨[.globalOffset dim, .workGroupIdWorkItemId dim], globalIdText dim, .globalId dim⟩

def globalIdOfItem (dim : Dim) : Combination :=
  ⟨[.workItemId dim, .workGroupIdLocalSizeOffset dim], globalIdText dim, .globalId dim⟩

def globalSizeOfGroups (dim : Dim) : Combination :=
  ⟨[.numGroups dim, .workGroupIdLocalSize dim], globalSizeText dim, .globalSize dim⟩

/-- `_SUM_SIMPLIFY_COMBINATIONS`. -/
def combinations : List Combination :=
  dims.map globalIdOfThree ++ dims.map globalIdOfOffset ++ dims.map globalIdOfItem ++
    dims.map globalSizeOfGroups

/-! ## maybe_simplify -/

/-- The terms at the two places differ in their signs only. -/
def opposite (terms : List Term) (i j : Nat) : Bool :=
  match terms[i]?, terms[j]? with
  | some first, some second =>
      i < j && first.type = second.type && first.value = second.value && first.sign ≠ second.sign
  | _, _ => false

/-- `maybe_find_opposite_pos`. -/
def findOpposite (terms : List Term) : Option (Nat × Nat) :=
  (List.range terms.length).findSome? fun i => (List.range terms.length).findSome? fun j =>
    if opposite terms i j then some (i, j) else none

/-- `maybe_find_types_pos`. -/
def findTypes (types : List RegisterType) (terms : List Term) : Option (List Nat) :=
  types.mapM fun type => terms.findIdx? fun term => term.type = .item type

/-- The first combination whose types are all there; their order does not change the positions. -/
def findCombination (terms : List Term) : Option (Combination × List Nat) :=
  combinations.findSome? fun combination =>
    (findTypes combination.types terms).map fun positions => (combination, positions)

/-- `create_content_without_specified_pos`. -/
def Content.without (content : Content) (positions : List Nat) : Content where
  operation := content.operation
  terms := Positions.without positions content.terms
  extents := .each ((Positions.without positions content.terms).map fun _ => content.extents)

/-- `DEFAULT_REGISTER_SIZE`. -/
def defaultRegisterSize : Nat := 32

def Extents.append : Extents → Extents
  | .one size dataType => .one size dataType
  | .each extents => .each (extents ++ [.one defaultRegisterSize none])

/-- The term of a combination is appended. -/
def Content.combine (content : Content) (combination : Combination) : Content where
  operation := content.operation
  terms := content.terms ++ [⟨.text combination.value, .item combination.type, .positive⟩]
  extents := content.extents.append

/-- What `maybe_simplify` makes before it calls itself. -/
def simplifyStep (content : Content) : Option Content :=
  match findOpposite content.terms with
  | some (i, j) => some (content.without [i, j])
  | none => match content.operation with
    | .plus => (findCombination content.terms).map fun (combination, positions) =>
        (content.without positions).combine combination
    | .product => none

/-! ## The steps make the content shorter -/

section Steps

variable {terms : List Term}

theorem opposite_eq_true {i j : Nat} (isOpposite : opposite terms i j = true) :
    ∃ first second, Positions.At terms [i, j] [first, second] ∧ i ≠ j ∧ first.type = second.type ∧
      first.value = second.value ∧ first.sign ≠ second.sign := by
  rw [opposite] at isOpposite
  split at isOpposite
  · rename_i first second here there
    simp only [Bool.and_eq_true, decide_eq_true_eq] at isOpposite
    obtain ⟨⟨⟨before, type⟩, value⟩, sign⟩ := isOpposite
    exact ⟨first, second, .cons here (.cons there .nil), Nat.ne_of_lt before, type, value, sign⟩
  · cases isOpposite

theorem findOpposite_eq_some {i j : Nat} (found : findOpposite terms = some (i, j)) :
    opposite terms i j = true := by
  obtain ⟨first, -, inner⟩ := List.exists_of_findSome?_eq_some found
  obtain ⟨second, -, here⟩ := List.exists_of_findSome?_eq_some inner
  split at here
  · cases here
    assumption
  · cases here

theorem findTypes_eq_some {types : List RegisterType} {positions : List Nat}
    (found : findTypes types terms = some positions) :
    ∃ taken, Positions.At terms positions taken ∧ taken.map Term.type = types.map .item := by
  rw [findTypes] at found
  induction types generalizing positions with
  | nil =>
      cases found
      exact ⟨[], .nil, rfl⟩
  | cons type rest ih =>
      rw [List.mapM_cons] at found
      obtain ⟨position, here, found⟩ := Option.bind_eq_some_iff.mp found
      obtain ⟨others, there, found⟩ := Option.bind_eq_some_iff.mp found
      cases found
      obtain ⟨taken, isTaken, types⟩ := ih there
      obtain ⟨inside, isType, -⟩ := List.findIdx?_eq_some_iff_getElem.mp here
      refine ⟨terms[position] :: taken, .cons (List.getElem?_eq_getElem inside) isTaken, ?_⟩
      rw [List.map_cons, List.map_cons, types, of_decide_eq_true isType]

theorem nodup_types : ∀ combination ∈ combinations, combination.types.Nodup := by decide

theorem length_types : ∀ combination ∈ combinations, 2 ≤ combination.types.length := by decide

/-- The terms of a combination, and what is left when they are taken out. -/
structure Matched (terms : List Term) (combination : Combination) (positions : List Nat)
    (taken : List Term) : Prop where
  inside : combination ∈ combinations
  here : Positions.At terms positions taken
  types : taken.map Term.type = combination.types.map .item
  perm : (taken ++ Positions.without positions terms).Perm terms

theorem findCombination_eq_some {combination : Combination} {positions : List Nat}
    (found : findCombination terms = some (combination, positions)) :
    ∃ taken, Matched terms combination positions taken := by
  obtain ⟨other, inside, found⟩ := List.exists_of_findSome?_eq_some found
  obtain ⟨others, found, same⟩ := Option.map_eq_some_iff.mp found
  cases same
  obtain ⟨taken, here, types⟩ := findTypes_eq_some found
  have injective : Function.Injective TermType.item := fun _ _ => TermType.item.inj
  have differ : (taken.map Term.type).Nodup := types ▸ (nodup_types _ inside).map injective
  exact ⟨taken, inside, here, types, Positions.perm_without (here.nodup differ) here⟩

theorem perm_opposite {i j : Nat} (found : findOpposite terms = some (i, j)) :
    ∃ first second, first.type = second.type ∧ first.value = second.value ∧
      first.sign ≠ second.sign ∧ terms[i]? = some first ∧
      (first :: second :: Positions.without [i, j] terms).Perm terms := by
  obtain ⟨first, second, here, differ, type, value, sign⟩ :=
    opposite_eq_true (findOpposite_eq_some found)
  have nodup : [i, j].Nodup := by simp [differ]
  refine ⟨first, second, type, value, sign, ?_, Positions.perm_without nodup here⟩
  cases here
  assumption

theorem length_simplifyStep {content next : Content} (stepped : simplifyStep content = some next) :
    next.terms.length < content.terms.length := by
  rw [simplifyStep] at stepped
  split at stepped
  · rename_i i j found
    cases stepped
    obtain ⟨first, second, -, -, -, -, perm⟩ := perm_opposite found
    rw [← perm.length_eq]
    exact Nat.lt_succ_of_lt (Nat.lt_succ_self _)
  · split at stepped
    · obtain ⟨⟨combination, positions⟩, found, rfl⟩ := Option.map_eq_some_iff.mp stepped
      obtain ⟨taken, matched⟩ := findCombination_eq_some found
      have size := matched.perm.length_eq
      have types := congrArg List.length matched.types
      have several := length_types combination matched.inside
      rw [List.length_map, List.length_map] at types
      rw [List.length_append] at size
      show (Positions.without positions content.terms ++ [_]).length < _
      rw [List.length_append, List.length_singleton]
      omega
    · cases stepped

end Steps

/-! ## The recursion -/

/-- What `maybe_simplify` returns when it returns something. -/
inductive Simplified where
  | register (term : Term) (extents : Extents)
  | operation (content : Content)

/-- `_size[0]` and `_data_type[0]`; a number has no entries. -/
def Extents.head? : Extents → Option Extents
  | .one _ _ => none
  | .each extents => extents.head?

/-- `maybe_simplify`; no result is an exception, and the result `none` is Python's. -/
def maybeSimplify (content : Content) : Option (Option Simplified) :=
  match content.terms with
  | [term] => content.extents.head?.map fun extents => some (.register term extents)
  | _ => match _ : simplifyStep content with
    | none => some none
    | some next => (maybeSimplify next).map fun result => some (result.getD (.operation next))
termination_by content.terms.length
decreasing_by exact length_simplifyStep ‹simplifyStep content = some next›

end OpenCLDecompiler.Registers.Operations
