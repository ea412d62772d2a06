import Mathlib.Data.List.Infix
import OpenCLDecompiler.Library.Text
import OpenCLDecompiler.Optimizations.ConstantFolding

/-!
# Vectors from their components

`add_permute_node_from_list` folds a list of nodes into one.  Neighbouring components of
one vector become one variable, whose name says which components they are; other nodes
are put together in a permutation.
-/

namespace OpenCLDecompiler.Permutes

open ConstantFolding (Value)
open Library Library.Text

/-! ## Nodes -/

/-- `ExpressionNode`; the value of an operation, a ternary or a function of the work item is no text. -/
inductive PermuteNode (ι : Type) where
  | var (name : List Char)
  | const (value : Value)
  | other (id : ι)
  | permute (left right : PermuteNode ι)
  deriving DecidableEq

/-- The variables with the numbers of components of their types. -/
abbrev Table := List Char → Option Nat

/-- `VECTOR_COMPONENT_DELIMITER` -/
def vectorComponentDelimiter : List Char := ['_', '_', '_', 's']

variable {ι : Type}

/-- The value of a node if it is a text; `None` and numbers have no `find`. -/
def PermuteNode.text : PermuteNode ι → Option (List Char)
  | .var name => some name
  | .const (.text text) => some text
  | _ => none

/-- `get_variable_node`: the name of the variable, and its number of components. -/
def getVariableNode (table : Table) : List Char → Option (List Char × Nat)
  | [] => none
  | '*' :: name => getVariableNode table name
  | name => (table name).map fun components => (name, components)

/-- `add_variable_node`, which puts the name into the table without the star of a pointer. -/
def addVariableNode : List Char → PermuteNode ι
  | '*' :: name => .var name
  | name => .var name

/-- `int(i)` of a digit. -/
def readComponent (letter : Char) : Option Nat :=
  if letter.isDigit then some (letter.toNat - 48) else none

/-- `text.split(VECTOR_COMPONENT_DELIMITER)`, which must give two parts. -/
def splitComponents (text : List Char) : Option (List Char × List Char) :=
  match split vectorComponentDelimiter text with
  | [var, component] => some (var, component)
  | _ => none

/-- The node of components of one vector. -/
def addComponents (table : Table) (var component0 component1 : List Char) :
    Option (PermuteNode ι) := do
  let (varName, components) ← getVariableNode table var
  let first ← component0.mapM readComponent
  let second ← component1.mapM readComponent
  let listOfComponents := first ++ second
  if listOfComponents.head? = some 0 ∧
      (∀ k < listOfComponents.length, listOfComponents[k]? = some k) ∧
      listOfComponents.length = components then
    some (.var varName)
  else
    some (addVariableNode (var ++ vectorComponentDelimiter ++
      listOfComponents.flatMap (Nat.toDigits 10)))

/--
`add_permute_node`.  New variables have the delimiter in their names, and no such name is
looked up here; `none` is an exception.
-/
def addPermuteNode (table : Table) (s0 s1 : PermuteNode ι) : Option (PermuteNode ι) := do
  let text0 ← s0.text
  if vectorComponentDelimiter <:+: text0 then
    let text1 ← s1.text
    if vectorComponentDelimiter <:+: text1 then
      let (var0, component0) ← splitComponents text0
      let (var1, component1) ← splitComponents text1
      if var0 = var1 ∧ component0 ≠ [] ∧ component1 ≠ [] then
        addComponents table var0 component0 component1
      else some (.permute s0 s1)
    else some (.permute s0 s1)
  else some (.permute s0 s1)

/-- `add_permute_node_from_list` of a list that is not empty. -/
def addPermuteNodeFromList (table : Table) (first : PermuteNode ι)
    (rest : List (PermuteNode ι)) : Option (PermuteNode ι) :=
  rest.foldlM (addPermuteNode table) first

/-! ## Components -/

/-- A component of a vector, or a node that is none. -/
inductive Flat (ι : Type) where
  | component (vector : List Char) (index : Nat)
  | node (node : PermuteNode ι)
  deriving DecidableEq

/-- The components of a node in order. -/
def flatten (table : Table) : PermuteNode ι → List (Flat ι)
  | .permute left right => flatten table left ++ flatten table right
  | .var name =>
      match splitComponents name, table name with
      | some (vector, component), _ =>
          component.map fun letter => .component vector (letter.toNat - 48)
      | none, some components =>
          if 1 < components then (List.range components).map (.component name)
          else [.node (.var name)]
      | none, none => [.node (.var name)]
  | node => [.node node]

/-- The name of components of a vector. -/
def componentName (vector : List Char) (indices : List Nat) : List Char :=
  vector ++ vectorComponentDelimiter ++ indices.map Nat.digitChar

/-- The name of a variable that is a vector, whose components have one digit. -/
structure IsVector (table : Table) (vector : List Char) (components : Nat) : Prop where
  plain : ¬vectorComponentDelimiter <:+: vector
  named : vector ≠ []
  noPointer : vector.head? ≠ some '*'
  known : table vector = some components
  several : 1 < components
  digits : components ≤ 10

/-- The nodes that are put together. -/
inductive IsComponent (table : Table) : PermuteNode ι → Prop where
  | scalar (name : List Char) (plain : ¬vectorComponentDelimiter <:+: name)
      (single : ∀ components, table name = some components → components ≤ 1) :
      IsComponent table (.var name)
  | element (vector : List Char) (components : Nat) (isVector : IsVector table vector components)
      (indices : List Nat) (some : indices ≠ []) (inside : ∀ index ∈ indices, index < components) :
      IsComponent table (.var (componentName vector indices))
  | const (value : Value) (plain : ∀ text, value = .text text → ¬vectorComponentDelimiter <:+: text) :
      IsComponent table (.const value)
  | other (id : ι) : IsComponent table (.other id)
  | permute (left right : PermuteNode ι) (isLeft : IsComponent table left)
      (isRight : IsComponent table right) : IsComponent table (.permute left right)

/-! ## Names -/

theorem unbordered_delimiter : Unbordered vectorComponentDelimiter := by
  have once : 's' ∉ ['_', '_', '_'] := by decide
  exact unbordered_of_last_once once

theorem isDigit_digitChar {index : Nat} (small : index < 10) : index.digitChar.isDigit = true := by
  revert small index
  decide

theorem readComponent_digitChar {index : Nat} (small : index < 10) :
    readComponent index.digitChar = some index := by
  revert small index
  decide

theorem toDigits_of_small {index : Nat} (small : index < 10) :
    Nat.toDigits 10 index = [index.digitChar] := Nat.toDigits_of_lt_base small

theorem map_toNat_digitChar {indices : List Nat} (small : ∀ index ∈ indices, index < 10) :
    (indices.map Nat.digitChar).map (fun letter => letter.toNat - 48) = indices := by
  rw [List.map_map]
  refine (List.map_congr_left fun index member => ?_).trans (List.map_id indices)
  rw [Function.comp_apply, Nat.toNat_digitChar_of_lt_ten (small index member)]
  exact Nat.add_sub_cancel_left 48 index

/-- Digits are no part of a delimiter. -/
theorem not_infix_digits (indices : List Nat) (small : ∀ index ∈ indices, index < 10) :
    ¬vectorComponentDelimiter <:+: indices.map Nat.digitChar := by
  intro inside
  obtain ⟨index, member, same⟩ := List.mem_map.mp
    (inside.subset (show '_' ∈ vectorComponentDelimiter by decide))
  have digit := isDigit_digitChar (small index member)
  rw [same] at digit
  exact absurd digit (by decide)

theorem splitComponents_componentName {vector : List Char} (plain : ¬vectorComponentDelimiter <:+: vector)
    {indices : List Nat} (small : ∀ index ∈ indices, index < 10) :
    splitComponents (componentName vector indices) = some (vector, indices.map Nat.digitChar) := by
  have parts : split vectorComponentDelimiter (componentName vector indices) =
      [vector, indices.map Nat.digitChar] := by
    have joined : componentName vector indices =
        vectorComponentDelimiter.intercalate [vector, indices.map Nat.digitChar] := by
      simp [componentName, List.intercalate]
    rw [joined]
    refine split_intercalate unbordered_delimiter (by decide) _ (List.cons_ne_nil _ _) ?_
    intro word member
    rcases List.mem_pair.mp member with rfl | rfl
    · exact plain
    · exact not_infix_digits indices small
  rw [splitComponents, parts]

theorem splitComponents_plain {name : List Char} (plain : ¬vectorComponentDelimiter <:+: name) :
    splitComponents name = none := by
  have parts : split vectorComponentDelimiter name = [name] := by
    have joined : name = vectorComponentDelimiter.intercalate [name] := by simp
    conv_lhs => rw [joined]
    refine split_intercalate unbordered_delimiter (by decide) _ (List.cons_ne_nil _ _) ?_
    intro word member
    obtain rfl := List.mem_singleton.mp member
    exact plain
  rw [splitComponents, parts]

theorem infix_componentName (vector : List Char) (indices : List Nat) :
    vectorComponentDelimiter <:+: componentName vector indices :=
  ⟨vector, indices.map Nat.digitChar, rfl⟩

theorem mapM_readComponent {indices : List Nat} (small : ∀ index ∈ indices, index < 10) :
    (indices.map Nat.digitChar).mapM readComponent = some indices := by
  induction indices with
  | nil => rfl
  | cons index indices ih =>
      rw [List.forall_mem_cons] at small
      rw [List.map_cons, List.mapM_cons, readComponent_digitChar small.1, ih small.2]
      rfl

theorem flatMap_toDigits {indices : List Nat} (small : ∀ index ∈ indices, index < 10) :
    indices.flatMap (Nat.toDigits 10) = indices.map Nat.digitChar := by
  induction indices with
  | nil => rfl
  | cons index indices ih =>
      rw [List.forall_mem_cons] at small
      rw [List.flatMap_cons, toDigits_of_small small.1, ih small.2]
      rfl

/-! ## One step -/

section Step

variable {table : Table} {vector : List Char} {components : Nat} {indices more : List Nat}

theorem IsVector.small (isVector : IsVector table vector components)
    (inside : ∀ index ∈ indices, index < components) : ∀ index ∈ indices, index < 10 :=
  fun index member => Nat.lt_of_lt_of_le (inside index member) isVector.digits

theorem IsVector.cons (isVector : IsVector table vector components) :
    ∃ first rest, vector = first :: rest ∧ first ≠ '*' := by
  obtain ⟨first, rest, rfl⟩ := List.exists_cons_of_ne_nil isVector.named
  exact ⟨first, rest, rfl, fun star => isVector.noPointer (congrArg some star)⟩

theorem getVariableNode_of_isVector (isVector : IsVector table vector components) :
    getVariableNode table vector = some (vector, components) := by
  obtain ⟨first, rest, rfl, noStar⟩ := isVector.cons
  rw [getVariableNode.eq_3 table _ (List.cons_ne_nil _ _) fun name same => noStar (List.cons.inj same).1,
    isVector.known]
  rfl

theorem addVariableNode_of_isVector (isVector : IsVector table vector components)
    (rest : List Char) : addVariableNode (vector ++ rest) = (.var (vector ++ rest) : PermuteNode ι) := by
  obtain ⟨first, others, rfl, noStar⟩ := isVector.cons
  exact addVariableNode.eq_2 _ fun name same => noStar (List.cons.inj same).1

/-- The ascending order from 0 on of all components. -/
theorem ascending_iff (several : 1 < components) (list : List Nat) :
    (list.head? = some 0 ∧ (∀ k < list.length, list[k]? = some k) ∧ list.length = components) ↔
      list = List.range components := by
  constructor
  · rintro ⟨-, ascending, rfl⟩
    refine List.ext_getElem? fun k => ?_
    by_cases inside : k < list.length
    · rw [ascending k inside, List.getElem?_range inside]
    · rw [List.getElem?_eq_none (by omega), List.getElem?_eq_none (by simpa using inside)]
  · rintro rfl
    refine ⟨?_, fun k inside => ?_, List.length_range⟩
    · rw [List.head?_range, if_neg (by omega)]
    · rw [List.length_range] at inside
      exact List.getElem?_range inside

/-- Neighbouring components are one list of components. -/
theorem addComponents_spec (isVector : IsVector table vector components)
    (inside : ∀ index ∈ indices ++ more, index < components) :
    addComponents table vector (indices.map Nat.digitChar) (more.map Nat.digitChar) =
      some (if indices ++ more = List.range components then .var vector
        else .var (componentName vector (indices ++ more)) : PermuteNode ι) := by
  have small := isVector.small inside
  have digits0 := mapM_readComponent fun index member => small index (List.mem_append_left _ member)
  have digits1 := mapM_readComponent fun index member => small index (List.mem_append_right _ member)
  simp only [addComponents, getVariableNode_of_isVector isVector, digits0, digits1,
    Option.bind_eq_bind, Option.bind_some, ascending_iff isVector.several, flatMap_toDigits small]
  split
  · rfl
  · rw [List.append_assoc, addVariableNode_of_isVector isVector, componentName, List.append_assoc]

theorem flatten_vector (isVector : IsVector table vector components) :
    flatten table (.var vector : PermuteNode ι) = (List.range components).map (.component vector) := by
  rw [flatten, splitComponents_plain isVector.plain, isVector.known]
  exact if_pos isVector.several

theorem flatten_componentName (isVector : IsVector table vector components)
    (inside : ∀ index ∈ indices, index < components) :
    flatten table (.var (componentName vector indices) : PermuteNode ι) =
      indices.map (.component vector) := by
  have small := isVector.small inside
  rw [flatten, splitComponents_componentName isVector.plain small]
  conv_rhs => rw [← map_toNat_digitChar small, List.map_map]
  rfl

/-- Two nodes are put together as a permutation, or as components of one vector. -/
inductive PutTogether (table : Table) : PermuteNode ι → PermuteNode ι → PermuteNode ι → Prop where
  | permute (s0 s1 : PermuteNode ι) : PutTogether table s0 s1 (.permute s0 s1)
  | vector (vector : List Char) (components : Nat) (isVector : IsVector table vector components)
      (indices more : List Nat) (all : indices ++ more = List.range components) :
      PutTogether table (.var (componentName vector indices)) (.var (componentName vector more))
        (.var vector)
  | components (vector : List Char) (components : Nat) (isVector : IsVector table vector components)
      (indices more : List Nat) (some : indices ≠ [])
      (inside : ∀ index ∈ indices ++ more, index < components) :
      PutTogether table (.var (componentName vector indices)) (.var (componentName vector more))
        (.var (componentName vector (indices ++ more)))

theorem flatten_of_putTogether {s0 s1 node : PermuteNode ι} (together : PutTogether table s0 s1 node) :
    flatten table node = flatten table s0 ++ flatten table s1 := by
  cases together with
  | permute => rfl
  | vector vector components isVector indices more all =>
      have inside : ∀ index ∈ indices ++ more, index < components := fun index member => by
        rwa [all, List.mem_range] at member
      rw [List.forall_mem_append] at inside
      rw [flatten_vector isVector, flatten_componentName isVector inside.1,
        flatten_componentName isVector inside.2, ← all, List.map_append]
  | components vector components isVector indices more some inside =>
      rw [flatten_componentName isVector inside]
      rw [List.forall_mem_append] at inside
      rw [flatten_componentName isVector inside.1, flatten_componentName isVector inside.2,
        List.map_append]

/-- What a node is for the next step: no text, a text without components, or components. -/
inductive View (table : Table) : PermuteNode ι → Prop where
  | noText {node : PermuteNode ι} (none : node.text = none) : View table node
  | plain {node : PermuteNode ι} (text : List Char) (is : node.text = some text)
      (plain : ¬vectorComponentDelimiter <:+: text) : View table node
  | element (vector : List Char) (components : Nat) (isVector : IsVector table vector components)
      (indices : List Nat) (some : indices ≠ []) (inside : ∀ index ∈ indices, index < components) :
      View table (.var (componentName vector indices))

theorem IsComponent.view {node : PermuteNode ι} (isComponent : IsComponent table node) :
    View table node := by
  cases isComponent with
  | scalar name plain single => exact .plain name rfl plain
  | element vector components isVector indices some inside =>
      exact .element vector components isVector indices some inside
  | const value plain =>
      cases value with
      | text text => exact .plain text rfl (plain text rfl)
      | _ => exact .noText rfl
  | other id => exact .noText rfl
  | permute left right isLeft isRight => exact .noText rfl

theorem addPermuteNode_noText {s0 : PermuteNode ι} (none : s0.text = none) (s1 : PermuteNode ι) :
    addPermuteNode table s0 s1 = .none := by
  rw [addPermuteNode, none]
  rfl

theorem addPermuteNode_plain {s0 : PermuteNode ι} {text : List Char} (is : s0.text = some text)
    (plain : ¬vectorComponentDelimiter <:+: text) (s1 : PermuteNode ι) :
    addPermuteNode table s0 s1 = some (.permute s0 s1) := by
  rw [addPermuteNode, is, Option.bind_eq_bind, Option.bind_some, if_neg plain]

theorem addPermuteNode_component_noText (vector : List Char) (indices : List Nat)
    {s1 : PermuteNode ι} (none : s1.text = none) :
    addPermuteNode table (.var (componentName vector indices)) s1 = .none := by
  rw [addPermuteNode, none, PermuteNode.text, Option.bind_eq_bind, Option.bind_some,
    if_pos (infix_componentName vector indices), Option.bind_none]

theorem addPermuteNode_component_plain (vector : List Char) (indices : List Nat)
    {s1 : PermuteNode ι} {text : List Char} (is : s1.text = some text)
    (plain : ¬vectorComponentDelimiter <:+: text) :
    addPermuteNode table (.var (componentName vector indices)) s1 =
      some (.permute (.var (componentName vector indices)) s1) := by
  rw [addPermuteNode, is, PermuteNode.text, Option.bind_eq_bind, Option.bind_some,
    if_pos (infix_componentName vector indices), Option.bind_some, if_neg plain]

theorem addPermuteNode_components (isVector : IsVector table vector components)
    (some : indices ≠ []) (inside : ∀ index ∈ indices, index < components) {other : List Char}
    {otherComponents : Nat} (isOther : IsVector table other otherComponents) (someMore : more ≠ [])
    (insideMore : ∀ index ∈ more, index < otherComponents) :
    addPermuteNode table (.var (componentName vector indices))
        (.var (componentName other more) : PermuteNode ι) =
      .some (if vector = other then
        if indices ++ more = List.range components then .var vector
          else .var (componentName vector (indices ++ more))
        else .permute (.var (componentName vector indices)) (.var (componentName other more))) := by
  have parts0 := splitComponents_componentName isVector.plain (isVector.small inside)
  have parts1 := splitComponents_componentName isOther.plain (isOther.small insideMore)
  simp only [addPermuteNode, PermuteNode.text, infix_componentName, parts0, parts1,
    Option.bind_eq_bind, Option.bind_some, if_true, ne_eq, List.map_eq_nil_iff, some, someMore,
    not_false_eq_true, and_true]
  by_cases same : vector = other
  · subst same
    obtain rfl : otherComponents = components :=
      Option.some.inj (isOther.known.symm.trans isVector.known)
    rw [if_pos rfl, if_pos rfl, addComponents_spec isVector
      (List.forall_mem_append.mpr ⟨inside, insideMore⟩)]
  · rw [if_neg same, if_neg same]

theorem addPermuteNode_putTogether {s0 s1 node : PermuteNode ι} (view0 : View table s0)
    (view1 : View table s1) (step : addPermuteNode table s0 s1 = some node) :
    PutTogether table s0 s1 node := by
  cases view0 with
  | noText none => cases (addPermuteNode_noText none s1).symm.trans step
  | plain text is plain =>
      cases (addPermuteNode_plain is plain s1).symm.trans step
      exact .permute s0 s1
  | element vector components isVector indices some inside =>
      cases view1 with
      | noText none => cases (addPermuteNode_component_noText vector indices none).symm.trans step
      | plain text is plain =>
          cases (addPermuteNode_component_plain vector indices is plain).symm.trans step
          exact .permute _ s1
      | element other otherComponents isOther more someMore insideMore =>
          rw [addPermuteNode_components isVector some inside isOther someMore insideMore,
            Option.some.injEq] at step
          subst step
          split
          next same =>
            subst same
            obtain rfl : otherComponents = components :=
              Option.some.inj (isOther.known.symm.trans isVector.known)
            split
            next all => exact .vector vector otherComponents isVector indices more all
            next =>
              exact .components vector otherComponents isVector indices more some
                (List.forall_mem_append.mpr ⟨inside, insideMore⟩)
          next => exact .permute _ _

theorem View.of_putTogether {s0 s1 node : PermuteNode ι} (together : PutTogether table s0 s1 node) :
    View table node := by
  cases together with
  | permute => exact .noText rfl
  | vector vector components isVector indices more all => exact .plain vector rfl isVector.plain
  | components vector components isVector indices more some inside =>
      exact .element vector components isVector _ (List.append_ne_nil_of_left_ne_nil some _) inside

/-! ## The fold -/

theorem foldlM_noText {first : PermuteNode ι} (none : first.text = none) (rest : List (PermuteNode ι)) :
    (rest.foldlM (addPermuteNode table) first).isSome = rest.isEmpty := by
  cases rest with
  | nil => rfl
  | cons next rest =>
      rw [List.foldlM_cons, addPermuteNode_noText none]
      rfl

theorem foldlM_plain {first : PermuteNode ι} {text : List Char} (is : first.text = some text)
    (plain : ¬vectorComponentDelimiter <:+: text) (rest : List (PermuteNode ι)) :
    (rest.foldlM (addPermuteNode table) first).isSome = decide (rest.length ≤ 1) := by
  cases rest with
  | nil => rfl
  | cons next rest =>
      rw [List.foldlM_cons, addPermuteNode_plain is plain, Option.bind_eq_bind, Option.bind_some,
        foldlM_noText rfl]
      cases rest <;> simp

/-- The nodes of the list are the components of the result, in order. -/
theorem flatten_foldlM {first node : PermuteNode ι} {rest : List (PermuteNode ι)}
    (view : View table first) (views : ∀ next ∈ rest, View table next)
    (built : rest.foldlM (addPermuteNode table) first = some node) :
    flatten table node = (first :: rest).flatMap (flatten table) := by
  induction rest generalizing first with
  | nil =>
      cases built
      simp
  | cons next rest ih =>
      rw [List.foldlM_cons] at built
      obtain ⟨cur, step, built⟩ := Option.bind_eq_some_iff.mp built
      rw [List.forall_mem_cons] at views
      have together := addPermuteNode_putTogether view views.1 step
      rw [ih (View.of_putTogether together) views.2 built, List.flatMap_cons, List.flatMap_cons,
        List.flatMap_cons, flatten_of_putTogether together, List.append_assoc]

/-- Names of components of different vectors, and names of vectors, are different. -/
theorem vector_of_componentName {other : List Char} {components' : Nat}
    (isVector : IsVector table vector components) (isOther : IsVector table other components')
    (inside : ∀ index ∈ indices, index < components) (insideMore : ∀ index ∈ more, index < components')
    (same : componentName vector indices = componentName other more) : vector = other := by
  have parts := congrArg splitComponents same
  rw [splitComponents_componentName isVector.plain (isVector.small inside),
    splitComponents_componentName isOther.plain (isOther.small insideMore)] at parts
  exact (Prod.mk.inj (Option.some.inj parts)).1

/-- The node is a variable for some components of the vector. -/
def IsElement (vector : List Char) (components : Nat) (node : PermuteNode ι) : Prop :=
  ∃ indices : List Nat, (∀ index ∈ indices, index < components) ∧
    node = .var (componentName vector indices)

theorem not_componentName (isVector : IsVector table vector components) (other : List Char)
    (indices : List Nat) : vector ≠ componentName other indices := by
  rintro rfl
  exact isVector.plain (infix_componentName other indices)

/-- Only components of a vector are put together to it, or to more of its components. -/
theorem isElement_of_putTogether (isVector : IsVector table vector components)
    {s0 s1 node : PermuteNode ι} (together : PutTogether table s0 s1 node)
    (ofVector : node = .var vector ∨ IsElement vector components node) :
    IsElement vector components s0 ∧ IsElement vector components s1 := by
  have elements {other : List Char} {indices more : List Nat} (same : other = vector)
      (inside : ∀ index ∈ indices ++ more, index < components) :
      IsElement vector components (.var (componentName other indices) : PermuteNode ι) ∧
        IsElement vector components (.var (componentName other more) : PermuteNode ι) := by
    subst same
    rw [List.forall_mem_append] at inside
    exact ⟨⟨indices, inside.1, rfl⟩, ⟨more, inside.2, rfl⟩⟩
  cases together with
  | permute =>
      obtain same | ⟨indices, inside, same⟩ := ofVector <;> cases same
  | vector other components' isOther indices more all =>
      obtain same | ⟨indices, inside, same⟩ := ofVector
      · cases same
        obtain rfl := Option.some.inj (isOther.known.symm.trans isVector.known)
        exact elements rfl fun index member => by rwa [all, List.mem_range] at member
      · exact absurd (PermuteNode.var.inj same) (not_componentName isOther vector indices)
  | components other components' isOther indices more some inside =>
      obtain same | ⟨indices', inside', same⟩ := ofVector
      · exact absurd (PermuteNode.var.inj same).symm (not_componentName isVector other _)
      · obtain rfl := vector_of_componentName isOther isVector inside inside' (PermuteNode.var.inj same)
        obtain rfl := Option.some.inj (isOther.known.symm.trans isVector.known)
        exact elements rfl inside

theorem isElement_of_foldlM (isVector : IsVector table vector components)
    {first node : PermuteNode ι} {rest : List (PermuteNode ι)} (view : View table first)
    (views : ∀ next ∈ rest, View table next)
    (built : rest.foldlM (addPermuteNode table) first = some node)
    (ofVector : node = .var vector ∨ IsElement vector components node) :
    (first = .var vector ∨ IsElement vector components first) ∧
      ∀ next ∈ rest, IsElement vector components next := by
  induction rest generalizing first with
  | nil =>
      cases built
      exact ⟨ofVector, nofun⟩
  | cons next rest ih =>
      rw [List.foldlM_cons] at built
      obtain ⟨cur, step, built⟩ := Option.bind_eq_some_iff.mp built
      rw [List.forall_mem_cons] at views
      have together := addPermuteNode_putTogether view views.1 step
      obtain ⟨ofVector, others⟩ := ih (View.of_putTogether together) views.2 built
      obtain ⟨isFirst, isNext⟩ := isElement_of_putTogether isVector together ofVector
      exact ⟨.inr isFirst, List.forall_mem_cons.mpr ⟨isNext, others⟩⟩

/-- A vector is no component. -/
theorem not_isComponent_vector (isVector : IsVector table vector components) :
    ¬IsComponent table (.var vector : PermuteNode ι) := by
  intro isComponent
  cases isComponent with
  | scalar name plain single =>
      exact absurd (single components isVector.known) (Nat.not_le.mpr isVector.several)
  | element other components' isOther indices some inside =>
      exact isVector.plain (infix_componentName other indices)

/-! ## Which lists are put together -/

/-- The vector and the indices of a variable for components. -/
def componentOf : PermuteNode ι → Option (List Char × List Nat)
  | .var name => (splitComponents name).map fun (vector, component) =>
      (vector, component.map fun letter => letter.toNat - 48)
  | _ => none

/--
What may stand behind components of a vector: more of its components, until they are the
whole vector; then at most one more node, which is a text unless the vector is whole.
-/
def MayFollow (table : Table) (vector : List Char) (indices : List Nat) :
    List (PermuteNode ι) → Prop
  | [] => True
  | next :: rest =>
      match componentOf next with
      | some (other, more) =>
          if vector = other then
            if some (indices ++ more) = (table vector).map List.range then rest.length ≤ 1
            else MayFollow table vector (indices ++ more) rest
          else rest = []
      | none => next.text ≠ none ∧ rest = []

/-- One node, a text and another node, or components and what may follow them. -/
def Foldable (table : Table) (first : PermuteNode ι) (rest : List (PermuteNode ι)) : Prop :=
  match componentOf first with
  | some (vector, indices) => MayFollow table vector indices rest
  | none => rest = [] ∨ first.text ≠ none ∧ rest.length ≤ 1

theorem componentOf_noText {node : PermuteNode ι} (none : node.text = none) :
    componentOf node = .none := by
  cases node with
  | var name => cases none
  | _ => rfl

theorem componentOf_plain {node : PermuteNode ι} {text : List Char} (is : node.text = some text)
    (plain : ¬vectorComponentDelimiter <:+: text) : componentOf node = none := by
  cases node with
  | var name =>
      cases is
      rw [componentOf, splitComponents_plain plain]
      rfl
  | _ => rfl

theorem componentOf_element (isVector : IsVector table vector components)
    (inside : ∀ index ∈ indices, index < components) :
    componentOf (.var (componentName vector indices) : PermuteNode ι) = some (vector, indices) := by
  have small := isVector.small inside
  rw [componentOf, splitComponents_componentName isVector.plain small]
  exact congrArg (fun numbers => some (vector, numbers)) (map_toNat_digitChar small)

theorem foldlM_element_isSome_iff (isVector : IsVector table vector components)
    (some : indices ≠ []) (inside : ∀ index ∈ indices, index < components)
    {rest : List (PermuteNode ι)} (views : ∀ next ∈ rest, View table next) :
    (rest.foldlM (addPermuteNode table) (.var (componentName vector indices))).isSome = true ↔
      MayFollow table vector indices rest := by
  induction rest generalizing indices with
  | nil => exact iff_of_true rfl trivial
  | cons next rest ih =>
      rw [List.forall_mem_cons] at views
      rw [List.foldlM_cons, MayFollow]
      cases views.1 with
      | noText none =>
          rw [addPermuteNode_component_noText vector indices none, componentOf_noText none]
          exact iff_of_false nofun fun both => both.1 none
      | plain text is plain =>
          rw [addPermuteNode_component_plain vector indices is plain, componentOf_plain is plain,
            Option.bind_eq_bind, Option.bind_some, foldlM_noText rfl, List.isEmpty_iff, is]
          exact (and_iff_right nofun).symm
      | element other otherComponents isOther more someMore insideMore =>
          rw [addPermuteNode_components isVector some inside isOther someMore insideMore,
            componentOf_element isOther insideMore, Option.bind_eq_bind, Option.bind_some]
          dsimp only
          split
          next same =>
            subst same
            obtain rfl : otherComponents = components :=
              Option.some.inj (isOther.known.symm.trans isVector.known)
            simp only [isVector.known, Option.map_some, Option.some.injEq]
            split
            next => rw [foldlM_plain rfl isVector.plain, decide_eq_true_iff]
            next =>
              exact ih (List.append_ne_nil_of_left_ne_nil some _)
                (List.forall_mem_append.mpr ⟨inside, insideMore⟩) views.2
          next => rw [foldlM_noText rfl, List.isEmpty_iff]

theorem foldlM_isSome_iff {first : PermuteNode ι} {rest : List (PermuteNode ι)}
    (view : View table first) (views : ∀ next ∈ rest, View table next) :
    (rest.foldlM (addPermuteNode table) first).isSome = true ↔ Foldable table first rest := by
  unfold Foldable
  cases view with
  | noText none =>
      rw [componentOf_noText none, foldlM_noText none, List.isEmpty_iff]
      exact (or_iff_left fun both => both.1 none).symm
  | plain text is plain =>
      rw [componentOf_plain is plain, foldlM_plain is plain, decide_eq_true_iff, is]
      refine ⟨fun few => .inr ⟨nofun, few⟩, ?_⟩
      rintro (rfl | ⟨-, few⟩)
      · exact Nat.zero_le 1
      · exact few
  | element vector components isVector indices some inside =>
      rw [componentOf_element isVector inside]
      exact foldlM_element_isSome_iff isVector some inside views

end Step

/-! ## The result -/

/-- A node that may be put together with others. -/
structure ComponentNode (table : Table) (ι : Type) where
  node : PermuteNode ι
  isComponent : IsComponent table node

/--
There is a node, its components are the list, and it is a vector only for all components
of the vector in ascending order.
-/
def Assembles (table : Table) (first : PermuteNode ι) (rest : List (PermuteNode ι)) : Prop :=
  ∃ node, addPermuteNodeFromList table first rest = some node ∧
    flatten table node = (first :: rest).flatMap (flatten table) ∧
    ∀ vector components, IsVector table vector components → node = .var vector →
      (first :: rest).flatMap (flatten table) = (List.range components).map (.component vector) ∧
      ∀ part ∈ first :: rest, IsElement vector components part

theorem length_delimiter : ¬vectorComponentDelimiter.length ≤ 1 := by decide

/-- A variable with one letter that is no vector. -/
def scalar (letter : Char) : ComponentNode (fun _ => none) Nat where
  node := .var [letter]
  isComponent := .scalar [letter] (fun inside => absurd inside.length_le length_delimiter) nofun

end OpenCLDecompiler.Permutes
