import Mathlib.Data.List.Sort
import OpenCLDecompiler.Library.Checked
import OpenCLDecompiler.Library.PyDict

/-!
# Unrolled loops

`process_unrolled_loops` looks for an instruction that is repeated in a linear
region, lets every copy absorb what depends on it, and means to replace the
groups it has found by one `for` loop.
-/

namespace OpenCLDecompiler.UnrolledLoops

open Library

/-! ## Regions -/

structure Operand where
  isReg : Bool
  name : String
  deriving DecidableEq, Repr

/-- A node with the expression of every register that its state knows. -/
structure Node (ε : Type) where
  instruction : String
  operands : List Operand
  state : PyDict String ε
  /-- `len(node.children)`. -/
  children : Nat

/-- The nodes from `region.start` to `region.end`, or a region that starts with a region. -/
inductive LinearRegion (ε : Type) where
  | nodes (start : Node ε) (rest : List (Node ε))
  | regions (single : Bool)

inductive PyError where
  | index
  | key
  /-- The bound on the rounds of the search is used up. -/
  | bound
  deriving DecidableEq, Repr

/-- `values[place]`. -/
def item {α : Type} (values : List α) (place : Nat) : Except PyError α :=
  match values[place]? with
  | some value => .ok value
  | none => .error .index

/-- What can stand in `state[...]`. -/
inductive Key where
  | name (text : String)
  | operand (op : Operand)

/-- The keys of a `KernelState` are strings, and an operand equals none of them. -/
def getItem {ε : Type} (state : PyDict String ε) : Key → Except PyError ε
  | .name text =>
      match state.get? text with
      | some value => .ok value
      | none => .error .key
  | .operand _ => .error .key

/-- What is used of the `ExpressionManager`. -/
structure Expressions (ε : Type) where
  toString : ε → String
  replace : ε → ε → ε → ε
  acc : ε

/-- The order in which a set of numbers is listed. -/
structure SetOrder where
  list : List Nat → List Nat
  perm : ∀ numbers, (list numbers).Perm numbers

/-! ## Integers in a text -/

def digitValue (base : Nat) (c : Char) : Option Nat :=
  let value :=
    if '0' ≤ c ∧ c ≤ '9' then c.toNat - '0'.toNat
    else if 'a' ≤ c ∧ c ≤ 'z' then c.toNat - 'a'.toNat + 10
    else if 'A' ≤ c ∧ c ≤ 'Z' then c.toNat - 'A'.toNat + 10
    else base
  if value < base then some value else none

/-- Digits with single underscores between them. -/
def digitsValue (base : Nat) : Nat → List Char → Option Nat
  | total, [] => some total
  | total, '_' :: c :: rest =>
      (digitValue base c).bind fun value => digitsValue base (total * base + value) rest
  | total, c :: rest =>
      (digitValue base c).bind fun value => digitsValue base (total * base + value) rest

def unsignedValue (base : Nat) : List Char → Option Nat
  | [] => none
  | c :: rest => (digitValue base c).bind fun value => digitsValue base value rest

/-- The prefix that a base of 16 allows, also with an underscore behind it. -/
def dropHexPrefix : List Char → List Char
  | '0' :: 'x' :: '_' :: rest | '0' :: 'X' :: '_' :: rest => rest
  | '0' :: 'x' :: rest | '0' :: 'X' :: rest => rest
  | text => text

def pyInt (base : Nat) (text : List Char) : Option Int :=
  let magnitude := fun digits : List Char =>
    unsignedValue base (if base = 16 then dropHexPrefix digits else digits)
  match text with
  | '-' :: rest => (magnitude rest).map fun value => -(value : Int)
  | '+' :: rest => (magnitude rest).map Int.ofNat
  | rest => (magnitude rest).map Int.ofNat

def strip (text : List Char) : List Char :=
  ((text.dropWhile Char.isWhitespace).reverse.dropWhile Char.isWhitespace).reverse

def toInt (name : String) : Option Int :=
  let text := strip name.toList
  (pyInt 10 text).or (pyInt 16 text)

/-! ## Vertices -/

structure Vertex (ε : Type) where
  num : Nat
  node : Node ε
  child : List Nat
  used : Bool
  mergedVertices : List Nat
  mergedChild : List Nat

namespace Vertex

variable {ε : Type}

def new (num : Nat) (node : Node ε) : Vertex ε := ⟨num, node, [], false, [num], []⟩

def instruction (vertex : Vertex ε) : String := vertex.node.instruction

def srcArgs (vertex : Vertex ε) : List Operand := vertex.node.operands.tail

def addChild (idx : Nat) (vertex : Vertex ε) : Vertex ε :=
  { vertex with child := if idx ∈ vertex.child then vertex.child else vertex.child ++ [idx] }

def reset (order : SetOrder) (vertex : Vertex ε) : Vertex ε :=
  { vertex with
    used := false
    mergedVertices := [vertex.num]
    mergedChild := order.list vertex.child }

def use (vertex : Vertex ε) : Vertex ε := { vertex with used := true }

/-- The parent takes over a vertex and its children. -/
def absorb (child : Vertex ε) (vertex : Vertex ε) : Vertex ε :=
  { vertex with
    mergedVertices := vertex.mergedVertices ++ [child.num]
    mergedChild := vertex.mergedChild ++ child.mergedChild }

end Vertex

section Search

variable {ε : Type}

/-- The edge to a vertex from the last writer of one of its arguments. -/
def addEdge (edgeEnds : PyDict String Nat) (idx : Nat) (vertices : List (Vertex ε))
    (arg : Operand) : List (Vertex ε) :=
  if arg.isReg then
    match edgeEnds.get? arg.name with
    | some source =>
        -- `if fromm:` also drops the edges from the vertex 0.
        if source = 0 then vertices else vertices.modify source (Vertex.addChild idx)
    | none => vertices
  else vertices

def addVertex (built : List (Vertex ε) × PyDict String Nat) (node : Node ε) :
    List (Vertex ε) × PyDict String Nat :=
  let idx := built.1.length
  let vertices := built.1 ++ [Vertex.new idx node]
  (node.operands.tail.foldl (addEdge built.2 idx) vertices,
    match node.operands with
    | [] => built.2
    | dst :: _ => built.2.set dst.name idx)

def buildVertices (nodes : List (Node ε)) : List (Vertex ε) :=
  (nodes.foldl addVertex ([], .empty)).1

/-- How often each key occurs. -/
def countKeys {κ : Type} [DecidableEq κ] (keys : List κ) : PyDict κ Nat :=
  keys.foldl (fun counters key => counters.set key ((counters.get? key).getD 0 + 1)) .empty

/-- The keys with the largest counts first; equal ones stay in their order. -/
def byCount {κ : Type} (counters : List (κ × Nat)) : List (κ × Nat) :=
  counters.insertionSort fun first second => second.2 ≤ first.2

/-- The instructions that occur often enough. -/
def candidates (limit : Nat) (vertices : List (Vertex ε)) : List String :=
  let names := (vertices.map Vertex.instruction).filter (· ≠ "s_nop")
  (byCount ((countKeys names).entries.filter fun entry => limit ≤ entry.2)).map Prod.fst

/-- The instruction and the place of every child that a chosen vertex can take over. -/
def childKeys (vertices : List (Vertex ε)) (i : Nat) : Except PyError (List (String × Nat)) := do
  let parent ← item vertices i
  let keys ← parent.mergedChild.zipIdx.mapM fun entry => do
    let child ← item vertices entry.1
    if child.used ∨ child.instruction = "s_nop" then pure none
    else pure (some (child.instruction, entry.2))
  pure (keys.filterMap id)

/-- The child at a place that a chosen vertex has reached. -/
def childAt (vertices : List (Vertex ε)) (place i : Nat) : Except PyError (Nat × Vertex ε) := do
  let parent ← item vertices i
  let c ← item parent.mergedChild place
  let child ← item vertices c
  pure (c, child)

def takeChild (place : Nat) (vertices : List (Vertex ε)) (i : Nat) :
    Except PyError (List (Vertex ε)) := do
  let (c, child) ← childAt vertices place i
  pure ((vertices.modify c Vertex.use).modify i (Vertex.absorb child))

/-- The child that most of the chosen vertices can take over. -/
def bestKey (limit : Nat) (vertices : List (Vertex ε)) (chosen : List Nat) :
    Except PyError (Option (String × Nat)) := do
  let keys ← chosen.mapM (childKeys vertices)
  let counters := (countKeys keys.flatten).entries.filter fun entry =>
    limit ≤ entry.2 ∧ chosen.length / 2 < entry.2
  pure ((byCount counters).head?.map Prod.fst)

/-- The chosen vertices whose child at a place has the instruction. -/
def withChild (vertices : List (Vertex ε)) (chosen : List Nat) (name : String) (place : Nat) :
    Except PyError (List Nat) := do
  let kept ← chosen.mapM fun i => do
    let (_, child) ← childAt vertices place i
    pure (if child.instruction = name then some i else none)
  pure (kept.filterMap id)

/-- `while True`. -/
def grow (limit : Nat) :
    Nat → List (Vertex ε) → List Nat → Except PyError (List (Vertex ε) × List Nat)
  | 0, _, _ => .error .bound
  | bound + 1, vertices, chosen => do
      match ← bestKey limit vertices chosen with
      | none => pure (vertices, chosen)
      | some (name, place) =>
          let chosen ← withChild vertices chosen name place
          let vertices ← chosen.foldlM (takeChild place) vertices
          grow limit bound vertices chosen

/-- One round of the loop over the candidates. -/
def growFrom (order : SetOrder) (limit : Nat) (vertices : List (Vertex ε)) (name : String) :
    Except PyError (List (Vertex ε) × List Nat) :=
  let fresh := vertices.map (Vertex.reset order)
  let started := fresh.map fun vertex =>
    if vertex.instruction = name then vertex.use else vertex
  let chosen := (List.range vertices.length).filter fun i =>
    (vertices[i]?.map Vertex.instruction) = some name
  grow limit (vertices.length + 1) started chosen

def search (order : SetOrder) (limit : Nat) :
    List (Vertex ε) × List Nat → List String → Except PyError (List (Vertex ε) × List Nat)
  | found, [] => pure found
  | found, name :: rest => do
      let found ← growFrom order limit found.1 name
      if limit < found.2.length then pure found else search order limit found rest

/-- The groups of the last candidate that was tried. -/
def findGroups (order : SetOrder) (limit : Nat) (nodes : List (Node ε)) :
    Except PyError (List (Vertex ε) × List Nat) :=
  let vertices := buildVertices nodes
  search order limit (vertices, []) (candidates limit vertices)

/-- `[i, *vertices[i].merged_vertices]`. -/
def members (vertices : List (Vertex ε)) (i : Nat) : Except PyError (List (Vertex ε)) := do
  let first ← item vertices i
  (i :: first.mergedVertices).mapM (item vertices)

def argNames (vertices : List (Vertex ε)) (i : Nat) : Except PyError (List String) := do
  let group ← members vertices i
  pure ((group.flatMap Vertex.srcArgs).map Operand.name)

/-- The names of each argument through the groups. -/
def progressions (vertices : List (Vertex ε)) (chosen : List Nat) :
    Except PyError (List (List String)) := do
  let first ← item chosen 0
  let width := (← argNames vertices first).length
  let groups ← chosen.mapM (argNames vertices)
  if groups.any fun names => width < names.length then .error .index
  else pure ((List.range width).map fun place => groups.filterMap fun names => names[place]?)

/-- A name differs from the first one. -/
def varies : List String → Bool
  | [] => false
  | first :: rest => rest.any (· ≠ first)

/-- The arguments that vary, or `none` where one of them is not a number. -/
def constants (columns : List (List String)) : Option (List (List Int)) :=
  (columns.filter varies).mapM fun names => names.mapM toInt

end Search

/-! ## The rewritten region -/

/-- The entry of an `UNROLLED_LOOP` region. -/
structure UnrolledLoop where
  before : String
  first : Int
  last : Int
  diff : String
  inside : String

inductive Outcome where
  | unchanged
  | rewritten (loop : UnrolledLoop)

section Process

variable {ε : Type}

def loopBounds (groups : Nat) : List (List Int) → Except PyError (Int × Int × String)
  | [] => pure (0, groups, "i++")
  | column :: _ => do
      let first ← item column 0
      let last ← item column (column.length - 1)
      let second ← item column 1
      let diff := second - first
      pure (first, last,
        if diff < 0 then "i = i - " ++ toString (-diff) else "i = i + " ++ toString diff)

/-- The places of the first run of nodes that belong to groups. -/
def excludedRun (nodes : List (Node ε)) (excluded : List Nat) : Nat × Nat :=
  let places := List.range nodes.length
  let first := places.findIdx (· ∈ excluded)
  (first, ((places.drop first).takeWhile (· ∈ excluded)).length)

/-- The end of the function, behind the search. -/
def rewrite (expressions : Expressions ε) (start : Node ε) (nodes : List (Node ε))
    (vertices : List (Vertex ε)) (chosen : List Nat) (columns : List (List Int)) :
    Except PyError Outcome := do
  let (first, last, diff) ← loopBounds chosen.length columns
  let lastVertex ← item vertices (← item chosen (chosen.length - 1))
  let dstVertex ← item vertices (lastVertex.mergedVertices.getLast?.getD lastVertex.num)
  let dst ← item dstVertex.node.operands 0
  let groups ← chosen.mapM (members vertices)
  let (first', run) := excludedRun nodes (groups.flatten.map Vertex.num)
  let cur ← item (start :: nodes) first'
  let before ← getItem cur.state (.operand dst)
  let firstVertex ← item vertices (← item chosen 0)
  let bodyVertex ← item vertices (firstVertex.mergedVertices.getLast?.getD firstVertex.num)
  let body ← getItem bodyVertex.node.state (.operand dst)
  let inside := expressions.toString (expressions.replace body before expressions.acc)
  let behind ← item nodes (first' + run)
  let _ ← getItem behind.state (.operand dst)
  pure (.rewritten ⟨expressions.toString before, first, last, diff,
    match columns with
    | [] => inside
    | column :: _ => inside.replace (toString (column.headD 0)) "i"⟩)

def processUnrolledLoops (expressions : Expressions ε) (order : SetOrder) (limit : Nat) :
    LinearRegion ε → Except PyError Outcome
  | .regions _ => pure .unchanged
  | .nodes start rest => do
      if (start :: rest).dropLast.any fun node => node.children ≠ 1 then pure .unchanged
      else
        let (vertices, chosen) ← findGroups order limit rest
        if limit < chosen.length then
          let columns ← progressions vertices chosen
          match constants columns with
          | none => pure .unchanged
          | some columns => rewrite expressions start rest vertices chosen columns
        else pure .unchanged

end Process

/-! ## The search ends -/

section Search

variable {ε : Type}

open Checked

/-- What a round changes about a vertex. -/
structure Grew (before after : Vertex ε) : Prop where
  used : before.used = true → after.used = true
  children : before.mergedChild <+: after.mergedChild

theorem Grew.refl (vertex : Vertex ε) : Grew vertex vertex := ⟨id, List.prefix_rfl⟩

theorem Grew.trans {first second third : Vertex ε} (one : Grew first second)
    (two : Grew second third) : Grew first third :=
  ⟨two.used ∘ one.used, one.children.trans two.children⟩

theorem grew_use (vertex : Vertex ε) : Grew vertex vertex.use :=
  ⟨fun _ => rfl, List.prefix_rfl⟩

theorem grew_absorb (child vertex : Vertex ε) : Grew vertex (Vertex.absorb child vertex) :=
  ⟨id, List.prefix_append vertex.mergedChild child.mergedChild⟩

def AllGrew (before after : List (Vertex ε)) : Prop := List.Forall₂ Grew before after

theorem AllGrew.refl (vertices : List (Vertex ε)) : AllGrew vertices vertices :=
  List.forall₂_same.mpr fun vertex _ => Grew.refl vertex

theorem AllGrew.trans {first second third : List (Vertex ε)} (one : AllGrew first second)
    (two : AllGrew second third) : AllGrew first third := by
  induction one generalizing third with
  | nil => exact two
  | cons head _ ih =>
      cases two with
      | cons next tail => exact .cons (head.trans next) (ih tail)

theorem AllGrew.modify (vertices : List (Vertex ε)) (i : Nat) {f : Vertex ε → Vertex ε}
    (grows : ∀ vertex, Grew vertex (f vertex)) : AllGrew vertices (vertices.modify i f) := by
  induction vertices generalizing i with
  | nil =>
      rw [List.modify_nil]
      exact .nil
  | cons vertex rest ih =>
      cases i with
      | zero => exact .cons (grows vertex) (AllGrew.refl rest)
      | succ i => exact .cons (Grew.refl vertex) (ih i)

theorem AllGrew.getElem? {before after : List (Vertex ε)} (grew : AllGrew before after) {i : Nat}
    {vertex : Vertex ε} (here : before[i]? = some vertex) :
    ∃ later, after[i]? = some later ∧ Grew vertex later := by
  induction grew generalizing i with
  | nil => simp at here
  | cons head _ ih =>
      cases i with
      | zero =>
          cases Option.some.inj here
          exact ⟨_, rfl, head⟩
      | succ i => exact ih here

/-- The vertices that are in no group yet. -/
def unused (vertices : List (Vertex ε)) : Nat := vertices.countP fun vertex => !vertex.used

theorem unused_cons (vertex : Vertex ε) (rest : List (Vertex ε)) :
    unused (vertex :: rest) = unused rest + if vertex.used then 0 else 1 := by
  rw [unused, unused, List.countP_cons]
  cases vertex.used <;> rfl

theorem AllGrew.unused_le {before after : List (Vertex ε)} (grew : AllGrew before after) :
    unused after ≤ unused before := by
  induction grew with
  | nil => exact Nat.le_refl _
  | @cons first second _ _ head _ ih =>
      rw [unused_cons, unused_cons]
      cases was : first.used with
      | false => split <;> simp <;> omega
      | true =>
          rw [head.used was]
          exact ih

theorem AllGrew.unused_lt {before after : List (Vertex ε)} (grew : AllGrew before after) {i : Nat}
    {vertex later : Vertex ε} (here : before[i]? = some vertex) (free : vertex.used = false)
    (there : after[i]? = some later) (taken : later.used = true) :
    unused after < unused before := by
  induction grew generalizing i with
  | nil => simp at here
  | @cons first second _ _ head tail ih =>
      rw [unused_cons, unused_cons]
      cases i with
      | zero =>
          cases Option.some.inj here
          cases Option.some.inj there
          rw [free, taken]
          exact Nat.lt_succ_of_le (AllGrew.unused_le tail)
      | succ i =>
          have rest := ih here there
          cases was : first.used with
          | false => split <;> simp <;> omega
          | true =>
              rw [head.used was]
              exact rest

/-! ### One round -/

theorem item_ne_bound {α : Type} (values : List α) (place : Nat) :
    item values place ≠ .error .bound := by
  unfold item
  cases values[place]? with
  | none => rintro ⟨⟩
  | some value => rintro ⟨⟩

theorem item_eq_ok_iff {α : Type} {values : List α} {place : Nat} {value : α} :
    item values place = .ok value ↔ values[place]? = some value := by
  unfold item
  cases values[place]? with
  | none => simp
  | some value => simp

theorem childAt_ne_bound (vertices : List (Vertex ε)) (place i : Nat) :
    childAt vertices place i ≠ .error .bound := by
  unfold childAt
  apply ne_error_bind (item_ne_bound _ _)
  rintro parent -
  apply ne_error_bind (item_ne_bound _ _)
  rintro c -
  apply ne_error_bind (item_ne_bound _ _)
  rintro child -
  exact ne_error_pure _ _

theorem childAt_eq_ok_iff {vertices : List (Vertex ε)} {place i : Nat} {found : Nat × Vertex ε} :
    childAt vertices place i = .ok found ↔
      ∃ parent, vertices[i]? = some parent ∧ parent.mergedChild[place]? = some found.1 ∧
        vertices[found.1]? = some found.2 := by
  obtain ⟨c, child⟩ := found
  unfold childAt
  simp only [bind_eq_ok_iff, item_eq_ok_iff, pure_eq_ok_iff, Prod.mk.injEq]
  constructor
  · rintro ⟨parent, here, _, child, _, there, rfl, rfl⟩
    exact ⟨parent, here, child, there⟩
  · rintro ⟨parent, here, link, there⟩
    exact ⟨parent, here, c, link, child, there, rfl, rfl⟩

theorem takeChild_ne_bound (place : Nat) (vertices : List (Vertex ε)) (i : Nat) :
    takeChild place vertices i ≠ .error .bound := by
  unfold takeChild
  apply ne_error_bind (childAt_ne_bound _ _ _)
  rintro found -
  exact ne_error_pure _ _

theorem takeChild_spec {place i : Nat} {vertices after : List (Vertex ε)}
    (runs : takeChild place vertices i = .ok after) :
    AllGrew vertices after ∧
      ∀ c child, childAt vertices place i = .ok (c, child) →
        ∃ later, after[c]? = some later ∧ later.used = true := by
  unfold takeChild at runs
  obtain ⟨⟨c, child⟩, found, done⟩ := bind_eq_ok_iff.mp runs
  cases pure_eq_ok_iff.mp done
  have used := AllGrew.modify vertices c grew_use
  have absorbed := AllGrew.modify (vertices.modify c Vertex.use) i (grew_absorb child)
  refine ⟨used.trans absorbed, ?_⟩
  rintro c' child' found'
  rw [found] at found'
  cases found'
  obtain ⟨parent, -, -, here⟩ := childAt_eq_ok_iff.mp found
  have marked : (vertices.modify c Vertex.use)[c]? = some child.use := by
    rw [List.getElem?_modify, here]
    simp
  obtain ⟨later, there, grew⟩ := absorbed.getElem? marked
  exact ⟨later, there, grew.used rfl⟩

/-- Where a vertex finds its child does not change while others take theirs. -/
theorem AllGrew.childAt {vertices after : List (Vertex ε)} (grew : AllGrew vertices after)
    {place i c : Nat} {child : Vertex ε} (found : childAt vertices place i = .ok (c, child)) :
    ∃ later, childAt after place i = .ok (c, later) := by
  obtain ⟨parent, here, link, there⟩ := childAt_eq_ok_iff.mp found
  obtain ⟨parent', here', grown⟩ := grew.getElem? here
  obtain ⟨later, there', -⟩ := grew.getElem? there
  obtain ⟨more, extended⟩ := grown.children
  refine ⟨later, childAt_eq_ok_iff.mpr ⟨parent', here', ?_, there'⟩⟩
  rw [← extended]
  exact List.getElem?_append_left (List.getElem?_eq_some_iff.mp link).1 ▸ link

theorem foldlM_takeChild_spec {place i c : Nat} {chosen : List Nat} {child : Vertex ε}
    {vertices after : List (Vertex ε)} (mem : i ∈ chosen)
    (found : childAt vertices place i = .ok (c, child))
    (runs : chosen.foldlM (takeChild place) vertices = .ok after) :
    AllGrew vertices after ∧ ∃ later, after[c]? = some later ∧ later.used = true := by
  induction chosen generalizing vertices child with
  | nil => cases mem
  | cons first rest ih =>
      rw [List.foldlM_cons] at runs
      obtain ⟨middle, takes, others⟩ := bind_eq_ok_iff.mp runs
      obtain ⟨grew, taken⟩ := takeChild_spec takes
      have remaining : AllGrew middle after :=
        foldlM_invariant (AllGrew middle)
          (fun _ _ _ holds step => holds.trans (takeChild_spec step).1) (AllGrew.refl middle) others
      refine ⟨grew.trans remaining, ?_⟩
      rcases List.mem_cons.mp mem with rfl | later
      · obtain ⟨marked, here, used⟩ := taken c child found
        obtain ⟨last, there, kept⟩ := remaining.getElem? here
        exact ⟨last, there, kept.used used⟩
      · obtain ⟨child', found'⟩ := grew.childAt found
        exact (ih later found' others).2

theorem mem_of_mem_keys_foldl {κ : Type} [DecidableEq κ] (keys : List κ) (start : PyDict κ Nat)
    {key : κ}
    (mem : key ∈ (keys.foldl (fun counters key =>
      counters.set key ((counters.get? key).getD 0 + 1)) start).keys) :
    key ∈ start.keys ∨ key ∈ keys := by
  induction keys generalizing start with
  | nil => exact .inl mem
  | cons first rest ih =>
      rcases ih _ mem with old | new
      · rcases (PyDict.mem_keys_set _ _ _ _).mp old with now | before
        · exact .inr (now ▸ List.mem_cons_self)
        · exact .inl before
      · exact .inr (List.mem_cons_of_mem _ new)

theorem mem_of_mem_countKeys {κ : Type} [DecidableEq κ] (keys : List κ) {entry : κ × Nat}
    (mem : entry ∈ (countKeys keys).entries) : entry.1 ∈ keys := by
  rcases mem_of_mem_keys_foldl keys .empty (List.mem_map_of_mem mem) with none | here
  · cases none
  · exact here

theorem childKeys_ne_bound (vertices : List (Vertex ε)) (i : Nat) :
    childKeys vertices i ≠ .error .bound := by
  unfold childKeys
  apply ne_error_bind (item_ne_bound _ _)
  rintro parent -
  apply ne_error_bind
  · apply ne_error_mapM
    intro entry
    apply ne_error_bind (item_ne_bound _ _)
    rintro child -
    split <;> exact ne_error_pure _ _
  · rintro keys -
    exact ne_error_pure _ _

theorem bestKey_ne_bound (limit : Nat) (vertices : List (Vertex ε)) (chosen : List Nat) :
    bestKey limit vertices chosen ≠ .error .bound := by
  unfold bestKey
  apply ne_error_bind (ne_error_mapM chosen (childKeys_ne_bound vertices))
  rintro keys -
  exact ne_error_pure _ _

theorem withChild_ne_bound (vertices : List (Vertex ε)) (chosen : List Nat) (name : String)
    (place : Nat) : withChild vertices chosen name place ≠ .error .bound := by
  unfold withChild
  apply ne_error_bind
  · apply ne_error_mapM
    intro i
    apply ne_error_bind (childAt_ne_bound _ _ _)
    rintro found -
    exact ne_error_pure _ _
  · rintro kept -
    exact ne_error_pure _ _

/-- A counted key is the place of a child that is in no group. -/
theorem childKeys_spec {vertices : List (Vertex ε)} {i : Nat} {keys : List (String × Nat)}
    (runs : childKeys vertices i = .ok keys) {name : String} {place : Nat}
    (mem : (name, place) ∈ keys) :
    ∃ c child, childAt vertices place i = .ok (c, child) ∧ child.used = false ∧
      child.instruction = name := by
  unfold childKeys at runs
  obtain ⟨parent, here, rest⟩ := bind_eq_ok_iff.mp runs
  obtain ⟨found, lists, done⟩ := bind_eq_ok_iff.mp rest
  rw [← pure_eq_ok_iff.mp done] at mem
  obtain ⟨key, inside, is⟩ := List.mem_filterMap.mp mem
  obtain ⟨entry, inList, decides⟩ := mapM_source lists inside
  obtain ⟨child, there, decided⟩ := bind_eq_ok_iff.mp decides
  have link := List.mem_zipIdx_iff_getElem?.mp inList
  split at decided
  · cases pure_eq_ok_iff.mp decided
    cases is
  · rename_i free
    cases pure_eq_ok_iff.mp decided
    cases is
    refine ⟨entry.1, child, ?_, by simpa using fun used => free (.inl used), rfl⟩
    exact childAt_eq_ok_iff.mpr
      ⟨parent, item_eq_ok_iff.mp here, link, item_eq_ok_iff.mp there⟩

theorem bestKey_spec {limit : Nat} {vertices : List (Vertex ε)} {chosen : List Nat}
    {name : String} {place : Nat} (runs : bestKey limit vertices chosen = .ok (some (name, place))) :
    ∃ i ∈ chosen, ∃ c child, childAt vertices place i = .ok (c, child) ∧ child.used = false ∧
      child.instruction = name := by
  unfold bestKey at runs
  obtain ⟨keys, counted, done⟩ := bind_eq_ok_iff.mp runs
  have best := pure_eq_ok_iff.mp done
  obtain ⟨entry, first, is⟩ := Option.map_eq_some_iff.mp best
  have sorted := List.mem_of_mem_head? first
  have entries := (List.mem_insertionSort _).mp sorted
  have key := mem_of_mem_countKeys _ (List.mem_filter.mp entries).1
  rw [is] at key
  obtain ⟨own, inKeys, mem⟩ := List.mem_flatten.mp key
  obtain ⟨i, isChosen, runs⟩ := mapM_source counted inKeys
  exact ⟨i, isChosen, childKeys_spec runs mem⟩

theorem mem_withChild {vertices : List (Vertex ε)} {chosen kept : List Nat} {name : String}
    {place i c : Nat} {child : Vertex ε} (runs : withChild vertices chosen name place = .ok kept)
    (mem : i ∈ chosen) (found : childAt vertices place i = .ok (c, child))
    (named : child.instruction = name) : i ∈ kept := by
  unfold withChild at runs
  obtain ⟨marks, marking, done⟩ := bind_eq_ok_iff.mp runs
  rw [← pure_eq_ok_iff.mp done]
  obtain ⟨mark, inside, is⟩ := mapM_image marking mem
  obtain ⟨found', again, decided⟩ := bind_eq_ok_iff.mp is
  rw [found] at again
  cases again
  have marked := pure_eq_ok_iff.mp decided
  rw [if_pos named] at marked
  exact List.mem_filterMap.mpr ⟨mark, inside, marked.symm⟩

/-- Every round puts another vertex into a group. -/
theorem grow_ne_bound (limit bound : Nat) (vertices : List (Vertex ε)) (chosen : List Nat)
    (enough : unused vertices < bound) : grow limit bound vertices chosen ≠ .error .bound := by
  induction bound generalizing vertices chosen with
  | zero => omega
  | succ bound ih =>
      unfold grow
      apply ne_error_bind (bestKey_ne_bound _ _ _)
      rintro best counted
      cases best with
      | none => exact ne_error_pure _ _
      | some key =>
          obtain ⟨name, place⟩ := key
          obtain ⟨i, isChosen, c, child, found, free, named⟩ := bestKey_spec counted
          apply ne_error_bind (withChild_ne_bound _ _ _ _)
          rintro kept keeps
          have isKept := mem_withChild keeps isChosen found named
          apply ne_error_bind (ne_error_foldlM kept vertices (takeChild_ne_bound place))
          rintro after takes
          obtain ⟨grew, later, there, used⟩ := foldlM_takeChild_spec isKept found takes
          obtain ⟨-, -, -, here⟩ := childAt_eq_ok_iff.mp found
          have fewer := grew.unused_lt here free there used
          apply ih
          omega

theorem growFrom_ne_bound (order : SetOrder) (limit : Nat) (vertices : List (Vertex ε))
    (name : String) : growFrom order limit vertices name ≠ .error .bound := by
  apply grow_ne_bound
  apply Nat.lt_succ_of_le
  calc unused _ ≤ _ := List.countP_le_length
    _ = vertices.length := by rw [List.length_map, List.length_map]

theorem findGroups_ne_bound (order : SetOrder) (limit : Nat) (nodes : List (Node ε)) :
    findGroups order limit nodes ≠ .error .bound := by
  have searches (names : List String) (found : List (Vertex ε) × List Nat) :
      search order limit found names ≠ .error .bound := by
    induction names generalizing found with
    | nil => exact ne_error_pure _ _
    | cons name rest ih =>
        unfold search
        apply ne_error_bind (growFrom_ne_bound _ _ _ _)
        rintro next -
        split
        · exact ne_error_pure _ _
        · exact ih next
  exact searches _ _

theorem argNames_ne_bound (vertices : List (Vertex ε)) (i : Nat) :
    argNames vertices i ≠ .error .bound := by
  unfold argNames
  apply ne_error_bind
  · apply ne_error_bind (item_ne_bound _ _)
    rintro first -
    exact ne_error_mapM _ (item_ne_bound vertices)
  · rintro group -
    exact ne_error_pure _ _

theorem progressions_ne_bound (vertices : List (Vertex ε)) (chosen : List Nat) :
    progressions vertices chosen ≠ .error .bound := by
  unfold progressions
  apply ne_error_bind (item_ne_bound _ _)
  rintro first -
  apply ne_error_bind (argNames_ne_bound _ _)
  rintro names -
  apply ne_error_bind (ne_error_mapM chosen (argNames_ne_bound vertices))
  rintro groups -
  split
  · rintro ⟨⟩
  · exact ne_error_pure _ _

end Search

/-! ## What is left of a region -/

section Process

variable {ε : Type} (expressions : Expressions ε) (order : SetOrder) (limit : Nat)

open Checked

/-- Whatever the search has found, `state[dst]` is looked up with the operand itself. -/
theorem rewrite_ne_ok (start : Node ε) (nodes : List (Node ε)) (vertices : List (Vertex ε))
    (chosen : List Nat) (columns : List (List Int)) (outcome : Outcome) :
    rewrite expressions start nodes vertices chosen columns ≠ .ok outcome := by
  intro runs
  unfold rewrite at runs
  obtain ⟨bounds, -, runs⟩ := bind_eq_ok_iff.mp runs
  obtain ⟨last, -, runs⟩ := bind_eq_ok_iff.mp runs
  obtain ⟨lastVertex, -, runs⟩ := bind_eq_ok_iff.mp runs
  obtain ⟨dstVertex, -, runs⟩ := bind_eq_ok_iff.mp runs
  obtain ⟨dst, -, runs⟩ := bind_eq_ok_iff.mp runs
  obtain ⟨groups, -, runs⟩ := bind_eq_ok_iff.mp runs
  obtain ⟨cur, -, runs⟩ := bind_eq_ok_iff.mp runs
  obtain ⟨before, looked, -⟩ := bind_eq_ok_iff.mp runs
  cases looked

/-- The region is one that the function does not try to rewrite. -/
def LeftAlone : LinearRegion ε → Prop
  | .regions _ => True
  | .nodes start rest =>
      (∃ node ∈ (start :: rest).dropLast, node.children ≠ 1) ∨
        ∃ vertices chosen, findGroups order limit rest = .ok (vertices, chosen) ∧
          (limit < chosen.length →
            ∃ columns, progressions vertices chosen = .ok columns ∧
              ∃ names ∈ columns, varies names = true ∧ ∃ name ∈ names, toInt name = none)

/-- The function returns, and the loop it writes, if any, computes what the region computes. -/
def Meets (same : UnrolledLoop → Prop) (region : LinearRegion ε) : Prop :=
  ∃ outcome, processUnrolledLoops expressions order limit region = .ok outcome ∧
    ∀ loop, outcome = .rewritten loop → same loop

theorem constants_eq_none_iff (columns : List (List String)) :
    constants columns = none ↔
      ∃ names ∈ columns, varies names = true ∧ ∃ name ∈ names, toInt name = none := by
  simp only [constants, mapM_eq_none_iff, List.mem_filter, and_assoc]

theorem processUnrolledLoops_ne_rewritten (region : LinearRegion ε) (loop : UnrolledLoop) :
    processUnrolledLoops expressions order limit region ≠ .ok (.rewritten loop) := by
  cases region with
  | regions single => rintro ⟨⟩
  | nodes start rest =>
      rw [processUnrolledLoops]
      split
      · rintro ⟨⟩
      · intro runs
        obtain ⟨⟨vertices, chosen⟩, -, runs⟩ := bind_eq_ok_iff.mp runs
        dsimp only at runs
        split at runs
        · obtain ⟨columns, -, runs⟩ := bind_eq_ok_iff.mp runs
          split at runs
          · cases runs
          · exact rewrite_ne_ok _ _ _ _ _ _ _ runs
        · cases runs

theorem processUnrolledLoops_eq_unchanged_iff (region : LinearRegion ε) :
    processUnrolledLoops expressions order limit region = .ok .unchanged ↔
      LeftAlone order limit region := by
  cases region with
  | regions single => exact iff_of_true rfl trivial
  | nodes start rest =>
      rw [processUnrolledLoops, LeftAlone]
      split
      · rename_i stops
        refine iff_of_true rfl (.inl ?_)
        simpa using stops
      · rename_i walks
        have chain : ¬ ∃ node ∈ (start :: rest).dropLast, node.children ≠ 1 := by
          simpa using walks
        rw [or_iff_right chain, bind_eq_ok_iff, Prod.exists]
        refine exists_congr fun vertices => exists_congr fun chosen => and_congr_right fun _ => ?_
        dsimp only
        split
        · rename_i enough
          rw [bind_eq_ok_iff]
          constructor
          · rintro ⟨columns, reads, runs⟩ -
            refine ⟨columns, reads, (constants_eq_none_iff columns).mp ?_⟩
            cases numbers : constants columns with
            | none => rfl
            | some found =>
                rw [numbers] at runs
                exact (rewrite_ne_ok _ _ _ _ _ _ _ runs).elim
          · intro blocked
            obtain ⟨columns, reads, varying⟩ := blocked enough
            refine ⟨columns, reads, ?_⟩
            rw [(constants_eq_none_iff columns).mpr varying]
            rfl
        · rename_i few
          exact iff_of_true rfl fun enough => (few enough).elim

theorem members_ne_bound (vertices : List (Vertex ε)) (i : Nat) :
    members vertices i ≠ .error .bound := by
  apply ne_error_bind (item_ne_bound _ _)
  rintro first -
  exact ne_error_mapM _ (item_ne_bound vertices)

theorem loopBounds_ne_bound (groups : Nat) (columns : List (List Int)) :
    loopBounds groups columns ≠ .error .bound := by
  unfold loopBounds
  split
  · exact ne_error_pure _ _
  · apply ne_error_bind (item_ne_bound _ _)
    rintro first -
    apply ne_error_bind (item_ne_bound _ _)
    rintro last -
    apply ne_error_bind (item_ne_bound _ _)
    rintro second -
    exact ne_error_pure _ _

theorem rewrite_ne_bound (start : Node ε) (nodes : List (Node ε)) (vertices : List (Vertex ε))
    (chosen : List Nat) (columns : List (List Int)) :
    rewrite expressions start nodes vertices chosen columns ≠ .error .bound := by
  unfold rewrite
  apply ne_error_bind (loopBounds_ne_bound _ _)
  rintro bounds -
  apply ne_error_bind (item_ne_bound _ _)
  rintro last -
  apply ne_error_bind (item_ne_bound _ _)
  rintro lastVertex -
  apply ne_error_bind (item_ne_bound _ _)
  rintro dstVertex -
  apply ne_error_bind (item_ne_bound _ _)
  rintro dst -
  apply ne_error_bind (ne_error_mapM chosen (members_ne_bound vertices))
  rintro groups -
  apply ne_error_bind (item_ne_bound _ _)
  rintro cur -
  -- The rest of the function is not reached.
  rintro ⟨⟩

/-- The search comes to an end. -/
theorem processUnrolledLoops_ne_bound (region : LinearRegion ε) :
    processUnrolledLoops expressions order limit region ≠ .error .bound := by
  cases region with
  | regions single => rintro ⟨⟩
  | nodes start rest =>
      rw [processUnrolledLoops]
      split
      · rintro ⟨⟩
      · apply ne_error_bind (findGroups_ne_bound _ _ _)
        rintro ⟨vertices, chosen⟩ -
        dsimp only
        split
        · apply ne_error_bind (progressions_ne_bound _ _)
          rintro columns -
          split
          · rintro ⟨⟩
          · exact rewrite_ne_bound _ _ _ _ _ _
        · rintro ⟨⟩

end Process

/-- A node of `v_add_u32 v1, v1, s0`. -/
def addNode : Node String :=
  ⟨"v_add_u32", [⟨true, "v1"⟩, ⟨true, "v1"⟩, ⟨true, "s0"⟩], PyDict.empty.set "v1" "x", 1⟩

end OpenCLDecompiler.UnrolledLoops
