import OpenCLDecompiler.Library.Arena

/-!
# Linked trees

Trees of mutable nodes that know their children and one parent.  A node may be a child
of several nodes; creating a node writes its own identity as the parent of children it
adopts, and a deep copy of a node copies whatever is linked to it.
-/

namespace OpenCLDecompiler.Library

inductive LinkedTree (γ : Type) where
  | leaf (content : γ)
  | unary (content : γ) (left : LinkedTree γ)
  | binary (content : γ) (left right : LinkedTree γ)
  | ternary (content : γ) (first left right : LinkedTree γ)
  deriving DecidableEq, Repr

/-- The number of nodes. -/
def LinkedTree.size {γ : Type} : LinkedTree γ → Nat
  | leaf _ => 1
  | unary _ left => left.size + 1
  | binary _ left right => left.size + right.size + 1
  | ternary _ first left right => first.size + left.size + right.size + 1

structure LinkedCell (γ : Type) where
  content : γ
  children : List Nat
  parent : Option Nat
  deriving DecidableEq, Repr

abbrev Linked (γ : Type) := Arena (LinkedCell γ)

namespace Linked

variable {γ : Type} {heap later : Linked γ} {id : Nat} {tree : LinkedTree γ}

/-- The node is the root of the tree. -/
inductive Spells (heap : Linked γ) : Nat → LinkedTree γ → Prop where
  | leaf {id : Nat} {content : γ} {parent : Option Nat}
      (found : heap.cells[id]? = some ⟨content, [], parent⟩) : Spells heap id (.leaf content)
  | unary {id left : Nat} {content : γ} {parent : Option Nat} {leftTree : LinkedTree γ}
      (found : heap.cells[id]? = some ⟨content, [left], parent⟩)
      (spellsLeft : Spells heap left leftTree) : Spells heap id (.unary content leftTree)
  | binary {id left right : Nat} {content : γ} {parent : Option Nat}
      {leftTree rightTree : LinkedTree γ}
      (found : heap.cells[id]? = some ⟨content, [left, right], parent⟩)
      (spellsLeft : Spells heap left leftTree) (spellsRight : Spells heap right rightTree) :
      Spells heap id (.binary content leftTree rightTree)
  | ternary {id first left right : Nat} {content : γ} {parent : Option Nat}
      {firstTree leftTree rightTree : LinkedTree γ}
      (found : heap.cells[id]? = some ⟨content, [first, left, right], parent⟩)
      (spellsFirst : Spells heap first firstTree) (spellsLeft : Spells heap left leftTree)
      (spellsRight : Spells heap right rightTree) :
      Spells heap id (.ternary content firstTree leftTree rightTree)

/-- A node is the root of one tree. -/
theorem Spells.unique {other : LinkedTree γ} (first : Spells heap id tree)
    (second : Spells heap id other) : tree = other := by
  induction first generalizing other with
  | leaf found =>
      cases second <;> cases found.symm.trans (by assumption)
      rfl
  | unary found _ ihLeft =>
      cases second <;> cases found.symm.trans (by assumption)
      rw [ihLeft (by assumption)]
  | binary found _ _ ihLeft ihRight =>
      cases second <;> cases found.symm.trans (by assumption)
      rw [ihLeft (by assumption), ihRight (by assumption)]
  | ternary found _ _ _ ihFirst ihLeft ihRight =>
      cases second <;> cases found.symm.trans (by assumption)
      rw [ihFirst (by assumption), ihLeft (by assumption), ihRight (by assumption)]

/-! ## What stays -/

/-- The nodes have the content and the children they had. -/
def Extends (heap later : Linked γ) : Prop :=
  ∀ (id : Nat) (content : γ) (children : List Nat) (parent : Option Nat),
    heap.cells[id]? = some ⟨content, children, parent⟩ →
      ∃ parent', later.cells[id]? = some ⟨content, children, parent'⟩

theorem Extends.refl (heap : Linked γ) : Extends heap heap :=
  fun _ _ _ parent found => ⟨parent, found⟩

theorem Extends.trans {last : Linked γ} (first : Extends heap later)
    (second : Extends later last) : Extends heap last := by
  intro id content children parent found
  obtain ⟨parent', found'⟩ := first id content children parent found
  exact second id content children parent' found'

theorem Spells.extend (spells : Spells heap id tree) (extends' : Extends heap later) :
    Spells later id tree := by
  induction spells with
  | leaf found =>
      obtain ⟨_, found'⟩ := extends' _ _ _ _ found
      exact .leaf found'
  | unary found _ ihLeft =>
      obtain ⟨_, found'⟩ := extends' _ _ _ _ found
      exact .unary found' ihLeft
  | binary found _ _ ihLeft ihRight =>
      obtain ⟨_, found'⟩ := extends' _ _ _ _ found
      exact .binary found' ihLeft ihRight
  | ternary found _ _ _ ihFirst ihLeft ihRight =>
      obtain ⟨_, found'⟩ := extends' _ _ _ _ found
      exact .ternary found' ihFirst ihLeft ihRight

/-! ## New nodes -/

def adopt (parent : Nat) (heap : Linked γ) (id : Nat) : Linked γ :=
  heap.modify id fun cell => { cell with parent := some parent }

/-- A new node, which is the parent of some of its children from now on. -/
def create (heap : Linked γ) (content : γ) (children adopted : List Nat) : Linked γ :=
  (adopted.foldl (adopt heap.size) heap).alloc ⟨content, children, none⟩

theorem extends_adopt (parent : Nat) (heap : Linked γ) (id : Nat) :
    Extends heap (adopt parent heap id) := by
  intro other content children old found
  rw [adopt, Arena.modify, List.getElem?_modify, found]
  by_cases same : id = other
  · exact ⟨some parent, by simp [same]⟩
  · exact ⟨old, by simp [same]⟩

theorem extends_adoptAll (parent : Nat) (heap : Linked γ) (adopted : List Nat) :
    Extends heap (adopted.foldl (adopt parent) heap) := by
  induction adopted generalizing heap with
  | nil => exact Extends.refl heap
  | cons id rest ih => exact (extends_adopt parent heap id).trans (ih _)

theorem size_adoptAll (parent : Nat) (heap : Linked γ) (adopted : List Nat) :
    (adopted.foldl (adopt parent) heap).size = heap.size := by
  induction adopted generalizing heap with
  | nil => rfl
  | cons id rest ih => rw [List.foldl_cons, ih, adopt, Arena.size_modify]

theorem extends_alloc (heap : Linked γ) (cell : LinkedCell γ) : Extends heap (heap.alloc cell) := by
  intro id content children parent found
  exact ⟨parent, (List.getElem?_append_left (List.getElem?_eq_some_iff.mp found).1).trans found⟩

theorem extends_create (heap : Linked γ) (content : γ) (children adopted : List Nat) :
    Extends heap (heap.create content children adopted) :=
  (extends_adoptAll heap.size heap adopted).trans (extends_alloc _ _)

theorem find_alloc (heap : Linked γ) (cell : LinkedCell γ) :
    (heap.alloc cell).cells[heap.size]? = some cell :=
  List.getElem?_concat_length

/-- The new node is the last one. -/
theorem find_create (heap : Linked γ) (content : γ) (children adopted : List Nat) :
    (heap.create content children adopted).cells[heap.size]? = some ⟨content, children, none⟩ := by
  have last := find_alloc (adopted.foldl (adopt heap.size) heap) ⟨content, children, none⟩
  rwa [size_adoptAll] at last

/-! ## Copies -/

def shift (distance : Nat) (cell : LinkedCell γ) : LinkedCell γ :=
  ⟨cell.content, cell.children.map (· + distance), cell.parent.map (· + distance)⟩

/--
`copy.deepcopy`, which copies the nodes that are linked with the one it is asked for;
here every node gets a copy, the others are never met.  The copy of a node stands
`heap.size` behind it.
-/
def deepcopy (heap : Linked γ) : Linked γ := ⟨heap.cells ++ heap.cells.map (shift heap.size)⟩

theorem extends_deepcopy (heap : Linked γ) : Extends heap heap.deepcopy := by
  intro id content children parent found
  exact ⟨parent, (List.getElem?_append_left (List.getElem?_eq_some_iff.mp found).1).trans found⟩

theorem find_deepcopy {cell : LinkedCell γ} (found : heap.cells[id]? = some cell) :
    heap.deepcopy.cells[id + heap.size]? = some (shift heap.size cell) := by
  change (heap.cells ++ heap.cells.map (shift heap.size))[id + heap.cells.length]? = _
  rw [List.getElem?_append_right (Nat.le_add_left _ _), Nat.add_sub_cancel, List.getElem?_map, found]
  rfl

theorem Spells.deepcopy (spells : Spells heap id tree) :
    Spells heap.deepcopy (id + heap.size) tree := by
  induction spells with
  | leaf found => exact .leaf (find_deepcopy found)
  | unary found _ ihLeft => exact .unary (find_deepcopy found) ihLeft
  | binary found _ _ ihLeft ihRight => exact .binary (find_deepcopy found) ihLeft ihRight
  | ternary found _ _ _ ihFirst ihLeft ihRight =>
      exact .ternary (find_deepcopy found) ihFirst ihLeft ihRight

/-- `node.value = content`. -/
def setContent (heap : Linked γ) (id : Nat) (content : γ) : Linked γ :=
  heap.modify id fun cell => { cell with content := content }

/-- A node that is not among the old ones may change. -/
theorem Extends.setContent (extends' : Extends heap later) (fresh : heap.size ≤ id) (content : γ) :
    Extends heap (later.setContent id content) := by
  intro other old children parent found
  obtain ⟨parent', found'⟩ := extends' other old children parent found
  have differs : id ≠ other := by
    rintro rfl
    exact absurd (List.getElem?_eq_some_iff.mp found).1 (Nat.not_lt.mpr fresh)
  refine ⟨parent', ?_⟩
  rw [Linked.setContent, Arena.modify, List.getElem?_modify, found']
  simp [differs]

theorem find_setContent {cell : LinkedCell γ} (found : heap.cells[id]? = some cell) (content : γ) :
    (heap.setContent id content).cells[id]? = some { cell with content := content } := by
  rw [setContent, Arena.modify, List.getElem?_modify, found]
  simp

theorem find_setContent_of_ne {other : Nat} (differs : id ≠ other) (content : γ) :
    (heap.setContent id content).cells[other]? = heap.cells[other]? := by
  rw [setContent, Arena.modify, List.getElem?_modify]
  simp [differs]

/-- A node is not inside of a smaller tree, so that its content may change there. -/
theorem Spells.setContent_of_smaller {other : Nat} {small : LinkedTree γ}
    (spells : Spells heap other small) (whole : Spells heap id tree)
    (smaller : small.size < tree.size) (content : γ) :
    Spells (heap.setContent id content) other small := by
  have differs {place : Nat} {part : LinkedTree γ} (inside : Spells heap place part)
      (smaller : part.size < tree.size) : id ≠ place := by
    rintro rfl
    rw [inside.unique whole] at smaller
    exact Nat.lt_irrefl _ smaller
  induction spells with
  | leaf found =>
      exact .leaf ((find_setContent_of_ne (differs (.leaf found) smaller) content).trans found)
  | unary found left ihLeft =>
      have here := differs (.unary found left) smaller
      rw [LinkedTree.size] at smaller
      exact .unary ((find_setContent_of_ne here content).trans found) (ihLeft (by omega))
  | binary found left right ihLeft ihRight =>
      have here := differs (.binary found left right) smaller
      rw [LinkedTree.size] at smaller
      exact .binary ((find_setContent_of_ne here content).trans found) (ihLeft (by omega))
        (ihRight (by omega))
  | ternary found first left right ihFirst ihLeft ihRight =>
      have here := differs (.ternary found first left right) smaller
      rw [LinkedTree.size] at smaller
      exact .ternary ((find_setContent_of_ne here content).trans found) (ihFirst (by omega))
        (ihLeft (by omega)) (ihRight (by omega))

end Linked

end OpenCLDecompiler.Library
