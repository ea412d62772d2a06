import Mathlib.Data.List.Basic

/-!
# Object stores

Mutable objects that are compared by identity live in an arena.  An identity is
the position at which the object was allocated; an object is never moved or
freed, so an identity stays valid and the allocation order is the order of the
identities.
-/

namespace OpenCLDecompiler.Library

structure Arena (α : Type) where
  cells : List α

namespace Arena

variable {α : Type}

def empty : Arena α := ⟨[]⟩

def size (arena : Arena α) : Nat := arena.cells.length

/-- Allocate an object; its identity is the size of the arena before. -/
def alloc (arena : Arena α) (object : α) : Arena α := ⟨arena.cells ++ [object]⟩

/-- Mutate the object with the given identity. -/
def modify (arena : Arena α) (id : Nat) (change : α → α) : Arena α :=
  ⟨arena.cells.modify id change⟩

def get [Inhabited α] (arena : Arena α) (id : Nat) : α := arena.cells.getD id default

@[simp]
theorem size_empty : (empty : Arena α).size = 0 := rfl

@[simp]
theorem size_alloc (arena : Arena α) (object : α) :
    (arena.alloc object).size = arena.size + 1 := by
  simp [alloc, size]

@[simp]
theorem size_modify (arena : Arena α) (id : Nat) (change : α → α) :
    (arena.modify id change).size = arena.size := by
  simp [modify, size]

variable [Inhabited α]

@[simp]
theorem get_alloc_size (arena : Arena α) (object : α) :
    (arena.alloc object).get arena.size = object := by
  simp [alloc, get, size]

theorem get_alloc_of_ne (arena : Arena α) (object : α) {id : Nat} (old : id ≠ arena.size) :
    (arena.alloc object).get id = arena.get id := by
  unfold alloc get
  rcases Nat.lt_or_gt_of_ne old with below | above
  · simp [List.getElem?_append_left (show id < arena.cells.length from below)]
  · have outside : (arena.cells ++ [object]).length ≤ id := by
      rw [List.length_append]
      exact above
    have beyond : arena.cells.length ≤ id := Nat.le_of_lt above
    simp [List.getElem?_eq_none outside, List.getElem?_eq_none beyond]

theorem get_alloc (arena : Arena α) (object : α) (id : Nat) :
    (arena.alloc object).get id = if id = arena.size then object else arena.get id := by
  split
  · rename_i fresh
    rw [fresh, get_alloc_size]
  · rename_i old
    exact get_alloc_of_ne arena object old

theorem get_modify (arena : Arena α) (id other : Nat) (change : α → α) (inside : id < arena.size) :
    (arena.modify id change).get other = if other = id then change (arena.get id) else arena.get other := by
  unfold modify get
  by_cases same : other = id
  · subst same
    have bound : other < arena.cells.length := inside
    simp [bound]
  · simp [same, Ne.symm same]

/-- A mutation that keeps a projection of the object keeps it in every object. -/
theorem get_modify_proj {β : Type} (proj : α → β) (arena : Arena α) (id other : Nat) (change : α → α)
    (kept : ∀ object, proj (change object) = proj object) :
    proj ((arena.modify id change).get other) = proj (arena.get other) := by
  by_cases inside : id < arena.size
  · rw [get_modify arena id other change inside]
    split
    · rename_i same
      rw [kept, same]
    · rfl
  · have outside : arena.cells.length ≤ id := Nat.le_of_not_lt inside
    unfold modify get
    rw [List.modify_eq_self outside]

end Arena

end OpenCLDecompiler.Library
