/-!
# Bounded recursion

A function with a bound on the depth of its recursion settles on a value when
it gives this value for every bound from some bound on.
-/

namespace OpenCLDecompiler.Library

variable {α β : Type}

def Settles (run : Nat → Option α) (value : α) : Prop :=
  ∃ least, ∀ bound, least ≤ bound → run bound = some value

namespace Settles

theorem const (value : α) : Settles (fun _ => some value) value :=
  ⟨0, fun _ _ => rfl⟩

/-- The bound that one unfolding of the function uses up. -/
theorem of_succ {run inner : Nat → Option α} {value : α}
    (unfolds : ∀ bound, run (bound + 1) = inner bound) (settles : Settles inner value) :
    Settles run value := by
  obtain ⟨least, gives⟩ := settles
  refine ⟨least + 1, ?_⟩
  rintro bound enough
  obtain ⟨rest, rfl⟩ := Nat.exists_eq_add_of_le enough
  have shifted : least + 1 + rest = least + rest + 1 := by omega
  rw [shifted, unfolds]
  exact gives _ (Nat.le_add_right least rest)

theorem unique {run : Nat → Option α} {value other : α} (settles : Settles run value)
    (again : Settles run other) : value = other := by
  obtain ⟨least, gives⟩ := settles
  obtain ⟨bound, enough⟩ := again
  have first := gives (least + bound) (Nat.le_add_right _ _)
  have second := enough (least + bound) (Nat.le_add_left _ _)
  exact Option.some.inj (first.symm.trans second)

theorem congr {run other : Nat → Option α} {value : α} (same : ∀ bound, run bound = other bound)
    (settles : Settles other value) : Settles run value := by
  obtain ⟨least, gives⟩ := settles
  exact ⟨least, fun bound enough => (same bound).trans (gives bound enough)⟩

theorem bind {first : Nat → Option α} {second : Nat → α → Option β} {middle : α} {value : β}
    (head : Settles first middle) (tail : Settles (fun bound => second bound middle) value) :
    Settles (fun bound => (first bound).bind (second bound)) value := by
  obtain ⟨leastHead, givesHead⟩ := head
  obtain ⟨leastTail, givesTail⟩ := tail
  refine ⟨leastHead + leastTail, ?_⟩
  rintro bound enough
  have headEnough : leastHead ≤ bound := by omega
  have tailEnough : leastTail ≤ bound := by omega
  simp only [givesHead bound headEnough, Option.bind_some]
  exact givesTail bound tailEnough

theorem map {first : Nat → Option α} {middle : α} (change : α → β)
    (settles : Settles first middle) :
    Settles (fun bound => (first bound).map change) (change middle) := by
  obtain ⟨least, gives⟩ := settles
  refine ⟨least, ?_⟩
  rintro bound enough
  simp only [gives bound enough, Option.map_some]

end Settles

end OpenCLDecompiler.Library
