import Mathlib.Data.List.Basic

/-!
# Items one behind another

Every item is given some room, and the next item starts behind it.
-/

namespace OpenCLDecompiler.Library.Placement

variable {α : Type}

/-- The items with the offsets at which they start. -/
def place (room : α → Nat) : Nat → List α → List (Nat × α)
  | _, [] => []
  | offset, item :: rest => (offset, item) :: place room (offset + room item) rest

/-- Each item ends where the next ones start or before. -/
def InOrder (size : α → Nat) (placed : List (Nat × α)) : Prop :=
  placed.Pairwise fun first second => first.1 + size first.2 ≤ second.1

variable {room : α → Nat}

theorem map_snd_place (offset : Nat) (items : List α) :
    (place room offset items).map Prod.snd = items := by
  induction items generalizing offset with
  | nil => rfl
  | cons item rest ih => rw [place, List.map_cons, ih]

theorem place_map {β : Type} (image : β → α) (offset : Nat) (items : List β) :
    place room offset (items.map image) =
      (place (fun item => room (image item)) offset items).map fun placed =>
        (placed.1, image placed.2) := by
  induction items generalizing offset with
  | nil => rfl
  | cons item rest ih => rw [List.map_cons, place, place, List.map_cons, ih]

theorem le_of_mem_place {offset : Nat} {items : List α} {placed : Nat × α}
    (member : placed ∈ place room offset items) : offset ≤ placed.1 := by
  induction items generalizing offset with
  | nil => cases member
  | cons item rest ih =>
      rcases List.mem_cons.mp member with rfl | later
      · exact Nat.le_refl _
      · exact Nat.le_trans (Nat.le_add_right ..) (ih later)

theorem dvd_of_mem_place {unit offset : Nat} {items : List α}
    (rooms : ∀ item ∈ items, unit ∣ room item) (aligned : unit ∣ offset) {placed : Nat × α}
    (member : placed ∈ place room offset items) : unit ∣ placed.1 := by
  induction items generalizing offset with
  | nil => cases member
  | cons item rest ih =>
      rcases List.mem_cons.mp member with rfl | later
      · exact aligned
      · exact ih (fun other inside => rooms other (List.mem_cons_of_mem _ inside))
          (Nat.dvd_add aligned (rooms item List.mem_cons_self)) later

/-- The items stay in order exactly when every item but the last fits into its room. -/
theorem inOrder_place_iff (size : α → Nat) (offset : Nat) (items : List α) :
    InOrder size (place room offset items) ↔ ∀ item ∈ items.dropLast, size item ≤ room item := by
  induction items generalizing offset with
  | nil => simp [place, InOrder]
  | cons item rest ih =>
      have others := ih (offset + room item)
      cases rest with
      | nil => simp [place, InOrder]
      | cons next rest =>
          have here : (∀ placed ∈ place room (offset + room item) (next :: rest),
              offset + size item ≤ placed.1) ↔ size item ≤ room item := by
            constructor
            · intro before
              have first := before (offset + room item, next) List.mem_cons_self
              omega
            · intro fits placed member
              have behind := le_of_mem_place member
              omega
          rw [List.dropLast_cons_cons, List.forall_mem_cons, ← others, ← here]
          exact List.pairwise_cons

end OpenCLDecompiler.Library.Placement
