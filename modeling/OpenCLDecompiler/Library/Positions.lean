import Mathlib.Data.List.Perm.Basic
import Mathlib.Data.List.Nodup
import Mathlib.Data.List.Enum
import Mathlib.Data.List.Forall2

/-!
# Lists without some positions

What is left of a list and what has been taken out of it is the list in another order.
-/

namespace OpenCLDecompiler.Library.Positions

variable {α : Type}

/-- The elements that do not stand at one of the positions. -/
def without (positions : List Nat) (list : List α) : List α :=
  (list.zipIdx.filter fun entry => entry.2 ∉ positions).map Prod.fst

/-- The elements at the positions. -/
def At (list : List α) (positions : List Nat) (taken : List α) : Prop :=
  List.Forall₂ (fun position element => list[position]? = some element) positions taken

theorem nodup_zipIdx (list : List α) : list.zipIdx.Nodup := by
  refine List.Nodup.of_map Prod.snd ?_
  rw [List.zipIdx_map_snd]
  exact List.nodup_range'

theorem mem_zip_iff {list taken : List α} {positions : List Nat} (here : At list positions taken)
    (element : α) (position : Nat) :
    (element, position) ∈ taken.zip positions ↔
      position ∈ positions ∧ list[position]? = some element := by
  induction here with
  | nil => simp
  | @cons first other positions taken isFirst _ ih =>
      rw [List.zip_cons_cons, List.mem_cons, ih, List.mem_cons]
      constructor
      · rintro (same | ⟨later, there⟩)
        · cases same
          exact ⟨.inl rfl, isFirst⟩
        · exact ⟨.inr later, there⟩
      · rintro ⟨rfl | later, there⟩
        · left
          rw [isFirst] at there
          cases there
          rfl
        · exact .inr ⟨later, there⟩

theorem At.exists_of_mem {list taken : List α} {positions : List Nat} (here : At list positions taken)
    {position : Nat} (inside : position ∈ positions) :
    ∃ element ∈ taken, list[position]? = some element := by
  induction here with
  | nil => cases inside
  | @cons first element positions taken isFirst _ ih =>
      rcases List.mem_cons.mp inside with rfl | later
      · exact ⟨element, List.mem_cons_self, isFirst⟩
      · obtain ⟨other, member, there⟩ := ih later
        exact ⟨other, List.mem_cons_of_mem _ member, there⟩

theorem At.exists_position {list taken : List α} {positions : List Nat} (here : At list positions taken)
    {element : α} (inside : element ∈ taken) :
    ∃ position ∈ positions, list[position]? = some element := by
  induction here with
  | nil => cases inside
  | @cons position first positions taken isFirst _ ih =>
      rcases List.mem_cons.mp inside with rfl | later
      · exact ⟨position, List.mem_cons_self, isFirst⟩
      · obtain ⟨other, member, there⟩ := ih later
        exact ⟨other, List.mem_cons_of_mem _ member, there⟩

/-- Positions of elements with different keys are different. -/
theorem At.nodup {β : Type} {key : α → β} {list taken : List α} {positions : List Nat}
    (here : At list positions taken) (differ : (taken.map key).Nodup) : positions.Nodup := by
  induction here with
  | nil => exact List.nodup_nil
  | @cons position element positions taken first rest ih =>
      rw [List.map_cons, List.nodup_cons] at differ
      refine List.nodup_cons.mpr ⟨fun again => differ.1 ?_, ih differ.2⟩
      obtain ⟨other, inside, there⟩ := At.exists_of_mem rest again
      rw [first] at there
      cases there
      exact List.mem_map_of_mem inside

theorem nodup_zip {positions : List Nat} (nodup : positions.Nodup) {taken : List α}
    (size : positions.length = taken.length) : (taken.zip positions).Nodup := by
  refine List.Nodup.of_map Prod.snd ?_
  rwa [List.map_snd_zip (Nat.le_of_eq size)]

/-- Taking elements out only changes the order. -/
theorem perm_without {list taken : List α} {positions : List Nat} (nodup : positions.Nodup)
    (here : At list positions taken) : (taken ++ without positions list).Perm list := by
  have size := here.length_eq
  have takenEntries : (taken.zip positions).Perm
      (list.zipIdx.filter fun entry => entry.2 ∈ positions) := by
    refine (List.perm_ext_iff_of_nodup (nodup_zip nodup size) (nodup_zipIdx list |>.filter _)).mpr ?_
    rintro ⟨element, position⟩
    rw [mem_zip_iff here, List.mem_filter, List.mem_zipIdx_iff_getElem?]
    simp [and_comm]
  have entries := (takenEntries.append_right _).trans
    (List.filter_append_perm (fun entry : α × Nat => decide (entry.2 ∈ positions)) list.zipIdx)
  have elements := entries.map Prod.fst
  rw [List.map_append, List.zipIdx_map_fst, List.map_fst_zip (Nat.le_of_eq size.symm)] at elements
  refine List.Perm.trans ?_ elements
  rw [without]
  simp

end OpenCLDecompiler.Library.Positions
