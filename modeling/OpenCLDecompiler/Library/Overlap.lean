import OpenCLDecompiler.Library.PyDict

/-!
# Entries over shared cells

A store keeps an entry under each key it has written.  A key covers some cells,
and different keys may cover the same cell, so an entry can be overtaken by a
write under another key.  Writes are numbered; an entry is current when the last
write to every cell it covers is the one that made it.
-/

namespace OpenCLDecompiler.Library

/-- The number of the write behind every entry and behind every cell. -/
structure Overlap (κ ω : Type) [DecidableEq κ] where
  entries : PyDict κ Nat
  lastWrite : ω → Option Nat
  clock : Nat
  fresh : ∀ key stamp, entries.get? key = some stamp → stamp < clock

namespace Overlap

variable {κ ω : Type} [DecidableEq κ] [DecidableEq ω]

def empty : Overlap κ ω := ⟨.empty, fun _ => none, 0, by simp⟩

def setAll (stamp : Nat) (entries : PyDict κ Nat) (keys : List κ) : PyDict κ Nat :=
  keys.foldl (fun entries key => entries.set key stamp) entries

theorem get?_setAll (stamp : Nat) (entries : PyDict κ Nat) (keys : List κ) (key : κ) :
    (setAll stamp entries keys).get? key =
      if key ∈ keys then some stamp else entries.get? key := by
  induction keys generalizing entries with
  | nil => simp [setAll]
  | cons first rest ih =>
      rw [setAll, List.foldl_cons, ← setAll, ih, PyDict.get?_set]
      by_cases later : key ∈ rest
      · simp [later]
      · simp [later]

/-- One write: new entries under the keys, and the cells are written. -/
def write (st : Overlap κ ω) (keys : List κ) (cells : List ω) : Overlap κ ω where
  entries := setAll st.clock st.entries keys
  lastWrite cell := if cell ∈ cells then some st.clock else st.lastWrite cell
  clock := st.clock + 1
  fresh key stamp found := by
    rw [get?_setAll] at found
    split at found
    · cases found
      exact Nat.lt_succ_self st.clock
    · exact Nat.lt_succ_of_lt (st.fresh key stamp found)

/-- Every entry is the last write to every cell it covers. -/
def Current (cover : κ → List ω) (st : Overlap κ ω) : Prop :=
  ∀ key stamp, st.entries.get? key = some stamp →
    ∀ cell ∈ cover key, st.lastWrite cell = some stamp

/-- Every entry that is not written covers none of the cells. -/
def NoneStale (cover : κ → List ω) (st : Overlap κ ω) (keys : List κ) (cells : List ω) : Prop :=
  ∀ key stamp, st.entries.get? key = some stamp → key ∉ keys →
    ∀ cell ∈ cover key, cell ∉ cells

omit [DecidableEq ω] in
theorem current_empty (cover : κ → List ω) : Current cover (empty : Overlap κ ω) := by
  rintro key stamp found
  cases found

/-- A write keeps the entries current exactly when it overtakes none of them. -/
theorem current_write_iff {cover : κ → List ω} {st : Overlap κ ω} (current : Current cover st)
    {keys : List κ} {cells : List ω} (within : ∀ key ∈ keys, cover key ⊆ cells) :
    Current cover (st.write keys cells) ↔ NoneStale cover st keys cells := by
  constructor
  · rintro after key stamp found unwritten cell covered inside
    have kept : (st.write keys cells).entries.get? key = some stamp := by
      rw [write, get?_setAll, if_neg unwritten, found]
    have last := after key stamp kept cell covered
    rw [write] at last
    dsimp only at last
    rw [if_pos inside] at last
    exact absurd (Option.some.inj last) (Nat.ne_of_gt (st.fresh key stamp found))
  · rintro none key stamp found cell covered
    rw [write, get?_setAll] at found
    rw [write]
    dsimp only
    split at found
    · rename_i written
      rw [if_pos (within key written covered), found]
    · rename_i unwritten
      rw [if_neg (none key stamp found unwritten cell covered)]
      exact current key stamp found cell covered

end Overlap

end OpenCLDecompiler.Library
