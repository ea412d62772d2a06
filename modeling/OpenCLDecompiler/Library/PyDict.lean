import Mathlib.Data.List.Nodup
import Mathlib.Data.List.Basic

/-!
# Insertion-ordered dictionaries

A dictionary is a list of entries with pairwise different keys.  Writing an
existing key replaces its value in place; writing a new key appends an entry.
The order of the keys is therefore the order of their first insertion.
-/

namespace OpenCLDecompiler.Library

/-- A dictionary whose iteration order is the insertion order of its keys. -/
structure PyDict (κ υ : Type) where
  entries : List (κ × υ)
  nodup : (entries.map Prod.fst).Nodup

namespace PyDict

variable {κ υ : Type}

def empty : PyDict κ υ := ⟨[], List.nodup_nil⟩

instance : Inhabited (PyDict κ υ) := ⟨empty⟩

def keys (dict : PyDict κ υ) : List κ := dict.entries.map Prod.fst

variable [DecidableEq κ]

def findEntry (key : κ) : List (κ × υ) → Option υ
  | [] => none
  | entry :: rest => if entry.1 = key then some entry.2 else findEntry key rest

def get? (dict : PyDict κ υ) (key : κ) : Option υ := findEntry key dict.entries

def setEntry (key : κ) (value : υ) : List (κ × υ) → List (κ × υ)
  | [] => [(key, value)]
  | entry :: rest =>
      if entry.1 = key then (key, value) :: rest else entry :: setEntry key value rest

theorem map_fst_setEntry (key : κ) (value : υ) (entries : List (κ × υ)) :
    (setEntry key value entries).map Prod.fst =
      if key ∈ entries.map Prod.fst then entries.map Prod.fst
      else entries.map Prod.fst ++ [key] := by
  induction entries with
  | nil => simp [setEntry]
  | cons entry rest ih =>
      by_cases same : entry.1 = key
      · simp [setEntry, same]
      · have different : ¬key = entry.1 := fun equal => same equal.symm
        simp only [setEntry, same, if_false, List.map_cons, ih, List.mem_cons, different,
          false_or]
        split <;> simp

theorem setEntry_of_notMem {key : κ} {value : υ} {entries : List (κ × υ)}
    (fresh : key ∉ entries.map Prod.fst) : setEntry key value entries = entries ++ [(key, value)] := by
  induction entries with
  | nil => rfl
  | cons entry rest ih =>
      rw [List.map_cons, List.mem_cons, not_or] at fresh
      rw [setEntry, if_neg (Ne.symm fresh.1), ih fresh.2]
      rfl

theorem nodup_setEntry (key : κ) (value : υ) {entries : List (κ × υ)}
    (nodup : (entries.map Prod.fst).Nodup) :
    ((setEntry key value entries).map Prod.fst).Nodup := by
  rw [map_fst_setEntry]
  split
  · exact nodup
  · rename_i fresh
    exact List.nodup_append.mpr ⟨nodup, List.nodup_singleton key, by
      rintro old present other single rfl
      exact fresh (List.mem_singleton.mp single ▸ present)⟩

/-- `dict[key] = value`. -/
def set (dict : PyDict κ υ) (key : κ) (value : υ) : PyDict κ υ :=
  ⟨setEntry key value dict.entries, nodup_setEntry key value dict.nodup⟩

theorem findEntry_setEntry (key other : κ) (value : υ) (entries : List (κ × υ)) :
    findEntry other (setEntry key value entries) =
      if other = key then some value else findEntry other entries := by
  induction entries with
  | nil =>
      by_cases same : other = key
      · simp [setEntry, findEntry, same]
      · simp [setEntry, findEntry, same, Ne.symm same]
  | cons entry rest ih =>
      by_cases here : entry.1 = key
      · by_cases same : other = key
        · simp [setEntry, findEntry, here, same]
        · simp [setEntry, findEntry, here, same, Ne.symm same]
      · by_cases same : other = key
        · subst same
          simp [setEntry, findEntry, here, ih]
        · simp [setEntry, findEntry, here, ih, same]

@[simp]
theorem get?_empty (key : κ) : (empty : PyDict κ υ).get? key = none := rfl

@[simp]
theorem get?_set_self (dict : PyDict κ υ) (key : κ) (value : υ) :
    (dict.set key value).get? key = some value := by
  simp [get?, set, findEntry_setEntry]

theorem get?_set_of_ne (dict : PyDict κ υ) {key other : κ} (different : other ≠ key) (value : υ) :
    (dict.set key value).get? other = dict.get? other := by
  simp [get?, set, findEntry_setEntry, different]

theorem get?_set (dict : PyDict κ υ) (key other : κ) (value : υ) :
    (dict.set key value).get? other = if other = key then some value else dict.get? other :=
  findEntry_setEntry key other value dict.entries

theorem mem_map_fst_iff (key : κ) (entries : List (κ × υ)) :
    key ∈ entries.map Prod.fst ↔ (findEntry key entries).isSome = true := by
  induction entries with
  | nil => simp [findEntry]
  | cons entry rest ih =>
      by_cases same : entry.1 = key
      · simp [findEntry, same]
      · simp only [findEntry, same, if_false, List.map_cons, List.mem_cons, ← ih]
        exact ⟨fun either => either.resolve_left (fun equal => same equal.symm), Or.inr⟩

theorem findEntry_of_mem {entries : List (κ × υ)} (nodup : (entries.map Prod.fst).Nodup)
    {entry : κ × υ} (inside : entry ∈ entries) : findEntry entry.1 entries = some entry.2 := by
  induction entries with
  | nil => cases inside
  | cons first rest ih =>
      rw [List.map_cons, List.nodup_cons] at nodup
      rcases List.mem_cons.mp inside with rfl | later
      · exact if_pos rfl
      · rw [findEntry, if_neg, ih nodup.2 later]
        exact fun same => nodup.1 (same ▸ List.mem_map_of_mem later)

theorem get?_of_mem (dict : PyDict κ υ) {entry : κ × υ} (inside : entry ∈ dict.entries) :
    dict.get? entry.1 = some entry.2 := findEntry_of_mem dict.nodup inside

theorem mem_keys_iff (dict : PyDict κ υ) (key : κ) :
    key ∈ dict.keys ↔ ∃ value, dict.get? key = some value := by
  rw [keys, mem_map_fst_iff, Option.isSome_iff_exists]
  rfl

omit [DecidableEq κ] in
theorem nodup_keys (dict : PyDict κ υ) : dict.keys.Nodup := dict.nodup

/-- `dict.setdefault(key, value)`: the first value of a key stays. -/
def setDefault (dict : PyDict κ υ) (key : κ) (value : υ) : PyDict κ υ :=
  if (dict.get? key).isSome then dict else dict.set key value

theorem mem_keys_set (dict : PyDict κ υ) (key other : κ) (value : υ) :
    other ∈ (dict.set key value).keys ↔ other = key ∨ other ∈ dict.keys := by
  simp only [keys, set, map_fst_setEntry]
  split
  · rename_i present
    constructor
    · exact .inr
    · rintro (rfl | old)
      · exact present
      · exact old
  · rw [List.mem_append, List.mem_singleton, or_comm]

theorem get?_setDefault (dict : PyDict κ υ) (key other : κ) (value : υ) :
    (dict.setDefault key value).get? other =
      (dict.get? other).or (if other = key then some value else none) := by
  unfold setDefault
  by_cases same : other = key
  · subst same
    cases found : dict.get? other <;> simp [found]
  · split
    · rw [Option.or_none]
    · rw [get?_set_of_ne dict same, Option.or_none]

/-- The entries in order, each as a default. -/
def setDefaults (dict : PyDict κ υ) (requests : List (κ × υ)) : PyDict κ υ :=
  requests.foldl (fun dict request => dict.setDefault request.1 request.2) dict

theorem setDefaults_append (dict : PyDict κ υ) (first second : List (κ × υ)) :
    dict.setDefaults (first ++ second) = (dict.setDefaults first).setDefaults second :=
  List.foldl_append

theorem get?_setDefaults (dict : PyDict κ υ) (requests : List (κ × υ)) (key : κ) :
    (dict.setDefaults requests).get? key = (dict.get? key).or (findEntry key requests) := by
  induction requests generalizing dict with
  | nil => simp [setDefaults, findEntry]
  | cons request rest ih =>
      have step := ih (dict.setDefault request.1 request.2)
      rw [get?_setDefault] at step
      unfold setDefaults at step ⊢
      rw [List.foldl_cons, step, Option.or_assoc]
      congr 1
      by_cases same : key = request.1
      · simp [findEntry, same]
      · simp [findEntry, Ne.symm same, if_neg same]

/-! ## Values -/

omit [DecidableEq κ] in
theorem map_fst_mapSnd (change : υ → υ) (entries : List (κ × υ)) :
    (entries.map (Prod.map id change)).map Prod.fst = entries.map Prod.fst := by
  rw [List.map_map]
  rfl

/-- A comprehension over `dict.items()` that keeps the keys. -/
def mapValues (change : υ → υ) (dict : PyDict κ υ) : PyDict κ υ where
  entries := dict.entries.map (Prod.map id change)
  nodup := by
    rw [map_fst_mapSnd]
    exact dict.nodup

theorem get?_mapValues (change : υ → υ) (dict : PyDict κ υ) (key : κ) :
    (dict.mapValues change).get? key = (dict.get? key).map change := by
  unfold get? mapValues
  dsimp only
  induction dict.entries with
  | nil => rfl
  | cons entry rest ih =>
      rw [List.map_cons, findEntry, findEntry, ih]
      by_cases same : entry.1 = key
      · simp [same]
      · simp [same]

omit [DecidableEq κ] in
theorem mapValues_congr {change other : υ → υ} {dict : PyDict κ υ}
    (same : ∀ entry ∈ dict.entries, change entry.2 = other entry.2) :
    dict.mapValues change = dict.mapValues other := by
  have entries : dict.entries.map (Prod.map id change) = dict.entries.map (Prod.map id other) :=
    List.map_congr_left fun entry inside => Prod.ext rfl (same entry inside)
  simp only [mapValues, entries]

/-! ## Keys -/

section Keys

variable {μ : Type} [DecidableEq μ]

def setMapped (rename : κ → μ) (dict : PyDict μ υ) (entries : List (κ × υ)) : PyDict μ υ :=
  entries.foldl (fun dict entry => dict.set (rename entry.1) entry.2) dict

/-- A comprehension over `dict.items()` that changes the keys. -/
def mapKeys (rename : κ → μ) (dict : PyDict κ υ) : PyDict μ υ :=
  setMapped rename .empty dict.entries

omit [DecidableEq κ] in
theorem get?_setMapped_of_ne {rename : κ → μ} {key : μ} {entries : List (κ × υ)}
    (absent : ∀ entry ∈ entries, rename entry.1 ≠ key) (dict : PyDict μ υ) :
    (setMapped rename dict entries).get? key = dict.get? key := by
  induction entries generalizing dict with
  | nil => rfl
  | cons entry rest ih =>
      exact (ih (fun other inside => absent other (List.mem_cons_of_mem _ inside)) _).trans
        (get?_set_of_ne dict (absent entry List.mem_cons_self).symm _)

theorem get?_setMapped {rename : κ → μ} {key : κ} {entries : List (κ × υ)}
    (nodup : (entries.map Prod.fst).Nodup)
    (inj : ∀ entry ∈ entries, rename entry.1 = rename key → entry.1 = key) (dict : PyDict μ υ) :
    (setMapped rename dict entries).get? (rename key) =
      (findEntry key entries).or (dict.get? (rename key)) := by
  induction entries generalizing dict with
  | nil => rfl
  | cons entry rest ih =>
      rw [List.map_cons, List.nodup_cons] at nodup
      have later : ∀ other ∈ rest, rename other.1 = rename key → other.1 = key :=
        fun other inside => inj other (List.mem_cons_of_mem _ inside)
      by_cases here : entry.1 = key
      · have absent : ∀ other ∈ rest, rename other.1 ≠ rename key := fun other inside same =>
          nodup.1 (List.mem_map.mpr ⟨other, inside, (later other inside same).trans here.symm⟩)
        rw [findEntry, if_pos here, Option.some_or, ← here]
        rw [← here] at absent
        exact (get?_setMapped_of_ne absent _).trans (get?_set_self ..)
      · have other : rename key ≠ rename entry.1 := fun same =>
          here (inj entry List.mem_cons_self same.symm)
        rw [findEntry, if_neg here, ← get?_set_of_ne dict other entry.2]
        exact ih nodup.2 later _

omit [DecidableEq κ] in
theorem exists_of_get?_setMapped {rename : κ → μ} {entries : List (κ × υ)} {dict : PyDict μ υ}
    {key : μ} {value : υ} (found : (setMapped rename dict entries).get? key = some value) :
    (∃ entry ∈ entries, rename entry.1 = key ∧ entry.2 = value) ∨ dict.get? key = some value := by
  induction entries generalizing dict with
  | nil => exact .inr found
  | cons entry rest ih =>
      rcases ih found with ⟨other, inside, facts⟩ | old
      · exact .inl ⟨other, List.mem_cons_of_mem _ inside, facts⟩
      · rw [get?_set] at old
        split at old
        · rename_i here
          exact .inl ⟨entry, List.mem_cons_self, here.symm, Option.some.inj old⟩
        · exact .inr old

omit [DecidableEq κ] in
/-- Every value was there before. -/
theorem exists_of_get?_mapKeys {rename : κ → μ} {dict : PyDict κ υ} {key : μ} {value : υ}
    (found : (dict.mapKeys rename).get? key = some value) :
    ∃ entry ∈ dict.entries, rename entry.1 = key ∧ entry.2 = value :=
  (exists_of_get?_setMapped found).resolve_right fun absent => by cases absent

/-- Where the new keys tell the old ones apart, the values are the same. -/
theorem get?_mapKeys (rename : κ → μ) (dict : PyDict κ υ) (key : κ)
    (inj : ∀ entry ∈ dict.entries, rename entry.1 = rename key → entry.1 = key) :
    (dict.mapKeys rename).get? (rename key) = dict.get? key :=
  (get?_setMapped dict.nodup inj .empty).trans (Option.or_none ..)

end Keys

end PyDict

end OpenCLDecompiler.Library
