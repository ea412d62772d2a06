import Mathlib.Data.List.Forall2

/-!
# Runs that can fail

What holds of a computation with errors that is put together from smaller ones:
the values behind its success, and an error that none of its parts raises.
-/

namespace OpenCLDecompiler.Library.Checked

variable {α β ε : Type}

theorem bind_eq_ok_iff {run : Except ε α} {next : α → Except ε β} {value : β} :
    (run >>= next) = .ok value ↔ ∃ middle, run = .ok middle ∧ next middle = .ok value := by
  cases run with
  | error err => simp [bind, Except.bind]
  | ok middle => simp [bind, Except.bind]

theorem pure_eq_ok_iff {first second : α} :
    (pure first : Except ε α) = .ok second ↔ first = second := by
  simp [pure, Except.pure]

/-! ## An error that is not raised -/

theorem ne_error_pure (err : ε) (value : α) : (pure value : Except ε α) ≠ .error err := by
  rintro ⟨⟩

theorem ne_error_bind {err : ε} {run : Except ε α} {next : α → Except ε β}
    (first : run ≠ .error err) (second : ∀ value, run = .ok value → next value ≠ .error err) :
    (run >>= next) ≠ .error err := by
  cases run with
  | error other =>
      intro raised
      cases raised
      exact first rfl
  | ok value => exact second value rfl

theorem ne_error_mapM {err : ε} {f : α → Except ε β} (values : List α)
    (each : ∀ value, f value ≠ .error err) : values.mapM f ≠ .error err := by
  induction values with
  | nil => exact ne_error_pure err []
  | cons value rest ih =>
      rw [List.mapM_cons]
      apply ne_error_bind (each value)
      rintro image -
      apply ne_error_bind ih
      rintro images -
      exact ne_error_pure err _

theorem ne_error_foldlM {err : ε} {f : β → α → Except ε β} (values : List α) (start : β)
    (each : ∀ state value, f state value ≠ .error err) :
    values.foldlM f start ≠ .error err := by
  induction values generalizing start with
  | nil => exact ne_error_pure err start
  | cons value rest ih =>
      rw [List.foldlM_cons]
      apply ne_error_bind (each start value)
      rintro state -
      exact ih state

/-! ## What is behind a success -/

theorem mapM_eq_ok_iff {f : α → Except ε β} {values : List α} {images : List β} :
    values.mapM f = .ok images ↔
      List.Forall₂ (fun value image => f value = .ok image) values images := by
  induction values generalizing images with
  | nil =>
      rw [List.mapM_nil, pure_eq_ok_iff]
      cases images <;> simp
  | cons value rest ih =>
      rw [List.mapM_cons, bind_eq_ok_iff]
      constructor
      · rintro ⟨image, here, others⟩
        obtain ⟨images', there, done⟩ := bind_eq_ok_iff.mp others
        cases pure_eq_ok_iff.mp done
        exact .cons here (ih.mp there)
      · rintro (_ | ⟨here, there⟩)
        exact ⟨_, here, bind_eq_ok_iff.mpr ⟨_, ih.mpr there, rfl⟩⟩

/-- The image of a value of the list. -/
theorem mapM_image {f : α → Except ε β} {values : List α} {images : List β}
    (runs : values.mapM f = .ok images) {value : α} (mem : value ∈ values) :
    ∃ image ∈ images, f value = .ok image := by
  have pairs := mapM_eq_ok_iff.mp runs
  clear runs
  induction pairs with
  | nil => cases mem
  | cons here _ ih =>
      rcases List.mem_cons.mp mem with rfl | later
      · exact ⟨_, List.mem_cons_self, here⟩
      · obtain ⟨image, inside, is⟩ := ih later
        exact ⟨image, List.mem_cons_of_mem _ inside, is⟩

/-- The value behind an image of the list. -/
theorem mapM_source {f : α → Except ε β} {values : List α} {images : List β}
    (runs : values.mapM f = .ok images) {image : β} (mem : image ∈ images) :
    ∃ value ∈ values, f value = .ok image := by
  have pairs := mapM_eq_ok_iff.mp runs
  clear runs
  induction pairs with
  | nil => cases mem
  | cons here _ ih =>
      rcases List.mem_cons.mp mem with rfl | later
      · exact ⟨_, List.mem_cons_self, here⟩
      · obtain ⟨value, inside, is⟩ := ih later
        exact ⟨value, List.mem_cons_of_mem _ inside, is⟩

theorem mapM_eq_none_iff {f : α → Option β} {values : List α} :
    values.mapM f = none ↔ ∃ value ∈ values, f value = none := by
  induction values with
  | nil => simp
  | cons value rest ih =>
      rw [List.mapM_cons]
      simp only [List.mem_cons, exists_eq_or_imp, ← ih]
      cases f value with
      | none => simp
      | some image => cases rest.mapM f <;> simp

theorem mapM_eq_some_iff {f : α → Option β} {values : List α} {images : List β} :
    values.mapM f = some images ↔
      List.Forall₂ (fun value image => f value = some image) values images := by
  induction values generalizing images with
  | nil => cases images <;> simp
  | cons value rest ih =>
      rw [List.mapM_cons]
      constructor
      · intro runs
        obtain ⟨image, here, others⟩ := Option.bind_eq_some_iff.mp runs
        obtain ⟨images', there, done⟩ := Option.bind_eq_some_iff.mp others
        cases done
        exact .cons here (ih.mp there)
      · rintro (_ | ⟨here, there⟩)
        rw [here, ih.mpr there]
        rfl

theorem mapM_eq_some_map {f : α → Option β} {image : α → β} {values : List α}
    (each : ∀ value ∈ values, f value = some (image value)) :
    values.mapM f = some (values.map image) := by
  rw [mapM_eq_some_iff, List.forall₂_map_right_iff, List.forall₂_same]
  exact each

/-- Values that are related to something each are related to a list. -/
theorem exists_forall₂ (related : α → β → Prop) {values : List α}
    (each : ∀ value ∈ values, ∃ image, related value image) :
    ∃ images, List.Forall₂ related values images := by
  induction values with
  | nil => exact ⟨[], .nil⟩
  | cons value rest ih =>
      obtain ⟨image, here⟩ := each value List.mem_cons_self
      obtain ⟨images, there⟩ := ih fun other inside => each other (List.mem_cons_of_mem _ inside)
      exact ⟨image :: images, .cons here there⟩

theorem exists_of_forall₂ {related : α → β → Prop} {values : List α} {images : List β}
    (pairs : List.Forall₂ related values images) {value : α} (mem : value ∈ values) :
    ∃ image, related value image := by
  induction pairs with
  | nil => cases mem
  | cons here _ ih =>
      rcases List.mem_cons.mp mem with rfl | later
      · exact ⟨_, here⟩
      · exact ih later

theorem forall₂_both {first second : α → β → Prop} {values : List α} {images : List β}
    (firsts : List.Forall₂ first values images) (seconds : List.Forall₂ second values images) :
    List.Forall₂ (fun value image => first value image ∧ second value image) values images := by
  induction firsts with
  | nil => exact .nil
  | cons here _ ih =>
      obtain ⟨other, others⟩ := List.forall₂_cons.mp seconds
      exact .cons ⟨here, other⟩ (ih others)

/-- What every step of a fold keeps, the fold keeps. -/
theorem foldlM_invariant {f : β → α → Except ε β} (keeps : β → Prop)
    (step : ∀ state value after, keeps state → f state value = .ok after → keeps after)
    {values : List α} {start final : β} (holds : keeps start)
    (runs : values.foldlM f start = .ok final) : keeps final := by
  induction values generalizing start with
  | nil =>
      cases pure_eq_ok_iff.mp runs
      exact holds
  | cons value rest ih =>
      rw [List.foldlM_cons] at runs
      obtain ⟨after, first, others⟩ := bind_eq_ok_iff.mp runs
      exact ih (step start value after holds first) others

end OpenCLDecompiler.Library.Checked
