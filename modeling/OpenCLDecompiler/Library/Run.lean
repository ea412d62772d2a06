/-!
# Runs of a partial step function

A program is a list of inputs that a step function reads in order; a step may
fail.  Beside the run itself this file has the two ways of proving something
about a whole run: an invariant that every step keeps, and a condition on the
steps that decides a property of the final state.
-/

namespace OpenCLDecompiler.Library

namespace Run

variable {σ ι : Type} (step : σ → ι → Option σ)

/-- Read the inputs in order; a failing step fails the run. -/
def runFrom : σ → List ι → Option σ
  | state, [] => some state
  | state, input :: rest => (step state input).bind fun next => runFrom next rest

/-- Every step of the run is taken in a state that meets the condition. -/
def Meets (cond : σ → ι → Prop) : σ → List ι → Prop
  | _, [] => True
  | state, input :: rest =>
      cond state input ∧ ∀ next, step state input = some next → Meets cond next rest

theorem runFrom_append (state : σ) (first second : List ι) :
    runFrom step state (first ++ second) =
      (runFrom step state first).bind fun middle => runFrom step middle second := by
  induction first generalizing state with
  | nil => rfl
  | cons input rest ih =>
      rw [List.cons_append, runFrom, runFrom, Option.bind_assoc]
      exact Option.bind_congr fun next _ => ih next

variable {step}

theorem runFrom_cons_eq_some {state final : σ} {input : ι} {rest : List ι}
    (ran : runFrom step state (input :: rest) = some final) :
    ∃ next, step state input = some next ∧ runFrom step next rest = some final :=
  Option.bind_eq_some_iff.mp ran

/-- What every step on the given inputs keeps, the run keeps. -/
theorem invariant {inv : σ → Prop} {inputs : List ι}
    (kept : ∀ state, ∀ input ∈ inputs, ∀ next, inv state → step state input = some next → inv next)
    {state final : σ} (start : inv state) (ran : runFrom step state inputs = some final) :
    inv final := by
  induction inputs generalizing state with
  | nil =>
      cases ran
      exact start
  | cons input rest ih =>
      obtain ⟨next, stepped, remaining⟩ := runFrom_cons_eq_some ran
      have nextInv := kept state input List.mem_cons_self next start stepped
      exact ih (fun other input inside => kept other input (List.mem_cons_of_mem _ inside)) nextInv
        remaining

/-- The first part of a run whose steps all meet the condition. -/
theorem Meets.left {cond : σ → ι → Prop} {state : σ} {first second : List ι}
    (meets : Meets step cond state (first ++ second)) : Meets step cond state first := by
  induction first generalizing state with
  | nil => trivial
  | cons input rest ih => exact ⟨meets.1, fun next stepped => ih (meets.2 next stepped)⟩

/-- What every step that meets the condition keeps, a run of such steps keeps. -/
theorem Meets.invariant {inv : σ → Prop} {cond : σ → ι → Prop}
    (kept : ∀ state input next, inv state → cond state input →
      step state input = some next → inv next)
    {state final : σ} {inputs : List ι} (meets : Meets step cond state inputs) (start : inv state)
    (ran : runFrom step state inputs = some final) : inv final := by
  induction inputs generalizing state with
  | nil =>
      cases ran
      exact start
  | cons input rest ih =>
      obtain ⟨next, stepped, remaining⟩ := runFrom_cons_eq_some ran
      exact ih (meets.2 next stepped) (kept state input next start meets.1 stepped) remaining

/-- Conditions that say the same where the invariant holds say the same of a run. -/
theorem meets_congr {inv : σ → Prop} {first second : σ → ι → Prop}
    (same : ∀ state input, inv state → (first state input ↔ second state input))
    (kept : ∀ state input next, inv state → first state input →
      step state input = some next → inv next)
    {state : σ} (start : inv state) (inputs : List ι) :
    Meets step first state inputs ↔ Meets step second state inputs := by
  induction inputs generalizing state with
  | nil => exact Iff.rfl
  | cons input rest ih =>
      constructor
      · rintro ⟨here, later⟩
        refine ⟨(same state input start).mp here, fun next stepped => ?_⟩
        exact (ih (kept state input next start here stepped)).mp (later next stepped)
      · rintro ⟨here, later⟩
        have meets := (same state input start).mpr here
        refine ⟨meets, fun next stepped => ?_⟩
        exact (ih (kept state input next start meets stepped)).mpr (later next stepped)

/-- Conditions that say the same on the steps that meet a third one say the same of such a run. -/
theorem Meets.congr {inv : σ → Prop} {cond first second : σ → ι → Prop}
    (same : ∀ state input, inv state → cond state input → (first state input ↔ second state input))
    (kept : ∀ state input next, inv state → cond state input →
      step state input = some next → inv next)
    {state : σ} {inputs : List ι} (start : inv state) (meets : Meets step cond state inputs) :
    Meets step first state inputs ↔ Meets step second state inputs := by
  induction inputs generalizing state with
  | nil => exact Iff.rfl
  | cons input rest ih =>
      have here := same state input start meets.1
      have later (next : σ) (stepped : step state input = some next) :=
        ih (kept state input next start meets.1 stepped) (meets.2 next stepped)
      constructor
      · rintro ⟨now, behind⟩
        exact ⟨here.mp now, fun next stepped => (later next stepped).mp (behind next stepped)⟩
      · rintro ⟨now, behind⟩
        exact ⟨here.mpr now, fun next stepped => (later next stepped).mpr (behind next stepped)⟩

/-- Where the condition makes every step succeed and keep the invariant, the run does both. -/
theorem reaches {inv : σ → Prop} {cond : σ → ι → Prop}
    (advance : ∀ state input, inv state → cond state input →
      ∃ next, step state input = some next ∧ inv next)
    {state : σ} {inputs : List ι} (start : inv state) (meets : Meets step cond state inputs) :
    ∃ final, runFrom step state inputs = some final ∧ inv final := by
  induction inputs generalizing state with
  | nil => exact ⟨state, rfl, start⟩
  | cons input rest ih =>
      obtain ⟨next, stepped, nextInv⟩ := advance state input start meets.1
      rw [runFrom, stepped]
      exact ih nextInv (meets.2 next stepped)

/--
A property that good steps keep, that the first bad step destroys and that never
comes back holds at the end exactly when all steps were good.
-/
theorem final_iff_meets {inv good : σ → Prop} {cond : σ → ι → Prop}
    (keep : ∀ state input next, inv state → good state → cond state input →
      step state input = some next → inv next ∧ good next)
    (destroy : ∀ state input next, inv state → good state → ¬cond state input →
      step state input = some next → ¬good next)
    (lost : ∀ state input next, ¬good state → step state input = some next → ¬good next)
    {state final : σ} {inputs : List ι} (start : inv state) (fine : good state)
    (ran : runFrom step state inputs = some final) :
    good final ↔ Meets step cond state inputs := by
  induction inputs generalizing state with
  | nil =>
      cases ran
      exact iff_of_true fine trivial
  | cons input rest ih =>
      obtain ⟨next, stepped, remaining⟩ := runFrom_cons_eq_some ran
      by_cases meets : cond state input
      · obtain ⟨nextInv, nextGood⟩ := keep state input next start fine meets stepped
        rw [ih nextInv nextGood remaining, Meets, stepped]
        constructor
        · intro tail
          exact ⟨meets, fun other equal => Option.some.inj equal ▸ tail⟩
        · intro all
          exact all.2 next rfl
      · have bad := destroy state input next start fine meets stepped
        refine iff_of_false ?_ fun all => meets all.1
        exact @invariant _ _ _ (fun reached => ¬good reached) _
          (fun state input _ next => lost state input next) _ _ bad remaining

end Run

end OpenCLDecompiler.Library
