/-!
# Simulation of deterministic machines

A machine is a partial step function; it has ended in a configuration without a
step.  If one machine is simulated by another in such a way that each of its
steps is matched by at least one step, both end from related configurations
with the same outcomes or both run forever.
-/

namespace OpenCLDecompiler.Library

namespace Machine

variable {α β ω : Type}

/-- A given number of steps leads from one configuration to another. -/
inductive Steps (next : α → Option α) : Nat → α → α → Prop where
  | refl (config : α) : Steps next 0 config config
  | step {count : Nat} {config successor final : α} (moves : next config = some successor)
      (rest : Steps next count successor final) : Steps next (count + 1) config final

/-- The machine ends in the given configuration. -/
def Ends (next : α → Option α) (config final : α) : Prop :=
  ∃ count, Steps next count config final ∧ next final = none

variable {next : α → Option α}

theorem Steps.single {config successor : α} (moves : next config = some successor) :
    Steps next 1 config successor := .step moves (.refl _)

theorem Steps.append {first second : Nat} {config middle final : α}
    (head : Steps next first config middle) (tail : Steps next second middle final) :
    Steps next (first + second) config final := by
  induction head with
  | refl config =>
      rw [Nat.zero_add]
      exact tail
  | step moves _ ih =>
      rw [Nat.succ_add_eq_add_succ]
      exact .step moves (ih tail)

/-- A run that has ended passes through every configuration on its way. -/
theorem Steps.split {count taken : Nat} {config middle final : α}
    (whole : Steps next count config final) (ended : next final = none)
    (part : Steps next taken config middle) :
    ∃ remaining, count = taken + remaining ∧ Steps next remaining middle final := by
  induction part generalizing count with
  | refl config => exact ⟨count, (Nat.zero_add count).symm, whole⟩
  | step moves _ ih =>
      cases whole with
      | refl =>
          rw [ended] at moves
          cases moves
      | step wholeMoves rest =>
          cases Option.some.inj (moves.symm.trans wholeMoves)
          obtain ⟨remaining, total, tail⟩ := ih rest
          exact ⟨remaining, by omega, tail⟩

/-- A run has at most one end. -/
theorem Ends.unique {config first second : α} (left : Ends next config first)
    (right : Ends next config second) : first = second := by
  obtain ⟨_, leftSteps, leftEnded⟩ := left
  obtain ⟨_, rightSteps, rightEnded⟩ := right
  obtain ⟨_, _, rest⟩ := leftSteps.split leftEnded rightSteps
  cases rest with
  | refl => rfl
  | step impossible _ =>
      rw [rightEnded] at impossible
      cases impossible

/-! ## Conditions along a run -/

/-- Every configuration reached from the given one meets the condition. -/
def Along (next : α → Option α) (cond : α → Prop) (config : α) : Prop :=
  ∀ count reached, Steps next count config reached → cond reached

theorem Along.here {cond : α → Prop} {config : α} (along : Along next cond config) : cond config :=
  along 0 config (.refl config)

theorem Along.step {cond : α → Prop} {config successor : α} (along : Along next cond config)
    (moves : next config = some successor) : Along next cond successor :=
  fun count reached steps => along (count + 1) reached (.step moves steps)

/-! ## Simulation -/

section Simulation

variable {other : β → Option β} {related : α → β → Prop} {outcome : α → ω} {otherOutcome : β → ω}
  (forward : ∀ config otherConfig successor, related config otherConfig →
    next config = some successor →
    ∃ count otherSuccessor, Steps other (count + 1) otherConfig otherSuccessor ∧
      related successor otherSuccessor)
  (stop : ∀ config otherConfig, related config otherConfig → next config = none →
    ∃ otherFinal, Ends other otherConfig otherFinal ∧ otherOutcome otherFinal = outcome config)

include forward stop

theorem ends_of_ends {config final : α} {otherConfig : β} (rel : related config otherConfig)
    (ends : Ends next config final) :
    ∃ otherFinal, Ends other otherConfig otherFinal ∧ otherOutcome otherFinal = outcome final := by
  obtain ⟨count, steps, ended⟩ := ends
  induction steps generalizing otherConfig with
  | refl config => exact stop _ _ rel ended
  | step moves _ ih =>
      obtain ⟨_, middle, head, middleRel⟩ := forward _ _ _ rel moves
      obtain ⟨otherFinal, ⟨_, tail, otherEnded⟩, same⟩ := ih middleRel ended
      exact ⟨otherFinal, ⟨_, head.append tail, otherEnded⟩, same⟩

/-- By determinism the steps that match are the steps of the other run, which therefore shrinks. -/
theorem ends_of_other_ends {config : α} {otherConfig otherFinal : β}
    (rel : related config otherConfig) (ends : Ends other otherConfig otherFinal) :
    ∃ final, Ends next config final ∧ otherOutcome otherFinal = outcome final := by
  obtain ⟨count, steps, ended⟩ := ends
  induction count using Nat.strongRecOn generalizing config otherConfig with
  | ind count ih =>
      cases moves : next config with
      | none =>
          obtain ⟨stopped, ⟨taken, run, stoppedEnded⟩, same⟩ := stop _ _ rel moves
          obtain ⟨remaining, _, rest⟩ := steps.split ended run
          cases rest with
          | refl => exact ⟨config, ⟨0, .refl config, moves⟩, same⟩
          | step impossible _ =>
              rw [stoppedEnded] at impossible
              cases impossible
      | some successor =>
          obtain ⟨taken, middle, head, middleRel⟩ := forward _ _ _ rel moves
          obtain ⟨remaining, total, rest⟩ := steps.split ended head
          obtain ⟨final, ⟨length, tail, finalEnded⟩, same⟩ :=
            ih remaining (by omega) middleRel rest
          exact ⟨final, ⟨length + 1, .step moves tail, finalEnded⟩, same⟩

/-- Simulating machines end with the same outcomes. -/
theorem ends_iff {config : α} {otherConfig : β} (rel : related config otherConfig) (result : ω) :
    (∃ final, Ends next config final ∧ outcome final = result) ↔
      ∃ otherFinal, Ends other otherConfig otherFinal ∧ otherOutcome otherFinal = result := by
  constructor
  · rintro ⟨final, ends, rfl⟩
    exact ends_of_ends forward stop rel ends
  · rintro ⟨otherFinal, ends, rfl⟩
    obtain ⟨final, finalEnds, same⟩ := ends_of_other_ends forward stop rel ends
    exact ⟨final, finalEnds, same.symm⟩

end Simulation

end Machine

end OpenCLDecompiler.Library
