import OpenCLDecompiler.Library.Simulation
import OpenCLDecompiler.Ptx.Predicates

/-!
# Guards and masks

Guarded code evaluates the guard of each instruction where it stands; masked
code performs an instruction when the predicate named by the last `ChangeMask`
held there.  The two agree on every run on which the members of a group of
instructions with one mask see the value the mask was opened with.
-/

namespace OpenCLDecompiler.Ptx

open Library

/-- One thread: its predicate registers and everything else. -/
structure Thread (δ : Type) where
  predicates : String → Bool
  data : δ

variable {ι δ : Type}

def Guard.holds (guard : Guard) (thread : Thread δ) : Bool :=
  if guard.negated then !thread.predicates guard.predicate else thread.predicates guard.predicate

/-- The label control flow goes to; `none` falls through. -/
def ControlFlow.goesTo (thread : Thread δ) : ControlFlow → Option String
  | .label _ => none
  | .branch predicate target => if thread.predicates predicate then some target else none
  | .branchNot predicate target => if thread.predicates predicate then none else some target
  | .jump target => some target

def ControlFlow.defines (name : String) : ControlFlow → Bool
  | .label other => other == name
  | _ => false

/-! ## Guarded code -/

/-- The code still to be executed, from the current instruction on. -/
structure Config (ι δ : Type) where
  rest : List (Instr ι)
  thread : Thread δ

/-- The code from a label on. -/
def fromLabel (name : String) : List (Instr ι) → Option (List (Instr ι))
  | [] => none
  | .control flow :: rest =>
      if flow.defines name then some (.control flow :: rest) else fromLabel name rest
  | .guarded _ _ :: rest => fromLabel name rest

/-- The thread after a body and whether it goes on. -/
def Body.run (perform : ι → Thread δ → Thread δ) (thread : Thread δ) : Body ι → Thread δ × Bool
  | .operation name => (perform name thread, true)
  | .endPgm => (thread, false)

/-- One instruction of guarded code; `none` at the end and at a branch to a missing label. -/
def guardedNext (perform : ι → Thread δ → Thread δ) (program : List (Instr ι))
    (config : Config ι δ) : Option (Config ι δ) :=
  match config.rest with
  | [] => none
  | .guarded guard body :: rest =>
      if guard.all (fun guard => guard.holds config.thread) then
        let result := body.run perform config.thread
        some ⟨if result.2 then rest else [], result.1⟩
      else some ⟨rest, config.thread⟩
  | .control flow :: rest =>
      match flow.goesTo config.thread with
      | none => some ⟨rest, config.thread⟩
      | some target => (fromLabel target program).map fun found => ⟨found, config.thread⟩

/-- The thread at the end of the code; `none` where a branch has no label. -/
def Config.outcome (config : Config ι δ) : Option (Thread δ) :=
  if config.rest.isEmpty then some config.thread else none

/-! ## Masked code -/

/-- `mask` is the active condition, absent when no mask is open. -/
structure MaskedConfig (ι δ : Type) where
  rest : List (MaskedInstr ι)
  thread : Thread δ
  mask : Option Bool

def maskedFromLabel (name : String) : List (MaskedInstr ι) → Option (List (MaskedInstr ι))
  | [] => none
  | .control flow :: rest =>
      if flow.defines name then some (.control flow :: rest) else maskedFromLabel name rest
  | _ :: rest => maskedFromLabel name rest

def MaskedConfig.active (config : MaskedConfig ι δ) : Bool := config.mask.getD true

def Thread.setPredicate (thread : Thread δ) (predicate : String) (value : Bool) : Thread δ :=
  { thread with
    predicates := fun other => if other = predicate then value else thread.predicates other }

def maskedNext (perform : ι → Thread δ → Thread δ) (program : List (MaskedInstr ι))
    (config : MaskedConfig ι δ) : Option (MaskedConfig ι δ) :=
  match config.rest with
  | [] => none
  | .plain body :: rest =>
      if config.active then
        let result := body.run perform config.thread
        some ⟨if result.2 then rest else [], result.1, config.mask⟩
      else some { config with rest := rest }
  | .control flow :: rest =>
      if config.active then
        match flow.goesTo config.thread with
        | none => some { config with rest := rest }
        | some target =>
            (maskedFromLabel target program).map fun found => { config with rest := found }
      else some { config with rest := rest }
  | .not destination source _ :: rest =>
      if config.active then
        some ⟨rest, config.thread.setPredicate destination (!config.thread.predicates source),
          config.mask⟩
      else some { config with rest := rest }
  | .changeMask predicate :: rest =>
      some ⟨rest, config.thread, some (config.thread.predicates predicate)⟩
  | .unmask :: rest => some ⟨rest, config.thread, none⟩

def MaskedConfig.outcome (config : MaskedConfig ι δ) : Option (Thread δ) :=
  if config.rest.isEmpty then some config.thread else none

/-- Both programs end in the same thread, or with the same missing label, or not at all. -/
def SameEffect (perform : ι → Thread δ → Thread δ) (program : List (Instr ι))
    (masked : List (MaskedInstr ι)) (thread : Thread δ) : Prop :=
  ∀ result,
    (∃ final, Machine.Ends (guardedNext perform program) ⟨program, thread⟩ final ∧
      final.outcome = result) ↔
    ∃ final, Machine.Ends (maskedNext perform masked) ⟨masked, thread, none⟩ final ∧
      final.outcome = result

/-! ## The conditions -/

def Instr.maskPredicate? : Instr ι → Option String
  | .guarded guard _ => guard.map Guard.maskPredicate
  | .control _ => none

/-- Every instruction with a negated guard joins a mask that is open already. -/
def NegationsJoin : Option String → List (Instr ι) → Prop
  | _, [] => True
  | opened, instr :: rest =>
      (∀ guard body, instr = .guarded (some guard) body → guard.negated = true →
        opened = some guard.maskPredicate) ∧
      NegationsJoin instr.maskPredicate? rest

/--
A guarded instruction that is followed by another one with the same mask leaves
the value of the guard as it was.
-/
def Steady (perform : ι → Thread δ → Thread δ) (program : List (Instr ι)) (config : Config ι δ) :
    Prop :=
  ∀ guard body rest next nextBody later successor,
    config.rest = .guarded (some guard) body :: rest →
    guardedNext perform program config = some successor →
    successor.rest = .guarded (some next) nextBody :: later →
    next.maskPredicate = guard.maskPredicate →
    next.holds successor.thread = guard.holds config.thread

/-! ## The pass as a recursion over the code -/

/-- The code the pass makes of the remaining instructions when a predicate is open. -/
def lowered : Option String → List (Instr ι) → Option (List (MaskedInstr ι))
  | opened, [] => some (closing opened)
  | opened, .control flow :: rest =>
      (lowered none rest).map fun tail => closing opened ++ .control flow :: tail
  | opened, .guarded none body :: rest =>
      (lowered none rest).map fun tail => closing opened ++ .plain body :: tail
  | opened, .guarded (some guard) body :: rest =>
      if opened = some guard.maskPredicate then
        (lowered opened rest).map fun tail => .plain body :: tail
      else
        (negation guard).bind fun negated =>
          (lowered (some guard.maskPredicate) rest).map fun tail =>
            closing opened ++ negated ++ .changeMask guard.maskPredicate :: .plain body :: tail

theorem runFrom_predicatesStep (st : PredicatesState ι) (instrs : List (Instr ι)) :
    ((Run.runFrom predicatesStep st instrs).map fun final =>
      final.instructions ++ closing final.openPredicate) =
    (lowered st.openPredicate instrs).map fun tail => st.instructions ++ tail := by
  induction instrs generalizing st with
  | nil => rfl
  | cons instr rest ih =>
      match instr with
      | .control flow =>
          change ((Run.runFrom predicatesStep _ rest).map _) = _
          rw [ih]
          simp [lowered, PredicatesState.emit, Function.comp_def]
      | .guarded none body =>
          change ((Run.runFrom predicatesStep _ rest).map _) = _
          rw [ih]
          simp [lowered, PredicatesState.emit, Function.comp_def]
      | .guarded (some guard) body =>
          rw [Run.runFrom]
          by_cases joins : st.openPredicate = some guard.maskPredicate
          · simp only [predicatesStep, if_pos joins, Option.bind_some, lowered]
            rw [ih]
            simp [PredicatesState.emit, Function.comp_def, joins]
          · simp only [predicatesStep, if_neg joins, lowered]
            cases negation guard with
            | none => rfl
            | some negated =>
                simp only [Option.bind_eq_bind, Option.bind_some]
                rw [ih]
                simp [PredicatesState.emit, Function.comp_def]

theorem predicatesPass_eq (predicates : List String) (instrs : List (Instr ι)) :
    predicatesPass predicates instrs = lowered none instrs := by
  unfold predicatesPass
  rw [runFrom_predicatesStep]
  simp

theorem negation_eq (guard : Guard) :
    (negation guard : Option (List (MaskedInstr ι))) =
      if guard.negated then none else some [] := by
  unfold negation
  split <;> rfl

/-- The pass completes exactly when no negated guard has to open a mask. -/
theorem exists_lowered_iff (opened : Option String) (instrs : List (Instr ι)) :
    (∃ out, lowered opened instrs = some out) ↔ NegationsJoin opened instrs := by
  induction instrs generalizing opened with
  | nil => exact iff_of_true ⟨_, rfl⟩ trivial
  | cons instr rest ih =>
      match instr with
      | .control flow =>
          have tail := ih none
          simp only [lowered, Option.map_eq_some_iff, NegationsJoin, Instr.maskPredicate?]
          rw [← tail]
          constructor
          · rintro ⟨_, out, done, _⟩
            exact ⟨(fun _ _ impossible => by cases impossible), out, done⟩
          · rintro ⟨_, out, done⟩
            exact ⟨_, out, done, rfl⟩
      | .guarded none body =>
          have tail := ih none
          simp only [lowered, Option.map_eq_some_iff, NegationsJoin, Instr.maskPredicate?,
            Option.map_none]
          rw [← tail]
          constructor
          · rintro ⟨_, out, done, _⟩
            exact ⟨(fun _ _ impossible => by cases impossible), out, done⟩
          · rintro ⟨_, out, done⟩
            exact ⟨_, out, done, rfl⟩
      | .guarded (some guard) body =>
          have tail := ih (some guard.maskPredicate)
          simp only [NegationsJoin, Instr.maskPredicate?, Option.map_some]
          rw [← tail]
          by_cases joins : opened = some guard.maskPredicate
          · simp only [lowered, if_pos joins, Option.map_eq_some_iff]
            rw [joins]
            constructor
            · rintro ⟨_, out, done, _⟩
              refine ⟨fun other _ equal _ => ?_, out, done⟩
              cases equal
              rfl
            · rintro ⟨_, out, done⟩
              exact ⟨_, out, done, rfl⟩
          · simp only [lowered, if_neg joins, negation_eq]
            cases negated : guard.negated with
            | true =>
                simp only [if_pos, Option.bind_none]
                refine iff_of_false (fun ⟨_, impossible⟩ => by cases impossible) ?_
                rintro ⟨all, _⟩
                exact joins (all guard body rfl negated)
            | false =>
                simp only [Bool.false_eq_true, if_false, Option.bind_some, Option.map_eq_some_iff]
                constructor
                · rintro ⟨_, out, done, _⟩
                  refine ⟨fun other _ equal isNegated => ?_, out, done⟩
                  cases equal
                  rw [negated] at isNegated
                  cases isNegated
                · rintro ⟨_, out, done⟩
                  exact ⟨_, out, done, rfl⟩

/-! ## Labels -/

theorem maskedFromLabel_closing (name : String) (opened : Option String)
    (tail : List (MaskedInstr ι)) :
    maskedFromLabel name (closing opened ++ tail) = maskedFromLabel name tail := by
  cases opened <;> rfl

@[simp]
theorem maskedFromLabel_plain (name : String) (body : Body ι) (tail : List (MaskedInstr ι)) :
    maskedFromLabel name (.plain body :: tail) = maskedFromLabel name tail := rfl

@[simp]
theorem maskedFromLabel_changeMask (name predicate : String) (tail : List (MaskedInstr ι)) :
    maskedFromLabel name (.changeMask predicate :: tail) = maskedFromLabel name tail := rfl

/-- A label of the masked code is where the pass was at the label, with no mask open. -/
theorem maskedFromLabel_lowered (name : String) {opened : Option String} {instrs : List (Instr ι)}
    {out : List (MaskedInstr ι)} (done : lowered opened instrs = some out) :
    (fromLabel name instrs = none → maskedFromLabel name out = none) ∧
      ∀ found, fromLabel name instrs = some found →
        ∃ target, maskedFromLabel name out = some target ∧ lowered none found = some target := by
  induction instrs generalizing opened out with
  | nil =>
      cases done
      refine ⟨fun _ => ?_, fun _ impossible => by cases impossible⟩
      cases opened <;> rfl
  | cons instr rest ih =>
      match instr with
      | .control flow =>
          obtain ⟨tail, tailDone, rfl⟩ := Option.map_eq_some_iff.mp done
          rw [maskedFromLabel_closing]
          by_cases here : flow.defines name = true
          · simp only [fromLabel, maskedFromLabel, if_pos here]
            refine ⟨fun impossible => (Option.some_ne_none _ impossible).elim, ?_⟩
            rintro found equal
            cases equal
            refine ⟨_, rfl, ?_⟩
            simp [lowered, tailDone, closing]
          · simp only [fromLabel, maskedFromLabel, if_neg here]
            exact ih tailDone
      | .guarded none body =>
          obtain ⟨tail, tailDone, rfl⟩ := Option.map_eq_some_iff.mp done
          rw [maskedFromLabel_closing, maskedFromLabel_plain]
          exact ih tailDone
      | .guarded (some guard) body =>
          by_cases joins : opened = some guard.maskPredicate
          · simp only [lowered, if_pos joins] at done
            obtain ⟨tail, tailDone, rfl⟩ := Option.map_eq_some_iff.mp done
            rw [maskedFromLabel_plain]
            exact ih tailDone
          · simp only [lowered, if_neg joins, negation_eq] at done
            cases negated : guard.negated with
            | true =>
                rw [negated] at done
                cases done
            | false =>
                rw [negated] at done
                simp only [Bool.false_eq_true, if_false, Option.bind_some] at done
                obtain ⟨tail, tailDone, rfl⟩ := Option.map_eq_some_iff.mp done
                rw [List.append_nil, maskedFromLabel_closing, maskedFromLabel_changeMask,
                  maskedFromLabel_plain]
                exact ih tailDone

/-! ## One instruction -/

section Steps

variable (perform : ι → Thread δ → Thread δ)

/-- A body that is performed or skipped. -/
def Body.runIf (active : Bool) (thread : Thread δ) (body : Body ι) : Thread δ × Bool :=
  if active then body.run perform thread else (thread, true)

theorem guardedNext_guarded (program : List (Instr ι)) (guard : Option Guard) (body : Body ι)
    (rest : List (Instr ι)) (thread : Thread δ) :
    guardedNext perform program ⟨.guarded guard body :: rest, thread⟩ =
      let result := body.runIf perform (guard.all fun guard => guard.holds thread) thread
      some ⟨if result.2 then rest else [], result.1⟩ := by
  change (if guard.all (fun guard => guard.holds thread) then _ else _) = _
  unfold Body.runIf
  cases guard.all (fun guard => guard.holds thread) <;> rfl

theorem guardedNext_goesOn (program : List (Instr ι)) (guard : Guard) (body : Body ι)
    (rest : List (Instr ι)) (thread : Thread δ)
    (goesOn : (body.runIf perform (guard.holds thread) thread).2 = true) :
    guardedNext perform program ⟨.guarded (some guard) body :: rest, thread⟩ =
      some ⟨rest, (body.runIf perform (guard.holds thread) thread).1⟩ := by
  rw [guardedNext_guarded]
  simp [goesOn]

theorem maskedNext_plain (program : List (MaskedInstr ι)) (body : Body ι)
    (tail : List (MaskedInstr ι)) (thread : Thread δ) (mask : Option Bool) :
    maskedNext perform program ⟨.plain body :: tail, thread, mask⟩ =
      let result := body.runIf perform (mask.getD true) thread
      some ⟨if result.2 then tail else [], result.1, mask⟩ := by
  change (if mask.getD true then _ else _) = _
  unfold Body.runIf
  cases mask.getD true <;> rfl

theorem guardedNext_control (program : List (Instr ι)) (flow : ControlFlow) (rest : List (Instr ι))
    (thread : Thread δ) :
    guardedNext perform program ⟨.control flow :: rest, thread⟩ =
      match flow.goesTo thread with
      | none => some ⟨rest, thread⟩
      | some target => (fromLabel target program).map fun found => ⟨found, thread⟩ := rfl

theorem maskedNext_control (program : List (MaskedInstr ι)) (flow : ControlFlow)
    (tail : List (MaskedInstr ι)) (thread : Thread δ) :
    maskedNext perform program ⟨.control flow :: tail, thread, none⟩ =
      match flow.goesTo thread with
      | none => some ⟨tail, thread, none⟩
      | some target => (maskedFromLabel target program).map fun found => ⟨found, thread, none⟩ := rfl

/-- The mask that may be open is closed before code without a mask. -/
theorem steps_closing (program : List (MaskedInstr ι)) {opened : Option String}
    {mask : Option Bool} (agrees : opened = none → mask = none) (tail : List (MaskedInstr ι))
    (thread : Thread δ) :
    ∃ count, Machine.Steps (maskedNext perform program) count ⟨closing opened ++ tail, thread, mask⟩
      ⟨tail, thread, none⟩ := by
  cases opened with
  | none =>
      rw [agrees rfl]
      exact ⟨0, .refl _⟩
  | some predicate => exact ⟨1, .single rfl⟩

end Steps

/-! ## The simulation -/

/-- The open mask has the value of the guard of the next instruction, if that belongs to it. -/
def MaskAgrees (opened : Option String) (mask : Option Bool) (config : Config ι δ) : Prop :=
  match opened with
  | none => mask = none
  | some predicate => ∃ value, mask = some value ∧
      ∀ guard body rest, config.rest = .guarded (some guard) body :: rest →
        guard.maskPredicate = predicate → guard.holds config.thread = value

theorem MaskAgrees.closed {opened : Option String} {mask : Option Bool} {config : Config ι δ}
    (agrees : MaskAgrees opened mask config) : opened = none → mask = none := by
  rintro rfl
  exact agrees

structure Related (perform : ι → Thread δ → Thread δ) (program : List (Instr ι))
    (config : Config ι δ) (other : MaskedConfig ι δ) : Prop where
  steady : Machine.Along (guardedNext perform program) (Steady perform program) config
  thread : other.thread = config.thread
  code : (config.rest = [] ∧ other.rest = []) ∨
    ∃ opened, lowered opened config.rest = some other.rest ∧ MaskAgrees opened other.mask config

section Simulation

variable {perform : ι → Thread δ → Thread δ} {program : List (Instr ι)}
  {masked : List (MaskedInstr ι)}

/-- A body that both sides perform or both skip keeps them related. -/
theorem related_after_body {active : Bool} {body : Body ι} {thread : Thread δ}
    {rest : List (Instr ι)} {tail : List (MaskedInstr ι)} {opened : Option String}
    {mask : Option Bool}
    (steady : Machine.Along (guardedNext perform program) (Steady perform program)
      ⟨if (body.runIf perform active thread).2 then rest else [], (body.runIf perform active thread).1⟩)
    (done : lowered opened rest = some tail)
    (agrees : (body.runIf perform active thread).2 = true →
      MaskAgrees opened mask ⟨rest, (body.runIf perform active thread).1⟩) :
    Related perform program
      ⟨if (body.runIf perform active thread).2 then rest else [], (body.runIf perform active thread).1⟩
      ⟨if (body.runIf perform active thread).2 then tail else [], (body.runIf perform active thread).1,
        mask⟩ := by
  refine ⟨steady, rfl, ?_⟩
  cases goesOn : (body.runIf perform active thread).2 with
  | true => exact Or.inr ⟨opened, done, agrees goesOn⟩
  | false => exact Or.inl ⟨rfl, rfl⟩

theorem related_forward (out : lowered none program = some masked) (config : Config ι δ)
    (other : MaskedConfig ι δ) (successor : Config ι δ) (rel : Related perform program config other)
    (moves : guardedNext perform program config = some successor) :
    ∃ count otherSuccessor,
      Machine.Steps (maskedNext perform masked) (count + 1) other otherSuccessor ∧
      Related perform program successor otherSuccessor := by
  obtain ⟨steady, same, code⟩ := rel
  obtain ⟨instrs, thread⟩ := config
  obtain ⟨code', otherThread, mask⟩ := other
  cases same
  have nextSteady := steady.step moves
  rcases code with ⟨rfl, _⟩ | ⟨opened, done, agrees⟩
  · cases moves
  match instrs with
  | [] => cases moves
  | .control flow :: rest =>
      obtain ⟨tail, tailDone, rfl⟩ := Option.map_eq_some_iff.mp done
      obtain ⟨count, closes⟩ :=
        steps_closing perform masked agrees.closed (.control flow :: tail) thread
      rw [guardedNext_control] at moves
      have follows := maskedNext_control perform masked flow tail thread
      cases goes : flow.goesTo thread with
      | none =>
          rw [goes] at moves follows
          cases moves
          exact ⟨count, _, closes.append (.single follows), nextSteady, rfl,
            Or.inr ⟨none, tailDone, rfl⟩⟩
      | some target =>
          rw [goes] at moves follows
          dsimp only at moves follows
          obtain ⟨found, located, rfl⟩ := Option.map_eq_some_iff.mp moves
          obtain ⟨place, otherLocated, placeDone⟩ :=
            (maskedFromLabel_lowered target out).2 found located
          rw [otherLocated] at follows
          exact ⟨count, _, closes.append (.single follows), nextSteady, rfl,
            Or.inr ⟨none, placeDone, rfl⟩⟩
  | .guarded none body :: rest =>
      obtain ⟨tail, tailDone, rfl⟩ := Option.map_eq_some_iff.mp done
      obtain ⟨count, closes⟩ :=
        steps_closing perform masked agrees.closed (.plain body :: tail) thread
      rw [guardedNext_guarded] at moves
      cases moves
      exact ⟨count, _, closes.append (.single (maskedNext_plain perform masked body tail thread none)),
        related_after_body nextSteady tailDone fun _ => rfl⟩
  | .guarded (some guard) body :: rest =>
      have keeps := steady.here guard body rest
      by_cases joins : opened = some guard.maskPredicate
      · simp only [lowered, if_pos joins] at done
        obtain ⟨tail, tailDone, rfl⟩ := Option.map_eq_some_iff.mp done
        subst joins
        obtain ⟨value, rfl, sees⟩ := agrees
        have current : guard.holds thread = value := sees guard body rest rfl rfl
        have follows := maskedNext_plain perform masked body tail thread (some value)
        subst current
        rw [guardedNext_guarded] at moves
        cases moves
        refine ⟨0, _, .single follows, related_after_body nextSteady tailDone fun goesOn => ?_⟩
        exact ⟨_, rfl, fun next nextBody later upcoming shared =>
          keeps next nextBody later _ rfl
            (guardedNext_goesOn perform program guard body rest thread goesOn) upcoming shared⟩
      · simp only [lowered, if_neg joins, negation_eq] at done
        cases negated : guard.negated with
        | true =>
            rw [negated] at done
            cases done
        | false =>
            rw [negated] at done
            simp only [Bool.false_eq_true, if_false, Option.bind_some, List.append_nil] at done
            obtain ⟨tail, tailDone, rfl⟩ := Option.map_eq_some_iff.mp done
            obtain ⟨count, closes⟩ := steps_closing perform masked agrees.closed
              (.changeMask guard.maskPredicate :: .plain body :: tail) thread
            have value : thread.predicates guard.maskPredicate = guard.holds thread := by
              simp [Guard.maskPredicate, Guard.holds, negated]
            have opens : maskedNext perform masked
                ⟨.changeMask guard.maskPredicate :: .plain body :: tail, thread, none⟩ =
                some ⟨.plain body :: tail, thread, some (guard.holds thread)⟩ := by
              rw [← value]
              rfl
            have follows :=
              maskedNext_plain perform masked body tail thread (some (guard.holds thread))
            rw [guardedNext_guarded] at moves
            cases moves
            refine ⟨count + 1, _, (closes.append (.single opens)).append (.single follows),
              related_after_body nextSteady tailDone fun goesOn => ?_⟩
            exact ⟨_, rfl, fun next nextBody later upcoming shared =>
              keeps next nextBody later _ rfl
                (guardedNext_goesOn perform program guard body rest thread goesOn) upcoming shared⟩

theorem related_stop (out : lowered none program = some masked) (config : Config ι δ)
    (other : MaskedConfig ι δ) (rel : Related perform program config other)
    (stops : guardedNext perform program config = none) :
    ∃ otherFinal, Machine.Ends (maskedNext perform masked) other otherFinal ∧
      otherFinal.outcome = config.outcome := by
  obtain ⟨_, same, code⟩ := rel
  obtain ⟨instrs, thread⟩ := config
  obtain ⟨code', otherThread, mask⟩ := other
  cases same
  rcases code with ⟨rfl, rfl⟩ | ⟨opened, done, agrees⟩
  · exact ⟨_, ⟨0, .refl _, rfl⟩, rfl⟩
  match instrs with
  | [] =>
      cases done
      obtain ⟨count, closes⟩ := steps_closing perform masked agrees.closed [] thread
      rw [List.append_nil] at closes
      exact ⟨_, ⟨count, closes, rfl⟩, rfl⟩
  | .guarded guard body :: rest =>
      rw [guardedNext_guarded] at stops
      cases stops
  | .control flow :: rest =>
      obtain ⟨tail, tailDone, rfl⟩ := Option.map_eq_some_iff.mp done
      obtain ⟨count, closes⟩ :=
        steps_closing perform masked agrees.closed (.control flow :: tail) thread
      rw [guardedNext_control] at stops
      have follows := maskedNext_control perform masked flow tail thread
      cases goes : flow.goesTo thread with
      | none =>
          rw [goes] at stops
          cases stops
      | some target =>
          rw [goes] at stops follows
          dsimp only at stops follows
          have missing := Option.map_eq_none_iff.mp stops
          rw [(maskedFromLabel_lowered target out).1 missing] at follows
          exact ⟨_, ⟨count, closes, follows⟩, rfl⟩

end Simulation

/-! ## The pass -/

/--
The pass completes exactly when every negated guard joins an open mask.  Its
output then has the effect of the guarded code for every thread on whose run the
instructions of a group leave the guard of the next one as it was.
-/
theorem predicatesPass_correct (perform : ι → Thread δ → Thread δ) (predicates : List String)
    (program : List (Instr ι)) :
    ((∃ out, predicatesPass predicates program = some out) ↔ NegationsJoin none program) ∧
      ∀ out, predicatesPass predicates program = some out → ∀ thread,
        Machine.Along (guardedNext perform program) (Steady perform program) ⟨program, thread⟩ →
        SameEffect perform program out thread := by
  rw [predicatesPass_eq]
  refine ⟨exists_lowered_iff none program, fun out done thread steady result => ?_⟩
  have start : Related perform program ⟨program, thread⟩ ⟨out, thread, none⟩ :=
    ⟨steady, rfl, Or.inr ⟨none, done, rfl⟩⟩
  exact Machine.ends_iff (related_forward done) (related_stop done) start result

section Instance

/-- Two operations on one flag: clearing the predicate `p` and setting the flag. -/
inductive FlagOperation where
  | clear
  | set

def performFlag : FlagOperation → Thread Bool → Thread Bool
  | .clear, thread => thread.setPredicate "p" false
  | .set, thread => { thread with data := true }

def guardP : Guard := ⟨"p", false⟩

def flagThread : Thread Bool := ⟨fun _ => true, false⟩

/-- A group of two instructions that leave the guard alone. -/
def setTwice : List (Instr FlagOperation) :=
  [.guarded (some guardP) (.operation .set), .guarded (some guardP) (.operation .set)]

theorem predicatesPass_correct_setTwice :
    (∃ out, predicatesPass [] setTwice = some out ∧
      SameEffect performFlag setTwice out flagThread) ∧ NegationsJoin none setTwice := by
  obtain ⟨completes, effect⟩ := predicatesPass_correct performFlag [] setTwice
  have done : predicatesPass [] setTwice = some
      [.changeMask "p", .plain (.operation .set), .plain (.operation .set), .unmask] := rfl
  refine ⟨⟨_, done, effect _ done flagThread ?_⟩, completes.mp ⟨_, done⟩⟩
  intro count reached steps
  cases steps with
  | refl =>
      rintro guard body rest next nextBody later successor here moved upcoming _
      cases here
      cases moved
      cases upcoming
      rfl
  | step first others =>
      cases first
      cases others with
      | refl =>
          rintro guard body rest next nextBody later successor here moved upcoming _
          cases here
          cases moved
          cases upcoming
      | step second others =>
          cases second
          cases others with
          | refl =>
              rintro guard body rest next nextBody later successor here
              cases here
          | step third _ => cases third

def negatedGuard : List (Instr FlagOperation) :=
  [.guarded (some ⟨"p", true⟩) (.operation .set)]

/-- The first instruction of the group clears the guard of the second one. -/
def clearThenSet : List (Instr FlagOperation) :=
  [.guarded (some guardP) (.operation .clear), .guarded (some guardP) (.operation .set)]

/-- The pass does not complete on a negated guard, and it reads an overwritten guard too early. -/
theorem predicatesPass_fails :
    predicatesPass [] negatedGuard = none ∧
      ∃ out, predicatesPass [] clearThenSet = some out ∧
        ¬SameEffect performFlag clearThenSet out flagThread := by
  refine ⟨rfl, _, rfl, fun same => ?_⟩
  have guardedEnds : Machine.Ends (guardedNext performFlag clearThenSet) ⟨clearThenSet, flagThread⟩
      ⟨[], flagThread.setPredicate "p" false⟩ :=
    ⟨2, .step rfl (.step rfl (.refl _)), rfl⟩
  obtain ⟨final, ends, outcome⟩ := (same _).mp ⟨_, guardedEnds, rfl⟩
  have maskedEnds : Machine.Ends (maskedNext performFlag
      [.changeMask "p", .plain (.operation .clear), .plain (.operation .set), .unmask])
      ⟨[.changeMask "p", .plain (.operation .clear), .plain (.operation .set), .unmask],
        flagThread, none⟩
      ⟨[], { flagThread.setPredicate "p" false with data := true }, none⟩ :=
    ⟨4, .step rfl (.step rfl (.step rfl (.step rfl (.refl _)))), rfl⟩
  cases ends.unique maskedEnds
  cases outcome

end Instance

end OpenCLDecompiler.Ptx
