import OpenCLDecompiler.Exec.Conditions
import OpenCLDecompiler.Exec.Tracking

/-!
# Agreement of the tracked conjunctions with the hardware

For one lane: when the conjunction of every register has the truth of the bit of
the register, and what an instruction needs for that to stay so.
-/

namespace OpenCLDecompiler.Exec

open Library

/-- The decompiler's state beside the bits of one lane. -/
structure Lane where
  state : TrackState
  bits : Bits

/-- One mask instruction in the decompiler and on the hardware. -/
def laneStep (truth : String → Bool) (lane : Lane) (instr : MaskInstr) : Option Lane :=
  (track lane.state instr).map fun next => ⟨next, hardware truth lane.bits instr⟩

/-- The conjunction of every register is true exactly when its bit is 1. -/
def Agree (truth : String → Bool) (st : TrackState) (bits : Bits) : Prop :=
  ∀ name cond, st.execRegisters.get? name = some cond → cond.eval truth = bits name

/-- A conjunction the register may already have fits its new bit. -/
def Fits (truth : String → Bool) (st : TrackState) (name : String) (bit : Bool) : Prop :=
  ∀ cond, st.execRegisters.get? name = some cond → cond.eval truth = bit

section Frame

variable {truth : String → Bool} {st : TrackState} {bits : Bits}

theorem Agree.write (agree : Agree truth st bits) {name text : String} {cond : ExecCondition}
    {bit : Bool} (same : cond.eval truth = bit) :
    Agree truth (st.write name cond text) (Function.update bits name bit) := by
  intro other found known
  rw [TrackState.write, PyDict.get?_set] at known
  by_cases equal : other = name
  · subst equal
    rw [if_pos rfl] at known
    cases known
    rw [Function.update_self, same]
  · rw [if_neg equal] at known
    rw [Function.update_of_ne equal]
    exact agree other found known

theorem Agree.setVal (agree : Agree truth st bits) {name text : String} {bit : Bool}
    (fits : Fits truth st name bit) :
    Agree truth (st.setVal name text) (Function.update bits name bit) := by
  intro other found known
  by_cases equal : other = name
  · subst equal
    rw [Function.update_self]
    exact fits found known
  · rw [Function.update_of_ne equal]
    exact agree other found known

/-- `UseMask` changes no conjunction. -/
theorem fill_useMask {next : TrackState} (agree : Agree truth next bits)
    (known : (next.execRegisters.get? execReg.name).isSome = true) :
    ∃ final, fill next (.useMask execReg) = some final ∧ Agree truth final bits := by
  obtain ⟨cond, found⟩ := Option.isSome_iff_exists.mp known
  refine ⟨next.setVal maskName cond.top, ?_, agree⟩
  rw [fill, found]
  rfl

theorem maskAfter_agrees {dest : MaskReg} {next : TrackState} (agree : Agree truth next bits)
    (known : dest.name = "exec" → (next.execRegisters.get? dest.name).isSome = true) :
    ∃ final, Run.runFrom fill next (maskAfter dest) = some final ∧ Agree truth final bits := by
  unfold maskAfter
  split
  · rename_i writesExec
    have present := known writesExec
    rw [writesExec] at present
    obtain ⟨final, filled, after⟩ := fill_useMask agree present
    exact ⟨final, by rw [Run.runFrom, filled]; rfl, after⟩
  · exact ⟨next, rfl, agree⟩

theorem isSome_get?_write (name text : String) (cond : ExecCondition) :
    ((st.write name cond text).execRegisters.get? name).isSome = true := by
  rw [TrackState.write, PyDict.get?_set_self]
  rfl

theorem Agree.initPred (agree : Agree truth st bits) {name : String} (one : bits name = true) :
    Agree truth (st.initPred name) bits := by
  have written : Agree truth (st.initPred name) (Function.update bits name true) :=
    agree.write (ExecCondition.eval_default truth)
  rwa [← one, Function.update_eq_self] at written

theorem agree_start {predicates : List String}
    (ones : ∀ name ∈ maskName :: predicates, bits name = true) :
    Agree truth (.start predicates) bits := by
  have grow : ∀ (names : List String) (st : TrackState), Agree truth st bits →
      (∀ name ∈ names, bits name = true) →
      Agree truth (names.foldl TrackState.initPred st) bits := by
    intro names
    induction names with
    | nil => exact fun _ agree _ => agree
    | cons name rest ih =>
        intro st agree ones
        exact ih _ (agree.initPred (ones name List.mem_cons_self))
          fun other inside => ones other (List.mem_cons_of_mem name inside)
  refine grow _ .empty ?_ ones
  rintro name cond known
  simp [TrackState.empty] at known

end Frame

/-! ## What the instructions need -/

/-- The text kept for the second source tells its bit wherever the first source holds. -/
def AndTells (truth : String → Bool) (lane : Lane) (sources : MaskReg × MaskReg) : Prop :=
  (lane.state.execRegisters.get? sources.1.name).isSome = true ∧
    ∃ text, lane.state.vals.get? sources.2.name = some text ∧
      (lane.bits sources.1.name = true → truth text = lane.bits sources.2.name)

/-- Both sources have conjunctions, and these are in the given relation. -/
def BothTell (related : ExecCondition → ExecCondition → Prop) (lane : Lane)
    (sources : MaskReg × MaskReg) : Prop :=
  ∃ old newCond, lane.state.execRegisters.get? sources.1.name = some old ∧
    lane.state.execRegisters.get? sources.2.name = some newCond ∧ related old newCond

/-- One conjunction is the other with one further condition. -/
def Differ (left right : ExecCondition) : Prop :=
  ExecCondition.OneMore left right ∨ ExecCondition.OneMore right left

/-- What a logical instruction needs to compute `left op right` from its operands. -/
def LogicOp.Tells (op : LogicOp) (truth : String → Bool) (lane : Lane) (operands : LogicOperands)
    (left right : String) : Prop :=
  match op with
  | .and => AndTells truth lane operands.andSources
  | .or => BothTell ExecCondition.OrRecognised lane operands.orSources
  | .xor => BothTell Differ lane operands.orSources
  | .andn2 => BothTell Differ lane operands.orSources ∧
      (lane.bits right = true → lane.bits left = true)

/-- What an instruction needs in order to track the bit of the lane. -/
def Tells (truth : String → Bool) (lane : Lane) : MaskInstr → Prop
  | .cmp dest newValue =>
      if dest.isPredicate = true then lane.bits "exec" = true ∨ truth newValue = false
      else Fits truth lane.state dest.name (lane.bits "exec" && truth newValue)
  | .cmpx newValue => lane.bits "exec" = true ∨ truth newValue = false
  | .logic op operands => op.Tells truth lane operands operands.src0.name operands.src1.name
  | .not dest source =>
      ∃ text, lane.state.vals.get? source.name = some text ∧
        if dest.isPredicate = true ∧ source.isPredicate = true then
          truth text = lane.bits source.name
        else Fits truth lane.state dest.name !lane.bits source.name
  | .mov dest source =>
      if source.isPredicate = true ∨ dest.isPredicate = true then
        (lane.state.execRegisters.get? source.name).isSome = true
      else (lane.state.vals.get? source.name).isSome = true ∧
        Fits truth lane.state dest.name (lane.bits source.name)
  | .saveexec op dest source =>
      (lane.state.execRegisters.get? "exec").isSome = true ∧ dest.name ≠ source.name ∧
        op.Tells truth lane (saveexecOperands source) source.name "exec"

/-! ## One instruction -/

section Step

variable {valuation : Valuation} {lane : Lane}

theorem LogicOperands.andSources_cases (operands : LogicOperands) :
    operands.andSources = (operands.src0, operands.src1) ∨
      operands.andSources = (operands.src1, operands.src0) := by
  unfold andSources
  split
  · exact .inl rfl
  · exact .inr rfl

theorem LogicOperands.orSources_cases (operands : LogicOperands) :
    operands.orSources = (operands.src0, operands.src1) ∨
      operands.orSources = (operands.src1, operands.src0) := by
  unfold orSources
  split
  · exact .inr rfl
  · exact .inl rfl

/-- A symmetric operation does not see the order in which a handler takes its sources. -/
theorem bit_sources {op : Bool → Bool → Bool} (symmetric : ∀ left right, op left right = op right left)
    {sources : MaskReg × MaskReg} {operands : LogicOperands} {left right : String} {bits : Bits}
    (taken : sources = (operands.src0, operands.src1) ∨ sources = (operands.src1, operands.src0))
    (named : (left = operands.src0.name ∧ right = operands.src1.name) ∨
      (left = operands.src1.name ∧ right = operands.src0.name)) :
    op (bits sources.1.name) (bits sources.2.name) = op (bits left) (bits right) := by
  rcases taken with rfl | rfl <;> rcases named with ⟨rfl, rfl⟩ | ⟨rfl, rfl⟩
  · rfl
  · exact symmetric ..
  · exact symmetric ..
  · rfl

theorem sAnd_eval (agree : Agree valuation.truth lane.state lane.bits) {operands : LogicOperands}
    (tells : AndTells valuation.truth lane operands.andSources) :
    ∃ cond, sAnd lane.state operands = some (lane.state.write operands.dest.name cond cond.top) ∧
      cond.eval valuation.truth =
        (lane.bits operands.andSources.1.name && lane.bits operands.andSources.2.name) := by
  obtain ⟨known, text, found, same⟩ := tells
  obtain ⟨old, foundOld⟩ := Option.isSome_iff_exists.mp known
  refine ⟨old.and text, ?_, ?_⟩
  · simp [sAnd, foundOld, found]
  · rw [ExecCondition.eval_and, agree _ _ foundOld]
    cases first : lane.bits operands.andSources.1.name with
    | false => rfl
    | true => rw [same first]

theorem sCombine_eval (agree : Agree valuation.truth lane.state lane.bits)
    {combine : ExecCondition → ExecCondition → Option ExecCondition} {op : Bool → Bool → Bool}
    {related : ExecCondition → ExecCondition → Prop}
    (computes : ∀ left right, related left right → ∃ cond, combine left right = some cond ∧
      cond.eval valuation.truth = op (left.eval valuation.truth) (right.eval valuation.truth))
    {operands : LogicOperands} (tells : BothTell related lane operands.orSources) :
    ∃ cond, sCombine combine lane.state operands =
        some (lane.state.write operands.dest.name cond cond.top) ∧
      cond.eval valuation.truth =
        op (lane.bits operands.orSources.1.name) (lane.bits operands.orSources.2.name) := by
  obtain ⟨old, newCond, foundOld, foundNew, fit⟩ := tells
  obtain ⟨cond, combined, truth⟩ := computes old newCond fit
  refine ⟨cond, ?_, ?_⟩
  · simp [sCombine, foundOld, foundNew, combined]
  · rw [truth, agree _ _ foundOld, agree _ _ foundNew]

theorem sXor_eval (agree : Agree valuation.truth lane.state lane.bits) {operands : LogicOperands}
    (tells : BothTell Differ lane operands.orSources) :
    ∃ cond, sXor lane.state operands =
        some (lane.state.write operands.dest.name cond cond.top) ∧
      cond.eval valuation.truth =
        (lane.bits operands.orSources.1.name ^^ lane.bits operands.orSources.2.name) :=
  sCombine_eval agree (fun _ _ => ExecCondition.eval_xor valuation) tells

/-- A logical instruction that gets what it needs writes a conjunction with the right truth. -/
theorem backend_eval (agree : Agree valuation.truth lane.state lane.bits) {op : LogicOp}
    {operands : LogicOperands} {left right : String}
    (named : (left = operands.src0.name ∧ right = operands.src1.name) ∨
      (left = operands.src1.name ∧ right = operands.src0.name))
    (tells : op.Tells valuation.truth lane operands left right) :
    ∃ cond, fill lane.state (op.backend operands) =
        some (lane.state.write operands.dest.name cond cond.top) ∧
      cond.eval valuation.truth = op.bit (lane.bits left) (lane.bits right) := by
  cases op with
  | and =>
      obtain ⟨cond, filled, truth⟩ := sAnd_eval agree tells
      exact ⟨cond, filled, truth.trans (bit_sources Bool.and_comm operands.andSources_cases named)⟩
  | or =>
      obtain ⟨cond, filled, truth⟩ := @sCombine_eval valuation lane agree _ (· || ·) _
        (fun _ _ recognised => ⟨_, rfl, ExecCondition.eval_or valuation recognised⟩) _ tells
      exact ⟨cond, filled, truth.trans (bit_sources Bool.or_comm operands.orSources_cases named)⟩
  | xor =>
      obtain ⟨cond, filled, truth⟩ := sXor_eval agree tells
      exact ⟨cond, filled, truth.trans (bit_sources Bool.xor_comm operands.orSources_cases named)⟩
  | andn2 =>
      obtain ⟨differ, within⟩ := tells
      obtain ⟨cond, filled, truth⟩ := sXor_eval agree differ
      refine ⟨cond, filled, ?_⟩
      rw [truth, bit_sources Bool.xor_comm operands.orSources_cases named, LogicOp.bit]
      -- where the second bit is 0, both are the first bit
      cases second : lane.bits right with
      | false => simp
      | true => simp [within second]

theorem AndTells.of_eq {truth : String → Bool} {other : Lane} {sources : MaskReg × MaskReg}
    (tells : AndTells truth lane sources)
    (same : ∀ source, source = sources.1 ∨ source = sources.2 →
      other.state.execRegisters.get? source.name = lane.state.execRegisters.get? source.name ∧
      other.state.vals.get? source.name = lane.state.vals.get? source.name ∧
      other.bits source.name = lane.bits source.name) :
    AndTells truth other sources := by
  obtain ⟨entry, -, bit⟩ := same _ (.inl rfl)
  obtain ⟨-, text, otherBit⟩ := same _ (.inr rfl)
  simpa only [AndTells, entry, text, bit, otherBit] using tells

theorem BothTell.of_eq {related : ExecCondition → ExecCondition → Prop} {other : Lane}
    {sources : MaskReg × MaskReg} (tells : BothTell related lane sources)
    (same : ∀ source, source = sources.1 ∨ source = sources.2 →
      other.state.execRegisters.get? source.name = lane.state.execRegisters.get? source.name) :
    BothTell related other sources := by
  simpa only [BothTell, same _ (.inl rfl), same _ (.inr rfl)] using tells

/-- What a logical instruction needs depends on the registers it names only. -/
theorem LogicOp.Tells.of_eq {op : LogicOp} {truth : String → Bool} {other : Lane}
    {operands : LogicOperands} {left right : String}
    (tells : op.Tells truth lane operands left right)
    (same : ∀ source, source = operands.src0 ∨ source = operands.src1 →
      other.state.execRegisters.get? source.name = lane.state.execRegisters.get? source.name ∧
      other.state.vals.get? source.name = lane.state.vals.get? source.name ∧
      other.bits source.name = lane.bits source.name)
    (sameBits : other.bits left = lane.bits left ∧ other.bits right = lane.bits right) :
    op.Tells truth other operands left right := by
  have inAnd : ∀ source, source = operands.andSources.1 ∨ source = operands.andSources.2 →
      source = operands.src0 ∨ source = operands.src1 := by
    rcases operands.andSources_cases with taken | taken <;> simp [taken, or_comm]
  have inOr : ∀ source, source = operands.orSources.1 ∨ source = operands.orSources.2 →
      source = operands.src0 ∨ source = operands.src1 := by
    rcases operands.orSources_cases with taken | taken <;> simp [taken, or_comm]
  have sameOr := fun source taken => (same source (inOr source taken)).1
  cases op with
  | and => exact AndTells.of_eq tells fun source taken => same source (inAnd source taken)
  | or => exact BothTell.of_eq tells sameOr
  | xor => exact BothTell.of_eq tells sameOr
  | andn2 =>
      refine ⟨BothTell.of_eq tells.1 sameOr, ?_⟩
      rw [sameBits.1, sameBits.2]
      exact tells.2

/-- `saveexec` moves `exec` first and combines it with the source then. -/
theorem saveexec_agrees (agree : Agree valuation.truth lane.state lane.bits) {op : LogicOp}
    {dest source : MaskReg} (tells : Tells valuation.truth lane (.saveexec op dest source)) :
    ∃ next, track lane.state (.saveexec op dest source) = some next ∧
      Agree valuation.truth next
        (hardware valuation.truth lane.bits (.saveexec op dest source)) := by
  obtain ⟨known, different, needs⟩ := tells
  obtain ⟨cond, found⟩ := Option.isSome_iff_exists.mp known
  obtain ⟨text, foundText⟩ := Option.isSome_iff_exists.mp (lane.state.covered "exec" known)
  let saved : Lane :=
    ⟨lane.state.write dest.name cond text, Function.update lane.bits dest.name (lane.bits "exec")⟩
  have savedAgree : Agree valuation.truth saved.state saved.bits :=
    agree.write (agree "exec" cond found)
  have moved : sMov lane.state dest execReg = some saved.state := by
    simp [sMov, execReg, found, foundText, saved]
  have sameExec : saved.state.execRegisters.get? "exec" = lane.state.execRegisters.get? "exec" ∧
      saved.state.vals.get? "exec" = lane.state.vals.get? "exec" ∧
      saved.bits "exec" = lane.bits "exec" := by
    by_cases onto : "exec" = dest.name
    · simp [saved, TrackState.write, ← onto, found, foundText]
    · simp [saved, TrackState.write, PyDict.get?_set_of_ne _ onto, Function.update_of_ne onto]
  have sameSource :
      saved.state.execRegisters.get? source.name = lane.state.execRegisters.get? source.name ∧
      saved.state.vals.get? source.name = lane.state.vals.get? source.name ∧
      saved.bits source.name = lane.bits source.name := by
    simp [saved, TrackState.write, PyDict.get?_set_of_ne _ different.symm,
      Function.update_of_ne different.symm]
  have needsSaved : op.Tells valuation.truth saved (saveexecOperands source) source.name "exec" := by
    refine needs.of_eq ?_ ⟨sameSource.2.2, sameExec.2.2⟩
    rintro operand (rfl | rfl)
    · exact sameExec
    · exact sameSource
  obtain ⟨combined, filled, truth⟩ := backend_eval savedAgree (.inr ⟨rfl, rfl⟩) needsSaved
  have hardwareBit : combined.eval valuation.truth =
      op.bit (lane.bits source.name) (lane.bits "exec") := by
    rw [← sameSource.2.2, ← sameExec.2.2]
    exact truth
  obtain ⟨final, masked, finalAgree⟩ :=
    fill_useMask (savedAgree.write hardwareBit) (isSome_get?_write _ combined.top combined)
  refine ⟨final, ?_, finalAgree⟩
  rw [track, lower, Run.runFrom, fill, moved]
  change (fill saved.state (op.backend (saveexecOperands source))).bind _ = _
  rw [filled]
  change (fill _ (.useMask execReg)).bind _ = _
  exact congrArg (Option.bind · _) masked

/-- An instruction that gets what it needs is tracked. -/
theorem track_agrees (agree : Agree valuation.truth lane.state lane.bits) {instr : MaskInstr}
    (tells : Tells valuation.truth lane instr) :
    ∃ next, track lane.state instr = some next ∧
      Agree valuation.truth next (hardware valuation.truth lane.bits instr) := by
  cases instr with
  | cmp dest newValue =>
      rw [Tells] at tells
      split at tells
      · rename_i predicate
        refine ⟨lane.state.write dest.name (.ofChain [newValue]) newValue, ?_, agree.write ?_⟩
        · simp [track, lower, Run.runFrom, fill, predicate]
        · rw [ExecCondition.eval_singleton]
          rcases tells with active | fails
          · rw [active, Bool.true_and]
          · rw [fails, Bool.and_false]
      · rename_i plain
        refine ⟨lane.state.setVal dest.name newValue, ?_, agree.setVal tells⟩
        simp [track, lower, Run.runFrom, fill, plain]
  | cmpx newValue =>
      have compared : Agree valuation.truth
          (lane.state.write "exec" (.ofChain [newValue]) newValue)
          (hardware valuation.truth lane.bits (.cmpx newValue)) := by
        apply agree.write
        rw [ExecCondition.eval_singleton]
        rcases tells with active | fails
        · rw [active, Bool.true_and]
        · rw [fails, Bool.and_false]
      obtain ⟨final, masked, finalAgree⟩ :=
        fill_useMask compared (isSome_get?_write _ _ _)
      refine ⟨final, ?_, finalAgree⟩
      change (fill _ (.useMask execReg)).bind _ = _
      exact congrArg (Option.bind · _) masked
  | logic op operands =>
      obtain ⟨cond, filled, truth⟩ := backend_eval agree (.inl ⟨rfl, rfl⟩) tells
      obtain ⟨final, masked, finalAgree⟩ := maskAfter_agrees (agree.write truth)
        fun _ => isSome_get?_write operands.dest.name cond.top cond
      refine ⟨final, ?_, finalAgree⟩
      rw [track, lower, Run.runFrom, filled]
      exact masked
  | not dest source =>
      obtain ⟨text, found, fits⟩ := tells
      split at fits
      · rename_i predicates
        refine ⟨lane.state.write dest.name (.ofChain ["!(" ++ text ++ ")"]) ("!(" ++ text ++ ")"),
          ?_, agree.write ?_⟩
        · simp [track, lower, Run.runFrom, fill, sNot, found, predicates]
        · rw [ExecCondition.eval_singleton, valuation.truth_not, fits]
      · rename_i plain
        refine ⟨lane.state.setVal dest.name ("!(" ++ text ++ ")"), ?_, agree.setVal fits⟩
        simp [track, lower, Run.runFrom, fill, sNot, found, plain]
  | mov dest source =>
      rw [Tells] at tells
      split at tells
      · rename_i predicate
        obtain ⟨cond, found⟩ := Option.isSome_iff_exists.mp tells
        obtain ⟨text, foundText⟩ :=
          Option.isSome_iff_exists.mp (lane.state.covered source.name tells)
        obtain ⟨final, masked, finalAgree⟩ := maskAfter_agrees
          (agree.write (agree source.name cond found))
          fun _ => isSome_get?_write dest.name text cond
        refine ⟨final, ?_, finalAgree⟩
        have moved : sMov lane.state dest source =
            some (lane.state.write dest.name cond text) := by
          simp [sMov, predicate, found, foundText]
        rw [track, lower, Run.runFrom, fill, moved]
        exact masked
      · rename_i plain
        obtain ⟨known, fits⟩ := tells
        obtain ⟨text, foundText⟩ := Option.isSome_iff_exists.mp known
        obtain ⟨final, masked, finalAgree⟩ := maskAfter_agrees (agree.setVal fits)
          fun isExec => absurd (.inr (dest.exec_isPredicate isExec)) plain
        refine ⟨final, ?_, finalAgree⟩
        have moved : sMov lane.state dest source = some (lane.state.setVal dest.name text) := by
          simp [sMov, plain, foundText]
        rw [track, lower, Run.runFrom, fill, moved]
        exact masked
  | saveexec op dest source => exact saveexec_agrees agree tells

end Step

/-! ## Runs -/

/-- A run of lanes is a run of the decompiler beside a run of the hardware. -/
theorem run_laneStep {truth : String → Bool} {lane final : Lane} {program : List MaskInstr}
    (ran : Run.runFrom (laneStep truth) lane program = some final) :
    Run.runFrom track lane.state program = some final.state ∧
      program.foldl (hardware truth) lane.bits = final.bits := by
  induction program generalizing lane with
  | nil =>
      cases ran
      exact ⟨rfl, rfl⟩
  | cons instr rest ih =>
      obtain ⟨next, stepped, remaining⟩ := Run.runFrom_cons_eq_some ran
      obtain ⟨state, tracked, rfl⟩ := Option.map_eq_some_iff.mp stepped
      rw [Run.runFrom, tracked]
      exact ih remaining

/--
Where every instruction gets what it needs, the run completes, and in every state
it goes through the conjunction of a register is true exactly when its bit is 1.
-/
theorem run_agrees (valuation : Valuation) (predicates : List String) (bits : Bits)
    (program : List MaskInstr) (ones : ∀ name ∈ maskName :: predicates, bits name = true)
    (tells : Run.Meets (laneStep valuation.truth) (Tells valuation.truth)
      ⟨.start predicates, bits⟩ program) :
    ∀ done rest, program = done ++ rest →
      ∃ reached, Run.runFrom track (.start predicates) done = some reached ∧
        Agree valuation.truth reached (done.foldl (hardware valuation.truth) bits) := by
  rintro done rest rfl
  obtain ⟨final, ran, finalAgree⟩ := @Run.reaches _ _ (laneStep valuation.truth)
    (fun lane => Agree valuation.truth lane.state lane.bits) (Tells valuation.truth)
    (by
      intro lane instr agree needs
      obtain ⟨next, tracked, nextAgree⟩ := track_agrees agree needs
      exact ⟨⟨next, hardware valuation.truth lane.bits instr⟩, by rw [laneStep, tracked]; rfl,
        nextAgree⟩)
    _ _ (agree_start ones) tells.left
  obtain ⟨tracked, hardwareBits⟩ := run_laneStep ran
  rw [← hardwareBits] at finalAgree
  exact ⟨final.state, tracked, finalAgree⟩

def vccReg : MaskReg := ⟨"vcc", true, fun _ => rfl⟩

/-- The register pair `s[index:index+1]`. -/
def pairReg (name : String) (plain : name ≠ "exec") : MaskReg :=
  ⟨name, false, fun isExec => absurd isExec plain⟩

/-- A branch on one compare, entered and left. -/
def branchOnce : List MaskInstr :=
  [.cmp vccReg "a", .saveexec .and (pairReg "s[0:1]" (by decide)) vccReg,
    .mov execReg (pairReg "s[0:1]" (by decide))]

theorem run_agrees_branchOnce :
    ∃ reached, Run.runFrom track (.start ["exec", "vcc"]) branchOnce = some reached ∧
      Agree (Valuation.ofAtoms fun text => text != ['a']).truth reached
        (branchOnce.foldl (hardware (Valuation.ofAtoms fun text => text != ['a']).truth)
          fun _ => true) := by
  refine run_agrees _ _ _ branchOnce (fun _ _ => rfl) ?_ branchOnce [] (List.append_nil _).symm
  refine ⟨.inl rfl, ?_⟩
  rintro next stepped
  cases stepped
  refine ⟨⟨rfl, by decide, rfl, "a", rfl, fun _ => rfl⟩, ?_⟩
  rintro next stepped
  cases stepped
  exact ⟨rfl, fun _ _ => trivial⟩

/-- The second and third `s_and` read the text of a conjunction of several conditions. -/
def lostConjunct : List MaskInstr :=
  [.cmp vccReg "a",
    .logic .and ⟨pairReg "s[0:1]" (by decide), execReg, vccReg, rfl⟩,
    .cmp vccReg "b",
    .logic .and ⟨pairReg "s[2:3]" (by decide), vccReg, pairReg "s[0:1]" (by decide), rfl⟩,
    .cmp vccReg "c",
    .logic .and ⟨pairReg "s[4:5]" (by decide), vccReg, pairReg "s[2:3]" (by decide), rfl⟩]

theorem lostConjunct_not_agrees :
    ∃ (valuation : Valuation) (bits : Bits) (reached : TrackState),
      (∀ name ∈ [maskName, "exec", "vcc"], bits name = true) ∧
        Run.runFrom track (.start ["exec", "vcc"]) lostConjunct = some reached ∧
        ¬Agree valuation.truth reached (lostConjunct.foldl (hardware valuation.truth) bits) := by
  refine ⟨.ofAtoms (fun text => text != ['a']), fun _ => true, _, fun _ _ => rfl, rfl, ?_⟩
  intro agree
  have wrong := agree "s[4:5]" (ExecCondition.ofChain ["b", "c"]) rfl
  rw [ExecCondition.eval_ofChain] at wrong
  generalize valuation : Valuation.ofAtoms (fun text => text != ['a']) = val at wrong
  have first : val.truth "a" = false := valuation ▸ Valuation.truth_ofAtoms _ (by decide) (by decide)
  have second : val.truth "b" = true := valuation ▸ Valuation.truth_ofAtoms _ (by decide) (by decide)
  have third : val.truth "c" = true := valuation ▸ Valuation.truth_ofAtoms _ (by decide) (by decide)
  simp [lostConjunct, hardware, vccReg, pairReg, execReg, LogicOp.bit, first, second, third] at wrong

end OpenCLDecompiler.Exec
