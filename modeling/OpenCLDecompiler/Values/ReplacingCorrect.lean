import OpenCLDecompiler.Library.PyNumbers
import OpenCLDecompiler.Values.Replacing

/-!
# When a replacement renames

A step changes the names that are the replaced variable, and no others, exactly if no other
name in its texts contains the replaced one.  So `var1` must not be replaced beside `var10`.
-/

namespace OpenCLDecompiler.Values

open Library Library.Names

variable {ε : Type} [DecidableEq ε]

section Steps

variable {replace other : Text → Text → Text → Text} {manager : ExpressionManager ε} {st : State ε}

@[simp]
theorem getRegister_recordChange (before after : Register ε) (node : NodeId) (reg : Text) :
    (recordChange before after st).getRegister node reg = st.getRegister node reg := by
  rw [recordChange]
  split <;> rfl

@[simp]
theorem getRegister_recordChecked (before after : Register ε) (node : NodeId) (reg : Text) :
    (recordChecked before after st).getRegister node reg = st.getRegister node reg := by
  rw [recordChecked]
  split <;> rfl

omit [DecidableEq ε] in
theorem mem_replacementsIn_singleton {old new : Text} {node : NodeId} {reg : Text}
    {replacement : Replacement} :
    replacement ∈ replacementsIn st old new [(node, reg)] ↔
      ∃ register, st.getRegister node reg = some register ∧
        replacement = ⟨.value node reg, old, new, register.val⟩ := by
  cases found : st.getRegister node reg <;> simp [replacementsIn, found]

omit [DecidableEq ε] in
theorem mem_replacementsIn_pair {old new : Text} {first second : NodeId × Text}
    {replacement : Replacement} :
    replacement ∈ replacementsIn st old new [first, second] ↔
      ∃ register next, st.getRegister first.1 first.2 = some register ∧
        st.getRegister second.1 second.2 = some next ∧
        (replacement = ⟨.value first.1 first.2, old, new, register.val⟩ ∨
          replacement = ⟨.value second.1 second.2, old, new, next.val⟩) := by
  cases found : st.getRegister first.1 first.2 <;>
    cases also : st.getRegister second.1 second.2 <;> simp [replacementsIn, found, also]

/-! ### What a step leaves at the places of its replacements -/

theorem read_renewAndRecord {node : NodeId} {reg : Text} {register : Register ε}
    (found : st.getRegister node reg = some register) (texts : Text × Text) (nodes : ε × ε) :
    ∃ after, renewAndRecord replace manager node reg texts nodes st = some after ∧
      after.read (.value node reg) = some (replace texts.2 texts.1 register.val) ∧
      ∀ name, name ≠ reg → after.read (.value node name) = st.read (.value node name) := by
  refine ⟨_, by rw [renewAndRecord, found, Option.map_some], ?_, fun name differs => ?_⟩
  · simp [State.read, State.getRegister_modify, found, Register.renewed]
  · simp [State.read, State.getRegister_modify, differs]

theorem read_updateValFromChanges {use : Use} {replacement : Replacement}
    (inside : replacement ∈ replacements st (.fromChanges use)) :
    ∃ after, updateValFromChanges replace manager use st = some after ∧
      after.read replacement.place = some (replace replacement.old replacement.new replacement.text) := by
  rw [replacements] at inside
  rw [updateValFromChanges]
  split at inside
  swap
  · cases inside
  rename_i source texts nodes found changed changedNodes
  split at inside
  · cases inside
  rename_i typed
  rw [if_neg typed]
  have single : ∀ node reg, replacement ∈ replacementsIn st texts.2 texts.1 [(node, reg)] →
      ∃ after, renewAndRecord replace manager node reg texts nodes st = some after ∧
        after.read replacement.place =
          some (replace replacement.old replacement.new replacement.text) := by
    intro node reg here
    obtain ⟨register, there, rfl⟩ := mem_replacementsIn_singleton.mp here
    obtain ⟨after, ran, read, -⟩ := read_renewAndRecord there texts nodes
    exact ⟨after, ran, read⟩
  rw [renewedRegisters] at inside
  split at inside
  · rename_i store
    rw [if_pos store]
    split at inside
    · rename_i address
      rw [if_pos address]
      exact single _ _ inside
    · rename_i address
      rw [if_neg address]
      exact single _ _ inside
  rename_i store
  rw [if_neg store]
  split at inside
  · rename_i mask
    rw [if_pos mask]
    exact single _ _ inside
  rename_i mask
  rw [if_neg mask]
  split at inside
  · rename_i same
    rw [if_pos same]
    exact single _ _ inside
  rename_i same
  rw [if_neg same]
  obtain ⟨register, next, here, there, which⟩ := mem_replacementsIn_pair.mp inside
  have still : (st.modify use.node use.register
      (Register.renewed replace manager texts nodes)).getRegister use.node use.firstReg = some next := by
    rw [State.getRegister_modify, if_neg fun both => same both.2]
    exact there
  obtain ⟨after, ran, read, kept⟩ := read_renewAndRecord still texts nodes
  refine ⟨after, ran, ?_⟩
  rcases which with rfl | rfl
  · rw [kept _ fun equal => same equal.symm]
    simp [State.read, State.getRegister_modify, here, Register.renewed]
  · exact read

omit [DecidableEq ε] in
theorem read_modify? (node : NodeId) (reg : Option Text) {change : Register ε → Register ε}
    (kept : ∀ register, (change register).val = register.val) (place : Place) :
    (st.modify? node reg change).read place = st.read place := by
  cases reg with
  | none => rfl
  | some reg =>
      cases place with
      | variableName version =>
          rw [State.modify?, State.modify]
          split <;> rfl
      | value other name =>
          rw [State.read, State.read, State.modify?, State.getRegister_modify]
          split
          · rename_i same
            rw [same.1, same.2, Option.map_map]
            congr 1
            exact funext kept
          · rfl

theorem read_performRenewal {use : Use} {renewed : Renewal} {before register : Register ε} {reg : Text}
    (there : st.getRegister use.node use.firstReg = some before) (valueOf : renewed.valueOf = some reg)
    (here : st.getRegister use.node reg = some register) (valReg : Text) (exprNode varNode : ε) :
    ∃ after, performRenewal replace manager use valReg exprNode varNode renewed before st = some after ∧
      after.read (.value use.node reg) = some (replace valReg renewed.newVar register.val) := by
  rw [performRenewal, valueOf]
  generalize middle' : State.modify? use.node (some reg) _ st = middle
  generalize changed' : State.modify? use.node renewed.nodeOf _ middle = changed
  have kept : ∀ place, changed.read place = middle.read place := by
    intro place
    rw [← changed']
    apply read_modify?
    exact fun _ => rfl
  have read : changed.read (.value use.node reg) =
      some (replace valReg renewed.newVar register.val) := by
    rw [kept, ← middle']
    simp [State.read, State.modify?, State.getRegister_modify, here]
  have present : (changed.read (.value use.node use.firstReg)).isSome = true := by
    rw [kept, ← middle']
    simp only [State.read, State.modify?, State.getRegister_modify]
    split <;> simp [here, there]
  obtain ⟨text, isText⟩ := Option.isSome_iff_exists.mp present
  obtain ⟨after, isAfter, -⟩ := Option.map_eq_some_iff.mp isText
  refine ⟨_, by rw [isAfter, Option.map_some], ?_⟩
  rw [← read]
  simp [State.read]

theorem read_updateValFromCheckedVariables {use : Use} {replacement : Replacement}
    (inside : replacement ∈ replacements st (.fromCheckedVariables use)) :
    ∃ after, updateValFromCheckedVariables replace manager use st = some after ∧
      after.read replacement.place = some (replace replacement.old replacement.new replacement.text) := by
  rw [replacements] at inside
  rw [updateValFromCheckedVariables]
  split at inside
  swap
  · cases inside
  rename_i source newVar found known
  split at inside
  · cases inside
  rename_i typed
  rw [if_neg typed]
  split at inside
  swap
  · cases inside
  rename_i valReg exprNode before value there
  simp only [value, there, Option.bind_eq_bind, Option.bind_some]
  generalize renewal use (st.checkedVariables.get? use.checkVersion) newVar
    (decide (valReg <:+: before.val)) = renewed at inside ⊢
  dsimp only at inside
  cases isValueOf : renewed.valueOf with
  | none =>
      rw [isValueOf] at inside
      cases inside
  | some reg =>
      rw [isValueOf] at inside
      obtain ⟨register, here, rfl⟩ := mem_replacementsIn_singleton.mp inside
      exact read_performRenewal there isValueOf here _ _ _

omit [DecidableEq ε] in
theorem read_renewChecked {prev : Version} {replacement : Replacement}
    (inside : replacement ∈ replacements st (.renewChecked prev)) :
    (renewChecked replace prev st).read replacement.place =
      some (replace replacement.old replacement.new replacement.text) := by
  rw [replacements] at inside
  rw [renewChecked]
  split at inside
  · cases inside
  · split at inside
    · cases inside
    · rename_i some'
      obtain ⟨entry, member, rfl⟩ := List.mem_map.mp inside
      rw [if_neg some', State.read, PyDict.get?_mapValues, PyDict.get?_of_mem _ member]
      rfl

/-- A step that replaces something ends with the replaced texts at their places. -/
theorem read_step {operation : Operation ε} {replacement : Replacement}
    (inside : replacement ∈ replacements st operation) :
    ∃ after, step replace manager st operation = some after ∧
      after.read replacement.place = some (replace replacement.old replacement.new replacement.text) := by
  cases operation with
  | renewChecked prev => exact ⟨_, rfl, read_renewChecked inside⟩
  | finishJoin => cases inside
  | fromChanges use => exact read_updateValFromChanges inside
  | fromCheckedVariables use => exact read_updateValFromCheckedVariables inside
  | elsewhere => cases inside

/-! ### What a step depends on -/

theorem renewAndRecord_congr {node : NodeId} {reg : Text} {texts : Text × Text} {nodes : ε × ε}
    (same : ∀ register, st.getRegister node reg = some register →
      replace texts.2 texts.1 register.val = other texts.2 texts.1 register.val) :
    renewAndRecord replace manager node reg texts nodes st =
      renewAndRecord other manager node reg texts nodes st := by
  have renewed : ∀ register, st.getRegister node reg = some register →
      register.renewed replace manager texts nodes = register.renewed other manager texts nodes := by
    intro register found
    rw [Register.renewed, Register.renewed, same register found]
  rw [renewAndRecord, renewAndRecord, State.modify_congr renewed]
  cases found : st.getRegister node reg with
  | none => rfl
  | some register => rw [Option.map_some, Option.map_some, renewed register found]

theorem updateValFromChanges_congr {use : Use}
    (same : ∀ replacement ∈ replacements st (.fromChanges use),
      replace replacement.old replacement.new replacement.text =
        other replacement.old replacement.new replacement.text) :
    updateValFromChanges replace manager use st = updateValFromChanges other manager use st := by
  rw [replacements] at same
  rw [updateValFromChanges, updateValFromChanges]
  split
  swap
  · rfl
  rename_i source texts nodes found changed changedNodes
  split
  · rfl
  rename_i typed
  simp only [found, changed, changedNodes, if_neg typed] at same
  have single : ∀ node reg,
      (∀ replacement ∈ replacementsIn st texts.2 texts.1 [(node, reg)],
        replace replacement.old replacement.new replacement.text =
          other replacement.old replacement.new replacement.text) →
      renewAndRecord replace manager node reg texts nodes st =
        renewAndRecord other manager node reg texts nodes st := by
    intro node reg same
    exact renewAndRecord_congr fun register found =>
      same _ (mem_replacementsIn_singleton.mpr ⟨register, found, rfl⟩)
  rw [renewedRegisters] at same
  split
  · rename_i store
    rw [if_pos store] at same
    split
    · rename_i address
      rw [if_pos address] at same
      exact single _ _ same
    · rename_i address
      rw [if_neg address] at same
      exact single _ _ same
  rename_i store
  rw [if_neg store] at same
  split
  · rename_i mask
    rw [if_pos mask] at same
    exact single _ _ same
  rename_i mask
  rw [if_neg mask] at same
  split
  · rename_i equal
    rw [if_pos equal] at same
    exact single _ _ same
  rename_i differs
  rw [if_neg differs] at same
  have kept : ∀ change : Register ε → Register ε,
      (st.modify use.node use.register change).getRegister use.node use.firstReg =
        st.getRegister use.node use.firstReg := fun change => by
    rw [State.getRegister_modify, if_neg fun both => differs both.2]
  cases first : st.getRegister use.node use.firstReg with
  | none => rw [renewAndRecord, renewAndRecord, kept, kept, first, Option.map_none, Option.map_none]
  | some before =>
      have renewed : ∀ register, st.getRegister use.node use.register = some register →
          register.renewed replace manager texts nodes = register.renewed other manager texts nodes := by
        intro register there
        rw [Register.renewed, Register.renewed, same _ (mem_replacementsIn_pair.mpr
          ⟨register, before, there, first, .inl rfl⟩)]
      rw [State.modify_congr renewed]
      refine renewAndRecord_congr fun register there => ?_
      rw [kept, first] at there
      cases there
      exact same _ (mem_replacementsIn_pair.mpr ⟨source, before, found, first, .inr rfl⟩)

theorem updateValFromCheckedVariables_congr {use : Use}
    (same : ∀ replacement ∈ replacements st (.fromCheckedVariables use),
      replace replacement.old replacement.new replacement.text =
        other replacement.old replacement.new replacement.text) :
    updateValFromCheckedVariables replace manager use st =
      updateValFromCheckedVariables other manager use st := by
  rw [replacements] at same
  rw [updateValFromCheckedVariables, updateValFromCheckedVariables]
  split
  swap
  · rfl
  rename_i source newVar found known
  split
  · rfl
  rename_i typed
  simp only [found, known, if_neg typed] at same
  cases value : valueBefore use source st with
  | none => rfl
  | some before =>
      cases there : st.getRegister use.node use.firstReg with
      | none => rfl
      | some first =>
          simp only [value, there] at same
          simp only [Option.bind_eq_bind, Option.bind_some]
          rw [performRenewal, performRenewal]
          have changed : ∀ renewed : Renewal,
              (∀ replacement ∈ replacementsIn st before.1 renewed.newVar
                (renewed.valueOf.toList.map fun reg => (use.node, reg)),
                replace replacement.old replacement.new replacement.text =
                  other replacement.old replacement.new replacement.text) →
              st.modify? use.node renewed.valueOf (fun register =>
                { register with val := replace before.1 renewed.newVar register.val }) =
              st.modify? use.node renewed.valueOf (fun register =>
                { register with val := other before.1 renewed.newVar register.val }) := by
            intro renewed same
            cases isValueOf : renewed.valueOf with
            | none => rfl
            | some reg =>
                rw [isValueOf] at same
                refine State.modify_congr fun register here => ?_
                rw [same _ (mem_replacementsIn_singleton.mpr ⟨register, here, rfl⟩)]
          rw [changed _ same]

theorem step_congr {operation : Operation ε}
    (same : ∀ replacement ∈ replacements st operation,
      replace replacement.old replacement.new replacement.text =
        other replacement.old replacement.new replacement.text) :
    step replace manager st operation = step other manager st operation := by
  cases operation with
  | renewChecked prev =>
      rw [replacements] at same
      rw [step, step, renewChecked, renewChecked]
      split
      · rfl
      · rename_i oldVar known
        split
        · rfl
        · rename_i some'
          simp only [known, if_neg some'] at same
          have names : st.variableNames.mapValues (replace oldVar (varName st.numOfVar)) =
              st.variableNames.mapValues (other oldVar (varName st.numOfVar)) :=
            PyDict.mapValues_congr fun entry member => same _ (List.mem_map.mpr ⟨entry, member, rfl⟩)
          rw [names]
  | finishJoin => rfl
  | fromChanges use => exact updateValFromChanges_congr same
  | fromCheckedVariables use => exact updateValFromCheckedVariables_congr same
  | elsewhere => rfl

/-- One step renames exactly if it replaces whole names only. -/
theorem step_renames_iff (operation : Operation ε) :
    step Names.replace manager st operation = step renameVariable manager st operation ↔
      ∀ replacement ∈ replacements st operation,
        WholeName replacement.old replacement.new replacement.text := by
  constructor
  · intro same replacement inside
    obtain ⟨after, ran, read⟩ := read_step inside
    obtain ⟨meant, ranMeant, readMeant⟩ := read_step inside
    rw [ran, ranMeant] at same
    cases same
    exact (replace_eq_renameVariable_iff _ _ _).mp (Option.some.inj (read.symm.trans readMeant))
  · intro whole
    exact step_congr fun replacement inside =>
      (replace_eq_renameVariable_iff _ _ _).mpr (whole replacement inside)

end Steps

/-! ## Runs -/

section Runs

variable (manager : ExpressionManager ε)

/-- In every step the names that are the replaced variable change, and no others. -/
def Renames : State ε → List (Operation ε) → Prop :=
  Run.Meets (step Names.replace manager) fun st operation =>
    step Names.replace manager st operation = step renameVariable manager st operation

/-- No step finds the replaced variable inside another name. -/
def WholeNames : State ε → List (Operation ε) → Prop :=
  Run.Meets (step Names.replace manager) fun st operation =>
    ∀ replacement ∈ replacements st operation,
      WholeName replacement.old replacement.new replacement.text

/-- A run that renames is the run with renamed variables. -/
theorem Renames.runFrom {st : State ε} {operations : List (Operation ε)}
    (renames : Renames manager st operations) :
    Run.runFrom (step Names.replace manager) st operations =
      Run.runFrom (step renameVariable manager) st operations := by
  induction operations generalizing st with
  | nil => rfl
  | cons operation rest ih =>
      obtain ⟨here, later⟩ := renames
      rw [Run.runFrom, Run.runFrom, ← here]
      exact Option.bind_congr fun next stepped => ih (later next stepped)

end Runs

/-! ## Names of variables -/

theorem letter_of_toDigits (number : Nat) : ∀ c ∈ Nat.toDigits 10 number, isWord c = true ∧ c ≠ '_' ∧ c ≠ 'v' :=
  PyNumbers.mem_toDigits (by decide) _ (by decide) number

theorem letter_of_varName {number : Nat} {c : Char} (inside : c ∈ varName number) :
    isWord c = true ∧ c ≠ '_' := by
  rcases List.mem_append.mp inside with front | digit
  · obtain rfl | rfl | rfl : c = 'v' ∨ c = 'a' ∨ c = 'r' := by simpa using front
    all_goals exact ⟨rfl, by decide⟩
  · obtain ⟨word, mark, -⟩ := letter_of_toDigits number c digit
    exact ⟨word, mark⟩

theorem isName_varName (number : Nat) : IsName (varName number) :=
  ⟨List.cons_ne_nil _ _, fun _ inside => (letter_of_varName inside).1⟩

theorem stem_varName (number : Nat) : stem componentMark (varName number) = varName number := by
  refine stem_of_absent fun inside => ?_
  exact (letter_of_varName (inside.subset List.mem_cons_self)).2 rfl

/-- A name begins in another one only where that begins, with the same digits. -/
theorem varName_infix_iff (first second : Nat) :
    varName first <:+: varName second ↔ Nat.toDigits 10 first <+: Nat.toDigits 10 second := by
  constructor
  · rintro ⟨before, after, same⟩
    cases before with
    | nil => exact (List.prefix_append_right_inj _).mp ⟨after, same⟩
    | cons letter before =>
        have inside : 'v' ∈ ['a', 'r'] ++ Nat.toDigits 10 second := by
          have tail : before ++ varName first ++ after = ['a', 'r'] ++ Nat.toDigits 10 second :=
            (List.cons.inj same).2
          rw [← tail]
          simp [varName]
        rcases List.mem_append.mp inside with front | digit
        · exact absurd front (by decide)
        · exact absurd rfl (letter_of_toDigits second 'v' digit).2.2
  · exact fun digits => ((List.prefix_append_right_inj _).mpr digits).isInfix

/-- Another variable stays as it is exactly if its digits do not begin with those of the replaced one. -/
theorem wholeName_varName_iff (first second : Nat) (new : Text) :
    WholeName (varName first) new (varName second) ↔
      new = varName first ∨ varName second = varName first ∨
        ¬Nat.toDigits 10 first <+: Nat.toDigits 10 second := by
  have single : Text.words (fun letter => !isWord letter) (varName second) = [varName second] :=
    Text.words_of_clean _ (List.cons_ne_nil _ _) fun letter inside => by
      rw [(letter_of_varName inside).1]
      rfl
  rw [WholeName, forall_prop_of_true (isName_varName first), single, List.forall_mem_singleton, OnlyName,
    stem_varName]
  by_cases same : varName second = varName first
  · have nothing : ¬varName first <:+: (varName second).drop (varName first).length := by
      rw [same, List.drop_length, List.infix_nil]
      exact List.cons_ne_nil _ _
    rw [if_pos same]
    exact iff_of_true (.inr nothing) (.inr (.inl same))
  · rw [if_neg same, varName_infix_iff, or_iff_right same]

/-- Nodes that are the names of variables. -/
def nameNodes : ExpressionManager Text where
  replaceNode node old new := if node = old then new else node
  addVariableNode name _ := name
  isVariable node name := node = name

def numberedReg (number : Nat) : Text := 'v' :: Nat.toDigits 10 number

def numberedVersion (number version : Nat) : Version :=
  numberedReg number ++ '#' :: Nat.toDigits 10 version

/-- Eleven registers that each have two versions. -/
def beforeJoins : State Text where
  registers _ := (List.range 11).foldl (fun registers number => registers.set (numberedReg number)
    ⟨['0'], numberedVersion number 2, true, ['0']⟩) .empty
  variableNames := .empty
  checkedVariables := .empty
  versions := (List.range 11).foldl (fun versions number => versions.set (numberedReg number) 2) .empty
  numOfVar := 0
  changes := .empty
  changesExpressionNodes := .empty

/-- The two versions of each register meet, and then the result for `v1` meets another version. -/
def twelveJoins : List (Operation Text) :=
  (List.range 11).flatMap (fun number => updateRegVersion 1 (numberedReg number) 2
    [numberedVersion number 1, numberedVersion number 2]) ++
  updateRegVersion 2 (numberedReg 1) 4 [numberedVersion 1 3, numberedVersion 1 4]

end OpenCLDecompiler.Values
