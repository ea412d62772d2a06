import OpenCLDecompiler.Cfg.Node
import OpenCLDecompiler.Library.Names
import OpenCLDecompiler.Library.PyDict
import OpenCLDecompiler.Library.Run

/-!
# Replacing variables

Where versions of a register meet, and in `change_values`, one variable takes the place of
another.  The values and the map of the variables are texts, and the replacement goes over
them letter by letter.
-/

namespace OpenCLDecompiler.Values

open Library Library.Names

abbrev Text := List Char

/-- `str(number)` behind `var`. -/
def varName (number : Nat) : Text := ['v', 'a', 'r'] ++ Nat.toDigits 10 number

/-! ## Registers and tables -/

/-- A version, such as `v0#3`. -/
abbrev Version := Text

/-- What `versions.py` reads of a register; `typed` stands for a data type that is not `None`. -/
structure Register (ε : Type) where
  val : Text
  version : Version
  typed : Bool
  node : ε

/-- The operations of `ExpressionManager` on the nodes of expressions. -/
structure ExpressionManager (ε : Type) where
  replaceNode : ε → ε → ε → ε
  /-- A variable with the type of a node. -/
  addVariableNode : Text → ε → ε
  isVariable : ε → Text → Bool

/-- `DecompilerData`, the states of the nodes, and the two maps of `change_values`. -/
structure State (ε : Type) where
  registers : NodeId → PyDict Text (Register ε)
  /-- `variables`. -/
  variableNames : PyDict Version Text
  checkedVariables : PyDict Version Text
  versions : PyDict Text Nat
  numOfVar : Nat
  changes : PyDict Version (Text × Text)
  changesExpressionNodes : PyDict Version (ε × ε)

namespace State

variable {ε : Type}

def getRegister (st : State ε) (node : NodeId) (reg : Text) : Option (Register ε) :=
  (st.registers node).get? reg

/-- The register gets another content if it is there. -/
def modify (node : NodeId) (reg : Text) (change : Register ε → Register ε) (st : State ε) : State ε :=
  match st.getRegister node reg with
  | none => st
  | some register =>
      { st with
        registers := Function.update st.registers node
          ((st.registers node).set reg (change register)) }

theorem getRegister_modify (node other : NodeId) (reg name : Text) (change : Register ε → Register ε)
    (st : State ε) :
    (st.modify node reg change).getRegister other name =
      if other = node ∧ name = reg then (st.getRegister node reg).map change
      else st.getRegister other name := by
  rw [modify]
  cases found : st.getRegister node reg with
  | none =>
      dsimp only
      split
      · rename_i same
        rw [same.1, same.2, found]
        rfl
      · rfl
  | some register =>
      rw [getRegister]
      dsimp only
      by_cases here : other = node
      · subst here
        rw [Function.update_self, PyDict.get?_set]
        simp only [true_and, Option.map_some, getRegister]
      · rw [Function.update_of_ne here, if_neg fun both => here both.1]
        rfl

theorem modify_congr {node : NodeId} {reg : Text} {change other : Register ε → Register ε}
    {st : State ε}
    (same : ∀ register, st.getRegister node reg = some register → change register = other register) :
    st.modify node reg change = st.modify node reg other := by
  rw [modify, modify]
  cases found : st.getRegister node reg with
  | none => rfl
  | some register => dsimp only; rw [same register found]

end State

/-! ## The two functions of a join -/

variable {ε : Type} (replace : Text → Text → Text → Text)

/-- One turn of the loop of `update_reg_version` over the previous versions. -/
def renewChecked (prev : Version) (st : State ε) : State ε :=
  match st.checkedVariables.get? prev with
  | none => st
  | some oldVar =>
      if oldVar = [] then st
      else { st with
        checkedVariables := st.checkedVariables.set prev (varName st.numOfVar)
        variableNames := st.variableNames.mapValues (replace oldVar (varName st.numOfVar)) }

/-- The rest of `update_reg_version`, with `DecompilerData.update_reg_version`. -/
def finishJoin (manager : ExpressionManager ε) (node : NodeId) (reg : Text) (maxVersion : Nat)
    (prevVersions : List Version) (st : State ε) : State ε :=
  let joined := varName st.numOfVar
  let version := reg ++ '#' :: Nat.toDigits 10 (maxVersion + 1)
  let after := st.modify node reg fun register =>
    ⟨joined, version, register.typed, manager.addVariableNode joined register.node⟩
  { after with
    variableNames := prevVersions.foldl (fun names prev => names.set prev joined) st.variableNames
    checkedVariables := st.checkedVariables.set version joined
    versions := st.versions.set reg (maxVersion + 1)
    numOfVar := st.numOfVar + 1 }

/-! ## The two functions of change_values -/

/-- `re.match(r"(flat|global)_store", instruction)`. -/
def isStore (instruction : Text) : Prop :=
  "flat_store".toList <+: instruction ∨ "global_store".toList <+: instruction

/-- `re.match(r"(flat|global)_(store|load)", instruction)`. -/
def isAccess (instruction : Text) : Prop :=
  isStore instruction ∨ "flat_load".toList <+: instruction ∨ "global_load".toList <+: instruction

instance (instruction : Text) : Decidable (isStore instruction) := by
  unfold isStore
  infer_instance

instance (instruction : Text) : Decidable (isAccess instruction) := by
  unfold isAccess
  infer_instance

/-- An operand of an instruction that `change_values_for_one_instruction` looks at. -/
structure Use where
  node : NodeId
  parent : NodeId
  instruction : Text
  register : Text
  checkVersion : Version
  numOfReg : Nat
  firstReg : Text
  firstIsPredicate : Bool

variable [DecidableEq ε]

/-- What `changes` remembers of a register whose value and node are not what they were. -/
def recordChange (before after : Register ε) (st : State ε) : State ε :=
  if before.val ≠ after.val ∧ before.node ≠ after.node then
    { st with
      changes := st.changes.set after.version
        (after.val, ((st.changes.get? after.version).map Prod.snd).getD before.val)
      changesExpressionNodes := st.changesExpressionNodes.set after.version
        (after.node, ((st.changesExpressionNodes.get? after.version).map Prod.snd).getD before.node) }
  else st

/-- The value and the node of a register after a replacement. -/
def Register.renewed (manager : ExpressionManager ε) (texts : Text × Text) (nodes : ε × ε)
    (register : Register ε) : Register ε :=
  { register with
    val := replace texts.2 texts.1 register.val
    node := manager.replaceNode register.node nodes.2 nodes.1 }

/-- The end of `update_val_from_changes`; a register that is not there is a `KeyError`. -/
def renewAndRecord (manager : ExpressionManager ε) (node : NodeId) (reg : Text)
    (texts : Text × Text) (nodes : ε × ε) (st : State ε) : Option (State ε) :=
  (st.getRegister node reg).map fun before =>
    recordChange before (before.renewed replace manager texts nodes)
      (st.modify node reg (Register.renewed replace manager texts nodes))

/-- `update_val_from_changes`, `update_value_for_reg` left out. -/
def updateValFromChanges (manager : ExpressionManager ε) (use : Use) (st : State ε) :
    Option (State ε) :=
  match st.getRegister use.node use.register, st.changes.get? use.checkVersion,
      st.changesExpressionNodes.get? use.checkVersion with
  | some register, some texts, some nodes =>
      if register.typed = false then some st
      else if isStore use.instruction then
        if use.numOfReg = 0 then renewAndRecord replace manager use.parent use.firstReg texts nodes st
        else renewAndRecord replace manager use.node use.register texts nodes st
      else if use.instruction = "change_mask".toList then
        renewAndRecord replace manager use.node "$MASK".toList texts nodes st
      else if use.firstReg = use.register then
        renewAndRecord replace manager use.node use.firstReg texts nodes st
      else renewAndRecord replace manager use.node use.firstReg texts nodes
        (st.modify use.node use.register (Register.renewed replace manager texts nodes))
  | _, _, _ => some st

/-- What a register stands for before the instruction: `val_reg` and `expr_node`. -/
def valueBefore (use : Use) (register : Register ε) (st : State ε) : Option (Text × ε) :=
  if use.register = use.firstReg then
    (st.getRegister use.parent use.firstReg).map fun before =>
      (((st.changes.get? before.version).map Prod.fst).getD before.val,
        ((st.changesExpressionNodes.get? before.version).map Prod.fst).getD before.node)
  else some (register.val, register.node)

/-- The register whose value and the one whose node `update_val_from_checked_variables` changes. -/
structure Renewal where
  valueOf : Option Text
  nodeOf : Option Text
  newVar : Text

/-- The branches of `update_val_from_checked_variables`; `found` is `find(val_reg) != -1`. -/
def renewal (use : Use) (checked : Option Text) (newVar : Text) (found : Bool) : Renewal :=
  match checked with
  | some checked =>
      ⟨if found then some use.firstReg
        else if isAccess use.instruction then some use.register else none,
        some (if isAccess use.instruction then use.register else use.firstReg), checked⟩
  | none =>
      if found ∧ use.firstIsPredicate then ⟨some use.firstReg, some use.firstReg, newVar⟩
      else if isStore use.instruction then ⟨some use.register, some use.register, newVar⟩
      else ⟨none, none, newVar⟩

def State.modify? (node : NodeId) (reg : Option Text) (change : Register ε → Register ε)
    (st : State ε) : State ε :=
  match reg with
  | none => st
  | some reg => st.modify node reg change

/-- The end of `update_val_from_checked_variables`. -/
def recordChecked (before after : Register ε) (st : State ε) : State ε :=
  if before.val ≠ after.val ∧ after.node ≠ before.node then
    { st with
      changes := st.changes.set after.version (after.val, before.val)
      changesExpressionNodes := st.changesExpressionNodes.set after.version (after.node, before.node) }
  else st

/-- The replacement of `val_reg` and `expr_node`, and the changes of the first register. -/
def performRenewal (manager : ExpressionManager ε) (use : Use) (valReg : Text) (exprNode varNode : ε)
    (renewed : Renewal) (before : Register ε) (st : State ε) : Option (State ε) :=
  let changed := (st.modify? use.node renewed.valueOf fun register =>
      { register with val := replace valReg renewed.newVar register.val }).modify?
    use.node renewed.nodeOf fun register =>
      { register with node := manager.replaceNode register.node exprNode varNode }
  (changed.getRegister use.node use.firstReg).map fun after => recordChecked before after changed

/-- `update_val_from_checked_variables`, `update_value_for_reg` left out. -/
def updateValFromCheckedVariables (manager : ExpressionManager ε) (use : Use) (st : State ε) :
    Option (State ε) :=
  match st.getRegister use.node use.register, st.variableNames.get? use.checkVersion with
  | some register, some newVar =>
      if register.typed = false then some st
      else do
        let (valReg, exprNode) ← valueBefore use register st
        let before ← st.getRegister use.node use.firstReg
        let varNode := if manager.isVariable exprNode newVar then exprNode
          else manager.addVariableNode newVar exprNode
        let renewed := renewal use (st.checkedVariables.get? use.checkVersion) newVar
          (decide (valReg <:+: before.val))
        performRenewal replace manager use valReg exprNode varNode renewed before st
  | _, _ => some st

/-! ## Steps -/

/-- The replacements of a join and of `change_values`, and what else happens in between. -/
inductive Operation (ε : Type) where
  | renewChecked (prev : Version)
  | finishJoin (node : NodeId) (reg : Text) (maxVersion : Nat) (prevVersions : List Version)
  | fromChanges (use : Use)
  | fromCheckedVariables (use : Use)
  | elsewhere (change : State ε → State ε)

/-- `update_reg_version` of a register whose versions meet. -/
def updateRegVersion (node : NodeId) (reg : Text) (maxVersion : Nat) (prevVersions : List Version) :
    List (Operation ε) :=
  prevVersions.map .renewChecked ++ [.finishJoin node reg maxVersion prevVersions]

def step (manager : ExpressionManager ε) (st : State ε) : Operation ε → Option (State ε)
  | .renewChecked prev => some (renewChecked replace prev st)
  | .finishJoin node reg maxVersion prevVersions =>
      some (finishJoin manager node reg maxVersion prevVersions st)
  | .fromChanges use => updateValFromChanges replace manager use st
  | .fromCheckedVariables use => updateValFromCheckedVariables replace manager use st
  | .elsewhere change => some (change st)

/-! ## Whole names -/

def isWord (letter : Char) : Bool := letter.isAlphanum || letter == '_'

/-- The mark of a vector component, as in `var1___s0`. -/
def componentMark : Text := ['_', '_', '_']

def IsName (text : Text) : Prop := text ≠ [] ∧ ∀ letter ∈ text, isWord letter = true

instance decidableIsName (text : Text) : Decidable (IsName text) :=
  decidable_of_iff (text ≠ [] ∧ text.all isWord = true) (by rw [IsName, List.all_eq_true])

/-- What a replacement of a variable is for: the names that are the variable change, no others. -/
def renameVariable (old new text : Text) : Text :=
  if IsName old then rename isWord componentMark old new text else Names.replace old new text

/-- Each name of the text that has the old name in it is that name or a component of it. -/
def WholeName (old new text : Text) : Prop :=
  IsName old → new = old ∨
    ∀ name ∈ Text.words (fun letter => !isWord letter) text, OnlyName componentMark old name

theorem replace_eq_renameVariable_iff (old new text : Text) :
    Names.replace old new text = renameVariable old new text ↔ WholeName old new text := by
  rw [renameVariable, WholeName]
  by_cases named : IsName old
  · rw [if_pos named, replace_eq_rename_iff named.1 named.2, forall_prop_of_true named]
  · rw [if_neg named]
    exact iff_of_true rfl fun isName => absurd isName named

/-! ## The replacements of a step -/

inductive Place where
  | variableName (version : Version)
  | value (node : NodeId) (reg : Text)

structure Replacement where
  place : Place
  old : Text
  new : Text
  text : Text

omit [DecidableEq ε] in
def State.read (st : State ε) : Place → Option Text
  | .variableName version => st.variableNames.get? version
  | .value node reg => (st.getRegister node reg).map Register.val

/-- The registers that `update_val_from_changes` renews, the one it records last. -/
def renewedRegisters (use : Use) : List (NodeId × Text) :=
  if isStore use.instruction then
    if use.numOfReg = 0 then [(use.parent, use.firstReg)] else [(use.node, use.register)]
  else if use.instruction = "change_mask".toList then [(use.node, "$MASK".toList)]
  else if use.firstReg = use.register then [(use.node, use.firstReg)]
  else [(use.node, use.register), (use.node, use.firstReg)]

/-- The replacements in the given registers, none if one of them is not there. -/
def replacementsIn (st : State ε) (old new : Text) (registers : List (NodeId × Text)) :
    List Replacement :=
  (registers.mapM fun (node, reg) => (st.getRegister node reg).map fun (register : Register ε) =>
    (⟨.value node reg, old, new, register.val⟩ : Replacement)).getD []

/-- All texts that the step replaces in all texts, in the state before it. -/
def replacements (st : State ε) : Operation ε → List Replacement
  | .renewChecked prev => match st.checkedVariables.get? prev with
    | none => []
    | some oldVar =>
        if oldVar = [] then []
        else st.variableNames.entries.map fun entry =>
          ⟨.variableName entry.1, oldVar, varName st.numOfVar, entry.2⟩
  | .finishJoin _ _ _ _ | .elsewhere _ => []
  | .fromChanges use =>
      match st.getRegister use.node use.register, st.changes.get? use.checkVersion,
          st.changesExpressionNodes.get? use.checkVersion with
      | some register, some texts, some _ =>
          if register.typed = false then []
          else replacementsIn st texts.2 texts.1 (renewedRegisters use)
      | _, _, _ => []
  | .fromCheckedVariables use =>
      match st.getRegister use.node use.register, st.variableNames.get? use.checkVersion with
      | some register, some newVar =>
          if register.typed = false then []
          else
            match valueBefore use register st, st.getRegister use.node use.firstReg with
            | some (valReg, _), some before =>
                let renewed := renewal use (st.checkedVariables.get? use.checkVersion) newVar
                  (decide (valReg <:+: before.val))
                replacementsIn st valReg renewed.newVar
                  (renewed.valueOf.toList.map fun reg => (use.node, reg))
            | _, _ => []
      | _, _ => []

end OpenCLDecompiler.Values
