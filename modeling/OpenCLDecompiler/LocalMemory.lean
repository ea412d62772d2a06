import Mathlib.Logic.Function.Basic
import OpenCLDecompiler.Library.PyDict
import OpenCLDecompiler.Library.Run

/-!
# Local memory

`DsRead` keeps the expression of the address as the value of the register, and
`DsWrite` and `DsAdd` keep the stored value under the text of the address.  A
register that was loaded is printed as an access to local memory, which is
evaluated where it is printed and not where it was read.
-/

namespace OpenCLDecompiler.LocalMemory

open Library

/-! ## Registers -/

/-- `RegisterType`, as far as local memory is concerned. -/
inductive RegisterType where
  | unknown
  | localDataPointer
  | other (name : String)
  deriving DecidableEq, Repr

structure Register (Node : Type) where
  val : String
  type : RegisterType
  expressionNode : Node

/--
The keys of `node.state`.  Names of registers and texts of addresses share one
dictionary; no text of an address is the name of a register.
-/
inductive Key where
  | reg (name : String)
  | text (text : String)
  deriving DecidableEq, Repr

def Key.name : Key → String
  | .reg name | .text name => name

abbrev NodeState (Node : Type) := PyDict Key (Register Node)

/-- What the handlers use of the expressions, and the handlers of register arithmetic. -/
structure ExpressionManager (Node Op : Type) where
  expressionToString : Node → String
  addConstNode : String → Node
  /-- `add_operation` with `+`. -/
  addPlus : Node → Node → Node
  /-- The register an arithmetic instruction makes of its sources. -/
  arithmetic : Op → Register Node → Register Node → Register Node
  /-- The target of a global store to an address. -/
  globalTarget : Node → String

/-- The printed statements that concern memory. -/
inductive Statement where
  | assign (target value : String)
  | addAssign (target value : String)
  | store (target value : String)
  deriving DecidableEq, Repr

/-! ## Handlers -/

variable {Node Op Cell Word : Type}

section Handlers

variable (manager : ExpressionManager Node Op) (st : NodeState Node)

/-- `get_or_add_expression_node`. -/
def getExpressionNode (key : Key) : Node :=
  match st.get? key with
  | some register => register.expressionNode
  | none => manager.addConstNode key.name

/-- The text of the expression of a register. -/
def regText (name : String) : String :=
  manager.expressionToString (getExpressionNode manager st (.reg name))

namespace DsRead

def toFillNode (vdst addr : String) : NodeState Node :=
  let name := regText manager st addr
  let type := match st.get? (.text name) with
    | some stored => stored.type
    | none => .unknown
  st.set (.reg vdst) ⟨name, type, getExpressionNode manager st (.reg addr)⟩

end DsRead

namespace DsWrite

def toFillNode (addr vdata0 : String) : Option (NodeState Node) :=
  (st.get? (.reg vdata0)).map fun data =>
    st.set (.text (regText manager st addr))
      ⟨data.val, data.type, getExpressionNode manager st (.reg vdata0)⟩

/-- Prints from the state that `to_fill_node` leaves. -/
def toPrint (addr : String) : Statement :=
  let name := regText manager st addr
  .assign name (manager.expressionToString (getExpressionNode manager st (.text name)))

end DsWrite

namespace DsAdd

def toFillNode (addr vdata0 : String) : Option (NodeState Node) := do
  let varname := regText manager st addr
  let stored ← st.get? (.text varname)
  let data ← st.get? (.reg vdata0)
  some (st.set (.text varname) ⟨stored.val ++ " + " ++ data.val, .unknown,
    manager.addPlus (getExpressionNode manager st (.text varname))
      (getExpressionNode manager st (.reg vdata0))⟩)

def toPrint (addr vdata0 : String) : Statement :=
  .addAssign (regText manager st addr) (regText manager st vdata0)

end DsAdd

/-- `FlatStore` of one word. -/
def FlatStore.toPrint (vaddr vdata : String) : Statement :=
  .store (manager.globalTarget (getExpressionNode manager st (.reg vaddr)))
    (regText manager st vdata)

end Handlers

inductive Instr (Op : Type) where
  | dsRead (vdst addr : String)
  | dsWrite (addr vdata0 : String)
  | dsAdd (addr vdata0 : String)
  | arithmetic (op : Op) (vdst src0 src1 : String)
  | flatStore (vaddr vdata : String)

/-- The state behind an instruction and what is printed for it; `none` is an exception. -/
def fill (manager : ExpressionManager Node Op) (st : NodeState Node) :
    Instr Op → Option (NodeState Node × Option Statement)
  | .dsRead vdst addr => some (DsRead.toFillNode manager st vdst addr, none)
  | .dsWrite addr vdata0 =>
      (DsWrite.toFillNode manager st addr vdata0).map fun filled =>
        (filled, some (DsWrite.toPrint manager filled addr))
  | .dsAdd addr vdata0 =>
      (DsAdd.toFillNode manager st addr vdata0).map fun filled =>
        (filled, some (DsAdd.toPrint manager filled addr vdata0))
  | .arithmetic op vdst src0 src1 => do
      let first ← st.get? (.reg src0)
      let second ← st.get? (.reg src1)
      some (st.set (.reg vdst) (manager.arithmetic op first second), none)
  | .flatStore vaddr vdata =>
      (st.get? (.reg vdata)).map fun _ => (st, some (FlatStore.toPrint manager st vaddr vdata))

/-! ## The printed program -/

/-- What the texts mean in C, and what the instructions do with words. -/
structure Meaning (Node Op Cell Word : Type) where
  /-- The element of local memory that a text names. -/
  cell : String → Option Cell
  value : (Cell → Word) → String → Word
  /-- The element that the expression of an address stands for. -/
  address : Node → Cell
  /-- The element at a byte address. -/
  locate : Word → Cell
  add : Word → Word → Word
  operation : Op → Word → Word → Word
  /-- The text of an element has the value that the element holds. -/
  value_of_cell : ∀ {text element}, cell text = some element →
    ∀ memory, value memory text = memory element

namespace Statement

variable [DecidableEq Cell] (meaning : Meaning Node Op Cell Word)

/-- Local memory behind a statement; a target that names no element is left alone. -/
def run (memory : Cell → Word) : Statement → Cell → Word
  | assign target value =>
      match meaning.cell target with
      | some cell => Function.update memory cell (meaning.value memory value)
      | none => memory
  | addAssign target value =>
      match meaning.cell target with
      | some cell =>
          Function.update memory cell (meaning.add (memory cell) (meaning.value memory value))
      | none => memory
  | store _ _ => memory

end Statement

/-- A value that stems from local memory, with the element if it was read from there. -/
structure Loaded (Cell Word : Type) where
  cell : Option Cell
  word : Word

/-- The decompiler, the printed program in step with it, and the values that were loaded. -/
structure State (Node Cell Word : Type) where
  registers : NodeState Node
  printed : List Statement
  memory : Cell → Word
  loaded : String → Option (Loaded Cell Word)

section Steps

variable (manager : ExpressionManager Node Op) (meaning : Meaning Node Op Cell Word)

/-- The value an operand has, which is the loaded one if there is one. -/
def operandValue (st : State Node Cell Word) (name : String) : Word :=
  match st.loaded name with
  | some loaded => loaded.word
  | none => meaning.value st.memory (regText manager st.registers name)

/-- The element that an address register selects. -/
def selected (st : State Node Cell Word) (addr : String) : Cell :=
  match st.loaded addr with
  | some loaded => meaning.locate loaded.word
  | none => meaning.address (getExpressionNode manager st.registers (.reg addr))

/-- The loaded values behind an instruction. -/
def track (st : State Node Cell Word) : Instr Op → String → Option (Loaded Cell Word)
  | .dsRead vdst addr =>
      let cell := selected manager meaning st addr
      Function.update st.loaded vdst (some ⟨some cell, st.memory cell⟩)
  | .arithmetic op vdst src0 src1 =>
      Function.update st.loaded vdst
        (if (st.loaded src0).isSome ∨ (st.loaded src1).isSome then
          some ⟨none, meaning.operation op (operandValue manager meaning st src0)
            (operandValue manager meaning st src1)⟩
        else none)
  | .dsWrite _ _ | .dsAdd _ _ | .flatStore _ _ => st.loaded

variable [DecidableEq Cell]

def step (st : State Node Cell Word) (instr : Instr Op) : Option (State Node Cell Word) :=
  (fill manager st.registers instr).map fun filled =>
    { registers := filled.1
      printed := st.printed ++ filled.2.toList
      memory := filled.2.toList.foldl (Statement.run meaning) st.memory
      loaded := track manager meaning st instr }

/-- The memory of a run is the one that the printed program leaves. -/
theorem run_memory {start final : State Node Cell Word} {program : List (Instr Op)}
    (ran : Run.runFrom (step manager meaning) start program = some final) :
    ∃ printed, final.printed = start.printed ++ printed ∧
      final.memory = printed.foldl (Statement.run meaning) start.memory := by
  induction program generalizing start with
  | nil =>
      cases ran
      exact ⟨[], (List.append_nil _).symm, rfl⟩
  | cons instr rest ih =>
      obtain ⟨next, stepped, remaining⟩ := Run.runFrom_cons_eq_some ran
      obtain ⟨filled, _, rfl⟩ := Option.map_eq_some_iff.mp stepped
      obtain ⟨printed, appended, memory⟩ := ih remaining
      refine ⟨filled.2.toList ++ printed, ?_, ?_⟩
      · rw [appended, List.append_assoc]
      · rw [memory, List.foldl_append]

end Steps

/-! ## Uses of loaded registers -/

/-- The registers whose text an instruction prints for their value. -/
def Instr.values : Instr Op → List String
  | .dsRead _ _ | .arithmetic _ _ _ _ => []
  | .dsWrite _ vdata0 | .dsAdd _ vdata0 => [vdata0]
  | .flatStore vaddr vdata => [vaddr, vdata]

/-- The register whose text an instruction takes for an element of local memory. -/
def Instr.addresses : Instr Op → List String
  | .dsRead _ addr | .dsWrite addr _ | .dsAdd addr _ => [addr]
  | .arithmetic _ _ _ _ | .flatStore _ _ => []

section Uses

variable (manager : ExpressionManager Node Op) (meaning : Meaning Node Op Cell Word)

/-- What is printed for a loaded register has the value that was loaded. -/
structure Right (st : State Node Cell Word) (instr : Instr Op) : Prop where
  values : ∀ name ∈ instr.values, ∀ loaded, st.loaded name = some loaded →
    meaning.value st.memory (regText manager st.registers name) = loaded.word
  addresses : ∀ name ∈ instr.addresses, ∀ loaded, st.loaded name = some loaded →
    meaning.cell (regText manager st.registers name) = some (meaning.locate loaded.word)

/--
The text of an address names its element, and loaded registers are no addresses
and no operands of arithmetic.
-/
structure Plain (st : State Node Cell Word) (instr : Instr Op) : Prop where
  names : ∀ addr ∈ instr.addresses, meaning.cell (regText manager st.registers addr) =
    some (meaning.address (getExpressionNode manager st.registers (.reg addr)))
  addresses : ∀ addr ∈ instr.addresses, st.loaded addr = none
  operands : ∀ op vdst src0 src1, instr = .arithmetic op vdst src0 src1 →
    st.loaded src0 = none ∧ st.loaded src1 = none

/-- Where a loaded register is used, its element holds what it held when it was read. -/
def Unchanged (st : State Node Cell Word) (instr : Instr Op) : Prop :=
  ∀ name ∈ instr.values, ∀ loaded, st.loaded name = some loaded →
    ∀ cell, loaded.cell = some cell → st.memory cell = loaded.word

/-- The text of a loaded register names the element it was read from. -/
def Named (st : State Node Cell Word) : Prop :=
  ∀ name loaded, st.loaded name = some loaded →
    ∃ cell, loaded.cell = some cell ∧
      meaning.cell (regText manager st.registers name) = some cell

end Uses

section Runs

variable {manager : ExpressionManager Node Op} {meaning : Meaning Node Op Cell Word}
  {st next : State Node Cell Word} {instr : Instr Op}

theorem getExpressionNode_set_of_ne {registers : NodeState Node} {key other : Key}
    (register : Register Node) (differs : other ≠ key) :
    getExpressionNode manager (registers.set key register) other =
      getExpressionNode manager registers other := by
  unfold getExpressionNode
  rw [PyDict.get?_set_of_ne _ differs]

theorem regText_set_text {registers : NodeState Node} (text : String) (register : Register Node)
    (name : String) :
    regText manager (registers.set (.text text) register) name = regText manager registers name := by
  unfold regText
  rw [getExpressionNode_set_of_ne]
  rintro ⟨⟩

theorem regText_set_reg_of_ne {registers : NodeState Node} {vdst name : String}
    (register : Register Node) (differs : name ≠ vdst) :
    regText manager (registers.set (.reg vdst) register) name = regText manager registers name := by
  unfold regText
  rw [getExpressionNode_set_of_ne]
  rintro ⟨⟩
  exact differs rfl

theorem regText_dsRead_self (registers : NodeState Node) (vdst addr : String) :
    regText manager (DsRead.toFillNode manager registers vdst addr) vdst =
      regText manager registers addr := by
  unfold regText DsRead.toFillNode
  rw [getExpressionNode, PyDict.get?_set_self]

/-- A use of a loaded register is right when its element is unchanged. -/
theorem right_iff_unchanged (named : Named manager meaning st) (plain : Plain manager meaning st instr) :
    Right manager meaning st instr ↔ Unchanged st instr := by
  constructor
  · rintro right name used loaded isLoaded cell isCell
    obtain ⟨element, isElement, text⟩ := named name loaded isLoaded
    cases isCell.symm.trans isElement
    rw [← meaning.value_of_cell text st.memory]
    exact right.values name used loaded isLoaded
  · intro unchanged
    constructor
    · rintro name used loaded isLoaded
      obtain ⟨cell, isCell, text⟩ := named name loaded isLoaded
      rw [meaning.value_of_cell text]
      exact unchanged name used loaded isLoaded cell isCell
    · rintro name used loaded isLoaded
      rw [plain.addresses name used] at isLoaded
      cases isLoaded

variable [DecidableEq Cell]

/-- A plain instruction keeps the texts of the loaded registers. -/
theorem Named.step (named : Named manager meaning st) (plain : Plain manager meaning st instr)
    (stepped : step manager meaning st instr = some next) : Named manager meaning next := by
  obtain ⟨⟨registers, printed⟩, filled, rfl⟩ := Option.map_eq_some_iff.mp stepped
  rintro name loaded isLoaded
  dsimp only at isLoaded ⊢
  cases instr with
  | dsRead vdst addr =>
      cases filled
      by_cases same : name = vdst
      · subst same
        rw [track, Function.update_self] at isLoaded
        cases isLoaded
        refine ⟨_, rfl, ?_⟩
        have free := plain.addresses addr List.mem_cons_self
        rw [regText_dsRead_self, plain.names addr List.mem_cons_self, selected, free]
      · rw [track, Function.update_of_ne same] at isLoaded
        rw [DsRead.toFillNode, regText_set_reg_of_ne _ same]
        exact named name loaded isLoaded
  | dsWrite addr vdata0 =>
      obtain ⟨written, fills, pair⟩ := Option.map_eq_some_iff.mp filled
      obtain ⟨data, _, rfl⟩ := Option.map_eq_some_iff.mp fills
      cases pair
      rw [regText_set_text]
      exact named name loaded isLoaded
  | dsAdd addr vdata0 =>
      obtain ⟨written, fills, pair⟩ := Option.map_eq_some_iff.mp filled
      cases pair
      obtain ⟨stored, _, fills⟩ := Option.bind_eq_some_iff.mp fills
      obtain ⟨data, _, fills⟩ := Option.bind_eq_some_iff.mp fills
      cases fills
      rw [regText_set_text]
      exact named name loaded isLoaded
  | arithmetic op vdst src0 src1 =>
      obtain ⟨first, _, fills⟩ := Option.bind_eq_some_iff.mp filled
      obtain ⟨second, _, fills⟩ := Option.bind_eq_some_iff.mp fills
      cases fills
      obtain ⟨free0, free1⟩ := plain.operands op vdst src0 src1 rfl
      by_cases same : name = vdst
      · subst same
        simp [track, free0, free1] at isLoaded
      · rw [track, Function.update_of_ne same] at isLoaded
        rw [regText_set_reg_of_ne _ same]
        exact named name loaded isLoaded
  | flatStore vaddr vdata =>
      obtain ⟨data, _, pair⟩ := Option.map_eq_some_iff.mp filled
      cases pair
      exact named name loaded isLoaded

/--
In a run of plain instructions every use of a loaded register is right exactly
when each finds its element as it was read.
-/
theorem run_uses_right_iff (start : State Node Cell Word) (program : List (Instr Op))
    (fresh : ∀ name, start.loaded name = none)
    (plain : Run.Meets (step manager meaning) (Plain manager meaning) start program) :
    Run.Meets (step manager meaning) (Right manager meaning) start program ↔
      Run.Meets (step manager meaning) Unchanged start program := by
  have named : Named manager meaning start := by
    rintro name loaded isLoaded
    rw [fresh name] at isLoaded
    cases isLoaded
  refine Run.Meets.congr ?_ ?_ named plain
  · rintro st instr named plain
    exact right_iff_unchanged named plain
  · rintro st instr next named plain stepped
    exact named.step plain stepped

/-! ## Writes that spare what was loaded -/

/-- No element that a register was read from changes. -/
def Spares (manager : ExpressionManager Node Op) (meaning : Meaning Node Op Cell Word)
    (st : State Node Cell Word) (instr : Instr Op) : Prop :=
  ∀ next, step manager meaning st instr = some next → ∀ name loaded, st.loaded name = some loaded →
    ∀ cell, loaded.cell = some cell → next.memory cell = st.memory cell

/-- The element of a loaded register holds what was read. -/
def Kept (st : State Node Cell Word) : Prop :=
  ∀ name loaded, st.loaded name = some loaded →
    ∀ cell, loaded.cell = some cell → st.memory cell = loaded.word

theorem Kept.step (kept : Kept st) (spares : Spares manager meaning st instr)
    (stepped : step manager meaning st instr = some next) : Kept next := by
  have same := spares next stepped
  obtain ⟨⟨registers, printed⟩, filled, rfl⟩ := Option.map_eq_some_iff.mp stepped
  have old (name : String) (loaded : Loaded Cell Word) (isLoaded : st.loaded name = some loaded)
      (cell : Cell) (isCell : loaded.cell = some cell) :
      printed.toList.foldl (Statement.run meaning) st.memory cell = loaded.word :=
    (same name loaded isLoaded cell isCell).trans (kept name loaded isLoaded cell isCell)
  rintro name loaded isLoaded cell isCell
  dsimp only at isLoaded ⊢
  cases instr with
  | dsRead vdst addr =>
      by_cases differs : name = vdst
      · subst differs
        rw [track, Function.update_self] at isLoaded
        cases isLoaded
        cases isCell
        cases filled
        rfl
      · rw [track, Function.update_of_ne differs] at isLoaded
        exact old name loaded isLoaded cell isCell
  | arithmetic op vdst src0 src1 =>
      by_cases differs : name = vdst
      · subst differs
        rw [track, Function.update_self] at isLoaded
        split at isLoaded
        · cases isLoaded
          cases isCell
        · cases isLoaded
      · rw [track, Function.update_of_ne differs] at isLoaded
        exact old name loaded isLoaded cell isCell
  | dsWrite addr vdata0 => exact old name loaded isLoaded cell isCell
  | dsAdd addr vdata0 => exact old name loaded isLoaded cell isCell
  | flatStore vaddr vdata => exact old name loaded isLoaded cell isCell

/-- Writes that spare the loaded elements leave them as they were read. -/
theorem run_unchanged_of_spares (start : State Node Cell Word) (program : List (Instr Op))
    (fresh : ∀ name, start.loaded name = none)
    (spares : Run.Meets (step manager meaning) (Spares manager meaning) start program) :
    Run.Meets (step manager meaning) Unchanged start program := by
  have kept : Kept start := by
    rintro name loaded isLoaded
    rw [fresh name] at isLoaded
    cases isLoaded
  refine (Run.Meets.congr ?_ ?_ kept spares).mpr spares
  · rintro st instr kept spares
    exact iff_of_true (fun name _ => kept name) spares
  · rintro st instr next kept spares stepped
    exact kept.step spares stepped

end Runs

/-! ## Two programs -/

/-- Expressions that are their own text. -/
def textManager : ExpressionManager String Unit where
  expressionToString := id
  addConstNode := id
  addPlus first second := first ++ " + " ++ second
  arithmetic _ first second :=
    ⟨first.val ++ " + " ++ second.val, .unknown,
      first.expressionNode ++ " + " ++ second.expressionNode⟩
  globalTarget node := node

/-- The elements `lds0[x]` and `lds0[y]` for different `x` and `y`, and the arguments `a` and `b`. -/
def textMeaning : Meaning String Unit Bool Nat where
  cell text := if text = "lds0[x]" then some false else if text = "lds0[y]" then some true else none
  value memory text :=
    if text = "lds0[x]" then memory false
    else if text = "lds0[y]" then memory true
    else if text = "a" then 1
    else if text = "b" then 2
    else 0
  address node := node != "lds0[x]"
  locate word := word != 0
  add := Nat.add
  operation _ := Nat.add
  value_of_cell := by
    intro text element names memory
    by_cases first : text = "lds0[x]"
    · simp_all
    · by_cases second : text = "lds0[y]"
      · simp_all
      · simp [first, second] at names

/-- The addresses `lds0[x]` and `lds0[y]`, the arguments and the address of `out`. -/
def textStart : State String Bool Nat where
  registers :=
    ((((PyDict.empty.set (.reg "v0") ⟨"lds0 + x", .localDataPointer, "lds0[x]"⟩).set (.reg "v1")
      ⟨"lds0 + y", .localDataPointer, "lds0[y]"⟩).set (.reg "v2") ⟨"a", .unknown, "a"⟩).set
        (.reg "v3") ⟨"b", .unknown, "b"⟩).set (.reg "v4") ⟨"out", .unknown, "out"⟩
  printed := []
  memory _ := 0
  loaded _ := none

/-- `lds0[x] = a`, a read of `lds0[x]`, a write of `b` to an element and a store of what was read. -/
def readWriteStore (written : String) : List (Instr Unit) :=
  [.dsWrite "v0" "v2", .dsRead "v5" "v0", .dsWrite written "v3", .flatStore "v4" "v5"]

/-- A write to the other element. -/
theorem run_uses_right_otherElement :
    Run.Meets (step textManager textMeaning) (Right textManager textMeaning) textStart
      (readWriteStore "v1") := by
  refine (run_uses_right_iff textStart (readWriteStore "v1") (fun _ => rfl) ?_).mpr ?_
  · refine ⟨⟨by decide, by decide, by rintro _ _ _ _ ⟨⟩⟩, ?_⟩
    rintro _ stepped
    cases stepped
    refine ⟨⟨by decide, by decide, by rintro _ _ _ _ ⟨⟩⟩, ?_⟩
    rintro _ stepped
    cases stepped
    refine ⟨⟨by decide, by decide, by rintro _ _ _ _ ⟨⟩⟩, ?_⟩
    rintro _ stepped
    cases stepped
    exact ⟨⟨by decide, by decide, by rintro _ _ _ _ ⟨⟩⟩, fun _ _ => trivial⟩
  · refine ⟨?_, ?_⟩
    · rintro name used loaded ⟨⟩
    rintro _ stepped
    cases stepped
    refine ⟨?_, ?_⟩
    · rintro name used
      cases used
    rintro _ stepped
    cases stepped
    refine ⟨?_, ?_⟩
    · rintro name used loaded isLoaded
      cases List.mem_singleton.mp used
      cases isLoaded
    rintro _ stepped
    cases stepped
    refine ⟨?_, fun _ _ => trivial⟩
    rintro name used loaded isLoaded cell isCell
    rcases List.mem_cons.mp used with rfl | used
    · cases isLoaded
    · cases List.mem_singleton.mp used
      cases isLoaded
      cases isCell
      rfl

/-- A write to the element that was read: the store prints `lds0[x]`, which is `b` by then. -/
theorem readWriteStore_stale :
    ¬ Run.Meets (step textManager textMeaning) (Right textManager textMeaning) textStart
      (readWriteStore "v0") := by
  intro all
  have last := (((all.2 _ rfl).2 _ rfl).2 _ rfl).1
  have wrong := last.values "v5" (by decide) ⟨some false, 1⟩ rfl
  revert wrong
  decide

end OpenCLDecompiler.LocalMemory
