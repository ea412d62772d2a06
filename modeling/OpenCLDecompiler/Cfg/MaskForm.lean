import Mathlib.Data.Finset.Insert
import OpenCLDecompiler.Library.Walk
import OpenCLDecompiler.Cfg.Build

/-!
# Structured programs in mask form

A structured program is lowered to masks by entering, switching and closing
conjunctions of conditions.  The relation `MaskForm` lists all instruction
sequences a front end may produce for a program: it is free to close several
masks at once and to leave closing to a surrounding statement.
-/

namespace OpenCLDecompiler

open Library

/-- Structured programs over condition texts; every body holds an instruction. -/
inductive Stmt where
  | plain (node : BackendNode)
  | seq (first second : Stmt)
  | ifThen (cond : String) (body : Stmt)
  | ifElse (cond : String) (body other : Stmt)

namespace Stmt

/-- The conditions of a program in textual order. -/
def conditions : Stmt → List String
  | .plain _ => []
  | .seq first second => first.conditions ++ second.conditions
  | .ifThen cond body => cond :: body.conditions
  | .ifElse cond body other => cond :: (body.conditions ++ other.conditions)

/-- For each plain instruction in program order, whether its guard holds. -/
def guards (valuation : String → Bool) (active : Bool) : Stmt → List Bool
  | .plain _ => [active]
  | .seq first second => first.guards valuation active ++ second.guards valuation active
  | .ifThen cond body => body.guards valuation (active && valuation cond)
  | .ifElse cond body other =>
      body.guards valuation (active && valuation cond) ++
        other.guards valuation (active && !valuation cond)

end Stmt

/-- Two conditions neither of which is, or negates to, the other or its negation. -/
structure Unrelated (left right : String) : Prop where
  different : left ≠ right
  notNegated : left ≠ ExecCondition.makeNot right
  notNegation : ExecCondition.makeNot left ≠ right
  negations : ExecCondition.makeNot left ≠ ExecCondition.makeNot right

instance (left right : String) : Decidable (Unrelated left right) :=
  decidable_of_iff
    (left ≠ right ∧ left ≠ ExecCondition.makeNot right ∧ ExecCondition.makeNot left ≠ right ∧
      ExecCondition.makeNot left ≠ ExecCondition.makeNot right)
    ⟨fun ⟨first, second, third, fourth⟩ => ⟨first, second, third, fourth⟩,
      fun unrelated => ⟨unrelated.different, unrelated.notNegated, unrelated.notNegation,
        unrelated.negations⟩⟩

/-- No two conditions of a program are equal or negations of each other. -/
def Stmt.Distinct (program : Stmt) : Prop := program.conditions.Pairwise Unrelated

instance (program : Stmt) : Decidable program.Distinct :=
  inferInstanceAs (Decidable (program.conditions.Pairwise Unrelated))

/-- A valuation that gives the negation of each condition the opposite value. -/
def Negates (valuation : String → Bool) (program : Stmt) : Prop :=
  ∀ cond ∈ program.conditions, valuation (ExecCondition.makeNot cond) = !valuation cond

abbrev ExecRegisters := PyDict String ExecCondition

/-- The `exec_registers` after a plain instruction. -/
def BackendNode.execAfter (node : BackendNode) (registers : ExecRegisters) : ExecRegisters :=
  node.execWrites.foldl (fun current entry => current.set entry.1 entry.2) registers

/--
`MaskForm before level program instrs after current`: the instructions lower the
program where the mask is the conjunction `level`, and leave the mask `current`,
which is `level` or one of the conjunctions opened by the program.
-/
inductive MaskForm : ExecRegisters → Finset String → Stmt → List Instr → ExecRegisters →
    Finset String → Prop where
  | plain {before : ExecRegisters} {level : Finset String} (node : BackendNode) :
      MaskForm before level (.plain node) [.plain node] (node.execAfter before) level
  | seq {before middle after : ExecRegisters} {level current : Finset String}
      {first second : Stmt} {left right : List Instr}
      (head : MaskForm before level first left middle level)
      (tail : MaskForm middle level second right after current) :
      MaskForm before level (.seq first second) (left ++ right) after current
  | enter {before after : ExecRegisters} {level current : Finset String} {cond predicate : String}
      {mask : ExecCondition} {body : Stmt} {instrs : List Instr}
      (stored : before.get? predicate = some mask)
      (conjoined : mask.conditionSet = insert cond level)
      (inner : MaskForm before (insert cond level) body instrs after current) :
      MaskForm before level (.ifThen cond body) (.changeMask predicate :: instrs) after current
  | enterElse {before middle after : ExecRegisters} {level current : Finset String}
      {cond predicate elsePredicate : String} {mask elseMask : ExecCondition} {body other : Stmt}
      {left right : List Instr}
      (stored : before.get? predicate = some mask)
      (conjoined : mask.conditionSet = insert cond level)
      (inner : MaskForm before (insert cond level) body left middle (insert cond level))
      (elseStored : middle.get? elsePredicate = some elseMask)
      (negated : elseMask.conditionSet = insert (ExecCondition.makeNot cond) level)
      (elseInner : MaskForm middle (insert (ExecCondition.makeNot cond) level) other right after
        current) :
      MaskForm before level (.ifElse cond body other)
        (.changeMask predicate :: left ++ .changeMask elsePredicate :: right) after current
  | close {before after : ExecRegisters} {level current : Finset String} {predicate : String}
      {mask : ExecCondition} {program : Stmt} {instrs : List Instr}
      (inner : MaskForm before level program instrs after current) (isOpen : current ≠ level)
      (stored : after.get? predicate = some mask) (closed : mask.conditionSet = level) :
      MaskForm before level program (instrs ++ [.changeMask predicate]) after level
  | unmask {before after : ExecRegisters} {current : Finset String} {program : Stmt}
      {instrs : List Instr} (inner : MaskForm before ∅ program instrs after current)
      (isOpen : current ≠ ∅) :
      MaskForm before ∅ program (instrs ++ [.unmask]) after ∅

/--
The code of a whole program: it either closes every mask it opens or is followed
by the end of the program, which closes the remaining ones.
-/
inductive WholeMaskForm (program : Stmt) : List Instr → Prop where
  | closed {instrs : List Instr} {after : ExecRegisters}
      (form : MaskForm initialData.execRegisters ∅ program instrs after ∅) :
      WholeMaskForm program instrs
  | ended {instrs : List Instr} {after : ExecRegisters} {current : Finset String}
      (form : MaskForm initialData.execRegisters ∅ program instrs after current) :
      WholeMaskForm program (instrs ++ [.endPgm])

/-! ## The structured graph -/

/--
The successor the walk takes: at a node with two children the first one where the
condition of the node holds, otherwise the second one.
-/
def nextNode (nodes : Nodes) (valuation : String → Bool) (node : NodeId) : Option NodeId :=
  match nodes.children node with
  | [only] => some only
  | [first, second] => some (if (nodes.getExec node).eval valuation then first else second)
  | _ => none

/-- The nodes of the plain instructions when the first node is `base`. -/
def plainNodes (base : NodeId) : List Instr → List NodeId
  | [] => []
  | instr :: rest =>
      if instr.isPlain then base :: plainNodes (base + 1) rest else plainNodes (base + 1) rest

/-- The listed nodes whose guard holds. -/
def selected (nodes : List NodeId) (guards : List Bool) : List NodeId :=
  ((nodes.zip guards).filter Prod.snd).map Prod.fst

/-- The entry node comes before the node of the first instruction. -/
def firstNode : NodeId := entryNode + 1

/-- Each edge is recorded once with its source and once with its target. -/
structure MutualEdges (nodes : Nodes) : Prop where
  childrenNodup : ∀ node, (nodes.children node).Nodup
  parentNodup : ∀ node, (nodes.parent node).Nodup
  agree : ∀ source target, source ∈ nodes.parent target ↔ target ∈ nodes.children source

/--
The graph of a structured program: under every valuation the walk from the entry
visits exactly the plain instructions whose guards hold, in program order.
-/
structure StructuredGraph (program : Stmt) (instrs : List Instr) (nodes : Nodes) : Prop where
  edges : MutualEdges nodes
  walk : ∀ valuation, Negates valuation program →
    ∃ trace, Walk.Complete (nextNode nodes valuation) entryNode trace ∧
      trace.filter (· ∈ plainNodes firstNode instrs) =
        selected (plainNodes firstNode instrs) (program.guards valuation true)

end OpenCLDecompiler
