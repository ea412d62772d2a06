import OpenCLDecompiler.Library.Run

/-!
# Guards of PTX instructions

A PTX instruction may carry a guard `@p` or `@!p`.  `PTXPredicatesPass` replaces
the guards by masks: neighbouring instructions with the same guard share one
mask, and a negated guard is first computed into a predicate of its own.
-/

namespace OpenCLDecompiler.Ptx

open Library

structure Guard where
  predicate : String
  negated : Bool
  deriving DecidableEq, Repr

/-- Labels and branches; a branch has its predicate as an operand and no guard. -/
inductive ControlFlow where
  | label (name : String)
  | branch (predicate target : String)
  | branchNot (predicate target : String)
  | jump (target : String)
  deriving DecidableEq, Repr

/-- What an instruction does when it is performed; `EndPgm` is not control flow in the source. -/
inductive Body (ι : Type) where
  | operation (operation : ι)
  | endPgm
  deriving DecidableEq, Repr

/-- The instructions of a PTX kernel, with `_predicate` and `_predicate_negated` as the guard. -/
inductive Instr (ι : Type) where
  | guarded (guard : Option Guard) (body : Body ι)
  | control (flow : ControlFlow)
  deriving DecidableEq, Repr

/-- The types `Not.allowed_types` lists. -/
inductive NotType where
  | pred
  | i32
  | b32
  | b64
  deriving DecidableEq, Repr

inductive MaskedInstr (ι : Type) where
  | plain (body : Body ι)
  | control (flow : ControlFlow)
  | not (destination source : String) (opType : NotType)
  | changeMask (predicate : String)
  | unmask
  deriving DecidableEq, Repr

variable {ι : Type}

/--
The constructor `Not(destination, source, op_type)`.  `op_type` has no default,
so a call that leaves it out is a `TypeError`.
-/
def newNot (destination source : String) (opType : Option NotType) : Option (MaskedInstr ι) :=
  opType.map fun type => .not destination source type

/-- The predicate whose mask stands for a guard. -/
def Guard.maskPredicate (guard : Guard) : String :=
  if guard.negated then guard.predicate ++ "Not" else guard.predicate

/-- `KernelPredicates.add`. -/
def addPredicate (predicates : List String) (predicate : String) : List String :=
  if predicate ∈ predicates then predicates else predicates ++ [predicate]

/-- The local variables of `run` and the predicates of the kernel. -/
structure PredicatesState (ι : Type) where
  instructions : List (MaskedInstr ι)
  openPredicate : Option String
  predicates : List String

def PredicatesState.emit (st : PredicatesState ι) (instrs : List (MaskedInstr ι)) :
    PredicatesState ι :=
  { st with instructions := st.instructions ++ instrs }

/-- `Unmask()` for the open predicate, if there is one. -/
def closing (openPredicate : Option String) : List (MaskedInstr ι) :=
  if openPredicate.isSome then [.unmask] else []

/-- The instructions that compute a negated guard; the call of `Not` leaves its type out. -/
def negation (guard : Guard) : Option (List (MaskedInstr ι)) :=
  if guard.negated then
    (newNot guard.maskPredicate guard.predicate none).map fun instr => [instr]
  else some []

/-- The body of the loop of `run`; `none` is the `TypeError`. -/
def predicatesStep (st : PredicatesState ι) (instr : Instr ι) : Option (PredicatesState ι) :=
  match instr with
  | .control flow =>
      some { st.emit (closing st.openPredicate ++ [.control flow]) with openPredicate := none }
  | .guarded none body =>
      some { st.emit (closing st.openPredicate ++ [.plain body]) with openPredicate := none }
  | .guarded (some guard) body =>
      let predicates :=
        if guard.negated then addPredicate st.predicates guard.maskPredicate else st.predicates
      if st.openPredicate = some guard.maskPredicate then
        some { st.emit [.plain body] with predicates := predicates }
      else do
        let negated ← negation guard
        some { st.emit (closing st.openPredicate ++ negated ++
            [.changeMask guard.maskPredicate, .plain body]) with
          openPredicate := some guard.maskPredicate
          predicates := predicates }

/-- `PTXPredicatesPass.run`: the instructions of the kernel afterwards. -/
def predicatesPass (predicates : List String) (instrs : List (Instr ι)) :
    Option (List (MaskedInstr ι)) :=
  (Run.runFrom predicatesStep ⟨[], none, predicates⟩ instrs).map fun st =>
    st.instructions ++ closing st.openPredicate

end OpenCLDecompiler.Ptx
