import OpenCLDecompiler.Ptx.Parser

/-!
# Written kernels

The kernels that a PTX text writes down, and the lines it takes: a header with its
parameters, directives, and a body of statements and scopes with one statement on a line.
-/

namespace OpenCLDecompiler.Ptx.Parser

open Library Library.C

/-- Letters that are all blank. -/
def Blanks (text : Text) : Prop := ∀ c ∈ text, isBlank c = true

instance (text : Text) : Decidable (Blanks text) :=
  List.decidableBAll (fun c => isBlank c = true) text

/-! ## Parameters -/

inductive BaseLetter where
  | u | s | b | f

inductive Width where
  | w8 | w16 | w32 | w64

inductive Space where
  | global | local' | shared

def BaseLetter.letter : BaseLetter → Char
  | u => 'u' | s => 's' | b => 'b' | f => 'f'

def Width.size : Width → Nat
  | w8 => 8 | w16 => 16 | w32 => 32 | w64 => 64

def Width.text : Width → Text
  | w8 => "8".toList | w16 => "16".toList | w32 => "32".toList | w64 => "64".toList

def Space.text : Space → Text
  | global => "global".toList | local' => "local".toList | shared => "shared".toList

/-- A decimal number. -/
structure Digits where
  text : Text
  nonempty : text ≠ []
  digits : ∀ c ∈ text, c.isDigit = true

def Digits.number (digits : Digits) : Nat := numberOf digits.text

/-- What is said of a parameter before its name. -/
inductive Attribute where
  | type (letter : BaseLetter) (width : Width)
  | ptr
  | constant
  | space (kind : Space)
  | align (value : Digits)

namespace Attribute

def words : Attribute → List Text
  | type letter width => ['.' :: letter.letter :: width.text]
  | ptr => [".ptr".toList]
  | constant => [".constant".toList]
  | space kind => ['.' :: kind.text]
  | align value => [".align".toList, value.text]

/-- An argument with the attribute. -/
def set (arg : PTXArgument) : Attribute → PTXArgument
  | type letter width => { arg with typeName := letter.letter :: width.text, size := width.size }
  | ptr => { arg with isPointer := true }
  | constant => { arg with isConst := true, addressSpace := some "constant".toList }
  | space kind => { arg with addressSpace := some kind.text }
  | align value => { arg with alignment := some value.number }

end Attribute

/-- A parameter; `text` is what stands between its `.param` and the next one. -/
structure Param where
  attributes : List Attribute
  name : Text
  comma : Bool
  text : Text
  nonempty : name ≠ []
  noAttribute : name.head? ≠ some '.'
  noComma : name.getLast? ≠ some ','
  reads : Text.words isBlank text =
    attributes.flatMap Attribute.words ++ [if comma then name ++ [','] else name]
  noParam : ¬".param".toList <:+: text
  noBracket : '(' ∉ text ∧ ')' ∉ text

/-- The argument that the parameter declares. -/
def Param.argument (param : Param) : PTXArgument :=
  { param.attributes.foldl Attribute.set {} with name := param.name }

/-! ## Headers -/

/-- A list of parameters without its last bracket. -/
structure ParamList where
  before : Text
  lead : Text
  params : List Param
  blankBefore : Blanks before
  blankLead : Blanks lead

def ParamList.text (list : ParamList) : Text :=
  list.before ++ '(' :: (list.lead ++ list.params.flatMap fun param => ".param".toList ++ param.text)

/-- How the parameters stand behind the name of the kernel. -/
inductive Layout where
  | none
  | oneLine (list : ParamList)
  | lines (list : ParamList) (after : Text) (middle : List Text) (final : Text)
      (joined : [' '].intercalate (after :: (middle ++ [final])) = list.text)

namespace Layout

def params : Layout → List Param
  | none => []
  | oneLine list => list.params
  | lines list .. => list.params

/-- What stands on the line of the name. -/
def first : Layout → Text
  | none => []
  | oneLine list => list.text ++ [')']
  | lines _ after .. => after

/-- The other lines. -/
def others : Layout → List Text
  | none => []
  | oneLine _ => []
  | lines _ _ middle final _ => middle ++ [final ++ [')']]

/-- The list of parameters ends behind the line of the name. -/
def Continues : Layout → Prop
  | lines .. => True
  | _ => False

end Layout

structure Header where
  name : Text
  gap : Text
  layout : Layout
  named : name ≠ [] ∧ ∀ c ∈ name, isWordChar c = true
  parted : gap ≠ [] ∧ Blanks gap

def Header.entryLine (header : Header) : Text :=
  ".entry".toList ++ (header.gap ++ (header.name ++ header.layout.first))

def Header.lines (header : Header) : List Text := header.entryLine :: header.layout.others

/-! ## Statements -/

/-- A line that starts with a point and declares no registers. -/
structure Directive where
  text : Text
  point : text.head? = some '.'
  noEntry : ¬".entry".toList <+: text
  noReg : ¬".reg".toList <+: text
  noBracket : ')' ∉ text
  /-- Shared memory is of a type of PTX. -/
  sized : ∀ rtype name count, matchShared text = some (rtype, name, count) →
    (typeSize rtype).isSome = true

/-- `.reg .t %r<n>` -/
structure RegDecl where
  rtype : Text
  stem : Text
  count : Digits
  first : Text
  second : Text
  tail : Text
  typed : rtype ≠ [] ∧ ∀ c ∈ rtype, isWordChar c = true
  named : stem ≠ [] ∧ ∀ c ∈ stem, isWordChar c = true
  parted : (first ≠ [] ∧ Blanks first) ∧ second ≠ [] ∧ Blanks second
  noBracket : ')' ∉ tail

namespace RegDecl

def text (decl : RegDecl) : Text :=
  ".reg".toList ++ (decl.first ++ ('.' :: (decl.rtype ++ (decl.second ++
    ('%' :: (decl.stem ++ ('<' :: (decl.count.text ++ ('>' :: decl.tail)))))))))

/-- The registers from `%r0` to `%r(n-1)`. -/
def registers (decl : RegDecl) : List PTXRegister :=
  (List.range decl.count.number).map (numbered decl.rtype decl.stem)

end RegDecl

/-- A predicate before an instruction. -/
structure Guard where
  negated : Bool
  predicate : Text
  named : predicate ≠ [] ∧ ∀ c ∈ predicate, isPredicateChar c = true

def Guard.word (guard : Guard) : Text :=
  '@' :: ((if guard.negated then ['!'] else []) ++ '%' :: guard.predicate)

/-- An instruction or a label. -/
structure Instr where
  guard : Option Guard
  words : List Text
  text : Text
  nonempty : words ≠ []
  unguarded : guard = none → ∀ word ∈ words.head?, word.head? ≠ some '@'
  reads : Text.words isBlank (text.rdropWhile (· = ';')) =
    (guard.map Guard.word).toList ++ words
  noPoint : text.head? ≠ some '.'
  noBrace : text ≠ "\x7b".toList ∧ text ≠ "\x7d".toList

/-- The instruction that is written down. -/
def Instr.instruction (instr : Instr) : PTXInstruction where
  text := [' '].intercalate instr.words
  predicate := instr.guard.map fun guard => '%' :: guard.predicate
  predicateNegated := instr.guard.elim false Guard.negated

inductive Statement where
  | directive (line : Directive)
  | reg (decl : RegDecl)
  | instr (line : Instr)

namespace Statement

def text : Statement → Text
  | directive line => line.text
  | reg decl => decl.text
  | instr line => line.text

def registers : Statement → List PTXRegister
  | reg decl => decl.registers
  | _ => []

def instructions : Statement → List PTXInstruction
  | instr line => [line.instruction]
  | _ => []

/-- How many registers and instructions the statement adds. -/
def credit : Statement → Nat
  | directive _ => 0
  | reg decl => decl.count.number
  | instr _ => 1

end Statement

/-! ## Kernels -/

/-- The statements and the scopes between two braces. -/
inductive Body where
  | nil
  | statement (head : Statement) (rest : Body)
  | scope (inner rest : Body)

inductive Line where
  | opening
  | closing
  | statement (content : Statement)

def Line.text : Line → Text
  | opening => "\x7b".toList
  | closing => "\x7d".toList
  | statement content => content.text

namespace Body

def lines : Body → List Line
  | nil => []
  | statement head rest => .statement head :: rest.lines
  | scope inner rest => .opening :: (inner.lines ++ .closing :: rest.lines)

def statements : Body → List Statement
  | nil => []
  | statement head rest => head :: rest.statements
  | scope inner rest => inner.statements ++ rest.statements

end Body

/-- A kernel behind lines that belong to none. -/
structure WrittenKernel where
  before : List Directive
  header : Header
  directives : List Directive
  body : Body

/-- What is asked of a kernel that is read. -/
structure Listing where
  name : Text
  arguments : List PTXArgument
  registers : List PTXRegister
  instructions : List PTXInstruction
  deriving DecidableEq

def PTXKernel.listing (kernel : PTXKernel) : Listing where
  name := kernel.name
  arguments := kernel.arguments
  registers := kernel.registers
  instructions := kernel.instructions

namespace WrittenKernel

/-- The lines behind the header. -/
def innerLines (kernel : WrittenKernel) : List Line :=
  kernel.directives.map (fun line => .statement (.directive line)) ++
    (.opening :: (kernel.body.lines ++ [.closing]))

def lines (kernel : WrittenKernel) : List Text :=
  kernel.before.map Directive.text ++ (kernel.header.lines ++ kernel.innerLines.map Line.text)

/-- The kernel with all that it declares. -/
def listing (kernel : WrittenKernel) : Listing where
  name := kernel.header.name
  arguments := kernel.header.layout.params.map Param.argument
  registers := kernel.body.statements.flatMap Statement.registers
  instructions := kernel.body.statements.flatMap Statement.instructions

end WrittenKernel

end OpenCLDecompiler.Ptx.Parser
