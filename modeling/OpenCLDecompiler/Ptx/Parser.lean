import OpenCLDecompiler.Library.CSyntax
import OpenCLDecompiler.Library.PyDict
import OpenCLDecompiler.Library.Text

/-!
# The parser of PTX texts

`parse_kernel` reads a text line by line with three states.  A regular expression is a
chain of the steps `expect` and `span`, none of which could stop anywhere else.
-/

namespace OpenCLDecompiler.Ptx.Parser

open Library Library.C

abbrev Text := List Char

/-! ## Kernels -/

structure PTXArgument where
  name : Text := []
  size : Nat := 32
  typeName : Text := "u32".toList
  isConst : Bool := false
  isPointer : Bool := false
  addressSpace : Option Text := none
  alignment : Option Int := none
  deriving DecidableEq

structure PTXRegister where
  name : Text
  regType : Text
  deriving DecidableEq

structure PTXInstruction where
  text : Text
  predicate : Option Text := none
  predicateNegated : Bool := false
  deriving DecidableEq

structure PTXKernel where
  name : Text
  locals : PyDict Text Nat := .empty
  workGroupSize : Option (List Nat) := none
  arguments : List PTXArgument := []
  registers : List PTXRegister := []
  specialRegisters : List Text := []
  instructions : List PTXInstruction := []

/-! ## Texts -/

/-- `str.isspace`, which is also `\\s`. -/
def isBlank (c : Char) : Bool :=
  c.toNat ∈ [9, 10, 11, 12, 13, 28, 29, 30, 31, 32, 133, 160, 5760, 8232, 8233, 8239, 8287, 12288] ||
    (8192 ≤ c.toNat && c.toNat ≤ 8202)

/-- The rest of a text behind a fixed start. -/
def expect (start text : Text) : Option Text :=
  if start.isPrefixOf text then some (text.drop start.length) else none

/-- The letters at the start of a text, at least one, and the rest. -/
def span (keep : Char → Bool) (text : Text) : Option (Text × Text) :=
  if (text.takeWhile keep).isEmpty then none
  else some (text.takeWhile keep, text.dropWhile keep)

/-- `int` of digits. -/
def numberOf (digits : Text) : Nat :=
  digits.foldl (fun number digit => number * 10 + (digit.toNat - '0'.toNat)) 0

/-- The digits of a number, groups of which an underscore may part. -/
def readDigits (text : Text) : Option Nat :=
  let groups := Text.split ['_'] text
  if groups.all fun group => !group.isEmpty && group.all Char.isDigit then
    some (numberOf groups.flatten)
  else none

/-- `int(text)`; `none` is a `ValueError`. -/
def readInt : Text → Option Int
  | '-' :: text => (readDigits text).map fun number => -(number : Int)
  | '+' :: text => (readDigits text).map fun number => (number : Int)
  | text => (readDigits text).map fun number => (number : Int)

/-! ## Parameters -/

/-- The size behind the letter of a type. -/
def matchType : Text → Option Nat
  | letter :: size =>
      if letter ∈ ['u', 's', 'b', 'f'] ∧
          size ∈ ["8".toList, "16".toList, "32".toList, "64".toList] then
        some (numberOf size)
      else none
  | [] => none

/-- What a word with a point says of an argument, without the point. -/
def readAttribute (arg : PTXArgument) (d : Text) : PTXArgument :=
  match matchType d with
  | some size => { arg with typeName := d, size := size }
  | none =>
      if d = "ptr".toList then { arg with isPointer := true }
      else if d = "constant".toList then { arg with isConst := true, addressSpace := some d }
      else if d ∈ ["global".toList, "local".toList, "shared".toList, "param".toList] then
        { arg with addressSpace := some d }
      else arg

/-- The loop over the words of a parameter; `.align` takes the next one if this is a number. -/
def readTokens (arg : PTXArgument) : List Text → PTXArgument
  | [] => arg
  | token :: rest =>
      if token.head? = some '.' then
        if token = ".align".toList then
          match rest with
          | [] => arg
          | next :: others =>
              match readInt next with
              | some alignment => readTokens { arg with alignment := some alignment } others
              | none => readTokens arg (next :: others)
        else readTokens (readAttribute arg token.tail) rest
      else readTokens { arg with name := token.rdropWhile (· = ',') } rest

/-- The argument of one entry; `none` where the entry names nothing. -/
def readEntry (rawEntry : Text) : Option PTXArgument :=
  let entry := Text.strip isBlank rawEntry
  if entry = [] then none
  else
    let arg := readTokens {} (Text.words isBlank entry)
    if arg.name = [] then none else some arg

/-- `_parse_params`; `none` is an `IndexError`. -/
def parseParams (func : PTXKernel) (text : Text) : Option PTXKernel :=
  match Text.split ['('] (text.filter (· ≠ ')')) with
  | _ :: tail :: _ =>
      some { func with
        arguments := func.arguments ++ (Text.split ".param".toList tail).filterMap readEntry }
  | _ => none

/-! ## Declarations -/

/-- `\\.reg\\s+\\.(\\w+)\\s+%(\\w+)<(\\d+)>` -/
def matchReg (line : Text) : Option (Text × Text × Text) := do
  let text ← expect ".reg".toList line
  let (_, text) ← span isBlank text
  let text ← expect ".".toList text
  let (rtype, text) ← span isWordChar text
  let (_, text) ← span isBlank text
  let text ← expect "%".toList text
  let (stem, text) ← span isWordChar text
  let text ← expect "<".toList text
  let (count, text) ← span Char.isDigit text
  let _ ← expect ">".toList text
  some (rtype, stem, count)

/-- The register with a number. -/
def numbered (rtype stem : Text) (number : Nat) : PTXRegister where
  name := '%' :: stem ++ Nat.toDigits 10 number
  regType := rtype

/-- `_parse_reg`. -/
def parseReg (func : PTXKernel) (line : Text) : PTXKernel :=
  match matchReg line with
  | some (rtype, stem, count) =>
      { func with
        registers := func.registers ++
          (List.range (numberOf count)).map fun n => numbered rtype stem (n + 1) }
  | none => func

/-- `(?:\\.align\\s+\\d+\\s+)?` -/
def skipAlign (text : Text) : Text :=
  (do
    let text ← expect ".align".toList text
    let (_, text) ← span isBlank text
    let (_, text) ← span Char.isDigit text
    let (_, text) ← span isBlank text
    some text).getD text

/-- `\\.shared\\s+(?:\\.align\\s+\\d+\\s+)?\\.(\\w+)\\s+([^\\s\\[]+)\\[(\\d+)\\]` -/
def matchShared (line : Text) : Option (Text × Text × Text) := do
  let text ← expect ".shared".toList line
  let (_, text) ← span isBlank text
  let text ← expect ".".toList (skipAlign text)
  let (rtype, text) ← span isWordChar text
  let (_, text) ← span isBlank text
  let (name, text) ← span (fun c => !isBlank c && c ≠ '[') text
  let text ← expect "[".toList text
  let (count, text) ← span Char.isDigit text
  let _ ← expect "]".toList text
  some (rtype, name, count)

/-- `type_size`. -/
def typeSize (rtype : Text) : Option Nat :=
  if rtype ∈ ["b8".toList, "u8".toList, "s8".toList] then some 1
  else if rtype ∈ ["b16".toList, "u16".toList, "s16".toList, "f16".toList] then some 2
  else if rtype ∈ ["b32".toList, "u32".toList, "s32".toList, "f32".toList] then some 4
  else if rtype ∈ ["b64".toList, "u64".toList, "s64".toList, "f64".toList] then some 8
  else none

/-- `_parse_locals`; `none` is a `TypeError`. -/
def parseLocals (func : PTXKernel) (line : Text) : Option PTXKernel :=
  match matchShared line with
  | some (rtype, name, count) =>
      (typeSize rtype).map fun elementSize =>
        { func with locals := func.locals.set name (elementSize * numberOf count) }
  | none => some func

/-- `\\.reqntid\\s+(\\d+)\\s*,\\s*(\\d+)\\s*,\\s*(\\d+)` at the start of a line. -/
def matchReqntid (line : Text) : Option (List Nat) := do
  let text ← expect ".reqntid".toList line
  let (_, text) ← span isBlank text
  let (first, text) ← span Char.isDigit text
  let text ← expect ",".toList (text.dropWhile isBlank)
  let (second, text) ← span Char.isDigit (text.dropWhile isBlank)
  let text ← expect ",".toList (text.dropWhile isBlank)
  let (third, _) ← span Char.isDigit (text.dropWhile isBlank)
  some [numberOf first, numberOf second, numberOf third]

/-! ## Instructions -/

def isPredicateChar (c : Char) : Bool := isWordChar c || c = '.' || c = '$'

/-- `^@(!?)(%[\\w.$]+)\\s+(.+)$` -/
def matchPredicate (text : Text) : Option (Bool × Text × Text) := do
  let text ← expect "@".toList text
  let negation := "!".toList.isPrefixOf text
  let text ← expect "%".toList (if negation then text.drop 1 else text)
  let (predicate, text) ← span isPredicateChar text
  let (_, body) ← span isBlank text
  if body.isEmpty then none else some (negation, '%' :: predicate, body)

/-- `_parse_instruction`. -/
def parseInstruction (line : Text) : PTXInstruction :=
  let text := [' '].intercalate (Text.words isBlank (line.rdropWhile (· = ';')))
  match matchPredicate text with
  | none => { text := text }
  | some (negation, predicate, body) =>
      { text := Text.strip isBlank body, predicate := some predicate, predicateNegated := negation }

/-- `SPECIAL_REG_PATTERN` at the start of a text. -/
def specialAt (text : Text) : Option Text := do
  let rest ← expect "%".toList text
  match expect "envreg".toList rest with
  | some digits => (span Char.isDigit digits).map fun (number, _) => "%envreg".toList ++ number
  | none =>
      let name ← ["ntid".toList, "ctaid".toList, "tid".toList, "nctaid".toList].find?
        fun name => ((name ++ ['.']).isPrefixOf rest)
      match rest.drop (name.length + 1) with
      | axis :: _ => if axis ∈ ['x', 'y', 'z'] then some ('%' :: name ++ ['.', axis]) else none
      | [] => none

/-- `SPECIAL_REG_PATTERN.findall`, with `skip` letters of the last match ahead. -/
def findSpecials : Nat → Text → List Text
  | _, [] => []
  | skip + 1, _ :: rest => findSpecials skip rest
  | 0, c :: rest =>
      match specialAt (c :: rest) with
      | some found => found :: findSpecials (found.length - 1) rest
      | none => findSpecials 0 rest

/-! ## Lines -/

/-- `re.sub(r"//.*$", "", line)`. -/
def cutComment : Text → Text
  | '/' :: '/' :: _ => []
  | c :: rest => c :: cutComment rest
  | [] => []

def cleanLine (rawLine : Text) : Text := Text.strip isBlank (cutComment rawLine)

/-- `\\.entry\\s+(\\w+)` -/
def entryAt (text : Text) : Option Text := do
  let text ← expect ".entry".toList text
  let (_, text) ← span isBlank text
  let (name, _) ← span isWordChar text
  some name

/-- The first name behind `.entry`. -/
def searchEntry : Text → Option Text
  | [] => none
  | c :: rest => (entryAt (c :: rest)).or (searchEntry rest)

inductive ParserState where
  | start
  | params (func : PTXKernel) (paramBuffer : Text)
  | body (func : PTXKernel)

/-- A line of a kernel. -/
def stepBody (func : PTXKernel) (line : Text) : Option (ParserState × List PTXKernel) :=
  if ".reqntid".toList.isPrefixOf line then
    match matchReqntid line with
    | some size => some (.body { func with workGroupSize := some size }, [])
    | none => some (.body func, [])
  else if ".reg".toList.isPrefixOf line then some (.body (parseReg func line), [])
  else if ".shared".toList.isPrefixOf line then
    (parseLocals func line).map fun func => (.body func, [])
  else if line = "\x7b".toList then some (.body func, [])
  else if line = "\x7d".toList then some (.start, [func])
  else if !".".toList.isPrefixOf line then
    let instr := parseInstruction line
    some (.body { func with
      instructions := func.instructions ++ [instr]
      specialRegisters := func.specialRegisters ++ findSpecials 0 instr.text }, [])
  else some (.body func, [])

/-- The body of the loop; `none` is an exception, the list is what is yielded. -/
def step : ParserState → Text → Option (ParserState × List PTXKernel)
  | .start, line =>
      if ".entry".toList.isPrefixOf line then
        (searchEntry line).map fun name => (.params { name := name } line, [])
      else some (.start, [])
  | .params func paramBuffer, line =>
      let paramBuffer := paramBuffer ++ ' ' :: line
      if ')' ∈ line then (parseParams func paramBuffer).map fun func => (.body func, [])
      else some (.params func paramBuffer, [])
  | .body func, line => stepBody func line

def run : ParserState → List Text → Option (List PTXKernel)
  | _, [] => some []
  | state, rawLine :: rest =>
      if cleanLine rawLine = [] then run state rest
      else do
        let (state, yielded) ← step state (cleanLine rawLine)
        let others ← run state rest
        some (yielded ++ others)

/-- `parse_kernel`. -/
def parseKernel (lines : List Text) : Option (List PTXKernel) := run .start lines

end OpenCLDecompiler.Ptx.Parser
