import OpenCLDecompiler.Library.NestedText
import OpenCLDecompiler.Library.Settles
import OpenCLDecompiler.Regions.Structured

/-!
# The text of the output

`make_output_from_region` writes indented C.  The text can be read back: the
braces and semicolons in it show the statements and the branches of the output.
-/

namespace OpenCLDecompiler.Regions

open Library

/-! ## Writing -/

/--
What the printer writes for single nodes: `to_opencl` of a branch, and the
statements that the loop of `make_output_for_linear_region` writes for a node.
-/
structure Page where
  condition : NodeId → List Char
  statements : NodeId → List (List Char)

/-- `indent + text + ";\n"`. -/
def writeStatement (indent text : List Char) : List Char := indent ++ (text ++ ";\n".toList)

def Page.writeNode (page : Page) (indent : List Char) (node : NodeId) : List Char :=
  (page.statements node).flatMap (writeStatement indent)

/-- The indentation of the body of a branch. -/
def deeper (indent : List Char) : List Char := indent ++ "    ".toList

/-- `make_output_from_if_statement_region`, with the text of its body. -/
def Page.writeIf (page : Page) (indent : List Char) (cond : NodeId) (body : List Char) : List Char :=
  indent ++ "if (".toList ++ page.condition cond ++ ") \x7b\n".toList ++ body ++ indent ++ "\x7d\n".toList

/-- The second half of `make_output_from_if_else_statement_region`. -/
def writeElse (indent body : List Char) : List Char :=
  indent ++ "else \x7b\n".toList ++ body ++ indent ++ "\x7d\n".toList

/-- The loop of `make_output_for_linear_region` over nodes. -/
def writeNodes (cfg : Cfg) (page : Page) (indent : List Char) :
    Nat → NodeId → NodeId → Option (List Char)
  | 0, _, _ => none
  | fuel + 1, node, stop =>
      if node = stop then some (page.writeNode indent node)
      else (cfg.node node).children.head?.bind fun child =>
        (writeNodes cfg page indent fuel child stop).map fun rest =>
          page.writeNode indent node ++ rest

mutual

/-- `make_output_from_region(region, indent)`: the text that it writes. -/
def writeOutputFromRegion (cfg : Cfg) (page : Page) (graph : Graph) :
    Nat → List Char → RegionId → Option (List Char)
  | 0, _, _ => none
  | fuel + 1, indent, region =>
      match graph.get region with
      | ⟨.basic, _, _, _, _⟩ => some []
      | ⟨.linear, .node start, .node stop, _, _⟩ =>
          (firstPrinted cfg start).bind fun first => writeNodes cfg page indent fuel first stop
      | ⟨.linear, .region start, stop, _, _⟩ =>
          writeOutputFromChain cfg page graph fuel indent start stop
      | ⟨.linear, .node _, .region _, _, _⟩ => none
      | ⟨.ifStatement, start, _, _, _⟩ => do
          let cond ← conditionNode graph start
          let body ← writeOutputFromRegion cfg page graph fuel (deeper indent)
            (← branchBody graph start 0)
          some (page.writeIf indent cond body)
      | ⟨.ifElseStatement, start, _, _, _⟩ => do
          let cond ← conditionNode graph start
          let body ← writeOutputFromRegion cfg page graph fuel (deeper indent)
            (← branchBody graph start 0)
          let other ← writeOutputFromRegion cfg page graph fuel (deeper indent)
            (← branchBody graph start 1)
          some (page.writeIf indent cond body ++ writeElse indent other)

/-- The loop of `make_output_for_linear_region` over regions. -/
def writeOutputFromChain (cfg : Cfg) (page : Page) (graph : Graph) :
    Nat → List Char → RegionId → Anchor → Option (List Char)
  | 0, _, _, _ => none
  | fuel + 1, indent, region, stop =>
      (writeOutputFromRegion cfg page graph fuel indent region).bind fun first =>
        if .region region = stop then some first
        else (firstChild graph region).bind fun next =>
          (writeOutputFromChain cfg page graph fuel indent next stop).map fun rest => first ++ rest

end

/-- The text of an output. -/
def Printed.write (page : Page) : Printed → List Char → List Char
  | .empty, _ => []
  | .node statement, indent => page.writeNode indent statement
  | .seq first second, indent => first.write page indent ++ second.write page indent
  | .ifStatement cond body, indent => page.writeIf indent cond (body.write page (deeper indent))
  | .ifElseStatement cond body other, indent =>
      page.writeIf indent cond (body.write page (deeper indent)) ++
        writeElse indent (other.write page (deeper indent))

section Writes

variable {cfg : Cfg} {page : Page} {graph : Graph}

theorem writeNodes_eq (indent : List Char) (fuel : Nat) (node stop : NodeId) :
    writeNodes cfg page indent fuel node stop =
      (printNodes cfg fuel node stop).map fun out => out.write page indent := by
  induction fuel generalizing node with
  | zero => rfl
  | succ fuel ih =>
      rw [writeNodes, printNodes]
      split
      · rfl
      · cases (cfg.node node).children.head? with
        | none => rfl
        | some child =>
            simp only [Option.bind_some, ih, Option.map_map]
            rfl

/-- The text is the one of the statements that the output has. -/
theorem write_eq (fuel : Nat) :
    (∀ indent region, writeOutputFromRegion cfg page graph fuel indent region =
      (makeOutputFromRegion cfg graph fuel region).map fun out => out.write page indent) ∧
    ∀ indent region stop, writeOutputFromChain cfg page graph fuel indent region stop =
      (makeOutputFromChain cfg graph fuel region stop).map fun out => out.write page indent := by
  induction fuel with
  | zero => exact ⟨fun _ _ => rfl, fun _ _ _ => rfl⟩
  | succ fuel ih =>
      obtain ⟨regionIh, chainIh⟩ := ih
      constructor
      · rintro indent region
        rw [writeOutputFromRegion, makeOutputFromRegion]
        rcases graph.get region with ⟨type, start, stop, parents, children⟩
        cases type with
        | basic => rfl
        | linear =>
            cases start with
            | region startRegion => exact chainIh indent startRegion stop
            | node startNode =>
                cases stop with
                | region stopRegion => rfl
                | node stopNode =>
                    dsimp only
                    rw [Option.map_bind]
                    exact Option.bind_congr fun first _ => writeNodes_eq indent fuel first stopNode
        | ifStatement =>
            dsimp only
            cases conditionNode graph start with
            | none => rfl
            | some cond =>
                cases branchBody graph start 0 with
                | none => rfl
                | some bodyRegion =>
                    simp only [Option.bind_eq_bind, Option.bind_some, regionIh]
                    cases makeOutputFromRegion cfg graph fuel bodyRegion <;> rfl
        | ifElseStatement =>
            dsimp only
            cases conditionNode graph start with
            | none => rfl
            | some cond =>
                cases branchBody graph start 0 with
                | none => rfl
                | some bodyRegion =>
                    simp only [Option.bind_eq_bind, Option.bind_some, regionIh]
                    cases makeOutputFromRegion cfg graph fuel bodyRegion with
                    | none => rfl
                    | some body =>
                        cases branchBody graph start 1 with
                        | none => rfl
                        | some otherRegion =>
                            simp only [Option.bind_some, Option.map_some]
                            cases makeOutputFromRegion cfg graph fuel otherRegion <;> rfl
      · rintro indent region stop
        rw [writeOutputFromChain, makeOutputFromChain, regionIh]
        cases makeOutputFromRegion cfg graph fuel region with
        | none => rfl
        | some first =>
            simp only [Option.map_some, Option.bind_some]
            split
            · rfl
            · cases firstChild graph region with
              | none => rfl
              | some next =>
                  simp only [Option.bind_some, chainIh, Option.map_map]
                  rfl

end Writes

/-! ## Reading -/

/-- Statements and branches, one after the other, as C has them. -/
inductive Source where
  | done
  | statement (text : List Char) (rest : Source)
  | ifThen (cond : List Char) (body rest : Source)
  | ifElse (cond : List Char) (body other rest : Source)
  deriving DecidableEq, Repr

namespace Source

open Text

/-- The statements that are executed; `val` gives the values of the conditions. -/
def run (val : List Char → Bool) : Source → List (List Char)
  | .done => []
  | .statement text rest => text :: rest.run val
  | .ifThen cond body rest => (if val cond then body.run val else []) ++ rest.run val
  | .ifElse cond body other rest => (if val cond then body.run val else other.run val) ++ rest.run val

def ifHead (cond : List Char) : List Char := "if (".toList ++ (cond ++ ")".toList)

def elseHead : List Char := "else".toList

/-- The lines and blocks of C code. -/
def nested : Source → NestedText
  | .done => .done
  | .statement text rest => .line (text ++ ";".toList) rest.nested
  | .ifThen cond body rest => .block (ifHead cond) body.nested rest.nested
  | .ifElse cond body other rest =>
      .block (ifHead cond) body.nested (.block elseHead other.nested rest.nested)

def statement? (line : List Char) : Option (List Char) :=
  if ";".toList.isSuffixOf line then some (removeSuffix ";".toList line) else none

def condition? (head : List Char) : Option (List Char) :=
  if "if (".toList.isPrefixOf head && ")".toList.isSuffixOf head then
    some (removeSuffix ")".toList (removePrefix "if (".toList head))
  else none

/-- Code without an else in front of it. -/
def whole : Option Source × Source → Option Source
  | (none, source) => some source
  | (some _, _) => none

/-- The C code of lines and blocks, and the body of an else in front of it. -/
def ofNested : NestedText → Option (Option Source × Source)
  | .done => some (none, .done)
  | .line line rest => do
      let text ← statement? line
      let behind ← whole (← ofNested rest)
      some (none, .statement text behind)
  | .block head body rest => do
      let inner ← whole (← ofNested body)
      let (other, behind) ← ofNested rest
      if head = elseHead then whole (other, behind) |>.map fun behind => (some inner, behind)
      else do
        let cond ← condition? head
        match other with
        | none => some (none, .ifThen cond inner behind)
        | some other => some (none, .ifElse cond inner other behind)

/-- The C code of a text inside as many blocks. -/
def read (depth : Nat) (text : List Char) : Option Source := do
  whole (← ofNested (← NestedText.read depth text))

theorem statement?_append (text : List Char) : statement? (text ++ ";".toList) = some text := by
  have ends : ";".toList.isSuffixOf (text ++ ";".toList) = true :=
    List.isSuffixOf_iff_suffix.mpr (List.suffix_append _ _)
  rw [statement?, if_pos ends, removeSuffix_append]

theorem condition?_ifHead (cond : List Char) : condition? (ifHead cond) = some cond := by
  have starts : "if (".toList.isPrefixOf (ifHead cond) = true :=
    List.isPrefixOf_iff_prefix.mpr (List.prefix_append _ _)
  have ends : ")".toList.isSuffixOf (ifHead cond) = true := by
    refine List.isSuffixOf_iff_suffix.mpr ?_
    rw [ifHead, ← List.append_assoc]
    exact List.suffix_append _ _
  rw [condition?, starts, ends, Bool.and_self, if_pos rfl, ifHead, removePrefix_append,
    removeSuffix_append]

theorem ifHead_ne (cond : List Char) : ifHead cond ≠ elseHead := by
  rintro same
  have letters : some 'i' = some 'e' := congrArg List.head? same
  exact absurd letters (by decide)

/-- Reading the lines and blocks of C code gives the code. -/
theorem ofNested_nested (source : Source) : ofNested source.nested = some (none, source) := by
  induction source with
  | done => rfl
  | statement text rest ih =>
      rw [nested, ofNested, statement?_append, ih]
      rfl
  | ifThen cond body rest bodyIh restIh =>
      rw [nested, ofNested, bodyIh, restIh]
      simp only [Option.bind_eq_bind, Option.bind_some, whole, if_neg (ifHead_ne cond),
        condition?_ifHead]
  | ifElse cond body other rest bodyIh otherIh restIh =>
      rw [nested, ofNested, ofNested, bodyIh, otherIh, restIh]
      simp only [Option.bind_eq_bind, Option.bind_some, whole, if_pos, if_neg (ifHead_ne cond),
        Option.map_some, condition?_ifHead]

theorem nested_plain (source : Source) : source.nested.Plain := by
  have last (text : List Char) : (text ++ ";".toList).getLast? = some ';' :=
    List.getLast?_append_of_ne_nil _ (List.cons_ne_nil _ _)
  induction source with
  | done => trivial
  | statement text rest ih =>
      refine ⟨?_, ?_, ih⟩
      · rw [last]
        decide
      · rw [last]
        decide
  | ifThen cond body rest bodyIh restIh => exact ⟨bodyIh, restIh⟩
  | ifElse cond body other rest bodyIh otherIh restIh => exact ⟨bodyIh, otherIh, restIh⟩

end Source

/-- The C code of an output with code behind it. -/
def Printed.source (page : Page) : Printed → Source → Source
  | .empty, rest => rest
  | .node statement, rest => (page.statements statement).foldr .statement rest
  | .seq first second, rest => first.source page (second.source page rest)
  | .ifStatement cond body, rest => .ifThen (page.condition cond) (body.source page .done) rest
  | .ifElseStatement cond body other, rest =>
      .ifElse (page.condition cond) (body.source page .done) (other.source page .done) rest

/-- What is written for a node has no line breaks. -/
structure Page.Unbroken (page : Page) : Prop where
  condition : ∀ node, '\n' ∉ page.condition node
  statements : ∀ node, ∀ text ∈ page.statements node, '\n' ∉ text

section Reads

variable {page : Page}

theorem write_if (cond : NodeId) (body rest : NestedText) (depth : Nat) :
    (NestedText.block (Source.ifHead (page.condition cond)) body rest).write depth =
      page.writeIf (NestedText.indentation depth) cond (body.write (depth + 1)) ++
        rest.write depth := by
  have head : ") \x7b\n".toList = ")".toList ++ (NestedText.opening ++ ['\n']) := rfl
  have foot : "\x7d\n".toList = NestedText.closing ++ ['\n'] := rfl
  rw [NestedText.write_block, Page.writeIf, Source.ifHead, head, foot]
  simp only [List.append_assoc]

theorem write_else (body rest : NestedText) (depth : Nat) :
    (NestedText.block Source.elseHead body rest).write depth =
      writeElse (NestedText.indentation depth) (body.write (depth + 1)) ++ rest.write depth := by
  have head : "else \x7b\n".toList = Source.elseHead ++ (NestedText.opening ++ ['\n']) := rfl
  have foot : "\x7d\n".toList = NestedText.closing ++ ['\n'] := rfl
  rw [NestedText.write_block, writeElse, head, foot]
  simp only [List.append_assoc]

theorem write_statements (texts : List (List Char)) (rest : Source) (depth : Nat) :
    (texts.foldr Source.statement rest).nested.write depth =
      texts.flatMap (writeStatement (NestedText.indentation depth)) ++ rest.nested.write depth := by
  have ending : ";\n".toList = ";".toList ++ ['\n'] := rfl
  induction texts with
  | nil => rfl
  | cons text texts ih =>
      rw [List.foldr_cons, Source.nested, NestedText.write_line, ih, List.flatMap_cons,
        writeStatement, ending]
      simp only [List.append_assoc]

theorem write_source (out : Printed) (rest : Source) (depth : Nat) :
    (out.source page rest).nested.write depth =
      out.write page (NestedText.indentation depth) ++ rest.nested.write depth := by
  have inner {body : Printed}
      (ih : ∀ (rest : Source) (depth : Nat), (body.source page rest).nested.write depth =
        body.write page (NestedText.indentation depth) ++ rest.nested.write depth) (depth : Nat) :
      (body.source page .done).nested.write (depth + 1) =
        body.write page (deeper (NestedText.indentation depth)) := by
    rw [ih, NestedText.indentation_succ]
    exact List.append_nil _
  induction out generalizing rest depth with
  | empty => rfl
  | node statement => exact write_statements _ rest depth
  | seq first second firstIh secondIh =>
      rw [Printed.source, firstIh, secondIh, Printed.write, List.append_assoc]
  | ifStatement cond body ih =>
      rw [Printed.source, Source.nested, write_if, inner ih, Printed.write]
  | ifElseStatement cond body other bodyIh otherIh =>
      rw [Printed.source, Source.nested, write_if, write_else, inner bodyIh, inner otherIh,
        Printed.write, List.append_assoc]

theorem run_statements (val : List Char → Bool) (texts : List (List Char)) (rest : Source) :
    (texts.foldr Source.statement rest).run val = texts ++ rest.run val := by
  induction texts with
  | nil => rfl
  | cons text texts ih => exact congrArg (text :: ·) ih

/-- The code that is read executes what the output executes. -/
theorem run_source (val : List Char → Bool) (out : Printed) (rest : Source) :
    (out.source page rest).run val =
      (out.run fun node => val (page.condition node)).flatMap page.statements ++ rest.run val := by
  have choice (cond : Bool) (body other : List NodeId) :
      (if cond then body.flatMap page.statements else other.flatMap page.statements) =
        (if cond then body else other).flatMap page.statements := by
    cases cond <;> rfl
  induction out generalizing rest with
  | empty => rfl
  | node statement =>
      rw [Printed.source, run_statements, Printed.run, List.flatMap_singleton]
  | seq first second firstIh secondIh =>
      rw [Printed.source, firstIh, secondIh, Printed.run, List.flatMap_append, List.append_assoc]
  | ifStatement cond body ih =>
      rw [Printed.source, Source.run, ih, Source.run, List.append_nil, Printed.run]
      exact congrArg (· ++ rest.run val) (choice _ _ [])
  | ifElseStatement cond body other bodyIh otherIh =>
      rw [Printed.source, Source.run, bodyIh, otherIh, Source.run, List.append_nil, List.append_nil,
        Printed.run]
      exact congrArg (· ++ rest.run val) (choice _ _ _)

theorem statements_unbroken {texts : List (List Char)} (unbroken : ∀ text ∈ texts, '\n' ∉ text)
    {rest : Source} (restUnbroken : rest.nested.Unbroken) :
    (texts.foldr Source.statement rest).nested.Unbroken := by
  induction texts with
  | nil => exact restUnbroken
  | cons text texts ih =>
      obtain ⟨first, others⟩ := List.forall_mem_cons.mp unbroken
      exact ⟨List.not_mem_append first (by decide), ih others⟩

theorem source_unbroken (unbroken : page.Unbroken) (out : Printed) {rest : Source}
    (restUnbroken : rest.nested.Unbroken) : (out.source page rest).nested.Unbroken := by
  have head (cond : NodeId) : '\n' ∉ Source.ifHead (page.condition cond) :=
    List.not_mem_append (by decide)
      (List.not_mem_append (unbroken.condition cond) (by decide))
  induction out generalizing rest with
  | empty => exact restUnbroken
  | node statement => exact statements_unbroken (unbroken.statements statement) restUnbroken
  | seq first second firstIh secondIh => exact firstIh (secondIh restUnbroken)
  | ifStatement cond body ih => exact ⟨head cond, ih trivial, restUnbroken⟩
  | ifElseStatement cond body other bodyIh otherIh =>
      exact ⟨head cond, bodyIh trivial, by decide, otherIh trivial, restUnbroken⟩

/-- Reading gives back the code of the output. -/
theorem read_written (unbroken : page.Unbroken) (out : Printed) (depth : Nat) :
    Source.read depth (out.write page (NestedText.indentation depth)) =
      some (out.source page .done) := by
  have written := @write_source page out .done depth
  rw [show (Source.done.nested).write depth = [] from rfl, List.append_nil] at written
  rw [← written, Source.read, NestedText.read_write (Source.nested_plain _)
    (@source_unbroken page unbroken out .done trivial)]
  simp only [Option.bind_eq_bind, Option.bind_some, Source.ofNested_nested, Source.whole]

theorem run_written (val : List Char → Bool) (out : Printed) :
    (out.source page .done).run val =
      (out.run fun node => val (page.condition node)).flatMap page.statements :=
  (run_source val out .done).trans (List.append_nil _)

/-- Where the output ends, its text is written. -/
theorem settles_write {cfg : Cfg} {graph : Graph} {region : RegionId} {out : Printed}
    (shows : Settles (fun fuel => makeOutputFromRegion cfg graph fuel region) out)
    (page : Page) (indent : List Char) :
    Settles (fun fuel => writeOutputFromRegion cfg page graph fuel indent region)
      (out.write page indent) :=
  (shows.map fun out => out.write page indent).congr fun fuel => (write_eq fuel).1 indent region

end Reads

section Instance

/-- The region graph of `ifCode` with its regions merged. -/
def mergedGraph : Graph where
  get
    | 0 => ⟨.linear, .node 0, .node 1, [], [5]⟩
    | 1 => ⟨.basic, .node 2, .node 2, [0], [2, 3]⟩
    | 2 => ⟨.linear, .node 3, .node 3, [1], [3]⟩
    | 3 => ⟨.basic, .node 4, .node 4, [2, 1], [4]⟩
    | 4 => ⟨.linear, .node 5, .node 5, [5], []⟩
    | 5 => ⟨.ifStatement, .region 1, .region 3, [0], [4]⟩
    | _ => ⟨.linear, .region 0, .region 4, [], []⟩
  next := 7

def ifPage : Page where
  condition _ := "p".toList
  statements node := if node = 3 then ["x = 0".toList, "y = 0".toList] else ["f()".toList]

def ifText : List Char :=
  "    f();\n    if (p) \x7b\n        x = 0;\n        y = 0;\n    \x7d\n    f();\n".toList

theorem ifPage_unbroken : ifPage.Unbroken where
  condition _ := (by decide : '\n' ∉ "p".toList)
  statements node := by
    unfold ifPage
    dsimp only
    split <;> decide

end Instance

end OpenCLDecompiler.Regions
