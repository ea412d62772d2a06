import OpenCLDecompiler.Library.SignedTerms
import OpenCLDecompiler.Optimizations.Nodes

/-!
# The optimisation of sums

`_optimized_nodes_sum` writes a sum as a list of signed terms, takes opposite terms
against each other and folds the parts of global ids and global sizes.
-/

namespace OpenCLDecompiler.Optimizations

open Expressions Library Registers

variable {τ ι : Type}

/-! ## Terms of a sum -/

/-- `NodeSumInfo`, whose `reg_type` is the one of its node. -/
abbrev NodeSumInfo (τ ι : Type) := Signed (Node τ ι)

/-- The `reg_type` of a term; `none` is `UNKNOWN`. -/
inductive SumType where
  | function (function : WorkItemFunction)
  | workGroupIdLocalSize (dim : Dim)
  deriving DecidableEq

/-- The `reg_type` that `node_to_list_of_sum_of_nodes` gives a term. -/
def Node.regType : Node τ ι → Option SumType
  | .workItem function => some (.function function)
  | .op .mul (.workItem (.workGroupId dim)) (.workItem (.localSize other)) _ =>
      if dim = other then some (.workGroupIdLocalSize dim) else none
  | .op .mul (.workItem (.localSize dim)) (.workItem (.workGroupId other)) _ =>
      if dim = other then some (.workGroupIdLocalSize dim) else none
  | _ => none

/-- `node_to_list_of_sum_of_nodes`. -/
def nodeToListOfSumOfNodes : Node τ ι → Bool → List (NodeSumInfo τ ι)
  | .op .plus left right _, opPlus =>
      nodeToListOfSumOfNodes left opPlus ++ nodeToListOfSumOfNodes right opPlus
  | .op .minus left right _, opPlus =>
      nodeToListOfSumOfNodes left opPlus ++ nodeToListOfSumOfNodes right (!opPlus)
  | node, opPlus => [⟨opPlus, node⟩]

variable [DecidableEq τ] [DecidableEq ι]

/-- `result.remove(info)`; `none` is a `ValueError`. -/
def remove (result : List (NodeSumInfo τ ι)) (info : NodeSumInfo τ ι) :
    Option (List (NodeSumInfo τ ι)) :=
  if info ∈ result then some (result.erase info) else none

/-- A positive term with the given type. -/
def hasType (type : SumType) (info : NodeSumInfo τ ι) : Bool :=
  info.term.regType = some type && info.plus

/-- A positive product of the number of groups and the configured size. -/
def isNumGroupsMulSize (sizes : Dim → Int) (dim : Dim) (info : NodeSumInfo τ ι) : Bool :=
  info.plus &&
    match info.term with
    | .op .mul (.workItem (.numGroups other)) (.const value _) _ =>
        other = dim && value.equals (sizes dim)
    | .op .mul (.const value _) (.workItem (.numGroups other)) _ =>
        other = dim && value.equals (sizes dim)
    | _ => false

/-- The first `while` of a dimension; it leaves the rest of `w_array`. -/
def foldGlobalIds (dim : Dim) : List (NodeSumInfo τ ι) → List (NodeSumInfo τ ι) →
    List (NodeSumInfo τ ι) → List (NodeSumInfo τ ι) →
    Option (List (NodeSumInfo τ ι) × List (NodeSumInfo τ ι))
  | l :: lArray, g :: gArray, w :: wArray, result => do
      let result ← remove result l
      let result ← remove result g
      let result ← remove result w
      foldGlobalIds dim lArray gArray wArray (result ++ [⟨true, .workItem (.globalId dim)⟩])
  | _, _, wArray, result => some (result, wArray)

/-- The second `while` of a dimension. -/
def foldGlobalSizes (dim : Dim) : List (NodeSumInfo τ ι) → List (NodeSumInfo τ ι) →
    List (NodeSumInfo τ ι) → Option (List (NodeSumInfo τ ι))
  | w :: wArray, n :: numGroups, result => do
      let result ← remove result n
      let result ← remove result w
      foldGlobalSizes dim wArray numGroups (result ++ [⟨true, .workItem (.globalSize dim)⟩])
  | _, _, result => some result

/-- The body of the loop over the dimensions. -/
def foldDim (sizes : Dim → Int) (mulNodesInfo result : List (NodeSumInfo τ ι)) (dim : Dim) :
    Option (List (NodeSumInfo τ ι)) := do
  let lArray := result.filter (hasType (.function (.workItemId dim)))
  let gArray := result.filter (hasType (.function (.globalOffset dim)))
  let wArray := result.filter (hasType (.workGroupIdLocalSize dim))
  let (result, wArray) ← foldGlobalIds dim lArray gArray wArray result
  foldGlobalSizes dim wArray (mulNodesInfo.filter (isNumGroupsMulSize sizes dim)) result

def isMul (info : NodeSumInfo τ ι) : Bool :=
  match info.term with
  | .op .mul _ _ _ => true
  | _ => false

/-- The folding of the parts of global ids and sizes. -/
def foldDims (sizes : Dim → Int) (result : List (NodeSumInfo τ ι)) :
    Option (List (NodeSumInfo τ ι)) :=
  if 2 ≤ result.length then
    [Dim.x, .y, .z].foldlM (foldDim sizes (result.filter isMul)) result
  else some result

/-- Brings a positive term to the front, a 0 if there is none. -/
def positiveFirst (types : Types τ) : List (NodeSumInfo τ ι) → List (NodeSumInfo τ ι)
  | [] => []
  | first :: rest =>
      if first.plus then first :: rest
      else
        match rest.findIdx? Signed.plus with
        | some place =>
            (rest[place]?.getD first) :: rest.set place first
        | none => ⟨true, .const (.int 0) (types.const types.uint)⟩ :: first :: rest

/-- The body of the last loop. -/
def addTerm (hint : τ) (curNode : Node τ ι) (info : NodeSumInfo τ ι) : Node τ ι :=
  if info.term.constZero then curNode
  else .op (if info.plus then .plus else .minus) curNode info.term hint

/-- The node of a list of terms; `none` for no terms. -/
def buildSum (types : Types τ) (hint : τ) (result : List (NodeSumInfo τ ι)) : Option (Node τ ι) :=
  match positiveFirst types result with
  | [] => none
  | first :: rest => some (rest.foldl (addTerm hint) first.term)

/-- `_parse_and_optimize_node_sum`; the outer `none` is an exception. -/
def parseAndOptimizeNodeSum (types : Types τ) (sizes : Dim → Int) (left right : Node τ ι)
    (hint : τ) : Option (Option (Node τ ι)) :=
  let nodesInfo := nodeToListOfSumOfNodes left true ++ nodeToListOfSumOfNodes right true
  (foldDims sizes (Signed.cancel nodesInfo)).map (buildSum types hint)

/-- `_optimized_nodes_sub` behind a sum: `s1` is a positive constant and `s0` not 0. -/
def optimizedNodesSubConst (types : Types τ) (same : Node τ ι → Node τ ι → Bool)
    (s0 s1 : Node τ ι) (hint : τ) : Node τ ι :=
  if same s0 s1 then .const (.int 0) (types.const types.uint) else .op .minus s0 s1 hint

/-- The last part of `_optimized_nodes_sum`. -/
def optimizedNodesPlus (types : Types τ) (sizes : Dim → Int) (s0 s1 : Node τ ι) (hint : τ) :
    Option (Node τ ι) :=
  (parseAndOptimizeNodeSum types sizes s0 s1 hint).map fun plusNode =>
    plusNode.getD (.op .plus s0 s1 hint)

/--
What is added to `s0`: a pointer takes a constant with a fraction as it was before the
optimisations, which `original` tells.  `none` is a text that `int` refuses to read.
-/
def addend (types : Types τ) (original : Node τ ι → Option (Node τ ι)) (s0 s1 : Node τ ι) :
    Option (Node τ ι) :=
  match types.pointer (s0.hint types), s1 with
  | true, .const (.float value) _ => if value.den = 1 then some s1 else original s1
  | true, .const (.hex _) _ => none
  | _, _ => some s1

/-- `_optimized_nodes_sum`.  Equal nodes have one content and one id; `same` tells which ones. -/
def optimizedNodesSum (types : Types τ) (sizes : Dim → Int) (same : Node τ ι → Node τ ι → Bool)
    (original : Node τ ι → Option (Node τ ι)) (s0 s1 : Node τ ι) (hint : τ) : Option (Node τ ι) :=
  if s0.constZero then some s1
  else if s1.constZero then some s0
  else if s0.constNegative types && !s1.constNegative types then
    some (optimizedNodesSubConst types same s1 s0.absConst hint)
  else if s1.constNegative types then
    some (optimizedNodesSubConst types same s0 s1.absConst hint)
  else do
    let s1 ← addend types original s0 s1
    optimizedNodesPlus types sizes s0 s1 hint

end OpenCLDecompiler.Optimizations
