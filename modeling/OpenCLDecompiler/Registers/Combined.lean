import OpenCLDecompiler.Library.Fields
import OpenCLDecompiler.Registers.Operations

/-!
# Packed contents

A register can hold several contents, one above the other.  The handlers read such a register
with masks and shifts, which pick contents by their positions.
-/

namespace OpenCLDecompiler.Registers.Combined

open Library.Fields
open Library.Packed (zeros ones oneRun ones_pos)
open Operations (RegisterSignType TermValue OperationType)

variable {ι : Type}

/-! ## Contents -/

/-- The hint of a constant. -/
inductive TypeHint where
  | int
  | uint
  deriving DecidableEq, Repr

/-- The node of a content; the product is the one before `_optimized_nodes_mul`. -/
inductive Expression (ι : Type) where
  | leaf (node : ι)
  | const (value : Nat) (hint : TypeHint)
  | product (first second : Expression ι)
  deriving DecidableEq, Repr

/-- `EMPTY`, a type that names a quantity, or one of pointers, arguments and loads. -/
inductive ContentType where
  | empty
  | item (type : RegisterType)
  | other (name : String)
  deriving DecidableEq, Repr

/-- `RegisterContent`. -/
structure RegisterContent (ι : Type) where
  value : Option TermValue
  type : ContentType
  size : Nat
  dataType : Option String
  sign : RegisterSignType
  expression : Option (Expression ι)
  deriving DecidableEq, Repr

/-- `OperationRegisterContent`. -/
structure OperationRegisterContent (ι : Type) where
  operation : OperationType
  values : List (Option TermValue)
  types : List ContentType
  size : Nat
  dataType : Option String
  signs : List RegisterSignType
  expression : Expression ι
  deriving DecidableEq, Repr

/-- `EmptyRegisterContent`. -/
def emptyRegisterContent (size : Nat) : RegisterContent ι where
  value := none
  type := .empty
  size := size
  dataType := none
  sign := .positive
  expression := none

/-- What a mask without bits leaves. -/
def zeroContent : RegisterContent ι where
  value := some (.text "0")
  type := .item .unknown
  size := 0
  dataType := none
  sign := .positive
  expression := some (.const 0 .uint)

/-- The number in a product. -/
def factorContent (factor : Nat) : RegisterContent ι where
  value := some (.number factor)
  type := .item .int32
  size := 0
  dataType := none
  sign := .positive
  expression := some (.const factor .int)

/-- `OperationRegisterContent` of a product; a content without a node is an `AssertionError`. -/
def product (first second : RegisterContent ι) : Option (OperationRegisterContent ι) :=
  first.expression.bind fun left => second.expression.map fun right => {
    operation := .product
    values := [first.value, second.value]
    types := [first.type, second.type]
    size := max first.size second.size
    dataType := if first.dataType = second.dataType then first.dataType else none
    signs := [first.sign, second.sign]
    expression := .product left right }

/-! ## The operators of CombinedRegisterContent -/

/-- `_maybe_acquire_content`, from bit `pos` on. -/
def acquireContent (begin last : Nat) : Nat → List (RegisterContent ι) →
    Option (RegisterContent ι)
  | _, [] => none
  | pos, content :: rest =>
      if pos = begin ∧ last < pos + content.size then some content
      else acquireContent begin last (pos + content.size) rest

/-- `__and__` with the number of a hexadecimal text. -/
def maskContents (contents : List (RegisterContent ι)) (mask : Nat) : Option (RegisterContent ι) :=
  if mask = 0 then some zeroContent
  else if oneRun mask.bits then
    acquireContent (zeros mask.bits) (zeros mask.bits + ones mask.bits - 1) 0 contents
  else none

/-- The loop of `__rshift__`, from bit `pos` on. -/
def shiftFrom (bits : Nat) : Nat → List (RegisterContent ι) → List (RegisterContent ι)
  | _, [] => []
  | pos, content :: rest =>
      if bits = pos then content :: rest
      else if bits < pos then emptyRegisterContent (pos - bits) :: content :: rest
      else shiftFrom bits (pos + content.size) rest

/-- `__rshift__`. -/
def shiftContents (contents : List (RegisterContent ι)) (bits : Nat) : List (RegisterContent ι) :=
  shiftFrom bits 0 contents

/-- What `maybe_simplify` returns when it is not `None`. -/
inductive Simplified (ι : Type) where
  | plain (content : RegisterContent ι)
  | operation (content : OperationRegisterContent ι)
  deriving DecidableEq, Repr

/-- `maybe_simplify`; the outer `none` is an exception. -/
def maybeSimplify : List (RegisterContent ι) → Option (Option (Simplified ι))
  | [content] => some (some (.plain content))
  | [first, second] =>
      if first.type = .empty then
        (product second (factorContent (2 ^ first.size))).map fun content =>
          some (.operation content)
      else some none
  | _ => some none

/-! ## Values -/

/-- The number that a node stands for. -/
def Expression.denote (meaning : ι → Nat) : Expression ι → Nat
  | leaf node => meaning node
  | const value _ => value
  | product first second => first.denote meaning * second.denote meaning

/-- A content without a node is padding: its bits are zeros. -/
def RegisterContent.denote (meaning : ι → Nat) (content : RegisterContent ι) : Nat :=
  content.expression.elim 0 (Expression.denote meaning)

def Simplified.denote (meaning : ι → Nat) : Simplified ι → Nat
  | plain content => content.denote meaning
  | operation content => content.expression.denote meaning

def RegisterContent.field (meaning : ι → Nat) (content : RegisterContent ι) : Field :=
  ⟨content.denote meaning, content.size⟩

def fieldsOf (meaning : ι → Nat) (contents : List (RegisterContent ι)) : List Field :=
  contents.map (RegisterContent.field meaning)

/-- `CombinedRegisterContent` whose contents take no more bits than they have. -/
structure Packed (meaning : ι → Nat) where
  contents : List (RegisterContent ι)
  fits : Fits (fieldsOf meaning contents)
  padding : ∀ content ∈ contents, content.type = .empty → content.expression = none

namespace Packed

variable {meaning : ι → Nat}

def fields (register : Packed meaning) : List Field := fieldsOf meaning register.contents

/-- The number in the register. -/
def denote (register : Packed meaning) : Nat := number register.fields

end Packed

section Positions

variable (meaning : ι → Nat)

@[simp] theorem fieldsOf_cons (content : RegisterContent ι) (rest : List (RegisterContent ι)) :
    fieldsOf meaning (content :: rest) = content.field meaning :: fieldsOf meaning rest := rfl

@[simp] theorem fieldsOf_append (before after : List (RegisterContent ι)) :
    fieldsOf meaning (before ++ after) = fieldsOf meaning before ++ fieldsOf meaning after :=
  List.map_append

/-! ### _maybe_acquire_content -/

/-- A content that is acquired stands at the first bit and has all the bits. -/
theorem acquireContent_spec {begin last pos : Nat} {contents : List (RegisterContent ι)}
    {content : RegisterContent ι} (found : acquireContent begin last pos contents = some content) :
    ∃ before after, contents = before ++ content :: after ∧
      pos + width (fieldsOf meaning before) = begin ∧ last < begin + content.size := by
  induction contents generalizing pos with
  | nil => cases found
  | cons first rest ih =>
      unfold acquireContent at found
      split at found
      · rename_i here
        cases found
        exact ⟨[], rest, rfl, here.1, here.1 ▸ here.2⟩
      · obtain ⟨before, after, rfl, start, room⟩ := ih found
        refine ⟨first :: before, after, rfl, ?_, room⟩
        rw [fieldsOf_cons, width_cons, ← Nat.add_assoc]
        exact start

/-- A content that stands at the first bit and has all the bits is acquired. -/
theorem acquireContent_append {begin last pos : Nat} {before after : List (RegisterContent ι)}
    {content : RegisterContent ι} (start : pos + width (fieldsOf meaning before) = begin)
    (room : last < begin + content.size) (order : begin ≤ last) :
    acquireContent begin last pos (before ++ content :: after) = some content := by
  induction before generalizing pos with
  | nil =>
      have here : pos = begin := start
      rw [List.nil_append, acquireContent, if_pos ⟨here, here ▸ room⟩]
  | cons first rest ih =>
      rw [fieldsOf_cons, width_cons] at start
      have size : (first.field meaning).size = first.size := rfl
      rw [List.cons_append, acquireContent, if_neg (by omega)]
      exact ih (by omega)

/-! ### __rshift__ -/

/-- Where nothing is left to skip, the bits up to the next content are padded. -/
theorem number_shiftFrom_below {bits pos : Nat} (below : bits < pos)
    (contents : List (RegisterContent ι)) :
    number (fieldsOf meaning (shiftFrom bits pos contents)) =
      2 ^ (pos - bits) * number (fieldsOf meaning contents) := by
  cases contents with
  | nil => rfl
  | cons content rest =>
      rw [shiftFrom, if_neg (by omega), if_pos below, fieldsOf_cons, number]
      exact Nat.zero_add _

theorem number_shiftFrom_iff {bits pos : Nat} {contents : List (RegisterContent ι)}
    (fits : Fits (fieldsOf meaning contents)) (later : pos ≤ bits) :
    number (fieldsOf meaning (shiftFrom bits pos contents)) =
        number (fieldsOf meaning contents) >>> (bits - pos) ↔
      ClearFrom (bits - pos) (fieldsOf meaning contents) := by
  induction contents generalizing pos with
  | nil =>
      refine iff_of_true (Nat.zero_shiftRight _).symm fun before field after same => ?_
      cases before <;> cases same
  | cons content rest ih =>
      have size : (content.field meaning).size = content.size := rfl
      rcases Nat.eq_or_lt_of_le later with rfl | past
      · rw [shiftFrom, if_pos rfl, Nat.sub_self]
        exact iff_of_true rfl (clearFrom_zero _)
      rw [shiftFrom, if_neg (by omega), if_neg (by omega), fieldsOf_cons]
      by_cases inside : bits < pos + content.size
      · have depth : pos + content.size - bits = (content.field meaning).size - (bits - pos) := by
          omega
        rw [number_shiftFrom_below meaning inside, depth, padded_eq_shiftRight_iff _ _ (by omega),
          clearFrom_cons_inside (by omega) (by omega)]
      · have small : (content.field meaning).value < 2 ^ (content.field meaning).size :=
          fits _ (List.mem_cons_self ..)
        rw [shiftRight_cons small (by omega), clearFrom_cons_past (by omega), size,
          ← Nat.sub_add_eq]
        exact ih fits.tail (by omega)

/-- A shift to a limit of the contents drops what stands below it, contents without bits apart. -/
theorem shiftFrom_append (pos : Nat) (before after : List (RegisterContent ι)) :
    ∃ skipped, shiftFrom (pos + width (fieldsOf meaning before)) pos (before ++ after) =
      skipped ++ after ∧ width (fieldsOf meaning skipped) = 0 := by
  induction before generalizing pos with
  | nil => exact ⟨[], by cases after <;> simp [shiftFrom, fieldsOf], rfl⟩
  | cons content rest ih =>
      have size : (content.field meaning).size = content.size := rfl
      rw [List.cons_append, shiftFrom, fieldsOf_cons, width_cons, size]
      by_cases here : content.size + width (fieldsOf meaning rest) = 0
      · refine ⟨content :: rest, ?_, here⟩
        rw [if_pos (by omega), List.cons_append]
      · rw [if_neg (by omega), if_neg (by omega), ← Nat.add_assoc]
        exact ih (pos + content.size)

theorem mem_shiftFrom {bits pos : Nat} {contents : List (RegisterContent ι)}
    {content : RegisterContent ι} (inside : content ∈ shiftFrom bits pos contents) :
    content ∈ contents ∨ ∃ size, content = emptyRegisterContent size := by
  induction contents generalizing pos with
  | nil => cases inside
  | cons first rest ih =>
      unfold shiftFrom at inside
      split at inside
      · exact .inl inside
      split at inside
      · rcases List.mem_cons.mp inside with padding | here
        · exact .inr ⟨_, padding⟩
        · exact .inl here
      · exact (ih inside).imp_left (List.mem_cons_of_mem _)

end Positions

/-! ## Reads of packed registers -/

namespace Packed

variable {meaning : ι → Nat}

/-- What `__rshift__` returns is packed again. -/
def shift (register : Packed meaning) (bits : Nat) : Packed meaning where
  contents := shiftContents register.contents bits
  fits := by
    intro field inside
    obtain ⟨content, isThere, rfl⟩ := List.mem_map.mp inside
    rcases mem_shiftFrom isThere with old | ⟨size, rfl⟩
    · exact register.fits _ (List.mem_map_of_mem old)
    · exact Nat.two_pow_pos size
  padding := by
    intro content inside isEmpty
    rcases mem_shiftFrom inside with old | ⟨size, rfl⟩
    · exact register.padding content old isEmpty
    · rfl

theorem shift_denote_iff (register : Packed meaning) (bits : Nat) :
    (register.shift bits).denote = register.denote >>> bits ↔ ClearFrom bits register.fields :=
  number_shiftFrom_iff meaning register.fits (Nat.zero_le bits)

/-- `maybe_simplify` does not change the number. -/
theorem maybeSimplify_denote {register : Packed meaning} {simplified : Simplified ι}
    (found : maybeSimplify register.contents = some (some simplified)) :
    simplified.denote meaning = register.denote := by
  obtain ⟨contents, fits, padding⟩ := register
  match contents with
  | [] => cases found
  | [content] =>
      cases found
      exact (Nat.add_zero _).symm
  | [first, second] =>
      simp only [maybeSimplify] at found
      split at found
      · rename_i isEmpty
        obtain ⟨content, made, same⟩ := Option.map_eq_some_iff.mp found
        cases same
        have gone : first.denote meaning = 0 := by
          rw [RegisterContent.denote, padding first (by simp) isEmpty]
          rfl
        obtain ⟨left, node, rest⟩ := Option.bind_eq_some_iff.mp made
        cases rest
        have upper : second.denote meaning = left.denote meaning := by
          rw [RegisterContent.denote, node]
          rfl
        calc
          left.denote meaning * 2 ^ first.size = 2 ^ first.size * second.denote meaning := by
            rw [upper, Nat.mul_comm]
          _ = first.denote meaning +
              2 ^ first.size * (second.denote meaning + 2 ^ second.size * 0) := by
            rw [gone, Nat.mul_zero, Nat.add_zero, Nat.zero_add]
      · cases found
  | _ :: _ :: _ :: _ => cases found

/-- A content that is acquired is what the mask leaves if the mask does not move it. -/
theorem maskContents_denote_iff (register : Packed meaning) {mask : Nat}
    {content : RegisterContent ι}
    (found : maskContents register.contents mask = some content) :
    content.denote meaning = register.denote &&& mask ↔ Unmoved mask register.fields := by
  rw [maskContents] at found
  by_cases zero : mask = 0
  · rw [if_pos zero] at found
    cases found
    rw [zero, Nat.and_zero]
    exact iff_of_true rfl (.inl rfl)
  rw [if_neg zero] at found
  split at found
  · rename_i run
    have some_ : 0 < ones mask.bits := ones_pos zero run
    obtain ⟨before, after, split, start, room⟩ := acquireContent_spec meaning found
    rw [Nat.zero_add] at start
    have parts : register.fields =
        fieldsOf meaning before ++ content.field meaning :: fieldsOf meaning after := by
      rw [fields, split, fieldsOf_append, fieldsOf_cons]
    have few : ones mask.bits ≤ (content.field meaning).size := by
      have size : (content.field meaning).size = content.size := rfl
      omega
    have fits : Fits (fieldsOf meaning before ++ content.field meaning :: fieldsOf meaning after) :=
      parts ▸ register.fits
    rw [denote, parts, number_and fits run start few]
    refine (eq_moved_iff ..).trans ⟨fun unmoved => .inr ?_, fun unmoved => ?_⟩
    · intro front field back same low long
      have here : content.field meaning = field :=
        eq_of_width_eq same (start.trans low.symm) (by omega) (by omega)
      exact here ▸ unmoved
    · exact (unmoved.resolve_left zero) _ _ _ rfl start few
  · cases found

/-- The mask of `size` bits acquires the lowest content of this size. -/
theorem maskContents_lowest {skipped after : List (RegisterContent ι)}
    {content : RegisterContent ι} (none_ : width (fieldsOf meaning skipped) = 0)
    (some_ : 0 < content.size) :
    maskContents (skipped ++ content :: after) (2 ^ content.size - 1) = some content := by
  have nonzero : 2 ^ content.size - 1 ≠ 0 := by
    have several : 2 ≤ 2 ^ content.size := Nat.le_self_pow (by omega) 2
    omega
  rw [maskContents, if_neg nonzero, if_pos (oneRun_pred_two_pow _), zeros_pred_two_pow,
    ones_pred_two_pow, Nat.zero_add]
  exact acquireContent_append meaning ((Nat.zero_add _).trans none_) (by omega) (Nat.zero_le _)

/-- A content is read by the shift to its first bit and the mask of its size. -/
theorem read_content (register : Packed meaning) {before after : List (RegisterContent ι)}
    {content : RegisterContent ι} (split : register.contents = before ++ content :: after) :
    ∃ taken, maskContents (register.shift (width (fieldsOf meaning before))).contents
        (2 ^ content.size - 1) = some taken ∧ taken.denote meaning = content.denote meaning := by
  obtain ⟨skipped, shifted, none_⟩ :=
    shiftFrom_append meaning 0 before (content :: after)
  rw [Nat.zero_add] at shifted
  have contents : (register.shift (width (fieldsOf meaning before))).contents =
      skipped ++ content :: after := by
    rw [← shifted, ← split]
    rfl
  rw [contents]
  rcases Nat.eq_zero_or_pos content.size with bare | some_
  · have small : content.denote meaning < 2 ^ content.size :=
      register.fits (content.field meaning) (List.mem_map_of_mem (by rw [split]; simp))
    rw [bare, pow_zero] at small ⊢
    exact ⟨zeroContent, rfl, (Nat.lt_one_iff.mp small).symm⟩
  · exact ⟨content, maskContents_lowest none_ some_, rfl⟩

/--
A mask leaves what the operator returns exactly if it moves nothing, and a shift does
exactly if it cuts no bits off a content.
-/
theorem operators_denote_iff (register : Packed meaning) :
    (∀ mask content, maskContents register.contents mask = some content →
      (content.denote meaning = register.denote &&& mask ↔ Unmoved mask register.fields)) ∧
    (∀ bits, (register.shift bits).denote = register.denote >>> bits ↔
      ClearFrom bits register.fields) ∧
    (∀ bits simplified, maybeSimplify (register.shift bits).contents = some (some simplified) →
      (simplified.denote meaning = register.denote >>> bits ↔ ClearFrom bits register.fields)) ∧
    ∀ before content after, register.contents = before ++ content :: after →
      ∃ taken, maskContents (register.shift (width (fieldsOf meaning before))).contents
          (2 ^ content.size - 1) = some taken ∧
        taken.denote meaning = content.denote meaning := by
  refine ⟨fun mask content found => maskContents_denote_iff register found, shift_denote_iff register,
    fun bits simplified found => ?_, fun before content after split => read_content register split⟩
  rw [maybeSimplify_denote found]
  exact shift_denote_iff register bits

end Packed

/-! ## The ids of a work item -/

/-- The contents of `v0` in `init_work_group` for RDNA3. -/
def workItemIds : List (RegisterContent RegisterType) :=
  Operations.dims.map fun dim => {
    value := some (.text ("get_local_id(" ++ dim.text ++ ")"))
    type := .item (.workItemId dim)
    size := 10
    dataType := none
    sign := .positive
    expression := some (.leaf (.workItemId dim)) }

/-- The numbers of the local ids. -/
def localIds (ids : Dim → Nat) : RegisterType → Nat
  | .workItemId dim => ids dim
  | _ => 0

/-- `v0` of a work item. -/
def workItemRegister (ids : Dim → Nat) (small : ∀ dim, ids dim < 2 ^ 10) :
    Packed (localIds ids) where
  contents := workItemIds
  fits := by
    intro field inside
    obtain ⟨content, isThere, rfl⟩ := List.mem_map.mp inside
    obtain ⟨dim, -, rfl⟩ := List.mem_map.mp isThere
    exact small dim
  padding := by
    intro content inside isEmpty
    obtain ⟨dim, -, rfl⟩ := List.mem_map.mp inside
    cases isEmpty

/-- The work item whose second id is 1. -/
def secondItem : Dim → Nat
  | .y => 1
  | _ => 0

theorem secondItem_lt (dim : Dim) : secondItem dim < 2 ^ 10 := by
  cases dim <;> decide

/-- The second id can be read. -/
theorem secondItem_read : ∃ taken,
    maskContents ((workItemRegister secondItem secondItem_lt).shift 10).contents (2 ^ 10 - 1) =
      some taken ∧ taken.denote (localIds secondItem) = 1 :=
  (Packed.operators_denote_iff (workItemRegister secondItem secondItem_lt)).2.2.2
    (workItemIds.take 1) _ (workItemIds.drop 2) rfl

/-- The bits of the second id alone are not what the operator returns for them. -/
theorem secondItem_moved : ∃ content,
    maskContents (workItemRegister secondItem secondItem_lt).contents 0xffc00 = some content ∧
      content.denote (localIds secondItem) = 1 ∧
      (workItemRegister secondItem secondItem_lt).denote &&& 0xffc00 = 1024 :=
  ⟨_, rfl, rfl, by decide⟩

end OpenCLDecompiler.Registers.Combined
