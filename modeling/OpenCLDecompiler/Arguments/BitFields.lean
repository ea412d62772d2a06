import OpenCLDecompiler.Arguments.Loads
import OpenCLDecompiler.Library.Hexadecimal

/-!
# Parts of dwords

Arguments of one or two bytes share a dword.  `get_bfe_offset` names each of them by the
content of the dword and the text of a selector, under which `s_bfe` finds the name again.
-/

namespace OpenCLDecompiler.Arguments

open Library Library.Text Library.Hexadecimal

/-! ## Selectors -/

/-- The text of `get_bfe_offset`: the size, and the place filled up to four digits. -/
def bfeOffset (bits place : Int) : Text := hex bits ++ padded 4 place.toNat

/-- `_bfe_selector`. -/
def bfeSelector (width offset : Nat) : Text := hex (width <<< 16 ||| offset : Nat)

/-- `bfe_offsets`, with the texts that are its keys. -/
def KernelParams.bfeTexts (params : KernelParams) : PyDict (Text × Text) Text :=
  params.bfeOffsets.mapKeys fun key => (key.1, bfeOffset key.2.1 key.2.2)

/-- Both files make the same text of a width and an offset. -/
theorem bfeSelector_eq {width offset : Nat} (positive : 0 < width) (small : offset < 2 ^ 16) :
    bfeSelector width offset = bfeOffset width offset := by
  have sum : width <<< 16 ||| offset = width * 16 ^ 4 + offset := by
    rw [← Nat.shiftLeft_add_eq_or_of_lt small, Nat.shiftLeft_eq]
    norm_num
  have together : digits (width * 16 ^ 4 + offset) = digits width ++ padded 4 offset :=
    digits_append (by decide) positive small
  rw [bfeSelector, sum]
  exact congrArg ('0' :: 'x' :: ·) together

theorem bfeOffset_inj {bits place otherBits otherPlace : Int} (above : 0 ≤ place)
    (below : place < 2 ^ 16) (otherAbove : 0 ≤ otherPlace) (otherBelow : otherPlace < 2 ^ 16)
    (same : bfeOffset bits place = bfeOffset otherBits otherPlace) :
    bits = otherBits ∧ place = otherPlace := by
  have small : place.toNat < 16 ^ 4 := by omega
  have otherSmall : otherPlace.toNat < 16 ^ 4 := by omega
  have lengths : (padded 4 place.toNat).length = (padded 4 otherPlace.toNat).length := by
    rw [length_padded (by decide) small, length_padded (by decide) otherSmall]
  obtain ⟨sizes, places⟩ := List.append_inj' same lengths
  have numbers := padded_inj (by decide) small otherSmall places
  exact ⟨hex_inj sizes, by omega⟩

/-! ## s_bfe -/

/-- The types of registers that `s_bfe` writes. -/
inductive BfeType where
  | workDim
  | localSizeY
  | kernelArgumentValue
  deriving DecidableEq, Repr

/-- `add_register_node`, or the node of a variable. -/
inductive BfeNode where
  | register (type : BfeType)
  | var (name : Text)
  deriving DecidableEq, Repr

/-- What `set_reg_value` gets. -/
structure Extracted where
  value : Text
  type : BfeType
  node : Option BfeNode
  deriving DecidableEq, Repr

/-- `get_variable_info(name).var_node`; a missing variable is an `AttributeError`. -/
def variableInfoNode (vars : List Text) (name : Text) : Option BfeNode :=
  if name ∈ vars then some (.var name) else none

/-- `get_variable_node`, which goes on behind a star. -/
def getVariableNode (vars : List Text) (name : Text) : Option BfeNode :=
  let bare := name.dropWhile (· = '*')
  if bare ≠ [] ∧ bare ∈ vars then some (.var bare) else none

/--
`SBfe.to_fill_node` with the suffix `i32` or `u32`, where `value` is the one of the source.
The outer `none` is an exception; with the inner one no register is written.
-/
def sBfe (signed : Bool) (bfeOffsets : PyDict (Text × Text) Text) (vars : List Text)
    (value selector : Text) : Option (Option Extracted) :=
  -- an empty name counts as none
  let found := (bfeOffsets.get? (value, selector)).filter (· ≠ [])
  if signed then
    some (found.map fun name => ⟨name, .kernelArgumentValue, getVariableNode vars name⟩)
  else if selector = "0x20010".toList then
    some (some ⟨"get_work_dim()".toList, .workDim, some (.register .workDim)⟩)
  else if selector = "0x100010".toList then
    some (some ⟨"get_local_size(1)".toList, .localSizeY, some (.register .localSizeY)⟩)
  else
    found.bind fun name => (variableInfoNode vars name).map fun node =>
      some ⟨name, .kernelArgumentValue, some node⟩

/-! ## Fields -/

/-- The bytes of a `char` or a `short`, alone or in a vector. -/
def fieldBytes (typeName : Text) : Option Nat :=
  let scalar := typeName.rdropWhile Char.isDigit
  if scalar = "char".toList ∨ scalar = "uchar".toList then some 1
  else if scalar = "short".toList ∨ scalar = "ushort".toList then some 2
  else none

/-- A `char` or a `short` of the arguments, or a component of a vector of them. -/
structure BitField (args : List KernelArgument) where
  arg : KernelArgument
  bytes : Nat
  index : Nat
  inside : arg ∈ args
  named : arg.name ≠ []
  noPointer : arg.name.head? ≠ some '*'
  isField : fieldBytes arg.typeName = some bytes
  indexed : if arg.isVector then (index : Int) < arg.lanes else index = 0

namespace BitField

variable {args : List KernelArgument} (field : BitField args)

def offset : Int := field.arg.offset + field.index * field.bytes

/-- The place in its dword. -/
def place : Int := field.offset % 4

def dword : Int := field.offset - field.offset % 4

def name : Text :=
  if field.arg.isVector then
    field.arg.name ++ ("___s".toList ++ (toString (field.index : Int)).toList)
  else field.arg.name

def selector : Text := bfeSelector (8 * field.bytes) (8 * field.place.toNat)

/-- The register of the argument or the component. -/
def extracted : Extracted := ⟨field.name, .kernelArgumentValue, some (.var field.name)⟩

/-- The selector extracts the field from the content that loads have for its dword. -/
def Right (signed : Bool) (params : KernelParams) (base : Text) (vars : List Text) : Prop :=
  ∃ content, (params.table base).get? field.dword = some content ∧
    sBfe signed params.bfeTexts vars content.value field.selector = some (some field.extracted)

end BitField

/-- The scalars of a type with a size are the fields that its name says. -/
theorem scalarSize_of_fieldBytes : ∀ type ∈ sizedTypes, ∀ bytes ∈ (fieldBytes type).toList,
    (evaluateSize (makeAsmType type)).fdiv (typeLanes type) = bytes := by
  decide +kernel

/-! ## What is recorded -/

/-- The value that is stored for an element. -/
def Element.value (element : Element) : Text := element.arg.value element.offset

def Element.place (element : Element) : Int := element.offset % 4

def Element.dword (element : Element) : Int := element.offset - element.offset % 4

/-- The key of an element in `bfe_offsets`. -/
def Element.key (table : PyDict Int RegisterContent) (element : Element) :
    Option (Text × Int × Int) :=
  (table.get? element.dword).map fun content =>
    (content.value, element.size * 8, element.place * 8)

/-- The last element with a key. -/
def lastWith (table : PyDict Int RegisterContent) (elements : List Element)
    (key : Text × Int × Int) : Option Element :=
  elements.reverse.find? fun element => element.arg.packs ∧ element.key table = some key

/-- The tables behind the stores of some elements. -/
structure Recorded (before : List Element) (params : KernelParams) (base : Text) : Prop where
  tables : Tables before (params.table base)
  aligned : ∀ offset content, (params.table base).get? offset = some content → offset % 4 = 0
  started : ∀ element ∈ before, element.arg.packs = true →
    ∃ content, (params.table base).get? element.dword = some content
  names : ∀ key, params.bfeOffsets.get? key =
    (lastWith (params.table base) before key).map Element.value

theorem recorded_nil (base : Text) : Recorded [] ⟨.empty, .empty⟩ base := by
  constructor
  · exact tables_nil
  · rintro offset content found
    cases found
  · rintro element ⟨⟩
  · intro key
    rfl

theorem getBfeOffset_eq_some {name : Text} {offset : Int} {arg : KernelArgument} {base : Text}
    {params after : KernelParams} (stored : getBfeOffset name offset arg base params = some after) :
    ∃ content, (params.table base).get? (offset - offset % 4) = some content ∧
      after.bfeOffsets =
        params.bfeOffsets.set (content.value, arg.basicSize * 8, offset % 4 * 8) name := by
  unfold getBfeOffset at stored
  obtain ⟨table, isTable, stored⟩ := Option.bind_eq_some_iff.mp stored
  obtain ⟨content, found, rfl⟩ := Option.map_eq_some_iff.mp stored
  refine ⟨content, ?_, ?_⟩
  · rw [KernelParams.table, isTable]
    exact found
  · have place : offset - (offset - offset % 4) = offset % 4 := by omega
    dsimp only
    rw [place]

theorem bfeOffsets_storeContent (offset : Int) (arg : KernelArgument) (base : Text)
    (params : KernelParams) : (storeContent offset arg base params).bfeOffsets = params.bfeOffsets := by
  unfold storeContent
  split <;> rfl

/-- What one store leaves: the table, and the name of an element that shares a dword. -/
structure StoredElement (params after : KernelParams) (base : Text) (element : Element) : Prop where
  table : after.table base = if element.offset % 4 = 0 then
    (params.table base).set element.offset element.content else params.table base
  other : element.arg.packs = false → after.bfeOffsets = params.bfeOffsets
  name : element.arg.packs = true → ∃ content,
    (after.table base).get? element.dword = some content ∧ after.bfeOffsets =
      params.bfeOffsets.set (content.value, element.size * 8, element.place * 8) element.value

theorem storeElement_spec {params after : KernelParams} {base : Text} {element : Element}
    (stored : storeElement base params element = some after) :
    StoredElement params after base element := by
  have table := table_storeContent element.offset element.arg base params
  have names := bfeOffsets_storeContent element.offset element.arg base params
  unfold storeElement processArg at stored
  cases packs : element.arg.packs with
  | false =>
      rw [packs] at stored
      cases stored
      exact ⟨table, fun _ => names, fun yes => absurd (packs.symm.trans yes) (by decide)⟩
  | true =>
      rw [packs] at stored
      have same := table_getBfeOffset stored
      obtain ⟨content, found, set⟩ := getBfeOffset_eq_some stored
      refine ⟨same.trans table, fun no => absurd (packs.symm.trans no) (by decide), fun _ => ?_⟩
      refine ⟨content, by rw [same]; exact found, ?_⟩
      rw [set, names]
      rfl

theorem key_of_lastWith {table : PyDict Int RegisterContent} {elements : List Element}
    {key : Text × Int × Int} {element : Element}
    (last : lastWith table elements key = some element) : element.key table = some key := by
  have holds : element.arg.packs = true ∧ element.key table = some key := by
    simpa using List.find?_some last
  exact holds.2

theorem lastWith_append (table : PyDict Int RegisterContent) (before : List Element)
    (element : Element) (key : Text × Int × Int) :
    lastWith table (before ++ [element]) key =
      if element.arg.packs = true ∧ element.key table = some key then some element
      else lastWith table before key := by
  rw [lastWith, List.reverse_append, List.reverse_singleton, List.singleton_append, List.find?_cons]
  by_cases here : element.arg.packs = true ∧ element.key table = some key
  · rw [if_pos here, decide_eq_true here]
  · rw [if_neg here, decide_eq_false here]
    rfl

theorem lastWith_congr {first second : PyDict Int RegisterContent} {elements : List Element}
    (same : ∀ element ∈ elements, element.arg.packs = true → element.key first = element.key second)
    (key : Text × Int × Int) : lastWith first elements key = lastWith second elements key := by
  induction elements using List.reverseRecOn with
  | nil => rfl
  | append_singleton before element ih =>
      have rest := ih fun other inside => same other (List.mem_append_left _ inside)
      rw [lastWith_append, lastWith_append, rest]
      by_cases packs : element.arg.packs = true
      · rw [same element (by simp) packs]
      · rw [if_neg fun both => packs both.1, if_neg fun both => packs both.1]

namespace Recorded

variable {before : List Element} {params after : KernelParams} {base : Text} {element : Element}

/-- What is in the table stays there. -/
theorem get?_of_stored (recorded : Recorded before params base)
    (fresh : ∀ other ∈ before, other.offset ≠ element.offset)
    (stored : StoredElement params after base element) {offset : Int} {content : RegisterContent}
    (found : (params.table base).get? offset = some content) :
    (after.table base).get? offset = some content := by
  obtain ⟨other, inside, here, -⟩ := recorded.tables.only offset content found
  rw [stored.table]
  split
  · rw [PyDict.get?_set_of_ne _ (here ▸ fresh other inside), found]
  · exact found

theorem storeElement (recorded : Recorded before params base)
    (fresh : ∀ other ∈ before, other.offset ≠ element.offset)
    (stored : storeElement base params element = some after) :
    Recorded (before ++ [element]) after base := by
  have spec := storeElement_spec stored
  have keeps : ∀ {offset content}, (params.table base).get? offset = some content →
      (after.table base).get? offset = some content := recorded.get?_of_stored fresh spec
  have keys : ∀ other ∈ before, other.arg.packs = true →
      other.key (after.table base) = other.key (params.table base) := by
    intro other inside packs
    obtain ⟨content, found⟩ := recorded.started other inside packs
    rw [Element.key, Element.key, found, keeps found]
  constructor
  · exact (recorded.tables.storeElement fresh).2 after stored
  · intro offset content found
    rw [spec.table] at found
    split at found
    · rename_i start
      rw [PyDict.get?_set] at found
      split at found
      · rename_i same
        rw [same]
        exact start
      · exact recorded.aligned offset content found
    · exact recorded.aligned offset content found
  · intro other inside packs
    rcases List.mem_append.mp inside with old | new
    · obtain ⟨content, found⟩ := recorded.started other old packs
      exact ⟨content, keeps found⟩
    · obtain rfl := List.mem_singleton.mp new
      obtain ⟨content, found, -⟩ := spec.name packs
      exact ⟨content, found⟩
  · intro key
    rw [lastWith_append, lastWith_congr keys]
    cases packs : element.arg.packs with
    | false =>
        rw [if_neg (by simp), spec.other packs]
        exact recorded.names key
    | true =>
        obtain ⟨content, found, names⟩ := spec.name packs
        have own : element.key (after.table base) =
            some (content.value, element.size * 8, element.place * 8) := by
          rw [Element.key, found]
          rfl
        rw [names, PyDict.get?_set, own]
        by_cases here : key = (content.value, element.size * 8, element.place * 8)
        · rw [if_pos here, if_pos ⟨rfl, congrArg some here.symm⟩]
          rfl
        · rw [if_neg here, if_neg fun both => here (Option.some.inj both.2).symm]
          exact recorded.names key

theorem foldlM (recorded : Recorded before params base) {elements : List Element}
    (distinct : ((before ++ elements).map Element.offset).Nodup)
    (stored : elements.foldlM (Arguments.storeElement base) params = some after) :
    Recorded (before ++ elements) after base := by
  induction elements generalizing before params with
  | nil =>
      cases stored
      rwa [List.append_nil]
  | cons element rest ih =>
      have fresh : ∀ other ∈ before, other.offset ≠ element.offset := by
        rw [List.map_append, List.map_cons, List.nodup_append] at distinct
        rintro other inside
        exact distinct.2.2 _ (List.mem_map_of_mem inside) _ List.mem_cons_self
      rw [List.foldlM_cons] at stored
      obtain ⟨next, first, stored⟩ := Option.bind_eq_some_iff.mp stored
      rw [List.append_cons] at distinct ⊢
      exact ih (recorded.storeElement fresh first) distinct stored

/-! ## Keys and slots -/

/-- A name is found under the text of its key, since the texts tell the keys apart. -/
theorem get?_bfeTexts {elements : List Element} (recorded : Recorded elements params base)
    (value : Text) (bits : Int) {place : Int} (above : 0 ≤ place) (below : place < 2 ^ 16) :
    params.bfeTexts.get? (value, bfeOffset bits place) =
      (lastWith (params.table base) elements (value, bits, place)).map Element.value := by
  rw [← recorded.names]
  refine PyDict.get?_mapKeys _ _ (value, bits, place) fun entry inside same => ?_
  have found := PyDict.get?_of_mem _ inside
  rw [recorded.names] at found
  obtain ⟨element, last, -⟩ := Option.map_eq_some_iff.mp found
  obtain ⟨content, -, key⟩ := Option.map_eq_some_iff.mp (key_of_lastWith last)
  have texts : bfeOffset entry.1.2.1 entry.1.2.2 = bfeOffset bits place :=
    (Prod.ext_iff.mp same).2
  have values : entry.1.1 = value := (Prod.ext_iff.mp same).1
  have within : 0 ≤ entry.1.2.2 ∧ entry.1.2.2 < 2 ^ 16 := by
    rw [← key]
    simp only [Element.place]
    omega
  obtain ⟨sizes, places⟩ := bfeOffset_inj within.1 within.2 above below texts
  exact Prod.ext values (Prod.ext sizes places)

end Recorded

/-- The value of the element that starts a dword. -/
def startValue (elements : List Element) (dword : Int) : Option Text :=
  (elements.find? fun element => element.offset = dword).map Element.value

theorem Tables.startValue {elements : List Element} {table : PyDict Int RegisterContent}
    (tables : Tables elements table) {dword : Int} (multiple : dword % 4 = 0) :
    (table.get? dword).map RegisterContent.value = Arguments.startValue elements dword := by
  unfold Arguments.startValue
  cases start : elements.find? fun element => element.offset = dword with
  | none =>
      cases found : table.get? dword with
      | none => rfl
      | some content =>
          obtain ⟨element, inside, here, -⟩ := tables.only dword content found
          exact absurd (decide_eq_true here) (List.find?_eq_none.mp start element inside)
  | some element =>
      obtain rfl : element.offset = dword := by simpa using List.find?_some start
      rw [tables.found element (List.mem_of_find?_eq_some start) multiple]
      rfl

theorem exists_startValue {elements : List Element} {dword : Int}
    (start : ∃ first ∈ elements, first.offset = dword) :
    ∃ value, startValue elements dword = some value := by
  obtain ⟨first, inside, here⟩ := start
  have found : (elements.find? fun element => element.offset = dword).isSome = true :=
    List.find?_isSome.mpr ⟨first, inside, decide_eq_true here⟩
  obtain ⟨element, found⟩ := Option.isSome_iff_exists.mp found
  exact ⟨_, congrArg (Option.map Element.value) found⟩

/-- Values of different names start different dwords. -/
theorem startValue_inj {elements : List Element} (names : (elements.map Element.value).Nodup)
    {dword other : Int} {value : Text} (first : startValue elements dword = some value)
    (second : startValue elements other = some value) : dword = other := by
  obtain ⟨start, found, same⟩ := Option.map_eq_some_iff.mp first
  obtain ⟨next, listed, again⟩ := Option.map_eq_some_iff.mp second
  have here : start.offset = dword := by simpa using List.find?_some found
  have there : next.offset = other := by simpa using List.find?_some listed
  obtain rfl : start = next := List.inj_on_of_nodup_map names (List.mem_of_find?_eq_some found)
    (List.mem_of_find?_eq_some listed) (same.trans again.symm)
  rw [← here, there]

/-- The start of its dword, the size and the place of an element. -/
def Element.slot (elements : List Element) (element : Element) : Option (Text × Int × Int) :=
  (startValue elements element.dword).map fun value => (value, element.size, element.place)

theorem Element.key_eq_some_iff {elements : List Element} {table : PyDict Int RegisterContent}
    (tables : Tables elements table) (element : Element) (value : Text) (size place : Int) :
    element.key table = some (value, size * 8, place * 8) ↔
      element.slot elements = some (value, size, place) := by
  have dword : element.dword % 4 = 0 := by
    unfold Element.dword
    omega
  rw [Element.slot, ← tables.startValue dword, Element.key]
  cases table.get? element.dword with
  | none => simp
  | some content =>
      simp only [Option.map_some, Option.some.injEq, Prod.mk.injEq]
      refine and_congr_right fun _ => ⟨?_, ?_⟩ <;> rintro ⟨same, here⟩ <;> constructor <;> omega

/-- The last of the elements that share a slot has a name. -/
def LastNamed (elements : List Element) (slot : Option (Text × Int × Int)) (name : Text) : Prop :=
  ∃ front last back, elements = front ++ last :: back ∧ last.arg.packs = true ∧
    last.slot elements = slot ∧ last.value = name ∧
    ∀ later ∈ back, later.arg.packs = true → later.slot elements ≠ slot

theorem lastWith_named_iff {elements : List Element} {table : PyDict Int RegisterContent}
    (tables : Tables elements table) (value : Text) (size place : Int) (name : Text) :
    (lastWith table elements (value, size * 8, place * 8)).map Element.value = some name ↔
      LastNamed elements (some (value, size, place)) name := by
  have keys := fun element => Element.key_eq_some_iff tables element value size place
  simp only [Option.map_eq_some_iff, lastWith, List.find?_eq_some_iff_append, decide_eq_true_eq,
    Bool.not_eq_true', decide_eq_false_iff_not, keys]
  constructor
  · rintro ⟨last, ⟨⟨packs, slot⟩, back, front, split, others⟩, named⟩
    refine ⟨front.reverse, last, back.reverse, ?_, packs, slot, named, fun later inside packs => ?_⟩
    · rw [← List.reverse_reverse elements, split, List.reverse_append, List.reverse_cons,
        List.append_assoc]
      rfl
    · exact fun same => others later (List.mem_reverse.mp inside) ⟨packs, same⟩
  · rintro ⟨front, last, back, split, packs, slot, named, others⟩
    refine ⟨last, ⟨⟨packs, slot⟩, back.reverse, front.reverse, ?_, fun later inside => ?_⟩, named⟩
    · rw [split, List.reverse_append, List.reverse_cons, List.append_assoc]
      rfl
    · exact fun both => others later (List.mem_reverse.mp inside) both.1 both.2

/-! ## Which fields are right -/

/-- `s_bfe` writes a name exactly if it is recorded, known, and no text of its own stands before. -/
theorem sBfe_eq_iff {name : Text} (nonempty : name ≠ []) (noStar : name.head? ≠ some '*')
    (signed : Bool) (bfeOffsets : PyDict (Text × Text) Text) (vars : List Text)
    (value selector : Text) :
    sBfe signed bfeOffsets vars value selector =
        some (some ⟨name, .kernelArgumentValue, some (.var name)⟩) ↔
      bfeOffsets.get? (value, selector) = some name ∧ name ∈ vars ∧
        (signed = false → selector ≠ "0x20010".toList ∧ selector ≠ "0x100010".toList) := by
  have bare : name.dropWhile (· = '*') = name := by
    cases name with
    | nil => rfl
    | cons letter rest =>
        have other : letter ≠ '*' := fun same => noStar (congrArg some same)
        rw [List.dropWhile_cons_of_neg (by simpa using other)]
  have node : getVariableNode vars name = some (.var name) ↔ name ∈ vars := by
    simp [getVariableNode, bare, nonempty]
  have info : variableInfoNode vars name = some (.var name) ↔ name ∈ vars := by
    simp [variableInfoNode]
  have found : (bfeOffsets.get? (value, selector)).filter (· ≠ []) = some name ↔
      bfeOffsets.get? (value, selector) = some name := by
    simp only [Option.filter_eq_some_iff, decide_eq_true_eq]
    exact and_iff_left nonempty
  cases signed with
  | true =>
      have written : sBfe true bfeOffsets vars value selector =
          some (((bfeOffsets.get? (value, selector)).filter (· ≠ [])).map fun name =>
            ⟨name, .kernelArgumentValue, getVariableNode vars name⟩) := rfl
      rw [written, Option.some.injEq, Option.map_eq_some_iff, ← found, ← node]
      constructor
      · rintro ⟨other, here, same⟩
        obtain ⟨rfl, -, known⟩ := Extracted.mk.inj same
        exact ⟨here, known, fun no => absurd no (by decide)⟩
      · rintro ⟨here, known, -⟩
        exact ⟨name, here, by rw [known]⟩
  | false =>
      unfold sBfe
      simp only [Bool.false_eq_true, if_false]
      by_cases workDim : selector = "0x20010".toList
      · rw [if_pos workDim]
        exact iff_of_false (fun same => by cases same) fun all => (all.2.2 trivial).1 workDim
      by_cases localSize : selector = "0x100010".toList
      · rw [if_neg workDim, if_pos localSize]
        exact iff_of_false (fun same => by cases same) fun all => (all.2.2 trivial).2 localSize
      rw [if_neg workDim, if_neg localSize, Option.bind_eq_some_iff, ← found, ← info]
      constructor
      · rintro ⟨other, here, written⟩
        obtain ⟨node, known, same⟩ := Option.map_eq_some_iff.mp written
        obtain ⟨rfl, -, nodes⟩ := Extracted.mk.inj (Option.some.inj same)
        exact ⟨here, known.trans nodes, fun _ => ⟨workDim, localSize⟩⟩
      · rintro ⟨here, known, -⟩
        exact ⟨name, here, by rw [known]; rfl⟩

namespace BitField

variable {args : List KernelArgument} (field : BitField args)

theorem bytes_cases : field.bytes = 1 ∨ field.bytes = 2 := by
  have isField := field.isField
  unfold fieldBytes at isField
  dsimp only at isField
  split at isField
  · exact .inl (Option.some.inj isField).symm
  split at isField
  · exact .inr (Option.some.inj isField).symm
  · cases isField

theorem name_ne_nil : field.name ≠ [] := by
  unfold name
  split
  · exact List.append_ne_nil_of_left_ne_nil field.named _
  · exact field.named

theorem head_name : field.name.head? ≠ some '*' := by
  have whole := field.noPointer
  unfold name
  split
  · rwa [List.head?_append_of_ne_nil _ field.named]
  · exact whole

theorem place_nonneg : 0 ≤ field.place := Int.emod_nonneg _ (by decide)

theorem place_lt : field.place < 4 := Int.emod_lt_of_pos _ (by decide)

theorem selector_eq : field.selector = bfeOffset (field.bytes * 8) (field.place * 8) := by
  have above := field.place_nonneg
  have below := field.place_lt
  have positive : 0 < 8 * field.bytes := by
    rcases field.bytes_cases with one | two <;> omega
  rw [selector, bfeSelector_eq positive (by omega)]
  congr 1 <;> omega

/-- Of the selectors with a meaning of their own only one belongs to a field. -/
theorem selector_plain_iff :
    field.selector ≠ "0x20010".toList ∧ field.selector ≠ "0x100010".toList ↔
      ¬(field.bytes = 2 ∧ field.place = 2) := by
  have above := field.place_nonneg
  have below := field.place_lt
  have workDim : "0x20010".toList = bfeOffset 2 16 := by decide
  have localSize : "0x100010".toList = bfeOffset 16 16 := by decide
  rw [selector_eq, workDim, localSize]
  constructor
  · rintro ⟨-, other⟩ ⟨bytes, place⟩
    rw [bytes, place] at other
    exact other rfl
  · intro other
    constructor <;> intro same <;>
      obtain ⟨sizes, places⟩ := bfeOffset_inj (by omega) (by omega) (by decide) (by decide) same
    · rcases field.bytes_cases with one | two <;> omega
    · exact other ⟨by omega, by omega⟩

/-- The start of its dword, the size and the place of a field. -/
def slot : Option (Text × Int × Int) :=
  (startValue (elements args) field.dword).map fun value => (value, field.bytes, field.place)

/--
An argument starts in the dword of the field, the selector has no other meaning, and of what
is stored for this slot the last has the name of the field, which is known.
-/
structure Resolves (signed : Bool) (vars : List Text) : Prop where
  start : ∃ first ∈ elements args, first.offset = field.dword
  plain : signed = false → ¬(field.bytes = 2 ∧ field.place = 2)
  known : field.name ∈ vars
  last : LastNamed (elements args) field.slot field.name

theorem right_iff {params : KernelParams} {base : Text}
    (recorded : Recorded (elements args) params base) (signed : Bool) (vars : List Text) :
    field.Right signed params base vars ↔ field.Resolves signed vars := by
  have multiple : field.dword % 4 = 0 := by
    unfold dword
    omega
  have starts := recorded.tables.startValue multiple
  have above := field.place_nonneg
  have below := field.place_lt
  have extract : ∀ value, sBfe signed params.bfeTexts vars value field.selector =
      some (some field.extracted) ↔ LastNamed (elements args)
        (some (value, (field.bytes : Int), field.place)) field.name ∧ field.name ∈ vars ∧
          (signed = false → ¬(field.bytes = 2 ∧ field.place = 2)) := by
    intro value
    rw [extracted, sBfe_eq_iff field.name_ne_nil field.head_name, field.selector_plain_iff,
      field.selector_eq, recorded.get?_bfeTexts value _ (by omega) (by omega),
      lastWith_named_iff recorded.tables]
  constructor
  · rintro ⟨content, found, written⟩
    obtain ⟨last, known, plain⟩ := (extract content.value).mp written
    rw [found] at starts
    refine ⟨?_, plain, known, ?_⟩
    · obtain ⟨first, inside, here, -⟩ := recorded.tables.only _ _ found
      exact ⟨first, inside, here⟩
    · rw [slot, ← starts]
      exact last
  · rintro ⟨⟨first, inside, here⟩, plain, known, last⟩
    have found := recorded.tables.found first inside (here ▸ multiple)
    rw [here] at found
    rw [found] at starts
    refine ⟨first.content, found, (extract _).mpr ⟨?_, known, plain⟩⟩
    rw [slot, ← starts] at last
    exact last

/-! ### Packed vectors -/

/-- The load of `TypedMemoryLoad`, into a temporary, for a vector of at most 32 bits. -/
def packedLoad (base fromRegister packed : Text) : SLoad :=
  ⟨[packed], base, fromRegister, field.arg.offset⟩

/-- The `s_bfe_u32` for a component; a register that was not written is an exception. -/
def unpack (params : KernelParams) (vars : List Text) (packed : Text) (state : State) :
    Option (Option Extracted) :=
  (state.get? packed).bind fun register =>
    sBfe false params.bfeTexts vars register.content.value
      (bfeSelector (8 * field.bytes) (field.index * (8 * field.bytes)))

/-- Behind the load of its vector the component is extracted. -/
def Unpacks (params : KernelParams) (base : Text) (vars : List Text)
    (fromRegister packed : Text) : Prop :=
  ∀ (state : State) (pointer : Register), state.get? fromRegister = some pointer →
    pointer.content.type = .argumentsPointer →
    (field.packedLoad base fromRegister packed).offsetAt pointer = field.arg.offset →
    state.get? packed = none →
    ∃ after, (field.packedLoad base fromRegister packed).toFillNode params state = some after ∧
      field.unpack params vars packed after = some (some field.extracted)

/-- The vector starts a dword, and its first element is one that a load copies. -/
structure StartsDword : Prop where
  aligned : 4 ∣ field.arg.offset
  copied : ∀ first ∈ elements args, first.offset = field.arg.offset →
    first.size ≤ 4 ∨ first.size = 8

/-- A load into one register. -/
theorem uploadFrom_single (table : PyDict Int RegisterContent) (offset : Int) (packed : Text)
    (state : State) : (uploadFrom table none offset [packed] state).get? packed =
      (((table.get? offset).filter fun content => content.size ≤ 4 ∨ content.size = 8).map
        fun content => ⟨.entire, content⟩).or (state.get? packed) := by
  unfold uploadFrom
  rw [Option.or_none]
  cases table.get? offset with
  | none => rfl
  | some content =>
      dsimp only
      by_cases small : content.size ≤ 4
      · rw [if_pos small, uploadFrom, PyDict.get?_set_self]
        simp [Option.filter, small]
      · rw [if_neg small]
        by_cases eight : content.size = 8
        · rw [if_pos eight, PyDict.get?_set_self]
          simp [Option.filter, eight]
        · rw [if_neg eight]
          simp [Option.filter, small, eight]

/-- The component of a vector that starts a dword is at its index in this dword. -/
theorem selector_of_aligned (aligned : 4 ∣ field.arg.offset)
    (small : (field.index + 1) * field.bytes ≤ 4) : field.dword = field.arg.offset ∧
      field.selector = bfeSelector (8 * field.bytes) (field.index * (8 * field.bytes)) := by
  have positive : 0 < field.bytes := by
    rcases field.bytes_cases with one | two <;> omega
  have within : field.index * field.bytes < 4 := by
    rw [Nat.add_mul, Nat.one_mul] at small
    omega
  have offset : field.offset = field.arg.offset + (field.index * field.bytes : Nat) := by
    rw [BitField.offset, Nat.cast_mul]
  have place : field.place = (field.index * field.bytes : Nat) := by
    rw [BitField.place, offset]
    omega
  refine ⟨?_, ?_⟩
  · rw [dword, offset]
    omega
  · rw [selector, place, Int.toNat_natCast, Nat.mul_left_comm]

theorem get?_base_of_found {params : KernelParams} {base : Text} {offset : Int}
    {content : RegisterContent} (found : (params.table base).get? offset = some content) :
    params.offsetToContent.get? base = some (params.table base) := by
  unfold KernelParams.table at found ⊢
  cases known : params.offsetToContent.get? base with
  | none =>
      rw [known] at found
      cases found
  | some table => rfl

/-- A pointer to the arguments whose text is no number. -/
def freshPointer : Register := ⟨.lowPart, ⟨[], .argumentsPointer, 4, []⟩⟩

theorem get?_pointerState {base fromRegister packed : Text} (fresh : packed ≠ fromRegister) :
    (pointerState (field.packedLoad base fromRegister packed) freshPointer).get? packed = none :=
  PyDict.get?_set_of_ne _ fresh _

/-- What a component was extracted from. -/
theorem exists_of_unpack {params : KernelParams} {base fromRegister packed : Text} {vars : List Text}
    {after : State} {extracted : Extracted}
    (run : (field.packedLoad base fromRegister packed).toFillNode params
      (pointerState (field.packedLoad base fromRegister packed) freshPointer) = some after)
    (written : field.unpack params vars packed after = some (some extracted))
    (absent : (pointerState (field.packedLoad base fromRegister packed) freshPointer).get? packed =
      none) :
    ∃ content, (params.table base).get? field.arg.offset = some content ∧
      (content.size ≤ 4 ∨ content.size = 8) ∧
      sBfe false params.bfeTexts vars content.value
        (bfeSelector (8 * field.bytes) (field.index * (8 * field.bytes))) =
          some (some extracted) := by
  have isState : (pointerState (field.packedLoad base fromRegister packed) freshPointer).get?
      (field.packedLoad base fromRegister packed).fromRegister = some freshPointer :=
    PyDict.get?_set_self ..
  rw [SLoad.toFillNode, isState] at run
  dsimp only at run
  have isPointer : freshPointer.content.type = .argumentsPointer := rfl
  rw [if_pos isPointer, uploadKernelParam] at run
  obtain ⟨table, known, rfl⟩ := Option.map_eq_some_iff.mp run
  have same : params.table base = table := by
    rw [KernelParams.table, show params.offsetToContent.get? base = some table from known]
    rfl
  obtain ⟨register, found, extract⟩ := Option.bind_eq_some_iff.mp written
  have single := uploadFrom_single table
    ((field.packedLoad base fromRegister packed).offsetAt freshPointer) packed
      (pointerState (field.packedLoad base fromRegister packed) freshPointer)
  rw [absent, Option.or_none] at single
  obtain ⟨content, kept, rfl⟩ := Option.map_eq_some_iff.mp (single.symm.trans found)
  obtain ⟨found, size⟩ := Option.filter_eq_some_iff.mp kept
  refine ⟨content, ?_, of_decide_eq_true size, extract⟩
  rw [same, ← found]
  simp [SLoad.offsetAt, freshPointer, packedLoad]

theorem unpacks_iff {params : KernelParams} {base : Text}
    (recorded : Recorded (elements args) params base) (vars : List Text)
    {fromRegister packed : Text} (fresh : packed ≠ fromRegister)
    (small : (field.index + 1) * field.bytes ≤ 4) :
    field.Unpacks params base vars fromRegister packed ↔
      field.StartsDword ∧ field.Resolves false vars := by
  constructor
  · intro unpacks
    have atOffset : (field.packedLoad base fromRegister packed).offsetAt freshPointer =
        field.arg.offset := by simp [SLoad.offsetAt, freshPointer, packedLoad]
    have absent : (pointerState (field.packedLoad base fromRegister packed) freshPointer).get?
        packed = none := field.get?_pointerState fresh
    obtain ⟨after, run, written⟩ := unpacks _ freshPointer (PyDict.get?_set_self ..) rfl atOffset
      absent
    obtain ⟨content, found, copied, written⟩ := field.exists_of_unpack run written absent
    have aligned : 4 ∣ field.arg.offset := Int.dvd_of_emod_eq_zero (recorded.aligned _ _ found)
    obtain ⟨dword, selector⟩ := field.selector_of_aligned aligned small
    refine ⟨⟨aligned, fun first inside here => ?_⟩, ?_⟩
    · have own := recorded.tables.found first inside (by omega)
      rw [here, found] at own
      cases own
      exact copied
    · refine (field.right_iff recorded false vars).mp ⟨content, by rw [dword]; exact found, ?_⟩
      rw [selector]
      exact written
  · rintro ⟨⟨aligned, copied⟩, resolves⟩ state pointer isState isPointer atOffset -
    obtain ⟨dword, selector⟩ := field.selector_of_aligned aligned small
    obtain ⟨content, found, written⟩ := (field.right_iff recorded false vars).mpr resolves
    rw [dword] at found
    obtain ⟨first, inside, here, rfl⟩ := recorded.tables.only _ _ found
    refine ⟨_, SLoad.toFillNode_eq isPointer isState (get?_base_of_found found), ?_⟩
    have copies : first.content.size ≤ 4 ∨ first.content.size = 8 := copied first inside here
    rw [unpack, atOffset, packedLoad, uploadFrom_single, found, Option.filter, if_pos
      (decide_eq_true copies), ← selector]
    exact written

/-! ### Placed arguments -/

/-- The field, as one of the elements that are stored. -/
def element : Element := ⟨field.arg, field.offset⟩

theorem basicSize_eq (placed : Placed args) : field.arg.basicSize = field.bytes := by
  obtain ⟨size, known⟩ := placed.sized _ field.inside
  rw [sizeOf, if_neg field.noPointer] at size
  have listed : field.arg.typeName ∈ sizedTypes := mem_sizedTypes (size ▸ known)
  have whole := scalarSize_of_fieldBytes _ listed _ (Option.mem_toList.mpr field.isField)
  rw [← size, typeLanes] at whole
  rw [KernelArgument.basicSize, KernelArgument.isVector]
  cases digit : field.arg.typeName.getLast?.any Char.isDigit with
  | true =>
      rw [digit, if_pos rfl] at whole
      rw [if_pos (by simpa using field.noPointer)]
      exact whole
  | false =>
      rw [digit, if_neg (by decide), Int.fdiv_one] at whole
      rw [if_neg (by simp)]
      exact whole

theorem element_value (placed : Placed args) : field.element.value = field.name := by
  have positive : (field.bytes : Int) ≠ 0 := by
    rcases field.bytes_cases with one | two <;> omega
  rw [Element.value, element, KernelArgument.value, name]
  split
  · rw [KernelArgument.vectorElementByOffset, field.basicSize_eq placed, offset,
      add_sub_cancel_left, Int.mul_fdiv_cancel _ positive]
  · have noStar : ¬"*".toList.isPrefixOf field.arg.name = true := by
      intro starred
      obtain ⟨rest, whole⟩ := List.isPrefixOf_iff_prefix.mp starred
      exact field.noPointer (by rw [← whole]; rfl)
    rw [removePrefix, if_neg noStar]

theorem index_lt (placed : Placed args) :
    (field.index : Int) < field.arg.size / field.arg.basicSize := by
  have tiled := placed.tiled field.inside
  have positive := Int.ne_of_gt tiled.scalar.pos
  have indexed := field.indexed
  cases vector : field.arg.isVector with
  | false =>
      have basic : field.arg.basicSize = field.arg.size := by simp [KernelArgument.basicSize, vector]
      rw [vector, if_neg (by decide)] at indexed
      rw [basic] at positive ⊢
      rw [Int.ediv_self positive, indexed]
      decide
  | true =>
      have basic : field.arg.basicSize = field.arg.size.fdiv field.arg.lanes := by
        simp [KernelArgument.basicSize, vector]
      rw [vector, if_pos rfl] at indexed
      obtain ⟨size, known⟩ := placed.sized _ field.inside
      rw [sizeOf, if_neg field.noPointer] at size
      obtain ⟨lanes, -, whole, -⟩ := sizedTypes_scalar _ (mem_sizedTypes (size ▸ known))
      have digit : field.arg.typeName.getLast?.any Char.isDigit = true :=
        (Bool.and_eq_true_iff.mp vector).1
      rw [← size] at whole
      rw [typeLanes, if_pos digit] at lanes whole
      obtain ⟨count, size⟩ := whole
      have basic : field.arg.basicSize = count := by
        rw [basic, size]
        exact Int.mul_fdiv_cancel_left _ (Int.ne_of_gt lanes)
      rw [basic] at positive ⊢
      rw [size, Int.mul_ediv_cancel _ positive]
      exact indexed

theorem element_mem (placed : Placed args) : field.element ∈ elements args := by
  have tiled := placed.tiled field.inside
  refine List.mem_flatMap.mpr ⟨field.arg, field.inside, List.mem_map.mpr ⟨field.offset, ?_, rfl⟩⟩
  have below := field.index_lt placed
  rw [tiled.offsets, offset, field.basicSize_eq placed]
  rw [field.basicSize_eq placed] at below
  exact List.mem_map.mpr ⟨field.index, List.mem_range.mpr (by omega), rfl⟩

theorem packs (placed : Placed args) : field.element.arg.packs = true := by
  have small := field.basicSize_eq placed
  refine (placed.tiled field.inside).packs ?_
  rcases field.bytes_cases with one | two <;> omega

/-- Placed arguments of different names all resolve, except behind a selector with a meaning. -/
theorem resolves_iff_of_placed (placed : Placed args)
    (names : ((elements args).map Element.value).Nodup) (started : Started [] (elements args))
    (signed : Bool) (vars : List Text) : field.Resolves signed vars ↔
      field.name ∈ vars ∧ (signed = false → ¬(field.bytes = 2 ∧ field.place = 2)) := by
  constructor
  · intro resolves
    exact ⟨resolves.known, resolves.plain⟩
  rintro ⟨known, plain⟩
  have inside := field.element_mem placed
  have packs := field.packs placed
  have start : ∃ first ∈ elements args, first.offset = field.dword := started.first inside packs
  have slot : field.element.slot (elements args) = field.slot := by
    have size : field.element.size = field.bytes := field.basicSize_eq placed
    rw [Element.slot, BitField.slot, size]
    rfl
  refine ⟨start, plain, known, ?_⟩
  obtain ⟨front, back, split⟩ := List.append_of_mem inside
  refine ⟨front, field.element, back, split, packs, slot, field.element_value placed, ?_⟩
  rintro later behind - same
  -- another element of this slot would have the offset of the field
  obtain ⟨value, isStart⟩ := exists_startValue start
  rw [BitField.slot, isStart] at same
  obtain ⟨other, found, slots⟩ := Option.map_eq_some_iff.mp same
  obtain ⟨rfl, -, places⟩ := Prod.mk.inj slots |>.imp_right Prod.mk.inj
  have dwords : later.dword = field.dword := startValue_inj names found isStart
  have offsets : later.offset = field.element.offset := by
    unfold Element.dword Element.place BitField.dword BitField.place at *
    change later.offset = field.offset
    omega
  have distinct := placed.grid.nodup_offset
  rw [split, List.map_append, List.map_cons, List.nodup_append, List.nodup_cons] at distinct
  exact distinct.2.1.1 (offsets ▸ List.mem_map_of_mem behind)

end BitField

/-! ## Stored arguments -/

/-- The arguments are stored without an exception, and what is stored satisfies a condition. -/
def Stored (base : Text) (args : List KernelArgument) (condition : KernelParams → Prop) : Prop :=
  ∃ params, storeArguments base args = some params ∧ condition params

section Stored

variable {args : List KernelArgument} (apart : ((elements args).map Element.offset).Nodup)
include apart

theorem started_iff (base : Text) :
    (∃ params, storeArguments base args = some params) ↔ Started [] (elements args) := by
  have empty : (⟨.empty, .empty⟩ : KernelParams).table base = .empty := by
    simp [KernelParams.table]
  have nothing : Tables [] ((⟨.empty, .empty⟩ : KernelParams).table base) := empty ▸ tables_nil
  rw [← Option.isSome_iff_exists, storeArguments, foldlM_storeInMem]
  exact (nothing.foldlM _ apart).1

theorem recorded_of_stored {base : Text} {params : KernelParams}
    (stored : storeArguments base args = some params) : Recorded (elements args) params base := by
  rw [storeArguments, foldlM_storeInMem] at stored
  exact (recorded_nil base).foldlM apart stored

theorem stored_iff (base : Text) {condition : KernelParams → Prop} {resolves : Prop}
    (same : ∀ params, Recorded (elements args) params base → (condition params ↔ resolves)) :
    Stored base args condition ↔ Started [] (elements args) ∧ resolves := by
  rw [← started_iff apart base]
  constructor
  · rintro ⟨params, stored, holds⟩
    exact ⟨⟨params, stored⟩, (same params (recorded_of_stored apart stored)).mp holds⟩
  · rintro ⟨⟨params, stored⟩, resolves⟩
    exact ⟨params, stored, (same params (recorded_of_stored apart stored)).mpr resolves⟩

end Stored

/-- A name comes from behind a value that starts a dword. -/
theorem Recorded.exists_of_sBfe {elements : List Element} {params : KernelParams} {base : Text}
    (recorded : Recorded elements params base) {signed : Bool} {vars : List Text}
    {value selector name : Text} {node : Option BfeNode}
    (written : sBfe signed params.bfeTexts vars value selector =
      some (some ⟨name, .kernelArgumentValue, node⟩)) :
    ∃ element ∈ elements, element.offset % 4 = 0 ∧ element.value = value := by
  have found : ∃ name, params.bfeTexts.get? (value, selector) = some name := by
    cases known : params.bfeTexts.get? (value, selector) with
    | some name => exact ⟨name, rfl⟩
    | none =>
        unfold sBfe at written
        rw [known] at written
        dsimp only [Option.filter, Option.map, Option.bind] at written
        split at written
        · cases written
        split at written
        · cases written
        split at written <;> cases written
  obtain ⟨name, found⟩ := found
  obtain ⟨entry, inside, key, -⟩ := PyDict.exists_of_get?_mapKeys found
  have listed := PyDict.get?_of_mem _ inside
  rw [recorded.names] at listed
  obtain ⟨element, last, -⟩ := Option.map_eq_some_iff.mp listed
  obtain ⟨content, start, same⟩ := Option.map_eq_some_iff.mp (key_of_lastWith last)
  obtain ⟨first, isFirst, here, rfl⟩ := recorded.tables.only _ _ start
  have values : first.value = entry.1.1 := congrArg Prod.fst same
  refine ⟨first, isFirst, ?_, values.trans (congrArg Prod.fst key)⟩
  rw [here]
  exact recorded.aligned _ _ start

/--
The arguments are stored if every field has the start of its dword, and then a field is
extracted from its dword, or from the load of its vector, exactly if it resolves.
-/
theorem fields_resolve_iff {args : List KernelArgument}
    (apart : ((elements args).map Element.offset).Nodup) (base : Text) (vars : List Text) :
    (∀ (field : BitField args) (signed : Bool),
      Stored base args (fun params => field.Right signed params base vars) ↔
        Started [] (elements args) ∧ field.Resolves signed vars) ∧
    (∀ (field : BitField args) (fromRegister packed : Text), packed ≠ fromRegister →
      (field.index + 1) * field.bytes ≤ 4 →
        (Stored base args (fun params =>
            field.Unpacks params base vars fromRegister packed) ↔
          Started [] (elements args) ∧ field.StartsDword ∧ field.Resolves false vars)) ∧
    -- any other value, such as the one of a load from global memory
    ∀ value, (∀ element ∈ elements args, element.offset % 4 = 0 → element.value ≠ value) →
      ∀ signed selector name node, ¬Stored base args (fun params =>
        sBfe signed params.bfeTexts vars value selector =
          some (some ⟨name, .kernelArgumentValue, node⟩)) := by
  refine ⟨fun field signed => ?_, fun field fromRegister packed fresh small => ?_, ?_⟩
  · exact stored_iff apart base fun params recorded => field.right_iff recorded signed vars
  · exact stored_iff apart base fun params recorded =>
      field.unpacks_iff recorded vars fresh small
  · rintro value other signed selector name node ⟨params, stored, written⟩
    obtain ⟨element, inside, start, same⟩ := (recorded_of_stored apart stored).exists_of_sBfe written
    exact other element inside start same

/-- `short a, short b, char4 c`. -/
def shortsAndChars : List KernelArgument :=
  [⟨"short".toList, "a".toList, 0, 2, false, false⟩, ⟨"short".toList, "b".toList, 2, 2, false, false⟩,
    ⟨"char4".toList, "c".toList, 4, 4, false, false⟩]

theorem shortsAndChars_placed : Placed shortsAndChars := by
  constructor <;> decide

/-- `b`, in the upper half of the first dword. -/
def upperShort : BitField shortsAndChars where
  arg := ⟨"short".toList, "b".toList, 2, 2, false, false⟩
  bytes := 2
  index := 0
  inside := by decide
  named := by decide
  noPointer := by decide
  isField := by decide
  indexed := by decide

/-- `c.y`. -/
def secondChar : BitField shortsAndChars where
  arg := ⟨"char4".toList, "c".toList, 4, 4, false, false⟩
  bytes := 1
  index := 1
  inside := by decide
  named := by decide
  noPointer := by decide
  isField := by decide
  indexed := by decide

theorem shortsAndChars_resolve :
    Stored "s[6:7]".toList shortsAndChars (fun params => upperShort.Right true params
      "s[6:7]".toList [upperShort.name]) ∧
    Stored "s[6:7]".toList shortsAndChars (fun params => secondChar.Unpacks params
      "s[6:7]".toList [secondChar.name] "s6".toList "typed_ld0".toList) ∧
    ¬Stored "s[6:7]".toList shortsAndChars (fun params =>
      sBfe false params.bfeTexts [] "x".toList "0x80008".toList =
        some (some ⟨"c___s1".toList, .kernelArgumentValue, none⟩)) := by
  have started : Started [] (elements shortsAndChars) := by decide
  have upper : upperShort.Resolves true [upperShort.name] :=
    (upperShort.resolves_iff_of_placed shortsAndChars_placed (by decide) started true _).mpr
      ⟨by decide, by decide⟩
  have second : secondChar.Resolves false [secondChar.name] :=
    (secondChar.resolves_iff_of_placed shortsAndChars_placed (by decide) started false _).mpr
      ⟨by decide, by decide⟩
  have aligned : secondChar.StartsDword := ⟨by decide, by decide⟩
  have apart : ((elements shortsAndChars).map Element.offset).Nodup := by decide
  have resolve := fun vars => fields_resolve_iff apart "s[6:7]".toList vars
  exact ⟨((resolve _).1 upperShort true).mpr ⟨started, upper⟩,
    ((resolve _).2.1 secondChar _ _ (by decide) (by decide)).mpr ⟨started, aligned, second⟩,
    (resolve _).2.2 _ (by decide) _ _ _ _⟩

/-- Without a sign the upper `short` is taken for a work-item builtin. -/
theorem upperShort_localSize : Placed shortsAndChars ∧ Started [] (elements shortsAndChars) ∧
    (∀ bfeOffsets value, sBfe false bfeOffsets [upperShort.name] value upperShort.selector =
      some (some ⟨"get_local_size(1)".toList, .localSizeY, some (.register .localSizeY)⟩)) ∧
    ¬Stored "s[6:7]".toList shortsAndChars (fun params => upperShort.Right false params
      "s[6:7]".toList [upperShort.name]) := by
  refine ⟨shortsAndChars_placed, by decide, fun bfeOffsets value => rfl, ?_⟩
  rintro ⟨params, stored, right⟩
  have recorded := recorded_of_stored shortsAndChars_placed.grid.nodup_offset stored
  have resolves := (upperShort.right_iff recorded false _).mp right
  exact resolves.plain rfl (by decide)

end OpenCLDecompiler.Arguments
