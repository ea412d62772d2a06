import Mathlib.Algebra.Order.Ring.Int
import OpenCLDecompiler.Arguments.Upload

/-!
# Which content a load puts into its registers

The scalars of the arguments lie on a grid: each is aligned to its size, and no two
of them overlap.  A load is right if it walks along this grid from scalar to scalar.
-/

namespace OpenCLDecompiler.Arguments

open Library Registers

/-! ## Elements -/

/-- A scalar argument, or an element of a vector. -/
structure Element where
  arg : KernelArgument
  offset : Int
  deriving DecidableEq

namespace Element

def size (element : Element) : Int := element.arg.basicSize

def content (element : Element) : RegisterContent := element.arg.content element.offset

def stop (element : Element) : Int := element.offset + element.size

/-- Some byte of the dword belongs to the element. -/
def covers (element : Element) (dword : Int) : Prop :=
  element.offset < dword + 4 ∧ dword < element.stop

end Element

def KernelArgument.elements (arg : KernelArgument) : List Element :=
  arg.offsets.map fun offset => ⟨arg, offset⟩

def elements (args : List KernelArgument) : List Element := args.flatMap KernelArgument.elements

def Covered (elements : List Element) (dword : Int) : Prop :=
  ∃ element ∈ elements, element.covers dword

/-- The dword is the second one of an element of 64 bits. -/
def HighHalf (elements : List Element) (dword : Int) : Prop :=
  ∃ element ∈ elements, element.size = 8 ∧ element.offset + 4 = dword

/-- Every `char` or `short` has, at the start of its dword, itself or an element before it. -/
def Started : List Element → List Element → Prop
  | _, [] => True
  | before, element :: rest =>
      (element.arg.packs = true →
        ∃ first ∈ before ++ [element], first.offset = element.offset - element.offset % 4) ∧
      Started (before ++ [element]) rest

/-! ## What a load has to do -/

/-- The dword of its content that a register of 32 bits stands for. -/
def Register.dword (register : Register) : Int :=
  match register.integrity with
  | .entire | .lowPart => 0
  | .highPart => 1

/-- The register has the dword of the element that starts in it or before it. -/
def Holds (elements : List Element) (dword : Int) (register : Option Register) : Prop :=
  ∃ element ∈ elements, element.offset ≤ dword ∧ dword < element.stop ∧
    ∃ content, register = some content ∧ content.content = element.content ∧
      dword = element.offset + 4 * content.dword

/-- What a load does to the register for a dword. -/
structure Received (elements : List Element) (dword : Int) (before after : Option Register) :
    Prop where
  covered : Covered elements dword → Holds elements dword after
  uncovered : ¬Covered elements dword → after = before

/-- Arguments of known sizes, each aligned to its scalars, that do not overlap. -/
structure Placed (args : List KernelArgument) : Prop where
  named : ∀ arg ∈ args, arg.name ≠ []
  sized : ∀ arg ∈ args, arg.size = sizeOf arg.name arg.typeName ∧ arg.size ≠ -1
  aligned : ∀ arg ∈ args, arg.basicSize ∣ arg.offset
  disjoint : args.Pairwise fun first second =>
    first.offset + first.size ≤ second.offset ∨ second.offset + second.size ≤ first.offset

/-- The words of a register: they differ, and the register is none of them. -/
structure Destinations (names : List Text) : Prop where
  nodup : names.Nodup
  whole : ∀ name ∈ names, "|lo".toList <:+: name → wholeName name ∉ names

/-- The load does not raise, and every register receives what it has to. -/
def Uploads (args : List KernelArgument) (load : SLoad) (pointer : Register) : Prop :=
  ∃ params, storeArguments load.base args = some params ∧
    ∀ state : State, state.get? load.fromRegister = some pointer →
      ∃ after, load.toFillNode params state = some after ∧
        ∀ (index : Nat) (inside : index < load.sdata.length),
          Received (elements args) (load.offsetAt pointer + 4 * index)
            (state.get? load.sdata[index]) (after.get? load.sdata[index])

/-! ## The grid -/

/-- The types of the tables that have a size. -/
def sizedTypes : List Text :=
  (vectorTypes ++ openclToAsm.map Prod.fst).filter fun type => evaluateSize (makeAsmType type) ≠ -1

theorem mem_sizedTypes {type : Text} (sized : evaluateSize (makeAsmType type) ≠ -1) :
    type ∈ sizedTypes := by
  refine List.mem_filter.mpr ⟨List.mem_append.mpr ?_, by simpa using sized⟩
  by_cases vector : type ∈ vectorTypes
  · exact .inl vector
  · right
    cases found : openclToAsm.lookup type with
    | none =>
        refine absurd ?_ sized
        rw [makeAsmType, if_neg vector, found]
        decide
    | some asm =>
        obtain ⟨before, behind, split, -⟩ := List.lookup_eq_some_iff.mp found
        rw [split]
        simp

/-- The lanes of a type, by its last letter. -/
def typeLanes (type : Text) : Int :=
  if type.getLast?.any Char.isDigit then type.getLast?.elim 1 fun digit => digit.toNat - '0'.toNat
  else 1

/-- A scalar has 1, 2, 4 or 8 bytes. -/
def IsScalar (size : Int) : Prop := size = 1 ∨ size = 2 ∨ size = 4 ∨ size = 8

instance (size : Int) : Decidable (IsScalar size) := inferInstanceAs (Decidable (_ ∨ _))

theorem sizedTypes_scalar : ∀ type ∈ sizedTypes, 0 < typeLanes type ∧
    IsScalar ((evaluateSize (makeAsmType type)).fdiv (typeLanes type)) ∧
    typeLanes type ∣ evaluateSize (makeAsmType type) ∧
    ((evaluateSize (makeAsmType type)).fdiv (typeLanes type) < 4 →
      ("short".toList <:+: type ∨ "char".toList <:+: type)) := by
  decide +kernel

theorem pyRange_mul {step count : Int} (positive : 0 < step) :
    pyRange (step * count) step = (List.range count.toNat).map fun index : Nat => index * step := by
  have count : -(-(step * count)).fdiv step = count := by
    rw [← Int.mul_neg, Int.mul_fdiv_cancel_left _ (Int.ne_of_gt positive), Int.neg_neg]
  rw [pyRange, count]

/-- An argument is a whole number of scalars. -/
structure Tiled (arg : KernelArgument) : Prop where
  scalar : IsScalar arg.basicSize
  whole : arg.basicSize ∣ arg.size
  positive : 0 < arg.size
  offsets : arg.offsets =
    (List.range (arg.size / arg.basicSize).toNat).map fun index : Nat =>
      arg.offset + index * arg.basicSize
  packs : arg.basicSize < 4 → arg.packs = true

theorem IsScalar.pos {size : Int} (scalar : IsScalar size) : 0 < size := by
  rcases scalar with rfl | rfl | rfl | rfl <;> decide

theorem tiled_of_scalar {arg : KernelArgument} (single : arg.isVector = false)
    (scalar : IsScalar arg.size) (packs : arg.size < 4 → arg.packs = true) : Tiled arg := by
  have basic : arg.basicSize = arg.size := by simp [KernelArgument.basicSize, single]
  constructor
  case scalar => rwa [basic]
  case whole => rw [basic]
  case positive => exact scalar.pos
  case packs => rwa [basic]
  case offsets =>
    rw [basic, Int.ediv_self (Int.ne_of_gt scalar.pos)]
    simp [KernelArgument.offsets, single]

theorem tiled_of_vector {arg : KernelArgument} (vector : arg.isVector = true)
    (lanes : 0 < arg.lanes) (scalar : IsScalar (arg.size.fdiv arg.lanes))
    (whole : arg.lanes ∣ arg.size) (packs : arg.size.fdiv arg.lanes < 4 → arg.packs = true) :
    Tiled arg := by
  have basic : arg.basicSize = arg.size.fdiv arg.lanes := by
    simp [KernelArgument.basicSize, vector]
  obtain ⟨count, size⟩ := whole
  have basicIs : arg.basicSize = count := by
    rw [basic, size, Int.mul_fdiv_cancel_left _ (Int.ne_of_gt lanes)]
  have product : arg.size = arg.basicSize * arg.lanes := by rw [basicIs, size, Int.mul_comm]
  have positive : 0 < arg.basicSize := basic ▸ scalar.pos
  constructor
  case scalar => rwa [basic]
  case whole => exact ⟨_, product⟩
  case positive => exact product ▸ Int.mul_pos positive lanes
  case packs => rwa [basic]
  case offsets =>
    rw [KernelArgument.offsets, if_pos vector, product, pyRange_mul positive, List.map_map,
      Int.mul_ediv_cancel_left _ (Int.ne_of_gt positive)]
    rfl

theorem Placed.tiled {args : List KernelArgument} (placed : Placed args) {arg : KernelArgument}
    (inside : arg ∈ args) : Tiled arg := by
  obtain ⟨size, known⟩ := placed.sized arg inside
  by_cases pointer : arg.name.head? = some '*'
  · have eight : arg.size = 8 := by rw [size, sizeOf, if_pos pointer]
    refine tiled_of_scalar (by simp [KernelArgument.isVector, pointer]) ?_ ?_
    · exact .inr (.inr (.inr eight))
    · rintro small
      omega
  · rw [sizeOf, if_neg pointer] at size
    have listed : arg.typeName ∈ sizedTypes := mem_sizedTypes (size ▸ known)
    obtain ⟨lanes, scalar, whole, packs⟩ := sizedTypes_scalar _ listed
    rw [← size] at scalar whole packs
    cases digit : arg.typeName.getLast?.any Char.isDigit with
    | true =>
        rw [typeLanes, if_pos digit] at lanes scalar whole packs
        refine tiled_of_vector (by simp [KernelArgument.isVector, digit, pointer]) lanes scalar
          whole fun small => ?_
        exact decide_eq_true (packs small)
    | false =>
        rw [typeLanes, if_neg (by rw [digit]; decide), Int.fdiv_one] at scalar packs
        refine tiled_of_scalar (by simp [KernelArgument.isVector, digit]) scalar fun small => ?_
        exact decide_eq_true (packs small)

/-- No byte belongs to both elements. -/
def Element.Apart (first second : Element) : Prop :=
  first.stop ≤ second.offset ∨ second.stop ≤ first.offset

instance : Std.Symm Element.Apart := ⟨fun _ _ => Or.symm⟩

/-- What is known of the elements of placed arguments. -/
structure Grid (elements : List Element) : Prop where
  scalar : ∀ element ∈ elements, IsScalar element.size
  aligned : ∀ element ∈ elements, element.size ∣ element.offset
  packs : ∀ element ∈ elements, element.size < 4 → element.arg.packs = true
  disjoint : elements.Pairwise Element.Apart

theorem Tiled.mem_elements {arg : KernelArgument} (tiled : Tiled arg) {element : Element}
    (inside : element ∈ arg.elements) : element.arg = arg ∧
      ∃ index : Nat, element.offset = arg.offset + index * arg.basicSize ∧
        arg.offset ≤ element.offset ∧ element.stop ≤ arg.offset + arg.size := by
  obtain ⟨offset, listed, rfl⟩ := List.mem_map.mp inside
  rw [tiled.offsets] at listed
  obtain ⟨index, small, rfl⟩ := List.mem_map.mp listed
  obtain ⟨count, size⟩ := tiled.whole
  have positive := tiled.scalar.pos
  rw [List.mem_range, size, Int.mul_ediv_cancel_left _ (Int.ne_of_gt positive)] at small
  refine ⟨rfl, index, rfl, ?_, ?_⟩
  · exact Int.le_add_of_nonneg_right (Int.mul_nonneg (Int.natCast_nonneg index) positive.le)
  · have last : (index + 1 : Int) * arg.basicSize ≤ count * arg.basicSize :=
      Int.mul_le_mul_of_nonneg_right (by omega) positive.le
    rw [Int.add_mul, Int.one_mul] at last
    rw [Element.stop, Element.size, size, Int.mul_comm arg.basicSize]
    dsimp only
    omega

theorem Tiled.pairwise {arg : KernelArgument} (tiled : Tiled arg) :
    arg.elements.Pairwise Element.Apart := by
  rw [KernelArgument.elements, tiled.offsets, List.map_map, List.pairwise_map]
  refine List.pairwise_lt_range.imp ?_
  rintro first second less
  left
  have next : (first + 1 : Int) * arg.basicSize ≤ second * arg.basicSize :=
    Int.mul_le_mul_of_nonneg_right (by omega) tiled.scalar.pos.le
  rw [Int.add_mul, Int.one_mul] at next
  simp only [Function.comp_apply, Element.stop, Element.size]
  omega

theorem Placed.grid {args : List KernelArgument} (placed : Placed args) : Grid (elements args) := by
  constructor
  case scalar =>
    rintro element inside
    obtain ⟨arg, listed, inside⟩ := List.mem_flatMap.mp inside
    have tiled := placed.tiled listed
    rw [Element.size, (tiled.mem_elements inside).1]
    exact tiled.scalar
  case aligned =>
    rintro element inside
    obtain ⟨arg, listed, inside⟩ := List.mem_flatMap.mp inside
    obtain ⟨isArg, index, offset, -⟩ := (placed.tiled listed).mem_elements inside
    rw [Element.size, isArg, offset]
    exact Int.dvd_add (placed.aligned arg listed) (Int.dvd_mul_left _ _)
  case packs =>
    rintro element inside
    obtain ⟨arg, listed, inside⟩ := List.mem_flatMap.mp inside
    have tiled := placed.tiled listed
    rw [Element.size, (tiled.mem_elements inside).1]
    exact tiled.packs
  case disjoint =>
    refine List.pairwise_flatMap.mpr ⟨fun arg listed => (placed.tiled listed).pairwise, ?_⟩
    refine placed.disjoint.imp_of_mem ?_
    rintro first second inFirst inSecond apart left inLeft right inRight
    obtain ⟨-, -, -, above, below⟩ := (placed.tiled inFirst).mem_elements inLeft
    obtain ⟨-, -, -, above', below'⟩ := (placed.tiled inSecond).mem_elements inRight
    unfold Element.Apart
    omega

/-! ## The table -/

def storeElement (base : Text) (params : KernelParams) (element : Element) : Option KernelParams :=
  processArg element.offset element.arg base params

theorem foldlM_storeInMem (base : Text) (args : List KernelArgument) (params : KernelParams) :
    args.foldlM (storeInMem base) params = (elements args).foldlM (storeElement base) params := by
  induction args generalizing params with
  | nil => rfl
  | cons arg args ih =>
      have first : storeInMem base params arg = arg.elements.foldlM (storeElement base) params := by
        rw [KernelArgument.elements, List.foldlM_map]
        rfl
      rw [elements, List.flatMap_cons, List.foldlM_append, List.foldlM_cons, first]
      exact congrArg _ (funext fun params => ih params)

/-- The table that loads from a base read. -/
def KernelParams.table (params : KernelParams) (base : Text) : PyDict Int RegisterContent :=
  (params.offsetToContent.get? base).getD .empty

/-- The table has the elements that start a dword. -/
structure Tables (elements : List Element) (table : PyDict Int RegisterContent) : Prop where
  found : ∀ element ∈ elements, element.offset % 4 = 0 →
    table.get? element.offset = some element.content
  only : ∀ offset content, table.get? offset = some content →
    ∃ element ∈ elements, element.offset = offset ∧ content = element.content

theorem tables_nil : Tables [] .empty := by
  constructor
  · rintro element ⟨⟩
  · rintro offset content found
    simp at found

theorem table_storeContent (offset : Int) (arg : KernelArgument) (base : Text)
    (params : KernelParams) : (storeContent offset arg base params).table base =
      if offset % 4 = 0 then (params.table base).set offset (arg.content offset)
      else params.table base := by
  unfold storeContent
  split
  · simp [KernelParams.table]
  · rfl

theorem Tables.storeContent {before : List Element} {params : KernelParams} {base : Text}
    (tables : Tables before (params.table base)) {element : Element}
    (fresh : ∀ other ∈ before, other.offset ≠ element.offset) :
    Tables (before ++ [element])
      ((storeContent element.offset element.arg base params).table base) := by
  rw [table_storeContent]
  constructor
  · rintro other inside start
    rcases List.mem_append.mp inside with old | new
    · rw [← tables.found other old start]
      split
      · exact PyDict.get?_set_of_ne _ (fresh other old) _
      · rfl
    · obtain rfl := List.mem_singleton.mp new
      rw [if_pos start, PyDict.get?_set_self]
      rfl
  · rintro offset content found
    have old : (params.table base).get? offset = some content →
        ∃ other ∈ before ++ [element], other.offset = offset ∧ content = other.content := by
      rintro found
      obtain ⟨other, inside, facts⟩ := tables.only offset content found
      exact ⟨other, List.mem_append_left _ inside, facts⟩
    split at found
    · rw [PyDict.get?_set] at found
      split at found
      · rename_i same
        exact ⟨element, by simp, same.symm, (Option.some.inj found).symm⟩
      · exact old found
    · exact old found

theorem getBfeOffset_isSome_iff (name : Text) (offset : Int) (arg : KernelArgument) (base : Text)
    (params : KernelParams) : (getBfeOffset name offset arg base params).isSome = true ↔
      ((params.table base).get? (offset - offset % 4)).isSome = true := by
  unfold getBfeOffset KernelParams.table
  cases found : params.offsetToContent.get? base with
  | none => simp
  | some table => simp

theorem table_getBfeOffset {name : Text} {offset : Int} {arg : KernelArgument} {base : Text}
    {params after : KernelParams} (stored : getBfeOffset name offset arg base params = some after) :
    after.table base = params.table base := by
  unfold getBfeOffset at stored
  obtain ⟨table, -, stored⟩ := Option.bind_eq_some_iff.mp stored
  obtain ⟨content, -, rfl⟩ := Option.map_eq_some_iff.mp stored
  rfl

theorem Tables.isSome_iff {elements : List Element} {table : PyDict Int RegisterContent}
    (tables : Tables elements table) (element : Element) :
    (table.get? (element.offset - element.offset % 4)).isSome = true ↔
      ∃ first ∈ elements, first.offset = element.offset - element.offset % 4 := by
  constructor
  · rintro some
    obtain ⟨content, found⟩ := Option.isSome_iff_exists.mp some
    obtain ⟨first, inside, offset, -⟩ := tables.only _ _ found
    exact ⟨first, inside, offset⟩
  · rintro ⟨first, inside, offset⟩
    rw [← offset, tables.found first inside (by omega)]
    rfl

/-- One store succeeds exactly when a small element finds the start of its dword. -/
theorem Tables.storeElement {before : List Element} {params : KernelParams} {base : Text}
    (tables : Tables before (params.table base)) {element : Element}
    (fresh : ∀ other ∈ before, other.offset ≠ element.offset) :
    ((storeElement base params element).isSome = true ↔
      (element.arg.packs = true →
        ∃ first ∈ before ++ [element], first.offset = element.offset - element.offset % 4)) ∧
    ∀ after, storeElement base params element = some after →
      Tables (before ++ [element]) (after.table base) := by
  have next := tables.storeContent fresh
  unfold Arguments.storeElement processArg
  dsimp only
  cases packs : element.arg.packs with
  | false =>
      simp only [Bool.false_eq_true, if_false, false_implies, Option.isSome_some, true_and]
      rintro after ⟨⟩
      exact next
  | true =>
      simp only [if_true, true_implies]
      constructor
      · rw [getBfeOffset_isSome_iff]
        exact next.isSome_iff element
      · rintro after stored
        rw [table_getBfeOffset stored]
        exact next

theorem Tables.foldlM {before : List Element} {params : KernelParams} {base : Text}
    (tables : Tables before (params.table base)) (elements : List Element)
    (distinct : ((before ++ elements).map Element.offset).Nodup) :
    ((elements.foldlM (Arguments.storeElement base) params).isSome = true ↔
      Started before elements) ∧
    ∀ after, elements.foldlM (Arguments.storeElement base) params = some after →
      Tables (before ++ elements) (after.table base) := by
  induction elements generalizing before params with
  | nil =>
      refine ⟨by simp [Started], ?_⟩
      rintro after ⟨⟩
      rwa [List.append_nil]
  | cons element rest ih =>
      have fresh : ∀ other ∈ before, other.offset ≠ element.offset := by
        rw [List.map_append, List.map_cons, List.nodup_append] at distinct
        rintro other inside
        exact distinct.2.2 _ (List.mem_map_of_mem inside) _ List.mem_cons_self
      obtain ⟨succeeds, keeps⟩ := tables.storeElement fresh
      rw [List.append_cons] at distinct
      rw [List.foldlM_cons]
      cases stored : Arguments.storeElement base params element with
      | none =>
          rw [stored] at succeeds
          refine ⟨iff_of_false (by simp) fun started => ?_, by rintro after ⟨⟩⟩
          exact absurd (succeeds.mpr started.1) (by decide)
      | some next =>
          obtain ⟨rest, tables⟩ := ih (keeps next stored) distinct
          rw [stored] at succeeds
          refine ⟨?_, ?_⟩
          · rw [Option.bind_eq_bind, Option.bind_some, rest]
            exact ⟨fun started => ⟨succeeds.mp rfl, started⟩, fun started => started.2⟩
          · rw [List.append_cons]
            exact tables

/-! ## Dwords on the grid -/

namespace Grid

variable {elements : List Element} (grid : Grid elements)
include grid

theorem eq_of_overlap {first second : Element} (inFirst : first ∈ elements)
    (inSecond : second ∈ elements) (left : first.offset < second.stop)
    (right : second.offset < first.stop) : first = second := by
  by_contra different
  rcases grid.disjoint.forall inFirst inSecond different with before | behind <;> omega

theorem nodup_offset : (elements.map Element.offset).Nodup := by
  refine List.pairwise_map.mpr (grid.disjoint.imp_of_mem ?_)
  rintro first second inFirst inSecond apart same
  have left := (grid.scalar first inFirst).pos
  have right := (grid.scalar second inSecond).pos
  unfold Element.Apart Element.stop at apart
  omega

/-- A scalar that holds the first byte of a dword starts there, or the dword is its high half. -/
theorem start_or_highHalf {element : Element} (inside : element ∈ elements) {dword : Int}
    (multiple : 4 ∣ dword) (above : element.offset ≤ dword) (below : dword < element.stop) :
    element.offset = dword ∨ (element.size = 8 ∧ element.offset + 4 = dword) := by
  have aligned := grid.aligned element inside
  unfold Element.stop at below
  rcases grid.scalar element inside with size | size | size | size <;> rw [size] at aligned below <;>
    omega

theorem covers_of_small {element : Element} (inside : element ∈ elements) {dword : Int}
    (multiple : 4 ∣ dword) (covers : element.covers dword) (behind : dword < element.offset) :
    element.size < 4 ∧ element.offset - element.offset % 4 = dword := by
  have aligned := grid.aligned element inside
  have before := covers.1
  rcases grid.scalar element inside with size | size | size | size <;> rw [size] at aligned ⊢ <;>
    omega

end Grid

theorem Started.first {before elements : List Element} (started : Started before elements)
    {element : Element} (inside : element ∈ elements) (packs : element.arg.packs = true) :
    ∃ first ∈ before ++ elements, first.offset = element.offset - element.offset % 4 := by
  induction elements generalizing before with
  | nil => cases inside
  | cons other rest ih =>
      rw [List.append_cons]
      rcases List.mem_cons.mp inside with rfl | inside
      · obtain ⟨first, listed, offset⟩ := started.1 packs
        exact ⟨first, List.mem_append_left _ listed, offset⟩
      · exact ih started.2 inside

/-- The elements, their table, and the contents that start the dwords. -/
structure Loaded (elements : List Element) (table : PyDict Int RegisterContent) : Prop where
  grid : Grid elements
  tables : Tables elements table
  first : ∀ element ∈ elements, element.arg.packs = true →
    ∃ first ∈ elements, first.offset = element.offset - element.offset % 4

namespace Loaded

variable {elements : List Element} {table : PyDict Int RegisterContent}
  (loaded : Loaded elements table)
include loaded

/-- A covered dword is the start of an element, or the high half of one. -/
theorem start_of_covered {dword : Int} (multiple : 4 ∣ dword) (covered : Covered elements dword) :
    HighHalf elements dword ∨ ∃ element ∈ elements, element.offset = dword := by
  obtain ⟨element, inside, covers⟩ := covered
  by_cases behind : dword < element.offset
  · obtain ⟨small, start⟩ := loaded.grid.covers_of_small inside multiple covers behind
    obtain ⟨first, listed, offset⟩ := loaded.first element inside
      (loaded.grid.packs element inside small)
    exact .inr ⟨first, listed, offset.trans start⟩
  · rcases loaded.grid.start_or_highHalf inside multiple (by omega) covers.2 with start | high
    · exact .inr ⟨element, inside, start⟩
    · exact .inl ⟨element, inside, high⟩

theorem get?_start {element : Element} (inside : element ∈ elements) (multiple : 4 ∣ element.offset) :
    table.get? element.offset = some element.content :=
  loaded.tables.found element inside (by omega)

/-- The dword behind a scalar of at most 4 bytes is no high half. -/
theorem not_highHalf_behind {element : Element} (inside : element ∈ elements) {dword : Int}
    (next : dword = element.offset + 4 ∧ element.size ≤ 4 ∨
      dword = element.offset + 8 ∧ element.size = 8) : ¬HighHalf elements dword := by
  rintro ⟨other, listed, eight, behind⟩
  have positive := (loaded.grid.scalar element inside).pos
  have same := loaded.grid.eq_of_overlap inside listed (by unfold Element.stop; omega)
    (by unfold Element.stop; omega)
  rw [same] at next
  omega

end Loaded

/-! ## The walk of a load -/

theorem get?_setPair_of_not {dest next name : Text} (content : RegisterContent) (state : State)
    (first : name ≠ dest) (second : name ≠ next)
    (whole : "|lo".toList <:+: dest → wholeName dest ≠ name) :
    (setPair dest next content state).get? name = state.get? name := by
  unfold setPair
  dsimp only
  split
  · rename_i low
    rw [PyDict.get?_set_of_ne _ (whole low).symm, PyDict.get?_set_of_ne _ second,
      PyDict.get?_set_of_ne _ first]
  · rw [PyDict.get?_set_of_ne _ second, PyDict.get?_set_of_ne _ first]

theorem get?_setPair_low {dest next : Text} (content : RegisterContent) (state : State)
    (different : dest ≠ next) (whole : "|lo".toList <:+: dest → wholeName dest ≠ dest) :
    (setPair dest next content state).get? dest = some ⟨.lowPart, content⟩ := by
  unfold setPair
  dsimp only
  split
  · rename_i low
    rw [PyDict.get?_set_of_ne _ (whole low).symm, PyDict.get?_set_of_ne _ different,
      PyDict.get?_set_self]
  · rw [PyDict.get?_set_of_ne _ different, PyDict.get?_set_self]

theorem get?_setPair_high {dest next : Text} (content : RegisterContent) (state : State)
    (whole : "|lo".toList <:+: dest → wholeName dest ≠ next) :
    (setPair dest next content state).get? next = some ⟨.highPart, content⟩ := by
  unfold setPair
  dsimp only
  split
  · rename_i low
    rw [PyDict.get?_set_of_ne _ (whole low).symm, PyDict.get?_set_self]
  · rw [PyDict.get?_set_self]

/-- A register that is no destination, nor the whole of one, stays as it is. -/
theorem uploadFrom_get?_of_not (table : PyDict Int RegisterContent)
    (content : Option RegisterContent) (offset : Int) (dests : List Text) (state : State)
    {name : Text} (other : name ∉ dests)
    (whole : ∀ dest ∈ dests, "|lo".toList <:+: dest → wholeName dest ≠ name) :
    (uploadFrom table content offset dests state).get? name = state.get? name := by
  fun_induction uploadFrom table content offset dests state with
  | case1 => rfl
  | case2 => rfl
  | case3 carried offset dest rest state content found small ih =>
      rw [ih (List.not_mem_of_not_mem_cons other)
        (fun dest inside => whole dest (List.mem_cons_of_mem _ inside)),
        PyDict.get?_set_of_ne _ (List.ne_of_not_mem_cons other)]
  | case4 carried offset dest state content found large eight =>
      exact PyDict.get?_set_of_ne _ (List.ne_of_not_mem_cons other) _
  | case5 carried offset dest state content found large eight next rest ih =>
      have otherRest := List.not_mem_of_not_mem_cons other
      rw [ih (List.not_mem_of_not_mem_cons otherRest)
        (fun dest inside => whole dest (List.mem_cons_of_mem _ (List.mem_cons_of_mem _ inside)))]
      exact get?_setPair_of_not content state (List.ne_of_not_mem_cons other)
        (List.ne_of_not_mem_cons otherRest) (whole dest List.mem_cons_self)
  | case6 => rfl

theorem Destinations.tail {name : Text} {rest : List Text}
    (dests : Destinations (name :: rest)) : Destinations rest := by
  constructor
  · exact (List.nodup_cons.mp dests.nodup).2
  · rintro other inside low whole
    exact dests.whole other (List.mem_cons_of_mem _ inside) low (List.mem_cons_of_mem _ whole)

theorem Destinations.skip {name next : Text} {rest : List Text}
    (dests : Destinations (name :: next :: rest)) : Destinations (name :: rest) := by
  have kept : ∀ other ∈ name :: rest, other ∈ name :: next :: rest :=
    fun other inside => (List.Sublist.cons_cons name (List.sublist_cons_self next rest)).mem inside
  constructor
  · exact dests.nodup.sublist (List.Sublist.cons_cons name (List.sublist_cons_self next rest))
  · rintro other inside low whole
    exact dests.whole other (kept other inside) low (kept _ whole)

/-- A destination that is written stays so during the rest of the load. -/
theorem Destinations.get?_uploadFrom {name : Text} {rest : List Text}
    (dests : Destinations (name :: rest)) (table : PyDict Int RegisterContent)
    (content : Option RegisterContent) (offset : Int) (state : State) :
    (uploadFrom table content offset rest state).get? name = state.get? name := by
  refine uploadFrom_get?_of_not table content offset rest state
    (List.nodup_cons.mp dests.nodup).1 ?_
  rintro dest inside low rfl
  exact dests.whole dest (List.mem_cons_of_mem _ inside) low List.mem_cons_self

namespace Loaded

variable {elements : List Element} {table : PyDict Int RegisterContent}
  (loaded : Loaded elements table)

theorem holds_start {element : Element} (inside : element ∈ elements) {dword : Int}
    {register : Option Register} (integrity : Integrity)
    (written : register = some ⟨integrity, element.content⟩)
    (behind : dword = element.offset + 4 * (⟨integrity, element.content⟩ : Register).dword)
    (below : dword < element.stop) : Holds elements dword register := by
  refine ⟨element, inside, ?_, below, _, written, rfl, behind⟩
  cases integrity <;> simp only [Register.dword] at behind <;> omega

include loaded

theorem found_of_covered {offset : Int} (multiple : 4 ∣ offset) (covered : Covered elements offset)
    (low : ¬HighHalf elements offset) {carried : Option RegisterContent} {content : RegisterContent}
    (found : (table.get? offset).or carried = some content) :
    ∃ element ∈ elements, element.offset = offset ∧ content = element.content := by
  rcases loaded.start_of_covered multiple covered with high | ⟨element, inside, rfl⟩
  · exact absurd high low
  · rw [loaded.get?_start inside multiple, Option.some_or] at found
    exact ⟨element, inside, rfl, (Option.some.inj found).symm⟩

/-- A load whose dwords are all covered walks from element to element. -/
theorem uploadFrom_covered (content : Option RegisterContent) (offset : Int) (dests : List Text)
    (state : State) (multiple : 4 ∣ offset) (names : Destinations dests)
    (covered : ∀ index : Nat, index < dests.length → Covered elements (offset + 4 * index))
    (low : dests ≠ [] → ¬HighHalf elements offset) (index : Nat) (inside : index < dests.length) :
    Holds elements (offset + 4 * index)
      ((uploadFrom table content offset dests state).get? dests[index]) := by
  fun_induction uploadFrom table content offset dests state generalizing index with
  | case1 => simp at inside
  | case2 carried offset dest rest state found =>
      rcases loaded.start_of_covered multiple (by simpa using covered 0 (Nat.succ_pos _)) with
        high | ⟨element, listed, rfl⟩
      · exact absurd high (low (List.cons_ne_nil _ _))
      · rw [loaded.get?_start listed multiple, Option.some_or] at found
        cases found
  | case3 carried offset dest rest state content found small ih =>
      obtain ⟨element, listed, rfl, rfl⟩ := loaded.found_of_covered multiple
        (by simpa using covered 0 (Nat.succ_pos _)) (low (List.cons_ne_nil _ _)) found
      have positive := (loaded.grid.scalar element listed).pos
      cases index with
      | zero =>
          refine holds_start listed .entire ?_ ?_ ?_
          · exact (names.get?_uploadFrom table _ _ _).trans (PyDict.get?_set_self ..)
          · simp [Register.dword]
          · simp [Element.stop, positive]
      | succ index =>
          have shift : ∀ place : Nat, element.offset + 4 * (place + 1 : Nat) =
              element.offset + 4 + 4 * place := by omega
          rw [shift]
          exact ih (Int.dvd_add multiple (Int.dvd_refl 4)) names.tail
            (fun place small => shift place ▸ covered (place + 1) (Nat.succ_lt_succ small))
            (fun _ => loaded.not_highHalf_behind listed (.inl ⟨rfl, small⟩)) index
            (Nat.lt_of_succ_lt_succ inside)
  | case4 carried offset dest state content found large eight =>
      obtain ⟨element, listed, rfl, rfl⟩ := loaded.found_of_covered multiple
        (by simpa using covered 0 (Nat.succ_pos _)) (low (List.cons_ne_nil _ _)) found
      obtain rfl : index = 0 := Nat.lt_one_iff.mp inside
      have positive := (loaded.grid.scalar element listed).pos
      refine holds_start listed .entire (PyDict.get?_set_self ..) ?_ ?_
      · simp [Register.dword]
      · simp [Element.stop, positive]
  | case5 carried offset dest state content found large eight next rest ih =>
      obtain ⟨element, listed, rfl, rfl⟩ := loaded.found_of_covered multiple
        (by simpa using covered 0 (Nat.succ_pos _)) (low (List.cons_ne_nil _ _)) found
      have size : element.size = 8 := eight
      have apart : dest ≠ next := fun same =>
        (List.nodup_cons.mp names.nodup).1 (same ▸ List.mem_cons_self)
      match index with
      | 0 =>
          refine holds_start listed .lowPart ?_ ?_ ?_
          · refine (names.skip.get?_uploadFrom table _ _ _).trans (get?_setPair_low _ _ apart ?_)
            rintro lowName same
            exact names.whole dest List.mem_cons_self lowName (by rw [same]; exact List.mem_cons_self)
          · simp [Register.dword]
          · simp [Element.stop, size]
      | 1 =>
          refine holds_start listed .highPart ?_ ?_ ?_
          · refine (names.tail.get?_uploadFrom table _ _ _).trans (get?_setPair_high _ _ ?_)
            rintro lowName same
            exact names.whole dest List.mem_cons_self lowName
              (same ▸ List.mem_cons_of_mem _ List.mem_cons_self)
          · simp [Register.dword]
          · simp [Element.stop, size]
      | index + 2 =>
          have shift : ∀ place : Nat, element.offset + 4 * (place + 2 : Nat) =
              element.offset + 8 + 4 * place := by omega
          rw [shift]
          exact ih (Int.dvd_add multiple (by decide)) names.tail.tail
            (fun place small =>
              shift place ▸ covered (place + 2) (Nat.succ_lt_succ (Nat.succ_lt_succ small)))
            (fun _ => loaded.not_highHalf_behind listed (.inr ⟨rfl, size⟩)) index
            (Nat.lt_of_succ_lt_succ (Nat.lt_of_succ_lt_succ inside))
  | case6 carried offset dest rest state content found large other =>
      obtain ⟨element, listed, rfl, rfl⟩ := loaded.found_of_covered multiple
        (by simpa using covered 0 (Nat.succ_pos _)) (low (List.cons_ne_nil _ _)) found
      have size : element.content.size = element.size := rfl
      rcases loaded.grid.scalar element listed with is | is | is | is <;> omega

theorem element_of_found {offset : Int} {carried : Option RegisterContent}
    (known : ∀ content ∈ carried, ∃ element ∈ elements, content = element.content)
    {content : RegisterContent} (found : (table.get? offset).or carried = some content) :
    ∃ element ∈ elements, content = element.content := by
  rcases Option.or_eq_some_iff.mp found with here | ⟨-, before⟩
  · obtain ⟨element, inside, -, same⟩ := loaded.tables.only _ _ here
    exact ⟨element, inside, same⟩
  · exact known content before

/-- A load that reaches a dword without an argument writes an argument into its register. -/
theorem uploadFrom_uncovered (content : Option RegisterContent) (offset : Int) (dests : List Text)
    (state : State) (multiple : 4 ∣ offset) (names : Destinations dests)
    (known : ∀ carried ∈ content, ∃ element ∈ elements, carried = element.content)
    (starts : content = none → Covered elements offset) (low : ¬HighHalf elements offset)
    {index : Nat} (inside : index < dests.length)
    (uncovered : ¬Covered elements (offset + 4 * index)) :
    ∃ (index : Nat) (inside : index < dests.length), ¬Covered elements (offset + 4 * index) ∧
      ∃ register, (uploadFrom table content offset dests state).get? dests[index] = some register ∧
        ∃ element ∈ elements, register.content = element.content := by
  fun_induction uploadFrom table content offset dests state generalizing index with
  | case1 => simp at inside
  | case2 carried offset dest rest state found =>
      rw [Option.or_eq_none_iff] at found
      rcases loaded.start_of_covered multiple (starts found.2) with high | ⟨element, listed, rfl⟩
      · exact absurd high low
      · rw [loaded.get?_start listed multiple] at found
        cases found.1
  | case3 carried offset dest rest state content found small ih =>
      by_cases covered : Covered elements offset
      · obtain ⟨element, listed, rfl, rfl⟩ := loaded.found_of_covered multiple covered low found
        have shift : ∀ place : Nat, element.offset + 4 * (place + 1 : Nat) =
            element.offset + 4 + 4 * place := by omega
        cases index with
        | zero => exact absurd (by simpa using covered) uncovered
        | succ index =>
            obtain ⟨place, inside, uncovered, written⟩ := ih (Int.dvd_add multiple (Int.dvd_refl 4))
              names.tail (by rintro _ ⟨⟩; exact ⟨element, listed, rfl⟩) (by rintro ⟨⟩)
              (loaded.not_highHalf_behind listed (.inl ⟨rfl, small⟩))
              (Nat.lt_of_succ_lt_succ inside) (shift index ▸ uncovered)
            exact ⟨place + 1, Nat.succ_lt_succ inside, shift place ▸ uncovered, written⟩
      · refine ⟨0, Nat.succ_pos _, by simpa using covered, _,
          (names.get?_uploadFrom table _ _ _).trans (PyDict.get?_set_self ..), ?_⟩
        exact loaded.element_of_found known found
  | case4 carried offset dest state content found large eight =>
      obtain rfl : index = 0 := Nat.lt_one_iff.mp inside
      exact ⟨0, inside, uncovered, _, PyDict.get?_set_self .., loaded.element_of_found known found⟩
  | case5 carried offset dest state content found large eight next rest ih =>
      by_cases covered : Covered elements offset
      · obtain ⟨element, listed, rfl, rfl⟩ := loaded.found_of_covered multiple covered low found
        have size : element.size = 8 := eight
        have shift : ∀ place : Nat, element.offset + 4 * (place + 2 : Nat) =
            element.offset + 8 + 4 * place := by omega
        match index with
        | 0 => exact absurd (by simpa using covered) uncovered
        | 1 =>
            refine absurd ⟨element, listed, ?_, ?_⟩ uncovered
            · omega
            · unfold Element.stop
              omega
        | index + 2 =>
            obtain ⟨place, inside, uncovered, written⟩ := ih (Int.dvd_add multiple (by decide))
              names.tail.tail (by rintro _ ⟨⟩; exact ⟨element, listed, rfl⟩) (by rintro ⟨⟩)
              (loaded.not_highHalf_behind listed (.inr ⟨rfl, size⟩))
              (Nat.lt_of_succ_lt_succ (Nat.lt_of_succ_lt_succ inside)) (shift index ▸ uncovered)
            exact ⟨place + 2, Nat.succ_lt_succ (Nat.succ_lt_succ inside), shift place ▸ uncovered,
              written⟩
      · have apart : dest ≠ next := fun same =>
          (List.nodup_cons.mp names.nodup).1 (same ▸ List.mem_cons_self)
        refine ⟨0, Nat.succ_pos _, by simpa using covered, ⟨.lowPart, content⟩, ?_,
          loaded.element_of_found known found⟩
        refine (names.skip.get?_uploadFrom table _ _ _).trans (get?_setPair_low _ _ apart ?_)
        rintro lowName same
        exact names.whole dest List.mem_cons_self lowName (by rw [same]; exact List.mem_cons_self)
  | case6 carried offset dest rest state content found large other =>
      obtain ⟨element, listed, rfl⟩ := loaded.element_of_found known found
      have size : element.content.size = element.size := rfl
      rcases loaded.grid.scalar element listed with is | is | is | is <;> omega

/-- A load that does not begin at an element writes nothing. -/
theorem uploadFrom_nothing {offset : Int} (dests : List Text) (state : State)
    (absent : ∀ element ∈ elements, element.offset ≠ offset) :
    uploadFrom table none offset dests state = state := by
  cases dests with
  | nil => rfl
  | cons dest rest =>
      have missing : table.get? offset = none := by
        cases found : table.get? offset with
        | none => rfl
        | some content =>
            obtain ⟨element, inside, same, -⟩ := loaded.tables.only _ _ found
            exact absurd same (absent element inside)
      rw [uploadFrom, missing]
      rfl

end Loaded

/-! ## Loads of placed arguments -/

theorem getRegType_ne (value : Text) : getRegType value ≠ .argumentsPointer := by
  unfold getRegType
  split
  · rintro ⟨⟩
  · split
    · rintro ⟨⟩
    · split <;> rintro ⟨⟩

theorem Element.content_ne (element : Element) {pointer : Register}
    (isPointer : pointer.content.type = .argumentsPointer) : pointer.content ≠ element.content := by
  rintro same
  rw [same] at isPointer
  exact getRegType_ne _ isPointer

/-- A state with nothing but the pointer to the arguments. -/
def pointerState (load : SLoad) (pointer : Register) : State :=
  PyDict.empty.set load.fromRegister pointer

theorem eq_pointer {load : SLoad} {pointer : Register} {name : Text} {register : Register}
    (found : (pointerState load pointer).get? name = some register) : register = pointer := by
  rw [pointerState, PyDict.get?_set] at found
  split at found
  · exact (Option.some.inj found).symm
  · simp at found

theorem not_holds_pointerState {elements : List Element} {load : SLoad} {pointer : Register}
    (isPointer : pointer.content.type = .argumentsPointer) (dword : Int) (name : Text) :
    ¬Holds elements dword ((pointerState load pointer).get? name) := by
  rintro ⟨element, -, -, -, register, found, same, -⟩
  rw [eq_pointer found] at same
  exact element.content_ne isPointer same

theorem Placed.tables {args : List KernelArgument} (placed : Placed args) (base : Text) :
    ((storeArguments base args).isSome = true ↔ Started [] (elements args)) ∧
    ∀ params, storeArguments base args = some params →
      Tables (elements args) (params.table base) := by
  have empty : (⟨.empty, .empty⟩ : KernelParams).table base = .empty := by
    simp [KernelParams.table]
  rw [storeArguments, foldlM_storeInMem]
  have nothing : Tables [] ((⟨.empty, .empty⟩ : KernelParams).table base) := empty ▸ tables_nil
  exact nothing.foldlM _ placed.grid.nodup_offset

theorem Placed.loaded {args : List KernelArgument} (placed : Placed args) {base : Text}
    {params : KernelParams} (stored : storeArguments base args = some params) :
    Loaded (elements args) (params.table base) := by
  obtain ⟨started, tables⟩ := placed.tables base
  constructor
  · exact placed.grid
  · exact tables params stored
  · rintro element inside packs
    exact Started.first (started.mp (by rw [stored]; rfl)) inside packs

/-- The table of a base exists as soon as there is an argument. -/
theorem Placed.get?_base {args : List KernelArgument} (placed : Placed args)
    {arg : KernelArgument} (inside : arg ∈ args) {base : Text} {params : KernelParams}
    (stored : storeArguments base args = some params) :
    params.offsetToContent.get? base = some (params.table base) := by
  have loaded := placed.loaded stored
  have tiled := placed.tiled inside
  have first : (⟨arg, arg.offset⟩ : Element) ∈ elements args := by
    refine List.mem_flatMap.mpr ⟨arg, inside, List.mem_map.mpr ⟨arg.offset, ?_, rfl⟩⟩
    obtain ⟨count, size⟩ := tiled.whole
    have positive := tiled.scalar.pos
    have some : 0 < count := (mul_pos_iff_of_pos_left positive).mp (size ▸ tiled.positive)
    rw [tiled.offsets, size, Int.mul_ediv_cancel_left _ (Int.ne_of_gt positive)]
    exact List.mem_map.mpr ⟨0, List.mem_range.mpr (by omega), by simp⟩
  obtain ⟨start, listed, multiple⟩ : ∃ element ∈ elements args, element.offset % 4 = 0 := by
    by_cases small : arg.basicSize < 4
    · obtain ⟨start, listed, offset⟩ := loaded.first _ first (tiled.packs small)
      exact ⟨start, listed, by omega⟩
    · refine ⟨_, first, ?_⟩
      have aligned := placed.aligned arg inside
      rcases tiled.scalar with size | size | size | size <;> rw [size] at aligned small <;>
        dsimp only <;> omega
  have found := loaded.tables.found start listed multiple
  unfold KernelParams.table at found ⊢
  cases table : params.offsetToContent.get? base with
  | some table => rfl
  | none =>
      rw [table] at found
      simp at found

theorem SLoad.toFillNode_eq {load : SLoad} {params : KernelParams} {state : State}
    {pointer : Register} (isPointer : pointer.content.type = .argumentsPointer)
    (base : state.get? load.fromRegister = some pointer)
    (table : params.offsetToContent.get? load.base = some (params.table load.base)) :
    load.toFillNode params state = some (uploadFrom (params.table load.base) none
      (load.offsetAt pointer) load.sdata state) := by
  rw [SLoad.toFillNode, base]
  dsimp only
  rw [if_pos isPointer, uploadKernelParam, table]
  rfl

/-- The dwords of the load all belong to arguments, from the start of a scalar on, or none does. -/
def Walks (args : List KernelArgument) (offset : Int) (count : Nat) : Prop :=
  ¬HighHalf (elements args) offset ∧
      (∀ index : Nat, index < count → Covered (elements args) (offset + 4 * index)) ∨
    ∀ index : Nat, index < count → ¬Covered (elements args) (offset + 4 * index)

theorem covered_of_highHalf {elements : List Element} {dword : Int}
    (high : HighHalf elements dword) : Covered elements dword := by
  obtain ⟨element, inside, eight, rfl⟩ := high
  exact ⟨element, inside, by omega, by unfold Element.stop; omega⟩

theorem Loaded.absent_of_highHalf {elements : List Element} {table : PyDict Int RegisterContent}
    (loaded : Loaded elements table) {dword : Int} (high : HighHalf elements dword) :
    ∀ element ∈ elements, element.offset ≠ dword := by
  rintro element inside rfl
  obtain ⟨other, listed, eight, behind⟩ := high
  have positive := (loaded.grid.scalar element inside).pos
  have same := loaded.grid.eq_of_overlap inside listed (by unfold Element.stop; omega)
    (by unfold Element.stop; omega)
  rw [same] at behind
  omega

theorem Loaded.absent_of_uncovered {elements : List Element} {table : PyDict Int RegisterContent}
    (loaded : Loaded elements table) {dword : Int} (uncovered : ¬Covered elements dword) :
    ∀ element ∈ elements, element.offset ≠ dword := by
  rintro element inside rfl
  have positive := (loaded.grid.scalar element inside).pos
  exact uncovered ⟨element, inside, by omega, by unfold Element.stop; omega⟩

/-- If the load does what it has to in the state with nothing but the pointer, it walks. -/
theorem Loaded.walks {args : List KernelArgument} {table : PyDict Int RegisterContent}
    (loaded : Loaded (elements args) table) {load : SLoad} {pointer : Register}
    (isPointer : pointer.content.type = .argumentsPointer) (names : Destinations load.sdata)
    (nonempty : load.sdata ≠ []) {offset : Int} (multiple : 4 ∣ offset)
    (received : ∀ (index : Nat) (inside : index < load.sdata.length),
      Received (elements args) (offset + 4 * index)
        ((pointerState load pointer).get? load.sdata[index])
        ((uploadFrom table none offset load.sdata (pointerState load pointer)).get?
          load.sdata[index])) :
    Walks args offset load.sdata.length := by
  have first := List.length_pos_iff.mpr nonempty
  by_cases high : HighHalf (elements args) offset
  · rw [loaded.uploadFrom_nothing _ _ (loaded.absent_of_highHalf high)] at received
    exact absurd ((received 0 first).covered (by simpa using covered_of_highHalf high))
      (not_holds_pointerState isPointer _ _)
  by_cases start : Covered (elements args) offset
  · refine .inl ⟨high, fun index inside => ?_⟩
    by_contra uncovered
    obtain ⟨place, inside, uncovered, register, found, element, -, same⟩ :=
      loaded.uploadFrom_uncovered none offset load.sdata (pointerState load pointer) multiple names
        (by rintro content ⟨⟩) (fun _ => start) high inside uncovered
    rw [(received place inside).uncovered uncovered] at found
    rw [eq_pointer found] at same
    exact element.content_ne isPointer same
  · refine .inr fun index inside covered => ?_
    rw [loaded.uploadFrom_nothing _ _ (loaded.absent_of_uncovered start)] at received
    exact absurd ((received index inside).covered covered) (not_holds_pointerState isPointer _ _)

theorem Loaded.received {args : List KernelArgument} {table : PyDict Int RegisterContent}
    (loaded : Loaded (elements args) table) {offset : Int} (multiple : 4 ∣ offset)
    {dests : List Text} (names : Destinations dests) (nonempty : dests ≠ [])
    (walks : Walks args offset dests.length) (state : State) (index : Nat)
    (inside : index < dests.length) :
    Received (elements args) (offset + 4 * index) (state.get? dests[index])
      ((uploadFrom table none offset dests state).get? dests[index]) := by
  rcases walks with ⟨low, covered⟩ | uncovered
  · constructor
    · rintro -
      exact loaded.uploadFrom_covered none offset dests state multiple names covered
        (fun _ => low) index inside
    · rintro absent
      exact absurd (covered index inside) absent
  · have start := uncovered 0 (List.length_pos_iff.mpr nonempty)
    rw [loaded.uploadFrom_nothing dests state
      (loaded.absent_of_uncovered (by simpa using start))]
    constructor
    · rintro covered
      exact absurd covered (uncovered index inside)
    · rintro -
      rfl

/-- What a load that does what it has to says of its arguments. -/
theorem Placed.walks {args : List KernelArgument} (placed : Placed args)
    {arg : KernelArgument} (inside : arg ∈ args) {load : SLoad} {pointer : Register}
    (isPointer : pointer.content.type = .argumentsPointer) (names : Destinations load.sdata)
    (nonempty : load.sdata ≠ []) (multiple : 4 ∣ load.offsetAt pointer)
    (uploads : Uploads args load pointer) :
    Started [] (elements args) ∧ Walks args (load.offsetAt pointer) load.sdata.length := by
  obtain ⟨params, stored, received⟩ := uploads
  have base : (pointerState load pointer).get? load.fromRegister = some pointer :=
    PyDict.get?_set_self ..
  obtain ⟨after, run, received⟩ := received (pointerState load pointer) base
  rw [SLoad.toFillNode_eq isPointer base (placed.get?_base inside stored)] at run
  cases run
  exact ⟨(placed.tables load.base).1.mp (by rw [stored]; rfl),
    (placed.loaded stored).walks isPointer names nonempty multiple received⟩

instance (element : Element) (dword : Int) : Decidable (element.covers dword) :=
  inferInstanceAs (Decidable (_ ∧ _))

instance (elements : List Element) (dword : Int) : Decidable (Covered elements dword) :=
  inferInstanceAs (Decidable (∃ element ∈ elements, element.covers dword))

instance (elements : List Element) (dword : Int) : Decidable (HighHalf elements dword) :=
  inferInstanceAs (Decidable (∃ element ∈ elements, element.size = 8 ∧ element.offset + 4 = dword))

instance decidableStarted :
    (before elements : List Element) → Decidable (Started before elements)
  | _, [] => .isTrue trivial
  | before, element :: rest =>
      have := decidableStarted (before ++ [element]) rest
      inferInstanceAs (Decidable (_ ∧ _))

instance (args : List KernelArgument) (offset : Int) (count : Nat) :
    Decidable (Walks args offset count) :=
  inferInstanceAs (Decidable (_ ∨ _))

/-- `int a, long b`. -/
def intAndLong : List KernelArgument :=
  [⟨"int".toList, "a".toList, 0, 4, false, false⟩, ⟨"long".toList, "b".toList, 8, 8, false, false⟩]

/-- `s_load_dwordx2 s[0:1], s[6:7], offset`. -/
def loadPair (offset : Int) : SLoad :=
  ⟨["s0".toList, "s1".toList], "s[6:7]".toList, "s6".toList, offset⟩

def argumentsPointer : Register :=
  ⟨.lowPart, ⟨"0".toList, .argumentsPointer, 4, []⟩⟩

theorem intAndLong_placed : Placed intAndLong := by
  constructor <;> decide

theorem loadPair_destinations : Destinations ["s0".toList, "s1".toList] := by
  constructor <;> decide

end OpenCLDecompiler.Arguments
