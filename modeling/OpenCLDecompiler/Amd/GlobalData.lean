import OpenCLDecompiler.Amd.Isolation
import OpenCLDecompiler.Library.PyNumbers
import OpenCLDecompiler.Library.Text
import OpenCLDecompiler.Ptx.Parser

/-!
# Global data

`process_global_data` cuts the bytes of the global data at the offsets that the instructions
name, one offset for each text, and `_parse_amd_operand` looks up the array of an operand.
-/

namespace OpenCLDecompiler.Amd.GlobalData

open Library
open OpenCLDecompiler.Ptx.Parser (isBlank)

abbrev Text := List Char

/-! ## References -/

def gdataWord : Text := ['.', 'g', 'd', 'a', 't', 'a']

/-- The offset behind `.gdata`, which is 0 without a number. -/
def offsetBehind : Text → Nat
  | '+' :: rest => (PyNumbers.readNat 10 (rest.takeWhile Char.isDigit)).getD 0
  | _ => 0

/-- `re.search` for a reference, with its offset. -/
def searchGdata : Text → Option Nat
  | [] => none
  | c :: rest =>
      if gdataWord.isPrefixOf (c :: rest) then some (offsetBehind ((c :: rest).drop gdataWord.length))
      else searchGdata rest

/-- `get_gdata_offset`. -/
def getGdataOffset (instruction : Text) : Nat := (searchGdata instruction).getD 0

/-- The offsets of all references in a text. -/
def references : Text → List Nat
  | [] => []
  | c :: rest =>
      if gdataWord.isPrefixOf (c :: rest) then
        offsetBehind ((c :: rest).drop gdataWord.length) :: references rest
      else references rest

/-! ## Arrays -/

/-- The sorted offsets of `process_global_data`. -/
def offsets (texts : List Text) : List Nat :=
  sortedSet ((texts.filter fun text => decide (gdataWord <:+: text)).map getGdataOffset)

/-- `process_global_data`: the arrays of `kernel.global_memory`. -/
def processGlobalData (texts : List Text) (bytes : List String) : List (GdataName × List String) :=
  slices bytes (offsets texts)

/-- The dictionary that `process_global_data` returns. -/
def offsetToName (texts : List Text) (offset : Nat) : Option GdataName :=
  ((offsets texts).find? (· = offset)).map GdataName.mk

/-- The array that `_parse_amd_operand` makes of an operand. -/
def parseAmdOperand (texts : List Text) (rawOperand : Text) : Option GdataName :=
  let operand := rawOperand.rdropWhile (· = ',')
  if gdataWord <:+: operand then
    some ((offsetToName texts (getGdataOffset operand)).getD ⟨getGdataOffset operand⟩)
  else none

/-- The operands that `_parse_amd_instruction_line` parses; behind `m0,` there are none. -/
def parsedOperands (rawLine : Text) : List Text :=
  match Text.words isBlank (Text.strip isBlank rawLine) with
  | [] => []
  | opcode :: operands =>
      let last := operands.getLastD opcode
      let operands :=
        if "ds".toList <:+: opcode ∧ ¬"offset".toList <:+: last then
          operands ++ ["offset:0".toList]
        else operands
      if operands.head? = some "m0,".toList then [] else operands

/-! ## What the arrays are for -/

/-- Texts of instructions, and data that are long enough for their references. -/
structure Input where
  texts : List Text
  bytes : List String
  long : ∀ text ∈ texts, ∀ offset ∈ references text, offset ≤ bytes.length

namespace Input

variable (input : Input)

def memory : List (GdataName × List String) := processGlobalData input.texts input.bytes

/-- The offsets that are referred to. -/
def referenced : List Nat := input.texts.flatMap references

/-- The arrays are parts of the data, one behind the other, and have all bytes from the first on. -/
structure Splits : Prop where
  part : ∀ array ∈ input.memory,
    array.2 = slice input.bytes array.1.offset (array.1.offset + array.2.length)
  ordered : input.memory.Pairwise fun first second =>
    first.1.offset < second.1.offset ∧ first.1.offset + first.2.length ≤ second.1.offset
  whole : ∀ least ∈ input.referenced, (∀ offset ∈ input.referenced, least ≤ offset) →
    input.memory.flatMap Prod.snd = input.bytes.drop least

/-- A reference stands for the array that starts at its offset. -/
structure Resolves : Prop where
  array : ∀ offset ∈ input.referenced, ∃ content, (⟨offset⟩, content) ∈ input.memory
  operand : ∀ text ∈ input.texts, ∀ operand ∈ parsedOperands text,
    ∀ offset ∈ references operand, parseAmdOperand input.texts operand = some ⟨offset⟩

/-- Each offset is the first one in some text, and an operand has no second one. -/
def FirstOnly : Prop :=
  (∀ offset ∈ input.referenced, ∃ text ∈ input.texts, searchGdata text = some offset) ∧
    ∀ text ∈ input.texts, ∀ operand ∈ parsedOperands text, ∀ offset ∈ references operand,
      searchGdata operand = some offset

end Input

/-! ## Searching -/

theorem searchGdata_eq (text : Text) : searchGdata text = (references text).head? := by
  induction text with
  | nil => rfl
  | cons c rest ih =>
      unfold searchGdata references
      split
      · rfl
      · exact ih

theorem isInfix_gdataWord_iff (text : Text) : gdataWord <:+: text ↔ references text ≠ [] := by
  induction text with
  | nil => simp [references, gdataWord]
  | cons c rest ih =>
      rw [List.infix_cons_iff, ih, references]
      split
      · rename_i found
        exact iff_of_true (.inl (List.isPrefixOf_iff_prefix.mp found)) (List.cons_ne_nil _ _)
      · rename_i missing
        rw [or_iff_right fun found => missing (List.isPrefixOf_iff_prefix.mpr found)]

/-- The offsets of the arrays are the first offsets of the texts. -/
theorem mem_offsets (texts : List Text) (offset : Nat) :
    offset ∈ offsets texts ↔ ∃ text ∈ texts, searchGdata text = some offset := by
  rw [offsets, mem_sortedSet, List.mem_map]
  constructor
  · rintro ⟨text, member, rfl⟩
    obtain ⟨inside, found⟩ := List.mem_filter.mp member
    have some' := (isInfix_gdataWord_iff text).mp (of_decide_eq_true found)
    refine ⟨text, inside, ?_⟩
    rw [getGdataOffset, searchGdata_eq]
    obtain ⟨first, rest, same⟩ := List.exists_cons_of_ne_nil some'
    rw [same]
    rfl
  · rintro ⟨text, inside, found⟩
    refine ⟨text, List.mem_filter.mpr ⟨inside, decide_eq_true ?_⟩, by rw [getGdataOffset, found]; rfl⟩
    rw [isInfix_gdataWord_iff]
    intro none
    rw [searchGdata_eq, none] at found
    cases found

theorem offsetToName_getD (texts : List Text) (offset : Nat) :
    (offsetToName texts offset).getD ⟨offset⟩ = ⟨offset⟩ := by
  unfold offsetToName
  cases found : (offsets texts).find? (· = offset) with
  | none => rfl
  | some place =>
      have same : place = offset := by simpa using List.find?_some found
      rw [same]
      rfl

/-! ## Commas behind an operand -/

section Commas

variable {commas : Text} (only : ∀ c ∈ commas, c = ',')
include only

theorem offsetBehind_append (text : Text) : offsetBehind (text ++ commas) = offsetBehind text := by
  have noDigits : commas.takeWhile Char.isDigit = [] := by
    rw [List.takeWhile_eq_nil_iff]
    intro short
    rw [only _ (List.get_mem commas ⟨0, short⟩)]
    exact Bool.false_ne_true
  unfold offsetBehind
  cases text with
  | nil =>
      cases commas with
      | nil => rfl
      | cons c commas =>
          rw [only c List.mem_cons_self]
          rfl
  | cons c rest =>
      by_cases plus : c = '+'
      · subst plus
        have digits : (rest ++ commas).takeWhile Char.isDigit = rest.takeWhile Char.isDigit := by
          rw [List.takeWhile_append, noDigits, List.append_nil]
          split
          · rename_i whole
            exact (List.takeWhile_prefix _).eq_of_length whole |>.symm
          · rfl
        change (PyNumbers.readNat 10 ((rest ++ commas).takeWhile Char.isDigit)).getD 0 =
          (PyNumbers.readNat 10 (rest.takeWhile Char.isDigit)).getD 0
        rw [digits]
      · rw [List.cons_append]
        split
        · rename_i same
          exact absurd (List.cons.inj same).1 plus
        · split
          · rename_i same
            exact absurd (List.cons.inj same).1 plus
          · rfl

/-- A reference does not end with a comma. -/
theorem prefix_append_iff (text : Text) : gdataWord <+: text ++ commas ↔ gdataWord <+: text := by
  refine ⟨fun found => ?_, fun found => found.trans (List.prefix_append _ _)⟩
  rcases List.prefix_or_prefix_of_prefix found (List.prefix_append text commas) with
    inside | ⟨rest, same⟩
  · exact inside
  · rw [← same, List.prefix_append_right_inj] at found
    cases rest with
    | nil =>
        rw [List.append_nil] at same
        rw [same]
    | cons c rest =>
        have comma : c = ',' := only c (found.subset List.mem_cons_self)
        have inside : ',' ∈ gdataWord := by
          rw [← same, comma]
          exact List.mem_append_right _ List.mem_cons_self
        exact absurd inside (by decide)

theorem references_append (text : Text) : references (text ++ commas) = references text := by
  induction text with
  | nil =>
      have none : ¬gdataWord <:+: commas := by
        intro found
        have point : '.' ∈ commas := found.subset List.mem_cons_self
        exact absurd (only _ point) (by decide)
      exact not_not.mp fun some' => none ((isInfix_gdataWord_iff commas).mpr some')
  | cons c rest ih =>
      have same : gdataWord.isPrefixOf (c :: (rest ++ commas)) = gdataWord.isPrefixOf (c :: rest) := by
        rw [Bool.eq_iff_iff, List.isPrefixOf_iff_prefix, List.isPrefixOf_iff_prefix]
        exact prefix_append_iff only (c :: rest)
      rw [List.cons_append, references, references, ih, same]
      split
      · rename_i found
        have long := (List.isPrefixOf_iff_prefix.mp found).length_le
        rw [← List.cons_append, List.drop_append_of_le_length long, offsetBehind_append only]
      · rfl

end Commas

/-- `rstrip` leaves the references of an operand alone. -/
theorem references_rstrip (operand : Text) :
    references (operand.rdropWhile (· = ',')) = references operand := by
  have only : ∀ c ∈ operand.rtakeWhile (· = ','), c = ',' :=
    fun c member => by simpa using List.mem_rtakeWhile_imp member
  rw [← references_append only, List.rdropWhile_append_rtakeWhile]

/-! ## Slices -/

section Slices

variable {bytes : List String}

theorem length_slice {first last : Nat} (inside : last ≤ bytes.length) :
    (slice bytes first last).length = last - first := by
  rw [slice, List.length_take, List.length_drop]
  omega

theorem slice_append_drop {first last : Nat} (ordered : first ≤ last) :
    slice bytes first last ++ bytes.drop last = bytes.drop first := by
  have rest : bytes.drop last = (bytes.drop first).drop (last - first) := by
    rw [List.drop_drop, Nat.add_sub_of_le ordered]
  rw [slice, rest, List.take_append_drop]

/-- The arrays one behind the other are the data from the first offset on. -/
theorem flatMap_slices {offset : Nat} {rest : List Nat}
    (sorted : (offset :: rest).Pairwise (· < ·)) :
    (slices bytes (offset :: rest)).flatMap Prod.snd = bytes.drop offset := by
  induction rest generalizing offset with
  | nil =>
      rw [slices, List.flatMap_singleton, slice, List.take_of_length_le]
      rw [List.length_drop]
  | cons next rest ih =>
      obtain ⟨below, sorted⟩ := List.pairwise_cons.mp sorted
      rw [slices, List.flatMap_cons, ih sorted]
      exact slice_append_drop (below next List.mem_cons_self).le

theorem offset_mem_of_slices {offsets : List Nat} {array : GdataName × List String}
    (member : array ∈ slices bytes offsets) : array.1.offset ∈ offsets := by
  have named := List.mem_map_of_mem (f := Prod.fst) member
  rw [slices_names] at named
  obtain ⟨offset, inside, same⟩ := List.mem_map.mp named
  rw [← same]
  exact inside

/-- An array is a part of the data, and ends in front of the offsets behind it. -/
theorem slices_sound {offsets : List Nat} (sorted : offsets.Pairwise (· < ·))
    (long : ∀ offset ∈ offsets, offset ≤ bytes.length) :
    (∀ array ∈ slices bytes offsets,
      array.2 = slice bytes array.1.offset (array.1.offset + array.2.length)) ∧
    (slices bytes offsets).Pairwise fun first second =>
      first.1.offset < second.1.offset ∧
        first.1.offset + first.2.length ≤ second.1.offset := by
  induction offsets with
  | nil => exact ⟨fun _ member => absurd member List.not_mem_nil, List.Pairwise.nil⟩
  | cons offset rest ih =>
      obtain ⟨below, tail⟩ := List.pairwise_cons.mp sorted
      obtain ⟨here, behind⟩ := List.forall_mem_cons.mp long
      obtain ⟨parts, ordered⟩ := ih tail behind
      cases rest with
      | nil =>
          refine ⟨fun array member => ?_, List.pairwise_singleton _ _⟩
          obtain rfl := List.mem_singleton.mp member
          rw [length_slice le_rfl, Nat.add_sub_of_le here]
      | cons next rest =>
          have less : offset < next := below next List.mem_cons_self
          have inside : next ≤ bytes.length := behind next List.mem_cons_self
          constructor
          · refine List.forall_mem_cons.mpr ⟨?_, parts⟩
            dsimp only
            rw [length_slice inside, Nat.add_sub_of_le less.le]
          · refine List.pairwise_cons.mpr ⟨fun later member => ?_, ordered⟩
            have place := offset_mem_of_slices member
            have after : next ≤ later.1.offset := by
              rcases List.mem_cons.mp place with same | more
              · exact same.ge
              · exact ((List.pairwise_cons.mp tail).1 _ more).le
            rw [length_slice inside]
            dsimp only
            omega

end Slices

/-! ## Arrays and references -/

theorem mem_names_slices {bytes : List String} {offsets : List Nat} {offset : Nat} :
    (∃ content, ((⟨offset⟩ : GdataName), content) ∈ slices bytes offsets) ↔ offset ∈ offsets := by
  constructor
  · rintro ⟨content, member⟩
    exact offset_mem_of_slices member
  · intro inside
    have named : (⟨offset⟩ : GdataName) ∈ (slices bytes offsets).map Prod.fst := by
      rw [slices_names]
      exact List.mem_map_of_mem inside
    obtain ⟨⟨name, content⟩, member, rfl⟩ := List.mem_map.mp named
    exact ⟨content, member⟩

/-- An operand stands for the array at the first offset in it. -/
theorem parseAmdOperand_eq (texts : List Text) (operand : Text) :
    parseAmdOperand texts operand = (searchGdata operand).map GdataName.mk := by
  have same : searchGdata (operand.rdropWhile (· = ',')) = searchGdata operand := by
    rw [searchGdata_eq, searchGdata_eq, references_rstrip]
  have inside : gdataWord <:+: operand.rdropWhile (· = ',') ↔ references operand ≠ [] := by
    rw [isInfix_gdataWord_iff, references_rstrip]
  unfold parseAmdOperand
  dsimp only
  rw [offsetToName_getD, getGdataOffset, same, searchGdata_eq]
  cases none : references operand with
  | nil => exact if_neg fun found => inside.mp found none
  | cons first rest => exact if_pos (inside.mpr (none ▸ List.cons_ne_nil first rest))

namespace Input

variable (input : Input)

theorem offsets_le : ∀ offset ∈ offsets input.texts, offset ≤ input.bytes.length := by
  intro offset member
  obtain ⟨text, inside, found⟩ := (mem_offsets input.texts offset).mp member
  rw [searchGdata_eq] at found
  exact input.long text inside offset (List.mem_of_head? found)

/-- The offsets of the arrays are referred to. -/
theorem mem_referenced {offset : Nat} (member : offset ∈ offsets input.texts) :
    offset ∈ input.referenced := by
  obtain ⟨text, inside, found⟩ := (mem_offsets input.texts offset).mp member
  rw [searchGdata_eq] at found
  exact List.mem_flatMap.mpr ⟨text, inside, List.mem_of_head? found⟩

/-- If every offset that is referred to has an array, the data are split among the arrays. -/
theorem splits (all : ∀ offset ∈ input.referenced, offset ∈ offsets input.texts) :
    input.Splits := by
  obtain ⟨part, ordered⟩ := slices_sound (sortedSet_strict _) input.offsets_le
  refine ⟨part, ordered, fun least member lowest => ?_⟩
  have inside := all least member
  have sorted : (offsets input.texts).Pairwise (· < ·) := sortedSet_strict _
  have below : ∀ offset ∈ offsets input.texts, least ≤ offset :=
    fun offset member => lowest offset (input.mem_referenced member)
  rw [memory, processGlobalData]
  cases same : offsets input.texts with
  | nil =>
      rw [same] at inside
      cases inside
  | cons first rest =>
      rw [same] at inside sorted below
      have equal : least = first := by
        rcases List.mem_cons.mp inside with here | behind
        · exact here
        · have less := (List.pairwise_cons.mp sorted).1 least behind
          exact absurd (below first List.mem_cons_self) (Nat.not_le.mpr less)
      rw [equal]
      exact flatMap_slices sorted

theorem resolves_iff : input.Resolves ↔ input.FirstOnly := by
  have arrays (offset : Nat) : (∃ content, ((⟨offset⟩ : GdataName), content) ∈ input.memory) ↔
      ∃ text ∈ input.texts, searchGdata text = some offset :=
    mem_names_slices.trans (mem_offsets input.texts offset)
  have operands (operand : Text) (offset : Nat) :
      parseAmdOperand input.texts operand = some ⟨offset⟩ ↔ searchGdata operand = some offset := by
    rw [parseAmdOperand_eq]
    cases searchGdata operand with
    | none => simp
    | some first => simp
  constructor
  · rintro ⟨array, operand⟩
    exact ⟨fun offset member => (arrays offset).mp (array offset member),
      fun text inside word parsed offset member =>
        (operands word offset).mp (operand text inside word parsed offset member)⟩
  · rintro ⟨array, operand⟩
    exact ⟨fun offset member => (arrays offset).mpr (array offset member),
      fun text inside word parsed offset member =>
        (operands word offset).mpr (operand text inside word parsed offset member)⟩

/--
The data are split and the references are resolved if no offset is only the second one in its
texts or in an operand.
-/
theorem splits_and_resolves_iff : input.Splits ∧ input.Resolves ↔ input.FirstOnly := by
  rw [input.resolves_iff]
  refine ⟨And.right, fun first => ⟨input.splits fun offset member => ?_, first⟩⟩
  exact (mem_offsets input.texts offset).mpr (first.1 offset member)

end Input

/-- `v_add_u32 v0, .gdata+4, .gdata+8`. -/
def twoReferences : Input where
  texts := ["v_add_u32 v0, .gdata+4, .gdata+8".toList]
  bytes := List.replicate 12 "0x00"
  long := by decide

/-- There is no array at the second offset. -/
theorem twoReferences_unresolved : ¬(twoReferences.Splits ∧ twoReferences.Resolves) := by
  rintro ⟨-, resolves⟩
  have found := (twoReferences.resolves_iff.mp resolves).1 8 (by decide)
  exact absurd found (by decide)

end OpenCLDecompiler.Amd.GlobalData
