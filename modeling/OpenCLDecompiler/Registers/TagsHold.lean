import OpenCLDecompiler.Registers.Tags

/-!
# Tags that hold

A tag of a work-item quantity holds when the register has that quantity.  The
handlers keep the tags true where every instruction meets the condition below.
-/

namespace OpenCLDecompiler.Registers

open Library

/-- The word of a quantity that a register of this integrity has. -/
def Integrity.index : Integrity → Nat
  | .highPart => 1
  | _ => 0

/-- A register with this content has the quantity the content names, if it names one. -/
def ContentHolds (item : WorkItem) (words : Words) : Reg → Content → Prop
  | .word reg, content => ∀ quantity, item.quantity content.type = some quantity →
      words reg = wordOf quantity content.integrity.index
  | .composite _ regs, content => ∀ quantity, item.quantity content.type = some quantity →
      ∀ index reg, regs[index]? = some reg → words reg = wordOf quantity index

/-- Every tag in the state holds. -/
def TagsHold (item : WorkItem) (words : Words) (st : NodeState) : Prop :=
  ∀ reg content, st.get? reg = some content → ContentHolds item words reg content

/-! ## Conditions -/

def Instr.dest : Instr → Reg
  | .initReg32 dest _ | .mov32 dest _ | .lshl32 dest _ _ | .lshr32 dest _ _ | .mulLo dest _ _
  | .mulHi dest _ _ | .add32 dest _ _ => .word dest
  | .initReg64 dest _ | .mov64 dest _ | .lshl64 dest _ _ | .lshr64 dest _ _
  | .add64 dest _ _ => dest.whole

/-- The entries the handler of an instruction writes. -/
def Instr.written : Instr → List Reg
  | .initReg32 dest _ | .mov32 dest _ | .lshl32 dest _ _ | .lshr32 dest _ _ | .mulLo dest _ _
  | .mulHi dest _ _ | .add32 dest _ _ => [.word dest]
  | .initReg64 dest _ => [dest.whole]
  | .lshl64 dest _ _ => [.word dest.lo, .word dest.hi]
  | .mov64 dest _ => [.word dest.lo, .word dest.hi, dest.whole]
  | .lshr64 dest _ _ | .add64 dest _ _ => [dest.whole, .word dest.lo, .word dest.hi]

/-- An entry that shares words with the destination and is not written has no quantity. -/
def NoStaleTag (item : WorkItem) (st : NodeState) (instr : Instr) : Prop :=
  ∀ reg content, st.get? reg = some content → reg ∉ instr.written →
    (∃ word ∈ reg.rang, word ∈ instr.dest.rang) → item.quantity content.type = none

/-- The tag the handler gives follows from the tags it reads. -/
def TagFits (item : WorkItem) (words : Words) (st : NodeState) : Instr → Prop
  | .mov32 _ (.reg src) => ∀ content, st.get? (.word src) = some content →
      item.quantity content.type ≠ none → content.integrity ≠ .highPart
  | .lshl32 _ amount (.reg src) => ∀ content quantity shifted,
      st.get? (.word src) = some content → content.val ≠ .text "0" →
      item.quantity content.type = some quantity →
      item.quantity (lshlType content.type) = some shifted →
      content.integrity ≠ .highPart ∧ wordOf (quantity * 2 ^ amount) 0 = wordOf shifted 0
  | .lshl64 _ amount (.reg src) => ∀ content quantity, st.get? (.word src.lo) = some content →
      item.quantity content.type = some quantity →
      wordOf (words.number64 src * 2 ^ amount) 0 = wordOf quantity 0 ∧
        wordOf (words.number64 src * 2 ^ amount) 1 = wordOf quantity 1
  | .lshr32 _ amount (.reg src) => ∀ content quantity, st.get? (.word src) = some content →
      content.val ≠ .text "0" → item.quantity content.type = some quantity →
      content.integrity ≠ .highPart ∧
        wordOf (quantity % 2 ^ 32 / 2 ^ amount) 0 = wordOf quantity 0
  | .lshr64 _ _ (.reg src) => ∀ content, st.get? (.word src.lo) = some content →
      content.val ≠ .text "0" → item.quantity content.type = none
  | .mulLo _ (.reg src0) (.reg src1) => ∀ content0 content1,
      st.get? (.word src0) = some content0 → st.get? (.word src1) = some content1 →
      mulType content0.type (some content1.type) ≠ .unknown →
      content0.integrity ≠ .highPart ∧ content1.integrity ≠ .highPart
  | .mulHi _ (.reg src0) (.reg src1) => ∀ content0 content1,
      st.get? (.word src0) = some content0 → st.get? (.word src1) = some content1 →
      mulType content0.type (some content1.type) = .unknown
  | .add32 _ (.reg src0) (.reg src1) => ∀ content0 content1,
      st.get? (.word src0) = some content0 → st.get? (.word src1) = some content1 →
      addRow content0.type content1.type ≠ none →
      content0.integrity ≠ .highPart ∧ content1.integrity ≠ .highPart
  | .add64 _ (.reg src0) (.reg src1) => ∀ content0 content1,
      st.get? (.word src0.lo) = some content0 → st.get? (.word src1.lo) = some content1 →
      addRow content0.type content1.type = none
  | _ => True

/-! ## Entries and words that stay -/

theorem get?_setAll {st : NodeState} {writes : Writes} {reg : Reg} {content : Content}
    (found : (st.setAll writes).get? reg = some content) :
    (reg, content) ∈ writes ∨ (reg ∉ writes.map Prod.fst ∧ st.get? reg = some content) := by
  induction writes generalizing st with
  | nil => exact .inr ⟨List.not_mem_nil, found⟩
  | cons write rest ih =>
      rcases ih found with later | ⟨absent, before⟩
      · exact .inl (List.mem_cons_of_mem write later)
      · rw [PyDict.get?_set] at before
        split at before
        · rename_i same
          cases before
          subst same
          exact .inl List.mem_cons_self
        · rename_i different
          refine .inr ⟨?_, before⟩
          rw [List.map_cons, List.mem_cons]
          exact fun either => either.elim different absent

/-- A content holds still where the words of its register stay. -/
theorem ContentHolds.of_eq {item : WorkItem} {words after : Words} {reg : Reg} {content : Content}
    (holds : ContentHolds item words reg content)
    (same : ∀ word ∈ reg.rang, after word = words word) : ContentHolds item after reg content := by
  cases reg with
  | word reg =>
      intro quantity named
      rw [same reg List.mem_cons_self]
      exact holds quantity named
  | composite name regs =>
      intro quantity named index reg inside
      rw [same reg (List.mem_of_getElem? inside)]
      exact holds quantity named index reg inside

theorem contentHolds_of_none {item : WorkItem} {words : Words} {reg : Reg} {content : Content}
    (none : item.quantity content.type = none) : ContentHolds item words reg content := by
  cases reg <;> simp [ContentHolds, none]

theorem execute_of_not_mem (item : WorkItem) (constant : String → Nat) (words : Words)
    (instr : Instr) {word : Reg32} (outside : word ∉ instr.dest.rang) :
    execute item constant words instr word = words word := by
  cases instr <;>
    simp_all [execute, Instr.dest, Reg.rang, Reg64.whole, Words.set32, Words.set64]

/-- New contents that hold and no stale tag: then all tags hold. -/
theorem tagsHold_setAll {item : WorkItem} {words after : Words} {st : NodeState} {instr : Instr}
    {writes : Writes} (hold : TagsHold item words st) (keys : writes.map Prod.fst = instr.written)
    (outside : ∀ word, word ∉ instr.dest.rang → after word = words word)
    (noStale : NoStaleTag item st instr)
    (new : ∀ write ∈ writes, ContentHolds item after write.1 write.2) :
    TagsHold item after (st.setAll writes) := by
  intro reg content found
  rcases get?_setAll found with written | ⟨kept, before⟩
  · exact new _ written
  · rw [keys] at kept
    by_cases shared : ∃ word ∈ reg.rang, word ∈ instr.dest.rang
    · exact contentHolds_of_none (noStale reg content before kept shared)
    · exact (hold reg content before).of_eq fun word inside =>
        outside word fun both => shared ⟨word, inside, both⟩

/-! ## What the handlers write -/

theorem snd_of_mem_setRegValueSave {dest : Reg} {content : Content} {write : Reg × Content}
    (inside : write ∈ setRegValueSave dest content) : write.2 = content := by
  cases dest with
  | word dest =>
      rw [List.mem_singleton.mp inside]
  | composite name regs =>
      rcases List.mem_cons.mp inside with rfl | part
      · rfl
      · obtain ⟨reg, -, rfl⟩ := List.mem_map.mp part
        rfl

theorem vLshrrev_eq_some {size : Option (Dim → Nat)} {st : NodeState} {dest : Reg} {amount : Nat}
    {src : Reg32} {writes : Writes} (filled : vLshrrev size st dest amount src = some writes) :
    ∃ content, st.get? (.word src) = some content ∧
      ((content.val = .text "0" ∧
          writes = setRegValueSave dest ⟨.text "0", .int32, .entire⟩) ∨
        (content.val ≠ .text "0" ∧
          ∃ val, writes = setRegValueSave dest ⟨val, content.type, .entire⟩)) := by
  obtain ⟨content, found, rest⟩ := Option.bind_eq_some_iff.mp filled
  refine ⟨content, found, ?_⟩
  split at rest
  · rename_i zero
    exact .inl ⟨zero, (Option.some.inj rest).symm⟩
  · rename_i notZero
    obtain ⟨val, -, same⟩ := Option.map_eq_some_iff.mp rest
    exact .inr ⟨notZero, val, same.symm⟩

/-- A product is tagged after its operands; the other results name nothing. -/
theorem vMulLo_eq_some {st : NodeState} {dest : Reg32} {src0 src1 : Operand Reg32}
    {writes : Writes} (filled : vMulLo st dest src0 src1 = some writes) :
    ∃ content, writes = [(.word dest, content)] ∧
      ((∀ item : WorkItem, item.quantity content.type = none) ∨
        ∃ content0 content1, contentOf st src0 = some content0 ∧
          contentOf st src1 = some content1 ∧
          content.type = mulType content0.type (some content1.type) ∧
          content.integrity = content0.integrity) := by
  unfold vMulLo at filled
  split at filled
  · exact ⟨_, (Option.some.inj filled).symm, .inl fun _ => rfl⟩
  · exact ⟨_, (Option.some.inj filled).symm, .inl fun _ => rfl⟩
  · split at filled
    · exact ⟨_, (Option.some.inj filled).symm, .inl fun _ => rfl⟩
    · cases filled
  · exact ⟨_, (Option.some.inj filled).symm, .inl fun _ => rfl⟩
  · rename_i val type integrity _ found0 _ _ _
    split at filled
    · refine ⟨_, (Option.some.inj filled).symm, ?_⟩
      cases same1 : contentOf st src1 with
      | none => exact .inl fun _ => by simp [mulType, WorkItem.quantity]
      | some content1 => exact .inr ⟨⟨val, type, integrity⟩, content1, found0, rfl, rfl, rfl⟩
    · cases filled
  · cases filled

/-- A sum of two registers is tagged by the row their types match; other sums name nothing. -/
theorem vAdd_eq_some {st : NodeState} {dest : Reg} {src0 src1 : Operand Reg} {writes : Writes}
    (filled : vAdd st dest src0 src1 = some writes) :
    ∃ content, writes = setRegValueSave dest content ∧
      ((∀ item : WorkItem, item.quantity content.type = none) ∨
        ∃ reg0 reg1 content0 content1 row, src0 = .reg reg0 ∧ src1 = .reg reg1 ∧
          startContent st reg0 = some content0 ∧ startContent st reg1 = some content1 ∧
          addRow content0.type content1.type = some row ∧
          content.type = row.type ∧ content.integrity = content1.integrity) := by
  unfold vAdd at filled
  split at filled
  · split at filled
    · rename_i reg0 reg1 _
      obtain ⟨content0, found0, rest⟩ := Option.bind_eq_some_iff.mp filled
      obtain ⟨content1, found1, rest⟩ := Option.bind_eq_some_iff.mp rest
      split at rest
      · rename_i row matched
        exact ⟨_, (Option.some.inj rest).symm,
          .inr ⟨reg0, reg1, content0, content1, row, rfl, rfl, found0, found1, matched, rfl, rfl⟩⟩
      · exact ⟨_, (Option.some.inj rest).symm, .inl fun _ => rfl⟩
    · obtain ⟨_, -, rest⟩ := Option.bind_eq_some_iff.mp filled
      obtain ⟨_, -, rest⟩ := Option.bind_eq_some_iff.mp rest
      exact ⟨_, (Option.some.inj rest).symm, .inl fun _ => rfl⟩
    · obtain ⟨_, -, rest⟩ := Option.map_eq_some_iff.mp filled
      exact ⟨_, rest.symm, .inl fun _ => rfl⟩
    · exact ⟨_, (Option.some.inj filled).symm, .inl fun _ => rfl⟩
  · cases filled

theorem map_fst_writes {size : Option (Dim → Nat)} {st : NodeState} {instr : Instr}
    {entries : Writes} (filled : writes size st instr = some entries) :
    entries.map Prod.fst = instr.written := by
  cases instr with
  | initReg32 dest value => exact Option.some.inj filled ▸ rfl
  | initReg64 dest value => exact Option.some.inj filled ▸ rfl
  | mov32 dest src =>
      obtain ⟨_, -, rfl⟩ := Option.map_eq_some_iff.mp filled
      rfl
  | mov64 dest src =>
      obtain ⟨_, -, rfl⟩ := Option.map_eq_some_iff.mp filled
      rfl
  | lshl32 dest amount src =>
      cases src with
      | reg src =>
          obtain ⟨content, -, rfl⟩ := Option.map_eq_some_iff.mp filled
          split <;> rfl
      | val text => cases filled
  | lshl64 dest amount src =>
      cases src with
      | reg src =>
          obtain ⟨_, -, rest⟩ := Option.bind_eq_some_iff.mp filled
          obtain ⟨_, -, rest⟩ := Option.bind_eq_some_iff.mp rest
          exact Option.some.inj rest ▸ rfl
      | val text => exact Option.some.inj filled ▸ rfl
  | lshr32 dest amount src =>
      cases src with
      | reg src =>
          obtain ⟨_, -, ⟨-, rfl⟩ | ⟨-, _, rfl⟩⟩ := vLshrrev_eq_some filled
          · rfl
          · rfl
      | val text => cases filled
  | lshr64 dest amount src =>
      cases src with
      | reg src =>
          obtain ⟨_, -, ⟨-, rfl⟩ | ⟨-, _, rfl⟩⟩ := vLshrrev_eq_some filled
          · rfl
          · rfl
      | val text => cases filled
  | mulLo dest src0 src1 =>
      obtain ⟨_, rfl, -⟩ := vMulLo_eq_some filled
      rfl
  | mulHi dest src0 src1 =>
      obtain ⟨_, rfl, -⟩ := vMulLo_eq_some filled
      rfl
  | add32 dest src0 src1 =>
      obtain ⟨_, rfl, -⟩ := vAdd_eq_some filled
      rfl
  | add64 dest src0 src1 =>
      obtain ⟨_, rfl, -⟩ := vAdd_eq_some filled
      rfl

/-! ## Tags of the results -/

/-- The type of a row names the sum of the quantities in each of its patterns. -/
theorem AddRow.quantity_of_mem (item : WorkItem) {row : AddRow} (inside : row ∈ addRows)
    {first second : RegisterType} (pattern : (first, second) ∈ row.patterns) :
    ∃ left right, item.quantity first = some left ∧ item.quantity second = some right ∧
      item.quantity row.type = some (left + right) := by
  have cases : (∃ dim, row = globalIdRow dim) ∨ (∃ dim, row = workItemRow dim) ∨
      ∃ dim, row = localSizeOffsetRow dim := by
    simp only [addRows, List.map_cons, List.map_nil, List.cons_append, List.nil_append,
      List.mem_cons, List.not_mem_nil, or_false] at inside
    rcases inside with rfl | rfl | rfl | rfl | rfl | rfl | rfl | rfl | rfl <;> simp
  rcases cases with ⟨dim, rfl⟩ | ⟨dim, rfl⟩ | ⟨dim, rfl⟩
  · simp only [globalIdRow, List.mem_cons, Prod.mk.injEq, List.not_mem_nil, or_false] at pattern
    rcases pattern with ⟨rfl, rfl⟩ | ⟨rfl, rfl⟩
    · exact ⟨_, _, rfl, rfl, rfl⟩
    · refine ⟨_, _, rfl, rfl, congrArg some ?_⟩
      rw [WorkItem.globalId]
      omega
  · simp only [workItemRow, List.mem_singleton, Prod.mk.injEq] at pattern
    obtain ⟨rfl, rfl⟩ := pattern
    exact ⟨_, _, rfl, rfl, rfl⟩
  · simp only [localSizeOffsetRow, List.mem_singleton, Prod.mk.injEq] at pattern
    obtain ⟨rfl, rfl⟩ := pattern
    exact ⟨_, _, rfl, rfl, rfl⟩

theorem quantity_of_addRow (item : WorkItem) {type0 type1 : RegisterType} {row : AddRow}
    (matched : addRow type0 type1 = some row) :
    ∃ left right, item.quantity type0 = some left ∧ item.quantity type1 = some right ∧
      item.quantity row.type = some (left + right) := by
  have inside := List.mem_of_find?_eq_some matched
  have fits := List.find?_some matched
  rw [checkTypePattern, Bool.or_eq_true, decide_eq_true_eq, decide_eq_true_eq] at fits
  rcases fits with straight | swapped
  · exact AddRow.quantity_of_mem item inside straight
  · obtain ⟨left, right, first, second, sum⟩ := AddRow.quantity_of_mem item inside swapped
    exact ⟨right, left, second, first, by rw [sum, Nat.add_comm]⟩

theorem types_of_mulType {type0 type1 : RegisterType}
    (tagged : mulType type0 (some type1) ≠ .unknown) :
    ∃ dim, type0 = .localSize dim ∧ type1 = .workGroupId dim := by
  unfold mulType at tagged
  split at tagged
  · rename_i dim other same
    split at tagged
    · rename_i equal
      exact ⟨dim, rfl, equal ▸ Option.some.inj same⟩
    · exact absurd rfl tagged
  · exact absurd rfl tagged

theorem quantity_of_mulType (item : WorkItem) {type0 type1 : RegisterType}
    (tagged : mulType type0 (some type1) ≠ .unknown) :
    ∃ left right, item.quantity type0 = some left ∧ item.quantity type1 = some right ∧
      item.quantity (mulType type0 (some type1)) = some (left * right) := by
  obtain ⟨dim, rfl, rfl⟩ := types_of_mulType tagged
  refine ⟨_, _, rfl, rfl, ?_⟩
  rw [mulType, if_pos rfl, Nat.mul_comm]
  rfl

theorem Integrity.index_of_ne {integrity : Integrity} (whole : integrity ≠ .highPart) :
    integrity.index = 0 := by
  cases integrity with
  | entire => rfl
  | lowPart => rfl
  | highPart => exact absurd rfl whole

section Results

variable {item : WorkItem} {words : Words} {st : NodeState}

/-- A tagged word that is no high part has the low word of the quantity. -/
theorem TagsHold.word_eq (hold : TagsHold item words st) {src : Reg32} {content : Content}
    {quantity : Nat} (found : st.get? (.word src) = some content)
    (named : item.quantity content.type = some quantity) (whole : content.integrity ≠ .highPart) :
    words src = wordOf quantity 0 := by
  have holds := hold (.word src) content found quantity named
  rwa [Integrity.index_of_ne whole] at holds

@[simp]
theorem Words.set32_self (dest : Reg32) (number : Nat) :
    words.set32 dest number dest = wordOf number 0 :=
  Function.update_self ..

@[simp]
theorem Words.set64_lo (dest : Reg64) (number : Nat) :
    words.set64 dest number dest.lo = wordOf number 0 := by
  rw [Words.set64, Function.update_of_ne dest.different, Function.update_self]

@[simp]
theorem Words.set64_hi (dest : Reg64) (number : Nat) :
    words.set64 dest number dest.hi = wordOf number 1 :=
  Function.update_self ..

/-- The words of a 64-bit register are the words of its number. -/
theorem Words.wordOf_number64 (reg : Reg64) :
    wordOf (words.number64 reg) 0 = words reg.lo ∧
      wordOf (words.number64 reg) 1 = words reg.hi := by
  have low : (words reg.lo).toNat < 2 ^ 32 := (words reg.lo).isLt
  have high : (words reg.hi).toNat < 2 ^ 32 := (words reg.hi).isLt
  constructor
  · apply BitVec.eq_of_toNat_eq
    rw [wordOf, BitVec.toNat_ofNat, Words.number64]
    omega
  · apply BitVec.eq_of_toNat_eq
    rw [wordOf, BitVec.toNat_ofNat, Words.number64]
    omega

/-- A whole 64-bit register with the two words of the quantity holds it. -/
theorem contentHolds_whole {reg : Reg64} {content : Content}
    (both : ∀ quantity, item.quantity content.type = some quantity →
      words reg.lo = wordOf quantity 0 ∧ words reg.hi = wordOf quantity 1) :
    ContentHolds item words reg.whole content := by
  rintro quantity named (_ | _ | index) word inside
  · exact Option.some.inj inside ▸ (both quantity named).1
  · exact Option.some.inj inside ▸ (both quantity named).2
  · cases inside

theorem TagsHold.whole_eq (hold : TagsHold item words st) {src : Reg64} {content : Content}
    {quantity : Nat} (found : st.get? src.whole = some content)
    (named : item.quantity content.type = some quantity) :
    words src.lo = wordOf quantity 0 ∧ words src.hi = wordOf quantity 1 := by
  have holds := hold src.whole content found quantity named
  exact ⟨holds 0 src.lo rfl, holds 1 src.hi rfl⟩

variable {size : Option (Dim → Nat)} {entries : Writes} {constant : String → Nat}

/-- The entries of an instruction hold after it. -/
def NewHold (item : WorkItem) (constant : String → Nat) (words : Words) (instr : Instr)
    (entries : Writes) : Prop :=
  ∀ write ∈ entries, ContentHolds item (execute item constant words instr) write.1 write.2

theorem quantity_initValue {value : InitValue} {quantity : Nat}
    (named : item.quantity value.type = some quantity) : value.number item = quantity := by
  cases value <;> cases named <;> rfl

theorem mov32_holds (hold : TagsHold item words st) {dest : Reg32} {src : Operand Reg32}
    (fits : TagFits item words st (.mov32 dest src))
    (filled : writes size st (.mov32 dest src) = some entries) :
    NewHold item constant words (.mov32 dest src) entries := by
  obtain ⟨⟨val, type⟩, read, rfl⟩ := Option.map_eq_some_iff.mp filled
  rintro write inside
  cases List.mem_singleton.mp inside
  cases src with
  | val text =>
      cases read
      exact contentHolds_of_none rfl
  | reg src =>
      obtain ⟨content, found, same⟩ := Option.map_eq_some_iff.mp read
      cases same
      intro quantity named
      have whole := fits content found (by simp [named])
      change words.set32 dest (words src).toNat dest = wordOf quantity 0
      rw [Words.set32_self, hold.word_eq found named whole, wordOf_eq_iff, toNat_wordOf_zero,
        Nat.mod_mod]

theorem mov64_holds (hold : TagsHold item words st) {dest : Reg64} {src : Operand Reg64}
    (filled : writes size st (.mov64 dest src) = some entries) :
    NewHold item constant words (.mov64 dest src) entries := by
  obtain ⟨⟨val, type⟩, read, rfl⟩ := Option.map_eq_some_iff.mp filled
  cases src with
  | val text =>
      cases read
      rintro write inside
      simp only [List.mem_cons, List.not_mem_nil, or_false] at inside
      rcases inside with rfl | rfl | rfl <;> exact contentHolds_of_none rfl
  | reg src =>
      obtain ⟨content, found, same⟩ := Option.map_eq_some_iff.mp read
      cases same
      have moved : ∀ quantity, item.quantity content.type = some quantity →
          execute item constant words (.mov64 dest (.reg src)) dest.lo = wordOf quantity 0 ∧
          execute item constant words (.mov64 dest (.reg src)) dest.hi = wordOf quantity 1 := by
        intro quantity named
        obtain ⟨low, high⟩ := hold.whole_eq found named
        obtain ⟨lowWord, highWord⟩ := words.wordOf_number64 src
        rw [← low, ← high, ← lowWord, ← highWord]
        exact ⟨Words.set64_lo .., Words.set64_hi ..⟩
      rintro write inside
      simp only [List.mem_cons, List.not_mem_nil, or_false] at inside
      rcases inside with rfl | rfl | rfl
      · exact fun quantity named => (moved quantity named).1
      · exact fun quantity named => (moved quantity named).2
      · exact contentHolds_whole moved

theorem quantity_of_lshlType {type : RegisterType} {shifted : Nat}
    (named : item.quantity (lshlType type) = some shifted) :
    ∃ quantity, item.quantity type = some quantity := by
  cases type <;> first | exact ⟨_, rfl⟩ | exact ⟨_, named⟩

theorem lshl32_holds (hold : TagsHold item words st) {dest : Reg32} {amount : Nat}
    {src : Operand Reg32} (fits : TagFits item words st (.lshl32 dest amount src))
    (filled : writes size st (.lshl32 dest amount src) = some entries) :
    NewHold item constant words (.lshl32 dest amount src) entries := by
  cases src with
  | val text => cases filled
  | reg src =>
      obtain ⟨content, found, rfl⟩ := Option.map_eq_some_iff.mp filled
      rintro write inside
      split at inside
      · cases List.mem_singleton.mp inside
        exact contentHolds_of_none rfl
      · rename_i notZero
        cases List.mem_singleton.mp inside
        intro shifted named
        obtain ⟨quantity, source⟩ := quantity_of_lshlType named
        obtain ⟨whole, product⟩ := fits content quantity shifted found notZero source named
        change words.set32 dest ((words src).toNat * 2 ^ amount) dest = wordOf shifted 0
        rw [Words.set32_self, hold.word_eq found source whole, wordOf_toNat_mul, product]

theorem lshl64_holds {dest : Reg64} {amount : Nat} {src : Operand Reg64}
    (fits : TagFits item words st (.lshl64 dest amount src))
    (filled : writes size st (.lshl64 dest amount src) = some entries) :
    NewHold item constant words (.lshl64 dest amount src) entries := by
  cases src with
  | val text =>
      cases filled
      rintro write inside
      simp only [List.mem_cons, List.not_mem_nil, or_false] at inside
      rcases inside with rfl | rfl <;> exact contentHolds_of_none rfl
  | reg src =>
      obtain ⟨low, found, rest⟩ := Option.bind_eq_some_iff.mp filled
      obtain ⟨_, -, rest⟩ := Option.bind_eq_some_iff.mp rest
      cases rest
      rintro write inside
      simp only [List.mem_cons, List.not_mem_nil, or_false] at inside
      rcases inside with rfl | rfl
      · intro quantity named
        exact (Words.set64_lo ..).trans (fits low quantity found named).1
      · intro quantity named
        exact (Words.set64_hi ..).trans (fits low quantity found named).2

theorem lshr32_holds (hold : TagsHold item words st) {dest : Reg32} {amount : Nat}
    {src : Operand Reg32} (fits : TagFits item words st (.lshr32 dest amount src))
    (filled : writes size st (.lshr32 dest amount src) = some entries) :
    NewHold item constant words (.lshr32 dest amount src) entries := by
  cases src with
  | val text => cases filled
  | reg src =>
      obtain ⟨content, found, ⟨-, rfl⟩ | ⟨notZero, val, rfl⟩⟩ := vLshrrev_eq_some filled
      · rintro write inside
        cases List.mem_singleton.mp inside
        exact contentHolds_of_none rfl
      · rintro write inside
        cases List.mem_singleton.mp inside
        intro quantity named
        obtain ⟨whole, quotient⟩ := fits content quantity found notZero named
        change words.set32 dest ((words src).toNat / 2 ^ amount) dest = wordOf quantity 0
        rw [Words.set32_self, hold.word_eq found named whole, toNat_wordOf_zero, quotient]

theorem lshr64_holds {dest : Reg64} {amount : Nat} {src : Operand Reg64}
    (fits : TagFits item words st (.lshr64 dest amount src))
    (filled : writes size st (.lshr64 dest amount src) = some entries) :
    NewHold item constant words (.lshr64 dest amount src) entries := by
  cases src with
  | val text => cases filled
  | reg src =>
      obtain ⟨content, found, ⟨-, rfl⟩ | ⟨notZero, val, rfl⟩⟩ := vLshrrev_eq_some filled
      · rintro write inside
        apply contentHolds_of_none
        rw [snd_of_mem_setRegValueSave inside]
        rfl
      · rintro write inside
        apply contentHolds_of_none
        rw [snd_of_mem_setRegValueSave inside]
        exact fits content found notZero

theorem contentOf_eq_some {src : Operand Reg32} {content : Content}
    (found : contentOf st src = some content) :
    ∃ reg, src = .reg reg ∧ st.get? (.word reg) = some content := by
  cases src with
  | reg reg => exact ⟨reg, rfl, found⟩
  | val text => cases found

theorem mulLo_holds (hold : TagsHold item words st) {dest : Reg32} {src0 src1 : Operand Reg32}
    (fits : TagFits item words st (.mulLo dest src0 src1))
    (filled : writes size st (.mulLo dest src0 src1) = some entries) :
    NewHold item constant words (.mulLo dest src0 src1) entries := by
  obtain ⟨content, rfl, nothing | ⟨content0, content1, found0, found1, type, integrity⟩⟩ :=
    vMulLo_eq_some filled
  · rintro write inside
    cases List.mem_singleton.mp inside
    exact contentHolds_of_none (nothing item)
  · obtain ⟨reg0, rfl, found0⟩ := contentOf_eq_some found0
    obtain ⟨reg1, rfl, found1⟩ := contentOf_eq_some found1
    rintro write inside
    cases List.mem_singleton.mp inside
    intro quantity named
    rw [type] at named
    have tagged : mulType content0.type (some content1.type) ≠ .unknown := by
      intro same
      rw [same] at named
      cases named
    obtain ⟨whole0, whole1⟩ := fits content0 content1 found0 found1 tagged
    obtain ⟨left, right, first, second, product⟩ := quantity_of_mulType item tagged
    rw [product] at named
    cases named
    change words.set32 dest ((words reg0).toNat * (words reg1).toNat) dest = _
    rw [Words.set32_self, hold.word_eq found0 first whole0, hold.word_eq found1 second whole1,
      wordOf_mul_toNat, integrity, Integrity.index_of_ne whole0]

theorem mulHi_holds {dest : Reg32} {src0 src1 : Operand Reg32}
    (fits : TagFits item words st (.mulHi dest src0 src1))
    (filled : writes size st (.mulHi dest src0 src1) = some entries) :
    NewHold item constant words (.mulHi dest src0 src1) entries := by
  obtain ⟨content, rfl, nothing | ⟨content0, content1, found0, found1, type, -⟩⟩ :=
    vMulLo_eq_some filled
  · rintro write inside
    cases List.mem_singleton.mp inside
    exact contentHolds_of_none (nothing item)
  · obtain ⟨reg0, rfl, found0⟩ := contentOf_eq_some found0
    obtain ⟨reg1, rfl, found1⟩ := contentOf_eq_some found1
    rintro write inside
    cases List.mem_singleton.mp inside
    apply contentHolds_of_none
    rw [type, fits content0 content1 found0 found1]
    rfl

theorem toReg_eq_reg {src : Operand Reg32} {reg : Reg} (same : src.toReg = .reg reg) :
    ∃ word, src = .reg word ∧ reg = .word word := by
  cases src with
  | reg word =>
      cases same
      exact ⟨word, rfl, rfl⟩
  | val text => cases same

theorem wholeReg_eq_reg {src : Operand Reg64} {reg : Reg} (same : src.wholeReg = .reg reg) :
    ∃ wide, src = .reg wide ∧ reg = wide.whole := by
  cases src with
  | reg wide =>
      cases same
      exact ⟨wide, rfl, rfl⟩
  | val text => cases same

theorem add32_holds (hold : TagsHold item words st) {dest : Reg32} {src0 src1 : Operand Reg32}
    (fits : TagFits item words st (.add32 dest src0 src1))
    (filled : writes size st (.add32 dest src0 src1) = some entries) :
    NewHold item constant words (.add32 dest src0 src1) entries := by
  obtain ⟨content, rfl, nothing | ⟨reg0, reg1, content0, content1, row, source0, source1, found0,
    found1, matched, type, integrity⟩⟩ := vAdd_eq_some filled
  · rintro write inside
    apply contentHolds_of_none
    rw [snd_of_mem_setRegValueSave inside, nothing item]
  · obtain ⟨word0, rfl, rfl⟩ := toReg_eq_reg source0
    obtain ⟨word1, rfl, rfl⟩ := toReg_eq_reg source1
    obtain ⟨whole0, whole1⟩ := fits content0 content1 found0 found1 (by simp [matched])
    obtain ⟨left, right, first, second, sum⟩ := quantity_of_addRow item matched
    rintro write inside
    cases List.mem_singleton.mp inside
    intro quantity named
    rw [type, sum] at named
    cases named
    change words.set32 dest ((words word0).toNat + (words word1).toNat) dest = _
    rw [Words.set32_self, hold.word_eq found0 first whole0, hold.word_eq found1 second whole1,
      wordOf_add_toNat, integrity, Integrity.index_of_ne whole1]

theorem add64_holds {dest : Reg64} {src0 src1 : Operand Reg64}
    (fits : TagFits item words st (.add64 dest src0 src1))
    (filled : writes size st (.add64 dest src0 src1) = some entries) :
    NewHold item constant words (.add64 dest src0 src1) entries := by
  obtain ⟨content, rfl, nothing | ⟨reg0, reg1, content0, content1, row, source0, source1, found0,
    found1, matched, -⟩⟩ := vAdd_eq_some filled
  · rintro write inside
    apply contentHolds_of_none
    rw [snd_of_mem_setRegValueSave inside, nothing item]
  · obtain ⟨wide0, rfl, rfl⟩ := wholeReg_eq_reg source0
    obtain ⟨wide1, rfl, rfl⟩ := wholeReg_eq_reg source1
    rw [fits content0 content1 found0 found1] at matched
    cases matched

theorem new_hold (hold : TagsHold item words st) {instr : Instr}
    (fits : TagFits item words st instr) (filled : writes size st instr = some entries) :
    NewHold item constant words instr entries := by
  cases instr with
  | initReg32 dest value =>
      cases filled
      rintro write inside
      cases List.mem_singleton.mp inside
      intro quantity named
      rw [← quantity_initValue named]
      exact Words.set32_self ..
  | initReg64 dest value =>
      cases filled
      rintro write inside
      cases List.mem_singleton.mp inside
      apply contentHolds_whole
      intro quantity named
      rw [← quantity_initValue named]
      exact ⟨Words.set64_lo .., Words.set64_hi ..⟩
  | mov32 dest src => exact mov32_holds hold fits filled
  | mov64 dest src => exact mov64_holds hold filled
  | lshl32 dest amount src => exact lshl32_holds hold fits filled
  | lshl64 dest amount src => exact lshl64_holds fits filled
  | lshr32 dest amount src => exact lshr32_holds hold fits filled
  | lshr64 dest amount src => exact lshr64_holds fits filled
  | mulLo dest src0 src1 => exact mulLo_holds hold fits filled
  | mulHi dest src0 src1 => exact mulHi_holds fits filled
  | add32 dest src0 src1 => exact add32_holds hold fits filled
  | add64 dest src0 src1 => exact add64_holds fits filled

end Results

/-! ## Runs -/

/-- The state of the decompiler beside the words of the work item. -/
structure Machine where
  st : NodeState
  words : Words

/-- One instruction in the decompiler and on the hardware. -/
def tagStep (size : Option (Dim → Nat)) (item : WorkItem) (constant : String → Nat)
    (machine : Machine) (instr : Instr) : Option Machine :=
  (writes size machine.st instr).map fun entries =>
    ⟨machine.st.setAll entries, execute item constant machine.words instr⟩

/-- What an instruction needs for every tag to hold behind it. -/
def KeepsTags (item : WorkItem) (machine : Machine) (instr : Instr) : Prop :=
  NoStaleTag item machine.st instr ∧ TagFits item machine.words machine.st instr

/-- One instruction that meets the condition keeps the tags true. -/
theorem tagStep_holds {size : Option (Dim → Nat)} {item : WorkItem} {constant : String → Nat}
    {machine next : Machine} {instr : Instr}
    (hold : TagsHold item machine.words machine.st) (keeps : KeepsTags item machine instr)
    (stepped : tagStep size item constant machine instr = some next) :
    TagsHold item next.words next.st := by
  obtain ⟨entries, filled, rfl⟩ := Option.map_eq_some_iff.mp stepped
  exact tagsHold_setAll hold (map_fst_writes filled)
    (fun word outside => execute_of_not_mem item constant machine.words instr outside)
    keeps.1 (new_hold hold keeps.2 filled)

def Reg.isWord : Reg → Bool
  | .word _ => true
  | .composite _ _ => false

/-- Among words alone no entry becomes stale. -/
theorem noStaleTag_of_words {item : WorkItem} {st : NodeState} {instr : Instr}
    (onlyWords : st.keys.all Reg.isWord = true) (destWord : instr.dest.isWord = true)
    (writesDest : instr.dest ∈ instr.written) : NoStaleTag item st instr := by
  rintro reg content found unwritten ⟨word, inReg, inDest⟩
  have regWord : reg.isWord = true :=
    List.all_eq_true.mp onlyWords reg ((PyDict.mem_keys_iff st reg).mpr ⟨content, found⟩)
  cases reg with
  | composite name regs => cases regWord
  | word reg =>
      cases same : instr.dest with
      | composite name regs => simp [same, Reg.isWord] at destWord
      | word dest =>
          rw [same] at inDest writesDest
          cases List.mem_singleton.mp inReg
          cases List.mem_singleton.mp inDest
          exact absurd writesDest unwritten

/-- `get_global_id(0)`, with the local size as a shift by `amount`. -/
def globalIdProgram (amount : Nat) : List Instr :=
  [.initReg32 ⟨"s0"⟩ (.groupId .x), .initReg32 ⟨"s1"⟩ (.globalOffset .x),
    .initReg32 ⟨"v0"⟩ (.localId .x), .lshl32 ⟨"s2"⟩ amount (.reg ⟨"s0"⟩),
    .add32 ⟨"s2"⟩ (.reg ⟨"s2"⟩) (.reg ⟨"s1"⟩), .add32 ⟨"v0"⟩ (.reg ⟨"s2"⟩) (.reg ⟨"v0"⟩)]

/-- The work item 5 of the group 3, where a group has 64 items. -/
def sampleItem : WorkItem where
  localId _ := 5
  groupId _ := 3
  localSize _ := 64
  globalSize _ := 1024
  numGroups _ := 16
  globalOffset _ := 0
  workDim := 1

end OpenCLDecompiler.Registers
