import OpenCLDecompiler.Library.Overlap
import OpenCLDecompiler.Library.Run
import OpenCLDecompiler.Registers.Reg

/-!
# Aliasing of registers

The state of a node has an entry under the name of every register that was
written, also under the names of composites beside those of their words.  Which
of these entries a handler writes and reads is its own choice.  This file has
these choices, and when every read finds the last write to the words it covers.
-/

namespace OpenCLDecompiler.Registers

open Library

/-- How a handler writes its destination. -/
inductive WriteForm where
  /-- `set_reg_value` with the name of the destination. -/
  | own
  /-- `set_reg_value_save`, and the handlers that write the words and the whole themselves. -/
  | ownAndWords
  /-- `set_reg_value` with the name of every word. -/
  | words
  deriving DecidableEq, Repr

/-- How a handler reads a register. -/
inductive Read where
  /-- `get_from_state`. -/
  | own (reg : Reg)
  /-- `get_or_add_expression_node` and `make_op`: without an own entry, the one of the first word. -/
  | expression (reg : Reg)
  deriving DecidableEq, Repr

def Read.reg : Read → Reg
  | .own reg => reg
  | .expression reg => reg

/-- What an instruction does to the state of the node. -/
structure Access where
  dest : Reg
  form : WriteForm
  reads : List Read

def Access.written (access : Access) : List Reg :=
  match access.form with
  | .own => [access.dest]
  | .ownAndWords => access.dest :: access.dest.rang.map .word
  | .words => access.dest.rang.map .word

/-! ## Handlers -/

/-- `get_from_state` of every word. -/
def readWords (reg : Reg) : List Read := reg.rang.map fun word => .own (.word word)

/-- `get_from_state` of `get_reg_rang(reg)[0]`. -/
def readFirst (reg : Reg) : List Read := (readWords reg).take 1

namespace Access

def initReg (dest : Reg) : Access := ⟨dest, .own, []⟩

def initPred (dest : Reg) : Access := ⟨dest, .ownAndWords, []⟩

/-- `SMov` of 32 bits, and of predicates. -/
def sMov (dest src : Reg) : Access := ⟨dest, .own, [.own src, .expression src]⟩

/-- `SMov` of 64 bits. -/
def sMovB64 (dest src : Reg) : Access := ⟨dest, .ownAndWords, [.own src, .expression src]⟩

/-- `SAnd`: the operands in a text, and one of them for its type. -/
def sAnd (dest src0 src1 : Reg) : Access :=
  ⟨dest, .ownAndWords, [.expression src0, .expression src1, .own src0, .own src1]⟩

def sOr (dest src0 src1 : Reg) : Access :=
  ⟨dest, .own, [.expression src0, .expression src1, .own src1]⟩

def sXor (dest src0 src1 : Reg) : Access :=
  ⟨dest, .own, [.expression src0, .expression src1, .own src1, .own src0]⟩

def sNot (dest src : Reg) : Access := ⟨dest, .ownAndWords, [.own src, .expression src]⟩

/-- `compare_values`. -/
def vCmp (dest src0 src1 : Reg) : Access :=
  ⟨dest, .ownAndWords, [.expression src0, .expression src1]⟩

/-- `VLshlrev` of 32 bits. -/
def vLshlrev (dest src : Reg) : Access := ⟨dest, .own, [.expression src, .own src]⟩

/-- `VLshlrev` of 64 bits reads and writes the halves only. -/
def vLshlrevB64 (dest src : Reg) : Access := ⟨dest, .words, readWords src⟩

def vLshrrev (dest src : Reg) : Access := ⟨dest, .ownAndWords, readFirst src⟩

def vAdd (dest src0 src1 : Reg) : Access :=
  ⟨dest, .ownAndWords,
    [.expression src0, .expression src1] ++ readFirst src0 ++ readFirst src1⟩

def vMulLo (dest src0 src1 : Reg) : Access :=
  ⟨dest, .own, [.expression src0, .expression src1, .own src0, .own src1]⟩

/-- `FlatLoad` of any length: a value for every word. -/
def flatLoad (dest address : Reg) : Access := ⟨dest, .words, readFirst address⟩

end Access

/-- The instructions, with the registers among their operands. -/
inductive AccessInstr where
  | initReg (dest : Reg)
  | initPred (dest : Reg)
  | sMov (dest src : Reg)
  | sMovB64 (dest src : Reg)
  | sAnd (dest src0 src1 : Reg)
  | sOr (dest src0 src1 : Reg)
  | sXor (dest src0 src1 : Reg)
  | sNot (dest src : Reg)
  | vCmp (dest src0 src1 : Reg)
  | vLshlrev (dest src : Reg)
  | vLshlrevB64 (dest src : Reg)
  | vLshrrev (dest src : Reg)
  | vAdd (dest src0 src1 : Reg)
  | vMulLo (dest src0 src1 : Reg)
  | flatLoad (dest address : Reg)

def AccessInstr.access : AccessInstr → Access
  | .initReg dest => Access.initReg dest
  | .initPred dest => Access.initPred dest
  | .sMov dest src => Access.sMov dest src
  | .sMovB64 dest src => Access.sMovB64 dest src
  | .sAnd dest src0 src1 => Access.sAnd dest src0 src1
  | .sOr dest src0 src1 => Access.sOr dest src0 src1
  | .sXor dest src0 src1 => Access.sXor dest src0 src1
  | .sNot dest src => Access.sNot dest src
  | .vCmp dest src0 src1 => Access.vCmp dest src0 src1
  | .vLshlrev dest src => Access.vLshlrev dest src
  | .vLshlrevB64 dest src => Access.vLshlrevB64 dest src
  | .vLshrrev dest src => Access.vLshrrev dest src
  | .vAdd dest src0 src1 => Access.vAdd dest src0 src1
  | .vMulLo dest src0 src1 => Access.vMulLo dest src0 src1
  | .flatLoad dest address => Access.flatLoad dest address

/-! ## Runs -/

/-- The entries of a state, with the number of the instruction behind each. -/
abbrev AccessState := Overlap Reg Reg32

def accessStep (st : AccessState) (instr : AccessInstr) : Option AccessState :=
  some (st.write instr.access.written instr.access.dest.rang)

/-- The instruction whose content a read finds. -/
def readStamp (st : AccessState) : Read → Option Nat
  | .own reg => st.entries.get? reg
  | .expression reg => (st.entries.get? reg).or
      (reg.rang.head?.bind fun first => st.entries.get? (.word first))

/-- Every read of an instruction finds the last write to all words of the register. -/
def ReadsCurrent (st : AccessState) (instr : AccessInstr) : Prop :=
  ∀ read ∈ instr.access.reads, ∀ stamp, readStamp st read = some stamp →
    ∀ word ∈ read.reg.rang, st.lastWrite word = some stamp

/--
The reads are right, and no entry is left behind that a later read could find
although one of its words has been written since.
-/
def Right (st : AccessState) (instr : AccessInstr) : Prop :=
  ReadsCurrent st instr ∧
    (st.write instr.access.written instr.access.dest.rang).Current Reg.rang

/-- A composite read without an own entry has words that were written together. -/
def WrittenTogether (st : AccessState) (instr : AccessInstr) : Prop :=
  ∀ reg, .expression reg ∈ instr.access.reads → st.entries.get? reg = none →
    ∀ first, reg.rang.head? = some first → (st.entries.get? (.word first)).isSome = true →
      ∀ word ∈ reg.rang, st.lastWrite word = st.lastWrite first

/-- The handler writes every entry that shares words with its destination. -/
def WritesAliases (st : AccessState) (instr : AccessInstr) : Prop :=
  st.NoneStale Reg.rang instr.access.written instr.access.dest.rang

theorem Access.rang_subset_of_mem_written {access : Access} {key : Reg}
    (written : key ∈ access.written) : key.rang ⊆ access.dest.rang := by
  have ofWord : ∀ word ∈ access.dest.rang, (Reg.word word).rang ⊆ access.dest.rang := by
    rintro word inside other same
    rwa [List.mem_singleton.mp same]
  unfold Access.written at written
  split at written
  · rw [List.mem_singleton.mp written]
    exact List.Subset.refl _
  · rcases List.mem_cons.mp written with rfl | part
    · exact List.Subset.refl _
    · obtain ⟨word, inside, rfl⟩ := List.mem_map.mp part
      exact ofWord word inside
  · obtain ⟨word, inside, rfl⟩ := List.mem_map.mp written
    exact ofWord word inside

/-- With current entries the reads are right up to composites without an own entry. -/
theorem readsCurrent_iff {st : AccessState} (current : st.Current Reg.rang)
    (instr : AccessInstr) : ReadsCurrent st instr ↔ WrittenTogether st instr := by
  constructor
  · rintro right reg inside absent first isFirst known word covered
    obtain ⟨stamp, found⟩ := Option.isSome_iff_exists.mp known
    have read : readStamp st (.expression reg) = some stamp := by
      simp [readStamp, absent, isFirst, found]
    rw [right _ inside stamp read word covered,
      current (.word first) stamp found first List.mem_cons_self]
  · rintro together read inside stamp found word covered
    cases read with
    | own reg => exact current reg stamp found word covered
    | expression reg =>
        cases own : st.entries.get? reg with
        | some other =>
            rw [readStamp, own] at found
            cases found
            exact current reg stamp own word covered
        | none =>
            rw [readStamp, own, Option.none_or] at found
            obtain ⟨first, isFirst, entry⟩ := Option.bind_eq_some_iff.mp found
            rw [together reg inside own first isFirst (by rw [entry]; rfl) word covered]
            exact current (.word first) stamp entry first List.mem_cons_self

/-- The pair `v[index:index+1]`. -/
def pair (name low high : String) : Reg := .composite name [⟨low⟩, ⟨high⟩]

/-- A move, a shift that writes the halves, and a move of the whole. -/
def staleWhole : List AccessInstr :=
  [.sMovB64 (pair "v[0:1]" "v0" "v1") (pair "s[0:1]" "s0" "s1"),
    .vLshlrevB64 (pair "v[0:1]" "v0" "v1") (pair "v[2:3]" "v2" "v3"),
    .sMovB64 (pair "v[4:5]" "v4" "v5") (pair "v[0:1]" "v0" "v1")]

end OpenCLDecompiler.Registers
