import Mathlib.Data.Finset.Insert
import OpenCLDecompiler.Library.PyDict

/-!
# Register flow of PTX kernels

`BuildRegisterFlowPass` records, for every register an instruction reads, the
instruction that wrote it last.  A register that nothing writes has no writer.
-/

namespace OpenCLDecompiler.Ptx

open Library

/-- The first half of a `Reg64`. -/
def lo (name : String) : String := name ++ "|lo"

def hi (name : String) : String := name ++ "|hi"

/-- `Reg32`, `Reg64` and the vectors `\x7b%r1, %r2\x7d`, which have at least one part. -/
inductive Register where
  | word (name : String)
  | wide (name : String)
  | vector (first : String) (rest : List String)
  deriving DecidableEq, Repr

namespace Register

/-- `get_reg_rang(reg)[0]`. -/
def first : Register → String
  | .word name => name
  | .wide name => lo name
  | .vector first _ => first

/-- `expand_register_names`. -/
def names : Register → List String
  | .word name => [name]
  | .wide name => [lo name, hi name]
  | .vector first rest => first :: rest

theorem first_mem_names (register : Register) : register.first ∈ register.names := by
  cases register <;> exact List.mem_cons_self

end Register

/-- `MemoryAccessType.base_type`. -/
inductive BaseType where
  | b8 | u8 | s8 | b16 | u16 | s16 | b32 | u32 | s32 | b64 | u64 | s64 | f16 | f32 | f64
  deriving DecidableEq, Repr

/-- `MemoryAccessType`; `_parse_memory_access_type` sets its address space to global. -/
structure MemoryAccessType where
  baseType : BaseType
  vectorWidth : Nat
  deriving DecidableEq, Repr

/--
The instructions the type passes tell apart.  A load is `TypedMemoryLoad`, or
`TypedMemoryFLoad` when `flat`; `offset` is its offset as `int(value, 0)` reads it.
-/
inductive TypedInstr where
  | load (flat : Bool) (destination : Register) (address : String) (offset : Option Nat)
      (access : MemoryAccessType)
  | store (address : String) (values : List Register) (access : MemoryAccessType)
  | other (writes reads : List Register)
  deriving DecidableEq, Repr

namespace TypedInstr

def readRegisters : TypedInstr → List Register
  | .load _ _ address _ _ => [.wide address]
  | .store address values _ => .wide address :: values
  | .other _ reads => reads

def writtenRegisters : TypedInstr → List Register
  | .load _ destination _ _ _ => [destination]
  | .store _ _ _ => []
  | .other writes _ => writes

def readNames (instr : TypedInstr) : List String := instr.readRegisters.flatMap Register.names

def writtenNames (instr : TypedInstr) : List String :=
  instr.writtenRegisters.flatMap Register.names

end TypedInstr

/-- `writer_by_use`, and the last writers while it is built. -/
structure RegisterFlow where
  lastWriter : PyDict String Nat
  writerByUse : PyDict (Nat × String) Nat

namespace RegisterFlow

/-- The writers of the registers that the instruction at `index` reads. -/
def noteReads (index : Nat) (flow : RegisterFlow) (names : List String) : RegisterFlow :=
  names.foldl (fun flow name =>
    match flow.lastWriter.get? name with
    | none => flow
    | some writer => { flow with writerByUse := flow.writerByUse.set (index, name) writer }) flow

def noteWrites (index : Nat) (flow : RegisterFlow) (names : List String) : RegisterFlow :=
  names.foldl (fun flow name => { flow with lastWriter := flow.lastWriter.set name index }) flow

/-- The loop of `BuildRegisterFlowPass` from an index on. -/
def buildFrom : Nat → RegisterFlow → List TypedInstr → RegisterFlow
  | _, flow, [] => flow
  | index, flow, instr :: rest =>
      buildFrom (index + 1)
        (noteWrites index (noteReads index flow instr.readNames) instr.writtenNames) rest

def build (instrs : List TypedInstr) : RegisterFlow := buildFrom 0 ⟨.empty, .empty⟩ instrs

/-- `get_writer`. -/
def getWriter (flow : RegisterFlow) (use : Nat) (name : String) : Option Nat :=
  flow.writerByUse.get? (use, name)

/-- Writers stand in front of `index` and in front of their uses, and write what is read. -/
structure Sound (written : List String) (index : Nat) (flow : RegisterFlow) : Prop where
  last : ∀ name writer, flow.lastWriter.get? name = some writer → writer < index ∧ name ∈ written
  use : ∀ use name writer, flow.writerByUse.get? (use, name) = some writer →
    writer < use ∧ name ∈ written

variable {written : List String} {index : Nat} {flow : RegisterFlow}

theorem Sound.noteReads (sound : Sound written index flow) (names : List String) :
    Sound written index (flow.noteReads index names) := by
  unfold RegisterFlow.noteReads
  induction names generalizing flow with
  | nil => exact sound
  | cons name rest ih =>
      rw [List.foldl_cons]
      apply ih
      cases known : flow.lastWriter.get? name with
      | none => exact sound
      | some writer =>
          obtain ⟨before, inside⟩ := sound.last name writer known
          constructor
          · exact sound.last
          · rintro use other found isWriter
            rw [PyDict.get?_set] at isWriter
            split at isWriter
            · rename_i same
              cases same
              cases isWriter
              exact ⟨before, inside⟩
            · exact sound.use use other found isWriter

theorem Sound.noteWrites (sound : Sound written index flow) {names : List String}
    (inside : ∀ name ∈ names, name ∈ written) :
    Sound written (index + 1) (flow.noteWrites index names) := by
  have weaker : Sound written (index + 1) flow :=
    ⟨fun name writer known =>
      ⟨Nat.lt_succ_of_lt (sound.last name writer known).1, (sound.last name writer known).2⟩,
      sound.use⟩
  unfold RegisterFlow.noteWrites
  clear sound
  induction names generalizing flow with
  | nil => exact weaker
  | cons name rest ih =>
      rw [List.foldl_cons]
      apply ih
      · exact fun other later => inside other (List.mem_cons_of_mem _ later)
      · constructor
        · rintro other writer known
          rw [PyDict.get?_set] at known
          split at known
          · rename_i same
            cases known
            exact ⟨Nat.lt_succ_self _, same ▸ inside name List.mem_cons_self⟩
          · exact weaker.last other writer known
        · exact weaker.use

theorem Sound.buildFrom (sound : Sound written index flow) {instrs : List TypedInstr}
    (inside : ∀ instr ∈ instrs, ∀ name ∈ instr.writtenNames, name ∈ written) :
    ∃ last, Sound written last (buildFrom index flow instrs) := by
  induction instrs generalizing index flow with
  | nil => exact ⟨index, sound⟩
  | cons instr rest ih =>
      unfold RegisterFlow.buildFrom
      apply ih
      · exact (sound.noteReads _).noteWrites (inside instr List.mem_cons_self)
      · exact fun other later => inside other (List.mem_cons_of_mem _ later)

/-- A writer stands in front of its use and writes the register that is read. -/
theorem getWriter_build {instrs : List TypedInstr} {use writer : Nat} {name : String}
    (found : (build instrs).getWriter use name = some writer) :
    writer < use ∧ ∃ instr ∈ instrs, name ∈ instr.writtenNames := by
  have start : Sound (instrs.flatMap TypedInstr.writtenNames) 0 ⟨.empty, .empty⟩ := by
    constructor
    · rintro name writer known
      cases known
    · rintro use name writer known
      cases known
  obtain ⟨last, sound⟩ := start.buildFrom fun instr inside name isWritten =>
    List.mem_flatMap.mpr ⟨instr, inside, isWritten⟩
  obtain ⟨before, inside⟩ := sound.use use name writer found
  exact ⟨before, List.mem_flatMap.mp inside⟩

/-! ## The last writer -/

def writtenAt (instrs : List TypedInstr) (index : Nat) : List String :=
  (instrs[index]?.map TypedInstr.writtenNames).getD []

def readAt (instrs : List TypedInstr) (index : Nat) : List String :=
  (instrs[index]?.map TypedInstr.readNames).getD []

/-- The last instruction in front of an index that writes the register. -/
def lastWriterBefore (instrs : List TypedInstr) : Nat → String → Option Nat
  | 0, _ => none
  | index + 1, name =>
      if name ∈ writtenAt instrs index then some index else lastWriterBefore instrs index name

theorem lastWriterBefore_eq_some {instrs : List TypedInstr} {use writer : Nat} {name : String} :
    lastWriterBefore instrs use name = some writer ↔
      writer < use ∧ name ∈ writtenAt instrs writer ∧
        ∀ between, writer < between → between < use → name ∉ writtenAt instrs between := by
  induction use with
  | zero => simp [lastWriterBefore]
  | succ use ih =>
      rw [lastWriterBefore]
      split
      · rename_i written
        constructor
        · rintro ⟨⟩
          exact ⟨Nat.lt_succ_self _, written, fun between above below => by omega⟩
        · rintro ⟨before, -, last⟩
          rcases Nat.lt_succ_iff_lt_or_eq.mp before with before | rfl
          · exact absurd written (last use before (Nat.lt_succ_self _))
          · rfl
      · rename_i notWritten
        rw [ih]
        constructor
        · rintro ⟨before, written, last⟩
          refine ⟨Nat.lt_succ_of_lt before, written, fun between above below => ?_⟩
          rcases Nat.lt_succ_iff_lt_or_eq.mp below with below | rfl
          · exact last between above below
          · exact notWritten
        · rintro ⟨before, written, last⟩
          refine ⟨(Nat.lt_succ_iff_lt_or_eq.mp before).resolve_right ?_, written,
            fun between above below => last between above (Nat.lt_succ_of_lt below)⟩
          rintro rfl
          exact notWritten written

/-- The flow knows the last writers in front of `index`, and of all reads in front of it. -/
structure Exact (instrs : List TypedInstr) (index : Nat) (flow : RegisterFlow) : Prop where
  last : ∀ name, flow.lastWriter.get? name = lastWriterBefore instrs index name
  use : ∀ use name, flow.writerByUse.get? (use, name) =
    if use < index ∧ name ∈ readAt instrs use then lastWriterBefore instrs use name else none

theorem get?_noteReads (index : Nat) (flow : RegisterFlow) (names : List String) (use : Nat)
    (name : String) :
    (flow.noteReads index names).writerByUse.get? (use, name) =
        (if use = index ∧ name ∈ names then flow.lastWriter.get? name else none).or
          (flow.writerByUse.get? (use, name)) ∧
      (flow.noteReads index names).lastWriter = flow.lastWriter := by
  unfold RegisterFlow.noteReads
  induction names generalizing flow with
  | nil => simp
  | cons first rest ih =>
      rw [List.foldl_cons, (ih _).1, (ih _).2]
      cases known : flow.lastWriter.get? first with
      | none =>
          by_cases same : name = first
          · subst same
            simp [known]
          · simp [same]
      | some writer =>
          dsimp only
          rw [PyDict.get?_set]
          by_cases same : use = index ∧ name = first
          · obtain ⟨rfl, rfl⟩ := same
            have here : use = use ∧ name ∈ name :: rest := ⟨rfl, List.mem_cons_self⟩
            rw [if_pos rfl, if_pos here, known]
            refine ⟨?_, rfl⟩
            split <;> rfl
          · have differs : ¬(use, name) = (index, first) := fun equal =>
              same ⟨congrArg Prod.fst equal, congrArg Prod.snd equal⟩
            have later : (use = index ∧ name ∈ first :: rest) ↔ use = index ∧ name ∈ rest := by
              rw [List.mem_cons]
              tauto
            simp only [differs, if_false, later, and_true]

theorem get?_noteWrites (index : Nat) (flow : RegisterFlow) (names : List String) (name : String) :
    (flow.noteWrites index names).lastWriter.get? name =
        (if name ∈ names then some index else flow.lastWriter.get? name) ∧
      (flow.noteWrites index names).writerByUse = flow.writerByUse := by
  unfold RegisterFlow.noteWrites
  induction names generalizing flow with
  | nil => simp
  | cons first rest ih =>
      rw [List.foldl_cons, (ih _).1, (ih _).2]
      refine ⟨?_, rfl⟩
      dsimp only
      rw [PyDict.get?_set]
      by_cases same : name = first
      · simp [same]
      · simp [same]

theorem Exact.step {instrs : List TypedInstr} {index : Nat} {flow : RegisterFlow}
    (exact' : Exact instrs index flow) {instr : TypedInstr} (here : instrs[index]? = some instr) :
    Exact instrs (index + 1)
      (noteWrites index (noteReads index flow instr.readNames) instr.writtenNames) where
  last name := by
    have written : writtenAt instrs index = instr.writtenNames := by rw [writtenAt, here]; rfl
    rw [(get?_noteWrites ..).1, (get?_noteReads index flow _ 0 name).2, exact'.last, ← written]
    rfl
  use use name := by
    have reads : readAt instrs index = instr.readNames := by rw [readAt, here]; rfl
    rw [(get?_noteWrites index _ _ name).2, (get?_noteReads ..).1, exact'.last, exact'.use, ← reads]
    by_cases now : use = index
    · subst now
      simp
    · have earlier : use < index + 1 ↔ use < index := by omega
      simp [now, earlier]

theorem Exact.buildFrom {done rest : List TypedInstr} {flow : RegisterFlow}
    (exact' : Exact (done ++ rest) done.length flow) :
    Exact (done ++ rest) (done ++ rest).length (buildFrom done.length flow rest) := by
  induction rest generalizing done flow with
  | nil =>
      rw [List.append_nil] at exact' ⊢
      exact exact'
  | cons instr rest ih =>
      have here : (done ++ instr :: rest)[done.length]? = some instr := by simp
      have stepped := exact'.step here
      rw [List.append_cons] at stepped ⊢
      have shorter := @ih (done ++ [instr])
      rw [List.length_append] at shorter
      exact shorter stepped

/-- `get_writer` gives the last writer of a register that is read. -/
theorem getWriter_build_eq (instrs : List TypedInstr) {use : Nat} {name : String}
    (isRead : name ∈ readAt instrs use) :
    (build instrs).getWriter use name = lastWriterBefore instrs use name := by
  have start : Exact ([] ++ instrs) ([] : List TypedInstr).length ⟨.empty, .empty⟩ :=
    ⟨fun _ => rfl, fun use name => by simp⟩
  have inside : use < instrs.length := by
    by_contra outside
    rw [readAt, List.getElem?_eq_none (Nat.le_of_not_lt outside)] at isRead
    cases isRead
  exact (start.buildFrom.use use name).trans (if_pos ⟨inside, isRead⟩)

theorem getWriter_build_some {instrs : List TypedInstr} {use writer : Nat} {name : String}
    (found : (build instrs).getWriter use name = some writer) :
    lastWriterBefore instrs use name = some writer := by
  have start : Exact ([] ++ instrs) ([] : List TypedInstr).length ⟨.empty, .empty⟩ :=
    ⟨fun _ => rfl, fun use name => by simp⟩
  have known := (start.buildFrom.use use name).symm.trans found
  split at known
  · exact known
  · cases known

end RegisterFlow

end OpenCLDecompiler.Ptx
