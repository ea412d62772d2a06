import OpenCLDecompiler.Cfg.Forward

/-!
# Structured programs in label form

A structured program is lowered to forward branches and labels.  The relation
`LabelCode` lists the instruction sequences for a program; labels may be shared
by statements that end at the same place.  Execution follows the instruction
list itself.
-/

namespace OpenCLDecompiler

/-! ## Execution -/

/-- The branch is taken when its predicate has the given value. -/
def Instr.takes (holds : Bool) : Instr → Bool
  | .branch _ _ => holds
  | .branchNot _ _ => !holds
  | .jump _ => true
  | _ => false

/-- The value of the text a branch prints: `s_br` prints the negation of its predicate. -/
def Instr.condition (holds : Bool) : Instr → Bool
  | .branch _ _ => !holds
  | _ => holds

/-- The node of a label. -/
def labelNode (instrs : List Instr) (text : String) : Option NodeId :=
  (instrs.findIdx? fun instr => instr.label? == some text).map (· + 1)

/-- A place in the program, if it has an instruction. -/
def placeAt (instrs : List Instr) (node : NodeId) : Option NodeId :=
  if node ≤ instrs.length then some node else none

/--
The instruction that is executed next; `holds` gives the value of the predicate of
each branch.  The entry node comes before the first instruction.
-/
def nextInstr (instrs : List Instr) (holds : NodeId → Bool) (node : NodeId) : Option NodeId :=
  match instrAt instrs node with
  | none => placeAt instrs (node + 1)
  | some instr =>
      if instr.isEndPgm then none
      else if instr.takes (holds node) then instr.target?.bind (labelNode instrs)
      else placeAt instrs (node + 1)

/-- What the branches of the instructions print. -/
def printedCondition (instrs : List Instr) (holds : NodeId → Bool) (node : NodeId) : Bool :=
  ((instrAt instrs node).map (Instr.condition (holds node))).getD (holds node)

/-! ## Labels -/

theorem targetAt_eq {instrs : List Instr} {node : NodeId} {instr : Instr}
    (found : instrAt instrs node = some instr) : targetAt instrs node = instr.target? := by
  rw [targetAt, found]
  rfl

theorem labelAt_eq {instrs : List Instr} {node : NodeId} {instr : Instr}
    (found : instrAt instrs node = some instr) : labelAt instrs node = instr.label? := by
  rw [labelAt, found]
  rfl

/-- Every label stands in one place. -/
theorem labelAt_inj {instrs : List Instr} (labels : (instrs.filterMap Instr.label?).Nodup)
    {first second : NodeId} {text : String} (isFirst : labelAt instrs first = some text)
    (isSecond : labelAt instrs second = some text) : first = second := by
  induction instrs using List.reverseRecOn with
  | nil => cases first <;> cases isFirst
  | append_singleton seen instr ih =>
      rw [List.filterMap_append, List.nodup_append] at labels
      have apart {node : NodeId} (labelled : labelAt seen node = some text)
          (last : instr.label? = some text) : False := by
        refine labels.2.2 text (mem_labels_of_labelAt labelled) text ?_ rfl
        exact List.mem_filterMap.mpr ⟨instr, List.mem_singleton_self instr, last⟩
      rw [labelAt_snoc] at isFirst isSecond
      split at isFirst
      · split at isSecond
        · simp_all
        · exact (apart isSecond isFirst).elim
      · split at isSecond
        · exact (apart isFirst isSecond).elim
        · exact ih labels.1 isFirst isSecond

theorem labelNode_eq {instrs : List Instr} (labels : (instrs.filterMap Instr.label?).Nodup)
    {node : NodeId} {text : String} (labelled : labelAt instrs node = some text) :
    labelNode instrs text = some node := by
  obtain ⟨instr, found, label⟩ := Option.bind_eq_some_iff.mp labelled
  cases node with
  | zero => cases found
  | succ index =>
      have inside : instr ∈ instrs := List.mem_of_getElem? found
      have isSome : (instrs.findIdx? fun instr => instr.label? == some text).isSome = true := by
        rw [List.findIdx?_isSome, List.any_eq_true]
        exact ⟨instr, inside, beq_iff_eq.mpr label⟩
      obtain ⟨first, isFirst⟩ := Option.isSome_iff_exists.mp isSome
      obtain ⟨below, isLabel, -⟩ := List.findIdx?_eq_some_iff_getElem.mp isFirst
      have firstLabelled : labelAt instrs (first + 1) = some text := by
        have here : instrAt instrs (first + 1) = some instrs[first] :=
          List.getElem?_eq_getElem below
        rw [labelAt, here]
        exact beq_iff_eq.mp isLabel
      rw [labelNode, isFirst, Option.map_some, labelAt_inj labels firstLabelled labelled]

/-! ## Code -/

/-- The branch around an if with the given condition. -/
inductive Guards (target : LabelName) : String → Instr → Prop where
  | falls (cond : String) : Guards target cond (.branchNot cond target)
  | negated (predicate : String) :
      Guards target (ExecCondition.makeNot predicate) (.branch predicate target)

/--
`LabelCode program exit instrs`: the instructions lower the program and end where
they go on; with an exit, statements at their end may also branch to the label
that stands behind them.
-/
inductive LabelCode : Stmt → Option LabelName → List Instr → Prop where
  | plain (node : BackendNode) (exit : Option LabelName) : LabelCode (.plain node) exit [.plain node]
  | seq {first second : Stmt} {exit : Option LabelName} {left right : List Instr}
      (head : LabelCode first none left) (tail : LabelCode second exit right) :
      LabelCode (.seq first second) exit (left ++ right)
  | ifThen {cond : String} {body : Stmt} {target : LabelName} {instr : Instr} {code : List Instr}
      (guard : Guards target cond instr) (inner : LabelCode body (some target) code) :
      LabelCode (.ifThen cond body) (some target) (instr :: code)
  | ifElse {cond : String} {body other : Stmt} {otherwise target : LabelName} {instr : Instr}
      {left right : List Instr} (guard : Guards otherwise cond instr)
      (inner : LabelCode body none left) (elseInner : LabelCode other (some target) right) :
      LabelCode (.ifElse cond body other) (some target)
        (instr :: (left ++ .jump target :: .label otherwise :: right))
  | close {program : Stmt} {target : LabelName} {code : List Instr} (exit : Option LabelName)
      (inner : LabelCode program (some target) code) :
      LabelCode program exit (code ++ [.label target])

/-- The code of a whole program, with or without an end of program. -/
structure WholeLabelCode (program : Stmt) (instrs : List Instr) : Prop where
  code : ∃ code ending, instrs = code ++ ending ∧ LabelCode program none code ∧
    (ending = [] ∨ ending = [.endPgm])
  labels : (instrs.filterMap Instr.label?).Nodup

theorem Guards.target {target : LabelName} {cond : String} {instr : Instr}
    (guard : Guards target cond instr) : instr.target? = some target.text := by
  cases guard <;> rfl

/-- Instructions that go on to the next one. -/
def Instr.goesOn (instr : Instr) : Bool := !instr.isJump && !instr.isEndPgm

theorem Guards.goesOn {target : LabelName} {cond : String} {instr : Instr}
    (guard : Guards target cond instr) : instr.goesOn = true := by
  cases guard <;> rfl

theorem Guards.plain {target : LabelName} {cond : String} {instr : Instr}
    (guard : Guards target cond instr) : instr.isPlain = false := by
  cases guard <;> rfl

theorem Guards.label {target : LabelName} {cond : String} {instr : Instr}
    (guard : Guards target cond instr) : instr.label? = none := by
  cases guard <;> rfl

namespace LabelCode

variable {program : Stmt} {exit : Option LabelName} {code : List Instr}

theorem kinds (form : LabelCode program exit code) :
    ∀ instr ∈ code, instr.isMask = false ∧ instr.isEndPgm = false := by
  have guarded {target : LabelName} {cond : String} {instr : Instr}
      (guard : Guards target cond instr) : instr.isMask = false ∧ instr.isEndPgm = false := by
    cases guard <;> exact ⟨rfl, rfl⟩
  induction form with
  | plain node exit => exact List.forall_mem_singleton.mpr ⟨rfl, rfl⟩
  | seq head tail headIh tailIh => exact List.forall_mem_append.mpr ⟨headIh, tailIh⟩
  | ifThen guard inner ih => exact List.forall_mem_cons.mpr ⟨guarded guard, ih⟩
  | ifElse guard inner elseInner bodyIh otherIh =>
      exact List.forall_mem_cons.mpr ⟨guarded guard, List.forall_mem_append.mpr ⟨bodyIh,
        List.forall_mem_cons.mpr ⟨⟨rfl, rfl⟩, List.forall_mem_cons.mpr ⟨⟨rfl, rfl⟩, otherIh⟩⟩⟩⟩
  | close exit inner ih =>
      exact List.forall_mem_append.mpr ⟨ih, List.forall_mem_singleton.mpr ⟨rfl, rfl⟩⟩

/-- Every branch finds its label in the code or is one to its exit. -/
theorem finds (form : LabelCode program exit code) :
    ∀ text ∈ code.filterMap Instr.target?,
      text ∈ code.filterMap Instr.label? ∨ text ∈ exit.map LabelName.text := by
  have guarded {target : LabelName} {cond : String} {instr : Instr} {rest : List Instr}
      (guard : Guards target cond instr) :
      (instr :: rest).filterMap Instr.target? = target.text :: rest.filterMap Instr.target? ∧
        (instr :: rest).filterMap Instr.label? = rest.filterMap Instr.label? :=
    ⟨List.filterMap_cons_some guard.target, List.filterMap_cons_none guard.label⟩
  induction form with
  | plain node exit => rintro text ⟨⟩
  | seq head tail headIh tailIh =>
      rintro text inside
      rw [List.filterMap_append] at inside ⊢
      rcases List.mem_append.mp inside with inHead | inTail
      · rcases headIh text inHead with found | outside
        · exact .inl (List.mem_append_left _ found)
        · cases outside
      · exact (tailIh text inTail).imp_left (List.mem_append_right _)
  | ifThen guard inner ih =>
      rintro text inside
      rw [(guarded guard).1] at inside
      rw [(guarded guard).2]
      rcases List.mem_cons.mp inside with rfl | inCode
      · exact .inr rfl
      · exact ih text inCode
  | @ifElse cond body other otherwise target instr left right guard inner elseInner bodyIh otherIh =>
      rintro text inside
      rw [(guarded guard).1, List.filterMap_append] at inside
      rw [(guarded guard).2, List.filterMap_append]
      rcases List.mem_cons.mp inside with rfl | inCode
      · exact .inl (List.mem_append_right _ List.mem_cons_self)
      rcases List.mem_append.mp inCode with inBody | inRest
      · rcases bodyIh text inBody with found | outside
        · exact .inl (List.mem_append_left _ found)
        · cases outside
      rcases List.mem_cons.mp inRest with rfl | inOther
      · exact .inr rfl
      · exact (otherIh text inOther).imp_left fun found =>
          List.mem_append_right _ (List.mem_cons_of_mem _ found)
  | @close program target code exit inner ih =>
      rintro text inside
      rw [List.filterMap_append] at inside ⊢
      rcases List.mem_append.mp inside with inCode | inLabel
      · rcases ih text inCode with found | isExit
        · exact .inl (List.mem_append_left _ found)
        · cases isExit
          exact .inl (List.mem_append_right _ List.mem_cons_self)
      · cases inLabel

/-- Code starts with an instruction that is no label. -/
theorem head_label (form : LabelCode program exit code) :
    ∃ first, code[0]? = some first ∧ first.label? = none := by
  induction form with
  | plain node exit => exact ⟨_, rfl, rfl⟩
  | seq head tail headIh tailIh =>
      obtain ⟨first, here, label⟩ := headIh
      exact ⟨first, by rw [List.getElem?_append_left (List.getElem?_eq_some_iff.mp here).1, here],
        label⟩
  | ifThen guard inner ih => exact ⟨_, rfl, guard.label⟩
  | ifElse guard inner elseInner bodyIh otherIh => exact ⟨_, rfl, guard.label⟩
  | close exit inner ih =>
      obtain ⟨first, here, label⟩ := ih
      exact ⟨first, by rw [List.getElem?_append_left (List.getElem?_eq_some_iff.mp here).1, here],
        label⟩

theorem length_pos (form : LabelCode program exit code) : 0 < code.length := by
  obtain ⟨first, here, -⟩ := form.head_label
  exact (List.getElem?_eq_some_iff.mp here).1

/-- The last instruction goes on to what follows. -/
theorem last_goesOn (form : LabelCode program exit code) :
    ∃ last, code[code.length - 1]? = some last ∧ last.goesOn = true := by
  have behind {front back : List Instr} {last : Instr} (some : 0 < back.length)
      (found : back[back.length - 1]? = .some last) :
      (front ++ back)[(front ++ back).length - 1]? = .some last := by
    rw [List.getElem?_append_right (by simp; omega), ← found]
    congr 1
    simp
    omega
  induction form with
  | plain node exit => exact ⟨_, rfl, rfl⟩
  | seq head tail headIh tailIh =>
      obtain ⟨last, found, ends⟩ := tailIh
      exact ⟨last, behind tail.length_pos found, ends⟩
  | @ifThen cond body target instr code guard inner ih =>
      obtain ⟨last, found, ends⟩ := ih
      exact ⟨last, @behind [instr] _ _ inner.length_pos found, ends⟩
  | @ifElse cond body other otherwise target instr left right guard inner elseInner bodyIh otherIh =>
      obtain ⟨last, found, ends⟩ := otherIh
      refine ⟨last, ?_, ends⟩
      have all : instr :: (left ++ .jump target :: .label otherwise :: right) =
          (instr :: left ++ [.jump target, .label otherwise]) ++ right := by simp
      rw [all]
      exact behind elseInner.length_pos found
  | @close program target code exit inner ih =>
      exact ⟨.label target, @behind code [.label target] _ Nat.zero_lt_one rfl, rfl⟩

end LabelCode

/-! ## Code inside a program -/

/-- The instructions stand in the program from a node on. -/
def CodeAt (instrs : List Instr) (base : Nat) (code : List Instr) : Prop :=
  ∀ index instr, code[index]? = some instr → instrAt instrs (base + index) = some instr

namespace CodeAt

variable {instrs : List Instr} {base : Nat} {left right : List Instr} {instr : Instr}

theorem append_left (placed : CodeAt instrs base (left ++ right)) : CodeAt instrs base left :=
  fun index instr found => placed index instr (by
    rw [List.getElem?_append_left (List.getElem?_eq_some_iff.mp found).1, found])

theorem append_right (placed : CodeAt instrs base (left ++ right)) :
    CodeAt instrs (base + left.length) right := fun index instr found => by
  rw [Nat.add_assoc]
  exact placed (left.length + index) instr (by
    rw [List.getElem?_append_right (Nat.le_add_right ..), Nat.add_sub_cancel_left, found])

theorem head (placed : CodeAt instrs base (instr :: right)) : instrAt instrs base = some instr :=
  placed 0 instr rfl

theorem tail (placed : CodeAt instrs base (instr :: right)) : CodeAt instrs (base + 1) right :=
  @append_right instrs base [instr] right placed

end CodeAt

section Ends

variable {instrs code : List Instr} {base : Nat} {program : Stmt} {exit : Option LabelName}

theorem CodeAt.starts (placed : CodeAt instrs base code) (form : LabelCode program exit code) :
    ∃ start, instrAt instrs base = some start ∧ labelAt instrs base = none := by
  obtain ⟨start, here, label⟩ := form.head_label
  have found := placed 0 start here
  exact ⟨start, found, (labelAt_eq found).trans label⟩

theorem CodeAt.finishes (placed : CodeAt instrs base code) (form : LabelCode program exit code) :
    ∃ last instr, last + 1 = base + code.length ∧ instrAt instrs last = some instr ∧
      instr.goesOn = true := by
  obtain ⟨instr, here, goesOn⟩ := form.last_goesOn
  have size := form.length_pos
  exact ⟨_, instr, by omega, placed _ instr here, goesOn⟩

end Ends

theorem codeAt_left (code ending : List Instr) : CodeAt (code ++ ending) firstNode code := by
  rintro index instr found
  rw [Nat.add_comm]
  change (code ++ ending)[index]? = some instr
  rw [List.getElem?_append_left (List.getElem?_eq_some_iff.mp found).1, found]

/-- The places of the parts of an if-else. -/
structure ElsePlaces (instrs : List Instr) (base : Nat) (instr : Instr) (left : List Instr)
    (target otherwise : LabelName) (right : List Instr) : Prop where
  branch : instrAt instrs base = some instr
  body : CodeAt instrs (base + 1) left
  jump : instrAt instrs (base + 1 + left.length) = some (.jump target)
  label : instrAt instrs (base + 1 + left.length + 1) = some (.label otherwise)
  other : CodeAt instrs (base + 1 + left.length + 1 + 1) right
  size : base + (instr :: (left ++ .jump target :: .label otherwise :: right)).length =
    base + 1 + left.length + 1 + 1 + right.length

theorem CodeAt.ifElse {instrs : List Instr} {base : Nat} {instr : Instr} {left right : List Instr}
    {target otherwise : LabelName}
    (placed : CodeAt instrs base (instr :: (left ++ .jump target :: .label otherwise :: right))) :
    ElsePlaces instrs base instr left target otherwise right where
  branch := placed.head
  body := placed.tail.append_left
  jump := placed.tail.append_right.head
  label := placed.tail.append_right.tail.head
  other := placed.tail.append_right.tail.tail
  size := by
    simp only [List.length_cons, List.length_append]
    omega

/-- Every branch of the code goes forward, to a label inside it or to its exit. -/
def Lands (instrs : List Instr) (base : Nat) (code : List Instr) (exit : Option LabelName) :
    Prop :=
  ∀ (source target : Nat) (text : String), base ≤ source → source < base + code.length →
    targetAt instrs source = some text → labelAt instrs target = some text →
    source + 1 < target ∧ target ≤ base + code.length ∧
      (exit = none → target < base + code.length)

theorem LabelCode.lands {instrs : List Instr} (labels : (instrs.filterMap Instr.label?).Nodup)
    {program : Stmt} {exit : Option LabelName} {code : List Instr}
    (form : LabelCode program exit code) {base : Nat} (placed : CodeAt instrs base code)
    (exits : ∀ target, exit = some target →
      labelAt instrs (base + code.length) = some target.text) : Lands instrs base code exit := by
  induction form generalizing base with
  | plain node exit =>
      rintro source target text above below branched -
      have here : source = base := by
        rw [List.length_singleton] at below
        omega
      rw [here, targetAt_eq placed.head] at branched
      cases branched
  | @seq first second exit left right head tail headIh tailIh =>
      rintro source target text above below branched labelled
      rw [List.length_append, ← Nat.add_assoc] at below exits ⊢
      by_cases inLeft : source < base + left.length
      · obtain ⟨later, -, inside⟩ := headIh placed.append_left nofun source target text above inLeft
          branched labelled
        have short := inside rfl
        exact ⟨later, by omega, fun _ => by omega⟩
      · exact tailIh placed.append_right exits source target text (Nat.le_of_not_lt inLeft) below
          branched labelled
  | @ifThen cond body target instr code guard inner ih =>
      rintro source node text above below branched labelled
      rw [List.length_cons, Nat.add_comm code.length, ← Nat.add_assoc] at below exits ⊢
      by_cases here : source = base
      · rw [here, targetAt_eq placed.head, guard.target] at branched
        cases branched
        cases labelAt_inj labels labelled (exits target rfl)
        have some := inner.length_pos
        exact ⟨by omega, Nat.le_refl _, nofun⟩
      · obtain ⟨later, inside, -⟩ := ih placed.tail exits source node text (by omega) below branched
          labelled
        exact ⟨later, inside, nofun⟩
  | @ifElse cond body other otherwise target instr left right guard inner elseInner bodyIh otherIh =>
      rintro source node text above below branched labelled
      have places := placed.ifElse
      have someLeft := inner.length_pos
      have someRight := elseInner.length_pos
      rw [places.size] at below exits ⊢
      have isOtherwise : labelAt instrs (base + 1 + left.length + 1) = some otherwise.text :=
        labelAt_eq places.label
      by_cases atBranch : source = base
      · rw [atBranch, targetAt_eq places.branch, guard.target] at branched
        cases branched
        cases labelAt_inj labels labelled isOtherwise
        exact ⟨by omega, by omega, nofun⟩
      by_cases inBody : source < base + 1 + left.length
      · obtain ⟨later, -, inside⟩ := bodyIh places.body nofun source node text (by omega) inBody
          branched labelled
        have short := inside rfl
        exact ⟨later, by omega, nofun⟩
      by_cases atJump : source = base + 1 + left.length
      · rw [atJump, targetAt_eq places.jump] at branched
        cases branched
        cases labelAt_inj labels labelled (exits target rfl)
        exact ⟨by omega, Nat.le_refl _, nofun⟩
      by_cases atLabel : source = base + 1 + left.length + 1
      · rw [atLabel, targetAt_eq places.label] at branched
        cases branched
      obtain ⟨later, inside, -⟩ := otherIh places.other exits source node text (by omega) below
        branched labelled
      exact ⟨later, inside, nofun⟩
  | @close program target code exit inner ih =>
      rintro source node text above below branched labelled
      rw [List.length_append, List.length_singleton, ← Nat.add_assoc] at below exits ⊢
      have last := placed.append_right.head
      by_cases here : source = base + code.length
      · rw [here, targetAt_eq last] at branched
        cases branched
      · have isLabel : labelAt instrs (base + code.length) = some target.text := labelAt_eq last
        obtain ⟨later, inside, -⟩ := ih placed.append_left (by rintro _ ⟨⟩; exact isLabel) source
          node text above (by omega) branched labelled
        exact ⟨later, by omega, fun _ => by omega⟩

end OpenCLDecompiler
