import Mathlib.Data.List.Perm.Subperm
import Mathlib.Tactic.LinearCombination
import OpenCLDecompiler.Optimizations.Sum

/-!
# When the optimisation keeps the value of a sum

The value of the terms is followed through the cancellation and the foldings; what the
two of them lose is known from the operands.
-/

namespace OpenCLDecompiler.Optimizations

open Expressions Library Registers

variable {τ ι R : Type} [CommRing R]

theorem sum_nodeToListOfSumOfNodes (meaning : Meaning τ ι R) (node : Node τ ι) (opPlus : Bool) :
    Signed.sum (Node.eval meaning) (nodeToListOfSumOfNodes node opPlus) =
      if opPlus then node.eval meaning else -node.eval meaning := by
  fun_induction nodeToListOfSumOfNodes node opPlus with
  | case1 left right hint opPlus ihLeft ihRight =>
      rw [Signed.sum_append, ihLeft, ihRight, Node.eval_plus]
      cases opPlus
      · exact (neg_add ..).symm
      · rfl
  | case2 left right hint opPlus ihLeft ihRight =>
      rw [Signed.sum_append, ihLeft, ihRight, Node.eval_minus]
      cases opPlus
      · simp [neg_add_eq_sub]
      · simp [sub_eq_add_neg]
  | case3 node opPlus => simp [Signed.value]

variable [DecidableEq τ] [DecidableEq ι]

/-- The signed terms of both operands. -/
def operandTerms (left right : Node τ ι) : List (NodeSumInfo τ ι) :=
  nodeToListOfSumOfNodes left true ++ nodeToListOfSumOfNodes right true

omit [DecidableEq τ] [DecidableEq ι] in
theorem sum_operandTerms (meaning : Meaning τ ι R) (left right : Node τ ι) :
    Signed.sum (Node.eval meaning) (operandTerms left right) =
      left.eval meaning + right.eval meaning := by
  rw [operandTerms, Signed.sum_append, sum_nodeToListOfSumOfNodes, sum_nodeToListOfSumOfNodes]
  rfl

/-! ## Folding -/

theorem remove_of_mem {result : List (NodeSumInfo τ ι)} {info : NodeSumInfo τ ι}
    (inside : info ∈ result) : remove result info = some (result.erase info) := if_pos inside

/-- What is left of a list that holds `info :: others` when `info` is removed. -/
theorem remove_of_subperm {result others : List (NodeSumInfo τ ι)} {info : NodeSumInfo τ ι}
    (holds : (info :: others).Subperm result) :
    ∃ after, remove result info = some after ∧ others.Subperm after ∧
      result.Perm (info :: after) := by
  have inside : info ∈ result := holds.subset List.mem_cons_self
  refine ⟨_, remove_of_mem inside, ?_, List.perm_cons_erase inside⟩
  have erased := holds.erase info
  rwa [List.erase_cons_head] at erased

theorem foldGlobalIds_spec (dim : Dim) (lArray gArray wArray result others : List (NodeSumInfo τ ι))
    (holds : (lArray ++ (gArray ++ (wArray ++ others))).Subperm result) {count : Nat}
    (steps : count = min (min lArray.length gArray.length) wArray.length) :
    ∃ after, foldGlobalIds dim lArray gArray wArray result = some (after, wArray.drop count) ∧
      (result ++ List.replicate count (⟨true, .workItem (.globalId dim)⟩ : NodeSumInfo τ ι)).Perm
        (lArray.take count ++ (gArray.take count ++ (wArray.take count ++ after))) ∧
      (wArray.drop count ++ others).Subperm after := by
  induction lArray generalizing gArray wArray result count with
  | nil =>
      obtain rfl : count = 0 := by simpa using steps
      refine ⟨result, by simp [foldGlobalIds], by simp, ?_⟩
      rw [List.drop_zero]
      exact ((List.sublist_append_right gArray _).subperm).trans holds
  | cons l lArray ih =>
      cases gArray with
      | nil =>
          obtain rfl : count = 0 := by simpa using steps
          refine ⟨result, by simp [foldGlobalIds], by simp, ?_⟩
          rw [List.drop_zero]
          exact ((List.sublist_append_right (l :: lArray) _).subperm).trans holds
      | cons g gArray =>
          cases wArray with
          | nil =>
              obtain rfl : count = 0 := by simpa using steps
              refine ⟨result, by simp [foldGlobalIds], by simp, ?_⟩
              exact ((List.sublist_append_right ((l :: lArray) ++ (g :: gArray)) others).subperm).trans
                (by simpa using holds)
          | cons w wArray =>
              -- One round: `l`, `g` and `w` go, a global id comes.
              have moved : (l :: g :: w :: (lArray ++ (gArray ++ (wArray ++ others)))).Subperm
                  result := by
                refine (List.Perm.subperm_right (List.perm_iff_count.mpr fun info => ?_)).mp holds
                simp only [List.count_append, List.count_cons]
                omega
              obtain ⟨result₁, remove₁, holds₁, perm₁⟩ := remove_of_subperm moved
              obtain ⟨result₂, remove₂, holds₂, perm₂⟩ := remove_of_subperm holds₁
              obtain ⟨result₃, remove₃, holds₃, perm₃⟩ := remove_of_subperm holds₂
              obtain ⟨after, folds, perm, rest⟩ := ih gArray wArray
                (result₃ ++ [⟨true, .workItem (.globalId dim)⟩])
                (holds₃.trans (List.sublist_append_left _ _).subperm) rfl
              obtain rfl : count = min (min lArray.length gArray.length) wArray.length + 1 := by
                simp only [List.length_cons] at steps
                omega
              refine ⟨after, ?_, ?_, rest⟩
              · rw [foldGlobalIds, remove₁]
                simp only [Option.bind_eq_bind, Option.bind_some, remove₂, remove₃]
                exact folds
              · refine List.perm_iff_count.mpr fun info => ?_
                have counts₁ := List.perm_iff_count.mp perm₁ info
                have counts₂ := List.perm_iff_count.mp perm₂ info
                have counts₃ := List.perm_iff_count.mp perm₃ info
                have counts := List.perm_iff_count.mp perm info
                simp only [List.count_append, List.count_cons, List.count_nil, List.take_succ_cons,
                  List.replicate_succ] at counts₁ counts₂ counts₃ counts ⊢
                omega

theorem foldGlobalSizes_spec (dim : Dim) (wArray numGroups result : List (NodeSumInfo τ ι))
    (holds : (wArray ++ numGroups).Subperm result) {count : Nat}
    (steps : count = min wArray.length numGroups.length) :
    ∃ after, foldGlobalSizes dim wArray numGroups result = some after ∧
      (result ++ List.replicate count (⟨true, .workItem (.globalSize dim)⟩ : NodeSumInfo τ ι)).Perm
        (wArray.take count ++ (numGroups.take count ++ after)) := by
  induction wArray generalizing numGroups result count with
  | nil =>
      obtain rfl : count = 0 := by simpa using steps
      exact ⟨result, by simp [foldGlobalSizes], by simp⟩
  | cons w wArray ih =>
      cases numGroups with
      | nil =>
          obtain rfl : count = 0 := by simpa using steps
          exact ⟨result, by simp [foldGlobalSizes], by simp⟩
      | cons n numGroups =>
          have moved : (n :: w :: (wArray ++ numGroups)).Subperm result := by
            refine (List.Perm.subperm_right (List.perm_iff_count.mpr fun info => ?_)).mp holds
            simp only [List.count_append, List.count_cons]
            omega
          obtain ⟨result₁, remove₁, holds₁, perm₁⟩ := remove_of_subperm moved
          obtain ⟨result₂, remove₂, holds₂, perm₂⟩ := remove_of_subperm holds₁
          obtain ⟨after, folds, perm⟩ := ih numGroups (result₂ ++ [⟨true, .workItem (.globalSize dim)⟩])
            (holds₂.trans (List.sublist_append_left _ _).subperm) rfl
          obtain rfl : count = min wArray.length numGroups.length + 1 := by
            simp only [List.length_cons] at steps
            omega
          refine ⟨after, ?_, ?_⟩
          · rw [foldGlobalSizes, remove₁]
            simp only [Option.bind_eq_bind, Option.bind_some, remove₂]
            exact folds
          · refine List.perm_iff_count.mpr fun info => ?_
            have counts₁ := List.perm_iff_count.mp perm₁ info
            have counts₂ := List.perm_iff_count.mp perm₂ info
            have counts := List.perm_iff_count.mp perm info
            simp only [List.count_append, List.count_cons, List.count_nil, List.take_succ_cons,
              List.replicate_succ] at counts₁ counts₂ counts ⊢
            omega

/-! ## One dimension -/

def WorkItemFunction.dim : WorkItemFunction → Option Dim
  | .globalId dim | .workGroupId dim | .workItemId dim | .globalOffset dim | .localSize dim
  | .globalSize dim | .numGroups dim => some dim
  | .workDim => none

/-- The dimension whose folding may take the term away. -/
def dimOf (info : NodeSumInfo τ ι) : Option Dim :=
  match info.term with
  | .workItem function => function.dim
  | .op .mul (.workItem (.workGroupId dim)) (.workItem (.localSize _)) _ => some dim
  | .op .mul (.workItem (.localSize dim)) (.workItem (.workGroupId _)) _ => some dim
  | .op .mul (.workItem (.numGroups dim)) (.const _ _) _ => some dim
  | .op .mul (.const _ _) (.workItem (.numGroups dim)) _ => some dim
  | _ => none

omit [DecidableEq τ] [DecidableEq ι] in
theorem of_hasType_function {function : WorkItemFunction} {info : NodeSumInfo τ ι}
    (typed : hasType (.function function) info = true) : info = ⟨true, .workItem function⟩ := by
  obtain ⟨plus, term⟩ := info
  simp only [hasType, Bool.and_eq_true, decide_eq_true_eq] at typed
  obtain ⟨type, rfl⟩ := typed
  unfold Node.regType at type
  split at type
  · cases type
    rfl
  · split at type <;> cases type
  · split at type <;> cases type
  · cases type

omit [DecidableEq τ] [DecidableEq ι] in
theorem of_hasType_workGroupIdLocalSize {dim : Dim} {info : NodeSumInfo τ ι}
    (typed : hasType (.workGroupIdLocalSize dim) info = true) : info.plus = true ∧
      ∃ hint, info.term = .op .mul (.workItem (.workGroupId dim)) (.workItem (.localSize dim)) hint ∨
        info.term = .op .mul (.workItem (.localSize dim)) (.workItem (.workGroupId dim)) hint := by
  obtain ⟨plus, term⟩ := info
  simp only [hasType, Bool.and_eq_true, decide_eq_true_eq] at typed
  obtain ⟨type, rfl⟩ := typed
  refine ⟨rfl, ?_⟩
  unfold Node.regType at type
  split at type
  · cases type
  · split at type
    · rename_i same
      cases type
      subst same
      exact ⟨_, .inl rfl⟩
    · cases type
  · split at type
    · rename_i same
      cases type
      subst same
      exact ⟨_, .inr rfl⟩
    · cases type
  · cases type

omit [DecidableEq τ] [DecidableEq ι] in
theorem of_isNumGroupsMulSize {sizes : Dim → Int} {dim : Dim} {info : NodeSumInfo τ ι}
    (num : isNumGroupsMulSize sizes dim info = true) : info.plus = true ∧
      ∃ value constHint hint, value.equals (sizes dim) = true ∧
        (info.term = .op .mul (.workItem (.numGroups dim)) (.const value constHint) hint ∨
          info.term = .op .mul (.const value constHint) (.workItem (.numGroups dim)) hint) := by
  obtain ⟨plus, term⟩ := info
  rw [isNumGroupsMulSize, Bool.and_eq_true] at num
  obtain ⟨rfl, num⟩ := num
  refine ⟨rfl, ?_⟩
  dsimp only at num
  split at num
  · rw [Bool.and_eq_true, decide_eq_true_eq] at num
    obtain ⟨rfl, size⟩ := num
    exact ⟨_, _, _, size, .inl rfl⟩
  · rw [Bool.and_eq_true, decide_eq_true_eq] at num
    obtain ⟨rfl, size⟩ := num
    exact ⟨_, _, _, size, .inr rfl⟩
  · cases num

omit [DecidableEq τ] [DecidableEq ι] in
theorem value_workGroupIdLocalSize (meaning : Meaning τ ι R) {dim : Dim} {info : NodeSumInfo τ ι}
    (typed : hasType (.workGroupIdLocalSize dim) info = true) :
    info.value (Node.eval meaning) = meaning.groupId dim * meaning.localSize dim := by
  obtain ⟨plus, hint, term | term⟩ := of_hasType_workGroupIdLocalSize typed
  · rw [Signed.value, if_pos plus, term]
    rfl
  · rw [Signed.value, if_pos plus, term]
    exact mul_comm ..

omit [DecidableEq τ] [DecidableEq ι] in
theorem value_numGroupsMulSize (meaning : Meaning τ ι R) {sizes : Dim → Int}
    (configured : meaning.Configured sizes) {dim : Dim} {info : NodeSumInfo τ ι}
    (num : isNumGroupsMulSize sizes dim info = true) :
    info.value (Node.eval meaning) = meaning.numGroups dim * meaning.localSize dim := by
  obtain ⟨plus, value, constHint, hint, size, term | term⟩ := of_isNumGroupsMulSize num
  · rw [Signed.value, if_pos plus, term, configured dim, ← value.eval_of_equals size]
    rfl
  · rw [Signed.value, if_pos plus, term, configured dim, ← value.eval_of_equals size]
    exact mul_comm ..

omit [DecidableEq τ] [DecidableEq ι] in
theorem dimOf_of_workGroupIdLocalSize {dim : Dim} {info : NodeSumInfo τ ι}
    (typed : hasType (.workGroupIdLocalSize dim) info = true) : dimOf info = some dim := by
  obtain ⟨-, hint, term | term⟩ := of_hasType_workGroupIdLocalSize typed <;> rw [dimOf, term]

omit [DecidableEq τ] [DecidableEq ι] in
theorem dimOf_of_numGroupsMulSize {sizes : Dim → Int} {dim : Dim} {info : NodeSumInfo τ ι}
    (num : isNumGroupsMulSize sizes dim info = true) : dimOf info = some dim := by
  obtain ⟨-, value, constHint, hint, -, term | term⟩ := of_isNumGroupsMulSize num <;> rw [dimOf, term]

omit [DecidableEq τ] [DecidableEq ι] in
theorem regType_of_numGroupsMulSize {sizes : Dim → Int} {dim : Dim} {info : NodeSumInfo τ ι}
    (num : isNumGroupsMulSize sizes dim info = true) : info.term.regType = none := by
  obtain ⟨-, value, constHint, hint, -, term | term⟩ := of_isNumGroupsMulSize num <;> rw [term] <;> rfl

omit [DecidableEq τ] [DecidableEq ι] in
theorem regType_of_hasType {type : SumType} {info : NodeSumInfo τ ι}
    (typed : hasType type info = true) : info.term.regType = some type := by
  rw [hasType, Bool.and_eq_true, decide_eq_true_eq] at typed
  exact typed.1

theorem count_filter_eq_ite (keep : NodeSumInfo τ ι → Bool) (terms : List (NodeSumInfo τ ι))
    (info : NodeSumInfo τ ι) :
    (terms.filter keep).count info = if keep info then terms.count info else 0 := by
  split
  · exact List.count_filter (by assumption)
  · refine List.count_eq_zero.mpr fun inside => ?_
    exact absurd (List.mem_filter.mp inside).2 (by assumption)

/-- The arrays of a dimension are parts of the result that do not overlap. -/
theorem arrays_subperm (sizes : Dim → Int) (dim : Dim) (result mulNodesInfo : List (NodeSumInfo τ ι))
    (nums : ∀ info, isNumGroupsMulSize sizes dim info = true →
      mulNodesInfo.count info = result.count info) :
    (result.filter (hasType (.function (.workItemId dim))) ++
      (result.filter (hasType (.function (.globalOffset dim))) ++
        (result.filter (hasType (.workGroupIdLocalSize dim)) ++
          mulNodesInfo.filter (isNumGroupsMulSize sizes dim)))).Subperm result := by
  refine List.subperm_ext_iff.mpr fun info _ => ?_
  simp only [List.count_append, count_filter_eq_ite]
  -- The type of the term tells the arrays apart.
  have apart : ∀ first second : SumType, first ≠ second → hasType first info = true →
      hasType second info = false := by
    intro first second different one
    by_contra two
    rw [Bool.not_eq_false] at two
    have same := (regType_of_hasType one).symm.trans (regType_of_hasType two)
    exact different (Option.some.inj same)
  have noNum : ∀ type, hasType type info = true → isNumGroupsMulSize sizes dim info = false := by
    intro type typed
    by_contra num
    rw [Bool.not_eq_false] at num
    have same := (regType_of_hasType typed).symm.trans (regType_of_numGroupsMulSize num)
    cases same
  by_cases local' : hasType (.function (.workItemId dim)) info = true
  · simp [local', apart _ (.function (.globalOffset dim)) (by simp) local',
      apart _ (.workGroupIdLocalSize dim) (by simp) local', noNum _ local']
  by_cases offset : hasType (.function (.globalOffset dim)) info = true
  · simp [local', offset, apart _ (.workGroupIdLocalSize dim) (by simp) offset, noNum _ offset]
  by_cases group : hasType (.workGroupIdLocalSize dim) info = true
  · simp [local', offset, group, noNum _ group]
  by_cases num : isNumGroupsMulSize sizes dim info = true
  · simp [local', offset, group, num, nums info num]
  · simp [local', offset, group, num]

/-! ### Values -/

omit [DecidableEq τ] [DecidableEq ι] in
theorem sum_eq_nsmul (meaning : Meaning τ ι R) (terms : List (NodeSumInfo τ ι)) (value : R)
    (each : ∀ info ∈ terms, info.value (Node.eval meaning) = value) :
    Signed.sum (Node.eval meaning) terms = terms.length • value := by
  induction terms with
  | nil => simp
  | cons info rest ih =>
      rw [Signed.sum_cons, each info List.mem_cons_self,
        ih fun other inside => each other (List.mem_cons_of_mem _ inside), List.length_cons,
        succ_nsmul, add_comm]

omit [DecidableEq τ] [DecidableEq ι] in
theorem sum_part_filter (meaning : Meaning τ ι R) {keep : NodeSumInfo τ ι → Bool} {value : R}
    (each : ∀ info, keep info = true → info.value (Node.eval meaning) = value)
    {part terms : List (NodeSumInfo τ ι)} (sub : part.Sublist (terms.filter keep)) :
    Signed.sum (Node.eval meaning) part = part.length • value :=
  sum_eq_nsmul meaning part value fun info inside =>
    each info (List.mem_filter.mp (sub.subset inside)).2

omit [DecidableEq τ] [DecidableEq ι] in
theorem sum_replicate (meaning : Meaning τ ι R) (count : Nat) (info : NodeSumInfo τ ι) :
    Signed.sum (Node.eval meaning) (List.replicate count info) =
      count • info.value (Node.eval meaning) := by
  rw [sum_eq_nsmul meaning _ (info.value (Node.eval meaning)) fun other inside => by
    rw [List.eq_of_mem_replicate inside], List.length_replicate]

omit [DecidableEq τ] [DecidableEq ι] in
theorem value_of_hasType_function (meaning : Meaning τ ι R) (function : WorkItemFunction)
    {info : NodeSumInfo τ ι} (typed : hasType (.function function) info = true) :
    info.value (Node.eval meaning) = meaning.function function := by
  rw [of_hasType_function typed]
  rfl

/-! ### The folding -/

/-- How often the rule of the global size takes two terms of a dimension away. -/
def sizeFolds (sizes : Dim → Int) (dim : Dim) (terms : List (NodeSumInfo τ ι)) : Nat :=
  let groups := terms.countP (hasType (.workGroupIdLocalSize dim))
  let ids := min (min (terms.countP (hasType (.function (.workItemId dim))))
    (terms.countP (hasType (.function (.globalOffset dim))))) groups
  min (groups - ids) (terms.countP (isNumGroupsMulSize sizes dim))

theorem perm_filter_of_count {first second : List (NodeSumInfo τ ι)}
    {keep : NodeSumInfo τ ι → Bool}
    (counts : ∀ info, keep info = true → first.count info = second.count info) :
    (first.filter keep).Perm (second.filter keep) := by
  refine List.perm_iff_count.mpr fun info => ?_
  rw [count_filter_eq_ite, count_filter_eq_ite]
  split
  · exact counts info (by assumption)
  · rfl

theorem countP_of_count {first second : List (NodeSumInfo τ ι)} {keep : NodeSumInfo τ ι → Bool}
    (counts : ∀ info, keep info = true → first.count info = second.count info) :
    first.countP keep = second.countP keep := by
  rw [List.countP_eq_length_filter, List.countP_eq_length_filter]
  exact (perm_filter_of_count counts).length_eq

/-- The value that the rule of the global size forgets. -/
def Meaning.forgotten (meaning : Meaning τ ι R) (sizes : Dim → Int) (dim : Dim)
    (terms : List (NodeSumInfo τ ι)) : R :=
  sizeFolds sizes dim terms • (meaning.groupId dim * meaning.localSize dim)

theorem count_eq_zero_of_dim {keep : NodeSumInfo τ ι → Bool} {dim : Dim}
    (only : ∀ info, keep info = true → dimOf info = some dim) {part terms : List (NodeSumInfo τ ι)}
    (sub : part.Sublist (terms.filter keep)) {info : NodeSumInfo τ ι}
    (other : dimOf info ≠ some dim) : part.count info = 0 := by
  refine List.count_eq_zero.mpr fun inside => other (only info ?_)
  exact (List.mem_filter.mp (sub.subset inside)).2

omit [DecidableEq τ] [DecidableEq ι] in
theorem dimOf_of_hasType_function (function : WorkItemFunction) {dim : Dim}
    (ofDim : function.dim = some dim) {info : NodeSumInfo τ ι}
    (typed : hasType (.function function) info = true) : dimOf info = some dim := by
  rw [of_hasType_function typed]
  exact ofDim

/-- What one dimension keeps, and the only value that it changes. -/
theorem foldDim_spec (sizes : Dim → Int) (dim : Dim) (result mulNodesInfo : List (NodeSumInfo τ ι))
    (nums : ∀ info, isNumGroupsMulSize sizes dim info = true →
      mulNodesInfo.count info = result.count info) :
    ∃ after, foldDim sizes mulNodesInfo result dim = some after ∧
      (∀ info, dimOf info ≠ some dim → after.count info = result.count info) ∧
      (after = [] → result = []) ∧
      ∀ meaning : Meaning τ ι R, meaning.Configured sizes →
        Signed.sum (Node.eval meaning) after =
          Signed.sum (Node.eval meaning) result - meaning.forgotten sizes dim result := by
  have arrays := arrays_subperm sizes dim result mulNodesInfo nums
  obtain ⟨middle, idsFold, idsPerm, holds⟩ := foldGlobalIds_spec dim _ _ _ result _ arrays rfl
  obtain ⟨after, sizesFold, sizesPerm⟩ := foldGlobalSizes_spec dim _ _ middle holds rfl
  have numsLength : (mulNodesInfo.filter (isNumGroupsMulSize sizes dim)).length =
      result.countP (isNumGroupsMulSize sizes dim) := by
    rw [(perm_filter_of_count nums).length_eq, List.countP_eq_length_filter]
  refine ⟨after, ?_, ?_, ?_, ?_⟩
  · rw [foldDim, idsFold]
    exact sizesFold
  · intro info other
    have ids := List.perm_iff_count.mp idsPerm info
    have sizes := List.perm_iff_count.mp sizesPerm info
    have newId : info ≠ ⟨true, .workItem (.globalId dim)⟩ := by
      rintro rfl
      exact other rfl
    have newSize : info ≠ ⟨true, .workItem (.globalSize dim)⟩ := by
      rintro rfl
      exact other rfl
    simp only [List.count_append, List.count_replicate, beq_iff_eq, newId.symm, newSize.symm,
      if_false, Nat.add_zero,
      count_eq_zero_of_dim (fun _ typed => dimOf_of_hasType_function
        (.workItemId dim) rfl typed) (List.take_sublist ..) other,
      count_eq_zero_of_dim (fun _ typed => dimOf_of_hasType_function
        (.globalOffset dim) rfl typed) (List.take_sublist ..) other,
      count_eq_zero_of_dim (fun _ typed => dimOf_of_workGroupIdLocalSize typed)
        (List.take_sublist ..) other,
      count_eq_zero_of_dim (fun _ typed => dimOf_of_workGroupIdLocalSize typed)
        ((List.take_sublist ..).trans (List.drop_sublist ..)) other,
      count_eq_zero_of_dim (fun _ num => dimOf_of_numGroupsMulSize num)
        (List.take_sublist ..) other, Nat.zero_add] at ids sizes
    rw [← sizes, ← ids]
  · rintro rfl
    have ids := idsPerm.length_eq
    have sizes := sizesPerm.length_eq
    have few := arrays.length_le
    simp only [List.length_append, List.length_replicate, List.length_take, List.length_drop,
      List.length_nil] at ids sizes few
    refine List.length_eq_zero_iff.mp ?_
    omega
  · intro meaning configured
    have ids := Signed.sum_perm (Node.eval meaning) idsPerm
    have folds := Signed.sum_perm (Node.eval meaning) sizesPerm
    simp only [Signed.sum_append, sum_replicate,
      sum_part_filter meaning (fun _ typed => value_of_hasType_function meaning
        (.workItemId dim) typed) (List.take_sublist ..),
      sum_part_filter meaning (fun _ typed => value_of_hasType_function meaning
        (.globalOffset dim) typed) (List.take_sublist ..),
      sum_part_filter meaning (fun _ typed => value_workGroupIdLocalSize meaning typed)
        (List.take_sublist ..),
      sum_part_filter meaning (fun _ typed => value_workGroupIdLocalSize meaning typed)
        ((List.take_sublist ..).trans (List.drop_sublist ..)),
      sum_part_filter meaning (fun _ num => value_numGroupsMulSize meaning configured num)
        (List.take_sublist ..)] at ids folds
    simp only [List.length_take, List.length_drop, numsLength, ← List.countP_eq_length_filter]
      at ids folds
    rw [Meaning.forgotten, sizeFolds]
    generalize result.countP (hasType (.function (.workItemId dim))) = l at ids folds ⊢
    generalize result.countP (hasType (.function (.globalOffset dim))) = g at ids folds ⊢
    generalize result.countP (hasType (.workGroupIdLocalSize dim)) = w at ids folds ⊢
    generalize result.countP (isNumGroupsMulSize sizes dim) = n at ids folds ⊢
    have few : min (min (min l g) w) l = min (min l g) w ∧ min (min (min l g) w) g =
        min (min l g) w ∧ min (min (min l g) w) w = min (min l g) w := by omega
    have rest : min (min (w - min (min l g) w) n) (w - min (min l g) w) =
        min (w - min (min l g) w) n ∧ min (min (w - min (min l g) w) n) n =
          min (w - min (min l g) w) n := by omega
    rw [few.1, few.2.1, few.2.2] at ids
    rw [rest.1, rest.2] at folds
    generalize min (w - min (min l g) w) n = fired at folds ⊢
    generalize min (min l g) w = joined at ids
    simp only [Signed.value, if_true, Node.eval, Meaning.function, nsmul_eq_mul] at ids folds ⊢
    linear_combination (-1 : R) * folds - ids

/-! ### All dimensions -/

omit [DecidableEq τ] [DecidableEq ι] in
theorem plus_of_hasType {type : SumType} {info : NodeSumInfo τ ι}
    (typed : hasType type info = true) : info.plus = true := by
  rw [hasType, Bool.and_eq_true] at typed
  exact typed.2

theorem sizeFolds_of_count {sizes : Dim → Int} {dim : Dim} {first second : List (NodeSumInfo τ ι)}
    (counts : ∀ info, info.plus = true → dimOf info = some dim →
      first.count info = second.count info) :
    sizeFolds sizes dim first = sizeFolds sizes dim second := by
  have typed : ∀ type : SumType, (∀ info : NodeSumInfo τ ι, hasType type info = true →
      dimOf info = some dim) → first.countP (hasType type) = second.countP (hasType type) :=
    fun type ofDim => countP_of_count fun info typed =>
      counts info (plus_of_hasType typed) (ofDim info typed)
  unfold sizeFolds
  rw [typed _ fun info => dimOf_of_workGroupIdLocalSize,
    typed (.function (.workItemId dim)) fun info => dimOf_of_hasType_function _ rfl,
    typed (.function (.globalOffset dim)) fun info => dimOf_of_hasType_function _ rfl,
    countP_of_count fun info num =>
      counts info (of_isNumGroupsMulSize num).1 (dimOf_of_numGroupsMulSize num)]

/-- A dimension leaves the terms of the others alone, so their foldings do not meet. -/
theorem foldlM_foldDim_spec (sizes : Dim → Int) (mulNodesInfo : List (NodeSumInfo τ ι))
    (dims : List Dim) (distinct : dims.Nodup) (result : List (NodeSumInfo τ ι))
    (nums : ∀ dim ∈ dims, ∀ info, isNumGroupsMulSize sizes dim info = true →
      mulNodesInfo.count info = result.count info) :
    ∃ after, dims.foldlM (foldDim sizes mulNodesInfo) result = some after ∧
      (after = [] → result = []) ∧
      ∀ meaning : Meaning τ ι R, meaning.Configured sizes →
        Signed.sum (Node.eval meaning) after = Signed.sum (Node.eval meaning) result -
          (dims.map fun dim => meaning.forgotten sizes dim result).sum := by
  induction dims generalizing result with
  | nil => exact ⟨result, rfl, id, fun meaning _ => by simp⟩
  | cons dim dims ih =>
      obtain ⟨middle, folds, counts, empty, value⟩ := foldDim_spec (R := R) sizes dim result
        mulNodesInfo (nums dim List.mem_cons_self)
      have others : ∀ other ∈ dims, ∀ info, dimOf info = some other →
          middle.count info = result.count info := by
        intro other inside info ofOther
        refine counts info fun ofDim => (List.nodup_cons.mp distinct).1 ?_
        rwa [← Option.some.inj (ofOther.symm.trans ofDim)]
      obtain ⟨after, rest, restEmpty, restValue⟩ := ih (List.nodup_cons.mp distinct).2 middle
        fun other inside info num => by
          rw [nums other (List.mem_cons_of_mem _ inside) info num,
            others other inside info (dimOf_of_numGroupsMulSize num)]
      refine ⟨after, ?_, fun none => empty (restEmpty none), fun meaning configured => ?_⟩
      · rw [List.foldlM_cons, folds]
        exact rest
      · have same : (dims.map fun other => meaning.forgotten sizes other middle) =
            dims.map fun other => meaning.forgotten sizes other result := by
          refine List.map_congr_left fun other inside => ?_
          rw [Meaning.forgotten, sizeFolds_of_count fun info _ => others other inside info,
            Meaning.forgotten]
        rw [restValue meaning configured, value meaning configured, same, List.map_cons,
          List.sum_cons, sub_sub]

/-- The value that all the foldings of global sizes forget. -/
def Meaning.forgottenAll (meaning : Meaning τ ι R) (sizes : Dim → Int)
    (terms : List (NodeSumInfo τ ι)) : R :=
  ([Dim.x, .y, .z].map fun dim => meaning.forgotten sizes dim terms).sum

omit [DecidableEq τ] [DecidableEq ι] in
theorem isMul_of_isNumGroupsMulSize {sizes : Dim → Int} {dim : Dim} {info : NodeSumInfo τ ι}
    (num : isNumGroupsMulSize sizes dim info = true) : isMul info = true := by
  obtain ⟨-, value, constHint, hint, -, term | term⟩ := of_isNumGroupsMulSize num <;> rw [isMul, term]

/-- Fewer than two terms fold nothing. -/
theorem sizeFolds_of_length {sizes : Dim → Int} {dim : Dim} {terms : List (NodeSumInfo τ ι)}
    (few : terms.length < 2) : sizeFolds sizes dim terms = 0 := by
  have arrays := (arrays_subperm sizes dim terms terms fun _ _ => rfl).length_le
  simp only [List.length_append, ← List.countP_eq_length_filter] at arrays
  simp only [sizeFolds]
  omega

theorem foldDims_spec (sizes : Dim → Int) (result : List (NodeSumInfo τ ι)) :
    ∃ after, foldDims sizes result = some after ∧ (after = [] → result = []) ∧
      ∀ meaning : Meaning τ ι R, meaning.Configured sizes →
        Signed.sum (Node.eval meaning) after =
          Signed.sum (Node.eval meaning) result - meaning.forgottenAll sizes result := by
  unfold foldDims
  split
  · refine foldlM_foldDim_spec sizes _ _ (by decide) result fun dim _ info num => ?_
    rw [count_filter_eq_ite, if_pos (isMul_of_isNumGroupsMulSize num)]
  · rename_i few
    refine ⟨result, rfl, id, fun meaning _ => ?_⟩
    simp [Meaning.forgottenAll, Meaning.forgotten, sizeFolds_of_length (Nat.lt_of_not_le few)]

/-! ## The node of the terms -/

omit [DecidableEq τ] [DecidableEq ι] in
theorem eval_foldl_addTerm (meaning : Meaning τ ι R) (hint : τ) (rest : List (NodeSumInfo τ ι))
    (curNode : Node τ ι) : (rest.foldl (addTerm hint) curNode).eval meaning =
      curNode.eval meaning + Signed.sum (Node.eval meaning) rest := by
  induction rest generalizing curNode with
  | nil => simp
  | cons info rest ih =>
      have added : (addTerm hint curNode info).eval meaning =
          curNode.eval meaning + info.value (Node.eval meaning) := by
        unfold addTerm Signed.value
        split
        · rename_i zero
          simp [Node.eval_of_constZero meaning zero]
        · split
          · rfl
          · exact sub_eq_add_neg ..
      rw [List.foldl_cons, ih, added, Signed.sum_cons, add_assoc]

omit [DecidableEq τ] [DecidableEq ι] in
/-- Exchanging a member with the term in front of the list. -/
theorem perm_swap_first (first found : NodeSumInfo τ ι) (rest : List (NodeSumInfo τ ι)) (place : Nat)
    (at_place : rest[place]? = some found) :
    (found :: rest.set place first).Perm (first :: rest) := by
  induction rest generalizing place with
  | nil => cases at_place
  | cons head rest ih =>
      cases place with
      | zero =>
          obtain rfl : head = found := Option.some.inj at_place
          exact List.Perm.swap ..
      | succ place =>
          calc (found :: head :: rest.set place first).Perm (head :: found :: rest.set place first) :=
                List.Perm.swap ..
            _ |>.Perm (head :: first :: rest) := (ih place at_place).cons head
            _ |>.Perm (first :: head :: rest) := List.Perm.swap ..

omit [DecidableEq τ] [DecidableEq ι] in
/-- A positive term comes first, and the value stays. -/
theorem positiveFirst_spec (types : Types τ) (result : List (NodeSumInfo τ ι)) (some : result ≠ []) :
    ∃ first rest, positiveFirst types result = first :: rest ∧ first.plus = true ∧
      ∀ meaning : Meaning τ ι R,
        Signed.sum (Node.eval meaning) (first :: rest) = Signed.sum (Node.eval meaning) result := by
  cases result with
  | nil => exact absurd rfl some
  | cons first rest =>
      simp only [positiveFirst]
      split
      · exact ⟨first, rest, rfl, by assumption, fun _ => rfl⟩
      split
      · rename_i place found
        obtain ⟨inside, plus, -⟩ := List.findIdx?_eq_some_iff_getElem.mp found
        have at_place : rest[place]? = Option.some rest[place] := List.getElem?_eq_getElem inside
        refine ⟨rest[place], rest.set place first, by rw [at_place]; rfl, plus, fun meaning => ?_⟩
        exact Signed.sum_perm _ (perm_swap_first first _ rest place at_place)
      · refine ⟨_, _, rfl, rfl, fun meaning => ?_⟩
        simp [Signed.value, Node.eval, ConstValue.eval]

omit [DecidableEq τ] [DecidableEq ι] in
theorem buildSum_spec (types : Types τ) (hint : τ) (result : List (NodeSumInfo τ ι))
    (some : result ≠ []) : ∃ node, buildSum types hint result = Option.some node ∧
      ∀ meaning : Meaning τ ι R, node.eval meaning = Signed.sum (Node.eval meaning) result := by
  obtain ⟨first, rest, order, plus, value⟩ := positiveFirst_spec (R := R) types result some
  refine ⟨rest.foldl (addTerm hint) first.term, by rw [buildSum, order], fun meaning => ?_⟩
  rw [eval_foldl_addTerm, ← value meaning, Signed.sum_cons, Signed.value, if_pos plus]

/-! ## The optimisation -/

/-- Every term has its opposite, or a partner among the terms that lack one. -/
def Cancels (terms : List (NodeSumInfo τ ι)) : Prop :=
  Signed.kept terms = [] ∧ ∀ term, (Signed.owed terms).count term % 2 = 0

theorem cancel_eq_nil_iff (terms : List (NodeSumInfo τ ι)) :
    Signed.cancel terms = [] ↔ Cancels terms := by
  have positive := Signed.withSign_cancel_true terms
  have negative := Signed.count_withSign_cancel_false terms
  constructor
  · intro none
    rw [none] at positive negative
    exact ⟨List.nil_perm.mp positive, fun term => (negative term).symm⟩
  · rintro ⟨noneKept, even⟩
    refine List.eq_nil_iff_forall_not_mem.mpr ?_
    rintro ⟨plus, term⟩ inside
    have counted : 0 < (Signed.withSign plus (Signed.cancel terms)).count term := by
      rw [Signed.count_withSign]
      exact List.count_pos_iff.mpr inside
    cases plus with
    | true =>
        rw [positive.count_eq, noneKept] at counted
        exact absurd counted (Nat.lt_irrefl 0)
    | false =>
        rw [negative, even] at counted
        exact absurd counted (Nat.lt_irrefl 0)

/-- The positive terms that no negative term stands against. -/
def keptTerms (terms : List (NodeSumInfo τ ι)) : List (NodeSumInfo τ ι) :=
  (Signed.kept terms).map (Signed.mk true)

theorem forgottenAll_cancel (meaning : Meaning τ ι R) (sizes : Dim → Int)
    (terms : List (NodeSumInfo τ ι)) :
    meaning.forgottenAll sizes (Signed.cancel terms) =
      meaning.forgottenAll sizes (keptTerms terms) := by
  have counts : ∀ info : NodeSumInfo τ ι, info.plus = true →
      (Signed.cancel terms).count info = (keptTerms terms).count info := by
    rintro ⟨plus, term⟩ rfl
    have injective : Function.Injective (Signed.mk (α := Node τ ι) true) := by
      rintro first second same
      exact (Signed.mk.inj same).2
    rw [keptTerms, List.count_map_of_injective _ _ injective,
      ← (Signed.withSign_cancel_true terms).count_eq, Signed.count_withSign]
  unfold Meaning.forgottenAll Meaning.forgotten
  congr 1
  refine List.map_congr_left fun dim _ => ?_
  rw [sizeFolds_of_count fun info plus _ => counts info plus]

/-- The optimised sum is off by what cancelling loses and folding forgets. -/
theorem optimizedNodesPlus_spec (types : Types τ) (sizes : Dim → Int) (s0 s1 : Node τ ι) (hint : τ) :
    ∃ node, optimizedNodesPlus types sizes s0 s1 hint = some node ∧
      ∀ meaning : Meaning τ ι R, meaning.Configured sizes →
        (node.eval meaning = s0.eval meaning + s1.eval meaning ↔
          Cancels (operandTerms s0 s1) ∨
            Signed.lost (Node.eval meaning) (operandTerms s0 s1) =
              meaning.forgottenAll sizes (keptTerms (operandTerms s0 s1))) := by
  obtain ⟨after, folds, empty, value⟩ := foldDims_spec (R := R) sizes
    (Signed.cancel (operandTerms s0 s1))
  have parsed : parseAndOptimizeNodeSum types sizes s0 s1 hint =
      some (buildSum types hint after) := by
    rw [parseAndOptimizeNodeSum]
    exact congrArg (Option.map (buildSum types hint)) folds
  by_cases none : after = []
  · refine ⟨.op .plus s0 s1 hint, ?_, fun meaning _ => ?_⟩
    · rw [optimizedNodesPlus, parsed, none]
      rfl
    · exact iff_of_true rfl (.inl ((cancel_eq_nil_iff _).mp (empty none)))
  · obtain ⟨node, built, eval⟩ := buildSum_spec (R := R) types hint after none
    refine ⟨node, ?_, fun meaning configured => ?_⟩
    · rw [optimizedNodesPlus, parsed, built]
      rfl
    · have notCancels : ¬ Cancels (operandTerms s0 s1) := by
        intro cancels
        rw [(cancel_eq_nil_iff _).mpr cancels] at folds
        exact none (Option.some.inj folds).symm
      rw [eval, value meaning configured, Signed.sum_cancel, sum_operandTerms, forgottenAll_cancel,
        or_iff_right notCancels, add_sub_assoc, add_eq_left, sub_eq_zero]

/-- One of the operands is a constant that is 0 or negative. -/
def Shortcut (types : Types τ) (s0 s1 : Node τ ι) : Prop :=
  s0.constZero = true ∨ s1.constZero = true ∨
    s0.constNegative types = true ∨ s1.constNegative types = true

/-- A pointer and a constant that is a text. -/
def TextOffset (types : Types τ) (s0 s1 : Node τ ι) : Prop :=
  types.pointer (s0.hint types) = true ∧ ∃ value hint, s1 = .const (.hex value) hint

omit [DecidableEq τ] [DecidableEq ι] in
theorem eval_optimizedNodesSubConst (types : Types τ) {same : Node τ ι → Node τ ι → Bool}
    (equal : ∀ first second, same first second = true → first = second)
    (meaning : Meaning τ ι R) (s0 s1 : Node τ ι) (hint : τ) :
    (optimizedNodesSubConst types same s0 s1 hint).eval meaning =
      s0.eval meaning - s1.eval meaning := by
  unfold optimizedNodesSubConst
  split
  · rename_i one
    rw [equal _ _ one, sub_self]
    exact Int.cast_zero
  · rfl

omit [DecidableEq τ] [DecidableEq ι] in
theorem addend_of_integral (types : Types τ) (original : Node τ ι → Option (Node τ ι))
    (s0 : Node τ ι) {s1 : Node τ ι} (integral : s1.Integral) :
    addend types original s0 s1 = some s1 ∧ ¬ TextOffset types s0 s1 ∨
      addend types original s0 s1 = none ∧ TextOffset types s0 s1 := by
  unfold addend TextOffset
  split
  · cases integral
  · rename_i pointer
    exact .inr ⟨rfl, pointer, _, _, rfl⟩
  · rename_i noFraction noText
    refine .inl ⟨rfl, ?_⟩
    rintro ⟨pointer, value, hint, rfl⟩
    exact noText value hint pointer rfl

/--
The optimised sum is right if a constant operand takes the short way, if all terms cancel,
or if the negative terms that are taken against each other are worth as much as the
products that the global sizes swallow.
-/
theorem optimizedNodesSum_correct_iff (types : Types τ) (sizes : Dim → Int)
    (same : Node τ ι → Node τ ι → Bool)
    (equal : ∀ first second, same first second = true → first = second)
    (original : Node τ ι → Option (Node τ ι)) (s0 s1 : Node τ ι) (integral : s1.Integral) (hint : τ) :
    (∃ node, optimizedNodesSum types sizes same original s0 s1 hint = some node ∧
      ∀ meaning : Meaning τ ι (BitVec 32), meaning.Configured sizes →
        node.eval meaning = s0.eval meaning + s1.eval meaning) ↔
      Shortcut types s0 s1 ∨ ¬ TextOffset types s0 s1 ∧ (Cancels (operandTerms s0 s1) ∨
        ∀ meaning : Meaning τ ι (BitVec 32), meaning.Configured sizes →
          Signed.lost (Node.eval meaning) (operandTerms s0 s1) =
            meaning.forgottenAll sizes (keptTerms (operandTerms s0 s1))) := by
  unfold optimizedNodesSum
  split
  · rename_i zero
    refine iff_of_true ⟨s1, rfl, fun meaning _ => ?_⟩ (.inl (.inl zero))
    rw [Node.eval_of_constZero meaning zero, zero_add]
  split
  · rename_i zero
    refine iff_of_true ⟨s0, rfl, fun meaning _ => ?_⟩ (.inl (.inr (.inl zero)))
    rw [Node.eval_of_constZero meaning zero, add_zero]
  split
  · rename_i negative
    rw [Bool.and_eq_true] at negative
    refine iff_of_true ⟨_, rfl, fun meaning _ => ?_⟩ (.inl (.inr (.inr (.inl negative.1))))
    rw [eval_optimizedNodesSubConst types equal, Node.eval_absConst types meaning negative.1,
      sub_neg_eq_add, add_comm]
  split
  · rename_i negative
    refine iff_of_true ⟨_, rfl, fun meaning _ => ?_⟩ (.inl (.inr (.inr (.inr negative))))
    rw [eval_optimizedNodesSubConst types equal, Node.eval_absConst types meaning negative,
      sub_neg_eq_add]
  rename_i zero0 zero1 negative0 negative1
  have long : ¬ Shortcut types s0 s1 := by
    rintro (zero | zero | negative | negative)
    · exact zero0 zero
    · exact zero1 zero
    · refine negative0 ?_
      rw [negative, Bool.eq_false_of_not_eq_true negative1]
      rfl
    · exact negative1 negative
  rw [or_iff_right long]
  obtain ⟨plain, noText⟩ | ⟨refused, text⟩ := addend_of_integral types original s0 integral
  · obtain ⟨node, built, right⟩ := optimizedNodesPlus_spec (R := BitVec 32) types sizes s0 s1 hint
    rw [plain]
    simp only [Option.bind_eq_bind, Option.bind_some, built, Option.some.injEq, exists_eq_left',
      noText, not_false_eq_true, true_and]
    constructor
    · intro correct
      by_cases cancels : Cancels (operandTerms s0 s1)
      · exact .inl cancels
      · exact .inr fun meaning configured =>
          ((right meaning configured).mp (correct meaning configured)).resolve_left cancels
    · rintro (cancels | balanced) meaning configured
      · exact (right meaning configured).mpr (.inl cancels)
      · exact (right meaning configured).mpr (.inr (balanced meaning configured))
  · rw [refused]
    simp [text]

/-- The number of a leaf is its value. -/
def leafMeaning : Meaning Unit Nat (BitVec 32) where
  localId _ := 0
  groupId _ := 0
  localSize _ := 64
  numGroups _ := 1
  globalOffset _ := 0
  workDim := 1
  leaf id := id
  operation _ _ left _ := left
  not _ left := left

theorem leafMeaning_configured : leafMeaning.Configured fun _ => 64 := fun _ => rfl

/-- `a - x + x` -/
theorem optimizedNodesSum_opposite :
    ∃ node, optimizedNodesSum plainTypes (fun _ => 64) (fun first second => decide (first = second))
        some (.op .minus (.leaf 1 ()) (.leaf 2 ()) ()) (.leaf 2 ()) () = some node ∧
      ∀ meaning : Meaning Unit Nat (BitVec 32), meaning.Configured (fun _ => 64) →
        node.eval meaning = (Node.op .minus (.leaf 1 ()) (.leaf 2 ()) ()).eval meaning +
          (Node.leaf 2 ()).eval meaning := by
  refine (optimizedNodesSum_correct_iff plainTypes (fun _ => 64) _ ?_ some _ _ ?_ ()).mpr
    (.inr ⟨?_, .inr fun meaning _ => ?_⟩)
  · exact fun first second same => of_decide_eq_true same
  · exact trivial
  · rintro ⟨pointer, -⟩
    cases pointer
  · have owed : Signed.owed (operandTerms (Node.op .minus (.leaf 1 ()) (.leaf 2 ()) ())
        (.leaf 2 ())) = ([] : List (Node Unit Nat)) := by decide
    have folds : ∀ dim, sizeFolds (fun _ => 64) dim (keptTerms (operandTerms
        (Node.op .minus (.leaf 1 ()) (.leaf 2 ()) ()) (.leaf 2 () : Node Unit Nat))) = 0 := by
      intro dim
      cases dim <;> decide
    simp [Signed.lost, owed, Meaning.forgottenAll, Meaning.forgotten, folds]

/-- `(a - x) + (b - x)` comes out as `a + b`. -/
theorem optimizedNodesSum_common_subtrahend :
    ¬ ∃ node, optimizedNodesSum plainTypes (fun _ => 64)
        (fun first second => decide (first = second)) some
        (.op .minus (.leaf 1 ()) (.leaf 3 ()) ()) (.op .minus (.leaf 2 ()) (.leaf 3 ()) ()) () =
          some node ∧
      ∀ meaning : Meaning Unit Nat (BitVec 32), meaning.Configured (fun _ => 64) →
        node.eval meaning = (Node.op .minus (.leaf 1 ()) (.leaf 3 ()) ()).eval meaning +
          (Node.op .minus (.leaf 2 ()) (.leaf 3 ()) ()).eval meaning := by
  rintro ⟨node, built, right⟩
  have sum : node = .op .plus (.leaf 1 ()) (.leaf 2 ()) () := by
    refine (Option.some.inj ?_).symm
    rw [← built]
    decide
  have equal := right leafMeaning leafMeaning_configured
  rw [sum] at equal
  revert equal
  decide

/-- `num_groups * 64 + group_id * local_size` comes out as the global size alone. -/
example : optimizedNodesSum plainTypes (fun _ => 64) (fun first second => decide (first = second)) some
      (.op .mul (.workItem (.numGroups .x)) (.const (.int 64) ()) ())
      (.op .mul (.workItem (.workGroupId .x)) (.workItem (.localSize .x)) ()) () =
        some (.workItem (.globalSize .x) : Node Unit Nat) := by
  decide

end OpenCLDecompiler.Optimizations
