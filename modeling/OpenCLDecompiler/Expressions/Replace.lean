import OpenCLDecompiler.Expressions.Printing

/-!
# Replacing subtrees

`ExpressionNode.replace` against structural substitution.  Every node of a tree is used
once, so its `parent` is the node above it.
-/

namespace OpenCLDecompiler.Replacement

open Expressions

/--
`ExpressionNode` with its `id`.  Leaves carry their type and value together; a ternary
keeps its condition in `value`.
-/
inductive ExpressionNode (γ τ : Type) where
  | leaf (id : Nat) (content : γ) (hint : τ)
  | unary (id : Nat) (value : ExpressionOperationType) (left : ExpressionNode γ τ) (hint : τ)
  | op (id : Nat) (value : ExpressionOperationType) (left right : ExpressionNode γ τ) (hint : τ)
  | ifTernary (id : Nat) (value left right : ExpressionNode γ τ) (hint : τ)
  | permute (id : Nat) (left right : ExpressionNode γ τ) (hint : τ)
  deriving DecidableEq

variable {γ τ : Type}

namespace ExpressionNode

/-- The tree without the identities of its nodes. -/
def contents : ExpressionNode γ τ → ExpressionNode γ τ
  | leaf _ content hint => leaf 0 content hint
  | unary _ value left hint => unary 0 value left.contents hint
  | op _ value left right hint => op 0 value left.contents right.contents hint
  | ifTernary _ value left right hint =>
      ifTernary 0 value.contents left.contents right.contents hint
  | permute _ left right hint => permute 0 left.contents right.contents hint

/-- Some subtree has the contents of the node. -/
def Occurs (node : ExpressionNode γ τ) : ExpressionNode γ τ → Prop
  | leaf id content hint => (leaf id content hint).contents = node.contents
  | unary id value left hint =>
      (unary id value left hint).contents = node.contents ∨ node.Occurs left
  | op id value left right hint =>
      (op id value left right hint).contents = node.contents ∨
        node.Occurs left ∨ node.Occurs right
  | ifTernary id value left right hint =>
      (ifTernary id value left right hint).contents = node.contents ∨
        node.Occurs value ∨ node.Occurs left ∨ node.Occurs right
  | permute id left right hint =>
      (permute id left right hint).contents = node.contents ∨ node.Occurs left ∨ node.Occurs right

/-! ## Children -/

def children : ExpressionNode γ τ → List (ExpressionNode γ τ)
  | leaf _ _ _ => []
  | unary _ _ left _ => [left]
  | op _ _ left right _ => [left, right]
  | ifTernary _ value left right _ => [value, left, right]
  | permute _ left right _ => [left, right]

def isPermute : ExpressionNode γ τ → Bool
  | permute _ _ _ _ => true
  | _ => false

/-- The node with every child changed. -/
def descend (change : ExpressionNode γ τ → ExpressionNode γ τ) :
    ExpressionNode γ τ → ExpressionNode γ τ
  | leaf id content hint => leaf id content hint
  | unary id value left hint => unary id value (change left) hint
  | op id value left right hint => op id value (change left) (change right) hint
  | ifTernary id value left right hint =>
      ifTernary id (change value) (change left) (change right) hint
  | permute id left right hint => permute id (change left) (change right) hint

/-- The number of nodes. -/
def size : ExpressionNode γ τ → Nat
  | leaf _ _ _ => 1
  | unary _ _ left _ => left.size + 1
  | op _ _ left right _ => left.size + right.size + 1
  | ifTernary _ value left right _ => value.size + left.size + right.size + 1
  | permute _ left right _ => left.size + right.size + 1

theorem childInduction {motive : ExpressionNode γ τ → Prop}
    (step : ∀ node, (∀ child ∈ node.children, motive child) → motive node)
    (node : ExpressionNode γ τ) : motive node := by
  induction node with
  | leaf id content hint => exact step _ (by simp [children])
  | unary id value left hint leftHolds => exact step _ (by simpa [children] using leftHolds)
  | op id value left right hint leftHolds rightHolds =>
      exact step _ (by simpa [children] using ⟨leftHolds, rightHolds⟩)
  | ifTernary id value left right hint valueHolds leftHolds rightHolds =>
      exact step _ (by simpa [children] using ⟨valueHolds, leftHolds, rightHolds⟩)
  | permute id left right hint leftHolds rightHolds =>
      exact step _ (by simpa [children] using ⟨leftHolds, rightHolds⟩)

theorem descend_eq_iff (first second : ExpressionNode γ τ → ExpressionNode γ τ)
    (node : ExpressionNode γ τ) :
    descend first node = descend second node ↔
      ∀ child ∈ node.children, first child = second child := by
  cases node <;> simp [descend, children]

@[simp]
theorem descend_id (node : ExpressionNode γ τ) : descend id node = node := by
  cases node <;> rfl

@[simp]
theorem children_descend (change : ExpressionNode γ τ → ExpressionNode γ τ)
    (node : ExpressionNode γ τ) : (descend change node).children = node.children.map change := by
  cases node <;> rfl

theorem size_child_lt {child node : ExpressionNode γ τ} (inside : child ∈ node.children) :
    child.size < node.size := by
  cases node <;> simp only [children, List.mem_cons, List.not_mem_nil, or_false] at inside <;>
    simp only [size] <;> grind

theorem size_contents (node : ExpressionNode γ τ) : node.contents.size = node.size := by
  induction node <;> simp_all [contents, size]

theorem occurs_iff (node whole : ExpressionNode γ τ) :
    Occurs node whole ↔
      whole.contents = node.contents ∨ ∃ child ∈ whole.children, Occurs node child := by
  cases whole <;> simp [Occurs, children]

/-! ## Occurrences -/

theorem occurs_self (node : ExpressionNode γ τ) : Occurs node node :=
  (occurs_iff node node).mpr (Or.inl rfl)

theorem size_le_of_occurs {node whole : ExpressionNode γ τ} (occurs : Occurs node whole) :
    node.size ≤ whole.size := by
  induction whole using childInduction with
  | step whole ih =>
      rcases (occurs_iff node whole).mp occurs with same | ⟨child, inside, occurs⟩
      · rw [← size_contents node, ← same, size_contents]
      · exact (ih child inside occurs).trans (size_child_lt inside).le

/-- A tree of the same contents has no occurrence in a child. -/
theorem not_occurs_child {node whole child : ExpressionNode γ τ}
    (same : whole.contents = node.contents) (inside : child ∈ whole.children) :
    ¬Occurs node child := by
  intro occurs
  have small := size_le_of_occurs occurs
  rw [← size_contents node, ← same, size_contents] at small
  exact absurd small (size_child_lt inside).not_ge

section

variable [DecidableEq γ] [DecidableEq τ]

/-! ## The source and the substitution -/

/-- `contents_equal`.  The values of two ternaries are compared by `==`, with their ids. -/
def contentsEqual : ExpressionNode γ τ → ExpressionNode γ τ → Bool
  | leaf _ content hint, leaf _ content' hint' => content = content' && hint = hint'
  | unary _ value left hint, unary _ value' left' hint' =>
      left.contentsEqual left' && value = value' && hint = hint'
  | op _ value left right hint, op _ value' left' right' hint' =>
      left.contentsEqual left' && right.contentsEqual right' && value = value' && hint = hint'
  | ifTernary _ value left right hint, ifTernary _ value' left' right' hint' =>
      left.contentsEqual left' && right.contentsEqual right' && value = value' && hint = hint'
  | permute _ left right hint, permute _ left' right' hint' =>
      left.contentsEqual left' && right.contentsEqual right' && hint = hint'
  | _, _ => false

/-- The node itself, its replacement, or what comes of its children. -/
def replacedOr (fromNode toNode whole descended : ExpressionNode γ τ) : ExpressionNode γ τ :=
  if whole.contentsEqual toNode then whole
  else if whole.contentsEqual fromNode then toNode
  else descended

/-- `replace`. -/
def replace (fromNode toNode : ExpressionNode γ τ) : ExpressionNode γ τ → ExpressionNode γ τ
  | leaf id content hint =>
      replacedOr fromNode toNode (leaf id content hint) (leaf id content hint)
  | unary id value left hint =>
      replacedOr fromNode toNode (unary id value left hint)
        (unary id value (replace fromNode toNode left) hint)
  | op id value left right hint =>
      replacedOr fromNode toNode (op id value left right hint)
        (op id value (replace fromNode toNode left) (replace fromNode toNode right) hint)
  | ifTernary id value left right hint =>
      replacedOr fromNode toNode (ifTernary id value left right hint)
        (ifTernary id (replace fromNode toNode value) (replace fromNode toNode left)
          (replace fromNode toNode right) hint)
  | permute id left right hint =>
      replacedOr fromNode toNode (permute id left right hint) (permute id left right hint)

/-- The node with `toNode` for every subtree of the contents of `fromNode`. -/
def subst (fromNode toNode : ExpressionNode γ τ) : ExpressionNode γ τ → ExpressionNode γ τ
  | leaf id content hint =>
      if (leaf id content hint).contents = fromNode.contents then toNode else leaf id content hint
  | unary id value left hint =>
      if (unary id value left hint).contents = fromNode.contents then toNode
      else unary id value (subst fromNode toNode left) hint
  | op id value left right hint =>
      if (op id value left right hint).contents = fromNode.contents then toNode
      else op id value (subst fromNode toNode left) (subst fromNode toNode right) hint
  | ifTernary id value left right hint =>
      if (ifTernary id value left right hint).contents = fromNode.contents then toNode
      else ifTernary id (subst fromNode toNode value) (subst fromNode toNode left)
        (subst fromNode toNode right) hint
  | permute id left right hint =>
      if (permute id left right hint).contents = fromNode.contents then toNode
      else permute id (subst fromNode toNode left) (subst fromNode toNode right) hint

/--
The subtrees that are to be replaced are found: `contents_equal` recognises them, and they
are not below a permutation.
-/
def Found (fromNode : ExpressionNode γ τ) : ExpressionNode γ τ → Prop
  | leaf id content hint =>
      (leaf id content hint).contents = fromNode.contents →
        (leaf id content hint).contentsEqual fromNode = true
  | unary id value left hint =>
      if (unary id value left hint).contents = fromNode.contents then
        (unary id value left hint).contentsEqual fromNode = true
      else Found fromNode left
  | op id value left right hint =>
      if (op id value left right hint).contents = fromNode.contents then
        (op id value left right hint).contentsEqual fromNode = true
      else Found fromNode left ∧ Found fromNode right
  | ifTernary id value left right hint =>
      if (ifTernary id value left right hint).contents = fromNode.contents then
        (ifTernary id value left right hint).contentsEqual fromNode = true
      else Found fromNode value ∧ Found fromNode left ∧ Found fromNode right
  | permute id left right hint =>
      if (permute id left right hint).contents = fromNode.contents then
        (permute id left right hint).contentsEqual fromNode = true
      else ¬Occurs fromNode left ∧ ¬Occurs fromNode right

theorem subst_eq (fromNode toNode node : ExpressionNode γ τ) :
    subst fromNode toNode node =
      if node.contents = fromNode.contents then toNode
      else descend (subst fromNode toNode) node := by
  cases node <;> rfl

theorem replace_eq (fromNode toNode node : ExpressionNode γ τ) :
    replace fromNode toNode node = replacedOr fromNode toNode node
      (if node.isPermute then node else descend (replace fromNode toNode) node) := by
  cases node <;> rfl

theorem found_iff (fromNode node : ExpressionNode γ τ) :
    Found fromNode node ↔
      if node.contents = fromNode.contents then node.contentsEqual fromNode = true
      else ∀ child ∈ node.children,
        if node.isPermute then ¬Occurs fromNode child else Found fromNode child := by
  cases node <;> simp [Found, children, isPermute]

/-! ## What is replaced -/

theorem contents_of_contentsEqual {first second : ExpressionNode γ τ}
    (equal : first.contentsEqual second = true) : first.contents = second.contents := by
  induction first generalizing second with
  | leaf id content hint =>
      cases second <;> simp_all [contentsEqual, contents]
  | unary id value left hint leftSame =>
      cases second with
      | unary =>
          simp only [contentsEqual, Bool.and_eq_true, decide_eq_true_eq] at equal
          simp only [contents, equal, leftSame equal.1.1]
      | _ => cases equal
  | op id value left right hint leftSame rightSame =>
      cases second with
      | op =>
          simp only [contentsEqual, Bool.and_eq_true, decide_eq_true_eq] at equal
          simp only [contents, equal, leftSame equal.1.1.1, rightSame equal.1.1.2]
      | _ => cases equal
  | ifTernary id value left right hint valueSame leftSame rightSame =>
      cases second with
      | ifTernary =>
          simp only [contentsEqual, Bool.and_eq_true, decide_eq_true_eq] at equal
          simp only [contents, equal, leftSame equal.1.1.1, rightSame equal.1.1.2]
      | _ => cases equal
  | permute id left right hint leftSame rightSame =>
      cases second with
      | permute =>
          simp only [contentsEqual, Bool.and_eq_true, decide_eq_true_eq] at equal
          simp only [contents, equal, leftSame equal.1.1, rightSame equal.1.2]
      | _ => cases equal

theorem subst_of_absent {fromNode toNode node : ExpressionNode γ τ}
    (absent : ¬Occurs fromNode node) : subst fromNode toNode node = node := by
  induction node using childInduction with
  | step node ih =>
      rw [occurs_iff, not_or, not_exists] at absent
      rw [subst_eq, if_neg absent.1]
      calc descend (subst fromNode toNode) node = descend id node :=
            (descend_eq_iff ..).mpr fun child inside =>
              ih child inside fun occurs => absent.2 child ⟨inside, occurs⟩
        _ = node := descend_id node

/-- The tree stays as it is where there is nothing to replace. -/
theorem replace_of_absent {fromNode toNode node : ExpressionNode γ τ}
    (absent : ¬Occurs fromNode node) : replace fromNode toNode node = node := by
  induction node using childInduction with
  | step node ih =>
      rw [occurs_iff, not_or, not_exists] at absent
      have other : node.contentsEqual fromNode = false :=
        Bool.eq_false_iff.mpr fun equal => absent.1 (contents_of_contentsEqual equal)
      have children : descend (replace fromNode toNode) node = node :=
        calc descend (replace fromNode toNode) node = descend id node :=
              (descend_eq_iff ..).mpr fun child inside =>
                ih child inside fun occurs => absent.2 child ⟨inside, occurs⟩
          _ = node := descend_id node
      rw [replace_eq, replacedOr, other, children]
      simp

theorem occurs_subst {fromNode toNode node : ExpressionNode γ τ} (occurs : Occurs fromNode node) :
    Occurs toNode (subst fromNode toNode node) := by
  induction node using childInduction with
  | step node ih =>
      rw [subst_eq]
      split
      · exact occurs_self toNode
      · rename_i different
        rcases (occurs_iff fromNode node).mp occurs with same | ⟨child, inside, occurs⟩
        · exact absurd same different
        · refine (occurs_iff ..).mpr (Or.inr ⟨_, ?_, ih child inside occurs⟩)
          rw [children_descend]
          exact List.mem_map_of_mem inside

theorem subst_eq_self_iff {fromNode toNode node : ExpressionNode γ τ}
    (absent : ¬Occurs toNode node) :
    subst fromNode toNode node = node ↔ ¬Occurs fromNode node :=
  ⟨fun same occurs => absent (same ▸ occurs_subst occurs), subst_of_absent⟩

/-! ## Replacement -/

/-- `replace` substitutes, and leaves a tree without the node as it is. -/
def Replaces (fromNode toNode node : ExpressionNode γ τ) : Prop :=
  replace fromNode toNode node = subst fromNode toNode node ∧
    (¬Occurs fromNode node → replace fromNode toNode node = node)

theorem replace_eq_subst_iff {fromNode toNode node : ExpressionNode γ τ}
    (absent : ¬Occurs toNode node) :
    replace fromNode toNode node = subst fromNode toNode node ↔ Found fromNode node := by
  induction node using childInduction with
  | step node ih =>
      rw [occurs_iff, not_or, not_exists] at absent
      have noChild : ∀ child ∈ node.children, ¬Occurs toNode child := fun child inside occurs =>
        absent.2 child ⟨inside, occurs⟩
      have notTo : node.contentsEqual toNode = false :=
        Bool.eq_false_iff.mpr fun equal => absent.1 (contents_of_contentsEqual equal)
      rw [replace_eq, subst_eq, found_iff, replacedOr, notTo]
      simp only [Bool.false_eq_true, if_false]
      by_cases same : node.contents = fromNode.contents
      · rw [if_pos same, if_pos same]
        cases recognised : node.contentsEqual fromNode with
        | true => simp
        | false =>
            have children : descend (replace fromNode toNode) node = node :=
              calc descend (replace fromNode toNode) node = descend id node :=
                    (descend_eq_iff ..).mpr fun child inside =>
                      replace_of_absent (not_occurs_child same inside)
                _ = node := descend_id node
            have different : node ≠ toNode := fun equal => absent.1 (equal ▸ rfl)
            simp [children, different]
      · have notFrom : node.contentsEqual fromNode = false :=
          Bool.eq_false_iff.mpr fun equal => same (contents_of_contentsEqual equal)
        rw [if_neg same, if_neg same, notFrom]
        simp only [Bool.false_eq_true, if_false]
        split
        · nth_rewrite 1 [← descend_id node]
          rw [descend_eq_iff]
          refine forall₂_congr fun child inside => ?_
          rw [← subst_eq_self_iff (noChild child inside), eq_comm]
          rfl
        · rw [descend_eq_iff]
          exact forall₂_congr fun child inside => ih child inside (noChild child inside)

/-- `replace` is the substitution exactly if it finds every subtree that is to be replaced. -/
theorem replaces_iff {fromNode toNode node : ExpressionNode γ τ} (absent : ¬Occurs toNode node) :
    Replaces fromNode toNode node ↔ Found fromNode node := by
  rw [Replaces, replace_eq_subst_iff absent]
  exact and_iff_left fun absent => replace_of_absent absent

end

/-! ### A ternary and a permutation -/

/-- A variable. -/
def var (id : Nat) (name : String) : ExpressionNode String Unit := leaf id name ()

/-- In `c ? x : y + x` every `x` is replaced. -/
theorem replaces_ternary :
    Replaces (var 5 "x") (var 6 "z") (ifTernary 0 (var 1 "c") (var 2 "x")
      (op 3 .plus (var 4 "y") (var 7 "x") ()) ()) := by
  refine (replaces_iff ?_).mpr ?_
  · simp [Occurs, var, contents]
  · simp [Found, var, contents, contentsEqual]

/-- The `x` of a permutation stays. -/
theorem not_replaces_permute :
    ¬Replaces (var 3 "x") (var 4 "z") (permute 0 (var 1 "x") (var 2 "y") ()) := by
  intro replaces
  exact absurd replaces.1 (by decide)

/-- A ternary whose condition is another node of the same contents stays, too. -/
example : ¬Replaces (ifTernary 4 (var 5 "c") (var 6 "x") (var 7 "y") ()) (var 8 "z")
    (ifTernary 0 (var 1 "c") (var 2 "x") (var 3 "y") ()) := by
  intro replaces
  exact absurd replaces.1 (by decide)

end ExpressionNode

end OpenCLDecompiler.Replacement
