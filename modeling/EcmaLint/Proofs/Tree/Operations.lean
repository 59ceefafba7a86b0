import EcmaLint.Grammar.Expression
import EcmaLint.Proofs.Tree.Forest
import EcmaLint.Token.Basic

/-! How operations group their operands. An operator binds more or less tightly, and without
parentheses the tree over a chain of operands and operators is the only one that fits. -/
namespace EcmaLint

/-- Operations with two operands that are no assignments. -/
def NodeKind.isOperation (kind : NodeKind) : Bool :=
  kind == .binaryExpression || kind == .logicalExpression

@[simp] theorem NodeKind.isOperation_eq_false_iff {kind : NodeKind} :
    kind.isOperation = false ↔ kind ≠ .binaryExpression ∧ kind ≠ .logicalExpression := by
  simp [isOperation]

namespace Operator

variable {operator other : String} {precedence : Nat}

/-- No operator binds as tightly as the one that groups to the right. -/
theorem groupsRight_of_le (h : precedence? operator = some precedence) (hLe : 12 ≤ precedence) :
    groupsRight operator = true := by
  unfold precedence? at h
  split at h <;> cases h <;> first | rfl | omega

theorem precedence?_of_groupsRight (h : groupsRight operator = true) :
    precedence? operator = some 12 := by
  rw [eq_of_beq h]
  rfl

/-- An operation may stand to the left of an operator without parentheses. -/
def FitsLeft (operator inner : String) : Prop :=
  groupsRight operator = false ∧ ∃ outer tighter, precedence? operator = some outer ∧
    precedence? inner = some tighter ∧ outer ≤ tighter

/-- An operation may stand to the right of an operator without parentheses. -/
def FitsRight (operator inner : String) : Prop :=
  ∃ outer tighter, precedence? operator = some outer ∧ precedence? inner = some tighter ∧
    if groupsRight operator then outer ≤ tighter else outer < tighter

/-- Where the next operator binds no more tightly than the last one, or more loosely if the last one
groups to the right, the last operation may stand to the left of it. -/
theorem fitsLeft_of_lt {inner : String} {outer tighter : Nat}
    (hOuter : precedence? operator = some outer) (hInner : precedence? inner = some tighter)
    (h : outer < if groupsRight inner then tighter else tighter + 1) : FitsLeft operator inner := by
  refine ⟨?_, outer, tighter, hOuter, hInner, by split at h <;> omega⟩
  by_contra hGroups
  rw [Bool.not_eq_false] at hGroups
  cases (precedence?_of_groupsRight hGroups).symm.trans hOuter
  split at h
  case isTrue hInnerGroups =>
    cases (precedence?_of_groupsRight hInnerGroups).symm.trans hInner
    omega
  case isFalse hInnerGroups => exact hInnerGroups (groupsRight_of_le hInner (by omega))

theorem fitsRight_of_le {inner : String} {outer tighter : Nat}
    (hOuter : precedence? operator = some outer) (hInner : precedence? inner = some tighter)
    (h : (if groupsRight operator then outer else outer + 1) ≤ tighter) :
    FitsRight operator inner := by
  refine ⟨outer, tighter, hOuter, hInner, ?_⟩
  split at h
  case isTrue hGroups => rwa [if_pos hGroups]
  case isFalse hGroups => rwa [if_neg hGroups]

end Operator

/-- Operands that are joined by operators, with no parentheses between them. -/
inductive OperatorTree where
  | operand (node : Node)
  | join (operator : String) (left right : OperatorTree)

namespace OperatorTree

open Operator

/-- The operands and operators of a tree from left to right. -/
def chain : OperatorTree → List (Node ⊕ String)
  | operand node => [.inl node]
  | join operator left right => left.chain ++ .inr operator :: right.chain

/-- The operator that joins the whole. -/
def operator? : OperatorTree → Option String
  | operand _ => none
  | join operator _ _ => some operator

/-- Every operator binds, and what stands on its sides may stand there without parentheses. -/
def Grouped : OperatorTree → Prop
  | operand _ => True
  | join operator left right => left.Grouped ∧ right.Grouped ∧ (precedence? operator).isSome ∧
      (∀ inner ∈ left.operator?, FitsLeft operator inner) ∧
      ∀ inner ∈ right.operator?, FitsRight operator inner

variable {tree other left right : OperatorTree} {operator inner : String} {outer tighter : Nat}

theorem chain_ne_nil (tree : OperatorTree) : tree.chain ≠ [] := by
  cases tree <;> simp [chain]

/-- Nothing in a tree binds more loosely than the operator that joins the whole. -/
theorem Grouped.le_of_mem_chain (h : tree.Grouped) (hOperator : tree.operator? = some operator)
    (hOuter : precedence? operator = some outer) (hInner : .inr inner ∈ tree.chain)
    (hTighter : precedence? inner = some tighter) : outer ≤ tighter := by
  induction tree generalizing operator outer with
  | operand node => cases hOperator
  | join root left right ihLeft ihRight =>
      cases hOperator
      obtain ⟨hLeft, hRight, -, hFitsLeft, hFitsRight⟩ := h
      rw [chain, List.mem_append, List.mem_cons] at hInner
      rcases hInner with hInner | hInner | hInner
      · cases left with
        | operand node => simp [chain] at hInner
        | join below _ _ =>
            obtain ⟨-, _, between, hRoot, hBelow, hLe⟩ := hFitsLeft below rfl
            cases hRoot.symm.trans hOuter
            exact Nat.le_trans hLe (ihLeft hLeft rfl hBelow hInner)
      · cases hInner
        cases hOuter.symm.trans hTighter
        exact Nat.le_refl _
      · cases right with
        | operand node => simp [chain] at hInner
        | join below _ _ =>
            obtain ⟨_, between, hRoot, hBelow, hFits⟩ := hFitsRight below rfl
            cases hRoot.symm.trans hOuter
            have hLe : outer ≤ between := by split at hFits <;> omega
            exact Nat.le_trans hLe (ihRight hRight rfl hBelow hInner)

/-- What stands to the left of an operator does not bind more loosely, and there is none at all to
the left of one that groups to the right. -/
theorem Grouped.of_mem_left (h : (join operator left right).Grouped)
    (hInner : .inr inner ∈ left.chain) (hOuter : precedence? operator = some outer)
    (hTighter : precedence? inner = some tighter) :
    groupsRight operator = false ∧ outer ≤ tighter := by
  obtain ⟨hLeft, -, -, hFits, -⟩ := h
  cases left with
  | operand node => simp [chain] at hInner
  | join below _ _ =>
      obtain ⟨hGroups, _, between, hRoot, hBelow, hLe⟩ := hFits below rfl
      cases hRoot.symm.trans hOuter
      exact ⟨hGroups, Nat.le_trans hLe (hLeft.le_of_mem_chain rfl hBelow hInner hTighter)⟩

/-- What stands to the right of an operator binds more tightly, or as tightly if the operator
groups to the right. -/
theorem Grouped.of_mem_right (h : (join operator left right).Grouped)
    (hInner : .inr inner ∈ right.chain) (hOuter : precedence? operator = some outer)
    (hTighter : precedence? inner = some tighter) :
    if groupsRight operator then outer ≤ tighter else outer < tighter := by
  obtain ⟨-, hRight, -, -, hFits⟩ := h
  cases right with
  | operand node => simp [chain] at hInner
  | join below _ _ =>
      obtain ⟨_, between, hRoot, hBelow, hBetween⟩ := hFits below rfl
      cases hRoot.symm.trans hOuter
      have hLe := hRight.le_of_mem_chain rfl hBelow hInner hTighter
      split at hBetween
      case isTrue hGroups => rw [if_pos hGroups]; omega
      case isFalse hGroups => rw [if_neg hGroups]; omega

/-- Two operators that join wholes over the same chain do not stand at different places in it: each
would have to bind more loosely than the other. -/
theorem Grouped.eq_nil_of_chain_eq {first second : String}
    {before behind front back : OperatorTree} {middle : List (Node ⊕ String)}
    (h : (join first before behind).Grouped) (hOther : (join second front back).Grouped)
    (hFront : front.chain = before.chain ++ middle)
    (hBehind : .inr first :: behind.chain = middle ++ .inr second :: back.chain) :
    middle = [] := by
  cases middle with
  | nil => rfl
  | cons item rest =>
      obtain ⟨rfl, hRest⟩ := List.cons.inj hBehind
      obtain ⟨outer, hOuter⟩ := Option.isSome_iff_exists.mp h.2.2.1
      obtain ⟨tighter, hTighter⟩ := Option.isSome_iff_exists.mp hOther.2.2.1
      have hRight := h.of_mem_right (by simp [hRest]) hOuter hTighter
      obtain ⟨hGroups, hLeft⟩ := hOther.of_mem_left (by simp [hFront]) hTighter hOuter
      split at hRight
      case isTrue hFirst =>
        -- both bind most tightly, and only one operator does
        cases (precedence?_of_groupsRight hFirst).symm.trans hOuter
        rw [groupsRight_of_le hTighter hRight] at hGroups
        cases hGroups
      case isFalse => omega

/-- Trees that join the same operands with the same operators are the same. -/
theorem Grouped.eq_of_chain_eq (h : tree.Grouped) (hOther : other.Grouped)
    (hChain : tree.chain = other.chain) : tree = other := by
  induction tree generalizing other with
  | operand node =>
      cases other with
      | operand _ =>
          cases hChain
          rfl
      | join _ front _ =>
          obtain ⟨item, rest, hItem⟩ := List.exists_cons_of_ne_nil front.chain_ne_nil
          simp [chain, hItem] at hChain
  | join first before behind ihBefore ihBehind =>
      cases other with
      | operand _ =>
          obtain ⟨item, rest, hItem⟩ := List.exists_cons_of_ne_nil before.chain_ne_nil
          simp [chain, hItem] at hChain
      | join second front back =>
          rw [chain, chain, List.append_eq_append_iff] at hChain
          have hParts : before.chain = front.chain ∧
              (.inr first :: behind.chain : List (Node ⊕ String)) = .inr second :: back.chain := by
            rcases hChain with ⟨middle, hFront, hBehind⟩ | ⟨middle, hBefore, hBack⟩
            · obtain rfl := h.eq_nil_of_chain_eq hOther hFront hBehind
              exact ⟨by rw [hFront, List.append_nil], hBehind⟩
            · obtain rfl := hOther.eq_nil_of_chain_eq h hBefore hBack
              exact ⟨by rw [hBefore, List.append_nil], hBack.symm⟩
          obtain ⟨hHead, hTail⟩ := List.cons.inj hParts.2
          rw [ihBefore h.1 hOther.1 hParts.1, ihBehind h.2.1 hOther.2.1 hTail, Sum.inr.inj hHead]

end OperatorTree

namespace Node

open Operator

/-- How an operation joins its operands. An operand that starts where the operation starts, or
ends where it ends, is not in parentheses. -/
structure Joins (tokens : List Token) (node : Node) (operator : String) (left right : Node) :
    Prop where
  operator_eq : node.text? .operator = some operator
  left_eq : node.child? .left = some left
  right_eq : node.child? .right = some right
  binds : (precedence? operator).isSome
  /-- The operator stands between the operands. -/
  inTurn : ∃ token ∈ tokens, token.text = operator ∧ left.span.stop ≤ token.span.start ∧
    token.span.stop ≤ right.span.start
  fitsLeft : left.kind.isOperation = true → left.span.start = node.span.start →
    ∃ inner, left.text? .operator = some inner ∧ FitsLeft operator inner
  fitsRight : right.kind.isOperation = true → right.span.stop = node.span.stop →
    ∃ inner, right.text? .operator = some inner ∧ FitsRight operator inner
  /-- A power is not taken of a unary operation. -/
  power : groupsRight operator = true → left.span.start = node.span.start →
    left.kind ≠ .unaryExpression ∧ left.kind ≠ .awaitExpression

/-- An operation joins its operands as its operator tells. -/
def Groups (tokens : List Token) (node : Node) : Prop :=
  node.kind.isOperation = true → ∃ operator left right, node.Joins tokens operator left right

variable {node : Node} {tokens : List Token}

theorem Groups.mono {more : List Token} (h : node.Groups tokens) (hMore : tokens ⊆ more) :
    node.Groups more := by
  intro hKind
  obtain ⟨operator, left, right, hJoins⟩ := h hKind
  obtain ⟨token, hToken, hBetween⟩ := hJoins.inTurn
  exact ⟨operator, left, right, { hJoins with inTurn := ⟨token, hMore hToken, hBetween⟩ }⟩

theorem groups_of_not_isOperation (h : node.kind.isOperation = false) : node.Groups tokens :=
  fun hKind => by simp [h] at hKind

/-- The operands that a node joins. An operand that is not in parentheses and joins others is
taken apart as well. -/
def operatorTree (node : Node) : OperatorTree :=
  if node.kind.isOperation then
    match node.text? .operator, _ : node.child? .left, _ : node.child? .right with
    | some operator, some left, some right =>
        .join operator
          (if left.span.start = node.span.start then left.operatorTree else .operand left)
          (if right.span.stop = node.span.stop then right.operatorTree else .operand right)
    | _, _, _ => .operand node
  else .operand node
termination_by sizeOf node
decreasing_by
  all_goals exact sizeOf_lt_of_mem_children (mem_children_of_child? ‹_›)

theorem operatorTree_of_not_isOperation (h : node.kind.isOperation = false) :
    node.operatorTree = .operand node := by
  rw [operatorTree, if_neg (by simp [h])]

theorem Joins.operatorTree_eq {operator : String} {left right : Node}
    (h : node.Joins tokens operator left right) (hKind : node.kind.isOperation = true) :
    node.operatorTree = .join operator
      (if left.span.start = node.span.start then left.operatorTree else .operand left)
      (if right.span.stop = node.span.stop then right.operatorTree else .operand right) := by
  rw [operatorTree, if_pos hKind]
  simp only [h.operator_eq]
  split
  case h_1 hOperator hLeft hRight =>
    cases hOperator
    cases h.left_eq.symm.trans hLeft
    cases h.right_eq.symm.trans hRight
    rfl
  case h_2 hNone => exact (hNone _ _ _ rfl h.left_eq h.right_eq).elim

/-- What joins the operator tree of a node is the operator of the node. -/
theorem Groups.of_operator? (h : node.Groups tokens) {inner : String}
    (hInner : node.operatorTree.operator? = some inner) :
    node.kind.isOperation = true ∧ node.text? .operator = some inner := by
  by_cases hKind : node.kind.isOperation = true
  · obtain ⟨operator, left, right, hJoins⟩ := h hKind
    rw [hJoins.operatorTree_eq hKind] at hInner
    exact ⟨hKind, Option.some.inj hInner ▸ hJoins.operator_eq⟩
  · rw [operatorTree_of_not_isOperation (by simpa using hKind)] at hInner
    cases hInner

/-- Where every operation joins its operands as its operator tells, operators are grouped. -/
theorem grouped_operatorTree (node : Node) (h : ∀ below ∈ node.subtree, below.Groups tokens) :
    node.operatorTree.Grouped := by
  induction node using Node.induction with
  | _ node ih =>
  by_cases hKind : node.kind.isOperation = true
  · obtain ⟨operator, left, right, hJoins⟩ := h node (mem_subtree_self node) hKind
    have hChild : ∀ child ∈ node.children,
        child.operatorTree.Grouped ∧ child.Groups tokens := by
      intro child hChild
      have hBelow : ∀ below ∈ child.subtree, below.Groups tokens := fun below hBelow =>
        h below (by
          rw [subtree_eq]
          exact List.mem_cons_of_mem _ (List.mem_flatMap.mpr ⟨child, hChild, hBelow⟩))
      exact ⟨ih child hChild hBelow, hBelow child (mem_subtree_self child)⟩
    obtain ⟨hLeft, hLeftGroups⟩ := hChild left (mem_children_of_child? hJoins.left_eq)
    obtain ⟨hRight, hRightGroups⟩ := hChild right (mem_children_of_child? hJoins.right_eq)
    rw [hJoins.operatorTree_eq hKind]
    refine ⟨?_, ?_, hJoins.binds, fun inner hInner => ?_, fun inner hInner => ?_⟩
    · split
      · exact hLeft
      · trivial
    · split
      · exact hRight
      · trivial
    · split at hInner
      case isTrue hStart =>
        obtain ⟨hOperation, hText⟩ := hLeftGroups.of_operator? hInner
        obtain ⟨_, hFound, hFits⟩ := hJoins.fitsLeft hOperation hStart
        cases hText.symm.trans hFound
        exact hFits
      case isFalse => cases hInner
    · split at hInner
      case isTrue hStop =>
        obtain ⟨hOperation, hText⟩ := hRightGroups.of_operator? hInner
        obtain ⟨_, hFound, hFits⟩ := hJoins.fitsRight hOperation hStop
        cases hText.symm.trans hFound
        exact hFits
      case isFalse => cases hInner
  · rw [operatorTree_of_not_isOperation (by simpa using hKind)]
    trivial

end Node

end EcmaLint
