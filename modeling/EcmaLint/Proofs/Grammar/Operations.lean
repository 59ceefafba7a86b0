import EcmaLint.Proofs.Grammar.Operand

/-! What stands between operators. Everything that is read as an operand is no operation with two
operands, unless it is one in parentheses. -/
namespace EcmaLint

/-- Functions and variables as values. -/
def NodeKind.isSimpleValue (kind : NodeKind) : Bool :=
  kind == .functionExpression || kind == .arrowFunctionExpression || kind == .identifier

namespace Production

variable {α β : Type} {context : Context} {cursor : Cursor}

/-- Moving past a token that is there, with what is taken. -/
theorem yields_bump_takes {token : Token} (hToken : cursor.current? = some token)
    (hOrder : Token.InOrder cursor.tokens) : Yields bump context cursor fun _ later =>
      Takes cursor [token] [] later ∧ later.arena = cursor.arena := by
  refine .modify ?_
  cases hRest : cursor.rest with
  | nil => simp [Cursor.current?, hRest] at hToken
  | cons lexeme rest =>
      obtain rfl : lexeme.token = token := by simpa [Cursor.current?, hRest] using hToken
      exact ⟨Takes.bump hOrder hRest, rfl⟩

theorem yields_finish_eq {kind : NodeKind} {start : Nat} {fields : List (FieldName × FieldValue)} :
    Yields (finish kind start fields) context cursor fun node later =>
      node.fields = fields ∧ later.rest = cursor.rest :=
  .get_bind (.store fun node hNode => ⟨by rw [hNode, Node.fields], rfl⟩)

/-- A production reads nothing that is an operation with two operands, a function or a variable. -/
abbrev ReadsOther (production : Production Node) : Prop :=
  Gives production fun node => (node.kind.isOperation || node.kind.isSimpleValue) = false

theorem readsOther_finish {kind : NodeKind} {start : Nat} {fields : List (FieldName × FieldValue)}
    (h : (kind.isOperation || kind.isSimpleValue) = false) :
    ReadsOther (finish kind start fields) :=
  .finish fun _ _ => h

theorem readsOther_bump_store {kind : NodeKind} {span : Span}
    {fields : List (FieldName × FieldValue)}
    (h : (kind.isOperation || kind.isSimpleValue) = false) :
    ReadsOther (do bump; store kind span fields) :=
  .skip fun _ => .store fun _ => h

theorem gives_identifier_kind : Gives identifier fun node => node.kind = .identifier := by
  refine .skip fun cursor => ?_
  split
  · exact .ite (.skip fun _ => .store fun _ => rfl) .unexpected
  · exact .unexpected

end Production

/-- A node ends before what is read behind it does. -/
theorem Reads.stop_lt {moved : Bool} {before between after : Cursor} {node : Node}
    (hNode : Reads moved before [node] between) (h : Reads true between [] after) :
    node.span.stop < after.previousEnd := by
  obtain ⟨taken, -, hTakes⟩ := hNode.takes
  obtain ⟨more, hMore, hTakesMore⟩ := h.takes
  obtain ⟨stop, hStop, hStopEq⟩ :=
    (hTakes.aligned node (Node.mem_forest_of_mem (List.mem_singleton_self node))).stop_mem
  have hOrder := hTakes.inOrder
  rw [hTakes.tokens_eq, hTakesMore.tokens_eq] at hOrder
  have hLast := List.getLast?_eq_some_getLast (hMore rfl)
  have hMem := List.getLast_mem (hMore rfl)
  have hApart := hOrder.stop_le_start hStop (List.mem_append_left _ hMem)
  have hNonempty := hOrder.nonempty _ (List.mem_append_right _ (List.mem_append_left _ hMem))
  rw [hTakesMore.previousEnd_eq, hLast, Option.map_some, Option.getD_some]
  omega

namespace Grammar

open Production

variable {G : Grammar Production} {context : Context} {cursor origin : Cursor} {start : Nat}

theorem readsOther_template : ReadsOther (template G) :=
  .skip fun _ => .skip fun _ => .skip fun _ => readsOther_finish rfl

theorem gives_function_kind {isAsync : Bool} {role : Role} :
    Gives (function G start isAsync role) fun node => node.kind = role.functionKind :=
  .skip fun _ => .skip fun _ =>
    .optional_three (.skip fun _ => .skip fun _ => .finish fun _ _ => rfl)

theorem readsOther_classOf {role : Role} : ReadsOther (classOf G role) := by
  refine .skip fun start => .skip fun _ => .skip fun _ => .skip fun name => .skip fun _ => ?_
  exact .skip_either fun _ => .skip fun _ => readsOther_finish (by cases role <;> rfl)

theorem readsOther_arrayLiteral : ReadsOther (arrayLiteral G) :=
  .skip fun _ => .skip fun _ => .skip fun _ => .skip fun _ => readsOther_finish rfl

theorem readsOther_objectLiteral : ReadsOther (objectLiteral G) :=
  .skip fun _ => .skip fun _ => .skip fun _ => .skip fun _ => readsOther_finish rfl

theorem readsOther_numericLiteral {token : Token} : ReadsOther (numericLiteral token) :=
  .skip fun _ => .ite (.skip fun _ => .store fun _ => rfl) (.store fun _ => rfl)

theorem readsOther_dotMember {object : Node} {isOptional : Bool} :
    ReadsOther (dotMember start object isOptional) :=
  .skip fun _ => readsOther_finish rfl

theorem readsOther_computedMember {object : Node} {isOptional : Bool} :
    ReadsOther (computedMember G start object isOptional) :=
  .skip fun _ => .skip fun _ => .skip fun _ => readsOther_finish rfl

theorem readsOther_call {callee : Node} {isOptional : Bool} :
    ReadsOther (call G start callee isOptional) :=
  .skip fun _ => readsOther_finish rfl

theorem readsOther_taggedTemplate {tag : Node} : ReadsOther (taggedTemplate G start tag) :=
  .skip fun _ => readsOther_finish rfl

theorem readsOther_newTarget {word : Span} : ReadsOther (newTarget start word) :=
  .skip fun _ => .ensure (.skip fun _ => .ensure (.skip fun _ => .skip fun _ =>
    readsOther_finish rfl))

theorem readsOther_newExpressionBody : ReadsOther (newExpressionBody G) := by
  refine .skip fun start => .skip fun cursor => .skip fun _ => .skip fun found => ?_
  refine .ite readsOther_newTarget ?_
  refine .skip fun _ => .skip fun cursor => .skip_either fun callee => ?_
  exact .skip fun callee => .skip fun cursor => .skip_either fun arguments => readsOther_finish rfl

theorem isOperand_of_other {production : Production Node} (h : ReadsOther production) :
    Yields production context cursor fun node later => node.IsOperand origin later :=
  (h context cursor).imp fun _ _ hOther hOperation => by simp [hOperation] at hOther

theorem isOperand_identifier :
    Yields identifier context cursor fun node later => node.IsOperand origin later :=
  (gives_identifier_kind context cursor).imp fun _ _ hKind hOperation => by
    rw [hKind] at hOperation
    cases hOperation

theorem isOperand_function {isAsync : Bool} : Yields (function G start isAsync .expression) context
    cursor fun node later => node.IsOperand origin later :=
  (gives_function_kind context cursor).imp fun _ _ hKind hOperation => by
    rw [hKind] at hOperation
    cases hOperation

/-- Only what is in parentheses may be an operation. -/
theorem readsOperand_primary (hG : G.ReadsNodes) : ReadsOperand (primary G) := by
  intro context cursor hOrder
  refine .get_bind ?_
  cases hToken : cursor.current? with
  | none => exact .unexpected
  | some token =>
      dsimp only
      split
      · refine .ite (fun _ => ?_) fun _ => isOperand_identifier
        exact .skip fun _ _ => .skip fun _ _ => isOperand_function
      · refine .ite (fun _ => isOperand_of_other (readsOther_bump_store rfl)) fun _ => ?_
        refine .ite (fun _ => isOperand_of_other (readsOther_bump_store rfl)) fun _ => ?_
        refine .ite (fun _ => isOperand_function) fun _ => ?_
        exact .ite (fun _ => isOperand_of_other readsOther_classOf) fun _ => .unexpected
      · exact isOperand_of_other (readsOther_bump_store rfl)
      · exact isOperand_of_other (readsOther_bump_store rfl)
      · exact isOperand_of_other readsOther_numericLiteral
      · exact isOperand_of_other (readsOther_bump_store rfl)
      · exact isOperand_of_other (readsOther_bump_store rfl)
      · exact .ite (fun _ => isOperand_of_other readsOther_template) fun _ => .unexpected
      · refine .ite (fun _ => ?_) fun _ => ?_
        case refine_2 =>
          refine .ite (fun _ => isOperand_of_other readsOther_arrayLiteral) fun _ => ?_
          exact .ite (fun _ => isOperand_of_other readsOther_objectLiteral) fun _ => .unexpected
        refine (Yields.bump_of_current hToken (Reads.refl hOrder)).bind fun _ later h => ?_
        refine (hG.expression.allowIn context later h.inOrder).bind fun inner between hInner => ?_
        refine (collects_expect ")" context between hInner.inOrder).bind fun _ after hAfter => ?_
        have hStart : cursor.StartsAt token.span.start := fun other hOther => by
          rw [Option.some.inj (hToken.symm.trans hOther)]
        exact .pure fun _ => ⟨⟨token, hToken, h.start_lt hStart hInner⟩, hInner.stop_lt hAfter⟩

/-- What follows an operand makes something else of it or leaves it as it is. -/
theorem isOperand_operandTurn {state : Node × Bool} (h : state.1.IsOperand origin cursor) :
    Yields (operandTurn G start state) context cursor
      (Turn.Meets (fun state later => state.1.IsOperand origin later)
        fun state later => state.1.IsOperand origin later) := by
  obtain ⟨operand, chained⟩ := state
  have hAgain : ∀ {production : Production Node} {flag : Bool} {cursor : Cursor},
      ReadsOther production →
      Yields (production >>= fun operand => Pure.pure (Turn.again (operand, flag))) context cursor
        (Turn.Meets (fun state later => state.1.IsOperand origin later)
          fun (state : Node × Bool) later => state.1.IsOperand origin later) :=
    fun h => (isOperand_of_other h).bind fun _ _ hOperand => .pure hOperand
  refine (yields_eat_eq ".").bind fun found later hSame => ?_
  refine .ite (fun _ => hAgain readsOther_dotMember) fun hNot => ?_
  obtain rfl := hSame (by simpa using hNot)
  refine .get_bind (.ite (fun _ => ?_) fun _ => ?_)
  · refine .skip fun _ _ => .skip fun _ _ => .skip fun _ _ => .get_bind ?_
    refine .ite (fun _ => hAgain readsOther_call) fun _ => ?_
    exact .ite (fun _ => hAgain readsOther_computedMember) fun _ => hAgain readsOther_dotMember
  refine .get_bind (.ite (fun _ => hAgain readsOther_computedMember) fun _ => ?_)
  refine .get_bind (.ite (fun _ => hAgain readsOther_call) fun _ => ?_)
  refine .get_bind (.ite (fun _ => ?_) fun _ => .pure h)
  exact .ite (fun _ => .skip fun _ _ => .fault) fun _ => hAgain readsOther_taggedTemplate

theorem readsOperand_leftHandSideBody (hG : G.ReadsNodes) :
    ReadsOperand (leftHandSideBody G) := by
  intro context cursor hOrder
  refine .startOffset_bind fun start _ => .get_bind ?_
  refine .either (fun _ => hG.operands.newExpression context cursor hOrder)
    (fun _ => readsOperand_primary hG context cursor hOrder) fun operand later h => ?_
  refine .iterate_bind (fun state later => state.1.IsOperand cursor later)
    (fun state later => state.1.IsOperand cursor later) h
    (fun state later h => isOperand_operandTurn h) ?_
  rintro ⟨operand, chained⟩ later h
  exact .ite (fun _ => isOperand_of_other (readsOther_finish rfl)) fun _ => .pure h

theorem readsOperand_postfixUpdate (hG : G.ReadsNodes) : ReadsOperand (postfixUpdate G start) := by
  intro context cursor hOrder
  refine (hG.operands.leftHandSide context cursor hOrder).bind fun operand later h => .get_bind ?_
  refine yields_newlineBefore_eq.bind fun _ _ hSame => ?_
  subst hSame
  refine .ite (fun _ => ?_) fun _ => .pure h
  exact isOperand_of_other (.skip fun _ => .skip fun _ => readsOther_finish rfl)

theorem readsOperand_unaryBody (hG : G.ReadsNodes) : ReadsOperand (unaryBody G) := by
  intro context cursor hOrder
  refine .startOffset_bind fun start _ => .get_bind ?_
  cases cursor.current? with
  | none => exact .unexpected
  | some token =>
      refine .ite (fun _ => ?_) fun _ => .ite (fun _ => ?_) fun _ => .read_bind ?_
      · exact isOperand_of_other (.skip fun _ => .skip fun _ => readsOther_finish rfl)
      · exact isOperand_of_other
          (.skip fun _ => .skip fun _ => .skip fun _ => readsOther_finish rfl)
      · refine .ite (fun _ => ?_) fun _ => readsOperand_postfixUpdate hG context cursor hOrder
        exact isOperand_of_other
          (.skip fun _ => .skip fun _ => .skip fun _ => readsOther_finish rfl)

/-- What stands at a cursor where there is an operator. -/
theorem exists_of_binaryOperator? {withoutIn : Bool} {operator : String} {precedence : Nat}
    (h : binaryOperator? withoutIn cursor = some (operator, precedence)) :
    ∃ token, cursor.current? = some token ∧ token.text = operator ∧
      Operator.precedence? operator = some precedence := by
  unfold binaryOperator? at h
  split at h
  · cases h
  case h_2 token hToken =>
    split at h
    · cases h
    split at h
    · cases h
    obtain ⟨found, hFound, hResult⟩ := Option.map_eq_some_iff.mp h
    cases hResult
    exact ⟨token, hToken, rfl, hFound⟩

/-- The cursor has not moved, and an operator may have what was read on its left. -/
structure Checked (operator : String) (start : Nat) (left : Node) (before after : Cursor) :
    Prop where
  eq : after = before
  power : Operator.groupsRight operator = true → left.span.start = start →
    left.kind ≠ .unaryExpression ∧ left.kind ≠ .awaitExpression

theorem yields_checkPower {left : Node} (operator : String) :
    Yields (checkPower start left) context cursor fun _ later =>
      Checked operator start left cursor later := by
  refine .startOffset_bind fun _ _ => .require_bind (.ite (fun _ => .fault) fun hNot => .pure ?_)
  exact ⟨rfl, fun _ hStart => by simpa [hStart] using hNot⟩

end Grammar

theorem Node.IsOperand.elim {node : Node} {before after : Cursor} {start : Nat}
    (h : node.IsOperand before after) (hKind : node.kind.isOperation = true)
    (hStart : before.StartsAt start)
    (hEdge : node.span.start = start ∨ node.span.stop = after.previousEnd) : False := by
  obtain ⟨⟨token, hToken, hLt⟩, hStop⟩ := h hKind
  have hTokenStart := hStart token hToken
  omega

/-- The operands on both sides of a token that was taken between them. -/
theorem Takes.between {before cursor between after : Cursor} {taken more : List Token}
    {left right : Node} {token : Token} (hLeft : Takes before taken [left] cursor)
    (hToken : Takes cursor [token] [] between) (hRight : Takes between more [right] after) :
    left.span.stop ≤ token.span.start ∧ token.span.stop ≤ right.span.start := by
  have hOrder := hLeft.inOrder
  rw [hLeft.tokens_eq, hToken.tokens_eq, hRight.tokens_eq] at hOrder
  obtain ⟨stop, hStop, hStopEq⟩ :=
    (hLeft.aligned left (Node.mem_forest_of_mem (List.mem_singleton_self left))).stop_mem
  obtain ⟨start, hStart, hStartEq⟩ :=
    (hRight.aligned right (Node.mem_forest_of_mem (List.mem_singleton_self right))).start_mem
  rw [← hStopEq, ← hStartEq]
  refine ⟨hOrder.stop_le_start hStop (by simp), ?_⟩
  exact hOrder.append_right.stop_le_start (List.mem_singleton_self token) (by simp [hStart])

/-- Only the tokens ahead count for what stops an operation. -/
theorem Cursor.Stops.congr {cursor other : Cursor} {context : Context} {precedence : Nat}
    (h : cursor.Stops context precedence) (hRest : other.rest = cursor.rest) :
    other.Stops context precedence := by
  intro operator binding hOperator
  refine h operator binding ?_
  rw [← hOperator, Grammar.binaryOperator?, Grammar.binaryOperator?, Cursor.current?,
    Cursor.current?, hRest]

namespace Grammar

open Production Operator

/-- What has been read in front of an operator: an operand, or an operation whose own operator has
taken all that binds tightly enough. -/
structure IsLeft (context : Context) (minimum : Nat) (origin : Cursor) (node : Node)
    (cursor : Cursor) : Prop where
  whole : ReadsWhole origin node cursor
  binds : node.IsOperand origin cursor ∨ ∃ operator precedence,
    node.text? .operator = some operator ∧ precedence? operator = some precedence ∧
      minimum ≤ precedence ∧
      cursor.Stops context (if groupsRight operator then precedence else precedence + 1)

variable {G : Grammar Production} {context : Context} {origin cursor between later : Cursor}
  {start minimum : Nat} {left right : Node} {operator : String} {precedence : Nat}

/-- Where no operator follows that binds tightly enough, all that was read is joined. -/
theorem IsLeft.isTerm (h : IsLeft context minimum origin left cursor)
    (hStart : origin.StartsAt start) (hStops : cursor.Stops context minimum) :
    left.IsTerm context minimum cursor where
  binds hKind hStop := by
    rcases h.binds with hOperand | ⟨operator, precedence, hText, hBinds, hMinimum, -⟩
    · exact (hOperand.elim hKind hStart (.inr hStop)).elim
    · exact ⟨operator, precedence, hText, hBinds, hMinimum⟩
  stops := hStops

/-- An operator joins what was read in front of it and behind it. -/
theorem IsLeft.joins (h : IsLeft context minimum origin left cursor)
    (hStart : origin.StartsAt start)
    (hOperator : binaryOperator? context.withoutIn cursor = some (operator, precedence))
    {after : Cursor} (hChecked : Checked operator start left cursor after)
    (hTerm : right.IsTerm context (if groupsRight operator then precedence else precedence + 1)
      later) {tokens : List Token} {token : Token} (hToken : token ∈ tokens)
    (hText : token.text = operator)
    (hBetween : left.span.stop ≤ token.span.start ∧ token.span.stop ≤ right.span.start)
    (id : NodeId) (kind : NodeKind) :
    (Node.mk id kind ⟨start, later.previousEnd⟩ [(.operator, .text operator), (.left, .node left),
      (.right, .node right)]).Joins tokens operator left right where
  operator_eq := rfl
  left_eq := rfl
  right_eq := rfl
  binds := by
    obtain ⟨_, -, -, hBinds⟩ := exists_of_binaryOperator? hOperator
    rw [hBinds]
    rfl
  inTurn := ⟨token, hToken, hText, hBetween⟩
  fitsLeft hKind hEdge := by
    obtain ⟨_, -, -, hBinds⟩ := exists_of_binaryOperator? hOperator
    rcases h.binds with hOperand | ⟨inner, tighter, hInner, hTighter, -, hStops⟩
    · exact (hOperand.elim hKind hStart (.inl hEdge)).elim
    · exact ⟨inner, hInner, fitsLeft_of_lt hBinds hTighter (hStops _ _ hOperator)⟩
  fitsRight hKind hEdge := by
    obtain ⟨_, -, -, hBinds⟩ := exists_of_binaryOperator? hOperator
    obtain ⟨inner, tighter, hInner, hTighter, hLe⟩ := hTerm.binds hKind hEdge
    exact ⟨inner, hInner, fitsRight_of_le hBinds hTighter hLe⟩
  power := hChecked.power

end Grammar

end EcmaLint
