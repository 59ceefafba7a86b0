import EcmaLint.Grammar.Expression
import EcmaLint.Proofs.Grammar.Operations

/-! What operations, arrow functions and assignments read. -/
namespace EcmaLint.Grammar

open Production

variable {G : Grammar Production} {context : Context} {origin cursor : Cursor} {start : Nat}

theorem yields_unaryNode {kind : NodeKind} {operator : String} {argument : Node}
    {isPrefix : Bool} (hKind : kind.IsPlain) (h : Reads true origin [argument] cursor)
    (hStart : origin.StartsAt start) :
    Yields (unaryNode kind start operator argument isPrefix) context cursor
      fun node later => ReadsWhole origin node later :=
  .finishWhole h hStart (by simpa [Field.Hold] using hKind)

theorem collects_requireSimpleTarget (node : Node) :
    Collects false (requireSimpleTarget node) fun _ => [] := fun _ _ hOrder =>
  .ite (fun _ => .pure (Reads.refl hOrder)) fun _ => .throw

theorem yields_assignmentTarget {operator : String} {left : Node}
    (h : Reads true origin [left] cursor) :
    Yields (assignmentTarget operator left) context cursor
      fun target later => Reads true origin [target] later := by
  refine .ite (fun _ => .toTarget h) fun _ => ?_
  refine .optional_two (fun _ => ?_) (fun _ => h) fun later h => ?_
  · exact .startOffset_bind fun _ _ => .require h
  refine .optional_two (fun _ => ?_) (fun _ => h) fun later h => ?_
  · exact .startOffset_bind fun _ _ => .require h
  exact (collects_requireSimpleTarget left).skipAfter h fun _ _ h => .pure h

namespace ReadsNodes

theorem postfixUpdate (hG : G.ReadsNodes) (hOrder : Token.InOrder cursor.tokens)
    (hStart : cursor.StartsAt start) :
    Yields (postfixUpdate G start) context cursor
      fun node later => ReadsWhole cursor node later := by
  refine (hG.expressions.leftHandSide context cursor hOrder).bind fun operand later h =>
    .get_bind (yields_newlineBefore_eq.bind fun _ after hSame => ?_)
  subst hSame
  refine .ite (fun _ => ?_) fun _ => .pure h
  refine (collects_requireSimpleTarget operand).skipAfter h.reads fun _ later h => ?_
  exact collects_bump.skipAfter h fun _ later h => yields_unaryNode (by simp) h hStart

theorem unaryBody (hG : G.ReadsNodes) : IsWhole (unaryBody G) := by
  intro context cursor hOrder
  refine .startOffset_bind fun start hStart => .get_bind ?_
  have h := Reads.refl hOrder
  cases cursor.current? with
  | none => exact .unexpected
  | some token =>
      refine .ite (fun _ => ?_) fun _ => .ite (fun _ => ?_) fun _ => .read_bind ?_
      · refine collects_bump.skipAfter h fun _ later h => ?_
        refine hG.unary.nested.bindAfter h fun argument later h => ?_
        exact yields_unaryNode (by simp) h hStart
      · refine collects_bump.skipAfter h fun _ later h => ?_
        refine hG.unary.nested.bindAfter h fun argument later h => ?_
        refine (collects_requireSimpleTarget argument).skipAfter h fun _ later h => ?_
        exact yields_unaryNode (by simp) h hStart
      refine .ite (fun _ => ?_) fun _ => hG.postfixUpdate hOrder hStart
      refine .require_bind ?_
      refine collects_bump.skipAfter h fun _ later h => ?_
      refine hG.unary.nested.bindAfter h fun argument later h => ?_
      exact .finishWhole h hStart (by simp [Field.Hold])

theorem binaryTurn (hG : G.ReadsNodes) {minimum : Nat} {left : Node}
    (h : IsLeft context minimum origin left cursor) (hStart : origin.StartsAt start) :
    Yields (binaryTurn G start minimum left) context cursor
      (Turn.Meets (IsLeft context minimum origin) fun node later =>
        ReadsWhole origin node later ∧ node.IsTerm context minimum later) := by
  refine .read_bind (.get_bind ?_)
  split
  case h_1 hNone =>
    exact .pure ⟨h.whole, h.isTerm hStart fun _ _ hSome => by simp [hNone] at hSome⟩
  case h_2 operator precedence hOperator =>
  refine .ite (fun hLt => .pure ⟨h.whole, h.isTerm hStart fun _ _ hSome => ?_⟩) fun hMinimum => ?_
  · cases hOperator.symm.trans hSome
    exact hLt
  obtain ⟨token, hToken, hText, hBinds⟩ := exists_of_binaryOperator? hOperator
  refine .optional (fun _ => yields_checkPower operator)
    (fun hNot => ⟨rfl, fun hGroups => absurd hGroups hNot⟩) fun later hChecked => ?_
  refine .optional_two (fun _ => .startOffset_bind fun _ _ => .require hChecked)
    (fun _ => hChecked) fun later hChecked => ?_
  obtain rfl := hChecked.eq
  refine (yields_bump_takes hToken h.whole.reads.inOrder).bind ?_
  rintro - between ⟨hTaken, hArena⟩
  refine ((hG.binary _ context between hTaken.inOrder_after).and
    (hG.operands.binary _ context between hTaken.inOrder_after)).bind ?_
  rintro right after ⟨⟨⟨more, -, hTakesRight⟩, hStoresRight⟩, hTerm⟩
  obtain ⟨⟨taken, -, hTakesLeft⟩, hStoresLeft⟩ := h.whole.reads
  have hTakes := (hTakesLeft.trans hTaken).trans hTakesRight
  have hStores := hStoresLeft.trans (hArena ▸ hStoresRight)
  have hJoins := h.joins hStart hOperator hChecked hTerm
    (List.mem_append_left more (List.mem_append_right taken (List.mem_singleton_self token)))
    hText (hTakesLeft.between hTaken hTakesRight)
  refine ((Yields.finish_of_takes hTakes (by simp) hStores hStart (by simp) (by simp) ?_ (by simp)
    ?_ (fun id _ => ⟨_, _, _, hJoins id _⟩) fun _ => .other ?_).and yields_finish_eq).bind ?_
  · split <;> simp
  · split <;> simp
  · dsimp only [Node.kind]
    split <;> rfl
  rintro node later ⟨⟨hTakes, hStores, hSpans⟩, hFields, hRest⟩
  have hNode : node.text? .operator = some operator := by
    rw [Node.text?, Node.field?, hFields]
    rfl
  exact .pure ⟨.of_spans ⟨⟨⟨_, by simp, hTakes⟩, hStores⟩, hSpans⟩, .inr
    ⟨operator, precedence, hNode, hBinds, Nat.le_of_not_lt hMinimum, hTerm.stops.congr hRest⟩⟩

theorem binaryBody (hG : G.ReadsNodes) (minimum : Nat) :
    IsWhole (binaryBody G minimum) ∧ ReadsTerm minimum (binaryBody G minimum) := by
  suffices h : ∀ context cursor, Token.InOrder cursor.tokens →
      Yields (Grammar.binaryBody G minimum) context cursor fun node later =>
        ReadsWhole cursor node later ∧ node.IsTerm context minimum later from
    ⟨fun context cursor hOrder => (h context cursor hOrder).imp fun _ _ hNode => hNode.1,
      fun context cursor hOrder => (h context cursor hOrder).imp fun _ _ hNode => hNode.2⟩
  intro context cursor hOrder
  refine .startOffset_bind fun start hStart => ?_
  refine ((hG.expressions.unary context cursor hOrder).and
    (hG.operands.unary context cursor hOrder)).bind ?_
  rintro left later ⟨hWhole, hOperand⟩
  exact .iterate (IsLeft context minimum cursor) _ ⟨hWhole, .inl hOperand⟩
    fun _ _ h => hG.binaryTurn h hStart

theorem conditional (hG : G.ReadsNodes) : IsWhole (conditional G) := by
  intro context cursor hOrder
  refine .startOffset_bind fun start hStart => ?_
  refine (hG.expressions.binary 0 context cursor hOrder).bind fun test later h => ?_
  refine (Yields.eatBehind h).bind ?_
  rintro found later ⟨h, hWhole⟩
  refine .ite (fun _ => ?_) fun hFound => .pure (hWhole (by simpa using hFound))
  refine hG.assignment.allowIn.bindAfter h fun consequent later h => ?_
  refine (collects_expect ":").skipAfter h fun _ later h => ?_
  refine hG.assignment.bindAfter h fun alternate later h => ?_
  exact .finishWhole h hStart (by simp [Field.Hold])

theorem arrowBody (hG : G.ReadsNodes) (isAsync : Bool) :
    Collects true (arrowBody G isAsync) fun body => [body.1] := by
  intro context cursor hOrder
  refine .get_bind (.ite (fun _ => ?_) fun _ => ?_)
  · exact hG.block.readsNode.inFunction.bindAfter (Reads.refl hOrder) fun _ _ h => .pure h
  · exact hG.assignment.withReader.bindAfter (Reads.refl hOrder) fun _ _ h => .pure h

theorem arrowFunction (hG : G.ReadsNodes) (isAsync : Bool) :
    IsWhole (arrowFunction G isAsync) := by
  intro context cursor hOrder
  refine .startOffset_bind fun start hStart => ?_
  refine .require_bind ?_
  have h := Reads.refl hOrder
  refine .optional_two (fun _ => ?_) (fun _ => h) fun later h => .get_bind ?_
  · exact .require_bind (collects_bump.passAfter h)
  have hSingle : Collects true ((fun param => [param]) <$> identifier) fun params => params :=
    readsNode_identifier.map fun _ => rfl
  refine .either (fun _ => hG.params.inFunction.after h) (fun _ => hSingle.after h)
    fun params later h => ?_
  refine (collects_expect "=>").skipAfter h fun _ later h => ?_
  refine (hG.arrowBody isAsync).bindAfter h ?_
  rintro ⟨body, isExpression⟩ later h
  exact .finishWhole h hStart (functionFields_hold (by simp) none params body isAsync false
    isExpression)

theorem yieldExpression (hG : G.ReadsNodes) {token : Token}
    (hToken : cursor.current? = some token) (hOrder : Token.InOrder cursor.tokens) :
    Yields (yieldExpression G) context cursor
      fun node later => ReadsWhole cursor node later := by
  refine .startOffset_bind fun start hStart => ?_
  refine (Yields.bump_of_current hToken (Reads.refl hOrder)).bind fun _ later h => .get_bind ?_
  refine collects_newlineBefore.skipAfter h fun _ later h => .ite (fun _ => ?_) fun _ => ?_
  · exact .finishWhole h hStart (by simp [Field.Hold])
  · refine (collects_eat "*").skipAfter h fun _ later h => ?_
    refine hG.assignment.bindAfter h fun argument later h => ?_
    exact .finishWhole h hStart (by simp [Field.Hold])

theorem assignmentBody (hG : G.ReadsNodes) : IsWhole (assignmentBody G) := by
  intro context cursor hOrder
  refine .get_bind (.read_bind (.ite (fun hYield => ?_) fun _ => ?_))
  · obtain ⟨token, hToken⟩ := Cursor.exists_current_of_atText (Bool.and_eq_true_iff.mp hYield).2
    exact hG.yieldExpression hToken hOrder
  split
  · exact hG.arrowFunction _ context cursor hOrder
  refine .startOffset_bind fun start hStart => ?_
  refine (hG.conditional context cursor hOrder).bind fun left later h => .get_bind ?_
  split
  · exact .pure h
  refine (yields_assignmentTarget h.reads).bind fun target later h => ?_
  refine collects_bump.skipAfter h fun _ later h => ?_
  refine hG.assignment.bindAfter h fun right later h => ?_
  exact .finishWhole h hStart (by simp [Field.Hold])

end ReadsNodes

end EcmaLint.Grammar
