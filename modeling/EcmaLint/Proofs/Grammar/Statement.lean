import EcmaLint.Grammar.Statement
import EcmaLint.Proofs.Grammar.Expression

/-! What statements read. A statement is made over everything from its first token to the end of
the last one, its semicolon included, so statements leave no token between them. -/
namespace EcmaLint.Grammar

open Production

variable {G : Grammar Production} {context : Context} {origin cursor : Cursor} {start : Nat}
  {moved : Bool}

theorem collects_checkInitializer (isConst : Bool) (target : Node) :
    Collects false (checkInitializer isConst target) fun _ => [] := by
  intro context cursor hOrder
  dsimp only [checkInitializer]
  refine .optional_two (fun _ => .startOffset_bind fun _ _ => .fault) (fun _ => Reads.refl hOrder)
    fun later h => ?_
  exact .ite (fun _ => .startOffset_bind fun _ _ => .fault) fun _ => .pure h

/-- A statement that is one token takes it. -/
theorem yields_shortStatement {kind : NodeKind} {withSemicolon : Bool} {token : Token}
    (hKind : kind.IsPlain) (hToken : cursor.current? = some token)
    (hOrder : Token.InOrder cursor.tokens) :
    Yields (shortStatement kind withSemicolon) context cursor fun node later =>
      Reads true cursor [node] later ∧ node.Spans cursor later := by
  refine .startOffset_bind fun start hStart => ?_
  refine (Yields.bump_of_current hToken (Reads.refl hOrder)).bind fun _ later h => ?_
  refine .optional (fun _ => collects_semicolon.passAfter h) (fun _ => h) fun later h => ?_
  exact .finish h hStart (by simpa [Field.Hold] using hKind)

theorem yields_jumpStatement {kind : NodeKind} {token : Token}
    (hKind : kind.IsPlain) (hToken : cursor.current? = some token)
    (hOrder : Token.InOrder cursor.tokens) :
    Yields (jumpStatement kind) context cursor fun node later =>
      Reads true cursor [node] later ∧ node.Spans cursor later := by
  refine .startOffset_bind fun start hStart => ?_
  refine (Yields.bump_of_current hToken (Reads.refl hOrder)).bind fun _ later h => .get_bind ?_
  refine collects_newlineBefore.skipAfter h fun _ later h => ?_
  refine .either (fun _ => readsNode_identifier.someAfter h) (fun _ => .pure h.none)
    fun label later h => ?_
  refine collects_semicolon.skipAfter h fun _ later h => ?_
  exact .finish h hStart (by simpa [Field.Hold] using hKind)

namespace ReadsNodes

theorem declarator (hG : G.ReadsNodes) (isConst inFor : Bool) :
    ReadsNode (declarator G isConst inFor) := by
  intro context cursor hOrder
  refine .startOffset_bind fun start hStart => ?_
  refine hG.bindingTarget.bindAfter (Reads.refl hOrder) fun target later h => ?_
  refine (collects_eat "=").skipAfter h fun _ later h => ?_
  refine .either (fun _ => hG.assignment.someAfter h) (fun _ => .pure h.none) fun init later h => ?_
  refine .optional (fun _ => (collects_checkInitializer _ _).passAfter h) (fun _ => h)
    fun later h => ?_
  exact .finishNode h hStart (by simp [Field.Hold])

theorem declarators (hG : G.ReadsNodes) (inFor : Bool) :
    Collects true (declarators G inFor) fun declarations => declarations := by
  intro context cursor hOrder
  refine .get_bind (collects_bump.skipAfter (Reads.refl hOrder) fun _ later h => ?_)
  refine .iterate (Reads false cursor) (Reads true cursor) h fun seen later h => ?_
  refine (hG.declarator _ inFor).bindAfter h fun declaration later h => ?_
  refine (collects_eat ",").skipAfter h fun _ later h => ?_
  exact .ite (fun _ => .pure h.weaken) fun _ => .pure h

theorem variableStatement (hG : G.ReadsNodes) (kind : String) :
    ReadsSpan (variableStatement G kind) := by
  intro context cursor hOrder
  refine .startOffset_bind fun start hStart => ?_
  refine (hG.declarators false).bindAfter (Reads.refl hOrder) fun declarations later h => ?_
  refine collects_semicolon.skipAfter h fun _ later h => ?_
  exact .finish h hStart (by simp [Field.Hold])

theorem expressionStatement (hG : G.ReadsNodes) : ReadsSpan (expressionStatement G) := by
  intro context cursor hOrder
  refine .startOffset_bind fun start hStart => ?_
  refine hG.expression.bindAfter (Reads.refl hOrder) fun expression later h => ?_
  refine collects_semicolon.skipAfter h fun _ later h => ?_
  exact .finish h hStart (by simp [Field.Hold])

theorem ifStatement (hG : G.ReadsNodes) : ReadsSpan (ifStatement G) := by
  intro context cursor hOrder
  refine .startOffset_bind fun start hStart => ?_
  refine collects_bump.skipAfter (Reads.refl hOrder) fun _ later h => ?_
  refine hG.parenthesized.bindAfter h fun test later h => ?_
  refine hG.statement.readsNode.bindAfter h fun consequent later h => ?_
  refine (collects_eat "else").skipAfter h fun _ later h => ?_
  refine .either (fun _ => hG.statement.readsNode.someAfter h) (fun _ => .pure h.none)
    fun alternate later h => ?_
  exact .finish h hStart (by simp [Field.Hold])

theorem forEach (hG : G.ReadsNodes) {left : Node} {isAwait : Bool}
    (h : Reads true origin [left] cursor) (hStart : origin.StartsAt start) :
    Yields (forEach G start left isAwait) context cursor fun node later =>
      Reads true origin [node] later ∧ node.Spans origin later := by
  refine .get_bind ?_
  dsimp only
  refine .optional_two_or (fun _ => ?_) (fun _ => .unexpected) (fun _ => h) fun later h => ?_
  · exact .startOffset_bind fun _ _ => .require h
  refine collects_bump.skipAfter h fun _ later h => ?_
  refine .either (fun _ => hG.assignment.allowIn.after h) (fun _ => hG.expression.allowIn.after h)
    fun right later h => ?_
  refine (collects_expect ")").skipAfter h fun _ later h => ?_
  refine hG.statement.readsNode.bindAfter h fun body later h => ?_
  exact .ite (fun _ => .finish h hStart (by simp [Field.Hold]))
    fun _ => .finish h hStart (by simp [Field.Hold])

theorem forClauses (hG : G.ReadsNodes) {init : Option Node} {isAwait : Bool}
    (h : Reads true origin init.toList cursor) (hStart : origin.StartsAt start) :
    Yields (forClauses G start init isAwait) context cursor fun node later =>
      Reads true origin [node] later ∧ node.Spans origin later := by
  dsimp only [Grammar.forClauses]
  refine .optional (fun _ => .unexpected) (fun _ => h) fun later h => ?_
  refine (collects_expect ";").skipAfter h fun _ later h => .get_bind ?_
  refine .either (fun _ => .pure h.none) (fun _ => hG.expression.allowIn.someAfter h)
    fun test later h => ?_
  refine (collects_expect ";").skipAfter h fun _ later h => .get_bind ?_
  refine .either (fun _ => .pure h.none) (fun _ => hG.expression.allowIn.someAfter h)
    fun update later h => ?_
  refine (collects_expect ")").skipAfter h fun _ later h => ?_
  refine hG.statement.readsNode.bindAfter h fun body later h => ?_
  exact .finish h hStart (by simp [Field.Hold])

theorem forDeclaration (hG : G.ReadsNodes) {isAwait : Bool} (h : Reads true origin [] cursor)
    (hStart : origin.StartsAt start) :
    Yields (forDeclaration G start isAwait) context cursor fun node later =>
      Reads true origin [node] later ∧ node.Spans origin later := by
  -- the declaration is made of what is read from its own word on, not from the loop's
  refine .startOffset_bind fun declarationStart hDeclarationStart => .get_bind ?_
  refine .optional (fun _ => .require (Reads.refl h.inOrder))
    (fun _ => Reads.refl h.inOrder) fun later hOwn => ?_
  refine (hG.declarators true).withoutIn.bindAfter hOwn fun declarations later hOwn => ?_
  refine (Yields.finishNode hOwn hDeclarationStart (by simp [Field.Hold])).bind
    fun declaration later hOwn => ?_
  have h := h.trans hOwn
  exact .get_bind (.ite (fun _ => hG.forEach h hStart) fun _ => hG.forClauses h hStart)

theorem forStatement (hG : G.ReadsNodes) : ReadsSpan (forStatement G) := by
  intro context cursor hOrder
  refine .startOffset_bind fun start hStart => ?_
  refine collects_bump.skipAfter (Reads.refl hOrder) fun _ later h => .get_bind (.read_bind ?_)
  refine .optional_three (fun _ => .startOffset_bind fun _ _ => ?_) (fun _ => h) fun later h => ?_
  · exact .require_bind (collects_bump.passAfter h)
  refine (collects_expect "(").skipAfter h fun _ later h => .get_bind ?_
  refine .ite (fun _ => hG.forClauses h hStart) fun _ => .read_bind ?_
  refine .ite (fun _ => hG.forDeclaration h hStart) fun _ => ?_
  refine hG.expression.withoutIn.bindAfter h fun expression later h => .get_bind ?_
  refine .ite (fun _ => ?_) fun _ => hG.forClauses h hStart
  exact (Yields.toTarget h).bind fun _ _ h => hG.forEach h hStart

theorem whileStatement (hG : G.ReadsNodes) : ReadsSpan (whileStatement G) := by
  intro context cursor hOrder
  refine .startOffset_bind fun start hStart => ?_
  refine collects_bump.skipAfter (Reads.refl hOrder) fun _ later h => ?_
  refine hG.parenthesized.bindAfter h fun test later h => ?_
  refine hG.statement.readsNode.bindAfter h fun body later h => ?_
  exact .finish h hStart (by simp [Field.Hold])

theorem doWhileStatement (hG : G.ReadsNodes) : ReadsSpan (doWhileStatement G) := by
  intro context cursor hOrder
  refine .startOffset_bind fun start hStart => ?_
  refine collects_bump.skipAfter (Reads.refl hOrder) fun _ later h => ?_
  refine hG.statement.readsNode.bindAfter h fun body later h => ?_
  refine (collects_expect "while").skipAfter h fun _ later h => ?_
  refine hG.parenthesized.bindAfter h fun test later h => ?_
  refine (collects_eat ";").skipAfter h fun _ later h => ?_
  exact .finish h hStart (by simp [Field.Hold])

theorem returnStatement (hG : G.ReadsNodes) {token : Token} (hToken : cursor.current? = some token)
    (hOrder : Token.InOrder cursor.tokens) :
    Yields (returnStatement G) context cursor fun node later =>
      Reads true cursor [node] later ∧ node.Spans cursor later := by
  refine .startOffset_bind fun start hStart => ?_
  refine (Yields.bump_of_current hToken (Reads.refl hOrder)).bind fun _ later h => ?_
  refine collects_atStatementEnd.skipAfter h fun _ later h => ?_
  refine .either (fun _ => .pure h.none) (fun _ => hG.expression.someAfter h)
    fun argument later h => ?_
  refine collects_semicolon.skipAfter h fun _ later h => ?_
  exact .finish h hStart (by simp [Field.Hold])

theorem throwStatement (hG : G.ReadsNodes) : ReadsSpan (throwStatement G) := by
  intro context cursor hOrder
  refine .startOffset_bind fun start hStart => ?_
  refine collects_bump.skipAfter (Reads.refl hOrder) fun _ later h => ?_
  refine collects_newlineBefore.skipAfter h fun _ later h => ?_
  refine .optional_two (fun _ => .get_bind .fault) (fun _ => h) fun later h => ?_
  refine hG.expression.bindAfter h fun argument later h => ?_
  refine collects_semicolon.skipAfter h fun _ later h => ?_
  exact .finish h hStart (by simp [Field.Hold])

theorem catchClause (hG : G.ReadsNodes) : ReadsNode (catchClause G) := by
  intro context cursor hOrder
  refine .startOffset_bind fun start hStart => ?_
  refine collects_bump.skipAfter (Reads.refl hOrder) fun _ later h => ?_
  refine (collects_eat "(").skipAfter h fun _ later h => ?_
  refine .either_threes (fun _ => ?_) (fun _ => .startOffset_bind fun _ _ => ?_)
    fun param later (h : Reads false cursor param.toList later) => ?_
  · refine hG.bindingTarget.bindAfter h fun param later h => ?_
    exact (collects_expect ")").skipAfter h fun _ later h => .pure h.weaken
  · exact .require_bind (.pure h)
  refine hG.block.readsNode.bindAfter h fun body later h => ?_
  exact .finishNode h hStart (by simp [Field.Hold])

theorem tryStatement (hG : G.ReadsNodes) : ReadsSpan (tryStatement G) := by
  intro context cursor hOrder
  refine .startOffset_bind fun start hStart => ?_
  refine collects_bump.skipAfter (Reads.refl hOrder) fun _ later h => ?_
  refine hG.block.readsNode.bindAfter h fun block later h => .get_bind ?_
  refine .either (fun _ => hG.catchClause.someAfter h) (fun _ => .pure h.none)
    fun handler later h => ?_
  refine (collects_eat "finally").skipAfter h fun _ later h => ?_
  refine .either (fun _ => hG.block.readsNode.someAfter h) (fun _ => .pure h.none)
    fun finalizer later h => ?_
  refine .optional_two (fun _ => .startOffset_bind fun _ _ => .fault) (fun _ => h)
    fun later h => ?_
  exact .finish h hStart (by simp [Field.Hold])

theorem caseHead (hG : G.ReadsNodes) (seenDefault : Bool) :
    Collects false (caseHead G seenDefault) fun head => head.1.toList := by
  intro context cursor hOrder
  refine (collects_eat "case").skipAfter (Reads.refl hOrder) fun _ later h => ?_
  refine .ite (fun _ => ?_) fun _ => .get_bind (.ite (fun _ => ?_) fun _ => .unexpected)
  · exact hG.expression.allowIn.bindAfter h fun _ _ h => .pure h.weaken
  refine .optional_two (fun _ => .startOffset_bind fun _ _ => .fault) (fun _ => h)
    fun later h => ?_
  exact collects_bump.skipAfter h fun _ _ h => .pure h

theorem caseBody (hG : G.ReadsNodes) : Collects false (caseBody G) fun body => body := by
  intro context cursor hOrder
  refine .iterate (Reads false cursor) (Reads false cursor) (Reads.refl hOrder)
    fun seen later h => ?_
  refine .get_bind (.ite (fun _ => .pure h) fun _ => .ite (fun _ => .unexpected) fun _ => ?_)
  exact hG.statement.readsNode.bindAfter h fun _ _ h => .pure h.weaken

theorem switchTurn (hG : G.ReadsNodes) {state : List Node × Bool}
    (h : Reads false origin state.1 cursor) :
    Yields (switchTurn G state) context cursor
      (Turn.Meets (fun state later => Reads false origin state.1 later) (Reads false origin)) := by
  obtain ⟨seen, seenDefault⟩ := state
  refine .get_bind (.ite (fun _ => .pure h) fun _ => .startOffset_bind fun start hStart => ?_)
  refine (hG.caseHead seenDefault).bindAfter (Reads.refl h.inOrder) ?_
  rintro ⟨test, seenDefault⟩ later hOwn
  refine (collects_expect ":").skipAfter hOwn fun _ later hOwn => ?_
  refine hG.caseBody.bindAfter hOwn fun consequent later hOwn => ?_
  refine (Yields.finishNode hOwn hStart (by simp [Field.Hold])).bind fun case later hOwn => ?_
  exact .pure (h.trans hOwn).weaken

theorem switchStatement (hG : G.ReadsNodes) : ReadsSpan (switchStatement G) := by
  intro context cursor hOrder
  refine .startOffset_bind fun start hStart => ?_
  refine collects_bump.skipAfter (Reads.refl hOrder) fun _ later h => ?_
  refine hG.parenthesized.bindAfter h fun discriminant later h => ?_
  refine (collects_expect "\x7b").skipAfter h fun _ later h => ?_
  -- the discriminant was read before, so the cases are counted from the brace on
  refine .iterate_bind (fun state between => Reads false later state.1 between)
    (Reads false later) (Reads.refl h.inOrder) (fun _ _ h => hG.switchTurn h)
    fun cases between hCases => ?_
  refine collects_bump.skipAfter (h.trans hCases) fun _ later h => ?_
  exact .finish h hStart (by simp [Field.Hold])

theorem withStatement (hG : G.ReadsNodes) : ReadsSpan (withStatement G) := by
  intro context cursor hOrder
  refine .startOffset_bind fun start hStart => ?_
  refine collects_bump.skipAfter (Reads.refl hOrder) fun _ later h => ?_
  refine hG.parenthesized.bindAfter h fun object later h => ?_
  refine hG.statement.readsNode.bindAfter h fun body later h => ?_
  exact .finish h hStart (by simp [Field.Hold])

theorem labeledStatement (hG : G.ReadsNodes) : ReadsSpan (labeledStatement G) := by
  intro context cursor hOrder
  refine .startOffset_bind fun start hStart => ?_
  refine readsNode_identifier.bindAfter (Reads.refl hOrder) fun label later h => ?_
  refine (collects_expect ":").skipAfter h fun _ later h => ?_
  refine hG.statement.readsNode.bindAfter h fun body later h => ?_
  exact .finish h hStart (by simp [Field.Hold])

theorem keywordStatement (hG : G.ReadsNodes) {word : String} {token : Token}
    (hToken : cursor.current? = some token) (hOrder : Token.InOrder cursor.tokens) :
    Yields (keywordStatement G word) context cursor fun node later =>
      Reads true cursor [node] later ∧ node.Spans cursor later := by
  unfold Grammar.keywordStatement
  split
  · exact hG.variableStatement _ context cursor hOrder
  · refine .startOffset_bind fun _ _ => .require_bind ?_
    exact hG.variableStatement _ context cursor hOrder
  · exact .startOffset_bind fun start hStart => hG.function (Reads.refl hOrder) hStart
  · exact hG.classOf _ context cursor hOrder
  · exact hG.ifStatement context cursor hOrder
  · exact hG.forStatement context cursor hOrder
  · exact hG.whileStatement context cursor hOrder
  · exact hG.doWhileStatement context cursor hOrder
  · exact hG.returnStatement hToken hOrder
  · exact yields_jumpStatement (by simp) hToken hOrder
  · exact yields_jumpStatement (by simp) hToken hOrder
  · exact hG.throwStatement context cursor hOrder
  · exact hG.tryStatement context cursor hOrder
  · exact hG.switchStatement context cursor hOrder
  · exact hG.withStatement context cursor hOrder
  · exact yields_shortStatement (by simp) hToken hOrder
  · exact hG.expressionStatement context cursor hOrder

theorem wordStatement (hG : G.ReadsNodes) (word : String) : ReadsSpan (wordStatement G word) := by
  intro context cursor hOrder
  refine .get_bind (.read_bind (.ite (fun _ => ?_) fun _ => .ite (fun _ => ?_) fun _ => ?_))
  · exact hG.variableStatement _ context cursor hOrder
  · refine .startOffset_bind fun start hStart => ?_
    refine .require_bind ?_
    exact collects_bump.skipAfter (Reads.refl hOrder) fun _ later h => hG.function h hStart
  · exact .ite (fun _ => hG.labeledStatement context cursor hOrder)
      fun _ => hG.expressionStatement context cursor hOrder

theorem statementBody (hG : G.ReadsNodes) : ReadsSpan (statementBody G) := by
  intro context cursor hOrder
  refine .get_bind ?_
  cases hToken : cursor.current? with
  | none => exact .unexpected
  | some token =>
      have hExpression := hG.expressionStatement context cursor hOrder
      dsimp only
      split
      · exact hG.keywordStatement hToken hOrder
      · exact hG.wordStatement _ context cursor hOrder
      · refine .ite (fun _ => hG.block context cursor hOrder) fun _ => ?_
        exact .ite (fun _ => yields_shortStatement (by simp) hToken hOrder) fun _ => hExpression
      · exact hExpression

end ReadsNodes

end EcmaLint.Grammar
