import EcmaLint.Proofs.Shape.Settling

/-! Shorthand properties with a default, in a whole source. A statement that leaves a default
waiting is refused. Turning an expression into a target ends the wait of all defaults in its span,
although an object that stands deeper in the target, as in `({ a = 1 }).x = 2`, does not become a
pattern. So an object that has such a default stands below something that is written to, but need
not be written to itself. -/
namespace EcmaLint

open Production Node

namespace Grammar

namespace SettlesDefaults

variable {G : Grammar Production}

theorem settles_requireSimpleTarget {node : Node} :
    Settles (requireSimpleTarget node) fun _ => True := .ite (.pure trivial) .throw

theorem unaryNode {kind : NodeKind} {start : Nat} {operator : String} {argument : Node}
    {isPrefix : Bool} (hKind : kind ≠ .objectExpression) :
    Settles (unaryNode kind start operator argument isPrefix) fun node =>
      argument.IsSettled → node.IsSettled :=
  .finish fun _ _ h => .of_fields hKind (by simp [h])

theorem unaryBody (hG : G.SettlesDefaults) : Settles (unaryBody G) IsSettled := by
  have hPostfix : ∀ {start}, Settles (postfixUpdate G start) IsSettled := by
    intro start
    refine hG.leftHandSide.bind fun operand => .get_bind fun _ => ?_
    refine settles_newlineBefore.skip fun _ => .ite ?_ (.pure id)
    exact settles_requireSimpleTarget.skip fun _ => settles_bump.skip fun _ => unaryNode (by simp)
  refine settles_startOffset.skip fun start => .get_bind fun cursor => ?_
  split
  · exact .unexpected
  refine .ite ?_ (.ite ?_ (.read_bind fun _ => .ite ?_ hPostfix))
  · exact settles_bump.skip fun _ => hG.unary.nested.bind fun _ => unaryNode (by simp)
  · exact settles_bump.skip fun _ => hG.unary.nested.bind fun _ =>
      settles_requireSimpleTarget.skip fun _ => unaryNode (by simp)
  · exact settles_require.skip fun _ => settles_bump.skip fun _ => hG.unary.nested.bind fun _ =>
      .finish fun _ _ h => .of_fields (by simp) (by simp [h])

theorem binaryNode {kind : NodeKind} {start : Nat} {operator : String} {left right : Node}
    (hKind : kind ≠ .objectExpression) :
    Settles (finish kind start
      [(.operator, .text operator), (.left, .node left), (.right, .node right)]) fun node =>
        right.IsSettled → left.IsSettled → node.IsSettled :=
  .finish fun _ _ hRight hLeft => .of_fields hKind (by simp [hLeft, hRight])

theorem binaryTurn (hG : G.SettlesDefaults) {start minimum : Nat} {left : Node} :
    Settles (binaryTurn G start minimum left) fun outcome => left.IsSettled →
      Turn.Gives IsSettled IsSettled outcome := by
  have hPower : Settles (checkPower start left) fun _ => True :=
    .requiring (.ite .fault (.pure trivial))
  refine .read_bind fun _ => .get_bind fun _ => ?_
  split
  · exact .pure id
  refine .ite (.pure id) (.optional hPower ?_)
  refine .optional_two settles_startOffset (fun _ => settles_require) ?_
  refine settles_bump.skip fun _ => (hG.binary _).bind fun right => ?_
  split
  · exact (binaryNode (by simp)).bind fun _ => .pure id
  · exact (binaryNode (by simp)).bind fun _ => .pure id

theorem binaryBody (hG : G.SettlesDefaults) (minimum : Nat) :
    Settles (binaryBody G minimum) IsSettled :=
  settles_startOffset.skip fun _ => hG.unary.bind fun left =>
    .iterate IsSettled IsSettled (fun _ => hG.binaryTurn) left

theorem conditional (hG : G.SettlesDefaults) : Settles (conditional G) IsSettled := by
  refine settles_startOffset.skip fun start => (hG.binary 0).bind fun test => ?_
  refine (settles_eat "?").skip fun _ => .ite ?_ (.pure id)
  refine hG.assignment.allowIn.bind fun consequent => ?_
  refine (settles_expect ":").skip fun _ => hG.assignment.bind fun alternate => .finish ?_
  exact fun _ _ hAlternate hConsequent hTest =>
    .of_fields (by simp) (by simp [hAlternate, hConsequent, hTest])

theorem arrowBody (hG : G.SettlesDefaults) (isAsync : Bool) :
    Settles (arrowBody G isAsync) fun body => body.1.IsSettled :=
  .get_bind fun _ => .ite (hG.block.inFunction.bind fun _ => .pure id)
    (hG.assignment.withReader.bind fun _ => .pure id)

theorem arrowFunction (hG : G.SettlesDefaults) (isAsync : Bool) :
    Settles (arrowFunction G isAsync) IsSettled := by
  have hSingle : Settles ((fun param => [param]) <$> identifier) AllSettled :=
    .map (settles_identifier.imp fun _ h => by simpa using h)
  refine settles_startOffset.skip fun start => settles_require.skip fun _ => ?_
  refine .optional_two settles_require (fun _ => settles_bump) (.get_bind fun _ => ?_)
  refine .either hG.params.inFunction hSingle fun params => (settles_expect "=>").skip fun _ => ?_
  refine (hG.arrowBody isAsync).bind fun (body, isExpression) => ?_
  exact (functionNode (by simp)).imp fun _ h hBody hParams => h (by simp [hParams, hBody]) (by simp)

theorem yieldExpression (hG : G.SettlesDefaults) : Settles (yieldExpression G) IsSettled := by
  refine settles_startOffset.skip fun start => settles_bump.skip fun _ => .get_bind fun _ => ?_
  refine settles_newlineBefore.skip fun _ => .ite ?_ ?_
  · exact .finish fun _ _ => .of_fields (by simp) (by simp)
  · exact (settles_eat "*").skip fun _ => hG.assignment.bind fun _ =>
      .finish fun _ _ h => .of_fields (by simp) (by simp [h])

/-- What stands before an assignment operator is settled, or the assignment writes to it. -/
theorem yields_assignmentTarget {context : Context} {origin cursor : Cursor} {moved : Bool}
    {operator : String} {left : Node} (h : Keeps origin left.IsSettled cursor)
    (hPassed : origin.HasPassed) (hReads : Reads moved origin [left] cursor)
    (hShaped : left.Shaped) :
    Yields (assignmentTarget operator left) context cursor fun target later =>
      Keeps origin (operator = "=" ∧ target.kind.isTarget = true ∨ target.IsSettled) later := by
  refine .ite (fun hPlain => ?_) fun _ => ?_
  · exact (h.toTarget hPassed hReads hShaped).imp fun _ _ hTarget =>
      hTarget.imp fun hKind => .inl ⟨by simpa using hPlain, hKind⟩
  have hSimple : Settles (do
      if operator == "**=" then require .exponentiation (← startOffset)
      if ["&&=", "||=", "??="].contains operator then require .logicalAssignment (← startOffset)
      requireSimpleTarget left
      return left) (· = left) :=
    .optional_two settles_startOffset (fun _ => settles_require) <|
      .optional_two settles_startOffset (fun _ => settles_require) <|
        settles_requireSimpleTarget.skip fun _ => .pure rfl
  refine (hSimple.after h).imp fun _ _ hTarget => hTarget.imp ?_
  rintro ⟨hSettled, rfl⟩
  exact .inr hSettled

theorem assignmentBody (hG : G.SettlesDefaults) : Settles (assignmentBody G) IsSettled := by
  intro context cursor hPassed
  refine .get_bind (.read_bind (.ite (fun _ => ?_) fun _ => ?_))
  · exact hG.yieldExpression context cursor hPassed
  split
  · exact hG.arrowFunction _ context cursor hPassed
  refine .startOffset_bind fun start _ => ?_
  refine ((hG.conditional context cursor hPassed).and
    ((hG.reads.conditional context cursor hPassed.inOrder).and
      (hG.shapes.conditional context cursor))).bind ?_
  rintro left later ⟨hLeft, hReads, hShaped⟩
  refine .get_bind ?_
  split
  · exact .pure hLeft
  case h_2 operator _ =>
  refine (yields_assignmentTarget hLeft hPassed hReads.reads hShaped.shaped).bind
    fun target later hTarget => ?_
  have hRest : Settles (do
      bump
      let right ← G.assignment
      finish .assignmentExpression start
        [(.operator, .text operator), (.left, .node target), (.right, .node right)]) fun node =>
          operator = "=" ∧ target.kind.isTarget = true ∨ target.IsSettled → node.IsSettled := by
    refine settles_bump.skip fun _ => hG.assignment.bind fun right => .finish ?_
    refine fun _ _ hRight h => .of_target (by simp) (h.imp_left ?_) (by simp [hRight])
    rintro ⟨rfl, hKind⟩
    exact ⟨.inl ⟨rfl, rfl⟩, rfl, hKind⟩
  exact (hRest.after hTarget).imp fun _ _ hNode => hNode.imp fun h => h.2 h.1

theorem declarator (hG : G.SettlesDefaults) (isConst inFor : Bool) :
    Settles (declarator G isConst inFor) IsSettled := by
  have hCheck : ∀ target, Settles (checkInitializer isConst target) fun _ => True := by
    intro target
    dsimp only [checkInitializer]
    refine .optional_two settles_startOffset (fun _ => .fault) ?_
    exact .ite (settles_startOffset.skip fun _ => .fault) (.pure trivial)
  refine settles_startOffset.skip fun start => hG.bindingTarget.bind fun target => ?_
  refine (settles_eat "=").skip fun _ => .either hG.assignment.someOf (.pure (by simp)) ?_
  refine fun init => .optional (hCheck target) (.finish fun _ _ hInit hTarget => ?_)
  refine .of_fields (by simp) ?_
  simp_all

theorem declarators (hG : G.SettlesDefaults) (inFor : Bool) :
    Settles (declarators G inFor) AllSettled := by
  refine .get_bind fun _ => settles_bump.skip fun _ => ?_
  refine (Settles.list (fun seen => ?_) []).imp fun _ h => h allSettled_nil
  refine (hG.declarator _ _).bind fun declarator => (settles_eat ",").skip fun _ => .ite .again ?_
  exact .pure fun hDeclarator hSeen => by simpa [Turn.Gives] using ⟨hSeen, hDeclarator⟩

theorem variableStatement (hG : G.SettlesDefaults) (kind : String) :
    Settles (variableStatement G kind) IsSettled :=
  settles_startOffset.skip fun _ => (hG.declarators false).bind fun _ =>
    settles_semicolon.skip fun _ => .finish fun _ _ h => .of_fields (by simp) (by simpa using h)

theorem expressionStatement (hG : G.SettlesDefaults) : Settles (expressionStatement G) IsSettled :=
  settles_startOffset.skip fun _ => hG.expression.bind fun _ => settles_semicolon.skip fun _ =>
    .finish fun _ _ h => .of_fields (by simp) (by simp [h])

theorem ifStatement (hG : G.SettlesDefaults) : Settles (ifStatement G) IsSettled := by
  refine settles_startOffset.skip fun start => settles_bump.skip fun _ => ?_
  refine hG.parenthesized.bind fun test => hG.statement.bind fun consequent => ?_
  refine (settles_eat "else").skip fun _ => .either hG.statement.someOf (.pure (by simp)) ?_
  refine fun alternate => .finish fun _ _ hAlternate hConsequent hTest => .of_fields (by simp) ?_
  simp_all

theorem forEach (hG : G.SettlesDefaults) {start : Nat} {left : Node} {isAwait : Bool} :
    Settles (forEach G start left isAwait) fun node =>
      left.kind.isTarget = true ∨ left.IsSettled → node.IsSettled := by
  have hRest : ∀ isOf : Bool, Settles (do
      bump
      let right ← if isOf then allowIn G.assignment else allowIn G.expression
      expect ")"
      let body ← G.statement
      let fields := [(FieldName.left, Field.node left), (.right, .node right), (.body, .node body)]
      if isOf then finish .forOfStatement start (fields ++ [(.await, .flag isAwait)])
      else finish .forInStatement start fields) fun node =>
        left.kind.isTarget = true ∨ left.IsSettled → node.IsSettled := by
    intro isOf
    refine settles_bump.skip fun _ => ?_
    refine .either hG.assignment.allowIn hG.expression.allowIn fun right => ?_
    refine (settles_expect ")").skip fun _ => hG.statement.bind fun body => .ite ?_ ?_
    · refine .finish fun _ _ hBody hRight hLeft => .of_target (by simp) (hLeft.imp_left ?_)
        (by simp [hRight, hBody])
      exact fun hKind => ⟨.inr (.inr rfl), rfl, hKind⟩
    · refine .finish fun _ _ hBody hRight hLeft => .of_target (by simp) (hLeft.imp_left ?_)
        (by simp [hRight, hBody])
      exact fun hKind => ⟨.inr (.inl rfl), rfl, hKind⟩
  refine .get_bind fun _ => .ite ?_ (.optional .unexpected (hRest _))
  exact .requiring (hRest _)

theorem forClauses (hG : G.SettlesDefaults) {start : Nat} {init : Option Node} {isAwait : Bool} :
    Settles (forClauses G start init isAwait) fun node =>
      AllSettled init.toList → node.IsSettled := by
  unfold Grammar.forClauses
  refine .optional .unexpected ((settles_expect ";").skip fun _ => .get_bind fun _ => ?_)
  refine .either (.pure (by simp)) hG.expression.allowIn.someOf fun test => ?_
  refine (settles_expect ";").skip fun _ => .get_bind fun _ => ?_
  refine .either (.pure (by simp)) hG.expression.allowIn.someOf fun update => ?_
  refine (settles_expect ")").skip fun _ => hG.statement.bind fun body => .finish ?_
  exact fun _ _ hBody hUpdate hTest hInit => .of_fields (by simp) (by simp_all)

theorem forDeclaration (hG : G.SettlesDefaults) {start : Nat} {isAwait : Bool} :
    Settles (forDeclaration G start isAwait) IsSettled := by
  refine settles_startOffset.skip fun declarationStart => .get_bind fun _ => ?_
  refine .optional settles_require ((hG.declarators true).withoutIn.bind fun declarations => ?_)
  have hDeclaration : ∀ {kind : String}, Settles (finish .variableDeclaration declarationStart
      [(.declarations, .nodes declarations), (.kind, .text kind)]) fun node =>
        AllSettled declarations → node.IsSettled :=
    .finish fun _ _ h => .of_fields (by simp) (by simpa using h)
  refine hDeclaration.bind fun declaration => .get_bind fun _ => .ite ?_ ?_
  · exact hG.forEach.imp fun _ h hNode hAll => h (.inr (hNode hAll))
  · exact hG.forClauses.imp fun _ h hNode hAll => h (by simpa using hNode hAll)

/-- The head of a loop that starts with an expression. -/
theorem forExpression (hG : G.SettlesDefaults) {start : Nat} {isAwait : Bool} :
    Settles (do
      let expression ← withoutIn G.expression
      if atInOrOf (← get) then Grammar.forEach G start (← toTarget expression) isAwait
      else Grammar.forClauses G start (some expression) isAwait) IsSettled := by
  have hClauses : ∀ expression, Settles (Grammar.forClauses G start (some expression) isAwait)
      fun node => expression.IsSettled → node.IsSettled := fun expression =>
    hG.forClauses.imp fun _ h hExpression => h (by simpa using hExpression)
  intro context cursor hPassed
  refine ((hG.expression.withoutIn context cursor hPassed).and
    ((hG.reads.expression.withoutIn context cursor hPassed.inOrder).and
      (hG.shapes.expression.withoutIn context cursor))).bind ?_
  rintro expression later ⟨hKeeps, hReads, hShaped⟩
  refine .get_bind (.ite (fun _ => ?_) fun _ => ?_)
  · refine (hKeeps.toTarget hPassed hReads hShaped.shaped).bind fun target later hTarget => ?_
    exact (hG.forEach.after hTarget).imp fun _ _ hNode => hNode.imp fun h => h.2 (.inl h.1)
  · exact ((hClauses expression).after hKeeps).imp fun _ _ hNode => hNode.imp fun h => h.2 h.1

theorem forStatement (hG : G.SettlesDefaults) : Settles (forStatement G) IsSettled := by
  refine settles_startOffset.skip fun start => settles_bump.skip fun _ => ?_
  refine .get_bind fun _ => .read_bind fun _ => ?_
  refine .optional_three settles_startOffset (fun _ => settles_require) (fun _ => settles_bump) ?_
  refine (settles_expect "(").skip fun _ => .get_bind fun _ => .ite ?_ (.read_bind fun _ => ?_)
  · exact hG.forClauses.imp fun _ h => h (by simp)
  · exact .ite hG.forDeclaration hG.forExpression

theorem whileStatement (hG : G.SettlesDefaults) : Settles (whileStatement G) IsSettled :=
  settles_startOffset.skip fun _ => settles_bump.skip fun _ => hG.parenthesized.bind fun _ =>
    hG.statement.bind fun _ => .finish fun _ _ hBody hTest =>
      .of_fields (by simp) (by simp [hBody, hTest])

theorem doWhileStatement (hG : G.SettlesDefaults) : Settles (doWhileStatement G) IsSettled :=
  settles_startOffset.skip fun _ => settles_bump.skip fun _ => hG.statement.bind fun _ =>
    (settles_expect "while").skip fun _ => hG.parenthesized.bind fun _ =>
      (settles_eat ";").skip fun _ => .finish fun _ _ hTest hBody =>
        .of_fields (by simp) (by simp [hBody, hTest])

theorem returnStatement (hG : G.SettlesDefaults) : Settles (returnStatement G) IsSettled := by
  refine settles_startOffset.skip fun start => settles_bump.skip fun _ => ?_
  refine settles_atStatementEnd.skip fun _ => .either (.pure (by simp)) hG.expression.someOf ?_
  exact fun argument => settles_semicolon.skip fun _ =>
    .finish fun _ _ h => .of_fields (by simp) (by simpa using h)

theorem settles_jumpStatement {kind : NodeKind} (hKind : kind ≠ .objectExpression) :
    Settles (jumpStatement kind) IsSettled := by
  refine settles_startOffset.skip fun start => settles_bump.skip fun _ => .get_bind fun _ => ?_
  refine settles_newlineBefore.skip fun _ => .either settles_identifier.someOf (.pure (by simp)) ?_
  exact fun label => settles_semicolon.skip fun _ =>
    .finish fun _ _ h => .of_fields hKind (by simpa using h)

theorem throwStatement (hG : G.SettlesDefaults) : Settles (throwStatement G) IsSettled := by
  refine settles_startOffset.skip fun start => settles_bump.skip fun _ => ?_
  refine settles_newlineBefore.skip fun _ => .optional_two settles_get (fun _ => .fault) ?_
  exact hG.expression.bind fun _ => settles_semicolon.skip fun _ =>
    .finish fun _ _ h => .of_fields (by simp) (by simp [h])

theorem catchClause (hG : G.SettlesDefaults) : Settles (catchClause G) IsSettled := by
  have hBody : ∀ {start : Nat} {param : Option Node}, Settles (do
      let body ← G.block
      finish .catchClause start [(.param, .slot param), (.body, .node body)]) fun node =>
        AllSettled param.toList → node.IsSettled := fun {_ _} =>
    hG.block.bind fun _ => .finish fun _ _ hBody hParam => .of_fields (by simp) (by simp_all)
  refine settles_startOffset.skip fun start => settles_bump.skip fun _ => ?_
  refine (settles_eat "(").skip fun _ => .ite ?_ ?_
  · refine hG.bindingTarget.bind fun param => (settles_expect ")").skip fun _ => ?_
    exact hBody.imp fun _ h hParam => h (by simpa using hParam)
  · exact .requiring (hBody.imp fun _ h => h (by simp))

theorem tryStatement (hG : G.SettlesDefaults) : Settles (tryStatement G) IsSettled := by
  refine settles_startOffset.skip fun start => settles_bump.skip fun _ => ?_
  refine hG.block.bind fun block => .get_bind fun _ => ?_
  refine .either hG.catchClause.someOf (.pure (by simp)) fun handler => ?_
  refine (settles_eat "finally").skip fun _ => .either hG.block.someOf (.pure (by simp)) ?_
  refine fun finalizer => .optional_two settles_startOffset (fun _ => .fault) (.finish ?_)
  exact fun _ _ hFinalizer hHandler hBlock => .of_fields (by simp) (by simp_all)

theorem caseHead (hG : G.SettlesDefaults) (seenDefault : Bool) :
    Settles (caseHead G seenDefault) fun head => AllSettled head.1.toList := by
  refine (settles_eat "case").skip fun _ => .ite ?_ (.get_bind fun _ => .ite ?_ .unexpected)
  · exact hG.expression.allowIn.bind fun _ => .pure fun h => by simpa using h
  · exact .optional_two settles_startOffset (fun _ => .fault)
      (settles_bump.skip fun _ => .pure (by simp))

theorem caseBody (hG : G.SettlesDefaults) : Settles (caseBody G) AllSettled :=
  (Settles.list (fun _ => .get_bind fun _ => .ite (.pure id)
    (.ite .unexpected (hG.statement.bind fun _ => .again))) []).imp fun _ h => h allSettled_nil

theorem switchStatement (hG : G.SettlesDefaults) : Settles (switchStatement G) IsSettled := by
  refine settles_startOffset.skip fun start => settles_bump.skip fun _ => ?_
  refine hG.parenthesized.bind fun discriminant => (settles_expect "\x7b").skip fun _ => .bind
    (.iterate (fun seen => AllSettled seen.1) AllSettled (fun seen => ?_) ([], false)) fun cases =>
      settles_bump.skip fun _ => .finish fun _ _ hCases hDiscriminant =>
        .of_fields (by simp) (by simpa [hDiscriminant] using hCases)
  obtain ⟨seen, seenDefault⟩ := seen
  refine .get_bind fun _ => .ite (.pure id) (settles_startOffset.skip fun start => ?_)
  refine (hG.caseHead seenDefault).bind fun (test, seenDefault) => ?_
  refine (settles_expect ":").skip fun _ => hG.caseBody.bind fun consequent => ?_
  have hCase : Settles (finish .switchCase start
      [(.test, .slot test), (.consequent, .nodes consequent)]) fun node =>
        AllSettled consequent → AllSettled test.toList → node.IsSettled :=
    .finish fun _ _ hConsequent hTest => .of_fields (by simp) (by simp_all)
  refine hCase.bind fun clause => .pure fun hClause hConsequent hTest hSeen => ?_
  simpa [Turn.Gives] using ⟨hSeen, hClause hConsequent hTest⟩

theorem withStatement (hG : G.SettlesDefaults) : Settles (withStatement G) IsSettled :=
  settles_startOffset.skip fun _ => settles_bump.skip fun _ => hG.parenthesized.bind fun _ =>
    hG.statement.bind fun _ => .finish fun _ _ hBody hObject =>
      .of_fields (by simp) (by simp [hBody, hObject])

theorem labeledStatement (hG : G.SettlesDefaults) : Settles (labeledStatement G) IsSettled :=
  settles_startOffset.skip fun _ => settles_identifier.bind fun _ =>
    (settles_expect ":").skip fun _ => hG.statement.bind fun _ => .finish fun _ _ hBody hLabel =>
      .of_fields (by simp) (by simp [hBody, hLabel])

theorem settles_shortStatement {kind : NodeKind} {withSemicolon : Bool} :
    Settles (shortStatement kind withSemicolon) IsSettled :=
  settles_startOffset.skip fun _ => settles_bump.skip fun _ => .optional settles_semicolon
    (.finish fun _ _ => .of_childless (by simp [children_eq_filledIn, Node.fields]))

theorem keywordStatement (hG : G.SettlesDefaults) (word : String) :
    Settles (keywordStatement G word) IsSettled := by
  unfold Grammar.keywordStatement
  split
  · exact hG.variableStatement "var"
  · exact .requiring (hG.variableStatement "const")
  · exact settles_startOffset.skip fun _ => hG.function _ _ _
  · exact hG.classOf _
  · exact hG.ifStatement
  · exact hG.forStatement
  · exact hG.whileStatement
  · exact hG.doWhileStatement
  · exact hG.returnStatement
  · exact settles_jumpStatement (by simp)
  · exact settles_jumpStatement (by simp)
  · exact hG.throwStatement
  · exact hG.tryStatement
  · exact hG.switchStatement
  · exact hG.withStatement
  · exact settles_shortStatement
  · exact hG.expressionStatement

theorem wordStatement (hG : G.SettlesDefaults) (word : String) :
    Settles (wordStatement G word) IsSettled := by
  refine .get_bind fun _ => .read_bind fun _ => .ite (hG.variableStatement "let") (.ite ?_ ?_)
  · exact settles_startOffset.skip fun _ => settles_require.skip fun _ => settles_bump.skip fun _ =>
      hG.function _ _ _
  · exact .ite hG.labeledStatement hG.expressionStatement

theorem statementBody (hG : G.SettlesDefaults) : Settles (statementBody G) IsSettled := by
  refine .get_bind fun cursor => ?_
  split
  · exact .unexpected
  split
  · exact hG.keywordStatement _
  · exact hG.wordStatement _
  · exact .ite hG.block (.ite settles_shortStatement hG.expressionStatement)
  · exact hG.expressionStatement

/-- Behind every statement no default waits any longer, so each of them is settled. -/
theorem program (hG : G.SettlesDefaults) {context : Context} {cursor : Cursor}
    (hPassed : cursor.HasPassed) (hNone : cursor.shorthandDefaults = []) :
    Yields G.program context cursor fun program _ => program.IsSettled := by
  refine .bind (.iterate
    (fun seen later => later.HasPassed ∧ later.shorthandDefaults = [] ∧ AllSettled seen)
    (fun body _ => AllSettled body) ⟨hPassed, hNone, allSettled_nil⟩ ?_) fun body _ hBody =>
      .read_bind (.store fun _ hNode => hNode ▸ .of_fields (by simp) (by simpa using hBody))
  rintro seen later ⟨hPassed, hNone, hSeen⟩
  refine .get_bind (.ite (fun _ => .pure hSeen) fun _ => ?_)
  refine (hG.statement context later hPassed).bind fun statement after hKeeps => .get_bind ?_
  split
  · exact .fault
  case h_2 hHead =>
    have hAfter : after.shorthandDefaults = [] := List.head?_eq_none_iff.mp hHead
    have hStatement := hKeeps.settled (hAfter.trans hNone.symm)
    exact .pure ⟨hKeeps.hasPassed, hAfter, by simp [hSeen, hStatement]⟩

end SettlesDefaults

/-- Every level of the grammar settles the defaults of what it reads. -/
theorem settlesDefaults_upTo (n : Nat) : (upTo n).SettlesDefaults := by
  induction n with
  | zero =>
      exact
        { reads := readsNodes_upTo 0
          shapes := shapes_upTo 0
          statement := .unexpected
          assignment := .unexpected
          binary := fun _ => .unexpected
          unary := .unexpected
          leftHandSide := .unexpected
          newExpression := .unexpected
          bindingTarget := .unexpected }
  | succ n ih =>
      exact
        { reads := readsNodes_upTo (n + 1)
          shapes := shapes_upTo (n + 1)
          statement := ih.statementBody.nested
          assignment := ih.assignmentBody.nested
          binary := ih.binaryBody
          unary := ih.unaryBody
          leftHandSide := ih.leftHandSideBody
          newExpression := ih.newExpressionBody
          bindingTarget := ih.bindingTargetBody }

end Grammar

variable {text : String} {options : ParseOptions} {parsed : Parsed}

theorem isSettled_of_parse (h : parse text options = .ok parsed) : parsed.program.IsSettled := by
  rw [parse] at h
  obtain ⟨out, hTokenize, hParse⟩ := exists_of_bind_eq_ok h
  obtain ⟨⟨root, ast⟩, hTree, hResult⟩ := exists_of_bind_eq_ok hParse
  cases hResult
  rw [parseTokens_eq] at hTree
  obtain ⟨⟨program, last⟩, hRun, ⟨⟩⟩ := exists_of_bind_eq_ok hTree
  have hTokens := map_token_ofTokens text.toList none out.tokens
  have hPassed : Cursor.HasPassed ⟨0, Lexeme.ofTokens text.toList none out.tokens, [], #[]⟩ :=
    ⟨by simpa [Cursor.tokens, hTokens] using (inOrder_of_tokenize hTokenize).1, by simp⟩
  exact (Grammar.settlesDefaults_upTo _).program hPassed rfl _ _ hRun

/-- In what a source is read as, an object that has a default for a shorthand property stands below
what an assignment or the head of a loop writes to. -/
theorem parse_settlesDefaults (h : parse text options = .ok parsed) :
    ∀ object ∈ parsed.program.subtree, object.kind = .objectExpression →
      ∀ property ∈ object.children, property.HasDefault →
        ∃ writer ∈ parsed.program.subtree, ∃ target, writer.WritesTo target ∧
          object ∈ target.subtree := fun _ hObject hKind _ hMem hDefault =>
  (isSettled_of_parse h).exists_writesTo hObject hKind hMem hDefault

/-- The object in front of the point stays an object. Nothing writes to it behind the `=`. -/
example : (parse "(\x7ba = 1\x7d).x = 2" default).isOk = true ∧
    (parse "x = (\x7ba = 1\x7d).x" default).isOk = false := by decide +kernel

end EcmaLint
