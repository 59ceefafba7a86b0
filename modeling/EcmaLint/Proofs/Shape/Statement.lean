import EcmaLint.Grammar.Program
import EcmaLint.Proofs.Shape.Inversion
import EcmaLint.Proofs.Shape.Operand

/-! The shape of expressions, statements and whole programs. The levels of the grammar are tied
together by induction: each of them gives trees of the right shape if the one below it does.

What is written to, and where rest elements stand. Both are read off the forms of nodes: an
assignment writes to a target, which is a reference, a pattern, or one of these with a default
where the assignment stands in parentheses, and nothing but holes comes behind a rest element. -/
namespace EcmaLint

section

open Production Node NodeKind Grammar

/-- What is turned into a target is one. -/
theorem gives_toTarget {expression : Node} (h : expression.Shaped) :
    Gives (toTarget expression) (IsOf isTarget) := by
  unfold Grammar.toTarget
  cases hResult : expression.toTarget .whole true with
  | error error => exact .throw
  | ok target => exact .skip fun _ => .pure (turns_of_shaped expression h .whole _ _ hResult)

theorem isReference_of_isSimpleTarget {node : Node} (h : node.isSimpleTarget = true) :
    node.kind.isReference = true := by
  rcases Bool.or_eq_true_iff.mp h with hKind | hKind <;> rw [eq_of_beq hKind] <;> rfl

/-- Only references get past the check. -/
theorem gives_requireSimpleTarget {node : Node} (h : node.Shaped) :
    Gives (requireSimpleTarget node) fun _ => node.IsOf isReference := by
  unfold requireSimpleTarget
  by_cases hSimple : node.isSimpleTarget = true
  · rw [if_pos hSimple]
    exact .pure ⟨h, isReference_of_isSimpleTarget hSimple⟩
  · rw [if_neg hSimple]
    exact .throw

theorem gives_updateNode {start : Nat} {operator : String} {argument : Node} {isPrefix : Bool}
    (h : argument.IsOf isReference) :
    Gives (unaryNode .updateExpression start operator argument isPrefix) (IsOf isExpression) :=
  .finishFitting (by simp [Fits, forms, h]) rfl

/-- An assignment, whose operator says what it may write to. -/
theorem gives_assignment {start : Nat} {operator : String} {left right : Node}
    (hLeft : left.IsOf (if operator = "=" then isTarget else isReference))
    (hRight : right.IsOf isExpression) :
    Gives (finish .assignmentExpression start
      [(.operator, .text operator), (.left, .node left), (.right, .node right)])
      (IsOf isExpression) := by
  refine .finishFitting ?_ rfl
  by_cases h : operator = "="
  · rw [if_pos h] at hLeft
    simp [Fits, forms, h, hLeft, hRight]
  · rw [if_neg h] at hLeft
    simp [Fits, forms, h, hLeft, hRight]

/-- What stands before an assignment operator is what the operator may write to. -/
theorem gives_assignmentTarget {operator : String} {left : Node} (h : left.Shaped) :
    Gives (assignmentTarget operator left)
      (IsOf (if operator = "=" then isTarget else isReference)) := by
  unfold assignmentTarget
  by_cases hPlain : operator = "="
  · rw [if_pos (beq_iff_eq.mpr hPlain), if_pos hPlain]
    exact gives_toTarget h
  · rw [if_neg (by simpa using hPlain), if_neg hPlain]
    refine .optional_two (.optional_two ?_)
    exact (gives_requireSimpleTarget h).bind fun _ hSimple => .pure hSimple

theorem gives_declaration {start : Nat} {declarations : List Node} {kind : String}
    (h : ListOf (· == .variableDeclarator) declarations) :
    Gives (finish .variableDeclaration start
      [(.declarations, .nodes declarations), (.kind, .text kind)])
      (IsOf (· == .variableDeclaration)) :=
  .finishFitting (by simp [Fits, forms, h]) rfl

/-- A statement with no fields. -/
theorem gives_shortStatement {kind : NodeKind} {withSemicolon : Bool} (hForms : kind.forms = [[]])
    (hKind : kind.isStatement = true) :
    Gives (shortStatement kind withSemicolon) (IsOf isStatement) := by
  refine .skip fun start => .skip fun _ => .optional ?_
  exact .finishFitting (by simp [Fits, hForms]) hKind

/-- A jump, with a label or without. -/
theorem gives_jumpStatement {kind : NodeKind}
    (hForms : kind.forms = [[(.label, .optional (· == .identifier))]])
    (hKind : kind.isStatement = true) : Gives (jumpStatement kind) (IsOf isStatement) := by
  refine .skip fun start => .skip fun _ => .skip fun cursor => .skip fun newline => ?_
  refine .either gives_identifier.someOf (.pure .none) fun label hLabel => .skip fun _ => ?_
  exact .finishFitting (by simp [Fits, hForms, hLabel]) hKind

namespace Grammar.Shapes

variable {G : Grammar Production}

theorem postfixUpdate (hG : G.Shapes) {start : Nat} :
    Gives (postfixUpdate G start) (IsOf isExpression) := by
  refine hG.leftHandSide.bind fun operand hOperand => .skip fun cursor => ?_
  refine .skip fun newline => .ite ?_ (.pure hOperand)
  exact (gives_requireSimpleTarget hOperand.shaped).bind fun _ hSimple =>
    .skip fun _ => gives_updateNode hSimple

theorem unaryBody (hG : G.Shapes) : Gives (unaryBody G) (IsOf isExpression) := by
  refine .skip fun start => .skip fun cursor => ?_
  split
  · exact .unexpected
  refine .ite (.skip fun _ => ?_) (.ite (.skip fun _ => ?_) (.skip fun context => .ite ?_ ?_))
  · exact hG.unary.nested.bind fun argument h => .finishFitting (by simp [Fits, forms, h]) rfl
  · exact hG.unary.nested.bind fun argument h =>
      (gives_requireSimpleTarget h.shaped).bind fun _ hSimple => gives_updateNode hSimple
  · exact .skip fun _ => .skip fun _ => hG.unary.nested.bind fun argument h =>
      .finishFitting (by simp [Fits, forms, h]) rfl
  · exact hG.postfixUpdate

theorem binaryTurn (hG : G.Shapes) {start minimum : Nat} {left : Node}
    (h : left.IsOf isExpression) : Gives (binaryTurn G start minimum left)
      (Turn.Gives (IsOf isExpression) (IsOf isExpression)) := by
  refine .skip fun context => .skip fun cursor => ?_
  split
  · exact .pure h
  refine .ite (.pure h) (.optional (.optional_two ?_))
  refine .skip fun _ => (hG.binary _).bind fun right hRight => ?_
  split
  · exact .bind (.finishFitting (by simp [Fits, forms, h, hRight]) rfl) fun _ hNode => .pure hNode
  · exact .bind (.finishFitting (by simp [Fits, forms, h, hRight]) rfl) fun _ hNode => .pure hNode

theorem binaryBody (hG : G.Shapes) (minimum : Nat) :
    Gives (binaryBody G minimum) (IsOf isExpression) :=
  .skip fun _ => hG.unary.bind fun _ hLeft =>
    .iterate (IsOf isExpression) _ hLeft fun _ h => hG.binaryTurn h

theorem conditional (hG : G.Shapes) : Gives (conditional G) (IsOf isExpression) := by
  refine .skip fun start => (hG.binary 0).bind fun test hTest => .skip fun found => ?_
  refine .ite (hG.assignment.allowIn.bind fun consequent hConsequent => .skip fun _ => ?_)
    (.pure hTest)
  exact hG.assignment.bind fun alternate hAlternate =>
    .finishFitting (by simp [Fits, forms, hTest, hConsequent, hAlternate]) rfl

/-- The body of an arrow function. -/
theorem arrowBody (hG : G.Shapes) (isAsync : Bool) : Gives (arrowBody G isAsync) fun result =>
    result.1.IsOf fun kind => kind == .blockStatement || kind.isExpression := by
  refine .skip fun cursor => .ite ?_ ?_
  · exact hG.block.inFunction.bind fun body hBody => .pure (hBody.weaken rfl)
  · exact hG.assignment.withReader.bind fun body hBody =>
      .pure (hBody.imp fun kind hKind => by simp [hKind])

theorem arrowFunction (hG : G.Shapes) (isAsync : Bool) :
    Gives (arrowFunction G isAsync) (IsOf isExpression) := by
  have hSingle : Gives ((fun param => [param]) <$> identifier) (RestList isElement) :=
    .map (gives_identifier.imp fun _ h => (ListOf.singleton h).rest rfl fun kind hKind => by
      rw [eq_of_beq hKind]
      rfl)
  refine .skip fun start => .skip fun _ => .optional_two (.skip fun cursor => ?_)
  refine .either hG.params.inFunction hSingle fun params hParams => ?_
  refine .skip fun _ => (hG.arrowBody isAsync).bind fun (body, isExpression) hBody => ?_
  exact .finishFitting (fits_function rfl .none hParams hBody) rfl

theorem yieldExpression (hG : G.Shapes) : Gives (yieldExpression G) (IsOf isExpression) := by
  refine .skip fun start => .skip fun _ => .skip fun cursor => .skip fun newline => .ite ?_ ?_
  · exact .finishFitting (by simp [Fits, forms, SlotOf.none]) rfl
  · refine .skip fun delegate => hG.assignment.bind fun argument h => .finishFitting ?_ rfl
    simp [Fits, forms, Field.node, SlotOf.some h]

theorem assignmentBody (hG : G.Shapes) : Gives (assignmentBody G) (IsOf isExpression) := by
  refine .skip fun cursor => .skip fun context => .ite hG.yieldExpression ?_
  split
  · exact hG.arrowFunction _
  refine .skip fun start => hG.conditional.bind fun left hLeft => .skip fun cursor => ?_
  split
  · exact .pure hLeft
  refine (gives_assignmentTarget hLeft.shaped).bind fun target hTarget => .skip fun _ => ?_
  exact hG.assignment.bind fun right hRight => gives_assignment hTarget hRight

theorem declarator (hG : G.Shapes) (isConst inFor : Bool) :
    Gives (declarator G isConst inFor) (IsOf (· == .variableDeclarator)) := by
  refine .skip fun start => hG.bindingTarget.bind fun target hTarget => .skip fun found => ?_
  refine .either hG.assignment.someOf (.pure .none) fun init hInit => .optional ?_
  exact .finishFitting (by simp [Fits, forms, hTarget, hInit]) rfl

theorem declarators (hG : G.Shapes) (inFor : Bool) :
    Gives (declarators G inFor) (ListOf (· == .variableDeclarator)) := by
  refine .skip fun cursor => .skip fun _ => .list _ .nil fun seen hSeen => ?_
  refine (hG.declarator _ _).bind fun declarator h => .skip fun found => ?_
  exact .ite (.pure (hSeen.concat h)) (.pure (hSeen.concat h))

theorem variableStatement (hG : G.Shapes) (kind : String) :
    Gives (variableStatement G kind) (IsOf isStatement) :=
  .skip fun _ => (hG.declarators false).bind fun _ h => .skip fun _ =>
    (gives_declaration h).imp fun _ h => h.weaken rfl

theorem expressionStatement (hG : G.Shapes) :
    Gives (expressionStatement G) (IsOf isStatement) :=
  .skip fun _ => hG.expression.bind fun _ h => .skip fun _ =>
    .finishFitting (by simp [Fits, forms, h]) rfl

theorem ifStatement (hG : G.Shapes) : Gives (ifStatement G) (IsOf isStatement) := by
  refine .skip fun start => .skip fun _ => hG.parenthesized.bind fun test hTest => ?_
  refine hG.statement.bind fun consequent hConsequent => .skip fun found => ?_
  refine .either hG.statement.someOf (.pure .none) fun alternate hAlternate => ?_
  exact .finishFitting (by simp [Fits, forms, hTest, hConsequent, hAlternate]) rfl

theorem forEach (hG : G.Shapes) {start : Nat} {left : Node} {isAwait : Bool}
    (hLeft : left.IsOf fun kind => kind == .variableDeclaration || kind.isTarget) :
    Gives (forEach G start left isAwait) (IsOf isStatement) := by
  have hRest : ∀ isOf : Bool, Gives (do
      bump
      let right ← if isOf then allowIn G.assignment else allowIn G.expression
      expect ")"
      let body ← G.statement
      let fields := [(FieldName.left, Field.node left), (.right, .node right), (.body, .node body)]
      if isOf then finish .forOfStatement start (fields ++ [(.await, .flag isAwait)])
      else finish .forInStatement start fields) (IsOf isStatement) := by
    intro isOf
    refine .skip fun _ => .either hG.assignment.allowIn hG.expression.allowIn fun right hRight => ?_
    refine .skip fun _ => hG.statement.bind fun body hBody => .ite ?_ ?_
    · exact .finishFitting (by simp [Fits, forms, hLeft, hRight, hBody]) rfl
    · exact .finishFitting (by simp [Fits, forms, hLeft, hRight, hBody]) rfl
  refine .skip fun cursor => .ite (.skip fun _ => .skip fun _ => hRest _) (.optional (hRest _))

theorem forClauses (hG : G.Shapes) {start : Nat} {init : Option Node} {isAwait : Bool}
    (hInit : SlotOf (fun kind => kind == .variableDeclaration || kind.isExpression) init) :
    Gives (forClauses G start init isAwait) (IsOf isStatement) := by
  unfold Grammar.forClauses
  refine .optional ?_
  refine .skip fun _ => .skip fun cursor => ?_
  refine .either (.pure .none) hG.expression.allowIn.someOf fun test hTest => ?_
  refine .skip fun _ => .skip fun cursor => ?_
  refine .either (.pure .none) hG.expression.allowIn.someOf fun update hUpdate => ?_
  refine .skip fun _ => hG.statement.bind fun body hBody => .finishFitting ?_ rfl
  simp [Fits, forms, hInit, hTest, hUpdate, hBody]

theorem forDeclaration (hG : G.Shapes) {start : Nat} {isAwait : Bool} :
    Gives (forDeclaration G start isAwait) (IsOf isStatement) := by
  refine .skip fun declarationStart => .skip fun cursor => .optional ?_
  refine (hG.declarators true).withoutIn.bind fun declarations h => ?_
  refine (gives_declaration h).bind fun declaration hDeclaration => .skip fun cursor => ?_
  exact .ite (hG.forEach (hDeclaration.weaken rfl))
    (hG.forClauses (.some (hDeclaration.weaken rfl)))

theorem forStatement (hG : G.Shapes) : Gives (forStatement G) (IsOf isStatement) := by
  refine .skip fun start => .skip fun _ => .skip fun cursor => .skip fun context => ?_
  refine .optional_three (.skip fun _ => .skip fun cursor => .ite (hG.forClauses .none) ?_)
  refine .skip fun context => .ite hG.forDeclaration ?_
  refine hG.expression.withoutIn.bind fun expression hExpression => .skip fun cursor => .ite ?_ ?_
  · exact (gives_toTarget hExpression.shaped).bind fun target hTarget =>
      hG.forEach (hTarget.imp fun kind hKind => by simp [hKind])
  · exact hG.forClauses (.some (hExpression.imp fun kind hKind => by simp [hKind]))

theorem whileStatement (hG : G.Shapes) : Gives (whileStatement G) (IsOf isStatement) :=
  .skip fun _ => .skip fun _ => hG.parenthesized.bind fun _ hTest => hG.statement.bind
    fun _ hBody => .finishFitting (by simp [Fits, forms, hTest, hBody]) rfl

theorem doWhileStatement (hG : G.Shapes) : Gives (doWhileStatement G) (IsOf isStatement) :=
  .skip fun _ => .skip fun _ => hG.statement.bind fun _ hBody => .skip fun _ =>
    hG.parenthesized.bind fun _ hTest => .skip fun _ =>
      .finishFitting (by simp [Fits, forms, hTest, hBody]) rfl

theorem returnStatement (hG : G.Shapes) : Gives (returnStatement G) (IsOf isStatement) := by
  refine .skip fun start => .skip fun _ => .skip fun atEnd => ?_
  refine .either (.pure .none) hG.expression.someOf fun argument h => .skip fun _ => ?_
  exact .finishFitting (by simp [Fits, forms, h]) rfl

theorem throwStatement (hG : G.Shapes) : Gives (throwStatement G) (IsOf isStatement) := by
  refine .skip fun start => .skip fun _ => .skip fun newline => .optional_two ?_
  exact hG.expression.bind fun argument h => .skip fun _ =>
    .finishFitting (by simp [Fits, forms, h]) rfl

theorem catchClause (hG : G.Shapes) : Gives (catchClause G) (IsOf (· == .catchClause)) := by
  refine .skip fun start => .skip fun _ => .skip fun found => ?_
  have hBody : ∀ {param : Option Node}, SlotOf isBinding param → Gives (do
      let body ← Grammar.block G
      finish .catchClause start [(.param, .slot param), (.body, .node body)])
      (IsOf (· == .catchClause)) := fun hParam => hG.block.bind fun _ hBody =>
    .finishFitting (by simp [Fits, forms, hParam, hBody]) rfl
  refine .ite (hG.bindingTarget.bind fun param hParam => .skip fun _ => ?_) ?_
  · exact hBody (.some hParam)
  · exact .skip fun _ => .skip fun _ => hBody .none

theorem tryStatement (hG : G.Shapes) : Gives (tryStatement G) (IsOf isStatement) := by
  refine .skip fun start => .skip fun _ => hG.block.bind fun block hBlock => .skip fun cursor => ?_
  refine .either hG.catchClause.someOf (.pure .none) fun handler hHandler => .skip fun found => ?_
  refine .either hG.block.someOf (.pure .none) fun finalizer hFinalizer => .optional_two ?_
  exact .finishFitting (by simp [Fits, forms, hBlock, hHandler, hFinalizer]) rfl

/-- The head of a case has a test unless it is the default. -/
theorem caseHead (hG : G.Shapes) (seenDefault : Bool) :
    Gives (caseHead G seenDefault) fun result => SlotOf isExpression result.1 := by
  refine .skip fun found => .ite ?_ (.skip fun cursor => .ite ?_ .unexpected)
  · exact hG.expression.allowIn.bind fun test hTest => .pure (.some hTest)
  · exact .optional_two (.skip fun _ => .pure .none)

theorem caseBody (hG : G.Shapes) : Gives (caseBody G) (ListOf isStatement) := by
  refine .list _ .nil fun seen hSeen => .skip fun cursor => .ite (.pure hSeen) ?_
  exact .ite .unexpected (hG.statement.bind fun statement h => .pure (hSeen.concat h))

theorem switchStatement (hG : G.Shapes) : Gives (switchStatement G) (IsOf isStatement) := by
  refine .skip fun start => .skip fun _ => ?_
  refine hG.parenthesized.bind fun discriminant hDiscriminant => ?_
  refine .skip fun _ => .bind (.iterate (fun seen => ListOf (· == .switchCase) seen.1)
    (ListOf (· == .switchCase)) .nil fun before hSeen => ?_) fun cases hCases =>
      .skip fun _ => .finishFitting (by simp [Fits, forms, hDiscriminant, hCases]) rfl
  obtain ⟨seen, seenDefault⟩ := before
  refine .skip fun cursor => .ite (.pure hSeen) (.skip fun start => ?_)
  refine (hG.caseHead seenDefault).bind fun head hTest => ?_
  obtain ⟨test, seenDefault⟩ := head
  refine .skip fun _ => ?_
  refine hG.caseBody.bind fun consequent hConsequent => ?_
  exact .bind (.finishFitting (by simp [Fits, forms, hTest, hConsequent]) rfl) fun clause hClause =>
    .pure (hSeen.concat hClause)

theorem withStatement (hG : G.Shapes) : Gives (withStatement G) (IsOf isStatement) :=
  .skip fun _ => .skip fun _ => hG.parenthesized.bind fun _ hObject => hG.statement.bind
    fun _ hBody => .finishFitting (by simp [Fits, forms, hObject, hBody]) rfl

theorem labeledStatement (hG : G.Shapes) : Gives (labeledStatement G) (IsOf isStatement) :=
  .skip fun _ => gives_identifier.bind fun _ hLabel => .skip fun _ => hG.statement.bind
    fun _ hBody => .finishFitting (by simp [Fits, forms, hLabel, hBody]) rfl

theorem keywordStatement (hG : G.Shapes) (word : String) :
    Gives (keywordStatement G word) (IsOf isStatement) := by
  unfold Grammar.keywordStatement
  split
  · exact hG.variableStatement "var"
  · exact .skip fun _ => .skip fun _ => hG.variableStatement "const"
  · exact .skip fun _ => (hG.function _ _ _).imp fun _ h => h.weaken rfl
  · exact (hG.classOf _).imp fun _ h => h.weaken rfl
  · exact hG.ifStatement
  · exact hG.forStatement
  · exact hG.whileStatement
  · exact hG.doWhileStatement
  · exact hG.returnStatement
  · exact gives_jumpStatement rfl rfl
  · exact gives_jumpStatement rfl rfl
  · exact hG.throwStatement
  · exact hG.tryStatement
  · exact hG.switchStatement
  · exact hG.withStatement
  · exact gives_shortStatement rfl rfl
  · exact hG.expressionStatement

theorem wordStatement (hG : G.Shapes) (word : String) :
    Gives (wordStatement G word) (IsOf isStatement) := by
  refine .skip fun cursor => .skip fun context => .ite (hG.variableStatement "let") (.ite ?_ ?_)
  · exact .skip fun _ => .skip fun _ => .skip fun _ =>
      (hG.function _ _ _).imp fun _ h => h.weaken rfl
  · exact .ite hG.labeledStatement hG.expressionStatement

theorem statementBody (hG : G.Shapes) : Gives (statementBody G) (IsOf isStatement) := by
  refine .skip fun cursor => ?_
  split
  · exact .unexpected
  split
  · exact hG.keywordStatement _
  · exact hG.wordStatement _
  · refine .ite (hG.block.imp fun _ h => h.weaken rfl) (.ite ?_ hG.expressionStatement)
    exact gives_shortStatement rfl rfl
  · exact hG.expressionStatement

theorem program (hG : G.Shapes) : Gives G.program (IsOf (· == .program)) := by
  refine .bind (.list isStatement .nil fun seen hSeen => ?_) fun body hBody => .skip fun context =>
    .storeFitting _ (by simp [Fits, forms, hBody]) rfl
  refine .skip fun cursor => .ite (.pure hSeen) (hG.statement.bind fun statement hStatement => ?_)
  refine .skip fun cursor => ?_
  split
  · exact .fault
  · exact .pure (hSeen.concat hStatement)

end Grammar.Shapes

/-- Every level of the grammar gives trees with the shape of a program. -/
theorem Grammar.shapes_upTo (n : Nat) : (upTo n).Shapes := by
  induction n with
  | zero =>
      exact
        { statement := .unexpected
          assignment := .unexpected
          binary := fun _ => .unexpected
          unary := .unexpected
          leftHandSide := .unexpected
          newExpression := .unexpected
          bindingTarget := .unexpected }
  | succ n ih =>
      exact
        { statement := ih.statementBody.nested
          assignment := ih.assignmentBody.nested
          binary := ih.binaryBody
          unary := ih.unaryBody
          leftHandSide := ih.leftHandSideBody
          newExpression := ih.newExpressionBody
          bindingTarget := ih.bindingTargetBody }

/-- Every program that was read has its shape. -/
theorem shaped_of_parse {source : String} {options : ParseOptions} {parsed : Parsed}
    (h : parse source options = .ok parsed) : parsed.program.IsOf (· == .program) := by
  rw [parse] at h
  obtain ⟨out, -, hParse⟩ := exists_of_bind_eq_ok h
  obtain ⟨⟨root, ast⟩, hTree, hResult⟩ := exists_of_bind_eq_ok hParse
  cases hResult
  rw [parseTokens_eq] at hTree
  obtain ⟨⟨program, last⟩, hRun, ⟨⟩⟩ := exists_of_bind_eq_ok hTree
  exact (Grammar.shapes_upTo _).program _ _ _ _ hRun

end

namespace Node

variable {node : Node}

/-- What an assignment, an update or the head of a loop writes to. -/
structure WritesToTargets (node : Node) : Prop where
  /-- Only `=` takes a target that is no reference. -/
  assignment : node.kind = .assignmentExpression → ∃ operator left,
    node.text? .operator = some operator ∧ node.child? .left = some left ∧
      if operator = "=" then left.kind.isTarget = true else left.kind.isReference = true
  update : node.kind = .updateExpression → ∃ argument,
    node.child? .argument = some argument ∧ argument.kind.isReference = true
  loop : node.kind = .forInStatement ∨ node.kind = .forOfStatement → ∃ left,
    node.child? .left = some left ∧ (left.kind = .variableDeclaration ∨ left.kind.isTarget = true)

/-- A node in a field that takes one. -/
theorem Conforms.exists_child? (h : node.Conforms) (name : FieldName) {form : NodeForm}
    {accepts : NodeKind → Bool} (hForms : node.kind.forms = [form])
    (hPart : form.lookup name = some (.one accepts)) :
    ∃ child, node.child? name = some child ∧ accepts child.kind = true := by
  obtain ⟨value, hField, hTakes⟩ := h.exists_field? name hForms hPart
  obtain ⟨child, rfl, hKind⟩ := Part.takes_one_iff.mp hTakes
  exact ⟨child, by rw [child?, hField]; rfl, hKind⟩

theorem Conforms.exists_assigned (h : node.Conforms) (hKind : node.kind = .assignmentExpression) :
    ∃ operator left, node.text? .operator = some operator ∧ node.child? .left = some left ∧
      if operator = "=" then left.kind.isTarget = true else left.kind.isReference = true := by
  obtain ⟨form, hForm, hFields⟩ := h
  have hHeld : ∀ accepts writes,
      form.lookup .operator = some (.wordIn accepts) → form.lookup .left = some (.one writes) →
      ∃ operator left, node.text? .operator = some operator ∧ node.child? .left = some left ∧
        accepts operator = true ∧ writes left.kind = true := by
    intro accepts writes hOperator hLeft
    obtain ⟨_, hFound, hTakes⟩ := exists_lookup_of_forall₂ hFields hOperator
    obtain ⟨operator, rfl, hAccepts⟩ := Part.takes_wordIn_iff.mp hTakes
    obtain ⟨_, hSlot, hWritten⟩ := exists_lookup_of_forall₂ hFields hLeft
    obtain ⟨left, rfl, hWrites⟩ := Part.takes_one_iff.mp hWritten
    exact ⟨operator, left, by rw [text?, field?, hFound], by rw [child?, field?, hSlot]; rfl,
      hAccepts, hWrites⟩
  rw [hKind] at hForm
  simp only [NodeKind.forms, List.mem_cons, List.not_mem_nil, or_false] at hForm
  rcases hForm with rfl | rfl
  all_goals
    obtain ⟨operator, left, hOperator, hLeft, hAccepts, hWrites⟩ := hHeld _ _ rfl rfl
    exact ⟨operator, left, hOperator, hLeft, by simp_all⟩

theorem Conforms.writesToTargets (h : node.Conforms) : node.WritesToTargets where
  assignment := h.exists_assigned
  update hKind := h.exists_child? .argument (congrArg _ hKind) rfl
  loop hKind := by
    have hLeft : ∃ left, node.child? .left = some left ∧
        (left.kind == .variableDeclaration || left.kind.isTarget) = true := by
      rcases hKind with hKind | hKind
      · exact h.exists_child? .left (congrArg _ hKind) rfl
      · exact h.exists_child? .left (congrArg _ hKind) rfl
    simpa using hLeft

/-- The fields that list what a pattern or a function binds. -/
def bindingList? (node : Node) : Option FieldName :=
  match node.kind with
  | .arrayPattern => some .elements
  | .objectPattern => some .properties
  | .functionDeclaration | .functionExpression | .arrowFunctionExpression => some .params
  | _ => none

/-- What a pattern or a function binds is a list with a rest element at most at its end. -/
theorem Conforms.restLast (h : node.Conforms) {name : FieldName}
    (hName : node.bindingList? = some name) :
    ∃ list, node.field? name = some list ∧ RestLast list.slotList := by
  have hHeld : ∀ {form : NodeForm} {list : Part}, node.kind.forms = [form] →
      form.lookup name = some (.restLast list) →
      ∃ list, node.field? name = some list ∧ RestLast list.slotList := by
    intro form list hForms hPart
    obtain ⟨value, hField, hTakes⟩ := h.exists_field? name hForms hPart
    exact ⟨value, hField, hTakes.2⟩
  unfold bindingList? at hName
  split at hName <;> cases hName <;> exact hHeld (congrArg _ ‹_›) rfl

end Node

variable {text : String} {options : ParseOptions} {parsed : Parsed}

/-- In what a source is read as, only what can be written to is written to. -/
theorem parse_writesToTargets (h : parse text options = .ok parsed) :
    ∀ node ∈ parsed.program.subtree, node.WritesToTargets :=
  fun node hNode => ((shaped_of_parse h).shaped node hNode).writesToTargets

/-- A default in parentheses is written to. -/
example : (parse "(a = 1) = 2" default).isOk = true := by decide +kernel

/-- In what a source is read as, nothing but holes comes behind a rest element. -/
theorem parse_restLast (h : parse text options = .ok parsed) :
    ∀ node ∈ parsed.program.subtree, ∀ name, node.bindingList? = some name →
      ∃ list, node.field? name = some list ∧ Node.RestLast list.slotList :=
  fun node hNode _ hName => ((shaped_of_parse h).shaped node hNode).restLast hName

/-- A hole comes behind a rest element that was a spread, and not behind one that is declared. -/
example : (parse "[...a, ,] = b" default).isOk = true ∧
    (parse "let [...a, ,] = b" default).isOk = false := by decide +kernel

end EcmaLint
