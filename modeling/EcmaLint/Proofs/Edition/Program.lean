import EcmaLint.Grammar.Expression
import EcmaLint.Grammar.Statement
import EcmaLint.Proofs.Edition.Operand
import EcmaLint.Proofs.Grammar.Program

/-! Operations, arrow functions and assignments under two editions. An arrow function is told from
an operand by its tokens alone, and only then asked for in its edition.

Statements under two editions. Whether `let` opens a declaration is asked in two places, and in
both the word is what the edition is read for, so without that word no statement is read in two
ways.

Whole programs under two editions. Every level of the grammar goes the same way in every year,
so a program that is accepted in one edition is read as the same tree in all later ones. -/
namespace EcmaLint

namespace Grammar

open Production

theorem gated_unaryNode (kind : NodeKind) (start : Nat) (operator : String) (argument : Node)
    (isPrefix : Bool) : Gated (unaryNode kind start operator argument isPrefix) :=
  .finish _ _ _

theorem gated_requireSimpleTarget (node : Node) : Gated (requireSimpleTarget node) :=
  .ite (.pure _) (.throw _)

theorem gated_checkPower (start : Nat) (left : Node) : Gated (checkPower start left) := by
  refine .bind .startOffset fun _ => .bind (.require _ _) fun _ => ?_
  exact .ite (.fault _ _) (.pure _)

theorem gated_assignmentTarget (operator : String) (left : Node) :
    Gated (assignmentTarget operator left) := by
  refine .ite (.toTarget left) ?_
  refine .optional_two .startOffset (fun _ => .require _ _) ?_
  refine .optional_two .startOffset (fun _ => .require _ _) ?_
  exact .bind (gated_requireSimpleTarget left) fun _ => .pure _

namespace IsGated

variable {G : Grammar Production}

theorem postfixUpdate (hG : G.IsGated) (start : Nat) : Gated (postfixUpdate G start) := by
  refine .bind hG.leftHandSide fun operand => .get_bind fun cursor _ => ?_
  refine .bind .newlineBefore fun _ => .ite ?_ (.pure _)
  refine .bind (gated_requireSimpleTarget operand) fun _ => .bind .bump fun _ => ?_
  exact gated_unaryNode _ _ _ _ _

theorem unaryBody (hG : G.IsGated) : Gated (unaryBody G) := by
  refine .bind .startOffset fun start => .get_bind fun cursor _ => ?_
  cases cursor.current? with
  | none => exact .unexpected
  | some token =>
      refine .ite ?_ (.ite ?_ (.read_bind (fun context => .ite ?_ ?_) fun _ _ => rfl))
      · exact .bind .bump fun _ => .bind hG.unary.nested fun argument => gated_unaryNode _ _ _ _ _
      · refine .bind .bump fun _ => .bind hG.unary.nested fun argument => ?_
        exact .bind (gated_requireSimpleTarget argument) fun _ => gated_unaryNode _ _ _ _ _
      · refine .bind (.require _ _) fun _ => .bind .bump fun _ => ?_
        exact .bind hG.unary.nested fun argument => .finish _ _ _
      · exact hG.postfixUpdate start

theorem binaryTurn (hG : G.IsGated) (start minimum : Nat) (left : Node) :
    Gated (binaryTurn G start minimum left) := by
  refine .read_bind (fun context => .get_bind fun cursor _ => ?_) fun _ _ => rfl
  split
  · exact .pure _
  · refine .ite (.pure _) (.optional (gated_checkPower start left) ?_)
    refine .optional_two .startOffset (fun _ => .require _ _) (.bind .bump fun _ => ?_)
    exact .bind (hG.binary _) fun right => .bind (.finish _ _ _) fun _ => .pure _

theorem binaryBody (hG : G.IsGated) (minimum : Nat) : Gated (binaryBody G minimum) :=
  .bind .startOffset fun start => .bind hG.unary fun left =>
    .iterate (hG.binaryTurn start minimum) left

theorem conditional (hG : G.IsGated) : Gated (conditional G) := by
  refine .bind .startOffset fun start => .bind (hG.binary 0) fun test => ?_
  refine .bind (.eat "?") fun _ => .ite ?_ (.pure test)
  refine .bind hG.assignment.allowIn fun consequent => .bind (.expect ":") fun _ => ?_
  exact .bind hG.assignment fun alternate => .finish _ _ _

theorem arrowBody (hG : G.IsGated) (isAsync : Bool) : Gated (arrowBody G isAsync) := by
  refine .get_bind fun cursor _ => .ite ?_ ?_
  · exact .bind hG.block.inFunction fun _ => .pure _
  · refine .bind (hG.assignment.withReader ?_ ?_) fun _ => .pure _
    · exact fun _ => rfl
    · exact fun _ _ => rfl

theorem arrowFunction (hG : G.IsGated) (isAsync : Bool) : Gated (arrowFunction G isAsync) := by
  refine .bind .startOffset fun start => .bind (.require _ _) fun _ => ?_
  refine .optional_two (.require _ _) (fun _ => .bump) (.get_bind fun cursor _ => ?_)
  refine .either hG.params.inFunction Gated.identifier.map fun params => ?_
  refine .bind (.expect "=>") fun _ => .bind (hG.arrowBody isAsync) ?_
  rintro ⟨body, isExpression⟩
  exact .finish _ _ _

theorem yieldExpression (hG : G.IsGated) : Gated (yieldExpression G) := by
  refine .bind .startOffset fun start => .bind .bump fun _ => .get_bind fun cursor _ => ?_
  refine .bind .newlineBefore fun _ => .ite (.finish _ _ _) ?_
  exact .bind (.eat "*") fun _ => .bind hG.assignment fun argument => .finish _ _ _

theorem assignmentBody (hG : G.IsGated) : Gated (assignmentBody G) := by
  refine .get_bind fun cursor _ => .read_bind (fun context => ?_) fun _ _ => rfl
  refine .ite hG.yieldExpression ?_
  split
  · exact hG.arrowFunction _
  refine .bind .startOffset fun start => .bind hG.conditional fun left => ?_
  refine .get_bind fun cursor _ => ?_
  split
  · exact .pure left
  refine .bind (gated_assignmentTarget _ left) fun target => .bind .bump fun _ => ?_
  exact .bind hG.assignment fun right => .finish _ _ _

end IsGated

end Grammar

namespace Grammar

open Production

theorem gated_checkInitializer (isConst : Bool) (target : Node) :
    Gated (checkInitializer isConst target) := by
  dsimp only [checkInitializer]
  refine .optional_two .startOffset (fun _ => .fault _ _) ?_
  exact .ite (.bind .startOffset fun _ => .fault _ _) (.pure _)

theorem gated_shortStatement (kind : NodeKind) (withSemicolon : Bool) :
    Gated (shortStatement kind withSemicolon) := by
  refine .bind .startOffset fun start => .bind .bump fun _ => ?_
  exact .optional .semicolon (.finish _ _ _)

theorem gated_jumpStatement (kind : NodeKind) : Gated (jumpStatement kind) := by
  refine .bind .startOffset fun start => .bind .bump fun _ => .get_bind fun cursor _ => ?_
  refine .bind .newlineBefore fun _ => .either Gated.identifier.map (.pure _) fun label => ?_
  exact .bind .semicolon fun _ => .finish _ _ _

namespace IsGated

variable {G : Grammar Production}

theorem declarator (hG : G.IsGated) (isConst inFor : Bool) :
    Gated (declarator G isConst inFor) := by
  refine .bind .startOffset fun start => .bind hG.bindingTarget fun target => ?_
  refine .bind (.eat "=") fun _ => .either hG.assignment.map (.pure _) fun init => ?_
  exact .optional (gated_checkInitializer isConst target) (.finish _ _ _)

theorem declarators (hG : G.IsGated) (inFor : Bool) : Gated (declarators G inFor) := by
  refine .get_bind fun cursor _ => .bind .bump fun _ => .iterate (fun seen => ?_) _
  refine .bind (hG.declarator _ inFor) fun declaration => ?_
  exact .bind (.eat ",") fun _ => .ite (.pure _) (.pure _)

theorem variableStatement (hG : G.IsGated) (kind : String) : Gated (variableStatement G kind) := by
  refine .bind .startOffset fun start => .bind (hG.declarators false) fun declarations => ?_
  exact .bind .semicolon fun _ => .finish _ _ _

theorem expressionStatement (hG : G.IsGated) : Gated (expressionStatement G) := by
  refine .bind .startOffset fun start => .bind hG.expression fun expression => ?_
  exact .bind .semicolon fun _ => .finish _ _ _

theorem ifStatement (hG : G.IsGated) : Gated (ifStatement G) := by
  refine .bind .startOffset fun start => .bind .bump fun _ => ?_
  refine .bind hG.parenthesized fun test => .bind hG.statement fun consequent => ?_
  refine .bind (.eat "else") fun _ => .either hG.statement.map (.pure _) fun alternate => ?_
  exact .finish _ _ _

theorem forEach (hG : G.IsGated) (start : Nat) (left : Node) (isAwait : Bool) :
    Gated (forEach G start left isAwait) := by
  refine .get_bind fun cursor _ => ?_
  refine .optional_two_or .startOffset (fun _ => .require _ _) .unexpected (.bind .bump fun _ => ?_)
  refine .either hG.assignment.allowIn hG.expression.allowIn fun right => ?_
  refine .bind (.expect ")") fun _ => .bind hG.statement fun body => ?_
  exact .ite (.finish _ _ _) (.finish _ _ _)

theorem forClauses (hG : G.IsGated) (start : Nat) (init : Option Node) (isAwait : Bool) :
    Gated (forClauses G start init isAwait) := by
  dsimp only [Grammar.forClauses]
  refine .optional .unexpected (.bind (.expect ";") fun _ => .get_bind fun cursor _ => ?_)
  refine .either (.pure _) hG.expression.allowIn.map fun test => ?_
  refine .bind (.expect ";") fun _ => .get_bind fun cursor _ => ?_
  refine .either (.pure _) hG.expression.allowIn.map fun update => ?_
  exact .bind (.expect ")") fun _ => .bind hG.statement fun body => .finish _ _ _

theorem forDeclaration (hG : G.IsGated) (start : Nat) (isAwait : Bool) :
    Gated (forDeclaration G start isAwait) := by
  refine .bind .startOffset fun declarationStart => .get_bind fun cursor _ => ?_
  refine .optional (.require _ _) (.bind (hG.declarators true).withoutIn fun declarations => ?_)
  refine .bind (.finish _ _ _) fun declaration => .get_bind fun cursor _ => ?_
  exact .ite (hG.forEach start declaration isAwait) (hG.forClauses start (some declaration) isAwait)

theorem forStatement (hG : G.IsGated) : Gated (forStatement G) := by
  refine .bind .startOffset fun start => .bind .bump fun _ => .get_bind fun cursor _ => ?_
  refine .read_bind (fun context => ?_) fun _ _ => rfl
  refine .optional_three .startOffset (fun _ => .require _ _) (fun _ => .bump) ?_
  refine .bind (.expect "(") fun _ => .get_bind fun cursor hFree => ?_
  -- without `let` the start of a declaration is told without the year
  simp only [atForDeclaration, hFree.atText, Bool.false_and]
  refine .ite (hG.forClauses start none _) (.read_bind (fun context => ?_) fun _ _ => rfl)
  refine .ite (hG.forDeclaration start _) (.bind hG.expression.withoutIn fun expression => ?_)
  refine .get_bind fun cursor _ => .ite ?_ (hG.forClauses start (some expression) _)
  exact .bind (.toTarget expression) fun target => hG.forEach start target _

theorem whileStatement (hG : G.IsGated) : Gated (whileStatement G) := by
  refine .bind .startOffset fun start => .bind .bump fun _ => ?_
  exact .bind hG.parenthesized fun test => .bind hG.statement fun body => .finish _ _ _

theorem doWhileStatement (hG : G.IsGated) : Gated (doWhileStatement G) := by
  refine .bind .startOffset fun start => .bind .bump fun _ => .bind hG.statement fun body => ?_
  refine .bind (.expect "while") fun _ => .bind hG.parenthesized fun test => ?_
  exact .bind (.eat ";") fun _ => .finish _ _ _

theorem returnStatement (hG : G.IsGated) : Gated (returnStatement G) := by
  refine .bind .startOffset fun start => .bind .bump fun _ => .bind .atStatementEnd fun _ => ?_
  refine .either (.pure _) hG.expression.map fun argument => ?_
  exact .bind .semicolon fun _ => .finish _ _ _

theorem throwStatement (hG : G.IsGated) : Gated (throwStatement G) := by
  refine .bind .startOffset fun start => .bind .bump fun _ => .bind .newlineBefore fun _ => ?_
  refine .optional_two .get (fun _ => .fault _ _) (.bind hG.expression fun argument => ?_)
  exact .bind .semicolon fun _ => .finish _ _ _

theorem catchClause (hG : G.IsGated) : Gated (catchClause G) := by
  refine .bind .startOffset fun start => .bind .bump fun _ => .bind (.eat "(") fun _ => ?_
  refine .either_threes ?_ ?_ fun param => .bind hG.block fun body => .finish _ _ _
  · exact .bind hG.bindingTarget fun param => .bind (.expect ")") fun _ => .pure _
  · exact .bind .startOffset fun _ => .bind (.require _ _) fun _ => .pure _

theorem tryStatement (hG : G.IsGated) : Gated (tryStatement G) := by
  refine .bind .startOffset fun start => .bind .bump fun _ => .bind hG.block fun block => ?_
  refine .get_bind fun cursor _ => .either hG.catchClause.map (.pure _) fun handler => ?_
  refine .bind (.eat "finally") fun _ => .either hG.block.map (.pure _) fun finalizer => ?_
  exact .optional_two .startOffset (fun _ => .fault _ _) (.finish _ _ _)

theorem caseHead (hG : G.IsGated) (seenDefault : Bool) : Gated (caseHead G seenDefault) := by
  refine .bind (.eat "case") fun _ => .ite ?_ (.get_bind fun cursor _ => .ite ?_ .unexpected)
  · exact .bind hG.expression.allowIn fun _ => .pure _
  · exact .optional_two .startOffset (fun _ => .fault _ _) (.bind .bump fun _ => .pure _)

theorem caseBody (hG : G.IsGated) : Gated (caseBody G) := by
  refine .iterate (fun seen => .get_bind fun cursor _ => ?_) _
  exact .ite (.pure _) (.ite .unexpected (.bind hG.statement fun _ => .pure _))

theorem switchTurn (hG : G.IsGated) (state : List Node × Bool) : Gated (switchTurn G state) := by
  obtain ⟨seen, seenDefault⟩ := state
  refine .get_bind fun cursor _ => .ite (.pure _) (.bind .startOffset fun start => ?_)
  refine .bind (hG.caseHead seenDefault) ?_
  rintro ⟨test, seenDefault⟩
  refine .bind (.expect ":") fun _ => .bind hG.caseBody fun consequent => ?_
  exact .bind (.finish _ _ _) fun case => .pure _

theorem switchStatement (hG : G.IsGated) : Gated (switchStatement G) := by
  refine .bind .startOffset fun start => .bind .bump fun _ => ?_
  refine .bind hG.parenthesized fun discriminant => .bind (.expect "\x7b") fun _ => ?_
  exact .bind (.iterate hG.switchTurn _) fun cases => .bind .bump fun _ => .finish _ _ _

theorem withStatement (hG : G.IsGated) : Gated (withStatement G) := by
  refine .bind .startOffset fun start => .bind .bump fun _ => ?_
  exact .bind hG.parenthesized fun object => .bind hG.statement fun body => .finish _ _ _

theorem labeledStatement (hG : G.IsGated) : Gated (labeledStatement G) := by
  refine .bind .startOffset fun start => .bind .identifier fun label => ?_
  exact .bind (.expect ":") fun _ => .bind hG.statement fun body => .finish _ _ _

theorem keywordStatement (hG : G.IsGated) (word : String) : Gated (keywordStatement G word) := by
  unfold Grammar.keywordStatement
  split
  · exact hG.variableStatement _
  · exact .bind .startOffset fun _ => .bind (.require _ _) fun _ => hG.variableStatement _
  · exact .bind .startOffset fun start => hG.function start false .declaration
  · exact hG.classOf _
  · exact hG.ifStatement
  · exact hG.forStatement
  · exact hG.whileStatement
  · exact hG.doWhileStatement
  · exact hG.returnStatement
  · exact gated_jumpStatement _
  · exact gated_jumpStatement _
  · exact hG.throwStatement
  · exact hG.tryStatement
  · exact hG.switchStatement
  · exact hG.withStatement
  · exact gated_shortStatement _ _
  · exact hG.expressionStatement

theorem wordStatement (hG : G.IsGated) {word : String} (hWord : word ≠ "let") :
    Gated (wordStatement G word) := by
  refine .get_bind fun cursor _ => ?_
  simp only [beq_eq_false_iff_ne.mpr hWord, Bool.false_and]
  refine .read_bind (fun context => .ite (hG.variableStatement _) (.ite ?_ ?_)) fun _ _ => rfl
  · refine .bind .startOffset fun start => .bind (.require _ _) fun _ => .bind .bump fun _ => ?_
    exact hG.function start true .declaration
  · exact .ite hG.labeledStatement hG.expressionStatement

theorem statementBody (hG : G.IsGated) : Gated (statementBody G) := by
  refine .get_bind fun cursor hFree => ?_
  cases hToken : cursor.current? with
  | none => exact .unexpected
  | some token =>
      dsimp only
      split
      · exact hG.keywordStatement token.text
      · exact hG.wordStatement (hFree.current? hToken)
      · exact .ite hG.block (.ite (gated_shortStatement _ _) hG.expressionStatement)
      · exact hG.expressionStatement

end IsGated

end Grammar

open Production

namespace Grammar

/-- Every level of the grammar goes the same way in every year. -/
theorem isGated_upTo (n : Nat) : (upTo n).IsGated := by
  induction n with
  | zero =>
      exact
        { statement := .unexpected
          assignment := .unexpected
          binary := fun _ => .unexpected
          unary := .unexpected
          leftHandSide := .unexpected
          newExpression := .unexpected
          bindingTarget := .unexpected }
  | succ n ih =>
      exact
        { statement := ih.statementBody.nested
          assignment := ih.assignmentBody.nested
          binary := ih.binaryBody
          unary := ih.unaryBody
          leftHandSide := ih.leftHandSideBody
          newExpression := ih.newExpressionBody
          bindingTarget := ih.bindingTargetBody }

namespace IsGated

variable {G : Grammar Production}

theorem programBody (hG : G.IsGated) : Gated G.programBody := by
  refine .iterate (fun seen => .get_bind fun cursor _ => .ite (.pure _) ?_) _
  refine .bind hG.statement fun statement => .get_bind fun cursor _ => ?_
  split
  · exact .fault _ _
  · exact .pure _

theorem program (hG : G.IsGated) : Gated G.program := by
  refine .bind hG.programBody fun body => ?_
  exact .read_bind (fun context => .store _ _ _) fun _ _ => rfl

end IsGated
end Grammar

variable {source : String}

/-- What some tokens are read as in one year is what they are read as in a later one, unless a
feature is missing that came in between. -/
theorem parseTokens_eq_or_missing {year later : Nat} {tokens : List Token}
    (hYear : year ≤ later) (hLet : ∀ token ∈ tokens, token.text ≠ "let") :
    parseTokens source year tokens = parseTokens source later tokens ∨
      ∃ feature offset, year < feature.since ∧ feature.since ≤ later ∧
        parseTokens source year tokens = .error ⟨.missingEdition feature, offset⟩ := by
  have hFree : ∀ lexeme ∈ Lexeme.ofTokens source.toList none tokens,
      lexeme.token.text ≠ "let" := by
    intro lexeme hLexeme
    apply hLet
    rw [← map_token_ofTokens source.toList none tokens]
    exact List.mem_map_of_mem hLexeme
  have hProgram := (Grammar.isGated_upTo (Grammar.levels tokens.length)).program
    { year
      size := Text.byteLength source.toList
      newlineAtEnd := tokens.getLast?.any fun last =>
        newlineBetween source.toList last.span.stop (Text.byteLength source.toList) }
    later ⟨0, Lexeme.ofTokens source.toList none tokens, [], #[]⟩ hYear hFree
  rw [parseTokens_eq, parseTokens_eq]
  rcases hProgram.eq_or_missing with hSame | ⟨feature, offset, hLacked, hHad, hMissing⟩
  · exact .inl (congrArg (· >>= _) hSame)
  · exact .inr ⟨feature, offset, hLacked, hHad, congrArg (· >>= _) hMissing⟩

/-- Splitting a source into tokens does not depend on the edition. -/
theorem parse_of_tokenize {options : ParseOptions} {out : TokenizedText}
    (h : tokenize source = .ok out) : parse source options =
      (fun tree => ⟨tree.1, tree.2, out.tokens, out.comments⟩) <$>
        parseTokens source options.year out.tokens := by
  rw [parse, h]
  rfl

/-- Editions only forbid: a source without the word `let` gives the same in a later edition, the
same tree or the same error, unless the earlier edition lacks a feature that came in between and
says so. What is accepted stays accepted, as the same tree. -/
theorem parse_eq_or_missing {low high : ParseOptions} (hYear : low.year ≤ high.year)
    (hLet : ∀ out, tokenize source = .ok out → ∀ token ∈ out.tokens, token.text ≠ "let") :
    (parse source low = parse source high ∨
      ∃ feature error, low.year < feature.since ∧ feature.since ≤ high.year ∧
        parse source low = .error error ∧ error.fault = .missingEdition feature ∧
        error.message =
          feature.name ++ " requires ecmaVersion " ++ toString feature.since ++ " or later") ∧
      ∀ parsed, parse source low = .ok parsed → parse source high = .ok parsed := by
  have hEither : parse source low = parse source high ∨
      ∃ feature offset, low.year < feature.since ∧ feature.since ≤ high.year ∧
        parse source low = .error ⟨.missingEdition feature, offset⟩ := by
    cases hTokenize : tokenize source with
    | error error =>
        rw [parse, parse, hTokenize]
        exact .inl rfl
    | ok out =>
        rw [parse_of_tokenize hTokenize, parse_of_tokenize hTokenize]
        rcases parseTokens_eq_or_missing hYear (hLet out hTokenize) with
          hSame | ⟨feature, offset, hLacked, hHad, hMissing⟩
        · exact .inl (by rw [hSame])
        · exact .inr ⟨feature, offset, hLacked, hHad, by rw [hMissing]; rfl⟩
  rcases hEither with hSame | ⟨feature, offset, hLacked, hHad, hMissing⟩
  · exact ⟨.inl hSame, fun parsed hLow => hSame ▸ hLow⟩
  · refine ⟨.inr ⟨feature, _, hLacked, hHad, hMissing, rfl, rfl⟩, ?_⟩
    intro parsed hLow
    rw [hMissing] at hLow
    cases hLow

/-- A template is refused in one edition and read in the next. -/
theorem parse_eq_or_missing_template :
    (parse "`a$\x7bb\x7dc`" ⟨5⟩).isOk = false ∧ (parse "`a$\x7bb\x7dc`" ⟨6⟩).isOk = true ∧
      (∃ (feature : Feature) (error : ParseError), 5 < feature.since ∧ feature.since ≤ 2015 ∧
        parse "`a$\x7bb\x7dc`" ⟨5⟩ = .error error ∧ error.fault = .missingEdition feature ∧
        error.message =
          feature.name ++ " requires ecmaVersion " ++ toString feature.since ++ " or later") ∧
      ∀ parsed, parse "`a$\x7bb\x7dc`" ⟨5⟩ = .ok parsed →
        parse "`a$\x7bb\x7dc`" ⟨6⟩ = .ok parsed := by
  have hEarly : (parse "`a$\x7bb\x7dc`" ⟨5⟩).isOk = false := by decide +kernel
  have hLate : (parse "`a$\x7bb\x7dc`" ⟨6⟩).isOk = true := by decide +kernel
  have hTokens : tokenize "`a$\x7bb\x7dc`" = .ok
      ⟨[⟨.template, ⟨0, 4⟩, "`a$\x7b"⟩, ⟨.identifier, ⟨4, 5⟩, "b"⟩,
        ⟨.template, ⟨5, 8⟩, "\x7dc`"⟩], []⟩ := by
    decide +kernel
  have hLet : ∀ out, tokenize "`a$\x7bb\x7dc`" = .ok out →
      ∀ token ∈ out.tokens, token.text ≠ "let" := by
    intro out hOut
    rw [hTokens] at hOut
    cases hOut
    decide
  have hYear : (⟨5⟩ : ParseOptions).year ≤ (⟨6⟩ : ParseOptions).year := by decide
  obtain ⟨hEither, hKeeps⟩ := parse_eq_or_missing hYear hLet
  refine ⟨hEarly, hLate, ?_, hKeeps⟩
  rcases hEither with hSame | hMissing
  · rw [hSame, hLate] at hEarly
    cases hEarly
  · exact hMissing

end EcmaLint
