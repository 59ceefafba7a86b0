import EcmaLint.Grammar.Expression
import EcmaLint.Proofs.Progress.Program

/-! Reading a program ends. Every call of the parser puts back what it sets, also where it fails.
Every production that succeeds has taken a token, and so has every turn of a loop that asks for
another one, also at the end of the program, where a loop that waits for a closing bracket can only
fail. So no loop needs the bound on its turns and no production needs the bound on the levels of
the grammar: both are there for the definitions alone. -/
namespace EcmaLint

open Production Node

variable {α β σ : Type}

namespace Parser

/-- The state behind a call, whatever came of it. -/
def after (parser : Parser α) (state : ParserState) : ParserState :=
  match parser state with
  | .ok _ later => later
  | .error _ later => later

/-- A call leaves the context as it was before, whatever comes of it. -/
def Restores (parser : Parser α) : Prop :=
  ∀ state, (parser.after state).context = state.context

/-- A call leaves the context as it was before, and if it succeeds it has taken tokens from those
that were left, at least one. -/
structure Moves (parser : Parser α) : Prop where
  restores : parser.Restores
  takes : ∀ state value later, parser state = .ok value later →
    ∃ taken ≠ [], state.cursor.rest = taken ++ later.cursor.rest

/-- As `Moves`, where a call at the end of the program may succeed without a token. -/
structure MovesIfLeft (parser : Parser α) : Prop where
  restores : parser.Restores
  takes : ∀ state value later, parser state = .ok value later →
    ∃ taken, (state.cursor.rest ≠ [] → taken ≠ []) ∧ state.cursor.rest = taken ++ later.cursor.rest

/-- Repeating a turn as long as it asks for another one, however often that is. -/
inductive LoopsTo (turn : σ → Parser (Turn σ β)) :
    σ → ParserState → EStateM.Result ParseError ParserState β → Prop where
  | fails {seen : σ} {state later : ParserState} {error : ParseError}
      (turn_eq : turn seen state = .error error later) :
      LoopsTo turn seen state (.error error later)
  | leaves {seen : σ} {state later : ParserState} {result : β}
      (turn_eq : turn seen state = .ok (.done result) later) :
      LoopsTo turn seen state (.ok result later)
  | repeats {seen next : σ} {state later : ParserState}
      {outcome : EStateM.Result ParseError ParserState β}
      (turn_eq : turn seen state = .ok (.again next) later)
      (loopsTo : LoopsTo turn next later outcome) : LoopsTo turn seen state outcome

/-- A loop comes to an end. A turn fails, leaves the loop, or has taken a token, and repeating it
leads to what the bounded repetition gives. Every turn leaves the context as it was before. -/
structure Ends (turn : σ → Parser (Turn σ β)) : Prop where
  restores : ∀ seen, (turn seen).Restores
  again : ∀ seen state next later, turn seen state = .ok (.again next) later →
    ∃ taken ≠ [], state.cursor.rest = taken ++ later.cursor.rest
  done : ∀ seen state result later, turn seen state = .ok (.done result) later →
    ∃ taken, state.cursor.rest = taken ++ later.cursor.rest
  loopsTo : ∀ seen state, LoopsTo turn seen state (iterate turn seen state)

end Parser

namespace Production

theorem Agrees.context_after_eq {result : Except ParseError (α × Cursor)} {parser : Parser α}
    {state : ParserState} (h : Agrees state.context result (parser state)) :
    (parser.after state).context = state.context := by
  unfold Parser.after
  generalize parser state = outcome at h ⊢
  cases h <;> rfl

theorem Agrees.eq_ok {result : Except ParseError (α × Cursor)} {context : Context} {value : α}
    {later : ParserState} (h : Agrees context result (.ok value later)) :
    result = .ok (value, later.cursor) := by
  cases h
  rfl

end Production

theorem liesIn_true (cursor : Cursor) (size : Nat) : cursor.LiesIn (fun _ => True) size :=
  ⟨trivial, fun _ _ => ⟨trivial, trivial⟩, trivial, fun _ _ => trivial⟩

theorem starts_true (nodes : List Node) : Starts (fun _ => True) nodes := fun _ _ => trivial

namespace Parser

variable {production : Production α} {parser : Parser α} {nodes : α → List Node}

theorem Restores.of_proceeds {moved : α → Bool}
    (h : ∀ limit, Proceeds (fun _ => True) (limit + 1) moved production parser nodes) :
    parser.Restores := fun state =>
  (h state.cursor.rest.length state.context state.cursor (liesIn_true _ _)
    (Nat.lt_succ_self _)).agrees.context_after_eq

theorem Moves.of_proceeds
    (h : ∀ limit, Proceeds (fun _ => True) (limit + 1) (fun _ => true) production parser nodes) :
    parser.Moves := by
  refine ⟨.of_proceeds h, fun state value later hRun => ?_⟩
  obtain ⟨hAgrees, hLands⟩ := h state.cursor.rest.length state.context state.cursor
    (liesIn_true _ _) (Nat.lt_succ_self _)
  rw [hRun] at hAgrees
  rw [hAgrees.eq_ok] at hLands
  obtain ⟨taken, hTaken, hRest⟩ := hLands.takes
  exact ⟨taken, hTaken rfl, hRest⟩

theorem MovesIfLeft.of_proceeds
    (h : ∀ limit, ProceedsIfLeft (fun _ => True) (limit + 1 + 1) production parser nodes) :
    parser.MovesIfLeft := by
  have hFollows := fun state : ParserState => h state.cursor.rest.length state.context
    state.cursor (liesIn_true _ _) (by omega)
  refine ⟨fun state => (hFollows state).agrees.context_after_eq, fun state value later hRun => ?_⟩
  obtain ⟨hAgrees, hLands⟩ := hFollows state
  rw [hRun] at hAgrees
  rw [hAgrees.eq_ok] at hLands
  obtain ⟨taken, hTaken, hRest⟩ := hLands.takes
  exact ⟨taken, fun hLeft => hTaken (by simpa [Cursor.atEnd] using hLeft), hRest⟩

/-- If every turn that asks for another one takes a token, then as many turns as there are tokens,
and one more, are enough. -/
theorem loopsTo_turns {turn : σ → Parser (Turn σ β)}
    (h : ∀ seen state next later, turn seen state = .ok (.again next) later →
      later.cursor.rest.length < state.cursor.rest.length) {n : Nat} {seen : σ}
    {state : ParserState} (hEnough : state.cursor.rest.length < n) :
    LoopsTo turn seen state (turns turn n seen state) := by
  induction n generalizing seen state with
  | zero => exact absurd hEnough (Nat.not_lt_zero _)
  | succ n ih =>
      change LoopsTo turn seen state (EStateM.bind (turn seen) _ state)
      unfold EStateM.bind
      cases hTurn : turn seen state with
      | error error later => exact .fails hTurn
      | ok outcome later =>
          cases outcome with
          | again next =>
              have hLess := h seen state next later hTurn
              exact .repeats hTurn (ih (by omega))
          | done result => exact .leaves hTurn

theorem Ends.of_rounds {moved : Bool} {turn : σ → Production (Turn σ β)}
    {twin : σ → Parser (Turn σ β)} {nodes : σ → List Node} {results : β → List Node}
    (h : ∀ limit, Rounds (fun _ => True) (limit + 1) moved turn twin nodes results) :
    Ends twin := by
  have hFollows := fun (seen : σ) (state : ParserState) =>
    h state.cursor.rest.length seen state.context state.cursor (liesIn_true _ _)
      (Nat.lt_succ_self _) (starts_true _)
  have hAgain : ∀ seen state next later, twin seen state = .ok (.again next) later →
      Advances (fun _ => True) state.context.size (state.cursor.rest.length + 1) true state.cursor
        (nodes next) later.cursor := by
    intro seen state next later hRun
    obtain ⟨hAgrees, hLands⟩ := hFollows seen state
    rw [hRun] at hAgrees
    rw [hAgrees.eq_ok] at hLands
    exact hLands
  constructor
  case restores => exact fun seen state => (hFollows seen state).agrees.context_after_eq
  case again =>
    intro seen state next later hRun
    obtain ⟨taken, hTaken, hRest⟩ := (hAgain seen state next later hRun).takes
    exact ⟨taken, hTaken rfl, hRest⟩
  case done =>
    intro seen state result later hRun
    obtain ⟨hAgrees, hLands⟩ := hFollows seen state
    rw [hRun] at hAgrees
    rw [hAgrees.eq_ok] at hLands
    obtain ⟨taken, -, hRest⟩ := hLands.takes
    exact ⟨taken, hRest⟩
  case loopsTo =>
    intro seen state
    refine loopsTo_turns (fun seen state next later hRun => ?_) (Nat.lt_succ_self _)
    exact (hAgain seen state next later hRun).length_lt

end Parser

namespace Grammar

/-- Every production puts back the context and takes a token. Four helpers move past their first
word without a look at it: they are come to only where it stands, and at the end of the program,
where it does not, they may come to something without a token. -/
structure Moves (G : Grammar Parser) : Prop where
  program : Parser.Restores G.program
  statement : Parser.Moves G.statement
  assignment : Parser.Moves G.assignment
  binary : ∀ minimum, Parser.Moves (G.binary minimum)
  unary : Parser.Moves G.unary
  leftHandSide : Parser.Moves G.leftHandSide
  newExpression : Parser.Moves G.newExpression
  bindingTarget : Parser.Moves G.bindingTarget
  expression : Parser.Moves G.expression
  parenthesized : Parser.Moves G.parenthesized
  block : Parser.Moves G.block
  template : Parser.Moves (template G)
  propertyKey : Parser.Moves (propertyKey G)
  bindingElement : Parser.Moves (bindingElement G)
  restElement : Parser.Moves (restElement G)
  arrayPattern : Parser.Moves (arrayPattern G)
  patternProperty : Parser.Moves (patternProperty G)
  objectRest : Parser.Moves objectRest
  objectPattern : Parser.Moves (objectPattern G)
  params : Parser.Moves (params G)
  function : ∀ start isAsync role, Parser.Moves (function G start isAsync role)
  methodFunction : ∀ isAsync isGenerator, Parser.Moves (methodFunction G isAsync isGenerator)
  methodDefinition : Parser.Moves (methodDefinition G)
  classBody : Parser.Moves (classBody G)
  classOf : ∀ role, Parser.Moves (classOf G role)
  spreadElement : Parser.Moves (spreadElement G)
  arguments : Parser.Moves (arguments G)
  arrayLiteral : Parser.Moves (arrayLiteral G)
  shorthandDefault : ∀ start name, Parser.Moves (shorthandDefault G start name)
  property : Parser.Moves (property G)
  objectLiteral : Parser.Moves (objectLiteral G)
  primary : Parser.Moves (primary G)
  dotMember : ∀ start object isOptional, Parser.Moves (dotMember start object isOptional)
  computedMember : ∀ start object isOptional,
    Parser.Moves (computedMember G start object isOptional)
  call : ∀ start callee isOptional, Parser.Moves (call G start callee isOptional)
  taggedTemplate : ∀ start tag, Parser.Moves (taggedTemplate G start tag)
  newTarget : ∀ start word, Parser.Moves (newTarget start word)
  postfixUpdate : ∀ start, Parser.Moves (postfixUpdate G start)
  conditional : Parser.Moves (conditional G)
  arrowBody : ∀ isAsync, Parser.Moves (arrowBody G isAsync)
  arrowFunction : ∀ isAsync, Parser.Moves (arrowFunction G isAsync)
  yieldExpression : Parser.MovesIfLeft (yieldExpression G)
  declarator : ∀ isConst inFor, Parser.Moves (declarator G isConst inFor)
  declarators : ∀ inFor, Parser.Moves (declarators G inFor)
  variableStatement : ∀ kind, Parser.Moves (variableStatement G kind)
  expressionStatement : Parser.Moves (expressionStatement G)
  ifStatement : Parser.Moves (ifStatement G)
  forEach : ∀ start left isAwait, Parser.Moves (forEach G start left isAwait)
  forClauses : ∀ start init isAwait, Parser.Moves (forClauses G start init isAwait)
  forDeclaration : ∀ start isAwait, Parser.Moves (forDeclaration G start isAwait)
  forStatement : Parser.Moves (forStatement G)
  whileStatement : Parser.Moves (whileStatement G)
  doWhileStatement : Parser.Moves (doWhileStatement G)
  returnStatement : Parser.MovesIfLeft (returnStatement G)
  jumpStatement : ∀ kind, Parser.MovesIfLeft (jumpStatement kind)
  throwStatement : Parser.Moves (throwStatement G)
  catchClause : Parser.Moves (catchClause G)
  tryStatement : Parser.Moves (tryStatement G)
  switchStatement : Parser.Moves (switchStatement G)
  withStatement : Parser.Moves (withStatement G)
  labeledStatement : Parser.Moves (labeledStatement G)
  shortStatement : ∀ kind withSemicolon, Parser.MovesIfLeft (shortStatement kind withSemicolon)

/-- Every loop comes to an end. -/
structure LoopsEnd (G : Grammar Parser) : Prop where
  program : Parser.Ends (programTurn G)
  block : Parser.Ends (blockTurn G)
  declarators : ∀ isConst inFor, Parser.Ends (declaratorsTurn G isConst inFor)
  switchCases : Parser.Ends (switchTurn G)
  caseBody : Parser.Ends (caseTurn G)
  expression : Parser.Ends (expressionTurn G)
  binary : ∀ start minimum, Parser.Ends (binaryTurn G start minimum)
  operand : ∀ start, Parser.Ends (operandTurn G start)
  callee : ∀ start, Parser.Ends (calleeTurn G start)
  arguments : Parser.Ends (argumentsTurn G)
  template : Parser.Ends (templateTurn G)
  array : Parser.Ends (arrayTurn G)
  object : Parser.Ends (objectTurn G)
  arrayPattern : Parser.Ends (arrayPatternTurn G)
  objectPattern : Parser.Ends (objectPatternTurn G)
  params : Parser.Ends (paramsTurn G)
  classBody : Parser.Ends (classTurn G)

variable {G : Grammar Production} {H : Grammar Parser}

theorem moves_of_alike (hG : ∀ limit, Alike (fun _ => True) limit G H) : H.Moves where
  program := .of_proceeds fun limit => proceeds_program (hG (limit + 1) .statement) trivial
  statement := .of_proceeds fun limit => hG (limit + 1) .statement
  assignment := .of_proceeds fun limit => hG (limit + 1) .assignment
  binary minimum := .of_proceeds fun limit => hG (limit + 1) (.binary minimum)
  unary := .of_proceeds fun limit => hG (limit + 1) .unary
  leftHandSide := .of_proceeds fun limit => hG (limit + 1) .leftHandSide
  newExpression := .of_proceeds fun limit => hG (limit + 1) .newExpression
  bindingTarget := .of_proceeds fun limit => hG (limit + 1) .bindingTarget
  expression := .of_proceeds fun limit => (hG (limit + 1)).expression
  parenthesized := .of_proceeds fun limit => (hG limit).parenthesized
  block := .of_proceeds fun limit => (hG limit).block
  template := .of_proceeds fun limit => (hG limit).template
  propertyKey := .of_proceeds fun limit => (hG limit).propertyKey
  bindingElement := .of_proceeds fun limit => (hG (limit + 1)).bindingElement
  restElement := .of_proceeds fun limit => (hG limit).restElement
  arrayPattern := .of_proceeds fun limit => (hG limit).arrayPattern
  patternProperty := .of_proceeds fun limit => (hG limit).patternProperty
  objectRest := .of_proceeds fun _ => proceedsNode_objectRest
  objectPattern := .of_proceeds fun limit => (hG limit).objectPattern
  params := .of_proceeds fun limit => (hG limit).params
  function _ _ _ := .of_proceeds fun limit => (hG limit).function trivial
  methodFunction _ _ := .of_proceeds fun limit => (hG limit).methodFunction _ _
  methodDefinition := .of_proceeds fun limit => (hG limit).methodDefinition
  classBody := .of_proceeds fun limit => (hG limit).classBody
  classOf role := .of_proceeds fun limit => (hG limit).classOf role
  spreadElement := .of_proceeds fun limit => (hG limit).spreadElement
  arguments := .of_proceeds fun limit => (hG limit).arguments
  arrayLiteral := .of_proceeds fun limit => (hG limit).arrayLiteral
  shorthandDefault _ _ :=
    .of_proceeds fun limit => (hG (limit + 1)).shorthandDefault trivial (starts_true _)
  property := .of_proceeds fun limit => (hG limit).property
  objectLiteral := .of_proceeds fun limit => (hG limit).objectLiteral
  primary := .of_proceeds fun limit => (hG limit).primary
  dotMember _ _ _ := .of_proceeds fun _ _ _ hLies hLeft =>
    follows_dotMember (Advances.refl hLies hLeft (starts_true _)) trivial
  computedMember _ _ _ := .of_proceeds fun limit _ _ hLies hLeft =>
    (hG limit).computedMember (Advances.refl hLies hLeft (starts_true _)) trivial
  call _ _ _ := .of_proceeds fun limit _ _ hLies hLeft =>
    (hG limit).call (Advances.refl hLies hLeft (starts_true _)) trivial
  taggedTemplate _ _ := .of_proceeds fun limit _ _ hLies hLeft =>
    (hG limit).taggedTemplate (Advances.refl hLies hLeft (starts_true _)) trivial
  newTarget _ _ := .of_proceeds fun _ _ _ hLies hLeft =>
    follows_newTarget (Advances.refl hLies hLeft (starts_true _)) trivial trivial
  postfixUpdate _ :=
    .of_proceeds fun limit => Alike.postfixUpdate (hG (limit + 1) .leftHandSide) trivial
  conditional := .of_proceeds fun limit => (hG limit).conditional (hG (limit + 1) (.binary 0))
  arrowBody isAsync := .of_proceeds fun limit => (hG (limit + 1)).arrowBody isAsync
  arrowFunction isAsync := .of_proceeds fun limit => (hG limit).arrowFunction isAsync
  yieldExpression := .of_proceeds fun limit => (hG (limit + 1)).yieldExpression limit.succ_pos
  declarator _ _ := .of_proceeds fun limit => (hG (limit + 1)).declarator _ _
  declarators inFor :=
    .of_proceeds fun limit => ((hG (limit + 1)).declarators inFor limit.succ_pos).lower
  variableStatement kind :=
    .of_proceeds fun limit => ((hG (limit + 1)).variableStatement kind limit.succ_pos).lower
  expressionStatement :=
    .of_proceeds fun limit => Alike.expressionStatement (hG (limit + 1) .assignment)
  ifStatement := .of_proceeds fun limit => (hG limit).ifStatement
  forEach _ _ _ :=
    .of_proceeds fun limit => (hG (limit + 1)).forEach trivial (starts_true _)
  forClauses _ init _ :=
    .of_proceeds fun limit => (hG (limit + 1)).forClauses init trivial (starts_true _)
  forDeclaration _ _ := .of_proceeds fun limit => (hG (limit + 1)).forDeclaration trivial
  forStatement := .of_proceeds fun limit => (hG limit).forStatement
  whileStatement := .of_proceeds fun limit => (hG limit).whileStatement
  doWhileStatement :=
    .of_proceeds fun limit => ((hG (limit + 1)).doWhileStatement limit.succ_pos).lower
  returnStatement := .of_proceeds fun limit => (hG (limit + 1)).returnStatement limit.succ_pos
  jumpStatement kind := .of_proceeds fun limit => proceeds_jumpStatement kind limit.succ_pos
  throwStatement :=
    .of_proceeds fun limit => ((hG (limit + 1)).throwStatement limit.succ_pos).lower
  catchClause := .of_proceeds fun limit => (hG (limit + 1)).catchClause
  tryStatement := .of_proceeds fun limit => (hG limit).tryStatement
  switchStatement := .of_proceeds fun limit => (hG limit).switchStatement
  withStatement := .of_proceeds fun limit => (hG limit).withStatement
  labeledStatement := .of_proceeds fun limit => (hG limit).labeledStatement
  shortStatement kind withSemicolon :=
    .of_proceeds fun limit => proceeds_shortStatement kind withSemicolon limit.succ_pos

theorem loopsEnd_of_alike (hG : ∀ limit, Alike (fun _ => True) limit G H) : H.LoopsEnd where
  program := .of_rounds fun limit => rounds_programTurn (hG (limit + 1) .statement)
  block := .of_rounds fun limit => (hG (limit + 1)).blockTurn
  declarators _ _ := .of_rounds fun limit => (hG (limit + 1)).declaratorsTurn _ _
  switchCases := .of_rounds fun limit => (hG (limit + 1)).switchTurn
  caseBody := .of_rounds fun limit => (hG (limit + 1)).caseTurn
  expression := .of_rounds fun limit => rounds_expressionTurn (hG (limit + 1) .assignment)
  binary _ minimum := .of_rounds fun limit => (hG (limit + 1)).binaryTurn trivial minimum
  operand _ := .of_rounds fun limit => (hG limit).operandTurn trivial
  callee _ := .of_rounds fun limit => (hG limit).calleeTurn trivial
  arguments := .of_rounds fun limit => (hG (limit + 1)).argumentsTurn
  template := .of_rounds fun limit => (hG limit).templateTurn
  array := .of_rounds fun limit => (hG (limit + 1)).arrayTurn
  object := .of_rounds fun limit => (hG (limit + 1)).objectTurn
  arrayPattern := .of_rounds fun limit => (hG (limit + 1)).arrayPatternTurn
  objectPattern := .of_rounds fun limit => (hG (limit + 1)).objectPatternTurn
  params := .of_rounds fun limit => (hG (limit + 1)).paramsTurn
  classBody := .of_rounds fun limit => (hG (limit + 1)).classTurn

/-- Looking past brackets for the arrow of an arrow function goes on along the tokens. -/
theorem exists_of_afterClosing {depth : Nat} {lexemes later : List Lexeme}
    (h : afterClosing depth lexemes = some later) : ∃ seen ≠ [], lexemes = seen ++ later := by
  induction lexemes generalizing depth with
  | nil => cases h
  | cons lexeme rest ih =>
      have hDeeper : ∀ {depth}, afterClosing depth rest = some later →
          ∃ seen ≠ [], lexeme :: rest = seen ++ later := by
        intro depth hRest
        obtain ⟨seen, -, rfl⟩ := ih hRest
        exact ⟨lexeme :: seen, by simp, rfl⟩
      rw [afterClosing] at h
      split at h
      · exact hDeeper h
      split at h
      · exact hDeeper h
      split at h
      · split at h
        · split at h
          · cases h
            exact ⟨[lexeme], by simp, rfl⟩
          · cases h
        · exact hDeeper h
      · exact hDeeper h

/-- With enough levels for the tokens that are left, a part is read in one way, whatever the levels
stand on. -/
theorem outcome_above_eq {n : Nat} {symbol : Symbol} {state : ParserState} (base : Grammar Parser)
    (h : levels state.cursor.rest.length ≤ n) :
    Parser.outcome ((base.above n).read symbol) state =
      Parser.outcome ((upTo (levels state.cursor.rest.length)).read symbol) state := by
  have hRank := symbol.rank_le
  have hAgrees := fun (other : Grammar Parser) (m : Nat) (hm : levels state.cursor.rest.length ≤ m) =>
    (@proceedsNode_above (fun _ => True) (state.cursor.rest.length + 1) (upTo 0) other
      (levels state.cursor.rest.length) m symbol (by rw [levels]; omega)
      (by rw [levels] at hm; omega) state.context state.cursor (liesIn_true _ _)
      (Nat.lt_succ_self _)).agrees.outcome_eq
  have hUpTo := hAgrees (upTo 0) _ le_rfl
  rw [above_upTo_zero] at hUpTo
  exact (hAgrees base n h).trans hUpTo.symm

end Grammar

/-- Above some number of levels a source is read in one way, which is how `parse` reads it. -/
theorem exists_parseWith_eq (source : String) (options : ParseOptions) :
    ∃ enough, ∀ (base : Grammar Parser) (n : Nat), enough ≤ n →
      parseWith (base.above n) source options = parse source options := by
  cases hTokenize : tokenize source with
  | error error =>
      refine ⟨0, fun base n _ => ?_⟩
      rw [parseWith, parse, hTokenize]
      -- Both sides fail before they come to what follows, in which they differ.
      change (Except.error error : Except ParseError Parsed) = .error error
      rfl
  | ok out =>
      refine ⟨Grammar.levels out.tokens.length, fun base n hEnough => ?_⟩
      have hSame := (@parseTokensWith_follows (fun _ => True) source out.tokens _ _ (Grammar.upTo 0)
        base options.year trivial trivial (fun _ _ => ⟨trivial, trivial⟩) le_rfl hEnough).1
      rw [Grammar.above_upTo_zero] at hSame
      rw [parseWith, parse, hTokenize]
      change parseTokensWith (base.above n) source options.year out.tokens >>= _ = _
      rw [hSame, ← parseTokens_eq]
      rfl

/-- Reading ends, for every state of the parser and for every source. A call leaves the context as
it was, whatever comes of it, and a production that succeeds has moved on by at least one token, not
past the end; every turn of a loop takes a token, leaves the loop or fails, and looking ahead for an
arrow goes along the tokens. So the bound on the turns of a loop is never reached, and productions
come back to each other no more often than there are levels of the grammar: what is read is the
same whatever these stand on. -/
theorem parse_ends :
    (∀ n, (Grammar.upTo n : Grammar Parser).Moves ∧ (Grammar.upTo n : Grammar Parser).LoopsEnd) ∧
      (∀ depth lexemes later, Grammar.afterClosing depth lexemes = some later →
        ∃ seen ≠ [], lexemes = seen ++ later) ∧
      (∀ symbol state (base : Grammar Parser) n, Grammar.levels state.cursor.rest.length ≤ n →
        Parser.outcome ((base.above n).read symbol) state =
          Parser.outcome ((Grammar.upTo (Grammar.levels state.cursor.rest.length)).read symbol)
            state) ∧
      ∀ source options, ∃ enough, ∀ (base : Grammar Parser) n, enough ≤ n →
        parseWith (base.above n) source options = parse source options := by
  refine ⟨fun n => ?_, fun _ _ _ => Grammar.exists_of_afterClosing,
    fun _ _ base _ => Grammar.outcome_above_eq base, exists_parseWith_eq⟩
  have hAlike : ∀ limit, Grammar.Alike (fun _ => True) limit (Grammar.upTo n) (Grammar.upTo n) :=
    fun _ => Grammar.alike_upTo n
  exact ⟨Grammar.moves_of_alike hAlike, Grammar.loopsEnd_of_alike hAlike⟩

end EcmaLint
