import EcmaLint.Proofs.Exchange.Edge
import EcmaLint.Proofs.Grammar.Program

/-! Values and the parentheses around them. An expression spans all that was read of it, or it stands
in parentheses, perhaps in several, and there is nothing else to it. A function or a variable in
their place was read as such. -/
namespace EcmaLint

open Grammar Production

/-- One context stands inside of another one. -/
structure Context.Contains (context inner : Context) : Prop where
  year_eq : inner.year = context.year
  size_eq : inner.size = context.size
  newlineAtEnd_eq : inner.newlineAtEnd = context.newlineAtEnd
  depth_le : context.depth ≤ inner.depth

/-- A node starts at an offset and ends with the last token that was read. -/
structure Node.Closes (node : Node) (start : Nat) (later : Cursor) : Prop where
  start_eq : node.span.start = start
  stop_eq : node.span.stop = later.previousEnd ∨ node.span.stop = max later.previousEnd start

/-- A variable or a function was read, as a function expression or as an arrow function. -/
inductive RunsValue (levels : Nat) (context : Context) (cursor : Cursor) (node : Node)
    (later : Cursor) : Prop
  | function {k : Nat} {token : Token} {isAsync : Bool} (hLevel : k ≤ levels)
      (hToken : cursor.current? = some token)
      (hAsync : isAsync = true →
        cursor.atText "async" = true ∧ Feature.asyncFunctions.since ≤ context.year)
      (hRun : Grammar.function (upTo k : Grammar Production) token.span.start isAsync .expression
        context
        (if isAsync then cursor.past else cursor) = .ok (node, later))
  | arrow {k : Nat} {isAsync : Bool} (hLevel : k ≤ levels)
      (hAsync : isAsync = true → cursor.atText "async" = true)
      (hRun : arrowFunction (upTo k : Grammar Production) isAsync context cursor = .ok (node, later))
  | name (hRun : (identifier : Production Node) context cursor = .ok (node, later))

/-- A node was read, perhaps in parentheses. -/
inductive ReadsValue (levels : Nat) : Context → Cursor → Node → Cursor → Prop
  | bare {context : Context} {cursor later : Cursor} {node : Node} {start : Nat}
      (hStart : cursor.StartsAt start) (hCloses : node.Closes start later)
      (h : node.kind.isSimpleValue = true → RunsValue levels context cursor node later) :
      ReadsValue levels context cursor node later
  | parenthesized {k : Nat} {context : Context} {cursor later : Cursor} {node : Node}
      (hOpening : cursor.atText "(" = true)
      (hRun :
        (upTo k : Grammar Production).expression { context with withoutIn := false } cursor.past =
        .ok (node, later))
      (hInner : ReadsValue levels context cursor.past node later)
      (hClosing : later.atText ")" = true) : ReadsValue levels context cursor node later.past
  | within {context inner : Context} {cursor later : Cursor} {node : Node}
      (hContains : context.Contains inner) (h : ReadsValue levels inner cursor node later) :
      ReadsValue levels context cursor node later

namespace Production

/-- A production makes a node that starts at an offset and ends with all that was read. -/
def Closes (start : Nat) (production : Production Node) : Prop :=
  ∀ context cursor, Yields production context cursor fun node later => node.Closes start later

/-- Whatever a production reads was read as a value. -/
def FindsValue (levels : Nat) (production : Production Node) : Prop :=
  ∀ context cursor, Yields production context cursor fun node later =>
    ReadsValue levels context cursor node later

end Production

/-- Whatever the productions of a grammar read was read as a value. -/
structure Grammar.FindsValues (levels : Nat) (G : Grammar Production) : Prop where
  assignment : FindsValue levels G.assignment
  binary : ∀ minimum, FindsValue levels (G.binary minimum)
  unary : FindsValue levels G.unary
  leftHandSide : FindsValue levels G.leftHandSide
  newExpression : FindsValue levels G.newExpression

variable {levels k : Nat} {production : Production Node} {G : Grammar Production} {context : Context}
  {cursor origin : Cursor} {start : Nat}

namespace Production

/-- What a production reads from a cursor on is what it yields. -/
theorem yields_run {α : Type} (production : Production α) :
    Yields production context cursor fun value later =>
      production context cursor = .ok (value, later) := fun _ _ hRun => hRun

/-- A production is left where it was if only a question was asked. -/
theorem yields_startOffset_eq :
    Yields startOffset context cursor fun start later => later = cursor ∧ cursor.StartsAt start := by
  rintro _ _ ⟨⟩
  refine ⟨rfl, fun token hToken => ?_⟩
  rw [hToken]
  rfl

theorem yields_bump_past :
    Yields bump context cursor fun _ later => later = cursor.past := by
  rintro _ _ ⟨⟩
  rfl

theorem yields_require_eq {feature : Feature} {offset : Nat} :
    Yields (require feature offset) context cursor fun _ later =>
      feature.since ≤ context.year ∧ cursor = later :=
  fun _ _ hRun => since_le_of_require hRun

theorem yields_expect_past {text : String} : Yields (expect text) context cursor fun _ later =>
    cursor.atText text = true ∧ later = cursor.past :=
  fun _ _ hRun => eq_past_of_expect hRun

theorem yields_eat_cases {text : String} : Yields (eat text) context cursor fun found later =>
    found = true ∧ cursor.atText text = true ∧ later = cursor.past ∨
      found = false ∧ later = cursor := by
  refine .get_bind (.ite (fun hText => yields_bump_past.bind ?_) fun _ => .pure (.inr ⟨rfl, rfl⟩))
  rintro _ _ rfl
  exact .pure (.inl ⟨rfl, hText, rfl⟩)

theorem closes_finish {kind : NodeKind} {fields : List (FieldName × FieldValue)} :
    Closes start (finish kind start fields) := fun _ _ => .get_bind (.store fun node hNode => by
  rw [hNode]
  exact ⟨rfl, .inr rfl⟩)

/-- Moving past a token and making a node of it. -/
theorem closes_bump_store {token : Token} {kind : NodeKind} {fields : List (FieldName × FieldValue)}
    (hToken : cursor.current? = some token) :
    Yields (do bump; store kind token.span fields) context cursor fun node later =>
      node.Closes token.span.start later := by
  obtain ⟨lexeme, hLexeme, rfl⟩ := Option.map_eq_some_iff.mp hToken
  obtain ⟨rest, hRest⟩ := List.head?_eq_some_iff.mp hLexeme
  refine yields_bump_past.bind ?_
  rintro _ _ rfl
  refine .store fun node hNode => ?_
  rw [hNode, Cursor.past_of_cons hRest]
  exact ⟨rfl, .inl rfl⟩

theorem FindsValue.withReader {change : Context → Context}
    (h : FindsValue levels production) (hChange : ∀ context : Context,
      context.Contains (change context)) :
    FindsValue levels (MonadWithReader.withReader change production) :=
  fun context cursor =>
    .withReader ((h (change context) cursor).imp fun _ _ hNode => .within (hChange context) hNode)

theorem FindsValue.allowIn (h : FindsValue levels production) :
    FindsValue levels (allowIn production) :=
  h.withReader fun _ => ⟨rfl, rfl, rfl, Nat.le_refl _⟩

theorem FindsValue.nested (h : FindsValue levels production) :
    FindsValue levels (nested production) := by
  intro context cursor
  have hContains : context.Contains { context with depth := context.depth + 1 } :=
    ⟨rfl, rfl, rfl, Nat.le_succ _⟩
  refine .read_bind (.ite (fun _ => .skip fun _ _ => .fault) fun _ => .withReader ?_)
  exact (h _ cursor).imp fun _ _ hNode => .within hContains hNode

/-- What is no function and no variable and spans all that was read. -/
theorem yields_of_other {context' : Context} (hStart : origin.StartsAt start)
    (hOther : ReadsOther production)
    (hCloses : Yields production context cursor fun node later => node.Closes start later) :
    Yields production context cursor fun node later =>
      ReadsValue levels context' origin node later :=
  ((hOther context cursor).and hCloses).imp fun _ _ ⟨hKind, hNode⟩ =>
    .bare hStart hNode fun hSimple => by simp [hSimple] at hKind

/-- As `yields_of_other`, for a production that asks for the start itself. -/
theorem FindsValue.of_startOffset {next : Nat → Production Node}
    (hOther : ∀ start, ReadsOther (next start)) (hCloses : ∀ start, Closes start (next start)) :
    FindsValue levels (startOffset >>= next) := by
  intro context cursor
  refine yields_startOffset_eq.bind ?_
  rintro start _ ⟨rfl, hStart⟩
  exact yields_of_other hStart (hOther start) (hCloses start context _)

end Production

namespace Grammar

theorem closes_memberNode {object property : Node} {computed isOptional : Bool} :
    Closes start (memberNode start object property computed isOptional) := closes_finish

theorem closes_dotMember {object : Node} {isOptional : Bool} :
    Closes start (dotMember start object isOptional) :=
  fun _ _ => .skip fun _ _ => closes_memberNode _ _

theorem closes_computedMember {object : Node} {isOptional : Bool} :
    Closes start (computedMember G start object isOptional) :=
  fun _ _ => .skip fun _ _ => .skip fun _ _ => .skip fun _ _ => closes_memberNode _ _

theorem closes_call {callee : Node} {isOptional : Bool} :
    Closes start (call G start callee isOptional) :=
  fun _ _ => .skip fun _ _ => closes_finish _ _

theorem closes_taggedTemplate {tag : Node} : Closes start (taggedTemplate G start tag) :=
  fun _ _ => .skip fun _ _ => closes_finish _ _

theorem closes_function {isAsync : Bool} {role : Role} :
    Closes start (function G start isAsync role) := fun _ _ =>
  .skip fun _ _ => .get_bind (.optional_three (fun _ _ _ _ => trivial) (fun _ => trivial)
    fun _ (_ : True) => .skip fun _ _ => .skip fun _ _ => closes_finish _ _)

theorem findsValue_template : FindsValue levels (template G) :=
  .of_startOffset (fun _ => .skip fun _ => .skip fun _ => readsOther_finish rfl)
    fun _ _ _ => .skip fun _ _ => .skip fun _ _ => closes_finish _ _

theorem findsValue_arrayLiteral : FindsValue levels (arrayLiteral G) :=
  .of_startOffset (fun _ => .skip fun _ => .skip fun _ => .skip fun _ => readsOther_finish rfl)
    fun _ _ _ => .skip fun _ _ => .skip fun _ _ => .skip fun _ _ => closes_finish _ _

theorem findsValue_objectLiteral : FindsValue levels (objectLiteral G) :=
  .of_startOffset (fun _ => .skip fun _ => .skip fun _ => .skip fun _ => readsOther_finish rfl)
    fun _ _ _ => .skip fun _ _ => .skip fun _ _ => .skip fun _ _ => closes_finish _ _

theorem findsValue_classOf : FindsValue levels (classOf G .expression) :=
  .of_startOffset
    (fun _ => .skip fun _ => .skip fun _ => .skip fun _ => .skip fun _ => .skip_either fun _ =>
      .skip fun _ => readsOther_finish rfl)
    fun _ _ _ => .skip fun _ _ => .skip fun _ _ => .skip fun _ _ => .skip fun _ _ =>
      .either (fun _ _ _ _ => trivial) (fun _ _ _ _ => trivial) fun _ _ (_ : True) =>
        .skip fun _ _ => closes_finish _ _

theorem closes_newTarget {word : Span} : Closes start (newTarget start word) := fun _ _ =>
  .get_bind (.ensure (fun _ => trivial) (fun _ _ _ _ => trivial) fun _ (_ : True) =>
    .read_bind (.ensure (fun _ => trivial) (fun _ _ _ _ => trivial) fun _ (_ : True) =>
      .skip fun _ _ => .skip fun _ _ => closes_finish _ _))

theorem findsValue_newExpressionBody : FindsValue levels (newExpressionBody G) := by
  refine .of_startOffset (fun start => ?_) fun start context cursor => ?_
  · refine .skip fun _ => .skip fun _ => .skip fun _ => .ite readsOther_newTarget ?_
    refine .skip fun _ => .skip fun _ => .skip_either fun _ => .skip fun _ => .skip fun _ => ?_
    exact .skip_either fun _ => readsOther_finish rfl
  · refine .get_bind (.skip fun _ _ => .skip fun _ _ => .ite (fun _ => closes_newTarget _ _)
      fun _ => .skip fun _ _ => .get_bind ?_)
    refine .either (fun _ _ _ _ => trivial) (fun _ _ _ _ => trivial)
      fun _ _ (_ : True) => .skip fun _ _ => .get_bind ?_
    exact .either (fun _ _ _ _ => trivial) (fun _ _ _ _ => trivial)
      fun _ _ (_ : True) => closes_finish _ _

theorem FindsValues.expression (hG : G.FindsValues levels) : FindsValue levels G.expression := by
  intro context cursor
  refine yields_startOffset_eq.bind ?_
  rintro start _ ⟨rfl, hStart⟩
  refine (hG.assignment context _).bind fun first later hFirst => .get_bind (.ite (fun _ => ?_)
    fun _ => .pure hFirst)
  exact yields_of_other hStart (.skip fun _ => readsOther_finish rfl)
    (.skip fun _ _ => closes_finish _ _)

theorem atText_of_current {token : Token} {text : String} (hToken : cursor.current? = some token)
    (hKind : token.kind ∉ [.string, .template, .regularExpression]) (hText : token.text = text) :
    cursor.atText text = true := by
  obtain ⟨lexeme, hLexeme, rfl⟩ := Option.map_eq_some_iff.mp hToken
  obtain ⟨rest, hRest⟩ := List.head?_eq_some_iff.mp hLexeme
  rw [Cursor.atText, Cursor.peekIs, hRest]
  change lexeme.is text = true
  unfold Lexeme.is
  split <;> simp_all

/-- A variable spans its token. -/
theorem closes_identifier {token : Token} (hToken : cursor.current? = some token) :
    Yields identifier context cursor fun node later => node.Closes token.span.start later := by
  refine .get_bind ?_
  rw [hToken]
  exact .ite (fun _ => closes_bump_store hToken) fun _ => .unexpected

theorem closes_numericLiteral {token : Token} (hToken : cursor.current? = some token) :
    Yields (numericLiteral token) context cursor fun node later =>
      node.Closes token.span.start later := by
  obtain ⟨lexeme, hLexeme, rfl⟩ := Option.map_eq_some_iff.mp hToken
  obtain ⟨rest, hRest⟩ := List.head?_eq_some_iff.mp hLexeme
  have hStore : ∀ {fields : List (FieldName × FieldValue)},
      Yields (store .literal lexeme.token.span fields) context cursor.past fun node later =>
        node.Closes lexeme.token.span.start later := .store fun node hNode => by
    rw [hNode, Cursor.past_of_cons hRest]
    exact ⟨rfl, .inl rfl⟩
  refine yields_bump_past.bind ?_
  rintro _ _ rfl
  refine .ite (fun _ => yields_require_eq.bind ?_) fun _ => hStore
  rintro _ _ ⟨-, rfl⟩
  exact hStore

/-- A word or a literal is read as such, and in parentheses is any expression. -/
theorem FindsValues.primary (hLevel : k ≤ levels) (hG : (upTo k).FindsValues levels) :
    FindsValue levels (primary (upTo k)) := by
  intro context cursor
  refine .get_bind ?_
  cases hToken : cursor.current? with
  | none => exact .unexpected
  | some token =>
      have hStart : cursor.StartsAt token.span.start := fun other hOther => by
        rw [Option.some.inj (hToken.symm.trans hOther)]
      have hLiteral : ∀ {kind : NodeKind} {fields : List (FieldName × FieldValue)},
          (kind.isOperation || kind.isSimpleValue) = false →
          Yields (do bump; store kind token.span fields) context cursor fun node later =>
            ReadsValue levels context cursor node later := fun hKind =>
        yields_of_other hStart (readsOther_bump_store hKind) (closes_bump_store hToken)
      dsimp only
      split
      case h_1 hKind =>
        refine .ite (fun hWord => ?_) fun _ => ?_
        · refine yields_require_eq.bind ?_
          rintro _ _ ⟨hSince, rfl⟩
          refine yields_bump_past.bind ?_
          rintro _ _ rfl node later hRun
          refine .bare hStart (closes_function _ _ _ _ hRun) fun _ =>
            .function hLevel hToken (fun _ => ⟨atText_of_current hToken ?_ ?_, hSince⟩) hRun
          · simp [hKind]
          · simp only [Bool.and_eq_true, beq_iff_eq] at hWord
            exact hWord.1.1
        · intro node later hRun
          exact .bare hStart (closes_identifier hToken _ _ hRun) fun _ => .name hRun
      case h_2 hKind =>
        refine .ite (fun _ => hLiteral rfl) fun _ => ?_
        refine .ite (fun _ => hLiteral rfl) fun _ => ?_
        refine .ite (fun _ node later hRun => ?_) fun _ => ?_
        · exact .bare hStart (closes_function _ _ _ _ hRun) fun _ =>
            .function hLevel hToken (fun h => by cases h) hRun
        · exact .ite (fun _ => findsValue_classOf _ _) fun _ => .unexpected
      case h_9 hKind =>
        refine .ite (fun hOpening => ?_) fun _ => ?_
        case refine_2 =>
          refine .ite (fun _ => findsValue_arrayLiteral _ _) fun _ => ?_
          exact .ite (fun _ => findsValue_objectLiteral _ _) fun _ => .unexpected
        refine yields_bump_past.bind ?_
        rintro _ _ rfl
        refine ((yields_run _).and (hG.expression.allowIn _ _)).bind
          fun inner between ⟨hRun, hInner⟩ => ?_
        refine yields_expect_past.bind ?_
        rintro _ _ ⟨hClosing, rfl⟩
        refine .pure (.parenthesized ?_ hRun hInner hClosing)
        exact atText_of_current hToken (by simp [hKind]) (beq_iff_eq.mp hOpening)
      case h_5 =>
        exact yields_of_other hStart readsOther_numericLiteral (closes_numericLiteral hToken)
      case h_8 => exact .ite (fun _ => findsValue_template _ _) fun _ => .unexpected
      case h_3 | h_4 | h_6 | h_7 => exact hLiteral rfl

/-- What follows an operand makes something else of it or leaves it as it is. -/
theorem findsValue_operandTurn {state : Node × Bool} (hStart : origin.StartsAt start)
    (h : ReadsValue levels context origin state.1 cursor) :
    Yields (operandTurn G start state) context cursor
      (Turn.Meets (fun state later => ReadsValue levels context origin state.1 later)
        fun state later => ReadsValue levels context origin state.1 later) := by
  obtain ⟨operand, chained⟩ := state
  have hAgain : ∀ {production : Production Node} {flag : Bool} {cursor : Cursor},
      ReadsOther production → Closes start production →
      Yields (production >>= fun operand => Pure.pure (Turn.again (operand, flag))) context cursor
        (Turn.Meets (fun state later => ReadsValue levels context origin state.1 later)
          fun (state : Node × Bool) later => ReadsValue levels context origin state.1 later) :=
    fun h hCloses =>
      (yields_of_other hStart h (hCloses _ _)).bind fun _ _ hOperand => .pure hOperand
  refine (yields_eat_eq ".").bind fun found later hSame => ?_
  refine .ite (fun _ => hAgain readsOther_dotMember closes_dotMember) fun hNot => ?_
  obtain rfl := hSame (by simpa using hNot)
  refine .get_bind (.ite (fun _ => ?_) fun _ => ?_)
  · refine .skip fun _ _ => .skip fun _ _ => .skip fun _ _ => .get_bind ?_
    refine .ite (fun _ => hAgain readsOther_call closes_call) fun _ => ?_
    exact .ite (fun _ => hAgain readsOther_computedMember closes_computedMember)
      fun _ => hAgain readsOther_dotMember closes_dotMember
  refine .get_bind (.ite (fun _ => hAgain readsOther_computedMember closes_computedMember)
    fun _ => ?_)
  refine .get_bind (.ite (fun _ => hAgain readsOther_call closes_call) fun _ => ?_)
  refine .get_bind (.ite (fun _ => ?_) fun _ => .pure h)
  exact .ite (fun _ => .skip fun _ _ => .fault)
    fun _ => hAgain readsOther_taggedTemplate closes_taggedTemplate

theorem FindsValues.leftHandSideBody (hLevel : k ≤ levels) (hG : (upTo k).FindsValues levels) :
    FindsValue levels (leftHandSideBody (upTo k)) := by
  intro context cursor
  refine yields_startOffset_eq.bind ?_
  rintro start _ ⟨rfl, hStart⟩
  refine .get_bind (.either (fun _ => hG.newExpression context _)
    (fun _ => hG.primary hLevel context _) fun operand later h => ?_)
  refine .iterate_bind _ _ h (fun state later h => findsValue_operandTurn hStart h) ?_
  rintro ⟨operand, chained⟩ later h
  exact .ite (fun _ => yields_of_other hStart (readsOther_finish rfl) (closes_finish _ _))
    fun _ => .pure h

theorem FindsValues.postfixUpdate (hG : G.FindsValues levels) (hStart : cursor.StartsAt start) :
    Yields (postfixUpdate G start) context cursor fun node later =>
      ReadsValue levels context cursor node later := by
  refine (hG.leftHandSide context cursor).bind fun operand later h => .get_bind ?_
  refine yields_newlineBefore_eq.bind fun _ _ hSame => ?_
  subst hSame
  refine .ite (fun _ => ?_) fun _ => .pure h
  exact yields_of_other hStart (.skip fun _ => .skip fun _ => readsOther_finish rfl)
    (.skip fun _ _ => .skip fun _ _ => closes_finish _ _)

theorem FindsValues.unaryBody (hG : G.FindsValues levels) : FindsValue levels (unaryBody G) := by
  intro context cursor
  refine yields_startOffset_eq.bind ?_
  rintro start cursor ⟨rfl, hStart⟩
  refine .get_bind ?_
  cases cursor.current? with
  | none => exact .unexpected
  | some token =>
      refine .ite (fun _ => ?_) fun _ => .ite (fun _ => ?_) fun _ => .read_bind ?_
      · exact yields_of_other hStart (.skip fun _ => .skip fun _ => readsOther_finish rfl)
          (.skip fun _ _ => .skip fun _ _ => closes_finish _ _)
      · exact yields_of_other hStart
          (.skip fun _ => .skip fun _ => .skip fun _ => readsOther_finish rfl)
          (.skip fun _ _ => .skip fun _ _ => .skip fun _ _ => closes_finish _ _)
      · refine .ite (fun _ => ?_) fun _ => hG.postfixUpdate hStart
        exact yields_of_other hStart
          (.skip fun _ => .skip fun _ => .skip fun _ => readsOther_finish rfl)
          (.skip fun _ _ => .skip fun _ _ => .skip fun _ _ => closes_finish _ _)

/-- An operator makes an operation of what stands on its left. -/
theorem FindsValues.binaryBody (hG : G.FindsValues levels) (minimum : Nat) :
    FindsValue levels (binaryBody G minimum) := by
  intro context cursor
  refine yields_startOffset_eq.bind ?_
  rintro start cursor ⟨rfl, hStart⟩
  refine (hG.unary context cursor).bind fun left later h => ?_
  refine .iterate (fun left later => ReadsValue levels context cursor left later) _ h
    fun left later h => ?_
  refine .read_bind (.get_bind ?_)
  split
  · exact .pure h
  case h_2 operator precedence _ =>
    refine .ite (fun _ => .pure h) fun _ => ?_
    refine .optional (fun _ _ _ _ => trivial) (fun _ => trivial) fun _ _ => ?_
    refine .optional_two (fun _ _ _ _ => trivial) (fun _ => trivial) fun _ _ => ?_
    refine .skip fun _ _ => .skip fun right between => ?_
    have hNode : ∀ {kind : NodeKind} {fields : List (FieldName × FieldValue)},
        kind.isSimpleValue = false → Yields (finish kind start fields) context between
          fun node later => ReadsValue levels context cursor node later := by
      rintro kind fields hKind node final ⟨⟩
      exact .bare hStart ⟨rfl, .inr rfl⟩ fun hSimple => by simp [hKind, Node.kind] at hSimple
    refine (hNode ?_).bind fun _ _ hNode => .pure hNode
    split <;> rfl

theorem FindsValues.conditional (hG : G.FindsValues levels) :
    FindsValue levels (conditional G) := by
  intro context cursor
  refine yields_startOffset_eq.bind ?_
  rintro start cursor ⟨rfl, hStart⟩
  refine (hG.binary 0 context cursor).bind fun test later h => ?_
  refine (yields_eat_eq "?").bind fun found between hSame => .ite (fun _ => ?_) fun hNot => ?_
  · exact yields_of_other hStart
      (.skip fun _ => .skip fun _ => .skip fun _ => readsOther_finish rfl)
      (.skip fun _ _ => .skip fun _ _ => .skip fun _ _ => closes_finish _ _)
  · obtain rfl := hSame (by simpa using hNot)
    exact .pure h

/-- Where an arrow function stands ahead that is asynchronous, its word does. -/
theorem atText_async_of_arrowAhead? (h : arrowAhead? cursor = some true) :
    cursor.atText "async" = true := by
  rw [arrowAhead?_eq_ite] at h
  obtain ⟨-, hAsync⟩ := Option.ite_none_right_eq_some.mp h
  have hAll := Option.some.inj hAsync
  simp only [Bool.and_eq_true] at hAll
  exact hAll.1.1

theorem findsValue_yieldExpression : FindsValue levels (yieldExpression G) := by
  refine .of_startOffset (fun start => ?_) fun start context cursor => ?_
  · exact .skip fun _ => .skip fun _ => .skip fun _ => .ite (readsOther_finish rfl)
      (.skip fun _ => .skip fun _ => readsOther_finish rfl)
  · exact .skip fun _ _ => .skip fun _ _ => .skip fun _ _ => .ite (fun _ => closes_finish _ _)
      fun _ => .skip fun _ _ => .skip fun _ _ => closes_finish _ _

/-- An arrow function spans all that was read. -/
theorem yields_arrowFunction {isAsync : Bool} :
    Yields (arrowFunction G isAsync) context cursor fun node later =>
      ∃ start, cursor.StartsAt start ∧ node.Closes start later := by
  refine yields_startOffset_eq.bind ?_
  rintro start cursor ⟨rfl, hStart⟩
  refine .skip fun _ _ => .optional_two (fun _ _ _ _ => trivial) (fun _ => trivial)
    fun _ (_ : True) => .get_bind ?_
  refine .either (fun _ _ _ _ => trivial) (fun _ _ _ _ => trivial)
    fun _ _ (_ : True) => .skip fun _ _ => .skip fun _ _ => ?_
  exact (closes_finish _ _).imp fun _ _ hNode => ⟨start, hStart, hNode⟩

theorem FindsValues.assignmentBody (hLevel : k ≤ levels) (hG : (upTo k).FindsValues levels) :
    FindsValue levels (assignmentBody (upTo k)) := by
  intro context cursor
  refine .get_bind (.read_bind (.ite (fun _ => findsValue_yieldExpression _ _) fun _ => ?_))
  split
  case h_1 isAsync hAhead =>
    intro node later hRun
    obtain ⟨start, hStart, hCloses⟩ := yields_arrowFunction _ _ hRun
    exact .bare hStart hCloses fun _ =>
      .arrow hLevel (fun hAsync => atText_async_of_arrowAhead? (hAsync ▸ hAhead)) hRun
  case h_2 =>
    refine yields_startOffset_eq.bind ?_
    rintro start cursor ⟨rfl, hStart⟩
    refine (hG.conditional context cursor).bind fun left later h => .get_bind ?_
    split
    · exact .pure h
    · exact yields_of_other hStart
        (.skip fun _ => .skip fun _ => .skip fun _ => readsOther_finish rfl)
        (.skip fun _ _ => .skip fun _ _ => .skip fun _ _ => closes_finish _ _)

/-- Every level of the grammar finds values on the levels below. -/
theorem findsValues_upTo (n : Nat) (hLevel : n ≤ levels) : (upTo n).FindsValues levels := by
  induction n with
  | zero =>
      have hNever : ∀ production, (∀ context cursor, Yields production context cursor
          fun (_ : Node) _ => False) → FindsValue levels production :=
        fun _ h context cursor => (h context cursor).imp fun _ _ hFalse => hFalse.elim
      exact
        { assignment := hNever _ fun _ _ => .unexpected
          binary := fun _ => hNever _ fun _ _ => .unexpected
          unary := hNever _ fun _ _ => .unexpected
          leftHandSide := hNever _ fun _ _ => .unexpected
          newExpression := hNever _ fun _ _ => .unexpected }
  | succ n ih =>
      have hBelow := ih (by omega)
      exact
        { assignment := (hBelow.assignmentBody (by omega)).nested
          binary := hBelow.binaryBody
          unary := hBelow.unaryBody
          leftHandSide := hBelow.leftHandSideBody (by omega)
          newExpression := findsValue_newExpressionBody }

end Grammar

end EcmaLint
