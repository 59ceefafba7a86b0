import EcmaLint.Proofs.Exchange.Inside
import EcmaLint.Proofs.Exchange.Values
import EcmaLint.Proofs.Shape.Statement

/-! The parts of functions. A function without a name is read as some words, its parameters and its
body; between the parameters and the body of an arrow function stands the arrow. -/
namespace EcmaLint

open Grammar Production

/-- Lexemes are passed that change nothing else. -/
structure Cursor.Passes (cursor : Cursor) (lexemes : List Lexeme) (later : Cursor) : Prop where
  rest_eq : cursor.rest = lexemes ++ later.rest
  defaults_eq : later.shorthandDefaults = cursor.shorthandDefaults

/-- The context of the parameters and the body of a function. -/
def Context.ofFunction (context : Context) (isAsync isGenerator : Bool) : Context :=
  { context with
    inFunction := true
    inAsync := isAsync
    inGenerator := isGenerator
    withoutIn := false }

variable {k levels : Nat} {context : Context} {cursor between later : Cursor} {node : Node}
  {lexemes more : List Lexeme} {isAsync : Bool} {start : Nat}

namespace Cursor.Passes

theorem refl (cursor : Cursor) : cursor.Passes [] cursor := ⟨rfl, rfl⟩

theorem trans (h : cursor.Passes lexemes between) (h' : between.Passes more later) :
    cursor.Passes (lexemes ++ more) later where
  rest_eq := by rw [h.rest_eq, h'.rest_eq, List.append_assoc]
  defaults_eq := h'.defaults_eq.trans h.defaults_eq

end Cursor.Passes

theorem Cursor.exists_passes_of_atText {text : String} (h : cursor.atText text = true) :
    ∃ lexeme, lexeme.is text = true ∧ cursor.Passes [lexeme] cursor.past := by
  obtain ⟨lexeme, rest, hRest, hIs⟩ := exists_cons_of_atText h
  rw [past_of_cons hRest]
  exact ⟨lexeme, hIs, hRest, rfl⟩

/-- The lexemes that are left are those of a text. -/
structure Cursor.IsSound (cursor : Cursor) : Prop where
  inOrder : Token.InOrder cursor.tokens
  tidy : ∀ lexeme ∈ cursor.rest, lexeme.IsTidy

theorem Cursor.IsSound.of_eq_append (h : cursor.IsSound) (hRest : cursor.rest = lexemes ++ later.rest) :
    later.IsSound where
  inOrder := by
    have hOrder := h.inOrder
    rw [Cursor.tokens, hRest, List.map_append] at hOrder
    exact hOrder.append_right
  tidy lexeme hLexeme := h.tidy lexeme (hRest ▸ List.mem_append_right _ hLexeme)

/-- What a production reads closes the brackets that it opens. -/
def Production.Brackets {α : Type} (production : Production α) : Prop :=
  ∀ context cursor, cursor.IsSound → 0 < context.size →
    Yields production context cursor fun _ later =>
      ∃ taken, cursor.rest = taken ++ later.rest ∧ Bracketed 0 0 taken

theorem Exchange.MirrorsEverywhere.brackets {α : Type} {production : Production α}
    {nodes : α → List Node} (h : MirrorsEverywhere k k production production nodes) :
    Brackets production := fun _ _ hSound hSize _ _ hRun =>
  h.bracketed (Nat.le_refl k) hRun hSound.inOrder hSound.tidy hSize

theorem brackets_expression : Brackets (upTo k).expression :=
  Exchange.MirrorsEverywhere.brackets fun _ hG => hG.expression.mirrors

theorem brackets_assignment : Brackets (upTo k).assignment :=
  Exchange.MirrorsEverywhere.brackets fun _ hG => hG.assignment.mirrors

theorem brackets_params : Brackets (params (upTo k)) :=
  Exchange.MirrorsEverywhere.brackets fun _ hG => hG.params

theorem brackets_block : Brackets (block (upTo k)) :=
  Exchange.MirrorsEverywhere.brackets fun _ hG => hG.block.mirrors

/-- A value and the parentheses around it. -/
structure Unwraps (levels : Nat) (context : Context) (cursor : Cursor) (node : Node)
    (later : Cursor) (opens middle closes : List Lexeme) (inner : Context) (first last : Cursor) :
    Prop where
  contains : context.Contains inner
  passesOpens : cursor.Passes opens first
  rest_eq : first.rest = middle ++ last.rest
  passesCloses : last.Passes closes later
  opens_is : ∀ lexeme ∈ opens, lexeme.is "(" = true
  closes_is : ∀ lexeme ∈ closes, lexeme.is ")" = true
  bounds : node.span.Bounds (middle.map Lexeme.token)
  runs : node.kind.isSimpleValue = true → RunsValue levels inner first node last

/-- A node that starts with the current token and ends with the last one read spans what was read. -/
theorem Node.Closes.bounds (h : node.Closes start later) (hStart : cursor.StartsAt start)
    (hReads : Reads true cursor [node] later) (hRest : cursor.rest = lexemes ++ later.rest) :
    node.span.Bounds (lexemes.map Lexeme.token) := by
  obtain ⟨taken, hTaken, hTakes⟩ := hReads.takes
  have hTokens := hTakes.tokens_eq
  rw [Cursor.tokens, hRest, List.map_append] at hTokens
  obtain rfl : lexemes.map Lexeme.token = taken := List.append_cancel_right hTokens
  obtain ⟨hBounds, hMax⟩ := hTakes.bounds (hTaken rfl) hStart
  have hStop : node.span.stop = max later.previousEnd start :=
    h.stop_eq.elim (fun hStop => hStop.trans hMax) id
  exact ⟨by rw [h.start_eq]; exact hBounds.head, by rw [hStop]; exact hBounds.last⟩

/-- Apart from parentheses nothing stands around a value. -/
theorem ReadsValue.exists_unwraps (h : ReadsValue levels context cursor node later)
    (hSound : cursor.IsSound) (hSize : 0 < context.size)
    (hReads : Reads true cursor [node] later)
    (hRest : ∃ taken, cursor.rest = taken ++ later.rest) :
    ∃ opens middle closes inner first last,
      Unwraps levels context cursor node later opens middle closes inner first last := by
  induction h with
  | @bare context cursor later node start hStart hCloses hRuns =>
      obtain ⟨taken, hTaken⟩ := hRest
      exact ⟨[], taken, [], context, cursor, later, ⟨rfl, rfl, rfl, Nat.le_refl _⟩, .refl _, hTaken,
        .refl _, by simp, by simp, hCloses.bounds hStart hReads hTaken, hRuns⟩
  | @parenthesized k context cursor later node hOpening hRun hInner hClosing ih =>
      obtain ⟨opening, hIs, hPasses⟩ := Cursor.exists_passes_of_atText hOpening
      obtain ⟨closing, hIs', hPasses'⟩ := Cursor.exists_passes_of_atText hClosing
      have hSound' := hSound.of_eq_append hPasses.rest_eq
      obtain ⟨taken, hTaken, -⟩ :=
        brackets_expression { context with withoutIn := false } _ hSound' hSize _ _ hRun
      obtain ⟨opens, middle, closes, inner, first, last, hCore⟩ := ih hSound' hSize
        ((readsNodes_upTo k).expression _ _ hSound'.inOrder _ _ hRun) ⟨taken, hTaken⟩
      refine ⟨opening :: opens, middle, closes ++ [closing], inner, first, last,
        { hCore with
          passesOpens := hPasses.trans hCore.passesOpens
          passesCloses := hCore.passesCloses.trans hPasses'
          opens_is := ?_
          closes_is := ?_ }⟩
      · exact List.forall_mem_cons.mpr ⟨hIs, hCore.opens_is⟩
      · exact List.forall_mem_append.mpr ⟨hCore.closes_is, by simpa using hIs'⟩
  | within hContains _ ih =>
      obtain ⟨opens, middle, closes, inner, first, last, hCore⟩ :=
        ih hSound (hContains.size_eq ▸ hSize) hReads hRest
      have hInner := hCore.contains
      exact ⟨opens, middle, closes, inner, first, last,
        { hCore with
          contains := ⟨hInner.year_eq.trans hContains.year_eq,
            hInner.size_eq.trans hContains.size_eq,
            hInner.newlineAtEnd_eq.trans hContains.newlineAtEnd_eq,
            hContains.depth_le.trans hInner.depth_le⟩ }⟩

theorem exists_of_identifier
    (hRun : (identifier : Production Node) context cursor = .ok (node, later)) :
    ∃ lexeme, cursor.Passes [lexeme] later ∧ lexeme.token.kind = .identifier ∧
      node = .mk cursor.arena.size .identifier lexeme.token.span
        [(.ident, .text lexeme.token.text)] := by
  unfold identifier at hRun
  rw [get_bind_eq] at hRun
  cases hRest : cursor.rest with
  | nil =>
      rw [Cursor.current?, hRest] at hRun
      have hNever : Yields unexpected context cursor fun (_ : Node) _ => False := .unexpected
      exact (hNever _ _ hRun).elim
  | cons lexeme rest =>
      rw [Cursor.current?, hRest] at hRun
      by_cases hKind : lexeme.token.kind = .identifier
      · simp only [List.head?_cons, Option.map_some, hKind, beq_self_eq_true, if_true] at hRun
        obtain ⟨_, _, hBump, hStore⟩ := exists_of_run hRun
        rw [bump_eq] at hBump
        cases hBump
        rw [store_eq, Cursor.past_of_cons hRest] at hStore
        cases hStore
        exact ⟨lexeme, ⟨hRest, rfl⟩, hKind, rfl⟩
      · have hNot : (lexeme.token.kind == .identifier) = false := by simpa using hKind
        simp only [List.head?_cons, Option.map_some, hNot, Bool.false_eq_true, if_false] at hRun
        have hNever : Yields unexpected context cursor fun (_ : Node) _ => False := .unexpected
        exact (hNever _ _ hRun).elim

theorem starts_finish {kind : NodeKind} {start : Nat} {fields : List (FieldName × FieldValue)}
    {later : Cursor} (h : cursor.StartsAt start) :
    Yields (finish kind start fields) context later fun node _ => cursor.StartsAt node.span.start :=
  (closes_finish context later).imp fun _ _ hNode => hNode.start_eq ▸ h

/-- What a binding target is read off starts it. -/
theorem starts_bindingTarget (k : Nat) (context : Context) (cursor : Cursor) :
    Yields (upTo k).bindingTarget context cursor fun node _ => cursor.StartsAt node.span.start := by
  cases k with
  | zero => exact .unexpected
  | succ k =>
      have hRequire : ∀ {production : Production Node},
          (∀ cursor, Yields production context cursor fun node _ =>
            cursor.StartsAt node.span.start) →
          Yields (do require .destructuring (← startOffset); production) context cursor
            fun node _ => cursor.StartsAt node.span.start := by
        intro production hProduction
        refine .startOffset_bind fun _ _ => yields_require_eq.bind ?_
        rintro _ _ ⟨-, rfl⟩
        exact hProduction cursor
      refine .get_bind (.ite (fun _ => ?_) fun _ => .ite (fun _ => ?_) fun _ => ?_)
      · exact hRequire fun cursor => .startOffset_bind fun start hStart =>
          .skip fun _ _ => .skip fun _ _ => .skip fun _ _ => starts_finish hStart
      · exact hRequire fun cursor => .startOffset_bind fun start hStart =>
          .skip fun _ _ => .skip fun _ _ => .skip fun _ _ => starts_finish hStart
      · intro node later hRun
        obtain ⟨lexeme, hPasses, -, rfl⟩ := exists_of_identifier hRun
        intro token hToken
        rw [Cursor.current?, hPasses.rest_eq] at hToken
        cases hToken
        rfl

theorem starts_bindingElement (k : Nat) (context : Context) (cursor : Cursor) :
    Yields (bindingElement (upTo k)) context cursor fun node _ =>
      cursor.StartsAt node.span.start := by
  refine .startOffset_bind fun start hStart => ?_
  refine (starts_bindingTarget k context cursor).bind fun target later h => .get_bind ?_
  refine .ite (fun _ => ?_) fun _ => .pure h
  exact .skip fun _ _ => .skip fun _ _ => .skip fun _ _ => .skip fun _ _ => starts_finish hStart

theorem starts_restElement (k : Nat) (context : Context) (cursor : Cursor) :
    Yields (restElement (upTo k)) context cursor fun node _ =>
      cursor.StartsAt node.span.start := by
  refine .startOffset_bind fun start hStart => ?_
  exact .skip fun _ _ => .skip fun _ _ => .skip fun _ _ => starts_finish hStart

/-- The first parameter starts behind the parenthesis. -/
theorem starts_params (k : Nat) (context : Context) (cursor : Cursor) :
    Yields (params (upTo k)) context cursor fun nodes _ =>
      ∀ first ∈ nodes.head?, cursor.past.StartsAt first.span.start := by
  have hConcat : ∀ {seen : List Node} {node : Node} {later : Cursor},
      ((seen = [] → later = cursor.past) ∧
        ∀ first ∈ seen.head?, cursor.past.StartsAt first.span.start) →
      later.StartsAt node.span.start →
      ∀ first ∈ (seen ++ [node]).head?, cursor.past.StartsAt first.span.start := by
    rintro seen node later ⟨hNil, hSeen⟩ hNode first hFirst
    cases seen with
    | nil =>
        cases hFirst
        exact hNil rfl ▸ hNode
    | cons head seen => exact hSeen first hFirst
  refine yields_expect_past.bind ?_
  rintro _ _ ⟨-, rfl⟩
  refine .iterate_bind
    (fun seen later => (seen = [] → later = cursor.past) ∧
      ∀ first ∈ seen.head?, cursor.past.StartsAt first.span.start)
    (fun seen _ => ∀ first ∈ seen.head?, cursor.past.StartsAt first.span.start)
    ⟨fun _ => rfl, by simp⟩ (fun seen later h => ?_) fun params later h => .skip fun _ _ => .pure h
  refine .get_bind (.ite (fun _ => .pure h.2) fun _ => .get_bind (.ite (fun _ => ?_) fun _ => ?_))
  · refine (starts_restElement k context later).bind fun rest between hRest => ?_
    refine .get_bind (.ite (fun _ => .pure (hConcat h hRest)) fun _ => ?_)
    exact .startOffset_bind fun _ _ => .fault_bind
  · refine (starts_bindingElement k context later).bind fun param between hParam => ?_
    have hSeen := hConcat h hParam
    refine .skip fun _ _ => .ite (fun _ => ?_) fun _ => .pure hSeen
    exact .get_bind (.optional_two (fun _ _ _ _ => trivial) (fun _ => trivial)
      fun _ (_ : True) => .pure ⟨by simp, hSeen⟩)

/-- A block starts with its brace. -/
theorem starts_block (k : Nat) (context : Context) (cursor : Cursor) :
    Yields (block (upTo k)) context cursor fun node _ => cursor.StartsAt node.span.start :=
  .startOffset_bind fun _ hStart => .skip fun _ _ => .skip fun _ _ => .skip fun _ _ =>
    starts_finish hStart

/-- Parameters in parentheses, or a single one without them. -/
inductive RunsParams (k : Nat) (context : Context) :
    Bool → Cursor → List Node → List Lexeme → Cursor → Prop
  | parenthesized {cursor later : Cursor} {nodes : List Node} {lexemes : List Lexeme}
      (hRun : params (upTo k : Grammar Production) context cursor = .ok (nodes, later))
      (hRest : cursor.rest = lexemes ++ later.rest) :
      RunsParams k context false cursor nodes lexemes later
  | bare {cursor later : Cursor} {lexeme : Lexeme} {id : NodeId}
      (hPasses : cursor.Passes [lexeme] later) (hKind : lexeme.token.kind = .identifier) :
      RunsParams k context true cursor
        [.mk id .identifier lexeme.token.span [(.ident, .text lexeme.token.text)]] [lexeme] later

theorem RunsParams.rest_eq {isBare : Bool} {nodes : List Node}
    (h : RunsParams k context isBare cursor nodes lexemes later) :
    cursor.rest = lexemes ++ later.rest := by
  cases h with
  | parenthesized _ hRest => exact hRest
  | bare hPasses => exact hPasses.rest_eq

/-- What stands before the parameters of a function without a name and between them and its body. -/
inductive FunctionForm (isAsync isGenerator : Bool) :
    Bool → NodeKind → List Lexeme → List Lexeme → Prop
  | function {asyncs stars : List Lexeme} {word : Lexeme}
      (hAsyncs : ∀ lexeme ∈ asyncs, lexeme.is "async" = true)
      (hLength : asyncs.length = isAsync.toNat) (hWord : word.is "function" = true)
      (hStars : ∀ lexeme ∈ stars, lexeme.is "*" = true)
      (hCount : stars.length = isGenerator.toNat) :
      FunctionForm isAsync isGenerator false .functionExpression (asyncs ++ word :: stars) []
  | arrow {isBare : Bool} {asyncs : List Lexeme} {arrow : Lexeme}
      (hAsyncs : ∀ lexeme ∈ asyncs, lexeme.is "async" = true)
      (hLength : asyncs.length = isAsync.toNat) (hArrow : arrow.is "=>" = true)
      (hPlain : isGenerator = false) :
      FunctionForm isAsync isGenerator isBare .arrowFunctionExpression asyncs [arrow]

/-- The parts of a function without a name whose body is a block. -/
structure FunctionParts (k : Nat) (context : Context) (value : Node) (cursor later : Cursor)
    (isAsync isGenerator isBare : Bool) (head params arrows block : List Lexeme)
    (nodes : List Node) (body : Node) (atParams atArrow atBody atEnd : Cursor) : Prop where
  form : FunctionForm isAsync isGenerator isBare value.kind head arrows
  passesHead : cursor.Passes head atParams
  runsParams : RunsParams k (context.ofFunction isAsync isGenerator) isBare atParams nodes params
    atArrow
  passesArrows : atArrow.Passes arrows atBody
  runsBlock :
    Grammar.block (upTo k : Grammar Production) (context.ofFunction isAsync isGenerator) atBody =
    .ok (body, atEnd)
  block_eq : atBody.rest = block ++ atEnd.rest
  ends : atEnd.Passes [] later
  fields_eq : value.fields = functionFields none nodes body isAsync isGenerator false
  async_since : isAsync = true → Feature.asyncFunctions.since ≤ context.year
  generator_since : isGenerator = true → Feature.generators.since ≤ context.year

theorem FunctionParts.rest_eq {atParams atArrow atBody atEnd : Cursor} {body : Node}
    {isGenerator isBare : Bool} {head params arrows block : List Lexeme} {nodes : List Node}
    (h : FunctionParts k context node cursor later isAsync isGenerator isBare head params arrows
      block nodes body atParams atArrow atBody atEnd) :
    cursor.rest = head ++ (params ++ (arrows ++ (block ++ later.rest))) := by
  rw [h.passesHead.rest_eq, h.runsParams.rest_eq, h.passesArrows.rest_eq, h.block_eq,
    h.ends.rest_eq, List.nil_append]

/-- What stands in the parentheses around a function are its parts. -/
theorem FunctionParts.middle_eq {atParams atArrow atBody atEnd origin behind : Cursor} {body : Node}
    {isGenerator isBare : Bool} {head params arrows block opens middle closes : List Lexeme}
    {nodes : List Node} {outer : Context}
    (h : FunctionParts k context node cursor later isAsync isGenerator isBare head params arrows
      block nodes body atParams atArrow atBody atEnd)
    (hUnwraps : Unwraps levels outer origin node behind opens middle closes context cursor later) :
    middle = head ++ (params ++ (arrows ++ block)) := by
  have hRest := hUnwraps.rest_eq.symm.trans h.rest_eq
  exact List.append_cancel_right (by simpa using hRest)

/-- Where there is no name, nothing is passed. -/
theorem eq_of_nameFor
    (h : (nameFor .expression : Production (Option Node)) context cursor = .ok (none, later)) :
    later = cursor := by
  unfold nameFor at h
  rw [get_bind_eq] at h
  split at h
  · obtain ⟨name, between, -, ⟨⟩⟩ := exists_of_run h
  · cases h
    rfl

/-- A function without a name that is no arrow function, from the word `function` on. -/
theorem exists_of_function {asyncs : List Lexeme} {origin : Cursor}
    (hRun : Grammar.function (upTo k : Grammar Production) start isAsync .expression context cursor =
      .ok (node, later))
    (hName : node.child? .id = none) (hSound : cursor.IsSound) (hSize : 0 < context.size)
    (hOrigin : origin.Passes asyncs cursor)
    (hAsyncs : ∀ lexeme ∈ asyncs, lexeme.is "async" = true)
    (hLength : asyncs.length = isAsync.toNat)
    (hSince : isAsync = true → Feature.asyncFunctions.since ≤ context.year) :
    ∃ isGenerator head params arrows block nodes body atParams atArrow atBody atEnd,
      FunctionParts k context node origin later isAsync isGenerator false head params arrows block
        nodes body atParams atArrow atBody atEnd := by
  obtain ⟨_, _, hExpect, hRest⟩ := exists_of_run hRun
  obtain ⟨hWord, rfl⟩ := eq_past_of_expect hExpect
  obtain ⟨word, hIs, hPasses⟩ := Cursor.exists_passes_of_atText hWord
  have hParts : ∀ {isGenerator : Bool} {stars : List Lexeme} {between : Cursor},
      cursor.past.Passes stars between → (∀ lexeme ∈ stars, lexeme.is "*" = true) →
      stars.length = isGenerator.toNat →
      (isGenerator = true → Feature.generators.since ≤ context.year) →
      (do
        let name ← nameFor .expression
        let parts ← paramsAndBody (upTo k) isAsync isGenerator
        finish Role.expression.functionKind start
          (functionFields name parts.1 parts.2 isAsync isGenerator false) : Production Node)
        context between = .ok (node, later) →
      ∃ isGenerator head params arrows block nodes body atParams atArrow atBody atEnd,
        FunctionParts k context node origin later isAsync isGenerator false head params arrows block
          nodes body atParams atArrow atBody atEnd := by
    intro isGenerator stars between hStars hAllStars hCount hGenerators hRun
    obtain ⟨name, atParams, hNameFor, hRun⟩ := exists_of_run hRun
    obtain ⟨⟨nodes, body⟩, atEnd, hParts, hFinish⟩ := exists_of_run hRun
    cases hFinish
    obtain rfl : name = none := hName
    obtain rfl := eq_of_nameFor hNameFor
    obtain ⟨nodes, atBody, hParams, hBlock⟩ := exists_of_run
      (show (do return (← Grammar.params (upTo k), ← block (upTo k)) : Production _)
        (context.ofFunction isAsync isGenerator) atParams = _ from hParts)
    obtain ⟨body, _, hBody, ⟨⟩⟩ := exists_of_run hBlock
    have hSound' := (hSound.of_eq_append hPasses.rest_eq).of_eq_append hStars.rest_eq
    obtain ⟨params, hParamsRest, -⟩ :=
      brackets_params (context.ofFunction isAsync isGenerator) _ hSound' hSize _ _ hParams
    obtain ⟨block, hBlockRest, -⟩ := brackets_block (context.ofFunction isAsync isGenerator) _
      (hSound'.of_eq_append hParamsRest) hSize _ _ hBody
    have hHead := (hOrigin.trans hPasses).trans hStars
    rw [List.append_assoc] at hHead
    exact ⟨isGenerator, _, params, [], block, nodes, body, atParams, atBody, atBody, atEnd,
      { form := .function hAsyncs hLength hIs hAllStars hCount
        passesHead := hHead
        runsParams := .parenthesized hParams hParamsRest
        passesArrows := .refl _
        runsBlock := hBody
        block_eq := hBlockRest
        ends := ⟨rfl, rfl⟩
        fields_eq := rfl
        async_since := hSince
        generator_since := hGenerators }⟩
  rw [get_bind_eq] at hRest
  by_cases hStar : cursor.past.atText "*" = true
  · simp only [hStar, if_true] at hRest
    obtain ⟨_, _, ⟨⟩, hRest⟩ := exists_of_run hRest
    obtain ⟨_, _, hRequire, hRest⟩ := exists_of_run hRest
    obtain ⟨hGenerators, rfl⟩ := since_le_of_require hRequire
    obtain ⟨_, _, ⟨⟩, hRest⟩ := exists_of_run hRest
    obtain ⟨star, hIsStar, hPasses'⟩ := Cursor.exists_passes_of_atText hStar
    exact hParts hPasses' (by simpa using hIsStar) rfl (fun _ => hGenerators) hRest
  · simp only [hStar] at hRest
    exact hParts (.refl _) (by simp) rfl (fun h => (Bool.false_ne_true h).elim) hRest

/-- An arrow function with a block. A single parameter may stand without parentheses. -/
theorem exists_of_arrowFunction
    (hRun : arrowFunction (upTo k : Grammar Production) isAsync context cursor = .ok (node, later))
    (hAsync : isAsync = true → cursor.atText "async" = true)
    (hBlock : ∃ body, node.child? .body = some body ∧ body.kind = .blockStatement)
    (hSound : cursor.IsSound) (hSize : 0 < context.size) :
    ∃ isBare head params arrows block nodes body atParams atArrow atBody atEnd,
      FunctionParts k context node cursor later isAsync false isBare head params arrows block
        nodes body atParams atArrow atBody atEnd := by
  obtain ⟨start, _, ⟨⟩, hRest⟩ := exists_of_run hRun
  obtain ⟨_, _, hRequire, hRest⟩ := exists_of_run hRest
  obtain ⟨-, rfl⟩ := since_le_of_require hRequire
  generalize (cursor.current?.map fun token => token.span.start).getD context.size = start at hRest
  have hParts : ∀ {isBare : Bool} {asyncs params : List Lexeme} {nodes : List Node}
      {atParams atArrow : Cursor}, cursor.Passes asyncs atParams →
      (∀ lexeme ∈ asyncs, lexeme.is "async" = true) → asyncs.length = isAsync.toNat →
      (isAsync = true → Feature.asyncFunctions.since ≤ context.year) →
      RunsParams k (context.ofFunction isAsync false) isBare atParams nodes params atArrow →
      atArrow.IsSound →
      (do
        expect "=>"
        let found ← arrowBody (upTo k) isAsync
        finish .arrowFunctionExpression start
          (functionFields none nodes found.1 isAsync false found.2) : Production Node)
        context atArrow = .ok (node, later) →
      ∃ isBare head params arrows block nodes body atParams atArrow atBody atEnd,
        FunctionParts k context node cursor later isAsync false isBare head params arrows block
          nodes body atParams atArrow atBody atEnd := by
    intro isBare asyncs params nodes atParams atArrow hPasses hAsyncs hLength hSince hParams hSound
      hRun
    obtain ⟨_, _, hExpect, hRun⟩ := exists_of_run hRun
    obtain ⟨hArrow, rfl⟩ := eq_past_of_expect hExpect
    obtain ⟨arrow, hIs, hPasses'⟩ := Cursor.exists_passes_of_atText hArrow
    obtain ⟨⟨body, isExpression⟩, atEnd, hBody, hFinish⟩ := exists_of_run hRun
    cases hFinish
    obtain ⟨_, hSame, hKind⟩ := hBlock
    obtain rfl := Option.some.inj hSame
    unfold arrowBody at hBody
    rw [keepingIn_eq, get_bind_eq] at hBody
    split at hBody
    · obtain ⟨_, _, hInner, ⟨⟩⟩ := exists_of_run hBody
      obtain ⟨block, hBlockRest, -⟩ := brackets_block (context.ofFunction isAsync false) _
        (hSound.of_eq_append hPasses'.rest_eq) hSize _ _ hInner
      exact ⟨isBare, asyncs, params, [arrow], block, nodes, _, atParams, atArrow, atArrow.past,
        atEnd,
        { form := .arrow hAsyncs hLength hIs rfl
          passesHead := hPasses
          runsParams := hParams
          passesArrows := hPasses'
          runsBlock := hInner
          block_eq := hBlockRest
          ends := ⟨rfl, rfl⟩
          fields_eq := rfl
          async_since := hSince
          generator_since := fun h => (Bool.false_ne_true h).elim }⟩
    · obtain ⟨_, _, hInner, ⟨⟩⟩ := exists_of_run hBody
      have hExpression := ((shapes_upTo k).assignment _ _ _ _ hInner).accepted
      rw [hKind] at hExpression
      cases hExpression
  have hAll : ∀ {asyncs : List Lexeme} {atParams : Cursor}, cursor.Passes asyncs atParams →
      (∀ lexeme ∈ asyncs, lexeme.is "async" = true) → asyncs.length = isAsync.toNat →
      (isAsync = true → Feature.asyncFunctions.since ≤ context.year) →
      (do
        let params ←
          if (← get).atText "(" then inFunction isAsync false (Grammar.params (upTo k))
          else (fun param => [param]) <$> identifier
        expect "=>"
        let found ← arrowBody (upTo k) isAsync
        finish .arrowFunctionExpression start
          (functionFields none params found.1 isAsync false found.2) : Production Node)
        context atParams = .ok (node, later) →
      ∃ isBare head params arrows block nodes body atParams atArrow atBody atEnd,
        FunctionParts k context node cursor later isAsync false isBare head params arrows block
          nodes body atParams atArrow atBody atEnd := by
    intro asyncs atParams hPasses hAsyncs hLength hSince hRun
    have hSound' := hSound.of_eq_append hPasses.rest_eq
    rw [get_bind_eq] at hRun
    by_cases hText : atParams.atText "(" = true
    · simp only [hText, if_true] at hRun
      obtain ⟨nodes, atArrow, hParams, hRun⟩ := exists_of_run hRun
      obtain ⟨params, hParamsRest, -⟩ :=
        brackets_params (context.ofFunction isAsync false) _ hSound' hSize _ _ hParams
      exact hParts hPasses hAsyncs hLength hSince (.parenthesized hParams hParamsRest)
        (hSound'.of_eq_append hParamsRest) hRun
    · simp only [hText] at hRun
      obtain ⟨_, atArrow, hParams, hRun⟩ := exists_of_run hRun
      obtain ⟨param, _, hParam, ⟨⟩⟩ := exists_of_run
        (show (do return [← identifier] : Production _) context atParams = _ from hParams)
      obtain ⟨lexeme, hPasses', hKind, rfl⟩ := exists_of_identifier hParam
      exact hParts hPasses hAsyncs hLength hSince (.bare hPasses' hKind)
        (hSound'.of_eq_append hPasses'.rest_eq) hRun
  cases isAsync with
  | true =>
      simp only [if_true] at hRest
      obtain ⟨_, _, hRequire, hRest⟩ := exists_of_run hRest
      obtain ⟨hSince, rfl⟩ := since_le_of_require hRequire
      obtain ⟨_, _, ⟨⟩, hRest⟩ := exists_of_run hRest
      obtain ⟨word, hIs, hPasses⟩ := Cursor.exists_passes_of_atText (hAsync rfl)
      exact hAll hPasses (by simpa using hIs) rfl (fun _ => hSince) hRest
  | false =>
      simp only [Bool.false_eq_true, if_false] at hRest
      exact hAll (.refl _) (by simp) rfl (fun h => (Bool.false_ne_true h).elim) hRest

theorem gives_arrowFunction_kind {G : Grammar Production} :
    Gives (arrowFunction G isAsync) fun node => node.kind = .arrowFunctionExpression :=
  .skip fun _ => .skip fun _ => .optional_two <| .skip fun _ => .skip_either fun _ =>
    .skip fun _ => .skip fun _ => .finish fun _ _ => rfl

/-- A function without a name whose body is a block. -/
theorem RunsValue.exists_functionParts {levels : Nat}
    (h : RunsValue levels context cursor node later)
    (hKind : node.kind = .functionExpression ∧ node.child? .id = none ∨
      node.kind = .arrowFunctionExpression ∧
        ∃ body, node.child? .body = some body ∧ body.kind = .blockStatement)
    (hSound : cursor.IsSound) (hSize : 0 < context.size) :
    ∃ k isAsync isGenerator isBare head params arrows block nodes body atParams atArrow atBody atEnd,
      k ≤ levels ∧ FunctionParts k context node cursor later isAsync isGenerator isBare head params
        arrows block nodes body atParams atArrow atBody atEnd := by
  cases h with
  | @function k token isAsync hLevel hToken hAsync hRun =>
      have hFunction := gives_function_kind _ _ _ _ hRun
      obtain ⟨-, hName⟩ | ⟨hArrow, -⟩ := hKind
      case inr => exact absurd (hFunction.symm.trans hArrow) (by decide)
      cases isAsync with
      | true =>
          obtain ⟨hText, hSince⟩ := hAsync rfl
          obtain ⟨word, hIs, hPasses⟩ := Cursor.exists_passes_of_atText hText
          obtain ⟨_, _, _, _, _, _, _, _, _, _, _, hParts⟩ := exists_of_function
            (by simpa using hRun) hName (hSound.of_eq_append hPasses.rest_eq) hSize hPasses
            (by simpa using hIs) rfl fun _ => hSince
          exact ⟨_, _, _, _, _, _, _, _, _, _, _, _, _, _, hLevel, hParts⟩
      | false =>
          obtain ⟨_, _, _, _, _, _, _, _, _, _, _, hParts⟩ := exists_of_function
            (by simpa using hRun) hName hSound hSize (.refl _) (by simp) rfl
            fun h => (Bool.false_ne_true h).elim
          exact ⟨_, _, _, _, _, _, _, _, _, _, _, _, _, _, hLevel, hParts⟩
  | @arrow k isAsync hLevel hAsync hRun =>
      have hArrow := gives_arrowFunction_kind _ _ _ _ hRun
      obtain ⟨hFunction, -⟩ | ⟨-, hBlock⟩ := hKind
      case inl => exact absurd (hArrow.symm.trans hFunction) (by decide)
      obtain ⟨_, _, _, _, _, _, _, _, _, _, _, hParts⟩ :=
        exists_of_arrowFunction hRun hAsync hBlock hSound hSize
      exact ⟨_, _, _, _, _, _, _, _, _, _, _, _, _, _, hLevel, hParts⟩
  | name hRun =>
      have hVariable := gives_identifier_kind _ _ _ _ hRun
      rcases hKind with ⟨hFunction, -⟩ | ⟨hArrow, -⟩
      · exact absurd (hVariable.symm.trans hFunction) (by decide)
      · exact absurd (hVariable.symm.trans hArrow) (by decide)

end EcmaLint
