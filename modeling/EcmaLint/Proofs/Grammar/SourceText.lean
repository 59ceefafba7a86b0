import EcmaLint.Proofs.Grammar.Program
import EcmaLint.Proofs.Token.Literals

/-! The text that a tree keeps. A word and a literal hold what the source says under their spans,
and a piece of a template holds what is written between its delimiters. Between two pieces stands
an expression, so the pieces and the texts between them are the text of the template. -/
namespace EcmaLint

/-- Two texts that stand one behind the other, and the text between them. -/
theorem Span.text?_upTo {left right : Span} {source first last : String}
    (hFirst : left.text? source = some first) (hLast : right.text? source = some last)
    (hApart : left.stop ≤ right.start) : ∃ between, (left.upTo right).text? source = some between ∧
      Span.text? ⟨left.start, right.stop⟩ source = some (first ++ between ++ last) := by
  obtain ⟨cs, hSlice, rfl⟩ := Option.map_eq_some_iff.mp hFirst
  obtain ⟨ds, hSlice', rfl⟩ := Option.map_eq_some_iff.mp hLast
  obtain ⟨front, back, hSource, hStart, hStop⟩ := Text.slice?_eq_some_iff.mp hSlice
  obtain ⟨front', back', hSource', hStart', hStop'⟩ := Text.slice?_eq_some_iff.mp hSlice'
  have hLe : Text.byteLength (front ++ cs) ≤ Text.byteLength front' := by
    rw [Text.byteLength_append]
    omega
  obtain ⟨es, hFront, hBack⟩ := Text.exists_eq_append_of_byteLength_le
    (show front ++ cs ++ back = front' ++ (ds ++ back') by rw [← hSource, hSource']; simp) hLe
  have hLength := congrArg Text.byteLength hFront
  simp only [Text.byteLength_append] at hLength
  refine ⟨String.ofList es, ?_, ?_⟩
  · have hBetween : Text.slice? left.stop right.start source.toList = some es := by
      refine Text.slice?_eq_some_iff.mpr ⟨front ++ cs, ds ++ back', ?_, ?_, ?_⟩
      · rw [hSource, hBack]
        simp
      · rw [Text.byteLength_append]
        omega
      · omega
    exact congrArg (Option.map String.ofList) hBetween
  · have hWhole : Text.slice? left.start right.stop source.toList = some (cs ++ es ++ ds) := by
      refine Text.slice?_eq_some_iff.mpr ⟨front, back', ?_, hStart, ?_⟩
      · rw [hSource, hBack]
        simp
      · simp only [Text.byteLength_append]
        omega
    rw [Span.text?, hWhole, Option.map_some, String.ofList_append, String.ofList_append]

/-- Texts that are written in turn, the first list ahead. -/
def weave : List String → List String → String
  | piece :: pieces, gap :: gaps => piece ++ gap ++ weave pieces gaps
  | pieces, _ => String.join pieces

/-- The delimiter that a piece of a template starts with. -/
def templateOpening (isFirst : Bool) : String := if isFirst then "`" else "\x7d"

/-- The delimiter that a piece of a template ends with. -/
def templateClosing (isTail : Bool) : String := if isTail then "`" else "$\x7b"

/-- The stretches between nodes that stand one behind the other. -/
def Node.gaps (nodes : List Node) : List Span :=
  nodes.zipWith (fun left right => left.span.upTo right.span) nodes.tail

/-- Under a span stands a template, or what is left of one behind a substitution, with these pieces
and these expressions between them. -/
structure SourceCode.Weaves (source : SourceCode) (isFirst : Bool) (span : Span)
    (quasis expressions : List Node) : Prop where
  length_eq : quasis.length = expressions.length + 1
  tail_iff : ∀ index quasi, quasis[index]? = some quasi →
    (quasi.flag .tail = true ↔ index + 1 = quasis.length)
  /-- The text of a piece is what it holds, between its delimiters. -/
  piece : ∀ index quasi, quasis[index]? = some quasi → ∃ raw, quasi.text? .raw = some raw ∧
    quasi.span.text? source.text = some
      (templateOpening (isFirst && index == 0) ++ raw ++ templateClosing (quasi.flag .tail))
  /-- Between two pieces stands an expression, and no token but those of parentheses around it. -/
  substituted : ∀ index expression, expressions[index]? = some expression →
    ∃ left right, quasis[index]? = some left ∧ quasis[index + 1]? = some right ∧
      expression.IsWrapped (source.tokensBetween left.span right.span)
  /-- The pieces and the texts between them are the whole text. -/
  woven : span.text? source.text = some
    (weave (quasis.map fun quasi => source.textOf quasi.span)
      ((Node.gaps quasis).map source.textOf))

/-- What a node holds of the text is what the source says. -/
structure Node.KeepsText (node : Node) (source : SourceCode) : Prop where
  identifier : node.kind = .identifier →
    ∃ name, node.text? .ident = some name ∧ node.span.text? source.text = some name
  literal : node.kind = .literal →
    ∃ raw, node.text? .raw = some raw ∧ node.span.text? source.text = some raw
  /-- A literal with a pattern is one that was read off a regular expression. -/
  hasPattern_iff : node.kind = .literal → ((node.text? .pattern).isSome ↔
    ∃ token ∈ source.tokens, token.span = node.span ∧ token.kind = .regularExpression)
  regularExpression : node.kind = .literal → ∀ pattern, node.text? .pattern = some pattern →
    ∃ flags, node.text? .flags = some flags ∧
      node.text? .raw = some ("/" ++ pattern ++ "/" ++ flags)
  template : node.kind = .templateLiteral →
    source.Weaves true node.span (node.list .quasis) (node.list .expressions)

/-- Two tokens do not stand under one span. -/
theorem Token.InOrder.eq_of_span_eq {tokens : List Token} {first second : Token}
    (h : InOrder tokens) (hFirst : first ∈ tokens) (hSecond : second ∈ tokens)
    (hSpan : first.span = second.span) : first = second := by
  have hNonempty := h.nonempty second hSecond
  obtain ⟨front, back, rfl⟩ := List.append_of_mem hFirst
  rcases List.mem_append.mp hSecond with hFront | hRest
  · have hApart := h.stop_le_start hFront List.mem_cons_self
    rw [hSpan] at hApart
    omega
  rcases List.mem_cons.mp hRest with rfl | hBack
  · rfl
  · have hApart := (List.pairwise_cons.mp h.append_right.apart).1 second hBack
    rw [hSpan] at hApart
    omega

namespace SourceCode

variable {source : SourceCode}

/-- The tokens of a program were cut out of its text. -/
structure CutsTokens (source : SourceCode) : Prop where
  inOrder : Token.InOrder source.tokens
  text : ∀ token ∈ source.tokens, token.span.text? source.text = some token.text
  measured : ∀ token ∈ source.tokens, ∃ c rest more,
    Lexer.Measured c rest (.token token.kind) more ∧
      token.text = String.ofList (c :: rest.take more)

theorem cutsTokens_of_parse {text : String} {options : ParseOptions} {parsed : Parsed}
    (h : parse text options = .ok parsed) : CutsTokens { text, parsed } := by
  obtain ⟨out, hTokenize, hParse⟩ := exists_of_bind_eq_ok h
  obtain ⟨tree, -, ⟨⟩⟩ := exists_of_bind_eq_ok hParse
  exact ⟨(inOrder_of_tokenize hTokenize).1,
    (Lexer.cuts_of_tokenize hTokenize).token_text (List.nil_append _).symm rfl,
    Lexer.measured_of_tokenize hTokenize⟩

/-- A piece of a template has the text of its token. -/
theorem CutsTokens.piece (h : source.CutsTokens) {isFirst isTail : Bool} {token : Token}
    {quasi : Node} (hToken : token ∈ source.tokens) (hPiece : quasi.IsPiece isFirst isTail token) :
    quasi.flag .tail = isTail ∧ ∃ raw, quasi.text? .raw = some raw ∧
      quasi.span.text? source.text =
        some (templateOpening isFirst ++ raw ++ templateClosing isTail) := by
  obtain ⟨c, rest, more, hMeasured, hText⟩ := h.measured token hToken
  obtain ⟨body, opens, hWritten, -⟩ := hMeasured.exists_template hText hPiece.kind_eq
  have hTail := hPiece.tail_eq
  have hOpens := hPiece.opens
  rw [hWritten, Token.isTail_eq] at hTail
  rw [hWritten, List.head?_cons, Option.some_inj] at hOpens
  have hMade := hPiece.made
  rw [Token.templateElement_eq hWritten, hPiece.tail_eq] at hMade
  obtain ⟨id, rfl⟩ := Production.makes_store_iff.mp hMade
  refine ⟨rfl, String.ofList body, rfl, (h.text token hToken).trans (congrArg some ?_)⟩
  refine String.toList_injective ?_
  subst hTail hOpens
  rw [hWritten]
  cases isFirst <;> cases opens <;>
    simp [templateOpening, templateClosing, Lexer.templateClosing]

theorem Weaves.of_piece (h : source.CutsTokens) {isFirst : Bool} {token : Token} {quasi : Node}
    (hToken : token ∈ source.tokens) (hPiece : quasi.IsPiece isFirst true token) :
    source.Weaves isFirst token.span [quasi] [] := by
  obtain ⟨hTail, raw, hRaw, hText⟩ := h.piece hToken hPiece
  refine ⟨rfl, ?_, ?_, by simp, ?_⟩
  · rintro (_ | index) found ⟨⟩
    simpa using hTail
  · rintro (_ | index) found ⟨⟩
    exact ⟨raw, hRaw, by simpa [hTail] using hText⟩
  · rw [← hPiece.span_eq, hText]
    simp [Node.gaps, weave, textOf, hText]

/-- A piece, the text behind it with an expression in it, and the rest of the template. -/
theorem Weaves.cons (h : source.CutsTokens) {isFirst : Bool} {token next : Token}
    {front inner more : List Token} {quasi expression after : Node} {quasis expressions : List Node}
    {stop : Nat} (hTokens : source.tokens = front ++ [token] ++ (inner ++ next :: more))
    (hPiece : quasi.IsPiece isFirst false token) (hExpression : expression.IsWrapped inner)
    (hAfter : after.span = next.span)
    (hRest : source.Weaves false ⟨next.span.start, stop⟩ (after :: quasis) expressions) :
    source.Weaves isFirst ⟨token.span.start, stop⟩ (quasi :: after :: quasis)
      (expression :: expressions) := by
  have hToken : token ∈ source.tokens := by simp [hTokens]
  obtain ⟨hTail, raw, hRaw, hText⟩ := h.piece hToken hPiece
  have hSpan := hPiece.span_eq
  refine ⟨by simpa using hRest.length_eq, ?_, ?_, ?_, ?_⟩
  · rintro (_ | index) found hFound
    · obtain rfl := Option.some.inj hFound
      simp [hTail]
    · simpa using hRest.tail_iff index found (by simpa using hFound)
  · rintro (_ | index) found hFound
    · obtain rfl := Option.some.inj hFound
      exact ⟨raw, hRaw, by simpa [hTail] using hText⟩
    · simpa using hRest.piece index found (by simpa using hFound)
  · rintro (_ | index) found hFound
    · obtain rfl := Option.some.inj hFound
      refine ⟨quasi, after, rfl, rfl, ?_⟩
      rwa [tokensBetween_eq hTokens h.inOrder ⟨token, List.getLast?_concat, by rw [hSpan]⟩
        ⟨next, rfl, by rw [hAfter]⟩]
    · obtain ⟨left, right, hLeft, hRight, hWrapped⟩ :=
        hRest.substituted index found (by simpa using hFound)
      exact ⟨left, right, by simpa using hLeft, by simpa using hRight, hWrapped⟩
  · have hApart : token.span.stop ≤ next.span.start := by
      have hOrder := h.inOrder
      rw [hTokens] at hOrder
      exact hOrder.stop_le_start List.mem_concat_self (by simp)
    rw [hSpan] at hText
    obtain ⟨gap, hGap, hWhole⟩ := Span.text?_upTo hText hRest.woven hApart
    have hGap' : (token.span.upTo next.span).text? source.text = some gap := hGap
    rw [hWhole]
    simp [Node.gaps, weave, textOf, hSpan, hAfter, hText, hGap']

/-- Each turn of a template adds a piece, and the text behind it with an expression in it. -/
theorem CutsTokens.weaves (h : source.CutsTokens) {isFirst : Bool} {taken : List Token}
    {quasis expressions : List Node} (hForms : Node.FormsTemplate isFirst taken quasis expressions)
    {front back : List Token} (hTokens : source.tokens = front ++ taken ++ back) {span : Span}
    (hBounds : span.Bounds taken) : source.Weaves isFirst span quasis expressions := by
  obtain ⟨start, stop⟩ := span
  induction hForms generalizing front start with
  | close piece =>
      obtain ⟨⟨_, ⟨⟩, hStart⟩, _, ⟨⟩, hStop⟩ := hBounds
      obtain rfl : start = _ := hStart.symm
      obtain rfl : stop = _ := hStop.symm
      exact .of_piece h (by simp [hTokens]) piece
  | @cons isFirst token inner more quasi expression _ _ piece substituted rest ih =>
      obtain ⟨next, restTokens, after, later, rfl, rfl, hAfter⟩ := rest.exists_cons
      obtain ⟨⟨_, ⟨⟩, hStart⟩, last, hLast, hStop⟩ := hBounds
      obtain rfl : start = _ := hStart.symm
      have hMore : source.tokens = front ++ token :: inner ++ next :: restTokens ++ back := by
        simpa using hTokens
      have hHere : source.tokens = front ++ [token] ++ (inner ++ next :: (restTokens ++ back)) := by
        simpa using hTokens
      refine .cons h hHere piece substituted hAfter (ih hMore _ ?_)
      rw [List.getLast?_append_of_ne_nil _ (List.cons_ne_nil _ _)] at hLast
      exact ⟨⟨next, rfl, rfl⟩, last, hLast, hStop⟩

end SourceCode

namespace Node

variable {source : SourceCode} {node : Node}

theorem text?_pattern_eq_none {id : NodeId} {span : Span} {value : FieldValue} {raw : String}
    {more : List (FieldName × FieldValue)} (hMore : ∀ field ∈ more, field.1 = .bigint) :
    (mk id .literal span ((.value, value) :: (.raw, .text raw) :: more)).text? .pattern = none := by
  have hLookup : more.lookup .pattern = none := List.lookup_eq_none_iff.mpr fun field hField => by
    rw [hMore field hField]
    rfl
  have hFields : ((.value, value) :: (.raw, .text raw) :: more).lookup FieldName.pattern =
      more.lookup .pattern := rfl
  rw [text?, field?, Node.fields, hFields, hLookup]

theorem list_eq_of_field? {name : FieldName} {nodes : List Node}
    (h : node.field? name = some (.nodes nodes)) : node.list name = nodes := by
  rw [list, elements, h]
  simp [Field.nodes]

theorem Transcribes.keepsText (h : source.CutsTokens) (hNode : node.Transcribes source.tokens) :
    node.KeepsText source := by
  cases hNode with
  | other hKind =>
      obtain ⟨hWord, hLiteral, -, hTemplate⟩ := NodeKind.isVerbatim_eq_false_iff.mp hKind
      exact ⟨fun h => absurd h hWord, fun h => absurd h hLiteral, fun h => absurd h hLiteral,
        fun h => absurd h hLiteral, fun h => absurd h hTemplate⟩
  | word mem => exact ⟨fun _ => ⟨_, rfl, h.text _ mem⟩, nofun, nofun, nofun, nofun⟩
  | literal mem kind_ne more_eq =>
      refine ⟨nofun, fun _ => ⟨_, rfl, h.text _ mem⟩, fun _ => ?_, fun _ => ?_, nofun⟩
      · rw [text?_pattern_eq_none more_eq]
        refine ⟨nofun, ?_⟩
        rintro ⟨other, hOther, hSpan, hKind⟩
        exact absurd (h.inOrder.eq_of_span_eq hOther mem hSpan ▸ hKind) kind_ne
      · rw [text?_pattern_eq_none more_eq]
        nofun
  | @regularExpression token _ mem kind_eq made =>
      obtain ⟨c, rest, more, hMeasured, hText⟩ := h.measured token mem
      obtain ⟨body, flags, hWritten, hFlags⟩ := hMeasured.exists_regularExpression hText kind_eq
      rw [Token.regexLiteral_eq hWritten hFlags] at made
      obtain ⟨id, rfl⟩ := Production.makes_store_iff.mp made
      refine ⟨nofun, fun _ => ⟨_, rfl, h.text token mem⟩, fun _ => ?_, fun _ => ?_, nofun⟩
      · exact ⟨fun _ => ⟨token, mem, rfl, kind_eq⟩, fun _ => rfl⟩
      · rintro _ ⟨⟩
        refine ⟨_, rfl, congrArg some (String.toList_injective ?_)⟩
        rw [hWritten]
        simp
  | piece _ hPiece =>
      have hKind := hPiece.node_kind_eq
      constructor <;> intro h <;> simp [hKind] at h
  | template isInfix bounds forms =>
      obtain ⟨front, back, hTokens⟩ := isInfix
      have hWeaves := h.weaves forms hTokens.symm bounds
      refine ⟨nofun, nofun, nofun, nofun, fun _ => ?_⟩
      rwa [list_eq_of_field? rfl, list_eq_of_field? rfl]

end Node

/-- The tree of every program keeps the text of its words, its literals and its templates. -/
theorem parse_keepsText {source : String} {options : ParseOptions} {parsed : Parsed}
    (h : parse source options = .ok parsed) :
    ∀ node ∈ parsed.program.subtree, node.KeepsText { text := source, parsed } := by
  intro node hNode
  obtain ⟨hLies, -⟩ := lies_of_parse h
  have hTranscribes : node.Transcribes parsed.tokens := by
    rw [Node.subtree_eq] at hNode
    rcases List.mem_cons.mp hNode with rfl | hBelow
    · exact .other (by rw [hLies.kind_eq]; rfl)
    · exact (hLies.aligned node hBelow).transcribes
  exact hTranscribes.keepsText (SourceCode.cutsTokens_of_parse h)

/-- A name that is read twice, a regular expression with slashes in it, and a template with an
expression in parentheses. -/
theorem parse_keepsText_template : ∃ parsed,
    parse "(\x7b a, b: /[/]\\/x/g \x7d, `p$\x7b(c)\x7dq$\x7b 1 \x7dr`)" default = .ok parsed ∧
      (parsed.program.subtree.map Node.kind).filter NodeKind.isVerbatim =
        [.identifier, .identifier, .identifier, .literal, .templateLiteral, .templateElement,
          .templateElement, .templateElement, .identifier, .literal] ∧
      ∀ node ∈ parsed.program.subtree, node.KeepsText
        { text := "(\x7b a, b: /[/]\\/x/g \x7d, `p$\x7b(c)\x7dq$\x7b 1 \x7dr`)", parsed } := by
  have hKinds : ((parse "(\x7b a, b: /[/]\\/x/g \x7d, `p$\x7b(c)\x7dq$\x7b 1 \x7dr`)"
      default).toOption.map fun parsed =>
        (parsed.program.subtree.map Node.kind).filter NodeKind.isVerbatim) =
      some [.identifier, .identifier, .identifier, .literal, .templateLiteral, .templateElement,
        .templateElement, .templateElement, .identifier, .literal] := by
    decide +kernel
  cases hParse : parse "(\x7b a, b: /[/]\\/x/g \x7d, `p$\x7b(c)\x7dq$\x7b 1 \x7dr`)" default with
  | error cause =>
      rw [hParse] at hKinds
      cases hKinds
  | ok parsed =>
      rw [hParse] at hKinds
      exact ⟨parsed, rfl, Option.some.inj hKinds, parse_keepsText hParse⟩

end EcmaLint
