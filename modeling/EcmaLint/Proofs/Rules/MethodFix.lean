import EcmaLint.Proofs.Edit.Merge
import EcmaLint.Proofs.Exchange.Method
import EcmaLint.Rules.ObjectShorthand.Basic

/-! The text of a method. The tokens that the conversion of a property to a method looks for are
those between the parts of the property, so the text that it comes to is that of the chunks of a
method. -/
namespace EcmaLint

open Lexer

namespace SourceCode

variable {source : SourceCode} {span : Span} {before after : List Token} {next : Token}

/-- Before a span that starts with a token the tokens in front of it are looked through. -/
theorem tokenBeforeWhere?_eq (hTokens : source.tokens = before ++ after)
    (hOrder : Token.InOrder source.tokens)
    (hStart : ∃ token ∈ after.head?, token.span.start = span.start) (test : Token → Bool) :
    source.tokenBeforeWhere? span test = before.reverse.find? test := by
  obtain ⟨first, hFirst, hStart⟩ := hStart
  obtain ⟨rest, rfl⟩ := List.head?_eq_some_iff.mp hFirst
  rw [hTokens] at hOrder
  have hNonempty := hOrder.nonempty first (by simp)
  rw [tokenBeforeWhere?, hTokens, List.takeWhile_append_of_pos, List.takeWhile_cons_of_neg,
    List.append_nil]
  · simp only [decide_eq_true_eq]
    omega
  · intro token hToken
    have hApart := hOrder.stop_le_start hToken List.mem_cons_self
    simpa [← hStart] using hApart

/-- Before a span that starts with a token stands the one in front of it. -/
theorem tokenBefore?_eq (hTokens : source.tokens = before ++ after)
    (hOrder : Token.InOrder source.tokens)
    (hStart : ∃ token ∈ after.head?, token.span.start = span.start) :
    source.tokenBefore? span = before.getLast? := by
  rw [tokenBefore?, tokenBeforeWhere?_eq hTokens hOrder hStart, ← List.head?_reverse]
  cases before.reverse <;> rfl

/-- Behind a span that ends with a token stands the next one. -/
theorem tokenAfter?_eq (hTokens : source.tokens = before ++ next :: after)
    (hOrder : Token.InOrder source.tokens)
    (hStop : ∃ token ∈ before.getLast?, token.span.stop = span.stop) :
    source.tokenAfter? span = some next := by
  obtain ⟨last, hLast, hStop⟩ := hStop
  rw [hTokens] at hOrder
  have hApart := hOrder.stop_le_start (List.mem_of_getLast? hLast) (List.mem_cons_self (l := after))
  rw [tokenAfter?, tokenAfterWhere?, hTokens, List.dropWhile_append_of_pos,
    List.dropWhile_cons_of_neg]
  · rfl
  · simp only [decide_eq_true_eq]
    omega
  · intro token hToken
    have hNonempty := hOrder.nonempty token (List.mem_append_left _ hToken)
    have hStops := hOrder.append_left.stop_le_of_getLast? hLast hToken
    simp only [decide_eq_true_eq]
    omega

end SourceCode

namespace Lexer

variable {source : SourceCode} {lead : List Char} {front chunks back : List Chunk}
  {found : List Lexeme}

/-- The text of chunks is found where they stand. -/
theorem textOf_eq {lead : List Char} {front chunks : List Chunk} (back : List Chunk)
    (hText : source.text.toList = lead ++ text (front ++ (chunks ++ back))) :
    source.textOf ⟨Text.byteLength (lead ++ text front),
      Text.byteLength (lead ++ text (front ++ chunks))⟩ = String.ofList (text chunks) := by
  have hSource : source.text.toList = (lead ++ text front) ++ text chunks ++ text back := by
    simp [hText]
  rw [SourceCode.textOf, byteLength_text_append, Cuts.text?_of_append hSource]
  rfl

/-- A fix that puts the text of chunks in the place of others makes the text that has them there. -/
theorem applyTo?_exchange {source : String} {lead : List Char} {front out back : List Chunk}
    (hText : source.toList = lead ++ text (front ++ (out ++ back))) (into : List Chunk) :
    (⟨⟨Text.byteLength (lead ++ text front), Text.byteLength (lead ++ text (front ++ out))⟩,
      String.ofList (text into)⟩ : Fix).applyTo? source =
        some (String.ofList (lead ++ text (front ++ (into ++ back)))) := by
  have hSource : source = String.ofList (lead ++ text front ++ text out ++ text back) := by
    rw [← String.toList_inj, hText, String.toList_ofList]
    simp
  rw [hSource, Fix.applyTo?_ofList rfl (byteLength_text_append lead front out).symm,
    String.toList_ofList]
  simp

theorem Holds.exists_head (h : Holds lead front chunks found) (hStarts : StartsWithToken chunks) :
    ∃ lexeme ∈ found.head?, lexeme.token.span.start = Text.byteLength (lead ++ text front) := by
  obtain ⟨newline, rfl⟩ := h
  obtain ⟨lexeme, rest, hLexemes, hStart⟩ :=
    @exists_lexeme_of_startsWithToken (Text.byteLength (lead ++ text front)) newline _ hStarts
  exact ⟨lexeme, by rw [hLexemes]; rfl, hStart⟩

theorem Holds.exists_last (h : Holds lead front chunks found) (hEnds : EndsWithToken chunks) :
    ∃ lexeme ∈ found.getLast?,
      lexeme.token.span.stop = Text.byteLength (lead ++ text (front ++ chunks)) := by
  obtain ⟨newline, rfl⟩ := h
  obtain ⟨init, lexeme, hLexemes, hStop⟩ :=
    @exists_lexeme_of_endsWithToken (Text.byteLength (lead ++ text front)) newline _ hEnds
  exact ⟨lexeme, by rw [hLexemes]; exact List.getLast?_concat, by
    rw [hStop, byteLength_text_append]⟩

/-- A span that ends with a stretch ends where the stretch does. -/
theorem Holds.stop_eq (h : Holds lead front chunks found) (hEnds : EndsWithToken chunks)
    {span : Span} (init : List Lexeme) (hBounds : span.Bounds ((init ++ found).map Lexeme.token)) :
    span.stop = Text.byteLength (lead ++ text (front ++ chunks)) := by
  obtain ⟨lexeme, hLast, hStop⟩ := h.exists_last hEnds
  obtain ⟨token, hToken, hSpan⟩ := hBounds.last
  rw [List.map_append, List.getLast?_append, List.getLast?_map, Option.mem_def.mp hLast,
    Option.map_some, Option.some_or] at hToken
  rw [← hSpan, ← Option.some.inj hToken, hStop]

end Lexer

namespace Rules.ObjectShorthand

variable {n k : Nat} {context inner : Context} {cursor later first last : Cursor}
  {atColon atParams atArrow atBody atEnd : Cursor} {property key value body : Node}
  {nodes : List Node} {computed isAsync isGenerator isBare : Bool} {colon : Lexeme}
  {keys opens middle closes head params arrows block before behind : List Lexeme}
  {source : SourceCode}

/-- The tokens of a key in front of a value are found, with its brackets. -/
theorem keyTokens?_eq_of_readsKey {between : List Lexeme} (hKey : property.child? .key = some key)
    (hValue : property.child? .value = some value) (hComputed : property.flag .computed = computed)
    (hReads : ReadsKey key computed keys) (hSpelt : ∀ lexeme ∈ keys, lexeme.token.IsSpelt)
    (hTokens : source.tokens = (before ++ (keys ++ (between ++ behind))).map Lexeme.token)
    (hOrder : Token.InOrder source.tokens)
    (hStart : ∃ token ∈ (behind.map Lexeme.token).head?, token.span.start = value.span.start) :
    ∃ first ∈ keys.head?, ∃ last ∈ keys.getLast?,
      keyTokens? source property = some (first.token, last.token) := by
  unfold keyTokens?
  rw [hKey, hComputed, hValue]
  cases hReads with
  | @plain lexeme hName hSpan =>
      have hIn : source.tokensIn key.span = [lexeme.token] := by
        have hSplit : source.tokens = before.map Lexeme.token ++ [lexeme.token] ++
            (between ++ behind).map Lexeme.token := by
          simp [hTokens]
        refine SourceCode.tokensIn_eq hSplit hOrder ?_
        exact hSpan ▸ ⟨⟨_, rfl, rfl⟩, ⟨_, rfl, rfl⟩⟩
      refine ⟨lexeme, rfl, lexeme, rfl, ?_⟩
      simp [SourceCode.firstToken?, SourceCode.lastToken?, hIn]
  | @computed opening closing keyOpens keyMiddle keyCloses hOpening hOpens hBounds hCloses hClosing =>
      have hMark : ∀ lexeme : Lexeme, lexeme ∈ opening :: (keyOpens ++ keyMiddle ++ keyCloses) ++
          [closing] → ∀ text ∈ symbols, lexeme.is text = true →
            lexeme.token.isPunctuator text = true := by
        intro lexeme hLexeme text hText hIs
        rw [Token.isPunctuator, Lexeme.kind_eq_punctuator (hSpelt lexeme hLexeme) hIs hText,
          Lexeme.text_eq_of_is hIs]
        simp
      have hNot : ∀ lexeme : Lexeme, ∀ text other : String, lexeme.is text = true → text ≠ other →
          lexeme.token.isPunctuator other = false := by
        intro lexeme text other hIs hNe
        simp [Token.isPunctuator, Lexeme.text_eq_of_is hIs, hNe]
      obtain ⟨⟨start, hFirst, hStartEq⟩, ⟨stop, hStop, hStopEq⟩⟩ := hBounds
      have hOpeningFound : source.tokenBeforeWhere? key.span
          (fun token => token.isPunctuator "[") = some opening.token := by
        have hSplit : source.tokens = (before ++ opening :: keyOpens).map Lexeme.token ++
            (keyMiddle ++ (keyCloses ++ closing :: (between ++ behind))).map Lexeme.token := by
          simp [hTokens]
        rw [SourceCode.tokenBeforeWhere?_eq hSplit hOrder]
        · refine List.find?_eq_some_iff_append.mpr ⟨hMark opening (by simp) _ (by decide) hOpening,
            (keyOpens.map Lexeme.token).reverse, (before.map Lexeme.token).reverse, by simp, ?_⟩
          intro token hToken
          obtain ⟨lexeme, hLexeme, rfl⟩ := List.mem_map.mp (List.mem_reverse.mp hToken)
          simpa using hNot lexeme _ _ (hOpens lexeme hLexeme) (by decide)
        · exact ⟨start, by rw [List.map_append, List.head?_append, hFirst]; rfl, hStartEq⟩
      have hBetween : source.tokensBetween key.span value.span =
          (keyCloses ++ closing :: between).map Lexeme.token := by
        have hSplit : source.tokens =
            (before ++ opening :: (keyOpens ++ keyMiddle)).map Lexeme.token ++
              ((keyCloses ++ closing :: between).map Lexeme.token ++
                behind.map Lexeme.token) := by
          simp [hTokens]
        refine SourceCode.tokensBetween_eq hSplit hOrder ⟨stop, ?_, hStopEq⟩ hStart
        rw [show before ++ opening :: (keyOpens ++ keyMiddle) =
          (before ++ opening :: keyOpens) ++ keyMiddle by simp, List.map_append,
          List.getLast?_append, hStop]
        rfl
      have hClosingFound : (source.tokensBetween key.span value.span).find?
          (fun token => token.isPunctuator "]") = some closing.token := by
        rw [hBetween]
        refine List.find?_eq_some_iff_append.mpr ⟨hMark closing (by simp) _ (by decide) hClosing,
          keyCloses.map Lexeme.token, between.map Lexeme.token, by simp, ?_⟩
        intro token hToken
        obtain ⟨lexeme, hLexeme, rfl⟩ := List.mem_map.mp hToken
        simpa using hNot lexeme _ _ (hCloses lexeme hLexeme) (by decide)
      refine ⟨opening, rfl, closing, List.getLast?_concat, ?_⟩
      simp [hOpeningFound, hClosingFound]

/-- The tokens of the key of a property are found. -/
theorem keyTokens?_eq
    (hProperty : PropertyParts n context cursor property later key value computed keys colon opens
      middle closes inner atColon first last)
    (hSpelt : ∀ lexeme ∈ cursor.rest, lexeme.token.IsSpelt)
    (hTokens : source.tokens = (before ++ cursor.rest).map Lexeme.token)
    (hOrder : Token.InOrder source.tokens) :
    ∃ first ∈ keys.head?, ∃ last ∈ keys.getLast?,
      keyTokens? source property = some (first.token, last.token) := by
  have hKey : property.child? .key = some key := by
    rw [Node.child?, Node.field?, hProperty.fields_eq]
    rfl
  have hValue : property.child? .value = some value := by
    rw [Node.child?, Node.field?, hProperty.fields_eq]
    rfl
  have hComputed : property.flag .computed = computed := by
    rw [Node.flag, Node.field?, hProperty.fields_eq]
    rfl
  obtain ⟨⟨start, hStart, hStartEq⟩, -⟩ := hProperty.unwraps.bounds
  have hSplit : source.tokens = (before ++ (keys ++ ((colon :: opens) ++ (middle ++ (closes ++
      later.rest))))).map Lexeme.token := by
    rw [hTokens, hProperty.rest_eq]
    simp
  refine keyTokens?_eq_of_readsKey hKey hValue hComputed hProperty.readsKey (fun lexeme hLexeme =>
    hSpelt lexeme (hProperty.keys_eq ▸ List.mem_append_left _ hLexeme)) hSplit hOrder
      ⟨start, ?_, hStartEq⟩
  rw [List.map_append, List.head?_append, hStart]
  rfl

end Rules.ObjectShorthand

namespace Rules.ObjectShorthand

variable {source : SourceCode} {lead : List Char}
  {front key head params arrow block closes more : List Chunk}
  {keys heads paramLexemes arrows blocks closings opens before behind : List Lexeme}
  {colon : Lexeme} {value : Node} {isAsync isGenerator isBare : Bool}

/-- The text behind the word `function` and the star. -/
theorem functionTail?_eq
    (hCut : MethodCut false lead front key head params arrow block closes keys
      (colon :: (opens ++ heads)) paramLexemes arrows blocks closings)
    (hText : source.text.toList =
      lead ++ text (front ++ (key ++ (head ++ (params ++ (arrow ++ (block ++ more)))))))
    (hTokens : source.tokens = (before ++ (heads ++ (paramLexemes ++ (arrows ++ (blocks ++
      behind))))).map Lexeme.token)
    (hOrder : Token.InOrder source.tokens) (hSpelt : ∀ lexeme ∈ heads, lexeme.token.IsSpelt)
    (hForm : FunctionForm isAsync isGenerator isBare .functionExpression heads arrows)
    (hGenerator : value.flag .generator = isGenerator)
    (hBounds : value.span.Bounds
      ((heads ++ (paramLexemes ++ (arrows ++ blocks))).map Lexeme.token)) :
    functionTail? source value = some (String.ofList (text (params ++ block))) := by
  have hIn : source.tokensIn value.span =
      (heads ++ (paramLexemes ++ (arrows ++ blocks))).map Lexeme.token := by
    have hSplit : source.tokens = before.map Lexeme.token ++
        (heads ++ (paramLexemes ++ (arrows ++ blocks))).map Lexeme.token ++
          behind.map Lexeme.token := by
      simp [hTokens]
    exact SourceCode.tokensIn_eq hSplit hOrder hBounds
  have hStop : value.span.stop =
      Text.byteLength (lead ++ text (front ++ key ++ head ++ (params ++ block))) := by
    have hEnd := hCut.blocks_hold.stop_eq hCut.block_ends (heads ++ (paramLexemes ++ arrows))
      (by simpa using hBounds)
    rw [hEnd, hCut.arrow_nil rfl]
    simp
  have hTail : source.textOf ⟨Text.byteLength (lead ++ text (front ++ key ++ head)), value.span.stop⟩ =
      String.ofList (text (params ++ block)) := by
    rw [hStop]
    refine textOf_eq more ?_
    rw [hText, hCut.arrow_nil rfl]
    simp
  -- the last token in front of the parameters
  obtain ⟨last, hLast, hLastStop⟩ := hCut.heads_hold.exists_last (hCut.head_ends rfl)
  unfold functionTail? SourceCode.firstTokenWhere?
  rw [hIn, hGenerator]
  cases hForm with
  | @function asyncs stars word hAsyncs hLength hWord hStars hCount =>
      have hFound : ((asyncs ++ word :: stars ++ (paramLexemes ++ ([] ++ blocks))).map
          Lexeme.token).find? (fun token => token.isKeyword "function") = some word.token := by
        refine List.find?_eq_some_iff_append.mpr ⟨?_, asyncs.map Lexeme.token,
          (stars ++ (paramLexemes ++ blocks)).map Lexeme.token, by simp, ?_⟩
        · rw [Token.isKeyword, Lexeme.text_eq_of_is hWord,
            Lexeme.kind_eq_ofWord (hSpelt word (by simp)) hWord ⟨'f', rfl, by decide +kernel⟩]
          decide +kernel
        · intro token hToken
          obtain ⟨lexeme, hLexeme, rfl⟩ := List.mem_map.mp hToken
          simp [Token.isKeyword, Lexeme.text_eq_of_is (hAsyncs lexeme hLexeme)]
      rw [hFound]
      cases isGenerator with
      | true =>
          obtain ⟨star, rfl⟩ := List.length_eq_one_iff.mp hCount
          have hAfter : source.tokenAfter? word.token.span = some star.token := by
            have hSplit : source.tokens = (before ++ (asyncs ++ [word])).map Lexeme.token ++
                star.token :: (paramLexemes ++ (blocks ++ behind)).map Lexeme.token := by
              simp [hTokens]
            refine SourceCode.tokenAfter?_eq hSplit hOrder ⟨word.token, ?_, rfl⟩
            simp
          obtain rfl : star = last := by simpa [List.getLast?_cons] using hLast
          change (source.tokenAfter? word.token.span).bind (fun token =>
            some (source.textOf ⟨token.span.stop, value.span.stop⟩)) = _
          rw [hAfter]
          exact congrArg some (hLastStop ▸ hTail)
      | false =>
          obtain rfl := List.length_eq_zero_iff.mp hCount
          obtain rfl : word = last := by simpa [List.getLast?_cons] using hLast
          exact congrArg some (hLastStop ▸ hTail)

/-- The token in front of the parameters of an arrow function shows whether they stand in
parentheses. -/
theorem exists_beforeParams {k : Nat} {context : Context} {atParams atArrow : Cursor}
    {nodes : List Node}
    (hHolds : Holds lead (front ++ key ++ head) params paramLexemes)
    (hStarts : StartsWithToken params)
    (hTokens : source.tokens = (before ++ (heads ++ (paramLexemes ++ (arrows ++ (blocks ++
      behind))))).map Lexeme.token)
    (hOrder : Token.InOrder source.tokens) (hBefore : before ≠ [])
    (hSpelt : ∀ lexeme ∈ paramLexemes, lexeme.token.IsSpelt)
    (hHeads : ∀ lexeme ∈ heads, lexeme.is "async" = true)
    (hRuns : RunsParams k context isBare atParams nodes paramLexemes atArrow)
    (hSound : atParams.IsSound) (hSize : 0 < context.size)
    (hBounds : value.span.Bounds
      ((heads ++ (paramLexemes ++ (arrows ++ blocks))).map Lexeme.token)) :
    ∃ token, (match nodes.head? with
        | some first => source.tokenBefore? first.span
        | none => source.firstTokenWhere? value.span fun token => token.isPunctuator "(") =
          some token ∧
      (nodes.length == 1 && !(token.isPunctuator "(" && value.span.start ≤ token.span.start)) =
        isBare ∧
      (if isBare then nodes.head?.map fun param => param.span.start else some token.span.start) =
        some (Text.byteLength (lead ++ text (front ++ key ++ head))) := by
  have hHeadText : ∀ lexeme ∈ heads, lexeme.token.isPunctuator "(" = false := by
    intro lexeme hLexeme
    simp [Token.isPunctuator, Lexeme.text_eq_of_is (hHeads lexeme hLexeme)]
  obtain ⟨start, hStart, hStartEq⟩ := hHolds.exists_head hStarts
  obtain ⟨first, hFirst, hFirstEq⟩ := hBounds.head
  cases hRuns with
  | @bare atParams atArrow lexeme id hPasses hKind =>
      obtain rfl : lexeme = start := Option.some.inj hStart
      obtain ⟨init, last, hLast⟩ : ∃ init last, before ++ heads = init ++ [last] := by
        obtain ⟨init, last, hEq⟩ := (List.eq_nil_or_concat (before ++ heads)).resolve_left
          (by simp [hBefore])
        exact ⟨init, last, by rw [hEq, List.concat_eq_append]⟩
      have hSplit : source.tokens = (init ++ [last]).map Lexeme.token ++
          ([lexeme] ++ (arrows ++ (blocks ++ behind))).map Lexeme.token := by
        rw [← hLast, hTokens]
        simp
      refine ⟨last.token, ?_, ?_, congrArg some hStartEq⟩
      · change source.tokenBefore? lexeme.token.span = some last.token
        rw [SourceCode.tokenBefore?_eq hSplit hOrder ⟨_, rfl, rfl⟩]
        simp
      · suffices hNot : (last.token.isPunctuator "(" &&
            decide (value.span.start ≤ last.token.span.start)) = false by
          simp [hNot]
        by_cases hNil : heads = []
        · subst hNil
          obtain rfl : lexeme.token = first := by simpa using hFirst
          rw [hSplit] at hOrder
          have hApart := hOrder.stop_le_start (a := last.token) (b := lexeme.token) (by simp) (by simp)
          have hNonempty := hOrder.nonempty last.token (by simp)
          simp only [Bool.and_eq_false_iff, decide_eq_false_iff_not]
          omega
        · have hMem : last ∈ heads := by
            have hEnd := congrArg List.getLast? hLast
            rw [List.getLast?_append_of_ne_nil _ hNil, List.getLast?_concat] at hEnd
            exact List.mem_of_getLast? hEnd
          simp [hHeadText last hMem]
  | parenthesized hRun hRest =>
      obtain ⟨opening, inner, closing, rfl, hOpening, -⟩ :=
        exists_lexemes_of_params hRun hRest hSound hSize
      obtain rfl : opening = start := Option.some.inj hStart
      have hIs : opening.token.isPunctuator "(" = true := by
        rw [Token.isPunctuator, Lexeme.kind_eq_punctuator (hSpelt opening (by simp)) hOpening
          (by decide), Lexeme.text_eq_of_is hOpening]
        simp
      refine ⟨opening.token, ?_, ?_, congrArg some hStartEq⟩
      · cases nodes with
        | nil =>
            have hIn : source.tokensIn value.span =
                (heads ++ (opening :: (inner ++ [closing]) ++ (arrows ++ blocks))).map Lexeme.token := by
              refine @SourceCode.tokensIn_eq _ _ (before.map Lexeme.token) _
                (behind.map Lexeme.token) ?_ hOrder hBounds
              simp [hTokens]
            change source.firstTokenWhere? value.span (fun token => token.isPunctuator "(") = _
            rw [SourceCode.firstTokenWhere?, hIn]
            refine List.find?_eq_some_iff_append.mpr ⟨hIs, heads.map Lexeme.token,
              (inner ++ [closing] ++ (arrows ++ blocks)).map Lexeme.token, by simp, ?_⟩
            intro token hToken
            obtain ⟨lexeme, hLexeme, rfl⟩ := List.mem_map.mp hToken
            simp [hHeadText lexeme hLexeme]
        | cons node nodes =>
            have hNode := starts_params k context atParams _ _ hRun node rfl
            change source.tokenBefore? node.span = _
            have hSplit : source.tokens = (before ++ (heads ++ [opening])).map Lexeme.token ++
                (inner ++ ([closing] ++ (arrows ++ (blocks ++ behind)))).map Lexeme.token := by
              simp [hTokens]
            rw [SourceCode.tokenBefore?_eq hSplit hOrder]
            · simp
            · obtain ⟨next, rest, hInner⟩ : ∃ next rest, inner ++ [closing] = next :: rest :=
                List.exists_cons_of_ne_nil (by simp)
              have hPast : atParams.past.rest = next :: (rest ++ atArrow.rest) := by
                rw [hInner] at hRest
                rw [Cursor.past_of_cons (hRest.trans (List.cons_append ..))]
                rfl
              refine ⟨next.token, ?_, (hNode next.token ?_).symm⟩
              · rw [← List.append_assoc, hInner]
                rfl
              · rw [Cursor.current?, hPast]
                rfl
      · have hLe : value.span.start ≤ opening.token.span.start := by
          have hSplit : source.tokens = before.map Lexeme.token ++
              ((heads ++ (opening :: (inner ++ [closing]) ++ (arrows ++ blocks))).map Lexeme.token ++
                behind.map Lexeme.token) := by
            simp [hTokens]
          rw [hSplit] at hOrder
          rw [← hFirstEq]
          exact hOrder.append_right.append_left.start_le_of_head? hFirst (by simp)
        simp [hIs, hLe]

/-- The text of the parameters of an arrow function, in parentheses, and of its body. -/
theorem arrowTail?_eq {k : Nat} {context : Context} {atParams atArrow : Cursor}
    {nodes : List Node} {body : Node}
    (hCut : MethodCut true lead front key head params arrow block closes keys
      (colon :: (opens ++ heads)) paramLexemes arrows blocks closings)
    (hText : source.text.toList =
      lead ++ text (front ++ (key ++ (head ++ (params ++ (arrow ++ (block ++ more)))))))
    (hTokens : source.tokens = (before ++ (heads ++ (paramLexemes ++ (arrows ++ (blocks ++
      behind))))).map Lexeme.token)
    (hOrder : Token.InOrder source.tokens) (hBefore : before ≠ [])
    (hSpelt : ∀ lexeme ∈ paramLexemes ++ arrows, lexeme.token.IsSpelt)
    (hForm : FunctionForm isAsync isGenerator isBare .arrowFunctionExpression heads arrows)
    (hRuns : RunsParams k context isBare atParams nodes paramLexemes atArrow)
    (hSound : atParams.IsSound) (hSize : 0 < context.size)
    (hParams : value.list .params = nodes) (hBody : value.child? .body = some body)
    (hBodyStart : ∃ lexeme ∈ blocks.head?, lexeme.token.span.start = body.span.start)
    (hBounds : value.span.Bounds
      ((heads ++ (paramLexemes ++ (arrows ++ blocks))).map Lexeme.token)) :
    arrowTail? source value = some (String.ofList (text (paramsChunks isBare params ++ block))) := by
  cases hForm with
  | @arrow _ _ arrowLexeme hAsyncs hLength hArrow hPlain =>
      obtain ⟨token, hToken, hBare, hStart⟩ := exists_beforeParams hCut.params_hold
        (hCut.params_starts rfl) hTokens hOrder hBefore
        (fun lexeme hLexeme => hSpelt lexeme (List.mem_append_left _ hLexeme)) hAsyncs hRuns hSound
        hSize hBounds
      obtain ⟨last, hLast, hLastStop⟩ := hCut.params_hold.exists_last hCut.params_ends
      obtain ⟨arrowLast, hArrowLast, hArrowStop⟩ := hCut.arrows_hold.exists_last (hCut.arrow_ends rfl)
      obtain rfl : arrowLexeme = arrowLast := Option.some.inj hArrowLast
      have hFound : source.tokenBeforeWhere? body.span (fun token => token.isPunctuator "=>") =
          some arrowLexeme.token := by
        have hSplit : source.tokens =
            (before ++ (heads ++ (paramLexemes ++ [arrowLexeme]))).map Lexeme.token ++
              (blocks ++ behind).map Lexeme.token := by
          simp [hTokens]
        rw [SourceCode.tokenBeforeWhere?_eq hSplit hOrder]
        · have hIs : arrowLexeme.token.isPunctuator "=>" = true := by
            rw [Token.isPunctuator, Lexeme.kind_eq_punctuator (hSpelt arrowLexeme (by simp)) hArrow
              (by decide), Lexeme.text_eq_of_is hArrow]
            simp
          simp [hIs]
        · obtain ⟨lexeme, hLexeme, hEq⟩ := hBodyStart
          exact ⟨lexeme.token, by simp [Option.mem_def.mp hLexeme], hEq⟩
      have hLastFound : source.tokenBefore? arrowLexeme.token.span = some last.token := by
        have hSplit : source.tokens = (before ++ (heads ++ paramLexemes)).map Lexeme.token ++
            ([arrowLexeme] ++ (blocks ++ behind)).map Lexeme.token := by
          simp [hTokens]
        rw [SourceCode.tokenBefore?_eq hSplit hOrder ⟨_, rfl, rfl⟩]
        simp [Option.mem_def.mp hLast]
      have hParamsText : source.textOf ⟨Text.byteLength (lead ++ text (front ++ key ++ head)),
          last.token.span.stop⟩ = String.ofList (text params) := by
        rw [hLastStop]
        refine textOf_eq (arrow ++ (block ++ more)) ?_
        simp [hText]
      have hBodyText : source.textOf ⟨arrowLexeme.token.span.stop, value.span.stop⟩ =
          String.ofList (text block) := by
        rw [hArrowStop, hCut.blocks_hold.stop_eq hCut.block_ends
          (heads ++ (paramLexemes ++ [arrowLexeme])) (by simpa using hBounds)]
        refine textOf_eq more ?_
        simp [hText]
      unfold arrowTail?
      rw [hBody, hParams]
      simp only [Option.bind_eq_bind, Option.bind_some, hFound, hLastFound]
      -- the start of the parameters, and of the text that is put into parentheses
      have hTail : ∀ start, start = Text.byteLength (lead ++ text (front ++ key ++ head)) →
          (if isBare = true then
              "(" ++ source.textOf ⟨start, last.token.span.stop⟩ ++ ")" ++
                source.textOf ⟨arrowLexeme.token.span.stop, value.span.stop⟩
            else source.textOf ⟨start, last.token.span.stop⟩ ++
              source.textOf ⟨arrowLexeme.token.span.stop, value.span.stop⟩) =
            String.ofList (text (paramsChunks isBare params ++ block)) := by
        rintro _ rfl
        rw [hParamsText, hBodyText, paramsChunks, ← String.toList_inj]
        cases isBare <;> simp [Chunk.mark]
      generalize nodes.head? = first? at hToken hStart ⊢
      cases first? with
      | none =>
          dsimp only at hToken ⊢
          rw [hToken, Option.bind_some, hBare]
          cases isBare with
          | true => cases hStart
          | false => exact congrArg some (hTail _ (Option.some.inj hStart))
      | some first =>
          dsimp only at hToken ⊢
          rw [hToken, Option.bind_some, hBare]
          cases isBare with
          | true => exact congrArg some (hTail _ (Option.some.inj hStart))
          | false => exact congrArg some (hTail _ (Option.some.inj hStart))

section

variable {n k : Nat} {context inner : Context}
  {cursor later first last atColon atParams atArrow atBody atEnd : Cursor}
  {property keyNode body : Node} {computed isArrow : Bool} {middle : List Lexeme}
  {nodes : List Node} {fix : Fix}
  (hFunction : FunctionParts k inner value first last isAsync isGenerator isBare heads
    paramLexemes arrows blocks nodes body atParams atArrow atBody atEnd)
  (hCut : MethodCut isArrow lead front key head params arrow block closes keys
    (colon :: (opens ++ heads)) paramLexemes arrows blocks closings)
  (hText : source.text.toList =
    lead ++ text (front ++ (key ++ (head ++ (params ++ (arrow ++ (block ++ more)))))))
  (hOrder : Token.InOrder source.tokens)
include hFunction hCut hText hOrder

/-- The parameters and the body of a function are found. -/
theorem methodTail?_eq
    (hTokens : source.tokens = (before ++ first.rest).map Lexeme.token) (hBefore : before ≠ [])
    (hSound : first.IsSound) (hSize : 0 < inner.size)
    (hSpelt : ∀ lexeme ∈ first.rest, lexeme.token.IsSpelt)
    (hBounds : value.span.Bounds
      ((heads ++ (paramLexemes ++ (arrows ++ blocks))).map Lexeme.token)) :
    methodTail? source value = some (String.ofList (text (paramsChunks isBare params ++ block))) := by
  have hRest := hFunction.rest_eq
  rw [hRest] at hTokens hSpelt
  have hForm := hFunction.form
  by_cases hKind : value.kind = .functionExpression
  · rw [methodTail?, if_pos hKind]
    rw [hKind] at hForm
    obtain ⟨rfl, rfl⟩ : arrows = [] ∧ isBare = false := by
      cases hForm
      exact ⟨rfl, rfl⟩
    obtain rfl : isArrow = false := by
      cases isArrow
      · rfl
      · exact absurd rfl (hCut.isArrow_iff.mp rfl)
    refine functionTail?_eq hCut hText hTokens hOrder
      (fun lexeme hLexeme => hSpelt lexeme (List.mem_append_left _ hLexeme)) hForm ?_ hBounds
    rw [Node.flag, Node.field?, hFunction.fields_eq]
    rfl
  · rw [methodTail?, if_neg hKind]
    have hArrow : value.kind = .arrowFunctionExpression ∧ arrows ≠ [] := by
      generalize value.kind = kind at hKind hForm
      cases hForm with
      | function => exact absurd rfl hKind
      | arrow => exact ⟨rfl, by simp⟩
    obtain rfl : isArrow = true := hCut.isArrow_iff.mpr hArrow.2
    rw [hArrow.1] at hForm
    have hSoundParams := hSound.of_eq_append hFunction.passesHead.rest_eq
    have hSoundBody := (hSoundParams.of_eq_append hFunction.runsParams.rest_eq).of_eq_append
      hFunction.passesArrows.rest_eq
    have hBody : value.child? .body = some body := by
      rw [Node.child?, Node.field?, hFunction.fields_eq]
      rfl
    refine arrowTail?_eq hCut hText hTokens hOrder hBefore (fun lexeme hLexeme => hSpelt lexeme ?_)
      hForm hFunction.runsParams hSoundParams hSize ?_ hBody ?_ hBounds
    · rcases List.mem_append.mp hLexeme with hParams | hArrows
      · simp [hParams]
      · simp [hArrows]
    · rw [Node.list, Node.elements, Node.field?, hFunction.fields_eq]
      change (nodes.map some).filterMap id = nodes
      simp
    · obtain ⟨opening, inside, closing, hBlock, -, -⟩ := exists_lexemes_of_block
        hFunction.runsBlock hFunction.block_eq hSoundBody hSize
      refine ⟨opening, by rw [hBlock]; rfl, ?_⟩
      refine (starts_block _ _ _ _ _ hFunction.runsBlock opening.token ?_).symm
      rw [Cursor.current?, hFunction.block_eq, hBlock]
      rfl

/-- From a function the text of a method is put together whose chunks are those of its parts, if
there are no comments between the key and the function. -/
theorem toMethod?_eq_some
    (hProperty : PropertyParts n context cursor property later keyNode value computed keys colon
      opens middle closings inner atColon first last)
    (hSound : cursor.IsSound) (hSize : 0 < context.size)
    (hSpelt : ∀ lexeme ∈ cursor.rest, lexeme.token.IsSpelt)
    (hTokens : source.tokens = (before ++ cursor.rest).map Lexeme.token)
    (hFix : toMethod? source property = some fix) :
    fix = ⟨⟨Text.byteLength (lead ++ text front), property.span.stop⟩,
        String.ofList (text (methodChunks isAsync isGenerator isBare key params block))⟩ ∧
      ∃ last ∈ source.tokens, last.span.stop = Text.byteLength (lead ++ text (front ++ key)) ∧
        source.commentsExistBetween last.span value.span = false := by
  have hUnwraps := hProperty.unwraps
  have hMiddle := hFunction.middle_eq hUnwraps
  have hFirst : cursor.rest = keys ++ (colon :: opens) ++ first.rest := by
    rw [hProperty.keys_eq, hProperty.passesColon.rest_eq, hUnwraps.passesOpens.rest_eq]
    simp
  have hValue : property.child? .value = some value := by
    rw [Node.child?, Node.field?, hProperty.fields_eq]
    rfl
  have hAsync : value.flag .async = isAsync := by
    rw [Node.flag, Node.field?, hFunction.fields_eq]
    rfl
  have hGenerator : value.flag .generator = isGenerator := by
    rw [Node.flag, Node.field?, hFunction.fields_eq]
    rfl
  obtain ⟨keyFirst, hKeyFirst, hKeyStart⟩ := hCut.keys_hold.exists_head hCut.key_starts
  obtain ⟨keyLast, hKeyLast, hKeyStop⟩ := hCut.keys_hold.exists_last hCut.key_ends
  obtain ⟨_, hStart, _, hStop, hKeyTokens⟩ := keyTokens?_eq hProperty hSpelt hTokens hOrder
  obtain rfl := Option.some.inj (hKeyFirst.symm.trans hStart)
  obtain rfl := Option.some.inj (hKeyLast.symm.trans hStop)
  have hKeyText : textFromTo source keyFirst.token keyLast.token = String.ofList (text key) := by
    rw [textFromTo, hKeyStart, hKeyStop]
    exact textOf_eq _ hText
  have hTail : methodTail? source value =
      some (String.ofList (text (paramsChunks isBare params ++ block))) := by
    rw [hFirst, ← List.append_assoc] at hTokens
    refine methodTail?_eq hFunction hCut hText hOrder hTokens (by simp) ?_
      (hUnwraps.contains.size_eq ▸ hSize) ?_ (hMiddle ▸ hUnwraps.bounds)
    · exact ((hSound.of_eq_append hProperty.keys_eq).of_eq_append
        hProperty.passesColon.rest_eq).of_eq_append hUnwraps.passesOpens.rest_eq
    · exact fun lexeme hLexeme => hSpelt lexeme (by simp [hFirst, hLexeme])
  unfold toMethod? at hFix
  rw [hValue, hKeyTokens] at hFix
  simp only [Option.bind_eq_bind, Option.bind_some] at hFix
  split at hFix
  case isTrue => cases hFix
  case isFalse hComments =>
  have hLast : keyLast.token ∈ source.tokens := by
    rw [hTokens, hProperty.keys_eq]
    exact List.mem_map_of_mem (List.mem_append_right _ (List.mem_append_left _
      (List.mem_of_getLast? hKeyLast)))
  refine ⟨?_, keyLast.token, hLast, hKeyStop, Bool.eq_false_iff.mpr hComments⟩
  rw [hTail, hAsync, hGenerator, hKeyText, hKeyStart] at hFix
  obtain rfl := Option.some.inj hFix
  have hWords : ((if isAsync = true then "async " else "") ++ if isGenerator = true then "*" else "") =
      String.ofList (text (modifierChunks isAsync isGenerator)) := by
    cases isAsync <;> cases isGenerator <;> decide
  simp only [hWords, methodChunks, text_append, String.ofList_append, String.append_assoc]

end

end Rules.ObjectShorthand

end EcmaLint
