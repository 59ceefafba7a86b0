import EcmaLint.Proofs.Exchange.Shortening

/-! Long forms of properties. In front of the parameters of a method the word `function` may be put
behind its key, and behind a name alone the name again. The text is scanned then as its chunks with
the new ones between. -/
namespace EcmaLint

namespace Lexer

variable {braces : List Brace} {other : List Char}

/-- What stands between the key of a property and the parameters of its function. -/
def headerChunks (isAsync isGenerator : Bool) : List Chunk :=
  .mark ':' :: .space :: ((if isAsync then [.word ['a', 's', 'y', 'n', 'c'], .space] else []) ++
    .word ['f', 'u', 'n', 'c', 't', 'i', 'o', 'n'] :: (if isGenerator then [.mark '*'] else []))

/-- The word `function` is scanned as such in front of what nothing goes on with. -/
theorem scans_headerChunks {isAsync isGenerator : Bool} (hOther : Halts other) :
    Scans braces (headerChunks isAsync isGenerator) braces other := by
  have hStar : Scans braces (if isGenerator = true then [.mark '*'] else []) braces other := by
    cases isGenerator with
    | true =>
        refine .star fun c hc => ?_
        have hSolid := hOther c hc
        constructor <;> rintro rfl <;> exact absurd hSolid (by decide)
    | false => exact .nil
  have hFunction : Scans braces [.word ['f', 'u', 'n', 'c', 't', 'i', 'o', 'n']] braces
      (text (if isGenerator = true then [.mark '*'] else []) ++ other) := by
    have hParts : ['u', 'n', 'c', 't', 'i', 'o', 'n'].all Text.isWordPart = true := by decide +kernel
    refine .word (by decide +kernel) (List.all_eq_true.mp hParts) ?_
    cases isGenerator with
    | true =>
        rintro _ ⟨⟩
        decide +kernel
    | false => exact fun d hd => isWordPart_of_isSolid (hOther d hd)
  change Scans braces ([.mark ':'] ++ ([.space] ++ ((if isAsync then _ else _) ++ ([.word _] ++ _))))
    braces other
  exact .append .colon (.append .space (.append scans_async (.append hFunction hStar)))

/-- A text behind some chunks, cut at a key. -/
structure KeyCut (lead : List Char) (front before key behind : List Chunk)
    (modifiers keys rest : List Lexeme) : Prop where
  before_holds : Holds lead front before modifiers
  keys_hold : Holds lead (front ++ before) key keys
  key_starts : StartsWithToken key
  key_ends : EndsWithToken key
  behind_holds : Holds lead (front ++ before ++ key) behind rest

theorem exists_keyCut {lead : List Char} {front chunks : List Chunk} {newline : Option Bool}
    {modifiers keys rest : List Lexeme}
    (h : lexemes (Text.byteLength (lead ++ text front)) newline chunks = modifiers ++ (keys ++ rest))
    (hKeys : keys ≠ []) : ∃ before key behind, chunks = before ++ (key ++ behind) ∧
      KeyCut lead front before key behind modifiers keys rest := by
  obtain ⟨before, more, rfl, hStarts, hBefore, hMore⟩ := exists_cut_before h (by simp [hKeys])
  obtain ⟨key, behind, rfl, hEnds, hKey, hBehind⟩ := exists_cut_behind hMore hKeys
  rw [← byteLength_text_append] at hKey hBehind
  rw [← byteLength_text_append] at hBehind
  exact ⟨before, key, behind, rfl, ⟨_, hBefore⟩, ⟨_, hKey⟩, hStarts.of_append hEnds.ne_nil, hEnds,
    ⟨_, hBehind⟩⟩

section

variable {state final : State} {cs left : List Char} {lead : List Char}
  {front before key behind into back : List Chunk} {modifiers keys rest : List Lexeme}

/-- Without what stands in front of it a key may stand where that stood, with the word `function`
behind it. -/
theorem KeyCut.layout {source : String} {isAsync isGenerator : Bool}
    (h : KeyCut lead front before key behind modifiers keys rest)
    (hLayout : Layout source lead (front ++ (before ++ (key ++ behind))))
    (hStarts : StartsWithToken (before ++ (key ++ behind)))
    (hMark : ∃ mark ∈ (lexemes (Text.byteLength lead) none front).getLast?,
      mark.is "\x7b" = true ∨ mark.is "," = true)
    (hModifiers : ∀ lexeme ∈ modifiers, lexeme.is "async" = true ∨ lexeme.is "*" = true)
    (hFirst : ∃ lexeme ∈ keys.head?, ∀ c ∈ lexeme.token.text.toList.head?, c ∉ ['/', '*', '='])
    (hLast : (∃ lexeme, keys = [lexeme]) ∨ ∃ lexeme ∈ keys.getLast?, lexeme.token.text = "]")
    (hRest : ∃ lexeme ∈ rest.head?, lexeme.is "(" = true) :
    Layout (String.ofList (lead ++ text (front ++ (key ++ (headerChunks isAsync isGenerator ++
      behind))))) lead (front ++ (key ++ (headerChunks isAsync isGenerator ++ behind))) := by
  obtain ⟨mark, hMarkLast, hIs⟩ := hMark
  refine hLayout.exchange_scans hStarts
    ⟨mark, hMarkLast, hIs.imp Lexeme.text_eq_of_is Lexeme.text_eq_of_is⟩ fun state cs final hRun => ?_
  obtain ⟨_, _, hBefore, hRun⟩ := hRun.exists_split
  obtain ⟨_, _, hKey, hBehind⟩ := hRun.exists_split
  have hBraces := hBefore.braces_eq_of_holds h.before_holds fun lexeme hLexeme => by
    rcases hModifiers lexeme hLexeme with hIs | hIs <;> rw [Lexeme.text_eq_of_is hIs] <;>
      rintro _ ⟨⟩ <;> decide
  obtain ⟨newline, hBehindHolds⟩ := h.behind_holds
  obtain ⟨opening, hOpening, hParenthesis⟩ := hRest
  obtain ⟨more, rfl⟩ := List.head?_eq_some_iff.mp hOpening
  have hText := Lexeme.text_eq_of_is hParenthesis
  have hHalts : ∀ other, Halts (text behind ++ other) := fun other => by
    refine hBehind.halts_of_lexemes hBehindHolds ?_ other
    rw [hText]
    rintro _ ⟨⟩
    decide +kernel
  have hFree : StartsFreely behind :=
    startsFreely_of_lexemes hBehindHolds (by rw [hText]; decide)
  rw [← hBraces]
  refine .append (h.keys_hold.scans_key h.key_starts h.key_ends hFirst hLast hKey
    (hBehind.eq_append ▸ hHalts _) ?_) (.append (scans_headerChunks (hHalts _)) (.same hBehind hFree))
  rintro _ ⟨⟩
  decide +kernel

/-- Behind a name its text may stand once more, with a colon between. -/
theorem layout_of_name {source : String} {lexeme : Lexeme} {newline : Option Bool}
    (hLayout : Layout source lead (front ++ (key ++ back))) (hStarts : StartsWithToken key)
    (hEnds : EndsWithToken key)
    (hKey : lexemes (Text.byteLength (lead ++ text front)) newline key = [lexeme])
    (hIdentifier : lexeme.token.kind = .identifier) (hSpelt : lexeme.token.IsSpelt)
    (hMark : ∃ mark ∈ (lexemes (Text.byteLength lead) none front).getLast?,
      mark.is "\x7b" = true ∨ mark.is "," = true) :
    Layout (String.ofList (lead ++ text (front ++ (key ++ (.mark ':' :: .space :: (key ++ back))))))
      lead (front ++ (key ++ (.mark ':' :: .space :: (key ++ back)))) := by
  obtain ⟨mark, hMarkLast, hIs⟩ := hMark
  rw [Token.IsSpelt, hIdentifier] at hSpelt
  obtain ⟨c, rest, hText, hStart, hParts, hWord⟩ := exists_word_of_spelt hSpelt
  obtain ⟨⟨_, chunk⟩, rfl, rfl, rfl⟩ := exists_eq_singleton_of_lexemes hStarts hEnds hKey
  have hChunk : (⟨.token lexeme.token.kind, lexeme.token.text.toList⟩ : Chunk) =
      .word (c :: rest) := by
    rw [Chunk.word, ← hText, hWord, hIdentifier]
  rw [hChunk] at hLayout hStarts ⊢
  refine hLayout.exchange_scans (hStarts.append _)
    ⟨mark, hMarkLast, hIs.imp Lexeme.text_eq_of_is Lexeme.text_eq_of_is⟩ fun state cs final hRun => ?_
  have hFree : StartsFreely (.word (c :: rest) :: back) := by
    refine ⟨[], _, back, _, rfl, by simp, rfl, ?_⟩
    rintro ⟨⟩
    exact absurd hStart (by decide)
  change Scans state.braces ([.word (c :: rest)] ++ ([.mark ':'] ++ ([.space] ++
    (.word (c :: rest) :: back)))) final.braces []
  refine .append (.word hStart hParts ?_) (.append .colon (.append .space (.same hRun hFree)))
  rintro _ ⟨⟩
  decide +kernel

end

end Lexer

open Grammar Lexer Production

section

variable {k : Nat} {context : Context} {cursor : Cursor} {isAsync isGenerator : Bool}

/-- The function of a method starts with the parenthesis of its parameters. -/
theorem yields_methodFunction_opens :
    Yields (methodFunction (upTo k) isAsync isGenerator) context cursor fun value _ =>
      cursor.atText "(" = true ∧ cursor.StartsAt value.span.start := by
  have hOpens : Yields (paramsAndBody (upTo k) isAsync isGenerator) context cursor
      fun _ _ => cursor.atText "(" = true := by
    have hParams : Yields (Grammar.params (upTo k)) (context.ofFunction isAsync isGenerator) cursor
        fun _ _ => cursor.atText "(" = true := by
      refine yields_expect_past.bind ?_
      rintro _ _ ⟨h, -⟩
      exact .skip fun _ _ => .skip fun _ _ => .pure h
    exact .withReader (hParams.bind fun _ _ h => .skip fun _ _ => .pure h)
  exact .startOffset_bind fun _ hStart => hOpens.bind fun _ _ h =>
    (starts_finish hStart).imp fun _ _ hNode => ⟨h, hNode⟩

/-- A method of an object is read modifier by modifier, and then its key and its function. -/
theorem yields_property_method : Yields (Grammar.property (upTo k)) context cursor
    fun property _ => property.flag .method = true →
      ∃ modifiers key computed value atKey atParams,
        cursor.rest = modifiers ++ atKey.rest ∧
        (∀ lexeme ∈ modifiers, lexeme.is "async" = true ∨ lexeme.is "*" = true) ∧
        Grammar.propertyKey (upTo k : Grammar Production) context atKey =
          .ok ((key, computed), atParams) ∧
        atParams.atText "(" = true ∧ atParams.StartsAt value.span.start ∧
        property.fields = methodFields key value computed := by
  have hPast : ∀ {cursor : Cursor} {word : String}, cursor.atText word = true →
      ∃ lexeme, lexeme.is word = true ∧ cursor.rest = [lexeme] ++ cursor.past.rest := by
    intro cursor word hText
    obtain ⟨lexeme, hIs, hPasses⟩ := Cursor.exists_passes_of_atText hText
    exact ⟨lexeme, hIs, hPasses.rest_eq⟩
  refine .startOffset_bind fun start hStart => .get_bind ?_
  refine .optional_two ?_ ?_ fun behind (hBehind : ∃ asyncs, cursor.rest = asyncs ++ behind.rest ∧
    ∀ lexeme ∈ asyncs, lexeme.is "async" = true) => .get_bind ?_
  · intro hAsync
    refine yields_require_eq.bind ?_
    rintro _ _ ⟨-, rfl⟩
    refine yields_bump_past.imp ?_
    rintro _ _ rfl
    obtain ⟨lexeme, hIs, hRest⟩ := hPast (Bool.and_eq_true_iff.mp (Bool.and_eq_true_iff.mp hAsync).1).1
    exact ⟨[lexeme], hRest, by simpa using hIs⟩
  · exact fun _ => ⟨[], rfl, by simp⟩
  obtain ⟨asyncs, hAsyncs, hAsyncIs⟩ := hBehind
  refine .optional_three ?_ ?_ fun atKey (hAtKey : ∃ stars, behind.rest = stars ++ atKey.rest ∧
    ∀ lexeme ∈ stars, lexeme.is "*" = true) => ?_
  · intro hStar
    refine .startOffset_bind fun _ _ => yields_require_eq.bind ?_
    rintro _ _ ⟨-, rfl⟩
    refine yields_bump_past.imp ?_
    rintro _ _ rfl
    obtain ⟨lexeme, hIs, hRest⟩ := hPast hStar
    exact ⟨[lexeme], hRest, by simpa using hIs⟩
  · exact fun _ => ⟨[], rfl, by simp⟩
  obtain ⟨stars, hStars, hStarIs⟩ := hAtKey
  refine .either (fun _ => yields_accessor) (fun _ => .pure ⟨fun _ => rfl, by simp⟩)
    fun word behind' hWord => .get_bind ?_
  refine (yields_run _).bind fun ⟨key, computed⟩ atParams hKey => ?_
  cases word with
  | some word =>
      refine .bind (fun _ _ _ => trivial) fun value between _ => ?_
      rintro _ _ ⟨⟩ hMethod
      cases hMethod
  | none =>
      obtain rfl := hWord.1 rfl
      refine .get_bind (.ite (fun _ => ?_) fun _ => ?_)
      · refine yields_require_eq.bind ?_
        rintro _ _ ⟨-, rfl⟩
        refine yields_methodFunction_opens.bind fun value between hValue => ?_
        rintro _ _ ⟨⟩ -
        refine ⟨asyncs ++ stars, key, computed, value, _, atParams, ?_, ?_, hKey, hValue.1, hValue.2,
          rfl⟩
        · rw [hAsyncs, hStars, List.append_assoc]
        · exact fun lexeme hLexeme => (List.mem_append.mp hLexeme).imp (hAsyncIs lexeme)
            (hStarIs lexeme)
      refine yields_eat_cases.bind ?_
      rintro found later (⟨rfl, -, rfl⟩ | ⟨rfl, rfl⟩)
      · rw [if_pos rfl]
        refine .bind (fun _ _ _ => trivial) fun _ _ _ => ?_
        rintro _ _ ⟨⟩ hMethod
        cases hMethod
      · rw [if_neg Bool.false_ne_true]
        refine .ite (fun _ => ?_) fun _ => .unexpected
        refine .bind (fun _ _ _ => trivial) fun _ _ _ =>
          .bind (fun _ _ _ => trivial) fun _ _ _ => .either (fun _ _ _ _ => trivial)
            (fun _ _ _ _ => trivial) fun _ _ _ => ?_
        rintro _ _ ⟨⟩ hMethod
        cases hMethod

/-- A name alone is read off one word. -/
theorem yields_property_shorthand : Yields (Grammar.property (upTo k)) context cursor
    fun property _ => property.flag .shorthand = true →
      ∃ key behind, cursor.atIdentifier = true ∧
        Grammar.propertyKey (upTo k : Grammar Production) context cursor =
          .ok ((key, false), behind) ∧
        property.child? .key = some key := by
  refine .startOffset_bind fun start hStart => .get_bind ?_
  refine .optional_two ?_ ?_ fun between
    (hBetween : ¬atPropertyModifier cursor "async" = true → between = cursor) => .get_bind ?_
  · exact fun hAsync _ _ _ hNot => absurd hAsync hNot
  · exact fun _ _ => rfl
  refine .optional_three ?_ ?_ fun between'
    (hBetween' : ¬between.atText "*" = true → between' = between) => ?_
  · exact fun hStar _ _ _ hNot => absurd hStar hNot
  · exact fun _ _ => rfl
  refine .either (fun _ => yields_accessor) (fun _ => .pure ⟨fun _ => rfl, by simp⟩)
    fun word atKey hWord => .get_bind ?_
  refine (yields_run _).bind fun ⟨key, computed⟩ behind hKey => ?_
  cases word with
  | some word =>
      refine .bind (fun _ _ _ => trivial) fun value between _ => ?_
      rintro _ _ ⟨⟩ hShorthand
      cases hShorthand
  | none =>
      refine .get_bind (.ite (fun _ => ?_) fun hNot => ?_)
      · refine .bind (fun _ _ _ => trivial) fun _ _ _ => .bind (fun _ _ _ => trivial) fun _ _ _ => ?_
        rintro _ _ ⟨⟩ hShorthand
        cases hShorthand
      simp only [Bool.or_eq_true, not_or] at hNot
      obtain rfl := hBetween hNot.1.1
      obtain rfl := hBetween' hNot.1.2
      obtain rfl := hWord.1 rfl
      refine yields_eat_cases.bind ?_
      rintro found later (⟨rfl, -, rfl⟩ | ⟨rfl, rfl⟩)
      · rw [if_pos rfl]
        refine .bind (fun _ _ _ => trivial) fun _ _ _ => ?_
        rintro _ _ ⟨⟩ hShorthand
        cases hShorthand
      · rw [if_neg Bool.false_ne_true]
        refine .ite (fun hName => ?_) fun _ => .unexpected
        simp only [Bool.and_eq_true, Bool.not_eq_true'] at hName
        obtain ⟨⟨hIdentifier, rfl⟩, -⟩ := hName
        refine .bind (fun _ _ _ => trivial) fun _ _ _ =>
          .bind (fun _ _ _ => trivial) fun _ _ _ => .either (fun _ _ _ _ => trivial)
            (fun _ _ _ _ => trivial) fun _ _ _ => ?_
        rintro _ _ ⟨⟩ -
        exact ⟨key, _, hIdentifier, hKey, rfl⟩

end

namespace Exchange

/-- A method that is read off some chunks, cut at its key. -/
structure HeadReading (lead : List Char) (front chunks : List Chunk) (property : Node) where
  (keyNode value : Node)
  computed : Bool
  (modifiers keys rest : List Lexeme)
  opening : Lexeme
  (before key behind : List Chunk)
  fields_eq : property.fields = methodFields keyNode value computed
  readsKey : ReadsKey keyNode computed keys
  modifiers_are : ∀ lexeme ∈ modifiers, lexeme.is "async" = true ∨ lexeme.is "*" = true
  opening_is : opening.is "(" = true
  value_start : value.span.start = opening.token.span.start
  lexemes_eq : lexemes (Text.byteLength (lead ++ text front)) (newlineAfter none front) chunks =
    modifiers ++ (keys ++ opening :: rest)
  chunks_eq : chunks = before ++ (key ++ behind)
  cut : KeyCut lead front before key behind modifiers keys (opening :: rest)

variable {source : String} {lead : List Char} {front out back : List Chunk} {n : Nat}
  {context : Context} {cursor later : Cursor} {property : Node}

/-- What stands in front of a property and in it is read off its chunks and those behind them. -/
theorem ReadsChunks.rest_eq_lexemes
    (h : ReadsChunks lead front out back n context cursor property later) (hEnds : EndsWithToken out) :
    cursor.rest = lexemes (Text.byteLength (lead ++ text front)) (newlineAfter none front)
      (out ++ back) := by
  rw [h.rest_eq, h.later_eq, lexemes_append, newlineAfter_of_endsWithToken hEnds,
    ← byteLength_text_append]

/-- A method is cut at its key. -/
theorem ReadsChunks.exists_headReading
    (h : ReadsChunks lead front out back n context cursor property later) (hStarts : StartsWithToken out)
    (hEnds : EndsWithToken out) (hMethod : property.flag .method = true) :
    Nonempty (HeadReading lead front (out ++ back) property) := by
  obtain ⟨modifiers, keyNode, computed, value, atKey, atParams, hModifiers, hAre, hKey, hOpens,
    hValue, hFields⟩ := yields_property_method _ _ h.runs hMethod
  obtain ⟨keys, hKeys, hReads, -⟩ :=
    exists_readsKey hKey (h.sound.of_eq_append hModifiers) (h.size_pos hStarts)
  obtain ⟨opening, hOpening, hPasses⟩ := Cursor.exists_passes_of_atText hOpens
  have hAll := h.rest_eq_lexemes hEnds
  rw [hModifiers, hKeys, hPasses.rest_eq] at hAll
  have hNonempty : keys ≠ [] := by
    cases hReads <;> exact List.cons_ne_nil _ _
  obtain ⟨before, key, behind, hChunks, hCut⟩ := exists_keyCut hAll.symm hNonempty
  have hStart : value.span.start = opening.token.span.start := by
    refine hValue opening.token ?_
    rw [Cursor.current?, hPasses.rest_eq]
    rfl
  exact ⟨⟨keyNode, value, computed, modifiers, keys, atParams.past.rest, opening, before, key, behind,
    hFields, hReads, hAre, hOpening, hStart, hAll.symm, hChunks, hCut⟩⟩

/-- Without its modifiers a method may stand where it stood, with the word `function` behind the
key. -/
theorem HeadReading.layout {chunks : List Chunk} (reading : HeadReading lead front chunks property)
    (hLayout : Layout source lead (front ++ chunks)) (hStarts : StartsWithToken chunks)
    (hMark : ∃ mark ∈ (lexemes (Text.byteLength lead) none front).getLast?,
      mark.is "\x7b" = true ∨ mark.is "," = true)
    (hSpelt : ∀ lexeme ∈ reading.keys, lexeme.token.IsSpelt) (isAsync isGenerator : Bool) :
    Layout (String.ofList (lead ++ text (front ++ (reading.key ++ (headerChunks isAsync isGenerator ++
      reading.behind))))) lead (front ++ (reading.key ++ (headerChunks isAsync isGenerator ++
        reading.behind))) := by
  refine reading.cut.layout (reading.chunks_eq ▸ hLayout) (reading.chunks_eq ▸ hStarts) hMark
    reading.modifiers_are (reading.readsKey.head_not_mem hSpelt) reading.readsKey.last_eq
    ⟨_, rfl, reading.opening_is⟩

/-- A name alone is read off one token, and that is its key. -/
theorem ReadsChunks.exists_shorthand
    (h : ReadsChunks lead front out back n context cursor property later) (hStarts : StartsWithToken out)
    (hEnds : EndsWithToken out) (hShorthand : property.flag .shorthand = true) :
    ∃ keyNode lexeme key behind, property.child? .key = some keyNode ∧
      keyNode.span = lexeme.token.span ∧ lexeme.token.kind = .identifier ∧
      out ++ back = key ++ behind ∧ StartsWithToken key ∧ EndsWithToken key ∧
      lexemes (Text.byteLength (lead ++ text front)) (newlineAfter none front) key = [lexeme] := by
  obtain ⟨keyNode, atBehind, hIdentifier, hKey, hChild⟩ :=
    yields_property_shorthand _ _ h.runs hShorthand
  obtain ⟨keys, hKeys, hReads, -⟩ := exists_readsKey hKey h.sound (h.size_pos hStarts)
  cases hReads with
  | @plain lexeme hName hSpan =>
      have hAll := h.rest_eq_lexemes hEnds
      rw [hKeys] at hAll
      obtain ⟨key, behind, hChunks, hKeyEnds, hLexemes, -⟩ :=
        exists_cut_behind hAll.symm (List.cons_ne_nil lexeme [])
      have hKind : lexeme.token.kind = .identifier := by
        rw [Cursor.atIdentifier, Cursor.current?, hKeys] at hIdentifier
        simpa using hIdentifier
      exact ⟨keyNode, lexeme, key, behind, hChild, hSpan, hKind, hChunks,
        (hChunks ▸ hStarts.append back).of_append hKeyEnds.ne_nil, hKeyEnds, hLexemes⟩

end Exchange

end EcmaLint
