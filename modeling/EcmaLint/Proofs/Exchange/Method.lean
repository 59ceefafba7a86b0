import EcmaLint.Proofs.Exchange.Conversion
import EcmaLint.Proofs.Token.Assembly

/-! Methods as text and as lexemes. The parts of a property whose value is a function cut its text
into chunks, and the chunks of a method that is put together from them have the lexemes off which
the method is read. -/
namespace EcmaLint

open Grammar Lexer Production

section Parts

variable {k n : Nat} {context inner : Context} {cursor later first last : Cursor}
  {atColon atParams atArrow atBody atEnd : Cursor} {property key value body : Node}
  {nodes : List Node} {lexemes : List Lexeme} {lexeme : Lexeme}
  {computed isAsync isGenerator isBare : Bool} {colon : Lexeme}
  {keys opens middle closes head params arrows block : List Lexeme}

/-- Parameters stand in parentheses. -/
theorem exists_lexemes_of_params
    (hRun : Grammar.params (upTo k : Grammar Production) context cursor = .ok (nodes, later))
    (hRest : cursor.rest = lexemes ++ later.rest) (hSound : cursor.IsSound) (hSize : 0 < context.size) :
    ∃ opening inner closing, lexemes = opening :: (inner ++ [closing]) ∧
      opening.is "(" = true ∧ closing.is ")" = true := by
  obtain ⟨_, _, hExpect, hRun⟩ := exists_of_run hRun
  obtain ⟨hText, rfl⟩ := eq_past_of_expect hExpect
  obtain ⟨opening, hOpening, hPasses⟩ := Cursor.exists_passes_of_atText hText
  obtain ⟨_, between, hParams, hRun⟩ := exists_of_run hRun
  obtain ⟨_, _, hExpect, ⟨⟩⟩ := exists_of_run hRun
  obtain ⟨hText', rfl⟩ := eq_past_of_expect hExpect
  obtain ⟨closing, hClosing, hPasses'⟩ := Cursor.exists_passes_of_atText hText'
  have hBrackets : Brackets (iterate (paramsTurn (upTo k)) []) :=
    Exchange.MirrorsEverywhere.brackets fun _ hG => hG.iterate_paramsTurn
  obtain ⟨taken, hTaken, -⟩ :=
    hBrackets context _ (hSound.of_eq_append hPasses.rest_eq) hSize _ _ hParams
  refine ⟨opening, taken, closing, ?_, hOpening, hClosing⟩
  rw [hPasses.rest_eq, hTaken, hPasses'.rest_eq] at hRest
  exact List.append_cancel_right (by simpa using hRest.symm)

/-- A block stands in braces. -/
theorem exists_lexemes_of_block
    (hRun : Grammar.block (upTo k : Grammar Production) context cursor = .ok (body, later))
    (hRest : cursor.rest = lexemes ++ later.rest) (hSound : cursor.IsSound) (hSize : 0 < context.size) :
    ∃ opening inner closing, lexemes = opening :: (inner ++ [closing]) ∧
      opening.is "\x7b" = true ∧ closing.is "\x7d" = true := by
  obtain ⟨_, _, ⟨⟩, hRun⟩ := exists_of_run hRun
  obtain ⟨_, _, hExpect, hRun⟩ := exists_of_run hRun
  obtain ⟨hText, rfl⟩ := eq_past_of_expect hExpect
  obtain ⟨opening, hOpening, hPasses⟩ := Cursor.exists_passes_of_atText hText
  obtain ⟨_, between, hBody, hRun⟩ := exists_of_run hRun
  have hText' := Exchange.Mirrored.yields_iterate_blockTurn _ _ hBody
  obtain ⟨closing, hClosing, hPasses'⟩ := Cursor.exists_passes_of_atText hText'
  obtain ⟨_, _, hBump, hFinish⟩ := exists_of_run hRun
  rw [bump_eq] at hBump
  cases hBump
  cases hFinish
  replace hRest : cursor.rest = lexemes ++ between.past.rest := hRest
  have hBrackets : Brackets (iterate (blockTurn (upTo k)) []) :=
    Exchange.MirrorsEverywhere.brackets fun _ hG => hG.iterate_blockTurn
  obtain ⟨taken, hTaken, -⟩ :=
    hBrackets context _ (hSound.of_eq_append hPasses.rest_eq) hSize _ _ hBody
  refine ⟨opening, taken, closing, ?_, hOpening, hClosing⟩
  rw [hPasses.rest_eq, hTaken, hPasses'.rest_eq] at hRest
  exact List.append_cancel_right (by simpa using hRest.symm)

/-- A name starts with a letter, a digit, a point or a quote. -/
theorem Token.IsName.head_not_mem {token : Token} (h : token.IsName) (hSpelt : token.IsSpelt) :
    ∀ c ∈ token.text.toList.head?, c ∉ ['/', '*', '='] ++ ['`', '{', '}'] := by
  have hAll : ((['/', '*', '='] ++ ['`', '{', '}']).all fun c => !Text.isWordStart c &&
      (!c.isDigit && !(['.', '"', '\''].contains c))) = true := by decide +kernel
  have hMarks : ∀ c ∈ ['/', '*', '='] ++ ['`', '{', '}'], Text.isWordStart c = false ∧
      c.isDigit = false ∧ c ∉ ['.', '"', '\''] := by
    intro c hc
    have hNot := List.all_eq_true.mp hAll c hc
    simpa [and_assoc] using hNot
  unfold Token.IsSpelt at hSpelt
  unfold Token.IsName Token.isWord at h
  generalize token.kind = kind at hSpelt h
  generalize token.text.toList = text at hSpelt
  intro d hd hMark
  obtain ⟨hWord, hDigit, hOther⟩ := hMarks d hMark
  cases hSpelt with
  | word hStart =>
      cases hd
      exact Bool.false_ne_true (hWord.symm.trans hStart)
  | number hIsDigit =>
      cases hd
      exact Bool.false_ne_true (hDigit.symm.trans hIsDigit)
  | fraction =>
      cases hd
      exact hOther (by decide)
  | string hQuote =>
      cases hd
      rcases hQuote with rfl | rfl <;> exact hOther (by decide)
  | template | regularExpression | punctuator => simp at h

/-- A key starts with a name or with a bracket. -/
theorem ReadsKey.head_not_mem (h : ReadsKey key computed keys)
    (hSpelt : ∀ lexeme ∈ keys, lexeme.token.IsSpelt) :
    ∃ lexeme ∈ keys.head?, ∀ c ∈ lexeme.token.text.toList.head?, c ∉ ['/', '*', '='] := by
  cases h with
  | @plain lexeme hName =>
      refine ⟨lexeme, rfl, fun c hc hMark => ?_⟩
      exact hName.head_not_mem (hSpelt lexeme List.mem_cons_self) c hc (List.mem_append_left _ hMark)
  | @computed opening closing opens middle closes hOpening =>
      refine ⟨opening, rfl, ?_⟩
      rw [Lexeme.text_eq_of_is hOpening]
      rintro _ ⟨⟩
      decide

/-- A key is one token, or it ends with a bracket. -/
theorem ReadsKey.last_eq (h : ReadsKey key computed keys) :
    (∃ lexeme, keys = [lexeme]) ∨ ∃ lexeme ∈ keys.getLast?, lexeme.token.text = "]" := by
  cases h with
  | @plain lexeme => exact .inl ⟨lexeme, rfl⟩
  | @computed opening closing opens middle closes hOpening hOpens hBounds hCloses hClosing =>
      exact .inr ⟨closing, List.getLast?_concat, Lexeme.text_eq_of_is hClosing⟩

/-- A key starts where its first token does, or behind its bracket. -/
theorem ReadsKey.start_le (h : ReadsKey key computed keys)
    (hOrder : Token.InOrder (keys.map Lexeme.token)) :
    ∀ lexeme ∈ keys.head?, lexeme.token.span.start ≤ key.span.start := by
  rintro lexeme hFirst
  cases h with
  | plain hName hSpan =>
      obtain rfl := Option.some.inj hFirst
      exact (congrArg Span.start hSpan).ge
  | computed hOpening hOpens hBounds hCloses hClosing =>
      obtain rfl := Option.some.inj hFirst
      obtain ⟨⟨start, hStart, hStartEq⟩, -⟩ := hBounds
      rw [← hStartEq]
      exact hOrder.start_le_of_head? rfl (by
        have hMem := List.mem_of_mem_head? (Option.mem_def.mpr hStart)
        simp only [List.map_append, List.map_cons, List.cons_append, List.mem_cons, List.mem_append]
        exact .inr (.inl (.inl (.inr hMem))))

/-- Parameters start and end with parentheses, or they are a single variable. -/
theorem RunsParams.ends (h : RunsParams k context isBare cursor nodes lexemes later)
    (hSound : cursor.IsSound) (hSize : 0 < context.size)
    (hSpelt : ∀ lexeme ∈ cursor.rest, lexeme.token.IsSpelt) :
    if isBare then ∃ lexeme, lexemes = [lexeme] ∧ lexeme.token.kind = .identifier ∧
        lexeme.token.IsSpelt
      else (∃ lexeme ∈ lexemes.head?, lexeme.token.text = "(") ∧
        ∃ lexeme ∈ lexemes.getLast?, lexeme.token.text = ")" := by
  cases h with
  | parenthesized hRun hRest =>
      obtain ⟨opening, inner, closing, rfl, hOpening, hClosing⟩ :=
        exists_lexemes_of_params hRun hRest hSound hSize
      exact ⟨⟨opening, rfl, Lexeme.text_eq_of_is hOpening⟩,
        closing, @List.getLast?_concat _ (opening :: inner) _, Lexeme.text_eq_of_is hClosing⟩
  | @bare cursor later lexeme id hPasses hKind =>
      exact ⟨lexeme, rfl, hKind, hSpelt lexeme (by simp [hPasses.rest_eq])⟩

/-- What stands before the parameters and the body of a function is one of a few words and marks. -/
theorem FunctionForm.is_mem {kind : NodeKind}
    (h : FunctionForm isAsync isGenerator isBare kind head arrows) :
    (∀ lexeme ∈ head ++ arrows, ∃ text ∈ ["async", "function", "*", "=>"],
      lexeme.is text = true) ∧ (isBare = true → arrows ≠ []) := by
  cases h with
  | function hAsyncs hLength hWord hStars =>
      refine ⟨fun lexeme hLexeme => ?_, by simp⟩
      simp only [List.append_nil, List.mem_append, List.mem_cons] at hLexeme
      rcases hLexeme with hAsync | rfl | hStar
      · exact ⟨"async", by simp, hAsyncs lexeme hAsync⟩
      · exact ⟨"function", by simp, hWord⟩
      · exact ⟨"*", by simp, hStars lexeme hStar⟩
  | arrow hAsyncs hLength hArrow =>
      refine ⟨fun lexeme hLexeme => ?_, by simp⟩
      rcases List.mem_append.mp hLexeme with hAsync | hLast
      · exact ⟨"async", by simp, hAsyncs lexeme hAsync⟩
      · exact ⟨"=>", by simp, List.mem_singleton.mp hLast ▸ hArrow⟩

/-- How the lexemes look of a property whose value is a function. -/
theorem methodLexemes_of_parts
    (hProperty : PropertyParts n context cursor property later key value computed keys colon opens
      middle closes inner atColon first last)
    (hFunction : FunctionParts k inner value first last isAsync isGenerator isBare head params
      arrows block nodes body atParams atArrow atBody atEnd)
    (hSound : cursor.IsSound) (hSize : 0 < context.size)
    (hSpelt : ∀ lexeme ∈ cursor.rest, lexeme.token.IsSpelt) :
    MethodLexemes isBare keys (colon :: (opens ++ head)) params arrows block closes := by
  have hUnwraps := hProperty.unwraps
  have hKeySpelt : ∀ lexeme ∈ keys, lexeme.token.IsSpelt := fun lexeme hLexeme =>
    hSpelt lexeme (hProperty.keys_eq ▸ List.mem_append_left _ hLexeme)
  have hSoundFirst := ((hSound.of_eq_append hProperty.keys_eq).of_eq_append
    hProperty.passesColon.rest_eq).of_eq_append hUnwraps.passesOpens.rest_eq
  have hSoundParams := hSoundFirst.of_eq_append hFunction.passesHead.rest_eq
  have hSoundBody := (hSoundParams.of_eq_append hFunction.runsParams.rest_eq).of_eq_append
    hFunction.passesArrows.rest_eq
  have hInnerSize : 0 < (inner.ofFunction isAsync isGenerator).size :=
    hUnwraps.contains.size_eq ▸ hSize
  obtain ⟨opening, inside, closing, hBlock, hOpening, hClosing⟩ :=
    exists_lexemes_of_block hFunction.runsBlock hFunction.block_eq hSoundBody hInnerSize
  have hParamSpelt : ∀ lexeme ∈ atParams.rest, lexeme.token.IsSpelt := fun lexeme hLexeme =>
    hSpelt lexeme (by
      rw [hProperty.keys_eq, hProperty.passesColon.rest_eq, hUnwraps.passesOpens.rest_eq,
        hFunction.passesHead.rest_eq]
      simp [hLexeme])
  have hParams := hFunction.runsParams.ends hSoundParams hInnerSize hParamSpelt
  obtain ⟨hForm, hArrows⟩ := hFunction.form.is_mem
  exact
    { key_first := hProperty.readsKey.head_not_mem hKeySpelt
      key_last := hProperty.readsKey.last_eq
      head_first := ⟨colon, rfl, Lexeme.text_eq_of_is hProperty.colon_is⟩
      plain := by
        have hAll : ((["async", "function", "*", "=>"] ++ [":", "(", ")"]).all fun text =>
            text.toList.head?.all fun c => !(['`', '{', '}'].contains c)) = true := by
          decide +kernel
        suffices hIs : ∀ lexeme ∈ colon :: (opens ++ head) ++ arrows ++ closes,
            ∃ text ∈ ["async", "function", "*", "=>"] ++ [":", "(", ")"],
              lexeme.is text = true by
          intro lexeme hLexeme c hc
          obtain ⟨text, hText, hIs⟩ := hIs lexeme hLexeme
          have hNot := List.all_eq_true.mp hAll text hText
          rw [← Lexeme.text_eq_of_is hIs, Option.mem_def.mp hc] at hNot
          simpa using hNot
        intro lexeme hLexeme
        simp only [List.cons_append, List.mem_cons, List.mem_append] at hLexeme
        have hMiddle : lexeme ∈ head ++ arrows →
            ∃ text ∈ ["async", "function", "*", "=>"] ++ [":", "(", ")"],
              lexeme.is text = true := by
          intro hIn
          obtain ⟨text, hText, hIs⟩ := hForm lexeme hIn
          exact ⟨text, List.mem_append_left _ hText, hIs⟩
        rcases hLexeme with rfl | ((hOpens | hHead) | hArrow) | hCloses
        · exact ⟨":", by simp, hProperty.colon_is⟩
        · exact ⟨"(", by simp, hUnwraps.opens_is lexeme hOpens⟩
        · exact hMiddle (List.mem_append_left _ hHead)
        · exact hMiddle (List.mem_append_right _ hArrow)
        · exact ⟨")", by simp, hUnwraps.closes_is lexeme hCloses⟩
      params_first := fun h => by
        rw [h, if_neg Bool.false_ne_true] at hParams
        exact hParams.1
      params_last := fun h => by
        rw [h, if_neg Bool.false_ne_true] at hParams
        exact hParams.2
      params_bare := fun h => by
        rw [h, if_pos rfl] at hParams
        exact ⟨hArrows h, hParams⟩
      block_first := ⟨opening, by rw [hBlock]; rfl, Lexeme.text_eq_of_is hOpening⟩
      block_last := ⟨closing, hBlock ▸ @List.getLast?_concat _ (opening :: inside) _,
        Lexeme.text_eq_of_is hClosing⟩ }

end Parts

namespace Exchange

/-- In front of the key stand modifiers, with no line end between them and the key. -/
theorem exists_lexemes_modifierChunks (offset : Nat) (newline : Option Bool)
    (isAsync isGenerator : Bool) :
    ∃ asyncs stars, lexemes offset newline (modifierChunks isAsync isGenerator) = asyncs ++ stars ∧
      (∀ lexeme ∈ asyncs, lexeme.is "async" = true) ∧ asyncs.length = isAsync.toNat ∧
      (∀ lexeme ∈ stars, lexeme.is "*" = true) ∧ stars.length = isGenerator.toNat ∧
      (isAsync = true → (∀ lexeme ∈ stars, lexeme.newlineBefore = false) ∧
        newlineAfter newline (modifierChunks isAsync isGenerator) = some false) := by
  have hLine : endsLineIn [' '] = false := by decide +kernel
  cases isAsync with
  | true =>
      cases isGenerator with
      | true => exact ⟨[_], [_], rfl, by simp; rfl, rfl, by simp; rfl, rfl, by simp [hLine]; rfl⟩
      | false =>
          exact ⟨[_], [], rfl, by simp; rfl, rfl, by simp, rfl, by
            simp [newlineAfter, modifierChunks, Chunk.word, Chunk.space, hLine]⟩
  | false =>
      cases isGenerator with
      | true => exact ⟨[], [_], rfl, by simp, rfl, by simp; rfl, rfl, by simp⟩
      | false => exact ⟨[], [], rfl, by simp, rfl, by simp, rfl, by simp⟩

/-- Parameters stand in parentheses of their own or in new ones. -/
theorem exists_lexemes_paramsChunks (offset : Nat) (newline : Option Bool) (isBare : Bool)
    (params : List Chunk) :
    ∃ opens closes newOffset newNewline, lexemes offset newline (paramsChunks isBare params) =
        opens ++ (lexemes newOffset newNewline params ++ closes) ∧
      (∀ lexeme ∈ opens, lexeme.is "(" = true) ∧ opens.length = isBare.toNat ∧
      (∀ lexeme ∈ closes, lexeme.is ")" = true) ∧ closes.length = isBare.toNat ∧
      offset ≤ newOffset ∧ newOffset + Text.byteLength (text params) ≤
        offset + Text.byteLength (text (paramsChunks isBare params)) := by
  cases isBare with
  | false =>
      exact ⟨[], [], offset, newline, by simp [paramsChunks], by simp, rfl, by simp, rfl,
        Nat.le_refl _, Nat.le_refl _⟩
  | true =>
      have hSize : Text.byteLength (text (paramsChunks true params)) =
          1 + (Text.byteLength (text params) + 1) := by
        rw [paramsChunks, if_pos rfl, text_cons, text_append, Text.byteLength_append,
          Text.byteLength_append]
        rfl
      refine ⟨lexemes offset newline [.mark '('],
        lexemes (offset + 1 + Text.byteLength (text params)) (newlineAfter (some false) params)
          [.mark ')'], offset + 1, some false, ?_, ?_, rfl, ?_, rfl, Nat.le_succ _, by omega⟩
      · rw [paramsChunks, if_pos rfl, ← List.singleton_append, lexemes_append, lexemes_append]
        rfl
      · rintro _ ⟨⟩
        · rfl
        · contradiction
      · rintro _ ⟨⟩
        · rfl
        · contradiction

/-- Where a stretch and its copy stand. -/
structure Stretch.Within (stretch : Stretch) (offset stop newStop : Nat) : Prop where
  le_start : offset ≤ stretch.start
  stop_le : stretch.stop ≤ stop
  le_newStart : offset ≤ stretch.newStart
  newStop_le : stretch.newStop ≤ newStop

/-- The lexemes of a method are copies of those of a key, of parameters and of a body, with
modifiers and parentheses. -/
theorem exists_methodText {isArrow : Bool} {lead : List Char}
    {front key head params arrow block closes : List Chunk}
    {keys heads paramLexemes arrows blocks closings : List Lexeme}
    (h : MethodCut isArrow lead front key head params arrow block closes keys heads paramLexemes
      arrows blocks closings) (isAsync isGenerator isBare : Bool) (newline : Option Bool) :
    ∃ asyncs stars keyStretch opens paramStretch closes' blockStretch,
      MethodText isAsync isGenerator isBare asyncs stars keyStretch opens paramStretch closes'
        blockStretch ∧
      lexemes (Text.byteLength (lead ++ text front)) newline
          (methodChunks isAsync isGenerator isBare key params block) =
        asyncs ++ (stars ++ (keyStretch.copies ++ (opens ++ (paramStretch.copies ++
          (closes' ++ blockStretch.copies))))) ∧
      keyStretch.lexemes = keys ∧ paramStretch.lexemes = paramLexemes ∧
      blockStretch.lexemes = blocks ∧
      keyStretch.start = Text.byteLength (lead ++ text front) ∧
      ∀ stretch ∈ [keyStretch, paramStretch, blockStretch],
        stretch.Within (Text.byteLength (lead ++ text front))
          (Text.byteLength (lead ++ text (front ++ (key ++ (head ++ (params ++ (arrow ++
            (block ++ closes))))))))
          (Text.byteLength (lead ++ text (front ++
            methodChunks isAsync isGenerator isBare key params block))) := by
  obtain ⟨keyNewline, hKeys⟩ := h.keys_hold
  obtain ⟨paramNewline, hParams⟩ := h.params_hold
  obtain ⟨blockNewline, hBlocks⟩ := h.blocks_hold
  have hSome : ∀ offset newline chunks, EndsWithToken chunks →
      lexemes offset newline chunks ≠ [] := by
    intro offset newline chunks hEnds
    obtain ⟨init, lexeme, hLexemes, -⟩ :=
      @exists_lexeme_of_endsWithToken offset newline _ hEnds
    simp [hLexemes]
  have hLength : ∀ front chunks, Text.byteLength (lead ++ text (front ++ chunks)) =
      Text.byteLength (lead ++ text front) + Text.byteLength (text chunks) :=
    byteLength_text_append lead
  have hText : ∀ first second : List Chunk, Text.byteLength (text (first ++ second)) =
      Text.byteLength (text first) + Text.byteLength (text second) := by simp
  obtain ⟨asyncs, stars, hModifiers, hAsyncs, hAsyncsLength, hStars, hStarsLength, hLine⟩ :=
    exists_lexemes_modifierChunks (Text.byteLength (lead ++ text front)) newline isAsync isGenerator
  rw [methodChunks, lexemes_append, lexemes_append, lexemes_append, hModifiers]
  generalize hBefore : modifierChunks isAsync isGenerator = modifiers at *
  obtain ⟨opens, closes', newOffset, newNewline, hCopies, hOpens, hOpensLength, hCloses,
    hClosesLength, hLe, hStop⟩ := exists_lexemes_paramsChunks
      (Text.byteLength (lead ++ text front) + Text.byteLength (text modifiers) +
        Text.byteLength (text key)) (newlineAfter (newlineAfter newline modifiers) key) isBare params
  rw [hCopies]
  refine ⟨asyncs, stars, .ofChunks _ _ keyNewline _ key, opens,
    .ofChunks _ newOffset paramNewline newNewline params, closes',
    .ofChunks _ _ blockNewline _ block, ?_, by simp only [List.append_assoc]; rfl, hKeys, hParams,
    hBlocks, rfl, ?_⟩
  · exact
      { asyncs_is := hAsyncs
        asyncs_length := hAsyncsLength
        stars_is := hStars
        stars_length := hStarsLength
        sameLine := by
          intro hAsync
          obtain ⟨hStarLines, hAfter⟩ := hLine hAsync
          cases stars with
          | cons star =>
              rintro _ ⟨⟩
              exact hStarLines star List.mem_cons_self
          | nil =>
              obtain ⟨⟨_, first⟩, rest, kind, rfl, rfl⟩ := h.key_starts
              rw [hAfter]
              rintro _ ⟨⟩
              rfl
        keys_moved := Stretch.isMoved_ofChunks (hSome _ _ _ h.key_ends)
        opens_is := hOpens
        opens_length := hOpensLength
        params_moved := Stretch.isMoved_ofChunks (hSome _ _ _ h.params_ends)
        closes_is := hCloses
        closes_length := hClosesLength
        block_moved := Stretch.isMoved_ofChunks (hSome _ _ _ h.block_ends)
        keys_params := by
          dsimp only [Stretch.ofChunks]
          simp only [hLength]
          omega
        params_block := by
          dsimp only [Stretch.ofChunks]
          simp only [hLength]
          omega }
  · simp only [List.forall_mem_cons, List.not_mem_nil, false_imp_iff, implies_true, and_true]
    refine ⟨⟨?_, ?_, ?_, ?_⟩, ⟨?_, ?_, ?_, ?_⟩, ⟨?_, ?_, ?_, ?_⟩⟩ <;>
      simp only [Stretch.ofChunks, hLength, hText] <;> omega

end Exchange

end EcmaLint
