import EcmaLint.Proofs.Exchange.Property
import EcmaLint.Proofs.Exchange.Stretch
import EcmaLint.Proofs.Token.Layout

/-! A property of a text rewritten. Other chunks stand in its place, and if a property is read off
them wherever the old one was read, the new text is read like the old one up to that property. -/
namespace EcmaLint

open Grammar Lexer Node Production

namespace Exchange

/-- How offsets move outside of a stretch. -/
def Shifted (start stop newStop offset moved : Nat) : Prop :=
  offset ≤ start ∧ moved = offset ∨ stop ≤ offset ∧ moved + stop = offset + newStop

/-- How the defaults move that wait for a pattern. Those in the stretch stay in it. -/
def Defers (start stop newStop : Nat) : Stage → Nat → Nat → Prop
  | .before, offset, moved => offset < start ∧ moved = offset
  | .after, offset, moved => offset < start ∧ moved = offset ∨
      start ≤ offset ∧ offset < stop ∧ start ≤ moved ∧ moved < newStop ∨
      stop ≤ offset ∧ moved + stop = offset + newStop
  | .lost, _, _ => False

/-- Chunks of a text in the place of others. -/
def ofChunks (lead : List Char) (front out into back : List Chunk) (year : Nat) (property : Node)
    (becomes : Node → Prop) : Exchange where
  front := lexemes (Text.byteLength lead) none front
  out := lexemes (Text.byteLength (lead ++ text front)) (newlineAfter none front) out
  into := lexemes (Text.byteLength (lead ++ text front)) (newlineAfter none front) into
  back := lexemes (Text.byteLength (lead ++ text (front ++ out))) (some false) back
  newBack := lexemes (Text.byteLength (lead ++ text (front ++ into))) (some false) back
  year
  size := Text.byteLength (lead ++ text (front ++ (out ++ back)))
  newSize := Text.byteLength (lead ++ text (front ++ (into ++ back)))
  shift := Shifted (Text.byteLength (lead ++ text front))
    (Text.byteLength (lead ++ text (front ++ out))) (Text.byteLength (lead ++ text (front ++ into)))
  waits := Defers (Text.byteLength (lead ++ text front))
    (Text.byteLength (lead ++ text (front ++ out))) (Text.byteLength (lead ++ text (front ++ into)))
  property? := some property
  becomes
  known := True

/-- A text and another one that has some other chunks in the place of a property. -/
structure Rewriting (source newSource : String) (lead : List Char)
    (front out into back : List Chunk) : Prop where
  layout : Layout source lead (front ++ (out ++ back))
  newLayout : Layout newSource lead (front ++ (into ++ back))
  out_starts : StartsWithToken out
  out_ends : EndsWithToken out
  into_starts : StartsWithToken into
  into_ends : EndsWithToken into
  mark : ∃ mark ∈ (lexemes (Text.byteLength lead) none front).getLast?,
    mark.is "\x7b" = true ∨ mark.is "," = true
  /-- No spread and no end of an object stands in the place of the property. -/
  into_is : ∀ lexeme ∈ (lexemes (Text.byteLength (lead ++ text front)) (newlineAfter none front)
    into).head?, lexeme.is "\x7d" = false ∧ lexeme.is "..." = false

theorem lexemes_append_of_endsWithToken (lead : List Char) (front : List Chunk) {out : List Chunk}
    (hEnds : EndsWithToken out) (back : List Chunk) :
    lexemes (Text.byteLength lead) none (front ++ (out ++ back)) =
      lexemes (Text.byteLength lead) none front ++
        (lexemes (Text.byteLength (lead ++ text front)) (newlineAfter none front) out ++
          lexemes (Text.byteLength (lead ++ text (front ++ out))) (some false) back) := by
  rw [lexemes_append, lexemes_append, newlineAfter_of_endsWithToken hEnds, byteLength_text_append,
    Text.byteLength_append]

/-- A property spans the chunks that it is read off. -/
theorem span_of_property {n : Nat} {context : Context} {cursor later : Cursor} {property : Node}
    {offset : Nat} {newline : Option Bool} {chunks : List Chunk}
    (hRun : Grammar.property (upTo n : Grammar Production) context cursor = .ok (property, later))
    (hOrder : Token.InOrder cursor.tokens)
    (hRest : cursor.rest = lexemes offset newline chunks ++ later.rest)
    (hStarts : StartsWithToken chunks) (hEnds : EndsWithToken chunks) :
    property.span = ⟨offset, offset + Text.byteLength (text chunks)⟩ ∧
      later.previousEnd = offset + Text.byteLength (text chunks) := by
  obtain ⟨hReads, hStart, hStop⟩ := (readsNodes_upTo n).property _ _ hOrder _ _ hRun
  obtain ⟨taken, -, hTakes⟩ := hReads.takes
  have hTokens := hTakes.tokens_eq
  rw [Cursor.tokens, hRest, List.map_append] at hTokens
  obtain rfl : (lexemes offset newline chunks).map Lexeme.token = taken :=
    List.append_cancel_right hTokens
  obtain ⟨⟨first, hFirst, hFirstStart⟩, ⟨last, hLast, hLastStop⟩⟩ :=
    @bounds_lexemes offset newline _ hStarts hEnds
  have hEnd : later.previousEnd = offset + Text.byteLength (text chunks) := by
    rw [hTakes.previousEnd_eq, hLast]
    exact hLastStop
  have hBegin : property.span.start = offset := by
    refine (hStart first ?_).trans hFirstStart
    rw [Cursor.current?_eq, Cursor.tokens, hRest, List.map_append, List.head?_append, hFirst]
    rfl
  exact ⟨by rw [← hEnd, ← hStop, ← hBegin], hEnd⟩

/-- Wherever the property is read off the stretch, a converted one is read off what stands in its
place. -/
def ReadsAnew (W : Exchange) (converted : Node → Prop) : Prop :=
  ∀ n m context other cursor twin property later, n ≤ m → W.Fits context other →
    cursor.IsSound → cursor.rest = W.tail → twin.rest = W.newTail →
    List.Forall₂ (W.waits .before) cursor.shorthandDefaults twin.shorthandDefaults →
    W.property? = some property →
      Grammar.property (upTo n : Grammar Production) context cursor = .ok (property, later) →
    later.rest = W.back → (later.atText "\x7d" = true ∨ later.atText "," = true) →
    ∃ property' later',
      Grammar.property (upTo m : Grammar Production) other twin = .ok (property', later') ∧
      converted property' ∧ later'.rest = W.newBack ∧
      List.Forall₂ (W.waits .after) later.shorthandDefaults later'.shorthandDefaults

theorem forall₂_back {lead : List Char} {front out into back : List Chunk} {year : Nat}
    {property : Node} {becomes : Node → Prop} :
    List.Forall₂ (Lexeme.Alike (ofChunks lead front out into back year property becomes).shift)
      (ofChunks lead front out into back year property becomes).back
      (ofChunks lead front out into back year property becomes).newBack := by
  refine (forall₂_lexemes (Nat.le_refl _) (Nat.le_refl _) (Nat.add_comm _ _)).imp
    fun _ _ hAlike => { hAlike with start := ?_, stop := ?_ }
  · have hStart := hAlike.start
    dsimp only [ofChunks, Shifted, Moved] at hStart ⊢
    omega
  · have hStop := hAlike.stop
    dsimp only [ofChunks, Shifted, Moved] at hStop ⊢
    omega

namespace Rewriting

variable {source newSource : String} {lead : List Char} {front out into back : List Chunk}
  {year : Nat} {property : Node} {becomes : Node → Prop}
  (h : Rewriting source newSource lead front out into back)
include h

theorem isSound : (Cursor.ofChunks lead (front ++ (out ++ back))).IsSound := by
  obtain ⟨hOrder, hSpelt⟩ := h.layout.inOrder_and_isSpelt none
  exact ⟨hOrder, fun lexeme hLexeme => Lexeme.isTidy_of_isSpelt (hSpelt lexeme hLexeme)⟩

/-- Neither the property nor what stands in its place is empty. -/
theorem start_lt : Text.byteLength (lead ++ text front) < Text.byteLength (lead ++ text (front ++ out)) ∧
    Text.byteLength (lead ++ text front) < Text.byteLength (lead ++ text (front ++ into)) := by
  have hNonempty : ∀ {source chunks}, Layout source lead (front ++ (chunks ++ back)) →
      StartsWithToken chunks → EndsWithToken chunks →
      Text.byteLength (lead ++ text front) < Text.byteLength (lead ++ text (front ++ chunks)) := by
    intro source chunks hLayout hStarts hEnds
    obtain ⟨hOrder, -⟩ := hLayout.inOrder_and_isSpelt none
    rw [lexemes_append_of_endsWithToken lead front hEnds, List.map_append, List.map_append] at hOrder
    rw [byteLength_text_append]
    exact (bounds_lexemes hStarts hEnds).start_lt_stop hOrder.append_right.append_left
  exact ⟨hNonempty h.layout h.out_starts h.out_ends, hNonempty h.newLayout h.into_starts h.into_ends⟩

theorem isFair (hKind : property.kind = .property)
    (hSpan : property.span = ⟨Text.byteLength (lead ++ text front),
      Text.byteLength (lead ++ text (front ++ out))⟩)
    (hBecomes : KeepsTargets fun node other => node = property ∧ becomes other) :
    (ofChunks lead front out into back year property becomes).IsFair := by
  obtain ⟨hStart, hNewStart⟩ := h.start_lt
  have hSize := byteLength_text_append lead (front ++ out) back
  have hNewSize := byteLength_text_append lead (front ++ into) back
  rw [List.append_assoc] at hSize hNewSize
  have hOrder := h.isSound.inOrder
  rw [Cursor.tokens, Cursor.ofChunks, lexemes_append_of_endsWithToken lead front h.out_ends,
    List.map_append] at hOrder
  exact
    { near_le := by
        unfold Near
        dsimp only [ofChunks, Shifted]
        intro first moved second other hFirst hSecond
        omega
      waits_of_mem := by
        intro stage lexeme copy hAlike hNonempty hMem
        have hMoved : Shifted _ _ _ _ _ := hAlike.start
        obtain ⟨rfl, hFront⟩ | ⟨rfl, hBack⟩ := hMem
        · obtain ⟨-, hStop⟩ := bounds_of_mem_lexemes (show lexeme ∈ lexemes _ _ _ from hFront)
          rw [← Text.byteLength_append] at hStop
          dsimp only [ofChunks, Defers, Shifted] at hMoved ⊢
          omega
        · obtain ⟨hAfter, -⟩ := bounds_of_mem_lexemes (show lexeme ∈ lexemes _ _ _ from hBack)
          dsimp only [ofChunks, Defers, Shifted] at hMoved ⊢
          omega
      waits_le := by
        intro stage bound moved offset other hBound hWaits
        unfold Near at hBound
        cases stage <;> dsimp only [ofChunks, Defers, Shifted] at hBound hWaits <;> omega
      back := forall₂_back
      into_ne_nil := by
        obtain ⟨lexeme, rest, hLexemes, -⟩ := @exists_lexeme_of_startsWithToken
          (Text.byteLength (lead ++ text front)) (newlineAfter none front) _ h.into_starts
        exact fun hNil => List.cons_ne_nil _ _ (hLexemes.symm.trans hNil)
      inOrder := by
        rw [tail, List.map_append]
        rw [List.map_append] at hOrder
        exact hOrder.append_right
      property := by
        rintro _ ⟨⟩
        refine ⟨hKind, ?_⟩
        rw [hSpan, byteLength_text_append]
        exact bounds_lexemes h.out_starts h.out_ends
      into_is_eq_false := fun _ _ => h.into_is
      becomes := by
        have hSame : (ofChunks lead front out into back year property becomes).Becomes =
            fun node other => node = property ∧ becomes other := by
          funext node other
          simp [Becomes, ofChunks, eq_comm]
        exact hSame ▸ hBecomes }

/-- Both texts start alike. -/
theorem meets
    (hOut : Bracketed 0 0 (ofChunks lead front out into back year property becomes).out)
    (hInto : Bracketed 0 0 (ofChunks lead front out into back year property becomes).into) :
    (ofChunks lead front out into back year property becomes).Meets .before
      (.ofChunks lead (front ++ (out ++ back))) (.ofChunks lead (front ++ (into ++ back))) := by
  obtain ⟨mark, hLast, hIs⟩ := h.mark
  obtain ⟨init, hFront⟩ := List.getLast?_eq_some_iff.mp hLast
  have hOld := lexemes_append_of_endsWithToken lead front h.out_ends back
  have hSpelt : mark.token.IsSpelt := (h.layout.inOrder_and_isSpelt none).2 mark (by
    rw [hOld, hFront]
    simp)
  have hMark : mark.token.kind = .punctuator ∧
      (mark.token.text = "\x7b" ∨ mark.token.text = ",") := by
    rcases hIs with hBrace | hComma
    · exact ⟨Lexeme.kind_eq_punctuator hSpelt hBrace (by decide), .inl (Lexeme.text_eq_of_is hBrace)⟩
    · exact ⟨Lexeme.kind_eq_punctuator hSpelt hComma (by decide), .inr (Lexeme.text_eq_of_is hComma)⟩
  have hIsMark : mark.token.IsMark := ⟨hMark.1, by rcases hMark.2 with h | h <;> simp [h]⟩
  have hSame : ∀ lexeme : Lexeme, lexeme.Matches lexeme := fun _ => ⟨rfl, rfl, rfl⟩
  have hBack : List.Forall₂ Lexeme.Matches
      (ofChunks lead front out into back year property becomes).back
      (ofChunks lead front out into back year property becomes).newBack :=
    forall₂_back.imp fun _ _ hAlike => hAlike.toMatches
  refine ⟨h.isSound.inOrder, h.isSound.tidy, ⟨init ++ [mark], init ++ [mark], ⟨by simp, ?_, ?_, ?_⟩,
    ?_, ?_⟩, fun _ => .inl (.inl ⟨Nat.zero_le _, rfl⟩), fun _ => .nil⟩
  · exact hFront ▸ List.suffix_refl _
  · rw [← hFront]
    refine List.forall₂_same.mpr fun lexeme hLexeme => ⟨hSame lexeme, ?_, ?_⟩
    all_goals
      obtain ⟨-, hStop⟩ := bounds_of_mem_lexemes hLexeme
      have hNonempty := h.isSound.inOrder.nonempty lexeme.token (List.mem_map_of_mem (by
        rw [Cursor.ofChunks, hOld]
        exact List.mem_append_left _ hLexeme))
      rw [← Text.byteLength_append] at hStop
      exact .inl ⟨by omega, rfl⟩
  · intro n hn cursor other hRest hOther
    rw [List.length_append, List.length_singleton] at hn
    rw [List.drop_append_of_le_length (by omega), List.append_assoc] at hRest hOther
    refine looks_of_mark (List.forall₂_same.mpr fun lexeme _ => hSame lexeme) (hSame mark) hIsMark
      (fun _ lexeme rest copy _ hOpening hCopy => ?_) hRest hOther
    have hFound := arrowFollows_afterClosing_of_bracketed hCopy hOpening hMark hOut hInto hBack
    exact hFound
  · rw [← hFront]
    exact hOld
  · rw [← hFront]
    exact lexemes_append_of_endsWithToken lead front h.into_ends back

theorem rereads {converted : Node → Prop}
    (hAnew : (ofChunks lead front out into back year property fun other => converted other ∧
      other.span = ⟨Text.byteLength (lead ++ text front),
        Text.byteLength (lead ++ text (front ++ into))⟩).ReadsAnew converted)
    {n m : Nat} (hLevels : n ≤ m) :
    (ofChunks lead front out into back year property fun other => converted other ∧
      other.span = ⟨Text.byteLength (lead ++ text front),
        Text.byteLength (lead ++ text (front ++ into))⟩).Rereads (upTo n) (upTo m) := by
  intro context other cursor twin node later hFits hEdge _ hProperty hRun hLater hEnds
  obtain ⟨property', later', hRun', hConverted, hLater', hDefaults⟩ :=
    hAnew n m context other cursor twin node later hLevels hFits ⟨hEdge.inOrder, hEdge.tidy⟩
      hEdge.rest_eq hEdge.twin_rest_eq hEdge.defaults hProperty hRun hLater hEnds
  obtain rfl : property = node := Option.some.inj hProperty
  have hNewOrder : Token.InOrder twin.tokens := by
    have hOrder := (h.newLayout.inOrder_and_isSpelt none).1
    rw [lexemes_append_of_endsWithToken lead front h.into_ends, List.map_append] at hOrder
    rw [Cursor.tokens, hEdge.twin_rest_eq]
    exact hOrder.append_right
  have hRest := hEdge.rest_eq
  have hNewRest := hEdge.twin_rest_eq
  rw [tail, ← hLater] at hRest
  rw [newTail, ← hLater'] at hNewRest
  obtain ⟨-, hEnd⟩ := span_of_property hRun hEdge.inOrder hRest h.out_starts h.out_ends
  obtain ⟨hSpan, hNewEnd⟩ := span_of_property hRun' hNewOrder hNewRest h.into_starts h.into_ends
  rw [← byteLength_text_append] at hEnd hSpan hNewEnd
  have hSound := Cursor.IsSound.of_eq_append ⟨hEdge.inOrder, hEdge.tidy⟩ hRest
  refine ⟨property', later', hRun', ⟨hConverted, hSpan⟩, hSound.inOrder, hSound.tidy,
    ⟨hLater ▸ List.suffix_refl _, ?_, trivial⟩, fun _ => .inl (.inr ⟨hEnd.ge, ?_⟩), fun _ => hDefaults⟩
  · rw [hLater, hLater']
    exact forall₂_back
  · rw [hEnd, hNewEnd, Nat.add_comm]

variable {options : ParseOptions} {parsed : Parsed} {object : Node} {converted : Node → Prop}

/-- If a converted property is read off the new chunks, the new text is read like the old one. -/
theorem exists_parse (hParse : parse source options = .ok parsed)
    (hObject : object ∈ forest [parsed.program]) (hObjectKind : object.kind = .objectExpression)
    (hChild : property ∈ object.children) (hKind : property.kind = .property)
    (hSpan : property.span = ⟨Text.byteLength (lead ++ text front),
      Text.byteLength (lead ++ text (front ++ out))⟩)
    (hKeeps : KeepsTargets fun node other => node = property ∧ converted other)
    (hOut : Bracketed 0 0 (lexemes (Text.byteLength (lead ++ text front)) (newlineAfter none front) out))
    (hInto : Bracketed 0 0
      (lexemes (Text.byteLength (lead ++ text front)) (newlineAfter none front) into))
    (hAnew : ∀ becomes, (ofChunks lead front out into back options.year property becomes).ReadsAnew
      converted) :
    ∃ parsed', parse newSource options = .ok parsed' ∧
      Node.Alike (fun _ _ => True) (fun node other => node = property ∧ converted other ∧
        other.span = ⟨Text.byteLength (lead ++ text front),
          Text.byteLength (lead ++ text (front ++ into))⟩) parsed.program parsed'.program := by
  let becomes : Node → Prop := fun other => converted other ∧
    other.span = ⟨Text.byteLength (lead ++ text front), Text.byteLength (lead ++ text (front ++ into))⟩
  let W := ofChunks lead front out into back options.year property becomes
  obtain ⟨-, hOld⟩ := h.layout.exists_run_of_parse hParse
  -- on enough levels of the grammar both texts are read in full
  let newTokens := (lay (Text.byteLength lead) (front ++ (into ++ back))).tokens
  obtain ⟨later, hRun⟩ :=
    hOld (Grammar.levels parsed.tokens.length + Grammar.levels newTokens.length)
      (Nat.le_add_right _ _)
  have hFair : W.IsFair := by
    refine h.isFair hKind hSpan ⟨fun hBecomes => hKeeps.kind_eq ⟨hBecomes.1, hBecomes.2.1⟩,
      fun hBecomes => hKeeps.settled ⟨hBecomes.1, hBecomes.2.1⟩⟩
  have hMirrored := mirrored_upTo hFair (fun n m hLevels => h.rereads (hAnew becomes) hLevels) _ _
    (Nat.le_refl (Grammar.levels parsed.tokens.length + Grammar.levels newTokens.length))
  have hFits : W.Fits (.ofChunks options.year lead (front ++ (out ++ back)))
      (.ofChunks options.year lead (front ++ (into ++ back))) := by
    refine ⟨rfl, rfl, rfl, rfl, ?_, rfl, rfl, rfl, rfl, Nat.le_refl _⟩
    dsimp only [Context.ofChunks]
    rw [newlineAfter_append, newlineAfter_append, newlineAfter_append, newlineAfter_append,
      newlineAfter_of_endsWithToken h.out_ends, newlineAfter_of_endsWithToken h.into_ends]
  obtain ⟨-, -, program', later', hRun', hAlike⟩ := hMirrored.program_after hFits
    (h.meets hOut hInto) (.inl (.inl ⟨Nat.zero_le _, rfl⟩)) hRun hObject hObjectKind hChild rfl
  obtain ⟨parsed', hParse', rfl⟩ :=
    h.newLayout.exists_parse_of_run hRun' (Nat.le_add_left _ _)
  refine ⟨parsed', hParse', ?_⟩
  have hSame : W.Becomes = fun node other => node = property ∧ becomes other := by
    funext node other
    simp [W, Becomes, ofChunks, eq_comm]
  change Node.Alike W.Bounds W.Becomes _ _ at hAlike
  rw [hSame] at hAlike
  exact Alike.imp (fun _ _ _ => trivial) _ _ hAlike

end Rewriting
end Exchange

end EcmaLint
