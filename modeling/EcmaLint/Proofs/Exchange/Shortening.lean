import EcmaLint.Proofs.Exchange.Rewriting
import EcmaLint.Proofs.Exchange.Method

/-! Long properties and what stands for them in short. A property whose value is a function becomes a
method, and one whose value is a variable becomes the name alone. The chunks of the short form are
read as such wherever the long one was read, so the text that has them in its place is a program,
and but for the property it is the same program. -/
namespace EcmaLint

open Grammar Lexer Node Production

/-- A property whose value is a variable, and its name alone in its place. -/
inductive Node.IsNameFor (property shorthand : Node) : Prop
  | mk {key key' value value' : Node} {name : String}
      (fields_eq : property.fields = longFields key value false)
      (value_kind : value.kind = .identifier) (value_fields : value.fields = [(.ident, .text name)])
      (shorthand_kind : shorthand.kind = .property)
      (shorthand_fields : shorthand.fields = shorthandFields key' value')
      (names : ∀ node ∈ [key', value'], node.kind = .identifier ∧
        node.fields = [(.ident, .text name)]) : IsNameFor property shorthand

namespace Exchange

theorem byteLength_pos_of_startsWithToken {lead : List Char} {front chunks more : List Chunk}
    {newline : Option Bool} (hStarts : StartsWithToken chunks)
    (hOrder : Token.InOrder
      ((lexemes (Text.byteLength (lead ++ text front)) newline chunks).map Lexeme.token)) :
    0 < Text.byteLength (lead ++ text (front ++ (chunks ++ more))) := by
  obtain ⟨lexeme, rest, hFirst, -⟩ := @exists_lexeme_of_startsWithToken
    (Text.byteLength (lead ++ text front)) newline _ hStarts
  have hMem : lexeme ∈ lexemes (Text.byteLength (lead ++ text front)) newline chunks :=
    hFirst ▸ List.mem_cons_self
  have hNonempty := hOrder.nonempty lexeme.token (List.mem_map_of_mem hMem)
  obtain ⟨-, hStop⟩ := bounds_of_mem_lexemes hMem
  have hAll := byteLength_text_append lead (front ++ chunks) more
  rw [List.append_assoc, byteLength_text_append lead front chunks] at hAll
  omega

/-- Neither a spread nor the end of an object starts with a name or with a bracket. -/
theorem is_eq_false_of_spelt {lexeme : Lexeme} (hSpelt : lexeme.token.IsSpelt)
    (h : lexeme.token.kind ≠ .punctuator ∨ lexeme.token.text ∈ ["async", "*", "["]) :
    lexeme.is "\x7d" = false ∧ lexeme.is "..." = false := by
  have hNot : ∀ text ∈ ["\x7d", "..."], lexeme.is text = false := by
    intro text hText
    refine Bool.eq_false_iff.mpr fun hIs => ?_
    have hEq := Lexeme.text_eq_of_is hIs
    simp only [List.mem_cons, List.not_mem_nil, or_false] at hText
    rcases h with hKind | hMem
    · exact hKind (Lexeme.kind_eq_punctuator hSpelt hIs (by rcases hText with rfl | rfl <;> decide))
    · rw [hEq] at hMem
      rcases hText with rfl | rfl <;> exact absurd hMem (by decide)
  exact ⟨hNot _ (by simp), hNot _ (by simp)⟩

/-- A property that is read off some chunks of a text, in front of others. -/
structure ReadsChunks (lead : List Char) (front out back : List Chunk) (n : Nat)
    (context : Context) (cursor : Cursor) (property : Node) (later : Cursor) : Prop where
  sound : cursor.IsSound
  size_eq : context.size = Text.byteLength (lead ++ text (front ++ (out ++ back)))
  rest_eq : cursor.rest =
    lexemes (Text.byteLength (lead ++ text front)) (newlineAfter none front) out ++ later.rest
  runs : Grammar.property (upTo n : Grammar Production) context cursor = .ok (property, later)
  later_eq : later.rest =
    lexemes (Text.byteLength (lead ++ text (front ++ out))) (some false) back
  ends : later.atText "\x7d" = true ∨ later.atText "," = true

/-- The parts of a property whose value is a function, as lexemes and as chunks. -/
structure MethodReading (lead : List Char) (front out : List Chunk) (n : Nat) (context : Context)
    (cursor : Cursor) (property : Node) (later : Cursor) where
  levels : Nat
  (keyNode value body : Node)
  nodes : List Node
  (computed isAsync isGenerator isBare isArrow : Bool)
  (keys opens middle closings heads paramLexemes arrows blocks : List Lexeme)
  colon : Lexeme
  inner : Context
  (atColon first last atParams atArrow atBody atEnd : Cursor)
  (key head params arrow block closes : List Chunk)
  levels_le : levels ≤ n
  propertyParts : PropertyParts n context cursor property later keyNode value computed keys colon
    opens middle closings inner atColon first last
  functionParts : FunctionParts levels inner value first last isAsync isGenerator isBare heads
    paramLexemes arrows blocks nodes body atParams atArrow atBody atEnd
  out_eq : out = key ++ (head ++ (params ++ (arrow ++ (block ++ closes))))
  cut : MethodCut isArrow lead front key head params arrow block closes keys
    (colon :: (opens ++ heads)) paramLexemes arrows blocks closings

/-- The chunks of the method in the place of the property. -/
def MethodReading.chunks {lead : List Char} {front out : List Chunk} {n : Nat} {context : Context}
    {cursor later : Cursor} {property : Node}
    (reading : MethodReading lead front out n context cursor property later) : List Chunk :=
  methodChunks reading.isAsync reading.isGenerator reading.isBare reading.key reading.params
    reading.block

/-- A property whose value is a function that can become a method. -/
def HoldsFunction (property : Node) : Prop :=
  ∃ value, property.child? .value = some value ∧
    (value.kind = .functionExpression ∧ value.child? .id = none ∨
      value.kind = .arrowFunctionExpression ∧
        ∃ body, value.child? .body = some body ∧ body.kind = .blockStatement)

variable {source : String} {lead : List Char} {front out back : List Chunk} {n : Nat}
  {context : Context} {cursor later : Cursor} {property : Node}

namespace ReadsChunks

variable (h : ReadsChunks lead front out back n context cursor property later)
  (hLayout : Layout source lead (front ++ (out ++ back)))
  (hStarts : StartsWithToken out) (hEnds : EndsWithToken out)

include h in
theorem exists_mark : ∃ mark rest,
    lexemes (Text.byteLength (lead ++ text (front ++ out))) (some false) back = mark :: rest ∧
      (mark.is "\x7d" = true ∨ mark.is "," = true) := by
  rw [← h.later_eq]
  rcases h.ends with hBrace | hComma
  · obtain ⟨mark, hIs, hPasses⟩ := Cursor.exists_passes_of_atText hBrace
    exact ⟨mark, _, hPasses.rest_eq, .inl hIs⟩
  · obtain ⟨mark, hIs, hPasses⟩ := Cursor.exists_passes_of_atText hComma
    exact ⟨mark, _, hPasses.rest_eq, .inr hIs⟩

include h hLayout hEnds in
theorem isSpelt : ∀ lexeme ∈ cursor.rest, lexeme.token.IsSpelt := by
  intro lexeme hLexeme
  refine (hLayout.inOrder_and_isSpelt none).2 lexeme ?_
  rw [lexemes_append_of_endsWithToken lead front hEnds]
  rw [h.rest_eq, h.later_eq] at hLexeme
  exact List.mem_append_right _ hLexeme

include h in
theorem size_pos (hStarts : StartsWithToken out) : 0 < context.size := by
  have hOrder := h.sound.inOrder
  rw [Cursor.tokens, h.rest_eq, List.map_append] at hOrder
  exact h.size_eq ▸ byteLength_pos_of_startsWithToken hStarts hOrder.append_left

include h hLayout hStarts hEnds in
/-- A property whose value is a function has the parts of one. -/
theorem exists_methodReading (hLong : property.IsLong) (hFunction : HoldsFunction property) :
    Nonempty (MethodReading lead front out n context cursor property later) := by
  have hSpelt := h.isSpelt hLayout hEnds
  have hSize := h.size_pos hStarts
  obtain ⟨keyNode, value, computed, keys, colon, opens, middle, closings, inner, atColon, first,
    last, hProperty⟩ := exists_propertyParts h.runs hLong h.sound hSize
  have hUnwraps := hProperty.unwraps
  obtain ⟨other, hValue, hKind⟩ := hFunction
  obtain rfl : other = value := by
    rw [Node.child?, Node.field?, hProperty.fields_eq] at hValue
    exact (Option.some.inj hValue).symm
  have hSoundFirst := ((h.sound.of_eq_append hProperty.keys_eq).of_eq_append
    hProperty.passesColon.rest_eq).of_eq_append hUnwraps.passesOpens.rest_eq
  have hSimple : other.kind.isSimpleValue = true := by
    rcases hKind with ⟨hKind, -⟩ | ⟨hKind, -⟩ <;> rw [hKind] <;> rfl
  obtain ⟨levels, isAsync, isGenerator, isBare, heads, paramLexemes, arrows, blocks, nodes, body,
    atParams, atArrow, atBody, atEnd, hLevels, hFunction⟩ :=
      (hUnwraps.runs hSimple).exists_functionParts hKind hSoundFirst
        (hUnwraps.contains.size_eq ▸ hSize)
  have hMiddle := hFunction.middle_eq hUnwraps
  have hLooks := methodLexemes_of_parts hProperty hFunction h.sound hSize hSpelt
  have hHolds : Holds lead front out (keys ++ ((colon :: (opens ++ heads)) ++ (paramLexemes ++
      (arrows ++ (blocks ++ closings))))) := by
    refine ⟨_, List.append_cancel_right (h.rest_eq.symm.trans ?_)⟩
    rw [hProperty.rest_eq, hMiddle]
    simp
  have hKeys : keys ≠ [] := by
    obtain ⟨_, hFirst, -⟩ := hLooks.key_first
    rintro rfl
    cases hFirst
  have hParams : paramLexemes ≠ [] := by
    rintro rfl
    cases isBare with
    | true =>
        obtain ⟨-, _, hSingle, -⟩ := hLooks.params_bare rfl
        cases hSingle
    | false =>
        obtain ⟨_, hFirst, -⟩ := hLooks.params_first rfl
        cases hFirst
  have hBlocks : blocks ≠ [] := by
    obtain ⟨_, hFirst, -⟩ := hLooks.block_first
    rintro rfl
    cases hFirst
  obtain ⟨key, head, params, arrow, block, closes, hOut, hCut⟩ := exists_methodCut
    hStarts hEnds hHolds hKeys (by simp) hParams decide_eq_true_iff hBlocks
  exact ⟨{
    levels, keyNode, value := other, body, nodes, computed, isAsync, isGenerator, isBare
    isArrow := decide (arrows ≠ []), colon, keys, opens, middle, closings, heads, paramLexemes
    arrows, blocks, inner, atColon, first, last, atParams, atArrow, atBody, atEnd, key, head, params
    arrow, block, closes
    levels_le := hLevels
    propertyParts := hProperty
    functionParts := hFunction
    out_eq := hOut
    cut := hCut }⟩

include h hLayout hEnds in
/-- With other chunks in the place of the property the same brace or comma stands behind it. -/
theorem exists_newMark (into : List Chunk) : ∃ mark rest,
    lexemes (Text.byteLength (lead ++ text (front ++ into))) (some false) back = mark :: rest ∧
      mark.token.kind = .punctuator ∧ (mark.token.text = "\x7d" ∨ mark.token.text = ",") := by
  obtain ⟨mark, rest, hBack, hIs⟩ := h.exists_mark
  have hSpelt := h.isSpelt hLayout hEnds mark (by
    rw [h.rest_eq, h.later_eq, hBack]
    simp)
  have hAlike := @forall₂_back lead front out into back 0 property fun _ => True
  rw [show Exchange.back _ = mark :: rest from hBack] at hAlike
  obtain ⟨copy, more, hFirst, -, hNewBack⟩ := List.forall₂_cons_left_iff.mp hAlike
  refine ⟨copy, more, hNewBack, ?_, ?_⟩
  · rw [hFirst.kind_eq]
    rcases hIs with hIs | hIs <;> exact Lexeme.kind_eq_punctuator hSpelt hIs (by decide)
  · rw [hFirst.text_eq]
    exact hIs.imp Lexeme.text_eq_of_is Lexeme.text_eq_of_is

include h in
theorem back_pos : 0 < Text.byteLength (text back) := by
  obtain ⟨mark, rest, hBack, -⟩ := h.exists_mark
  have hMem : mark ∈ lexemes (Text.byteLength (lead ++ text (front ++ out))) (some false) back :=
    hBack ▸ List.mem_cons_self
  obtain ⟨hStart, hStop⟩ := bounds_of_mem_lexemes hMem
  have hNonempty := h.sound.inOrder.nonempty mark.token (List.mem_map_of_mem (by
    rw [h.rest_eq, h.later_eq]
    exact List.mem_append_right _ hMem))
  omega

include h in
/-- What stands behind the property starts with a bracket or with a comma. -/
theorem startsFreely : StartsFreely back := by
  obtain ⟨mark, rest, hBack, hMark⟩ := h.exists_mark
  refine startsFreely_of_lexemes hBack ?_
  rcases hMark with hIs | hIs <;> rw [Lexeme.text_eq_of_is hIs] <;> decide

end ReadsChunks

namespace MethodReading

variable (reading : MethodReading lead front out n context cursor property later)

theorem looks (hSound : cursor.IsSound) (hSize : 0 < context.size)
    (hSpelt : ∀ lexeme ∈ cursor.rest, lexeme.token.IsSpelt) :
    MethodLexemes reading.isBare reading.keys (reading.colon :: (reading.opens ++ reading.heads))
      reading.paramLexemes reading.arrows reading.blocks reading.closings :=
  methodLexemes_of_parts reading.propertyParts reading.functionParts hSound hSize hSpelt

/-- The chunks of a method start with a modifier or with a key. -/
theorem startsWithToken_chunks : StartsWithToken reading.chunks := by
  have hKey : StartsWithToken (reading.key ++
      (paramsChunks reading.isBare reading.params ++ reading.block)) :=
    reading.cut.key_starts.append _
  unfold MethodReading.chunks methodChunks modifierChunks
  cases reading.isAsync <;> cases reading.isGenerator
  · exact hKey
  all_goals exact ⟨_, _, _, rfl, rfl⟩

theorem endsWithToken_chunks : EndsWithToken reading.chunks := by
  obtain ⟨init, last, kind, hBlock, hKind⟩ := reading.cut.block_ends
  refine ⟨modifierChunks reading.isAsync reading.isGenerator ++ (reading.key ++
    (paramsChunks reading.isBare reading.params ++ init)), last, kind, ?_, hKind⟩
  rw [MethodReading.chunks, methodChunks, hBlock]
  simp

/-- A method starts with a modifier, with a name or with a bracket. -/
theorem first_of_chunks (hSpelt : ∀ lexeme ∈ cursor.rest, lexeme.token.IsSpelt) :
    ∀ lexeme ∈ (lexemes (Text.byteLength (lead ++ text front)) (newlineAfter none front)
      reading.chunks).head?,
        lexeme.token.kind ≠ .punctuator ∨ lexeme.token.text ∈ ["async", "*", "["] := by
  obtain ⟨asyncs, stars, keys, opens, params, closes, block, hText, hLexemes, hKeys, -⟩ :=
    exists_methodText reading.cut reading.isAsync reading.isGenerator reading.isBare
      (newlineAfter none front)
  rw [MethodReading.chunks, hLexemes]
  intro lexeme hFirst
  cases asyncs with
  | cons async asyncs =>
      obtain rfl := Option.some.inj hFirst
      exact .inr (by simp [Lexeme.text_eq_of_is (hText.asyncs_is async List.mem_cons_self)])
  | nil =>
      cases stars with
      | cons star stars =>
          obtain rfl := Option.some.inj hFirst
          exact .inr (by simp [Lexeme.text_eq_of_is (hText.stars_is star List.mem_cons_self)])
      | nil =>
          have hReads := reading.propertyParts.readsKey
          rw [← hKeys] at hReads
          have hKeySpelt : ∀ lexeme ∈ keys.lexemes, lexeme.token.IsSpelt := by
            rw [hKeys]
            exact fun lexeme hLexeme => hSpelt lexeme (by
              rw [reading.propertyParts.keys_eq]
              exact List.mem_append_left _ hLexeme)
          obtain ⟨_, copy, _, more, -, hCopies, -⟩ := hText.keys_moved.first
          have hStart := startsName_of_key hText.keys_moved hReads hKeySpelt
          rw [hCopies] at hFirst hStart
          obtain rfl := Option.some.inj hFirst
          exact (hStart copy rfl).2.imp_right fun hBracket => by simp [hBracket]

/-- In the text the method may stand in the place of the property. -/
theorem layout (h : ReadsChunks lead front out back n context cursor property later)
    (hLayout : Layout source lead (front ++ (out ++ back))) (hStarts : StartsWithToken out)
    (hEnds : EndsWithToken out)
    (hMark : ∃ mark ∈ (lexemes (Text.byteLength lead) none front).getLast?,
      mark.is "\x7b" = true ∨ mark.is "," = true) :
    Layout (String.ofList (lead ++ text (front ++ (reading.chunks ++ back)))) lead
      (front ++ (reading.chunks ++ back)) := by
  obtain ⟨mark, hLast, hIs⟩ := hMark
  have hLooks := reading.looks h.sound (h.size_pos hStarts) (h.isSpelt hLayout hEnds)
  refine hLayout.exchange_scans (hStarts.append _) ⟨mark, hLast, ?_⟩ fun state cs final hRun => ?_
  · exact hIs.imp Lexeme.text_eq_of_is Lexeme.text_eq_of_is
  · rw [reading.out_eq] at hRun
    simp only [List.append_assoc] at hRun
    exact reading.cut.scans hLooks hRun h.startsFreely

end MethodReading

variable {newSource : String} {into : List Chunk} {year : Nat} {becomes : Node → Prop}

/-- Defaults in a stretch that was moved stay in what stands for the property. -/
theorem Stretch.IsMoved.defers {stretch : Stretch} {start stop newStop : Nat}
    (h : stretch.IsMoved) (hWithin : stretch.Within start stop newStop) {offset moved : Nat}
    (hOffset : offset < stretch.stop)
    (hMoved : Moved stretch.start stretch.stop stretch.newStart offset moved) :
    Defers start stop newStop .after offset moved := by
  obtain ⟨hStart, hStop, hNewStart, hNewStop⟩ := hWithin
  obtain ⟨hLe, hLt, hEq⟩ := hMoved
  have hNew := h.newStop_eq
  exact .inr (.inl ⟨by omega, by omega, by omega, by omega⟩)

/-- Where chunks are exchanged for others, a property is read off them. -/
theorem ReadsChunks.of_fits {other : Context}
    (hFits : (ofChunks lead front out into back year property becomes).Fits context other)
    (hSound : cursor.IsSound)
    (hRest : cursor.rest = (ofChunks lead front out into back year property becomes).tail)
    (hRun : Grammar.property (upTo n : Grammar Production) context cursor = .ok (property, later))
    (hLater : later.rest = (ofChunks lead front out into back year property becomes).back)
    (hMark : later.atText "\x7d" = true ∨ later.atText "," = true) :
    ReadsChunks lead front out back n context cursor property later where
  sound := hSound
  size_eq := hFits.size_eq
  rest_eq := hRest.trans (congrArg (_ ++ ·) hLater.symm)
  runs := hRun
  later_eq := hLater
  ends := hMark

/-- A method is read off the chunks of one, wherever the property was read. -/
theorem readsAnew_method (hLayout : Layout source lead (front ++ (out ++ back)))
    (hNewLayout : Layout newSource lead (front ++ (into ++ back))) (hStarts : StartsWithToken out)
    (hEnds : EndsWithToken out) (hIntoEnds : EndsWithToken into) (hLong : property.IsLong)
    (hFunction : HoldsFunction property) (hYear : 2015 ≤ year)
    (hInto : ∀ {n context cursor later}
      (reading : MethodReading lead front out n context cursor property later),
      ReadsChunks lead front out back n context cursor property later → into = reading.chunks) :
    (ofChunks lead front out into back year property becomes).ReadsAnew property.IsMethodFor := by
  intro n m context other cursor twin node later hLevels hFits hSound hRest hTwin hDefaults hNode
    hRun hLater hMark
  obtain rfl : property = node := Option.some.inj hNode
  have hReads := ReadsChunks.of_fits hFits hSound hRest hRun hLater hMark
  obtain ⟨reading⟩ := hReads.exists_methodReading hLayout hStarts hEnds hLong hFunction
  obtain rfl := hInto reading hReads
  obtain ⟨asyncs, stars, keys, opens, params, closes, block, hText, hLexemes, hKeys, hParams,
    hBlock, hStart, hWithin⟩ := exists_methodText reading.cut reading.isAsync reading.isGenerator
      reading.isBare (newlineAfter none front)
  have hProperty := reading.propertyParts
  have hParts := reading.functionParts
  rw [← hKeys] at hProperty
  rw [← hParams, ← hBlock] at hParts
  have hWithin' : ∀ stretch ∈ [keys, params, block], stretch.Within
      (Text.byteLength (lead ++ text front)) (Text.byteLength (lead ++ text (front ++ out)))
      (Text.byteLength (lead ++ text (front ++ reading.chunks))) := by
    have hOut : Text.byteLength (lead ++ text (front ++ out)) = _ :=
      congrArg (fun chunks => Text.byteLength (lead ++ text (front ++ chunks))) reading.out_eq
    rw [hOut]
    exact hWithin
  have hNewSpelt : ∀ lexeme ∈ twin.rest, lexeme.token.IsSpelt := by
    intro lexeme hLexeme
    refine (hNewLayout.inOrder_and_isSpelt none).2 lexeme ?_
    rw [lexemes_append_of_endsWithToken lead front hIntoEnds]
    rw [hTwin] at hLexeme
    exact List.mem_append_right _ hLexeme
  have hTwin' : twin.rest = asyncs ++ (stars ++ (keys.copies ++ (opens ++ (params.copies ++ (closes ++
      (block.copies ++ lexemes (Text.byteLength (lead ++ text (front ++ reading.chunks)))
        (some false) back)))))) := by
    refine hTwin.trans (Eq.trans (congrArg (· ++ _) hLexemes) ?_)
    simp only [List.append_assoc]
    rfl
  -- what stands behind the property stands behind the method
  have hBackSize := hReads.back_pos
  have hNewBack : lexemes (Text.byteLength (lead ++ text (front ++ reading.chunks))) (some false)
      back ≠ [] := by
    obtain ⟨mark, more, hBack, -⟩ := hReads.exists_newMark hLayout hEnds reading.chunks
    exact hBack ▸ List.cons_ne_nil mark more
  have hSize := byteLength_text_append lead (front ++ out) back
  have hNewSize := byteLength_text_append lead (front ++ reading.chunks) back
  rw [List.append_assoc] at hSize hNewSize
  have hBlockWithin := hWithin' block (by simp)
  have hStop : block.stop < context.size := by
    have hLe := hBlockWithin.stop_le
    have hEq := hReads.size_eq
    omega
  have hNewStop : block.newStop < other.size := by
    have hLe := hBlockWithin.newStop_le
    have hEq : other.size = Text.byteLength (lead ++ text (front ++ (reading.chunks ++ back))) :=
      hFits.newSize_eq
    omega
  have hInside : ∀ stretch ∈ [keys, params, block], ∀ offset moved, offset < stretch.stop →
      Moved stretch.start stretch.stop stretch.newStart offset moved →
        Defers (Text.byteLength (lead ++ text front)) (Text.byteLength (lead ++ text (front ++ out)))
          (Text.byteLength (lead ++ text (front ++ reading.chunks))) .after offset moved := by
    intro stretch hStretch offset moved
    have hMoved : stretch.IsMoved := by
      simp only [List.mem_cons, List.not_mem_nil, or_false] at hStretch
      rcases hStretch with rfl | rfl | rfl
      · exact hText.keys_moved
      · exact hText.params_moved
      · exact hText.block_moved
    exact hMoved.defers (hWithin' stretch hStretch)
  have hWaiting : Waiting (Defers (Text.byteLength (lead ++ text front))
      (Text.byteLength (lead ++ text (front ++ out)))
      (Text.byteLength (lead ++ text (front ++ reading.chunks))) .after) keys.start keys.newStart
      cursor.shorthandDefaults twin.shorthandDefaults := by
    have hNewStart := (hWithin' keys (by simp)).le_newStart
    refine hDefaults.imp fun offset moved hWaits => ?_
    obtain ⟨hBefore, rfl⟩ : offset < Text.byteLength (lead ++ text front) ∧ moved = offset := hWaits
    exact ⟨by omega, by omega, .inl ⟨hBefore, rfl⟩⟩
  obtain ⟨method, later', hNew, hMethod, hBack', hBehind⟩ := exists_method_twin hText hProperty
    hParts hLevels reading.levels_le (hProperty.levels_pos.trans_le hLevels) hFits
    (hFits.edition_eq ▸ hYear) hSound (hReads.isSpelt hLayout hEnds) hNewSpelt hTwin' hNewBack hStop
    hNewStop hInside hWaiting
  exact ⟨method, later', hNew, hMethod, hBack', hBehind.imp fun _ _ h => h.2.2⟩

theorem brackets_property {k : Nat} : Brackets (Grammar.property (upTo k)) :=
  MirrorsEverywhere.brackets fun _ hG => hG.property.mirrors

/-- Where a property of an object stands in a text, and that it was read there. -/
structure Stands (source : String) (year : Nat) (property : Node) (lead : List Char)
    (front out back : List Chunk) : Prop where
  layout : Layout source lead (front ++ (out ++ back))
  starts : StartsWithToken out
  ends : EndsWithToken out
  span_eq : property.span = ⟨Text.byteLength (lead ++ text front),
    Text.byteLength (lead ++ text (front ++ out))⟩
  mark : ∃ mark ∈ (lexemes (Text.byteLength lead) none front).getLast?,
    mark.is "\x7b" = true ∨ mark.is "," = true
  reads : ∃ n context cursor later, context.year = year ∧
    ReadsChunks lead front out back n context cursor property later ∧
    ∀ offset ∈ cursor.shorthandDefaults, offset < property.span.start

/-- A text is cut where a node starts and where it ends. -/
theorem exists_cut_of_bounds {chunks : List Chunk} (hLayout : Layout source lead chunks)
    {before middle behind : List Token} {span : Span}
    (hTokens : (lay (Text.byteLength lead) chunks).tokens = before ++ middle ++ behind)
    (hBounds : span.Bounds middle) :
    ∃ front out back, chunks = front ++ (out ++ back) ∧ StartsWithToken out ∧ EndsWithToken out ∧
      span = ⟨Text.byteLength (lead ++ text front), Text.byteLength (lead ++ text (front ++ out))⟩ := by
  rw [← @map_token_lexemes _ none, List.append_assoc] at hTokens
  obtain ⟨first, rest, hLexemes, -, hRest⟩ := List.map_eq_append_iff.mp hTokens
  obtain ⟨second, third, rfl, rfl, -⟩ := List.map_eq_append_iff.mp hRest
  obtain ⟨head, hHead, hStart⟩ := hBounds.head
  obtain ⟨last, hLast, hStop⟩ := hBounds.last
  have hSecond : second ≠ [] := by
    rintro rfl
    cases hHead
  obtain ⟨front, behindFront, rfl, hStarts, -, hBehind⟩ :=
    exists_cut_before hLexemes (by simp [hSecond])
  obtain ⟨out, back, rfl, hEnds, hOut, -⟩ := exists_cut_behind hBehind hSecond
  have hOutStarts := hStarts.of_append hEnds.ne_nil
  refine ⟨front, out, back, rfl, hOutStarts, hEnds, ?_⟩
  obtain ⟨⟨_, hFirst, hFirstStart⟩, ⟨_, hFinal, hFinalStop⟩⟩ :=
    @bounds_lexemes (Text.byteLength lead + Text.byteLength (text front)) (newlineAfter none front) _
      hOutStarts hEnds
  rw [hOut] at hFirst hFinal
  obtain rfl := Option.some.inj (hHead.symm.trans hFirst)
  obtain rfl := Option.some.inj (hLast.symm.trans hFinal)
  rw [byteLength_text_append, Text.byteLength_append]
  exact congrArg₂ Span.mk (hStart.symm.trans hFirstStart) (hStop.symm.trans hFinalStop)

/-- A property of an object of a program stands somewhere in its text. -/
theorem exists_stands {options : ParseOptions} {parsed : Parsed} {object : Node}
    (hParse : parse source options = .ok parsed) (hObject : object ∈ forest [parsed.program])
    (hKind : object.kind = .objectExpression) (hChild : property ∈ object.children)
    (hProperty : property.kind = .property) :
    ∃ lead front out back, Stands source options.year property lead front out back := by
  obtain ⟨out, hTokenize, -⟩ := exists_of_bind_eq_ok hParse
  obtain ⟨lead, chunks, hLayout, -⟩ := exists_layout_of_tokenize hTokenize
  obtain ⟨hTokens, hRuns⟩ := hLayout.exists_run_of_parse hParse
  obtain ⟨later, hRun⟩ := hRuns _ (Nat.le_refl _)
  obtain ⟨hLies, -⟩ := lies_of_parse hParse
  have hAligned : property.Aligned parsed.tokens := by
    refine hLies.aligned property ?_
    obtain ⟨root, hRoot, hBelow⟩ := mem_forest.mp hObject
    obtain rfl := List.mem_singleton.mp hRoot
    have hMem := mem_subtree_trans hBelow (mem_subtree_of_mem_children hChild)
    rw [subtree_eq] at hMem
    rcases List.mem_cons.mp hMem with rfl | hForest
    · exact absurd (hProperty.symm.trans hLies.kind_eq) (by decide)
    · exact hForest
  obtain ⟨before, middle, behind, hSplit, hBounds⟩ := hLies.inOrder.exists_bounds
    hAligned.start_lt_stop hAligned.start_mem hAligned.stop_mem
  obtain ⟨front, out, back, rfl, hStarts, hEnds, hSpan⟩ :=
    exists_cut_of_bounds hLayout (hTokens ▸ hSplit) hBounds
  obtain ⟨hOrder, hSpelt⟩ := hLayout.inOrder_and_isSpelt none
  have hRest := lexemes_append_of_endsWithToken lead front hEnds back
  have hOutBounds : property.span.Bounds ((lexemes (Text.byteLength (lead ++ text front))
      (newlineAfter none front) out).map Lexeme.token) := by
    rw [hSpan, byteLength_text_append]
    exact bounds_lexemes hStarts hEnds
  obtain ⟨levels, inner, edge, behind, hFound⟩ := exists_foundProperty hRun
    ⟨hOrder, fun lexeme hLexeme => Lexeme.isTidy_of_isSpelt (hSpelt lexeme hLexeme)⟩ hRest rfl
    hObject hKind hChild hProperty hOutBounds
  refine ⟨lead, front, out, back, hLayout, hStarts, hEnds, hSpan, hFound.mark, levels, inner, edge,
    behind, hFound.year_eq, ?_, hFound.defaults_lt⟩
  exact
    { sound := hFound.sound
      size_eq := hFound.size_eq
      rest_eq := by rw [hFound.rest_eq, hFound.later_eq]
      runs := hFound.runs
      later_eq := hFound.later_eq
      ends := hFound.ends }

namespace Stands

variable {options : ParseOptions} {parsed : Parsed} {object : Node} {into : List Chunk}
  {converted : Node → Prop}
  (h : Stands source options.year property lead front out back)
include h

/-- If a converted property is read off other chunks in the place of the property, so is the text
that has them there. -/
theorem exists_parse (hParse : parse source options = .ok parsed)
    (hObject : object ∈ forest [parsed.program]) (hKind : object.kind = .objectExpression)
    (hChild : property ∈ object.children) (hProperty : property.kind = .property)
    (hLayout : Layout (String.ofList (lead ++ text (front ++ (into ++ back)))) lead
      (front ++ (into ++ back)))
    (hStarts : StartsWithToken into) (hEnds : EndsWithToken into)
    (hFirst : ∀ lexeme ∈ (lexemes (Text.byteLength (lead ++ text front)) (newlineAfter none front)
      into).head?, lexeme.is "\x7d" = false ∧ lexeme.is "..." = false)
    (hKeeps : KeepsTargets fun node other => node = property ∧ converted other)
    (hAnew : ∀ becomes, (ofChunks lead front out into back options.year property becomes).ReadsAnew
      converted) :
    ∃ parsed', parse (String.ofList (lead ++ text (front ++ (into ++ back)))) options = .ok parsed' ∧
      Node.Alike (fun _ _ => True) (fun node other => node = property ∧ converted other ∧
        other.span = ⟨Text.byteLength (lead ++ text front),
          Text.byteLength (lead ++ text (front ++ into))⟩) parsed.program parsed'.program ∧
      ∃ newObject ∈ parsed'.program.subtree, newObject.kind = .objectExpression ∧
        ∃ other ∈ newObject.children, converted other ∧
          other.span = ⟨Text.byteLength (lead ++ text front),
            Text.byteLength (lead ++ text (front ++ into))⟩ := by
  have hRewriting : Rewriting source (String.ofList (lead ++ text (front ++ (into ++ back)))) lead
      front out into back :=
    ⟨h.layout, hLayout, h.starts, h.ends, hStarts, hEnds, h.mark, hFirst⟩
  obtain ⟨n, context, cursor, later, hYear, hReads, hDefaults⟩ := h.reads
  obtain ⟨taken, hTaken, hOut⟩ :=
    brackets_property context cursor hReads.sound (hReads.size_pos h.starts) _ _ hReads.runs
  obtain rfl := List.append_cancel_right (hReads.rest_eq.symm.trans hTaken)
  -- the converted property is read off what stands there, so that closes its brackets as well
  let W := ofChunks lead front out into back options.year property fun _ => True
  let twin : Cursor := ⟨0, W.newTail, cursor.shorthandDefaults, #[]⟩
  have hFits : W.Fits context { context with size := W.newSize } :=
    ⟨hYear, rfl, hReads.size_eq, rfl, rfl, rfl, rfl, rfl, rfl, Nat.le_refl _⟩
  have hWaits : List.Forall₂ (W.waits .before) cursor.shorthandDefaults twin.shorthandDefaults :=
    List.forall₂_same.mpr fun offset hOffset => by
      have hBefore := hDefaults offset hOffset
      rw [h.span_eq] at hBefore
      exact ⟨hBefore, rfl⟩
  obtain ⟨hOrder, hSpelt⟩ := hLayout.inOrder_and_isSpelt none
  rw [lexemes_append_of_endsWithToken lead front hEnds] at hOrder hSpelt
  have hSound : twin.IsSound := by
    refine ⟨?_, fun lexeme hLexeme => Lexeme.isTidy_of_isSpelt (hSpelt lexeme ?_)⟩
    · rw [List.map_append] at hOrder
      exact hOrder.append_right
    · exact List.mem_append_right _ hLexeme
  obtain ⟨other, later', hRun, hConverted, hLater, -⟩ := hAnew _ n n context _ cursor twin property
    later (Nat.le_refl n) hFits hReads.sound (hReads.rest_eq.trans (congrArg _ hReads.later_eq)) rfl
    hWaits rfl hReads.runs hReads.later_eq hReads.ends
  have hRest : twin.rest = W.into ++ later'.rest := hLater ▸ rfl
  have hSize : 0 < W.newSize := by
    have hInto : Token.InOrder ((W.into ++ W.newBack).map Lexeme.token) := hSound.inOrder
    rw [List.map_append] at hInto
    exact byteLength_pos_of_startsWithToken hStarts hInto.append_left
  obtain ⟨taken, hTaken, hInto⟩ := brackets_property _ twin hSound hSize _ _ hRun
  obtain rfl : W.into = taken := List.append_cancel_right (hRest.symm.trans hTaken)
  obtain ⟨parsed', hParse', hAlike⟩ := hRewriting.exists_parse hParse hObject hKind hChild hProperty
    h.span_eq hKeeps hOut hInto hAnew
  obtain ⟨hSpan, -⟩ := span_of_property hRun hSound.inOrder hRest hStarts hEnds
  rw [← byteLength_text_append] at hSpan
  obtain ⟨newObject, hNewObject, hNewKind, new, hNew, -, hShort⟩ :=
    Node.Alike.exists_member (fun hBecomes => hBecomes.1) ⟨other, rfl, hConverted, hSpan⟩ hKind
      hChild _ _ hAlike (by simpa using hObject)
  exact ⟨parsed', hParse', hAlike, newObject, hNewObject, hNewKind, new, hNew, hShort⟩

end Stands

/-- What a property whose value is a variable was read off. -/
theorem ReadsChunks.exists_name (h : ReadsChunks lead front out back n context cursor property later)
    (hLayout : Layout source lead (front ++ (out ++ back))) (hStarts : StartsWithToken out)
    (hEnds : EndsWithToken out) (hLong : property.IsLong) {value : Node} {name : String}
    (hComputed : property.flag .computed = false) (hValue : property.child? .value = some value)
    (hName : value.name? = some name) :
    (∃ key, property.fields = longFields key value false) ∧ value.kind = .identifier ∧
      value.fields = [(.ident, .text name)] ∧ Spelt .identifier name.toList ∧
      later.shorthandDefaults = cursor.shorthandDefaults ∧
      ∀ lexeme ∈ lexemes (Text.byteLength (lead ++ text front)) (newlineAfter none front) out,
        ∀ c ∈ lexeme.token.text.toList.head?, c ∉ ['`', '{', '}'] := by
  have hSize := h.size_pos hStarts
  have hSpelt := h.isSpelt hLayout hEnds
  have hKind : value.kind = .identifier := by
    by_contra hNot
    simp [Node.name?, hNot] at hName
  obtain ⟨key, other, computed, keys, colon, opens, middle, closings, inner, atColon, first, last,
    hProperty⟩ := exists_propertyParts h.runs hLong h.sound hSize
  obtain rfl : value = other := by
    rw [Node.child?, Node.field?, hProperty.fields_eq] at hValue
    exact (Option.some.inj hValue).symm
  obtain rfl : computed = false := by
    rw [Node.flag, Node.field?, hProperty.fields_eq] at hComputed
    exact hComputed
  have hUnwraps := hProperty.unwraps
  have hRuns : RunsValue n inner first value last := hUnwraps.runs (by rw [hKind]; rfl)
  obtain ⟨lexeme, hPasses, hIdentifier, hNode⟩ : ∃ lexeme, first.Passes [lexeme] last ∧
      lexeme.token.kind = .identifier ∧ value = .mk first.arena.size .identifier lexeme.token.span
        [(.ident, .text lexeme.token.text)] := by
    cases hRuns with
    | function _ _ _ hRun =>
        exact absurd (hKind.symm.trans (gives_function_kind _ _ _ _ hRun)) (by decide)
    | arrow _ _ hRun =>
        exact absurd (hKind.symm.trans (gives_arrowFunction_kind _ _ _ _ hRun)) (by decide)
    | name hRun => exact exists_of_identifier hRun
  obtain rfl : lexeme.token.text = name := by
    rw [hNode] at hName
    exact Option.some.inj hName
  have hMiddle : middle = [lexeme] :=
    List.append_cancel_right (hUnwraps.rest_eq.symm.trans hPasses.rest_eq)
  have hRest := hProperty.rest_eq
  rw [hMiddle] at hRest
  have hNameSpelt := hSpelt lexeme (by simp [hRest])
  rw [Token.IsSpelt, hIdentifier] at hNameSpelt
  refine ⟨⟨key, hProperty.fields_eq⟩, hKind, by rw [hNode]; rfl, hNameSpelt, ?_, ?_⟩
  · rw [hUnwraps.passesCloses.defaults_eq, hPasses.defaults_eq, hUnwraps.passesOpens.defaults_eq,
      hProperty.passesColon.defaults_eq, hProperty.defaults_eq rfl]
  · have hOut : lexemes (Text.byteLength (lead ++ text front)) (newlineAfter none front) out =
        keys ++ (colon :: (opens ++ ([lexeme] ++ closings))) :=
      List.append_cancel_right (h.rest_eq.symm.trans (by simp [hRest]))
    have hNames : ∀ other ∈ cursor.rest, other.token.IsName →
        ∀ c ∈ other.token.text.toList.head?, c ∉ ['`', '{', '}'] := fun other hOther hIsName c hc hMark =>
      hIsName.head_not_mem (hSpelt other hOther) c hc (List.mem_append_right _ hMark)
    have hMarks : ∀ {other : Lexeme} {text : String}, other.is text = true → text ∈ [":", "(", ")"] →
        ∀ c ∈ other.token.text.toList.head?, c ∉ ['`', '{', '}'] := by
      intro other text hIs hText
      rw [Lexeme.text_eq_of_is hIs]
      simp only [List.mem_cons, List.not_mem_nil, or_false] at hText
      rcases hText with rfl | rfl | rfl <;> rintro _ ⟨⟩ <;> decide
    rw [hOut]
    intro other hOther
    simp only [List.mem_append, List.mem_cons, List.not_mem_nil, or_false] at hOther
    rcases hOther with hKeys | rfl | hOpens | rfl | hCloses
    · have hReadsKey := hProperty.readsKey
      refine hNames other (by simp [hRest, hKeys]) ?_
      cases hReadsKey with
      | plain hIsName => exact List.mem_singleton.mp hKeys ▸ hIsName
    · exact hMarks hProperty.colon_is (by simp)
    · exact hMarks (hUnwraps.opens_is other hOpens) (by simp)
    · exact hNames other (by simp [hRest]) (.inl (by simp [Token.isWord, hIdentifier]))
    · exact hMarks (hUnwraps.closes_is other hCloses) (by simp)

/-- Its name is read off the chunk of a name, wherever the property was read. -/
theorem readsAnew_name (hLayout : Layout source lead (front ++ (out ++ back)))
    (hStarts : StartsWithToken out) (hEnds : EndsWithToken out) (hLong : property.IsLong)
    (hComputed : property.flag .computed = false) {value : Node} {name : String}
    (hValue : property.child? .value = some value) (hName : value.name? = some name)
    (hYear : 2015 ≤ year) :
    (ofChunks lead front out [.word name.toList] back year property becomes).ReadsAnew
      property.IsNameFor := by
  intro n m context other cursor twin node later hLevels hFits hSound hRest hTwin hDefaults hNode
    hRun hLater hMark
  obtain rfl : property = node := Option.some.inj hNode
  have hReads := ReadsChunks.of_fits hFits hSound hRest hRun hLater hMark
  obtain ⟨⟨key, hFields⟩, hKind, hNameFields, hSpelt, hSame, -⟩ :=
    hReads.exists_name hLayout hStarts hEnds hLong hComputed hValue hName
  obtain ⟨next, more, hNewBack, hNextKind, hNextText⟩ :=
    hReads.exists_newMark hLayout hEnds [.word name.toList]
  obtain ⟨c, cs, hText, hStart, -, hWord⟩ := exists_word_of_spelt hSpelt
  rw [String.ofList_toList] at hWord
  obtain ⟨lexeme, hLexemes, hIdentifier, hLexemeText⟩ : ∃ lexeme : Lexeme,
      lexemes (Text.byteLength (lead ++ text front)) (newlineAfter none front)
        [.word name.toList] = [lexeme] ∧ lexeme.token.kind = .identifier ∧
        lexeme.token.text = name := by
    refine ⟨_, rfl, ?_, String.ofList_toList⟩
    dsimp only
    rw [String.ofList_toList, hWord]
  have hTwin' : twin.rest = lexeme :: next :: more := by
    refine hTwin.trans ?_
    rw [newTail, show Exchange.into _ = [lexeme] from hLexemes,
      show Exchange.newBack _ = next :: more from hNewBack]
    rfl
  have hStar : lexeme.is "*" = false := by
    refine Bool.eq_false_iff.mpr fun hIs => ?_
    rw [← hLexemeText, Lexeme.text_eq_of_is hIs] at hText
    cases hText
    exact absurd hStart (by decide)
  obtain ⟨shorthand, key', value', later', hNew, hNewKind, hNewFields, hNames, hPasses⟩ :=
    @exists_property_of_name (upTo m) other twin _ _ _ hTwin' hIdentifier hStar hNextKind hNextText
      (hFits.year_eq ▸ hFits.edition_eq ▸ hYear)
  refine ⟨shorthand, later', hNew, .mk hFields hKind hNameFields hNewKind hNewFields
    (hLexemeText ▸ hNames), ?_, ?_⟩
  · have hRest' := hPasses.rest_eq
    rw [Cursor.past_of_cons hTwin', List.nil_append] at hRest'
    exact hRest'.symm.trans hNewBack.symm
  · rw [hPasses.defaults_eq, Cursor.past_of_cons hTwin', hSame]
    exact hDefaults.imp fun _ _ h => .inl h

/-- In the text the name may stand in the place of the property. -/
theorem ReadsChunks.layout_of_name
    (h : ReadsChunks lead front out back n context cursor property later)
    (hLayout : Layout source lead (front ++ (out ++ back))) (hStarts : StartsWithToken out)
    (hMark : ∃ mark ∈ (lexemes (Text.byteLength lead) none front).getLast?,
      mark.is "\x7b" = true ∨ mark.is "," = true) {name : String}
    (hSpelt : Spelt .identifier name.toList)
    (hPlain : ∀ lexeme ∈ lexemes (Text.byteLength (lead ++ text front)) (newlineAfter none front) out,
      ∀ c ∈ lexeme.token.text.toList.head?, c ∉ ['`', '{', '}']) :
    Layout (String.ofList (lead ++ text (front ++ ([.word name.toList] ++ back)))) lead
      (front ++ ([.word name.toList] ++ back)) := by
  obtain ⟨mark, hLast, hIs⟩ := hMark
  refine hLayout.exchange_scans (hStarts.append _)
    ⟨mark, hLast, hIs.imp Lexeme.text_eq_of_is Lexeme.text_eq_of_is⟩ fun state cs final hRun => ?_
  obtain ⟨between, left, hOut, hBack⟩ := hRun.exists_split
  have hBraces := hOut.braces_eq_of_lexemes hPlain
  obtain ⟨c, rest, hText, hStart, hParts, -⟩ := exists_word_of_spelt hSpelt
  obtain ⟨next, more, hNext, hNextIs⟩ := h.exists_mark
  have hHalts : Halts (text back ++ []) := by
    refine hBack.halts_of_lexemes hNext ?_ []
    rcases hNextIs with hIs | hIs <;> rw [Lexeme.text_eq_of_is hIs] <;> rintro _ ⟨⟩ <;> decide +kernel
  rw [← hBraces, hText]
  exact .append (.word hStart hParts fun d hd => isWordPart_of_isSolid (hHalts d hd))
    (.same hBack h.startsFreely)

/-- A function is no target, so a method in the place of one is not asked to be one. -/
theorem keepsTargets_method (hKind : property.kind = .property) :
    KeepsTargets fun node other => node = property ∧ property.IsMethodFor other where
  kind_eq := by
    rintro _ other ⟨rfl, hMethod⟩
    cases hMethod with
    | mk _ _ _ hOther => rw [hOther, hKind]
  settled := by
    rintro node other target role isLast ⟨rfl, hMethod⟩ hTarget
    obtain ⟨id, kind, span, fields⟩ := node
    obtain rfl : kind = .property := hKind
    cases hMethod with
    | @mk key key' value value' body body' params params' computed isAsync isGenerator hFields
        hValueKind =>
        obtain rfl : fields = longFields key value computed := hFields
        obtain ⟨valueId, valueKind, valueSpan, valueFields⟩ := value
        cases role with
        | whole | element => cases hTarget
        | member =>
            rcases hValueKind with hKind | hKind <;> obtain rfl : valueKind = _ := hKind <;> cases hTarget

/-- A variable is a target, in either form of the property. -/
theorem keepsTargets_name (hKind : property.kind = .property) :
    KeepsTargets fun node other => node = property ∧ property.IsNameFor other where
  kind_eq := by
    rintro _ other ⟨rfl, hName⟩
    cases hName with
    | mk _ _ _ hOther => rw [hOther, hKind]
  settled := by
    rintro node other target role isLast ⟨rfl, hName⟩ hTarget
    obtain ⟨id, kind, span, fields⟩ := node
    obtain ⟨otherId, otherKind, otherSpan, otherFields⟩ := other
    obtain rfl : kind = .property := hKind
    cases hName with
    | @mk key key' value value' name hFields hValueKind _ hOtherKind hOtherFields hNames =>
        obtain rfl : fields = longFields key value false := hFields
        obtain rfl : otherKind = .property := hOtherKind
        obtain rfl : otherFields = shorthandFields key' value' := hOtherFields
        obtain ⟨valueId, valueKind, valueSpan, valueFields⟩ := value
        obtain ⟨newId, newKind, newSpan, newFields⟩ := value'
        obtain rfl : valueKind = .identifier := hValueKind
        obtain rfl : newKind = .identifier :=
          (hNames (.mk newId newKind newSpan newFields) (by simp)).1
        cases role with
        | whole | element => cases hTarget
        | member =>
            cases hTarget
            exact ⟨rfl, rfl⟩

end Exchange

end EcmaLint
