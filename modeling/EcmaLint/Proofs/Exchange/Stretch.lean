import EcmaLint.Proofs.Exchange.Property
import EcmaLint.Proofs.Token.Layout

/-! Stretches of a text in another place. The chunks of a stretch give the same lexemes at every
offset, all moved by the same distance; only in front of the first one may a line end in one place
and not in the other. What is read off a stretch in brackets is read off its copy as well. -/
namespace EcmaLint

open Grammar Lexer Production

namespace Exchange

/-- A stretch of lexemes and its copies, with where they stand in the old text and in the new one. -/
structure Stretch where
  start : Nat
  stop : Nat
  newStart : Nat
  newStop : Nat
  lexemes : List Lexeme
  copies : List Lexeme

namespace Stretch

/-- The copies are the lexemes of the stretch, moved as a whole. -/
structure IsMoved (stretch : Stretch) : Prop where
  start_le : stretch.start ≤ stretch.stop
  newStop_eq : stretch.newStop + stretch.start = stretch.newStart + stretch.stop
  /-- Before the first lexeme line ends do not count. -/
  first : ∃ lexeme copy rest more, stretch.lexemes = lexeme :: rest ∧
    stretch.copies = copy :: more ∧ copy.token.kind = lexeme.token.kind ∧
    copy.token.text = lexeme.token.text ∧
    Moved stretch.start stretch.stop stretch.newStart lexeme.token.span.stop
      copy.token.span.stop ∧
    List.Forall₂ (Lexeme.Alike (Moved stretch.start stretch.stop stretch.newStart)) rest more

/-- The lexemes of chunks at two offsets. -/
def ofChunks (offset newOffset : Nat) (newline newNewline : Option Bool) (chunks : List Chunk) :
    Stretch where
  start := offset
  stop := offset + Text.byteLength (text chunks)
  newStart := newOffset
  newStop := newOffset + Text.byteLength (text chunks)
  lexemes := Lexer.lexemes offset newline chunks
  copies := Lexer.lexemes newOffset newNewline chunks

end Stretch

variable {start stop newStart offset moved : Nat} {newline : Option Bool} {chunks : List Chunk}

/-- At another offset chunks give the same lexemes, moved. -/
theorem forall₂_lexemes (hStart : start ≤ offset)
    (hStop : offset + Text.byteLength (text chunks) ≤ stop)
    (hMoved : moved + start = offset + newStart) :
    List.Forall₂ (Lexeme.Alike (Moved start stop newStart)) (lexemes offset newline chunks)
      (lexemes moved newline chunks) := by
  induction chunks generalizing offset moved newline with
  | nil => exact .nil
  | cons chunk chunks ih =>
      obtain ⟨kind, chunk⟩ := chunk
      rw [text_cons, Text.byteLength_append] at hStop
      dsimp only at hStop
      have hRest := @ih (offset + Text.byteLength chunk) (moved + Text.byteLength chunk)
      cases kind with
      | blank | comment => exact hRest (by omega) (by omega) (by omega)
      | token kind =>
          refine .cons ⟨⟨rfl, rfl, rfl⟩, ⟨hStart, ?_, hMoved⟩, ⟨?_, ?_, ?_⟩⟩
            (hRest (by omega) (by omega) (by omega)) <;> dsimp only <;> omega

theorem Stretch.isMoved_ofChunks {newOffset : Nat} {newNewline : Option Bool}
    (h : Lexer.lexemes offset newline chunks ≠ []) :
    (ofChunks offset newOffset newline newNewline chunks).IsMoved where
  start_le := Nat.le_add_right _ _
  newStop_eq := by
    dsimp only [ofChunks]
    omega
  first := by
    dsimp only [ofChunks]
    -- the stretch starts with what stands between tokens, up to its first lexeme
    suffices hFirst : ∀ start stop newStart, start ≤ offset →
        offset + Text.byteLength (text chunks) ≤ stop → newOffset + start = offset + newStart →
        ∃ lexeme copy rest more, Lexer.lexemes offset newline chunks = lexeme :: rest ∧
          Lexer.lexemes newOffset newNewline chunks = copy :: more ∧
          copy.token.kind = lexeme.token.kind ∧ copy.token.text = lexeme.token.text ∧
          Moved start stop newStart lexeme.token.span.stop copy.token.span.stop ∧
          List.Forall₂ (Lexeme.Alike (Moved start stop newStart)) rest more from
      hFirst _ _ _ (Nat.le_refl _) (Nat.le_refl _) (Nat.add_comm _ _)
    intro start stop newStart hStart hStop hMoved
    induction chunks generalizing offset newOffset newline newNewline with
    | nil => exact absurd rfl h
    | cons chunk chunks ih =>
        obtain ⟨kind, chunk⟩ := chunk
        rw [text_cons, Text.byteLength_append] at hStop
        dsimp only at hStop
        cases kind with
        | blank | comment => exact ih h (by omega) (by omega) (by omega)
        | token kind =>
            refine ⟨_, _, _, _, rfl, rfl, rfl, rfl, ⟨?_, ?_, ?_⟩,
              forall₂_lexemes (by omega) (by omega) (by omega)⟩ <;> dsimp only <;> omega

/-- The defaults that wait before a place, in the old text and in the new one. -/
def Waiting (outside : Nat → Nat → Prop) (stop newStop : Nat) : List Nat → List Nat → Prop :=
  List.Forall₂ fun offset moved => offset < stop ∧ moved < newStop ∧ outside offset moved

theorem Waiting.mono {outside : Nat → Nat → Prop} {stop newStop later newLater : Nat}
    {defaults others : List Nat} (h : Waiting outside stop newStop defaults others)
    (hLe : stop ≤ later) (hNew : newStop ≤ newLater) :
    Waiting outside later newLater defaults others :=
  List.Forall₂.imp (fun _ _ h => ⟨h.1.trans_le hLe, h.2.1.trans_le hNew, h.2.2⟩) h

namespace Stretch.IsMoved

variable {stretch : Stretch} {outside : Nat → Nat → Prop} {cursor twin later later' : Cursor}
  {out into more : List Lexeme}

theorem begins (h : stretch.IsMoved) (hRest : cursor.rest = stretch.lexemes ++ out)
    (hTwin : twin.rest = stretch.copies ++ into) (hInto : into ≠ []) (hSound : cursor.IsSound)
    (hDefaults : Waiting outside stretch.start stretch.newStart cursor.shorthandDefaults
      twin.shorthandDefaults) :
    Begins stretch.start stretch.stop stretch.newStart outside stretch.lexemes.tail
      stretch.copies.tail cursor twin out into := by
  obtain ⟨lexeme, copy, rest, more, hLexemes, hCopies, hKind, hText, hStop, hAlike⟩ := h.first
  rw [hLexemes, List.cons_append] at hRest
  rw [hCopies, List.cons_append] at hTwin
  have hPast : cursor.rest = [lexeme] ++ cursor.past.rest := by
    rw [hRest, Cursor.past_of_cons hRest]
    rfl
  have hSound' := hSound.of_eq_append hPast
  refine ⟨⟨lexeme, copy, rest ++ out, more ++ into, hRest, hTwin, hKind, hText⟩, ?_⟩
  rw [hLexemes, hCopies]
  rw [Cursor.past_of_cons hRest] at hSound' ⊢
  rw [Cursor.past_of_cons hTwin]
  exact
    { rest_eq := rfl
      twin_rest_eq := rfl
      alike := hAlike
      into_ne_nil := hInto
      inOrder := hSound'.inOrder
      tidy := hSound'.tidy
      previousEnd := hStop
      defaults := hDefaults.imp fun _ _ h => .inl h }

/-- Behind the copy of a stretch stands what follows it, and the defaults that have come since have
moved with the stretch. -/
theorem behind (h : stretch.IsMoved)
    (hInside : ∀ offset moved, offset < stretch.stop →
      Moved stretch.start stretch.stop stretch.newStart offset moved → outside offset moved)
    (hBeside : Beside stretch.start stretch.stop stretch.newStart outside [] more later later' out
      into) :
    later'.rest = into ∧ Waiting outside stretch.stop stretch.newStop later.shorthandDefaults
      later'.shorthandDefaults := by
  have hNil := hBeside.alike
  rw [List.forall₂_nil_left_iff] at hNil
  subst hNil
  have hEnd := h.newStop_eq
  refine ⟨hBeside.twin_rest_eq, hBeside.defaults.imp fun offset moved hWaits => ?_⟩
  obtain ⟨hStart, hNewStart, hOutside⟩ | ⟨hStop, hMoved⟩ := hWaits
  · have hLe := h.start_le
    exact ⟨by omega, by omega, hOutside⟩
  · have hEq := hMoved.2.2
    exact ⟨hStop, by omega, hInside _ _ hStop hMoved⟩

end Stretch.IsMoved
end Exchange

end EcmaLint
