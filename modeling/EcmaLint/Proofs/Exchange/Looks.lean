import Mathlib.Data.List.Forall2
import EcmaLint.Grammar.Expression
import EcmaLint.Grammar.Statement

/-! Cursors from which the same is seen. Productions look at the current lexeme and, where that is a
word, at the one behind it; before an expression they look for an arrow behind what may be
parameters.

How many brackets are open behind a stretch of lexemes. To look for the bracket that closes
another one it does not matter what is read as what: what a production reads closes what it opens,
so a search that starts outside passes over it. -/
namespace EcmaLint

/-- Lexemes that differ in nothing but their place. -/
structure Lexeme.Matches (lexeme other : Lexeme) : Prop where
  kind_eq : other.token.kind = lexeme.token.kind
  text_eq : other.token.text = lexeme.token.text
  newlineBefore_eq : other.newlineBefore = lexeme.newlineBefore

/-- As `Matches`, where the places are related. -/
structure Lexeme.Alike (shift : Nat → Nat → Prop) (lexeme other : Lexeme) : Prop
    extends lexeme.Matches other where
  start : shift lexeme.token.span.start other.token.span.start
  stop : shift lexeme.token.span.stop other.token.span.stop

namespace Lexeme

variable {lexeme other : Lexeme} {lexemes others : List Lexeme}

theorem Matches.is_eq (h : lexeme.Matches other) (text : String) :
    other.is text = lexeme.is text := by
  rw [is, is, h.kind_eq, h.text_eq]

theorem Matches.isPunctuator_eq (h : lexeme.Matches other) (text : String) :
    other.token.isPunctuator text = lexeme.token.isPunctuator text := by
  rw [Token.isPunctuator, Token.isPunctuator, h.kind_eq, h.text_eq]

theorem Matches.token_eq (h : lexeme.Matches other) :
    other.token = { lexeme.token with span := other.token.span } := by
  obtain ⟨⟨_, _, _⟩, _⟩ := other
  obtain ⟨⟨_, _, _⟩, _⟩ := lexeme
  obtain ⟨rfl, rfl, -⟩ := h
  rfl

end Lexeme

namespace Grammar

/-- An arrow on the same line stands at the start of what is left, if anything is. -/
def arrowFollows : Option (List Lexeme) → Bool
  | some (arrow :: _) => arrow.is "=>" && !arrow.newlineBefore
  | _ => false

theorem arrowAhead?_eq_ite (cursor : Cursor) :
    arrowAhead? cursor =
      let isAsync := cursor.atText "async" && !cursor.newlineBeforePeek 1 &&
        ((cursor.peek? 1).any (fun token => token.kind == .identifier) || cursor.peekIs 1 "(")
      if arrowFollows (afterArrowParams (if isAsync then cursor.rest.drop 1 else cursor.rest)) then
        some isAsync
      else none := by
  unfold arrowAhead?
  dsimp only
  generalize afterArrowParams _ = found
  rcases found with _ | _ | ⟨arrow, rest⟩
  all_goals rfl

/-- Matching lexemes have their brackets in the same places. -/
theorem afterClosing_rel {lexemes others : List Lexeme}
    (h : List.Forall₂ Lexeme.Matches lexemes others) (depth : Nat) :
    Option.Rel (List.Forall₂ Lexeme.Matches) (afterClosing depth lexemes)
      (afterClosing depth others) := by
  induction h generalizing depth with
  | nil => exact .none
  | @cons lexeme other rest _ hFirst hRest ih =>
      unfold afterClosing
      rw [hFirst.kind_eq, hFirst.text_eq]
      split
      · exact ih depth
      split
      · exact ih (depth + 1)
      split
      · split
        · split
          · exact .some hRest
          · exact .none
        · exact ih (depth - 1)
      · exact ih depth

theorem arrowFollows_eq {left other : Option (List Lexeme)}
    (h : Option.Rel (List.Forall₂ Lexeme.Matches) left other) :
    arrowFollows other = arrowFollows left := by
  cases h with
  | none => rfl
  | some h =>
      cases h with
      | nil => rfl
      | cons hFirst _ => rw [arrowFollows, arrowFollows, hFirst.is_eq, hFirst.newlineBefore_eq]

end Grammar

/-- A token that closes something, opens an object or a block, or is a comma. -/
def Token.IsMark (token : Token) : Prop :=
  token.kind = .punctuator ∧ token.text ∈ ["\x7b", "\x7d", ")", "]", ","]

/-- Two cursors from which productions see the same: the current lexeme, the one behind it where it
is asked for, and whether an arrow function stands ahead. -/
structure Cursor.Looks (cursor other : Cursor) : Prop where
  first : Option.Rel Lexeme.Matches cursor.rest[0]? other.rest[0]?
  second : (∀ token ∈ cursor.current?, ¬token.IsMark) →
    Option.Rel Lexeme.Matches cursor.rest[1]? other.rest[1]?
  /-- Behind what may be parameters the same is found, from here and from the next lexeme on. -/
  arrow : Grammar.arrowFollows (Grammar.afterArrowParams other.rest) =
    Grammar.arrowFollows (Grammar.afterArrowParams cursor.rest)
  arrowNext : (∀ token ∈ cursor.current?, ¬token.IsMark) →
    Grammar.arrowFollows (Grammar.afterArrowParams (other.rest.drop 1)) =
      Grammar.arrowFollows (Grammar.afterArrowParams (cursor.rest.drop 1))

namespace Cursor

variable {cursor other : Cursor} {n : Nat}

theorem peekIs_eq (h : Option.Rel Lexeme.Matches cursor.rest[n]? other.rest[n]?) (text : String) :
    other.peekIs n text = cursor.peekIs n text := by
  unfold peekIs
  generalize cursor.rest[n]? = first, other.rest[n]? = second at h ⊢
  cases h with
  | none => rfl
  | some h => exact h.is_eq text

theorem newlineBeforePeek_eq (h : Option.Rel Lexeme.Matches cursor.rest[n]? other.rest[n]?) :
    other.newlineBeforePeek n = cursor.newlineBeforePeek n := by
  unfold newlineBeforePeek
  generalize cursor.rest[n]? = first, other.rest[n]? = second at h ⊢
  cases h with
  | none => rfl
  | some h => exact h.newlineBefore_eq

/-- Both cursors are at the end, or they stand at tokens that differ in their spans only. -/
theorem peek?_cases (h : Option.Rel Lexeme.Matches cursor.rest[n]? other.rest[n]?) :
    cursor.peek? n = none ∧ other.peek? n = none ∨
      ∃ token span, cursor.peek? n = some token ∧ other.peek? n = some { token with span } := by
  unfold peek?
  generalize cursor.rest[n]? = first, other.rest[n]? = second at h ⊢
  cases h with
  | none => exact .inl ⟨rfl, rfl⟩
  | some h => exact .inr ⟨_, _, rfl, congrArg some h.token_eq⟩

theorem not_isMark_of_atText {text : String} (h : cursor.atText text = true)
    (hText : text ∉ ["\x7b", "\x7d", ")", "]", ","]) :
    ∀ token ∈ cursor.current?, ¬token.IsMark := by
  intro token hToken hMark
  obtain ⟨lexeme, hLexeme, rfl⟩ := Option.map_eq_some_iff.mp hToken
  rw [List.head?_eq_getElem?] at hLexeme
  rw [atText, peekIs, hLexeme, Option.any_some, Lexeme.is, hMark.1] at h
  exact hText (beq_iff_eq.mp h ▸ hMark.2)

theorem not_isMark_of_kind {token : Token} (h : cursor.current? = some token)
    (hKind : token.kind ≠ .punctuator) : ∀ token ∈ cursor.current?, ¬token.IsMark := by
  intro other hOther hMark
  obtain rfl := Option.some.inj (h.symm.trans hOther)
  exact hKind hMark.1

namespace Looks

theorem refl (cursor : Cursor) : cursor.Looks cursor := by
  have hSame : ∀ first : Option Lexeme, Option.Rel Lexeme.Matches first first := by
    rintro (_ | lexeme)
    · exact .none
    · exact .some ⟨rfl, rfl, rfl⟩
  exact ⟨hSame _, fun _ => hSame _, rfl, fun _ => rfl⟩

variable (h : cursor.Looks other)
include h

theorem atText_eq (text : String) : other.atText text = cursor.atText text := peekIs_eq h.first text

theorem atText_iff (text : String) : cursor.atText text = true ↔ other.atText text = true := by
  rw [h.atText_eq]

theorem current?_cases : cursor.current? = none ∧ other.current? = none ∨
    ∃ token span, cursor.current? = some token ∧ other.current? = some { token with span } := by
  have hCases := peek?_cases h.first
  unfold peek? at hCases
  unfold current?
  rwa [List.head?_eq_getElem?, List.head?_eq_getElem?]

theorem currentText_eq : other.current?.map Token.text = cursor.current?.map Token.text := by
  obtain ⟨hNone, hOther⟩ | ⟨token, span, hToken, hOther⟩ := h.current?_cases
  · rw [hNone, hOther]
  · rw [hToken, hOther]
    rfl

theorem rest_cases : cursor.rest = [] ∧ other.rest = [] ∨ ∃ lexeme copy rest more,
    cursor.rest = lexeme :: rest ∧ other.rest = copy :: more ∧ lexeme.Matches copy := by
  have hFirst := h.first
  cases hRest : cursor.rest with
  | nil =>
      cases hOther : other.rest with
      | nil => exact .inl ⟨rfl, rfl⟩
      | cons => simp [hRest, hOther] at hFirst
  | cons lexeme rest =>
      cases hOther : other.rest with
      | nil => simp [hRest, hOther] at hFirst
      | cons copy more => exact .inr ⟨_, _, _, _, rfl, rfl, by simpa [hRest, hOther] using hFirst⟩

theorem atIdentifier_eq : other.atIdentifier = cursor.atIdentifier := by
  unfold atIdentifier
  obtain ⟨hNone, hOther⟩ | ⟨token, span, hToken, hOther⟩ := h.current?_cases
  · rw [hNone, hOther]
  · rw [hToken, hOther]
    rfl

theorem atEnd_eq : other.atEnd = cursor.atEnd := by
  have hCases := h.current?_cases
  unfold current? at hCases
  unfold atEnd
  rw [Option.map_eq_none_iff, Option.map_eq_none_iff] at hCases
  cases hRest : cursor.rest with
  | nil => cases hOther : other.rest <;> simp_all
  | cons _ _ => cases hOther : other.rest <;> simp_all

theorem atTemplateContinuation_eq :
    Grammar.atTemplateContinuation other = Grammar.atTemplateContinuation cursor := by
  unfold Grammar.atTemplateContinuation
  obtain ⟨hNone, hOther⟩ | ⟨token, span, hToken, hOther⟩ := h.current?_cases
  · rw [hNone, hOther]
  · rw [hToken, hOther]
    rfl

theorem atTemplateHead_eq : Grammar.atTemplateHead other = Grammar.atTemplateHead cursor := by
  unfold Grammar.atTemplateHead
  obtain ⟨hNone, hOther⟩ | ⟨token, span, hToken, hOther⟩ := h.current?_cases
  · rw [hNone, hOther]
  · rw [hToken, hOther]
    rfl

theorem arrowAhead?_eq : Grammar.arrowAhead? other = Grammar.arrowAhead? cursor := by
  rw [Grammar.arrowAhead?_eq_ite, Grammar.arrowAhead?_eq_ite, h.atText_eq]
  by_cases hAsync : cursor.atText "async" = true
  · have hMark := not_isMark_of_atText hAsync (by decide)
    have hSecond := h.second hMark
    have hKind : (other.peek? 1).any (fun token => token.kind == .identifier) =
        (cursor.peek? 1).any (fun token => token.kind == .identifier) := by
      obtain ⟨hNone, hOther⟩ | ⟨token, span, hToken, hOther⟩ := peek?_cases hSecond
      · rw [hNone, hOther]
      · rw [hToken, hOther]
        rfl
    rw [newlineBeforePeek_eq hSecond, peekIs_eq hSecond, hKind]
    dsimp only
    split
    · rw [h.arrowNext hMark]
    · rw [h.arrow]
  · simp only [hAsync, Bool.false_and, Bool.false_eq_true, if_false, h.arrow]

/-- What is asked of a word and of the lexeme behind it has one outcome. -/
theorem word_eq {word : String} (hWord : word ∉ ["\x7b", "\x7d", ")", "]", ","])
    (test : Cursor → Bool) (hTest : Option.Rel Lexeme.Matches cursor.rest[1]? other.rest[1]? →
      test other = test cursor) :
    (other.atText word && test other) = (cursor.atText word && test cursor) := by
  rw [h.atText_eq]
  by_cases hText : cursor.atText word = true
  · rw [hTest (h.second (not_isMark_of_atText hText hWord))]
  · simp [hText]

theorem atModifier_eq {word : String} (hWord : word ∉ ["\x7b", "\x7d", ")", "]", ","]) :
    Grammar.atModifier other word = Grammar.atModifier cursor word := by
  simp only [Grammar.atModifier, Bool.and_assoc]
  exact h.word_eq hWord (fun cursor => !cursor.peekIs 1 "(" && (!cursor.peekIs 1 ";" &&
    (!cursor.peekIs 1 "\x7d" && !cursor.peekIs 1 "="))) fun hSecond => by
      simp only [peekIs_eq hSecond]

theorem onSameLine_eq {word : String} (hWord : word ∉ ["\x7b", "\x7d", ")", "]", ","]) :
    (Grammar.atModifier other word && !other.newlineBeforePeek 1) =
      (Grammar.atModifier cursor word && !cursor.newlineBeforePeek 1) := by
  simp only [Grammar.atModifier, Bool.and_assoc]
  exact h.word_eq hWord (fun cursor => !cursor.peekIs 1 "(" && (!cursor.peekIs 1 ";" &&
    (!cursor.peekIs 1 "\x7d" && (!cursor.peekIs 1 "=" && !cursor.newlineBeforePeek 1))))
    fun hSecond => by simp only [peekIs_eq hSecond, newlineBeforePeek_eq hSecond]

theorem atPropertyModifier_eq {word : String} (hWord : word ∉ ["\x7b", "\x7d", ")", "]", ","]) :
    Grammar.atPropertyModifier other word = Grammar.atPropertyModifier cursor word := by
  simp only [Grammar.atPropertyModifier, Bool.and_assoc]
  exact h.word_eq hWord (fun cursor => !cursor.newlineBeforePeek 1 &&
    (cursor.peek? 1).any fun next =>
      next.kind != .punctuator || next.text == "[" || next.text == "*") fun hSecond => by
    obtain ⟨hNone, hOther⟩ | ⟨token, span, hToken, hOther⟩ := peek?_cases hSecond
    · rw [newlineBeforePeek_eq hSecond, hNone, hOther]
    · rw [newlineBeforePeek_eq hSecond, hToken, hOther]
      rfl

theorem atAccessor_eq {word : String} (hWord : word ∉ ["\x7b", "\x7d", ")", "]", ","]) :
    Grammar.atAccessor other word = Grammar.atAccessor cursor word := by
  have hModifier := h.atPropertyModifier_eq hWord
  unfold Grammar.atAccessor
  rw [hModifier]
  by_cases hText : cursor.atText word = true
  · rw [peekIs_eq (h.second (not_isMark_of_atText hText hWord))]
  · simp [Grammar.atPropertyModifier, hText]

end Looks
end Cursor

def Token.openings : List String := ["(", "[", "\x7b"]

def Token.closings : List String := [")", "]", "\x7d"]

/-- A token that opens and closes nothing. The pieces of a template count as such. -/
def Token.IsFlat (token : Token) : Prop :=
  token.kind = .punctuator → token.text ∉ openings ∧ token.text ∉ closings

/-- No word and no number looks like a bracket. -/
def Lexeme.IsTidy (lexeme : Lexeme) : Prop :=
  ∀ text ∈ Token.openings ++ Token.closings, lexeme.is text = true →
    lexeme.token.kind = .punctuator ∧ lexeme.token.text = text

theorem Lexeme.text_eq_of_is {lexeme : Lexeme} {text : String} (h : lexeme.is text = true) :
    lexeme.token.text = text := by
  unfold is at h
  split at h
  · cases h
  · cases h
  · cases h
  · exact beq_iff_eq.mp h

theorem Token.isFlat_of_text {token : Token} {text : String} (h : token.text = text)
    (hText : text ∉ openings ∧ text ∉ closings) : token.IsFlat := fun _ => h ▸ hText

theorem Token.isFlat_of_kind {token : Token} (h : token.kind ≠ .punctuator) : token.IsFlat :=
  fun hKind => absurd hKind h

namespace Grammar

/-- Where `before` brackets are open in front of some lexemes, `after` are open behind them, and
none of those that were open outside is closed. -/
def Bracketed (before after : Nat) (lexemes : List Lexeme) : Prop :=
  ∀ outside rest, afterClosing (outside + 1 + before) (lexemes ++ rest) =
    afterClosing (outside + 1 + after) rest

variable {before between after : Nat} {lexeme : Lexeme} {lexemes more : List Lexeme}

theorem Bracketed.nil : Bracketed before before [] := fun _ _ => rfl

theorem Bracketed.append (h : Bracketed before between lexemes)
    (h' : Bracketed between after more) : Bracketed before after (lexemes ++ more) := by
  intro outside rest
  rw [List.append_assoc, h, h']

/-- More brackets may be open on the outside. -/
theorem Bracketed.inside (h : Bracketed before after lexemes) (outer : Nat) :
    Bracketed (outer + before) (outer + after) lexemes := by
  intro outside rest
  rw [show outside + 1 + (outer + before) = outside + outer + 1 + before by omega, h,
    show outside + outer + 1 + after = outside + 1 + (outer + after) by omega]

theorem bracketed_flat (h : lexeme.token.IsFlat) : Bracketed before before [lexeme] := by
  intro outside rest
  rw [List.singleton_append, afterClosing]
  by_cases hKind : lexeme.token.kind = .punctuator
  · obtain ⟨hOpening, hClosing⟩ := h hKind
    rw [if_neg (by simpa using hKind), if_neg (by simpa [Token.openings] using hOpening),
      if_neg (by simpa [Token.closings] using hClosing)]
  · rw [if_pos (by simpa using hKind)]

theorem bracketed_opening (hKind : lexeme.token.kind = .punctuator)
    (h : lexeme.token.text ∈ Token.openings) : Bracketed before (before + 1) [lexeme] := by
  intro outside rest
  rw [List.singleton_append, afterClosing, if_neg (by simpa using hKind),
    if_pos (by simpa [Token.openings] using h), Nat.add_assoc]

theorem bracketed_closing (hKind : lexeme.token.kind = .punctuator)
    (h : lexeme.token.text ∈ Token.closings) : Bracketed (before + 1) before [lexeme] := by
  intro outside rest
  have hOpening : lexeme.token.text ∉ Token.openings := by
    simp only [Token.closings, Token.openings, List.mem_cons, List.not_mem_nil, or_false] at h ⊢
    rcases h with h | h | h <;> simp [h]
  rw [List.singleton_append, afterClosing, if_neg (by simpa using hKind),
    if_neg (by simpa [Token.openings] using hOpening),
    if_pos (by simpa [Token.closings] using h), if_neg (by omega)]
  rfl

end Grammar

end EcmaLint
