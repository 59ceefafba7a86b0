import EcmaLint.Proofs.Exchange.Alike
import EcmaLint.Proofs.Exchange.Looks
import EcmaLint.Proofs.Grammar.Reading

/-! One stretch of lexemes in the place of another. The old text and the new one are read side by
side. Before the stretch and behind it the two cursors are in step: what they have read is alike,
and so is what they see ahead. Where the old text is read across the stretch in another way than as
the one property that is to change, the new text is lost sight of. -/
namespace EcmaLint

open Production

/-- How far the reading of the two texts has got. -/
inductive Exchange.Stage where
  | before
  | after
  /-- The stretch was read across in some other way. -/
  | lost
  deriving DecidableEq

/-- One stretch of lexemes in the place of another, and what stands around it. -/
structure Exchange where
  front : List Lexeme
  out : List Lexeme
  into : List Lexeme
  back : List Lexeme
  newBack : List Lexeme
  /-- The year of the edition in which both texts are read. -/
  year : Nat
  size : Nat
  newSize : Nat
  /-- How the bounds of tokens outside the stretch have moved. -/
  shift : Nat → Nat → Prop
  /-- How the defaults have moved that wait for a pattern. -/
  waits : Exchange.Stage → Nat → Nat → Prop
  /-- The property that is read off the stretch, if that one is to change. -/
  property? : Option Node
  becomes : Node → Prop
  /-- What is known once the property was read. -/
  known : Prop

namespace Exchange

/-- Behind the stretch the two texts stay in step, and what is lost is not found again. -/
def Stage.Leads (earlier later : Stage) : Prop := earlier ≠ .before → later = earlier

namespace Stage

variable {first second third : Stage}

theorem Leads.refl (stage : Stage) : stage.Leads stage := fun _ => rfl

theorem Leads.trans (h : first.Leads second) (h' : second.Leads third) : first.Leads third :=
  fun hFirst => (h' (h hFirst ▸ hFirst)).trans (h hFirst)

theorem Leads.ne_lost (h : first.Leads second) (hSecond : second ≠ .lost) : first ≠ .lost := by
  rintro rfl
  exact hSecond (h (by decide))

theorem Leads.ne_after (h : first.Leads second) (hSecond : second ≠ .after) : first ≠ .after := by
  rintro rfl
  exact hSecond (h (by decide))

theorem leads_of_eq_before (h : first = .before) : first.Leads second := fun hNot => absurd h hNot

end Stage

variable (W : Exchange)

/-- How the offsets have moved at which nodes start and end. -/
def Near (offset moved : Nat) : Prop :=
  W.shift offset moved ∨ offset = W.size ∧ moved = W.newSize

def Bounds (span moved : Span) : Prop :=
  W.Near span.start moved.start ∧ W.Near span.stop moved.stop

/-- The property becomes one of the new ones. -/
def Becomes (node other : Node) : Prop := W.property? = some node ∧ W.becomes other

/-- Trees that differ in the property and in where they stand. -/
abbrev Alike : Node → Node → Prop := Node.Alike W.Bounds W.Becomes

/-- In no object below some nodes does the property stand. -/
def Quiet (nodes : List Node) : Prop :=
  ∀ object ∈ Node.forest nodes, object.kind = .objectExpression →
    ∀ property ∈ W.property?, property ∉ object.children

/-- What is left to read in the old text from the stretch on. -/
def tail : List Lexeme := W.out ++ W.back

/-- What is left to read in the new text from the stretch on. -/
def newTail : List Lexeme := W.into ++ W.newBack

/-- The same contexts, but for the size of the text and for a nesting that may be less deep. -/
structure Fits (context other : Context) : Prop where
  edition_eq : context.year = W.year
  year_eq : other.year = context.year
  size_eq : context.size = W.size
  newSize_eq : other.size = W.newSize
  newlineAtEnd_eq : other.newlineAtEnd = context.newlineAtEnd
  inFunction_eq : other.inFunction = context.inFunction
  inAsync_eq : other.inAsync = context.inAsync
  inGenerator_eq : other.inGenerator = context.inGenerator
  withoutIn_eq : other.withoutIn = context.withoutIn
  depth_le : other.depth ≤ context.depth

/-- Lexemes before the stretch in the old text and in the new one, from which the same is seen. -/
structure Ahead (lexemes others : List Lexeme) : Prop where
  ne_nil : lexemes ≠ []
  behind : lexemes <:+ W.front
  alike : List.Forall₂ (Lexeme.Alike W.shift) lexemes others
  looks : ∀ n < lexemes.length, ∀ cursor other : Cursor, cursor.rest = lexemes.drop n ++ W.tail →
    other.rest = others.drop n ++ W.newTail → cursor.Looks other

/-- Both cursors stand before the stretch. -/
def Before (cursor other : Cursor) : Prop :=
  ∃ lexemes others, W.Ahead lexemes others ∧ cursor.rest = lexemes ++ W.tail ∧
    other.rest = others ++ W.newTail

/-- Both cursors stand behind the stretch. -/
structure After (cursor other : Cursor) : Prop where
  behind : cursor.rest <:+ W.back
  alike : List.Forall₂ (Lexeme.Alike W.shift) cursor.rest other.rest
  known : W.known

/-- Where the two cursors stand. Of a text that is lost only the old cursor counts. -/
def Place : Stage → Cursor → Cursor → Prop
  | .before => W.Before
  | .after => W.After
  | .lost => fun cursor _ => cursor.rest <:+ W.tail

/-- Two cursors from which the reading of the two texts can go on. -/
structure Meets (stage : Stage) (cursor other : Cursor) : Prop where
  inOrder : Token.InOrder cursor.tokens
  tidy : ∀ lexeme ∈ cursor.rest, lexeme.IsTidy
  place : W.Place stage cursor other
  previousEnd : stage ≠ .lost → W.Near cursor.previousEnd other.previousEnd
  defaults : stage ≠ .lost →
    List.Forall₂ (W.waits stage) cursor.shorthandDefaults other.shorthandDefaults

/-- What is to be known of an exchange to compare the two texts. -/
structure IsFair : Prop where
  near_le : ∀ {first moved second other}, W.Near first moved → W.Near second other →
    (first ≤ second ↔ moved ≤ other)
  waits_of_mem : ∀ {stage} {lexeme copy : Lexeme}, lexeme.Alike W.shift copy →
    lexeme.token.span.start < lexeme.token.span.stop →
    (stage = .before ∧ lexeme ∈ W.front ∨ stage = .after ∧ lexeme ∈ W.back) →
    W.waits stage lexeme.token.span.start copy.token.span.start
  waits_le : ∀ {stage bound moved offset other}, W.Near bound moved → W.waits stage offset other →
    (bound ≤ offset ↔ moved ≤ other)
  back : List.Forall₂ (Lexeme.Alike W.shift) W.back W.newBack
  into_ne_nil : W.into ≠ []
  inOrder : Token.InOrder (W.tail.map Lexeme.token)
  /-- The property lies over the stretch. -/
  property : ∀ property ∈ W.property?, property.kind = .property ∧
    property.span.Bounds (W.out.map Lexeme.token)
  /-- A property stands in its place. -/
  into_is_eq_false : W.property?.isSome = true →
    (∀ lexeme ∈ W.tail.head?, lexeme.is "\x7d" = false ∧ lexeme.is "..." = false) →
    ∀ lexeme ∈ W.into.head?, lexeme.is "\x7d" = false ∧ lexeme.is "..." = false
  becomes : Node.KeepsTargets W.Becomes

namespace Ahead

variable {W} {lexeme other : Lexeme} {lexemes others : List Lexeme}

theorem tail (h : W.Ahead (lexeme :: lexemes) (other :: others)) (hNonempty : lexemes ≠ []) :
    W.Ahead lexemes others where
  ne_nil := hNonempty
  behind := (List.suffix_cons lexeme lexemes).trans h.behind
  alike := (List.forall₂_cons.mp h.alike).2
  looks n hn := h.looks (n + 1) (Nat.succ_lt_succ hn)

/-- Both texts go on with lexemes that are alike. -/
theorem exists_cons (h : W.Ahead lexemes others) : ∃ first second rest more,
    lexemes = first :: rest ∧ others = second :: more ∧ Lexeme.Alike W.shift first second ∧
      List.Forall₂ (Lexeme.Alike W.shift) rest more := by
  have hNonempty := h.ne_nil
  cases hAlike : h.alike with
  | nil => exact absurd rfl hNonempty
  | cons hFirst hRest => exact ⟨_, _, _, _, rfl, rfl, hFirst, hRest⟩

end Ahead

/-- Where the lexemes left are alike to the end, the same is seen. -/
theorem looks_of_forall₂ {shift : Nat → Nat → Prop} {cursor other : Cursor}
    (h : List.Forall₂ (Lexeme.Alike shift) cursor.rest other.rest) : cursor.Looks other := by
  have hMatches := h.imp fun _ _ hAlike => hAlike.toMatches
  have hGet : ∀ {lexemes others : List Lexeme}, List.Forall₂ Lexeme.Matches lexemes others →
      ∀ n : Nat, Option.Rel Lexeme.Matches lexemes[n]? others[n]? := by
    intro lexemes others hAll
    induction hAll with
    | nil => exact fun _ => .none
    | cons hFirst _ ih =>
        rintro (_ | n)
        · exact .some hFirst
        · exact ih n
  have hArrow : ∀ {lexemes others : List Lexeme}, List.Forall₂ Lexeme.Matches lexemes others →
      Grammar.arrowFollows (Grammar.afterArrowParams others) =
        Grammar.arrowFollows (Grammar.afterArrowParams lexemes) := by
    intro lexemes others hAll
    refine Grammar.arrowFollows_eq ?_
    cases hAll with
    | nil => exact .none
    | cons hFirst hRest =>
        rw [Grammar.afterArrowParams, Grammar.afterArrowParams, hFirst.kind_eq,
          hFirst.isPunctuator_eq]
        split
        · exact .some hRest
        split
        · exact Grammar.afterClosing_rel (.cons hFirst hRest) 0
        · exact .none
  exact ⟨hGet hMatches 0, fun _ => hGet hMatches 1, hArrow hMatches,
    fun _ => hArrow (List.forall₂_drop 1 hMatches)⟩

variable {W}

namespace Meets

variable {stage : Stage} {cursor other : Cursor}

theorem looks (h : W.Meets stage cursor other) (hStage : stage ≠ .lost) : cursor.Looks other := by
  have hPlace := h.place
  cases stage with
  | before =>
      obtain ⟨lexemes, others, hAhead, hRest, hOther⟩ := hPlace
      exact hAhead.looks 0 (List.length_pos_of_ne_nil hAhead.ne_nil) _ _ hRest hOther
  | after => exact looks_of_forall₂ hPlace.alike
  | lost => exact absurd rfl hStage

/-- The two current tokens, if there are any, are alike. -/
theorem current_cases (h : W.Meets stage cursor other) (hStage : stage ≠ .lost) :
    cursor.rest = [] ∧ other.rest = [] ∨ ∃ lexeme twin rest more,
      cursor.rest = lexeme :: rest ∧ other.rest = twin :: more ∧
        Lexeme.Alike W.shift lexeme twin := by
  have hPlace := h.place
  cases stage with
  | before =>
      obtain ⟨lexemes, others, hAhead, hRest, hOther⟩ := hPlace
      obtain ⟨first, second, rest, more, rfl, rfl, hFirst, -⟩ := hAhead.exists_cons
      exact .inr ⟨first, second, _, _, hRest, hOther, hFirst⟩
  | after =>
      have hAlike := hPlace.alike
      generalize cursor.rest = rest, other.rest = more at hAlike ⊢
      cases hAlike with
      | nil => exact .inl ⟨rfl, rfl⟩
      | cons hFirst _ => exact .inr ⟨_, _, _, _, rfl, rfl, hFirst⟩
  | lost => exact absurd rfl hStage

/-- The current tokens of both texts lie near each other. -/
theorem bounds_of_current {token : Token} {span : Span} (h : W.Meets stage cursor other)
    (hToken : cursor.current? = some token) (hTwin : other.current? = some { token with span })
    (hStage : stage ≠ .lost) : W.Bounds token.span span := by
  obtain ⟨hRest, -⟩ | ⟨lexeme, copy, rest, more, hRest, hMore, hAlike⟩ := h.current_cases hStage
  · rw [Cursor.current?, hRest] at hToken
    cases hToken
  · rw [Cursor.current?, hRest] at hToken
    rw [Cursor.current?, hMore] at hTwin
    obtain rfl : lexeme.token = token := Option.some.inj hToken
    have hSpan : copy.token = { lexeme.token with span } := Option.some.inj hTwin
    have hStart := hAlike.start
    have hStop := hAlike.stop
    rw [hSpan] at hStart hStop
    exact ⟨.inl hStart, .inl hStop⟩

/-- A new text may be lost sight of once the stretch is reached. -/
theorem lost (h : W.Meets stage cursor other) {twin : Cursor} (hRest : cursor.rest <:+ W.tail) :
    W.Meets .lost cursor twin :=
  ⟨h.inOrder, h.tidy, hRest, fun h => absurd rfl h, fun h => absurd rfl h⟩

/-- Nodes and defaults do not count, nor does the old end of the last token if both have moved. -/
theorem congr {later twin : Cursor} (h : W.Meets stage cursor other)
    (hRest : later.rest = cursor.rest) (hTwin : twin.rest = other.rest)
    (hEnd : stage ≠ .lost → W.Near later.previousEnd twin.previousEnd)
    (hDefaults : stage ≠ .lost →
      List.Forall₂ (W.waits stage) later.shorthandDefaults twin.shorthandDefaults) :
    W.Meets stage later twin := by
  refine ⟨?_, ?_, ?_, hEnd, hDefaults⟩
  · rw [Cursor.tokens, hRest]
    exact h.inOrder
  · rw [hRest]
    exact h.tidy
  · have hPlace := h.place
    cases stage with
    | before =>
        obtain ⟨lexemes, others, hAhead, hOld, hNew⟩ := hPlace
        exact ⟨lexemes, others, hAhead, hRest.trans hOld, hTwin.trans hNew⟩
    | after => exact ⟨hRest ▸ hPlace.behind, by rw [hRest, hTwin]; exact hPlace.alike, hPlace.known⟩
    | lost =>
        change later.rest <:+ W.tail
        rw [hRest]
        exact hPlace

end Meets

end Exchange

end EcmaLint
