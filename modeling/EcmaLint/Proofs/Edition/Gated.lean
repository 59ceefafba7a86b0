import EcmaLint.Grammar.Basic

/-! The same production under two editions. An edition can only forbid: the two runs go the same
way step by step until the earlier edition lacks a feature that the later one has, and there the
earlier run ends. This is kept up by every way in which productions are put together, so it is
shown along their text. The one word that is read by edition without being forbidden is `let`, so
all of this is about tokens without it. -/
namespace EcmaLint

/-- No token that is still to be read is the word `let`. -/
def Cursor.LetFree (cursor : Cursor) : Prop :=
  ∀ lexeme ∈ cursor.rest, lexeme.token.text ≠ "let"

namespace Cursor.LetFree

variable {cursor : Cursor}

theorem current? (h : cursor.LetFree) {token : Token} (hToken : cursor.current? = some token) :
    token.text ≠ "let" := by
  obtain ⟨lexeme, hLexeme, rfl⟩ := Option.map_eq_some_iff.mp hToken
  exact h lexeme (List.mem_of_head? hLexeme)

theorem atText (h : cursor.LetFree) : cursor.atText "let" = false := by
  rw [Cursor.atText, peekIs]
  cases hLexeme : cursor.rest[0]? with
  | none => rfl
  | some lexeme =>
      have hText := h lexeme (List.mem_of_getElem? hLexeme)
      rw [Option.any_some, Lexeme.is]
      split <;> simp [hText]

end Cursor.LetFree

namespace Production

variable {α β σ : Type}

/-- What a reading comes to in one year and in a later one: the same in both, or in the first a
feature is missing that the second has. -/
inductive Forbids (year later : Nat) :
    Except ParseError (α × Cursor) → Except ParseError (α × Cursor) → Prop where
  | same {result : Except ParseError (α × Cursor)}
      (letFree : ∀ value cursor, result = .ok (value, cursor) → cursor.LetFree) :
      Forbids year later result result
  | missing {feature : Feature} {offset : Nat} {result : Except ParseError (α × Cursor)}
      (lacked : year < feature.since) (had : feature.since ≤ later) :
      Forbids year later (.error ⟨.missingEdition feature, offset⟩) result

theorem Forbids.eq_or_missing {year later : Nat} {early late : Except ParseError (α × Cursor)}
    (h : Forbids year later early late) :
    early = late ∨ ∃ feature offset, year < feature.since ∧ feature.since ≤ later ∧
      early = .error ⟨.missingEdition feature, offset⟩ := by
  cases h with
  | same => exact .inl rfl
  | missing hLacked hHad => exact .inr ⟨_, _, hLacked, hHad, rfl⟩

/-- A production goes the same way in every year, except that it may miss a feature. -/
def Gated (production : Production α) : Prop :=
  ∀ (context : Context) (later : Nat) (cursor : Cursor), context.year ≤ later → cursor.LetFree →
    Forbids context.year later (production context cursor)
      (production { context with year := later } cursor)

namespace Gated

theorem pure (value : α) : Gated (Pure.pure value) := by
  intro context later cursor _ hFree
  refine .same ?_
  rintro _ _ ⟨⟩
  exact hFree

/-- What comes behind a production is compared where both runs of it have got to. -/
theorem bind {first : Production β} {next : β → Production α} (h : Gated first)
    (hNext : ∀ value, Gated (next value)) : Gated (first >>= next) := by
  intro context later cursor hYear hFree
  change Forbids _ _ (first context cursor >>= fun result => next result.1 context result.2)
    (first { context with year := later } cursor >>= fun result =>
      next result.1 { context with year := later } result.2)
  have hFirst := h context later cursor hYear hFree
  generalize first context cursor = early at hFirst ⊢
  generalize first { context with year := later } cursor = late at hFirst ⊢
  cases hFirst with
  | same hLater =>
      cases early with
      | error cause => exact .same fun _ _ h => by cases h
      | ok result => exact hNext result.1 context later result.2 hYear (hLater _ _ rfl)
  | missing hLacked hHad => exact .missing hLacked hHad

theorem map {f : β → α} {first : Production β} (h : Gated first) : Gated (f <$> first) :=
  h.bind fun value => pure (f value)

/-- An error that does not depend on the year. -/
theorem throw (error : ParseError) : Gated (MonadExcept.throw error : Production α) :=
  fun _ _ _ _ _ => .same fun _ _ h => by cases h

theorem fault (cause : SyntaxFault) (offset : Nat) :
    Gated (Production.fault cause offset : Production α) :=
  throw _

protected theorem get : Gated (MonadState.get : Production Cursor) := by
  intro context later cursor _ hFree
  refine .same ?_
  rintro _ _ ⟨⟩
  exact hFree

theorem get_bind {next : Cursor → Production α}
    (h : ∀ cursor, cursor.LetFree → Gated (next cursor)) : Gated (get >>= next) :=
  fun context later cursor hYear hFree => h cursor hFree context later cursor hYear hFree

/-- Asking the context for something other than the year. -/
theorem read_bind {next : Context → Production α} (h : ∀ context, Gated (next context))
    (hYear : ∀ context later, next { context with year := later } = next context) :
    Gated (read >>= next) := by
  intro context later cursor hLe hFree
  change Forbids _ _ (next context context cursor)
    (next { context with year := later } { context with year := later } cursor)
  rw [hYear context later]
  exact h context context later cursor hLe hFree

/-- Moving on, but not back to other tokens. -/
theorem modify {change : Cursor → Cursor}
    (h : ∀ cursor, cursor.LetFree → (change cursor).LetFree) : Gated (modify change) := by
  intro context later cursor _ hFree
  refine .same ?_
  rintro _ _ ⟨⟩
  exact h cursor hFree

theorem withReader {change : Context → Context} {inner : Production α} (h : Gated inner)
    (hYear : ∀ context, (change context).year = context.year)
    (hChange : ∀ context later,
      change { context with year := later } = { change context with year := later }) :
    Gated (MonadWithReader.withReader change inner) := by
  intro context later cursor hLe hFree
  change Forbids _ _ (inner (change context) cursor)
    (inner (change { context with year := later }) cursor)
  have hInner := h (change context) later cursor (by rwa [hYear]) hFree
  rwa [hYear, ← hChange] at hInner

theorem ite {condition : Prop} [Decidable condition] {first second : Production α}
    (hTrue : Gated first) (hFalse : Gated second) :
    Gated (if condition then first else second) := by
  split
  · exact hTrue
  · exact hFalse

/-- A step that is made only under a condition, with what comes behind it. -/
theorem optional {condition : Prop} [Decidable condition] {step : Production Unit}
    {next : Unit → Production α} (hStep : Gated step) (hNext : Gated (next ())) :
    Gated (if condition then step >>= next else next ()) :=
  ite (hStep.bind fun _ => hNext) hNext

/-- As `optional`, for two steps. -/
theorem optional_two {condition : Prop} [Decidable condition] {first : Production β}
    {second : β → Production Unit} {next : Unit → Production α} (hFirst : Gated first)
    (hSecond : ∀ value, Gated (second value)) (hNext : Gated (next ())) :
    Gated (if condition then first >>= fun value => second value >>= next else next ()) :=
  ite (hFirst.bind fun value => (hSecond value).bind fun _ => hNext) hNext

/-- As `optional`, for three steps. -/
theorem optional_three {γ : Type} {condition : Prop} [Decidable condition] {first : Production β}
    {second : β → Production γ} {third : γ → Production Unit} {next : Unit → Production α}
    (hFirst : Gated first) (hSecond : ∀ value, Gated (second value))
    (hThird : ∀ value, Gated (third value)) (hNext : Gated (next ())) :
    Gated (if condition then first >>= fun value => second value >>= fun value =>
      third value >>= next else next ()) :=
  ite (hFirst.bind fun value => (hSecond value).bind fun value =>
    (hThird value).bind fun _ => hNext) hNext

/-- As `optional_two`, where something else may be done under another condition. -/
theorem optional_two_or {condition another : Prop} [Decidable condition] [Decidable another]
    {first : Production β} {second : β → Production Unit} {step : Production Unit}
    {next : Unit → Production α} (hFirst : Gated first) (hSecond : ∀ value, Gated (second value))
    (hStep : Gated step) (hNext : Gated (next ())) :
    Gated (if condition then first >>= fun value => second value >>= next
      else if another then step >>= next else next ()) :=
  ite (hFirst.bind fun value => (hSecond value).bind fun _ => hNext) (optional hStep hNext)

/-- A check that is made unless a condition holds, with what comes behind it. -/
theorem ensure {condition : Prop} [Decidable condition] {step : Production Unit}
    {next : Unit → Production α} (hStep : Gated step) (hNext : Gated (next ())) :
    Gated (if condition then next () else step >>= next) :=
  ite hNext (hStep.bind fun _ => hNext)

/-- As `ensure`, for two steps. -/
theorem ensure_two {condition : Prop} [Decidable condition] {first : Production β}
    {second : β → Production Unit} {next : Unit → Production α} (hFirst : Gated first)
    (hSecond : ∀ value, Gated (second value)) (hNext : Gated (next ())) :
    Gated (if condition then next () else first >>= fun value => second value >>= next) :=
  ite hNext (hFirst.bind fun value => (hSecond value).bind fun _ => hNext)

/-- One of two readings, with what comes behind both. -/
theorem either {condition : Prop} [Decidable condition] {first second : Production β}
    {next : β → Production α} (hTrue : Gated first) (hFalse : Gated second)
    (hNext : ∀ value, Gated (next value)) :
    Gated (if condition then first >>= next else second >>= next) :=
  ite (hTrue.bind hNext) (hFalse.bind hNext)

/-- As `either`, where the first reading is the last of three steps. -/
theorem either_three {γ δ : Type} {condition : Prop} [Decidable condition]
    {first : Production γ} {second : γ → Production δ} {third : δ → Production β}
    {other : Production β} {next : β → Production α} (hFirst : Gated first)
    (hSecond : ∀ value, Gated (second value)) (hThird : ∀ value, Gated (third value))
    (hOther : Gated other) (hNext : ∀ value, Gated (next value)) :
    Gated (if condition then first >>= fun value => second value >>= fun value =>
      third value >>= next else other >>= next) :=
  ite (hFirst.bind fun value => (hSecond value).bind fun value => (hThird value).bind hNext)
    (hOther.bind hNext)

/-- As `either`, where both readings are the last of three steps. -/
theorem either_threes {γ δ ε ζ : Type} {condition : Prop} [Decidable condition]
    {first : Production γ} {second : γ → Production δ} {third : γ → δ → Production β}
    {other : Production ε} {another : ε → Production ζ} {last : ε → ζ → Production β}
    {next : β → Production α}
    (hTrue : Gated (first >>= fun value => second value >>= third value))
    (hFalse : Gated (other >>= fun value => another value >>= last value))
    (hNext : ∀ value, Gated (next value)) :
    Gated (if condition then first >>= fun value => second value >>= fun result =>
      third value result >>= next else other >>= fun value => another value >>= fun result =>
      last value result >>= next) := by
  have hFirst := hTrue.bind hNext
  have hSecond := hFalse.bind hNext
  simp only [bind_assoc] at hFirst hSecond
  exact ite hFirst hSecond

theorem unexpected : Gated (Production.unexpected : Production α) := by
  refine get_bind fun cursor _ => ?_
  split
  · exact fault _ _
  · exact read_bind (fun _ => fault _ _) fun _ _ => rfl

theorem turns {turn : σ → Production (Turn σ β)} (h : ∀ state, Gated (turn state)) (n : Nat)
    (state : σ) : Gated (Production.turns turn n state) := by
  induction n generalizing state with
  | zero => exact unexpected
  | succ n ih =>
      refine (h state).bind fun outcome => ?_
      cases outcome with
      | again next => exact ih next
      | done result => exact pure result

theorem iterate {turn : σ → Production (Turn σ β)} (h : ∀ state, Gated (turn state))
    (state : σ) : Gated (Production.iterate turn state) :=
  get_bind fun _ _ => turns h _ state

/-- The gate itself. Where the earlier year passes it so does the later one. -/
theorem require (feature : Feature) (offset : Nat) : Gated (require feature offset) := by
  intro context later cursor hYear hFree
  change Forbids _ _
    ((if feature.since ≤ context.year then Pure.pure () else
      Production.fault (.missingEdition feature) offset : Production Unit) context cursor)
    ((if feature.since ≤ later then Pure.pure () else
      Production.fault (.missingEdition feature) offset : Production Unit)
        { context with year := later } cursor)
  by_cases hEarly : feature.since ≤ context.year
  · rw [if_pos hEarly, if_pos (Nat.le_trans hEarly hYear)]
    exact pure () context later cursor hYear hFree
  · by_cases hLate : feature.since ≤ later
    · rw [if_neg hEarly, if_pos hLate]
      exact .missing (Nat.lt_of_not_le hEarly) hLate
    · rw [if_neg hEarly, if_neg hLate]
      exact fault _ _ context later cursor hYear hFree

theorem startOffset : Gated startOffset :=
  get_bind fun _ _ => read_bind (fun _ => pure _) fun _ _ => rfl

theorem bump : Gated bump := by
  refine modify fun cursor hFree => ?_
  cases hRest : cursor.rest with
  | nil => exact hFree
  | cons lexeme rest =>
      rw [Cursor.LetFree, hRest] at hFree
      exact (List.forall_mem_cons.mp hFree).2

theorem eat (text : String) : Gated (eat text) :=
  get_bind fun _ _ => ite (bump.bind fun _ => pure true) (pure false)

theorem expect (text : String) : Gated (expect text) :=
  (eat text).bind fun _ => ite (pure ()) unexpected

theorem newlineBefore : Gated newlineBefore := by
  refine get_bind fun cursor _ => ?_
  split
  · exact read_bind (fun _ => pure _) fun _ _ => rfl
  · exact pure _

theorem atStatementEnd : Gated atStatementEnd :=
  get_bind fun _ _ => newlineBefore.bind fun _ => pure _

theorem semicolon : Gated semicolon :=
  (eat ";").bind fun _ => ite (pure ()) (atStatementEnd.bind fun _ => ite (pure ()) unexpected)

theorem store (kind : NodeKind) (span : Span) (fields : List (FieldName × FieldValue)) :
    Gated (store kind span fields) := by
  refine get_bind fun cursor _ => bind (modify ?_) fun _ => pure _
  exact fun _ hFree => hFree

theorem finish (kind : NodeKind) (start : Nat) (fields : List (FieldName × FieldValue)) :
    Gated (finish kind start fields) :=
  get_bind fun _ _ => store kind _ fields

theorem identifier : Gated identifier := by
  refine get_bind fun cursor _ => ?_
  cases cursor.current? with
  | none => exact unexpected
  | some token => exact ite (bump.bind fun _ => store _ _ _) unexpected

theorem identifierName : Gated identifierName := by
  refine get_bind fun cursor _ => ?_
  cases cursor.current? with
  | none => exact unexpected
  | some token => exact ite (bump.bind fun _ => store _ _ _) unexpected

/-- How deep a part is nested does not depend on the year. -/
theorem nested {inner : Production α} (h : Gated inner) : Gated (nested inner) := by
  refine read_bind (fun context => ?_) fun _ _ => rfl
  exact ite (startOffset.bind fun _ => fault _ _) (h.withReader (fun _ => rfl) fun _ _ => rfl)

theorem allowIn {inner : Production α} (h : Gated inner) : Gated (allowIn inner) :=
  h.withReader (fun _ => rfl) fun _ _ => rfl

theorem withoutIn {inner : Production α} (h : Gated inner) : Gated (withoutIn inner) :=
  h.withReader (fun _ => rfl) fun _ _ => rfl

theorem inFunction {isAsync isGenerator : Bool} {inner : Production α} (h : Gated inner) :
    Gated (inFunction isAsync isGenerator inner) :=
  h.withReader (fun _ => rfl) fun _ _ => rfl

theorem toTarget (expression : Node) : Gated (Grammar.toTarget expression) := by
  unfold Grammar.toTarget
  split
  · exact throw _
  · refine bind (modify ?_) fun _ => pure _
    exact fun _ hFree => hFree

end Gated
end Production

end EcmaLint
