import EcmaLint.Grammar.Parser
import EcmaLint.Proofs.Grammar.Yields

/-! A production and a parser side by side. The production is handed its context and the parser
has it in its state; they go the same way from a cursor on, and whatever comes of it, the parser
has its context back. What they read has a property, and where they fail they do so at a place of
a given kind. All of it is shown along the text of productions by one rule for each way of putting
them together, so that a proof about a production says at once how far it gets, where its errors
lie, that it puts back what it sets, and that it does not matter which of two grammars it comes
back to. -/
namespace EcmaLint

/-- What a result comes to: a value with a property, or an error at a place. -/
def Lands {α : Type} (place : Nat → Prop) (property : α → Prop) : Except ParseError α → Prop
  | .ok value => property value
  | .error error => place error.offset

namespace Lands

variable {α β : Type} {place : Nat → Prop} {property : α → Prop}

theorem imp {between : α → Prop} {result : Except ParseError α} (h : Lands place between result)
    (hImp : ∀ value, between value → property value) : Lands place property result := by
  cases result with
  | ok value => exact hImp value h
  | error error => exact h

theorem bind {between : β → Prop} {first : Except ParseError β} {next : β → Except ParseError α}
    (h : Lands place between first)
    (hNext : ∀ value, between value → Lands place property (next value)) :
    Lands place property (first >>= next) := by
  cases first with
  | ok value => exact hNext value h
  | error error => exact h

end Lands

/-- Every offset that a cursor knows of is a place, and so is the end of the program. -/
structure Cursor.LiesIn (cursor : Cursor) (place : Nat → Prop) (size : Nat) : Prop where
  size : place size
  tokens : ∀ lexeme ∈ cursor.rest, place lexeme.token.span.start ∧ place lexeme.token.span.stop
  previousEnd : place cursor.previousEnd
  shorthandDefaults : ∀ offset ∈ cursor.shorthandDefaults, place offset

theorem Cursor.LiesIn.current {place : Nat → Prop} {size : Nat} {cursor : Cursor} {token : Token}
    (h : cursor.LiesIn place size) (hToken : cursor.current? = some token) :
    place token.span.start ∧ place token.span.stop := by
  obtain ⟨lexeme, hLexeme, rfl⟩ := Option.map_eq_some_iff.mp hToken
  exact h.tokens lexeme (List.mem_of_head? hLexeme)

namespace Production

variable {α β σ : Type}

/-- A parser comes to what a production does. It keeps the context, also where it fails. -/
inductive Agrees (context : Context) :
    Except ParseError (α × Cursor) → EStateM.Result ParseError ParserState α → Prop
  | ok (value : α) (cursor : Cursor) :
      Agrees context (.ok (value, cursor)) (.ok value ⟨context, cursor⟩)
  | error (error : ParseError) (cursor : Cursor) :
      Agrees context (.error error) (.error error ⟨context, cursor⟩)

theorem Agrees.bind {first : Production β} {second : Parser β} {next : β → Production α}
    {other : β → Parser α} {context : Context} {cursor : Cursor}
    (h : Agrees context (first context cursor) (second ⟨context, cursor⟩))
    (hNext : ∀ value later, first context cursor = .ok (value, later) →
      Agrees context (next value context later) (other value ⟨context, later⟩)) :
    Agrees context ((first >>= next) context cursor) ((second >>= other) ⟨context, cursor⟩) := by
  change Agrees context (first context cursor >>= fun result => next result.1 context result.2)
    (EStateM.bind second other ⟨context, cursor⟩)
  unfold EStateM.bind
  generalize second ⟨context, cursor⟩ = result at h ⊢
  generalize hFirst : first context cursor = outcome at h ⊢
  cases h with
  | ok value later => exact hNext value later hFirst
  | error error later => exact .error error later

end Production

/-- Behind a part the context is what it was before. -/
theorem Shift.leave_enter (shift : Shift) (context : Context) :
    shift.leave context (shift.enter context) = context := by
  cases shift <;> rfl

namespace Production

theorem Agrees.within {shift : Shift} {first : Production α} {second : Parser α}
    {context : Context} {cursor : Cursor}
    (h : Agrees (shift.enter context) (first (shift.enter context) cursor)
      (second ⟨shift.enter context, cursor⟩)) :
    Agrees context (Scoped.within shift first context cursor)
      (Scoped.within shift second ⟨context, cursor⟩) := by
  have hFirst : Scoped.within shift first context cursor = first (shift.enter context) cursor := rfl
  rw [hFirst]
  dsimp only [Scoped.within]
  generalize second ⟨shift.enter context, cursor⟩ = result at h ⊢
  generalize first (shift.enter context) cursor = outcome at h ⊢
  have hLeave := shift.leave_enter context
  cases h with
  | ok value later =>
      dsimp only
      rw [hLeave]
      exact .ok value later
  | error error later =>
      dsimp only
      rw [hLeave]
      exact .error error later

/-- What is put back is what is there, for nothing that was read has changed it. -/
theorem Agrees.keepingIn {first : Production α} {second : Parser α} {context : Context}
    {cursor : Cursor} (h : Agrees context (first context cursor) (second ⟨context, cursor⟩)) :
    Agrees context (Scoped.keepingIn first context cursor)
      (Scoped.keepingIn second ⟨context, cursor⟩) := by
  dsimp only [Scoped.keepingIn]
  generalize second ⟨context, cursor⟩ = result at h ⊢
  generalize first context cursor = outcome at h ⊢
  cases h with
  | ok value later => exact .ok value later
  | error error later => exact .error error later

theorem Agrees.outcome_eq {production : Production α} {parser : Parser α} {context : Context}
    {cursor : Cursor} (h : Agrees context (production context cursor) (parser ⟨context, cursor⟩)) :
    parser.outcome ⟨context, cursor⟩ =
      (fun result => (result.1, ⟨context, result.2⟩)) <$> production context cursor := by
  unfold Parser.outcome
  generalize parser ⟨context, cursor⟩ = result at h ⊢
  generalize production context cursor = outcome at h ⊢
  cases h <;> rfl

/-- A production and a parser read the same from a cursor on. What they read has a property, and
if they fail they do so at a place. -/
structure Follows (place : Nat → Prop) (production : Production α) (parser : Parser α)
    (context : Context) (cursor : Cursor) (property : α → Cursor → Prop) : Prop where
  agrees : Agrees context (production context cursor) (parser ⟨context, cursor⟩)
  lands : Lands place (fun result => property result.1 result.2) (production context cursor)

namespace Follows

variable {place : Nat → Prop} {context : Context} {cursor : Cursor} {property : α → Cursor → Prop}

theorem imp {between : α → Cursor → Prop} {first : Production α} {second : Parser α}
    (h : Follows place first second context cursor between)
    (hImp : ∀ value later, between value later → property value later) :
    Follows place first second context cursor property :=
  ⟨h.agrees, h.lands.imp fun result => hImp result.1 result.2⟩

theorem pure {value : α} (h : property value cursor) :
    Follows place (Pure.pure value) (Pure.pure value) context cursor property :=
  ⟨.ok value cursor, h⟩

theorem bind {first : Production β} {second : Parser β} {next : β → Production α}
    {other : β → Parser α} {between : β → Cursor → Prop}
    (h : Follows place first second context cursor between)
    (hNext : ∀ value later, between value later →
      Follows place (next value) (other value) context later property) :
    Follows place (first >>= next) (second >>= other) context cursor property := by
  obtain ⟨hAgrees, hLands⟩ := h
  refine ⟨hAgrees.bind fun value later hFirst => ?_,
    hLands.bind fun result hBetween => (hNext _ _ hBetween).lands⟩
  rw [hFirst] at hLands
  exact (hNext value later hLands).agrees

theorem map {f : β → α} {first : Production β} {second : Parser β}
    (h : Follows place first second context cursor fun value later => property (f value) later) :
    Follows place (f <$> first) (f <$> second) context cursor property :=
  h.bind fun _ _ hValue => pure hValue

theorem throw {error : ParseError} (h : place error.offset) :
    Follows place (MonadExcept.throw error) (MonadExcept.throw error) context cursor property :=
  ⟨.error error cursor, h⟩

theorem fault {cause : SyntaxFault} {offset : Nat} (h : place offset) :
    Follows place (Production.fault cause offset) (Production.fault cause offset) context cursor
      property :=
  throw h

theorem get_bind {next : Cursor → Production α} {other : Cursor → Parser α}
    (h : Follows place (next cursor) (other cursor) context cursor property) :
    Follows place (get >>= next) (get >>= other) context cursor property :=
  ⟨h.agrees, h.lands⟩

theorem read_bind {next : Context → Production α} {other : Context → Parser α}
    (h : Follows place (next context) (other context) context cursor property) :
    Follows place (read >>= next) (read >>= other) context cursor property :=
  ⟨h.agrees, h.lands⟩

theorem unexpected (h : cursor.LiesIn place context.size) :
    Follows place Production.unexpected Production.unexpected context cursor property := by
  refine get_bind ?_
  cases hToken : cursor.current? with
  | some token => exact fault (h.current hToken).1
  | none => exact read_bind (fault h.size)

theorem within {shift : Shift} {first : Production α} {second : Parser α}
    (h : Follows place first second (shift.enter context) cursor property) :
    Follows place (Scoped.within shift first) (Scoped.within shift second) context cursor
      property :=
  ⟨.within h.agrees, h.lands⟩

theorem keepingIn {first : Production α} {second : Parser α}
    (h : Follows place first second context cursor property) :
    Follows place (Scoped.keepingIn first) (Scoped.keepingIn second) context cursor property :=
  ⟨.keepingIn h.agrees, h.lands⟩

theorem modify_bind {change : Cursor → Cursor} {next : Unit → Production α}
    {other : Unit → Parser α}
    (h : Follows place (next ()) (other ()) context (change cursor) property) :
    Follows place (modify change >>= next) (modify change >>= other) context cursor property :=
  ⟨h.agrees, h.lands⟩

theorem modify {change : Cursor → Cursor} {property : Unit → Cursor → Prop}
    (h : property () (change cursor)) :
    Follows place (modify change) (modify change) context cursor property :=
  ⟨.ok () (change cursor), h⟩

theorem ite {condition : Prop} [Decidable condition] {first second : Production α}
    {other another : Parser α}
    (hTrue : condition → Follows place first other context cursor property)
    (hFalse : ¬condition → Follows place second another context cursor property) :
    Follows place (if condition then first else second) (if condition then other else another)
      context cursor property := by
  split
  case isTrue h => exact hTrue h
  case isFalse h => exact hFalse h

/-- A step that is made only under a condition, with what comes behind it. -/
theorem optional {condition : Prop} [Decidable condition] {step : Production Unit}
    {twin : Parser Unit} {next : Unit → Production α} {other : Unit → Parser α}
    {between : Cursor → Prop}
    (hStep : condition → Follows place step twin context cursor fun _ => between)
    (hSkip : ¬condition → between cursor)
    (hNext : ∀ later, between later → Follows place (next ()) (other ()) context later property) :
    Follows place (if condition then step >>= next else next ())
      (if condition then twin >>= other else other ()) context cursor property :=
  ite (fun h => (hStep h).bind fun _ => hNext) fun h => hNext cursor (hSkip h)

/-- As `optional`, for two steps. -/
theorem optional_two {condition : Prop} [Decidable condition] {first : Production β}
    {second : β → Production Unit} {third : Parser β} {fourth : β → Parser Unit}
    {next : Unit → Production α} {other : Unit → Parser α} {between : Cursor → Prop}
    (hSteps : condition →
      Follows place (first >>= second) (third >>= fourth) context cursor fun _ => between)
    (hSkip : ¬condition → between cursor)
    (hNext : ∀ later, between later → Follows place (next ()) (other ()) context later property) :
    Follows place (if condition then first >>= fun value => second value >>= next else next ())
      (if condition then third >>= fun value => fourth value >>= other else other ())
      context cursor property := by
  simp only [← bind_assoc]
  exact optional hSteps hSkip hNext

/-- As `optional_two`, for three steps. -/
theorem optional_three {γ : Type} {condition : Prop} [Decidable condition] {first : Production β}
    {second : β → Production γ} {third : γ → Production Unit} {fourth : Parser β}
    {fifth : β → Parser γ} {sixth : γ → Parser Unit} {next : Unit → Production α}
    {other : Unit → Parser α} {between : Cursor → Prop}
    (hSteps : condition →
      Follows place (first >>= fun value => second value >>= third)
        (fourth >>= fun value => fifth value >>= sixth) context cursor fun _ => between)
    (hSkip : ¬condition → between cursor)
    (hNext : ∀ later, between later → Follows place (next ()) (other ()) context later property) :
    Follows place
      (if condition then first >>= fun value => second value >>= fun value =>
        third value >>= next else next ())
      (if condition then fourth >>= fun value => fifth value >>= fun value =>
        sixth value >>= other else other ()) context cursor property := by
  refine ite (fun h => ?_) fun h => hNext cursor (hSkip h)
  have hAll := (hSteps h).bind fun _ => hNext
  simp only [bind_assoc] at hAll
  exact hAll

/-- As `optional_two`, where something else may be done under another condition. -/
theorem optional_two_or {condition another : Prop} [Decidable condition] [Decidable another]
    {first : Production β} {second : β → Production Unit} {step : Production Unit}
    {third : Parser β} {fourth : β → Parser Unit} {twin : Parser Unit}
    {next : Unit → Production α} {other : Unit → Parser α} {between : Cursor → Prop}
    (hSteps : condition →
      Follows place (first >>= second) (third >>= fourth) context cursor fun _ => between)
    (hStep : another → Follows place step twin context cursor fun _ => between)
    (hSkip : ¬another → between cursor)
    (hNext : ∀ later, between later → Follows place (next ()) (other ()) context later property) :
    Follows place
      (if condition then first >>= fun value => second value >>= next
        else if another then step >>= next else next ())
      (if condition then third >>= fun value => fourth value >>= other
        else if another then twin >>= other else other ()) context cursor property := by
  simp only [← bind_assoc]
  exact ite (fun h => (hSteps h).bind fun _ => hNext) fun _ => optional hStep hSkip hNext

/-- A check that fails unless a condition holds, with what comes behind it. -/
theorem ensure {condition : Prop} [Decidable condition] {step : Production Unit}
    {twin : Parser Unit} {next : Unit → Production α} {other : Unit → Parser α}
    {between : Cursor → Prop} (hSkip : condition → between cursor)
    (hStep : ¬condition → Follows place step twin context cursor fun _ => between)
    (hNext : ∀ later, between later → Follows place (next ()) (other ()) context later property) :
    Follows place (if condition then next () else step >>= next)
      (if condition then other () else twin >>= other) context cursor property :=
  ite (fun h => hNext cursor (hSkip h)) fun h => (hStep h).bind fun _ => hNext

/-- As `ensure`, for two steps. -/
theorem ensure_two {condition : Prop} [Decidable condition] {first : Production β}
    {second : β → Production Unit} {third : Parser β} {fourth : β → Parser Unit}
    {next : Unit → Production α} {other : Unit → Parser α} {between : Cursor → Prop}
    (hSkip : condition → between cursor)
    (hSteps : ¬condition →
      Follows place (first >>= second) (third >>= fourth) context cursor fun _ => between)
    (hNext : ∀ later, between later → Follows place (next ()) (other ()) context later property) :
    Follows place (if condition then next () else first >>= fun value => second value >>= next)
      (if condition then other () else third >>= fun value => fourth value >>= other)
      context cursor property := by
  simp only [← bind_assoc]
  exact ensure hSkip hSteps hNext

/-- One of two readings, with what comes behind both. -/
theorem either {condition : Prop} [Decidable condition] {first second : Production β}
    {third fourth : Parser β} {next : β → Production α} {other : β → Parser α}
    {between : β → Cursor → Prop}
    (hTrue : condition → Follows place first third context cursor between)
    (hFalse : ¬condition → Follows place second fourth context cursor between)
    (hNext : ∀ value later, between value later →
      Follows place (next value) (other value) context later property) :
    Follows place (if condition then first >>= next else second >>= next)
      (if condition then third >>= other else fourth >>= other) context cursor property :=
  ite (fun h => (hTrue h).bind hNext) fun h => (hFalse h).bind hNext

/-- As `either`, where the first reading is the last of three steps. -/
theorem either_three {γ δ : Type} {condition : Prop} [Decidable condition] {first : Production γ}
    {second : γ → Production δ} {third : δ → Production β} {last : Production β}
    {fourth : Parser γ} {fifth : γ → Parser δ} {sixth : δ → Parser β} {another : Parser β}
    {next : β → Production α} {other : β → Parser α} {between : β → Cursor → Prop}
    (hTrue : condition → Follows place (first >>= fun value => second value >>= third)
      (fourth >>= fun value => fifth value >>= sixth) context cursor between)
    (hFalse : ¬condition → Follows place last another context cursor between)
    (hNext : ∀ value later, between value later →
      Follows place (next value) (other value) context later property) :
    Follows place
      (if condition then first >>= fun value => second value >>= fun value =>
        third value >>= next else last >>= next)
      (if condition then fourth >>= fun value => fifth value >>= fun value =>
        sixth value >>= other else another >>= other) context cursor property := by
  refine ite (fun h => ?_) fun h => (hFalse h).bind hNext
  have hAll := (hTrue h).bind hNext
  simp only [bind_assoc] at hAll
  exact hAll

/-- As `either`, where both readings are the last of three steps. -/
theorem either_threes {γ δ ε ζ : Type} {condition : Prop} [Decidable condition]
    {first : Production γ} {second : γ → Production δ} {third : γ → δ → Production β}
    {fourth : Production ε} {fifth : ε → Production ζ} {sixth : ε → ζ → Production β}
    {one : Parser γ} {two : γ → Parser δ} {three : γ → δ → Parser β}
    {four : Parser ε} {five : ε → Parser ζ} {six : ε → ζ → Parser β}
    {next : β → Production α} {other : β → Parser α} {between : β → Cursor → Prop}
    (hTrue : condition → Follows place (first >>= fun value => second value >>= third value)
      (one >>= fun value => two value >>= three value) context cursor between)
    (hFalse : ¬condition → Follows place (fourth >>= fun value => fifth value >>= sixth value)
      (four >>= fun value => five value >>= six value) context cursor between)
    (hNext : ∀ value later, between value later →
      Follows place (next value) (other value) context later property) :
    Follows place
      (if condition then first >>= fun value => second value >>= fun result =>
        third value result >>= next else fourth >>= fun value => fifth value >>= fun result =>
        sixth value result >>= next)
      (if condition then one >>= fun value => two value >>= fun result =>
        three value result >>= other else four >>= fun value => five value >>= fun result =>
        six value result >>= other) context cursor property := by
  refine ite (fun h => ?_) fun h => ?_
  · have hAll := (hTrue h).bind hNext
    simp only [bind_assoc] at hAll
    exact hAll
  · have hAll := (hFalse h).bind hNext
    simp only [bind_assoc] at hAll
    exact hAll

/-- Repeating turns that go the same way. -/
theorem iterate {turn : σ → Production (Turn σ β)} {twin : σ → Parser (Turn σ β)} {state : σ}
    (invariant : σ → Cursor → Prop) {property : β → Cursor → Prop} (h : invariant state cursor)
    (hLies : ∀ state later, invariant state later → later.LiesIn place context.size)
    (hTurn : ∀ state later, invariant state later →
      Follows place (turn state) (twin state) context later (Turn.Meets invariant property)) :
    Follows place (Production.iterate turn state) (Production.iterate twin state) context cursor
      property := by
  have hTurns : ∀ n state later, invariant state later →
      Follows place (turns turn n state) (turns twin n state) context later property := by
    intro n
    induction n with
    | zero => exact fun state later hState => unexpected (hLies state later hState)
    | succ n ih =>
        intro state later hState
        refine (hTurn state later hState).bind fun outcome after hMeets => ?_
        cases outcome with
        | again next => exact ih next after hMeets
        | done result => exact pure hMeets
  exact get_bind (hTurns _ state cursor h)

end Follows
end Production

end EcmaLint
