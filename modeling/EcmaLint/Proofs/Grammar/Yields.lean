import EcmaLint.Grammar.Production
import EcmaLint.Proofs.Except

/-! What productions yield, taken apart along their text. A property of every result of a
production is shown by one rule for each way in which productions are put together, so the proof
for a production follows its steps. A production that fails yields nothing. What holds of a result
wherever it is read has rules of its own (`Gives`), which leave the cursors out.

What productions give, wherever they are read from. Where only the result of a production
matters, and not the tokens behind it, the rules for what productions yield get by without
cursors: a step whose result does not matter is skipped. -/
namespace EcmaLint.Production

variable {α β γ δ σ : Type}

/-- What a context is handed to needs to put nothing back. -/
theorem keepingIn_eq (inner : Production α) : keepingIn inner = inner := rfl

/-- Whatever a production reads from a cursor on, if it can read it, has a property. -/
def Yields (production : Production α) (context : Context) (cursor : Cursor)
    (property : α → Cursor → Prop) : Prop :=
  ∀ value later, production context cursor = .ok (value, later) → property value later

/-- What a turn of a repetition leads to has the property of states or that of results. -/
def Turn.Meets (again : σ → Cursor → Prop) (done : β → Cursor → Prop) :
    Turn σ β → Cursor → Prop
  | .again state => again state
  | .done result => done result

namespace Yields

variable {context : Context} {cursor : Cursor} {property : α → Cursor → Prop}

theorem imp {between : α → Cursor → Prop} {production : Production α}
    (h : Yields production context cursor between)
    (hImp : ∀ value later, between value later → property value later) :
    Yields production context cursor property :=
  fun value later hRun => hImp value later (h value later hRun)

theorem and {production : Production α} {other : α → Cursor → Prop}
    (h : Yields production context cursor property)
    (h' : Yields production context cursor other) :
    Yields production context cursor fun value later => property value later ∧ other value later :=
  fun value later hRun => ⟨h value later hRun, h' value later hRun⟩

theorem pure {value : α} (h : property value cursor) :
    Yields (Pure.pure value) context cursor property := by
  rintro _ _ ⟨⟩
  exact h

theorem bind {first : Production β} {next : β → Production α} {between : β → Cursor → Prop}
    (h : Yields first context cursor between)
    (hNext : ∀ value later, between value later → Yields (next value) context later property) :
    Yields (first >>= next) context cursor property := by
  intro value later hRun
  change (first context cursor >>= fun result => next result.1 context result.2) = _ at hRun
  obtain ⟨result, hFirst, hRest⟩ := exists_of_bind_eq_ok hRun
  exact hNext _ _ (h _ _ hFirst) value later hRest

/-- What a step reads may not matter. -/
theorem skip {first : Production β} {next : β → Production α}
    (hNext : ∀ value later, Yields (next value) context later property) :
    Yields (first >>= next) context cursor property :=
  .bind (fun _ _ _ => trivial) fun value later (_ : True) => hNext value later

theorem map {f : β → α} {first : Production β}
    (h : Yields first context cursor fun value later => property (f value) later) :
    Yields (f <$> first) context cursor property :=
  h.bind fun _ _ hValue => pure hValue

theorem fault {cause : SyntaxFault} {offset : Nat} :
    Yields (Production.fault cause offset) context cursor property := by
  rintro _ _ ⟨⟩

theorem throw {error : ParseError} :
    Yields (MonadExcept.throw error) context cursor property := by
  rintro _ _ ⟨⟩

theorem get_bind {next : Cursor → Production α}
    (h : Yields (next cursor) context cursor property) :
    Yields (get >>= next) context cursor property := h

theorem read_bind {next : Context → Production α}
    (h : Yields (next context) context cursor property) :
    Yields (read >>= next) context cursor property := h

theorem modify {change : Cursor → Cursor} {property : Unit → Cursor → Prop}
    (h : property () (change cursor)) :
    Yields (modify change) context cursor property := by
  rintro _ _ ⟨⟩
  exact h

theorem withReader {change : Context → Context} {inner : Production α}
    (h : Yields inner (change context) cursor property) :
    Yields (MonadWithReader.withReader change inner) context cursor property := h

theorem ite {condition : Prop} [Decidable condition] {first second : Production α}
    (hTrue : condition → Yields first context cursor property)
    (hFalse : ¬condition → Yields second context cursor property) :
    Yields (if condition then first else second) context cursor property := by
  split
  case isTrue h => exact hTrue h
  case isFalse h => exact hFalse h

theorem unexpected : Yields Production.unexpected context cursor property := by
  unfold Production.unexpected
  refine get_bind ?_
  split
  · exact fault
  · exact read_bind fault

/-- Nothing comes behind what yields nothing. -/
theorem bind_of_never {first : Production β} {next : β → Production α}
    (h : Yields first context cursor fun _ _ => False) :
    Yields (first >>= next) context cursor property :=
  h.bind fun _ _ hFalse => hFalse.elim

theorem fault_bind {cause : SyntaxFault} {offset : Nat} {next : β → Production α} :
    Yields (Production.fault cause offset >>= next) context cursor property :=
  bind_of_never fault

theorem unexpected_bind {next : β → Production α} :
    Yields (Production.unexpected >>= next) context cursor property :=
  bind_of_never unexpected

/-- A step that is made only under a condition, with what comes behind it. -/
theorem optional {condition : Prop} [Decidable condition] {step : Production Unit}
    {next : Unit → Production α} {between : Cursor → Prop}
    (hStep : condition → Yields step context cursor fun _ => between)
    (hSkip : ¬condition → between cursor)
    (hNext : ∀ later, between later → Yields (next ()) context later property) :
    Yields (if condition then step >>= next else next ()) context cursor property :=
  ite (fun h => (hStep h).bind fun _ => hNext) fun h => hNext cursor (hSkip h)

theorem assoc {γ : Type} {first : Production β} {second : β → Production γ}
    {next : γ → Production α} (h : Yields ((first >>= second) >>= next) context cursor property) :
    Yields (first >>= fun value => second value >>= next) context cursor property := by
  rwa [bind_assoc] at h

/-- As `optional`, for two steps. -/
theorem optional_two {condition : Prop} [Decidable condition] {first : Production β}
    {second : β → Production Unit} {next : Unit → Production α} {between : Cursor → Prop}
    (hSteps : condition → Yields (first >>= second) context cursor fun _ => between)
    (hSkip : ¬condition → between cursor)
    (hNext : ∀ later, between later → Yields (next ()) context later property) :
    Yields (if condition then first >>= fun value => second value >>= next else next ())
      context cursor property :=
  ite (fun h => assoc ((hSteps h).bind fun _ => hNext)) fun h => hNext cursor (hSkip h)

/-- As `optional`, for three steps. -/
theorem optional_three {γ : Type} {condition : Prop} [Decidable condition] {first : Production β}
    {second : β → Production γ} {third : γ → Production Unit} {next : Unit → Production α}
    {between : Cursor → Prop}
    (hSteps : condition → Yields (first >>= fun value => second value >>= third) context cursor
      fun _ => between)
    (hSkip : ¬condition → between cursor)
    (hNext : ∀ later, between later → Yields (next ()) context later property) :
    Yields (if condition then first >>= fun value => second value >>= fun value =>
        third value >>= next else next ()) context cursor property := by
  refine ite (fun h => ?_) fun h => hNext cursor (hSkip h)
  have hAll := (hSteps h).bind fun _ => hNext
  rw [bind_assoc] at hAll
  simpa only [bind_assoc] using hAll

/-- A check that fails unless a condition holds, with what comes behind it. -/
theorem ensure {condition : Prop} [Decidable condition] {step : Production Unit}
    {next : Unit → Production α} {between : Cursor → Prop}
    (hSkip : condition → between cursor)
    (hStep : ¬condition → Yields step context cursor fun _ => between)
    (hNext : ∀ later, between later → Yields (next ()) context later property) :
    Yields (if condition then next () else step >>= next) context cursor property :=
  ite (fun h => hNext cursor (hSkip h)) fun h => (hStep h).bind fun _ => hNext

/-- One of two readings, with what comes behind both. -/
theorem either {condition : Prop} [Decidable condition] {first second : Production β}
    {next : β → Production α} {between : β → Cursor → Prop}
    (hTrue : condition → Yields first context cursor between)
    (hFalse : ¬condition → Yields second context cursor between)
    (hNext : ∀ value later, between value later → Yields (next value) context later property) :
    Yields (if condition then first >>= next else second >>= next) context cursor property :=
  ite (fun h => (hTrue h).bind hNext) fun h => (hFalse h).bind hNext

/-- As `either`, where the first reading is the last of three steps. -/
theorem either_three {γ δ : Type} {condition : Prop} [Decidable condition] {first : Production γ}
    {second : γ → Production δ} {third : δ → Production β} {other : Production β}
    {next : β → Production α} {between : β → Cursor → Prop}
    (hTrue : condition → Yields (first >>= fun value => second value >>= third) context cursor
      between)
    (hFalse : ¬condition → Yields other context cursor between)
    (hNext : ∀ value later, between value later → Yields (next value) context later property) :
    Yields (if condition then first >>= fun value => second value >>= fun value =>
        third value >>= next else other >>= next) context cursor property := by
  refine ite (fun h => ?_) fun h => (hFalse h).bind hNext
  have hAll := (hTrue h).bind hNext
  simpa only [bind_assoc] using hAll

/-- As `either`, where both readings are the last of three steps. -/
theorem either_threes {γ δ ε ζ : Type} {condition : Prop} [Decidable condition]
    {first : Production γ} {second : γ → Production δ} {third : γ → δ → Production β}
    {other : Production ε} {another : ε → Production ζ} {last : ε → ζ → Production β}
    {next : β → Production α} {between : β → Cursor → Prop}
    (hTrue : condition → Yields (first >>= fun value => second value >>= third value)
      context cursor between)
    (hFalse : ¬condition → Yields (other >>= fun value => another value >>= last value)
      context cursor between)
    (hNext : ∀ value later, between value later → Yields (next value) context later property) :
    Yields (if condition then first >>= fun value => second value >>= fun result =>
        third value result >>= next else other >>= fun value => another value >>= fun result =>
        last value result >>= next) context cursor property := by
  refine ite (fun h => ?_) fun h => ?_
  · have hAll := (hTrue h).bind hNext
    simpa only [bind_assoc] using hAll
  · have hAll := (hFalse h).bind hNext
    simpa only [bind_assoc] using hAll

/-- As `optional_two`, where something else may be done under another condition. -/
theorem optional_two_or {condition another : Prop} [Decidable condition] [Decidable another]
    {first : Production β} {second : β → Production Unit} {step : Production Unit}
    {next : Unit → Production α} {between : Cursor → Prop}
    (hSteps : condition → Yields (first >>= second) context cursor fun _ => between)
    (hStep : another → Yields step context cursor fun _ => between)
    (hSkip : ¬another → between cursor)
    (hNext : ∀ later, between later → Yields (next ()) context later property) :
    Yields (if condition then first >>= fun value => second value >>= next
      else if another then step >>= next else next ()) context cursor property :=
  ite (fun h => assoc ((hSteps h).bind fun _ => hNext)) fun _ => optional hStep hSkip hNext

/-- What every turn of a repetition keeps up holds when it is done. -/
theorem iterate {turn : σ → Production (Turn σ β)} {state : σ} (invariant : σ → Cursor → Prop)
    (property : β → Cursor → Prop) (h : invariant state cursor)
    (hTurn : ∀ state later, invariant state later →
      Yields (turn state) context later (Turn.Meets invariant property)) :
    Yields (Production.iterate turn state) context cursor property := by
  have hTurns : ∀ n state later, invariant state later →
      Yields (turns turn n state) context later property := by
    intro n
    induction n with
    | zero => exact fun _ _ _ => unexpected
    | succ n ih =>
        intro state later hState
        refine (hTurn state later hState).bind fun outcome after hMeets => ?_
        cases outcome with
        | again next => exact ih next after hMeets
        | done result => exact pure hMeets
  exact get_bind (hTurns _ state cursor h)

/-- A repetition with what comes behind it. -/
theorem iterate_bind {turn : σ → Production (Turn σ β)} {state : σ} {next : β → Production α}
    (invariant : σ → Cursor → Prop) (between : β → Cursor → Prop) (h : invariant state cursor)
    (hTurn : ∀ state later, invariant state later →
      Yields (turn state) context later (Turn.Meets invariant between))
    (hNext : ∀ result later, between result later →
      Yields (next result) context later property) :
    Yields (Production.iterate turn state >>= next) context cursor property :=
  (iterate invariant between h hTurn).bind hNext

end Yields

/-- Whatever a production reads has a property, whatever it is read from. -/
def Gives (production : Production α) (property : α → Prop) : Prop :=
  ∀ context cursor, Yields production context cursor fun value _ => property value

/-- What a turn of a repetition leads to has the property of states or that of results. -/
def Turn.Gives (again : σ → Prop) (done : β → Prop) : Turn σ β → Prop
  | .again state => again state
  | .done result => done result

namespace Gives

variable {property : α → Prop} {between : β → Prop} {context : Context} {cursor : Cursor}

theorem imp {weaker : α → Prop} {production : Production α} (h : Gives production property)
    (hImp : ∀ value, property value → weaker value) : Gives production weaker :=
  fun context cursor => (h context cursor).imp fun value _ => hImp value

theorem pure {value : α} (h : property value) : Gives (Pure.pure value) property :=
  fun _ _ => .pure h

theorem bind {first : Production β} {next : β → Production α} (h : Gives first between)
    (hNext : ∀ value, between value → Gives (next value) property) :
    Gives (first >>= next) property := fun context cursor =>
  (h context cursor).bind fun value later hValue => hNext value hValue context later

/-- What a step gives may not matter. -/
theorem skip {first : Production β} {next : β → Production α}
    (hNext : ∀ value, Gives (next value) property) : Gives (first >>= next) property :=
  bind (fun _ _ _ _ _ => trivial) fun value (_ : True) => hNext value

theorem map {f : α → β} {first : Production α} (h : Gives first fun value => between (f value)) :
    Gives (f <$> first) between := fun context cursor => .map (h context cursor)

theorem fault {cause : SyntaxFault} {offset : Nat} :
    Gives (Production.fault cause offset) property := fun _ _ => .fault

theorem throw {error : ParseError} : Gives (MonadExcept.throw error) property := fun _ _ => .throw

theorem unexpected : Gives Production.unexpected property := fun _ _ => .unexpected

theorem withReader {change : Context → Context} {inner : Production α}
    (h : Gives inner property) : Gives (MonadWithReader.withReader change inner) property :=
  fun context cursor => .withReader (h (change context) cursor)

theorem allowIn {inner : Production α} (h : Gives inner property) :
    Gives (Production.allowIn inner) property := h.withReader

theorem withoutIn {inner : Production α} (h : Gives inner property) :
    Gives (Production.withoutIn inner) property := h.withReader

theorem inFunction {isAsync isGenerator : Bool} {inner : Production α} (h : Gives inner property) :
    Gives (Production.inFunction isAsync isGenerator inner) property := h.withReader

theorem ite {condition : Prop} [Decidable condition] {first second : Production α}
    (hTrue : Gives first property) (hFalse : Gives second property) :
    Gives (if condition then first else second) property := by
  split
  · exact hTrue
  · exact hFalse

theorem nested {inner : Production α} (h : Gives inner property) :
    Gives (Production.nested inner) property :=
  .skip fun _ => .ite (.skip fun _ => .fault) h.withReader

/-- A step that is made only under a condition, with what comes behind it. -/
theorem optional {condition : Prop} [Decidable condition] {step : Production Unit}
    {next : Unit → Production α} (hNext : Gives (next ()) property) :
    Gives (if condition then step >>= next else next ()) property :=
  .ite (.skip fun _ => hNext) hNext

/-- As `optional`, for two steps. -/
theorem optional_two {condition : Prop} [Decidable condition] {first : Production β}
    {second : β → Production Unit} {next : Unit → Production α}
    (hNext : Gives (next ()) property) :
    Gives (if condition then first >>= fun value => second value >>= next else next ())
      property :=
  .ite (.skip fun _ => .skip fun _ => hNext) hNext

/-- As `optional`, for three steps. -/
theorem optional_three {condition : Prop} [Decidable condition] {first : Production β}
    {second : β → Production γ} {third : γ → Production Unit} {next : Unit → Production α}
    (hNext : Gives (next ()) property) :
    Gives (if condition then first >>= fun value => second value >>= fun value =>
      third value >>= next else next ()) property :=
  .ite (.skip fun _ => .skip fun _ => .skip fun _ => hNext) hNext

/-- A check that fails unless a condition holds, with what comes behind it. -/
theorem ensure {condition : Prop} [Decidable condition] {step : Production Unit}
    {next : Unit → Production α} (hNext : Gives (next ()) property) :
    Gives (if condition then next () else step >>= next) property :=
  .ite hNext (.skip fun _ => hNext)

/-- As `ensure`, for two steps. -/
theorem ensure_two {condition : Prop} [Decidable condition] {first : Production β}
    {second : β → Production Unit} {next : Unit → Production α}
    (hNext : Gives (next ()) property) :
    Gives (if condition then next () else first >>= fun value => second value >>= next)
      property :=
  .ite hNext (.skip fun _ => .skip fun _ => hNext)

/-- One of two readings, with what comes behind both. -/
theorem either {condition : Prop} [Decidable condition] {first second : Production β}
    {next : β → Production α} (hTrue : Gives first between) (hFalse : Gives second between)
    (hNext : ∀ value, between value → Gives (next value) property) :
    Gives (if condition then first >>= next else second >>= next) property :=
  .ite (.bind hTrue hNext) (.bind hFalse hNext)

/-- As `either`, where the first reading is the last of three steps. -/
theorem either_three {condition : Prop} [Decidable condition] {first : Production γ}
    {second : γ → Production δ} {third : δ → Production β} {other : Production β}
    {next : β → Production α} (hTrue : ∀ value, Gives (third value) between)
    (hFalse : Gives other between) (hNext : ∀ value, between value → Gives (next value) property) :
    Gives (if condition then first >>= fun value => second value >>= fun value =>
      third value >>= next else other >>= next) property :=
  .ite (.skip fun _ => .skip fun value => .bind (hTrue value) hNext) (.bind hFalse hNext)

/-- One of two readings that do not matter, with what comes behind both. -/
theorem skip_either {condition : Prop} [Decidable condition] {first second : Production β}
    {next : β → Production α} (hNext : ∀ value, Gives (next value) property) :
    Gives (if condition then first >>= next else second >>= next) property :=
  .ite (.skip hNext) (.skip hNext)

/-- What every turn of a repetition keeps up holds when it is done. -/
theorem iterate {turn : σ → Production (Turn σ β)} {state : σ} (invariant : σ → Prop)
    (between : β → Prop) (h : invariant state)
    (hTurn : ∀ state, invariant state → Gives (turn state) (Turn.Gives invariant between)) :
    Gives (Production.iterate turn state) between := fun context _ =>
  .iterate (fun state _ => invariant state) (fun result _ => between result) h
    fun state later hState => (hTurn state hState context later).imp fun outcome _ hOutcome => by
      cases outcome <;> exact hOutcome

theorem store {kind : NodeKind} {span : Span} {fields : List (FieldName × FieldValue)}
    {property : Node → Prop} (h : ∀ id, property (.mk id kind span fields)) :
    Gives (Production.store kind span fields) property :=
  fun _ cursor => .get_bind (.bind (.modify trivial) fun _ _ (_ : True) =>
    .pure (h cursor.arena.size))

theorem finish {kind : NodeKind} {start : Nat} {fields : List (FieldName × FieldValue)}
    {property : Node → Prop} (h : ∀ id span, property (.mk id kind span fields)) :
    Gives (Production.finish kind start fields) property :=
  .skip fun _ => .store fun id => h id _

end Gives

end EcmaLint.Production
