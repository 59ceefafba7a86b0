import EcmaLint.Proofs.Exchange.Basic
import EcmaLint.Proofs.Grammar.Yields

/-! A production on the old text and one on the new text. Whatever the first one reads, the second
one reads something of the same shape, as long as the new text is not lost sight of. This is shown
along the text of productions, by one rule for each way of putting them together. -/
namespace EcmaLint

open Production

namespace Exchange

variable {α β σ : Type}

/-- What the first production reads off the old text, and what the second one reads off the new
text, has a property. Nothing is said of the second one if the text is lost. -/
def Mimics (stage : Stage) (first second : Production α) (context other : Context)
    (cursor twin : Cursor) (property : Stage → α → α → Cursor → Cursor → Prop) : Prop :=
  ∀ value later, first context cursor = .ok (value, later) → ∃ reached value' later',
    property reached value value' later later' ∧
      (reached ≠ .lost → stage ≠ .lost ∧ second other twin = .ok (value', later'))

/-- What two turns of a repetition lead to: both ask for another one, or both are done. -/
inductive Both (again : Stage → σ → σ → Cursor → Cursor → Prop)
    (done : Stage → β → β → Cursor → Cursor → Prop) :
    Stage → Turn σ β → Turn σ β → Cursor → Cursor → Prop
  | again {stage : Stage} {state twin : σ} {cursor other : Cursor}
      (h : again stage state twin cursor other) :
      Both again done stage (.again state) (.again twin) cursor other
  | done {stage : Stage} {result twin : β} {cursor other : Cursor}
      (h : done stage result twin cursor other) :
      Both again done stage (.done result) (.done twin) cursor other

namespace Mimics

variable {stage : Stage} {context other : Context} {cursor twin : Cursor}
  {property : Stage → α → α → Cursor → Cursor → Prop}

theorem imp {between : Stage → α → α → Cursor → Cursor → Prop} {first second : Production α}
    (h : Mimics stage first second context other cursor twin between)
    (hImp : ∀ reached value value' later later', between reached value value' later later' →
      property reached value value' later later') :
    Mimics stage first second context other cursor twin property := by
  intro value later hRun
  obtain ⟨reached, value', later', hBetween, hSecond⟩ := h value later hRun
  exact ⟨reached, value', later', hImp _ _ _ _ _ hBetween, hSecond⟩

/-- What is known of the old text alone holds as well. -/
theorem and_yields {first second : Production α} {alone : α → Cursor → Prop}
    (h : Mimics stage first second context other cursor twin property)
    (hYields : Yields first context cursor alone) :
    Mimics stage first second context other cursor twin
      fun reached value value' later later' =>
        property reached value value' later later' ∧ alone value later := by
  intro value later hRun
  obtain ⟨reached, value', later', hProperty, hSecond⟩ := h value later hRun
  exact ⟨reached, value', later', ⟨hProperty, hYields value later hRun⟩, hSecond⟩

/-- What is not lost at the end was not lost before. -/
theorem and_ne_lost {first second : Production α}
    (h : Mimics stage first second context other cursor twin property) :
    Mimics stage first second context other cursor twin
      fun reached value value' later later' =>
        property reached value value' later later' ∧ (reached ≠ .lost → stage ≠ .lost) := by
  intro value later hRun
  obtain ⟨reached, value', later', hProperty, hSecond⟩ := h value later hRun
  exact ⟨reached, value', later', ⟨hProperty, fun hReached => (hSecond hReached).1⟩, hSecond⟩

/-- Of a text that is lost nothing is said. -/
theorem of_lost {first second third : Production α}
    (h : Mimics stage first second context other cursor twin property) (hLost : stage = .lost) :
    Mimics stage first third context other cursor twin property := by
  intro value later hRun
  obtain ⟨reached, value', later', hProperty, hSecond⟩ := h value later hRun
  exact ⟨reached, value', later', hProperty, fun hReached => absurd hLost (hSecond hReached).1⟩

/-- The new text may be lost sight of at any place. -/
theorem lose {first second third : Production α} {another : Context} {copy : Cursor}
    (h : Mimics .lost first second context other cursor twin property) :
    Mimics stage first third context another cursor copy property := by
  intro value later hRun
  obtain ⟨reached, value', later', hProperty, hSecond⟩ := h value later hRun
  exact ⟨reached, value', later', hProperty, fun hReached => absurd rfl (hSecond hReached).1⟩

theorem of_yields {first second : Production α}
    (h : Yields first context cursor fun _ _ => False) :
    Mimics stage first second context other cursor twin property :=
  fun value later hRun => (h value later hRun).elim

theorem pure {value value' : α} (h : property stage value value' cursor twin) :
    Mimics stage (Pure.pure value) (Pure.pure value') context other cursor twin property := by
  rintro _ _ ⟨⟩
  exact ⟨stage, value', twin, h, fun hStage => ⟨hStage, rfl⟩⟩

theorem bind {first second : Production β} {next another : β → Production α}
    {between : Stage → β → β → Cursor → Cursor → Prop}
    (h : Mimics stage first second context other cursor twin between)
    (hNext : ∀ reached value value' later later', between reached value value' later later' →
      Mimics reached (next value) (another value') context other later later' property) :
    Mimics stage (first >>= next) (second >>= another) context other cursor twin property := by
  intro value later hRun
  change (first context cursor >>= fun result => next result.1 context result.2) = _ at hRun
  obtain ⟨result, hFirst, hRest⟩ := exists_of_bind_eq_ok hRun
  obtain ⟨reached, value', later', hBetween, hSecond⟩ := h _ _ hFirst
  obtain ⟨final, value'', later'', hProperty, hAnother⟩ :=
    hNext _ _ _ _ _ hBetween value later hRest
  refine ⟨final, value'', later'', hProperty, fun hFinal => ?_⟩
  obtain ⟨hReached, hOther⟩ := hAnother hFinal
  obtain ⟨hStage, hTwin⟩ := hSecond hReached
  refine ⟨hStage, ?_⟩
  change (second other twin >>= fun result => another result.1 other result.2) = _
  rw [hTwin]
  exact hOther

theorem map {f : β → α} {first second : Production β}
    (h : Mimics stage first second context other cursor twin
      fun reached value value' => property reached (f value) (f value')) :
    Mimics stage (f <$> first) (f <$> second) context other cursor twin property :=
  h.bind fun _ _ _ _ _ hValue => pure hValue

theorem fault {cause : SyntaxFault} {offset : Nat} {second : Production α} :
    Mimics stage (Production.fault cause offset) second context other cursor twin property :=
  of_yields .fault

theorem unexpected {second : Production α} :
    Mimics stage Production.unexpected second context other cursor twin property :=
  of_yields .unexpected

theorem fault_bind {cause : SyntaxFault} {offset : Nat} {next : β → Production α}
    {second : Production α} :
    Mimics stage (Production.fault cause offset >>= next) second context other cursor twin
      property :=
  of_yields .fault_bind

theorem unexpected_bind {next : β → Production α} {second : Production α} :
    Mimics stage (Production.unexpected >>= next) second context other cursor twin property :=
  of_yields .unexpected_bind

theorem get_bind {next another : Cursor → Production α}
    (h : Mimics stage (next cursor) (another twin) context other cursor twin property) :
    Mimics stage (get >>= next) (get >>= another) context other cursor twin property := h

theorem read_bind {next another : Context → Production α}
    (h : Mimics stage (next context) (another other) context other cursor twin property) :
    Mimics stage (read >>= next) (read >>= another) context other cursor twin property := h

theorem modify_bind {change another : Cursor → Cursor} {next copy : Unit → Production α}
    (h : Mimics stage (next ()) (copy ()) context other (change cursor) (another twin) property) :
    Mimics stage (MonadState.modifyGet (fun cursor => ((), change cursor)) >>= next)
      (MonadState.modifyGet (fun cursor => ((), another cursor)) >>= copy) context other cursor
      twin property := h

theorem withReader {change another : Context → Context} {first second : Production α}
    (h : Mimics stage first second (change context) (another other) cursor twin property) :
    Mimics stage (MonadWithReader.withReader change first)
      (MonadWithReader.withReader another second) context other cursor twin property := h

theorem ite {condition alternate : Prop} [Decidable condition] [Decidable alternate]
    {first second third fourth : Production α} (hIff : stage ≠ .lost → (condition ↔ alternate))
    (hTrue : condition → Mimics stage first third context other cursor twin property)
    (hFalse : ¬condition → Mimics stage second fourth context other cursor twin property) :
    Mimics stage (if condition then first else second) (if alternate then third else fourth)
      context other cursor twin property := by
  by_cases hStage : stage = .lost
  · split
    case isTrue h => exact (hTrue h).of_lost hStage
    case isFalse h => exact (hFalse h).of_lost hStage
  · by_cases h : condition
    · rw [if_pos h, if_pos ((hIff hStage).mp h)]
      exact hTrue h
    · rw [if_neg h, if_neg (mt (hIff hStage).mpr h)]
      exact hFalse h

/-- A step that is made only under a condition, with what comes behind it. -/
theorem optional {condition alternate : Prop} [Decidable condition] [Decidable alternate]
    {step copy : Production Unit} {next another : Unit → Production α}
    {between : Stage → Cursor → Cursor → Prop} (hIff : stage ≠ .lost → (condition ↔ alternate))
    (hStep : condition → Mimics stage step copy context other cursor twin
      fun reached _ _ => between reached)
    (hSkip : ¬condition → between stage cursor twin)
    (hNext : ∀ reached later later', between reached later later' →
      Mimics reached (next ()) (another ()) context other later later' property) :
    Mimics stage (if condition then step >>= next else next ())
      (if alternate then copy >>= another else another ()) context other cursor twin property :=
  ite hIff (fun h => (hStep h).bind fun _ _ _ _ _ => hNext _ _ _) fun h => hNext _ _ _ (hSkip h)

/-- As `optional`, for two steps. -/
theorem optional_two {condition alternate : Prop} [Decidable condition] [Decidable alternate]
    {first copy : Production β} {second copied : β → Production Unit}
    {next another : Unit → Production α} {between : Stage → Cursor → Cursor → Prop}
    (hIff : stage ≠ .lost → (condition ↔ alternate))
    (hSteps : condition → Mimics stage (first >>= second) (copy >>= copied) context other cursor
      twin fun reached _ _ => between reached)
    (hSkip : ¬condition → between stage cursor twin)
    (hNext : ∀ reached later later', between reached later later' →
      Mimics reached (next ()) (another ()) context other later later' property) :
    Mimics stage (if condition then first >>= fun value => second value >>= next else next ())
      (if alternate then copy >>= fun value => copied value >>= another else another ())
      context other cursor twin property := by
  simp only [← bind_assoc]
  exact optional hIff hSteps hSkip hNext

/-- As `optional`, for three steps. -/
theorem optional_three {γ : Type} {condition alternate : Prop} [Decidable condition]
    [Decidable alternate] {first copy : Production β} {second copied : β → Production γ}
    {third last : γ → Production Unit} {next another : Unit → Production α}
    {between : Stage → Cursor → Cursor → Prop} (hIff : stage ≠ .lost → (condition ↔ alternate))
    (hSteps : condition → Mimics stage (first >>= fun value => second value >>= third)
      (copy >>= fun value => copied value >>= last) context other cursor twin
      fun reached _ _ => between reached)
    (hSkip : ¬condition → between stage cursor twin)
    (hNext : ∀ reached later later', between reached later later' →
      Mimics reached (next ()) (another ()) context other later later' property) :
    Mimics stage
      (if condition then first >>= fun value => second value >>= fun value =>
        third value >>= next else next ())
      (if alternate then copy >>= fun value => copied value >>= fun value =>
        last value >>= another else another ()) context other cursor twin property := by
  refine ite hIff (fun h => ?_) fun h => hNext _ _ _ (hSkip h)
  have hAll : Mimics stage ((first >>= fun value => second value >>= third) >>= next)
      ((copy >>= fun value => copied value >>= last) >>= another) context other cursor twin
      property := (hSteps h).bind fun _ _ _ _ _ => hNext _ _ _
  simp only [bind_assoc] at hAll
  exact hAll

/-- As `optional_two`, where something else may be done under another condition. -/
theorem optional_two_or {condition alternate second third : Prop} [Decidable condition]
    [Decidable alternate] [Decidable second] [Decidable third]
    {first copy : Production β} {behind copied : β → Production Unit}
    {step other' : Production Unit} {next another : Unit → Production α}
    {between : Stage → Cursor → Cursor → Prop} (hIff : stage ≠ .lost → (condition ↔ alternate))
    (hIff' : stage ≠ .lost → (second ↔ third))
    (hSteps : condition → Mimics stage (first >>= behind) (copy >>= copied) context other cursor
      twin fun reached _ _ => between reached)
    (hStep : second → Mimics stage step other' context other cursor twin
      fun reached _ _ => between reached)
    (hSkip : ¬second → between stage cursor twin)
    (hNext : ∀ reached later later', between reached later later' →
      Mimics reached (next ()) (another ()) context other later later' property) :
    Mimics stage
      (if condition then first >>= fun value => behind value >>= next
        else if second then step >>= next else next ())
      (if alternate then copy >>= fun value => copied value >>= another
        else if third then other' >>= another else another ())
      context other cursor twin property := by
  simp only [← bind_assoc]
  exact ite hIff (fun h => (hSteps h).bind fun _ _ _ _ _ => hNext _ _ _)
    fun _ => optional hIff' hStep hSkip hNext

/-- A check that fails unless a condition holds, with what comes behind it. -/
theorem ensure {condition alternate : Prop} [Decidable condition] [Decidable alternate]
    {step copy : Production Unit} {next another : Unit → Production α}
    {between : Stage → Cursor → Cursor → Prop} (hIff : stage ≠ .lost → (condition ↔ alternate))
    (hSkip : condition → between stage cursor twin)
    (hStep : ¬condition → Mimics stage step copy context other cursor twin
      fun reached _ _ => between reached)
    (hNext : ∀ reached later later', between reached later later' →
      Mimics reached (next ()) (another ()) context other later later' property) :
    Mimics stage (if condition then next () else step >>= next)
      (if alternate then another () else copy >>= another) context other cursor twin property :=
  ite hIff (fun h => hNext _ _ _ (hSkip h)) fun h => (hStep h).bind fun _ _ _ _ _ => hNext _ _ _

/-- One of two readings, with what comes behind both. -/
theorem either {condition alternate : Prop} [Decidable condition] [Decidable alternate]
    {first second third fourth : Production β} {next another : β → Production α}
    {between : Stage → β → β → Cursor → Cursor → Prop}
    (hIff : stage ≠ .lost → (condition ↔ alternate))
    (hTrue : condition → Mimics stage first third context other cursor twin between)
    (hFalse : ¬condition → Mimics stage second fourth context other cursor twin between)
    (hNext : ∀ reached value value' later later', between reached value value' later later' →
      Mimics reached (next value) (another value') context other later later' property) :
    Mimics stage (if condition then first >>= next else second >>= next)
      (if alternate then third >>= another else fourth >>= another)
      context other cursor twin property :=
  ite hIff (fun h => (hTrue h).bind hNext) fun h => (hFalse h).bind hNext

/-- As `either`, where the first reading is the last of three steps. -/
theorem either_three {γ δ : Type} {condition alternate : Prop} [Decidable condition]
    [Decidable alternate] {first copy : Production γ} {second copied : γ → Production δ}
    {third last : δ → Production β} {fourth fifth : Production β} {next another : β → Production α}
    {between : Stage → β → β → Cursor → Cursor → Prop}
    (hIff : stage ≠ .lost → (condition ↔ alternate))
    (hTrue : condition → Mimics stage (first >>= fun value => second value >>= third)
      (copy >>= fun value => copied value >>= last) context other cursor twin between)
    (hFalse : ¬condition → Mimics stage fourth fifth context other cursor twin between)
    (hNext : ∀ reached value value' later later', between reached value value' later later' →
      Mimics reached (next value) (another value') context other later later' property) :
    Mimics stage
      (if condition then first >>= fun value => second value >>= fun value =>
        third value >>= next else fourth >>= next)
      (if alternate then copy >>= fun value => copied value >>= fun value =>
        last value >>= another else fifth >>= another) context other cursor twin property := by
  refine ite hIff (fun h => ?_) fun h => (hFalse h).bind hNext
  have hAll := (hTrue h).bind hNext
  simp only [bind_assoc] at hAll
  exact hAll

/-- As `either`, where both readings are the last of three steps. -/
theorem either_threes {γ δ ε ζ : Type} {condition alternate : Prop} [Decidable condition]
    [Decidable alternate] {first copy : Production γ} {second copied : γ → Production δ}
    {third last : γ → δ → Production β} {fourth copy' : Production ε}
    {fifth copied' : ε → Production ζ} {sixth last' : ε → ζ → Production β}
    {next another : β → Production α} {between : Stage → β → β → Cursor → Cursor → Prop}
    (hIff : stage ≠ .lost → (condition ↔ alternate))
    (hTrue : condition → Mimics stage (first >>= fun value => second value >>= third value)
      (copy >>= fun value => copied value >>= last value) context other cursor twin between)
    (hFalse : ¬condition → Mimics stage (fourth >>= fun value => fifth value >>= sixth value)
      (copy' >>= fun value => copied' value >>= last' value) context other cursor twin between)
    (hNext : ∀ reached value value' later later', between reached value value' later later' →
      Mimics reached (next value) (another value') context other later later' property) :
    Mimics stage
      (if condition then first >>= fun value => second value >>= fun result =>
        third value result >>= next else fourth >>= fun value => fifth value >>= fun result =>
        sixth value result >>= next)
      (if alternate then copy >>= fun value => copied value >>= fun result =>
        last value result >>= another else copy' >>= fun value => copied' value >>= fun result =>
        last' value result >>= another) context other cursor twin property := by
  refine ite hIff (fun h => ?_) fun h => ?_
  · have hAll := (hTrue h).bind hNext
    simp only [bind_assoc] at hAll
    exact hAll
  · have hAll := (hFalse h).bind hNext
    simp only [bind_assoc] at hAll
    exact hAll

end Mimics

/-- How many lexemes are left in the two texts. -/
def Abreast (W : Exchange) (stage : Stage) (cursor other : Cursor) : Prop :=
  stage ≠ .lost →
    W.tail.length ≤ cursor.rest.length ∧
        other.rest.length + W.tail.length = cursor.rest.length + W.newTail.length ∨
      cursor.rest.length ≤ W.back.length ∧ other.rest.length = cursor.rest.length

variable {W : Exchange} {stage : Stage} {context other : Context} {cursor twin : Cursor}

theorem Meets.abreast (h : W.Meets stage cursor twin) : W.Abreast stage cursor twin := by
  intro hStage
  have hPlace := h.place
  cases stage with
  | before =>
      obtain ⟨lexemes, others, hAhead, hRest, hOther⟩ := hPlace
      have hLength := hAhead.alike.length_eq
      rw [hRest, hOther, List.length_append, List.length_append]
      exact .inl ⟨by omega, by omega⟩
  | after => exact .inr ⟨hPlace.behind.length_le, hPlace.alike.length_eq.symm⟩
  | lost => exact absurd rfl hStage

/-- Where the old text has moved on, so has the new one. -/
theorem Abreast.length_lt {reached : Stage} {later later' : Cursor} (hFair : W.IsFair)
    (h : W.Abreast stage cursor twin) (h' : W.Abreast reached later later')
    (hStage : stage ≠ .lost) (hReached : reached ≠ .lost)
    (hLess : later.rest.length < cursor.rest.length) :
    later'.rest.length < twin.rest.length := by
  have hBack := hFair.back.length_eq
  have hInto := List.length_pos_of_ne_nil hFair.into_ne_nil
  have hFirst := h hStage
  have hSecond := h' hReached
  rw [tail, newTail, List.length_append, List.length_append] at hFirst hSecond
  omega

/-- Every turn that asks for another one takes a token. -/
def Consumes (turn : σ → Production (Turn σ β)) : Prop :=
  ∀ state context cursor next later, turn state context cursor = .ok (.again next, later) →
    later.rest.length < cursor.rest.length

/-- What every two turns of a repetition keep up holds when they are done. As the new text moves on
with the old one, it does not run out of turns. -/
theorem Mimics.iterate {turn copy : σ → Production (Turn σ β)} {state state' : σ}
    (hFair : W.IsFair) (hConsumes : Consumes turn)
    (invariant : Stage → σ → σ → Cursor → Cursor → Prop)
    (property : Stage → β → β → Cursor → Cursor → Prop)
    (h : invariant stage state state' cursor twin)
    (hAbreast : ∀ reached state state' later later',
      invariant reached state state' later later' → W.Abreast reached later later')
    (hTurn : ∀ reached state state' later later', invariant reached state state' later later' →
      Mimics reached (turn state) (copy state') context other later later'
        (Both invariant property)) :
    Mimics stage (Production.iterate turn state) (Production.iterate copy state') context other
      cursor twin property := by
  have hTurns : ∀ n m reached state state' later later',
      invariant reached state state' later later' →
      (reached ≠ .lost → later'.rest.length < m) →
      Mimics reached (turns turn n state) (turns copy m state') context other later later'
        property := by
    intro n
    induction n with
    | zero => exact fun _ _ _ _ _ _ _ _ => unexpected
    | succ n ih =>
        intro m reached state state' later later' hState hEnough
        -- without turns left on the new side the text is lost
        have hPositive : reached = .lost ∨ ∃ k, m = k + 1 := by
          by_cases hReached : reached = .lost
          · exact .inl hReached
          · have hLess := hEnough hReached
            exact .inr ⟨m - 1, by omega⟩
        have hStep : ∀ k, (reached ≠ .lost → later'.rest.length < k + 1) →
            Mimics reached (turns turn (n + 1) state) (turns copy (k + 1) state') context other
              later later' property := by
          intro k hEnough value final hRun
          obtain ⟨⟨outcome, after⟩, hOutcome, hRest⟩ := exists_of_bind_eq_ok hRun
          obtain ⟨stage', outcome', after', hBoth, hSecond⟩ :=
            hTurn _ _ _ _ _ hState outcome after hOutcome
          cases hBoth with
          | done hDone =>
              cases hRest
              refine ⟨stage', _, after', hDone, fun hStage' => ⟨(hSecond hStage').1, ?_⟩⟩
              rw [turns]
              change (copy state' other later' >>= _) = _
              rw [(hSecond hStage').2]
              rfl
          | @again next next' _ _ hAgain =>
              have hLess : stage' ≠ .lost → after'.rest.length < k := fun hStage' => by
                have hReached := (hSecond hStage').1
                have hMoved := (hAbreast _ _ _ _ _ hState).length_lt hFair
                  (hAbreast _ _ _ _ _ hAgain) hReached hStage'
                  (hConsumes state context later next after hOutcome)
                have hFuel := hEnough hReached
                omega
              obtain ⟨last, value', final', hProperty, hThird⟩ :=
                ih k _ _ _ _ _ hAgain hLess value final hRest
              refine ⟨last, value', final', hProperty, fun hLast => ?_⟩
              obtain ⟨hStage', hRun'⟩ := hThird hLast
              refine ⟨(hSecond hStage').1, ?_⟩
              rw [turns]
              change (copy state' other later' >>= _) = _
              rw [(hSecond hStage').2]
              exact hRun'
        obtain hLost | ⟨k, rfl⟩ := hPositive
        · exact (hStep 0 fun hNot => absurd hLost hNot).of_lost hLost
        · exact hStep k hEnough
  exact get_bind (hTurns _ _ stage state state' cursor twin h fun _ => Nat.lt_succ_self _)

end Exchange

end EcmaLint
