import EcmaLint.Proofs.Progress.Advances

/-! The steps that productions are made of, and how far each of them gets. A node starts at the
offset it is made with, which is the start of a token or the end of the program; turning an
expression into a target moves no node, and what cannot be turned is one of its nodes. -/
namespace EcmaLint

open Node

variable {place : Nat → Prop}

namespace Production

variable {α : Type} {limit : Nat} {moved : Bool} {context : Context} {origin cursor : Cursor}
  {read : List Node} {property : α → Cursor → Prop}

/-- The offset at which the reading of a part starts. -/
theorem Follows.startOffset_bind {next : Nat → Production α} {other : Nat → Parser α}
    (hLies : cursor.LiesIn place context.size)
    (h : ∀ start, place start → Follows place (next start) (other start) context cursor property) :
    Follows place (startOffset >>= next) (startOffset >>= other) context cursor property := by
  have hStart : place ((cursor.current?.map fun token => token.span.start).getD context.size) := by
    cases hToken : cursor.current? with
    | none => exact hLies.size
    | some token => exact (hLies.current hToken).1
  exact ⟨(h _ hStart).agrees, (h _ hStart).lands⟩

/-- Failing at the start of the current token. -/
theorem Follows.faultHere {cause : SyntaxFault} (hLies : cursor.LiesIn place context.size) :
    Follows place (do Production.fault cause (← startOffset))
      (do Production.fault cause (← startOffset)) context cursor property :=
  .startOffset_bind hLies fun _ hStart => .fault hStart

/-- Asking for a feature moves nothing. -/
theorem Follows.require {feature : Feature} {offset : Nat} {property : Unit → Cursor → Prop}
    (hOffset : place offset) (h : property () cursor) :
    Follows place (require feature offset) (require feature offset) context cursor property :=
  .read_bind (.ite (fun _ => .pure h) fun _ => .fault hOffset)

theorem Follows.require_bind {feature : Feature} {offset : Nat} {next : Unit → Production α}
    {other : Unit → Parser α}
    (hOffset : place offset)
    (h : Follows place (next ()) (other ()) context cursor property) :
    Follows place (Production.require feature offset >>= next)
      (Production.require feature offset >>= other) context cursor property := by
  have hSame : Follows place (Production.require feature offset)
      (Production.require feature offset) context cursor fun _ later => later = cursor :=
    .require hOffset rfl
  exact hSame.bind fun _ _ hLater => hLater ▸ h

/-- Asking for a feature at the current token. -/
theorem Follows.requireHere {feature : Feature} {property : Unit → Cursor → Prop}
    (hLies : cursor.LiesIn place context.size) (h : property () cursor) :
    Follows place (do Production.require feature (← startOffset))
      (do Production.require feature (← startOffset)) context cursor property :=
  .startOffset_bind hLies fun _ hStart => .require hStart h

/-- Moving past a token that is there takes it. -/
theorem Follows.bump_of_current {token : Token} (hToken : cursor.current? = some token)
    (h : Advances place context.size limit moved origin read cursor) :
    Follows place bump bump context cursor fun _ later =>
      Advances place context.size limit true origin read later := by
  refine .modify ?_
  cases hRest : cursor.rest with
  | nil => simp [Cursor.current?, hRest] at hToken
  | cons lexeme rest =>
      have hLies := h.liesIn
      have hTokens := hLies.tokens
      rw [hRest] at hTokens
      obtain ⟨hFirst, hTokens⟩ := List.forall_mem_cons.mp hTokens
      have hBump : Advances place context.size (cursor.rest.length + 1) true cursor []
          { cursor with previousEnd := lexeme.token.span.stop, rest } :=
        ⟨⟨[lexeme], by simp, hRest⟩, { hLies with tokens := hTokens, previousEnd := hFirst.2 },
          Starts.nil, Nat.lt_succ_self _⟩
      have hAdvances := h.trans hBump
      rwa [Bool.or_true, List.append_nil] at hAdvances

theorem proceeds_bump : Proceeds place limit (fun _ => false) bump bump fun _ => [] := by
  intro context cursor hLies hLeft
  have h := Advances.refl hLies hLeft Starts.nil
  cases hToken : cursor.current? with
  | some token => exact (Follows.bump_of_current hToken h).imp fun _ _ h => h.weaken
  | none =>
      have hRest : cursor.rest = [] := by
        simpa [Cursor.current?] using hToken
      refine .modify ?_
      rw [hRest]
      exact h

/-- Moving past a token, if there is one, and reading on from there, where fewer are left. -/
theorem Follows.bump_bind_or {next : Unit → Production α} {other : Unit → Parser α}
    {movedOn : Bool} {nodes : α → List Node} (hLies : cursor.LiesIn place context.size)
    (hLeft : cursor.rest.length < limit + 1) (hLimit : 0 < limit)
    (hNext : ∀ later, later.LiesIn place context.size → later.rest.length < limit →
      Follows place (next ()) (other ()) context later fun value after =>
        Advances place context.size limit movedOn later (nodes value) after) :
    Follows place (bump >>= next) (bump >>= other) context cursor fun value after =>
      Advances place context.size (limit + 1) (movedOn || !cursor.atEnd) cursor (nodes value)
        after := by
  have h := Advances.refl hLies hLeft Starts.nil
  cases hToken : cursor.current? with
  | some token =>
      refine (Follows.bump_of_current hToken h).bind fun _ later h => ?_
      exact (hNext later h.liesIn h.past).imp fun _ _ hValue => (h.trans hValue).of_moved
  | none =>
      have hRest : cursor.rest = [] := by simpa [Cursor.current?] using hToken
      refine proceeds_bump.skipAfter h h.here fun _ later h => ?_
      have hLater : later.rest.length < limit := by
        have hLength := h.length_le
        rw [hRest] at hLength
        exact Nat.lt_of_le_of_lt hLength hLimit
      refine (hNext later h.liesIn hLater).imp fun _ _ hValue => ?_
      have hAdvances := h.trans hValue
      simpa [Cursor.atEnd, hRest] using hAdvances

/-- As `bump_bind_or`, where a token is taken behind the first one. -/
theorem Follows.bump_bind {next : Unit → Production α} {other : Unit → Parser α}
    {nodes : α → List Node} (hLies : cursor.LiesIn place context.size)
    (hLeft : cursor.rest.length < limit + 1) (hLimit : 0 < limit)
    (hNext : ∀ later, later.LiesIn place context.size → later.rest.length < limit →
      Follows place (next ()) (other ()) context later fun value after =>
        Advances place context.size limit true later (nodes value) after) :
    Follows place (bump >>= next) (bump >>= other) context cursor fun value after =>
      Advances place context.size (limit + 1) true cursor (nodes value) after :=
  .bump_bind_or hLies hLeft hLimit hNext

/-- As `bump_bind_or`, where nothing needs to be taken behind the token. -/
theorem Follows.bump_bind_ifLeft {next : Unit → Production α} {other : Unit → Parser α}
    {nodes : α → List Node} (hLies : cursor.LiesIn place context.size)
    (hLeft : cursor.rest.length < limit + 1) (hLimit : 0 < limit)
    (hNext : ∀ later, later.LiesIn place context.size → later.rest.length < limit →
      Follows place (next ()) (other ()) context later fun value after =>
        Advances place context.size limit false later (nodes value) after) :
    Follows place (bump >>= next) (bump >>= other) context cursor fun value after =>
      Advances place context.size (limit + 1) (!cursor.atEnd) cursor (nodes value) after :=
  .bump_bind_or hLies hLeft hLimit hNext

/-- Moving past a token with a text, if it is there. -/
theorem proceeds_eat (text : String) :
    Proceeds place limit (fun found => found) (eat text) (eat text) fun _ => [] := by
  intro context cursor hLies hLeft
  have h := Advances.refl hLies hLeft Starts.nil
  refine .get_bind (.ite (fun hText => ?_) fun _ => .pure h)
  obtain ⟨token, hToken⟩ := Cursor.exists_current_of_atText hText
  exact (Follows.bump_of_current hToken h).bind fun _ _ h => .pure h

/-- What comes behind a token if it has a text, and what comes if it has not. -/
theorem Follows.eat_ite {text : String} {first second : Production α} {other another : Parser α}
    (h : Advances place context.size limit moved origin read cursor)
    (hTrue : ∀ later, Advances place context.size limit true origin read later →
      Follows place first other context later property)
    (hFalse : ∀ later, Advances place context.size limit moved origin read later →
      Follows place second another context later property) :
    Follows place (eat text >>= fun found => if found = true then first else second)
      (eat text >>= fun found => if found = true then other else another) context cursor
      property := by
  refine (proceeds_eat text).skipAfter h h.here fun found later h => ?_
  refine .ite (fun hFound => hTrue later ?_) fun _ => hFalse later h.of_or
  rwa [hFound, Bool.or_true] at h

theorem proceeds_expect (text : String) :
    Proceeds place limit (fun _ => true) (expect text) (expect text) fun _ => [] := by
  intro context cursor hLies hLeft
  have h := Advances.refl hLies hLeft Starts.nil
  refine (proceeds_eat text).skipAfter h h.here fun found later h => ?_
  refine .ite (fun hFound => .pure ?_) fun _ => .unexpected h.liesIn
  rwa [hFound, Bool.or_true] at h

theorem proceeds_newlineBefore :
    Proceeds place limit (fun _ => false) newlineBefore newlineBefore fun _ => [] := by
  intro context cursor hLies hLeft
  have h := Advances.refl hLies hLeft Starts.nil
  refine .get_bind ?_
  split
  · exact .read_bind (.pure h)
  · exact .pure h

theorem proceeds_atStatementEnd :
    Proceeds place limit (fun _ => false) atStatementEnd atStatementEnd fun _ => [] := by
  intro context cursor hLies hLeft
  have h := Advances.refl hLies hLeft Starts.nil
  exact .get_bind (proceeds_newlineBefore.skipAfter h h.here fun _ _ h => .pure h)

theorem proceeds_semicolon :
    Proceeds place limit (fun _ => false) semicolon semicolon fun _ => [] := by
  intro context cursor hLies hLeft
  have h := Advances.refl hLies hLeft Starts.nil
  refine (proceeds_eat ";").skipAfter h h.here fun _ later h => ?_
  refine .ite (fun _ => .pure h.of_or) fun _ => ?_
  refine proceeds_atStatementEnd.skipAfter h h.here fun _ later h => ?_
  exact .ite (fun _ => .pure h.of_or.of_or) fun _ => .unexpected h.liesIn

/-- Making a node. -/
theorem proceeds_store {kind : NodeKind} {span : Span} {fields : List (FieldName × FieldValue)}
    (hStart : place span.start) (hFields : Starts place (Field.filledIn fields)) :
    Proceeds place limit (fun _ => false) (store kind span fields) (store kind span fields)
      fun node => [node] := by
  intro context cursor hLies hLeft
  have hNode : Starts place [.mk cursor.arena.size kind span fields] := by
    refine Starts.singleton hStart ?_
    rwa [children_eq_filledIn]
  refine .get_bind (Follows.bind (.modify ?_) fun _ later h => .pure h)
  obtain ⟨hSize, hTokens, hEnd, hDefaults⟩ := hLies
  exact ⟨⟨[], by simp, rfl⟩, ⟨hSize, hTokens, hEnd, hDefaults⟩, hNode, hLeft⟩

theorem proceeds_finish {kind : NodeKind} {start : Nat} {fields : List (FieldName × FieldValue)}
    (hStart : place start) (hFields : Starts place (Field.filledIn fields)) :
    Proceeds place limit (fun _ => false) (finish kind start fields) (finish kind start fields)
      fun node => [node] :=
  fun context cursor hLies hLeft =>
    .get_bind (proceeds_store hStart hFields context cursor hLies hLeft)

/-- Making a node of what was read since the origin, where only the node counts from then on. -/
theorem Follows.finish {kind : NodeKind} {start : Nat} {fields : List (FieldName × FieldValue)}
    (h : Advances place context.size limit moved origin read cursor) (hStart : place start)
    (hFields : ∀ child ∈ Field.filledIn fields, child ∈ read) :
    Follows place (finish kind start fields) (finish kind start fields) context cursor
      fun node later => Advances place context.size limit moved origin [node] later :=
  ((proceeds_finish hStart (h.starts.subset hFields)).onlyAfter h h.here).imp
    fun _ _ hNode => hNode.of_or

/-- Moving past a token and making a node of it, with nothing below. -/
theorem Follows.bump_store {kind : NodeKind} {token : Token}
    {fields : List (FieldName × FieldValue)} (hLies : cursor.LiesIn place context.size)
    (hLeft : cursor.rest.length < limit) (hToken : cursor.current? = some token)
    (hFields : Field.filledIn fields = []) :
    Follows place (do bump; store kind token.span fields) (do bump; store kind token.span fields)
      context cursor fun node later =>
        Advances place context.size limit true cursor [node] later := by
  have h := Advances.refl hLies hLeft Starts.nil
  refine (Follows.bump_of_current hToken h).bind fun _ later h => ?_
  exact (proceeds_store (hLies.current hToken).1 (hFields ▸ Starts.nil)).after h h.here

theorem proceedsNode_identifier : ProceedsNode place limit identifier identifier := by
  intro context cursor hLies hLeft
  refine .get_bind ?_
  cases hToken : cursor.current? with
  | none => exact .unexpected hLies
  | some token =>
      exact .ite (fun _ => .bump_store hLies hLeft hToken rfl) fun _ => .unexpected hLies

theorem proceedsNode_identifierName : ProceedsNode place limit identifierName identifierName := by
  intro context cursor hLies hLeft
  refine .get_bind ?_
  cases hToken : cursor.current? with
  | none => exact .unexpected hLies
  | some token =>
      exact .ite (fun _ => .bump_store hLies hLeft hToken rfl) fun _ => .unexpected hLies

theorem Proceeds.nested {first : Production α} {second : Parser α} {movedOn : α → Bool}
    {nodes : α → List Node} (h : Proceeds place limit movedOn first second nodes) :
    Proceeds place limit movedOn (nested first) (nested second) nodes := by
  intro context cursor hLies hLeft
  refine .read_bind (.ite (fun _ => .faultHere hLies) fun _ => ?_)
  exact h.within context cursor hLies hLeft

end Production

namespace Node

theorem assignedArgument?_mem {fields : List (FieldName × FieldValue)} {span : Span}
    (h : assignedArgument? fields = some span) :
    ∃ child ∈ Field.filledIn fields, child.span = span := by
  induction fields with
  | nil => cases h
  | cons field rest ih =>
      unfold assignedArgument? at h
      split at h
      case h_1 hCons =>
        obtain ⟨rfl, rfl⟩ := List.cons.inj hCons
        obtain rfl := Option.some.inj h
        exact ⟨_, List.mem_cons_self, rfl⟩
      case h_2 => cases h
      case h_3 hCons =>
        obtain ⟨rfl, rfl⟩ := List.cons.inj hCons
        obtain ⟨child, hChild, hSpan⟩ := ih h
        exact ⟨child, List.mem_append_right _ hChild, hSpan⟩
      case h_4 hNil => cases hNil

theorem mem_filledIn_of_filter {fields : List (FieldName × FieldValue)}
    {p : FieldName × FieldValue → Bool} {child : Node}
    (h : child ∈ Field.filledIn (fields.filter p)) : child ∈ Field.filledIn fields := by
  obtain ⟨field, hField, hChild⟩ := List.mem_flatMap.mp h
  exact List.mem_flatMap.mpr ⟨field, List.mem_of_mem_filter hField, hChild⟩

mutual

/-- Turning a node into a target keeps the offsets that nodes start at, and fails at one of them. -/
theorem lands_toTarget (role : TargetRole) (isLast : Bool) :
    ∀ node : Node, Starts place [node] →
      Lands place (fun target => Starts place [target]) (toTarget role isLast node)
  | .mk id kind span fields, hStarts => by
      have hStart : place span.start := hStarts.start List.mem_cons_self
      have hBelow : Starts place (Field.filledIn fields) := by
        have hChildren := hStarts.children
        rwa [children_eq_filledIn] at hChildren
      have hTurn : ∀ kind name inner, Lands place (fun target => Starts place [target])
          (do return .mk id kind span (← targetFields name inner fields)) := by
        intro kind name inner
        refine (lands_targetFields fields hBelow).bind fun changed hChanged => ?_
        refine Starts.singleton hStart ?_
        rwa [children_eq_filledIn]
      unfold toTarget
      split
      case h_1 => split <;> [exact hStart; exact hTurn _ _ _]
      case h_2 | h_3 =>
        split
        · exact hStart
        · split
          case h_1 argument hArgument =>
            obtain ⟨child, hChild, rfl⟩ := assignedArgument?_mem hArgument
            exact hBelow.start hChild
          case h_2 => exact hTurn _ _ _
      case h_5 | h_6 | h_7 => exact hStarts
      case h_8 | h_9 => exact hTurn _ _ _
      case h_10 =>
        split
        · refine Starts.singleton hStart ?_
          rw [children_eq_filledIn]
          exact hBelow.subset fun _ => mem_filledIn_of_filter
        · exact hStart
      all_goals exact hStart
termination_by structural node => node

theorem lands_targetFields {name : FieldName} {role : TargetRole} :
    ∀ fields : List (FieldName × FieldValue), Starts place (Field.filledIn fields) →
      Lands place (fun changed => Starts place (Field.filledIn changed))
        (targetFields name role fields)
  | [], hStarts => hStarts
  | (field, value) :: rest, hStarts => by
      have hValue : Starts place value.filled := hStarts.subset fun _ => List.mem_append_left _
      have hRest : Starts place (Field.filledIn rest) :=
        hStarts.subset fun _ => List.mem_append_right _
      unfold targetFields
      split
      · exact (lands_targetValue value hValue).bind fun _ hTurned => hTurned.append hRest
      · exact (lands_targetFields rest hRest).bind fun _ hTurned => hValue.append hTurned
termination_by structural fields => fields

theorem lands_targetValue {role : TargetRole} :
    ∀ value : FieldValue, Starts place value.filled →
      Lands place (fun changed => Starts place changed.filled) (targetValue role value)
  | .slot (some child), hStarts => by
      unfold targetValue
      exact (lands_toTarget _ _ child hStarts).bind fun _ hTurned => hTurned
  | .slots children, hStarts => by
      unfold targetValue
      exact (lands_targetSlots children hStarts).bind fun _ hTurned => hTurned
  | .slot none, hStarts | .text _, hStarts | .flag _, hStarts | .number _, hStarts
  | .null, hStarts => hStarts
termination_by structural value => value

theorem lands_targetSlots {role : TargetRole} :
    ∀ slots : List (Option Node), Starts place (slots.filterMap id) →
      Lands place (fun changed => Starts place (changed.filterMap id)) (targetSlots role slots)
  | [], hStarts => hStarts
  | none :: rest, hStarts => by
      unfold targetSlots
      exact (lands_targetSlots rest hStarts).bind fun _ hTurned => hTurned
  | some child :: rest, hStarts => by
      have hChild : Starts place [child] := hStarts.subset fun _ => by simp_all
      have hRest : Starts place (rest.filterMap id) :=
        hStarts.subset fun _ => List.mem_cons_of_mem _
      unfold targetSlots
      refine (lands_toTarget _ _ child hChild).bind fun turned hTurned => ?_
      refine (lands_targetSlots rest hRest).bind fun others hOthers => ?_
      exact hTurned.append hOthers
termination_by structural slots => slots

end

end Node

/-- Turning what was read since the origin into a target. -/
theorem Production.Follows.toTarget {expression : Node} {limit : Nat} {moved : Bool}
    {context : Context} {origin cursor : Cursor}
    (h : Advances place context.size limit moved origin [expression] cursor) :
    Follows place (Grammar.toTarget expression) (Grammar.toTarget expression) context cursor
      fun target later => Advances place context.size limit moved origin [target] later := by
  have hLands := lands_toTarget .whole true expression h.starts
  unfold Grammar.toTarget
  split
  case h_1 error hError =>
    rw [hError] at hLands
    exact .throw hLands
  case h_2 target hTarget =>
    rw [hTarget] at hLands
    refine .bind (.modify ?_) fun _ _ hLater => .pure hLater
    obtain ⟨hSize, hTokens, hEnd, hDefaults⟩ := h.liesIn
    exact ⟨h.takes, ⟨hSize, hTokens, hEnd, fun offset hOffset =>
      hDefaults offset (List.mem_of_mem_filter hOffset)⟩, hLands, h.within⟩

end EcmaLint
