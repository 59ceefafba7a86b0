import EcmaLint.Grammar.Basic
import EcmaLint.Proofs.Exchange.Tracks
import EcmaLint.Proofs.Grammar.Steps

/-! The steps that productions are made of, on the old text and on the new one: productions that
were read already, questions that move nothing, and the making of nodes and of targets. -/
namespace EcmaLint

open Node Production

namespace Exchange

variable {W : Exchange} {α β σ : Type} {first stage : Stage} {origin cursor twin : Cursor}
  {depth : Nat} {read others : List Node} {context other : Context}
  {property : Stage → α → α → Cursor → Cursor → Prop}

namespace MirrorsNode

variable {production copy : Production Node}

/-- What a production reads is added to what was read before. -/
theorem after (hProduction : W.MirrorsNode production copy) (hFits : W.Fits context other)
    (h : W.Tracks first origin depth read others stage cursor twin) :
    Mimics stage production copy context other cursor twin fun reached node node' later later' =>
      W.Tracks first origin depth (read ++ [node]) (others ++ [node']) reached later later' :=
  (hProduction context other stage cursor twin hFits h.meets).imp fun _ _ _ _ _ hNode =>
    h.trans hNode

theorem bindAfter {next another : Node → Production α}
    (hProduction : W.MirrorsNode production copy) (hFits : W.Fits context other)
    (h : W.Tracks first origin depth read others stage cursor twin)
    (hNext : ∀ reached node node' later later',
      W.Tracks first origin depth (read ++ [node]) (others ++ [node']) reached later later' →
      Mimics reached (next node) (another node') context other later later' property) :
    Mimics stage (production >>= next) (copy >>= another) context other cursor twin property :=
  (hProduction.after hFits h).bind hNext

/-- As `after`, for a node that might have been left out. -/
theorem someAfter (hProduction : W.MirrorsNode production copy) (hFits : W.Fits context other)
    (h : W.Tracks first origin depth read others stage cursor twin) :
    Mimics stage (some <$> production) (some <$> copy) context other cursor twin
      fun reached node node' later later' =>
        W.Tracks first origin depth (read ++ node.toList) (others ++ node'.toList) reached later
            later' ∧ (node'.isSome = node.isSome) :=
  .map ((hProduction.after hFits h).imp fun _ _ _ _ _ hNode => ⟨hNode, rfl⟩)

theorem withReader {change another : Context → Context}
    (hChange : ∀ {context other}, W.Fits context other → W.Fits (change context) (another other))
    (h : W.MirrorsNode production copy) :
    W.MirrorsNode (MonadWithReader.withReader change production)
      (MonadWithReader.withReader another copy) :=
  fun _ _ stage cursor twin hFits hMeets => h _ _ stage cursor twin (hChange hFits) hMeets

theorem allowIn (h : W.MirrorsNode production copy) :
    W.MirrorsNode (allowIn production) (allowIn copy) :=
  h.withReader fun hFits => hFits.within false

theorem withoutIn (h : W.MirrorsNode production copy) :
    W.MirrorsNode (withoutIn production) (withoutIn copy) :=
  h.withReader fun hFits => hFits.within true

theorem inFunction {isAsync isGenerator : Bool} (h : W.MirrorsNode production copy) :
    W.MirrorsNode (inFunction isAsync isGenerator production)
      (inFunction isAsync isGenerator copy) :=
  h.withReader fun hFits => (hFits.function isAsync isGenerator).within false

theorem nested (h : W.MirrorsNode production copy) :
    W.MirrorsNode (nested production) (nested copy) := by
  intro context other stage cursor twin hFits hMeets
  refine .read_bind ?_
  by_cases hDepth : maximumDepth ≤ context.depth
  · rw [if_pos hDepth]
    exact .of_yields (.bind (fun _ _ _ => trivial) fun _ _ _ => .fault)
  · rw [if_neg hDepth, if_neg (fun hOther => hDepth (hOther.trans hFits.depth_le))]
    exact h.withReader Fits.nested context other stage cursor twin hFits hMeets

end MirrorsNode

namespace Mirrors

variable {production copy : Production β} {nodes : β → List Node} {related : β → β → Prop}

theorem after (hProduction : W.Mirrors production copy nodes related)
    (hFits : W.Fits context other)
    (h : W.Tracks first origin depth read others stage cursor twin) :
    Mimics stage production copy context other cursor twin
      fun reached value value' later later' =>
        W.Tracks first origin depth (read ++ nodes value) (others ++ nodes value') reached later
            later' ∧ related value value' :=
  (hProduction context other stage cursor twin hFits h.meets).imp fun _ _ _ _ _ hValue =>
    ⟨h.trans hValue.1, hValue.2⟩

theorem bindAfter {next another : β → Production α}
    (hProduction : W.Mirrors production copy nodes related) (hFits : W.Fits context other)
    (h : W.Tracks first origin depth read others stage cursor twin)
    (hNext : ∀ reached value value' later later',
      W.Tracks first origin depth (read ++ nodes value) (others ++ nodes value') reached later
        later' → related value value' →
      Mimics reached (next value) (another value') context other later later' property) :
    Mimics stage (production >>= next) (copy >>= another) context other cursor twin property :=
  (hProduction.after hFits h).bind fun _ _ _ _ _ hValue => hNext _ _ _ _ _ hValue.1 hValue.2

theorem withReader {change another : Context → Context}
    (hChange : ∀ {context other}, W.Fits context other → W.Fits (change context) (another other))
    (h : W.Mirrors production copy nodes related) :
    W.Mirrors (MonadWithReader.withReader change production)
      (MonadWithReader.withReader another copy) nodes related :=
  fun _ _ stage cursor twin hFits hMeets => h _ _ stage cursor twin (hChange hFits) hMeets

theorem inFunction {isAsync isGenerator : Bool}
    (h : W.Mirrors production copy nodes related) :
    W.Mirrors (inFunction isAsync isGenerator production)
      (inFunction isAsync isGenerator copy) nodes related :=
  h.withReader fun hFits => (hFits.function isAsync isGenerator).within false

end Mirrors

theorem Mimics.startOffset_bind {next another : Nat → Production α} (hFits : W.Fits context other)
    (h : W.Meets stage cursor twin)
    (hNext : ∀ start start', (stage ≠ .lost → W.Near start start') →
      Mimics stage (next start) (another start') context other cursor twin property) :
    Mimics stage (startOffset >>= next) (startOffset >>= another) context other cursor twin
      property := by
  refine hNext _ _ fun hStage => ?_
  obtain ⟨hRest, hTwin⟩ | ⟨lexeme, copy, rest, more, hRest, hTwin, hAlike⟩ :=
    h.current_cases hStage
  · rw [Cursor.current?, Cursor.current?, hRest, hTwin]
    exact .inr ⟨hFits.size_eq, hFits.newSize_eq⟩
  · rw [Cursor.current?, Cursor.current?, hRest, hTwin]
    exact .inl hAlike.start

/-- As `startOffset_bind`, where the offset is that of a token and is to wait for a pattern. -/
theorem Mimics.startOffset_waits_bind {next another : Nat → Production α} (hFair : W.IsFair)
    (h : W.Meets stage cursor twin) (hSome : cursor.rest ≠ [])
    (hNext : ∀ start start', (stage ≠ .lost → W.waits stage start start') →
      Mimics stage (next start) (another start') context other cursor twin property) :
    Mimics stage (startOffset >>= next) (startOffset >>= another) context other cursor twin
      property := by
  refine hNext _ _ fun hStage => ?_
  obtain ⟨hRest, -⟩ | ⟨lexeme, copy, rest, more, hRest, hTwin, hAlike⟩ := h.current_cases hStage
  · exact absurd hRest hSome
  · rw [Cursor.current?, Cursor.current?, hRest, hTwin]
    refine hFair.waits_of_mem hAlike (h.inOrder.nonempty _ ?_) ?_
    · rw [Cursor.tokens, hRest]
      exact List.mem_cons_self
    · have hPlace := h.place
      cases stage with
      | before =>
          obtain ⟨lexemes, others, hAhead, hOld, -⟩ := hPlace
          obtain ⟨first, second, front, copies, rfl, -, -, -⟩ := hAhead.exists_cons
          obtain ⟨rfl, -⟩ := List.cons.inj (hRest.symm.trans hOld)
          exact .inl ⟨rfl, hAhead.behind.subset List.mem_cons_self⟩
      | after => exact .inr ⟨rfl, hPlace.behind.subset (hRest ▸ List.mem_cons_self)⟩
      | lost => exact absurd rfl hStage

/-- Two productions that leave the cursors where they are. -/
theorem Mimics.still_bind {production copy : Production β} {next another : β → Production α}
    (h : Mimics stage production copy context other cursor twin
      fun reached value value' later later' =>
        reached = stage ∧ value' = value ∧ later = cursor ∧ later' = twin)
    (hNext : ∀ value,
      Mimics stage (next value) (another value) context other cursor twin property) :
    Mimics stage (production >>= next) (copy >>= another) context other cursor twin property := by
  refine h.bind ?_
  rintro _ value _ _ _ ⟨rfl, rfl, rfl, rfl⟩
  exact hNext _

theorem Mimics.require {feature : Feature} {offset offset' : Nat} (hFits : W.Fits context other) :
    Mimics stage (require feature offset) (require feature offset') context other cursor twin
      fun reached _ _ later later' =>
        reached = stage ∧ () = () ∧ later = cursor ∧ later' = twin := by
  refine .read_bind (.ite (fun _ => ?_) (fun _ => .pure ⟨rfl, rfl, rfl, rfl⟩) fun _ => .fault)
  rw [hFits.year_eq]

theorem Mimics.require_bind {feature : Feature} {offset offset' : Nat}
    {next another : Unit → Production α} (hFits : W.Fits context other)
    (hNext : Mimics stage (next ()) (another ()) context other cursor twin property) :
    Mimics stage (Production.require feature offset >>= next)
      (Production.require feature offset' >>= another) context other cursor twin property :=
  (Mimics.require hFits).still_bind fun _ => hNext

/-- A check of the edition for the current token. -/
theorem Mimics.requireHere {feature : Feature} (hFits : W.Fits context other)
    (h : W.Meets stage cursor twin) :
    Mimics stage (do Production.require feature (← startOffset))
      (do Production.require feature (← startOffset)) context other cursor twin
      fun reached _ _ later later' => reached = stage ∧ later = cursor ∧ later' = twin :=
  .startOffset_bind hFits h fun _ _ _ => (Mimics.require hFits).imp
    fun _ _ _ _ _ ⟨hReached, _, hLater⟩ => ⟨hReached, hLater⟩

/-- A fault at the current token. -/
theorem Mimics.faultHere {cause : SyntaxFault} {second : Nat → Production α}
    (hFits : W.Fits context other) (h : W.Meets stage cursor twin) :
    Mimics stage (do Production.fault cause (← startOffset)) (do second (← startOffset))
      context other cursor twin property :=
  .startOffset_bind hFits h fun _ _ _ => .fault

/-- What is to be known of the members of an object: the property is not among them unless the
stretch is passed, and it has become another one. -/
structure SettlesObject (W : Exchange) (stage : Stage)
    (fields changed : List (FieldName × FieldValue)) : Prop where
  quiet : stage ≠ .after → ∀ property ∈ W.property?, property ∉ Field.filledIn fields
  settles : stage ≠ .lost → List.Forall₂ (Field.Named (Node.Settles W.Becomes)) fields changed

namespace Tracks

/-- A check of the edition moves nothing. -/
theorem require {feature : Feature} {offset offset' : Nat} (hFits : W.Fits context other)
    (h : W.Tracks first origin depth read others stage cursor twin) :
    Mimics stage (Production.require feature offset) (Production.require feature offset') context
      other cursor twin fun reached _ _ later later' =>
        W.Tracks first origin depth read others reached later later' :=
  (Mimics.require hFits).imp fun _ _ _ _ _ ⟨hReached, _, hLater, hLater'⟩ => by
    rwa [hReached, hLater, hLater']

theorem newlineBefore_bind {next another : Bool → Production α} (hFits : W.Fits context other)
    (h : W.Tracks first origin depth read others stage cursor twin)
    (hNext : ∀ found twin, W.Tracks first origin depth read others stage cursor twin →
      Mimics stage (next found) (another found) context other cursor twin property) :
    Mimics stage (newlineBefore >>= next) (newlineBefore >>= another) context other cursor twin
      property := by
  have hSame : Mimics stage newlineBefore newlineBefore context other cursor twin
      fun reached found found' later later' => reached = stage ∧ found' = found ∧ later = cursor ∧
        W.Tracks first origin depth read others stage cursor later' := by
    refine h.get_bind fun twin h hLooks => ?_
    obtain ⟨hRest, hTwin⟩ | ⟨lexeme, copy, rest, more, hRest, hTwin, hMatches⟩ := hLooks.rest_cases
    · rw [hRest, hTwin]
      refine .read_bind ?_
      rw [hFits.newlineAtEnd_eq]
      exact .pure ⟨rfl, rfl, rfl, h⟩
    · rw [hRest, hTwin]
      dsimp only
      rw [hMatches.newlineBefore_eq]
      exact .pure ⟨rfl, rfl, rfl, h⟩
  refine hSame.bind ?_
  rintro _ found _ _ later' ⟨rfl, rfl, rfl, hLater⟩
  exact hNext _ later' hLater

theorem atStatementEnd_bind {next another : Bool → Production α} (hFits : W.Fits context other)
    (h : W.Tracks first origin depth read others stage cursor twin)
    (hNext : ∀ found twin, W.Tracks first origin depth read others stage cursor twin →
      Mimics stage (next found) (another found) context other cursor twin property) :
    Mimics stage (atStatementEnd >>= next) (atStatementEnd >>= another) context other cursor twin
      property := by
  have hSame : Mimics stage atStatementEnd atStatementEnd context other cursor twin
      fun reached found found' later later' => reached = stage ∧ found' = found ∧ later = cursor ∧
        W.Tracks first origin depth read others stage cursor later' := by
    refine h.get_bind fun twin h hLooks => h.newlineBefore_bind hFits fun found twin' h => ?_
    rw [hLooks.atText_eq, hLooks.atText_eq, hLooks.atEnd_eq]
    exact .pure ⟨rfl, rfl, rfl, h⟩
  refine hSame.bind ?_
  rintro _ found _ _ later' ⟨rfl, rfl, rfl, hLater⟩
  exact hNext _ later' hLater

theorem semicolon (hFits : W.Fits context other)
    (h : W.Tracks first origin depth read others stage cursor twin) :
    Mimics stage semicolon semicolon context other cursor twin fun reached _ _ later later' =>
      W.Tracks first origin depth read others reached later later' := by
  refine h.eat_bind (by decide) fun reached found later later' h => ?_
  refine .ite (fun _ => Iff.rfl) (fun _ => .pure h) fun _ => ?_
  refine h.atStatementEnd_bind hFits fun found twin h => ?_
  exact .ite (fun _ => Iff.rfl) (fun _ => .pure h) fun _ => .unexpected

theorem semicolon_bind {next another : Unit → Production α} (hFits : W.Fits context other)
    (h : W.Tracks first origin depth read others stage cursor twin)
    (hNext : ∀ reached later later', W.Tracks first origin depth read others reached later later' →
      Mimics reached (next ()) (another ()) context other later later' property) :
    Mimics stage (Production.semicolon >>= next) (Production.semicolon >>= another) context other
      cursor twin property :=
  (h.semicolon hFits).bind fun _ _ _ _ _ => hNext _ _ _

/-- Making a node whose children were read since the origin. -/
theorem store {kind : NodeKind} {span shifted : Span}
    {fields changed : List (FieldName × FieldValue)}
    (h : W.Tracks first origin depth read others stage cursor twin)
    (hSpan : stage ≠ .lost → W.Bounds span shifted)
    (hFields : stage ≠ .lost → List.Forall₂ W.Alike read others →
      List.Forall₂ (Field.Named W.Alike) fields changed)
    (hChildren : ∀ child ∈ Field.filledIn fields, child ∈ read)
    (hObject : kind = .objectExpression → W.SettlesObject stage fields changed) :
    Mimics stage (Production.store kind span fields) (Production.store kind shifted changed)
      context other cursor twin fun reached node node' later later' =>
        W.Tracks first origin depth [node] [node'] reached later later' := by
  rintro _ _ ⟨⟩
  refine ⟨stage, _, _, ?_, fun hStage => ⟨hStage, rfl⟩⟩
  refine ⟨h.meets.congr rfl rfl h.meets.previousEnd h.meets.defaults, h.leads, h.takes,
    fun hStage => .cons (.same (hSpan hStage) (hFields hStage (h.alike hStage))
      fun hKind => (hObject hKind).settles hStage) .nil,
    fun hStage => ?_⟩
  rw [Quiet, forest_singleton]
  refine List.forall_mem_cons.mpr ⟨fun hKind property hProperty => ?_, ?_⟩
  · rw [children_eq_filledIn]
    exact (hObject hKind).quiet hStage property hProperty
  · intro below hBelow
    obtain ⟨child, hChild, hBelow⟩ := mem_forest.mp hBelow
    rw [children_eq_filledIn] at hChild
    exact h.quiet hStage below (mem_forest.mpr ⟨child, hChildren child hChild, hBelow⟩)

/-- Making a node from an offset on. -/
theorem finish {kind : NodeKind} {start start' : Nat}
    {fields changed : List (FieldName × FieldValue)} (hFair : W.IsFair)
    (h : W.Tracks first origin depth read others stage cursor twin)
    (hStart : first ≠ .lost → W.Near start start')
    (hFields : stage ≠ .lost → List.Forall₂ W.Alike read others →
      List.Forall₂ (Field.Named W.Alike) fields changed)
    (hChildren : ∀ child ∈ Field.filledIn fields, child ∈ read)
    (hObject : kind = .objectExpression → W.SettlesObject stage fields changed) :
    Mimics stage (Production.finish kind start fields) (Production.finish kind start' changed)
      context other cursor twin fun reached node node' later later' =>
        W.Tracks first origin depth [node] [node'] reached later later' := by
  refine .get_bind (h.store (fun hStage => ?_) hFields hChildren hObject)
  have hNear := hStart (h.leads.ne_lost hStage)
  refine ⟨hNear, ?_⟩
  have hLe := hFair.near_le (h.meets.previousEnd hStage) hNear
  by_cases hEnd : cursor.previousEnd ≤ start
  · rw [Nat.max_eq_right hEnd, Nat.max_eq_right (hLe.mp hEnd)]
    exact hNear
  · rw [Nat.max_eq_left (by omega), Nat.max_eq_left (by omega)]
    exact h.meets.previousEnd hStage

/-- Making a node without children, next to what was read before. -/
theorem leaf {kind : NodeKind} {span shifted : Span}
    {fields changed : List (FieldName × FieldValue)}
    (h : W.Tracks first origin depth read others stage cursor twin)
    (hSpan : stage ≠ .lost → W.Bounds span shifted)
    (hFields : stage ≠ .lost → List.Forall₂ (Field.Named W.Alike) fields changed)
    (hPlain : Field.filledIn fields = []) (hKind : kind ≠ .objectExpression) :
    Mimics stage (Production.store kind span fields) (Production.store kind shifted changed)
      context other cursor twin fun reached node node' later later' =>
        W.Tracks first origin depth (read ++ [node]) (others ++ [node']) reached later later' := by
  refine ((Tracks.refl h.meets).store hSpan (fun hStage _ => hFields hStage) ?_
    fun hObject => absurd hObject hKind).imp fun _ _ _ _ _ hNode => h.trans hNode
  simp [hPlain]

/-- Moving past a token and making a node of it. -/
theorem bump_leaf {kind : NodeKind} {token : Token} {span : Span}
    {fields : List (FieldName × FieldValue)}
    (h : W.Tracks first origin depth read others stage cursor twin)
    (hToken : cursor.current? = some token) (hTwin : twin.current? = some { token with span })
    (hFlat : token.IsFlat) (hFields : List.Forall₂ (Field.Named W.Alike) fields fields)
    (hPlain : Field.filledIn fields = []) (hKind : kind ≠ .objectExpression) :
    Mimics stage (do Production.bump; Production.store kind token.span fields)
      (do Production.bump; Production.store kind span fields) context other cursor twin
      fun reached node node' later later' =>
        W.Tracks first origin depth (read ++ [node]) (others ++ [node']) reached later later' := by
  refine (((Tracks.refl h.meets).bump fun other hOther => ?_).bind ?_).imp
    fun _ _ _ _ _ hNode => h.trans hNode
  · rwa [← Option.some.inj (hToken.symm.trans hOther)]
  · exact fun _ _ _ _ _ h' => h'.leaf (fun hStage => h.meets.bounds_of_current hToken hTwin
      (h'.leads.ne_lost hStage)) (fun _ => hFields) hPlain hKind

theorem bump_leaf_bind {kind : NodeKind} {token : Token} {span : Span}
    {fields : List (FieldName × FieldValue)} {next another : Node → Production α}
    (h : W.Tracks first origin depth read others stage cursor twin)
    (hToken : cursor.current? = some token) (hTwin : twin.current? = some { token with span })
    (hFlat : token.IsFlat) (hFields : List.Forall₂ (Field.Named W.Alike) fields fields)
    (hPlain : Field.filledIn fields = []) (hKind : kind ≠ .objectExpression)
    (hNext : ∀ reached node node' later later',
      W.Tracks first origin depth (read ++ [node]) (others ++ [node']) reached later later' →
      Mimics reached (next node) (another node') context other later later' property) :
    Mimics stage (do Production.bump; next (← Production.store kind token.span fields))
      (do Production.bump; another (← Production.store kind span fields)) context other cursor
      twin property := by
  have hAll := (h.bump_leaf hToken hTwin hFlat hFields hPlain hKind).bind hNext
  rw [bind_assoc, bind_assoc] at hAll
  exact hAll

theorem quiet_of_turned {target expression : Node} (h : target.Turned expression)
    (hQuiet : W.Quiet [expression]) : W.Quiet [target] := by
  intro object hObject hKind
  rw [forest, List.flatMap_singleton] at hObject
  refine hQuiet object ?_ hKind
  rw [forest, List.flatMap_singleton]
  exact h.objects object hObject hKind

theorem toTarget_ne_ok_of_property {node target : Node} {isLast : Bool}
    (h : node.kind = .property) : node.toTarget .whole isLast ≠ .ok target := by
  obtain ⟨id, kind, span, fields⟩ := node
  obtain rfl : kind = .property := h
  rintro ⟨⟩

/-- Turning what was read into a target. -/
theorem toTarget {expression copy : Node} (hFair : W.IsFair)
    (h : W.Tracks first origin depth [expression] [copy] stage cursor twin)
    (hPlain : OperatorsArePlain [expression]) :
    Mimics stage (Grammar.toTarget expression) (Grammar.toTarget copy) context other cursor twin
      fun reached target target' later later' =>
        W.Tracks first origin depth [target] [target'] reached later later' := by
  intro target later hRun
  cases hTarget : expression.toTarget .whole true with
  | error error =>
    rw [Grammar.toTarget, hTarget] at hRun
    cases hRun
  | ok result =>
    rw [Grammar.toTarget, hTarget] at hRun
    cases hRun
    have hTurned := @quiet_of_turned W _ _ (turned_of_toTarget expression hPlain hTarget)
    by_cases hStage : stage = .lost
    · subst hStage
      refine ⟨.lost, copy, twin, ?_, fun hNot => absurd rfl hNot⟩
      exact ⟨h.meets.congr rfl rfl (fun hNot => absurd rfl hNot) fun hNot => absurd rfl hNot,
        h.leads, h.takes, fun hNot => absurd rfl hNot, fun hQuiet => hTurned (h.quiet hQuiet)⟩
    · have hAlike := (List.forall₂_cons.mp (h.alike hStage)).1
      obtain ⟨changed, hChanged, hResult⟩ :=
        exists_toTarget_alike hFair.becomes expression copy hAlike hTarget
      have hBounds : W.Bounds expression.span copy.span := by
        cases hAlike with
        | same hSpan _ _ => exact hSpan
        | changed hBecomes =>
            exact absurd hTarget (toTarget_ne_ok_of_property (hFair.property _ hBecomes.1).1)
      refine ⟨stage, changed, _, ?_, fun _ => ⟨hStage, by rw [Grammar.toTarget, hChanged]; rfl⟩⟩
      refine ⟨h.meets.congr rfl rfl h.meets.previousEnd fun _ => ?_, h.leads, h.takes,
        fun _ => .cons hResult .nil, fun hQuiet => hTurned (h.quiet hQuiet)⟩
      refine List.rel_filter (fun offset offset' hWaits => ?_) (h.meets.defaults hStage)
      have hStart := hFair.waits_le hBounds.1 hWaits
      have hStop := hFair.waits_le hBounds.2 hWaits
      simp only [Bool.not_eq_true', Bool.and_eq_false_iff, decide_eq_false_iff_not]
      omega

/-- Repeating turns that read nodes. -/
theorem iterate_bind {turn copy : σ → Production (Turn σ β)} {state state' : σ}
    {next another : β → Production α} (nodes : σ → List Node) (results : β → List Node)
    (hFair : W.IsFair) (hConsumes : Consumes turn)
    (h : W.Tracks first origin depth (nodes state) (nodes state') stage cursor twin)
    (hTurn : ∀ reached state state' later later',
      W.Tracks first origin depth (nodes state) (nodes state') reached later later' →
      Mimics reached (turn state) (copy state') context other later later'
        (Both (fun reached state state' => W.Tracks first origin depth (nodes state) (nodes state')
            reached)
          fun reached result result' => W.Tracks first origin depth (results result)
            (results result') reached))
    (hNext : ∀ reached result result' later later',
      W.Tracks first origin depth (results result) (results result') reached later later' →
      Mimics reached (next result) (another result') context other later later' property) :
    Mimics stage (Production.iterate turn state >>= next)
      (Production.iterate copy state' >>= another) context other cursor twin property :=
  (Mimics.iterate hFair hConsumes _ _ h (fun _ _ _ _ _ h => h.meets.abreast) hTurn).bind hNext

/-- As `iterate_bind`, for turns that add to a list of nodes. -/
theorem list_bind {turn copy : List Node → Production (Turn (List Node) (List Node))}
    {next another : List Node → Production α} (hFair : W.IsFair) (hConsumes : Consumes turn)
    (h : W.Tracks first origin depth read others stage cursor twin)
    (hTurn : ∀ reached seen seen' later later',
      W.Tracks first origin depth seen seen' reached later later' →
      Mimics reached (turn seen) (copy seen') context other later later'
        (Both (fun reached seen seen' => W.Tracks first origin depth seen seen' reached)
          fun reached result result' => W.Tracks first origin depth result result' reached))
    (hNext : ∀ reached result result' later later',
      W.Tracks first origin depth result result' reached later later' →
      Mimics reached (next result) (another result') context other later later' property) :
    Mimics stage (Production.iterate turn read >>= next)
      (Production.iterate copy others >>= another) context other cursor twin property :=
  iterate_bind (fun seen => seen) (fun result => result) hFair hConsumes h hTurn hNext

end Tracks

theorem mirrorsNode_identifier : W.MirrorsNode identifier identifier := by
  intro context other stage cursor twin _ hMeets
  refine (Tracks.refl hMeets).get_bind fun twin h hLooks => ?_
  obtain ⟨hToken, hTwin⟩ | ⟨token, span, hToken, hTwin⟩ := hLooks.current?_cases
  · rw [hToken]
    exact .unexpected
  · rw [hToken, hTwin]
    refine .ite (fun _ => Iff.rfl) (fun hKind => ?_) fun _ => .unexpected
    have hFlat : token.kind ≠ .punctuator := by
      rw [beq_iff_eq.mp hKind]
      decide
    exact h.bump_leaf hToken hTwin (Token.isFlat_of_kind hFlat) (by simp) (by simp) (by simp)

theorem mirrorsNode_identifierName : W.MirrorsNode identifierName identifierName := by
  intro context other stage cursor twin _ hMeets
  refine (Tracks.refl hMeets).get_bind fun twin h hLooks => ?_
  obtain ⟨hToken, hTwin⟩ | ⟨token, span, hToken, hTwin⟩ := hLooks.current?_cases
  · rw [hToken]
    exact .unexpected
  · rw [hToken, hTwin]
    refine .ite (fun _ => Iff.rfl) (fun hWord => ?_) fun _ => .unexpected
    have hFlat : token.kind ≠ .punctuator := fun hKind => by simp [Token.isWord, hKind] at hWord
    exact h.bump_leaf hToken hTwin (Token.isFlat_of_kind hFlat) (by simp) (by simp) (by simp)

end Exchange

end EcmaLint
