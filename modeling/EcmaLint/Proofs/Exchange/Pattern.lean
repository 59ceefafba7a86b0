import EcmaLint.Proofs.Exchange.Steps
import EcmaLint.Proofs.Grammar.Statement
import EcmaLint.Proofs.Progress.Statement

/-! Literals, templates, names of properties and binding patterns, in the old text and in the new
one. What the productions read that the grammar can come back to is an assumption on two grammars,
of which the second may have more levels than the first. -/
namespace EcmaLint

section

open Grammar Node Production

namespace Exchange

/-- Of a turn that gets on, one that asks for another turn takes a token. -/
theorem consumes_of_rounds {σ β : Type} {moved : Bool} {turn : σ → Production (Turn σ β)}
    {twin : σ → Parser (Turn σ β)} {nodes : σ → List Node} {results : β → List Node}
    (h : ∀ limit, Rounds (fun _ => True) (limit + 1) moved turn twin nodes results) :
    Consumes turn := by
  intro state context cursor next later hRun
  have hLies : cursor.LiesIn (fun _ => True) context.size :=
    ⟨trivial, fun _ _ => ⟨trivial, trivial⟩, trivial, fun _ _ => trivial⟩
  have hLands := (h cursor.rest.length state context cursor hLies (Nat.lt_succ_self _)
    fun _ _ => trivial).lands
  rw [hRun] at hLands
  exact hLands.length_lt

/-- Where the property is read off the stretch in the old text, one that it becomes is read off the
new one. -/
def Rereads (W : Exchange) (G H : Grammar Production) : Prop :=
  ∀ context other cursor twin property later, W.Fits context other → W.AtEdge cursor twin →
    (∃ mark ∈ W.front.getLast?, mark.is "\x7b" = true ∨ mark.is "," = true) →
    W.property? = some property → Grammar.property G context cursor = .ok (property, later) →
    later.rest = W.back → (later.atText "\x7d" = true ∨ later.atText "," = true) →
    ∃ property' later', Grammar.property H other twin = .ok (property', later') ∧
      W.becomes property' ∧ W.Meets .after later later'

/-- All that two grammars can come back to reads nodes that are alike. -/
structure Mirrored (W : Exchange) (G H : Grammar Production) : Prop where
  fair : W.IsFair
  reads : G.ReadsNodes
  advances : ∃ parser : Grammar Parser, ∀ limit, Grammar.Alike (fun _ => True) limit G parser
  rereads : W.Rereads G H
  statement : W.MirrorsNode G.statement H.statement
  assignment : W.MirrorsNode G.assignment H.assignment
  binary : ∀ minimum, W.MirrorsNode (G.binary minimum) (H.binary minimum)
  unary : W.MirrorsNode G.unary H.unary
  leftHandSide : W.MirrorsNode G.leftHandSide H.leftHandSide
  newExpression : W.MirrorsNode G.newExpression H.newExpression
  bindingTarget : W.MirrorsNode G.bindingTarget H.bindingTarget

namespace Mirrored

variable {W : Exchange} {G H : Grammar Production}

theorem expression (hG : W.Mirrored G H) : W.MirrorsNode G.expression H.expression := by
  intro context other stage cursor twin hFits hMeets
  refine .startOffset_bind hFits hMeets fun start start' hStart => ?_
  refine hG.assignment.bindAfter hFits (.refl hMeets) fun _ first first' _ _ h => ?_
  refine h.get_bind fun twin h hLooks => .ite (fun _ => hLooks.atText_iff _) (fun _ => ?_)
    fun _ => .pure h
  obtain ⟨_, hAdvances⟩ := hG.advances
  have hConsumes := consumes_of_rounds fun limit =>
    rounds_expressionTurn (hAdvances (limit + 1) .assignment)
  refine h.list_bind hG.fair hConsumes (fun _ seen seen' _ _ h => ?_) fun _ _ _ _ _ h => ?_
  · refine h.eat_bind (by decide) fun _ found _ _ h => ?_
    refine .ite (fun _ => Iff.rfl) (fun _ => ?_) fun _ => .pure (.done h)
    exact hG.assignment.bindAfter hFits h fun _ _ _ _ _ h => .pure (.again h)
  · exact h.finish hG.fair hStart (fun _ h => by simpa using h) (by simp) (by simp)

theorem parenthesized (hG : W.Mirrored G H) : W.MirrorsNode G.parenthesized H.parenthesized := by
  intro context other stage cursor twin hFits hMeets
  refine (Tracks.refl hMeets).open_bind (by decide) fun _ _ _ h => ?_
  refine hG.expression.allowIn.bindAfter hFits h fun _ inner inner' _ _ h => ?_
  exact h.close_bind (by decide) fun _ _ _ h => .pure h

/-- The statements of a block up to the brace that closes it. -/
theorem iterate_blockTurn (hG : W.Mirrored G H) :
    W.Mirrors (iterate (blockTurn G) []) (iterate (blockTurn H) []) (fun body => body)
      fun _ _ => True := by
  intro context other stage cursor twin hFits hMeets
  obtain ⟨_, hAdvances⟩ := hG.advances
  have hConsumes := consumes_of_rounds fun limit => (hAdvances (limit + 1)).blockTurn
  refine (Mimics.iterate hG.fair hConsumes
    (fun reached seen seen' => W.Tracks stage cursor 0 seen seen' reached)
    (fun reached body body' => W.Tracks stage cursor 0 body body' reached)
    (Tracks.refl hMeets) (fun _ _ _ _ _ h => h.meets.abreast) fun _ seen seen' _ _ h => ?_).imp
    fun _ _ _ _ _ h => ⟨h, trivial⟩
  refine h.get_bind fun twin h hLooks => ?_
  refine .ite (fun _ => hLooks.atText_iff _) (fun hText => .pure (.done h)) fun _ => ?_
  refine .ite (fun _ => by rw [hLooks.atEnd_eq]) (fun _ => .unexpected) fun _ => ?_
  exact hG.statement.bindAfter hFits h fun _ _ _ _ _ h => .pure (.again h)

/-- A block ends with a brace. -/
theorem yields_iterate_blockTurn {context : Context} {cursor : Cursor} :
    Yields (iterate (blockTurn G) []) context cursor fun _ later => later.atText "\x7d" = true := by
  refine .iterate (fun _ _ => True) _ trivial fun seen later _ => .get_bind (.ite ?_ fun _ => ?_)
  · exact fun hText => .pure hText
  · exact .ite (fun _ => .unexpected) fun _ => .bind (fun _ _ _ => trivial) fun _ _ _ =>
      .pure trivial

theorem block (hG : W.Mirrored G H) : W.MirrorsNode G.block H.block := by
  intro context other stage cursor twin hFits hMeets
  refine .startOffset_bind hFits hMeets fun start start' hStart => ?_
  refine (Tracks.refl hMeets).open_bind (by decide) fun _ _ _ h => ?_
  refine ((hG.iterate_blockTurn.after hFits h).and_yields yields_iterate_blockTurn).bind
    fun _ body body' _ _ ⟨⟨h, _⟩, hText⟩ => ?_
  refine h.bump_closing_bind hText (by decide) fun _ _ _ h => ?_
  exact h.finish hG.fair hStart (fun _ h => by simpa using h) (by simp) (by simp)

end Mirrored
end Exchange

end

section

open Grammar Node Production

namespace Exchange

variable {W : Exchange} {G H : Grammar Production} {stage : Stage} {origin cursor twin : Cursor}
  {context other : Context} {token : Token} {span : Span}

theorem yields_identifierName_kind :
    Yields identifierName context cursor fun node _ => node.kind = .identifier := by
  refine .get_bind ?_
  split
  · refine .ite (fun _ => ?_) fun _ => .unexpected
    exact .bind (fun _ _ _ => trivial) fun _ _ _ => .store (by rintro _ rfl; rfl)
  · exact .unexpected

theorem yields_literal_kind {value : FieldValue} :
    Yields (literal token value) context cursor fun node _ => node.kind = .literal :=
  .store (by rintro _ rfl; rfl)

theorem mimics_numericLiteral (hFits : W.Fits context other)
    (h : W.Tracks stage cursor 0 [] [] stage cursor twin) (hToken : cursor.current? = some token)
    (hTwin : twin.current? = some { token with span }) (hFlat : token.IsFlat) :
    Mimics stage (numericLiteral token) (numericLiteral { token with span }) context other cursor
      twin fun reached node node' later later' =>
        W.Tracks stage cursor 0 [node] [node'] reached later later' := by
  refine h.bump_bind (fun other hOther => ?_) fun reached later later' h' => ?_
  · rwa [← Option.some.inj (hToken.symm.trans hOther)]
  have hSpan := fun hReached : reached ≠ .lost =>
    h.meets.bounds_of_current hToken hTwin (h'.leads.ne_lost hReached)
  refine .ite (fun _ => Iff.rfl) (fun _ => .require_bind hFits ?_) fun _ => ?_
  · exact h'.leaf hSpan (fun _ => by simp) (by simp) (by simp)
  · exact h'.leaf hSpan (fun _ => by simp) (by simp) (by simp)

/-- The pieces and the expressions of a template that were read since the origin. -/
def TracksParts (W : Exchange) (first : Stage) (origin : Cursor) (reached : Stage)
    (parts others : List Node × List Node) (later later' : Cursor) : Prop :=
  W.Tracks first origin 0 (parts.1 ++ parts.2) (others.1 ++ others.2) reached later later' ∧
    (reached ≠ .lost →
      List.Forall₂ W.Alike parts.1 others.1 ∧ List.Forall₂ W.Alike parts.2 others.2)

/-- Another piece is read. -/
theorem TracksParts.piece {first : Stage} {quasis expressions quasis' expressions' : List Node}
    {quasi quasi' : Node} {reached : Stage} {later later' : Cursor}
    (h : W.TracksParts first origin stage (quasis, expressions) (quasis', expressions') cursor twin)
    (hQuasi : W.Tracks stage cursor 0 [quasi] [quasi'] reached later later') :
    W.TracksParts first origin reached (quasis ++ [quasi], expressions)
      (quasis' ++ [quasi'], expressions') later later' := by
  have hAlike : reached ≠ .lost → List.Forall₂ W.Alike (quasis ++ [quasi]) (quasis' ++ [quasi']) ∧
      List.Forall₂ W.Alike expressions expressions' := fun hReached => by
    obtain ⟨hFirst, hSecond⟩ := h.2 (hQuasi.leads.ne_lost hReached)
    exact ⟨List.rel_append hFirst (hQuasi.alike hReached), hSecond⟩
  refine ⟨(h.1.trans hQuasi).regroup (fun hReached => ?_) (by simp; grind), hAlike⟩
  exact List.rel_append (hAlike hReached).1 (hAlike hReached).2

/-- Another expression is read. -/
theorem TracksParts.expression {first : Stage}
    {quasis expressions quasis' expressions' : List Node} {inner inner' : Node} {reached : Stage}
    {later later' : Cursor}
    (h : W.TracksParts first origin stage (quasis, expressions) (quasis', expressions') cursor twin)
    (hInner : W.Tracks stage cursor 0 [inner] [inner'] reached later later') :
    W.TracksParts first origin reached (quasis, expressions ++ [inner])
      (quasis', expressions' ++ [inner']) later later' := by
  have hAlike : reached ≠ .lost → List.Forall₂ W.Alike quasis quasis' ∧
      List.Forall₂ W.Alike (expressions ++ [inner]) (expressions' ++ [inner']) :=
    fun hReached => by
      obtain ⟨hFirst, hSecond⟩ := h.2 (hInner.leads.ne_lost hReached)
      exact ⟨hFirst, List.rel_append hSecond (hInner.alike hReached)⟩
  refine ⟨(h.1.trans hInner).regroup (fun hReached => ?_) (by simp), hAlike⟩
  exact List.rel_append (hAlike hReached).1 (hAlike hReached).2

namespace Mirrored

theorem template (hG : W.Mirrored G H) : W.MirrorsNode (template G) (template H) := by
  intro context other stage cursor twin hFits hMeets
  refine .startOffset_bind hFits hMeets fun start start' hStart => .require_bind hFits ?_
  obtain ⟨_, hAdvances⟩ := hG.advances
  have hConsumes := consumes_of_rounds fun limit => (hAdvances limit).templateTurn
  have h : W.TracksParts stage cursor stage ([], []) ([], []) cursor twin :=
    ⟨Tracks.refl hMeets, fun _ => ⟨.nil, .nil⟩⟩
  refine (Mimics.iterate hG.fair hConsumes (W.TracksParts stage cursor)
    (W.TracksParts stage cursor) h (fun _ _ _ _ _ h => h.1.meets.abreast) ?_).bind ?_
  · rintro stage' ⟨quasis, expressions⟩ ⟨quasis', expressions'⟩ later later' h
    refine h.1.get_bind fun twin hTwin hLooks => ?_
    replace h : W.TracksParts stage cursor stage' (quasis, expressions) (quasis', expressions')
      later twin := ⟨hTwin, h.2⟩
    obtain ⟨hToken, hTwin⟩ | ⟨token, span, hToken, hTwin⟩ := hLooks.current?_cases
    · rw [hToken]
      exact .unexpected
    · rw [hToken, hTwin]
      refine .ite (fun _ => Iff.rfl) (fun _ => .unexpected) fun hKind => ?_
      have hFlat : token.kind ≠ .punctuator := by
        rintro hPunctuator
        simp [hPunctuator] at hKind
      refine (Tracks.refl h.1.meets).bump_leaf_bind hToken hTwin (Token.isFlat_of_kind hFlat)
        (by simp) (by simp) (by simp) fun _ quasi quasi' _ _ hQuasi => ?_
      have h := h.piece hQuasi
      refine .ite (fun _ => Iff.rfl) (fun _ => .pure (.done h)) fun _ => ?_
      refine (hG.expression.allowIn _ _ _ _ _ hFits h.1.meets).bind
        fun _ inner inner' _ _ hInner => ?_
      have h := h.expression hInner
      refine h.1.get_bind fun twin hTwin hLooks => ?_
      refine .ite (fun _ => by rw [hLooks.atTemplateContinuation_eq])
        (fun _ => .pure (.again ⟨hTwin, h.2⟩)) fun _ => .unexpected_bind
  · rintro _ ⟨quasis, expressions⟩ ⟨quasis', expressions'⟩ _ _ ⟨h, hAlike⟩
    exact h.finish hG.fair hStart (fun hReached _ => by simpa using hAlike hReached) (by simp)
      (by simp)

/-- A name without brackets is no property, and in both texts the brackets are there or not. -/
theorem propertyKey (hG : W.Mirrored G H) :
    W.Mirrors (propertyKey G) (propertyKey H) (fun key => [key.1]) fun key key' =>
      key'.2 = key.2 ∧ (key.2 = false → key.1.kind ≠ .property) := by
  intro context other stage cursor twin hFits hMeets
  refine (Tracks.refl hMeets).get_bind fun twin h hLooks => ?_
  have hName : Mimics stage (do return (← identifierName, false))
      (do return (← identifierName, false)) context other cursor twin
      fun reached key key' later later' =>
        W.Tracks stage cursor 0 [key.1] [key'.1] reached later later' ∧
          key'.2 = key.2 ∧ (key.2 = false → key.1.kind ≠ .property) := by
    refine ((mirrorsNode_identifierName.after hFits h).and_yields yields_identifierName_kind).bind
      fun _ _ _ _ _ hNode => .pure ⟨hNode.1, rfl, fun _ => ?_⟩
    rw [hNode.2]
    decide
  obtain ⟨hToken, hTwin⟩ | ⟨token, span, hToken, hTwin⟩ := hLooks.current?_cases
  · rw [hToken]
    exact .unexpected
  rw [hToken, hTwin]
  have hLiteral : ∀ value : FieldValue, token.kind ≠ .punctuator → value.filled = [] →
      Field.Related W.Alike value value →
      Mimics stage (do bump; return (← literal token value, false))
        (do bump; return (← literal { token with span } value, false)) context other cursor twin
        fun reached key key' later later' =>
          W.Tracks stage cursor 0 [key.1] [key'.1] reached later later' ∧
            key'.2 = key.2 ∧ (key.2 = false → key.1.kind ≠ .property) := by
    intro value hKind hFilled hRelated
    refine h.bump_bind (fun other hOther => ?_) fun reached later later' h' => ?_
    · rw [← Option.some.inj (hToken.symm.trans hOther)]
      exact Token.isFlat_of_kind hKind
    refine ((h'.leaf (fun hReached => h.meets.bounds_of_current hToken hTwin
      (h'.leads.ne_lost hReached)) (fun _ => by simpa using hRelated) (by simpa using hFilled)
      (by simp)).and_yields yields_literal_kind).bind
      fun _ _ _ _ _ hNode => .pure ⟨hNode.1, rfl, fun _ => ?_⟩
    rw [hNode.2]
    decide
  dsimp only
  split
  case h_1 hKind => exact hLiteral _ (by rw [hKind]; decide) (by simp) (by simp)
  case h_2 hKind => exact hLiteral _ (by rw [hKind]; decide) (by simp) (by simp)
  case h_3 =>
    refine .ite (fun _ => Iff.rfl) (fun hOpening => .require_bind hFits ?_) fun _ => hName
    obtain ⟨hKind, hText⟩ := Bool.and_eq_true_iff.mp hOpening
    refine h.bump_opening_bind hToken (beq_iff_eq.mp hKind) (by rw [beq_iff_eq.mp hText]; decide)
      fun _ _ _ h => ?_
    refine hG.assignment.allowIn.bindAfter hFits h fun _ key key' _ _ h => ?_
    exact h.close_bind (by decide) fun _ _ _ h => .pure ⟨h, rfl, by simp⟩

end Mirrored
end Exchange

end

open Grammar Node Production

namespace Exchange

variable {W : Exchange} {G H : Grammar Production} {first stage : Stage}
  {origin cursor twin : Cursor}
  {context other : Context} {depth : Nat} {read others : List Node} {start start' : Nat}

/-- Where the filled slots hold nodes that are alike and the same ones are filled, all are alike. -/
theorem forall₂_of_filterMap {related : Node → Node → Prop} :
    ∀ {slots others : List (Option Node)}, slots.map Option.isSome = others.map Option.isSome →
      List.Forall₂ related (slots.filterMap id) (others.filterMap id) →
      List.Forall₂ (Option.Rel related) slots others
  | [], [], _, _ => .nil
  | none :: _, none :: _, hFilled, h =>
      .cons .none (forall₂_of_filterMap (List.cons.inj hFilled).2 h)
  | some _ :: _, some _ :: _, hFilled, h => by
      simp only [List.filterMap_cons, id_eq] at h
      obtain ⟨hFirst, hRest⟩ := List.forall₂_cons.mp h
      exact .cons (.some hFirst) (forall₂_of_filterMap (List.cons.inj hFilled).2 hRest)

/-- The slots that were filled since the origin, in both texts the same ones. -/
structure TracksSlots (W : Exchange) (first : Stage) (origin : Cursor) (depth : Nat)
    (reached : Stage) (slots others : List (Option Node)) (later later' : Cursor) : Prop where
  tracks : W.Tracks first origin depth (slots.filterMap id) (others.filterMap id) reached later
    later'
  filled_eq : slots.map Option.isSome = others.map Option.isSome

namespace TracksSlots

variable {slots others : List (Option Node)}

theorem hole (h : W.Tracks first origin depth (slots.filterMap id) (others.filterMap id) stage
      cursor twin) (hFilled : slots.map Option.isSome = others.map Option.isSome) :
    W.TracksSlots first origin depth stage (slots ++ [none]) (others ++ [none]) cursor twin :=
  ⟨by simpa using h, by simp [hFilled]⟩

theorem filled {node node' : Node}
    (h : W.Tracks first origin depth (slots.filterMap id ++ [node]) (others.filterMap id ++ [node'])
      stage cursor twin) (hFilled : slots.map Option.isSome = others.map Option.isSome) :
    W.TracksSlots first origin depth stage (slots ++ [some node]) (others ++ [some node']) cursor
      twin :=
  ⟨by simpa using h, by simp [hFilled]⟩

end TracksSlots

theorem Tracks.withDefault {target target' value value' : Node} (hFair : W.IsFair)
    (h : W.Tracks first origin depth [target, value] [target', value'] stage cursor twin)
    (hStart : first ≠ .lost → W.Near start start') :
    Mimics stage (withDefault start target value) (withDefault start' target' value') context other
      cursor twin fun reached node node' later later' =>
        W.Tracks first origin depth [node] [node'] reached later later' :=
  h.finish hFair hStart (fun _ h => by simpa using h) (by simp) (by simp)

theorem Tracks.propertyNode {key key' value value' : Node} {kind : String}
    {isMethod shorthand computed computed' : Bool} (hFair : W.IsFair)
    (h : W.Tracks first origin depth [key, value] [key', value'] stage cursor twin)
    (hStart : first ≠ .lost → W.Near start start')
    (hComputed : stage ≠ .lost → computed' = computed) :
    Mimics stage (propertyNode start key value kind isMethod shorthand computed)
      (propertyNode start' key' value' kind isMethod shorthand computed') context other cursor twin
      fun reached node node' later later' =>
        W.Tracks first origin depth [node] [node'] reached later later' :=
  h.finish hFair hStart (fun hStage h => by simpa [hComputed hStage] using h) (by simp) (by simp)

/-- A second node of a name has the fields of the first one. -/
theorem Tracks.cloneIdentifier {name name' : Node}
    (h : W.Tracks first origin depth [name] [name'] stage cursor twin) (hFair : W.IsFair)
    (hChildren : name.children = []) (hKind : name.kind ≠ .property) :
    Mimics stage (cloneIdentifier name) (cloneIdentifier name') context other cursor twin
      fun reached clone clone' later later' =>
        W.Tracks stage cursor 0 [clone] [clone'] reached later later' := by
  have hSame : stage ≠ .lost → W.Bounds name.span name'.span ∧
      List.Forall₂ (Field.Named W.Alike) name.fields name'.fields := fun hStage => by
    cases (List.forall₂_cons.mp (h.alike hStage)).1 with
    | same hSpan hFields _ => exact ⟨hSpan, hFields⟩
    | changed hChanged => exact absurd (hFair.property _ hChanged.1).1 hKind
  refine (Tracks.refl h.meets).leaf (fun hStage => (hSame hStage).1)
    (fun hStage => (hSame hStage).2) ?_ (by simp)
  rw [← children_eq_filledIn, hChildren]

/-- The rest of an object, from its points on. -/
theorem Tracks.objectRest (hFair : W.IsFair) (hFits : W.Fits context other)
    (h : W.Tracks first origin depth read others stage cursor twin)
    (hText : cursor.atText "..." = true) :
    Mimics stage objectRest objectRest context other cursor twin
      fun reached rest rest' later later' =>
        W.Tracks first origin depth (read ++ [rest]) (others ++ [rest']) reached later later' := by
  refine .startOffset_bind hFits h.meets fun start start' hStart => .require_bind hFits ?_
  refine (Tracks.refl h.meets).bump_bind (Cursor.isFlat_of_atText hText (by decide))
    fun _ _ _ h' => ?_
  refine mirrorsNode_identifier.bindAfter hFits h' fun _ argument argument' _ _ h' => ?_
  exact (h'.finish hFair hStart (fun _ h => by simpa using h) (by simp) (by simp)).imp
    fun _ _ _ _ _ hNode => h.trans hNode

namespace Mirrored

theorem bindingElement (hG : W.Mirrored G H) :
    W.MirrorsNode (bindingElement G) (bindingElement H) := by
  intro context other stage cursor twin hFits hMeets
  refine .startOffset_bind hFits hMeets fun start start' hStart => ?_
  refine hG.bindingTarget.bindAfter hFits (.refl hMeets) fun _ target target' _ _ h => ?_
  refine h.get_bind fun twin h hLooks =>
    .ite (fun _ => hLooks.atText_iff _) (fun hText => ?_) fun _ => .pure h
  refine .startOffset_bind hFits h.meets fun _ _ _ => .require_bind hFits ?_
  refine h.bump_bind (Cursor.isFlat_of_atText hText (by decide)) fun _ _ _ h => ?_
  refine hG.assignment.allowIn.bindAfter hFits h fun _ value value' _ _ h => ?_
  exact h.withDefault hG.fair hStart

theorem restElement (hG : W.Mirrored G H) : W.MirrorsNode (restElement G) (restElement H) := by
  intro context other stage cursor twin hFits hMeets
  refine .startOffset_bind hFits hMeets fun start start' hStart => .require_bind hFits ?_
  refine (Tracks.refl hMeets).expect_bind (by decide) fun _ _ _ h => ?_
  refine hG.bindingTarget.bindAfter hFits h fun _ argument argument' _ _ h => ?_
  exact h.finish hG.fair hStart (fun _ h => by simpa using h) (by simp) (by simp)

theorem arrayPattern (hG : W.Mirrored G H) : W.MirrorsNode (arrayPattern G) (arrayPattern H) := by
  intro context other stage cursor twin hFits hMeets
  refine .startOffset_bind hFits hMeets fun start start' hStart => ?_
  refine (Tracks.refl hMeets).open_bind (by decide) fun _ _ _ h => ?_
  obtain ⟨_, hAdvances⟩ := hG.advances
  have hConsumes := consumes_of_rounds fun limit => (hAdvances (limit + 1)).arrayPatternTurn
  replace h : W.TracksSlots stage cursor 1 _ [] [] _ _ := ⟨h, rfl⟩
  refine (Mimics.iterate hG.fair hConsumes (W.TracksSlots stage cursor 1)
    (W.TracksSlots stage cursor 1) h (fun _ _ _ _ _ h => h.tracks.meets.abreast) ?_).bind ?_
  · rintro _ seen seen' _ _ ⟨h, hFilled⟩
    refine h.get_bind fun twin h hLooks =>
      .ite (fun _ => hLooks.atText_iff _) (fun _ => .pure (.done ⟨h, hFilled⟩)) fun _ => ?_
    refine h.eat_bind (by decide) fun _ found _ _ h => .ite (fun _ => Iff.rfl)
      (fun _ => .pure (.again (.hole h hFilled))) fun _ => ?_
    refine h.get_bind fun twin h hLooks =>
      .ite (fun _ => hLooks.atText_iff _) (fun _ => ?_) fun _ => ?_
    · refine hG.restElement.bindAfter hFits h fun _ rest rest' _ _ h => ?_
      refine h.get_bind fun twin h hLooks => .ite (fun _ => hLooks.atText_iff _)
        (fun _ => .pure (.done (.filled h hFilled))) fun _ => ?_
      exact .startOffset_bind hFits h.meets fun _ _ _ => .fault_bind
    · refine hG.bindingElement.bindAfter hFits h fun _ element element' _ _ h => ?_
      refine h.get_bind fun twin h hLooks => .ensure (fun _ => hLooks.atText_iff _) (fun _ => h)
        (fun _ => h.expect (by decide)) fun _ _ _ h => ?_
      exact .pure (.again (.filled h hFilled))
  · rintro _ elements elements' _ _ ⟨h, hFilled⟩
    refine h.close_bind (by decide) fun _ _ _ h => ?_
    refine h.finish hG.fair hStart (fun _ hAlike => ?_) (by simp) (by simp)
    simpa using forall₂_of_filterMap hFilled hAlike

theorem patternProperty (hG : W.Mirrored G H) :
    W.MirrorsNode (patternProperty G) (patternProperty H) := by
  intro context other stage cursor twin hFits hMeets
  refine .startOffset_bind hFits hMeets fun start start' hStart => ?_
  refine (Tracks.refl hMeets).get_bind fun twin h hLooks => ?_
  rw [hLooks.atIdentifier_eq]
  refine ((hG.propertyKey.after hFits h).and_yields
    (hG.reads.propertyKey h.meets.inOrder)).bind ?_
  rintro between ⟨key, _⟩ ⟨key', computed⟩ _ _ ⟨⟨h, rfl, hKey⟩, -, hLeaf⟩
  refine h.eat_bind (by decide) fun _ found _ _ h => .ite (fun _ => Iff.rfl) (fun _ => ?_)
    fun _ => ?_
  · refine hG.bindingElement.bindAfter hFits h fun _ value value' _ _ h => ?_
    exact h.propertyNode hG.fair hStart fun _ => rfl
  refine .ite (fun _ => Iff.rfl) (fun hShorthand => ?_) fun _ => .unexpected
  have hPlain : computed = false := by simpa using (Bool.and_eq_true_iff.mp hShorthand).2
  have hStart' := fun hReached => hStart (h.leads.ne_lost hReached)
  refine (h.cloneIdentifier hG.fair (hLeaf.isLeaf hPlain).children_eq (hKey hPlain)).bind
    fun _ name name' _ _ hName => ?_
  refine hName.eat_bind (by decide) fun _ found _ _ hName => .ite (fun _ => Iff.rfl) (fun _ => ?_)
    fun _ => (h.trans hName).propertyNode hG.fair hStart fun _ => rfl
  refine hG.assignment.allowIn.bindAfter hFits hName fun _ value value' _ _ hName => ?_
  refine (hName.withDefault hG.fair hStart').bind fun _ pattern pattern' _ _ hPattern => ?_
  exact (h.trans hPattern).propertyNode hG.fair hStart fun _ => rfl

theorem objectPattern (hG : W.Mirrored G H) :
    W.MirrorsNode (objectPattern G) (objectPattern H) := by
  intro context other stage cursor twin hFits hMeets
  refine .startOffset_bind hFits hMeets fun start start' hStart => ?_
  refine (Tracks.refl hMeets).open_bind (by decide) fun _ _ _ h => ?_
  obtain ⟨_, hAdvances⟩ := hG.advances
  have hConsumes := consumes_of_rounds fun limit => (hAdvances (limit + 1)).objectPatternTurn
  refine h.list_bind hG.fair hConsumes (fun _ seen seen' _ _ h => ?_) fun _ _ _ _ _ h => ?_
  · refine h.get_bind fun twin h hLooks =>
      .ite (fun _ => hLooks.atText_iff _) (fun _ => .pure (.done h)) fun _ => ?_
    refine h.get_bind fun twin h hLooks =>
      .ite (fun _ => hLooks.atText_iff _) (fun hText => ?_) fun _ => ?_
    · refine (h.objectRest hG.fair hFits hText).bind fun _ rest rest' _ _ h => ?_
      refine h.get_bind fun twin h hLooks => .ite (fun _ => hLooks.atText_iff _)
        (fun _ => .pure (.done h)) fun _ => ?_
      exact .startOffset_bind hFits h.meets fun _ _ _ => .fault_bind
    · refine hG.patternProperty.bindAfter hFits h fun _ property property' _ _ h => ?_
      refine h.get_bind fun twin h hLooks => .ensure (fun _ => hLooks.atText_iff _) (fun _ => h)
        (fun _ => h.expect (by decide)) fun _ _ _ h => .pure (.again h)
  · refine h.close_bind (by decide) fun _ _ _ h => ?_
    exact h.finish hG.fair hStart (fun _ h => by simpa using h) (by simp) (by simp)

theorem bindingTargetBody (hG : W.Mirrored G H) :
    W.MirrorsNode (bindingTargetBody G) (bindingTargetBody H) := by
  intro context other stage cursor twin hFits hMeets
  refine (Tracks.refl hMeets).get_bind fun twin h hLooks => ?_
  refine .ite (fun _ => hLooks.atText_iff _) (fun _ => ?_) fun _ => ?_
  · refine .startOffset_bind hFits h.meets fun _ _ _ => .require_bind hFits ?_
    exact hG.arrayPattern _ _ _ _ _ hFits h.meets
  refine .ite (fun _ => hLooks.atText_iff _) (fun _ => ?_) fun _ => ?_
  · refine .startOffset_bind hFits h.meets fun _ _ _ => .require_bind hFits ?_
    exact hG.objectPattern _ _ _ _ _ hFits h.meets
  · exact mirrorsNode_identifier _ _ _ _ _ hFits h.meets

end Mirrored
end Exchange

end EcmaLint
