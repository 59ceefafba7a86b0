import EcmaLint.Proofs.Exchange.Expression
import EcmaLint.Proofs.Grammar.Program
import EcmaLint.Proofs.Progress.Program

/-! Statements, declarations and whole programs, in the old text and in the new one. Where the
property stands in an object of the program, the stretch was read as that property, so the new text
is not lost sight of. -/
namespace EcmaLint

section

open Grammar Node Production

namespace Exchange

variable {W : Exchange} {G H : Grammar Production} {first stage : Stage}
  {origin cursor twin : Cursor}
  {context other : Context} {depth : Nat} {start start' : Nat} {read others : List Node}

/-- The two productions read nodes that are alike from a text on that opens and closes nothing. -/
def MirrorsWord (W : Exchange) (production copy : Production Node) : Prop :=
  ∀ context other stage cursor twin, W.Fits context other → W.Meets stage cursor twin →
    (∀ token ∈ cursor.current?, token.IsFlat) →
    Mimics stage production copy context other cursor twin fun reached node node' later later' =>
      W.Tracks stage cursor 0 [node] [node'] reached later later'

theorem mirrorsWord_shortStatement (hFair : W.IsFair) {kind : NodeKind} (withSemicolon : Bool)
    (hKind : kind ≠ .objectExpression) :
    W.MirrorsWord (shortStatement kind withSemicolon) (shortStatement kind withSemicolon) := by
  intro context other stage cursor twin hFits hMeets hFlat
  refine .startOffset_bind hFits hMeets fun start start' hStart => ?_
  refine (Tracks.refl hMeets).bump_bind hFlat fun _ _ _ h => ?_
  refine .optional (fun _ => Iff.rfl) (fun _ => h.semicolon hFits) (fun _ => h) fun _ _ _ h => ?_
  exact h.finish hFair hStart (fun _ _ => .nil) (by simp) fun h => absurd h hKind

theorem mirrorsWord_jumpStatement (hFair : W.IsFair) {kind : NodeKind}
    (hKind : kind ≠ .objectExpression) :
    W.MirrorsWord (jumpStatement kind) (jumpStatement kind) := by
  intro context other stage cursor twin hFits hMeets hFlat
  refine .startOffset_bind hFits hMeets fun start start' hStart => ?_
  refine (Tracks.refl hMeets).bump_bind hFlat fun _ _ _ h => ?_
  refine h.get_bind fun twin h hLooks => h.newlineBefore_bind hFits fun newline twin' h' => ?_
  refine .either (fun _ => by rw [hLooks.atIdentifier_eq])
    (fun _ => mirrorsNode_identifier.someAfter hFits h') (fun _ => .pure ⟨by simpa using h', rfl⟩)
    fun _ label label' _ _ h => ?_
  refine h.1.semicolon_bind hFits fun _ _ _ hAll => ?_
  refine hAll.finish hFair hStart (fun _ hAlike => ?_) (by simp) fun h => absurd h hKind
  simpa using rel_of_toList h.2 hAlike

namespace Mirrored

theorem checkInitializer {isConst : Bool} {target target' : Node} (hFits : W.Fits context other)
    (h : W.Tracks first origin depth read others stage cursor twin)
    (hKind : stage ≠ .lost → target'.kind = target.kind) :
    Mimics stage (checkInitializer isConst target) (checkInitializer isConst target') context other
      cursor twin fun reached _ _ later later' =>
        W.Tracks first origin depth read others reached later later' := by
  have hFault : Mimics stage (do fault .constWithoutInitializer (← startOffset) : Production Unit)
      (do fault .constWithoutInitializer (← startOffset)) context other cursor twin
      fun reached _ _ later later' => reached = stage ∧ later = cursor ∧ later' = twin :=
    .faultHere hFits h.meets
  dsimp only [Grammar.checkInitializer]
  refine .optional_two (fun _ => Iff.rfl) (fun _ => hFault) (fun _ => ⟨rfl, rfl, rfl⟩) ?_
  rintro _ _ _ ⟨rfl, rfl, rfl⟩
  refine .ite (fun hStage => ?_) (fun _ => .faultHere hFits h.meets) fun _ => .pure h
  rw [hKind hStage]

theorem declarator (hG : W.Mirrored G H) (isConst inFor : Bool) :
    W.MirrorsNode (declarator G isConst inFor) (declarator H isConst inFor) := by
  intro context other stage cursor twin hFits hMeets
  refine .startOffset_bind hFits hMeets fun start start' hStart => ?_
  refine hG.bindingTarget.bindAfter hFits (.refl hMeets) fun _ target target' _ _ h => ?_
  refine h.eat_bind (by decide) fun _ found _ _ h => ?_
  refine .either (fun _ => Iff.rfl) (fun _ => hG.assignment.someAfter hFits h)
    (fun _ => .pure ⟨by simpa using h, rfl⟩) fun _ init init' _ _ h => ?_
  obtain ⟨h, hSome⟩ := h
  have hTarget := fun hStage => (List.forall₂_cons.mp (h.alike hStage)).1
  refine .optional (fun _ => by rw [← Option.not_isSome, ← Option.not_isSome, hSome])
    (fun _ => checkInitializer hFits h
      fun hStage => (hTarget hStage).kind_eq hG.fair.becomes.kind_eq)
    (fun _ => h) fun _ _ _ h => ?_
  refine h.finish hG.fair hStart (fun _ hAlike => ?_) (by simp) (by simp)
  obtain ⟨hFirst, hRest⟩ := List.forall₂_cons.mp hAlike
  simpa [hFirst] using rel_of_toList hSome hRest

theorem declarators (hG : W.Mirrored G H) (inFor : Bool) (hFits : W.Fits context other)
    (h : W.Tracks first origin depth [] [] stage cursor twin)
    (hFlat : ∀ token ∈ cursor.current?, token.IsFlat) :
    Mimics stage (declarators G inFor) (declarators H inFor) context other cursor twin
      fun reached nodes nodes' later later' =>
        W.Tracks first origin depth nodes nodes' reached later later' := by
  refine h.get_bind fun twin h hLooks => h.bump_bind hFlat fun _ _ _ h => ?_
  rw [hLooks.atText_eq]
  obtain ⟨_, hAdvances⟩ := hG.advances
  have hConsumes : Consumes (declaratorsTurn G (cursor.atText "const") inFor) :=
    consumes_of_rounds fun limit => (hAdvances (limit + 1)).declaratorsTurn _ inFor
  refine Mimics.iterate hG.fair hConsumes
    (fun reached seen seen' => W.Tracks first origin depth seen seen' reached) _ h
    (fun _ _ _ _ _ h => h.meets.abreast) fun _ seen seen' _ _ h => ?_
  refine (hG.declarator _ inFor).bindAfter hFits h fun _ declaration declaration' _ _ h => ?_
  exact h.eat_bind (by decide) fun _ found _ _ h => .ite (fun _ => Iff.rfl)
    (fun _ => .pure (.again h)) fun _ => .pure (.done h)

theorem variableStatement (hG : W.Mirrored G H) (kind : String) :
    W.MirrorsWord (variableStatement G kind) (variableStatement H kind) := by
  intro context other stage cursor twin hFits hMeets hFlat
  refine .startOffset_bind hFits hMeets fun start start' hStart => ?_
  refine (hG.declarators false hFits (.refl hMeets) hFlat).bind
    fun _ declarations declarations' _ _ h => ?_
  refine h.semicolon_bind hFits fun _ _ _ h => ?_
  exact h.finish hG.fair hStart (fun _ h => by simpa using h) (by simp) (by simp)

theorem expressionStatement (hG : W.Mirrored G H) :
    W.MirrorsNode (expressionStatement G) (expressionStatement H) := by
  intro context other stage cursor twin hFits hMeets
  refine .startOffset_bind hFits hMeets fun start start' hStart => ?_
  refine hG.expression.bindAfter hFits (.refl hMeets) fun _ expression expression' _ _ h => ?_
  refine h.semicolon_bind hFits fun _ _ _ h => ?_
  exact h.finish hG.fair hStart (fun _ h => by simpa using h) (by simp) (by simp)

theorem ifStatement (hG : W.Mirrored G H) :
    W.MirrorsWord (ifStatement G) (ifStatement H) := by
  intro context other stage cursor twin hFits hMeets hFlat
  refine .startOffset_bind hFits hMeets fun start start' hStart => ?_
  refine (Tracks.refl hMeets).bump_bind hFlat fun _ _ _ h => ?_
  refine hG.parenthesized.bindAfter hFits h fun _ test test' _ _ h => ?_
  refine hG.statement.bindAfter hFits h fun _ consequent consequent' _ _ h => ?_
  refine h.eat_bind (by decide) fun _ found _ _ h => ?_
  refine .either (fun _ => Iff.rfl) (fun _ => hG.statement.someAfter hFits h)
    (fun _ => .pure ⟨by simpa using h, rfl⟩) fun _ alternate alternate' _ _ h => ?_
  refine h.1.finish hG.fair hStart (fun _ hAlike => ?_) (by simp) (by simp)
  obtain ⟨hTest, hRest⟩ := List.forall₂_cons.mp hAlike
  obtain ⟨hConsequent, hRest⟩ := List.forall₂_cons.mp hRest
  simpa [hTest, hConsequent] using rel_of_toList h.2 hRest

theorem forEach {left left' : Node} {isAwait : Bool} (hG : W.Mirrored G H)
    (hFits : W.Fits context other)
    (h : W.Tracks first origin (depth + 1) [left] [left'] stage cursor twin)
    (hStart : first ≠ .lost → W.Near start start') (hText : atInOrOf cursor = true) :
    Mimics stage (forEach G start left isAwait) (forEach H start' left' isAwait) context other
      cursor twin fun reached node node' later later' =>
        W.Tracks first origin depth [node] [node'] reached later later' := by
  refine h.get_bind fun twin h hLooks => ?_
  rw [hLooks.atText_eq]
  refine .optional_two_or (fun _ => Iff.rfl) (fun _ => Iff.rfl)
    (fun _ => .requireHere hFits h.meets)
    (fun _ => .unexpected) (fun _ => ⟨rfl, rfl, rfl⟩) ?_
  rintro _ _ _ ⟨rfl, rfl, rfl⟩
  refine h.bump_bind (fun token hToken => ?_) fun _ _ _ h => ?_
  · obtain hText | hText := Bool.or_eq_true_iff.mp hText
    · exact Cursor.isFlat_of_atText hText (by decide) token hToken
    · exact Cursor.isFlat_of_atText hText (by decide) token hToken
  refine .either (fun _ => Iff.rfl) (fun _ => hG.assignment.allowIn.after hFits h)
    (fun _ => hG.expression.allowIn.after hFits h) fun _ right right' _ _ h => ?_
  refine h.close_bind (by decide) fun _ _ _ h => ?_
  refine hG.statement.bindAfter hFits h fun _ body body' _ _ h => ?_
  refine .ite (fun _ => Iff.rfl) (fun _ => ?_) fun _ => ?_
  · exact h.finish hG.fair hStart (fun _ h => by simpa using h) (by simp) (by simp)
  · exact h.finish hG.fair hStart (fun _ h => by simpa using h) (by simp) (by simp)

theorem forClauses {init init' : Option Node} {isAwait : Bool} (hG : W.Mirrored G H)
    (hFits : W.Fits context other)
    (h : W.Tracks first origin (depth + 1) init.toList init'.toList stage cursor twin)
    (hInit : init'.isSome = init.isSome) (hStart : first ≠ .lost → W.Near start start') :
    Mimics stage (forClauses G start init isAwait) (forClauses H start' init' isAwait) context
      other cursor twin fun reached node node' later later' =>
        W.Tracks first origin depth [node] [node'] reached later later' := by
  dsimp only [Grammar.forClauses]
  refine .optional (fun _ => Iff.rfl) (fun _ => .unexpected) (fun _ => h) fun _ _ _ h => ?_
  refine h.expect_bind (by decide) fun _ _ _ h => h.get_bind fun twin h hLooks => ?_
  refine .either (fun _ => hLooks.atText_iff _) (fun _ => .pure ⟨by simpa using h, rfl⟩)
    (fun _ => hG.expression.allowIn.someAfter hFits h) fun _ test test' _ _ hTest => ?_
  refine hTest.1.expect_bind (by decide) fun _ _ _ h => h.get_bind fun twin h hLooks => ?_
  refine .either (fun _ => hLooks.atText_iff _) (fun _ => .pure ⟨by simpa using h, rfl⟩)
    (fun _ => hG.expression.allowIn.someAfter hFits h) fun _ update update' _ _ hUpdate => ?_
  refine hUpdate.1.close_bind (by decide) fun _ _ _ h => ?_
  refine hG.statement.bindAfter hFits h fun _ body body' _ _ h => ?_
  refine h.finish hG.fair hStart (fun _ hAlike => ?_) (by simp) (by simp)
  simp only [List.append_assoc] at hAlike
  obtain ⟨hFirst, hAlike⟩ := forall₂_toList_append hInit hAlike
  obtain ⟨hSecond, hAlike⟩ := forall₂_toList_append hTest.2 hAlike
  obtain ⟨hThird, hAlike⟩ := forall₂_toList_append hUpdate.2 hAlike
  simpa [hFirst, hSecond, hThird] using hAlike

theorem atLetDeclaration_eq {year : Nat}
    (hSecond : Option.Rel Lexeme.Matches cursor.rest[1]? twin.rest[1]?) :
    atLetDeclaration year twin = atLetDeclaration year cursor := by
  unfold atLetDeclaration
  obtain ⟨hNone, hTwin⟩ | ⟨token, span, hToken, hTwin⟩ := Cursor.peek?_cases hSecond
  · rw [hNone, hTwin]
  · rw [hToken, hTwin]
    rfl

theorem atForDeclaration_eq {year : Nat} (h : cursor.Looks twin) :
    atForDeclaration year twin = atForDeclaration year cursor := by
  unfold atForDeclaration
  simp only [h.atText_eq]
  by_cases hText : cursor.atText "let" = true
  · rw [atLetDeclaration_eq (h.second (Cursor.not_isMark_of_atText hText (by decide)))]
  · simp [hText]

theorem isFlat_of_atForDeclaration {year : Nat} (h : atForDeclaration year cursor = true) :
    ∀ token ∈ cursor.current?, token.IsFlat := by
  intro token hToken
  simp only [atForDeclaration, Bool.or_eq_true, Bool.and_eq_true] at h
  obtain (hText | hText) | ⟨hText, -⟩ := h
  · exact Cursor.isFlat_of_atText hText (by decide) token hToken
  · exact Cursor.isFlat_of_atText hText (by decide) token hToken
  · exact Cursor.isFlat_of_atText hText (by decide) token hToken

theorem atInOrOf_eq (h : cursor.Looks twin) : atInOrOf twin = atInOrOf cursor := by
  rw [atInOrOf, atInOrOf, h.atText_eq, h.atText_eq]

theorem forDeclaration {isAwait : Bool} (hG : W.Mirrored G H) (hFits : W.Fits context other)
    (h : W.Tracks first origin (depth + 1) [] [] stage cursor twin)
    (hStart : first ≠ .lost → W.Near start start')
    (hFlat : ∀ token ∈ cursor.current?, token.IsFlat) :
    Mimics stage (forDeclaration G start isAwait) (forDeclaration H start' isAwait) context other
      cursor twin fun reached node node' later later' =>
        W.Tracks first origin depth [node] [node'] reached later later' := by
  refine .startOffset_bind hFits h.meets fun declarationStart declarationStart' hHere => ?_
  refine h.get_bind fun twin h hLooks => ?_
  rw [hLooks.currentText_eq]
  have hRequire : Mimics stage (Production.require .constDeclarations declarationStart)
      (Production.require .constDeclarations declarationStart') context other cursor twin
      fun reached _ _ later later' => reached = stage ∧ later = cursor ∧ later' = twin :=
    (Mimics.require hFits).imp fun _ _ _ _ _ ⟨hReached, _, hLater⟩ => ⟨hReached, hLater⟩
  refine .optional (fun _ => Iff.rfl) (fun _ => hRequire) (fun _ => ⟨rfl, rfl, rfl⟩) ?_
  rintro _ _ _ ⟨rfl, rfl, rfl⟩
  have hInner : Mimics _ (Production.withoutIn (Grammar.declarators G true))
      (Production.withoutIn (Grammar.declarators H true)) context other _ _
      fun reached nodes nodes' later later' =>
        W.Tracks _ _ 0 nodes nodes' reached later later' :=
    .withReader (hG.declarators true (hFits.within true) (.refl h.meets) hFlat)
  refine hInner.bind fun _ declarations declarations' _ _ hInner => ?_
  refine (hInner.finish hG.fair hHere (fun _ h => by simpa using h) (by simp)
    (by simp)).and_ne_lost.bind fun _ declaration declaration' _ _ hNode => ?_
  refine (h.trans hNode.1).get_bind fun twin h hLooks => ?_
  refine .ite (fun hStage => ?_) (fun hText => ?_) fun _ => ?_
  · rw [(hInner.alike (hNode.2 hStage)).length_eq, atInOrOf_eq hLooks]
  · exact hG.forEach hFits h hStart (Bool.and_eq_true_iff.mp hText).2
  · exact hG.forClauses hFits h rfl hStart

theorem forStatement (hG : W.Mirrored G H) : W.MirrorsWord (forStatement G) (forStatement H) := by
  intro context other stage cursor twin hFits hMeets hFlat
  refine .startOffset_bind hFits hMeets fun start start' hStart => ?_
  refine (Tracks.refl hMeets).bump_bind hFlat fun _ _ _ h => ?_
  refine h.get_bind fun twin h hLooks => .read_bind ?_
  rw [hLooks.atText_eq, hFits.inAsync_eq]
  refine .optional_three (fun _ => Iff.rfl) (fun hAwait => ?_) (fun _ => h) fun _ _ _ h => ?_
  · refine .startOffset_bind hFits h.meets fun _ _ _ => .require_bind hFits ?_
    exact h.bump (Cursor.isFlat_of_atText (Bool.and_eq_true_iff.mp hAwait).1 (by decide))
  refine h.open_bind (by decide) fun _ _ _ h => h.get_bind fun twin h hLooks => ?_
  refine .ite (fun _ => hLooks.atText_iff _) (fun _ => ?_) fun _ => .read_bind ?_
  · exact hG.forClauses hFits h rfl hStart
  rw [hFits.year_eq, atForDeclaration_eq hLooks]
  refine .ite (fun _ => Iff.rfl) (fun hDeclares => ?_) fun _ => ?_
  · exact hG.forDeclaration hFits h hStart (isFlat_of_atForDeclaration hDeclares)
  refine ((hG.expression.withoutIn.after hFits h).and_yields
    (hG.reads.expression.withoutIn context _ h.meets.inOrder)).bind ?_
  rintro _ expression expression' _ _ ⟨h, hReads⟩
  refine h.get_bind fun twin h hLooks => ?_
  rw [atInOrOf_eq hLooks]
  refine .ite (fun _ => Iff.rfl) (fun hText => ?_) fun _ => ?_
  · refine (.bind ((h.toTarget hG.fair (operatorsArePlain_of_reads hReads)).and_yields
      yields_toTarget_rest) ?_)
    rintro _ target target' later later' ⟨h, hRest⟩
    refine hG.forEach hFits h hStart ?_
    rwa [atInOrOf, Cursor.atText, Cursor.peekIs, Cursor.atText, Cursor.peekIs, hRest]
  · exact hG.forClauses hFits h rfl hStart

theorem whileStatement (hG : W.Mirrored G H) :
    W.MirrorsWord (whileStatement G) (whileStatement H) := by
  intro context other stage cursor twin hFits hMeets hFlat
  refine .startOffset_bind hFits hMeets fun start start' hStart => ?_
  refine (Tracks.refl hMeets).bump_bind hFlat fun _ _ _ h => ?_
  refine hG.parenthesized.bindAfter hFits h fun _ test test' _ _ h => ?_
  refine hG.statement.bindAfter hFits h fun _ body body' _ _ h => ?_
  exact h.finish hG.fair hStart (fun _ h => by simpa using h) (by simp) (by simp)

theorem doWhileStatement (hG : W.Mirrored G H) :
    W.MirrorsWord (doWhileStatement G) (doWhileStatement H) := by
  intro context other stage cursor twin hFits hMeets hFlat
  refine .startOffset_bind hFits hMeets fun start start' hStart => ?_
  refine (Tracks.refl hMeets).bump_bind hFlat fun _ _ _ h => ?_
  refine hG.statement.bindAfter hFits h fun _ body body' _ _ h => ?_
  refine h.expect_bind (by decide) fun _ _ _ h => ?_
  refine hG.parenthesized.bindAfter hFits h fun _ test test' _ _ h => ?_
  refine h.eat_bind (by decide) fun _ found _ _ h => ?_
  exact h.finish hG.fair hStart (fun _ h => by simpa using h) (by simp) (by simp)

theorem returnStatement (hG : W.Mirrored G H) :
    W.MirrorsWord (returnStatement G) (returnStatement H) := by
  intro context other stage cursor twin hFits hMeets hFlat
  refine .startOffset_bind hFits hMeets fun start start' hStart => ?_
  refine (Tracks.refl hMeets).bump_bind hFlat fun _ _ _ h => ?_
  refine h.atStatementEnd_bind hFits fun found twin h => ?_
  refine .either (fun _ => Iff.rfl) (fun _ => .pure ⟨by simpa using h, rfl⟩)
    (fun _ => hG.expression.someAfter hFits h) fun _ argument argument' _ _ h => ?_
  refine h.1.semicolon_bind hFits fun _ _ _ hAll => ?_
  refine hAll.finish hG.fair hStart (fun _ hAlike => ?_) (by simp) (by simp)
  simpa using rel_of_toList h.2 hAlike

theorem throwStatement (hG : W.Mirrored G H) :
    W.MirrorsWord (throwStatement G) (throwStatement H) := by
  intro context other stage cursor twin hFits hMeets hFlat
  refine .startOffset_bind hFits hMeets fun start start' hStart => ?_
  refine (Tracks.refl hMeets).bump_bind hFlat fun _ _ _ h => ?_
  refine h.newlineBefore_bind hFits fun newline twin h => ?_
  refine .optional_two (fun _ => Iff.rfl) (fun _ => .get_bind .fault) (fun _ => h)
    fun _ _ _ h => ?_
  refine hG.expression.bindAfter hFits h fun _ argument argument' _ _ h => ?_
  refine h.semicolon_bind hFits fun _ _ _ h => ?_
  exact h.finish hG.fair hStart (fun _ h => by simpa using h) (by simp) (by simp)

theorem catchClause (hG : W.Mirrored G H) (hFits : W.Fits context other)
    (h : W.Tracks first origin depth [] [] stage cursor twin)
    (hFlat : ∀ token ∈ cursor.current?, token.IsFlat) :
    Mimics stage (catchClause G) (catchClause H) context other cursor twin
      fun reached node node' later later' =>
        W.Tracks first origin depth [node] [node'] reached later later' := by
  refine .startOffset_bind hFits h.meets fun start start' hStart => ?_
  refine (Tracks.refl h.meets).bump_bind hFlat fun _ _ _ h' => ?_
  have hOpening : ∀ lexeme : Lexeme, lexeme.IsTidy → lexeme.is "(" = true →
      Bracketed 0 1 [lexeme] := fun lexeme hTidy hIs => by
    obtain ⟨hKind, hEq⟩ := hTidy "(" (by decide) hIs
    exact bracketed_opening hKind (by rw [hEq]; decide)
  refine (h'.eat_of_bracketed hOpening).bind ?_
  rintro reached found again later later' ⟨hSame, h'⟩
  obtain rfl : again = found := hSame
  have hParam : again = true →
      Mimics reached
        (do
          let param ← G.bindingTarget
          expect ")"
          pure (some param))
        (do
          let param ← H.bindingTarget
          expect ")"
          pure (some param)) context other later later' fun reached param param' later later' =>
        W.Tracks stage cursor 0 param.toList param'.toList reached later later' ∧
          param'.isSome = param.isSome := by
    rintro rfl
    refine hG.bindingTarget.bindAfter hFits h' fun _ param param' _ _ h => ?_
    exact h.close_bind (by decide) fun _ _ _ h => .pure ⟨h, rfl⟩
  refine .either_threes (fun _ => Iff.rfl) hParam (fun hMissing => ?_)
    fun _ param param' _ _ hOwn => ?_
  · refine .startOffset_bind hFits h'.meets fun _ _ _ => .require_bind hFits (.pure ⟨?_, rfl⟩)
    simpa [hMissing] using h'
  refine hG.block.bindAfter hFits hOwn.1 fun _ body body' _ _ hBody => ?_
  refine (hBody.finish hG.fair hStart (fun _ hAlike => ?_) (by simp) (by simp)).imp
    fun _ _ _ _ _ hNode => h.trans hNode
  obtain ⟨hFirst, hRest⟩ := forall₂_toList_append hOwn.2 hAlike
  simpa [hFirst] using hRest

/-- The handler of a `try` statement. -/
theorem handler (hG : W.Mirrored G H) (hFits : W.Fits context other)
    (h : W.Tracks first origin depth read others stage cursor twin)
    (hText : cursor.atText "catch" = true) :
    Mimics stage (some <$> Grammar.catchClause G) (some <$> Grammar.catchClause H) context other
      cursor twin fun reached handler handler' later later' =>
        W.Tracks first origin depth (read ++ handler.toList) (others ++ handler'.toList) reached
          later later' ∧ handler'.isSome = handler.isSome :=
  .map ((hG.catchClause hFits (.refl h.meets) (Cursor.isFlat_of_atText hText (by decide))).imp
    fun _ _ _ _ _ hNode => ⟨h.trans hNode, rfl⟩)

theorem tryStatement (hG : W.Mirrored G H) : W.MirrorsWord (tryStatement G) (tryStatement H) := by
  intro context other stage cursor twin hFits hMeets hFlat
  refine .startOffset_bind hFits hMeets fun start start' hStart => ?_
  refine (Tracks.refl hMeets).bump_bind hFlat fun _ _ _ h => ?_
  refine hG.block.bindAfter hFits h fun _ block block' _ _ h => h.get_bind fun twin h hLooks => ?_
  refine .either (fun _ => hLooks.atText_iff _) (fun hText => hG.handler hFits h hText)
    (fun _ => .pure ⟨by simpa using h, rfl⟩) fun _ handler handler' _ _ hHandler => ?_
  refine hHandler.1.eat_bind (by decide) fun _ found _ _ h => ?_
  refine .either (fun _ => Iff.rfl) (fun _ => hG.block.someAfter hFits h)
    (fun _ => .pure ⟨by simpa using h, rfl⟩) fun _ finalizer finalizer' _ _ hFinalizer => ?_
  refine .ite (fun _ => ?_) (fun _ => ?_) fun _ => ?_
  · rw [← Option.not_isSome, ← Option.not_isSome, ← Option.not_isSome, ← Option.not_isSome,
      hHandler.2, hFinalizer.2]
  · exact .startOffset_bind hFits hFinalizer.1.meets fun _ _ _ => .fault_bind
  refine hFinalizer.1.finish hG.fair hStart (fun _ hAlike => ?_) (by simp) (by simp)
  simp only [List.append_assoc, List.nil_append] at hAlike
  obtain ⟨hBlock, hAlike⟩ := List.forall₂_cons.mp hAlike
  obtain ⟨hFirst, hAlike⟩ := forall₂_toList_append hHandler.2 hAlike
  simpa [hBlock, hFirst] using rel_of_toList hFinalizer.2 hAlike

theorem caseHead (hG : W.Mirrored G H) (seenDefault : Bool) :
    W.Mirrors (caseHead G seenDefault) (caseHead H seenDefault) (fun head => head.1.toList)
      fun head head' => head'.1.isSome = head.1.isSome ∧ head'.2 = head.2 := by
  intro context other stage cursor twin hFits hMeets
  refine (Tracks.refl hMeets).eat_bind (by decide) fun _ found _ _ h => .ite (fun _ => Iff.rfl)
    (fun _ => ?_) fun _ => ?_
  · refine hG.expression.allowIn.bindAfter hFits h fun _ test test' _ _ h => ?_
    exact .pure ⟨h, rfl, rfl⟩
  refine h.get_bind fun twin h hLooks => .ite (fun _ => hLooks.atText_iff _) (fun hText => ?_)
    fun _ => .unexpected
  refine .ite (fun _ => Iff.rfl)
    (fun _ => .startOffset_bind hFits h.meets fun _ _ _ => .fault_bind) fun _ => ?_
  refine h.bump_bind (Cursor.isFlat_of_atText hText (by decide)) fun _ _ _ h => ?_
  exact .pure ⟨h, rfl, rfl⟩

theorem caseBody (hG : W.Mirrored G H) (hFits : W.Fits context other)
    (h : W.Tracks first origin depth [] [] stage cursor twin) :
    Mimics stage (caseBody G) (caseBody H) context other cursor twin
      fun reached body body' later later' =>
        W.Tracks first origin depth body body' reached later later' := by
  obtain ⟨_, hAdvances⟩ := hG.advances
  have hConsumes : Consumes (caseTurn G) := consumes_of_rounds fun limit =>
    (hAdvances (limit + 1)).caseTurn
  refine Mimics.iterate hG.fair hConsumes
    (fun reached seen seen' => W.Tracks first origin depth seen seen' reached) _ h
    (fun _ _ _ _ _ h => h.meets.abreast) fun _ seen seen' _ _ h => ?_
  refine h.get_bind fun twin h hLooks => .ite (fun _ => by simp only [hLooks.atText_eq])
    (fun _ => .pure (.done h)) fun _ => .ite (fun _ => by rw [hLooks.atEnd_eq])
    (fun _ => .unexpected) fun _ => ?_
  exact hG.statement.bindAfter hFits h fun _ _ _ _ _ h => .pure (.again h)

/-- The cases that were read so far, and in both texts a `default` came before or not. -/
def Cases (W : Exchange) (first : Stage) (origin : Cursor) (reached : Stage)
    (state state' : List Node × Bool) (later later' : Cursor) : Prop :=
  W.Tracks first origin 0 state.1 state'.1 reached later later' ∧ state'.2 = state.2

theorem switchTurn {state state' : List Node × Bool} (hG : W.Mirrored G H)
    (hFits : W.Fits context other) (h : Cases W first origin stage state state' cursor twin) :
    Mimics stage (switchTurn G state) (switchTurn H state') context other cursor twin
      (Both (Cases W first origin) fun reached cases cases' later later' =>
        W.Tracks first origin 0 cases cases' reached later later' ∧
          later.atText "\x7d" = true) := by
  obtain ⟨seen, seenDefault⟩ := state
  obtain ⟨seen', again⟩ := state'
  obtain ⟨h, hSame⟩ := h
  obtain rfl : again = seenDefault := hSame
  refine h.get_bind fun twin h hLooks => .ite (fun _ => hLooks.atText_iff _)
    (fun hText => .pure (.done ⟨h, hText⟩)) fun _ => ?_
  refine .startOffset_bind hFits h.meets fun start start' hStart => ?_
  refine (hG.caseHead _).bindAfter hFits (.refl h.meets) ?_
  rintro _ ⟨test, seenDefault⟩ ⟨test', again⟩ _ _ hOwn ⟨hTest, hSame⟩
  obtain rfl : again = seenDefault := hSame
  refine hOwn.expect_bind (by decide) fun _ _ _ hOwn => ?_
  refine (hG.caseBody hFits (.refl hOwn.meets)).bind fun _ consequent consequent' _ _ hBody => ?_
  refine ((hOwn.trans hBody).finish hG.fair hStart (fun _ hAlike => ?_) (by simp)
    (by simp)).bind fun _ case case' _ _ hCase => .pure (.again ⟨h.trans hCase, rfl⟩)
  obtain ⟨hFirst, hRest⟩ := forall₂_toList_append hTest hAlike
  simpa [hFirst] using hRest

theorem switchStatement (hG : W.Mirrored G H) :
    W.MirrorsWord (switchStatement G) (switchStatement H) := by
  intro context other stage cursor twin hFits hMeets hFlat
  refine .startOffset_bind hFits hMeets fun start start' hStart => ?_
  refine (Tracks.refl hMeets).bump_bind hFlat fun _ _ _ h => ?_
  refine hG.parenthesized.bindAfter hFits h fun _ discriminant discriminant' _ _ h => ?_
  refine h.open_bind (by decide) fun _ _ _ h => ?_
  obtain ⟨_, hAdvances⟩ := hG.advances
  have hConsumes : Consumes (Grammar.switchTurn G) := consumes_of_rounds fun limit =>
    (hAdvances (limit + 1)).switchTurn
  -- the discriminant was read before, so the cases are counted from the brace on
  have hNone : Cases W _ _ _ ([], false) ([], false) _ _ := ⟨.refl h.meets, rfl⟩
  refine (Mimics.iterate hG.fair hConsumes (Cases W _ _) _ hNone
    (fun _ _ _ _ _ h => h.1.meets.abreast) fun _ _ _ _ _ h => hG.switchTurn hFits h).bind
    fun _ cases cases' _ _ hCases => ?_
  refine (h.trans hCases.1).bump_closing_bind hCases.2 (by decide) fun _ _ _ h => ?_
  exact h.finish hG.fair hStart (fun _ h => by simpa using h) (by simp) (by simp)

theorem withStatement (hG : W.Mirrored G H) :
    W.MirrorsWord (withStatement G) (withStatement H) := by
  intro context other stage cursor twin hFits hMeets hFlat
  refine .startOffset_bind hFits hMeets fun start start' hStart => ?_
  refine (Tracks.refl hMeets).bump_bind hFlat fun _ _ _ h => ?_
  refine hG.parenthesized.bindAfter hFits h fun _ object object' _ _ h => ?_
  refine hG.statement.bindAfter hFits h fun _ body body' _ _ h => ?_
  exact h.finish hG.fair hStart (fun _ h => by simpa using h) (by simp) (by simp)

theorem labeledStatement (hG : W.Mirrored G H) :
    W.MirrorsNode (labeledStatement G) (labeledStatement H) := by
  intro context other stage cursor twin hFits hMeets
  refine .startOffset_bind hFits hMeets fun start start' hStart => ?_
  refine mirrorsNode_identifier.bindAfter hFits (.refl hMeets) fun _ label label' _ _ h => ?_
  refine h.expect_bind (by decide) fun _ _ _ h => ?_
  refine hG.statement.bindAfter hFits h fun _ body body' _ _ h => ?_
  exact h.finish hG.fair hStart (fun _ h => by simpa using h) (by simp) (by simp)

theorem keywordStatement (hG : W.Mirrored G H) (word : String) :
    W.MirrorsWord (keywordStatement G word) (keywordStatement H word) := by
  intro context other stage cursor twin hFits hMeets hFlat
  unfold Grammar.keywordStatement
  split
  · exact hG.variableStatement _ _ _ _ _ _ hFits hMeets hFlat
  · refine .startOffset_bind hFits hMeets fun _ _ _ => .require_bind hFits ?_
    exact hG.variableStatement _ _ _ _ _ _ hFits hMeets hFlat
  · refine .startOffset_bind hFits hMeets fun start start' hStart => ?_
    exact hG.function hFits (.refl hMeets) hStart
  · exact hG.classOf _ _ _ _ _ _ hFits hMeets
  · exact hG.ifStatement _ _ _ _ _ hFits hMeets hFlat
  · exact hG.forStatement _ _ _ _ _ hFits hMeets hFlat
  · exact hG.whileStatement _ _ _ _ _ hFits hMeets hFlat
  · exact hG.doWhileStatement _ _ _ _ _ hFits hMeets hFlat
  · exact hG.returnStatement _ _ _ _ _ hFits hMeets hFlat
  · exact mirrorsWord_jumpStatement hG.fair (by decide) _ _ _ _ _ hFits hMeets hFlat
  · exact mirrorsWord_jumpStatement hG.fair (by decide) _ _ _ _ _ hFits hMeets hFlat
  · exact hG.throwStatement _ _ _ _ _ hFits hMeets hFlat
  · exact hG.tryStatement _ _ _ _ _ hFits hMeets hFlat
  · exact hG.switchStatement _ _ _ _ _ hFits hMeets hFlat
  · exact hG.withStatement _ _ _ _ _ hFits hMeets hFlat
  · exact mirrorsWord_shortStatement hG.fair _ (by decide) _ _ _ _ _ hFits hMeets hFlat
  · exact hG.expressionStatement _ _ _ _ _ hFits hMeets

theorem wordStatement {token : Token} (hG : W.Mirrored G H) (hFits : W.Fits context other)
    (h : W.Tracks stage cursor 0 [] [] stage cursor twin) (hToken : cursor.current? = some token)
    (hKind : token.kind ≠ .punctuator) :
    Mimics stage (wordStatement G token.text) (wordStatement H token.text) context other cursor
      twin fun reached node node' later later' =>
        W.Tracks stage cursor 0 [node] [node'] reached later later' := by
  have hFlat : ∀ token ∈ cursor.current?, token.IsFlat := fun other hOther =>
    Option.some.inj (hToken.symm.trans hOther) ▸ Token.isFlat_of_kind hKind
  refine h.get_bind fun twin h hLooks => .read_bind ?_
  have hSecond := hLooks.second (Cursor.not_isMark_of_kind hToken hKind)
  rw [hFits.year_eq, Cursor.peekIs_eq hSecond, Cursor.peekIs_eq hSecond,
    Cursor.newlineBeforePeek_eq hSecond, atLetDeclaration_eq hSecond]
  refine .ite (fun _ => Iff.rfl) (fun _ => ?_) fun _ => .ite (fun _ => Iff.rfl) (fun _ => ?_)
    fun _ => .ite (fun _ => Iff.rfl) (fun _ => ?_) fun _ => ?_
  · exact hG.variableStatement _ _ _ _ _ _ hFits h.meets hFlat
  · refine .startOffset_bind hFits h.meets fun start start' hStart => .require_bind hFits ?_
    exact h.bump_bind hFlat fun _ _ _ h => hG.function hFits h hStart
  · exact hG.labeledStatement _ _ _ _ _ hFits h.meets
  · exact hG.expressionStatement _ _ _ _ _ hFits h.meets

theorem statementBody (hG : W.Mirrored G H) :
    W.MirrorsNode (statementBody G) (statementBody H) := by
  intro context other stage cursor twin hFits hMeets
  refine (Tracks.refl hMeets).get_bind fun twin h hLooks => ?_
  obtain ⟨hToken, hTwin⟩ | ⟨token, span, hToken, hTwin⟩ := hLooks.current?_cases
  · rw [hToken]
    exact .unexpected
  rw [hToken, hTwin]
  have hFlat : token.IsFlat → ∀ token ∈ cursor.current?, token.IsFlat := fun hFlat other hOther =>
    Option.some.inj (hToken.symm.trans hOther) ▸ hFlat
  dsimp only
  split
  case h_1 hKind =>
    refine hG.keywordStatement _ _ _ _ _ _ hFits h.meets (hFlat (Token.isFlat_of_kind ?_))
    rw [hKind]
    decide
  case h_2 hKind => exact hG.wordStatement hFits h hToken (by rw [hKind]; decide)
  case h_3 =>
    refine .ite (fun _ => Iff.rfl) (fun _ => ?_) fun _ => .ite (fun _ => Iff.rfl)
      (fun hText => ?_) fun _ => ?_
    · exact hG.block _ _ _ _ _ hFits h.meets
    · refine mirrorsWord_shortStatement hG.fair _ (by decide) _ _ _ _ _ hFits h.meets (hFlat ?_)
      exact Token.isFlat_of_text (beq_iff_eq.mp hText) (by decide)
    · exact hG.expressionStatement _ _ _ _ _ hFits h.meets
  case h_4 => exact hG.expressionStatement _ _ _ _ _ hFits h.meets

end Mirrored
end Exchange

end

open Grammar Node Production

namespace Exchange

variable {W : Exchange} {G H : Grammar Production} {stage : Stage} {cursor twin : Cursor}
  {context other : Context}

/-- Every level of the grammar on the old text and any higher one on the new text. -/
theorem mirrored_upTo (hFair : W.IsFair)
    (hRereads : ∀ n m, n ≤ m → W.Rereads (upTo n) (upTo m)) (n : Nat) :
    ∀ m, n ≤ m → W.Mirrored (upTo n) (upTo m) := by
  induction n with
  | zero =>
      intro m hLevels
      have hUnexpected : ∀ copy : Production Node, W.MirrorsNode unexpected copy :=
        fun _ _ _ _ _ _ _ _ => .unexpected
      exact
        { fair := hFair
          reads := readsNodes_upTo 0
          advances := ⟨upTo 0, fun _ => alike_upTo 0⟩
          rereads := hRereads 0 m hLevels
          statement := hUnexpected _
          assignment := hUnexpected _
          binary := fun _ => hUnexpected _
          unary := hUnexpected _
          leftHandSide := hUnexpected _
          newExpression := hUnexpected _
          bindingTarget := hUnexpected _ }
  | succ n ih =>
      intro m hLevels
      obtain ⟨m, rfl⟩ : ∃ below, m = below + 1 := ⟨m - 1, by omega⟩
      have hBelow := ih m (by omega)
      exact
        { fair := hFair
          reads := readsNodes_upTo (n + 1)
          advances := ⟨upTo (n + 1), fun _ => alike_upTo (n + 1)⟩
          rereads := hRereads (n + 1) (m + 1) hLevels
          statement := hBelow.statementBody.nested
          assignment := hBelow.assignmentBody.nested
          binary := hBelow.binaryBody
          unary := hBelow.unaryBody
          leftHandSide := hBelow.leftHandSideBody
          newExpression := hBelow.newExpressionBody
          bindingTarget := hBelow.bindingTargetBody }

namespace Mirrored

theorem programBody (hG : W.Mirrored G H) :
    W.Mirrors G.programBody H.programBody (fun body => body) fun _ _ => True := by
  intro context other stage cursor twin hFits hMeets
  obtain ⟨_, hAdvances⟩ := hG.advances
  have hConsumes : Consumes G.programTurn := consumes_of_rounds fun limit =>
    rounds_programTurn (hAdvances (limit + 1) .statement)
  refine Mimics.imp (Mimics.iterate hG.fair hConsumes
    (fun reached seen seen' => W.Tracks stage cursor 0 seen seen' reached)
    (fun reached seen seen' => W.Tracks stage cursor 0 seen seen' reached) (.refl hMeets)
    (fun _ _ _ _ _ h => h.meets.abreast) fun _ seen seen' _ _ h => ?_)
    fun _ _ _ _ _ h => ⟨h, trivial⟩
  refine h.get_bind fun twin h hLooks => .ite (fun _ => by rw [hLooks.atEnd_eq])
    (fun _ => .pure (.done h)) fun _ => ?_
  refine hG.statement.bindAfter hFits h fun reached statement statement' later later' h => ?_
  have hAgain : W.Tracks stage cursor 0 (seen ++ [statement]) (seen' ++ [statement']) reached later
      later' := h
  refine .get_bind ?_
  cases hHead : later.shorthandDefaults.head? with
  | some offset => exact .fault
  | none =>
      rintro _ _ ⟨⟩
      refine ⟨reached, .again (seen' ++ [statement']), later', .again h, fun hReached =>
        ⟨hReached, ?_⟩⟩
      -- no default waits in the new text either
      have hDefaults := h.meets.defaults hReached
      rw [List.head?_eq_none_iff.mp hHead] at hDefaults
      rw [List.forall₂_nil_left_iff.mp hDefaults]
      rfl

/-- Where the property stands in an object of the program, the stretch was read as the property. -/
theorem program_after {program object property : Node} {later : Cursor} (hG : W.Mirrored G H)
    (hFits : W.Fits context other) (hMeets : W.Meets stage cursor twin) (hZero : W.Near 0 0)
    (h : G.program context cursor = .ok (program, later)) (hObject : object ∈ forest [program])
    (hKind : object.kind = .objectExpression) (hChild : property ∈ object.children)
    (hProperty : W.property? = some property) :
    stage ≠ .lost ∧ W.known ∧ ∃ program' later', H.program other twin = .ok (program', later') ∧
      W.Alike program program' := by
  have hProgram : Mimics stage G.program H.program context other cursor twin
      fun reached node node' later later' =>
        W.Tracks stage cursor 0 [node] [node'] reached later later' := by
    refine hG.programBody.bindAfter hFits (.refl hMeets) fun _ body body' _ _ h _ => .read_bind ?_
    refine h.store (fun _ => ⟨hZero, .inr ⟨hFits.size_eq, hFits.newSize_eq⟩⟩)
      (fun _ hAlike => by simpa using hAlike) (by simp) (by simp)
  obtain ⟨reached, program', later', hTracks, hSecond⟩ := hProgram program later h
  have hAfter : reached = .after := by
    by_contra hNot
    exact hTracks.quiet hNot object hObject hKind property hProperty hChild
  subst hAfter
  exact ⟨hTracks.leads.ne_lost (by decide), hTracks.meets.place.known, program', later',
    (hSecond (by decide)).2, (List.forall₂_cons.mp (hTracks.alike (by decide))).1⟩

end Mirrored
end Exchange

end EcmaLint
