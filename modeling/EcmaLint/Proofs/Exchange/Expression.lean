import EcmaLint.Proofs.Exchange.Operand
import EcmaLint.Proofs.Grammar.Expression

/-! Operations, arrow functions and assignments, in the old text and in the new one. -/
namespace EcmaLint

open Grammar Node Production

namespace Exchange

variable {α : Type} {W : Exchange} {G H : Grammar Production} {first stage : Stage}
  {origin cursor twin : Cursor} {context other : Context} {depth : Nat} {start start' : Nat}
  {read others : List Node} {property : Stage → α → α → Cursor → Cursor → Prop}

theorem binaryOperator?_eq (h : cursor.Looks twin) (withoutIn : Bool) :
    binaryOperator? withoutIn twin = binaryOperator? withoutIn cursor := by
  unfold binaryOperator?
  obtain ⟨hToken, hTwin⟩ | ⟨token, span, hToken, hTwin⟩ := h.current?_cases
  · rw [hToken, hTwin]
  · rw [hToken, hTwin]

theorem assignmentOperator?_eq (h : cursor.Looks twin) :
    assignmentOperator? twin = assignmentOperator? cursor := by
  unfold assignmentOperator?
  obtain ⟨hToken, hTwin⟩ | ⟨token, span, hToken, hTwin⟩ := h.current?_cases
  · rw [hToken, hTwin]
  · rw [hToken, hTwin]

/-- A binary operator opens and closes nothing. -/
theorem isFlat_of_binaryOperator? {withoutIn : Bool} {operator : String} {precedence : Nat}
    (h : binaryOperator? withoutIn cursor = some (operator, precedence)) :
    ∀ token ∈ cursor.current?, token.IsFlat := by
  intro token hToken
  rw [binaryOperator?, Option.mem_def.mp hToken] at h
  dsimp only at h
  split at h
  · cases h
  split at h
  · cases h
  obtain ⟨_, hPrecedence, ⟨⟩⟩ := Option.map_eq_some_iff.mp h
  have hNone : ∀ text ∈ Token.openings ++ Token.closings, Operator.precedence? text = none := by
    decide
  refine Token.isFlat_of_text rfl ⟨fun hOpening => ?_, fun hClosing => ?_⟩
  · rw [hNone _ (List.mem_append_left _ hOpening)] at hPrecedence
    cases hPrecedence
  · rw [hNone _ (List.mem_append_right _ hClosing)] at hPrecedence
    cases hPrecedence

/-- An operator that assigns opens and closes nothing. -/
theorem isFlat_of_assignmentOperator? {operator : String}
    (h : assignmentOperator? cursor = some operator) :
    ∀ token ∈ cursor.current?, token.IsFlat := by
  intro token hToken
  rw [assignmentOperator?, Option.mem_def.mp hToken] at h
  dsimp only at h
  split at h
  case isTrue hAssigns =>
    have hFlat : ∀ text ∈ Operator.assignments,
        text ∉ Token.openings ∧ text ∉ Token.closings := by decide
    exact Token.isFlat_of_text rfl (hFlat _ (by simpa using (Bool.and_eq_true_iff.mp hAssigns).2))
  · cases h

theorem atText_of_arrowAhead? (h : arrowAhead? cursor = some true) :
    cursor.atText "async" = true := by
  rw [arrowAhead?_eq_ite] at h
  have hAsync := Option.some.inj (Option.ite_none_right_eq_some.mp h).2
  exact (Bool.and_eq_true_iff.mp (Bool.and_eq_true_iff.mp hAsync).1).1

theorem isSimpleTarget_eq {node node' : Node} (hFair : W.IsFair) (h : W.Alike node node') :
    node'.isSimpleTarget = node.isSimpleTarget := by
  rw [isSimpleTarget, isSimpleTarget, h.kind_eq hFair.becomes.kind_eq]

theorem Mimics.requireSimpleTarget {node node' : Node} (hFair : W.IsFair)
    (hNode : stage ≠ .lost → W.Alike node node') :
    Mimics stage (requireSimpleTarget node) (requireSimpleTarget node') context other cursor twin
      fun reached _ _ later later' =>
        reached = stage ∧ () = () ∧ later = cursor ∧ later' = twin :=
  .ite (fun hStage => by rw [isSimpleTarget_eq hFair (hNode hStage)])
    (fun _ => .pure ⟨rfl, rfl, rfl, rfl⟩) fun _ => .of_yields .throw

theorem Mimics.requireSimpleTarget_bind {node node' : Node} {next another : Unit → Production α}
    (hFair : W.IsFair) (hNode : stage ≠ .lost → W.Alike node node')
    (hNext : Mimics stage (next ()) (another ()) context other cursor twin property) :
    Mimics stage (Grammar.requireSimpleTarget node >>= next)
      (Grammar.requireSimpleTarget node' >>= another) context other cursor twin property :=
  (Mimics.requireSimpleTarget hFair hNode).still_bind fun _ => hNext

/-- Whether the left operand of a power stands in parentheses is the same in both texts. -/
theorem Mimics.checkPower {left left' : Node} (hFair : W.IsFair) (hFits : W.Fits context other)
    (hMeets : W.Meets stage cursor twin) (hStart : stage ≠ .lost → W.Near start start')
    (hLeft : stage ≠ .lost → W.Alike left left') :
    Mimics stage (checkPower start left) (checkPower start' left') context other cursor twin
      fun reached _ _ later later' =>
        reached = stage ∧ later = cursor ∧ later' = twin := by
  refine .startOffset_bind hFits hMeets fun _ _ _ => .require_bind hFits ?_
  refine .ite (fun hStage => ?_) (fun _ => .fault) fun _ => .pure ⟨rfl, rfl, rfl⟩
  have hNear := hStart hStage
  have hKind := (hLeft hStage).kind_eq hFair.becomes.kind_eq
  cases hLeft hStage with
  | changed hChanged =>
      have hProperty := (hFair.property _ hChanged.1).1
      rw [hKind, hProperty]
      simp
  | @same _ _ kind span shifted _ _ hSpan _ _ =>
      have hStarts : (shifted.start = start') ↔ (span.start = start) := by
        have hLe := hFair.near_le hSpan.1 hNear
        have hGe := hFair.near_le hNear hSpan.1
        omega
      simp only [Node.kind, Node.span, Bool.and_eq_true, beq_iff_eq, hStarts]

theorem operatorsArePlain_of_reads {moved : Bool} {nodes : List Node} {later : Cursor}
    (h : Reads moved cursor nodes later) : OperatorsArePlain nodes := by
  obtain ⟨taken, -, hTakes⟩ := h.takes
  exact fun node hNode => (hTakes.aligned node hNode).isPart.operatorIsPlain

/-- Turning what was read into a target leaves what is to be read. -/
theorem yields_toTarget_rest {expression : Node} :
    Yields (Grammar.toTarget expression) context cursor
      fun _ later => later.rest = cursor.rest := by
  unfold Grammar.toTarget
  split
  · exact .throw
  · refine .bind (?_ : Yields _ _ _ fun _ later => later.rest = cursor.rest) fun _ _ h => .pure h
    exact .modify rfl

/-- A unary operator opens and closes nothing. -/
theorem isFlat_of_isUnaryOperator {token : Token} (h : isUnaryOperator token = true) :
    token.IsFlat := by
  intro hKind
  rw [isUnaryOperator, hKind] at h
  have hFlat : ∀ text ∈ ["!", "~", "+", "-"],
      text ∉ Token.openings ∧ text ∉ Token.closings := by decide
  exact hFlat _ (by simpa using h)

theorem Tracks.unaryNode {kind : NodeKind} {operator : String} {argument argument' : Node}
    {isPrefix : Bool} (hFair : W.IsFair)
    (h : W.Tracks first origin depth [argument] [argument'] stage cursor twin)
    (hStart : first ≠ .lost → W.Near start start') (hKind : kind ≠ .objectExpression) :
    Mimics stage (unaryNode kind start operator argument isPrefix)
      (unaryNode kind start' operator argument' isPrefix) context other cursor twin
      fun reached node node' later later' =>
        W.Tracks first origin depth [node] [node'] reached later later' :=
  h.finish hFair hStart (fun _ h => by simpa using h) (by simp) fun h => absurd h hKind

namespace Mirrored

theorem postfixUpdate (hG : W.Mirrored G H) (hFits : W.Fits context other)
    (h : W.Tracks stage cursor 0 [] [] stage cursor twin)
    (hStart : stage ≠ .lost → W.Near start start') :
    Mimics stage (postfixUpdate G start) (postfixUpdate H start') context other cursor twin
      fun reached node node' later later' =>
        W.Tracks stage cursor 0 [node] [node'] reached later later' := by
  refine hG.leftHandSide.bindAfter hFits h fun _ operand operand' _ _ h => ?_
  refine h.get_bind fun twin h hLooks => h.newlineBefore_bind hFits fun newline twin' h' => ?_
  refine .ite (fun _ => by simp only [hLooks.atText_eq]) (fun hUpdate => ?_) fun _ => .pure h'
  refine .requireSimpleTarget_bind hG.fair
    (fun hStage => (List.forall₂_cons.mp (h.alike hStage)).1) ?_
  rw [hLooks.currentText_eq]
  refine h'.bump_bind (fun token hToken => ?_) fun _ _ _ h => ?_
  · obtain hText | hText := Bool.or_eq_true_iff.mp (Bool.and_eq_true_iff.mp hUpdate).1
    · exact Cursor.isFlat_of_atText hText (by decide) token hToken
    · exact Cursor.isFlat_of_atText hText (by decide) token hToken
  · exact h.unaryNode hG.fair hStart (by decide)

theorem unaryBody (hG : W.Mirrored G H) : W.MirrorsNode (unaryBody G) (unaryBody H) := by
  intro context other stage cursor twin hFits hMeets
  refine .startOffset_bind hFits hMeets fun start start' hStart => ?_
  refine (Tracks.refl hMeets).get_bind fun twin h hLooks => ?_
  obtain ⟨hToken, hTwin⟩ | ⟨token, span, hToken, hTwin⟩ := hLooks.current?_cases
  · rw [hToken]
    exact .unexpected
  rw [hToken, hTwin]
  have hFlat : token.IsFlat → ∀ token ∈ cursor.current?, token.IsFlat := fun hFlat other hOther =>
    Option.some.inj (hToken.symm.trans hOther) ▸ hFlat
  refine .ite (fun _ => Iff.rfl) (fun hUnary => ?_) fun _ => .ite (fun _ => Iff.rfl)
    (fun hUpdate => ?_) fun _ => .read_bind (.ite (fun _ => ?_) (fun hAwait => ?_) fun _ => ?_)
  · refine h.bump_bind (hFlat (isFlat_of_isUnaryOperator hUnary)) fun _ _ _ h => ?_
    refine hG.unary.nested.bindAfter hFits h fun _ argument argument' _ _ h => ?_
    exact h.unaryNode hG.fair hStart (by decide)
  · refine h.bump_bind (hFlat ?_) fun _ _ _ h => ?_
    · obtain hText | hText := Bool.or_eq_true_iff.mp hUpdate
      · exact Token.isFlat_of_text (beq_iff_eq.mp (Bool.and_eq_true_iff.mp hText).2) (by decide)
      · exact Token.isFlat_of_text (beq_iff_eq.mp (Bool.and_eq_true_iff.mp hText).2) (by decide)
    refine hG.unary.nested.bindAfter hFits h fun _ argument argument' _ _ h => ?_
    refine .requireSimpleTarget_bind hG.fair
      (fun hStage => (List.forall₂_cons.mp (h.alike hStage)).1) ?_
    exact h.unaryNode hG.fair hStart (by decide)
  · rw [hFits.inAsync_eq]
    rfl
  · refine .require_bind hFits (h.bump_bind (hFlat ?_) fun _ _ _ h => ?_)
    · have hWord := (Bool.and_eq_true_iff.mp (Bool.and_eq_true_iff.mp hAwait).1).2
      exact Token.isFlat_of_text (beq_iff_eq.mp hWord) (by decide)
    refine hG.unary.nested.bindAfter hFits h fun _ argument argument' _ _ h => ?_
    exact h.finish hG.fair hStart (fun _ h => by simpa using h) (by simp) (by simp)
  · exact hG.postfixUpdate hFits h hStart

theorem binaryTurn {minimum : Nat} {left left' : Node} (hG : W.Mirrored G H)
    (hFits : W.Fits context other) (hStart : first ≠ .lost → W.Near start start')
    (h : W.Tracks first origin 0 [left] [left'] stage cursor twin) :
    Mimics stage (binaryTurn G start minimum left) (binaryTurn H start' minimum left') context
      other cursor twin
      (Both (fun reached left left' => W.Tracks first origin 0 [left] [left'] reached)
        fun reached left left' => W.Tracks first origin 0 [left] [left'] reached) := by
  refine .read_bind (h.get_bind fun twin h hLooks => ?_)
  rw [hFits.withoutIn_eq, binaryOperator?_eq hLooks]
  cases hOperator : binaryOperator? context.withoutIn cursor with
  | none => exact .pure (.done h)
  | some operator =>
      obtain ⟨operator, precedence⟩ := operator
      refine .ite (fun _ => Iff.rfl) (fun _ => .pure (.done h)) fun _ => ?_
      have hCheck : Mimics stage (checkPower start left) (checkPower start' left') context other
          cursor twin fun reached _ _ later later' =>
            reached = stage ∧ later = cursor ∧ later' = twin :=
        .checkPower hG.fair hFits h.meets (fun hStage => hStart (h.leads.ne_lost hStage))
          fun hStage => (List.forall₂_cons.mp (h.alike hStage)).1
      refine .optional (fun _ => Iff.rfl) (fun _ => hCheck) (fun _ => ⟨rfl, rfl, rfl⟩) ?_
      rintro _ _ _ ⟨rfl, rfl, rfl⟩
      refine .optional_two (fun _ => Iff.rfl) (fun _ => .requireHere hFits h.meets)
        (fun _ => ⟨rfl, rfl, rfl⟩) ?_
      rintro _ _ _ ⟨rfl, rfl, rfl⟩
      refine h.bump_bind (isFlat_of_binaryOperator? hOperator) fun _ _ _ h => ?_
      refine (hG.binary _).bindAfter hFits h fun _ right right' _ _ h => ?_
      refine (h.finish hG.fair hStart (fun _ h => by simpa using h) (by simp) ?_).bind
        fun _ _ _ _ _ h => .pure (.again h)
      split <;> simp

theorem binaryBody (hG : W.Mirrored G H) (minimum : Nat) :
    W.MirrorsNode (binaryBody G minimum) (binaryBody H minimum) := by
  intro context other stage cursor twin hFits hMeets
  refine .startOffset_bind hFits hMeets fun start start' hStart => ?_
  refine hG.unary.bindAfter hFits (.refl hMeets) fun _ left left' _ _ h => ?_
  obtain ⟨_, hAdvances⟩ := hG.advances
  have hConsumes : Consumes (Grammar.binaryTurn G start minimum) := consumes_of_rounds
    fun limit => (hAdvances (limit + 1)).binaryTurn trivial minimum
  exact Mimics.iterate hG.fair hConsumes _ _ h (fun _ _ _ _ _ h => h.meets.abreast)
    fun _ _ _ _ _ h => hG.binaryTurn hFits hStart h

theorem conditional (hG : W.Mirrored G H) :
    W.MirrorsNode (conditional G) (conditional H) := by
  intro context other stage cursor twin hFits hMeets
  refine .startOffset_bind hFits hMeets fun start start' hStart => ?_
  refine (hG.binary 0).bindAfter hFits (.refl hMeets) fun _ test test' _ _ h => ?_
  refine h.eat_bind (by decide) fun _ found _ _ h => .ite (fun _ => Iff.rfl) (fun _ => ?_)
    fun _ => .pure h
  refine hG.assignment.allowIn.bindAfter hFits h fun _ consequent consequent' _ _ h => ?_
  refine h.expect_bind (by decide) fun _ _ _ h => ?_
  refine hG.assignment.bindAfter hFits h fun _ alternate alternate' _ _ h => ?_
  exact h.finish hG.fair hStart (fun _ h => by simpa using h) (by simp) (by simp)

theorem arrowBody (hG : W.Mirrored G H) (isAsync : Bool) :
    W.Mirrors (arrowBody G isAsync) (arrowBody H isAsync) (fun body => [body.1])
      fun body body' => body'.2 = body.2 := by
  intro context other stage cursor twin hFits hMeets
  refine (Tracks.refl hMeets).get_bind fun twin h hLooks => ?_
  refine .ite (fun _ => hLooks.atText_iff _) (fun _ => ?_) fun _ => ?_
  · exact hG.block.inFunction.bindAfter hFits h fun _ _ _ _ _ h => .pure ⟨h, rfl⟩
  · refine MirrorsNode.bindAfter (hG.assignment.withReader fun hFits => ?_) hFits h
      fun _ _ _ _ _ h => .pure ⟨h, rfl⟩
    exact hFits.function isAsync false

theorem arrowFunction (hG : W.Mirrored G H) {isAsync : Bool} (hFits : W.Fits context other)
    (hMeets : W.Meets stage cursor twin)
    (hAsync : isAsync = true → cursor.atText "async" = true) :
    Mimics stage (arrowFunction G isAsync) (arrowFunction H isAsync) context other cursor twin
      fun reached node node' later later' =>
        W.Tracks stage cursor 0 [node] [node'] reached later later' := by
  refine .startOffset_bind hFits hMeets fun start start' hStart => .require_bind hFits ?_
  refine .optional_two (fun _ => Iff.rfl) (fun hTrue => .require_bind hFits ?_)
    (fun _ => Tracks.refl hMeets) fun _ _ _ h => ?_
  · exact (Tracks.refl hMeets).bump (Cursor.isFlat_of_atText (hAsync hTrue) (by decide))
  refine h.get_bind fun twin h hLooks => ?_
  have hSingle : W.Mirrors ((fun param => [param]) <$> identifier)
      ((fun param => [param]) <$> identifier) (fun params => params) fun _ _ => True :=
    fun _ _ _ _ _ hFits hMeets => .map ((mirrorsNode_identifier _ _ _ _ _ hFits hMeets).imp
      fun _ _ _ _ _ h => ⟨h, trivial⟩)
  refine .either (fun _ => hLooks.atText_iff _) (fun _ => hG.params.inFunction.after hFits h)
    (fun _ => hSingle.after hFits h) fun _ params params' _ _ h => ?_
  refine h.1.expect_bind (by decide) fun _ _ _ h => ?_
  refine (hG.arrowBody isAsync).bindAfter hFits h ?_
  rintro _ ⟨body, isExpression⟩ ⟨body', again⟩ _ _ h hSame
  obtain rfl : again = isExpression := hSame
  refine h.finish hG.fair hStart (fun _ hAlike => named_functionFields rfl ?_) ?_ (by simp)
  · simpa using hAlike
  · simp [functionFields]

theorem yieldExpression (hG : W.Mirrored G H) (hFits : W.Fits context other)
    (h : W.Tracks stage cursor 0 [] [] stage cursor twin) (hText : cursor.atText "yield" = true) :
    Mimics stage (yieldExpression G) (yieldExpression H) context other cursor twin
      fun reached node node' later later' =>
        W.Tracks stage cursor 0 [node] [node'] reached later later' := by
  refine .startOffset_bind hFits h.meets fun start start' hStart => ?_
  refine h.bump_bind (Cursor.isFlat_of_atText hText (by decide)) fun _ _ _ h => ?_
  refine h.get_bind fun twin h hLooks => h.newlineBefore_bind hFits fun newline twin' h' => ?_
  refine .ite (fun _ => ?_) (fun _ => ?_) fun _ => ?_
  · simp only [hLooks.atEnd_eq, List.any_cons, hLooks.atText_eq]
    rfl
  · exact h'.finish hG.fair hStart (fun _ _ => by simp) (by simp) (by simp)
  · refine h'.eat_bind (by decide) fun _ delegate _ _ h => ?_
    refine hG.assignment.bindAfter hFits h fun _ argument argument' _ _ h => ?_
    exact h.finish hG.fair hStart (fun _ h => by simpa using h) (by simp) (by simp)

theorem assignmentTarget {operator : String} {left left' : Node} (hFair : W.IsFair)
    (hFits : W.Fits context other)
    (h : W.Tracks first origin depth [left] [left'] stage cursor twin)
    (hPlain : OperatorsArePlain [left]) :
    Mimics stage (assignmentTarget operator left) (assignmentTarget operator left') context other
      cursor twin fun reached target target' later later' =>
        W.Tracks first origin depth [target] [target'] reached later later' ∧
          later.rest = cursor.rest := by
  refine .ite (fun _ => Iff.rfl) (fun _ => ?_) fun _ => ?_
  · exact (h.toTarget hFair hPlain).and_yields yields_toTarget_rest
  refine .optional_two (fun _ => Iff.rfl) (fun _ => .requireHere hFits h.meets)
    (fun _ => ⟨rfl, rfl, rfl⟩) ?_
  rintro _ _ _ ⟨rfl, rfl, rfl⟩
  refine .optional_two (fun _ => Iff.rfl) (fun _ => .requireHere hFits h.meets)
    (fun _ => ⟨rfl, rfl, rfl⟩) ?_
  rintro _ _ _ ⟨rfl, rfl, rfl⟩
  refine .requireSimpleTarget_bind hFair
    (fun hStage => (List.forall₂_cons.mp (h.alike hStage)).1) ?_
  exact .pure ⟨h, rfl⟩

theorem assignmentBody (hG : W.Mirrored G H) :
    W.MirrorsNode (assignmentBody G) (assignmentBody H) := by
  intro context other stage cursor twin hFits hMeets
  refine (Tracks.refl hMeets).get_bind fun twin h hLooks => .read_bind ?_
  refine .ite (fun _ => by rw [hFits.inGenerator_eq, hLooks.atText_eq]) (fun hYield => ?_)
    fun _ => ?_
  · exact hG.yieldExpression hFits h (Bool.and_eq_true_iff.mp hYield).2
  rw [hLooks.arrowAhead?_eq]
  cases hArrow : arrowAhead? cursor with
  | some isAsync =>
      exact hG.arrowFunction hFits h.meets fun hAsync => atText_of_arrowAhead? (hAsync ▸ hArrow)
  | none =>
      refine .startOffset_bind hFits h.meets fun start start' hStart => ?_
      refine ((hG.conditional _ _ _ _ _ hFits h.meets).and_yields
        (hG.reads.conditional context cursor h.meets.inOrder)).bind ?_
      rintro _ left left' _ _ ⟨h, hReads⟩
      refine h.get_bind fun twin h hLooks => ?_
      rw [assignmentOperator?_eq hLooks]
      cases hOperator : assignmentOperator? _ with
      | none => exact .pure h
      | some operator =>
          refine (assignmentTarget hG.fair hFits h (operatorsArePlain_of_reads hReads.reads)).bind ?_
          rintro _ target target' later later' ⟨h, hRest⟩
          refine h.bump_bind (fun token hToken => ?_) fun _ _ _ h => ?_
          · rw [Cursor.current?, hRest] at hToken
            exact isFlat_of_assignmentOperator? hOperator token hToken
          refine hG.assignment.bindAfter hFits h fun _ right right' _ _ h => ?_
          exact h.finish hG.fair hStart (fun _ h => by simpa using h) (by simp) (by simp)

end Mirrored
end Exchange

end EcmaLint
