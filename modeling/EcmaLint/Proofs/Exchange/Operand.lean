import EcmaLint.Proofs.Exchange.Edge

/-! Operands, in the old text and in the new one. -/
namespace EcmaLint

open Grammar Node Production

namespace Exchange

variable {W : Exchange} {G H : Grammar Production} {first stage : Stage}
  {origin cursor twin : Cursor}
  {context other : Context} {depth : Nat} {start start' : Nat} {read others : List Node}

namespace Tracks

/-- Moving past a token of another kind than a punctuator. -/
theorem bump_word_bind {α : Type} {property : Stage → α → α → Cursor → Cursor → Prop}
    {token : Token} {next another : Unit → Production α}
    (h : W.Tracks first origin depth read others stage cursor twin)
    (hToken : cursor.current? = some token) (hKind : token.kind ≠ .punctuator)
    (hNext : ∀ reached later later', W.Tracks first origin depth read others reached later later' →
      Mimics reached (next ()) (another ()) context other later later' property) :
    Mimics stage (Production.bump >>= next) (Production.bump >>= another) context other cursor twin
      property := by
  refine h.bump_bind (fun other hOther => ?_) hNext
  rw [← Option.some.inj (hToken.symm.trans hOther)]
  exact Token.isFlat_of_kind hKind

end Tracks

/-- What follows a text that has to be there need only be compared where it is. -/
theorem Mimics.of_atText {α : Type} {property : Stage → α → α → Cursor → Cursor → Prop}
    {text : String} {next : Unit → Production α} {second : Production α}
    (h : cursor.atText text = true →
      Mimics stage (Production.expect text >>= next) second context other cursor twin property) :
    Mimics stage (Production.expect text >>= next) second context other cursor twin property := by
  intro value later hRun
  obtain ⟨_, hExpect, -⟩ := exists_of_bind_eq_ok hRun
  exact h (atText_of_expect hExpect) value later hRun

namespace Mirrored

theorem primary (hG : W.Mirrored G H) : W.MirrorsNode (primary G) (primary H) := by
  intro context other stage cursor twin hFits hMeets
  refine (Tracks.refl hMeets).get_bind fun twin h hLooks => ?_
  obtain ⟨hToken, hTwin⟩ | ⟨token, span, hToken, hTwin⟩ := hLooks.current?_cases
  · rw [hToken]
    exact .unexpected
  rw [hToken, hTwin]
  have hStart := fun hStage => (h.meets.bounds_of_current hToken hTwin hStage).1
  have hLeaf : ∀ {kind : NodeKind} {fields : List (FieldName × FieldValue)},
      token.kind ≠ .punctuator → List.Forall₂ (Field.Named W.Alike) fields fields →
      Field.filledIn fields = [] → kind ≠ .objectExpression →
      Mimics stage (do bump; store kind token.span fields) (do bump; store kind span fields)
        context other cursor twin fun reached node node' later later' =>
          W.Tracks stage cursor 0 [node] [node'] reached later later' :=
    fun hKind hFields hPlain hObject =>
      h.bump_leaf hToken hTwin (Token.isFlat_of_kind hKind) hFields hPlain hObject
  dsimp only
  split
  case h_1 hKind =>
    have hWord : token.kind ≠ .punctuator := by rw [hKind]; decide
    have hSecond := hLooks.second (Cursor.not_isMark_of_kind hToken hWord)
    rw [Cursor.peekIs_eq hSecond, Cursor.newlineBeforePeek_eq hSecond]
    refine .ite (fun _ => Iff.rfl) (fun _ => .require_bind hFits ?_) fun _ => ?_
    · refine h.bump_word_bind hToken hWord fun _ _ _ h => ?_
      exact hG.function hFits h hStart
    · exact mirrorsNode_identifier _ _ _ _ _ hFits h.meets
  case h_2 hKind =>
    have hWord : token.kind ≠ .punctuator := by rw [hKind]; decide
    refine .ite (fun _ => Iff.rfl) (fun _ => ?_) fun _ => ?_
    · exact hLeaf hWord .nil rfl (by decide)
    refine .ite (fun _ => Iff.rfl) (fun _ => ?_) fun _ => ?_
    · exact hLeaf hWord .nil rfl (by decide)
    refine .ite (fun _ => Iff.rfl) (fun _ => ?_) fun _ => ?_
    · exact hG.function hFits h hStart
    refine .ite (fun _ => Iff.rfl) (fun _ => ?_) fun _ => .unexpected
    exact hG.classOf _ _ _ _ _ _ hFits h.meets
  case h_3 hKind => exact hLeaf (by rw [hKind]; decide) (by simp) (by simp) (by decide)
  case h_4 hKind => exact hLeaf (by rw [hKind]; decide) (by simp) (by simp) (by decide)
  case h_5 hKind =>
    exact mimics_numericLiteral hFits h hToken hTwin (Token.isFlat_of_kind (by rw [hKind]; decide))
  case h_6 hKind => exact hLeaf (by rw [hKind]; decide) (by simp) (by simp) (by decide)
  case h_7 hKind => exact hLeaf (by rw [hKind]; decide) (by simp) (by simp) (by decide)
  case h_8 =>
    refine .ite (fun _ => by rw [hLooks.atTemplateHead_eq]) (fun _ => ?_) fun _ => .unexpected
    exact hG.template _ _ _ _ _ hFits h.meets
  case h_9 hKind =>
    refine .ite (fun _ => Iff.rfl) (fun hText => ?_) fun _ => ?_
    · refine h.bump_opening_bind hToken hKind (by rw [beq_iff_eq.mp hText]; decide)
        fun _ _ _ h => ?_
      refine hG.expression.allowIn.bindAfter hFits h fun _ inner inner' _ _ h => ?_
      exact h.close_bind (by decide) fun _ _ _ h => .pure h
    refine .ite (fun _ => Iff.rfl) (fun _ => ?_) fun _ => ?_
    · exact hG.arrayLiteral _ _ _ _ _ hFits h.meets
    refine .ite (fun _ => Iff.rfl) (fun _ => ?_) fun _ => .unexpected
    exact hG.objectLiteral _ _ _ _ _ hFits h.meets

end Mirrored

theorem Tracks.memberNode {object property object' property' : Node} {computed isOptional : Bool}
    (hFair : W.IsFair)
    (h : W.Tracks first origin depth [object, property] [object', property'] stage cursor twin)
    (hStart : first ≠ .lost → W.Near start start') :
    Mimics stage (memberNode start object property computed isOptional)
      (memberNode start' object' property' computed isOptional) context other cursor twin
      fun reached node node' later later' =>
        W.Tracks first origin depth [node] [node'] reached later later' :=
  h.finish hFair hStart (fun _ h => by simpa using h) (by simp) (by simp)

theorem Tracks.dotMember {object object' : Node} {isOptional : Bool} (hFair : W.IsFair)
    (hFits : W.Fits context other)
    (h : W.Tracks first origin depth [object] [object'] stage cursor twin)
    (hStart : first ≠ .lost → W.Near start start') :
    Mimics stage (dotMember start object isOptional) (dotMember start' object' isOptional) context
      other cursor twin fun reached node node' later later' =>
        W.Tracks first origin depth [node] [node'] reached later later' :=
  mirrorsNode_identifierName.bindAfter hFits h fun _ _ _ _ _ h => h.memberNode hFair hStart

/-- What stands behind `new` and a point, where the word `new` is read as a name as well. -/
theorem Tracks.newTarget {word word' : Span} (hFair : W.IsFair) (hFits : W.Fits context other)
    (h : W.Tracks first origin depth [] [] stage cursor twin)
    (hStart : first ≠ .lost → W.Near start start')
    (hWord : first ≠ .lost → W.Bounds word word') :
    Mimics stage (newTarget start word) (newTarget start' word') context other cursor twin
      fun reached node node' later later' =>
        W.Tracks first origin depth [node] [node'] reached later later' := by
  refine h.get_bind fun twin h hLooks => .ensure (fun _ => hLooks.atText_iff _) (fun _ => h)
    (fun _ => .unexpected) fun _ _ _ h => ?_
  refine .read_bind (.ensure (fun _ => by rw [hFits.inFunction_eq]) (fun _ => h)
    (fun _ => .fault) fun _ _ _ h => ?_)
  refine (h.leaf (fun hStage => hWord (h.leads.ne_lost hStage)) (fun _ => by simp) (by simp)
    (by decide)).bind fun _ metaWord metaWord' _ _ h => ?_
  refine mirrorsNode_identifierName.bindAfter hFits h fun _ property property' _ _ h => ?_
  exact h.finish hFair hStart (fun _ h => by simpa using h) (by simp) (by simp)

namespace Mirrored

variable {object object' : Node} {isOptional : Bool}

theorem computedMember (hG : W.Mirrored G H) (hFits : W.Fits context other)
    (h : W.Tracks first origin depth [object] [object'] stage cursor twin)
    (hStart : first ≠ .lost → W.Near start start') :
    Mimics stage (computedMember G start object isOptional)
      (computedMember H start' object' isOptional) context other cursor twin
      fun reached node node' later later' =>
        W.Tracks first origin depth [node] [node'] reached later later' := by
  refine h.open_bind (by decide) fun _ _ _ h => ?_
  refine hG.expression.allowIn.bindAfter hFits h fun _ property property' _ _ h => ?_
  exact h.close_bind (by decide) fun _ _ _ h => h.memberNode hG.fair hStart

theorem call (hG : W.Mirrored G H) (hFits : W.Fits context other)
    (h : W.Tracks first origin depth [object] [object'] stage cursor twin)
    (hStart : first ≠ .lost → W.Near start start') :
    Mimics stage (call G start object isOptional) (call H start' object' isOptional) context other
      cursor twin fun reached node node' later later' =>
        W.Tracks first origin depth [node] [node'] reached later later' := by
  refine hG.arguments.bindAfter hFits h fun _ arguments arguments' _ _ h _ => ?_
  exact h.finish hG.fair hStart (fun _ h => by simpa using h) (by simp) (by simp)

theorem taggedTemplate (hG : W.Mirrored G H) (hFits : W.Fits context other)
    (h : W.Tracks first origin depth [object] [object'] stage cursor twin)
    (hStart : first ≠ .lost → W.Near start start') :
    Mimics stage (taggedTemplate G start object) (taggedTemplate H start' object') context other
      cursor twin fun reached node node' later later' =>
        W.Tracks first origin depth [node] [node'] reached later later' := by
  refine hG.template.bindAfter hFits h fun _ quasi quasi' _ _ h => ?_
  exact h.finish hG.fair hStart (fun _ h => by simpa using h) (by simp) (by simp)

/-- An operand, and in both texts an optional access came before or not. -/
def Chained (W : Exchange) (first : Stage) (origin : Cursor) (reached : Stage)
    (state state' : Node × Bool) (later later' : Cursor) : Prop :=
  W.Tracks first origin 0 [state.1] [state'.1] reached later later' ∧ state'.2 = state.2

theorem operandTurn {state state' : Node × Bool} (hG : W.Mirrored G H)
    (hFits : W.Fits context other)
    (hStart : first ≠ .lost → W.Near start start')
    (h : Chained W first origin stage state state' cursor twin) :
    Mimics stage (operandTurn G start state) (operandTurn H start' state') context other cursor
      twin (Both (Chained W first origin) (Chained W first origin)) := by
  obtain ⟨operand, chained⟩ := state
  obtain ⟨operand', again⟩ := state'
  obtain ⟨h, hSame⟩ := h
  obtain rfl : again = chained := hSame
  refine h.eat_bind (by decide) fun _ found _ _ h => .ite (fun _ => Iff.rfl) (fun _ => ?_)
    fun _ => ?_
  · exact (h.dotMember hG.fair hFits hStart).bind fun _ _ _ _ _ h => .pure (.again ⟨h, rfl⟩)
  refine h.get_bind fun twin h hLooks => .ite (fun _ => hLooks.atText_iff _) (fun hText => ?_)
    fun _ => ?_
  · refine .startOffset_bind hFits h.meets fun _ _ _ => .require_bind hFits ?_
    refine h.bump_bind (Cursor.isFlat_of_atText hText (by decide)) fun _ _ _ h => ?_
    refine h.get_bind fun twin h hLooks => .ite (fun _ => hLooks.atText_iff _) (fun _ => ?_)
      fun _ => .ite (fun _ => hLooks.atText_iff _) (fun _ => ?_) fun _ => ?_
    · exact (hG.call hFits h hStart).bind fun _ _ _ _ _ h => .pure (.again ⟨h, rfl⟩)
    · exact (hG.computedMember hFits h hStart).bind fun _ _ _ _ _ h => .pure (.again ⟨h, rfl⟩)
    · exact (h.dotMember hG.fair hFits hStart).bind fun _ _ _ _ _ h => .pure (.again ⟨h, rfl⟩)
  refine h.get_bind fun twin h hLooks => .ite (fun _ => hLooks.atText_iff _) (fun _ => ?_)
    fun _ => ?_
  · exact (hG.computedMember hFits h hStart).bind fun _ _ _ _ _ h => .pure (.again ⟨h, rfl⟩)
  refine h.get_bind fun twin h hLooks => .ite (fun _ => hLooks.atText_iff _) (fun _ => ?_)
    fun _ => ?_
  · exact (hG.call hFits h hStart).bind fun _ _ _ _ _ h => .pure (.again ⟨h, rfl⟩)
  refine h.get_bind fun twin h hLooks => .ite (fun _ => by rw [hLooks.atTemplateHead_eq])
    (fun _ => ?_) fun _ => .pure (.done ⟨h, rfl⟩)
  refine .ite (fun _ => Iff.rfl) (fun _ => ?_) fun _ => ?_
  · exact .startOffset_bind hFits h.meets fun _ _ _ => .fault
  · exact (hG.taggedTemplate hFits h hStart).bind fun _ _ _ _ _ h => .pure (.again ⟨h, rfl⟩)

theorem leftHandSideBody (hG : W.Mirrored G H) :
    W.MirrorsNode (leftHandSideBody G) (leftHandSideBody H) := by
  intro context other stage cursor twin hFits hMeets
  refine .startOffset_bind hFits hMeets fun start start' hStart => ?_
  refine (Tracks.refl hMeets).get_bind fun twin h hLooks => ?_
  refine .either (fun _ => hLooks.atText_iff _) (fun _ => hG.newExpression.after hFits h)
    (fun _ => hG.primary.after hFits h) fun _ operand operand' _ _ h => ?_
  obtain ⟨_, hAdvances⟩ := hG.advances
  have hConsumes : Consumes (Grammar.operandTurn G start) := consumes_of_rounds fun limit =>
    (hAdvances limit).operandTurn trivial
  have h : Chained W stage cursor _ (operand, false) (operand', false) _ _ := ⟨h, rfl⟩
  refine (Mimics.iterate hG.fair hConsumes (Chained W stage cursor) (Chained W stage cursor) h
    (fun _ _ _ _ _ h => h.1.meets.abreast)
    fun _ _ _ _ _ h => hG.operandTurn hFits hStart h).bind ?_
  rintro _ ⟨operand, chained⟩ ⟨operand', again⟩ _ _ ⟨h, hSame⟩
  obtain rfl : again = chained := hSame
  refine .ite (fun _ => Iff.rfl) (fun _ => ?_) fun _ => .pure h
  exact h.finish hG.fair hStart (fun _ h => by simpa using h) (by simp) (by simp)

theorem calleeTurn {callee callee' : Node} (hG : W.Mirrored G H) (hFits : W.Fits context other)
    (hStart : first ≠ .lost → W.Near start start')
    (h : W.Tracks first origin 0 [callee] [callee'] stage cursor twin) :
    Mimics stage (calleeTurn G start callee) (calleeTurn H start' callee') context other cursor
      twin (Both (fun reached callee callee' => W.Tracks first origin 0 [callee] [callee'] reached)
        fun reached callee callee' => W.Tracks first origin 0 [callee] [callee'] reached) := by
  refine h.eat_bind (by decide) fun _ found _ _ h => .ite (fun _ => Iff.rfl) (fun _ => ?_)
    fun _ => ?_
  · exact (h.dotMember hG.fair hFits hStart).bind fun _ _ _ _ _ h => .pure (.again h)
  refine h.get_bind fun twin h hLooks => .ite (fun _ => hLooks.atText_iff _) (fun _ => ?_)
    fun _ => ?_
  · exact (hG.computedMember hFits h hStart).bind fun _ _ _ _ _ h => .pure (.again h)
  refine h.get_bind fun twin h hLooks => .ite (fun _ => by rw [hLooks.atTemplateHead_eq])
    (fun _ => ?_) fun _ => ?_
  · exact (hG.taggedTemplate hFits h hStart).bind fun _ _ _ _ _ h => .pure (.again h)
  refine h.get_bind fun twin h hLooks => .ite (fun _ => hLooks.atText_iff _) (fun _ => ?_)
    fun _ => .pure (.done h)
  exact .startOffset_bind hFits h.meets fun _ _ _ => .fault

theorem newExpressionBody (hG : W.Mirrored G H) :
    W.MirrorsNode (newExpressionBody G) (newExpressionBody H) := by
  intro context other stage cursor twin hFits hMeets
  refine .startOffset_bind hFits hMeets fun start start' hStart => ?_
  refine (Tracks.refl hMeets).get_bind fun twin h hLooks => ?_
  refine .of_atText fun hText => ?_
  have hWord : stage ≠ .lost → W.Bounds ((cursor.current?.map Token.span).getD ⟨0, 0⟩)
      ((twin.current?.map Token.span).getD ⟨0, 0⟩) := fun hStage => by
    obtain ⟨lexeme, rest, hRest, -⟩ := Cursor.exists_cons_of_atText hText
    obtain ⟨hToken, -⟩ | ⟨token, span, hToken, hTwin⟩ := hLooks.current?_cases
    · simp [Cursor.current?, hRest] at hToken
    · rw [hToken, hTwin]
      exact h.meets.bounds_of_current hToken hTwin hStage
  refine h.expect_bind (by decide) fun _ _ _ h => ?_
  refine h.eat_bind (by decide) fun _ found _ _ h => .ite (fun _ => Iff.rfl) (fun _ => ?_)
    fun _ => ?_
  · exact h.newTarget hG.fair hFits hStart hWord
  refine .startOffset_bind hFits h.meets fun calleeStart calleeStart' hCalleeStart => ?_
  refine h.get_bind fun twin h hLooks => ?_
  obtain ⟨_, hAdvances⟩ := hG.advances
  have hConsumes : Consumes (Grammar.calleeTurn G calleeStart) := consumes_of_rounds fun limit =>
    (hAdvances limit).calleeTurn trivial
  refine .either (fun _ => hLooks.atText_iff _)
    (fun _ => hG.newExpression _ _ _ _ _ hFits h.meets)
    (fun _ => hG.primary _ _ _ _ _ hFits h.meets) fun _ callee callee' _ _ hCallee => ?_
  refine (Mimics.iterate hG.fair hConsumes _ _ hCallee (fun _ _ _ _ _ h => h.meets.abreast)
    fun _ _ _ _ _ h => hG.calleeTurn hFits hCalleeStart h).bind
      fun _ callee callee' _ _ hCallee => ?_
  refine (h.trans hCallee).get_bind fun twin h hLooks => ?_
  refine .either (fun _ => hLooks.atText_iff _) (fun _ => hG.arguments.after hFits h)
    (fun _ => .pure ⟨by simpa using h, trivial⟩) fun _ arguments arguments' _ _ h => ?_
  exact h.1.finish hG.fair hStart (fun _ h => by simpa using h) (by simp) (by simp)

end Mirrored
end Exchange

end EcmaLint
