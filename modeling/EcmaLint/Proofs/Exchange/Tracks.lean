import EcmaLint.Proofs.Exchange.Mimics
import EcmaLint.Proofs.Grammar.Steps

/-! What was read of the old text and of the new one since an origin: nodes that are alike, and
tokens that open as many brackets. Moving over a token keeps the two cursors in step, unless it
leads to the stretch that is exchanged. -/
namespace EcmaLint

open Node Production

/-- The cursor behind the current token. -/
def Cursor.past (cursor : Cursor) : Cursor :=
  match cursor.rest with
  | [] => cursor
  | lexeme :: rest => { cursor with previousEnd := lexeme.token.span.stop, rest }

theorem Cursor.past_of_cons {cursor : Cursor} {lexeme : Lexeme} {rest : List Lexeme}
    (h : cursor.rest = lexeme :: rest) :
    cursor.past = { cursor with previousEnd := lexeme.token.span.stop, rest } := by
  rw [past, h]

theorem Cursor.past_of_nil {cursor : Cursor} (h : cursor.rest = []) : cursor.past = cursor := by
  rw [past, h]

theorem Cursor.exists_cons_of_atText {cursor : Cursor} {text : String}
    (h : cursor.atText text = true) :
    ∃ lexeme rest, cursor.rest = lexeme :: rest ∧ lexeme.is text = true := by
  cases hRest : cursor.rest with
  | nil => simp [atText, peekIs, hRest] at h
  | cons lexeme rest => exact ⟨lexeme, rest, rfl, by simpa [atText, peekIs, hRest] using h⟩

theorem Cursor.isFlat_of_atText {cursor : Cursor} {text : String} (h : cursor.atText text = true)
    (hText : text ∉ Token.openings ∧ text ∉ Token.closings) :
    ∀ token ∈ cursor.current?, token.IsFlat := by
  obtain ⟨lexeme, rest, hRest, hIs⟩ := exists_cons_of_atText h
  simpa [current?, hRest] using Token.isFlat_of_text (Lexeme.text_eq_of_is hIs) hText

namespace Exchange

variable {W : Exchange} {stage : Stage} {cursor twin : Cursor}

/-- Both cursors stand at the very start of the stretch. -/
structure AtEdge (W : Exchange) (cursor twin : Cursor) : Prop where
  inOrder : Token.InOrder cursor.tokens
  tidy : ∀ lexeme ∈ cursor.rest, lexeme.IsTidy
  rest_eq : cursor.rest = W.tail
  twin_rest_eq : twin.rest = W.newTail
  previousEnd : W.Near cursor.previousEnd twin.previousEnd
  defaults : List.Forall₂ (W.waits .before) cursor.shorthandDefaults twin.shorthandDefaults

theorem AtEdge.lost {other : Cursor} (h : W.AtEdge cursor twin) : W.Meets .lost cursor other :=
  ⟨h.inOrder, h.tidy, List.suffix_iff_eq_append.mpr (by simp [h.rest_eq]),
    fun h => absurd rfl h, fun h => absurd rfl h⟩

/-- Moving past the current tokens keeps the two cursors in step or leads to the stretch. -/
theorem Meets.past (h : W.Meets stage cursor twin) :
    W.Meets stage cursor.past twin.past ∨
      stage = .before ∧ W.AtEdge cursor.past twin.past ∧
        ∃ lexeme ∈ W.front.getLast?, cursor.rest.head? = some lexeme := by
  cases hRest : cursor.rest with
  | nil =>
      rw [Cursor.past_of_nil hRest]
      refine .inl ?_
      by_cases hStage : stage = .lost
      · subst hStage
        exact h.lost h.place
      · obtain ⟨-, hTwin⟩ | ⟨_, _, _, _, hCons, -⟩ := h.current_cases hStage
        · rwa [Cursor.past_of_nil hTwin]
        · rw [hRest] at hCons
          cases hCons
  | cons lexeme rest =>
      have hOrder : Token.InOrder (lexeme.token :: rest.map Lexeme.token) := by
        have hAll := h.inOrder
        rwa [Cursor.tokens, hRest] at hAll
      have hTidy : ∀ lexeme ∈ rest, lexeme.IsTidy := fun other hOther =>
        h.tidy other (hRest ▸ List.mem_cons_of_mem _ hOther)
      have hOrder' : Token.InOrder (rest.map Lexeme.token) :=
        @Token.InOrder.append_right [lexeme.token] _ hOrder
      rw [Cursor.past_of_cons hRest]
      have hPlace := h.place
      cases stage with
      | lost =>
          refine .inl ⟨hOrder', hTidy, ?_, fun h => absurd rfl h, fun h => absurd rfl h⟩
          exact (List.suffix_cons lexeme rest).trans (hRest ▸ hPlace)
      | after =>
          have hAlike := hPlace.alike
          rw [hRest] at hAlike
          cases hTwin : twin.rest with
          | nil =>
              rw [hTwin] at hAlike
              cases hAlike
          | cons other more =>
              rw [hTwin] at hAlike
              obtain ⟨hFirst, hMore⟩ := List.forall₂_cons.mp hAlike
              rw [Cursor.past_of_cons hTwin]
              refine .inl ⟨hOrder', hTidy, ⟨?_, hMore, hPlace.known⟩, fun _ => .inl hFirst.stop,
                fun _ => h.defaults (by decide)⟩
              exact (List.suffix_cons lexeme rest).trans (hRest ▸ hPlace.behind)
      | before =>
          obtain ⟨lexemes, others, hAhead, hOld, hNew⟩ := hPlace
          obtain ⟨first, second, front, copies, rfl, rfl, hFirst, hFront⟩ := hAhead.exists_cons
          obtain ⟨rfl, rfl⟩ := List.cons.inj (hRest.symm.trans hOld)
          rw [List.cons_append] at hNew
          rw [Cursor.past_of_cons hNew]
          by_cases hNil : front = []
          · subst hNil
            cases hFront
            obtain ⟨front, hLast⟩ := hAhead.behind
            exact .inr ⟨rfl, ⟨hOrder', hTidy, rfl, rfl, .inl hFirst.stop, h.defaults (by decide)⟩,
              lexeme, by simp [← hLast], rfl⟩
          · exact .inl ⟨hOrder', hTidy, ⟨front, copies, hAhead.tail hNil, rfl, rfl⟩,
              fun _ => .inl hFirst.stop, fun _ => h.defaults (by decide)⟩

/-- What was read since an origin in both texts: the nodes, and how many brackets were opened. -/
structure Tracks (W : Exchange) (first : Stage) (origin : Cursor) (depth : Nat)
    (read others : List Node) (stage : Stage) (cursor twin : Cursor) : Prop where
  meets : W.Meets stage cursor twin
  leads : first.Leads stage
  takes : ∃ taken, origin.rest = taken ++ cursor.rest ∧ Grammar.Bracketed 0 depth taken
  alike : stage ≠ .lost → List.Forall₂ W.Alike read others
  quiet : stage ≠ .after → W.Quiet read

theorem Quiet.nil : W.Quiet [] := by simp [Quiet]

theorem Quiet.append {read more : List Node} (h : W.Quiet read) (h' : W.Quiet more) :
    W.Quiet (read ++ more) := by
  rw [Quiet, forest_append]
  exact List.forall_mem_append.mpr ⟨h, h'⟩

/-- The two productions read alike nodes and come to related results. -/
def Mirrors {α : Type} (W : Exchange) (first second : Production α) (nodes : α → List Node)
    (related : α → α → Prop) : Prop :=
  ∀ context other stage cursor twin, W.Fits context other → W.Meets stage cursor twin →
    Mimics stage first second context other cursor twin
      fun reached value value' later later' =>
        W.Tracks stage cursor 0 (nodes value) (nodes value') reached later later' ∧
          related value value'

/-- The two productions read nodes that are alike. -/
def MirrorsNode (W : Exchange) (first second : Production Node) : Prop :=
  ∀ context other stage cursor twin, W.Fits context other → W.Meets stage cursor twin →
    Mimics stage first second context other cursor twin fun reached node node' later later' =>
      W.Tracks stage cursor 0 [node] [node'] reached later later'

namespace Fits

variable {context other : Context}

theorem nested (h : W.Fits context other) :
    W.Fits { context with depth := context.depth + 1 } { other with depth := other.depth + 1 } :=
  { h with depth_le := Nat.succ_le_succ h.depth_le }

theorem within (h : W.Fits context other) (withoutIn : Bool) :
    W.Fits { context with withoutIn } { other with withoutIn } :=
  { h with withoutIn_eq := rfl }

theorem function (h : W.Fits context other) (inAsync inGenerator : Bool) :
    W.Fits { context with inFunction := true, inAsync, inGenerator }
      { other with inFunction := true, inAsync, inGenerator } :=
  { h with inFunction_eq := rfl, inAsync_eq := rfl, inGenerator_eq := rfl }

end Fits

namespace Tracks

variable {α : Type} {first : Stage} {origin : Cursor} {depth deeper : Nat}
  {read others more copies : List Node} {context other : Context}
  {property : Stage → α → α → Cursor → Cursor → Prop}

theorem refl (h : W.Meets stage cursor twin) : W.Tracks stage cursor 0 [] [] stage cursor twin :=
  ⟨h, Stage.Leads.refl stage, ⟨[], rfl, .nil⟩, fun _ => .nil, fun _ => .nil⟩

theorem trans {reached : Stage} {later later' : Cursor}
    (h : W.Tracks first origin depth read others stage cursor twin)
    (h' : W.Tracks stage cursor 0 more copies reached later later') :
    W.Tracks first origin depth (read ++ more) (others ++ copies) reached later later' where
  meets := h'.meets
  leads := h.leads.trans h'.leads
  takes := by
    obtain ⟨taken, hTaken, hBrackets⟩ := h.takes
    obtain ⟨further, hFurther, hLevel⟩ := h'.takes
    exact ⟨taken ++ further, by rw [hTaken, hFurther, List.append_assoc],
      hBrackets.append (hLevel.inside depth)⟩
  alike hReached := List.rel_append (h.alike (h'.leads.ne_lost hReached)) (h'.alike hReached)
  quiet hReached := (h.quiet (h'.leads.ne_after hReached)).append (h'.quiet hReached)

/-- Only what is left to read counts. -/
theorem congr {later later' : Cursor}
    (h : W.Tracks first origin depth read others stage cursor twin)
    (hRest : later.rest = cursor.rest) (hMeets : W.Meets stage later later') :
    W.Tracks first origin depth read others stage later later' :=
  { h with meets := hMeets, takes := hRest ▸ h.takes }

/-- Of the nodes that were read some may be put in another order. -/
theorem regroup (h : W.Tracks first origin depth read others stage cursor twin)
    (hAlike : stage ≠ .lost → List.Forall₂ W.Alike more copies)
    (hSubset : ∀ node ∈ more, node ∈ read) :
    W.Tracks first origin depth more copies stage cursor twin :=
  { h with
    alike := hAlike
    quiet := fun hStage object hObject => by
      obtain ⟨node, hNode, hObject⟩ := mem_forest.mp hObject
      exact h.quiet hStage object (mem_forest.mpr ⟨node, hSubset node hNode, hObject⟩) }

/-- What was read before the stretch, once the new text is lost sight of. -/
theorem lost {later other : Cursor}
    (h : W.Tracks first origin depth read others .before cursor twin)
    (hMeets : W.Meets .lost later other)
    (hTakes : ∃ taken, origin.rest = taken ++ later.rest ∧ Grammar.Bracketed 0 deeper taken) :
    W.Tracks first origin deeper read others .lost later other where
  meets := hMeets
  leads := Stage.leads_of_eq_before (by
    by_contra hFirst
    exact hFirst (h.leads hFirst).symm)
  takes := hTakes
  alike hLost := absurd rfl hLost
  quiet _ := h.quiet (by decide)

/-- What stands ahead looks the same. -/
theorem looks (h : W.Tracks first origin depth read others stage cursor twin)
    (hStage : stage ≠ .lost) : cursor.Looks twin := h.meets.looks hStage

/-- Productions look at the current cursors. If the new text is lost, any other will do for it. -/
theorem get_bind {next another : Cursor → Production α}
    (h : W.Tracks first origin depth read others stage cursor twin)
    (hNext : ∀ twin, W.Tracks first origin depth read others stage cursor twin →
      cursor.Looks twin →
      Mimics stage (next cursor) (another twin) context other cursor twin property) :
    Mimics stage (get >>= next) (get >>= another) context other cursor twin property := by
  by_cases hStage : stage = .lost
  · subst hStage
    intro value later hRun
    have hMeets : W.Meets .lost cursor cursor := h.meets.lost h.meets.place
    obtain ⟨reached, value', later', hProperty, hSecond⟩ :=
      hNext cursor { h with meets := hMeets } (.refl cursor) value later hRun
    exact ⟨reached, value', later', hProperty, fun hReached => absurd rfl (hSecond hReached).1⟩
  · exact .get_bind (hNext twin h (h.looks hStage))

/-- A test of the current token has one outcome. -/
theorem atText (h : W.Tracks first origin depth read others stage cursor twin) (text : String) :
    stage ≠ .lost → (cursor.atText text = true ↔ twin.atText text = true) := fun hStage => by
  rw [(h.looks hStage).atText_eq]

/-- Moving past the current token, which opens and closes as many brackets as are told. -/
theorem bump_of_bracketed (h : W.Tracks first origin depth read others stage cursor twin)
    (hBrackets : ∀ lexeme ∈ cursor.rest.head?, Grammar.Bracketed depth deeper [lexeme])
    (hSome : cursor.rest ≠ []) :
    Mimics stage bump bump context other cursor twin fun reached _ _ later later' =>
      W.Tracks first origin deeper read others reached later later' := by
  obtain ⟨lexeme, rest, hRest⟩ := List.exists_cons_of_ne_nil hSome
  have hTakes : ∃ taken, origin.rest = taken ++ cursor.past.rest ∧
      Grammar.Bracketed 0 deeper taken := by
    obtain ⟨taken, hTaken, hLevel⟩ := h.takes
    refine ⟨taken ++ [lexeme], ?_, hLevel.append (hBrackets lexeme (by rw [hRest]; rfl))⟩
    rw [hTaken, Cursor.past_of_cons hRest, hRest, List.append_assoc]
    rfl
  obtain hMeets | ⟨rfl, hEdge, -⟩ := h.meets.past
  · rintro _ _ ⟨⟩
    exact ⟨stage, (), twin.past, { h with meets := hMeets, takes := hTakes },
      fun hStage => ⟨hStage, rfl⟩⟩
  · rintro _ _ ⟨⟩
    exact ⟨.lost, (), twin, h.lost hEdge.lost hTakes, fun hStage => absurd rfl hStage⟩

/-- Moving past a token that opens and closes nothing, or staying at the end. -/
theorem bump (h : W.Tracks first origin depth read others stage cursor twin)
    (hFlat : ∀ token ∈ cursor.current?, token.IsFlat) :
    Mimics stage bump bump context other cursor twin fun reached _ _ later later' =>
      W.Tracks first origin depth read others reached later later' := by
  by_cases hSome : cursor.rest = []
  · rintro _ _ ⟨⟩
    have hPast := h.meets.past
    change ∃ reached value' later', W.Tracks first origin depth read others reached cursor.past
      later' ∧ _
    rw [Cursor.past_of_nil hSome] at hPast ⊢
    obtain hMeets | ⟨rfl, hEdge, -⟩ := hPast
    · exact ⟨stage, (), twin.past, { h with meets := hMeets }, fun hStage => ⟨hStage, rfl⟩⟩
    · exact ⟨.lost, (), twin, h.lost hEdge.lost h.takes, fun hStage => absurd rfl hStage⟩
  · refine h.bump_of_bracketed (fun lexeme hLexeme => Grammar.bracketed_flat ?_) hSome
    exact hFlat lexeme.token (Option.map_eq_some_iff.mpr ⟨lexeme, hLexeme, rfl⟩)

theorem bump_bind {next another : Unit → Production α}
    (h : W.Tracks first origin depth read others stage cursor twin)
    (hFlat : ∀ token ∈ cursor.current?, token.IsFlat)
    (hNext : ∀ reached later later', W.Tracks first origin depth read others reached later later' →
      Mimics reached (next ()) (another ()) context other later later' property) :
    Mimics stage (Production.bump >>= next) (Production.bump >>= another) context other cursor twin
      property :=
  (h.bump hFlat).bind fun _ _ _ _ _ => hNext _ _ _

/-- Moving past a bracket that opens. -/
theorem bump_opening_bind {token : Token} {next another : Unit → Production α}
    (h : W.Tracks first origin depth read others stage cursor twin)
    (hToken : cursor.current? = some token) (hKind : token.kind = .punctuator)
    (hText : token.text ∈ Token.openings)
    (hNext : ∀ reached later later',
      W.Tracks first origin (depth + 1) read others reached later later' →
      Mimics reached (next ()) (another ()) context other later later' property) :
    Mimics stage (Production.bump >>= next) (Production.bump >>= another) context other cursor twin
      property := by
  obtain ⟨lexeme, hLexeme, rfl⟩ := Option.map_eq_some_iff.mp hToken
  obtain ⟨rest, hRest⟩ := List.head?_eq_some_iff.mp hLexeme
  refine (h.bump_of_bracketed (fun other hOther => ?_) (by simp [hRest])).bind
    fun _ _ _ _ _ => hNext _ _ _
  obtain rfl := Option.some.inj (hLexeme.symm.trans hOther)
  exact Grammar.bracketed_opening hKind hText

/-- Moving past a bracket that closes. -/
theorem bump_closing_bind {text : String} {next another : Unit → Production α}
    (h : W.Tracks first origin (depth + 1) read others stage cursor twin)
    (hCurrent : cursor.atText text = true) (hText : text ∈ Token.closings)
    (hNext : ∀ reached later later', W.Tracks first origin depth read others reached later later' →
      Mimics reached (next ()) (another ()) context other later later' property) :
    Mimics stage (Production.bump >>= next) (Production.bump >>= another) context other cursor twin
      property := by
  obtain ⟨lexeme, rest, hRest, hIs⟩ := Cursor.exists_cons_of_atText hCurrent
  refine (h.bump_of_bracketed (fun other hOther => ?_) (by simp [hRest])).bind
    fun _ _ _ _ _ => hNext _ _ _
  obtain rfl : lexeme = other := by simpa [hRest] using hOther
  obtain ⟨hKind, hEq⟩ := h.meets.tidy lexeme (hRest ▸ List.mem_cons_self) text
    (List.mem_append_right _ hText) hIs
  exact Grammar.bracketed_closing hKind (hEq.symm ▸ hText)

/-- Moving past the current token if it has a text. -/
theorem eat_of_bracketed {text : String}
    (h : W.Tracks first origin depth read others stage cursor twin)
    (hBrackets : ∀ lexeme : Lexeme, lexeme.IsTidy → lexeme.is text = true →
      Grammar.Bracketed depth deeper [lexeme]) :
    Mimics stage (Production.eat text) (Production.eat text) context other cursor twin
      fun reached found found' later later' => found' = found ∧
        W.Tracks first origin (if found then deeper else depth) read others reached later
          later' := by
  refine .get_bind (.ite (h.atText text) (fun hText => ?_) fun _ => .pure ⟨rfl, h⟩)
  obtain ⟨lexeme, rest, hRest, hIs⟩ := Cursor.exists_cons_of_atText hText
  have hBump : Mimics stage Production.bump Production.bump context other cursor twin
      fun reached _ _ later later' =>
        W.Tracks first origin deeper read others reached later later' := by
    refine h.bump_of_bracketed (fun other hOther => ?_) (by simp [hRest])
    rw [hRest] at hOther
    cases hOther
    exact hBrackets lexeme (h.meets.tidy lexeme (hRest ▸ List.mem_cons_self)) hIs
  exact hBump.bind fun _ _ _ _ _ hLater => .pure ⟨rfl, hLater⟩

theorem bracketed_of_flat {text : String} (hText : text ∉ Token.openings ∧ text ∉ Token.closings)
    (lexeme : Lexeme) (h : lexeme.is text = true) : Grammar.Bracketed depth depth [lexeme] :=
  Grammar.bracketed_flat (Token.isFlat_of_text (Lexeme.text_eq_of_is h) hText)

theorem eat_bind {text : String} {next another : Bool → Production α}
    (h : W.Tracks first origin depth read others stage cursor twin)
    (hText : text ∉ Token.openings ∧ text ∉ Token.closings)
    (hNext : ∀ reached found later later',
      W.Tracks first origin depth read others reached later later' →
      Mimics reached (next found) (another found) context other later later' property) :
    Mimics stage (Production.eat text >>= next) (Production.eat text >>= another) context other
      cursor twin property := by
  refine (h.eat_of_bracketed fun lexeme _ => bracketed_of_flat hText lexeme).bind ?_
  rintro reached found _ later later' ⟨rfl, hLater⟩
  rw [ite_self] at hLater
  exact hNext _ _ _ _ hLater

/-- Moving past the current token, which must have a text. -/
theorem expect_of_bracketed {text : String}
    (h : W.Tracks first origin depth read others stage cursor twin)
    (hBrackets : ∀ lexeme : Lexeme, lexeme.IsTidy → lexeme.is text = true →
      Grammar.Bracketed depth deeper [lexeme]) :
    Mimics stage (Production.expect text) (Production.expect text) context other cursor twin
      fun reached _ _ later later' =>
        W.Tracks first origin deeper read others reached later later' := by
  refine (h.eat_of_bracketed hBrackets).bind ?_
  rintro reached found _ later later' ⟨rfl, hLater⟩
  refine .ite (fun _ => Iff.rfl) (fun hFound => .pure ?_) fun _ => .unexpected
  rwa [if_pos hFound] at hLater

theorem expect {text : String} (h : W.Tracks first origin depth read others stage cursor twin)
    (hText : text ∉ Token.openings ∧ text ∉ Token.closings) :
    Mimics stage (Production.expect text) (Production.expect text) context other cursor twin
      fun reached _ _ later later' =>
        W.Tracks first origin depth read others reached later later' :=
  h.expect_of_bracketed fun lexeme _ => bracketed_of_flat hText lexeme

theorem expect_bind {text : String} {next another : Unit → Production α}
    (h : W.Tracks first origin depth read others stage cursor twin)
    (hText : text ∉ Token.openings ∧ text ∉ Token.closings)
    (hNext : ∀ reached later later', W.Tracks first origin depth read others reached later later' →
      Mimics reached (next ()) (another ()) context other later later' property) :
    Mimics stage (Production.expect text >>= next) (Production.expect text >>= another) context
      other cursor twin property :=
  (h.expect hText).bind fun _ _ _ _ _ => hNext _ _ _

/-- As `expect_bind`, for a bracket that opens. -/
theorem open_bind {text : String} {next another : Unit → Production α}
    (h : W.Tracks first origin depth read others stage cursor twin)
    (hText : text ∈ Token.openings)
    (hNext : ∀ reached later later',
      W.Tracks first origin (depth + 1) read others reached later later' →
      Mimics reached (next ()) (another ()) context other later later' property) :
    Mimics stage (Production.expect text >>= next) (Production.expect text >>= another) context
      other cursor twin property := by
  refine (h.expect_of_bracketed fun lexeme hTidy hIs => ?_).bind fun _ _ _ _ _ => hNext _ _ _
  obtain ⟨hKind, hEq⟩ := hTidy text (List.mem_append_left _ hText) hIs
  exact Grammar.bracketed_opening hKind (hEq.symm ▸ hText)

/-- As `expect_bind`, for a bracket that closes. -/
theorem close_bind {text : String} {next another : Unit → Production α}
    (h : W.Tracks first origin (depth + 1) read others stage cursor twin)
    (hText : text ∈ Token.closings)
    (hNext : ∀ reached later later', W.Tracks first origin depth read others reached later later' →
      Mimics reached (next ()) (another ()) context other later later' property) :
    Mimics stage (Production.expect text >>= next) (Production.expect text >>= another) context
      other cursor twin property := by
  refine (h.expect_of_bracketed fun lexeme hTidy hIs => ?_).bind fun _ _ _ _ _ => hNext _ _ _
  obtain ⟨hKind, hEq⟩ := hTidy text (List.mem_append_right _ hText) hIs
  exact Grammar.bracketed_closing hKind (hEq.symm ▸ hText)

end Tracks
end Exchange

end EcmaLint
