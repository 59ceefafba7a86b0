import EcmaLint.Proofs.Exchange.Object

/-! Objects, in the old text and in the new one. Only a brace or a comma inside an object leads to
the stretch that is exchanged. If the property is read there, one that it becomes is read off the
new text, and if something else is, the new text is lost. For this, productions are run step by
step: what a step returns and where it leaves the cursor. -/
namespace EcmaLint

section

open Grammar Node Production

/-- Two stretches of tokens from one place on that end in one place are of one length. -/
theorem Token.InOrder.length_le {first second rest more : List Token} {a b : Token}
    (h : InOrder (first ++ rest)) (hEq : first ++ rest = second ++ more)
    (hFirst : first.getLast? = some a) (hSecond : second.getLast? = some b)
    (hStop : a.span.stop = b.span.stop) : second.length ≤ first.length := by
  obtain ⟨between, rfl, -⟩ | ⟨between, rfl, -⟩ := List.append_eq_append_iff.mp hEq
  · by_cases hBetween : between = []
    · simp [hBetween]
    rw [List.getLast?_append_of_ne_nil _ hBetween] at hSecond
    rw [hEq, List.append_assoc] at h
    have hApart := h.stop_le_start (List.mem_of_getLast? hFirst)
      (List.mem_append_left more (List.mem_of_getLast? hSecond))
    have hNonempty := h.append_right.append_left.nonempty b (List.mem_of_getLast? hSecond)
    omega
  · simp

namespace Exchange

variable {W : Exchange} {G H : Grammar Production} {first stage : Stage}
  {origin cursor twin : Cursor}
  {context other : Context} {depth deeper : Nat} {read others : List Node} {node node' : Node}

/-- What was read since an origin up to the very start of the stretch. -/
structure Arrives (W : Exchange) (first : Stage) (origin : Cursor) (depth : Nat)
    (read others : List Node) (cursor twin : Cursor) : Prop where
  edge : W.AtEdge cursor twin
  leads : first.Leads .before
  takes : ∃ taken, origin.rest = taken ++ cursor.rest ∧ Grammar.Bracketed 0 depth taken
  alike : List.Forall₂ W.Alike read others
  quiet : W.Quiet read

/-- The new text may be lost sight of. -/
theorem Arrives.lost (h : W.Arrives first origin depth read others cursor twin) (other : Cursor) :
    W.Tracks first origin depth read others .lost cursor other where
  meets := h.edge.lost
  leads := Stage.leads_of_eq_before (by
    by_contra hFirst
    exact hFirst (h.leads hFirst).symm)
  takes := h.takes
  alike hLost := absurd rfl hLost
  quiet _ := h.quiet

/-- What is read from the stretch on is added to what was read before. -/
theorem Arrives.trans {more copies : List Node} {reached : Stage} {later later' : Cursor}
    (h : W.Arrives first origin depth read others cursor twin)
    (h' : W.Tracks .before cursor 0 more copies reached later later') :
    W.Tracks first origin depth (read ++ more) (others ++ copies) reached later later' where
  meets := h'.meets
  leads := h.leads.trans h'.leads
  takes := by
    obtain ⟨taken, hTaken, hBrackets⟩ := h.takes
    obtain ⟨further, hFurther, hLevel⟩ := h'.takes
    exact ⟨taken ++ further, by rw [hTaken, hFurther, List.append_assoc],
      hBrackets.append (hLevel.inside depth)⟩
  alike hReached := List.rel_append h.alike (h'.alike hReached)
  quiet hReached := h.quiet.append (h'.quiet hReached)

/-- Moving past a text that has to be there, which may lead to the stretch. -/
theorem Tracks.expect_to {text : String}
    (h : W.Tracks first origin depth read others stage cursor twin)
    (hBrackets : ∀ lexeme : Lexeme, lexeme.IsTidy → lexeme.is text = true →
      Grammar.Bracketed depth deeper [lexeme]) :
    Mimics stage (Production.expect text) (Production.expect text) context other cursor twin
      fun reached _ _ later later' => reached = stage ∧ later.rest.length < cursor.rest.length ∧
        (W.Tracks first origin deeper read others reached later later' ∨
          reached = .before ∧ W.Arrives first origin deeper read others later later' ∧
            ∃ mark ∈ W.front.getLast?, mark.is text = true) := by
  have hBump : cursor.atText text = true →
      Mimics stage Production.bump Production.bump context other cursor twin
        fun reached _ _ later later' => reached = stage ∧
          later.rest.length < cursor.rest.length ∧
          (W.Tracks first origin deeper read others reached later later' ∨
            reached = .before ∧ W.Arrives first origin deeper read others later later' ∧
              ∃ mark ∈ W.front.getLast?, mark.is text = true) := by
    intro hText
    obtain ⟨lexeme, rest, hRest, hIs⟩ := Cursor.exists_cons_of_atText hText
    have hTidy := h.meets.tidy lexeme (hRest ▸ List.mem_cons_self)
    have hTakes : ∃ taken, origin.rest = taken ++ cursor.past.rest ∧
        Grammar.Bracketed 0 deeper taken := by
      obtain ⟨taken, hTaken, hLevel⟩ := h.takes
      refine ⟨taken ++ [lexeme], ?_, hLevel.append (hBrackets lexeme hTidy hIs)⟩
      rw [hTaken, Cursor.past_of_cons hRest, hRest, List.append_assoc]
      rfl
    have hLess : cursor.past.rest.length < cursor.rest.length := by
      rw [Cursor.past_of_cons hRest, hRest]
      exact Nat.lt_succ_self _
    rintro _ _ ⟨⟩
    refine ⟨stage, (), twin.past, ⟨rfl, hLess, ?_⟩, fun hStage => ⟨hStage, rfl⟩⟩
    obtain hMeets | ⟨rfl, hEdge, mark, hMark, hHead⟩ := h.meets.past
    · exact .inl { h with meets := hMeets, takes := hTakes }
    · obtain rfl : lexeme = mark := by simpa [hRest] using hHead
      exact .inr ⟨rfl, ⟨hEdge, h.leads, hTakes, h.alike (by decide), h.quiet (by decide)⟩, lexeme,
        hMark, hIs⟩
  have hEat : Mimics stage (Production.eat text) (Production.eat text) context other cursor twin
      fun reached found found' later later' => found' = found ∧ (found = true → reached = stage ∧
        later.rest.length < cursor.rest.length ∧
        (W.Tracks first origin deeper read others reached later later' ∨
          reached = .before ∧ W.Arrives first origin deeper read others later later' ∧
            ∃ mark ∈ W.front.getLast?, mark.is text = true)) := by
    refine .get_bind (.ite (h.atText text) (fun hText => ?_) fun _ => .pure ⟨rfl, nofun⟩)
    exact (hBump hText).bind fun _ _ _ _ _ h => .pure ⟨rfl, fun _ => h⟩
  refine hEat.bind ?_
  rintro _ found _ _ _ ⟨rfl, hFound⟩
  exact .ite (fun _ => Iff.rfl) (fun h => .pure (hFound h)) fun _ => .unexpected

theorem atText_of_expect {text : String} {result : Unit × Cursor}
    (h : (Production.expect text : Production Unit) context cursor = .ok result) :
    cursor.atText text = true := by
  by_contra hText
  have hMissing : (Production.expect text : Production Unit) context cursor =
      (unexpected : Production _) context cursor := by
    change ((Production.eat text : Production Bool) context cursor >>= _) = _
    have hEat : (Production.eat text : Production Bool) context cursor = .ok (false, cursor) := by
      change (if cursor.atText text = true then _ else _ : Production Bool) context cursor = _
      rw [if_neg hText]
      rfl
    rw [hEat]
    rfl
  rw [hMissing] at h
  have hNever : Yields Production.unexpected context cursor fun (_ : Unit) _ => False :=
    .unexpected
  exact hNever result.1 result.2 h

/-- A member is read up to the end of the object or up to a comma. -/
theorem atText_of_comma {α : Type} (next : Unit → Production α) {result : α × Cursor}
    (h : (do
      unless (← get).atText "\x7d" do Production.expect ","
      next () : Production α) context cursor = .ok result) :
    cursor.atText "\x7d" = true ∨ cursor.atText "," = true := by
  by_cases hText : cursor.atText "\x7d" = true
  · exact .inl hText
  · change (if cursor.atText "\x7d" = true then _ else _ : Production α) context cursor = _ at h
    rw [if_neg hText] at h
    obtain ⟨_, hExpect, -⟩ := exists_of_bind_eq_ok h
    exact .inr (atText_of_expect hExpect)

/-- What is read before the stretch or behind it is not the property. -/
theorem Meets.ne_property {later : Cursor} (hFair : W.IsFair) (h : W.Meets stage cursor twin)
    (hPast : stage = .lost → cursor.rest.length < W.tail.length)
    (hSpans : node.Spans cursor later) (hCurrent : ∃ token, cursor.current? = some token) :
    node ∉ W.property? := by
  intro hProperty
  obtain ⟨token, hToken⟩ := hCurrent
  obtain ⟨⟨head, hHead, hStart⟩, -⟩ := (hFair.property node hProperty).2
  have hSame : token.span.start = head.span.start := by rw [hStart, hSpans.1 token hToken]
  obtain ⟨lexeme, hLexeme, rfl⟩ := Option.map_eq_some_iff.mp hToken
  obtain ⟨rest, hRest⟩ := List.head?_eq_some_iff.mp hLexeme
  obtain ⟨start, hOut, rfl⟩ : ∃ start, W.out.head? = some start ∧ start.token = head := by
    simpa using hHead
  obtain ⟨out, hOut⟩ := List.head?_eq_some_iff.mp hOut
  -- a token between two places of the stretch lies behind the first token of the stretch
  have hBehind : ∀ front : List Lexeme, front ≠ [] → W.tail = front ++ cursor.rest → False := by
    intro front hFront hTail
    obtain ⟨first, front, rfl⟩ := List.exists_cons_of_ne_nil hFront
    have hFirst : start = first := by
      rw [Exchange.tail, hOut] at hTail
      exact (List.cons.inj hTail).1
    subst hFirst
    have hOrder := hFair.inOrder
    rw [hTail, hRest] at hOrder
    simp only [List.map_append, List.map_cons, List.cons_append] at hOrder
    rw [← List.cons_append] at hOrder
    have hStop := hOrder.stop_le_start List.mem_cons_self List.mem_cons_self
    have hNonempty := hOrder.nonempty start.token (by simp)
    omega
  cases stage with
  | before =>
      obtain ⟨lexemes, others, hAhead, hOld, -⟩ := h.place
      have hOrder := h.inOrder
      obtain ⟨first, second, front, copies, rfl, -, -, -⟩ := hAhead.exists_cons
      obtain ⟨rfl, -⟩ := List.cons.inj (hRest.symm.trans hOld)
      rw [Cursor.tokens, hOld, Exchange.tail, hOut] at hOrder
      simp only [List.map_append, List.map_cons, List.cons_append] at hOrder
      rw [← List.cons_append] at hOrder
      have hStop := hOrder.stop_le_start List.mem_cons_self List.mem_cons_self
      have hNonempty := hOrder.nonempty lexeme.token (by simp)
      omega
  | after =>
      obtain ⟨front, hFront⟩ := h.place.behind
      refine hBehind (W.out ++ front) (by simp [hOut]) ?_
      rw [Exchange.tail, List.append_assoc, hFront]
  | lost =>
      obtain ⟨front, hFront⟩ := h.place
      refine hBehind front ?_ hFront.symm
      rintro rfl
      have hLess := hPast rfl
      rw [← hFront] at hLess
      exact Nat.lt_irrefl _ hLess

/-- A property that ends where the stretch ends leaves what stands behind the stretch. -/
theorem rest_eq_back {later : Cursor} (hFair : W.IsFair) (hRest : cursor.rest = W.tail)
    (hProperty : node ∈ W.property?) (hReads : Reads true cursor [node] later)
    (hSpans : node.Spans cursor later) (hTaken : ∃ taken, cursor.rest = taken ++ later.rest) :
    later.rest = W.back := by
  obtain ⟨taken, hTaken⟩ := hTaken
  obtain ⟨tokens, hTokens, hTakes⟩ := hReads.takes
  obtain ⟨last, hLast, hStop⟩ := (hFair.property node hProperty).2.last
  have hMap : tokens = taken.map Lexeme.token := by
    have hEq := hTakes.tokens_eq
    rw [Cursor.tokens, Cursor.tokens, hTaken, List.map_append] at hEq
    exact (List.append_cancel_right hEq).symm
  have hEnd : tokens.getLast? = some (tokens.getLast (hTokens rfl)) :=
    List.getLast?_eq_some_getLast _
  have hSame : (tokens.getLast (hTokens rfl)).span.stop = last.span.stop := by
    have hPrevious := hTakes.previousEnd_eq
    rw [hEnd] at hPrevious
    rw [hStop, hSpans.2, hPrevious]
    rfl
  have hSplit : tokens ++ later.rest.map Lexeme.token =
      W.out.map Lexeme.token ++ W.back.map Lexeme.token := by
    rw [hMap, ← List.map_append, ← List.map_append, ← hTaken, hRest]
    rfl
  have hOrder := hFair.inOrder
  rw [Exchange.tail, List.map_append] at hOrder
  have hLe := (hSplit ▸ hOrder).length_le hSplit hEnd hLast hSame
  have hGe := hOrder.length_le hSplit.symm hLast hEnd hSame.symm
  rw [hMap, List.length_map, List.length_map] at hLe hGe
  exact (List.append_inj (hTaken.symm.trans hRest) (by omega)).2

/-- At the start of the stretch the property is read, and one that it becomes is read off the new
text, or the new text is lost. -/
theorem Mirrored.property_bind {α : Type} {next another : Node → Production α}
    {property : Stage → α → α → Cursor → Cursor → Prop} (hG : W.Mirrored G H)
    (hFits : W.Fits context other) (hEdge : W.AtEdge cursor twin)
    (hMark : ∃ mark ∈ W.front.getLast?, mark.is "\x7b" = true ∨ mark.is "," = true)
    (hCloses : ∀ node later final value, next node context later = .ok (value, final) →
      later.atText "\x7d" = true ∨ later.atText "," = true)
    (hNext : ∀ reached node node' later later',
      W.Tracks .before cursor 0 [node] [node'] reached later later' →
      reached = .after ∧ W.Becomes node node' ∨ reached = .lost ∧ node ∉ W.property? →
      Mimics reached (next node) (another node') context other later later' property) :
    Mimics .before (Grammar.property G >>= next) (Grammar.property H >>= another) context other
      cursor twin property := by
  intro value final hRun
  obtain ⟨⟨node, later⟩, hNode, hRest⟩ := exists_of_bind_eq_ok hRun
  obtain ⟨reached, node', later', hTracks, -⟩ :=
    hG.property context other .lost cursor twin hFits hEdge.lost node later hNode
  obtain rfl : reached = .lost := hTracks.leads (by decide)
  by_cases hProperty : W.property? = some node
  · obtain ⟨hReads, hSpans⟩ := hG.reads.property context cursor hEdge.inOrder node later hNode
    obtain ⟨taken, hTaken, -⟩ := hTracks.takes
    have hBack := rest_eq_back hG.fair hEdge.rest_eq hProperty hReads hSpans ⟨taken, hTaken⟩
    obtain ⟨copy, end', hCopy, hBecomes, hMeets⟩ := hG.rereads context other cursor twin node later
      hFits hEdge hMark hProperty hNode hBack (hCloses node later final value hRest)
    have hTracks' : W.Tracks .before cursor 0 [node] [copy] .after later end' :=
      ⟨hMeets, Stage.leads_of_eq_before rfl, hTracks.takes,
        fun _ => .cons (.changed ⟨hProperty, hBecomes⟩) .nil, fun hNot => absurd rfl hNot⟩
    obtain ⟨last, value', final', hLast, hSecond⟩ :=
      hNext .after node copy later end' hTracks' (.inl ⟨rfl, hProperty, hBecomes⟩) value final hRest
    refine ⟨last, value', final', hLast, fun hNot => ⟨by decide, ?_⟩⟩
    change (Grammar.property H other twin >>= _) = _
    rw [hCopy]
    exact (hSecond hNot).2
  · have hTracks' : W.Tracks .before cursor 0 [node] [node'] .lost later later' :=
      { hTracks with leads := Stage.leads_of_eq_before rfl }
    obtain ⟨last, value', final', hLast, hSecond⟩ :=
      hNext .lost node node' later later' hTracks' (.inr ⟨rfl, hProperty⟩) value final hRest
    exact ⟨last, value', final', hLast, fun hNot => absurd rfl (hSecond hNot).1⟩

theorem yields_spreadElement_kind :
    Yields (spreadElement G) context cursor fun node _ => node.kind = .spreadElement :=
  .bind (fun _ _ _ => trivial) fun _ _ _ => .bind (fun _ _ _ => trivial) fun _ _ _ =>
    .bind (fun _ _ _ => trivial) fun _ _ _ => .bind (fun _ _ _ => trivial) fun _ _ _ =>
      .get_bind (.store (by rintro _ rfl; rfl))

/-- What is known of the members of an object: the property is not among them unless the stretch is
passed, and if it is, it has become another one. -/
structure Members (W : Exchange) (stage : Stage) (seen others : List Node) : Prop where
  quiet : stage ≠ .after → ∀ node ∈ seen, node ∉ W.property?
  settles : stage ≠ .lost → List.Forall₂ (Settles W.Becomes) seen others

namespace Members

variable {seen : List Node} {reached : Stage}

theorem nil : W.Members stage [] [] := ⟨by simp, fun _ => .nil⟩

theorem leads (h : W.Members stage seen others) (hLeads : stage.Leads reached) :
    W.Members reached seen others :=
  ⟨fun hReached => h.quiet (hLeads.ne_after hReached),
    fun hReached => h.settles (hLeads.ne_lost hReached)⟩

theorem concat (h : W.Members stage seen others) (hNode : node ∉ W.property?) :
    W.Members stage (seen ++ [node]) (others ++ [node']) where
  quiet hStage := List.forall_mem_append.mpr ⟨h.quiet hStage, by simpa using hNode⟩
  settles hStage := List.rel_append (h.settles hStage)
    (.cons (fun ⟨_, hBecomes⟩ => absurd hBecomes.1 hNode) .nil)

theorem concat_becomes (h : W.Members .before seen others) (hNode : W.Becomes node node') :
    W.Members .after (seen ++ [node]) (others ++ [node']) where
  quiet hStage := absurd rfl hStage
  settles _ := List.rel_append (h.settles (by decide)) (.cons (fun _ => hNode) .nil)

theorem settlesObject (h : W.Members stage seen others) :
    W.SettlesObject stage [(.properties, .nodes seen)] [(.properties, .nodes others)] where
  quiet hStage property hProperty hFilled :=
    h.quiet hStage property (by simpa using hFilled) hProperty
  settles hStage := by simpa using h.settles hStage

end Members

/-- The members of an object that were read so far. The last comma may have led to the stretch. -/
inductive InObject (W : Exchange) (first : Stage) (origin : Cursor) :
    Stage → List Node → List Node → Cursor → Cursor → Prop
  | inside {stage : Stage} {seen others : List Node} {cursor twin : Cursor}
      (h : W.Tracks first origin 1 seen others stage cursor twin)
      (hMembers : W.Members stage seen others)
      (hPast : stage = .lost → cursor.atText "\x7d" = true ∨
        cursor.rest.length < W.tail.length) : InObject W first origin stage seen others cursor twin
  | edge {seen others : List Node} {cursor twin : Cursor}
      (h : W.Arrives first origin 1 seen others cursor twin)
      (hMark : ∃ mark ∈ W.front.getLast?, mark.is "\x7b" = true ∨ mark.is "," = true)
      (hMembers : W.Members .before seen others) :
      InObject W first origin .before seen others cursor twin

namespace InObject

variable {seen : List Node}

theorem abreast (h : W.InObject first origin stage seen others cursor twin) :
    W.Abreast stage cursor twin := by
  cases h with
  | inside h => exact h.meets.abreast
  | edge h =>
      intro _
      rw [h.edge.rest_eq, h.edge.twin_rest_eq]
      exact .inl ⟨Nat.le_refl _, Nat.add_comm _ _⟩

/-- The comma behind a member, or the end of the object. -/
theorem comma (h : W.Tracks first origin 1 seen others stage cursor twin)
    (hMembers : W.Members stage seen others) :
    Mimics stage
      (do
        unless (← get).atText "\x7d" do expect ","
        return Turn.again (β := List Node) seen)
      (do
        unless (← get).atText "\x7d" do expect ","
        return Turn.again (β := List Node) others) context other cursor twin
      (Both (W.InObject first origin) fun reached result result' later later' =>
        W.Tracks first origin 1 result result' reached later later' ∧
          W.Members reached result result') := by
  refine h.get_bind fun twin h hLooks => .ite (fun _ => hLooks.atText_iff _) (fun hText => ?_)
    fun _ => ?_
  · exact .pure (.again (.inside h hMembers fun _ => .inl hText))
  · refine (h.expect_to fun lexeme _ => Tracks.bracketed_of_flat (by decide) lexeme).bind ?_
    rintro reached _ _ later later' ⟨rfl, hLess, hLater | ⟨rfl, hLater, mark, hMark, hIs⟩⟩
    · refine .pure (.again (.inside hLater hMembers fun hLost => .inr ?_))
      subst hLost
      exact Nat.lt_of_lt_of_le hLess h.meets.place.length_le
    · exact .pure (.again (.edge hLater ⟨mark, hMark, .inr hIs⟩ hMembers))

end InObject

namespace Mirrored

variable {seen : List Node}

/-- A member that is known not to be the property. -/
theorem member (hG : W.Mirrored G H) (hFits : W.Fits context other)
    (h : W.Tracks first origin 1 seen others stage cursor twin)
    (hMembers : W.Members stage seen others)
    (hOther : cursor.atText "\x7d" = false → cursor.atText "..." = false →
      ∀ node later, node.Spans cursor later → (∃ token, cursor.current? = some token) →
        node ∉ W.property?) :
    Mimics stage (Grammar.objectTurn G seen) (Grammar.objectTurn H others) context other cursor
      twin (Both (W.InObject first origin) fun reached result result' later later' =>
        W.Tracks first origin 1 result result' reached later later' ∧
          W.Members reached result result') := by
  refine h.get_bind fun twin h hLooks =>
    .ite (fun _ => hLooks.atText_iff _) (fun _ => .pure (.done ⟨h, hMembers⟩)) fun hClosed => ?_
  have hMember : ∀ {production copy : Production Node}, W.MirrorsNode production copy →
      Yields production context cursor (fun node _ => node ∉ W.property?) →
      Mimics stage production copy context other cursor twin
        fun reached node node' later later' =>
          W.Tracks first origin 1 (seen ++ [node]) (others ++ [node']) reached later later' ∧
            W.Members reached (seen ++ [node]) (others ++ [node']) := fun hProduction hYields =>
    ((hProduction context other stage cursor twin hFits h.meets).and_yields hYields).imp
      fun _ _ _ _ _ ⟨hNode, hNot⟩ => ⟨h.trans hNode, (hMembers.leads hNode.leads).concat hNot⟩
  have hSpread : Mimics stage
      (do
        Production.require .objectSpread (← startOffset)
        Grammar.spreadElement G)
      (do
        Production.require .objectSpread (← startOffset)
        Grammar.spreadElement H) context other cursor twin
      fun reached node node' later later' =>
        W.Tracks first origin 1 (seen ++ [node]) (others ++ [node']) reached later later' ∧
          W.Members reached (seen ++ [node]) (others ++ [node']) := by
    refine .startOffset_bind hFits h.meets fun _ _ _ => .require_bind hFits ?_
    refine hMember hG.spreadElement (yields_spreadElement_kind.imp fun node _ hKind hNode => ?_)
    rw [(hG.fair.property node hNode).1] at hKind
    cases hKind
  refine .get_bind (.either_three (fun _ => hLooks.atText_iff _) (fun _ => hSpread)
    (fun hRest => hMember hG.property ?_) fun _ _ _ _ _ h => InObject.comma h.1 h.2)
  refine (hG.reads.property context cursor h.meets.inOrder).imp fun node later hNode => ?_
  exact hOther (by simpa using hClosed) (by simpa using hRest) node later hNode.2
    hNode.1.exists_current

theorem objectTurn (hG : W.Mirrored G H) (hFits : W.Fits context other)
    (h : W.InObject first origin stage seen others cursor twin) :
    Mimics stage (Grammar.objectTurn G seen) (Grammar.objectTurn H others) context other cursor
      twin (Both (W.InObject first origin) fun reached result result' later later' =>
        W.Tracks first origin 1 result result' reached later later' ∧
          W.Members reached result result') := by
  cases h with
  | inside h hMembers hPast =>
      refine hG.member hFits h hMembers fun hClosed _ node later => ?_
      exact h.meets.ne_property hG.fair fun hLost => (hPast hLost).resolve_left (by simp [hClosed])
  | edge h hMark hMembers =>
      have hLost : W.Members .lost seen others := hMembers.leads (Stage.leads_of_eq_before rfl)
      by_cases hRead : cursor.atText "\x7d" = false ∧ cursor.atText "..." = false ∧
        W.property?.isSome = true
      · obtain ⟨hClosed, hRest, hSome⟩ := hRead
        obtain ⟨lexeme, into, hInto⟩ := List.exists_cons_of_ne_nil hG.fair.into_ne_nil
        have hOld : ∀ lexeme ∈ W.tail.head?,
            lexeme.is "\x7d" = false ∧ lexeme.is "..." = false := by
          intro first hFirst
          obtain ⟨rest, hTail⟩ := List.head?_eq_some_iff.mp hFirst
          have hText : ∀ text, cursor.atText text = first.is text := fun text => by
            rw [Cursor.atText, Cursor.peekIs, h.edge.rest_eq, hTail]
            rfl
          rw [← hText, ← hText]
          exact ⟨hClosed, hRest⟩
        have hIs := hG.fair.into_is_eq_false hSome hOld lexeme (by rw [hInto]; rfl)
        have hTwin : ∀ text, twin.atText text = lexeme.is text := fun text => by
          rw [Cursor.atText, Cursor.peekIs, h.edge.twin_rest_eq, newTail, hInto]
          rfl
        refine .get_bind ?_
        rw [if_neg (by simp [hClosed]), if_neg (by simp [hTwin, hIs.1])]
        refine .get_bind ?_
        rw [if_neg (by simp [hRest]), if_neg (by simp [hTwin, hIs.2])]
        refine hG.property_bind hFits h.edge hMark (fun node later final value hRun => ?_)
          fun reached node node' later later' hNode hCase => ?_
        · exact atText_of_comma (fun _ => pure (Turn.again (seen ++ [node]))) hRun
        · refine InObject.comma (h.trans hNode) ?_
          obtain ⟨rfl, hBecomes⟩ | ⟨rfl, hNot⟩ := hCase
          · exact hMembers.concat_becomes hBecomes
          · exact hLost.concat hNot
      · refine .lose (hG.member hFits (h.lost twin) hLost fun hClosed hRest node _ _ _ hNode => ?_)
        exact hRead ⟨hClosed, hRest, by rw [Option.mem_def.mp hNode]; rfl⟩

theorem objectLiteral (hG : W.Mirrored G H) :
    W.MirrorsNode (objectLiteral G) (objectLiteral H) := by
  intro context other stage cursor twin hFits hMeets
  refine .startOffset_bind hFits hMeets fun start start' hStart => ?_
  have hOpening : ∀ lexeme : Lexeme, lexeme.IsTidy → lexeme.is "\x7b" = true →
      Grammar.Bracketed 0 1 [lexeme] := fun lexeme hTidy hIs => by
    obtain ⟨hKind, hEq⟩ := hTidy "\x7b" (by decide) hIs
    exact Grammar.bracketed_opening hKind (by rw [hEq]; decide)
  refine ((Tracks.refl hMeets).expect_to hOpening).bind ?_
  rintro reached _ _ later later' ⟨rfl, hLess, hLater⟩
  obtain ⟨_, hAdvances⟩ := hG.advances
  have hConsumes := consumes_of_rounds fun limit => (hAdvances (limit + 1)).objectTurn
  have h : W.InObject reached cursor reached [] [] later later' := by
    obtain hLater | ⟨rfl, hLater, mark, hMark, hIs⟩ := hLater
    · refine .inside hLater .nil fun hLost => .inr ?_
      subst hLost
      exact Nat.lt_of_lt_of_le hLess hMeets.place.length_le
    · exact .edge hLater ⟨mark, hMark, .inl hIs⟩ .nil
  refine (Mimics.iterate hG.fair hConsumes (W.InObject reached cursor) _ h
    (fun _ _ _ _ _ h => h.abreast) fun _ _ _ _ _ h => hG.objectTurn hFits h).bind ?_
  rintro _ properties properties' _ _ ⟨h, hMembers⟩
  have hClosing : ∀ lexeme : Lexeme, lexeme.IsTidy → lexeme.is "\x7d" = true →
      Grammar.Bracketed 1 0 [lexeme] := fun lexeme hTidy hIs => by
    obtain ⟨hKind, hEq⟩ := hTidy "\x7d" (by decide) hIs
    exact Grammar.bracketed_closing hKind (by rw [hEq]; decide)
  refine (h.expect_to hClosing).bind ?_
  rintro _ _ _ later later' ⟨rfl, -, hLater⟩
  have hFinish : ∀ {stage : Stage} {context other : Context} {later later' : Cursor},
      W.Tracks reached cursor 0 properties properties' stage later later' →
      W.Members stage properties properties' →
      Mimics stage (finish .objectExpression start [(.properties, .nodes properties)])
        (finish .objectExpression start' [(.properties, .nodes properties')]) context other later
        later' fun reached' node node' later later' =>
          W.Tracks reached cursor 0 [node] [node'] reached' later later' := fun h hMembers =>
    h.finish hG.fair hStart (fun _ h => by simpa using h) (by simp)
      fun _ => hMembers.settlesObject
  obtain hLater | ⟨rfl, hLater, -⟩ := hLater
  · exact hFinish hLater hMembers
  · have hLost : Mimics .lost _ _ context other later later' _ :=
      hFinish (hLater.lost later') (hMembers.leads (Stage.leads_of_eq_before rfl))
    exact hLost.lose

end Mirrored
end Exchange

end

namespace Production

variable {α β : Type} {context : Context} {cursor between later : Cursor} {text : String}

theorem bind_eq_ok {first : Production β} {next : β → Production α} {value : β} {result : α}
    (h : first context cursor = .ok (value, between))
    (hNext : next value context between = .ok (result, later)) :
    (first >>= next) context cursor = .ok (result, later) := by
  change (first context cursor >>= fun found => next found.1 context found.2) = _
  rw [h]
  exact hNext

theorem exists_of_run {first : Production β} {next : β → Production α} {result : α}
    (h : (first >>= next) context cursor = .ok (result, later)) :
    ∃ value between, first context cursor = .ok (value, between) ∧
      next value context between = .ok (result, later) := by
  obtain ⟨⟨value, between⟩, hFirst, hNext⟩ := exists_of_bind_eq_ok h
  exact ⟨value, between, hFirst, hNext⟩

/-- Productions look at the current cursor. -/
theorem get_bind_eq (next : Cursor → Production α) :
    (get >>= next) context cursor = next cursor context cursor := rfl

theorem bump_eq : (bump : Production Unit) context cursor = .ok ((), cursor.past) := rfl

theorem eat_of_atText (h : cursor.atText text = true) :
    (eat text : Production Bool) context cursor = .ok (true, cursor.past) := by
  change (if cursor.atText text = true then _ else _ : Production Bool) context cursor = _
  rw [if_pos h]
  rfl

theorem eat_of_not_atText (h : cursor.atText text = false) :
    (eat text : Production Bool) context cursor = .ok (false, cursor) := by
  change (if cursor.atText text = true then _ else _ : Production Bool) context cursor = _
  rw [if_neg (by simp [h])]
  rfl

theorem expect_of_atText (h : cursor.atText text = true) :
    (expect text : Production Unit) context cursor = .ok ((), cursor.past) :=
  bind_eq_ok (eat_of_atText h) rfl

theorem eq_past_of_expect (h : (expect text : Production Unit) context cursor = .ok ((), later)) :
    cursor.atText text = true ∧ later = cursor.past := by
  have hText := Exchange.atText_of_expect h
  rw [expect_of_atText hText] at h
  cases h
  exact ⟨hText, rfl⟩

theorem require_of_le {feature : Feature} {offset : Nat} (h : feature.since ≤ context.year) :
    (require feature offset : Production Unit) context cursor = .ok ((), cursor) := by
  change (if feature.since ≤ context.year then _ else _ : Production Unit) context cursor = _
  rw [if_pos h]
  rfl

theorem since_le_of_require {feature : Feature} {offset : Nat} {result : Unit}
    (h : (require feature offset : Production Unit) context cursor = .ok (result, later)) :
    feature.since ≤ context.year ∧ cursor = later := by
  change (if feature.since ≤ context.year then _ else _ : Production Unit) context cursor = _ at h
  split at h
  case isTrue hSince =>
    cases h
    exact ⟨hSince, rfl⟩
  case isFalse => cases h

theorem store_eq (kind : NodeKind) (span : Span) (fields : List (FieldName × FieldValue)) :
    (store kind span fields : Production Node) context cursor =
      .ok (.mk cursor.arena.size kind span fields,
        { cursor with arena :=
            cursor.arena.push (Node.mk cursor.arena.size kind span fields).cell }) := rfl

theorem finish_eq (kind : NodeKind) (start : Nat) (fields : List (FieldName × FieldValue)) :
    (finish kind start fields : Production Node) context cursor =
      .ok (.mk cursor.arena.size kind ⟨start, max cursor.previousEnd start⟩ fields,
        { cursor with arena := cursor.arena.push (Node.mk cursor.arena.size kind
            ⟨start, max cursor.previousEnd start⟩ fields).cell }) := rfl

theorem startOffset_eq : (startOffset : Production Nat) context cursor =
    .ok ((cursor.current?.map fun token => token.span.start).getD context.size, cursor) := rfl

theorem identifierName_of_isWord {token : Token} (hToken : cursor.current? = some token)
    (h : token.isWord = true) : (identifierName : Production Node) context cursor =
      (do
        bump
        store .identifier token.span [(.ident, .text token.text)] : Production Node)
        context cursor := by
  unfold identifierName
  rw [get_bind_eq, hToken]
  simp only [h, if_true]

theorem isWord_of_identifierName {token : Token} {node : Node}
    (hToken : cursor.current? = some token)
    (h : (identifierName : Production Node) context cursor = .ok (node, later)) :
    token.isWord = true := by
  by_contra hNot
  have hUnexpected : (identifierName : Production Node) context cursor =
      (unexpected : Production _) context cursor := by
    unfold identifierName
    rw [get_bind_eq, hToken]
    simp only [hNot, if_false]
  have hNever : Yields unexpected context cursor fun (_ : Node) _ => False := .unexpected
  exact hNever _ _ (hUnexpected ▸ h)

end Production

end EcmaLint
