import EcmaLint.Proofs.Exchange.Basic

/-! What is seen from before the stretch. A search for the end of what may be parameters ends before
the stretch, or it passes over it with the brackets that are open. So the same is found in both
texts if the two stretches close what they open. -/
namespace EcmaLint

namespace Grammar

/-- How many brackets are open behind some lexemes where a number of them was open before, unless
the last open one is closed on the way. -/
def levelAfter? : Nat → List Lexeme → Option Nat
  | depth, [] => some depth
  | depth, lexeme :: rest =>
      if lexeme.token.kind != .punctuator then levelAfter? depth rest
      else if ["(", "[", "\x7b"].contains lexeme.token.text then levelAfter? (depth + 1) rest
      else if [")", "]", "\x7d"].contains lexeme.token.text then
        if depth ≤ 1 then none else levelAfter? (depth - 1) rest
      else levelAfter? depth rest

variable {depth deeper : Nat} {lexeme : Lexeme} {lexemes more rest : List Lexeme}

theorem afterClosing_of_levelAfter? (h : levelAfter? depth lexemes = some deeper)
    (rest : List Lexeme) : afterClosing depth (lexemes ++ rest) = afterClosing deeper rest := by
  fun_induction levelAfter? depth lexemes with
  | case1 => cases h; rfl
  | case2 _ _ _ hKind ih => rw [List.cons_append, afterClosing, if_pos hKind, ih h]
  | case3 _ _ _ hKind hOpening ih =>
      rw [List.cons_append, afterClosing, if_neg hKind, if_pos hOpening, ih h]
  | case4 => cases h
  | case5 _ _ _ hKind hOpening hClosing hDepth ih =>
      rw [List.cons_append, afterClosing, if_neg hKind, if_neg hOpening, if_pos hClosing,
        if_neg hDepth, ih h]
  | case6 _ _ _ hKind hOpening hClosing ih =>
      rw [List.cons_append, afterClosing, if_neg hKind, if_neg hOpening, if_neg hClosing, ih h]

/-- Where the last open bracket is closed on the way, nothing behind counts. -/
theorem afterClosing_append_of_eq_none (h : levelAfter? depth lexemes = none)
    (rest : List Lexeme) :
    afterClosing depth (lexemes ++ rest) = (afterClosing depth lexemes).map (· ++ rest) := by
  fun_induction levelAfter? depth lexemes with
  | case1 => cases h
  | case2 _ _ _ hKind ih =>
      rw [List.cons_append, afterClosing, if_pos hKind, ih h, afterClosing, if_pos hKind]
  | case3 _ _ _ hKind hOpening ih =>
      rw [List.cons_append, afterClosing, if_neg hKind, if_pos hOpening, ih h, afterClosing,
        if_neg hKind, if_pos hOpening]
  | case4 depth _ _ hKind hOpening hClosing hDepth =>
      rw [List.cons_append, afterClosing, if_neg hKind, if_neg hOpening, if_pos hClosing,
        if_pos hDepth, afterClosing, if_neg hKind, if_neg hOpening, if_pos hClosing, if_pos hDepth]
      split <;> rfl
  | case5 _ _ _ hKind hOpening hClosing hDepth ih =>
      rw [List.cons_append, afterClosing, if_neg hKind, if_neg hOpening, if_pos hClosing,
        if_neg hDepth, ih h, afterClosing, if_neg hKind, if_neg hOpening, if_pos hClosing,
        if_neg hDepth]
  | case6 _ _ _ hKind hOpening hClosing ih =>
      rw [List.cons_append, afterClosing, if_neg hKind, if_neg hOpening, if_neg hClosing, ih h,
        afterClosing, if_neg hKind, if_neg hOpening, if_neg hClosing]

theorem levelAfter?_append : levelAfter? depth (lexemes ++ more) =
    (levelAfter? depth lexemes).bind fun deeper => levelAfter? deeper more := by
  fun_induction levelAfter? depth lexemes with
  | case1 => rfl
  | case2 _ _ _ hKind ih => rw [List.cons_append, levelAfter?, if_pos hKind, ih]
  | case3 _ _ _ hKind hOpening ih =>
      rw [List.cons_append, levelAfter?, if_neg hKind, if_pos hOpening, ih]
  | case4 _ _ _ hKind hOpening hClosing hDepth =>
      rw [List.cons_append, levelAfter?, if_neg hKind, if_neg hOpening, if_pos hClosing,
        if_pos hDepth]
      rfl
  | case5 _ _ _ hKind hOpening hClosing hDepth ih =>
      rw [List.cons_append, levelAfter?, if_neg hKind, if_neg hOpening, if_pos hClosing,
        if_neg hDepth, ih]
  | case6 _ _ _ hKind hOpening hClosing ih =>
      rw [List.cons_append, levelAfter?, if_neg hKind, if_neg hOpening, if_neg hClosing, ih]

/-- More brackets may be open on the outside. -/
theorem levelAfter?_add (h : levelAfter? depth lexemes = some deeper) (outer : Nat) :
    levelAfter? (depth + outer) lexemes = some (deeper + outer) := by
  fun_induction levelAfter? depth lexemes with
  | case1 => cases h; rfl
  | case2 _ _ _ hKind ih => rw [levelAfter?, if_pos hKind, ih h]
  | case3 depth _ _ hKind hOpening ih =>
      rw [levelAfter?, if_neg hKind, if_pos hOpening, Nat.add_right_comm, ih h]
  | case4 => cases h
  | case5 depth _ _ hKind hOpening hClosing hDepth ih =>
      rw [levelAfter?, if_neg hKind, if_neg hOpening, if_pos hClosing, if_neg (by omega),
        Nat.sub_add_comm (by omega), ih h]
  | case6 _ _ _ hKind hOpening hClosing ih =>
      rw [levelAfter?, if_neg hKind, if_neg hOpening, if_neg hClosing, ih h]

theorem levelAfter?_pos (h : levelAfter? depth lexemes = some deeper) (hDepth : 0 < depth) :
    0 < deeper := by
  fun_induction levelAfter? depth lexemes with
  | case1 => cases h; exact hDepth
  | case2 _ _ _ _ ih | case6 _ _ _ _ _ _ ih => exact ih h hDepth
  | case3 _ _ _ _ _ ih => exact ih h (Nat.succ_pos _)
  | case4 => cases h
  | case5 _ _ _ _ _ _ _ ih => exact ih h (by omega)

theorem levelAfter?_opening (h : lexeme.token.isPunctuator "(" = true) :
    levelAfter? depth (lexeme :: rest) = levelAfter? (depth + 1) rest := by
  obtain ⟨hKind, hText⟩ := Bool.and_eq_true_iff.mp h
  rw [levelAfter?, if_neg (by simpa using hKind), if_pos (by rw [beq_iff_eq.mp hText]; decide)]

/-- What closes all that it opens leaves one open bracket open. -/
theorem Bracketed.levelAfter?_eq (h : Bracketed 0 0 lexemes) : levelAfter? 1 lexemes = some 1 := by
  let closing : Lexeme := ⟨⟨.punctuator, ⟨0, 0⟩, ")"⟩, false⟩
  have hEnds : afterClosing 1 (lexemes ++ [closing]) = some [] := by
    rw [show 1 = 0 + 1 + 0 from rfl, h]
    rfl
  cases hLevel : levelAfter? 1 lexemes with
  | none =>
      rw [afterClosing_append_of_eq_none hLevel] at hEnds
      simp at hEnds
  | some deeper =>
      rw [afterClosing_of_levelAfter? hLevel] at hEnds
      have hPositive := levelAfter?_pos hLevel Nat.one_pos
      -- with more than one bracket open the search would run on
      have hOne : deeper ≤ 1 := by
        refine Nat.le_of_not_lt fun hMore => ?_
        rw [afterClosing, if_neg (by decide), if_neg (by decide), if_pos (by decide),
          if_neg (by omega), afterClosing] at hEnds
        cases hEnds
      rw [Nat.le_antisymm hOne hPositive]

/-- Inside of what closes all that it opens, a bracket is closed again. -/
theorem levelAfter?_eq_none_of_bracketed (h : Bracketed 0 0 (more ++ lexeme :: rest))
    (hOpening : lexeme.token.isPunctuator "(" = true) :
    levelAfter? 0 (lexeme :: rest) = none := by
  have hAll := h.levelAfter?_eq
  rw [levelAfter?_append] at hAll
  obtain ⟨outer, hOuter, hInner⟩ := Option.bind_eq_some_iff.mp hAll
  have hPositive := levelAfter?_pos hOuter Nat.one_pos
  refine Option.eq_none_iff_forall_ne_some.mpr fun deeper hLevel => ?_
  have hOpened := hLevel
  rw [levelAfter?_opening hOpening] at hOpened
  have hDeeper := levelAfter?_pos hOpened Nat.one_pos
  have hSum := levelAfter?_add hLevel outer
  rw [Nat.zero_add, hInner] at hSum
  have hEq := Option.some.inj hSum
  omega

variable {part copy tail newTail : List Lexeme} {mark mark' : Lexeme}

/-- From what stands before a mark the same arrow is found, if it is found from each parenthesis. -/
theorem arrowFollows_afterArrowParams_eq (hPart : List.Forall₂ Lexeme.Matches part copy)
    (hMatches : mark.Matches mark') (hMark : mark.token.IsMark)
    (hArrow : ∀ lexeme ∈ part.head?, lexeme.token.isPunctuator "(" = true →
      arrowFollows (afterClosing 0 (copy ++ mark' :: newTail)) =
        arrowFollows (afterClosing 0 (part ++ mark :: tail))) :
    arrowFollows (afterArrowParams (copy ++ mark' :: newTail)) =
      arrowFollows (afterArrowParams (part ++ mark :: tail)) := by
  cases hPart with
  | nil =>
      have hWord : (mark.token.kind == .identifier) = false := by
        rw [hMark.1]
        rfl
      have hOpening : mark.token.isPunctuator "(" = false := by
        rw [Token.isPunctuator, hMark.1]
        have hText := hMark.2
        simp only [List.mem_cons, List.not_mem_nil, or_false] at hText
        rcases hText with hText | hText | hText | hText | hText <;> rw [hText] <;> decide
      rw [List.nil_append, List.nil_append, afterArrowParams, afterArrowParams,
        hMatches.kind_eq, hMatches.isPunctuator_eq, hWord, hOpening]
      rfl
  | @cons lexeme other part copy hFirst hRest =>
      rw [List.cons_append, List.cons_append, afterArrowParams, afterArrowParams, hFirst.kind_eq,
        hFirst.isPunctuator_eq]
      split
      · cases hRest with
        | nil =>
            rw [List.nil_append, List.nil_append, arrowFollows, arrowFollows, hMatches.is_eq,
              hMatches.newlineBefore_eq]
        | cons hSecond _ =>
            rw [List.cons_append, List.cons_append, arrowFollows, arrowFollows, hSecond.is_eq,
              hSecond.newlineBefore_eq]
      split
      case isTrue hOpening => exact hArrow lexeme rfl hOpening
      case isFalse => rfl

theorem levelAfter?_eq_of_forall₂ (hPart : List.Forall₂ Lexeme.Matches part copy) :
    levelAfter? depth copy = levelAfter? depth part := by
  induction hPart generalizing depth with
  | nil => rfl
  | cons hFirst _ ih => simp only [levelAfter?, hFirst.kind_eq, hFirst.text_eq, ih]

/-- Where the search from a parenthesis ends before two texts, and not at their very start, it finds
the same in front of both. -/
theorem arrowFollows_afterClosing_eq (hPart : List.Forall₂ Lexeme.Matches part copy)
    (hLevel : levelAfter? depth part = none) (hEnd : afterClosing depth part ≠ some [] ∨
      Option.Rel Lexeme.Matches tail.head? newTail.head?) :
    arrowFollows (afterClosing depth (copy ++ newTail)) =
      arrowFollows (afterClosing depth (part ++ tail)) := by
  have hLevel' : levelAfter? depth copy = none := (levelAfter?_eq_of_forall₂ hPart).trans hLevel
  rw [afterClosing_append_of_eq_none hLevel, afterClosing_append_of_eq_none hLevel']
  have hRel := afterClosing_rel hPart depth
  generalize afterClosing depth part = found, afterClosing depth copy = other at hRel hEnd ⊢
  cases hRel with
  | none => rfl
  | some hFound =>
      cases hFound with
      | cons hFirst _ =>
          rw [Option.map_some, Option.map_some, List.cons_append, List.cons_append, arrowFollows,
            arrowFollows, hFirst.is_eq, hFirst.newlineBefore_eq]
      | nil =>
          have hHeads := hEnd.resolve_left (by simp)
          rw [Option.map_some, Option.map_some, List.nil_append, List.nil_append]
          cases tail <;> cases newTail <;> simp at hHeads
          · rfl
          · rw [arrowFollows, arrowFollows, hHeads.is_eq, hHeads.newlineBefore_eq]

/-- From a parenthesis before two stretches that close what they open, the same is found. -/
theorem arrowFollows_afterClosing_of_bracketed {out into back newBack : List Lexeme}
    (hPart : List.Forall₂ Lexeme.Matches (lexeme :: rest) copy)
    (hOpening : lexeme.token.isPunctuator "(" = true)
    (hMark : mark.token.kind = .punctuator ∧
      (mark.token.text = "\x7b" ∨ mark.token.text = ","))
    (hOut : Bracketed 0 0 out) (hInto : Bracketed 0 0 into)
    (hBack : List.Forall₂ Lexeme.Matches back newBack) :
    arrowFollows (afterClosing 0 (copy ++ mark :: (into ++ newBack))) =
      arrowFollows (afterClosing 0 (lexeme :: rest ++ mark :: (out ++ back))) := by
  cases hLevel : levelAfter? 0 (lexeme :: rest) with
  | none => exact arrowFollows_afterClosing_eq hPart hLevel (.inr (.some ⟨rfl, rfl, rfl⟩))
  | some deeper =>
      have hPositive : 0 < deeper :=
        levelAfter?_pos (levelAfter?_opening hOpening ▸ hLevel) Nat.one_pos
      rw [afterClosing_of_levelAfter? hLevel,
        afterClosing_of_levelAfter? ((levelAfter?_eq_of_forall₂ hPart).trans hLevel)]
      -- the mark opens a bracket more, or none
      obtain ⟨depth, hDepth⟩ : ∃ depth, ∀ rest : List Lexeme,
          afterClosing deeper (mark :: rest) = afterClosing (depth + 1 + 0) rest := by
        rcases hMark with ⟨hKind, hBrace | hComma⟩
        · refine ⟨deeper, fun rest => ?_⟩
          rw [afterClosing, if_neg (by simp [hKind]), if_pos (by rw [hBrace]; decide)]
        · refine ⟨deeper - 1, fun rest => ?_⟩
          rw [afterClosing, if_neg (by simp [hKind]), if_neg (by rw [hComma]; decide),
            if_neg (by rw [hComma]; decide), show deeper = deeper - 1 + 1 + 0 by omega]
          rfl
      rw [hDepth, hDepth, hOut, hInto]
      exact arrowFollows_eq (afterClosing_rel hBack _)

end Grammar

namespace Exchange

open Grammar

variable {part copy tail newTail : List Lexeme} {mark mark' : Lexeme} {cursor other : Cursor}

/-- Two cursors before a mark see the same, if the same arrow is found from each parenthesis. -/
theorem looks_of_mark (hPart : List.Forall₂ Lexeme.Matches part copy)
    (hMatches : mark.Matches mark') (hMark : mark.token.IsMark)
    (hArrow : ∀ before lexeme rest copy, part = before ++ lexeme :: rest →
      lexeme.token.isPunctuator "(" = true → List.Forall₂ Lexeme.Matches (lexeme :: rest) copy →
      arrowFollows (afterClosing 0 (copy ++ mark' :: newTail)) =
        arrowFollows (afterClosing 0 (lexeme :: rest ++ mark :: tail)))
    (hRest : cursor.rest = part ++ mark :: tail)
    (hOther : other.rest = copy ++ mark' :: newTail) : cursor.Looks other := by
  have hFound : ∀ before after copy, part = before ++ after →
      List.Forall₂ Lexeme.Matches after copy →
      arrowFollows (afterArrowParams (copy ++ mark' :: newTail)) =
        arrowFollows (afterArrowParams (after ++ mark :: tail)) := by
    intro before after copy hEq hAfter
    refine arrowFollows_afterArrowParams_eq hAfter hMatches hMark fun lexeme hHead hOpening => ?_
    obtain ⟨rest, rfl⟩ := List.head?_eq_some_iff.mp hHead
    exact hArrow before lexeme rest copy hEq hOpening hAfter
  have hWhole := hFound [] part copy rfl hPart
  cases hPart with
  | nil =>
      have hCurrent : cursor.current? = some mark.token := by rw [Cursor.current?, hRest]; rfl
      refine ⟨?_, fun hNot => absurd hMark (hNot _ hCurrent), ?_,
        fun hNot => absurd hMark (hNot _ hCurrent)⟩
      · rw [hRest, hOther]
        exact .some hMatches
      · rw [hRest, hOther]
        exact hWhole
  | @cons first second rest more hFirst hMore =>
      refine ⟨?_, fun _ => ?_, ?_, fun _ => ?_⟩
      · rw [hRest, hOther]
        exact .some hFirst
      · rw [hRest, hOther]
        cases hMore with
        | nil => exact .some hMatches
        | cons hSecond _ => exact .some hSecond
      · rw [hRest, hOther]
        exact hWhole
      · rw [hRest, hOther]
        exact hFound [first] rest more rfl hMore

end Exchange

end EcmaLint
