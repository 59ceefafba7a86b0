import Mathlib.Data.List.Basic
import EcmaLint.Proofs.Exchange.Ahead
import EcmaLint.Proofs.Exchange.Edge
import EcmaLint.Proofs.Exchange.Program

/-! What stands between brackets is read in the same way wherever it stands. Nothing behind the
bracket that closes is looked at, so what follows may be exchanged for anything else.

Parameters, blocks and keys in brackets. Each of them ends with the bracket that closes the one
at its start, so it is read in the same way wherever it stands. -/
namespace EcmaLint

section

open Grammar Node Production

/-- How the offsets of a stretch move that starts somewhere else in the new text. -/
def Exchange.Moved (start stop newStart : Nat) (offset moved : Nat) : Prop :=
  start ≤ offset ∧ offset ≤ stop ∧ moved + start = offset + newStart

/-- A lexeme moves to one place only. -/
theorem Lexeme.Alike.eq_of_moved {start stop newStart : Nat}
    {lexeme other another : Lexeme} (h : lexeme.Alike (Exchange.Moved start stop newStart) other)
    (h' : lexeme.Alike (Exchange.Moved start stop newStart) another) : other = another := by
  obtain ⟨⟨_, ⟨_, _⟩, _⟩, _⟩ := other
  obtain ⟨⟨_, ⟨_, _⟩, _⟩, _⟩ := another
  obtain ⟨⟨rfl, rfl, rfl⟩, hStart, hStop⟩ := h
  obtain ⟨⟨hKind, hText, hNewline⟩, hStart', hStop'⟩ := h'
  simp only [Exchange.Moved] at *
  grind

namespace Exchange

/-- A stretch that is read in front of two texts. Some defaults have been waiting since before. -/
def inside (front out into : List Lexeme) (year size newSize start stop newStart : Nat)
    (outside : Nat → Nat → Prop) : Exchange where
  front
  out
  into
  back := []
  newBack := []
  year
  size
  newSize
  shift := Moved start stop newStart
  waits _ offset moved :=
    offset < start ∧ moved < newStart ∧ outside offset moved ∨
      offset < stop ∧ Moved start stop newStart offset moved
  property? := none
  becomes _ := False
  known := True

section Inside

variable {front out into : List Lexeme} {year size newSize start stop newStart : Nat}
  {outside : Nat → Nat → Prop}

theorem isFair_inside (hInto : into ≠ []) (hOrder : Token.InOrder (out.map Lexeme.token))
    (hStart : start ≤ stop) (hSize : stop < size) (hNewSize : newStart + stop < newSize + start) :
    (inside front out into year size newSize start stop newStart outside).IsFair where
  near_le := by
    simp only [Near, inside, Moved]
    omega
  waits_of_mem {_ lexeme copy} hAlike hNonempty _ := by
    have hStart' := hAlike.start
    have hStop' := hAlike.stop
    simp only [inside, Moved] at hStart' hStop' ⊢
    omega
  waits_le := by
    simp only [Near, inside, Moved]
    omega
  back := .nil
  into_ne_nil := hInto
  inOrder := by simpa [tail, inside] using hOrder
  property := by simp [inside]
  into_is_eq_false := by simp [inside]
  becomes := ⟨fun h => by simp [Becomes, inside] at h, fun h => by simp [Becomes, inside] at h⟩

/-- Where no property is to change, every level of the grammar reads the same. -/
theorem mirrored_inside
    (hFair : (inside front out into year size newSize start stop newStart outside).IsFair)
    {n m : Nat} (hLevels : n ≤ m) :
    (inside front out into year size newSize start stop newStart outside).Mirrored (upTo n)
      (upTo m) :=
  mirrored_upTo hFair (fun _ _ _ _ _ _ _ _ _ _ _ _ hProperty => by simp [inside] at hProperty) n m
    hLevels

/-- Only the sizes of the two texts depend on the exchange. -/
theorem Fits.inside {W : Exchange} {context other : Context} (h : W.Fits context other) :
    (Exchange.inside front out into context.year context.size other.size start stop newStart
      outside).Fits context other :=
  { h with edition_eq := rfl, size_eq := rfl, newSize_eq := rfl }

end Inside

/-- Two productions that read the same in every exchange. -/
def MirrorsEverywhere {α : Type} (n m : Nat) (first second : Production α)
    (nodes : α → List Node) : Prop :=
  ∀ W : Exchange, W.Mirrored (upTo n) (upTo m) → W.Mirrors first second nodes fun _ _ => True

/-- Two cursors in front of the same lexemes, which move from one place to another. -/
structure Beside (start stop newStart : Nat) (outside : Nat → Nat → Prop)
    (lexemes copies : List Lexeme) (cursor twin : Cursor) (out into : List Lexeme) : Prop where
  rest_eq : cursor.rest = lexemes ++ out
  twin_rest_eq : twin.rest = copies ++ into
  alike : List.Forall₂ (Lexeme.Alike (Moved start stop newStart)) lexemes copies
  into_ne_nil : into ≠ []
  inOrder : Token.InOrder cursor.tokens
  tidy : ∀ lexeme ∈ cursor.rest, lexeme.IsTidy
  previousEnd : Moved start stop newStart cursor.previousEnd twin.previousEnd
  defaults : List.Forall₂
    (fun offset moved => offset < start ∧ moved < newStart ∧ outside offset moved ∨
      offset < stop ∧ Moved start stop newStart offset moved)
    cursor.shorthandDefaults twin.shorthandDefaults

variable {α : Type} {n m : Nat} {first second : Production α} {nodes : α → List Node}
  {context other : Context} {cursor later twin : Cursor} {value : α}
  {start stop newStart : Nat} {outside : Nat → Nat → Prop} {inner copies out into : List Lexeme}
  {closing closing' : Lexeme} {W : Exchange}

/-- What is read closes the brackets that it opens. -/
theorem MirrorsEverywhere.bracketed (h : MirrorsEverywhere n m first second nodes)
    (hLevels : n ≤ m) (hRun : first context cursor = .ok (value, later))
    (hOrder : Token.InOrder cursor.tokens) (hTidy : ∀ lexeme ∈ cursor.rest, lexeme.IsTidy)
    (hSize : 0 < context.size) :
    ∃ taken, cursor.rest = taken ++ later.rest ∧ Bracketed 0 0 taken := by
  -- a text that is lost from the start on will do
  let lexeme : Lexeme := ⟨⟨.punctuator, ⟨0, 0⟩, ""⟩, false⟩
  let W := inside [] cursor.rest [lexeme] context.year context.size context.size 0 0 0 fun _ _ => True
  have hFair : W.IsFair := isFair_inside (by simp) hOrder (Nat.le_refl 0) hSize (by omega)
  have hFits : W.Fits context context := ⟨rfl, rfl, rfl, rfl, rfl, rfl, rfl, rfl, rfl, Nat.le_refl _⟩
  have hMeets : W.Meets .lost cursor cursor :=
    ⟨hOrder, hTidy, List.suffix_iff_eq_append.mpr (by simp [W, inside, tail]),
      fun hNot => absurd rfl hNot, fun hNot => absurd rfl hNot⟩
  obtain ⟨_, _, _, ⟨hTracks, -⟩, -⟩ :=
    h W (mirrored_inside hFair hLevels) context context .lost cursor cursor hFits hMeets value later
      hRun
  exact hTracks.takes

/-- Up to a bracket that closes, the new text is read as the old one, whatever stands behind. -/
theorem MirrorsEverywhere.exists_twin (h : MirrorsEverywhere n m first second nodes)
    (hLevels : n ≤ m) (hFits : W.Fits context other)
    (hBeside : Beside start stop newStart outside (inner ++ [closing]) (copies ++ [closing']) cursor
      twin out into)
    (hClosing : closing.token.kind = .punctuator ∧ closing.token.text ∈ Token.closings)
    (hStop : stop < context.size) (hNewStop : newStart + stop < other.size + start)
    (hRun : first context cursor = .ok (value, later)) (hLater : later.rest = closing :: out) :
    ∃ value' later', second other twin = .ok (value', later') ∧ later'.rest = closing' :: into ∧
      List.Forall₂ Node.Matches (nodes value) (nodes value') ∧
      List.Forall₂
        (fun offset moved => offset < start ∧ moved < newStart ∧ outside offset moved ∨
          offset < stop ∧ Moved start stop newStart offset moved)
        later.shorthandDefaults later'.shorthandDefaults := by
  let W' := inside (inner ++ [closing]) out into context.year context.size other.size start stop
    newStart outside
  have hOrder : Token.InOrder (out.map Lexeme.token) := by
    have hAll := hBeside.inOrder
    rw [Cursor.tokens, hBeside.rest_eq, List.map_append] at hAll
    exact hAll.append_right
  obtain ⟨hPart, hLast⟩ : List.Forall₂ (Lexeme.Alike (Moved start stop newStart)) inner copies ∧
      Lexeme.Alike (Moved start stop newStart) closing closing' := by
    have hAll := List.forall₂_reverse_iff.mpr hBeside.alike
    simp only [List.reverse_append, List.reverse_cons, List.reverse_nil, List.nil_append,
      List.singleton_append, List.forall₂_cons, List.forall₂_reverse_iff] at hAll
    exact ⟨hAll.2, hAll.1⟩
  have hStart : start ≤ stop := hLast.start.1.trans hLast.start.2.1
  have hFair : W'.IsFair :=
    isFair_inside hBeside.into_ne_nil hOrder hStart hStop hNewStop
  -- what is read in between closes its brackets, so a search does not get to the end
  have hBrackets : Bracketed 0 0 inner := by
    obtain ⟨taken, hTaken, hBrackets⟩ :=
      h.bracketed hLevels hRun hBeside.inOrder hBeside.tidy (by omega)
    rw [hBeside.rest_eq, hLater, List.append_assoc] at hTaken
    rwa [List.append_cancel_right hTaken]
  have hMark : closing.token.IsMark := by
    refine ⟨hClosing.1, ?_⟩
    have hText := hClosing.2
    simp only [Token.closings, List.mem_cons, List.not_mem_nil, or_false] at hText ⊢
    rcases hText with hText | hText | hText <;> simp [hText]
  have hLooks : ∀ k < (inner ++ [closing]).length, ∀ cursor other : Cursor,
      cursor.rest = (inner ++ [closing]).drop k ++ W'.tail →
      other.rest = (copies ++ [closing']).drop k ++ W'.newTail → cursor.Looks other := by
    intro k hk cursor other hRest hOther
    rw [List.length_append, List.length_singleton] at hk
    have hLength := hPart.length_eq
    rw [List.drop_append_of_le_length (by omega), List.append_assoc] at hRest hOther
    refine looks_of_mark (List.forall₂_drop k (hPart.imp fun _ _ h => h.toMatches))
      hLast.toMatches hMark ?_ hRest hOther
    intro before lexeme rest copy hEq hOpening hCopy
    refine arrowFollows_afterClosing_eq hCopy ?_ (.inr (.some hLast.toMatches))
    have hWhole : inner = inner.take k ++ before ++ lexeme :: rest := by
      rw [List.append_assoc, ← hEq, List.take_append_drop]
    exact levelAfter?_eq_none_of_bracketed (hWhole ▸ hBrackets) hOpening
  have hMeets : W'.Meets .before cursor twin := by
    refine ⟨hBeside.inOrder, hBeside.tidy, ⟨inner ++ [closing], copies ++ [closing'], ?_, ?_, ?_⟩,
      fun _ => .inl hBeside.previousEnd, fun _ => hBeside.defaults⟩
    · exact ⟨by simp, List.suffix_refl _, hBeside.alike, hLooks⟩
    · simp [hBeside.rest_eq, W', inside, tail]
    · simp [hBeside.twin_rest_eq, W', inside, newTail]
  obtain ⟨reached, value', later', ⟨hTracks, -⟩, hSecond⟩ :=
    h W' (mirrored_inside hFair hLevels) context other .before cursor twin hFits.inside hMeets value
      later hRun
  have hPlace := hTracks.meets.place
  cases reached with
  | after =>
      have hBehind := hPlace.behind.length_le
      rw [hLater] at hBehind
      simp [W', inside] at hBehind
  | lost =>
      have hBehind := List.IsSuffix.length_le hPlace
      rw [hLater] at hBehind
      exact absurd hBehind (by simp [W', inside, tail])
  | before =>
      refine ⟨value', later', (hSecond (by decide)).2, ?_, ?_, hTracks.meets.defaults (by decide)⟩
      · obtain ⟨lexemes, others, hAhead, hOld, hNew⟩ := hPlace
        have hSame : lexemes = [closing] := by
          rw [hLater] at hOld
          exact (List.append_left_inj out).mp (by simpa [W', inside, tail] using hOld.symm)
        subst hSame
        obtain ⟨second, rfl, hSecond⟩ : ∃ second, others = [second] ∧
            Lexeme.Alike (Moved start stop newStart) closing second := by
          cases hAhead.alike with
          | cons hFirst hNil =>
              cases hNil
              exact ⟨_, rfl, hFirst⟩
        rw [hNew, hSecond.eq_of_moved hLast]
        simp [W', inside, newTail]
      · refine (hTracks.alike (by decide)).imp fun _ _ hAlike => hAlike.toMatches ?_
        simp [Becomes, W', inside]

end Exchange

end

open Grammar Node Production

namespace Exchange

variable {α : Type} {n m : Nat} {first second : Production α} {nodes : α → List Node}
  {context other : Context} {cursor later twin : Cursor} {value : α}
  {start stop newStart : Nat} {outside : Nat → Nat → Prop}
  {lexemes copies more out into : List Lexeme} {closing : Lexeme} {W : Exchange}

/-- What is related to two lists is related to each of them in turn. -/
theorem exists_append_of_forall₂ {β γ : Type} {related : β → γ → Prop} {front back : List β}
    {all : List γ} (h : List.Forall₂ related (front ++ back) all) :
    ∃ before after, all = before ++ after ∧ List.Forall₂ related front before ∧
      List.Forall₂ related back after := by
  induction front generalizing all with
  | nil => exact ⟨[], all, rfl, .nil, h⟩
  | cons first front ih =>
      cases h with
      | cons hFirst hRest =>
          obtain ⟨before, after, rfl, hBefore, hAfter⟩ := ih hRest
          exact ⟨_ :: before, after, rfl, .cons hFirst hBefore, hAfter⟩

/-- As `exists_twin`, where the lexemes go on behind the bracket. -/
theorem MirrorsEverywhere.exists_beside (h : MirrorsEverywhere n m first second nodes)
    (hLevels : n ≤ m) (hFits : W.Fits context other)
    (hBeside : Beside start stop newStart outside lexemes copies cursor twin out into)
    (hStop : stop < context.size) (hNewStop : newStart + stop < other.size + start)
    (hRun : first context cursor = .ok (value, later))
    (hLater : later.rest = closing :: (more ++ out)) {text : String}
    (hIs : closing.is text = true) (hText : text ∈ Token.closings) :
    ∃ value' later' more', second other twin = .ok (value', later') ∧
      later'.atText text = true ∧ List.Forall₂ Node.Matches (nodes value) (nodes value') ∧
      Beside start stop newStart outside more more' later.past later'.past out into := by
  obtain ⟨inner, hInner, -⟩ := h.bracketed hLevels hRun hBeside.inOrder hBeside.tidy (by omega)
  have hSplit : lexemes = inner ++ [closing] ++ more := by
    have hRest := hBeside.rest_eq
    rw [hInner, hLater] at hRest
    exact (List.append_left_inj out).mp (by simpa using hRest.symm)
  obtain ⟨whole, more', rfl, hWhole, hMore⟩ := exists_append_of_forall₂ (hSplit ▸ hBeside.alike)
  obtain ⟨before, last, rfl, -, hLast⟩ := exists_append_of_forall₂ hWhole
  obtain ⟨closing', rfl, hAlike⟩ : ∃ twin, last = [twin] ∧
      Lexeme.Alike (Moved start stop newStart) closing twin := by
    cases hLast with
    | cons hFirst hNil =>
        cases hNil
        exact ⟨_, rfl, hFirst⟩
  have hTidy : ∀ lexeme ∈ closing :: (more ++ out), lexeme.IsTidy := fun lexeme hLexeme =>
    hBeside.tidy lexeme (by rw [hInner, hLater]; exact List.mem_append_right _ hLexeme)
  obtain ⟨hKind, hEq⟩ := hTidy closing List.mem_cons_self text (List.mem_append_right _ hText) hIs
  have hOrder : Token.InOrder (closing.token :: (more ++ out).map Lexeme.token) := by
    have hAll := hBeside.inOrder
    rw [Cursor.tokens, hInner, hLater, List.map_append] at hAll
    exact hAll.append_right
  have hInto := hBeside.into_ne_nil
  obtain ⟨value', later', hSecond, hRest, hNodes, hDefaults⟩ :=
    h.exists_twin hLevels hFits
    { hBeside with
      rest_eq := show cursor.rest = inner ++ [closing] ++ (more ++ out) by
        rw [hInner, hLater]
        simp
      twin_rest_eq := by rw [hBeside.twin_rest_eq, List.append_assoc _ more' into]
      alike := hWhole
      into_ne_nil := by simp [hInto] } ⟨hKind, hEq ▸ hText⟩ hStop hNewStop hRun hLater
  refine ⟨value', later', more', hSecond, ?_, hNodes, ?_⟩
  · rw [Cursor.atText, Cursor.peekIs, hRest]
    exact (hAlike.is_eq text).trans hIs
  · rw [Cursor.past_of_cons hLater, Cursor.past_of_cons hRest]
    exact
      { rest_eq := rfl
        twin_rest_eq := rfl
        alike := hMore
        into_ne_nil := hInto
        inOrder := @Token.InOrder.append_right [closing.token] _ hOrder
        tidy := fun lexeme hLexeme => hTidy lexeme (List.mem_cons_of_mem _ hLexeme)
        previousEnd := hAlike.stop
        defaults := hDefaults }

/-- Two cursors at lexemes that may differ in the line ends before them, and in front of the same
lexemes behind these. -/
structure Begins (start stop newStart : Nat) (outside : Nat → Nat → Prop)
    (lexemes copies : List Lexeme) (cursor twin : Cursor) (out into : List Lexeme) : Prop where
  first : ∃ lexeme copy rest rest', cursor.rest = lexeme :: rest ∧ twin.rest = copy :: rest' ∧
    copy.token.kind = lexeme.token.kind ∧ copy.token.text = lexeme.token.text
  behind : Beside start stop newStart outside lexemes copies cursor.past twin.past out into

theorem Begins.atText_eq (h : Begins start stop newStart outside lexemes copies cursor twin out into)
    (text : String) : twin.atText text = cursor.atText text := by
  obtain ⟨lexeme, copy, rest, rest', hRest, hTwin, hKind, hText⟩ := h.first
  rw [Cursor.atText, Cursor.peekIs, Cursor.atText, Cursor.peekIs, hRest, hTwin]
  change copy.is text = lexeme.is text
  rw [Lexeme.is, Lexeme.is, hKind, hText]

theorem Begins.exists_current
    (h : Begins start stop newStart outside lexemes copies cursor twin out into) :
    ∃ token span, cursor.current? = some token ∧ twin.current? = some { token with span } := by
  obtain ⟨lexeme, copy, rest, rest', hRest, hTwin, hKind, hText⟩ := h.first
  refine ⟨lexeme.token, copy.token.span, by rw [Cursor.current?, hRest]; rfl, ?_⟩
  rw [Cursor.current?, hTwin]
  obtain ⟨⟨kind, span, text⟩, newline⟩ := copy
  obtain rfl : kind = lexeme.token.kind := hKind
  obtain rfl : text = lexeme.token.text := hText
  rfl

theorem MirrorsNode.mirrors {first second : Production Node} (h : W.MirrorsNode first second) :
    W.Mirrors first second (fun node => [node]) fun _ _ => True :=
  fun context other stage cursor twin hFits hMeets =>
    (h context other stage cursor twin hFits hMeets).imp fun _ _ _ _ _ hNode => ⟨hNode, trivial⟩

/-- Nodes do not count. -/
theorem Beside.congr {cursor' twin' : Cursor}
    (h : Beside start stop newStart outside lexemes copies cursor twin out into)
    (hRest : cursor'.rest = cursor.rest) (hTwin : twin'.rest = twin.rest)
    (hEnd : cursor'.previousEnd = cursor.previousEnd)
    (hTwinEnd : twin'.previousEnd = twin.previousEnd)
    (hDefaults : cursor'.shorthandDefaults = cursor.shorthandDefaults)
    (hTwinDefaults : twin'.shorthandDefaults = twin.shorthandDefaults) :
    Beside start stop newStart outside lexemes copies cursor' twin' out into where
  rest_eq := hRest.trans h.rest_eq
  twin_rest_eq := hTwin.trans h.twin_rest_eq
  alike := h.alike
  into_ne_nil := h.into_ne_nil
  inOrder := by rw [Cursor.tokens, hRest]; exact h.inOrder
  tidy := hRest ▸ h.tidy
  previousEnd := by rw [hEnd, hTwinEnd]; exact h.previousEnd
  defaults := by rw [hDefaults, hTwinDefaults]; exact h.defaults

variable {params : List Node} {node key : Node} {computed : Bool}

theorem exists_params_twin (hLevels : n ≤ m) (hFits : W.Fits context other)
    (h : Begins start stop newStart outside lexemes copies cursor twin out into)
    (hStop : stop < context.size) (hNewStop : newStart + stop < other.size + start)
    (hRun : Grammar.params (upTo n : Grammar Production) context cursor = .ok (params, later))
    (hLater : later.rest = more ++ out) :
    ∃ params' later' more',
      Grammar.params (upTo m : Grammar Production) other twin = .ok (params', later') ∧
      List.Forall₂ Node.Matches params params' ∧
      Beside start stop newStart outside more more' later later' out into := by
  obtain ⟨_, _, hExpect, hRest⟩ := exists_of_run hRun
  obtain ⟨hOpening, rfl⟩ := eq_past_of_expect hExpect
  obtain ⟨params, between, hParams, hRest⟩ := exists_of_run hRest
  obtain ⟨_, _, hExpect, ⟨⟩⟩ := exists_of_run hRest
  obtain ⟨hClosing, rfl⟩ := eq_past_of_expect hExpect
  obtain ⟨closing, rest, hBetween, hIs⟩ := Cursor.exists_cons_of_atText hClosing
  rw [Cursor.past_of_cons hBetween] at hLater
  obtain rfl : rest = more ++ out := hLater
  have hEverywhere : MirrorsEverywhere n m (iterate (paramsTurn (upTo n)) [])
      (iterate (paramsTurn (upTo m)) []) fun params => params := fun _ hG => hG.iterate_paramsTurn
  obtain ⟨params', later', more', hParams', hText, hNodes, hMore⟩ :=
    hEverywhere.exists_beside hLevels hFits h.behind hStop hNewStop hParams hBetween hIs (by decide)
  refine ⟨params', later'.past, more', ?_, hNodes, hMore⟩
  refine bind_eq_ok (expect_of_atText (h.atText_eq "(" ▸ hOpening)) (bind_eq_ok hParams' ?_)
  exact bind_eq_ok (expect_of_atText hText) rfl

theorem exists_block_twin (hLevels : n ≤ m) (hFits : W.Fits context other)
    (h : Begins start stop newStart outside lexemes copies cursor twin out into)
    (hStop : stop < context.size) (hNewStop : newStart + stop < other.size + start)
    (hRun : Grammar.block (upTo n : Grammar Production) context cursor = .ok (node, later))
    (hLater : later.rest = more ++ out) :
    ∃ node' later' more',
      Grammar.block (upTo m : Grammar Production) other twin = .ok (node', later') ∧
      node.Matches node' ∧
      Beside start stop newStart outside more more' later later' out into := by
  obtain ⟨from', _, hFrom, hRest⟩ := exists_of_run hRun
  cases hFrom
  obtain ⟨_, _, hExpect, hRest⟩ := exists_of_run hRest
  obtain ⟨hOpening, rfl⟩ := eq_past_of_expect hExpect
  obtain ⟨body, between, hBody, hRest⟩ := exists_of_run hRest
  have hClosing := Mirrored.yields_iterate_blockTurn _ _ hBody
  obtain ⟨_, _, hBump, hFinish⟩ := exists_of_run hRest
  cases hBump
  cases hFinish
  obtain ⟨closing, rest, hBetween, hIs⟩ := Cursor.exists_cons_of_atText hClosing
  have hMore : between.past.rest = more ++ out := hLater
  rw [Cursor.past_of_cons hBetween] at hMore
  obtain rfl : rest = more ++ out := hMore
  have hEverywhere : MirrorsEverywhere n m (iterate (blockTurn (upTo n)) [])
      (iterate (blockTurn (upTo m)) []) fun body => body := fun _ hG => hG.iterate_blockTurn
  obtain ⟨body', later', more', hBody', hText, hNodes, hBeside⟩ :=
    hEverywhere.exists_beside hLevels hFits h.behind hStop hNewStop hBody hBetween hIs (by decide)
  have hTwin : Grammar.block (upTo m : Grammar Production) other twin = _ :=
    bind_eq_ok startOffset_eq (bind_eq_ok (expect_of_atText (h.atText_eq _ ▸ hOpening))
      (bind_eq_ok hBody' (bind_eq_ok bump_eq
        (finish_eq .blockStatement _ [(.body, .nodes body')]))))
  exact ⟨_, _, more', hTwin, .same trivial (by simpa using hNodes) (by simp),
    hBeside.congr rfl rfl rfl rfl rfl rfl⟩

section Keys

variable {G : Grammar Production} {token : Token}

theorem propertyKey_of_string (hToken : cursor.current? = some token)
    (hKind : token.kind = .string) : Grammar.propertyKey G context cursor =
      (do
        bump
        return (← literal token (.text (stringValue token.text)), false) :
        Production (Node × Bool)) context cursor := by
  unfold Grammar.propertyKey
  rw [get_bind_eq, hToken]
  simp only [hKind]

theorem propertyKey_of_numeric (hToken : cursor.current? = some token)
    (hKind : token.kind = .numeric) : Grammar.propertyKey G context cursor =
      (do
        bump
        return (← literal token (.number (numericValue token.text.toList)), false) :
        Production (Node × Bool)) context cursor := by
  unfold Grammar.propertyKey
  rw [get_bind_eq, hToken]
  simp only [hKind]

theorem propertyKey_of_opening (hToken : cursor.current? = some token)
    (hOpening : token.isPunctuator "[" = true) : Grammar.propertyKey G context cursor =
      (do
        require .computedNames token.span.start
        bump
        let key ← allowIn G.assignment
        expect "]"
        return (key, true) : Production (Node × Bool)) context cursor := by
  unfold Grammar.propertyKey
  rw [get_bind_eq, hToken]
  simp only [beq_iff_eq.mp (Bool.and_eq_true_iff.mp hOpening).1, hOpening, if_true]

theorem propertyKey_of_word (hToken : cursor.current? = some token)
    (hString : token.kind ≠ .string) (hNumeric : token.kind ≠ .numeric)
    (hOpening : token.isPunctuator "[" = false) : Grammar.propertyKey G context cursor =
      (do return (← identifierName, false) : Production (Node × Bool)) context cursor := by
  unfold Grammar.propertyKey
  rw [get_bind_eq, hToken]
  cases hKind : token.kind <;> simp_all

end Keys

theorem exists_propertyKey_twin (hLevels : n ≤ m) (hFits : W.Fits context other)
    (h : Begins start stop newStart outside lexemes copies cursor twin out into)
    (hStop : stop < context.size) (hNewStop : newStart + stop < other.size + start)
    (hRun : Grammar.propertyKey (upTo n : Grammar Production) context cursor =
      .ok ((key, computed), later))
    (hLater : later.rest = more ++ out) :
    ∃ key' later' more',
      Grammar.propertyKey (upTo m : Grammar Production) other twin =
        .ok ((key', computed), later') ∧
      key.Matches key' ∧
      Beside start stop newStart outside more more' later later' out into := by
  obtain ⟨token, span, hToken, hTwin⟩ := h.exists_current
  have hSingle : later.rest = cursor.past.rest → more = lexemes := fun hSame =>
    List.append_cancel_right (hLater.symm.trans (hSame.trans h.behind.rest_eq))
  have hLiteral : ∀ value : FieldValue, Field.Related Node.Matches value value →
      (∀ {G : Grammar Production} {context : Context} {cursor : Cursor} {span : Span},
        cursor.current? = some { token with span } → Grammar.propertyKey G context cursor =
          (do
            bump
            return (← literal { token with span } value, false) : Production (Node × Bool))
            context cursor) →
      ∃ key' later' more', Grammar.propertyKey (upTo m : Grammar Production) other twin =
          .ok ((key', computed), later') ∧ key.Matches key' ∧
        Beside start stop newStart outside more more' later later' out into := by
    intro value hRelated hKey
    rw [hKey hToken] at hRun
    cases hRun
    obtain rfl := hSingle rfl
    exact ⟨_, _, copies, (hKey hTwin).trans rfl, .same trivial (by simp [hRelated]) (by simp),
      h.behind.congr rfl rfl rfl rfl rfl rfl⟩
  by_cases hString : token.kind = .string
  · exact hLiteral (.text (stringValue token.text)) (by simp) fun hCurrent =>
      propertyKey_of_string hCurrent hString
  by_cases hNumeric : token.kind = .numeric
  · exact hLiteral (.number (numericValue token.text.toList)) (by simp) fun hCurrent =>
      propertyKey_of_numeric hCurrent hNumeric
  by_cases hOpening : token.isPunctuator "[" = true
  · rw [propertyKey_of_opening hToken hOpening] at hRun
    obtain ⟨_, _, hRequire, hBumps⟩ := exists_of_run hRun
    obtain ⟨hSince, rfl⟩ := since_le_of_require hRequire
    obtain ⟨_, _, ⟨⟩, hInner⟩ := exists_of_run hBumps
    obtain ⟨key, between, hKey, hRest⟩ := exists_of_run hInner
    obtain ⟨_, _, hExpect, ⟨⟩⟩ := exists_of_run hRest
    obtain ⟨hClosing, rfl⟩ := eq_past_of_expect hExpect
    obtain ⟨closing, rest, hBetween, hIs⟩ := Cursor.exists_cons_of_atText hClosing
    rw [Cursor.past_of_cons hBetween] at hLater
    obtain rfl : rest = more ++ out := hLater
    have hEverywhere : MirrorsEverywhere n m (allowIn (upTo n).assignment)
        (allowIn (upTo m).assignment) fun key => [key] :=
      fun _ hG => hG.assignment.allowIn.mirrors
    obtain ⟨key', later', more', hKey', hText, hNodes, hMore⟩ :=
      hEverywhere.exists_beside hLevels hFits h.behind hStop hNewStop hKey hBetween hIs (by decide)
    exact ⟨key', later'.past, more', (propertyKey_of_opening hTwin hOpening).trans
      (bind_eq_ok (require_of_le (hFits.year_eq ▸ hSince)) (bind_eq_ok bump_eq
        (bind_eq_ok hKey' (bind_eq_ok (expect_of_atText hText) rfl)))),
      (List.forall₂_cons.mp hNodes).1, hMore⟩
  · have hWord := Bool.eq_false_iff.mpr hOpening
    rw [propertyKey_of_word hToken hString hNumeric hWord] at hRun
    obtain ⟨node, between, hName, ⟨⟩⟩ := exists_of_run hRun
    have hIsWord := isWord_of_identifierName hToken hName
    rw [identifierName_of_isWord hToken hIsWord] at hName
    cases hName
    obtain rfl := hSingle rfl
    exact ⟨_, _, copies, (propertyKey_of_word hTwin hString hNumeric hWord).trans
      (bind_eq_ok ((identifierName_of_isWord hTwin hIsWord).trans rfl) rfl),
      .same trivial (by simp) (by simp), h.behind.congr rfl rfl rfl rfl rfl rfl⟩

end Exchange

end EcmaLint
