import EcmaLint.Proofs.Token.Layout

/-! Braces and templates. A scan remembers which braces are open, and what it remembers is told by
the tokens so far: a brace and a piece of a template that ends with a substitution open something,
and a brace and a piece that goes on with a template close what was opened last. So the tokens nest,
and a piece of a template ends with the first delimiter that is not escaped. -/
namespace EcmaLint

open Lexer

namespace Token

/-- What a token closes. A piece of a template that starts with a brace goes on behind a
substitution. -/
def closes? (token : Token) : Option Brace :=
  match token.kind with
  | .template => if token.text.toList.head? = some '}' then some .substitution else none
  | .punctuator => if token.text = "\x7d" then some .block else none
  | _ => none

/-- What a token opens, after what it closes. -/
def opens? (token : Token) : Option Brace :=
  match token.kind with
  | .template => if ['$', '{'] <:+ token.text.toList then some .substitution else none
  | .punctuator => if token.text = "\x7b" then some .block else none
  | _ => none

/-- The braces that are open behind a token. -/
def turn (braces : List Brace) (token : Token) : List Brace :=
  token.opens?.toList ++ if token.closes?.isSome then braces.tail else braces

/-- Each piece of a template closes a substitution, and no brace closes one. -/
def Fit (braces : List Brace) (tokens : List Token) : Prop :=
  ∀ front token back, tokens = front ++ token :: back → ∀ brace ∈ token.closes?,
    ((front.foldl turn braces).head? = some .substitution ↔ brace = .substitution)

variable {token : Token} {tokens : List Token} {braces : List Brace}

theorem Fit.nil : Fit braces [] := fun front token back hNil => by simp at hNil

theorem Fit.cons (hFirst : ∀ brace ∈ token.closes?,
      (braces.head? = some .substitution ↔ brace = .substitution))
    (hRest : Fit (turn braces token) tokens) : Fit braces (token :: tokens) := by
  intro front later back hTokens
  cases front with
  | nil =>
      obtain ⟨rfl, -⟩ := List.cons.inj hTokens
      exact hFirst
  | cons first front =>
      obtain ⟨rfl, hTail⟩ := List.cons.inj hTokens
      exact hRest front later back hTail

theorem Fit.of_cons (h : Fit braces (token :: tokens)) :
    (∀ brace ∈ token.closes?, (braces.head? = some .substitution ↔ brace = .substitution)) ∧
      Fit (turn braces token) tokens :=
  ⟨h [] token tokens rfl, fun front later back hTokens =>
    h (token :: front) later back (congrArg _ hTokens)⟩

theorem turn_of_none (hCloses : token.closes? = none) (hOpens : token.opens? = none) :
    turn braces token = braces := by
  rw [turn, hCloses, hOpens]
  rfl

/-- What starts with another character neither opens nor closes anything. -/
theorem closes?_eq_none_and_opens?_eq_none {c : Char} (hSpelt : token.IsSpelt)
    (hHead : token.text.toList.head? = some c) (hOther : c ∉ ['`', '{', '}']) :
    token.closes? = none ∧ token.opens? = none := by
  have hOpen : token.text ≠ "\x7b" := fun hText => by
    have hc : some '{' = some c := by rw [← hHead, hText]; decide
    obtain rfl := Option.some.inj hc
    simp at hOther
  have hClose : token.text ≠ "\x7d" := fun hText => by
    have hc : some '}' = some c := by rw [← hHead, hText]; decide
    obtain rfl := Option.some.inj hc
    simp at hOther
  have hKind : token.kind ≠ .template := fun hKind => by
    obtain ⟨cs, hText⟩ := List.head?_eq_some_iff.mp hHead
    rw [IsSpelt, hKind, hText] at hSpelt
    rcases hSpelt.opens_of_template with rfl | rfl <;> simp at hOther
  unfold closes? opens?
  split <;> simp_all

end Token

namespace Lexer

variable {previous : Option Token} {braces : List Brace} {c : Char} {rest : List Char}
  {found : Piece} {token : Token}

/-- A piece of a template opens a substitution if its end does. -/
theorem opens?_of_templateLength? {n : Nat} {opens : Bool}
    (h : templateLength? rest = some (n, opens)) (hKind : token.kind = .template)
    (hText : token.text.toList = c :: rest.take n) :
    token.opens? = if opens then some .substitution else none := by
  obtain ⟨body, back, rfl, rfl⟩ := exists_of_templateLength? h
  rw [List.take_left] at hText
  rw [Token.opens?, hKind, hText]
  cases opens with
  | true => exact if_pos ⟨c :: body, rfl⟩
  | false =>
      refine if_neg ?_
      rintro ⟨front, hEnd⟩
      have hLast := congrArg List.getLast? hEnd
      simp [templateClosing, List.getLast?_append, List.getLast?_cons] at hLast

/-- A token is one that may stand where it does, and it turns the braces as the scan does. -/
theorem braces_of_piece (h : piece previous braces c rest = .ok found)
    (hKind : found.kind = .token token.kind) (hText : token.text.toList = c :: rest.take found.more) :
    (∀ brace ∈ token.closes?, (braces.head? = some .substitution ↔ brace = .substitution)) ∧
      found.braces = token.turn braces := by
  have hTemplate : ∀ {outer}, templatePiece outer rest = .ok found →
      (c = '}' → braces = .substitution :: outer) → (c = '`' → braces = outer) →
      c = '`' ∨ c = '}' →
      (∀ brace ∈ token.closes?, (braces.head? = some .substitution ↔ brace = .substitution)) ∧
        found.braces = token.turn braces := by
    intro outer h hResumes hStarts hc
    unfold templatePiece at h
    split at h
    case h_1 => cases h
    case h_2 n opens hLength =>
      cases h
      obtain hKind : TokenKind.template = token.kind := PieceKind.token.inj hKind
      have hOpens := opens?_of_templateLength? hLength hKind.symm hText
      have hHead : token.text.toList.head? = some c := by rw [hText]; rfl
      have hCloses : token.closes? = if c = '}' then some .substitution else none := by
        rw [Token.closes?, ← hKind, hHead]
        simp
      rw [Token.turn, hOpens, hCloses]
      rcases hc with rfl | rfl
      · rw [hStarts rfl]
        cases opens <;> simp
      · rw [hResumes rfl]
        cases opens <;> simp
  by_cases hTick : c = '`'
  · subst hTick
    rw [piece_tick] at h
    exact hTemplate h (by simp) (fun _ => rfl) (.inl rfl)
  by_cases hOpen : c = '{'
  · subst hOpen
    rw [piece_openBrace] at h
    cases h
    obtain hKind : TokenKind.punctuator = token.kind := PieceKind.token.inj hKind
    have hBrace : token.text = "\x7b" := String.toList_inj.mp hText
    simp [Token.turn, Token.closes?, Token.opens?, ← hKind, hBrace]
  by_cases hClose : c = '}'
  · subst hClose
    rw [piece_closeBrace] at h
    split at h
    case h_1 outer => exact hTemplate h (fun _ => rfl) (by simp) (.inr rfl)
    case h_2 hBlock =>
      cases h
      obtain hKind : TokenKind.punctuator = token.kind := PieceKind.token.inj hKind
      have hBrace : token.text = "\x7d" := String.toList_inj.mp hText
      have hHead : braces.head? ≠ some .substitution := fun hHead => by
        obtain ⟨outer, rfl⟩ := List.head?_eq_some_iff.mp hHead
        exact hBlock outer rfl
      simp [Token.turn, Token.closes?, Token.opens?, ← hKind, hBrace, hHead]
  have hOther : c ∉ ['`', '{', '}'] := by simp [hTick, hOpen, hClose]
  have hSpelt : token.IsSpelt := by
    rw [Token.IsSpelt, hText]
    exact spelt_of_piece h hKind
  obtain ⟨hCloses, hOpens⟩ := Token.closes?_eq_none_and_opens?_eq_none hSpelt (by rw [hText]; rfl) hOther
  rw [Token.turn_of_none hCloses hOpens, hCloses]
  exact ⟨by simp, braces_eq_of_piece h hOther⟩

/-- Along a run the open braces are what the tokens make of them. -/
theorem Run.turns {state final : State} {cs left : List Char} {chunks : List Chunk}
    (h : Run state cs chunks final left) (offset : Nat) :
    Token.Fit state.braces (lay offset chunks).tokens ∧
      final.braces = (lay offset chunks).tokens.foldl Token.turn state.braces := by
  induction h generalizing offset with
  | nil => exact ⟨.nil, rfl⟩
  | @cons state final _ c rest left found chunks _ hPiece _ ih =>
      obtain ⟨hFit, hFinal⟩ := ih (offset + Text.byteLength (c :: rest.take found.more))
      by_cases hToken : ∃ kind, found.kind = .token kind
      · obtain ⟨kind, hKind⟩ := hToken
        rw [@tokens_lay_token offset chunks ⟨found.kind, _⟩ kind hKind]
        obtain ⟨hFirst, hTurn⟩ := @braces_of_piece _ _ _ _ _ ⟨kind,
          ⟨offset, offset + Text.byteLength (c :: rest.take found.more)⟩,
          String.ofList (c :: rest.take found.more)⟩ hPiece hKind String.toList_ofList
        rw [hTurn] at hFit hFinal
        exact ⟨.cons hFirst hFit, hFinal⟩
      · have hTrivia : ∀ kind, found.kind ≠ .token kind := fun kind hKind => hToken ⟨kind, hKind⟩
        rw [braces_eq_of_trivia hPiece hTrivia] at hFit hFinal
        have hTokens : (lay offset (⟨found.kind, c :: rest.take found.more⟩ :: chunks)).tokens =
            (lay (offset + Text.byteLength (c :: rest.take found.more)) chunks).tokens := by
          cases hKind : found.kind with
          | blank | comment => rfl
          | token kind => exact absurd hKind (hTrivia kind)
        rw [hTokens]
        exact ⟨hFit, hFinal⟩

end Lexer

namespace Token

/-- How many openers are left open behind a token, where some are left open before it. There is no
such number if the token closes another one. -/
def depthBehind? (depth : Nat) (token : Token) : Option Nat :=
  if token.closes?.isSome then
    match depth with
    | 0 => none
    | depth + 1 => some (depth + token.opens?.toList.length)
  else some (depth + token.opens?.toList.length)

/-- Openers and closers come in pairs. -/
def Balanced (tokens : List Token) : Prop := tokens.foldlM depthBehind? 0 = some 0

/-- Behind some tokens a closer has an opener. -/
def HasOpener (tokens : List Token) (brace : Brace) : Prop :=
  ∃ before opener inner, tokens = before ++ opener :: inner ∧ opener.opens? = some brace ∧
    Balanced inner

/-- In front of some tokens an opener has a closer. -/
def HasCloser (tokens : List Token) : Prop :=
  ∃ inner closer behind, tokens = inner ++ closer :: behind ∧ closer.closes?.isSome ∧
    Balanced inner

variable {token : Token} {tokens front : List Token} {braces top base final : List Brace}
  {brace : Brace} {depth later : Nat}

/-- A token turns the braces on top of some others, as far as it closes none of the others. -/
theorem turn_append (h : token.depthBehind? top.length = some depth) :
    ∃ above, token.turn (top ++ base) = above ++ base ∧ above.length = depth := by
  unfold depthBehind? at h
  unfold turn
  split at h
  case isTrue hCloses =>
    rw [if_pos hCloses]
    cases top with
    | nil => cases h
    | cons brace top =>
        cases h
        exact ⟨token.opens?.toList ++ top, by simp, by simp [Nat.add_comm]⟩
  case isFalse hCloses =>
    cases h
    rw [if_neg hCloses]
    exact ⟨token.opens?.toList ++ top, by simp, by simp [Nat.add_comm]⟩

theorem foldl_turn_append (h : tokens.foldlM depthBehind? top.length = some depth) :
    ∃ above, tokens.foldl turn (top ++ base) = above ++ base ∧ above.length = depth := by
  induction tokens generalizing top with
  | nil =>
      cases h
      exact ⟨top, rfl, rfl⟩
  | cons token tokens ih =>
      rw [List.foldlM_cons] at h
      obtain ⟨between, hFirst, hRest⟩ := Option.bind_eq_some_iff.mp h
      obtain ⟨above, hTurn, rfl⟩ := @turn_append _ _ base _ hFirst
      rw [List.foldl_cons, hTurn]
      exact ih hRest

/-- Where some tokens are balanced, the same braces are open behind them. -/
theorem Balanced.foldl_turn (h : Balanced tokens) (braces : List Brace) :
    tokens.foldl turn braces = braces := by
  obtain ⟨above, hTurn, hLength⟩ := @foldl_turn_append _ [] braces _ h
  rw [List.eq_nil_of_length_eq_zero hLength] at hTurn
  exact hTurn

/-- Each open brace has its opener, and of what was opened behind it as much is open as stands on
top of it. -/
theorem exists_opener (h : tokens.foldl turn [] = top ++ brace :: base) :
    ∃ before opener inner, tokens = before ++ opener :: inner ∧ opener.opens? = some brace ∧
      inner.foldlM depthBehind? 0 = some top.length := by
  induction tokens using List.reverseRecOn generalizing top with
  | nil => simp at h
  | append_singleton tokens token ih =>
      rw [List.foldl_append, List.foldl_cons, List.foldl_nil] at h
      generalize hBefore : tokens.foldl turn [] = braces at h ih
      -- what is on top of the brace before the token, if the token did not open it
      have hStep : ∀ above, braces = above ++ brace :: base →
          token.depthBehind? above.length = some top.length →
          ∃ before opener inner, tokens ++ [token] = before ++ opener :: inner ∧
            opener.opens? = some brace ∧ inner.foldlM depthBehind? 0 = some top.length := by
        intro above hAbove hDepth
        obtain ⟨before, opener, inner, rfl, hOpens, hInner⟩ := ih hAbove
        refine ⟨before, opener, inner ++ [token], by simp, hOpens, ?_⟩
        rw [List.foldlM_append, hInner]
        simpa using hDepth
      have hPopped : ∀ above, (if token.closes?.isSome then braces.tail else braces) =
          above ++ brace :: base → token.opens?.toList.length + above.length = top.length →
          ∃ before opener inner, tokens ++ [token] = before ++ opener :: inner ∧
            opener.opens? = some brace ∧ inner.foldlM depthBehind? 0 = some top.length := by
        intro above hAbove hLength
        split at hAbove
        case isTrue hCloses =>
          cases braces with
          | nil => simp at hAbove
          | cons first braces =>
              obtain rfl : braces = above ++ brace :: base := hAbove
              refine hStep (first :: above) rfl ?_
              unfold depthBehind?
              rw [if_pos hCloses, ← hLength, Nat.add_comm]
              rfl
        case isFalse hCloses =>
          refine hStep above hAbove ?_
          unfold depthBehind?
          rw [if_neg hCloses, ← hLength, Nat.add_comm]
      unfold turn at h
      cases hOpens : token.opens? with
      | none =>
          rw [hOpens] at h hPopped
          exact hPopped top h (by simp)
      | some opened =>
          rw [hOpens] at h hPopped
          cases top with
          | nil =>
              obtain ⟨rfl, -⟩ := List.cons.inj h
              exact ⟨tokens, token, [], rfl, hOpens, rfl⟩
          | cons first top =>
              obtain ⟨rfl, hRest⟩ := List.cons.inj h
              exact hPopped top hRest (by simp [Nat.add_comm])

theorem hasOpener_of_head? (h : (tokens.foldl turn []).head? = some brace) :
    HasOpener tokens brace := by
  obtain ⟨base, hBraces⟩ := List.head?_eq_some_iff.mp h
  obtain ⟨before, opener, inner, hTokens, hOpens, hInner⟩ := @exists_opener _ [] base _ hBraces
  exact ⟨before, opener, inner, hTokens, hOpens, hInner⟩

/-- Tokens that close more than they open have a closer of what was opened before them. -/
theorem exists_closer (h : tokens.foldlM depthBehind? depth = none) :
    ∃ inner closer behind, tokens = inner ++ closer :: behind ∧ closer.closes?.isSome ∧
      inner.foldlM depthBehind? depth = some 0 := by
  induction tokens generalizing depth with
  | nil => cases h
  | cons token tokens ih =>
      rw [List.foldlM_cons] at h
      cases hFirst : token.depthBehind? depth with
      | none =>
          unfold depthBehind? at hFirst
          split at hFirst
          case isTrue hCloses =>
            cases depth with
            | zero => exact ⟨[], token, tokens, rfl, hCloses, rfl⟩
            | succ => cases hFirst
          case isFalse => cases hFirst
      | some between =>
          rw [hFirst] at h
          obtain ⟨inner, closer, behind, rfl, hCloses, hInner⟩ := ih h
          refine ⟨token :: inner, closer, behind, rfl, hCloses, ?_⟩
          rw [List.foldlM_cons, hFirst]
          exact hInner

/-- What is opened and no longer open has a closer. -/
theorem hasCloser_of_foldl_turn_eq_nil {opener : Token} (hOpens : opener.opens?.isSome)
    (h : tokens.foldl turn (opener.turn braces) = []) : HasCloser tokens := by
  cases hDepth : tokens.foldlM depthBehind? 0 with
  | none => exact exists_closer hDepth
  | some depth =>
      obtain ⟨above, hTurn, -⟩ := @foldl_turn_append _ [] (opener.turn braces) _ hDepth
      rw [List.nil_append, h] at hTurn
      obtain ⟨opened, hOpened⟩ := Option.isSome_iff_exists.mp hOpens
      simp [turn, hOpened] at hTurn

end Token

/-- How openers and closers stand in a list of tokens. -/
structure Nests (tokens : List Token) : Prop where
  /-- An opener and its closer are of one kind. -/
  agrees : ∀ {front opener inner closer behind} {opened closed : Brace},
    tokens = front ++ opener :: (inner ++ closer :: behind) → Token.Balanced inner →
    opener.opens? = some opened → closer.closes? = some closed → opened = closed
  /-- A piece of a template goes on with one that ended with a substitution. -/
  resumes : ∀ {front closer behind}, tokens = front ++ closer :: behind →
    closer.closes? = some .substitution → Token.HasOpener front .substitution
  /-- A brace closes another one, or there is nothing left that it might close. -/
  closes : ∀ {front closer behind}, tokens = front ++ closer :: behind →
    closer.closes? = some .block → Token.HasOpener front .block ∨
      ∀ {before opener inner}, front = before ++ opener :: inner → opener.opens?.isSome →
        Token.HasCloser inner

open Token in
theorem nests_of_fit {tokens : List Token} (h : Fit [] tokens) : Nests tokens where
  agrees := by
    intro front opener inner closer behind opened closed hTokens hInner hOpens hCloses
    have hHead := h (front ++ opener :: inner) closer behind (by simp [hTokens]) closed hCloses
    rw [List.foldl_append, List.foldl_cons, hInner.foldl_turn, turn, hOpens] at hHead
    cases opened <;> cases closed <;> simp at hHead <;> rfl
  resumes hTokens hCloses := hasOpener_of_head? ((h _ _ _ hTokens _ hCloses).mpr rfl)
  closes := by
    intro front closer behind hTokens hCloses
    have hHead := h front closer behind hTokens .block hCloses
    cases hBraces : front.foldl turn [] with
    | nil =>
        refine .inr fun {before opener inner} hFront hOpens => ?_
        rw [hFront, List.foldl_append, List.foldl_cons] at hBraces
        exact hasCloser_of_foldl_turn_eq_nil hOpens hBraces
    | cons brace braces =>
        rw [hBraces] at hHead
        cases brace with
        | substitution => simp at hHead
        | block => exact .inl (hasOpener_of_head? (by rw [hBraces]; rfl))

/-- The number of backslashes that a text ends with. -/
def backslashes (cs : List Char) : Nat := (cs.reverse.takeWhile (· == '\\')).length

/-- What stands behind a text is escaped by its last backslash, which is not escaped itself. -/
def Escapes (cs : List Char) : Prop := Odd (backslashes cs)

instance (cs : List Char) : Decidable (Escapes cs) := inferInstanceAs (Decidable (Odd _))

theorem escapes_append {front cs : List Char} (h : ¬Escapes front) :
    Escapes (front ++ cs) ↔ Escapes cs := by
  unfold Escapes backslashes at h ⊢
  rw [List.reverse_append, List.takeWhile_append]
  split
  case isTrue hAll =>
    rw [List.length_append, Nat.odd_add, hAll]
    exact iff_true_right (Nat.not_odd_iff_even.mp h)
  case isFalse => rfl

/-- No delimiter of a template stands in a text, but for those that are escaped. -/
def DelimitersEscaped (body : List Char) : Prop :=
  ∀ front behind, body = front ++ behind → ¬Escapes front →
    ¬['`'] <+: behind ∧ ¬['$', '{'] <+: behind

/-- A text without delimiters goes on behind one that neither is a delimiter nor escapes one. -/
theorem DelimitersEscaped.append {first body : List Char} (h : DelimitersEscaped body)
    (hFirst : ¬Escapes first)
    (hInside : ∀ front c behind, first = front ++ c :: behind → ¬Escapes front →
      ¬['`'] <+: c :: (behind ++ body) ∧ ¬['$', '{'] <+: c :: (behind ++ body)) :
    DelimitersEscaped (first ++ body) := by
  intro front behind hBody hFront
  rcases List.append_eq_append_iff.mp hBody with ⟨more, rfl, rfl⟩ | ⟨more, rfl, rfl⟩
  · exact h more behind rfl fun hMore => hFront ((escapes_append hFirst).mpr hMore)
  · cases more with
    | nil => exact h [] body rfl (by simp [Escapes, backslashes])
    | cons c more => exact hInside front c more rfl hFront

theorem not_escapes_singleton {c : Char} (h : c ≠ '\\') : ¬Escapes [c] := by
  simp [Escapes, backslashes, h]

theorem not_escapes_pair (c : Char) : ¬Escapes ['\\', c] := by
  by_cases hc : c = '\\'
  · subst hc
    decide
  · simp [Escapes, backslashes, hc]

namespace Lexer

/-- A piece of a template ends with the first delimiter that is not escaped. -/
theorem exists_body_of_templateLength? {cs : List Char} {n : Nat} {opens : Bool}
    (h : templateLength? cs = some (n, opens)) : ∃ body, cs.take n = body ++ templateClosing opens ∧
      ¬Escapes body ∧ DelimitersEscaped body := by
  have hNil : ¬Escapes [] ∧ DelimitersEscaped [] := by
    refine ⟨by simp [Escapes, backslashes], fun front behind hBody _ => ?_⟩
    obtain ⟨rfl, rfl⟩ := List.append_eq_nil_iff.mp hBody.symm
    simp
  fun_induction templateLength? cs generalizing n opens with
  | case1 => cases h
  | case2 c cs ih =>
      obtain ⟨⟨m, opens⟩, hm, hEq⟩ := Option.map_eq_some_iff.mp h
      cases hEq
      obtain ⟨body, hTake, hEnd, hBody⟩ := ih hm
      refine ⟨['\\', c] ++ body, by simp [hTake], ?_, hBody.append (not_escapes_pair c) ?_⟩
      · rwa [escapes_append (not_escapes_pair c)]
      · rintro front d behind hSplit hFront
        cases front with
        | nil =>
            obtain ⟨rfl, -⟩ := List.cons.inj hSplit
            simp
        | cons first front =>
            obtain ⟨rfl, hTail⟩ := List.cons.inj hSplit
            cases front with
            | nil => exact absurd (by decide : Escapes ['\\']) hFront
            | cons => simp at hTail
  | case3 cs =>
      cases h
      exact ⟨[], rfl, hNil⟩
  | case4 cs =>
      cases h
      exact ⟨[], rfl, hNil⟩
  | case5 c cs hEscape hTick hOpens ih =>
      obtain ⟨⟨m, opens⟩, hm, hEq⟩ := Option.map_eq_some_iff.mp h
      cases hEq
      obtain ⟨body, hTake, hEnd, hBody⟩ := ih hm
      have hPlain : ¬Escapes [c] := by
        refine not_escapes_singleton ?_
        rintro rfl
        cases cs with
        | nil => cases hm
        | cons d cs => exact hEscape d cs rfl rfl
      refine ⟨[c] ++ body, by simp [hTake], by rwa [escapes_append hPlain],
        hBody.append hPlain ?_⟩
      rintro front d behind hSplit -
      cases front with
      | cons => simp at hSplit
      | nil =>
          obtain ⟨rfl, rfl⟩ := List.cons.inj hSplit
          rw [List.nil_append]
          refine ⟨fun hPrefix => ?_, fun hPrefix => ?_⟩
          · obtain ⟨rfl, -⟩ := List.cons_prefix_cons.mp hPrefix
            exact hTick rfl
          · obtain ⟨rfl, tail, rfl⟩ := List.cons_prefix_cons.mp hPrefix
            rw [← List.take_append_drop m cs, hTake] at hOpens
            exact hOpens _ rfl rfl

/-- What a template is cut into: a delimiter, a text that closes nothing and a delimiter. -/
def IsTemplatePiece (text : List Char) : Prop :=
  ∃ c body opens, text = c :: (body ++ templateClosing opens) ∧ (c = '`' ∨ c = '}') ∧
    ¬Escapes body ∧ DelimitersEscaped body

theorem isTemplatePiece_of_piece {previous : Option Token} {braces : List Brace} {c : Char}
    {rest : List Char} {found : Piece} (h : piece previous braces c rest = .ok found)
    (hKind : found.kind = .token .template) : IsTemplatePiece (c :: rest.take found.more) := by
  have hPiece : ∀ {outer}, templatePiece outer rest = .ok found → c = '`' ∨ c = '}' →
      IsTemplatePiece (c :: rest.take found.more) := by
    intro outer h hc
    unfold templatePiece at h
    split at h
    case h_1 => cases h
    case h_2 n opens hLength =>
      cases h
      obtain ⟨body, hTake, hEnd, hBody⟩ := exists_body_of_templateLength? hLength
      exact ⟨c, body, opens, by rw [hTake], hc, hEnd, hBody⟩
  rcases Spelt.opens_of_template (spelt_of_piece h hKind) with rfl | rfl
  · rw [piece_tick] at h
    exact hPiece h (.inl rfl)
  · rw [piece_closeBrace] at h
    split at h
    case h_1 => exact hPiece h (.inr rfl)
    case h_2 =>
      cases h
      cases hKind

theorem Run.isTemplatePiece {state final : State} {cs left : List Char} {chunks : List Chunk}
    (h : Run state cs chunks final left) :
    ∀ chunk ∈ chunks, chunk.kind = .token .template → IsTemplatePiece chunk.text := by
  induction h with
  | nil => simp
  | cons _ hPiece _ ih =>
      exact List.forall_mem_cons.mpr ⟨fun hKind => isTemplatePiece_of_piece hPiece hKind, ih⟩

end Lexer

/-- Braces and templates nest: each piece of a template that goes on behind a substitution has the
piece that opened the substitution, each brace closes the one that was opened last or closes nothing,
and within a piece of a template every delimiter is escaped. -/
theorem tokenize_nestsTemplates {source : String} {out : TokenizedText}
    (h : tokenize source = .ok out) : Nests out.tokens ∧
      ∀ token ∈ out.tokens, token.kind = .template → IsTemplatePiece token.text.toList := by
  obtain ⟨lead, chunks, hLayout, rfl⟩ := exists_layout_of_tokenize h
  obtain ⟨final, hRun⟩ := hLayout.run
  refine ⟨nests_of_fit (hRun.turns _).1, fun token hToken hKind => ?_⟩
  obtain ⟨chunk, hChunk, hChunkKind, hText⟩ := exists_chunk_of_mem_tokens hToken
  rw [hText]
  exact hRun.isTemplatePiece chunk hChunk (hKind ▸ hChunkKind)

/-- A brace that closes nothing, an escape before a wide character, and a template in a block in a
substitution. -/
theorem tokenize_nestsTemplates_nested :
    ∃ out, tokenize "\x7d`\\é$\x7b\x7ba:`b$\x7bc\x7d`\x7d\x7dd`" = .ok out ∧
      out.tokens.map Token.text = ["\x7d", "`\\é$\x7b", "\x7b", "a", ":", "`b$\x7b", "c", "\x7d`",
        "\x7d", "\x7dd`"] ∧
      Nests out.tokens ∧
      ∀ token ∈ out.tokens, token.kind = .template → IsTemplatePiece token.text.toList := by
  have hOk : tokenize "\x7d`\\é$\x7b\x7ba:`b$\x7bc\x7d`\x7d\x7dd`" =
      .ok ⟨[⟨.punctuator, ⟨0, 1⟩, "\x7d"⟩, ⟨.template, ⟨1, 7⟩, "`\\é$\x7b"⟩,
        ⟨.punctuator, ⟨7, 8⟩, "\x7b"⟩, ⟨.identifier, ⟨8, 9⟩, "a"⟩, ⟨.punctuator, ⟨9, 10⟩, ":"⟩,
        ⟨.template, ⟨10, 14⟩, "`b$\x7b"⟩, ⟨.identifier, ⟨14, 15⟩, "c"⟩,
        ⟨.template, ⟨15, 17⟩, "\x7d`"⟩, ⟨.punctuator, ⟨17, 18⟩, "\x7d"⟩,
        ⟨.template, ⟨18, 21⟩, "\x7dd`"⟩], []⟩ := by
    decide +kernel
  exact ⟨_, hOk, rfl, tokenize_nestsTemplates hOk⟩

end EcmaLint
