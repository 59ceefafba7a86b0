import Mathlib.Control.Monad.Basic
import EcmaLint.Lint.SourceCode
import EcmaLint.Proofs.Token.Pieces

/-! Tokens in the order of the source. None is empty and each ends before the next one starts,
so a token can be found by where it starts or ends, and the tokens inside a span that starts and
ends with tokens are the stretch between the two.

Nothing of a text is lost when it is cut into tokens. Tokens and comments say where they
stand and hold the text that stands there; what is between them is blank. -/
namespace EcmaLint

/-- Tokens that stand behind one another in a text. -/
structure Token.InOrder (tokens : List Token) : Prop where
  nonempty : ∀ token ∈ tokens, token.span.start < token.span.stop
  apart : tokens.Pairwise fun a b => a.span.stop ≤ b.span.start

namespace Token.InOrder

variable {tokens first second : List Token}

theorem append_left (h : InOrder (first ++ second)) : InOrder first where
  nonempty token hToken := h.nonempty token (List.mem_append_left _ hToken)
  apart := (List.pairwise_append.mp h.apart).1

theorem append_right (h : InOrder (first ++ second)) : InOrder second where
  nonempty token hToken := h.nonempty token (List.mem_append_right _ hToken)
  apart := (List.pairwise_append.mp h.apart).2.1

theorem stop_le_start (h : InOrder (first ++ second)) {a b : Token} (ha : a ∈ first)
    (hb : b ∈ second) : a.span.stop ≤ b.span.start :=
  (List.pairwise_append.mp h.apart).2.2 a ha b hb

/-- No token starts before the first one. -/
theorem start_le_of_head? (h : InOrder tokens) {head token : Token}
    (hHead : tokens.head? = some head) (hToken : token ∈ tokens) :
    head.span.start ≤ token.span.start := by
  obtain ⟨rest, rfl⟩ := List.head?_eq_some_iff.mp hHead
  rcases List.mem_cons.mp hToken with rfl | hRest
  · exact Nat.le_refl _
  · have hStop := (List.pairwise_cons.mp h.apart).1 token hRest
    have hNonempty := h.nonempty head List.mem_cons_self
    omega

/-- No token ends after the last one. -/
theorem stop_le_of_getLast? (h : InOrder tokens) {last token : Token}
    (hLast : tokens.getLast? = some last) (hToken : token ∈ tokens) :
    token.span.stop ≤ last.span.stop := by
  obtain ⟨front, rfl⟩ := List.getLast?_eq_some_iff.mp hLast
  rcases List.mem_append.mp hToken with hFront | hSame
  · have hStart := h.stop_le_start hFront (List.mem_singleton_self last)
    have hNonempty := h.nonempty last (List.mem_append_right _ (List.mem_singleton_self last))
    omega
  · obtain rfl := List.mem_singleton.mp hSame
    exact Nat.le_refl _

end Token.InOrder

/-- The first token starts and the last token ends with a span. -/
structure Span.Bounds (span : Span) (tokens : List Token) : Prop where
  head : ∃ token, tokens.head? = some token ∧ token.span.start = span.start
  last : ∃ token, tokens.getLast? = some token ∧ token.span.stop = span.stop

namespace Token.InOrder

/-- A span that starts where a token starts and ends where a token ends bounds a stretch. -/
theorem exists_bounds {tokens : List Token} {span : Span} (h : InOrder tokens)
    (hNonempty : span.start < span.stop)
    (hStart : ∃ token ∈ tokens, token.span.start = span.start)
    (hStop : ∃ token ∈ tokens, token.span.stop = span.stop) :
    ∃ front middle back, tokens = front ++ middle ++ back ∧ span.Bounds middle := by
  obtain ⟨first, hFirst, hStart⟩ := hStart
  obtain ⟨front, rest, rfl⟩ := List.append_of_mem hFirst
  obtain ⟨last, hLast, hStop⟩ := hStop
  have hLastRest : last ∈ first :: rest := by
    rcases List.mem_append.mp hLast with hFront | hRest
    · have hLe := h.stop_le_start hFront List.mem_cons_self
      omega
    · exact hRest
  obtain ⟨middle, back, hSplit⟩ := List.append_of_mem hLastRest
  refine ⟨front, middle ++ [last], back, by simp [hSplit], ?_, last, by simp, hStop⟩
  cases middle with
  | nil =>
      obtain ⟨rfl, -⟩ := List.cons.inj hSplit
      exact ⟨first, rfl, hStart⟩
  | cons head tail =>
      obtain ⟨rfl, -⟩ := List.cons.inj hSplit
      exact ⟨first, rfl, hStart⟩

end Token.InOrder

theorem Span.Bounds.start_lt_stop {span : Span} {tokens : List Token} (h : span.Bounds tokens)
    (hOrder : Token.InOrder tokens) : span.start < span.stop := by
  obtain ⟨first, hFirst, hStart⟩ := h.head
  obtain ⟨last, hLast, hStop⟩ := h.last
  rw [← hStart, ← hStop]
  exact Nat.lt_of_lt_of_le (hOrder.nonempty first (List.mem_of_head? hFirst))
    (hOrder.stop_le_of_getLast? hLast (List.mem_of_head? hFirst))

namespace SourceCode

variable {source : SourceCode} {span : Span}

/-- The tokens inside a span that starts and ends with tokens are the stretch that it bounds. -/
theorem tokensIn_eq {front middle back : List Token}
    (hTokens : source.tokens = front ++ middle ++ back) (hOrder : Token.InOrder source.tokens)
    (hBounds : span.Bounds middle) : source.tokensIn span = middle := by
  obtain ⟨first, hFirst, hStart⟩ := hBounds.head
  obtain ⟨last, hLast, hStop⟩ := hBounds.last
  rw [hTokens, List.append_assoc] at hOrder
  have hMiddle : ∀ token ∈ middle, span.start ≤ token.span.start ∧ token.span.stop ≤ span.stop := by
    intro token hToken
    rw [← hStart, ← hStop]
    exact ⟨hOrder.append_right.append_left.start_le_of_head? hFirst hToken,
      hOrder.append_right.append_left.stop_le_of_getLast? hLast hToken⟩
  have hFront : ∀ token ∈ front, token.span.start < span.start := by
    intro token hToken
    have hStopLe := hOrder.stop_le_start hToken
      (List.mem_append_left back (List.mem_of_head? hFirst))
    have hNonempty := hOrder.nonempty token (List.mem_append_left _ hToken)
    omega
  have hBack : ∀ token ∈ back, span.stop < token.span.stop := by
    intro token hToken
    have hStopLe := hOrder.append_right.stop_le_start (List.mem_of_getLast? hLast) hToken
    have hNonempty := hOrder.append_right.append_right.nonempty token hToken
    omega
  have hDrop : (middle ++ back).dropWhile (fun token => token.span.start < span.start) =
      middle ++ back := by
    obtain ⟨rest, rfl⟩ := List.head?_eq_some_iff.mp hFirst
    refine List.dropWhile_cons_of_neg ?_
    simp [hStart]
  have hTake : back.takeWhile (fun token => token.span.stop ≤ span.stop) = [] := by
    cases back with
    | nil => rfl
    | cons token rest =>
        refine List.takeWhile_cons_of_neg ?_
        simpa using hBack token List.mem_cons_self
  rw [tokensIn, hTokens, List.append_assoc,
    List.dropWhile_append_of_pos (by simpa using hFront), hDrop,
    List.takeWhile_append_of_pos (by simpa using fun token hToken => (hMiddle token hToken).2),
    hTake, List.append_nil]

/-- Between two spans that end and start with tokens stand the tokens between these. -/
theorem tokensBetween_eq {before between after : List Token} {left right : Span}
    (hTokens : source.tokens = before ++ (between ++ after))
    (hOrder : Token.InOrder source.tokens)
    (hStop : ∃ token ∈ before.getLast?, token.span.stop = left.stop)
    (hStart : ∃ token ∈ after.head?, token.span.start = right.start) :
    source.tokensBetween left right = between := by
  obtain ⟨last, hLast, hStop⟩ := hStop
  obtain ⟨first, hFirst, hStart⟩ := hStart
  obtain ⟨rest, rfl⟩ := List.head?_eq_some_iff.mp hFirst
  rw [hTokens] at hOrder
  have hBehind : ∀ token ∈ between ++ first :: rest, last.span.stop ≤ token.span.start :=
    fun token hToken => hOrder.stop_le_start (List.mem_of_getLast? hLast) hToken
  have hDrop : (between ++ first :: rest).dropWhile
      (fun token => token.span.start < left.stop) = between ++ first :: rest := by
    cases hBetween : between ++ first :: rest with
    | nil => rfl
    | cons token tokens =>
        refine List.dropWhile_cons_of_neg ?_
        have hStarts := hBehind token (by simp [hBetween])
        simp only [decide_eq_true_eq]
        omega
  rw [tokensBetween, tokensIn, hTokens, List.dropWhile_append_of_pos, Span.upTo, hDrop,
    List.takeWhile_append_of_pos, List.takeWhile_cons_of_neg, List.append_nil]
  · have hNonempty := hOrder.nonempty first (by simp)
    simp only [decide_eq_true_eq]
    omega
  · intro token hToken
    have hApart := hOrder.append_right.stop_le_start hToken List.mem_cons_self
    simpa [← hStart] using hApart
  · intro token hToken
    have hNonempty := hOrder.nonempty token (List.mem_append_left _ hToken)
    have hStops := hOrder.append_left.stop_le_of_getLast? hLast hToken
    exact decide_eq_true (show token.span.start < left.stop by omega)

end SourceCode

/-- The tokens of a text are in order and inside the text. -/
theorem inOrder_of_tokenize {source : String} {out : TokenizedText}
    (h : tokenize source = .ok out) : Token.InOrder out.tokens ∧
      ∀ token ∈ out.tokens, token.span.stop ≤ Text.byteLength source.toList := by
  have hCuts := Lexer.cuts_of_tokenize h
  have hSpan : ∀ token ∈ out.tokens, token.span ∈ out.spans := fun token hToken =>
    List.mem_append_left _ (List.mem_map_of_mem hToken)
  refine ⟨⟨fun token hToken => (hCuts.spans_from _ (hSpan token hToken)).2,
    hCuts.tokens_apart⟩, fun token hToken => ?_⟩
  have hText := hCuts.token_text (List.nil_append _).symm rfl token hToken
  obtain ⟨text, hSlice, -⟩ := Option.map_eq_some_iff.mp hText
  obtain ⟨front, back, hSource, hFront, hMiddle⟩ := Text.slice?_eq_some_iff.mp hSlice
  rw [hSource, Text.byteLength_append, Text.byteLength_append]
  omega

/-- The tokens and comments of a text, between them, account for every byte of it. -/
structure TokenizedText.Accounts (out : TokenizedText) (source : String) : Prop where
  tokens_ordered : out.tokens.Pairwise fun a b => a.span.start < b.span.start
  comments_ordered : out.comments.Pairwise fun a b => a.span.start < b.span.start
  nonempty : ∀ span ∈ out.spans, span.start < span.stop
  covers : ∀ span ∈ out.spans, span.Covers source
  tokens_apart : out.tokens.Pairwise fun a b => a.span.stop ≤ b.span.start
  comments_apart : out.comments.Pairwise fun a b => a.span.stop ≤ b.span.start
  token_apart_comment : ∀ token ∈ out.tokens, ∀ comment ∈ out.comments,
    token.span.stop ≤ comment.span.start ∨ comment.span.stop ≤ token.span.start
  token_text : ∀ token ∈ out.tokens, token.span.text? source = some token.text
  /-- A comment holds the text of its span without its delimiters. -/
  comment_text : ∀ comment ∈ out.comments, comment.span.text? source =
    some (String.ofList
      (comment.kind.opening ++ comment.text.toList ++ comment.kind.closing))
  /-- A byte under no token and no comment belongs to a blank. -/
  blank : ∀ byte < Text.byteLength source.toList,
    (∀ span ∈ out.spans, ¬(span.start ≤ byte ∧ byte < span.stop)) →
    ∃ before c after, source.toList = before ++ c :: after ∧ Text.isBlank c = true ∧
      Text.byteLength before ≤ byte ∧ byte < Text.byteLength before + c.utf8Size

/-- A span covers a stretch of a text if there is a text under it. -/
theorem Span.covers_of_text?_eq_some {span : Span} {source text : String}
    (h : span.text? source = some text) : span.Covers source := by
  obtain ⟨middle, hMiddle, -⟩ := Option.map_eq_some_iff.mp h
  obtain ⟨front, back, hSource⟩ := Text.slice?_eq_some_iff.mp hMiddle
  exact Span.covers_iff.mpr ⟨front, middle, back, hSource⟩

/-- Items behind one another whose spans are not empty start at rising offsets. -/
theorem pairwise_start_lt_of_apart {α : Type} {span : α → Span} {items : List α}
    (hApart : items.Pairwise fun a b => (span a).stop ≤ (span b).start)
    (hNonempty : ∀ item ∈ items, (span item).start < (span item).stop) :
    items.Pairwise fun a b => (span a).start < (span b).start :=
  hApart.imp_of_mem fun ha _ hab => Nat.lt_of_lt_of_le (hNonempty _ ha) hab

/-- Whatever a text is cut into accounts for all of it. -/
theorem tokenize_accounts {source : String} {out : TokenizedText}
    (h : tokenize source = .ok out) : out.Accounts source := by
  have hCuts := Lexer.cuts_of_tokenize h
  have hSource : source.toList = [] ++ source.toList := rfl
  have hTokenText := hCuts.token_text hSource rfl
  have hCommentText := hCuts.comment_text hSource rfl
  have hNonempty : ∀ span ∈ out.spans, span.start < span.stop :=
    fun span hSpan => (hCuts.spans_from span hSpan).2
  refine
    { tokens_ordered := pairwise_start_lt_of_apart hCuts.tokens_apart fun token hToken =>
        hNonempty _ (List.mem_append_left _ (List.mem_map_of_mem hToken))
      comments_ordered := pairwise_start_lt_of_apart hCuts.comments_apart fun comment hComment =>
        hNonempty _ (List.mem_append_right _ (List.mem_map_of_mem hComment))
      nonempty := hNonempty
      covers := ?_
      tokens_apart := hCuts.tokens_apart
      comments_apart := hCuts.comments_apart
      token_apart_comment := hCuts.token_apart_comment
      token_text := hTokenText
      comment_text := hCommentText
      blank := fun byte hByte hNone =>
        hCuts.blank_of_not_covered hSource rfl byte (Nat.zero_le _) hByte hNone }
  intro span hSpan
  rcases List.mem_append.mp hSpan with hSpan | hSpan
  · obtain ⟨token, hToken, rfl⟩ := List.mem_map.mp hSpan
    exact Span.covers_of_text?_eq_some (hTokenText token hToken)
  · obtain ⟨comment, hComment, rfl⟩ := List.mem_map.mp hSpan
    exact Span.covers_of_text?_eq_some (hCommentText comment hComment)

/-- A `#!` line, a template with a regular expression in it, a division that assigns, and an
empty comment: the text is accounted for by five tokens and two comments. -/
theorem tokenize_accounts_template :
    ∃ out, tokenize "#!x\n`é$\x7b/[/]\\ä/g\x7d\\``/=a /**/" = .ok out ∧
      out.tokens.map Token.text = ["`é$\x7b", "/[/]\\ä/g", "\x7d\\``", "/=", "a"] ∧
      out.comments.map Comment.text = ["x", ""] ∧
      out.Accounts "#!x\n`é$\x7b/[/]\\ä/g\x7d\\``/=a /**/" := by
  have hOk : ∃ out, tokenize "#!x\n`é$\x7b/[/]\\ä/g\x7d\\``/=a /**/" = .ok out ∧
      out.tokens.map Token.text = ["`é$\x7b", "/[/]\\ä/g", "\x7d\\``", "/=", "a"] ∧
      out.comments.map Comment.text = ["x", ""] := by
    refine ⟨⟨[⟨.template, ⟨4, 9⟩, "`é$\x7b"⟩, ⟨.regularExpression, ⟨9, 18⟩, "/[/]\\ä/g"⟩,
      ⟨.template, ⟨18, 22⟩, "\x7d\\``"⟩, ⟨.punctuator, ⟨22, 24⟩, "/="⟩,
      ⟨.identifier, ⟨24, 25⟩, "a"⟩], [⟨.shebang, ⟨0, 3⟩, "x"⟩, ⟨.block, ⟨26, 30⟩, ""⟩]⟩, ?_, rfl, rfl⟩
    decide +kernel
  obtain ⟨out, hOut, hTokens, hComments⟩ := hOk
  exact ⟨out, hOut, hTokens, hComments, tokenize_accounts hOut⟩

end EcmaLint
