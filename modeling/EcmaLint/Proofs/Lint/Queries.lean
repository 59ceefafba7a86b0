import EcmaLint.Lint.SourceCode
import EcmaLint.Proofs.Except
import EcmaLint.Proofs.Order.Search
import EcmaLint.Proofs.Token.Order

/-! What the queries for tokens and comments answer. A query is bounded by two places that are found
independently of each other, one by where items start and one by where they end. Because items lie
behind one another and none is empty, the answer is what a look at every item would give, whichever
two offsets a span has: they may cut through tokens, lie behind the end of the text or stand in the
wrong order. -/
namespace EcmaLint

variable {α : Type} {place : α → Span} {items : List α}

/-- Items that lie behind one another in a text. -/
structure LieInOrder (place : α → Span) (items : List α) : Prop where
  nonempty : ∀ item ∈ items, (place item).start < (place item).stop
  apart : items.Pairwise fun a b => (place a).stop ≤ (place b).start

namespace LieInOrder

variable (h : LieInOrder place items)
include h

/-- The items that start before an offset come first. -/
theorem parted_start (offset : Nat) :
    Parted (fun item => decide ((place item).start < offset)) items := by
  refine h.apart.imp_of_mem fun {a b} ha _ hApart hStart => ?_
  have hNonempty := h.nonempty a ha
  simp only [decide_eq_true_eq] at hStart ⊢
  omega

/-- The items that end before an offset come first. -/
theorem parted_stop (offset : Nat) :
    Parted (fun item => decide ((place item).stop ≤ offset)) items := by
  refine h.apart.imp_of_mem fun {a b} _ hb hApart hStop => ?_
  have hNonempty := h.nonempty b hb
  simp only [decide_eq_true_eq] at hStop ⊢
  omega

/-- From the first item that starts inside a span up to the last one that ends inside it stand the
items that lie inside it. -/
theorem takeWhile_dropWhile (span : Span) :
    ((items.dropWhile fun item => (place item).start < span.start).takeWhile
      fun item => (place item).stop ≤ span.stop) =
      items.filter fun item => (place item).within span := by
  have hRest : Parted (fun item => decide ((place item).stop ≤ span.stop))
      (items.dropWhile fun item => decide ((place item).start < span.start)) :=
    (h.parted_stop span.stop).sublist (List.dropWhile_sublist _)
  rw [hRest.takeWhile_eq_filter, (h.parted_start span.start).dropWhile_eq_filter,
    List.filter_filter]
  refine List.filter_congr fun item _ => ?_
  rw [Span.within, Bool.and_comm, ← decide_not]
  simp only [Nat.not_lt]

end LieInOrder

/-- What is scanned from a later item on ends where a scan of the whole list ends. -/
theorem Parted.takeWhile_drop {test : α → Bool} (h : Parted test items) (n : Nat) :
    (items.drop n).takeWhile test = (items.takeWhile test).drop n := by
  induction items generalizing n with
  | nil => simp
  | cons item items ih =>
      obtain ⟨hFirst, (hRest : Parted test items)⟩ := List.pairwise_cons.mp h
      cases n with
      | zero => rfl
      | succ n =>
          rw [List.drop_succ_cons, ih hRest]
          by_cases hTest : test item = true
          · rw [List.takeWhile_cons_of_pos hTest, List.drop_succ_cons]
          · have hNone : items.takeWhile test = [] := by
              rw [hRest.takeWhile_eq_filter, List.filter_eq_nil_iff]
              exact fun later hLater hPass => hTest (hFirst later hLater hPass)
            rw [List.takeWhile_cons_of_neg hTest, hNone, List.drop_nil, List.drop_nil]

/-- The items between two places that are found by halving: where items start inside a span, and
where they end behind it. -/
def Span.cutOut (span : Span) (place : α → Span) (items : List α) : List α :=
  let start := cutPoint (fun item => (place item).start < span.start) items
  let stop := cutPoint (fun item => (place item).stop ≤ span.stop) items
  items.extract start (max stop start)

/-- The two places bound the items inside the span, also where the second one comes first. -/
theorem LieInOrder.cutOut_eq (h : LieInOrder place items) (span : Span) :
    span.cutOut place items = items.filter fun item => (place item).within span := by
  have hStart := h.parted_start span.start
  have hStop := h.parted_stop span.stop
  rw [← h.takeWhile_dropWhile, ← hStart.drop_cutPoint, hStop.takeWhile_drop, ← hStop.take_cutPoint,
    List.drop_take, Span.cutOut, List.extract_eq_take_drop]
  congr 1
  omega

namespace SourceCode

/-- The queries of a program answer what a look at every token and every comment would, and what is
found by halving. -/
structure AnswersByPlace (source : SourceCode) : Prop where
  tokensIn : ∀ span, source.tokensIn span =
    source.tokens.filter fun token => token.span.within span
  tokensIn_cutOut : ∀ span, source.tokensIn span = span.cutOut Token.span source.tokens
  commentsIn : ∀ span, source.commentsIn span =
    source.comments.filter fun comment => comment.span.within span
  commentsIn_cutOut : ∀ span, source.commentsIn span = span.cutOut Comment.span source.comments
  /-- The last of the tokens that end before a span and pass a test. -/
  tokenBefore : ∀ span test, source.tokenBeforeWhere? span test =
    (source.tokens.filter fun token => token.span.stop ≤ span.start && test token).getLast?
  tokenBefore_take : ∀ span test, source.tokenBeforeWhere? span test =
    (source.tokens.take
      (cutPoint (fun token => token.span.stop ≤ span.start) source.tokens)).reverse.find? test
  /-- The first of the tokens that start behind a span and pass a test. -/
  tokenAfter : ∀ span test, source.tokenAfterWhere? span test =
    source.tokens.find? fun token => span.stop ≤ token.span.start && test token
  tokenAfter_drop : ∀ span test, source.tokenAfterWhere? span test =
    (source.tokens.drop
      (cutPoint (fun token => token.span.start < span.stop) source.tokens)).find? test
  tokensBetween : ∀ left right, source.tokensBetween left right =
    source.tokens.filter fun token =>
      left.stop ≤ token.span.start && token.span.stop ≤ right.start
  commentsBetween : ∀ left right, source.commentsExistBetween left right = true ↔
    ∃ comment ∈ source.comments, left.stop ≤ comment.span.start ∧ comment.span.stop ≤ right.start

theorem answersByPlace_of_lieInOrder {source : SourceCode}
    (hTokens : LieInOrder Token.span source.tokens)
    (hComments : LieInOrder Comment.span source.comments) : source.AnswersByPlace where
  tokensIn := hTokens.takeWhile_dropWhile
  tokensIn_cutOut span := (hTokens.takeWhile_dropWhile span).trans (hTokens.cutOut_eq span).symm
  commentsIn := hComments.takeWhile_dropWhile
  commentsIn_cutOut span :=
    (hComments.takeWhile_dropWhile span).trans (hComments.cutOut_eq span).symm
  tokenBefore span test := by
    rw [tokenBeforeWhere?, (hTokens.parted_stop span.start).takeWhile_eq_filter,
      ← List.getLast?_filter, List.filter_filter]
    simp only [Bool.and_comm]
  tokenBefore_take span test := by
    rw [tokenBeforeWhere?, (hTokens.parted_stop span.start).take_cutPoint]
  tokenAfter span test := by
    rw [tokenAfterWhere?, (hTokens.parted_start span.stop).dropWhile_eq_filter, List.find?_filter]
    simp only [← decide_not, Nat.not_lt, Bool.decide_and, Bool.decide_eq_true]
  tokenAfter_drop span test := by
    rw [tokenAfterWhere?, (hTokens.parted_start span.stop).drop_cutPoint]
  tokensBetween left right := hTokens.takeWhile_dropWhile (left.upTo right)
  commentsBetween left right := by
    have hInside := hComments.takeWhile_dropWhile (left.upTo right)
    have hNonempty : source.commentsExistBetween left right = true ↔
        source.commentsIn (left.upTo right) ≠ [] := by
      rw [commentsExistBetween, Bool.not_eq_true', List.isEmpty_eq_false_iff]
    rw [hNonempty, commentsIn, hInside, ne_eq, List.filter_eq_nil_iff]
    simp only [Span.within, Bool.and_eq_true, decide_eq_true_eq, not_forall, not_not, exists_prop]
    rfl

/-- Where a text was cut into tokens and comments, the queries answer by place. -/
theorem answersByPlace_of_cuts {source : SourceCode}
    (hCuts : Lexer.Cuts 0 source.text.toList ⟨source.tokens, source.comments⟩) :
    source.AnswersByPlace := by
  refine answersByPlace_of_lieInOrder
    ⟨fun token hToken => ?_, hCuts.tokens_apart⟩ ⟨fun comment hComment => ?_, hCuts.comments_apart⟩
  · exact (hCuts.spans_from _ (List.mem_append_left _ (List.mem_map_of_mem hToken))).2
  · exact (hCuts.spans_from _ (List.mem_append_right _ (List.mem_map_of_mem hComment))).2

end SourceCode

/-- A text that was read was cut into its tokens and comments. -/
theorem Lexer.cuts_of_parse {source : String} {options : ParseOptions} {parsed : Parsed}
    (h : parse source options = .ok parsed) :
    Cuts 0 source.toList ⟨parsed.tokens, parsed.comments⟩ := by
  obtain ⟨out, hTokenize, hParse⟩ := exists_of_bind_eq_ok h
  obtain ⟨tree, -, ⟨⟩⟩ := exists_of_bind_eq_ok hParse
  exact cuts_of_tokenize hTokenize

/-- Every query of a program that was read answers by place. -/
theorem parse_answersByPlace {source : String} {options : ParseOptions} {parsed : Parsed}
    (h : parse source options = .ok parsed) :
    SourceCode.AnswersByPlace { text := source, parsed } :=
  SourceCode.answersByPlace_of_cuts (Lexer.cuts_of_parse h)

/-- A comment between two arguments, of which the second is a template. -/
theorem parse_answersByPlace_call : ∃ parsed,
    parse "f(a /* c */, `b`)" default = .ok parsed ∧
      SourceCode.AnswersByPlace { text := "f(a /* c */, `b`)", parsed } := by
  have hOk : (parse "f(a /* c */, `b`)" default).isOk = true := by decide +kernel
  obtain ⟨parsed, hParse⟩ := exists_eq_ok_of_isOk hOk
  exact ⟨parsed, hParse, parse_answersByPlace hParse⟩

end EcmaLint
