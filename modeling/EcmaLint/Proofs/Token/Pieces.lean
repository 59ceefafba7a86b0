import EcmaLint.Proofs.Text.Boundary
import EcmaLint.Token.Lexer

/-! What cutting a text into tokens comes to. The pieces of a text lie one behind the other from
its first byte to its last: blanks, which are dropped, and comments and tokens, which are kept
with the offsets between which they stand. Everything that is said of tokens and comments here
follows from that, and nothing depends on how the length of a piece is found. -/
namespace EcmaLint

/-- What a comment starts with. -/
def CommentKind.opening : CommentKind → List Char
  | .line => ['/', '/']
  | .block => ['/', '*']
  | .shebang => ['#', '!']

/-- What a comment ends with. The end of a line is no part of a comment. -/
def CommentKind.closing : CommentKind → List Char
  | .block => ['*', '/']
  | .line | .shebang => []

namespace Lexer

/-- How a piece of each kind is written. -/
inductive Written : PieceKind → List Char → Prop where
  | blank {c : Char} (isBlank : Text.isBlank c = true) : Written .blank [c]
  | comment {kind : CommentKind} (body : List Char) :
      Written (.comment kind) (kind.opening ++ body ++ kind.closing)
  | token {kind : TokenKind} (c : Char) (cs : List Char) : Written (.token kind) (c :: cs)

theorem commentBody_append (kind : CommentKind) (body : List Char) :
    commentBody kind (kind.opening ++ body ++ kind.closing) = body := by
  cases kind with
  | line => simp [commentBody, CommentKind.opening, CommentKind.closing]
  | shebang => simp [commentBody, CommentKind.opening, CommentKind.closing]
  | block =>
      have hClosing : (CommentKind.block.closing : List Char) = ['*'] ++ ['/'] := rfl
      rw [commentBody, hClosing, ← List.append_assoc, CommentKind.opening]
      simp

theorem Written.byteLength_pos {kind : PieceKind} {text : List Char} (h : Written kind text) :
    0 < Text.byteLength text := by
  refine Nat.pos_of_ne_zero fun hZero => ?_
  have hNil := Text.eq_nil_of_byteLength_eq_zero hZero
  cases h with
  | blank | token => cases hNil
  | @comment kind body => cases kind <;> cases hNil

theorem take_blockCommentLength? {cs : List Char} {n : Nat}
    (h : blockCommentLength? cs = some n) : ∃ body, cs.take n = body ++ ['*', '/'] := by
  fun_induction blockCommentLength? cs generalizing n with
  | case1 cs =>
      cases h
      exact ⟨[], rfl⟩
  | case2 c cs _ ih =>
      obtain ⟨m, hm, rfl⟩ := Option.map_eq_some_iff.mp h
      obtain ⟨body, hBody⟩ := ih hm
      exact ⟨c :: body, by rw [List.take_succ_cons, hBody, List.cons_append]⟩
  | case3 => cases h

theorem written_lineComment {rest : List Char} (h : rest.head? = some '/') :
    Written (.comment .line) ('/' :: rest.take (lineLength rest)) := by
  obtain ⟨tail, rfl⟩ := List.head?_eq_some_iff.mp h
  have hLength : lineLength ('/' :: tail) = lineLength tail + 1 := rfl
  have hText := @Written.comment .line (tail.take (lineLength tail))
  rw [CommentKind.opening, CommentKind.closing, List.append_nil] at hText
  rw [hLength, List.take_succ_cons]
  exact hText

theorem written_blockComment {rest : List Char} {n : Nat} (h : rest.head? = some '*')
    (hLength : blockCommentLength? rest.tail = some n) :
    Written (.comment .block) ('/' :: rest.take (n + 1)) := by
  obtain ⟨tail, rfl⟩ := List.head?_eq_some_iff.mp h
  obtain ⟨body, hBody⟩ := take_blockCommentLength? hLength
  rw [List.take_succ_cons, show tail.take n = body ++ ['*', '/'] from hBody]
  exact @Written.comment .block body

/-- The start of a text is written as the kind of its piece demands. -/
theorem written_of_piece {previous : Option Token} {braces : List Brace} {c : Char}
    {rest : List Char} {found : Piece} (h : piece previous braces c rest = .ok found) :
    Written found.kind (c :: rest.take found.more) := by
  unfold piece at h
  split at h
  case isTrue hBlank =>
    cases h
    exact .blank hBlank
  split at h
  case isTrue hSlash =>
    obtain rfl : c = '/' := by simpa using hSlash
    split at h
    case isTrue hLine =>
      cases h
      exact written_lineComment (by simpa using hLine)
    split at h
    case isTrue hBlock =>
      split at h
      case h_1 => cases h
      case h_2 n hLength =>
        cases h
        exact written_blockComment (by simpa using hBlock) hLength
    -- what is left is a token, whatever its length
    repeat' split at h
    all_goals cases h
    all_goals exact .token _ _
  case isFalse =>
    unfold templatePiece at h
    repeat' split at h
    all_goals cases h
    all_goals exact .token _ _

/-- A text that starts at an offset is cut into pieces one behind the other; what is kept of
them is `out`. -/
inductive Cuts : Nat → List Char → TokenizedText → Prop where
  | nil {offset : Nat} : Cuts offset [] {}
  | cons {offset : Nat} {kind : PieceKind} {text rest : List Char} {later : TokenizedText}
      (written : Written kind text) (behind : Cuts (offset + Text.byteLength text) rest later) :
      Cuts offset (text ++ rest)
        (prepend kind ⟨offset, offset + Text.byteLength text⟩ text later)

theorem cuts_of_scan {offset : Nat} {previous : Option Token} {braces : List Brace}
    {cs : List Char} {out : TokenizedText} (h : scan offset previous braces cs = .ok out) :
    Cuts offset cs out := by
  fun_induction scan offset previous braces cs generalizing out with
  | case1 =>
      cases h
      exact .nil
  | case2 => cases h
  | case3 => cases h
  | case4 offset _ braces c rest found hPiece text span _ later hLater =>
      rename_i ih
      cases h
      have hCuts := Cuts.cons (written_of_piece hPiece) (ih hLater)
      rwa [List.cons_append, List.take_append_drop] at hCuts

/-- The `#!` line that may open a program is a comment like the others. -/
theorem cuts_of_tokenize {source : String} {out : TokenizedText}
    (h : tokenize source = .ok out) : Cuts 0 source.toList out := by
  unfold tokenize at h
  split at h
  case h_1 rest hSource =>
    rw [hSource]
    dsimp only at h
    split at h
    case h_1 => cases h
    case h_2 later hScan =>
      cases h
      have hWritten := @Written.comment .shebang (rest.take (lineLength rest))
      rw [CommentKind.opening, CommentKind.closing, List.append_nil] at hWritten
      have hBehind := cuts_of_scan hScan
      rw [← Nat.zero_add (Text.byteLength _)] at hBehind
      have hCuts := Cuts.cons hWritten hBehind
      simpa using hCuts
  case h_2 => exact cuts_of_scan h

end Lexer

/-- The spans of what a text was cut into, without the blanks. -/
def TokenizedText.spans (out : TokenizedText) : List Span :=
  out.tokens.map Token.span ++ out.comments.map Comment.span

namespace Lexer.Cuts

variable {offset : Nat} {cs : List Char} {out : TokenizedText}

/-- Pieces lie behind the offset at which the text starts, and they are not empty. -/
theorem spans_from (h : Cuts offset cs out) :
    ∀ span ∈ out.spans, offset ≤ span.start ∧ span.start < span.stop := by
  induction h with
  | nil => simp [TokenizedText.spans]
  | @cons offset kind text rest later written _ ih =>
      have hPos := written.byteLength_pos
      have hLater : ∀ span ∈ later.spans, offset ≤ span.start ∧ span.start < span.stop :=
        fun span hSpan => by have := ih span hSpan; omega
      cases kind with
      | blank => exact hLater
      | comment kind =>
          simp only [TokenizedText.spans, prepend, List.map_cons, List.mem_append,
            List.mem_cons] at hLater ⊢
          rintro span (hToken | rfl | hComment)
          · exact hLater span (Or.inl hToken)
          · exact ⟨Nat.le_refl _, Nat.lt_add_of_pos_right hPos⟩
          · exact hLater span (Or.inr hComment)
      | token kind =>
          simp only [TokenizedText.spans, prepend, List.map_cons, List.cons_append,
            List.mem_cons, List.mem_append] at hLater ⊢
          rintro span (rfl | hLaterSpan)
          · exact ⟨Nat.le_refl _, Nat.lt_add_of_pos_right hPos⟩
          · exact hLater span hLaterSpan

/-- Tokens come in the order of the text, each behind the end of the one before. -/
theorem tokens_apart (h : Cuts offset cs out) :
    out.tokens.Pairwise fun earlier later => earlier.span.stop ≤ later.span.start := by
  induction h with
  | nil => exact List.Pairwise.nil
  | @cons offset kind text rest later _ behind ih =>
      cases kind with
      | blank | comment => exact ih
      | token kind =>
          refine List.pairwise_cons.mpr ⟨fun token hToken => ?_, ih⟩
          exact (behind.spans_from token.span
            (List.mem_append_left _ (List.mem_map_of_mem hToken))).1

theorem comments_apart (h : Cuts offset cs out) :
    out.comments.Pairwise fun earlier later => earlier.span.stop ≤ later.span.start := by
  induction h with
  | nil => exact List.Pairwise.nil
  | @cons offset kind text rest later _ behind ih =>
      cases kind with
      | blank | token => exact ih
      | comment kind =>
          refine List.pairwise_cons.mpr ⟨fun comment hComment => ?_, ih⟩
          exact (behind.spans_from comment.span
            (List.mem_append_right _ (List.mem_map_of_mem hComment))).1

/-- Of a token and a comment one ends before the other starts. -/
theorem token_apart_comment (h : Cuts offset cs out) :
    ∀ token ∈ out.tokens, ∀ comment ∈ out.comments,
      token.span.stop ≤ comment.span.start ∨ comment.span.stop ≤ token.span.start := by
  induction h with
  | nil => simp
  | @cons offset kind text rest later _ behind ih =>
      cases kind with
      | blank => exact ih
      | comment kind =>
          intro token hToken comment hComment
          rcases List.mem_cons.mp hComment with rfl | hLater
          · exact Or.inr (behind.spans_from token.span
              (List.mem_append_left _ (List.mem_map_of_mem hToken))).1
          · exact ih token hToken comment hLater
      | token kind =>
          intro token hToken comment hComment
          rcases List.mem_cons.mp hToken with rfl | hLater
          · exact Or.inl (behind.spans_from comment.span
              (List.mem_append_right _ (List.mem_map_of_mem hComment))).1
          · exact ih token hLater comment hComment

/-- The text of a piece stands between its offsets. -/
theorem text?_of_append {front text back : List Char} {source : String}
    (hSource : source.toList = front ++ text ++ back) :
    (Span.mk (Text.byteLength front) (Text.byteLength front + Text.byteLength text)).text? source =
      some (String.ofList text) := by
  rw [Span.text?, Text.slice?_eq_some_iff.mpr ⟨front, back, hSource, rfl, rfl⟩, Option.map_some]

/-- A token has the text under its span. -/
theorem token_text {front : List Char} {source : String} (h : Cuts offset cs out)
    (hSource : source.toList = front ++ cs) (hFront : Text.byteLength front = offset) :
    ∀ token ∈ out.tokens, token.span.text? source = some token.text := by
  induction h generalizing front with
  | nil => simp
  | @cons offset kind text rest later _ _ ih =>
      subst hFront
      rw [← List.append_assoc] at hSource
      have hLater := ih hSource (Text.byteLength_append front text)
      cases kind with
      | blank | comment => exact hLater
      | token kind => exact List.forall_mem_cons.mpr ⟨text?_of_append hSource, hLater⟩

/-- A comment has the text under its span, without what it starts and ends with. -/
theorem comment_text {front : List Char} {source : String} (h : Cuts offset cs out)
    (hSource : source.toList = front ++ cs) (hFront : Text.byteLength front = offset) :
    ∀ comment ∈ out.comments, comment.span.text? source =
      some (String.ofList
        (comment.kind.opening ++ comment.text.toList ++ comment.kind.closing)) := by
  induction h generalizing front with
  | nil => simp
  | @cons offset kind text rest later written _ ih =>
      subst hFront
      rw [← List.append_assoc] at hSource
      have hLater := ih hSource (Text.byteLength_append front text)
      cases written with
      | blank | token => exact hLater
      | comment body =>
          refine List.forall_mem_cons.mpr ⟨?_, hLater⟩
          rw [commentBody_append, String.toList_ofList]
          exact text?_of_append hSource

/-- A byte that lies under no token and no comment belongs to a blank. -/
theorem blank_of_not_covered {front : List Char} {source : String} (h : Cuts offset cs out)
    (hSource : source.toList = front ++ cs) (hFront : Text.byteLength front = offset) :
    ∀ byte, offset ≤ byte → byte < Text.byteLength source.toList →
      (∀ span ∈ out.spans, ¬(span.start ≤ byte ∧ byte < span.stop)) →
      ∃ before c after, source.toList = before ++ c :: after ∧ Text.isBlank c = true ∧
        Text.byteLength before ≤ byte ∧ byte < Text.byteLength before + c.utf8Size := by
  induction h generalizing front with
  | nil =>
      intro byte hFrom hTo
      rw [hSource, List.append_nil] at hTo
      omega
  | @cons offset kind text rest later written _ ih =>
      subst hFront
      intro byte hFrom hTo hNone
      rw [← List.append_assoc] at hSource
      have hLater := ih hSource (Text.byteLength_append front text) byte
      by_cases hHere : byte < Text.byteLength front + Text.byteLength text
      · -- the byte lies in the first piece, which is no token and no comment
        cases written with
        | @blank c hBlank =>
            rw [List.append_assoc] at hSource
            exact ⟨front, c, rest, hSource, hBlank, hFrom, by simpa using hHere⟩
        | comment body =>
            exact absurd ⟨hFrom, hHere⟩
              (hNone _ (List.mem_append_right _ List.mem_cons_self))
        | token c cs => exact absurd ⟨hFrom, hHere⟩ (hNone _ List.mem_cons_self)
      · refine hLater (Nat.le_of_not_lt hHere) hTo fun span hSpan => hNone span ?_
        cases kind with
        | blank => exact hSpan
        | comment kind =>
            simp only [TokenizedText.spans, prepend, List.map_cons, List.mem_append,
              List.mem_cons] at hSpan ⊢
            exact hSpan.imp id Or.inr
        | token kind => exact List.mem_cons_of_mem _ hSpan

end Lexer.Cuts

end EcmaLint
