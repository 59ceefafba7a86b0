import EcmaLint.Grammar.Program
import EcmaLint.Proofs.Token.Literals

/-! Cutting by offsets. `scanAt?` knows of a text only the whole of it and the offset that it has
got to: what is left, the text of a token and the body of a comment are slices of the whole text,
and a slice that is not inside the text on character boundaries ends the scan without a result.
There is always a result, and it is the one that `scan` gives, which takes the text apart. -/
namespace EcmaLint

namespace Lexer

/-- Where a piece ends that starts at an offset. The end of a template is looked for in bytes. -/
def stop? (offset : Nat) (c : Char) (rest : List Char) (found : Piece) : Option Nat :=
  if found.kind = .token .template then
    (templateBytes? (Text.utf8 rest)).map fun (n, _) => offset + c.utf8Size + n
  else if found.more ≤ rest.length then
    some (offset + Text.byteLength (c :: rest.take found.more))
  else
    none

/-- The text that is kept of a piece: all of a token, and a comment without its delimiters. -/
def kept? (source : List Char) (span : Span) : PieceKind → Option (List Char)
  | .blank => some []
  | .comment kind =>
      Text.slice? (span.start + Text.byteLength kind.opening)
        (span.stop - Text.byteLength kind.closing) source
  | .token _ => Text.slice? span.start span.stop source

/-- Put what is kept of a piece in front of the pieces after it. -/
def keep (kind : PieceKind) (span : Span) (text : List Char) (later : TokenizedText) :
    TokenizedText :=
  match kind with
  | .blank => later
  | .comment kind =>
      { later with comments := ⟨kind, span, String.ofList text⟩ :: later.comments }
  | .token kind => { later with tokens := ⟨kind, span, String.ofList text⟩ :: later.tokens }

/-- The last token once a piece is read. -/
def latest (kind : PieceKind) (span : Span) (text : List Char) (previous : Option Token) :
    Option Token :=
  match kind with
  | .token kind => some ⟨kind, span, String.ofList text⟩
  | _ => previous

/-- The tokens and comments of a source from an offset on, in a number of pieces at most. -/
def scanAt? (source : List Char) : Nat → Nat → Option Token → List Brace →
    Option (Except ParseError TokenizedText)
  | 0, _, _, _ => none
  | fuel + 1, offset, previous, braces => do
      match ← Text.slice? offset (Text.byteLength source) source with
      | [] => return .ok {}
      | c :: rest =>
          match piece previous braces c rest with
          | .error fault => return .error ⟨fault, offset⟩
          | .ok found =>
              let stop ← stop? offset c rest found
              let span : Span := ⟨offset, stop⟩
              let text ← kept? source span found.kind
              match ← scanAt? source fuel stop (latest found.kind span text previous)
                found.braces with
              | .error error => return .error error
              | .ok later => return .ok (keep found.kind span text later)

theorem stop?_of_measured {offset : Nat} {c : Char} {rest : List Char} {found : Piece}
    (h : Measured c rest found.kind found.more) :
    stop? offset c rest found = some (offset + Text.byteLength (c :: rest.take found.more)) := by
  obtain ⟨kind, more, braces⟩ := found
  dsimp only at h
  by_cases hKind : kind = .token .template
  · subst hKind
    cases h with
    | word isWord => exact absurd isWord (by decide)
    | template resumes closes =>
        rw [stop?, if_pos rfl, templateBytes?_utf8, closes]
        simp only [Option.map_some, Text.byteLength_cons, Nat.add_assoc]
  · rw [stop?, if_neg hKind, if_pos h.more_le]

/-- What is kept of a piece stands in the source between the delimiters. -/
theorem kept?_of_written {source front text back : List Char} {kind : PieceKind}
    (h : Written kind text) (hSource : source = front ++ text ++ back) :
    ∃ kept, kept? source
        ⟨Text.byteLength front, Text.byteLength front + Text.byteLength text⟩ kind = some kept ∧
      (∀ span previous, latest kind span kept previous = latest kind span text previous) ∧
      ∀ span later, keep kind span kept later = prepend kind span text later := by
  cases h with
  | blank => exact ⟨[], rfl, fun _ _ => rfl, fun _ _ => rfl⟩
  | @comment kind body =>
      refine ⟨body, Text.slice?_eq_some_iff.mpr
        ⟨front ++ kind.opening, kind.closing ++ back, by simp [hSource], by simp, ?_⟩,
        fun _ _ => rfl, ?_⟩
      · simp only [Text.byteLength_append]
        omega
      · intro span later
        rw [keep, prepend, commentBody_append]
  | token c cs =>
      exact ⟨c :: cs, Text.slice?_eq_some_iff.mpr ⟨front, back, hSource, rfl, rfl⟩,
        fun _ _ => rfl, fun _ _ => rfl⟩

/-- What is behind a piece is scanned from its end on. -/
theorem scan_of_piece {previous : Option Token} {braces : List Brace} {c : Char}
    {rest : List Char} {found : Piece} (h : piece previous braces c rest = .ok found)
    (offset : Nat) : scan offset previous braces (c :: rest) =
      (prepend found.kind ⟨offset, offset + Text.byteLength (c :: rest.take found.more)⟩
          (c :: rest.take found.more)) <$>
        scan (offset + Text.byteLength (c :: rest.take found.more))
          (latest found.kind ⟨offset, offset + Text.byteLength (c :: rest.take found.more)⟩
            (c :: rest.take found.more) previous)
          found.braces (rest.drop found.more) := by
  rw [scan, h]
  dsimp only
  split
  case h_1 error hScan => exact (congrArg (prepend _ _ _ <$> ·) hScan).symm
  case h_2 later hScan => exact (congrArg (prepend _ _ _ <$> ·) hScan).symm

/-- A scan by offsets has a result, and it is the result of the scan that takes the text apart. -/
theorem scanAt?_eq {source front cs : List Char} {offset fuel : Nat} {previous : Option Token}
    {braces : List Brace} (hSource : source = front ++ cs)
    (hFront : Text.byteLength front = offset) (hFuel : cs.length < fuel) :
    scanAt? source fuel offset previous braces = some (scan offset previous braces cs) := by
  -- on the number of pieces that may follow; what has been read becomes part of the front
  induction fuel generalizing front cs offset previous braces with
  | zero => exact absurd hFuel (Nat.not_lt_zero _)
  | succ fuel ih =>
      have hLeft : Text.slice? offset (Text.byteLength source) source = some cs := by
        refine Text.slice?_eq_some_iff.mpr ⟨front, [], by simp [hSource], hFront, ?_⟩
        rw [hSource, Text.byteLength_append, hFront]
      simp only [scanAt?, hLeft, Option.bind_eq_bind, Option.bind_some]
      cases cs with
      | nil =>
          rw [scan]
          rfl
      | cons c rest =>
          dsimp only
          cases hPiece : piece previous braces c rest with
          | error fault =>
              rw [scan, hPiece]
              rfl
          | ok found =>
              rw [← List.take_append_drop found.more rest, ← List.cons_append,
                ← List.append_assoc] at hSource
              obtain ⟨kept, hKept, hLatest, hKeep⟩ :=
                kept?_of_written (written_of_piece hPiece) hSource
              have hRest : (rest.drop found.more).length < fuel := by
                rw [List.length_drop]
                rw [List.length_cons] at hFuel
                omega
              have hStop : Text.byteLength (front ++ c :: rest.take found.more) =
                  offset + Text.byteLength (c :: rest.take found.more) := by
                rw [Text.byteLength_append, hFront]
              rw [hFront] at hKept
              simp only [stop?_of_measured (measured_of_piece hPiece), hKept, hLatest, hKeep,
                Option.bind_some, ih hSource hStop hRest, scan_of_piece hPiece]
              cases scan _ _ found.braces (rest.drop found.more) <;> rfl

/-- A refused text is refused at a character boundary. -/
theorem isBoundary_of_scan {source front cs : List Char} {offset : Nat} {previous : Option Token}
    {braces : List Brace} {error : ParseError}
    (h : scan offset previous braces cs = .error error) (hSource : source = front ++ cs)
    (hFront : Text.byteLength front = offset) : Text.IsBoundary error.offset source := by
  fun_induction scan offset previous braces cs generalizing front with
  | case1 => cases h
  | case2 =>
      cases h
      exact ⟨front, _, hSource, hFront⟩
  | case3 offset previous braces c rest found =>
      rename_i hLater ih
      cases h
      rw [← List.take_append_drop found.more rest, ← List.cons_append,
        ← List.append_assoc] at hSource
      exact ih hLater hSource (by rw [Text.byteLength_append, hFront])
  | case4 => cases h

end Lexer

/-- The tokens and comments of a program, cut out of it by offsets. -/
def tokenizeAt? (source : String) : Option (Except ParseError TokenizedText) :=
  let characters := source.toList
  match characters with
  | '#' :: '!' :: rest => do
      let span : Span := ⟨0, Text.byteLength ('#' :: '!' :: rest.take (Lexer.lineLength rest))⟩
      let text ← Lexer.kept? characters span (.comment .shebang)
      match ← Lexer.scanAt? characters characters.length span.stop none [] with
      | .error error => return .error error
      | .ok later => return .ok (Lexer.keep (.comment .shebang) span text later)
  | _ => Lexer.scanAt? characters (characters.length + 1) 0 none []

section Shebang

variable {source : String} {rest : List Char} (h : source.toList = '#' :: '!' :: rest)
include h

theorem toList_eq_shebang_append : source.toList =
    '#' :: '!' :: rest.take (Lexer.lineLength rest) ++ rest.drop (Lexer.lineLength rest) := by
  rw [h, List.cons_append, List.cons_append, List.take_append_drop]

theorem tokenize_of_shebang : tokenize source =
    (Lexer.prepend (.comment .shebang)
        ⟨0, Text.byteLength ('#' :: '!' :: rest.take (Lexer.lineLength rest))⟩
        ('#' :: '!' :: rest.take (Lexer.lineLength rest))) <$>
      Lexer.scan (Text.byteLength ('#' :: '!' :: rest.take (Lexer.lineLength rest))) none []
        (rest.drop (Lexer.lineLength rest)) := by
  rw [tokenize, h]
  change (match Lexer.scan _ none [] (rest.drop (Lexer.lineLength rest)) with
    | .error error => Except.error error
    | .ok later => .ok (Lexer.prepend _ _ _ later)) = _
  cases Lexer.scan _ none [] (rest.drop (Lexer.lineLength rest)) <;> rfl

end Shebang

/-- Every slice that is taken while a text is cut into tokens lies inside it. -/
theorem tokenizeAt?_eq (source : String) : tokenizeAt? source = some (tokenize source) := by
  unfold tokenizeAt?
  dsimp only
  split
  case h_1 rest hSource =>
    have hSplit := toList_eq_shebang_append hSource
    have hWritten := @Lexer.Written.comment .shebang (rest.take (Lexer.lineLength rest))
    rw [CommentKind.opening, CommentKind.closing, List.append_nil] at hWritten
    obtain ⟨kept, hKept, -, hKeep⟩ := Lexer.kept?_of_written hWritten
      (show source.toList = [] ++ _ ++ _ from hSplit)
    have hRest : (rest.drop (Lexer.lineLength rest)).length < source.toList.length := by
      rw [hSource, List.length_drop, List.length_cons, List.length_cons]
      omega
    have hScan := @Lexer.scanAt?_eq _ _ _ _ _ none [] hSplit rfl hRest
    rw [Text.byteLength_nil, Nat.zero_add] at hKept
    rw [tokenize_of_shebang hSource]
    simp only [List.cons_append, List.nil_append] at hKept hKeep
    simp only [hKept, hScan, hKeep, Option.bind_eq_bind, Option.bind_some]
    cases Lexer.scan _ none [] (rest.drop (Lexer.lineLength rest)) <;> rfl
  case h_2 hNone =>
    have hScan :=
      @Lexer.scanAt?_eq _ [] _ _ _ none [] rfl rfl (Nat.lt_succ_self source.toList.length)
    rw [tokenize]
    split
    case h_1 rest hSource => exact absurd hSource (hNone rest)
    case h_2 => exact hScan

/-- A text that cannot be cut into tokens is refused at a character boundary. -/
theorem isBoundary_of_tokenize {source : String} {error : ParseError}
    (h : tokenize source = .error error) : Text.IsBoundary error.offset source.toList := by
  unfold tokenize at h
  split at h
  case h_1 rest hSource =>
    dsimp only at h
    split at h
    case h_1 error' hScan =>
      cases h
      exact Lexer.isBoundary_of_scan hScan (toList_eq_shebang_append hSource) rfl
    case h_2 => cases h
  case h_2 => exact Lexer.isBoundary_of_scan h (List.nil_append _).symm rfl

end EcmaLint
