import EcmaLint.Proofs.Progress.Program
import EcmaLint.Proofs.Token.Seams

/-! Texts as chunks. A text is a list of chunks behind a line that may open it, and such a list is
scanned as that text. So a text can be cut in two at a lexeme, stretches of it can be put somewhere
else, and what they come to there is known without another look at the text. Whether a line ends
before a token is written in the chunks between it and the token before, so the lexemes are read off
the chunks too. -/
namespace EcmaLint

namespace Lexer

/-- A line ends in a text. -/
def endsLineIn (cs : List Char) : Bool := cs.any Text.isLineTerminator

/-- The lexemes of chunks that start at an offset. It is given whether a line has ended since the
last token, if there was one. -/
def lexemes (offset : Nat) (newline : Option Bool) : List Chunk → List Lexeme
  | [] => []
  | ⟨.token kind, text⟩ :: chunks =>
      ⟨⟨kind, ⟨offset, offset + Text.byteLength text⟩, String.ofList text⟩, newline.getD false⟩ ::
        lexemes (offset + Text.byteLength text) (some false) chunks
  | ⟨_, text⟩ :: chunks =>
      lexemes (offset + Text.byteLength text) (newline.map (· || endsLineIn text)) chunks

/-- Whether a line has ended since the last token, behind some chunks. -/
def newlineAfter (newline : Option Bool) : List Chunk → Option Bool
  | [] => newline
  | ⟨.token _, _⟩ :: chunks => newlineAfter (some false) chunks
  | ⟨_, text⟩ :: chunks => newlineAfter (newline.map (· || endsLineIn text)) chunks

section

variable {offset : Nat} {newline : Option Bool} {first second chunks : List Chunk}

theorem lexemes_append : lexemes offset newline (first ++ second) =
    lexemes offset newline first ++
      lexemes (offset + Text.byteLength (text first)) (newlineAfter newline first) second := by
  induction first generalizing offset newline with
  | nil => rfl
  | cons chunk first ih =>
      obtain ⟨kind, chunk⟩ := chunk
      cases kind <;> simp [lexemes, newlineAfter, ih, Nat.add_assoc]

theorem newlineAfter_append :
    newlineAfter newline (first ++ second) = newlineAfter (newlineAfter newline first) second := by
  induction first generalizing newline with
  | nil => rfl
  | cons chunk first ih =>
      obtain ⟨kind, chunk⟩ := chunk
      cases kind <;> simp [newlineAfter, ih]

theorem newlineAfter_of_endsWithToken (h : EndsWithToken chunks) :
    newlineAfter newline chunks = some false := by
  obtain ⟨init, ⟨_, chunk⟩, kind, rfl, rfl⟩ := h
  rw [newlineAfter_append]
  rfl

theorem newlineBetween_eq {source front gap rest more back : List Char}
    (hSource : source = front ++ gap ++ rest ++ more ++ back) :
    newlineBetween source (Text.byteLength front) (Text.byteLength (front ++ gap)) =
      endsLineIn gap := by
  have hSlice : Text.slice? (Text.byteLength front) (Text.byteLength (front ++ gap)) source =
      some gap :=
    Text.slice?_eq_some_iff.mpr ⟨front, rest ++ more ++ back, by simp [hSource], rfl,
      (Text.byteLength_append _ _).symm⟩
  rw [newlineBetween, hSlice]
  rfl

/-- Where the last token before a place ended, and whether a line has ended since. -/
inductive Since (front : List Char) : Option Nat → Option Bool → Prop
  | atStart : Since front none none
  | behind {before gap : List Char} (h : front = before ++ gap) :
      Since front (some (Text.byteLength before)) (some (endsLineIn gap))

namespace Since

variable {front piece : List Char} {previous : Option Nat}

theorem trivia (h : Since front previous newline) (piece : List Char) :
    Since (front ++ piece) previous (newline.map (· || endsLineIn piece)) := by
  cases h with
  | atStart => exact .atStart
  | @behind before gap h =>
      have hAll : endsLineIn (gap ++ piece) = (endsLineIn gap || endsLineIn piece) :=
        List.any_append
      rw [Option.map_some, ← hAll]
      exact .behind (by simp [h])

theorem token (front : List Char) : Since front (some (Text.byteLength front)) (some false) :=
  @Since.behind front front [] (List.append_nil front).symm

/-- Where the last token of some chunks ended, or the one before them. -/
theorem lay (h : Since front previous newline) :
    Since (front ++ text chunks)
      (((lay (Text.byteLength front) chunks).tokens.getLast?.map
        fun token => token.span.stop).or previous) (newlineAfter newline chunks) := by
  induction chunks generalizing front previous newline with
  | nil => simpa [Lexer.lay, newlineAfter] using h
  | cons chunk chunks ih =>
      obtain ⟨kind, chunk⟩ := chunk
      rw [text_cons, ← List.append_assoc]
      cases kind with
      | blank | comment =>
          have hRest := ih (h.trivia chunk)
          rw [Text.byteLength_append] at hRest
          exact hRest
      | token kind =>
          have hRest := ih (token (front ++ chunk))
          rw [Text.byteLength_append] at hRest
          rw [Lexer.lay, prepend, List.getLast?_cons]
          cases hLast : (Lexer.lay (Text.byteLength front + Text.byteLength chunk)
            chunks).tokens.getLast? <;> simpa [newlineAfter, hLast] using hRest

end Since

/-- The lexemes of a stretch of tokens are those of its chunks. -/
theorem ofTokens_lay {source front back : List Char} {previous : Option Nat}
    (hSource : source = front ++ text chunks ++ back) (hSince : Since front previous newline) :
    Lexeme.ofTokens source previous (lay (Text.byteLength front) chunks).tokens =
      lexemes (Text.byteLength front) newline chunks := by
  induction chunks generalizing front previous newline with
  | nil => rfl
  | cons chunk chunks ih =>
      obtain ⟨kind, chunk⟩ := chunk
      have hSource' : source = front ++ chunk ++ text chunks ++ back := by simp [hSource]
      cases kind with
      | blank | comment =>
          have hRest := ih hSource' (hSince.trivia chunk)
          rw [Text.byteLength_append] at hRest
          exact hRest
      | token kind =>
          have hNewline : (previous.any fun stop =>
              newlineBetween source stop (Text.byteLength front)) = newline.getD false := by
            cases hSince with
            | atStart => rfl
            | @behind before gap h =>
                subst h
                exact newlineBetween_eq hSource'
          have hRest := ih hSource' (Since.token (front ++ chunk))
          rw [Text.byteLength_append] at hRest
          rw [lay, prepend, Lexeme.ofTokens, lexemes, hNewline, hRest]

end

variable {offset start : Nat} {newline : Option Bool} {chunks more : List Chunk}
  {first second : List Lexeme}

theorem byteLength_text_append (lead : List Char) (front chunks : List Chunk) :
    Text.byteLength (lead ++ text (front ++ chunks)) =
      Text.byteLength (lead ++ text front) + Text.byteLength (text chunks) := by
  rw [text_append, ← List.append_assoc, Text.byteLength_append]

theorem exists_lexeme_of_startsWithToken (h : StartsWithToken chunks) :
    ∃ lexeme rest, lexemes offset newline chunks = lexeme :: rest ∧
      lexeme.token.span.start = offset := by
  obtain ⟨⟨_, text⟩, rest, kind, rfl, rfl⟩ := h
  exact ⟨_, _, rfl, rfl⟩

theorem exists_lexeme_of_endsWithToken (h : EndsWithToken chunks) :
    ∃ init lexeme, lexemes offset newline chunks = init ++ [lexeme] ∧
      lexeme.token.span.stop = offset + Text.byteLength (text chunks) := by
  obtain ⟨init, ⟨_, chunk⟩, kind, rfl, rfl⟩ := h
  refine ⟨_, _, lexemes_append, ?_⟩
  simp [Nat.add_assoc]

/-- Chunks from a token to a token lie over their lexemes. -/
theorem bounds_lexemes (hStarts : StartsWithToken chunks) (hEnds : EndsWithToken chunks) :
    Span.Bounds ⟨offset, offset + Text.byteLength (text chunks)⟩
      ((lexemes offset newline chunks).map Lexeme.token) := by
  obtain ⟨first, rest, hFirst, hStart⟩ :=
    @exists_lexeme_of_startsWithToken offset newline _ hStarts
  obtain ⟨init, last, hLast, hStop⟩ := @exists_lexeme_of_endsWithToken offset newline _ hEnds
  refine ⟨⟨first.token, ?_, hStart⟩, ⟨last.token, ?_, hStop⟩⟩
  · rw [hFirst]
    rfl
  · rw [hLast, List.map_append]
    exact List.getLast?_concat

theorem map_token_lexemes :
    (lexemes offset newline chunks).map Lexeme.token = (lay offset chunks).tokens := by
  induction chunks generalizing offset newline with
  | nil => rfl
  | cons chunk chunks ih =>
      obtain ⟨kind, chunk⟩ := chunk
      cases kind with
      | blank | comment => exact ih
      | token => exact congrArg _ ih

/-- Every lexeme lies inside of the chunks. -/
theorem bounds_of_mem_lexemes {lexeme : Lexeme} (h : lexeme ∈ lexemes offset newline chunks) :
    offset ≤ lexeme.token.span.start ∧
      lexeme.token.span.stop ≤ offset + Text.byteLength (text chunks) := by
  induction chunks generalizing offset newline with
  | nil => cases h
  | cons chunk chunks ih =>
      obtain ⟨kind, chunk⟩ := chunk
      rw [text_cons, Text.byteLength_append, ← Nat.add_assoc]
      cases kind with
      | blank | comment =>
          obtain ⟨hStart, hStop⟩ := ih h
          exact ⟨(Nat.le_add_right _ _).trans hStart, hStop⟩
      | token =>
          rcases List.mem_cons.mp h with rfl | hRest
          · exact ⟨Nat.le_refl _, Nat.le_add_right _ _⟩
          · obtain ⟨hStart, hStop⟩ := ih hRest
            exact ⟨(Nat.le_add_right _ _).trans hStart, hStop⟩

/-- Between two lexemes a text is cut in front of the second one. -/
theorem exists_cut_before (h : lexemes offset newline chunks = first ++ second)
    (hSecond : second ≠ []) :
    ∃ front back, chunks = front ++ back ∧ StartsWithToken back ∧
      lexemes offset newline front = first ∧
      lexemes (offset + Text.byteLength (text front)) (newlineAfter newline front) back =
        second := by
  induction chunks generalizing offset newline first with
  | nil => simp [lexemes, hSecond] at h
  | cons chunk chunks ih =>
      obtain ⟨kind, chunk⟩ := chunk
      have hTrivia : (∀ token, kind ≠ .token token) → ∃ front back,
          (⟨kind, chunk⟩ :: chunks : List Chunk) = front ++ back ∧ StartsWithToken back ∧
          lexemes offset newline front = first ∧
          lexemes (offset + Text.byteLength (text front)) (newlineAfter newline front) back =
            second := by
        intro hKind
        have hRest : lexemes (offset + Text.byteLength chunk)
            (newline.map (· || endsLineIn chunk)) chunks = first ++ second := by
          cases kind with
          | blank | comment => exact h
          | token token => exact absurd rfl (hKind token)
        obtain ⟨front, back, rfl, hStart, hFront, hBack⟩ := ih hRest
        refine ⟨⟨kind, chunk⟩ :: front, back, rfl, hStart, ?_, ?_⟩
        · cases kind with
          | blank | comment => exact hFront
          | token token => exact absurd rfl (hKind token)
        · rw [text_cons, Text.byteLength_append, ← Nat.add_assoc]
          cases kind with
          | blank | comment => exact hBack
          | token token => exact absurd rfl (hKind token)
      cases kind with
      | blank | comment => exact hTrivia (by simp)
      | token kind =>
          cases first with
          | nil => exact ⟨[], _, rfl, ⟨_, _, kind, rfl, rfl⟩, rfl, h⟩
          | cons lexeme first =>
              obtain ⟨rfl, hRest⟩ := List.cons.inj h
              obtain ⟨front, back, rfl, hStart, hFront, hBack⟩ := ih hRest
              refine ⟨⟨.token kind, chunk⟩ :: front, back, rfl, hStart, ?_, ?_⟩
              · rw [lexemes, hFront]
              · rw [text_cons, Text.byteLength_append, ← Nat.add_assoc]
                exact hBack

/-- Between two lexemes a text is cut behind the first one. -/
theorem exists_cut_behind (h : lexemes offset newline chunks = first ++ second)
    (hFirst : first ≠ []) :
    ∃ front back, chunks = front ++ back ∧ EndsWithToken front ∧
      lexemes offset newline front = first ∧
      lexemes (offset + Text.byteLength (text front)) (some false) back = second := by
  obtain ⟨init, last, rfl⟩ := List.eq_nil_or_concat first |>.resolve_left hFirst
  rw [List.concat_eq_append] at h ⊢
  rw [List.append_assoc] at h
  obtain ⟨front, back, rfl, ⟨⟨_, chunk⟩, rest, kind, rfl, rfl⟩, hFront, hBack⟩ :=
    exists_cut_before h (by simp)
  obtain ⟨hLast, hRest⟩ := List.cons.inj hBack
  refine ⟨front ++ [⟨.token kind, chunk⟩], rest, by simp, ⟨_, _, kind, rfl, rfl⟩, ?_, ?_⟩
  · rw [lexemes_append, hFront, ← hLast]
    rfl
  · refine Eq.trans ?_ (show _ = second from hRest)
    simp [Nat.add_assoc]

/-- What is kept of the line that opens a text. -/
def openingComments (lead : List Char) : List Comment :=
  if lead.isEmpty then []
  else [⟨.shebang, ⟨0, Text.byteLength lead⟩, String.ofList (commentBody .shebang lead)⟩]

/-- The tokens and comments of chunks behind the line that opens a text. -/
def layBehind (lead : List Char) (chunks : List Chunk) : TokenizedText where
  tokens := (lay (Text.byteLength lead) chunks).tokens
  comments := openingComments lead ++ (lay (Text.byteLength lead) chunks).comments

/-- A text is a list of chunks behind a line that may open it. -/
structure Layout (source : String) (lead : List Char) (chunks : List Chunk) : Prop where
  source_eq : source.toList = lead ++ text chunks
  run : ∃ final, Run ⟨true, []⟩ (text chunks) chunks final []
  lead : lead = [] ∨ ∃ line, lead = '#' :: '!' :: line ∧
    (∀ c ∈ line, Text.isLineTerminator c = false) ∧ EndsLine (text chunks)

/-- Nothing but the line that opens a text starts with a number sign. -/
theorem piece_numberSign {previous : Option Token} {braces : List Brace} {rest : List Char} :
    piece previous braces '#' rest = .error (.unexpectedCharacter '#') := by
  have hLength : punctuatorLength? ('#' :: rest) = none := by
    simp [punctuatorLength?, punctuators, List.isPrefixOf]
  unfold piece
  simp [show Text.isBlank '#' = false by decide, show Text.isWordStart '#' = false by decide,
    hLength]

theorem exists_of_map_eq_ok {α β ε : Type} {f : α → β} {first : Except ε α} {result : β}
    (h : f <$> first = .ok result) : ∃ value, first = .ok value ∧ f value = result := by
  cases first with
  | ok value => exact ⟨value, rfl, Except.ok.inj h⟩
  | error cause => cases h

theorem exists_layout_of_tokenize {source : String} {out : TokenizedText}
    (h : tokenize source = .ok out) :
    ∃ lead chunks, Layout source lead chunks ∧ out = layBehind lead chunks := by
  have hShebang : ∀ rest, source.toList = '#' :: '!' :: rest → ∃ lead chunks,
      Layout source lead chunks ∧ out = layBehind lead chunks := by
    intro rest hSource
    rw [tokenize_of_shebang hSource] at h
    obtain ⟨later, hScan, rfl⟩ := exists_of_map_eq_ok h
    obtain ⟨chunks, final, hRun, rfl⟩ := exists_run_of_scan hScan
    have hText := hRun.eq_append
    rw [List.append_nil] at hText
    refine ⟨'#' :: '!' :: rest.take (lineLength rest), chunks, ⟨?_, ⟨final, hText ▸ hRun⟩,
      .inr ⟨_, rfl, ?_, ?_⟩⟩, rfl⟩
    · rw [← hText]
      exact toList_eq_shebang_append hSource
    · intro c hc
      rw [lineLength, ← List.prefix_iff_eq_take.mp (List.takeWhile_prefix _)] at hc
      simpa using List.mem_takeWhile_imp hc
    · rw [← hText]
      exact endsLine_drop_lineLength rest
  by_cases hSource : ∃ rest, source.toList = '#' :: '!' :: rest
  · obtain ⟨rest, hSource⟩ := hSource
    exact hShebang rest hSource
  · have hScan : scan 0 none [] source.toList = .ok out := by
      rw [tokenize] at h
      split at h
      case h_1 rest hSome => exact absurd ⟨rest, hSome⟩ hSource
      case h_2 => exact h
    obtain ⟨chunks, final, hRun, rfl⟩ := exists_run_of_scan hScan
    have hText := hRun.eq_append
    rw [List.append_nil] at hText
    exact ⟨[], chunks, ⟨hText, ⟨final, hText ▸ hRun⟩, .inl rfl⟩, rfl⟩

namespace Layout

variable {source : String} {lead : List Char} {front : List Chunk}

/-- A list of chunks is scanned as the text that it is. -/
theorem tokenize_eq (h : Layout source lead chunks) :
    tokenize source = .ok (layBehind lead chunks) := by
  obtain ⟨final, hRun⟩ := h.run
  obtain rfl | ⟨line, rfl, hLine, hEnds⟩ := h.lead
  · have hScan := @Run.scan_eq _ _ _ _ _ hRun 0 none rfl rfl
    rw [tokenize, h.source_eq, List.nil_append]
    split
    case h_1 rest hSource =>
      rw [hSource] at hRun
      cases hRun with
      | cons _ hPiece =>
          rw [piece_numberSign] at hPiece
          cases hPiece
    case h_2 => exact hScan
  · have hSource : source.toList = '#' :: '!' :: (line ++ text chunks) := h.source_eq
    have hLength : lineLength (line ++ text chunks) = line.length := by
      have hNone : (text chunks).takeWhile (fun c => !Text.isLineTerminator c) = [] := by
        cases hText : text chunks with
        | nil => rfl
        | cons c cs => exact List.takeWhile_cons_of_neg (by simp [hEnds c (by rw [hText]; rfl)])
      rw [lineLength, List.takeWhile_append_of_pos (by simpa using hLine), hNone, List.append_nil]
    have hScan := @Run.scan_eq _ _ _ _ _ hRun (Text.byteLength ('#' :: '!' :: line)) none rfl rfl
    rw [tokenize_of_shebang hSource, hLength, List.take_left, List.drop_left, hScan]
    rfl

/-- A text has one layout behind its first line. -/
theorem chunks_eq (h : Layout source lead chunks) (h' : Layout source lead more) :
    chunks = more := by
  obtain ⟨_, hRun⟩ := h.run
  obtain ⟨_, hRun'⟩ := h'.run
  rw [List.append_cancel_left (h'.source_eq.symm.trans h.source_eq)] at hRun'
  exact hRun.chunks_eq hRun'

/-- The tokens of a text are in order, and each is spelt as its kind demands. -/
theorem inOrder_and_isSpelt (h : Layout source lead chunks) (newline : Option Bool) :
    Token.InOrder ((lexemes (Text.byteLength lead) newline chunks).map Lexeme.token) ∧
      ∀ lexeme ∈ lexemes (Text.byteLength lead) newline chunks, lexeme.token.IsSpelt := by
  rw [map_token_lexemes]
  refine ⟨(inOrder_of_tokenize h.tokenize_eq).1, fun lexeme hLexeme => ?_⟩
  have hToken := List.mem_map_of_mem (f := Lexeme.token) hLexeme
  rw [map_token_lexemes] at hToken
  obtain ⟨chunk, hChunk, hKind, hText⟩ := exists_chunk_of_mem_tokens hToken
  obtain ⟨_, hRun⟩ := h.run
  rw [Token.IsSpelt, hText]
  exact hRun.spelt chunk hChunk _ hKind

/-- Behind some chunks a text may go on with other ones. -/
theorem exchange (h : Layout source lead (front ++ chunks)) (hFront : front ≠ [])
    {final : State} (hRun : Run ⟨true, []⟩ (text (front ++ more)) (front ++ more) final []) :
    Layout (String.ofList (lead ++ text (front ++ more))) lead (front ++ more) where
  source_eq := String.toList_ofList
  run := ⟨final, hRun⟩
  lead := by
    refine h.lead.imp_right ?_
    rintro ⟨line, rfl, hLine, hEnds⟩
    refine ⟨line, rfl, hLine, ?_⟩
    obtain ⟨chunk, front, rfl⟩ := List.exists_cons_of_ne_nil hFront
    have hNonempty := hRun.text_ne_nil chunk (by simp)
    obtain ⟨c, cs, hText⟩ := List.exists_cons_of_ne_nil hNonempty
    intro d hd
    refine hEnds d ?_
    rw [List.cons_append, text_cons, hText] at hd ⊢
    exact hd

end Layout
end Lexer

open Lexer

/-- What is known around a whole text before it is read. -/
def Context.ofChunks (year : Nat) (lead : List Char) (chunks : List Chunk) : Context where
  year
  size := Text.byteLength (lead ++ text chunks)
  newlineAtEnd := (newlineAfter none chunks).getD false

/-- Where the reading of a whole text starts. -/
def Cursor.ofChunks (lead : List Char) (chunks : List Chunk) : Cursor where
  previousEnd := 0
  rest := lexemes (Text.byteLength lead) none chunks
  shorthandDefaults := []
  arena := #[]

namespace Lexer.Layout

variable {source : String} {lead : List Char} {chunks : List Chunk} {options : ParseOptions}
  {parsed : Parsed} {levels : Nat}

/-- With enough levels the tokens of a text are read from its chunks. -/
theorem parseTokens_eq (h : Layout source lead chunks) {out : TokenizedText}
    (hTokens : out.tokens = (lay (Text.byteLength lead) chunks).tokens)
    (hLevels : Grammar.levels out.tokens.length ≤ levels) (year : Nat) :
    parseTokens source year out.tokens = (do
      let (program, cursor) ← (Grammar.upTo levels : Grammar Production).program
        (.ofChunks year lead chunks) (.ofChunks lead chunks)
      return (program, .link cursor.arena program.id) : Except ParseError (Node × Ast)) := by
  have hSame := (@parseTokensWith_follows (fun _ => True) source out.tokens _ _ (Grammar.upTo 0)
    (Grammar.upTo 0) year trivial trivial (fun _ _ => ⟨trivial, trivial⟩) hLevels le_rfl).1
  have hSource : source.toList = lead ++ text chunks ++ [] := by
    rw [h.source_eq, List.append_nil]
  have hLexemes := ofTokens_lay hSource Since.atStart
  have hNewline : (out.tokens.getLast?.any fun last => newlineBetween source.toList last.span.stop
      (Text.byteLength source.toList)) = (newlineAfter none chunks).getD false := by
    have hSince := @Since.lay none chunks lead none .atStart
    rw [Option.or_none, ← hTokens] at hSince
    cases hLast : out.tokens.getLast? with
    | none =>
        rw [hLast] at hSince
        generalize newlineAfter none chunks = newline at hSince
        cases hSince
        rfl
    | some last =>
        rw [hLast] at hSince
        generalize newlineAfter none chunks = newline at hSince
        generalize hEnd : (some last : Option Token).map (fun token => token.span.stop) = stop at hSince
        cases hSince with
        | atStart => cases hEnd
        | @behind before gap hGap =>
            have hStop : last.span.stop = Text.byteLength before := Option.some.inj hEnd
            have hAll : source.toList = before ++ gap ++ [] ++ [] ++ [] := by
              simp [h.source_eq, hGap]
            have hBetween := newlineBetween_eq hAll
            rw [Option.any_some, hStop, h.source_eq, hGap, Option.getD_some, ← hBetween, hAll]
            simp
  rw [Grammar.above_upTo_zero, Grammar.above_upTo_zero] at hSame
  rw [parseTokens, hSame, ParserState.start, hNewline, hTokens, hLexemes, h.source_eq]
  rfl

/-- What a text is read as is what its chunks are read as on every higher level. -/
theorem exists_run_of_parse (h : Layout source lead chunks)
    (hParse : parse source options = .ok parsed) :
    parsed.tokens = (lay (Text.byteLength lead) chunks).tokens ∧
      ∀ levels, Grammar.levels parsed.tokens.length ≤ levels →
        ∃ later, (Grammar.upTo levels : Grammar Production).program
          (.ofChunks options.year lead chunks) (.ofChunks lead chunks) =
            .ok (parsed.program, later) := by
  obtain ⟨_, hFirst, hParse⟩ := exists_of_bind_eq_ok hParse
  cases h.tokenize_eq.symm.trans hFirst
  obtain ⟨⟨program, ast⟩, hProgram, ⟨⟩⟩ := exists_of_bind_eq_ok hParse
  refine ⟨rfl, fun levels hLevels => ?_⟩
  rw [h.parseTokens_eq rfl hLevels] at hProgram
  obtain ⟨⟨_, later⟩, hRun, ⟨⟩⟩ := exists_of_bind_eq_ok hProgram
  exact ⟨later, hRun⟩

/-- What the chunks of a text are read as on some high level is what the text is read as. -/
theorem exists_parse_of_run (h : Layout source lead chunks) {program : Node} {later : Cursor}
    (hRun : (Grammar.upTo levels : Grammar Production).program
      (.ofChunks options.year lead chunks) (.ofChunks lead chunks) = .ok (program, later))
    (hLevels : Grammar.levels (lay (Text.byteLength lead) chunks).tokens.length ≤ levels) :
    ∃ parsed, parse source options = .ok parsed ∧ parsed.program = program := by
  have hTokens : (layBehind lead chunks).tokens = (lay (Text.byteLength lead) chunks).tokens := rfl
  refine ⟨⟨program, .link later.arena program.id, (layBehind lead chunks).tokens,
    (layBehind lead chunks).comments⟩, ?_, rfl⟩
  have hProgram := h.parseTokens_eq hTokens hLevels options.year
  rw [hRun] at hProgram
  unfold parse
  rw [h.tokenize_eq]
  change (parseTokens source options.year (layBehind lead chunks).tokens >>= _) = _
  rw [hProgram]
  rfl

end Lexer.Layout

end EcmaLint
