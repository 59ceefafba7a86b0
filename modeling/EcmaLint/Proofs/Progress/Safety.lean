import EcmaLint.Proofs.Edition.Program
import EcmaLint.Proofs.Progress.Program
import EcmaLint.Proofs.Token.Order
import EcmaLint.Proofs.Token.Slices

/-! No text is too broken to be read. Whatever is cut out of a program lies inside it: the pieces
of the text, the parts of its literals and the gaps between its tokens. What is refused is refused
at a character boundary, because tokens start and end at boundaries and the parser has no other
offsets to complain about. -/
namespace EcmaLint

open Text (IsBoundary)

theorem Text.exists_slice? {cs : List Char} {start stop : Nat} (hStart : IsBoundary start cs)
    (hStop : IsBoundary stop cs) (hLe : start ≤ stop) :
    ∃ gap, Text.slice? start stop cs = some gap := by
  obtain ⟨front, tail, hFront, rfl⟩ := hStart
  obtain ⟨head, back, hHead, rfl⟩ := hStop
  obtain ⟨gap, rfl, -⟩ := Text.exists_eq_append_of_byteLength_le (hFront.symm.trans hHead) hLe
  exact ⟨gap, Text.slice?_eq_some_iff.mpr ⟨front, back, hHead, rfl, (byteLength_append _ _).symm⟩⟩

/-- Whether a line ends between two offsets, as far as there is a text between them. -/
def newlineBetween? (source : List Char) (start stop : Nat) : Option Bool :=
  (Text.slice? start stop source).map fun gap => gap.any Text.isLineTerminator

/-- Tokens with the line ends before them, each found by cutting out the gap before the token. -/
def Lexeme.ofTokens? (source : List Char) : Option Nat → List Token → Option (List Lexeme)
  | _, [] => some []
  | previous, token :: rest => do
      let newlineBefore ←
        match previous with
        | none => some false
        | some stop => newlineBetween? source stop token.span.start
      let later ← ofTokens? source (some token.span.stop) rest
      return { token, newlineBefore } :: later

theorem newlineBetween?_eq {source : List Char} {start stop : Nat}
    (hStart : IsBoundary start source) (hStop : IsBoundary stop source) (hLe : start ≤ stop) :
    newlineBetween? source start stop = some (newlineBetween source start stop) := by
  obtain ⟨gap, hGap⟩ := Text.exists_slice? hStart hStop hLe
  rw [newlineBetween?, newlineBetween, hGap]
  rfl

/-- The gaps between tokens that stand behind one another can be cut out. -/
theorem Lexeme.ofTokens?_eq {source : List Char} {tokens : List Token} {previous : Option Nat}
    (hBoundaries : ∀ token ∈ tokens,
      IsBoundary token.span.start source ∧ IsBoundary token.span.stop source)
    (hApart : tokens.Pairwise fun a b => a.span.stop ≤ b.span.start)
    (hPrevious : ∀ stop ∈ previous, IsBoundary stop source ∧
      ∀ token ∈ tokens, stop ≤ token.span.start) :
    ofTokens? source previous tokens = some (ofTokens source previous tokens) := by
  induction tokens generalizing previous with
  | nil => rfl
  | cons token rest ih =>
      obtain ⟨⟨hStart, hStop⟩, hRest⟩ := List.forall_mem_cons.mp hBoundaries
      obtain ⟨hBehind, hApart⟩ := List.pairwise_cons.mp hApart
      have hLater : ofTokens? source (some token.span.stop) rest =
          some (ofTokens source (some token.span.stop) rest) := by
        refine ih hRest hApart ?_
        rintro _ ⟨⟩
        exact ⟨hStop, hBehind⟩
      cases previous with
      | none => simp [ofTokens?, ofTokens, hLater]
      | some stop =>
          obtain ⟨hBoundary, hLe⟩ := hPrevious stop rfl
          have hGap := newlineBetween?_eq hBoundary hStart (hLe token List.mem_cons_self)
          simp [ofTokens?, ofTokens, hLater, hGap]

/-- Read a program from its tokens, with the gaps between them cut out of it. -/
def parseTokensAt? (source : String) (year : Nat) (tokens : List Token) :
    Option (Except ParseError (Node × Ast)) := do
  let characters := source.toList
  let size := Text.byteLength characters
  let newlineAtEnd ←
    match tokens.getLast? with
    | none => some false
    | some last => newlineBetween? characters last.span.stop size
  let rest ← Lexeme.ofTokens? characters none tokens
  let state : ParserState :=
    { context := { year, size, newlineAtEnd }
      cursor := { previousEnd := 0, rest, shorthandDefaults := [], arena := #[] } }
  return do
    let (program, { cursor, .. }) ←
      Parser.outcome (Grammar.upTo (Grammar.levels tokens.length)).program state
    return (program, .link cursor.arena program.id)

/-- Read a program, with everything that is cut out of it cut out by offsets. -/
def parseAt? (source : String) (options : ParseOptions) : Option (Except ParseError Parsed) := do
  match ← tokenizeAt? source with
  | .error error => return .error error
  | .ok out =>
      let tree ← parseTokensAt? source options.year out.tokens
      return (fun tree => ⟨tree.1, tree.2, out.tokens, out.comments⟩) <$> tree

/-- Tokens start and end at character boundaries. -/
theorem isBoundary_of_mem_tokens {source : String} {out : TokenizedText}
    (h : tokenize source = .ok out) : ∀ token ∈ out.tokens,
      IsBoundary token.span.start source.toList ∧ IsBoundary token.span.stop source.toList := by
  intro token hToken
  have hText := (Lexer.cuts_of_tokenize h).token_text (List.nil_append _).symm rfl token hToken
  have hCovers := Span.covers_of_text?_eq_some hText
  exact ⟨hCovers.start_isBoundary, hCovers.stop_isBoundary⟩

theorem isBoundary_zero (cs : List Char) : IsBoundary 0 cs := ⟨[], cs, rfl, rfl⟩

theorem isBoundary_byteLength (cs : List Char) : IsBoundary (Text.byteLength cs) cs :=
  ⟨cs, [], (List.append_nil cs).symm, rfl⟩

theorem parseTokensAt?_eq {source : String} {out : TokenizedText} (h : tokenize source = .ok out)
    (year : Nat) :
    parseTokensAt? source year out.tokens = some (parseTokens source year out.tokens) := by
  have hBoundaries := isBoundary_of_mem_tokens h
  have hGaps := Lexeme.ofTokens?_eq hBoundaries (Lexer.cuts_of_tokenize h).tokens_apart
    (show ∀ stop ∈ (none : Option Nat), _ from fun _ hStop => nomatch hStop)
  cases hLast : out.tokens.getLast? with
  | none => simp [parseTokensAt?, parseTokens, parseTokensWith, ParserState.start, hLast, hGaps]
  | some last =>
      have hStop := (hBoundaries last (List.mem_of_getLast? hLast)).2
      have hGap := newlineBetween?_eq hStop (isBoundary_byteLength source.toList) hStop.le
      simp [parseTokensAt?, parseTokens, parseTokensWith, ParserState.start, hLast, hGaps, hGap]

theorem parseAt?_eq (source : String) (options : ParseOptions) :
    parseAt? source options = some (parse source options) := by
  rw [parseAt?, tokenizeAt?_eq, Option.bind_eq_bind, Option.bind_some]
  cases hTokenize : tokenize source with
  | error error =>
      rw [parse, hTokenize]
      rfl
  | ok out =>
      dsimp only
      rw [parseTokensAt?_eq hTokenize, parse_of_tokenize hTokenize]
      rfl

/-- A program that cannot be read is refused at a character boundary. -/
theorem isBoundary_of_parse {source : String} {options : ParseOptions} {error : ParseError}
    (h : parse source options = .error error) : IsBoundary error.offset source.toList := by
  cases hTokenize : tokenize source with
  | error error' =>
      rw [parse, hTokenize] at h
      cases h
      exact isBoundary_of_tokenize hTokenize
  | ok out =>
      rw [parse_of_tokenize hTokenize] at h
      obtain ⟨-, hLands⟩ :=
        @parseTokensWith_follows (fun offset => IsBoundary offset source.toList) source
          out.tokens _ _ (Grammar.upTo 0) (Grammar.upTo 0) options.year (isBoundary_zero _)
          (isBoundary_byteLength _) (isBoundary_of_mem_tokens hTokenize) le_rfl le_rfl
      rw [Grammar.above_upTo_zero] at hLands
      change Lands _ _ (parseTokens source options.year out.tokens) at hLands
      cases hTree : parseTokens source options.year out.tokens with
      | ok tree =>
          rw [hTree] at h
          cases h
      | error error' =>
          rw [hTree] at h hLands
          cases h
          exact hLands

/-- Reading is safe on every text. Cutting by offsets, where a slice outside the text or inside a
character would leave no result, gives the tokens and the tree that taking the text apart gives;
the parts of every literal are slices of its token; and what is refused is refused at a character
boundary of the text. -/
theorem parse_slicesInside (source : String) (options : ParseOptions) :
    tokenizeAt? source = some (tokenize source) ∧
      parseAt? source options = some (parse source options) ∧
      (∀ out, tokenize source = .ok out → ∀ token ∈ out.tokens, token.SlicesInside) ∧
      ∀ error, tokenize source = .error error ∨ parse source options = .error error →
        error.offset ≤ Text.byteLength source.toList ∧
          IsBoundary error.offset source.toList := by
  refine ⟨tokenizeAt?_eq source, parseAt?_eq source options,
    fun out hTokenize => slicesInside_of_tokenize hTokenize, ?_⟩
  intro error hError
  have hBoundary : IsBoundary error.offset source.toList :=
    hError.elim isBoundary_of_tokenize isBoundary_of_parse
  exact ⟨hBoundary.le, hBoundary⟩

end EcmaLint
