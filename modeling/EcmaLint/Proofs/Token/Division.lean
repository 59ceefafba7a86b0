import Mathlib.Control.Monad.Basic
import EcmaLint.Proofs.Token.Locality
import EcmaLint.Proofs.Token.Slices

/-! What a slash means. A token that starts with a slash is an operator or a regular expression, and
only the token before it decides which of the two. Behind a token that completes an operand it is an
operator. A `++` or `--` tells nothing of what stands before it, so behind an update a slash opens a
regular expression, also where the update is complete. -/
namespace EcmaLint

/-- The token is written with a slash in front. -/
def Token.StartsWithSlash (token : Token) : Prop := token.text.toList.head? = some '/'

/-- The token completes an operand wherever it stands. The words `yield`, `await` and `of` may be
operators. -/
def Token.endsOperand (token : Token) : Bool :=
  match token.kind with
  | .identifier => !(["yield", "await", "of"].contains token.text)
  | .numeric | .string | .boolean | .null | .regularExpression => true
  | .keyword => ["this", "super"].contains token.text
  | .punctuator => token.text == "]"
  | .template => token.text.toList.getLast? == some '`'

/-- The token is a `++` or a `--`. -/
def Token.isUpdate (token : Token) : Bool :=
  token.isPunctuator "++" || token.isPunctuator "--"

namespace Lexer

/-- What a token that starts with a slash is behind another token. -/
def slashKind (previous : Option Token) : TokenKind :=
  if regexAllowed previous then .regularExpression else .punctuator

theorem slashKind_of_endsOperand {token : Token} (h : token.endsOperand = true) :
    slashKind (some token) = .punctuator := by
  have hDivides : regexAllowed (some token) = false := by
    unfold Token.endsOperand at h
    unfold regexAllowed
    cases hKind : token.kind <;> simp only [hKind] at h ⊢
    case keyword =>
      -- neither of the two words is among those that an operand follows
      simp only [List.contains_iff_mem, List.mem_cons, List.not_mem_nil, or_false] at h
      rcases h with hText | hText <;> rw [hText] <;> decide
    case punctuator =>
      rw [beq_iff_eq] at h
      rw [h]
      decide
    case template => simpa using h
  rw [slashKind, hDivides]
  rfl

theorem slashKind_of_isUpdate {token : Token} (h : token.isUpdate = true) :
    slashKind (some token) = .regularExpression := by
  have hOpens : regexAllowed (some token) = true := by
    unfold Token.isUpdate Token.isPunctuator at h
    simp only [Bool.or_eq_true, Bool.and_eq_true, beq_iff_eq] at h
    rcases h with ⟨hKind, hText⟩ | ⟨hKind, hText⟩ <;>
      simp only [regexAllowed, hKind, hText] <;> decide
  rw [slashKind, hOpens]
  rfl

/-- A slash opens a comment, or the token before it decides. -/
theorem kind_eq_slashKind_of_piece {previous : Option Token} {braces : List Brace}
    {rest : List Char} {found : Piece} {kind : TokenKind}
    (h : piece previous braces '/' rest = .ok found) (hKind : found.kind = .token kind) :
    kind = slashKind previous := by
  by_cases hLine : rest.head? = some '/'
  · rw [piece_lineComment hLine] at h
    cases h
    cases hKind
  by_cases hBlock : rest.head? = some '*'
  · rw [piece_blockComment hBlock] at h
    split at h
    case h_1 => cases h
    case h_2 =>
      cases h
      cases hKind
  rw [piece_operator hLine hBlock] at h
  unfold slashKind
  split at h
  case isTrue hRegex =>
    rw [if_pos hRegex]
    split at h
    case h_1 => cases h
    case h_2 =>
      cases h
      cases hKind
      rfl
  case isFalse hRegex =>
    rw [if_neg hRegex]
    cases h
    cases hKind
    rfl

/-- Each token that starts with a slash is what the token before it makes of it. Before the first
token of a scan stands the one that was read last. -/
theorem kind_eq_slashKind_of_scan {offset : Nat} {previous : Option Token} {braces : List Brace}
    {cs : List Char} {out : TokenizedText} (h : scan offset previous braces cs = .ok out)
    {front back : List Token} {token : Token} (hTokens : out.tokens = front ++ token :: back)
    (hSlash : token.StartsWithSlash) : token.kind = slashKind (front.getLast?.or previous) := by
  fun_induction scan offset previous braces cs generalizing out front with
  | case1 =>
      cases h
      simp at hTokens
  | case2 => cases h
  | case3 => cases h
  | case4 offset previous braces c rest found hPiece text span latest later =>
      rename_i hLater ih
      cases h
      cases hKind : found.kind with
      | blank | comment =>
          have hLatest : latest = previous := by simp only [latest, hKind]
          rw [hKind] at hTokens
          rw [← hLatest]
          exact ih hLater hTokens
      | token kind =>
          have hLatest : latest = some ⟨kind, span, String.ofList text⟩ := by
            simp only [latest, hKind]
          rw [hKind] at hTokens
          cases front with
          | nil =>
              obtain ⟨rfl, -⟩ := List.cons.inj hTokens
              obtain rfl : c = '/' := by simpa [Token.StartsWithSlash, text] using hSlash
              exact kind_eq_slashKind_of_piece hPiece hKind
          | cons first front =>
              obtain ⟨rfl, hRest⟩ := List.cons.inj hTokens
              have hToken := ih hLater hRest
              rw [hLatest] at hToken
              rw [List.getLast?_cons, hToken]
              cases front.getLast? <;> rfl

end Lexer

/-- Each token of a text that starts with a slash is what the token before it makes of it. -/
theorem kind_eq_slashKind_of_tokenize {source : String} {out : TokenizedText}
    (h : tokenize source = .ok out) {front back : List Token} {token : Token}
    (hTokens : out.tokens = front ++ token :: back) (hSlash : token.StartsWithSlash) :
    token.kind = Lexer.slashKind front.getLast? := by
  rw [← Option.or_none (o := front.getLast?)]
  unfold tokenize at h
  split at h
  case h_1 rest hSource =>
    dsimp only at h
    split at h
    case h_1 => cases h
    case h_2 later hScan =>
      cases h
      exact Lexer.kind_eq_slashKind_of_scan hScan hTokens hSlash
  case h_2 => exact Lexer.kind_eq_slashKind_of_scan h hTokens hSlash

/-- How the slashes of a text are read. -/
structure TokenizedText.ReadsSlashes (out : TokenizedText) : Prop where
  /-- With nothing before it a slash opens a regular expression. -/
  first : ∀ slash back, out.tokens = slash :: back → slash.StartsWithSlash →
    slash.kind = .regularExpression
  /-- Behind a complete operand it is an operator. -/
  behindOperand : ∀ front operand slash back, out.tokens = front ++ operand :: slash :: back →
    operand.endsOperand = true → slash.StartsWithSlash → slash.kind = .punctuator
  /-- Behind an update it opens a regular expression, whatever stands before the update. -/
  behindUpdate : ∀ front update slash back, out.tokens = front ++ update :: slash :: back →
    update.isUpdate = true → slash.StartsWithSlash → slash.kind = .regularExpression

/-- Behind a complete operand every slash divides; behind an update none does. -/
theorem tokenize_readsSlashes {source : String} {out : TokenizedText}
    (h : tokenize source = .ok out) : out.ReadsSlashes := by
  have hBehind : ∀ front before slash back, out.tokens = front ++ before :: slash :: back →
      slash.StartsWithSlash → slash.kind = Lexer.slashKind (some before) := by
    intro front before slash back hTokens hSlash
    have hSplit : out.tokens = (front ++ [before]) ++ slash :: back := by simpa using hTokens
    rw [kind_eq_slashKind_of_tokenize h hSplit hSlash, List.getLast?_concat]
  refine
    { first := fun slash back hTokens hSlash => ?_
      behindOperand := fun front operand slash back hTokens hOperand hSlash => ?_
      behindUpdate := fun front update slash back hTokens hUpdate hSlash => ?_ }
  · have hSplit : out.tokens = [] ++ slash :: back := hTokens
    exact kind_eq_slashKind_of_tokenize h hSplit hSlash
  · rw [hBehind front operand slash back hTokens hSlash, Lexer.slashKind_of_endsOperand hOperand]
  · rw [hBehind front update slash back hTokens hSlash, Lexer.slashKind_of_isUpdate hUpdate]

/-- Two slashes behind a complete update are read as one regular expression, where the numbers
around them show that both divide. -/
theorem tokenize_readsSlashes_update :
    ∃ out, tokenize "i++ / 2 / 3" = .ok out ∧
      out.tokens.map Token.text = ["i", "++", "/ 2 /", "3"] ∧ out.ReadsSlashes := by
  have hOk : ∃ out, tokenize "i++ / 2 / 3" = .ok out ∧
      out.tokens.map Token.text = ["i", "++", "/ 2 /", "3"] := by
    refine ⟨⟨[⟨.identifier, ⟨0, 1⟩, "i"⟩, ⟨.punctuator, ⟨1, 3⟩, "++"⟩,
      ⟨.regularExpression, ⟨4, 9⟩, "/ 2 /"⟩, ⟨.numeric, ⟨10, 11⟩, "3"⟩], []⟩, ?_, rfl⟩
    decide +kernel
  obtain ⟨out, hOut, hTokens⟩ := hOk
  exact ⟨out, hOut, hTokens, tokenize_readsSlashes hOut⟩

end EcmaLint
