import Mathlib.Data.List.TakeWhile
import Mathlib.Tactic.IntervalCases
import EcmaLint.Proofs.Exchange.Looks
import EcmaLint.Proofs.Token.Runs

/-! How tokens are spelt. The first characters of a token tell its kind, so that a word, a number or
a punctuator is known by its text alone, and a word is the same token wherever it stands. -/
namespace EcmaLint

namespace Lexer

/-- The texts of all punctuators. -/
def symbols : List String := ["\x7b", "\x7d", "/", "/="] ++ punctuators

/-- How a token of each kind is spelt, as far as its first characters go. -/
inductive Spelt : TokenKind → List Char → Prop where
  | word {c : Char} {cs : List Char} (hStart : Text.isWordStart c = true)
      (hParts : ∀ d ∈ cs, Text.isWordPart d = true) :
      Spelt (.ofWord (String.ofList (c :: cs))) (c :: cs)
  | number {c : Char} {cs : List Char} (hDigit : c.isDigit = true) : Spelt .numeric (c :: cs)
  | fraction {d : Char} {cs : List Char} (hDigit : d.isDigit = true) :
      Spelt .numeric ('.' :: d :: cs)
  | string {c : Char} {cs : List Char} (hQuote : c = '"' ∨ c = '\'') : Spelt .string (c :: cs)
  | template {c : Char} {cs : List Char} (hOpens : c = '`' ∨ c = '}') : Spelt .template (c :: cs)
  | regularExpression {cs : List Char} : Spelt .regularExpression ('/' :: cs)
  | punctuator {text : String} (hText : text ∈ symbols) : Spelt .punctuator text.toList

variable {previous : Option Token} {braces : List Brace} {c : Char} {rest : List Char}
  {found : Piece}

/-- A piece of a template starts with a backtick or with a brace. -/
theorem Spelt.opens_of_template (h : Spelt .template (c :: rest)) : c = '`' ∨ c = '}' := by
  generalize hKind : TokenKind.template = kind at h
  generalize hText : c :: rest = cs at h
  cases h with
  | template hOpens => exact (List.cons.inj hText).1 ▸ hOpens
  | @word d cs =>
      have hWord := ofWord_mem_wordKinds (String.ofList (d :: cs))
      rw [← hKind] at hWord
      exact absurd hWord (by decide)
  | _ => cases hKind

theorem take_wordLength (cs : List Char) : cs.take (wordLength cs) = cs.takeWhile Text.isWordPart :=
  (List.prefix_iff_eq_take.mp (List.takeWhile_prefix _)).symm

theorem isWordPart_of_mem_takeWhile {cs : List Char} :
    ∀ d ∈ cs.takeWhile Text.isWordPart, Text.isWordPart d = true := fun _ hd =>
  List.mem_takeWhile_imp hd

/-- A punctuator is cut off the text as it is spelt. -/
theorem exists_of_punctuatorLength? {n : Nat} (h : punctuatorLength? (c :: rest) = some n) :
    ∃ text ∈ punctuators, c :: rest.take (n - 1) = text.toList := by
  obtain ⟨text, hFind, rfl⟩ := Option.map_eq_some_iff.mp h
  have hMem := List.mem_of_find?_eq_some hFind
  have hPrefix : text.toList <+: c :: rest := by
    have hFound := List.find?_some hFind
    exact List.isPrefixOf_iff_prefix.mp hFound
  have hNonempty : ∀ text ∈ punctuators, text.toList ≠ [] := by decide +kernel
  obtain ⟨first, tail, hText⟩ := List.exists_cons_of_ne_nil (hNonempty text hMem)
  refine ⟨text, hMem, ?_⟩
  rw [hText, List.cons_prefix_cons] at hPrefix
  obtain ⟨rfl, hTail⟩ := hPrefix
  have hLength : text.length - 1 = tail.length := by
    rw [← String.length_toList, hText, List.length_cons, Nat.add_sub_cancel]
  rw [hLength, ← List.prefix_iff_eq_take.mp hTail, hText]

theorem spelt_of_templatePiece (hOpens : c = '`' ∨ c = '}')
    (h : templatePiece braces rest = .ok found) {kind : TokenKind} (hKind : found.kind = .token kind) :
    Spelt kind (c :: rest.take found.more) := by
  unfold templatePiece at h
  split at h
  case h_1 => cases h
  case h_2 =>
    cases h
    cases hKind
    exact .template hOpens

/-- What starts with a slash and is a token is a regular expression or a division. -/
theorem spelt_of_slash (h : piece previous braces '/' rest = .ok found) {kind : TokenKind}
    (hKind : found.kind = .token kind) : Spelt kind ('/' :: rest.take found.more) := by
  by_cases hLine : rest.head? = some '/'
  · rw [piece_lineComment hLine] at h
    cases h
    cases hKind
  by_cases hBlock : rest.head? = some '*'
  · rw [piece_blockComment hBlock] at h
    split at h
    case h_1 => cases h
    case h_2 =>
      cases h
      cases hKind
  rw [piece_operator hLine hBlock] at h
  split at h
  case isTrue =>
    split at h
    case h_1 => cases h
    case h_2 =>
      cases h
      cases hKind
      exact .regularExpression
  case isFalse =>
    cases h
    cases hKind
    by_cases hEqual : rest.head? = some '='
    · obtain ⟨tail, rfl⟩ := List.head?_eq_some_iff.mp hEqual
      exact @Spelt.punctuator "/=" (by decide)
    · rw [beq_eq_false_iff_ne.mpr hEqual]
      exact @Spelt.punctuator "/" (by decide)

theorem spelt_of_piece (h : piece previous braces c rest = .ok found) {kind : TokenKind}
    (hKind : found.kind = .token kind) : Spelt kind (c :: rest.take found.more) := by
  by_cases hSlash : c = '/'
  · subst hSlash
    exact spelt_of_slash h hKind
  unfold piece at h
  rw [if_neg (by simpa using hSlash : ¬(c == '/') = true)] at h
  split at h
  case isTrue =>
    cases h
    cases hKind
  split at h
  case isTrue hStart =>
    cases h
    cases hKind
    dsimp only
    rw [take_wordLength]
    exact .word hStart isWordPart_of_mem_takeWhile
  split at h
  case isTrue hDigit =>
    cases h
    cases hKind
    exact .number hDigit
  split at h
  case isTrue hPoint =>
    obtain ⟨hPoint, hDigit⟩ := Bool.and_eq_true_iff.mp hPoint
    obtain rfl : c = '.' := by simpa using hPoint
    obtain ⟨d, hHead, hDigit⟩ := (Option.any_eq_true _ _).mp hDigit
    obtain ⟨tail, rfl⟩ := List.head?_eq_some_iff.mp hHead
    have hMore : 0 < fractionLength ('.' :: d :: tail) - 1 := by
      have hDigits : 0 < digitsLength Char.isDigit (d :: tail) := by
        unfold digitsLength
        split <;> simp_all
        split <;> omega
      rw [fractionLength, List.drop_one, List.tail_cons]
      omega
    cases h
    cases hKind
    obtain ⟨n, hn⟩ := Nat.exists_eq_succ_of_ne_zero (Nat.pos_iff_ne_zero.mp hMore)
    rw [hn, Nat.succ_eq_add_one, List.take_succ_cons]
    exact .fraction hDigit
  split at h
  case isTrue hQuote =>
    split at h
    case h_1 => cases h
    case h_2 =>
      cases h
      cases hKind
      exact .string (by simpa using hQuote)
  split at h
  case isTrue hTick => exact spelt_of_templatePiece (.inl (by simpa using hTick)) h hKind
  split at h
  case isTrue hBrace =>
    cases h
    cases hKind
    obtain rfl : c = '{' := by simpa using hBrace
    exact @Spelt.punctuator "\x7b" (by decide)
  split at h
  case isTrue hBrace =>
    obtain rfl : c = '}' := by simpa using hBrace
    split at h
    case h_1 => exact spelt_of_templatePiece (.inr rfl) h hKind
    case h_2 =>
      cases h
      cases hKind
      exact @Spelt.punctuator "\x7d" (by decide)
  split at h
  case h_1 n hLength =>
    cases h
    cases hKind
    obtain ⟨text, hText, hTake⟩ := exists_of_punctuatorLength? hLength
    dsimp only
    rw [hTake]
    exact .punctuator (List.mem_append_right _ hText)
  case h_2 => cases h

theorem Run.spelt {state final : State} {cs left : List Char} {chunks : List Chunk}
    (h : Run state cs chunks final left) :
    ∀ chunk ∈ chunks, ∀ kind, chunk.kind = .token kind → Spelt kind chunk.text := by
  induction h with
  | nil => simp
  | cons _ hPiece _ ih =>
      exact List.forall_mem_cons.mpr ⟨fun _ hKind => spelt_of_piece hPiece hKind, ih⟩

theorem exists_chunk_of_mem_tokens {offset : Nat} {chunks : List Chunk} {token : Token}
    (h : token ∈ (lay offset chunks).tokens) :
    ∃ chunk ∈ chunks, chunk.kind = .token token.kind ∧ token.text.toList = chunk.text := by
  induction chunks generalizing offset with
  | nil => cases h
  | cons chunk chunks ih =>
      obtain ⟨kind, text⟩ := chunk
      have hRest : token ∈ (lay (offset + Text.byteLength text) chunks).tokens →
          ∃ chunk ∈ ⟨kind, text⟩ :: chunks, chunk.kind = .token token.kind ∧
            token.text.toList = chunk.text := by
        intro hMem
        obtain ⟨chunk, hChunk, hSame⟩ := ih hMem
        exact ⟨chunk, List.mem_cons_of_mem _ hChunk, hSame⟩
      cases kind with
      | blank | comment => exact hRest h
      | token kind =>
          rcases List.mem_cons.mp h with rfl | hMem
          · exact ⟨_, List.mem_cons_self, rfl, String.toList_ofList⟩
          · exact hRest hMem

end Lexer

open Lexer

/-- A token is spelt as its kind demands. -/
def Token.IsSpelt (token : Token) : Prop := Spelt token.kind token.text.toList

/-- No token starts with the end of a line. -/
theorem Token.IsSpelt.exists_cons {token : Token} (h : token.IsSpelt) :
    ∃ c cs, token.text.toList = c :: cs ∧ c ≠ '\n' := by
  have hSymbols : (symbols.all fun text => text.toList.head?.any (· != '\n')) = true := by
    decide +kernel
  rw [IsSpelt] at h
  generalize token.kind = kind at h
  generalize token.text.toList = cs at h
  cases h with
  | word hStart => exact ⟨_, _, rfl, by rintro rfl; exact absurd hStart (by decide)⟩
  | number hDigit => exact ⟨_, _, rfl, by rintro rfl; exact absurd hDigit (by decide)⟩
  | string hQuote => exact ⟨_, _, rfl, by rintro rfl; exact absurd hQuote (by decide)⟩
  | template hOpens => exact ⟨_, _, rfl, by rintro rfl; exact absurd hOpens (by decide)⟩
  | fraction | regularExpression => exact ⟨_, _, rfl, by decide⟩
  | punctuator hText =>
      obtain ⟨c, hHead, hc⟩ := (Option.any_eq_true _ _).mp (List.all_eq_true.mp hSymbols _ hText)
      obtain ⟨cs, hCs⟩ := List.head?_eq_some_iff.mp hHead
      exact ⟨c, cs, hCs, by simpa using hc⟩

namespace Lexeme

variable {lexeme : Lexeme} {text : String}

theorem kind_of_is (h : lexeme.is text = true) : lexeme.token.kind ≠ .string ∧
    lexeme.token.kind ≠ .template ∧ lexeme.token.kind ≠ .regularExpression := by
  unfold is at h
  split at h
  · cases h
  · cases h
  · cases h
  · exact ⟨‹_›, ‹_›, ‹_›⟩

/-- No symbol starts like a word or like a number. -/
theorem head_of_mem_symbols : ∀ text ∈ symbols, ∀ c ∈ text.toList.head?,
    Text.isWordStart c = false ∧ c.isDigit = false ∧
      text.toList.tail.head?.any Char.isDigit = false := by
  have hAll : (symbols.all fun text => text.toList.head?.all fun c => !Text.isWordStart c &&
      (!c.isDigit && !text.toList.tail.head?.any Char.isDigit)) = true := by
    decide +kernel
  intro text hText c hc
  have hFirst := List.all_eq_true.mp hAll text hText
  rw [Option.mem_def.mp hc] at hFirst
  simpa using hFirst

/-- No word starts with a digit. -/
theorem isWordStart_of_isDigit {c : Char} (h : c.isDigit = true) : Text.isWordStart c = false := by
  have hRange : 48 ≤ c.toNat ∧ c.toNat ≤ 57 := by
    simpa [Char.isDigit, UInt32.le_iff_toNat_le] using h
  rw [← Char.ofNat_toNat c]
  obtain ⟨hLow, hHigh⟩ := hRange
  generalize c.toNat = n at hLow hHigh ⊢
  interval_cases n <;> decide

/-- What looks like a punctuator is one. -/
theorem kind_eq_punctuator (hSpelt : lexeme.token.IsSpelt) (h : lexeme.is text = true)
    (hText : text ∈ symbols) : lexeme.token.kind = .punctuator := by
  obtain ⟨hString, hTemplate, hRegex⟩ := kind_of_is h
  have hEq := text_eq_of_is h
  have hHead := head_of_mem_symbols text hText
  rw [Token.IsSpelt, hEq] at hSpelt
  generalize lexeme.token.kind = kind at hSpelt hString hTemplate hRegex ⊢
  generalize text.toList = cs at hSpelt hHead
  cases hSpelt with
  | word hStart => exact absurd ((hHead _ rfl).1.symm.trans hStart) Bool.false_ne_true
  | number hDigit => exact absurd ((hHead _ rfl).2.1.symm.trans hDigit) Bool.false_ne_true
  | fraction hDigit =>
      exact absurd ((hHead _ rfl).2.2.symm.trans (by simpa using hDigit)) Bool.false_ne_true
  | string => exact absurd rfl hString
  | template => exact absurd rfl hTemplate
  | regularExpression => exact absurd rfl hRegex
  | punctuator => rfl

/-- What looks like a word is that word. -/
theorem kind_eq_ofWord (hSpelt : lexeme.token.IsSpelt) (h : lexeme.is text = true)
    (hText : ∃ c ∈ text.toList.head?, Text.isWordStart c = true) :
    lexeme.token.kind = .ofWord text := by
  obtain ⟨hString, hTemplate, hRegex⟩ := kind_of_is h
  have hEq := text_eq_of_is h
  obtain ⟨first, hFirst, hStart⟩ := hText
  rw [Token.IsSpelt, hEq] at hSpelt
  generalize lexeme.token.kind = kind at hSpelt hString hTemplate hRegex ⊢
  generalize hCs : text.toList = cs at hSpelt hFirst
  cases hSpelt with
  | word => rw [← hCs, String.ofList_toList]
  | number hNumber =>
      obtain rfl := Option.some.inj hFirst
      exact absurd ((isWordStart_of_isDigit hNumber).symm.trans hStart) Bool.false_ne_true
  | fraction =>
      obtain rfl := Option.some.inj hFirst
      exact absurd hStart (by decide)
  | string => exact absurd rfl hString
  | template => exact absurd rfl hTemplate
  | regularExpression => exact absurd rfl hRegex
  | @punctuator other hOther =>
      exact absurd ((head_of_mem_symbols other hOther first hFirst).1.symm.trans hStart)
        Bool.false_ne_true

theorem isTidy_of_isSpelt (hSpelt : lexeme.token.IsSpelt) : lexeme.IsTidy := by
  intro text hText hIs
  have hSymbols : Token.openings ++ Token.closings ⊆ symbols := by decide
  exact ⟨kind_eq_punctuator hSpelt hIs (hSymbols hText), text_eq_of_is hIs⟩

end Lexeme

end EcmaLint
