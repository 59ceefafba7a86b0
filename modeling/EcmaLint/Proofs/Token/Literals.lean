import EcmaLint.Grammar.Literal
import EcmaLint.Grammar.Parser
import EcmaLint.Proofs.Token.Lengths

/-! What literals are cut into. A token of a string, a template or a regular expression is written
with delimiters, because its end was found by looking for one. So the offsets at which its parts
are cut out lie inside it, and the parts are what the tree holds.

Templates byte by byte. A backslash takes the next byte with it, which may be no more than the
start of a character; the bytes that are left of it are none that a template ends with, so the
scan still finds the end that is found character by character. -/
namespace EcmaLint

namespace Lexer

/-- Every token of a text was measured where it starts. -/
theorem measured_of_scan {offset : Nat} {previous : Option Token} {braces : List Brace}
    {cs : List Char} {out : TokenizedText} (h : scan offset previous braces cs = .ok out) :
    ∀ token ∈ out.tokens, ∃ c rest more, Measured c rest (.token token.kind) more ∧
      token.text = String.ofList (c :: rest.take more) := by
  fun_induction scan offset previous braces cs generalizing out with
  | case1 =>
      cases h
      exact List.forall_mem_nil _
  | case2 => cases h
  | case3 => cases h
  | case4 offset _ braces c rest found hPiece text span _ later hLater =>
      rename_i ih
      cases h
      have hHere := measured_of_piece hPiece
      have hBehind := ih hLater
      cases hKind : found.kind with
      | blank => exact hBehind
      | comment => exact hBehind
      | token kind =>
          rw [hKind] at hHere
          exact List.forall_mem_cons.mpr ⟨⟨c, rest, found.more, hHere, rfl⟩, hBehind⟩

theorem measured_of_tokenize {source : String} {out : TokenizedText}
    (h : tokenize source = .ok out) :
    ∀ token ∈ out.tokens, ∃ c rest more, Measured c rest (.token token.kind) more ∧
      token.text = String.ofList (c :: rest.take more) := by
  unfold tokenize at h
  split at h
  case h_1 =>
    dsimp only at h
    split at h
    case h_1 => cases h
    case h_2 later hScan =>
      cases h
      have hTokens := measured_of_scan hScan
      exact hTokens
  case h_2 => exact measured_of_scan h

end Lexer

namespace Text

/-- The offset of the last place where a character stands. -/
def lastOffset? (c : Char) : List Char → Option Nat
  | [] => none
  | d :: cs =>
      match lastOffset? c cs with
      | some offset => some (d.utf8Size + offset)
      | none => if d == c then some 0 else none

theorem lastOffset?_eq_none {c : Char} {cs : List Char} (h : c ∉ cs) :
    lastOffset? c cs = none := by
  induction cs with
  | nil => rfl
  | cons d cs ih =>
      obtain ⟨hd, hcs⟩ : c ≠ d ∧ c ∉ cs := by simpa using h
      rw [lastOffset?, ih hcs]
      exact if_neg (by simpa using Ne.symm hd)

theorem lastOffset?_append {c : Char} {cs : List Char} (h : c ∉ cs) (front : List Char) :
    lastOffset? c (front ++ c :: cs) = some (byteLength front) := by
  induction front with
  | nil => simp [lastOffset?, lastOffset?_eq_none h]
  | cons d front ih => rw [List.cons_append, lastOffset?, ih, byteLength_cons]

end Text

namespace Token

/-- The text between the quotes of a string, cut out by offsets. -/
def stringBody? (text : List Char) : Option (List Char) :=
  Text.slice? 1 (Text.byteLength text - 1) text

/-- The pattern and the flags of a regular expression, cut out by offsets. -/
def regexParts? (text : List Char) : Option (List Char × List Char) := do
  let close := (Text.lastOffset? '/' text).getD 0
  let pattern ← Text.slice? 1 close text
  let flags ← Text.slice? (close + 1) (Text.byteLength text) text
  return (pattern, flags)

/-- The text between the delimiters of a template piece, cut out by offsets. -/
def templateBody? (text : List Char) : Option (List Char) :=
  let size := Text.byteLength text
  let tail := text.getLast? == some '`' && 2 ≤ size
  Text.slice? 1 (if tail then size - 1 else size - 2) text

/-- The digits behind the radix letter of a number, cut out by offsets. -/
def radixDigits? (text : List Char) : Option (List Char) :=
  let digits := numericDigits text
  Text.slice? 2 (Text.byteLength digits) digits

theorem stringBody?_eq {quote : Char} (hQuote : quote = '"' ∨ quote = '\'') (body : List Char) :
    stringBody? (quote :: (body ++ [quote])) = some body := by
  have hOne : quote.utf8Size = 1 := by
    rcases hQuote with rfl | rfl <;> decide
  refine Text.slice?_eq_some_iff.mpr ⟨[quote], [quote], by simp, by simp [hOne], ?_⟩
  simp only [Text.byteLength_cons, Text.byteLength_append, Text.byteLength_nil, hOne]
  omega

theorem regexParts?_eq {flags : List Char} (hFlags : '/' ∉ flags) (body : List Char) :
    regexParts? ('/' :: (body ++ '/' :: flags)) = some (body, flags) := by
  have hOne : Char.utf8Size '/' = 1 := by decide
  have hClose : Text.lastOffset? '/' ('/' :: (body ++ '/' :: flags)) =
      some (1 + Text.byteLength body) := by
    rw [← List.cons_append, Text.lastOffset?_append hFlags, Text.byteLength_cons, hOne]
  have hPattern : Text.slice? 1 (1 + Text.byteLength body) ('/' :: (body ++ '/' :: flags)) =
      some body :=
    Text.slice?_eq_some_iff.mpr ⟨['/'], '/' :: flags, by simp, by simp [hOne], rfl⟩
  have hRest : Text.slice? (1 + Text.byteLength body + 1)
      (Text.byteLength ('/' :: (body ++ '/' :: flags))) ('/' :: (body ++ '/' :: flags)) =
      some flags := by
    refine Text.slice?_eq_some_iff.mpr ⟨'/' :: (body ++ ['/']), [], by simp, ?_, ?_⟩
    · simp only [Text.byteLength_cons, Text.byteLength_append, Text.byteLength_nil, hOne]
      omega
    · simp only [Text.byteLength_cons, Text.byteLength_append, hOne]
      omega
  rw [regexParts?, hClose, Option.getD_some, hPattern, hRest]
  rfl

theorem templateBody?_eq {c : Char} (hOpens : c = '`' ∨ c = '}') (body : List Char)
    (opens : Bool) : templateBody? (c :: (body ++ Lexer.templateClosing opens)) = some body := by
  have hOne : c.utf8Size = 1 := by
    rcases hOpens with rfl | rfl <;> decide
  refine Text.slice?_eq_some_iff.mpr
    ⟨[c], Lexer.templateClosing opens, by simp, by simp [hOne], ?_⟩
  cases opens with
  | true =>
      have hClosing : Text.byteLength (Lexer.templateClosing true) = 2 := by decide
      have hTail : (c :: (body ++ Lexer.templateClosing true)).getLast? = some '{' := by
        simp [Lexer.templateClosing, List.getLast?_cons, List.getLast?_append]
      rw [hTail, Text.byteLength_cons, Text.byteLength_append, hClosing, hOne]
      simp
      omega
  | false =>
      have hClosing : Text.byteLength (Lexer.templateClosing false) = 1 := by decide
      have hTail : (c :: (body ++ Lexer.templateClosing false)).getLast? = some '`' := by
        simp [Lexer.templateClosing, List.getLast?_cons, List.getLast?_append]
      rw [hTail, Text.byteLength_cons, Text.byteLength_append, hClosing, hOne, if_pos]
      · omega
      · simp
        omega

theorem utf8Size_of_radix? {letter : Char} {radix : Nat} (h : radix? letter = some radix) :
    letter.utf8Size = 1 := by
  have hLetter : letter = 'x' ∨ letter = 'X' ∨ letter = 'o' ∨ letter = 'O' ∨ letter = 'b' ∨
      letter = 'B' := by
    simp only [radix?, Bool.or_eq_true, beq_iff_eq] at h
    grind
  rcases hLetter with rfl | rfl | rfl | rfl | rfl | rfl <;> decide

theorem radixDigits?_eq {text rest : List Char} {letter : Char} {radix : Nat}
    (hDigits : numericDigits text = '0' :: letter :: rest) (hRadix : radix? letter = some radix) :
    radixDigits? text = some rest := by
  have hZero : Char.utf8Size '0' = 1 := by decide
  have hLetter := utf8Size_of_radix? hRadix
  rw [radixDigits?, hDigits]
  refine Text.slice?_eq_some_iff.mpr ⟨['0', letter], [], by simp, ?_, ?_⟩
  · simp [hZero, hLetter]
  · simp only [Text.byteLength_cons, hZero, hLetter]
    omega

/-- The parts of a literal are cut out of its token inside its bounds, and they are what the tree
is made of. -/
structure SlicesInside (token : Token) : Prop where
  string : token.kind = .string → ∃ body, stringBody? token.text.toList = some body ∧
    Grammar.stringValue token.text = String.ofList (Text.unescape body)
  regularExpression : token.kind = .regularExpression →
    ∃ pattern flags, regexParts? token.text.toList = some (pattern, flags) ∧
      (Grammar.regexLiteral token : Parser Node) = Production.store .literal token.span
        [(.raw, .text token.text), (.pattern, .text (String.ofList pattern)),
         (.flags, .text (String.ofList flags))]
  template : token.kind = .template → ∃ raw, templateBody? token.text.toList = some raw ∧
    (Grammar.templateElement token : Parser Node) = Production.store .templateElement token.span
      [(.raw, .text (String.ofList raw)),
       (.cooked, .text (String.ofList (Text.unescape (Grammar.normalizeLineEnds raw)))),
       (.tail, .flag (Grammar.isTail token.text.toList))]
  numeric : ∀ letter rest radix, numericDigits token.text.toList = '0' :: letter :: rest →
    radix? letter = some radix → ∃ digits, radixDigits? token.text.toList = some digits ∧
      numericValue token.text.toList = radixValue radix digits

variable {token : Token}

theorem numericValue_eq {text rest : List Char} {letter : Char} {radix : Nat}
    (hDigits : numericDigits text = '0' :: letter :: rest) (hRadix : radix? letter = some radix) :
    numericValue text = radixValue radix rest := by
  rw [numericValue, hDigits]
  simp only [hRadix]

section

variable {m : Type → Type} [Monad m] [MonadStateOf Cursor m]

theorem regexLiteral_eq {body flags : List Char}
    (hText : token.text.toList = '/' :: (body ++ '/' :: flags)) (hFlags : '/' ∉ flags) :
    (Grammar.regexLiteral token : m Node) = Production.store .literal token.span
      [(.raw, .text token.text), (.pattern, .text (String.ofList body)),
       (.flags, .text (String.ofList flags))] := by
  have hBehind : (token.text.toList.reverse.takeWhile (· != '/')).reverse = flags := by
    have hReverse : token.text.toList.reverse =
        flags.reverse ++ '/' :: (body.reverse ++ ['/']) := by
      simp [hText]
    have hAll : ∀ c ∈ flags.reverse, (c != '/') = true := by
      intro c hc
      rw [bne_iff_ne]
      rintro rfl
      exact hFlags (List.mem_reverse.mp hc)
    rw [hReverse, List.takeWhile_append_of_pos hAll]
    simp
  have hPattern :
      (token.text.toList.drop 1).take (token.text.length - flags.length - 2) = body := by
    have hLength : token.text.length - flags.length - 2 = body.length := by
      rw [← String.length_toList, hText]
      simp only [List.length_cons, List.length_append]
      omega
    rw [hLength, hText]
    simp
  rw [Grammar.regexLiteral, hBehind, hPattern]

theorem isTail_eq (c : Char) (body : List Char) (opens : Bool) :
    Grammar.isTail (c :: (body ++ Lexer.templateClosing opens)) = !opens := by
  cases opens <;>
    simp [Grammar.isTail, Lexer.templateClosing, List.getLast?_cons, List.getLast?_append]

theorem templateElement_eq {c : Char} {body : List Char} {opens : Bool}
    (hText : token.text.toList = c :: (body ++ Lexer.templateClosing opens)) :
    (Grammar.templateElement token : m Node) = Production.store .templateElement token.span
      [(.raw, .text (String.ofList body)),
       (.cooked, .text (String.ofList (Text.unescape (Grammar.normalizeLineEnds body)))),
       (.tail, .flag (Grammar.isTail token.text.toList))] := by
  have hRaw : (if Grammar.isTail token.text.toList then (token.text.toList.drop 1).dropLast
      else (token.text.toList.drop 1).dropLast.dropLast) = body := by
    rw [hText, isTail_eq]
    cases opens with
    | true =>
        have hClosing : Lexer.templateClosing true = ['$'] ++ ['{'] := rfl
        rw [hClosing, List.drop_one, List.tail_cons, ← List.append_assoc]
        simp
    | false =>
        rw [Lexer.templateClosing]
        simp
  rw [Grammar.templateElement, hRaw]

end

end Token

namespace Lexer.Measured

variable {token : Token} {c : Char} {rest : List Char} {more : Nat}

/-- A regular expression is written as a pattern between two slashes, with flags behind them. -/
theorem exists_regularExpression (h : Measured c rest (.token token.kind) more)
    (hText : token.text = String.ofList (c :: rest.take more))
    (hKind : token.kind = .regularExpression) :
    ∃ body flags, token.text.toList = '/' :: (body ++ '/' :: flags) ∧ '/' ∉ flags := by
  rw [hKind] at h
  cases h with
  | word isWord => exact absurd isWord (by decide)
  | regularExpression opens closes =>
      obtain ⟨body, flags, back, rfl, rfl, hFlags⟩ := exists_of_regexLength? closes
      exact ⟨body, flags, by rw [hText, String.toList_ofList, List.take_left, opens], hFlags⟩

/-- A piece of a template is written between two delimiters. -/
theorem exists_template (h : Measured c rest (.token token.kind) more)
    (hText : token.text = String.ofList (c :: rest.take more)) (hKind : token.kind = .template) :
    ∃ body opens, token.text.toList = c :: (body ++ templateClosing opens) ∧
      (c = '`' ∨ c = '}') := by
  rw [hKind] at h
  cases h with
  | word isWord => exact absurd isWord (by decide)
  | template resumes closes =>
      obtain ⟨body, back, rfl, rfl⟩ := exists_of_templateLength? closes
      exact ⟨body, _, by rw [hText, String.toList_ofList, List.take_left], resumes⟩

end Lexer.Measured

/-- The parts of every literal lie inside its token. -/
theorem Lexer.Measured.slicesInside {token : Token} {c : Char} {rest : List Char} {more : Nat}
    (h : Measured c rest (.token token.kind) more)
    (hText : token.text = String.ofList (c :: rest.take more)) : token.SlicesInside := by
  have hList : token.text.toList = c :: rest.take more := by rw [hText, String.toList_ofList]
  refine ⟨fun hKind => ?_, fun hKind => ?_, fun hKind => ?_,
    fun letter digits radix hDigits hRadix =>
      ⟨digits, Token.radixDigits?_eq hDigits hRadix, Token.numericValue_eq hDigits hRadix⟩⟩
  · rw [hKind] at h
    cases h with
    | word isWord => exact absurd isWord (by decide)
    | string opens closes =>
        obtain ⟨body, back, rfl, rfl⟩ := exists_of_stringLength? closes
        rw [List.take_left] at hList
        refine ⟨body, hList ▸ Token.stringBody?_eq opens body, ?_⟩
        rw [Grammar.stringValue, hList]
        simp
  · obtain ⟨body, flags, hWritten, hFlags⟩ := h.exists_regularExpression hText hKind
    exact ⟨body, flags, hWritten ▸ Token.regexParts?_eq hFlags body,
      Token.regexLiteral_eq hWritten hFlags⟩
  · obtain ⟨body, opens, hWritten, hOpening⟩ := h.exists_template hText hKind
    exact ⟨body, hWritten ▸ Token.templateBody?_eq hOpening body opens,
      Token.templateElement_eq hWritten⟩

/-- All literals of a text lie inside their tokens. -/
theorem slicesInside_of_tokenize {source : String} {out : TokenizedText}
    (h : tokenize source = .ok out) : ∀ token ∈ out.tokens, token.SlicesInside := by
  intro token hToken
  obtain ⟨c, rest, more, hMeasured, hText⟩ := Lexer.measured_of_tokenize h token hToken
  exact hMeasured.slicesInside hText

namespace Text

/-- The bytes of a text. -/
def utf8 (cs : List Char) : List UInt8 := cs.flatMap String.utf8EncodeChar

theorem utf8_cons (c : Char) (cs : List Char) :
    utf8 (c :: cs) = String.utf8EncodeChar c ++ utf8 cs := rfl

/-- A character is one byte below 128, or several that are not. -/
theorem utf8EncodeChar_cases (c : Char) :
    c.toNat < 128 ∧ String.utf8EncodeChar c = [UInt8.ofNat c.toNat] ∨
      ∀ byte ∈ String.utf8EncodeChar c, 128 ≤ byte.toNat := by
  have hNat : c.val.toNat = c.toNat := rfl
  unfold String.utf8EncodeChar
  dsimp only
  rw [hNat]
  split
  case isTrue hSmall => exact .inl ⟨Nat.lt_succ_of_le hSmall, rfl⟩
  case isFalse =>
    right
    repeat' split
    all_goals
      simp only [List.forall_mem_cons, UInt8.toNat_ofNat', List.not_mem_nil, false_implies,
        implies_true, and_true]
      omega

/-- The bytes of a character behind its first one are from 128 on. -/
theorem exists_utf8EncodeChar_eq_cons (c : Char) :
    ∃ byte bytes, String.utf8EncodeChar c = byte :: bytes ∧ bytes.length + 1 = c.utf8Size ∧
      ∀ later ∈ bytes, 128 ≤ later.toNat := by
  have hLength := String.length_utf8EncodeChar c
  have hPos := c.utf8Size_pos
  obtain ⟨byte, bytes, hEncode⟩ : ∃ byte bytes, String.utf8EncodeChar c = byte :: bytes :=
    List.exists_cons_of_length_pos (by omega)
  rw [hEncode, List.length_cons] at hLength
  refine ⟨byte, bytes, hEncode, hLength, ?_⟩
  rcases utf8EncodeChar_cases c with ⟨-, hOne⟩ | hLarge
  · rw [hEncode] at hOne
    rw [(List.cons.inj hOne).2]
    exact List.forall_mem_nil _
  · exact fun later hLater => hLarge later (hEncode ▸ List.mem_cons_of_mem _ hLater)

/-- A text whose first byte is a character starts with that character. -/
theorem exists_eq_cons_of_utf8_eq_cons {c : Char} {cs : List Char} {bytes : List UInt8}
    (hSmall : c.toNat < 128) (h : utf8 cs = UInt8.ofNat c.toNat :: bytes) :
    ∃ rest, cs = c :: rest := by
  cases cs with
  | nil => cases h
  | cons d rest =>
      rw [utf8_cons] at h
      rcases utf8EncodeChar_cases d with ⟨hd, hEncode⟩ | hLarge
      · rw [hEncode] at h
        have hByte := congrArg UInt8.toNat (List.cons.inj h).1
        rw [UInt8.toNat_ofNat', UInt8.toNat_ofNat'] at hByte
        have hSame : d.toNat = c.toNat := by omega
        exact ⟨rest, by rw [Char.toNat_inj.mp hSame]⟩
      · obtain ⟨byte, others, hEncode, -⟩ := exists_utf8EncodeChar_eq_cons d
        rw [hEncode] at h hLarge
        have hByte := hLarge byte List.mem_cons_self
        rw [(List.cons.inj h).1, UInt8.toNat_ofNat'] at hByte
        omega

end Text

namespace Lexer

/-- The number of bytes of a template piece after its opening delimiter, and whether the piece
ends by opening a substitution, found by looking at single bytes. -/
def templateBytes? : List UInt8 → Option (Nat × Bool)
  | [] => none
  | 92 :: _ :: bytes => (templateBytes? bytes).map fun (n, opens) => (n + 2, opens)
  | 96 :: _ => some (1, false)
  | 36 :: 123 :: _ => some (2, true)
  | _ :: bytes => (templateBytes? bytes).map fun (n, opens) => (n + 1, opens)

/-- Bytes from 128 on are passed over. -/
theorem templateBytes?_append {bytes : List UInt8} (h : ∀ byte ∈ bytes, 128 ≤ byte.toNat)
    (rest : List UInt8) : templateBytes? (bytes ++ rest) =
      (templateBytes? rest).map fun found => (found.1 + bytes.length, found.2) := by
  induction bytes with
  | nil => simp
  | cons byte bytes ih =>
      obtain ⟨hByte, hBytes⟩ := List.forall_mem_cons.mp h
      rw [List.cons_append, templateBytes?, ih hBytes, Option.map_map]
      · rfl
      · rintro _ _ rfl
        exact absurd hByte (by decide)
      · rintro rfl
        exact absurd hByte (by decide)
      · rintro _ rfl
        exact absurd hByte (by decide)

/-- The byte of a character that is no delimiter is passed over. -/
theorem templateBytes?_cons {c : Char} {cs : List Char} (hSmall : c.toNat < 128)
    (hEscape : ∀ d rest, c = '\\' → cs = d :: rest → False) (hTick : c = '`' → False)
    (hOpens : ∀ rest, c = '$' → cs = '{' :: rest → False) :
    templateBytes? (UInt8.ofNat c.toNat :: Text.utf8 cs) =
      (templateBytes? (Text.utf8 cs)).map fun found => (found.1 + 1, found.2) := by
  have hChar : ∀ d : Char, d.toNat < 128 → UInt8.ofNat c.toNat = UInt8.ofNat d.toNat → c = d := by
    intro d hd hEq
    have hNat := congrArg UInt8.toNat hEq
    rw [UInt8.toNat_ofNat', UInt8.toNat_ofNat'] at hNat
    exact Char.toNat_inj.mp (by omega)
  rw [templateBytes?]
  · intro byte bytes hByte hBytes
    cases cs with
    | nil => cases hBytes
    | cons d rest => exact hEscape d rest (hChar '\\' (by decide) hByte) rfl
  · exact fun hByte => hTick (hChar '`' (by decide) hByte)
  · intro bytes hByte hBytes
    obtain ⟨rest, hRest⟩ :=
      @Text.exists_eq_cons_of_utf8_eq_cons '{' cs bytes (by decide) hBytes
    exact hOpens rest (hChar '$' (by decide) hByte) hRest

/-- The end of a template piece is the same in bytes and in characters. -/
theorem templateBytes?_utf8 (cs : List Char) : templateBytes? (Text.utf8 cs) =
    (templateLength? cs).map fun found => (Text.byteLength (cs.take found.1), found.2) := by
  fun_induction templateLength? cs with
  | case1 => rfl
  | case2 c cs ih =>
      -- the backslash takes only the first byte of the character that it escapes
      obtain ⟨byte, bytes, hEncode, hLength, hLarge⟩ := Text.exists_utf8EncodeChar_eq_cons c
      have hBackslash : String.utf8EncodeChar '\\' = [92] := by decide
      rw [Text.utf8_cons, Text.utf8_cons, hBackslash, hEncode, List.cons_append, List.nil_append,
        List.cons_append, templateBytes?, templateBytes?_append hLarge, ih]
      simp only [Option.map_map, Function.comp_def, List.take_succ_cons, Text.byteLength_cons,
        ← hLength]
      congr 1
      funext found
      have hOne : Char.utf8Size '\\' = 1 := by decide
      rw [hOne]
      congr 1
      omega
  | case3 => rfl
  | case4 => rfl
  | case5 c cs hEscape hTick hOpens ih =>
      rw [Text.utf8_cons]
      rcases Text.utf8EncodeChar_cases c with ⟨hSmall, hEncode⟩ | hLarge
      · have hOne := String.length_utf8EncodeChar c
        rw [hEncode, List.length_singleton] at hOne
        rw [hEncode, List.singleton_append, templateBytes?_cons hSmall hEscape hTick hOpens, ih]
        simp only [Option.map_map, Function.comp_def, List.take_succ_cons, Text.byteLength_cons,
          ← hOne, Nat.add_comm 1]
      · rw [templateBytes?_append hLarge, ih, String.length_utf8EncodeChar]
        simp only [Option.map_map, Function.comp_def, List.take_succ_cons, Text.byteLength_cons,
          Nat.add_comm c.utf8Size]

end Lexer

end EcmaLint
