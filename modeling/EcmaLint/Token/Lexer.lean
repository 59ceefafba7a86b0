import EcmaLint.Grammar.ParseError
import EcmaLint.Text.Blank
import EcmaLint.Token.Basic

/-! From a text to its tokens and comments. Each piece of the text is measured by a
function that says how many characters it takes; `scan` cuts the text at these
lengths, so what it hands out is the text itself, piece by piece.

Three constructs need to know what came before: a `}` may close a block or resume a
template, a `/` may divide or open a regular expression, and a `#!` line may only open
the text. -/
namespace EcmaLint

/-- The tokens and the comments of a text, both in text order. -/
structure TokenizedText where
  tokens : List Token := []
  comments : List Comment := []
  deriving DecidableEq, Repr, Inhabited

namespace Lexer

/-- The number of characters up to the end of the line. -/
def lineLength (cs : List Char) : Nat :=
  (cs.takeWhile fun c => !Text.isLineTerminator c).length

/-- The number of characters up to the end of the first `*/`, that end included. -/
def blockCommentLength? : List Char → Option Nat
  | '*' :: '/' :: _ => some 2
  | _ :: cs => (blockCommentLength? cs).map (· + 1)
  | [] => none

/-- The number of word characters at the start of a text. -/
def wordLength (cs : List Char) : Nat := (cs.takeWhile Text.isWordPart).length

/-- The number of characters of a string literal after its opening quote, the closing
quote included. A line may end inside a string only after a backslash. -/
def stringLength? (quote : Char) : List Char → Option Nat
  | [] => none
  | '\\' :: '\r' :: '\n' :: cs => (stringLength? quote cs).map (· + 3)
  | '\\' :: _ :: cs => (stringLength? quote cs).map (· + 2)
  | c :: cs =>
      if c == quote then some 1
      else if c == '\\' || c == '\n' || c == '\r' then none
      else (stringLength? quote cs).map (· + 1)

/-- The number of characters of a template piece after its opening delimiter, and
whether the piece ends by opening a substitution. -/
def templateLength? : List Char → Option (Nat × Bool)
  | [] => none
  | '\\' :: _ :: cs => (templateLength? cs).map fun (n, opens) => (n + 2, opens)
  | '`' :: _ => some (1, false)
  | '$' :: '{' :: _ => some (2, true)
  | _ :: cs => (templateLength? cs).map fun (n, opens) => (n + 1, opens)

/-- The number of characters of the body of a regular expression after its opening
slash, the closing slash included. A slash inside a class does not close it. -/
def regexBodyLength? (inClass : Bool) : List Char → Option Nat
  | [] => none
  | '\\' :: c :: cs =>
      if Text.isLineTerminator c then none
      else (regexBodyLength? inClass cs).map (· + 2)
  | c :: cs =>
      if c == '/' && !inClass then some 1
      else if c == '\\' || Text.isLineTerminator c then none
      else
        let inClass := if c == '[' then true else if c == ']' then false else inClass
        (regexBodyLength? inClass cs).map (· + 1)

/-- The number of characters of a regular expression after its opening slash, the
flags included. -/
def regexLength? (cs : List Char) : Option Nat :=
  (regexBodyLength? false cs).map fun body =>
    body + ((cs.drop body).takeWhile Char.isAlpha).length

/-- The number of characters of the digits at the start of a text. One underscore may
stand between two digits. -/
def digitsLength (isDigit : Char → Bool) : List Char → Nat
  | [] => 0
  | [c] => if isDigit c then 1 else 0
  | c :: '_' :: d :: cs =>
      if isDigit c then
        if isDigit d then 2 + digitsLength isDigit (d :: cs) else 1
      else 0
  | c :: cs => if isDigit c then 1 + digitsLength isDigit cs else 0

def isHexDigit (c : Char) : Bool :=
  c.isDigit || ('a' ≤ c && c ≤ 'f') || ('A' ≤ c && c ≤ 'F')

/-- The digits that a radix letter allows, as in `0x1F`. -/
def radixDigits? (c : Char) : Option (Char → Bool) :=
  if c == 'x' || c == 'X' then some isHexDigit
  else if c == 'o' || c == 'O' then some fun c => '0' ≤ c && c ≤ '7'
  else if c == 'b' || c == 'B' then some fun c => c == '0' || c == '1'
  else none

/-- The number of characters of an exponent such as `e-5`, zero if no digit follows
the letter and the sign. -/
def exponentLength : List Char → Nat
  | [] => 0
  | e :: cs =>
      if e == 'e' || e == 'E' then
        let sign := if cs.head? == some '+' || cs.head? == some '-' then 1 else 0
        let digits := digitsLength Char.isDigit (cs.drop sign)
        if digits = 0 then 0 else 1 + sign + digits
      else 0

/-- The number of characters of the suffix of an integer of any size. -/
def suffixLength (cs : List Char) : Nat := if cs.head? == some 'n' then 1 else 0

/-- The number of characters of a decimal number that starts with a digit. -/
def decimalLength (cs : List Char) : Nat :=
  let whole := digitsLength Char.isDigit cs
  let fraction :=
    match cs.drop whole with
    | '.' :: rest => 1 + digitsLength Char.isDigit rest
    | _ => 0
  let power := exponentLength (cs.drop (whole + fraction))
  whole + fraction + power + suffixLength (cs.drop (whole + fraction + power))

/-- The number of characters of a number that starts with a digit. -/
def numberLength (cs : List Char) : Nat :=
  match cs with
  | '0' :: letter :: rest =>
      match radixDigits? letter with
      | none => decimalLength cs
      | some isDigit =>
          let digits := digitsLength isDigit rest
          if digits = 0 then decimalLength cs
          else 2 + digits + suffixLength (rest.drop digits)
  | _ => decimalLength cs

/-- The number of characters of a number that starts with a point. -/
def fractionLength (cs : List Char) : Nat :=
  let digits := digitsLength Char.isDigit (cs.drop 1)
  1 + digits + exponentLength (cs.drop (1 + digits))

/-- The punctuators other than braces, backticks and those with a slash. A punctuator
stands before those it starts with. -/
def punctuators : List String :=
  [">>>=", "...", "===", "!==", "**=", "<<=", ">>=", ">>>", "&&=", "||=", "??=",
   "<=", ">=", "==", "!=", "**", "++", "--", "<<", ">>", "&&", "||", "??", "?.",
   "+=", "-=", "*=", "%=", "&=", "|=", "^=", "=>",
   "(", ")", "[", "]", ";", ",", "<", ">", "+", "-", "*", "%", "&", "|", "^", "!", "~",
   "?", ":", "=", "."]

/-- The number of characters of the longest punctuator at the start of a text. -/
def punctuatorLength? (cs : List Char) : Option Nat :=
  (punctuators.find? fun p => p.toList.isPrefixOf cs).map String.length

/-- The keywords after which an operand is expected. -/
def operandKeywords : List String :=
  ["case", "delete", "do", "else", "in", "instanceof", "new", "return", "throw", "typeof", "void"]

/-- Whether a `/` opens a regular expression after the token `previous`. -/
def regexAllowed : Option Token → Bool
  | none => true
  | some previous =>
      match previous.kind with
      | .identifier | .numeric | .string | .boolean | .null | .regularExpression => false
      | .template => previous.text.toList.getLast? != some '`'
      | .keyword => operandKeywords.contains previous.text
      | .punctuator => !(previous.text == ")" || previous.text == "]" || previous.text == "\x7d")

/-- What an open brace belongs to. -/
inductive Brace where
  | block
  | substitution
  deriving DecidableEq, Repr

/-- What a piece of the text is. -/
inductive PieceKind where
  | blank
  | comment (kind : CommentKind)
  | token (kind : TokenKind)
  deriving DecidableEq, Repr

/-- A piece at the start of a text, without its characters: what it is, how many
characters follow its first one, and the braces that are open after it. -/
structure Piece where
  kind : PieceKind
  more : Nat
  braces : List Brace
  deriving DecidableEq, Repr

/-- The piece of a template whose opening delimiter is one character before `rest`. -/
def templatePiece (braces : List Brace) (rest : List Char) : Except SyntaxFault Piece :=
  match templateLength? rest with
  | none => .error .unterminatedTemplate
  | some (n, opens) =>
      .ok ⟨.token .template, n, if opens then .substitution :: braces else braces⟩

/-- The piece at the start of the text `c :: rest`. -/
def piece (previous : Option Token) (braces : List Brace) (c : Char) (rest : List Char) :
    Except SyntaxFault Piece :=
  if Text.isBlank c then .ok ⟨.blank, 0, braces⟩
  else if c == '/' then
    if rest.head? == some '/' then .ok ⟨.comment .line, lineLength rest, braces⟩
    else if rest.head? == some '*' then
      match blockCommentLength? rest.tail with
      | none => .error .unterminatedComment
      | some n => .ok ⟨.comment .block, n + 1, braces⟩
    else if regexAllowed previous then
      match regexLength? rest with
      | none => .error .unterminatedRegularExpression
      | some n => .ok ⟨.token .regularExpression, n, braces⟩
    else .ok ⟨.token .punctuator, if rest.head? == some '=' then 1 else 0, braces⟩
  else if Text.isWordStart c then
    let n := wordLength rest
    .ok ⟨.token (.ofWord (String.ofList (c :: rest.take n))), n, braces⟩
  else if c.isDigit then .ok ⟨.token .numeric, numberLength (c :: rest) - 1, braces⟩
  else if c == '.' && rest.head?.any Char.isDigit then
    .ok ⟨.token .numeric, fractionLength (c :: rest) - 1, braces⟩
  else if c == '"' || c == '\'' then
    match stringLength? c rest with
    | none => .error .unterminatedString
    | some n => .ok ⟨.token .string, n, braces⟩
  else if c == '`' then templatePiece braces rest
  else if c == '{' then .ok ⟨.token .punctuator, 0, .block :: braces⟩
  else if c == '}' then
    match braces with
    | .substitution :: outer => templatePiece outer rest
    | _ => .ok ⟨.token .punctuator, 0, braces.tail⟩
  else
    match punctuatorLength? (c :: rest) with
    | some n => .ok ⟨.token .punctuator, n - 1, braces⟩
    | none => .error (.unexpectedCharacter c)

/-- The text of a comment between its delimiters. -/
def commentBody (kind : CommentKind) (text : List Char) : List Char :=
  match kind with
  | .block => (text.drop 2).dropLast.dropLast
  | .line | .shebang => text.drop 2

/-- Put a piece in front of the pieces after it. -/
def prepend (kind : PieceKind) (span : Span) (text : List Char)
    (later : TokenizedText) : TokenizedText :=
  match kind with
  | .blank => later
  | .comment kind =>
      let comment : Comment := ⟨kind, span, String.ofList (commentBody kind text)⟩
      { later with comments := comment :: later.comments }
  | .token kind => { later with tokens := ⟨kind, span, String.ofList text⟩ :: later.tokens }

/-- The tokens and comments of a text that starts at a byte offset, after the token
`previous` and inside the given braces. -/
def scan (offset : Nat) (previous : Option Token) (braces : List Brace) :
    List Char → Except ParseError TokenizedText
  | [] => .ok {}
  | c :: rest =>
      match piece previous braces c rest with
      | .error fault => .error ⟨fault, offset⟩
      | .ok piece =>
          let text := c :: rest.take piece.more
          let span : Span := ⟨offset, offset + Text.byteLength text⟩
          let previous :=
            match piece.kind with
            | .token kind => some ⟨kind, span, String.ofList text⟩
            | _ => previous
          match scan span.stop previous piece.braces (rest.drop piece.more) with
          | .error error => .error error
          | .ok later => .ok (prepend piece.kind span text later)
termination_by cs => cs.length
decreasing_by simp only [List.length_drop, List.length_cons]; omega

end Lexer

/-- The tokens and comments of a program. -/
def tokenize (source : String) : Except ParseError TokenizedText :=
  match source.toList with
  | '#' :: '!' :: rest =>
      let line := '#' :: '!' :: rest.take (Lexer.lineLength rest)
      let span : Span := ⟨0, Text.byteLength line⟩
      match Lexer.scan span.stop none [] (rest.drop (Lexer.lineLength rest)) with
      | .error error => .error error
      | .ok later => .ok (Lexer.prepend (.comment .shebang) span line later)
  | cs => Lexer.scan 0 none [] cs

end EcmaLint
