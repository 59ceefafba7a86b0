import EcmaLint.Decimal.Notation
import EcmaLint.Grammar.Basic
import EcmaLint.Text.Escape

/-! Literals with their values, templates and the names of properties. -/
namespace EcmaLint

/-- The digits of a numeric token, without underscores and without the suffixes of
an integer of any size. -/
def Token.numericDigits (text : List Char) : List Char :=
  (text.reverse.dropWhile (· == 'n')).reverse.filter (· != '_')

/-- The value of digits in a radix, rounded after each digit. -/
def radixValue (radix : Nat) (digits : List Char) : Float :=
  digits.foldl
    (fun value c => value * Float.ofNat radix + Float.ofNat ((Text.hexDigit? c).getD 0)) 0.0

/-- The radix that a letter after a leading zero announces. -/
def radix? (letter : Char) : Option Nat :=
  if letter == 'x' || letter == 'X' then some 16
  else if letter == 'o' || letter == 'O' then some 8
  else if letter == 'b' || letter == 'B' then some 2
  else none

/-- The value of the text of a numeric token. -/
def numericValue (text : List Char) : Float :=
  let digits := Token.numericDigits text
  match digits with
  | '0' :: letter :: rest =>
      match radix? letter with
      | some radix => radixValue radix rest
      | none => Decimal.ofText digits
  | _ => Decimal.ofText digits

namespace Grammar

open Production

variable {m : Type → Type} [Monad m] [MonadReaderOf Context m] [MonadStateOf Cursor m]
  [MonadExceptOf ParseError m] [Scoped m]

/-- Make a literal for a token, with its value. -/
def literal (token : Token) (value : FieldValue) : m Node :=
  store .literal token.span [(.value, value), (.raw, .text token.text)]

/-- The text that a string token stands for. -/
def stringValue (text : String) : String :=
  String.ofList (Text.unescape (text.toList.drop 1).dropLast)

/-- Make a literal for a regular expression token, which has its pattern and its flags apart. -/
def regexLiteral (token : Token) : m Node :=
  let flags := (token.text.toList.reverse.takeWhile (· != '/')).reverse
  let pattern := ((token.text.toList.drop 1).take (token.text.length - flags.length - 2))
  store .literal token.span
    [(.raw, .text token.text), (.pattern, .text (String.ofList pattern)),
     (.flags, .text (String.ofList flags))]

/-- Read a numeric token as an expression. -/
def numericLiteral (token : Token) : m Node := do
  bump
  let value := Field.number (numericValue token.text.toList)
  if token.text.toList.getLast? == some 'n' then
    require .bigIntLiterals token.span.start
    let digits := token.text.toList.dropLast.filter (· != '_')
    store .literal token.span
      [(.value, value), (.raw, .text token.text), (.bigint, .text (String.ofList digits))]
  else
    literal token value

/-- Line ends of a template piece count as `\n`, however they are written. -/
def normalizeLineEnds : List Char → List Char
  | [] => []
  | '\r' :: '\n' :: cs => '\n' :: normalizeLineEnds cs
  | c :: cs => (if c = '\r' then '\n' else c) :: normalizeLineEnds cs

/-- The piece of a template ends the template. -/
def isTail (piece : List Char) : Bool := piece.getLast? == some '`' && 2 ≤ piece.length

/-- Make the node of a template piece. -/
def templateElement (token : Token) : m Node :=
  let piece := token.text.toList
  let raw := if isTail piece then (piece.drop 1).dropLast else (piece.drop 1).dropLast.dropLast
  store .templateElement token.span
    [(.raw, .text (String.ofList raw)),
     (.cooked, .text (String.ofList (Text.unescape (normalizeLineEnds raw)))),
     (.tail, .flag (isTail piece))]

/-- A template piece that stands between two substitutions, or after the last one. -/
def atTemplateContinuation (cursor : Cursor) : Bool :=
  cursor.current?.any fun token =>
    token.kind == .template && token.text.toList.head? == some '}'

/-- A template piece that opens a template. -/
def atTemplateHead (cursor : Cursor) : Bool :=
  cursor.current?.any fun token =>
    token.kind == .template && token.text.toList.head? == some '`'

/-- Read one piece of a template, and the substitution behind it if the piece is not the last. -/
def templateTurn (G : Grammar m) :
    List Node × List Node → m (Turn (List Node × List Node) (List Node × List Node))
  | (quasis, expressions) => do
      match (← get).current? with
      | none => unexpected
      | some token =>
          if token.kind != .template then unexpected
          else
            bump
            let quasis := quasis ++ [← templateElement token]
            if isTail token.text.toList then return .done (quasis, expressions)
            else
              let inner ← allowIn G.expression
              unless atTemplateContinuation (← get) do unexpected
              return .again (quasis, expressions ++ [inner])

/-- Read a template from its first piece on. -/
def template (G : Grammar m) : m Node := do
  let start ← startOffset
  require .templateLiterals start
  let (quasis, expressions) ← iterate (templateTurn G) ([], [])
  finish .templateLiteral start [(.quasis, .nodes quasis), (.expressions, .nodes expressions)]

/-- Read the name of a property or method, and whether it is computed. -/
def propertyKey (G : Grammar m) : m (Node × Bool) := do
  match (← get).current? with
  | none => unexpected
  | some token =>
      match token.kind with
      | .string => do
          bump
          return (← literal token (.text (stringValue token.text)), false)
      | .numeric => do
          bump
          return (← literal token (.number (numericValue token.text.toList)), false)
      | _ =>
          if token.isPunctuator "[" then
            require .computedNames token.span.start
            bump
            let key ← allowIn G.assignment
            expect "]"
            return (key, true)
          else
            return (← identifierName, false)

/-- The name that a key without brackets gives, if it is a word or a string. -/
def keyName? (key : Node) : Option String :=
  match key.kind with
  | .identifier => key.text? .ident
  | .literal => key.text? .value
  | _ => none

end Grammar

end EcmaLint
