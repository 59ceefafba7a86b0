import EcmaLint.Text.Span

/-! Tokens and comments. A token carries the text it covers, so that later stages
compare texts and never cut the program again. -/
namespace EcmaLint

inductive TokenKind where
  | keyword
  /-- Words that are not reserved, contextual words such as `async` and `of` included. -/
  | identifier
  | punctuator
  | string
  | numeric
  | boolean
  | null
  /-- One piece of a template, from its opening delimiter to the next substitution or
  to the closing backtick. -/
  | template
  | regularExpression
  deriving DecidableEq, Repr, Inhabited

/-- The name of a kind of token in the ESTree tradition. -/
def TokenKind.name : TokenKind → String
  | .keyword => "Keyword"
  | .identifier => "Identifier"
  | .punctuator => "Punctuator"
  | .string => "String"
  | .numeric => "Numeric"
  | .boolean => "Boolean"
  | .null => "Null"
  | .template => "Template"
  | .regularExpression => "RegularExpression"

structure Token where
  kind : TokenKind
  span : Span
  text : String
  deriving DecidableEq, Repr, Inhabited

namespace Token

def isPunctuator (token : Token) (text : String) : Bool :=
  token.kind == .punctuator && token.text == text

def isKeyword (token : Token) (text : String) : Bool :=
  token.kind == .keyword && token.text == text

def isIdentifier (token : Token) (text : String) : Bool :=
  token.kind == .identifier && token.text == text

/-- Identifiers, keywords, booleans and `null` are words. -/
def isWord (token : Token) : Bool :=
  match token.kind with
  | .identifier | .keyword | .boolean | .null => true
  | _ => false

end Token

inductive CommentKind where
  | line
  | block
  /-- The `#!` line that may open a program. -/
  | shebang
  deriving DecidableEq, Repr, Inhabited

def CommentKind.name : CommentKind → String
  | .line => "Line"
  | .block => "Block"
  | .shebang => "Shebang"

/-- A comment; its text does not contain the delimiters. -/
structure Comment where
  kind : CommentKind
  span : Span
  text : String
  deriving DecidableEq, Repr, Inhabited

/-- The reserved words. -/
def reservedWords : List String :=
  ["break", "case", "catch", "class", "const", "continue", "debugger", "default", "delete", "do",
   "else", "enum", "export", "extends", "finally", "for", "function", "if", "import", "in",
   "instanceof", "new", "return", "super", "switch", "this", "throw", "try", "typeof", "var",
   "void", "while", "with"]

def isReservedWord (word : String) : Bool := reservedWords.contains word

/-- The kind of token that a word makes. -/
def TokenKind.ofWord (word : String) : TokenKind :=
  if word == "true" || word == "false" then .boolean
  else if word == "null" then .null
  else if isReservedWord word then .keyword
  else .identifier

end EcmaLint
