import EcmaLint.Grammar.Parser
import EcmaLint.Grammar.Statement
import EcmaLint.Token.Lexer

/-! Whole programs. `Grammar.upTo` ties the productions together level by level. A production comes
back to the grammar either after it has read a token or on its way from statements down to operands,
which takes six steps at most, so the number of levels that `levels` computes is never used up.

The edition of the language is given by its year, by its short number from 6 to 15, or by one of the
numbers 3 and 5 of the editions before the yearly ones. -/
namespace EcmaLint

/-- How a program is to be read. -/
structure ParseOptions where
  ecmaVersion : Nat
  deriving DecidableEq, Repr

namespace ParseOptions

/-- The newest edition that is understood. -/
def latest : Nat := 2024

instance : Inhabited ParseOptions := ⟨⟨latest⟩⟩

/-- The edition as a year; other numbers stand for themselves. -/
def year (options : ParseOptions) : Nat :=
  if 6 ≤ options.ecmaVersion && options.ecmaVersion ≤ 15 then 2009 + options.ecmaVersion
  else options.ecmaVersion

/-- The numbers that name an edition. -/
def isSupported (version : Nat) : Bool :=
  version == 3 || version == 5 || (6 ≤ version && version ≤ 15) ||
    (2015 ≤ version && version ≤ latest)

end ParseOptions

section

open Production

variable {m : Type → Type} [Monad m] [MonadReaderOf Context m] [MonadStateOf Cursor m]
  [MonadExceptOf ParseError m] [Scoped m]

/-- The grammar that can come back to itself a number of times. -/
def Grammar.upTo : Nat → Grammar m
  | 0 =>
      { statement := unexpected
        assignment := unexpected
        binary := fun _ => unexpected
        unary := unexpected
        leftHandSide := unexpected
        newExpression := unexpected
        bindingTarget := unexpected }
  | n + 1 =>
      { statement := Scoped.delay fun _ => nested (statementBody (upTo n))
        assignment := Scoped.delay fun _ => nested (assignmentBody (upTo n))
        binary := fun minimum => Scoped.delay fun _ => binaryBody (upTo n) minimum
        unary := Scoped.delay fun _ => unaryBody (upTo n)
        leftHandSide := Scoped.delay fun _ => leftHandSideBody (upTo n)
        newExpression := Scoped.delay fun _ => newExpressionBody (upTo n)
        bindingTarget := Scoped.delay fun _ => bindingTargetBody (upTo n) }

/-- Enough levels for a number of tokens. -/
def Grammar.levels (tokens : Nat) : Nat := 6 * (tokens + 1)

/-- Read one statement of a program, or its end. An object that is left with a default for a
shorthand property is no pattern, so the default is out of order. -/
def Grammar.programTurn (G : Grammar m) (seen : List Node) :
    m (Turn (List Node) (List Node)) := do
  if (← get).atEnd then return .done seen
  else
    let statement ← G.statement
    match (← get).shorthandDefaults.head? with
    | some offset => fault .shorthandInitializer offset
    | none => return .again (seen ++ [statement])

/-- Read statements up to the end of the program. -/
def Grammar.programBody (G : Grammar m) : m (List Node) := iterate G.programTurn []

/-- Read a program. -/
def Grammar.program (G : Grammar m) : m Node := do
  let body ← G.programBody
  store .program ⟨0, (← read).size⟩ [(.body, .nodes body), (.sourceType, .text "script")]

end

/-- Whether a line ends between two byte offsets of a text. -/
def newlineBetween (source : List Char) (start stop : Nat) : Bool :=
  ((Text.slice? start stop source).getD []).any Text.isLineTerminator

/-- Tokens with the line ends before them, given the end of the token before the first. -/
def Lexeme.ofTokens (source : List Char) : Option Nat → List Token → List Lexeme
  | _, [] => []
  | previous, token :: rest =>
      { token
        newlineBefore := previous.any fun stop => newlineBetween source stop token.span.start } ::
        ofTokens source (some token.span.stop) rest

/-- What reading a program gives. -/
structure Parsed where
  program : Node
  /-- The nodes of the program by number. -/
  ast : Ast
  tokens : List Token
  comments : List Comment
  deriving Inhabited

/-- The state of a parser before the first token. -/
def ParserState.start (source : String) (year : Nat) (tokens : List Token) : ParserState :=
  let characters := source.toList
  let size := Text.byteLength characters
  { context :=
      { year, size
        newlineAtEnd :=
          tokens.getLast?.any fun last => newlineBetween characters last.span.stop size }
    cursor :=
      { previousEnd := 0
        rest := Lexeme.ofTokens characters none tokens
        shorthandDefaults := []
        arena := #[] } }

/-- Read a program from its tokens with a grammar. -/
def parseTokensWith (G : Grammar Parser) (source : String) (year : Nat) (tokens : List Token) :
    Except ParseError (Node × Ast) := do
  let (program, { cursor, .. }) ← G.program.outcome (.start source year tokens)
  return (program, .link cursor.arena program.id)

/-- Read a program from its tokens. -/
def parseTokens (source : String) (year : Nat) (tokens : List Token) :
    Except ParseError (Node × Ast) :=
  parseTokensWith (.upTo (Grammar.levels tokens.length)) source year tokens

/-- Read a program. -/
def parse (source : String) (options : ParseOptions) : Except ParseError Parsed := do
  let { tokens, comments } ← tokenize source
  let (program, ast) ← parseTokens source options.year tokens
  return { program, ast, tokens, comments }

end EcmaLint
