import EcmaLint.Grammar.ParseError
import EcmaLint.Text.Blank
import EcmaLint.Token.Basic
import EcmaLint.Tree.Arena

/-! Productions: the functions that read a part of a program off its tokens. They are written
over any monad with a context, which tells what holds around a part, such as the function it
stands in, and a cursor, which tells where reading has got to. A part may be read in another
context; what becomes of the context then is up to the monad. -/
namespace EcmaLint

/-- A token together with what automatic semicolons depend on. -/
structure Lexeme where
  token : Token
  /-- A line ends between the token before this one and this one. -/
  newlineBefore : Bool

namespace Lexeme

/-- The lexeme is a word, number or punctuator with this text. -/
def is (lexeme : Lexeme) (text : String) : Bool :=
  match lexeme.token.kind with
  | .string | .template | .regularExpression => false
  | _ => lexeme.token.text == text

end Lexeme

/-- What holds around a part of a program. -/
structure Context where
  /-- The year of the edition. -/
  year : Nat
  /-- The length of the program in bytes. -/
  size : Nat
  /-- A line ends after the last token. -/
  newlineAtEnd : Bool
  inFunction : Bool := false
  inAsync : Bool := false
  inGenerator : Bool := false
  /-- The word `in` does not join operands, as in the head of a `for` statement. -/
  withoutIn : Bool := false
  depth : Nat := 0

/-- Where reading has got to. -/
structure Cursor where
  /-- The end of the last token read, zero before the first. -/
  previousEnd : Nat
  rest : List Lexeme
  /-- The offsets of `=` in `{ a = 1 }` for objects that are not yet known to be patterns. -/
  shorthandDefaults : List Nat
  /-- The nodes that were made so far. -/
  arena : Arena

namespace Cursor

def current? (cursor : Cursor) : Option Token := cursor.rest.head?.map Lexeme.token

/-- The token some places ahead of the current one. -/
def peek? (cursor : Cursor) (n : Nat) : Option Token := cursor.rest[n]?.map Lexeme.token

def atEnd (cursor : Cursor) : Bool := cursor.rest.isEmpty

/-- The token some places ahead is a word, number or punctuator with this text. -/
def peekIs (cursor : Cursor) (n : Nat) (text : String) : Bool :=
  cursor.rest[n]?.any fun lexeme => lexeme.is text

def atText (cursor : Cursor) (text : String) : Bool := cursor.peekIs 0 text

def atIdentifier (cursor : Cursor) : Bool :=
  cursor.current?.any fun token => token.kind == .identifier

/-- A line ends before the token some places ahead, which is not the current one. -/
def newlineBeforePeek (cursor : Cursor) (n : Nat) : Bool :=
  cursor.rest[n]?.any Lexeme.newlineBefore

end Cursor

/-- What is set around a part while it is read. -/
inductive Shift where
  /-- The part is nested one level deeper. -/
  | deeper
  /-- The word `in` joins operands of the part or does not. -/
  | joining (withoutIn : Bool)
  /-- The part is the parameters or the body of a function. -/
  | function (isAsync isGenerator : Bool)
  /-- The part is the expression that an arrow function returns. -/
  | arrow (isAsync : Bool)

/-- The context in which a part is read. -/
def Shift.enter : Shift → Context → Context
  | .deeper, context => { context with depth := context.depth + 1 }
  | .joining withoutIn, context => { context with withoutIn }
  | .function isAsync isGenerator, context =>
      { context with
        inFunction := true
        inAsync := isAsync
        inGenerator := isGenerator
        withoutIn := false }
  | .arrow isAsync, context =>
      { context with inFunction := true, inAsync := isAsync, inGenerator := false }

/-- A monad in which parts are read in contexts. -/
class Scoped (m : Type → Type) where
  /-- Read a part after a shift of the context, which ends with the part. -/
  within {α : Type} (shift : Shift) (inner : m α) : m α
  /-- Read a part, and have the word `in` mean behind it what it meant before. -/
  keepingIn {α : Type} (inner : m α) : m α
  /-- A part that is not looked at until it is read. -/
  delay {α : Type} (inner : Unit → m α) : m α

export Scoped (within keepingIn)

/-- A production reads a part of a program, or says why it cannot. It is handed its context. -/
abbrev Production := ReaderT Context (StateT Cursor (Except ParseError))

/-- Another context is handed down, and nothing is left of it behind the part. -/
instance : Scoped Production where
  within shift := withReader shift.enter
  keepingIn inner := inner
  delay inner context := inner () context

namespace Production

variable {m : Type → Type} [Monad m] [MonadReaderOf Context m] [MonadStateOf Cursor m]
  [MonadExceptOf ParseError m] [Scoped m]

/-- Fail with a cause at an offset. -/
def fault {α : Type} (cause : SyntaxFault) (offset : Nat) : m α :=
  throw ⟨cause, offset⟩

/-- The start of the current token, or the end of the program. -/
def startOffset : m Nat := do
  return ((← get).current?.map fun token => token.span.start).getD (← read).size

/-- Fail because of the current token. -/
def unexpected {α : Type} : m α := do
  match (← get).current? with
  | some token => fault (.unexpectedToken token.text) token.span.start
  | none => fault .unexpectedEnd (← read).size

/-- Move past the current token. -/
def bump : m Unit :=
  modify fun cursor =>
    match cursor.rest with
    | [] => cursor
    | lexeme :: rest => { cursor with previousEnd := lexeme.token.span.stop, rest }

/-- Move past the current token if it has this text. -/
def eat (text : String) : m Bool := do
  if (← get).atText text then
    bump
    return true
  else
    return false

/-- Move past the current token, which must have this text. -/
def expect (text : String) : m Unit := do
  unless (← eat text) do unexpected

/-- A line ends before the current token. Before the first token no line counts. -/
def newlineBefore : m Bool := do
  match (← get).rest with
  | [] => return (← read).newlineAtEnd
  | lexeme :: _ => return lexeme.newlineBefore

/-- The current token ends a statement: a `;`, or a place where one is supplied. -/
def atStatementEnd : m Bool := do
  let cursor ← get
  return cursor.atText ";" || cursor.atText "\x7d" || cursor.atEnd || (← newlineBefore)

/-- Read the end of a statement. -/
def semicolon : m Unit := do
  unless (← eat ";") do
    unless (← atStatementEnd) do unexpected

/-- Fail unless the edition has a feature. -/
def require (feature : Feature) (offset : Nat) : m Unit := do
  unless feature.since ≤ (← read).year do fault (.missingEdition feature) offset

/-- Make a node and store it. -/
def store (kind : NodeKind) (span : Span) (fields : List (FieldName × FieldValue)) :
    m Node := do
  let node := Node.mk (← get).arena.size kind span fields
  modify fun cursor => { cursor with arena := cursor.arena.push node.cell }
  return node

/-- Make a node from an offset to the end of the last token read. -/
def finish (kind : NodeKind) (start : Nat) (fields : List (FieldName × FieldValue)) :
    m Node := do
  store kind ⟨start, max (← get).previousEnd start⟩ fields

/-- Read an identifier. -/
def identifier : m Node := do
  match (← get).current? with
  | some token =>
      if token.kind == .identifier then
        bump
        store .identifier token.span [(.ident, .text token.text)]
      else
        unexpected
  | none => unexpected

/-- Read any word, as names of properties allow. -/
def identifierName : m Node := do
  match (← get).current? with
  | some token =>
      if token.isWord then
        bump
        store .identifier token.span [(.ident, .text token.text)]
      else
        unexpected
  | none => unexpected

/-- Read one level deeper. -/
def nested {α : Type} (inner : m α) : m α := do
  if maximumDepth ≤ (← read).depth then
    fault .nestingTooDeep (← startOffset)
  else
    within .deeper inner

/-- Read with `in` joining operands. -/
def allowIn {α : Type} (inner : m α) : m α :=
  within (.joining false) inner

/-- Read with `in` not joining operands. -/
def withoutIn {α : Type} (inner : m α) : m α :=
  within (.joining true) inner

/-- Read the parameters or the body of a function. -/
def inFunction {α : Type} (isAsync isGenerator : Bool) (inner : m α) : m α :=
  within (.function isAsync isGenerator) inner

/-- What one turn of a repetition leads to. -/
inductive Turn (σ β : Type) where
  | again (state : σ)
  | done (result : β)

/-- Repeat a turn at most a number of times. -/
def turns {σ β : Type} (turn : σ → m (Turn σ β)) : Nat → σ → m β
  | 0, _ => unexpected
  | n + 1, state => do
      match ← turn state with
      | .again state => turns turn n state
      | .done result => return result

/-- Repeat a turn until it is done. Every turn that asks for another one reads a token,
so there are no more turns than tokens, and one to be done. -/
def iterate {σ β : Type} (turn : σ → m (Turn σ β)) (state : σ) : m β := do
  turns turn ((← get).rest.length + 1) state

end Production

end EcmaLint
