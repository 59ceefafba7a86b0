import EcmaLint.Grammar.Production
import EcmaLint.Grammar.Target

/-! The productions that the grammar can come back to. Every production is written over
a `Grammar`, which holds the readers for the parts inside it; tying the two together is
left to the reading of whole programs. -/
namespace EcmaLint

structure Grammar (m : Type → Type) where
  statement : m Node
  /-- An expression without a comma. -/
  assignment : m Node
  /-- Operands joined by operators that bind at least this tightly. -/
  binary : Nat → m Node
  unary : m Node
  /-- Member accesses, calls, optional chains and tagged templates. -/
  leftHandSide : m Node
  newExpression : m Node
  /-- An identifier, an array pattern or an object pattern. -/
  bindingTarget : m Node

namespace Grammar

open Production

variable {m : Type → Type} [Monad m] [MonadReaderOf Context m] [MonadStateOf Cursor m]
  [MonadExceptOf ParseError m] [Scoped m]

/-- Read a comma and the expression behind it, or nothing. -/
def expressionTurn (G : Grammar m) (seen : List Node) :
    m (Turn (List Node) (List Node)) := do
  if ← eat "," then return .again (seen ++ [← G.assignment])
  else return .done seen

/-- Expressions with commas between them. -/
def expression (G : Grammar m) : m Node := do
  let start ← startOffset
  let first ← G.assignment
  if (← get).atText "," then
    let expressions ← iterate (expressionTurn G) [first]
    finish .sequenceExpression start [(.expressions, .nodes expressions)]
  else
    return first

/-- An expression in parentheses, as the heads of statements have it. -/
def parenthesized (G : Grammar m) : m Node := do
  expect "("
  let inner ← allowIn G.expression
  expect ")"
  return inner

/-- Read one statement of a block, or its end. -/
def blockTurn (G : Grammar m) (seen : List Node) : m (Turn (List Node) (List Node)) := do
  let cursor ← get
  if cursor.atText "\x7d" then return .done seen
  else if cursor.atEnd then unexpected
  else return .again (seen ++ [← G.statement])

/-- Statements in braces. -/
def block (G : Grammar m) : m Node := do
  let start ← startOffset
  expect "\x7b"
  let body ← iterate (blockTurn G) []
  bump
  finish .blockStatement start [(.body, .nodes body)]

/-- Turn an expression into a target, in place. Its shorthand defaults are in order then. -/
def toTarget (expression : Node) : m Node := do
  match expression.toTarget .whole true with
  | .error error => throw error
  | .ok target =>
      modify fun cursor =>
        { cursor with
          arena := cursor.arena.rewrite target
          shorthandDefaults := cursor.shorthandDefaults.filter fun offset =>
            !(expression.span.start ≤ offset && offset < expression.span.stop) }
      return target

/-- Fail unless a node is a reference. -/
def requireSimpleTarget (node : Node) : m Unit := do
  unless node.isSimpleTarget do throw (Node.invalidTarget node.span)

end Grammar

end EcmaLint
