import EcmaLint.Grammar.Function

/-! Array and object literals and the arguments of calls. -/
namespace EcmaLint.Grammar

open Production

variable {m : Type → Type} [Monad m] [MonadReaderOf Context m] [MonadStateOf Cursor m]
  [MonadExceptOf ParseError m] [Scoped m]

/-- Three points and an expression. -/
def spreadElement (G : Grammar m) : m Node := do
  let start ← startOffset
  require .spreadElements start
  expect "..."
  let argument ← allowIn G.assignment
  finish .spreadElement start [(.argument, .node argument)]

/-- Read one argument, or the end of the arguments. -/
def argumentsTurn (G : Grammar m) (seen : List Node) :
    m (Turn (List Node) (List Node)) := do
  if (← get).atText ")" then return .done seen
  else
    let argument ←
      if (← get).atText "..." then spreadElement G else allowIn G.assignment
    let seen := seen ++ [argument]
    if ← eat "," then
      if (← get).atText ")" then require .trailingArgumentComma (← startOffset)
      return .again seen
    else
      return .done seen

/-- Arguments in parentheses. -/
def arguments (G : Grammar m) : m (List Node) := do
  expect "("
  let arguments ← iterate (argumentsTurn G) []
  expect ")"
  return arguments

/-- Read one element of an array, or its end. -/
def arrayTurn (G : Grammar m) (seen : List (Option Node)) :
    m (Turn (List (Option Node)) (List (Option Node))) := do
  if (← get).atText "]" then return .done seen
  else if ← eat "," then return .again (seen ++ [none])
  else
    let element ←
      if (← get).atText "..." then spreadElement G else allowIn G.assignment
    unless (← get).atText "]" do expect ","
    return .again (seen ++ [some element])

def arrayLiteral (G : Grammar m) : m Node := do
  let start ← startOffset
  expect "["
  let elements ← iterate (arrayTurn G) []
  expect "]"
  finish .arrayExpression start [(.elements, .slots elements)]

/-- A word in an object is a modifier only if the name of a property follows it on the
same line. -/
def atPropertyModifier (cursor : Cursor) (word : String) : Bool :=
  cursor.atText word && !cursor.newlineBeforePeek 1 &&
    (cursor.peek? 1).any fun next =>
      next.kind != .punctuator || next.text == "[" || next.text == "*"

/-- As `atPropertyModifier`, for words that no generator may follow. -/
def atAccessor (cursor : Cursor) (word : String) : Bool :=
  atPropertyModifier cursor word && !cursor.peekIs 1 "*"

/-- The default of a shorthand property. It is in order only if the object turns out to
be a pattern, so its offset is kept. -/
def shorthandDefault (G : Grammar m) (start : Nat) (name : Node) : m Node := do
  let offset ← startOffset
  modify fun cursor =>
    { cursor with shorthandDefaults := cursor.shorthandDefaults ++ [offset] }
  bump
  withDefault start name (← allowIn G.assignment)

/-- Read one property of an object. -/
def property (G : Grammar m) : m Node := do
  let start ← startOffset
  let isAsync := atPropertyModifier (← get) "async"
  if isAsync then
    require .asyncMethods start
    bump
  let isGenerator := (← get).atText "*"
  if isGenerator then
    require .generators (← startOffset)
    bump
  let word ← if !isAsync && !isGenerator then accessor atAccessor else pure none
  let keyIsIdentifier := (← get).atIdentifier
  let (key, computed) ← propertyKey G
  match word with
  | some word => propertyNode start key (← methodFunction G false false) word false false computed
  | none =>
      let cursor ← get
      if isAsync || isGenerator || cursor.atText "(" then
        require .methodShorthand start
        let value ← methodFunction G isAsync isGenerator
        propertyNode start key value "init" true false computed
      else if ← eat ":" then
        propertyNode start key (← allowIn G.assignment) "init" false false computed
      else if keyIsIdentifier && !computed &&
          (cursor.atText "," || cursor.atText "\x7d" || cursor.atText "=") then
        require .shorthandProperties start
        let name ← cloneIdentifier key
        let value ← if cursor.atText "=" then shorthandDefault G start name else pure name
        propertyNode start key value "init" false true computed
      else
        unexpected

/-- Read one member of an object, or its end. -/
def objectTurn (G : Grammar m) (seen : List Node) : m (Turn (List Node) (List Node)) := do
  if (← get).atText "\x7d" then return .done seen
  else
    let member ←
      if (← get).atText "..." then do
        require .objectSpread (← startOffset)
        spreadElement G
      else property G
    unless (← get).atText "\x7d" do expect ","
    return .again (seen ++ [member])

def objectLiteral (G : Grammar m) : m Node := do
  let start ← startOffset
  expect "\x7b"
  let properties ← iterate (objectTurn G) []
  expect "\x7d"
  finish .objectExpression start [(.properties, .nodes properties)]

end EcmaLint.Grammar
