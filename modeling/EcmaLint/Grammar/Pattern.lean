import EcmaLint.Grammar.Literal

/-! Binding patterns: what declarations, parameters and catch clauses bind. -/
namespace EcmaLint.Grammar

open Production

variable {m : Type → Type} [Monad m] [MonadReaderOf Context m] [MonadStateOf Cursor m]
  [MonadExceptOf ParseError m] [Scoped m]

/-- A pattern with a default. -/
def withDefault (start : Nat) (target value : Node) : m Node :=
  finish .assignmentPattern start [(.left, .node target), (.right, .node value)]

/-- A binding target that may have a default. -/
def bindingElement (G : Grammar m) : m Node := do
  let start ← startOffset
  let target ← G.bindingTarget
  if (← get).atText "=" then
    require .defaultValues (← startOffset)
    bump
    withDefault start target (← allowIn G.assignment)
  else
    return target

/-- Three points and the target that takes what is left. -/
def restElement (G : Grammar m) : m Node := do
  let start ← startOffset
  require .restElements start
  expect "..."
  let argument ← G.bindingTarget
  finish .restElement start [(.argument, .node argument)]

/-- Read one element of an array pattern, or its end. -/
def arrayPatternTurn (G : Grammar m) (seen : List (Option Node)) :
    m (Turn (List (Option Node)) (List (Option Node))) := do
  if (← get).atText "]" then return .done seen
  else if ← eat "," then return .again (seen ++ [none])
  else if (← get).atText "..." then
    let rest ← restElement G
    unless (← get).atText "]" do fault .elementAfterRest (← startOffset)
    return .done (seen ++ [some rest])
  else
    let element ← bindingElement G
    unless (← get).atText "]" do expect ","
    return .again (seen ++ [some element])

def arrayPattern (G : Grammar m) : m Node := do
  let start ← startOffset
  expect "["
  let elements ← iterate (arrayPatternTurn G) []
  expect "]"
  finish .arrayPattern start [(.elements, .slots elements)]

/-- The node of a property that is no method. -/
def propertyNode (start : Nat) (key value : Node) (kind : String)
    (isMethod shorthand computed : Bool) : m Node :=
  finish .property start
    [(.key, .node key), (.value, .node value), (.kind, .text kind), (.method, .flag isMethod),
     (.shorthand, .flag shorthand), (.computed, .flag computed)]

/-- Make a second node of an identifier. Where one word is both the name and the value of a
property, each of the two has a node of its own. -/
def cloneIdentifier (name : Node) : m Node := store .identifier name.span name.fields

/-- Read one property of an object pattern. -/
def patternProperty (G : Grammar m) : m Node := do
  let start ← startOffset
  let keyIsIdentifier := (← get).atIdentifier
  let (key, computed) ← propertyKey G
  if ← eat ":" then
    propertyNode start key (← bindingElement G) "init" false false computed
  else if keyIsIdentifier && !computed then
    let name ← cloneIdentifier key
    if ← eat "=" then
      let value ← withDefault start name (← allowIn G.assignment)
      propertyNode start key value "init" false true computed
    else
      propertyNode start key name "init" false true computed
  else
    unexpected

/-- Read the rest element of an object pattern, which takes an identifier only. -/
def objectRest : m Node := do
  let start ← startOffset
  require .objectRest start
  bump
  let argument ← identifier
  finish .restElement start [(.argument, .node argument)]

/-- Read one member of an object pattern, or its end. -/
def objectPatternTurn (G : Grammar m) (seen : List Node) :
    m (Turn (List Node) (List Node)) := do
  if (← get).atText "\x7d" then return .done seen
  else if (← get).atText "..." then
    let rest ← objectRest
    unless (← get).atText "\x7d" do fault .elementAfterRest (← startOffset)
    return .done (seen ++ [rest])
  else
    let property ← patternProperty G
    unless (← get).atText "\x7d" do expect ","
    return .again (seen ++ [property])

def objectPattern (G : Grammar m) : m Node := do
  let start ← startOffset
  expect "\x7b"
  let properties ← iterate (objectPatternTurn G) []
  expect "\x7d"
  finish .objectPattern start [(.properties, .nodes properties)]

/-- Read what a declaration, a parameter or a catch clause binds. -/
def bindingTargetBody (G : Grammar m) : m Node := do
  let cursor ← get
  if cursor.atText "[" then
    require .destructuring (← startOffset)
    arrayPattern G
  else if cursor.atText "\x7b" then
    require .destructuring (← startOffset)
    objectPattern G
  else
    identifier

end EcmaLint.Grammar
