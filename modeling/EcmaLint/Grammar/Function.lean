import EcmaLint.Grammar.Pattern

/-! Functions, methods and classes. -/
namespace EcmaLint.Grammar

open Production

variable {m : Type → Type} [Monad m] [MonadReaderOf Context m] [MonadStateOf Cursor m]
  [MonadExceptOf ParseError m] [Scoped m]

/-- Functions and classes stand as declarations or inside expressions. -/
inductive Role where
  | declaration
  | expression
  deriving DecidableEq, Repr

def Role.functionKind : Role → NodeKind
  | .declaration => .functionDeclaration
  | .expression => .functionExpression

def Role.classKind : Role → NodeKind
  | .declaration => .classDeclaration
  | .expression => .classExpression

/-- Read one parameter, or the end of the parameters. -/
def paramsTurn (G : Grammar m) (seen : List Node) : m (Turn (List Node) (List Node)) := do
  if (← get).atText ")" then return .done seen
  else if (← get).atText "..." then
    let rest ← restElement G
    unless (← get).atText ")" do fault .parameterAfterRest (← startOffset)
    return .done (seen ++ [rest])
  else
    let seen := seen ++ [← bindingElement G]
    if ← eat "," then
      if (← get).atText ")" then require .trailingParameterComma (← startOffset)
      return .again seen
    else
      return .done seen

/-- Parameters in parentheses. -/
def params (G : Grammar m) : m (List Node) := do
  expect "("
  let params ← iterate (paramsTurn G) []
  expect ")"
  return params

/-- The fields of a function. -/
def functionFields (name : Option Node) (params : List Node) (body : Node)
    (isAsync isGenerator isExpression : Bool) : List (FieldName × FieldValue) :=
  [(.id, .slot name), (.params, .nodes params), (.body, .node body), (.async, .flag isAsync),
   (.generator, .flag isGenerator), (.expression, .flag isExpression)]

/-- Parameters and body of a function. -/
def paramsAndBody (G : Grammar m) (isAsync isGenerator : Bool) : m (List Node × Node) :=
  inFunction isAsync isGenerator do
    let params ← params G
    return (params, ← block G)

/-- A name, which only expressions may go without. -/
def nameFor (role : Role) : m (Option Node) := do
  if (← get).atIdentifier then return some (← identifier)
  else if role = .declaration then unexpected
  else return none

/-- Read a function from the word `function` on. It starts earlier if it is asynchronous. -/
def function (G : Grammar m) (start : Nat) (isAsync : Bool) (role : Role) : m Node := do
  expect "function"
  let isGenerator := (← get).atText "*"
  if isGenerator then
    require .generators (← startOffset)
    bump
  let name ← nameFor role
  let (params, body) ← paramsAndBody G isAsync isGenerator
  finish role.functionKind start (functionFields name params body isAsync isGenerator false)

/-- Read the parameters and the body of a method. -/
def methodFunction (G : Grammar m) (isAsync isGenerator : Bool) : m Node := do
  let start ← startOffset
  let (params, body) ← paramsAndBody G isAsync isGenerator
  finish .functionExpression start (functionFields none params body isAsync isGenerator false)

/-- A word in a class is a modifier only if the name of a member may follow it. -/
def atModifier (cursor : Cursor) (word : String) : Bool :=
  cursor.atText word && !cursor.peekIs 1 "(" && !cursor.peekIs 1 ";" && !cursor.peekIs 1 "\x7d" &&
    !cursor.peekIs 1 "="

/-- Read `get` or `set` where one of them stands as a modifier. -/
def accessor (atWord : Cursor → String → Bool) : m (Option String) := do
  let cursor ← get
  if atWord cursor "get" then
    bump
    return some "get"
  else if atWord cursor "set" then
    bump
    return some "set"
  else
    return none

/-- Read one method of a class. -/
def methodDefinition (G : Grammar m) : m Node := do
  let start ← startOffset
  let isStatic := atModifier (← get) "static"
  if isStatic then bump
  let cursor ← get
  let isAsync := atModifier cursor "async" && !cursor.newlineBeforePeek 1
  if isAsync then
    require .asyncMethods (← startOffset)
    bump
  let isGenerator ← eat "*"
  let word ← if !isAsync && !isGenerator then accessor atModifier else pure none
  let (key, computed) ← propertyKey G
  unless (← get).atText "(" do unexpected
  let isConstructor := !isStatic && !computed && keyName? key == some "constructor"
  let value ← methodFunction G isAsync isGenerator
  let kind := word.getD (if isConstructor then "constructor" else "method")
  finish .methodDefinition start
    [(.key, .node key), (.value, .node value), (.kind, .text kind), (.computed, .flag computed),
     (.static, .flag isStatic)]

/-- Read one member of a class or a `;` between members, or the end of the class. -/
def classTurn (G : Grammar m) (seen : List Node) : m (Turn (List Node) (List Node)) := do
  let cursor ← get
  if cursor.atText "\x7d" then return .done seen
  else if cursor.atEnd then unexpected
  else if ← eat ";" then return .again seen
  else return .again (seen ++ [← methodDefinition G])

def classBody (G : Grammar m) : m Node := do
  let start ← startOffset
  expect "\x7b"
  let members ← iterate (classTurn G) []
  bump
  finish .classBody start [(.body, .nodes members)]

/-- Read a class from the word `class` on. -/
def classOf (G : Grammar m) (role : Role) : m Node := do
  let start ← startOffset
  require .classes start
  expect "class"
  let name ← nameFor role
  let superClass ← if ← eat "extends" then some <$> G.leftHandSide else pure none
  let body ← classBody G
  finish role.classKind start
    [(.id, .slot name), (.superClass, .slot superClass), (.body, .node body)]

end EcmaLint.Grammar
