import EcmaLint.Grammar.Object

/-! Operands: primary expressions, member accesses, calls, templates and `new`. -/
namespace EcmaLint.Grammar

open Production

variable {m : Type → Type} [Monad m] [MonadReaderOf Context m] [MonadStateOf Cursor m]
  [MonadExceptOf ParseError m] [Scoped m]

/-- Read an expression that is no access, call or operation. -/
def primary (G : Grammar m) : m Node := do
  let cursor ← get
  match cursor.current? with
  | none => unexpected
  | some token =>
      match token.kind with
      | .identifier => do
          if token.text == "async" && cursor.peekIs 1 "function" &&
              !cursor.newlineBeforePeek 1 then
            require .asyncFunctions token.span.start
            bump
            function G token.span.start true .expression
          else
            identifier
      | .keyword => do
          if token.text == "this" then
            bump
            store .thisExpression token.span []
          else if token.text == "super" then
            bump
            store .super token.span []
          else if token.text == "function" then function G token.span.start false .expression
          else if token.text == "class" then classOf G .expression
          else unexpected
      | .boolean => do
          bump
          literal token (.flag (token.text == "true"))
      | .null => do
          bump
          literal token .null
      | .numeric => numericLiteral token
      | .string => do
          bump
          literal token (.text (stringValue token.text))
      | .regularExpression => do
          bump
          regexLiteral token
      | .template => if atTemplateHead cursor then template G else unexpected
      | .punctuator => do
          if token.text == "(" then
            bump
            let inner ← allowIn G.expression
            expect ")"
            return inner
          else if token.text == "[" then arrayLiteral G
          else if token.text == "\x7b" then objectLiteral G
          else unexpected

/-- The node of a member access. -/
def memberNode (start : Nat) (object property : Node) (computed isOptional : Bool) :
    m Node :=
  finish .memberExpression start
    [(.object, .node object), (.property, .node property), (.computed, .flag computed),
     (.optional, .flag isOptional)]

/-- Read the name of a member after its point. -/
def dotMember (start : Nat) (object : Node) (isOptional : Bool) : m Node := do
  memberNode start object (← identifierName) false isOptional

/-- Read a member in brackets. -/
def computedMember (G : Grammar m) (start : Nat) (object : Node) (isOptional : Bool) :
    m Node := do
  expect "["
  let property ← allowIn G.expression
  expect "]"
  memberNode start object property true isOptional

/-- Read the arguments of a call. -/
def call (G : Grammar m) (start : Nat) (callee : Node) (isOptional : Bool) : m Node := do
  let arguments ← arguments G
  finish .callExpression start
    [(.callee, .node callee), (.arguments, .nodes arguments), (.optional, .flag isOptional)]

/-- Read the template after its tag. -/
def taggedTemplate (G : Grammar m) (start : Nat) (tag : Node) : m Node := do
  let quasi ← template G
  finish .taggedTemplateExpression start [(.tag, .node tag), (.quasi, .node quasi)]

/-- Read what follows an operand: one access, call or template, or nothing. The flag
tells whether an optional access came before. -/
def operandTurn (G : Grammar m) (start : Nat) :
    Node × Bool → m (Turn (Node × Bool) (Node × Bool))
  | (operand, chained) => do
      if ← eat "." then return .again (← dotMember start operand false, chained)
      else if (← get).atText "?." then
        require .optionalChaining (← startOffset)
        bump
        let cursor ← get
        let operand ←
          if cursor.atText "(" then call G start operand true
          else if cursor.atText "[" then computedMember G start operand true
          else dotMember start operand true
        return .again (operand, true)
      else if (← get).atText "[" then
        return .again (← computedMember G start operand false, chained)
      else if (← get).atText "(" then return .again (← call G start operand false, chained)
      else if atTemplateHead (← get) then
        if chained then fault .taggedOptionalChain (← startOffset)
        else return .again (← taggedTemplate G start operand, chained)
      else return .done (operand, chained)

/-- Read an operand with its accesses and calls. -/
def leftHandSideBody (G : Grammar m) : m Node := do
  let start ← startOffset
  let operand ← if (← get).atText "new" then G.newExpression else primary G
  let (operand, chained) ← iterate (operandTurn G start) (operand, false)
  if chained then finish .chainExpression start [(.expression, .node operand)]
  else return operand

/-- Read what follows the callee of `new`: one access or template, or nothing. -/
def calleeTurn (G : Grammar m) (start : Nat) (callee : Node) : m (Turn Node Node) := do
  if ← eat "." then return .again (← dotMember start callee false)
  else if (← get).atText "[" then return .again (← computedMember G start callee false)
  else if atTemplateHead (← get) then return .again (← taggedTemplate G start callee)
  else if (← get).atText "?." then fault .optionalChainInNew (← startOffset)
  else return .done callee

/-- Read the rest of `new.target` after its point. -/
def newTarget (start : Nat) (word : Span) : m Node := do
  unless (← get).atText "target" do unexpected
  unless (← read).inFunction do fault .newTargetOutsideFunction start
  let metaWord ← store .identifier word [(.ident, .text "new")]
  let property ← identifierName
  finish .metaProperty start [(.metaWord, .node metaWord), (.property, .node property)]

/-- Read an expression from the word `new` on. -/
def newExpressionBody (G : Grammar m) : m Node := do
  let start ← startOffset
  let word := ((← get).current?.map Token.span).getD ⟨0, 0⟩
  expect "new"
  if ← eat "." then newTarget start word
  else
    let calleeStart ← startOffset
    let callee ← if (← get).atText "new" then G.newExpression else primary G
    let callee ← iterate (calleeTurn G calleeStart) callee
    let arguments ← if (← get).atText "(" then arguments G else pure []
    finish .newExpression start [(.callee, .node callee), (.arguments, .nodes arguments)]

end EcmaLint.Grammar
