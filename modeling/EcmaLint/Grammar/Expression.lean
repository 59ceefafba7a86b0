import EcmaLint.Grammar.Operand

/-! Expressions: unary and binary operations, conditionals, assignments and arrow functions.
Operators are told by how tightly they bind, and by which of them assign. -/
namespace EcmaLint

namespace Operator

/-- How tightly a binary operator binds. -/
def precedence? : String → Option Nat
  | "??" => some 1
  | "||" => some 2
  | "&&" => some 3
  | "|" => some 4
  | "^" => some 5
  | "&" => some 6
  | "==" | "!=" | "===" | "!==" => some 7
  | "<" | ">" | "<=" | ">=" | "in" | "instanceof" => some 8
  | "<<" | ">>" | ">>>" => some 9
  | "+" | "-" => some 10
  | "*" | "/" | "%" => some 11
  | "**" => some 12
  | _ => none

/-- The operators that stop as soon as the left operand decides. -/
def isLogical (operator : String) : Bool :=
  operator == "||" || operator == "&&" || operator == "??"

/-- The one operator that groups to the right. -/
def groupsRight (operator : String) : Bool := operator == "**"

/-- The operators that assign. -/
def assignments : List String :=
  ["=", "+=", "-=", "*=", "/=", "%=", "**=", "<<=", ">>=", ">>>=", "&=", "|=", "^=", "&&=",
   "||=", "??="]

end Operator

namespace Grammar

open Production

variable {m : Type → Type} [Monad m] [MonadReaderOf Context m] [MonadStateOf Cursor m]
  [MonadExceptOf ParseError m] [Scoped m]

/-- A token that is a unary operator other than `++`, `--` and `await`. -/
def isUnaryOperator (token : Token) : Bool :=
  match token.kind with
  | .punctuator => ["!", "~", "+", "-"].contains token.text
  | .keyword => ["typeof", "void", "delete"].contains token.text
  | _ => false

/-- The node of an operation with one operand. -/
def unaryNode (kind : NodeKind) (start : Nat) (operator : String) (argument : Node)
    (isPrefix : Bool) : m Node :=
  finish kind start
    [(.operator, .text operator), (.argument, .node argument), (.prefixed, .flag isPrefix)]

/-- Read an operand that a `++` or `--` on the same line may follow. -/
def postfixUpdate (G : Grammar m) (start : Nat) : m Node := do
  let operand ← G.leftHandSide
  let cursor ← get
  if (cursor.atText "++" || cursor.atText "--") && !(← newlineBefore) then
    requireSimpleTarget operand
    let operator := (cursor.current?.map Token.text).getD ""
    bump
    unaryNode .updateExpression start operator operand false
  else
    return operand

/-- Read an operand with the unary operators around it. -/
def unaryBody (G : Grammar m) : m Node := do
  let start ← startOffset
  match (← get).current? with
  | none => unexpected
  | some token =>
      if isUnaryOperator token then
        bump
        let argument ← nested G.unary
        unaryNode .unaryExpression start token.text argument true
      else if token.isPunctuator "++" || token.isPunctuator "--" then
        bump
        let argument ← nested G.unary
        requireSimpleTarget argument
        unaryNode .updateExpression start token.text argument true
      else if token.isIdentifier "await" && (← read).inAsync then
        require .asyncFunctions start
        bump
        let argument ← nested G.unary
        finish .awaitExpression start [(.argument, .node argument)]
      else
        postfixUpdate G start

/-- The binary operator at the current token and how tightly it binds. -/
def binaryOperator? (withoutIn : Bool) (cursor : Cursor) : Option (String × Nat) :=
  match cursor.current? with
  | none => none
  | some token =>
      if token.kind != .punctuator && token.kind != .keyword then none
      else if withoutIn && token.text == "in" then none
      else (Operator.precedence? token.text).map fun precedence => (token.text, precedence)

/-- The left operand of a power may not be a unary operation without parentheses. -/
def checkPower (start : Nat) (left : Node) : m Unit := do
  require .exponentiation (← startOffset)
  if (left.kind == .unaryExpression || left.kind == .awaitExpression) &&
      left.span.start == start then
    fault .powerOfUnary start

/-- Read one operator that binds tightly enough and its right operand, or nothing. -/
def binaryTurn (G : Grammar m) (start minimum : Nat) (left : Node) :
    m (Turn Node Node) := do
  match binaryOperator? (← read).withoutIn (← get) with
  | none => return .done left
  | some (operator, precedence) =>
      if precedence < minimum then return .done left
      else
        if Operator.groupsRight operator then checkPower start left
        if operator == "??" then require .nullishCoalescing (← startOffset)
        bump
        let right ←
          G.binary (if Operator.groupsRight operator then precedence else precedence + 1)
        let kind :=
          if Operator.isLogical operator then NodeKind.logicalExpression else .binaryExpression
        return .again (← finish kind start
          [(.operator, .text operator), (.left, .node left), (.right, .node right)])

/-- Read operands joined by operators that bind at least as tightly as `minimum`. -/
def binaryBody (G : Grammar m) (minimum : Nat) : m Node := do
  let start ← startOffset
  let left ← G.unary
  iterate (binaryTurn G start minimum) left

/-- Read an operation that may be the test of a conditional. -/
def conditional (G : Grammar m) : m Node := do
  let start ← startOffset
  let test ← G.binary 0
  if ← eat "?" then
    let consequent ← allowIn G.assignment
    expect ":"
    let alternate ← G.assignment
    finish .conditionalExpression start
      [(.test, .node test), (.consequent, .node consequent), (.alternate, .node alternate)]
  else
    return test

/-- The lexemes after the bracket that closes `depth` open brackets. -/
def afterClosing : Nat → List Lexeme → Option (List Lexeme)
  | _, [] => none
  | depth, lexeme :: rest =>
      if lexeme.token.kind != .punctuator then afterClosing depth rest
      else if ["(", "[", "\x7b"].contains lexeme.token.text then afterClosing (depth + 1) rest
      else if [")", "]", "\x7d"].contains lexeme.token.text then
        if depth ≤ 1 then (if depth = 1 then some rest else none)
        else afterClosing (depth - 1) rest
      else afterClosing depth rest

/-- The lexemes after what may be the parameters of an arrow function. -/
def afterArrowParams : List Lexeme → Option (List Lexeme)
  | [] => none
  | lexeme :: rest =>
      if lexeme.token.kind == .identifier then some rest
      else if lexeme.token.isPunctuator "(" then afterClosing 0 (lexeme :: rest)
      else none

/-- Whether an arrow function stands ahead, and if so, whether it is asynchronous. -/
def arrowAhead? (cursor : Cursor) : Option Bool :=
  let isAsync :=
    cursor.atText "async" && !cursor.newlineBeforePeek 1 &&
      ((cursor.peek? 1).any (fun token => token.kind == .identifier) || cursor.peekIs 1 "(")
  let params := if isAsync then cursor.rest.drop 1 else cursor.rest
  match afterArrowParams params with
  | some (arrow :: _) => if arrow.is "=>" && !arrow.newlineBefore then some isAsync else none
  | _ => none

/-- Read the body of an arrow function, and whether it is an expression. -/
def arrowBody (G : Grammar m) (isAsync : Bool) : m (Node × Bool) :=
  keepingIn do
    if (← get).atText "\x7b" then
      return (← inFunction isAsync false (block G), false)
    else
      return (← within (.arrow isAsync) G.assignment, true)

/-- Read an arrow function. -/
def arrowFunction (G : Grammar m) (isAsync : Bool) : m Node := do
  let start ← startOffset
  require .arrowFunctions start
  if isAsync then
    require .asyncFunctions start
    bump
  let params ←
    if (← get).atText "(" then inFunction isAsync false (params G)
    else (fun param => [param]) <$> identifier
  expect "=>"
  let (body, isExpression) ← arrowBody G isAsync
  finish .arrowFunctionExpression start
    (functionFields none params body isAsync false isExpression)

/-- Read an expression from the word `yield` on. -/
def yieldExpression (G : Grammar m) : m Node := do
  let start ← startOffset
  bump
  let cursor ← get
  if cursor.atEnd || (← newlineBefore) ||
      [")", "]", "\x7d", ",", ";", ":"].any cursor.atText then
    finish .yieldExpression start [(.argument, .slot none), (.delegate, .flag false)]
  else
    let delegate ← eat "*"
    let argument ← G.assignment
    finish .yieldExpression start [(.argument, .node argument), (.delegate, .flag delegate)]

/-- The operator at the current token, if it assigns. -/
def assignmentOperator? (cursor : Cursor) : Option String :=
  match cursor.current? with
  | some token =>
      if token.kind == .punctuator && Operator.assignments.contains token.text then
        some token.text
      else none
  | none => none

/-- What stands before an assignment operator has to be a target of it. -/
def assignmentTarget (operator : String) (left : Node) : m Node := do
  if operator == "=" then toTarget left
  else
    if operator == "**=" then require .exponentiation (← startOffset)
    if ["&&=", "||=", "??="].contains operator then require .logicalAssignment (← startOffset)
    requireSimpleTarget left
    return left

/-- Read an expression without a comma. -/
def assignmentBody (G : Grammar m) : m Node := do
  let cursor ← get
  if (← read).inGenerator && cursor.atText "yield" then yieldExpression G
  else
    match arrowAhead? cursor with
    | some isAsync => arrowFunction G isAsync
    | none =>
        let start ← startOffset
        let left ← conditional G
        match assignmentOperator? (← get) with
        | none => return left
        | some operator =>
            let left ← assignmentTarget operator left
            bump
            let right ← G.assignment
            finish .assignmentExpression start
              [(.operator, .text operator), (.left, .node left), (.right, .node right)]

end Grammar

end EcmaLint
