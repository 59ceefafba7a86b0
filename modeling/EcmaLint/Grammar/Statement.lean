import EcmaLint.Grammar.Expression

/-! Statements and declarations. -/
namespace EcmaLint.Grammar

open Production

variable {m : Type → Type} [Monad m] [MonadReaderOf Context m] [MonadStateOf Cursor m]
  [MonadExceptOf ParseError m] [Scoped m]

/-- The word `let` opens a declaration only if what it binds may follow. -/
def atLetDeclaration (year : Nat) (cursor : Cursor) : Bool :=
  2015 ≤ year &&
    (cursor.peek? 1).any fun next =>
      next.kind == .identifier || next.text == "[" || next.text == "\x7b"

/-- Outside the head of a `for` statement constants and patterns need an initializer. -/
def checkInitializer (isConst : Bool) (target : Node) : m Unit := do
  if isConst then fault .constWithoutInitializer (← startOffset)
  if target.kind != .identifier then fault .patternWithoutInitializer (← startOffset)

/-- Read one declarator. -/
def declarator (G : Grammar m) (isConst inFor : Bool) : m Node := do
  let start ← startOffset
  let target ← G.bindingTarget
  let init ← if ← eat "=" then some <$> G.assignment else pure none
  if init.isNone && !inFor then checkInitializer isConst target
  finish .variableDeclarator start [(.id, .node target), (.init, .slot init)]

/-- Read one declarator and the comma behind it, if there is one. -/
def declaratorsTurn (G : Grammar m) (isConst inFor : Bool) (seen : List Node) :
    m (Turn (List Node) (List Node)) := do
  let seen := seen ++ [← declarator G isConst inFor]
  if ← eat "," then return .again seen else return .done seen

/-- Read the word of a declaration and its declarators. -/
def declarators (G : Grammar m) (inFor : Bool) : m (List Node) := do
  let isConst := (← get).atText "const"
  bump
  iterate (declaratorsTurn G isConst inFor) []

def variableStatement (G : Grammar m) (kind : String) : m Node := do
  let start ← startOffset
  let declarations ← declarators G false
  semicolon
  finish .variableDeclaration start
    [(.declarations, .nodes declarations), (.kind, .text kind)]

def expressionStatement (G : Grammar m) : m Node := do
  let start ← startOffset
  let expression ← G.expression
  semicolon
  finish .expressionStatement start [(.expression, .node expression)]

def ifStatement (G : Grammar m) : m Node := do
  let start ← startOffset
  bump
  let test ← G.parenthesized
  let consequent ← G.statement
  let alternate ← if ← eat "else" then some <$> G.statement else pure none
  finish .ifStatement start
    [(.test, .node test), (.consequent, .node consequent), (.alternate, .slot alternate)]

/-- Read a `for` statement from the word `in` or `of` on. -/
def forEach (G : Grammar m) (start : Nat) (left : Node) (isAwait : Bool) : m Node := do
  let isOf := (← get).atText "of"
  if isOf then require .forOfLoops (← startOffset)
  else if isAwait then unexpected
  bump
  let right ← if isOf then allowIn G.assignment else allowIn G.expression
  expect ")"
  let body ← G.statement
  let fields := [(FieldName.left, Field.node left), (.right, .node right), (.body, .node body)]
  if isOf then finish .forOfStatement start (fields ++ [(.await, .flag isAwait)])
  else finish .forInStatement start fields

/-- Read a `for` statement from the end of its initializer on. -/
def forClauses (G : Grammar m) (start : Nat) (init : Option Node) (isAwait : Bool) :
    m Node := do
  if isAwait then unexpected
  expect ";"
  let test ← if (← get).atText ";" then pure none else some <$> allowIn G.expression
  expect ";"
  let update ← if (← get).atText ")" then pure none else some <$> allowIn G.expression
  expect ")"
  let body ← G.statement
  finish .forStatement start
    [(.init, .slot init), (.test, .slot test), (.update, .slot update), (.body, .node body)]

/-- A declaration stands at the start of the head of a `for` statement. -/
def atForDeclaration (year : Nat) (cursor : Cursor) : Bool :=
  cursor.atText "var" || cursor.atText "const" ||
    (cursor.atText "let" && atLetDeclaration year cursor)

def atInOrOf (cursor : Cursor) : Bool := cursor.atText "in" || cursor.atText "of"

/-- Read a `for` statement whose head starts with a declaration. -/
def forDeclaration (G : Grammar m) (start : Nat) (isAwait : Bool) : m Node := do
  let declarationStart ← startOffset
  let kind := ((← get).current?.map Token.text).getD ""
  if kind == "const" then require .constDeclarations declarationStart
  let declarations ← withoutIn (declarators G true)
  let declaration ← finish .variableDeclaration declarationStart
    [(.declarations, .nodes declarations), (.kind, .text kind)]
  if declarations.length == 1 && atInOrOf (← get) then forEach G start declaration isAwait
  else forClauses G start (some declaration) isAwait

def forStatement (G : Grammar m) : m Node := do
  let start ← startOffset
  bump
  let isAwait := (← get).atText "await" && (← read).inAsync
  if isAwait then
    require .forAwait (← startOffset)
    bump
  expect "("
  let cursor ← get
  if cursor.atText ";" then forClauses G start none isAwait
  else if atForDeclaration (← read).year cursor then forDeclaration G start isAwait
  else
    let expression ← withoutIn G.expression
    if atInOrOf (← get) then forEach G start (← toTarget expression) isAwait
    else forClauses G start (some expression) isAwait

def whileStatement (G : Grammar m) : m Node := do
  let start ← startOffset
  bump
  let test ← G.parenthesized
  let body ← G.statement
  finish .whileStatement start [(.test, .node test), (.body, .node body)]

/-- Read a `do` statement. Its semicolon may be left out anywhere. -/
def doWhileStatement (G : Grammar m) : m Node := do
  let start ← startOffset
  bump
  let body ← G.statement
  expect "while"
  let test ← G.parenthesized
  let _ ← eat ";"
  finish .doWhileStatement start [(.body, .node body), (.test, .node test)]

def returnStatement (G : Grammar m) : m Node := do
  let start ← startOffset
  bump
  let argument ← if ← atStatementEnd then pure none else some <$> G.expression
  semicolon
  finish .returnStatement start [(.argument, .slot argument)]

/-- Read a `break` or `continue` statement; its label stands on the same line. -/
def jumpStatement (kind : NodeKind) : m Node := do
  let start ← startOffset
  bump
  let label ←
    if (← get).atIdentifier && !(← newlineBefore) then some <$> identifier else pure none
  semicolon
  finish kind start [(.label, .slot label)]

def throwStatement (G : Grammar m) : m Node := do
  let start ← startOffset
  bump
  if ← newlineBefore then fault .newlineAfterThrow (← get).previousEnd
  let argument ← G.expression
  semicolon
  finish .throwStatement start [(.argument, .node argument)]

/-- Read a catch clause from the word `catch` on. -/
def catchClause (G : Grammar m) : m Node := do
  let start ← startOffset
  bump
  let param ←
    if ← eat "(" then do
      let param ← G.bindingTarget
      expect ")"
      pure (some param)
    else do
      require .optionalCatchBinding (← startOffset)
      pure none
  let body ← G.block
  finish .catchClause start [(.param, .slot param), (.body, .node body)]

def tryStatement (G : Grammar m) : m Node := do
  let start ← startOffset
  bump
  let block ← G.block
  let handler ← if (← get).atText "catch" then some <$> catchClause G else pure none
  let finalizer ← if ← eat "finally" then some <$> G.block else pure none
  if handler.isNone && finalizer.isNone then fault .tryAlone (← startOffset)
  finish .tryStatement start
    [(.block, .node block), (.handler, .slot handler), (.finalizer, .slot finalizer)]

/-- Read the head of a case; the flag tells whether a `default` came before. -/
def caseHead (G : Grammar m) (seenDefault : Bool) : m (Option Node × Bool) := do
  if ← eat "case" then return (some (← allowIn G.expression), seenDefault)
  else if (← get).atText "default" then
    if seenDefault then fault .secondDefault (← startOffset)
    bump
    return (none, true)
  else
    unexpected

/-- Read one statement of a case, or the end of the case. -/
def caseTurn (G : Grammar m) (seen : List Node) : m (Turn (List Node) (List Node)) := do
  let cursor ← get
  if cursor.atText "case" || cursor.atText "default" || cursor.atText "\x7d" then
    return .done seen
  else if cursor.atEnd then unexpected
  else return .again (seen ++ [← G.statement])

/-- Read the statements of a case. -/
def caseBody (G : Grammar m) : m (List Node) := iterate (caseTurn G) []

/-- Read one case of a switch, or the end of the switch. -/
def switchTurn (G : Grammar m) :
    List Node × Bool → m (Turn (List Node × Bool) (List Node))
  | (seen, seenDefault) => do
      if (← get).atText "\x7d" then return .done seen
      else
        let start ← startOffset
        let (test, seenDefault) ← caseHead G seenDefault
        expect ":"
        let consequent ← caseBody G
        let case ← finish .switchCase start
          [(.test, .slot test), (.consequent, .nodes consequent)]
        return .again (seen ++ [case], seenDefault)

def switchStatement (G : Grammar m) : m Node := do
  let start ← startOffset
  bump
  let discriminant ← G.parenthesized
  expect "\x7b"
  let cases ← iterate (switchTurn G) ([], false)
  bump
  finish .switchStatement start [(.discriminant, .node discriminant), (.cases, .nodes cases)]

def withStatement (G : Grammar m) : m Node := do
  let start ← startOffset
  bump
  let object ← G.parenthesized
  let body ← G.statement
  finish .withStatement start [(.object, .node object), (.body, .node body)]

def labeledStatement (G : Grammar m) : m Node := do
  let start ← startOffset
  let label ← identifier
  expect ":"
  let body ← G.statement
  finish .labeledStatement start [(.label, .node label), (.body, .node body)]

/-- Read a statement that is one token, or one token and its semicolon. -/
def shortStatement (kind : NodeKind) (withSemicolon : Bool) : m Node := do
  let start ← startOffset
  bump
  if withSemicolon then semicolon
  finish kind start []

/-- Read a statement that starts with a reserved word. -/
def keywordStatement (G : Grammar m) (word : String) : m Node := do
  match word with
  | "var" => variableStatement G "var"
  | "const" => do
      require .constDeclarations (← startOffset)
      variableStatement G "const"
  | "function" => do function G (← startOffset) false .declaration
  | "class" => classOf G .declaration
  | "if" => ifStatement G
  | "for" => forStatement G
  | "while" => whileStatement G
  | "do" => doWhileStatement G
  | "return" => returnStatement G
  | "break" => jumpStatement .breakStatement
  | "continue" => jumpStatement .continueStatement
  | "throw" => throwStatement G
  | "try" => tryStatement G
  | "switch" => switchStatement G
  | "with" => withStatement G
  | "debugger" => shortStatement .debuggerStatement true
  | _ => expressionStatement G

/-- Read a statement that starts with an identifier. -/
def wordStatement (G : Grammar m) (word : String) : m Node := do
  let cursor ← get
  if word == "let" && atLetDeclaration (← read).year cursor then variableStatement G "let"
  else if word == "async" && cursor.peekIs 1 "function" && !cursor.newlineBeforePeek 1 then
    let start ← startOffset
    require .asyncFunctions start
    bump
    function G start true .declaration
  else if cursor.peekIs 1 ":" then labeledStatement G
  else expressionStatement G

/-- Read a statement. -/
def statementBody (G : Grammar m) : m Node := do
  match (← get).current? with
  | none => unexpected
  | some token =>
      match token.kind with
      | .keyword => keywordStatement G token.text
      | .identifier => wordStatement G token.text
      | .punctuator =>
          if token.text == "\x7b" then G.block
          else if token.text == ";" then shortStatement .emptyStatement false
          else expressionStatement G
      | _ => expressionStatement G

end EcmaLint.Grammar
