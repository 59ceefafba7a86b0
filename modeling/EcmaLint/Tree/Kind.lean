/-! The kinds of nodes of an ESTree program and the names of their fields. -/
namespace EcmaLint

inductive NodeKind where
  | program | emptyStatement | blockStatement | expressionStatement | ifStatement
  | labeledStatement | breakStatement | continueStatement | withStatement | switchStatement
  | switchCase | returnStatement | throwStatement | tryStatement | catchClause | whileStatement
  | doWhileStatement | forStatement | forInStatement | forOfStatement | debuggerStatement
  | functionDeclaration | variableDeclaration | variableDeclarator | classDeclaration | classBody
  | methodDefinition | identifier | literal | thisExpression | super | arrayExpression
  | objectExpression | property | functionExpression | arrowFunctionExpression | classExpression
  | templateLiteral | templateElement | taggedTemplateExpression | unaryExpression
  | updateExpression | binaryExpression | logicalExpression | assignmentExpression
  | conditionalExpression | callExpression | newExpression | memberExpression | chainExpression
  | sequenceExpression | yieldExpression | awaitExpression | metaProperty | spreadElement
  | objectPattern | arrayPattern | restElement | assignmentPattern
  deriving DecidableEq, Repr, Inhabited

namespace NodeKind

/-- The ESTree name of a kind. -/
def name : NodeKind → String
  | program => "Program"
  | emptyStatement => "EmptyStatement"
  | blockStatement => "BlockStatement"
  | expressionStatement => "ExpressionStatement"
  | ifStatement => "IfStatement"
  | labeledStatement => "LabeledStatement"
  | breakStatement => "BreakStatement"
  | continueStatement => "ContinueStatement"
  | withStatement => "WithStatement"
  | switchStatement => "SwitchStatement"
  | switchCase => "SwitchCase"
  | returnStatement => "ReturnStatement"
  | throwStatement => "ThrowStatement"
  | tryStatement => "TryStatement"
  | catchClause => "CatchClause"
  | whileStatement => "WhileStatement"
  | doWhileStatement => "DoWhileStatement"
  | forStatement => "ForStatement"
  | forInStatement => "ForInStatement"
  | forOfStatement => "ForOfStatement"
  | debuggerStatement => "DebuggerStatement"
  | functionDeclaration => "FunctionDeclaration"
  | variableDeclaration => "VariableDeclaration"
  | variableDeclarator => "VariableDeclarator"
  | classDeclaration => "ClassDeclaration"
  | classBody => "ClassBody"
  | methodDefinition => "MethodDefinition"
  | identifier => "Identifier"
  | literal => "Literal"
  | thisExpression => "ThisExpression"
  | super => "Super"
  | arrayExpression => "ArrayExpression"
  | objectExpression => "ObjectExpression"
  | property => "Property"
  | functionExpression => "FunctionExpression"
  | arrowFunctionExpression => "ArrowFunctionExpression"
  | classExpression => "ClassExpression"
  | templateLiteral => "TemplateLiteral"
  | templateElement => "TemplateElement"
  | taggedTemplateExpression => "TaggedTemplateExpression"
  | unaryExpression => "UnaryExpression"
  | updateExpression => "UpdateExpression"
  | binaryExpression => "BinaryExpression"
  | logicalExpression => "LogicalExpression"
  | assignmentExpression => "AssignmentExpression"
  | conditionalExpression => "ConditionalExpression"
  | callExpression => "CallExpression"
  | newExpression => "NewExpression"
  | memberExpression => "MemberExpression"
  | chainExpression => "ChainExpression"
  | sequenceExpression => "SequenceExpression"
  | yieldExpression => "YieldExpression"
  | awaitExpression => "AwaitExpression"
  | metaProperty => "MetaProperty"
  | spreadElement => "SpreadElement"
  | objectPattern => "ObjectPattern"
  | arrayPattern => "ArrayPattern"
  | restElement => "RestElement"
  | assignmentPattern => "AssignmentPattern"

/-- Every kind. -/
def all : List NodeKind :=
  [program, emptyStatement, blockStatement, expressionStatement, ifStatement, labeledStatement,
   breakStatement, continueStatement, withStatement, switchStatement, switchCase, returnStatement,
   throwStatement, tryStatement, catchClause, whileStatement, doWhileStatement, forStatement,
   forInStatement, forOfStatement, debuggerStatement, functionDeclaration, variableDeclaration,
   variableDeclarator, classDeclaration, classBody, methodDefinition, identifier, literal,
   thisExpression, super, arrayExpression, objectExpression, property, functionExpression,
   arrowFunctionExpression, classExpression, templateLiteral, templateElement,
   taggedTemplateExpression, unaryExpression, updateExpression, binaryExpression,
   logicalExpression, assignmentExpression, conditionalExpression, callExpression, newExpression,
   memberExpression, chainExpression, sequenceExpression, yieldExpression, awaitExpression,
   metaProperty, spreadElement, objectPattern, arrayPattern, restElement, assignmentPattern]

/-- The kind with a name. -/
def ofName? (name : String) : Option NodeKind := all.find? fun kind => kind.name == name

def isFunction (kind : NodeKind) : Bool :=
  kind == functionDeclaration || kind == functionExpression || kind == arrowFunctionExpression

/-- The statements that `continue` can go on with. -/
def isLoop (kind : NodeKind) : Bool :=
  kind == forStatement || kind == forInStatement || kind == forOfStatement ||
    kind == whileStatement || kind == doWhileStatement

def isClass (kind : NodeKind) : Bool := kind == classDeclaration || kind == classExpression

end NodeKind

/-- The names of the fields of nodes. -/
inductive FieldName where
  | alternate | argument | arguments | async | await | bigint | block | body | callee | cases
  | computed | consequent | cooked | declarations | delegate | discriminant | elements | expression
  | expressions | finalizer | flags | generator | handler | id | ident | init | key | kind | label | left
  | metaWord | method | object | operator | optional | param | params | pattern | prefixed
  | properties | property | quasi | quasis | raw | right | shorthand | sourceType | static
  | superClass | tag | tail | test | update | value
  deriving DecidableEq, Repr, Inhabited

/-- The written name of a field. -/
def FieldName.text : FieldName → String
  | alternate => "alternate"
  | argument => "argument"
  | arguments => "arguments"
  | async => "async"
  | await => "await"
  | bigint => "bigint"
  | block => "block"
  | body => "body"
  | callee => "callee"
  | cases => "cases"
  | computed => "computed"
  | consequent => "consequent"
  | cooked => "cooked"
  | declarations => "declarations"
  | delegate => "delegate"
  | discriminant => "discriminant"
  | elements => "elements"
  | expression => "expression"
  | expressions => "expressions"
  | finalizer => "finalizer"
  | flags => "flags"
  | generator => "generator"
  | handler => "handler"
  | id => "id"
  | ident => "name"
  | init => "init"
  | key => "key"
  | kind => "kind"
  | label => "label"
  | left => "left"
  | metaWord => "meta"
  | method => "method"
  | object => "object"
  | operator => "operator"
  | optional => "optional"
  | param => "param"
  | params => "params"
  | pattern => "pattern"
  | prefixed => "prefix"
  | properties => "properties"
  | property => "property"
  | quasi => "quasi"
  | quasis => "quasis"
  | raw => "raw"
  | right => "right"
  | shorthand => "shorthand"
  | sourceType => "sourceType"
  | static => "static"
  | superClass => "superClass"
  | tag => "tag"
  | tail => "tail"
  | test => "test"
  | update => "update"
  | value => "value"

end EcmaLint
