import EcmaLint.Edit.Fix
import EcmaLint.Lint.SourceCode
import EcmaLint.Rules.ObjectShorthand.Settings
import EcmaLint.Text.Blank
import EcmaLint.Tree.Place

/-! Arrow functions that share `this`, `super`, `arguments` or `new.target` with the function
around them. As a method has its own, such an arrow function cannot become one.

Shorthand in object literals: for `name: name`, and for functions as methods. A conversion from
one notation of a property to the other is worked out on tokens, and where a token is not found, or
a comment would be lost, there is none. -/
namespace EcmaLint.Rules.ObjectShorthand

/-- What is known in the middle of a traversal. Arrow functions are told apart by address. -/
structure ArrowScopes where
  /-- For each function that is open, the innermost first, the arrow functions open in it. -/
  functions : List (List (List Nat)) := []
  /-- The arrow functions found to share something. -/
  sharing : List (List Nat) := []
  deriving DecidableEq, Repr

namespace ArrowScopes

def enterFunction (scopes : ArrowScopes) : ArrowScopes :=
  { scopes with functions := [] :: scopes.functions }

def exitFunction (scopes : ArrowScopes) : ArrowScopes :=
  { scopes with functions := scopes.functions.tail }

/-- Change the arrow functions that are open in the innermost function. -/
def changeInnermost (change : List (List Nat) → List (List Nat)) (scopes : ArrowScopes) :
    ArrowScopes :=
  match scopes.functions with
  | [] => scopes
  | arrows :: outer => { scopes with functions := change arrows :: outer }

def enterArrow (arrow : Place) (scopes : ArrowScopes) : ArrowScopes :=
  scopes.changeInnermost fun arrows => arrow.address :: arrows

def exitArrow (arrow : Place) (scopes : ArrowScopes) : ArrowScopes :=
  scopes.changeInnermost fun arrows => arrows.filter (· != arrow.address)

/-- Note that something shared is used here. -/
def share (scopes : ArrowScopes) : ArrowScopes :=
  { scopes with sharing := scopes.functions.headD [] ++ scopes.sharing }

/-- Whether an arrow function was found to share something. -/
def shares (scopes : ArrowScopes) (arrow : Place) : Bool := scopes.sharing.contains arrow.address

end ArrowScopes

/-- The first and the last token of the key of a property, brackets included. -/
def keyTokens? (source : SourceCode) (property : Node) : Option (Token × Token) := do
  let key ← property.child? .key
  if property.flag .computed then
    let value ← property.child? .value
    let opening ← source.tokenBeforeWhere? key.span fun token => token.isPunctuator "["
    let closing ← (source.tokensBetween key.span value.span).find? fun token =>
      token.isPunctuator "]"
    return (opening, closing)
  else
    return (← source.firstToken? key.span, ← source.lastToken? key.span)

/-- The text from the start of one token to the end of another. -/
def textFromTo (source : SourceCode) (first last : Token) : String :=
  source.textOf ⟨first.span.start, last.span.stop⟩

/-- The parameters and the body of a function that is written with the word `function`. -/
def functionTail? (source : SourceCode) (value : Node) : Option String := do
  let word ← source.firstTokenWhere? value.span fun token => token.isKeyword "function"
  let beforeParams ← if value.flag .generator then source.tokenAfter? word.span else some word
  return source.textOf ⟨beforeParams.span.stop, value.span.stop⟩

/-- The parameters and the body of an arrow function, without the arrow. A parameter without
parentheses gets them. -/
def arrowTail? (source : SourceCode) (value : Node) : Option String := do
  let body ← value.child? .body
  let arrow ← source.tokenBeforeWhere? body.span fun token => token.isPunctuator "=>"
  let bodyText := source.textOf ⟨arrow.span.stop, value.span.stop⟩
  let params := value.list .params
  let beforeParams ←
    match params.head? with
    | some first => source.tokenBefore? first.span
    | none => source.firstTokenWhere? value.span fun token => token.isPunctuator "("
  let isBare := params.length == 1 &&
    !(beforeParams.isPunctuator "(" && value.span.start ≤ beforeParams.span.start)
  let start ← if isBare then params.head?.map fun param => param.span.start
    else some beforeParams.span.start
  let lastParam ← source.tokenBefore? arrow.span
  let paramsText := source.textOf ⟨start, lastParam.span.stop⟩
  return if isBare then "(" ++ paramsText ++ ")" ++ bodyText else paramsText ++ bodyText

/-- The parameters and the body of a function, as they follow the key of a method. -/
def methodTail? (source : SourceCode) (value : Node) : Option String :=
  if value.kind = .functionExpression then functionTail? source value else arrowTail? source value

/-- From `key: function() {}` to `key() {}`. -/
def toMethod? (source : SourceCode) (property : Node) : Option Fix := do
  let value ← property.child? .value
  let (first, last) ← keyTokens? source property
  if source.commentsExistBetween last.span value.span then none
  let tail ← methodTail? source value
  let words := (if value.flag .async then "async " else "") ++
    (if value.flag .generator then "*" else "")
  return ⟨⟨first.span.start, property.span.stop⟩, words ++ textFromTo source first last ++ tail⟩

/-- From `key() {}` to `key: function() {}`. -/
def fromMethod? (source : SourceCode) (property : Node) : Option Fix := do
  let value ← property.child? .value
  let (first, last) ← keyTokens? source property
  let words := (if value.flag .async then "async " else "") ++ "function" ++
    (if value.flag .generator then "*" else "")
  return ⟨⟨property.span.start, last.span.stop⟩, textFromTo source first last ++ ": " ++ words⟩

/-- From `name: name` to `name`. -/
def toShorthand? (source : SourceCode) (property : Node) (name : String) : Option Fix :=
  if (source.commentsIn property.span).isEmpty then some ⟨property.span, name⟩ else none

/-- From `name` to `name: name`. -/
def fromShorthand (source : SourceCode) (key : Node) : Fix :=
  .insertAfter key.span (": " ++ source.textOf key.span)

/-- Whether an identifier stands for a variable, and not for a name of a property, a label or
a part of `new.target`. -/
def isReference (identifier : Place) : Bool :=
  match identifier.ascents.head? with
  | none => true
  | some { parent, field, .. } =>
      match parent.kind with
      | .memberExpression => field != .property || parent.flag .computed
      | .property | .methodDefinition => field != .key || parent.flag .computed
      | .metaProperty | .labeledStatement | .breakStatement | .continueStatement => false
      | _ => true

def info : RuleInfo :=
  { name := "object-shorthand"
    kind := .suggestion
    description :=
      "Require or disallow method and property shorthand syntax for object literals"
    fixable := some .code
    messages :=
      [("expectedAllPropertiesShorthanded", "Expected shorthand for all properties."),
       ("expectedLiteralMethodLongform",
        "Expected longform method syntax for string literal keys."),
       ("expectedPropertyShorthand", "Expected property shorthand."),
       ("expectedPropertyLongform", "Expected longform property syntax."),
       ("expectedMethodShorthand", "Expected method shorthand."),
       ("expectedMethodLongform", "Expected longform method syntax."),
       ("unexpectedMix", "Unexpected mix of shorthand and non-shorthand properties.")] }

/-- Whether a name looks like one of a constructor: what comes after leading `_`, `$` and
digits is upper-case. -/
def isConstructorName (name : String) : Bool :=
  (name.toList.find? fun c => !(c == '_' || c == '$' || c.isDigit)).any Text.isUpperCased

def isStringLiteral (node : Node) : Bool :=
  node.kind == .literal && (node.text? .value).isSome

/-- The name that a key stands for, as far as it can be told without running the program. -/
def staticName? (property : Node) : Option String := do
  let key ← property.child? .key
  match key.kind with
  | .identifier => if property.flag .computed then none else key.name?
  | .literal => (key.text? .value).or ((key.number? .value).map Decimal.propertyName)
  | .templateLiteral =>
      if (key.list .expressions).isEmpty then
        ((key.list .quasis).head?).bind fun quasi => quasi.text? .cooked
      else none
  | _ => none

def isFunctionValue (value : Node) : Bool :=
  value.kind == .functionExpression || value.kind == .arrowFunctionExpression

def isAccessor (property : Node) : Bool :=
  property.text? .kind == some "get" || property.text? .kind == some "set"

/-- Whether a property could be written in shorthand. -/
def isRedundant (property : Node) : Bool :=
  match property.child? .value with
  | none => false
  | some value =>
      match value.kind with
      | .functionExpression => (value.child? .id).isNone
      | .identifier => staticName? property == value.name?
      | _ => false

def isConcise (property : Node) : Bool := property.flag .shorthand || property.flag .method

/-- Reports on an object as a whole, in the modes that look at objects as a whole. -/
def objectReports (settings : Settings) (object : Node) : List Report :=
  let properties := (object.list .properties).filter fun property =>
    property.kind == .property && !isAccessor property
  let looksAtObjects := settings.mode == .consistent || settings.mode == .consistentAsNeeded
  if !looksAtObjects || properties.all isConcise then []
  else if properties.any isConcise then [.onNode "unexpectedMix" object]
  else if settings.mode == .consistentAsNeeded && properties.all isRedundant then
    [.onNode "expectedAllPropertiesShorthanded" object]
  else []

/-- A report on a property with its fix, if there is one. -/
def fixableReport (messageId : String) (property : Node) (fix : Option Fix) : Report :=
  { Report.onNode messageId property with fixes := some fix.toList }

/-- Reports on a property that is in shorthand. -/
def conciseReports (settings : Settings) (source : SourceCode) (property key : Node) :
    List Report :=
  if property.flag .method && settings.mode == .never then
    [fixableReport "expectedMethodLongform" property (fromMethod? source property)]
  else if property.flag .method && settings.avoidQuotes && isStringLiteral key then
    [fixableReport "expectedLiteralMethodLongform" property (fromMethod? source property)]
  else if settings.mode == .never then
    [fixableReport "expectedPropertyLongform" property (some (fromShorthand source key))]
  else []

/-- Whether a function is kept out by an exception. -/
def isExceptedFunction (settings : Settings) (property key : Node) : Bool :=
  let isConstructor := settings.ignoreConstructors && key.kind == .identifier &&
    key.name?.any isConstructorName
  let isIgnored := settings.ignoredMethods.any fun occursIn =>
    (staticName? property).any occursIn
  isConstructor || isIgnored || (settings.avoidQuotes && isStringLiteral key)

/-- Whether a function can become a method. -/
def isConvertible (settings : Settings) (scopes : ArrowScopes) (value : Place) : Bool :=
  value.kind == .functionExpression ||
    (settings.avoidExplicitReturnArrows &&
      (value.node.child? .body).any (fun body => body.kind == .blockStatement) &&
      !scopes.shares value)

/-- Reports on a variable under its own name. -/
def variableReports (settings : Settings) (source : SourceCode) (property key value : Node) :
    List Report :=
  match value.name? with
  | none => []
  | some name =>
      let isSameWord := key.kind == .identifier && key.name? == some name
      let isSameText := key.kind == .literal && key.text? .value == some name
      if isSameWord || (isSameText && !settings.avoidQuotes) then
        [fixableReport "expectedPropertyShorthand" property (toShorthand? source property name)]
      else []

/-- Reports on a property that is not in shorthand. -/
def longReports (settings : Settings) (source : SourceCode) (scopes : ArrowScopes)
    (property key : Node) (value : Place) : List Report :=
  if settings.mode.asksForMethods && (value.node.child? .id).isNone &&
      isFunctionValue value.node then
    if !isExceptedFunction settings property key && isConvertible settings scopes value then
      [fixableReport "expectedMethodShorthand" property (toMethod? source property)]
    else []
  else if settings.mode.asksForProperties && value.kind == .identifier then
    variableReports settings source property key value.node
  else []

/-- Reports on a property of an object. Properties of patterns and accessors have only one
notation, and so have computed keys with other values than functions. -/
def propertyReports (settings : Settings) (source : SourceCode) (place : Place)
    (scopes : ArrowScopes) : List Report :=
  let property := place.node
  let isInPattern := place.parent?.any fun parent => parent.kind == .objectPattern
  match property.child? .key, place.child? .value with
  | some key, some value =>
      if isInPattern || isAccessor property ||
          (property.flag .computed && !isFunctionValue value.node) then []
      else if isConcise property then conciseReports settings source property key
      else longReports settings source scopes property key value
  | _, _ => []

/-- The listeners that keep track of functions and arrow functions. -/
def scopeListeners : List (Listener ArrowScopes) :=
  (["Program", "FunctionDeclaration", "FunctionExpression"].flatMap fun kind =>
    [.remembering kind fun _ scopes => scopes.enterFunction,
     .remembering (kind ++ ":exit") fun _ scopes => scopes.exitFunction]) ++
  [.remembering "ArrowFunctionExpression" ArrowScopes.enterArrow,
   .remembering "ArrowFunctionExpression:exit" ArrowScopes.exitArrow] ++
  (["ThisExpression", "Super", "MetaProperty[meta.name='new'][property.name='target']"].map
    fun key => .remembering key fun _ scopes => scopes.share) ++
  [.remembering "Identifier[name='arguments']" fun place scopes =>
    if isReference place then scopes.share else scopes]

/-- All listeners. Properties are looked at on leaving them, when all is known of the arrow
functions in them. -/
def listeners (settings : Settings) : List (Listener ArrowScopes) :=
  scopeListeners ++
  [.reporting "ObjectExpression" fun _ place _ => objectReports settings place.node,
   .reporting "Property:exit" (propertyReports settings)]

def rule [RegexEngine] : Rule :=
  { info
    schema
    Memory := ArrowScopes
    initial := {}
    create := fun options => do return listeners (← Settings.ofOptions options) }

end EcmaLint.Rules.ObjectShorthand
