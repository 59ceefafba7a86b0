import EcmaLint.Edit.Fix
import EcmaLint.Json.Decode
import EcmaLint.Lint.Diagnostic
import EcmaLint.Lint.SourceCode
import EcmaLint.Schema.Check
import EcmaLint.Schema.Reader
import EcmaLint.Selector.Reader
import EcmaLint.Text.Span
import EcmaLint.Tree.Kind

/-! What can go wrong with rules and with their configuration. A rule that fails while a
program is looked at stops alone; everything else stops before any program is read.

Rules. A rule says what options it takes and which listeners it sets up. A listener is
called at the places that its selector picks; it answers with reports, of each of which it
learns what became of it, and with what the rule is to remember until the next call. -/
namespace EcmaLint

/-- The causes for which a rule fails. -/
inductive RuleError where
  /-- A report named a message that the rule does not declare. -/
  | unknownMessage (messageId : String)
  | fixNotDeclared
  | suggestionsNotDeclared
  /-- The fixes of one report overlap. -/
  | overlappingFixes (overlap : Overlap)
  | invalidSelector (cause : SelectorError)
  /-- The options passed the schema, but the rule cannot use them. -/
  | invalidOptions (cause : Json.DecodeError)
  /-- An option that has to be a regular expression is none. -/
  | invalidPattern
  | other (text : String)
  deriving DecidableEq, Repr

def RuleError.message : RuleError → String
  | unknownMessage messageId =>
      "message id '" ++ messageId ++ "' is not declared in the rule's messages"
  | fixNotDeclared => "fixable rules must declare `fixable` in their meta"
  | suggestionsNotDeclared =>
      "rules with suggestions must set `has_suggestions` in their meta"
  | overlappingFixes overlap =>
      "fixes from one report must not overlap (" ++ overlap.first.render ++ " and " ++
        overlap.second.render ++ ")"
  | invalidSelector cause => cause.render
  | invalidOptions cause => "invalid options: " ++ cause.message
  | invalidPattern => "regex parse error"
  | other text => text

/-- A rule that failed at a node. -/
structure ListenerFailure where
  ruleId : String
  nodeKind : NodeKind
  position : Position
  cause : RuleError
  deriving DecidableEq, Repr

def ListenerFailure.render (failure : ListenerFailure) : String :=
  "rule '" ++ failure.ruleId ++ "' failed on " ++ failure.nodeKind.name ++ " at " ++
    failure.position.render ++ ": " ++ failure.cause.message

/-- The causes for which a configuration is refused. -/
inductive ConfigError where
  /-- There is no such rule, but there may be one with almost this name. -/
  | unknownRule (name : String) (suggestion : Option String)
  | unknownPreset (name : String)
  /-- The schema of a rule refuses its options. -/
  | invalidOptions (ruleId : String) (errors : List String)
  /-- The schema of a rule is no schema. -/
  | invalidSchema (ruleId : String)
  deriving DecidableEq, Repr

def ConfigError.message : ConfigError → String
  | unknownRule name suggestion =>
      "unknown rule '" ++ name ++ "'" ++
        ((suggestion.map fun other => ", did you mean '" ++ other ++ "'?").getD "")
  | unknownPreset name => "unknown preset '" ++ name ++ "', valid presets are: recommended"
  | invalidOptions ruleId errors =>
      "invalid options for rule '" ++ ruleId ++ "':\n" ++ "\n".intercalate errors
  | invalidSchema ruleId => "rule '" ++ ruleId ++ "' has an invalid options schema"

/-- The causes for which no linter can be set up. -/
inductive LintError where
  | config (cause : ConfigError)
  /-- A rule could not set up its listeners. -/
  | setup (ruleId : String) (cause : RuleError)
  deriving DecidableEq, Repr

def LintError.message : LintError → String
  | config cause => cause.message
  | setup ruleId cause => "rule '" ++ ruleId ++ "' failed to set up: " ++ cause.message

/-- What kind of finding a rule makes. -/
inductive RuleKind where
  | problem
  | suggestion
  | layout
  deriving DecidableEq, Repr, Inhabited

namespace RuleKind

def name : RuleKind → String
  | .problem => "problem"
  | .suggestion => "suggestion"
  | .layout => "layout"

def all : List RuleKind := [.problem, .suggestion, .layout]

/-- The kinds with their names. -/
def named : List (String × RuleKind) := all.map fun kind => (kind.name, kind)

end RuleKind

/-- What the fixes of a rule may change. -/
inductive FixKind where
  | code
  | whitespace
  deriving DecidableEq, Repr

def FixKind.name : FixKind → String
  | .code => "code"
  | .whitespace => "whitespace"

/-- What is known of a rule without running it. -/
structure RuleInfo where
  name : String
  kind : RuleKind := .problem
  description : String := ""
  /-- Whether the preset of recommended rules turns the rule on. -/
  isRecommended : Bool := false
  /-- What its fixes may change; none if it proposes no fixes. -/
  fixable : Option FixKind := none
  hasSuggestions : Bool := false
  /-- Message templates by message id. -/
  messages : List (String × String)
  deriving Repr, Inhabited

/-- The template of a message. -/
def RuleInfo.template? (info : RuleInfo) (messageId : String) : Option String :=
  info.messages.lookup messageId

/-- A change that a report offers to the reader. It is never made on its own. -/
structure SuggestionRequest where
  messageId : String
  data : List (String × String)
  fixes : List Fix
  deriving Repr

/-- What a listener has to say about a stretch of the program. -/
structure Report where
  messageId : String
  span : Span
  /-- The kind of node or token that the report is about. -/
  nodeType : Option String
  /-- Values for the placeholders of the message. -/
  data : List (String × String) := []
  /-- The fixes, if the report is to be fixed. They are made together or not at all. -/
  fixes : Option (List Fix) := none
  suggestions : List SuggestionRequest := []
  deriving Repr

namespace Report

def onNode (messageId : String) (node : Node) : Report :=
  { messageId, span := node.span, nodeType := some node.kind.name }

def onToken (messageId : String) (token : Token) : Report :=
  { messageId, span := token.span, nodeType := some token.kind.name }

def onSpan (messageId : String) (span : Span) : Report := { messageId, span, nodeType := none }

end Report

/-- What a listener learns of a report that it has made. -/
structure Receipt where
  /-- Whether fix functions are run, as a listener can tell from what its own ones do. -/
  computesFixes : Bool
  /-- The report is recorded, or it is refused. -/
  outcome : Except RuleError Unit

/-- How a listener answers a call, step by step. -/
inductive Reaction (Memory : Type) where
  /-- It is done, and may have failed. -/
  | done (memory : Memory) (failure : Option RuleError)
  /-- It makes a report, and goes on with what becomes of it. -/
  | report (report : Report) (next : Receipt → Reaction Memory)

/-- Make reports in order and fail with the error of the first one that is refused. Behind all of
them fail as told, or be done. -/
def Reaction.ofReports {Memory : Type} (memory : Memory) (failure : Option RuleError) :
    List Report → Reaction Memory
  | [] => .done memory failure
  | first :: rest => .report first fun receipt =>
      match receipt.outcome with
      | .ok () => ofReports memory failure rest
      | .error cause => .done memory (some cause)

/-- A listener for the places that the selector in its key picks. It is called on entering
such a place, or on leaving it if the key ends in `:exit`. -/
structure Listener (Memory : Type) where
  key : String
  react : SourceCode → Place → Memory → Reaction Memory

namespace Listener

variable {Memory : Type}

/-- A listener that reports and remembers nothing new. -/
def reporting (key : String) (reports : SourceCode → Place → Memory → List Report) :
    Listener Memory :=
  ⟨key, fun source place memory => .ofReports memory none (reports source place memory)⟩

/-- A listener that only remembers. -/
def remembering (key : String) (remember : Place → Memory → Memory) : Listener Memory :=
  ⟨key, fun _ place memory => .done (remember place memory) none⟩

/-- A key without its ending `:exit`, and the phase that it asks for. -/
def splitKey (key : String) : String × Phase :=
  let ending := ":exit".toList.reverse
  let reversed := key.toList.reverse
  if ending.isPrefixOf reversed then
    (String.ofList (reversed.drop ending.length).reverse, .exit)
  else
    (key, .enter)

end Listener

/-- The options that a rule takes. -/
inductive OptionsSchema where
  /-- No options at all. -/
  | closed
  /-- One schema for each option. -/
  | positional (schemas : List Json)
  /-- A schema for the whole list of options. -/
  | full (schema : Json)

namespace OptionsSchema

/-- The schema of the list of options. -/
def toJson : OptionsSchema → Json
  | .closed =>
      .ofMembers [("type", .string "array"), ("minItems", .nat 0), ("maxItems", .nat 0)]
  | .positional schemas =>
      .ofMembers
        [("type", .string "array"), ("items", .array schemas), ("minItems", .nat 0),
         ("maxItems", .nat schemas.length)]
  | .full schema => schema

variable [RegexEngine]

/-- The schema, or the error that it is none. -/
def compile (schema : OptionsSchema) (ruleId : String) : Except ConfigError Schema :=
  match Schema.ofJson? schema.toJson with
  | some compiled => .ok compiled
  | none => .error (.invalidSchema ruleId)

/-- Check the options of a rule. -/
def validate (schema : OptionsSchema) (ruleId : String) (options : List Json) :
    Except ConfigError Unit := do
  let compiled ← schema.compile ruleId
  match compiled.violations (.array options) with
  | [] => return
  | found => throw (.invalidOptions ruleId (found.map Schema.Violation.message))

end OptionsSchema

structure Rule where
  info : RuleInfo
  schema : OptionsSchema := .closed
  /-- What the rule remembers from one call to the next. -/
  Memory : Type := Unit
  /-- What it remembers before the first call. -/
  initial : Memory
  /-- Its listeners, given options that the schema allows. -/
  create : List Json → Except RuleError (List (Listener Memory))

/-- A rule with what the configuration says of it. -/
structure ConfiguredRule where
  rule : Rule
  severity : Severity
  options : List Json

end EcmaLint
