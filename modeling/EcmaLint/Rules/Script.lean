import EcmaLint.Lint.Rule
import EcmaLint.Regex.Reader
import EcmaLint.Text.Bytes

/-! Rules written as data. A script lists the listeners of a rule and what each of them
does at a place: report, with fixes and suggestions, or fail. The texts in it may name
what they are about, such as `$KIND` for the kind of the node. Programs that run scripts use
the engine for regular expressions that this module brings along. -/
namespace EcmaLint

namespace Script

/-- What a report or a fix is about. -/
inductive Target where
  | span (span : Span)
  | node
  | firstToken
  | lastToken
  | tokenBefore
  | tokenAfter
  deriving DecidableEq, Repr

/-- What a fix does with its target. -/
inductive Operation where
  | insertBefore
  | insertAfter
  | remove
  | replace
  deriving DecidableEq, Repr

structure Edit where
  operation : Operation
  target : Target
  text : String
  deriving Repr

structure Suggestion where
  messageId : String
  data : List (String × String)
  edits : List Edit
  deriving Repr

inductive Action where
  | fail (text : String)
  | report (messageId : String) (target : Target) (data : List (String × String))
      (edits : Option (List Edit)) (suggestions : List Suggestion)
  deriving Repr

end Script

/-- A rule as data. -/
structure Script where
  info : RuleInfo
  schema : OptionsSchema
  /-- What setting up the rule fails with, if it does. -/
  setupFailure : Option String
  /-- Selector keys with what is done at the places they pick. -/
  listeners : List (String × List Script.Action)

namespace Script

/-- Where an action happens. -/
structure Scene where
  ruleId : String
  /-- The first option of the rule, if it is a text, or nothing. -/
  option : String
  source : SourceCode
  node : Node

namespace Scene

/-- The names that texts may use, with what they stand for. They are filled in this order,
so what a name stands for may itself use a later one. -/
def names (scene : Scene) : List (String × String) :=
  [("$RULE", scene.ruleId), ("$KIND", scene.node.kind.name), ("$OPT", scene.option),
   ("$NAME", scene.node.name?.getD ""), ("$TEXT", scene.source.textOf scene.node.span)]

def fill (scene : Scene) (text : String) : String :=
  String.ofList (scene.names.foldl
    (fun filled (name, value) => Text.replaceAll name.toList value.toList filled) text.toList)

def fillData (scene : Scene) (data : List (String × String)) : List (String × String) :=
  data.map fun (key, value) => (key, scene.fill value)

/-- The token that a target names, if it names one and there is one. -/
def token? (scene : Scene) : Target → Option Token
  | .firstToken => scene.source.firstToken? scene.node.span
  | .lastToken => scene.source.lastToken? scene.node.span
  | .tokenBefore => scene.source.tokenBefore? scene.node.span
  | .tokenAfter => scene.source.tokenAfter? scene.node.span
  | .span _ | .node => none

/-- The stretch that a target covers. Where there is no token it is the node. -/
def spanOf (scene : Scene) (target : Target) : Span :=
  match target with
  | .span span => span
  | target => ((scene.token? target).map Token.span).getD scene.node.span

/-- An empty report about a target. -/
def reportOn (scene : Scene) (messageId : String) (target : Target) : Report :=
  match target with
  | .span span => .onSpan messageId span
  | target =>
      match scene.token? target with
      | some token => .onToken messageId token
      | none => .onNode messageId scene.node

def fix (scene : Scene) (edit : Edit) : Fix :=
  let span := scene.spanOf edit.target
  let text := scene.fill edit.text
  match edit.operation with
  | .insertBefore => .insertBefore span text
  | .insertAfter => .insertAfter span text
  | .remove => .remove span
  | .replace => ⟨span, text⟩

def suggestion (scene : Scene) (suggestion : Suggestion) : SuggestionRequest :=
  { messageId := suggestion.messageId
    data := scene.fillData suggestion.data
    fixes := suggestion.edits.map scene.fix }

/-- The reports of actions up to one that fails, and its failure. -/
def run (scene : Scene) : List Action → List Report × Option RuleError
  | [] => ([], none)
  | .fail text :: _ => ([], some (.other (scene.fill text)))
  | .report messageId target data edits suggestions :: rest =>
      let report :=
        { scene.reportOn messageId target with
          data := scene.fillData data
          fixes := edits.map fun edits => edits.map scene.fix
          suggestions := suggestions.map scene.suggestion }
      let (reports, failure) := scene.run rest
      (report :: reports, failure)

end Scene

/-- A listener that does what a script says. -/
def listener (info : RuleInfo) (options : List Json) (key : String) (actions : List Action) :
    Listener Unit :=
  let option := (options.head?.bind Json.string?).getD ""
  ⟨key, fun source place _ =>
    let (reports, failure) := Scene.run ⟨info.name, option, source, place.node⟩ actions
    .ofReports () failure reports⟩

/-- The rule that a script describes. -/
def toRule (script : Script) : Rule :=
  { info := script.info
    schema := script.schema
    initial := ()
    create := fun options =>
      match script.setupFailure with
      | some text => .error (.other text)
      | none => .ok (script.listeners.map fun (key, actions) =>
          listener script.info options key actions) }

end Script

end EcmaLint
