import EcmaLint.Edit.Fix
import EcmaLint.Grammar.ParseError
import EcmaLint.Json.Basic
import EcmaLint.Text.Span

/-! Diagnostics: what is said about a program in the end, with its lines and columns, how serious it
is, and the forms in which it is shown. -/
namespace EcmaLint

inductive Severity where
  | off
  | warn
  | error
  deriving DecidableEq, Repr, Inhabited

namespace Severity

def name : Severity → String
  | .off => "off"
  | .warn => "warn"
  | .error => "error"

/-- A rule that is off does not run. -/
def isEnabled (severity : Severity) : Bool := severity != .off

def toNat : Severity → Nat
  | .off => 0
  | .warn => 1
  | .error => 2

def ofNat? : Nat → Option Severity
  | 0 => some .off
  | 1 => some .warn
  | 2 => some .error
  | _ => none

/-- The severity that a text names, by word or by number. -/
def ofText? : String → Option Severity
  | "off" | "0" => some .off
  | "warn" | "warning" | "1" => some .warn
  | "error" | "2" => some .error
  | _ => none

/-- What is said of a text that names no severity. -/
def unknownText (text : String) : String :=
  "unknown severity '" ++ text ++ "', expected 'off', 'warn' or 'error'"

theorem ofNat?_toNat (severity : Severity) : ofNat? severity.toNat = some severity := by
  cases severity <;> rfl

end Severity

/-- A change that is offered to the reader. -/
structure Suggestion where
  messageId : String
  description : String
  fix : Fix
  deriving DecidableEq, Repr

structure Diagnostic where
  /-- The rule that reported it; none if the program could not be read. -/
  ruleId : Option String
  messageId : Option String
  message : String
  severity : Severity
  /-- Set if the program could not be read. -/
  isFatal : Bool
  /-- The kind of node or token that it is about. -/
  nodeType : Option String
  span : Span
  extent : Extent
  fix : Option Fix
  suggestions : List Suggestion
  deriving DecidableEq, Repr

namespace Diagnostic

/-- The diagnostic for a text that is no program. An offset past the end stands for the
end. -/
def ofParseError (source : String) (error : ParseError) : Diagnostic :=
  let span := Span.point (min error.offset (Text.byteLength source.toList))
  { ruleId := none
    messageId := none
    message := "Parsing error: " ++ error.message
    severity := .error
    isFatal := true
    nodeType := none
    span
    extent := span.extent source
    fix := none
    suggestions := [] }

/-- The form of a diagnostic on one line. -/
def render (diagnostic : Diagnostic) : String :=
  diagnostic.extent.start.render ++ " " ++ diagnostic.severity.name ++ " " ++ diagnostic.message ++
    ((diagnostic.ruleId.map fun ruleId => " (" ++ ruleId ++ ")").getD "")

/-- The form of a diagnostic in a listing: both its ends, its message id and its node type. -/
def listing (diagnostic : Diagnostic) : String :=
  "  " ++ diagnostic.extent.start.render ++ "-" ++ diagnostic.extent.stop.render ++ " [" ++
    diagnostic.messageId.getD "-" ++ "] " ++ diagnostic.nodeType.getD "-" ++ ": " ++
    diagnostic.message

/-- A listing of diagnostics, one on each line. -/
def listAll (diagnostics : List Diagnostic) : String :=
  "\n".intercalate (diagnostics.map listing)

end Diagnostic

def Span.toJson (span : Span) : Json :=
  .ofMembers [("start", .nat span.start), ("end", .nat span.stop)]

def Fix.toJson (fix : Fix) : Json :=
  .ofMembers [("range", fix.span.toJson), ("text", .string fix.text)]

def Suggestion.toJson (suggestion : Suggestion) : Json :=
  .ofMembers
    [("messageId", .string suggestion.messageId), ("desc", .string suggestion.description),
     ("fix", suggestion.fix.toJson)]

/-- The members of the JSON form of a diagnostic. Those that say nothing are left out. -/
def Diagnostic.members (diagnostic : Diagnostic) : List (String × Json) :=
  let start := diagnostic.extent.start
  let stop := diagnostic.extent.stop
  [("ruleId", (diagnostic.ruleId.map Json.string).getD .null),
   ("message", .string diagnostic.message), ("severity", .string diagnostic.severity.name),
   ("line", .nat start.line), ("column", .nat start.column),
   ("endLine", .nat stop.line), ("endColumn", .nat stop.column)] ++
    Json.optionalMember "messageId" (diagnostic.messageId.map Json.string) ++
    Json.optionalMember "fatal" (if diagnostic.isFatal then some (.bool true) else none) ++
    Json.optionalMember "nodeType" (diagnostic.nodeType.map Json.string) ++
    Json.optionalMember "fix" (diagnostic.fix.map Fix.toJson) ++
    Json.optionalMember "suggestions"
      (if diagnostic.suggestions.isEmpty then none
       else some (.array (diagnostic.suggestions.map Suggestion.toJson)))

end EcmaLint
