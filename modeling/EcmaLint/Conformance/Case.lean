import EcmaLint.Grammar.Program
import EcmaLint.Json.Basic

/-! Test cases for rules. A valid case is code that a rule must say nothing about; an invalid case
is code with what the rule must say about it, and what its fixes must make of it. Cases can be
written down as JSON. -/
namespace EcmaLint

namespace Conformance

/-- A case with more than its code. -/
structure ValidDetails where
  code : String
  options : List Json
  parseOptions : Option ParseOptions
  name : Option String

inductive ValidCase where
  | code (text : String)
  | detailed (details : ValidDetails)

namespace ValidCase

def text : ValidCase → String
  | .code text => text
  | .detailed details => details.code

def options : ValidCase → List Json
  | .code _ => []
  | .detailed details => details.options

def parseOptions : ValidCase → Option ParseOptions
  | .code _ => none
  | .detailed details => details.parseOptions

end ValidCase

/-- What a suggestion has to be like. What is not stated is not checked. -/
structure SuggestionMatcher where
  messageId : Option String
  description : Option String
  /-- Values for the placeholders of the message, sorted by name. -/
  data : Option (List (String × String))
  /-- The code after the suggestion was followed. -/
  output : String
  deriving DecidableEq, Repr

/-- What a diagnostic has to be like. What is not stated is not checked. -/
structure ErrorMatcher where
  messageId : Option String := none
  message : Option String := none
  /-- Values for the placeholders of the message, sorted by name. -/
  data : Option (List (String × String)) := none
  nodeType : Option String := none
  line : Option Nat := none
  column : Option Nat := none
  endLine : Option Nat := none
  endColumn : Option Nat := none
  suggestions : Option (List SuggestionMatcher) := none
  deriving DecidableEq, Repr

/-- The diagnostics that are due: how many, or what each of them is like. -/
inductive ExpectedErrors where
  | count (number : Nat)
  | list (matchers : List ErrorMatcher)
  deriving DecidableEq, Repr

/-- What fixing has to make of the code. -/
inductive ExpectedOutput where
  /-- Nothing is said: the code must stay as it is. -/
  | unstated
  /-- The code must stay as it is. -/
  | unchanged
  | text (output : String)
  deriving DecidableEq, Repr

structure InvalidCase where
  code : String
  options : List Json := []
  parseOptions : Option ParseOptions := none
  name : Option String := none
  errors : ExpectedErrors
  output : ExpectedOutput := .unstated
  /-- The number of passes after which the output is due. -/
  passes : Nat := 1

/-- The number of diagnostics that are due. -/
def ExpectedErrors.size : ExpectedErrors → Nat
  | .count number => number
  | .list matchers => matchers.length

/-- The cases for one rule. -/
structure TestCases where
  valid : List ValidCase
  invalid : List InvalidCase

end Conformance

open Json

def ParseOptions.toJson (options : ParseOptions) : Json :=
  .ofMembers [("ecmaVersion", .nat options.ecmaVersion)]

namespace Conformance

/-- A value, or `null` where there is none. -/
def orNull (value : Option Json) : Json := value.getD .null

def dataJson (data : List (String × String)) : Json :=
  .ofMembers (data.map fun (name, value) => (name, .string value))

/-- The members that all cases have in common. -/
def caseMembers (code : String) (options : List Json) (parseOptions : Option ParseOptions)
    (name : Option String) : List (String × Json) :=
  [("code", .string code), ("options", .array options),
   ("parseOptions", orNull (parseOptions.map ParseOptions.toJson)),
   ("name", orNull (name.map Json.string))]

def ValidCase.toJson : ValidCase → Json
  | .code text => .string text
  | .detailed details =>
      .ofMembers (caseMembers details.code details.options details.parseOptions details.name)

def SuggestionMatcher.toJson (matcher : SuggestionMatcher) : Json :=
  .ofMembers
    (optionalMember "messageId" (matcher.messageId.map Json.string) ++
      optionalMember "desc" (matcher.description.map Json.string) ++
      optionalMember "data" (matcher.data.map dataJson) ++
      [("output", .string matcher.output)])

def ErrorMatcher.toJson (matcher : ErrorMatcher) : Json :=
  .ofMembers
    (optionalMember "messageId" (matcher.messageId.map Json.string) ++
      optionalMember "message" (matcher.message.map Json.string) ++
      optionalMember "data" (matcher.data.map dataJson) ++
      optionalMember "type" (matcher.nodeType.map Json.string) ++
      optionalMember "line" (matcher.line.map Json.nat) ++
      optionalMember "column" (matcher.column.map Json.nat) ++
      optionalMember "endLine" (matcher.endLine.map Json.nat) ++
      optionalMember "endColumn" (matcher.endColumn.map Json.nat) ++
      optionalMember "suggestions"
        (matcher.suggestions.map fun matchers => .array (matchers.map SuggestionMatcher.toJson)))

def ExpectedErrors.toJson : ExpectedErrors → Json
  | .count due => .nat due
  | .list matchers => .array (matchers.map ErrorMatcher.toJson)

/-- The member for an output; there is none where nothing is said. -/
def ExpectedOutput.member : ExpectedOutput → List (String × Json)
  | .unstated => []
  | .unchanged => [("output", .null)]
  | .text output => [("output", .string output)]

def InvalidCase.toJson (invalid : InvalidCase) : Json :=
  .ofMembers
    (caseMembers invalid.code invalid.options invalid.parseOptions invalid.name ++
      [("errors", invalid.errors.toJson), ("passes", .nat invalid.passes)] ++
      invalid.output.member)

def TestCases.toJson (cases : TestCases) : Json :=
  .ofMembers
    [("valid", .array (cases.valid.map ValidCase.toJson)),
     ("invalid", .array (cases.invalid.map InvalidCase.toJson))]

end Conformance

end EcmaLint
