import EcmaLint.Json.Decode
import EcmaLint.Text.Visible

/-! Why a rule does not conform to its test cases. -/
namespace EcmaLint.Conformance

/-- The causes for which a case fails. Errors and suggestions are counted from zero. -/
inductive CaseError where
  /-- The rule could not be set up with the options of the case. -/
  | setup (reason : String)
  /-- The code of the case is no program. -/
  | parse (reason : String)
  | listener (reason : String)
  | unexpectedErrors (count : Nat) (listing : String)
  | errorCount (expected actual : Nat) (listing : String)
  | messageAndMessageId (index : Nat)
  | unknownMessageId (index : Nat) (messageId : String)
  /-- A field of a diagnostic is not as stated. -/
  | field (index : Nat) (name expected actual : String)
  /-- A field of a suggestion is not as stated. -/
  | suggestion (index suggestion : Nat) (name expected actual : String)
  | output (expected actual : String)
  | outputSameAsCode
  /-- The rule fixed code for which no output is stated. -/
  | missingOutput (actual : String)
  /-- An output is stated for a rule without fixes. -/
  | outputForNonFixable
  deriving DecidableEq, Repr

namespace CaseError

def name : CaseError → String
  | setup _ => "Setup"
  | parse _ => "Parse"
  | listener _ => "Listener"
  | unexpectedErrors _ _ => "UnexpectedErrors"
  | errorCount _ _ _ => "ErrorCount"
  | messageAndMessageId _ => "MessageAndMessageId"
  | unknownMessageId _ _ => "UnknownMessageId"
  | field _ _ _ _ => "Field"
  | suggestion _ _ _ _ _ => "Suggestion"
  | output _ _ => "Output"
  | outputSameAsCode => "OutputSameAsCode"
  | missingOutput _ => "MissingOutput"
  | outputForNonFixable => "OutputForNonFixable"

/-- What is said of a field that is not as stated. -/
def difference (name expected actual : String) : String :=
  name ++ " should be " ++ expected ++ " but was " ++ actual

def message : CaseError → String
  | setup reason => "rule could not be configured: " ++ reason
  | parse reason => "parsing failed: " ++ reason
  | listener reason => "listener failed: " ++ reason
  | unexpectedErrors count listing =>
      "should have no errors but had " ++ toString count ++ ":\n" ++ listing
  | errorCount expected actual listing =>
      "should have " ++ toString expected ++ " error(s) but had " ++ toString actual ++ ":\n" ++
        listing
  | messageAndMessageId index =>
      "error " ++ toString index ++ ": 'message' and 'messageId' cannot both be set"
  | unknownMessageId index messageId =>
      "error " ++ toString index ++ ": rule has no message id '" ++ messageId ++ "'"
  | field index name expected actual =>
      "error " ++ toString index ++ ": " ++ difference name expected actual
  | suggestion index number name expected actual =>
      "error " ++ toString index ++ ", suggestion " ++ toString number ++ ": " ++
        difference name expected actual
  | output expected actual => difference "output" (Text.quoted expected) (Text.quoted actual)
  | outputSameAsCode => "'output' matches 'code'; use null to assert that no fix is applied"
  | missingOutput actual => "the rule fixed the code, add 'output': " ++ Text.quoted actual
  | outputForNonFixable => "'output' is set but the rule is not fixable"

end CaseError

inductive CaseKind where
  | valid
  | invalid
  deriving DecidableEq, Repr

def CaseKind.name : CaseKind → String
  | .valid => "valid"
  | .invalid => "invalid"

/-- A case that failed, with its place in its list. -/
structure CaseFailure where
  kind : CaseKind
  index : Nat
  code : String
  reason : CaseError
  deriving DecidableEq, Repr

def CaseFailure.render (failure : CaseFailure) : String :=
  failure.kind.name ++ "[" ++ toString failure.index ++ "] " ++ Text.quoted failure.code ++ ": " ++
    failure.reason.message

/-- The causes for which a rule does not conform. -/
inductive ConformanceError where
  /-- What the rule declares does not fit together. -/
  | invalidInfo (ruleId reason : String)
  | duplicateCase (kind : CaseKind) (code : String)
  /-- The text of the cases could not be read. -/
  | unreadable (cause : Json.DecodeError)
  | failedCases (ruleId : String) (failures : List CaseFailure)
  deriving DecidableEq, Repr

def ConformanceError.message : ConformanceError → String
  | invalidInfo ruleId reason => "rule '" ++ ruleId ++ "' has invalid metadata: " ++ reason
  | duplicateCase kind code => "duplicate " ++ kind.name ++ " test case: " ++ Text.quoted code
  | unreadable cause => "invalid fixture: " ++ cause.message
  | failedCases ruleId failures =>
      toString failures.length ++ " case(s) failed for rule '" ++ ruleId ++ "':\n" ++
        "\n".intercalate (failures.map CaseFailure.render)

end EcmaLint.Conformance
