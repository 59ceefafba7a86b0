import EcmaLint.Conformance.Case
import EcmaLint.Conformance.Failure
import EcmaLint.Conformance.Reader
import EcmaLint.Json.Printer
import EcmaLint.Text.Bytes

/-! Running rules on their test cases. First the rule is checked, then that no case stands
twice, and then every case, whatever becomes of the others. -/
namespace EcmaLint.Conformance

/-- The first thing that is wrong with the messages of a rule, given the ids before. -/
def messageFault? : List String → List (String × String) → Option String
  | _, [] => none
  | seen, (messageId, template) :: rest =>
      let count := fun braces => Text.countOccurrences braces template.toList
      if seen.contains messageId then
        some ("message id '" ++ messageId ++ "' is declared twice")
      else if count Message.opening ≠ count Message.closing then
        some ("message '" ++ messageId ++ "' has unbalanced placeholders: " ++
          Text.quoted template)
      else messageFault? (messageId :: seen) rest

/-- Check what a rule declares. -/
def checkInfo [RegexEngine] (rule : Rule) : Except ConformanceError Unit :=
  let { info, schema, .. } := rule
  if info.messages.isEmpty then .error (.invalidInfo info.name "message catalog is empty")
  else
    match messageFault? [] info.messages with
    | some reason => .error (.invalidInfo info.name reason)
    | none =>
        match schema.compile info.name with
        | .ok _ => .ok ()
        | .error cause => .error (.invalidInfo info.name cause.message)

/-- The first of some things with the key of one before it. -/
def firstRepeated? {α : Type} (key : α → String) : List String → List α → Option α
  | _, [] => none
  | seen, one :: rest =>
      if seen.contains (key one) then some one else firstRepeated? key (key one :: seen) rest

/-- What tells a valid case from others: all but its name. -/
def ValidCase.key (valid : ValidCase) : String :=
  let parseOptions := orNull (valid.parseOptions.map ParseOptions.toJson)
  (Json.array [.string valid.text, .array valid.options, parseOptions]).render

/-- What tells an invalid case from others: all of it. -/
def InvalidCase.key (invalid : InvalidCase) : String := invalid.toJson.render

/-- Check that no case stands twice. -/
def checkDuplicates (cases : TestCases) : Except ConformanceError Unit :=
  match firstRepeated? ValidCase.key [] cases.valid with
  | some valid => .error (.duplicateCase .valid valid.text)
  | none =>
      match firstRepeated? InvalidCase.key [] cases.invalid with
      | some invalid => .error (.duplicateCase .invalid invalid.code)
      | none => .ok ()

/-- A condition, and what goes wrong if it does not hold. -/
def ensure (holds : Bool) (otherwise : CaseError) : Except CaseError Unit :=
  if holds then .ok () else .error otherwise

/-- Check a value, if one is stated. -/
def whenStated {α : Type} (stated : Option α) (check : α → Except CaseError Unit) :
    Except CaseError Unit :=
  match stated with
  | some value => check value
  | none => .ok ()

namespace SuggestionMatcher

/-- Check the message of a suggestion of error number `index`. -/
def checkMessage (info : RuleInfo) (index number : Nat) (matcher : SuggestionMatcher)
    (actual : Suggestion) : Except CaseError Unit :=
  whenStated matcher.messageId fun messageId =>
    match info.template? messageId with
    | none => .error (.unknownMessageId index messageId)
    | some template => do
        ensure (messageId == actual.messageId)
          (.suggestion index number "messageId" (Text.quoted messageId)
            (Text.quoted actual.messageId))
        whenStated matcher.data fun data =>
          let filled := Message.fill template data
          ensure (filled == actual.description)
            (.suggestion index number "desc" (Text.quoted filled) (Text.quoted actual.description))

def check (info : RuleInfo) (code : String) (index number : Nat) (matcher : SuggestionMatcher)
    (actual : Suggestion) : Except CaseError Unit := do
  checkMessage info index number matcher actual
  whenStated matcher.description fun description =>
    ensure (description == actual.description)
      (.suggestion index number "desc" (Text.quoted description) (Text.quoted actual.description))
  let output := (actual.fix.applyTo? code).getD code
  ensure (output == matcher.output)
    (.suggestion index number "output" (Text.quoted matcher.output) (Text.quoted output))

/-- Check suggestions one by one, from a number on. -/
def checkAll (info : RuleInfo) (code : String) (index : Nat) :
    Nat → List SuggestionMatcher → List Suggestion → Except CaseError Unit
  | number, matcher :: matchers, actual :: others => do
      matcher.check info code index number actual
      checkAll info code index (number + 1) matchers others
  | _, _, _ => .ok ()

end SuggestionMatcher

namespace ErrorMatcher

/-- Check the message of a diagnostic, by text or by id. -/
def checkMessage (info : RuleInfo) (index : Nat) (matcher : ErrorMatcher) (actual : Diagnostic) :
    Except CaseError Unit := do
  ensure (matcher.message.isNone || matcher.messageId.isNone) (.messageAndMessageId index)
  whenStated matcher.message fun message =>
    ensure (message == actual.message)
      (.field index "message" (Text.quoted message) (Text.quoted actual.message))
  whenStated matcher.messageId fun messageId =>
    match info.template? messageId with
    | none => .error (.unknownMessageId index messageId)
    | some template => do
        let actualId := actual.messageId.getD ""
        ensure (messageId == actualId)
          (.field index "messageId" (Text.quoted messageId) (Text.quoted actualId))
        whenStated matcher.data fun data =>
          let filled := Message.fill template data
          ensure (filled == actual.message)
            (.field index "message" (Text.quoted filled) (Text.quoted actual.message))

def checkNodeType (index : Nat) (matcher : ErrorMatcher) (actual : Diagnostic) :
    Except CaseError Unit :=
  whenStated matcher.nodeType fun nodeType =>
    let actualType := actual.nodeType.getD ""
    ensure (nodeType == actualType)
      (.field index "type" (Text.quoted nodeType) (Text.quoted actualType))

/-- Check a line or a column, if it is stated. -/
def checkNumber (index : Nat) (name : String) (stated : Option Nat) (actual : Nat) :
    Except CaseError Unit :=
  whenStated stated fun expected =>
    ensure (expected == actual) (.field index name (toString expected) (toString actual))

def checkPlace (index : Nat) (matcher : ErrorMatcher) (actual : Extent) :
    Except CaseError Unit := do
  checkNumber index "line" matcher.line actual.start.line
  checkNumber index "column" matcher.column actual.start.column
  checkNumber index "endLine" matcher.endLine actual.stop.line
  checkNumber index "endColumn" matcher.endColumn actual.stop.column

/-- A number of suggestions in words. -/
def suggestionCount (count : Nat) : String := toString count ++ " suggestion(s)"

def checkSuggestions (info : RuleInfo) (code : String) (index : Nat) (matcher : ErrorMatcher)
    (actual : List Suggestion) : Except CaseError Unit :=
  whenStated matcher.suggestions fun matchers => do
    ensure (matchers.length == actual.length)
      (.field index "suggestions" (suggestionCount matchers.length)
        (suggestionCount actual.length))
    SuggestionMatcher.checkAll info code index 0 matchers actual

def check (info : RuleInfo) (code : String) (index : Nat) (matcher : ErrorMatcher)
    (actual : Diagnostic) : Except CaseError Unit := do
  checkMessage info index matcher actual
  checkNodeType index matcher actual
  checkPlace index matcher actual.extent
  checkSuggestions info code index matcher actual.suggestions

/-- Check diagnostics one by one, from an index on. -/
def checkAll (info : RuleInfo) (code : String) :
    Nat → List ErrorMatcher → List Diagnostic → Except CaseError Unit
  | index, matcher :: matchers, actual :: others => do
      matcher.check info code index actual
      checkAll info code (index + 1) matchers others
  | _, _, _ => .ok ()

end ErrorMatcher

/-- Lint the code of a case. A text that is no program fails the case, and so does a
listener. -/
def lint (linter : Linter) (code : String) : Except CaseError (List Diagnostic) :=
  let result := linter.verify code
  match result.diagnostics.find? Diagnostic.isFatal, result.failures with
  | some fatal, _ => .error (.parse fatal.message)
  | none, failure :: _ => .error (.listener failure.render)
  | none, [] => .ok result.diagnostics

/-- Check what fixing made of the code of a case. -/
def checkOutput (info : RuleInfo) (invalid : InvalidCase) (actual : String) :
    Except CaseError Unit :=
  match invalid.output with
  | .text expected => do
      ensure (expected != invalid.code) .outputSameAsCode
      ensure info.fixable.isSome .outputForNonFixable
      ensure (actual == expected) (.output expected actual)
  | .unchanged => ensure (actual == invalid.code) (.output invalid.code actual)
  | .unstated => ensure (actual == invalid.code) (.missingOutput actual)

/-- A rule to test, and how cases are read that do not say it. -/
structure RuleTester where
  rule : Rule
  parseOptions : ParseOptions := default

namespace RuleTester

variable [RegexEngine]

/-- Set up the linter for a case, and go on with it. -/
def withLinter (tester : RuleTester) (options : List Json) (parseOptions : Option ParseOptions)
    (check : Linter → Except CaseError Unit) : Except CaseError Unit :=
  match Linter.withRules [⟨tester.rule, .error, options⟩] with
  | .ok linter =>
      check { linter with parseOptions := parseOptions.getD tester.parseOptions }
  | .error cause => .error (.setup cause.message)

def checkValid (tester : RuleTester) (valid : ValidCase) : Except CaseError Unit :=
  tester.withLinter valid.options valid.parseOptions fun linter => do
    let diagnostics ← lint linter valid.text
    ensure diagnostics.isEmpty
      (.unexpectedErrors diagnostics.length (Diagnostic.listAll diagnostics))

/-- Check the diagnostics of an invalid case against those that are due. -/
def checkErrors (tester : RuleTester) (invalid : InvalidCase) (actual : List Diagnostic) :
    Except CaseError Unit := do
  ensure (actual.length == invalid.errors.size)
    (.errorCount invalid.errors.size actual.length (Diagnostic.listAll actual))
  match invalid.errors with
  | .count _ => return
  | .list matchers => ErrorMatcher.checkAll tester.rule.info invalid.code 0 matchers actual

def checkInvalid (tester : RuleTester) (invalid : InvalidCase) : Except CaseError Unit :=
  tester.withLinter invalid.options invalid.parseOptions fun linter => do
    tester.checkErrors invalid (← lint linter invalid.code)
    let report := linter.verifyAndFix invalid.code { maxPasses := invalid.passes }
    checkOutput tester.rule.info invalid report.output

/-- The failure of a case, if it fails. -/
def failure? (kind : CaseKind) (index : Nat) (code : String) :
    Except CaseError Unit → Option CaseFailure
  | .ok _ => none
  | .error reason => some ⟨kind, index, code, reason⟩

/-- The failures of all cases, the valid ones first. -/
def failures (tester : RuleTester) (cases : TestCases) : List CaseFailure :=
  cases.valid.zipIdx.filterMap (fun (valid, index) =>
    failure? .valid index valid.text (tester.checkValid valid)) ++
  cases.invalid.zipIdx.filterMap (fun (invalid, index) =>
    failure? .invalid index invalid.code (tester.checkInvalid invalid))

/-- Check a rule and all its cases. -/
def check (tester : RuleTester) (cases : TestCases) : Except ConformanceError Unit := do
  checkInfo tester.rule
  checkDuplicates cases
  match tester.failures cases with
  | [] => return
  | failures => throw (.failedCases tester.rule.info.name failures)

/-- Check a rule and the cases that a JSON text holds. -/
def checkText (tester : RuleTester) (text : String) : Except ConformanceError Unit :=
  match TestCases.ofJsonText text with
  | .ok cases => tester.check cases
  | .error cause => .error (.unreadable cause)

end RuleTester

end EcmaLint.Conformance
