import EcmaLint.Lint.Pass

/-! Linters: rules that are set up to look at programs. -/
namespace EcmaLint

structure Linter where
  rules : List ActiveRule
  /-- How texts are read as programs. -/
  parser : String → ParseOptions → Except ParseError Parsed := parse
  parseOptions : ParseOptions := default
  /-- Whether linting makes fixes and suggestions. -/
  computeFixes : Bool := true

/-- What linting a text has found. -/
structure LintResult where
  diagnostics : List Diagnostic
  failures : List ListenerFailure
  warnings : List String

namespace LintResult

def errorCount (result : LintResult) : Nat :=
  (result.diagnostics.filter fun diagnostic => diagnostic.severity == .error).length

def warningCount (result : LintResult) : Nat := result.diagnostics.length - result.errorCount

/-- Whether the text was no program. -/
def isFatal (result : LintResult) : Bool := result.diagnostics.any Diagnostic.isFatal

end LintResult

namespace Linter

variable [RegexEngine]

/-- Set up a linter with rules whose options are known to fit. -/
def ofRules (rules : List ConfiguredRule) : Except LintError Linter := do
  return { rules := ← rules.mapM ConfiguredRule.activate }

/-- Check the options of a rule. -/
def checkOptions (configured : ConfiguredRule) : Except LintError Unit :=
  let { rule, options, .. } := configured
  match rule.schema.validate rule.info.name options with
  | .ok () => .ok ()
  | .error cause => .error (.config cause)

/-- Check the options of rules in order. -/
def checkAll : List ConfiguredRule → Except LintError Unit
  | [] => .ok ()
  | configured :: rest => do
      checkOptions configured
      checkAll rest

/-- Set up a linter with those of the rules that are not off. -/
def withRules (rules : List ConfiguredRule) : Except LintError Linter :=
  let enabled := rules.filter fun configured => configured.severity.isEnabled
  match checkAll enabled with
  | .ok () => ofRules enabled
  | .error cause => .error cause

/-- One pass over a text. -/
def pass (linter : Linter) (computeFixes : Bool) (text : String) : Pass :=
  match linter.parser text linter.parseOptions with
  | .ok parsed => .ofRules linter.rules computeFixes ⟨text, parsed⟩
  | .error error => .unparsed text error

/-- What the rules say about a text. -/
def verify (linter : Linter) (text : String) : LintResult :=
  let { findings, failures, warnings, .. } := linter.pass linter.computeFixes text
  { diagnostics := findings.map Finding.diagnostic, failures, warnings }

end Linter

end EcmaLint
