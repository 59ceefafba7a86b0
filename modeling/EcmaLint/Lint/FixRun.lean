import EcmaLint.Edit.Fix
import EcmaLint.Lint.Linter

/-! Fixing a program in passes. Each pass looks at the text anew, takes as many fixes as go
together and changes the text, until there is nothing left to fix or enough passes have
been made. -/
namespace EcmaLint

/-- How far fixing goes. -/
structure FixOptions where
  /-- The greatest number of passes that change the text. -/
  maxPasses : Nat := 10
  /-- The kinds of rule whose fixes are made. -/
  fixKinds : List RuleKind := RuleKind.all
  deriving DecidableEq, Repr, Inhabited

/-- How fixing came to its end. -/
inductive Termination where
  /-- There was nothing left to fix. -/
  | converged
  /-- Fixes were left, but no more passes. -/
  | passCap
  /-- The text was no program, or no longer one. -/
  | parseFailure
  deriving DecidableEq, Repr

def Termination.name : Termination → String
  | .converged => "converged"
  | .passCap => "passCap"
  | .parseFailure => "parseFailure"

/-- A pass that changed the text. -/
structure FixStep where
  /-- The findings whose fixes were made, in the order of the text. -/
  accepted : List (Offer Finding)
  warnings : List String

/-- The passes over a text, and the last one, which changed nothing. -/
structure FixRun where
  steps : List FixStep
  output : String
  termination : Termination
  last : Pass

/-- The fix that a finding offers, if its rule is of a kind whose fixes are made. -/
def Finding.offer? (kinds : List RuleKind) (finding : Finding) : Option (Offer Finding) := do
  let (rank, kind) ← finding.reporter
  let fix ← finding.diagnostic.fix
  if kinds.contains kind then some ⟨finding, rank, fix⟩ else none

namespace FixRun

/-- The fixes that the findings of a pass offer. -/
def offers (kinds : List RuleKind) (pass : Pass) : List (Offer Finding) :=
  pass.findings.filterMap (Finding.offer? kinds)

/-- Look at a text and fix it, in at most the given number of passes that change it. -/
def of (linter : Linter) (kinds : List RuleKind) : Nat → String → FixRun
  | passes, text =>
      let pass := linter.pass true text
      let offered := offers kinds pass
      if !pass.isParsed then ⟨[], text, .parseFailure, pass⟩
      else if offered.isEmpty then ⟨[], text, .converged, pass⟩
      else
        match passes with
        | 0 => ⟨[], text, .passCap, pass⟩
        | remaining + 1 =>
            let accepted := (Selection.of offered).accepted
            let rest := of linter kinds remaining (Fix.applyAll (accepted.map Offer.fix) text)
            { rest with steps := ⟨accepted, pass.warnings⟩ :: rest.steps }

end FixRun

/-- A fix that was made, with the pass in which it was made. -/
structure AppliedFix where
  pass : Nat
  ruleId : String
  messageId : String
  /-- The fix in terms of the text before the pass. -/
  fix : Fix
  deriving DecidableEq, Repr

/-- What became of the fix of a diagnostic. -/
inductive FixStatus where
  | applied (pass : Nat)
  /-- It has a fix that was not made. -/
  | unapplied
  | noFix
  deriving DecidableEq, Repr

structure FixedDiagnostic where
  diagnostic : Diagnostic
  status : FixStatus
  deriving DecidableEq, Repr

structure FixReport where
  /-- The text after all fixes. -/
  output : String
  /-- The number of passes that changed the text. -/
  passes : Nat
  termination : Termination
  applied : List AppliedFix
  /-- The diagnostics whose fixes were made, then the ones of the output. -/
  diagnostics : List FixedDiagnostic
  /-- The failures in the last pass. -/
  failures : List ListenerFailure
  /-- The warnings of all passes. -/
  warnings : List String

namespace FixReport

/-- The fixes of a pass that changed the text. -/
def appliedIn (pass : Nat) (step : FixStep) : List AppliedFix :=
  step.accepted.map fun offer =>
    { pass
      ruleId := offer.owner.diagnostic.ruleId.getD ""
      messageId := offer.owner.diagnostic.messageId.getD ""
      fix := offer.fix }

/-- The diagnostics whose fixes were made in a pass. -/
def fixedIn (pass : Nat) (step : FixStep) : List FixedDiagnostic :=
  step.accepted.map fun offer => ⟨offer.owner.diagnostic, .applied pass⟩

/-- A diagnostic that stayed. -/
def stayed (finding : Finding) : FixedDiagnostic :=
  ⟨finding.diagnostic, if finding.diagnostic.fix.isSome then .unapplied else .noFix⟩

/-- The account of the passes over a text. -/
def ofRun (run : FixRun) : FixReport :=
  let numbered := run.steps.zipIdx 1
  { output := run.output
    passes := run.steps.length
    termination := run.termination
    applied := numbered.flatMap fun (step, pass) => appliedIn pass step
    diagnostics :=
      (numbered.flatMap fun (step, pass) => fixedIn pass step) ++ run.last.findings.map stayed
    failures := run.last.failures
    warnings := run.steps.flatMap FixStep.warnings ++ run.last.warnings }

/-- Whether any fix was made. -/
def isFixed (report : FixReport) : Bool := !report.applied.isEmpty

/-- The diagnostics of the output. -/
def remaining (report : FixReport) : List Diagnostic :=
  (report.diagnostics.filter fun fixed =>
    match fixed.status with
    | .applied _ => false
    | _ => true).map FixedDiagnostic.diagnostic

end FixReport

/-- Fix a text as far as the options allow. -/
def Linter.verifyAndFix (linter : Linter) (text : String) (options : FixOptions) : FixReport :=
  .ofRun (.of linter options.fixKinds options.maxPasses text)

def AppliedFix.toJson (applied : AppliedFix) : Json :=
  .ofMembers
    [("pass", .nat applied.pass), ("ruleId", .string applied.ruleId),
     ("messageId", .string applied.messageId), ("range", applied.fix.span.toJson),
     ("text", .string applied.fix.text)]

/-- The members of the JSON form of a status. -/
def FixStatus.members : FixStatus → List (String × Json)
  | .applied pass => [("status", .string "applied"), ("pass", .nat pass)]
  | .unapplied => [("status", .string "unapplied")]
  | .noFix => [("status", .string "noFix")]

end EcmaLint
