import EcmaLint.Lint.Filing
import EcmaLint.Selector.Match

/-! One pass over a program. Every rule hears of every visit of the traversal, in the order
of registration, and calls those of its listeners that the visit concerns. A rule that
fails hears nothing more, but what it reported before stays. -/
namespace EcmaLint

/-- A listener whose key has been read. -/
structure ActiveListener (Memory : Type) where
  selector : Selector
  phase : Phase
  react : SourceCode → Place → Memory → Reaction Memory

/-- Read the key of a listener. -/
def Listener.activate [RegexEngine] {Memory : Type} (listener : Listener Memory) :
    Except RuleError (ActiveListener Memory) :=
  let (pattern, phase) := splitKey listener.key
  match Selector.parse pattern with
  | .ok selector => .ok ⟨selector, phase, listener.react⟩
  | .error cause => .error (.invalidSelector cause)

/-- A rule with its listeners set up. -/
structure ActiveRule where
  configured : ConfiguredRule
  listeners : List (ActiveListener configured.rule.Memory)

namespace ActiveRule

def info (active : ActiveRule) : RuleInfo := active.configured.rule.info

end ActiveRule

namespace ConfiguredRule

variable [RegexEngine]

/-- The listeners of a rule under its options. -/
def listeners (configured : ConfiguredRule) :
    Except RuleError (List (ActiveListener configured.rule.Memory)) := do
  let created ← configured.rule.create configured.options
  created.mapM Listener.activate

def activate (configured : ConfiguredRule) : Except LintError ActiveRule :=
  match configured.listeners with
  | .ok listeners => .ok ⟨configured, listeners⟩
  | .error cause => .error (.setup configured.rule.info.name cause)

end ConfiguredRule

/-- How far a rule is in a pass. -/
structure Progress (Memory : Type) where
  memory : Memory
  log : Log
  /-- Set once the rule has failed. -/
  isStopped : Bool

namespace Progress

variable {Memory : Type}

/-- Whether a visit concerns a listener. -/
def concerns (visit : Visit) (listener : ActiveListener Memory) : Bool :=
  listener.phase == visit.phase && listener.selector.picks visit.place

/-- Call listeners one after the other, up to one that fails. -/
def callAll (desk : Desk) (place : Place) :
    List (ActiveListener Memory) → Progress Memory → Progress Memory × Option RuleError
  | [], progress => (progress, none)
  | listener :: rest, progress =>
      let reaction := listener.react desk.source place progress.memory
      match desk.follow listener.selector.specificity reaction progress.log with
      | ((memory, none), log) => callAll desk place rest ⟨memory, log, false⟩
      | ((memory, some cause), log) => (⟨memory, log, true⟩, some cause)

/-- Let a rule hear of a visit. -/
def hear (desk : Desk) (listeners : List (ActiveListener Memory)) (visit : Visit)
    (progress : Progress Memory) : Progress Memory × Option RuleError :=
  if progress.isStopped then (progress, none)
  else callAll desk visit.place (listeners.filter (concerns visit)) progress

end Progress

/-- A rule in the middle of a pass. -/
structure Runner where
  rule : ActiveRule
  progress : Progress rule.configured.rule.Memory

namespace Runner

def start (rule : ActiveRule) : Runner := ⟨rule, ⟨rule.configured.rule.initial, {}, false⟩⟩

def desk (runner : Runner) (source : SourceCode) (computeFixes : Bool) : Desk :=
  ⟨runner.rule.info, source, runner.rule.configured.severity, computeFixes⟩

/-- Let a rule hear of a visit, and say whether it failed. -/
def hear (source : SourceCode) (computeFixes : Bool) (visit : Visit) (runner : Runner) :
    Runner × Option ListenerFailure :=
  let (progress, cause) :=
    runner.progress.hear (runner.desk source computeFixes) runner.rule.listeners visit
  let failure := cause.map fun cause =>
    { ruleId := runner.rule.info.name
      nodeKind := visit.place.kind
      position := Position.of source.text visit.place.span.start
      cause }
  (⟨runner.rule, progress⟩, failure)

end Runner

/-- All rules in the middle of a pass, and the failures so far. -/
structure PassState where
  runners : List Runner
  failures : List ListenerFailure

/-- Let all rules hear of a visit. -/
def PassState.hear (source : SourceCode) (computeFixes : Bool) (state : PassState)
    (visit : Visit) : PassState :=
  let answers := state.runners.map (Runner.hear source computeFixes visit)
  ⟨answers.map Prod.fst, state.failures ++ answers.filterMap Prod.snd⟩

/-- A diagnostic of a pass, with the rule that reported it: its place in the order of
registration and its kind. -/
structure Finding where
  diagnostic : Diagnostic
  reporter : Option (Nat × RuleKind)

/-- What a pass over a text has found. -/
structure Pass where
  findings : List Finding
  failures : List ListenerFailure
  warnings : List String
  /-- Whether the text is a program. -/
  isParsed : Bool

/-- A filed diagnostic with the rule that reported it. -/
structure Reported where
  rank : Nat
  kind : RuleKind
  filed : Filed

namespace Reported

/-- Diagnostics are shown by where they start, then by rule, then by specificity. -/
def le (a b : Reported) : Bool :=
  let start := a.filed.diagnostic.span.start
  let otherStart := b.filed.diagnostic.span.start
  start < otherStart ||
    (start == otherStart &&
      (a.rank < b.rank || (a.rank == b.rank && a.filed.specificity.le b.filed.specificity)))

def finding (reported : Reported) : Finding :=
  ⟨reported.filed.diagnostic, some (reported.rank, reported.kind)⟩

/-- The diagnostics of rules that have heard all visits, by rule. -/
def ofRunners (runners : List Runner) : List Reported :=
  runners.zipIdx.flatMap fun (runner, rank) =>
    runner.progress.log.filed.map fun filed => ⟨rank, runner.rule.info.kind, filed⟩

end Reported

namespace Pass

/-- The pass over a text that is no program. -/
def unparsed (text : String) (error : ParseError) : Pass :=
  { findings := [⟨.ofParseError text error, none⟩]
    failures := []
    warnings := []
    isParsed := false }

/-- The pass of rules over a program. -/
def ofRules (rules : List ActiveRule) (computeFixes : Bool) (source : SourceCode) : Pass :=
  let start : PassState := ⟨rules.map Runner.start, []⟩
  let final := source.root.visits.foldl (PassState.hear source computeFixes) start
  { findings := ((Reported.ofRunners final.runners).mergeSort Reported.le).map Reported.finding
    failures := final.failures
    warnings := final.runners.flatMap fun runner => runner.progress.log.warnings
    isParsed := true }

end Pass

end EcmaLint
