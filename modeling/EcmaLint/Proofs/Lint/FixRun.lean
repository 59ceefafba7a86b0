import Mathlib.Data.List.Basic
import EcmaLint.Lint.FixRun
import EcmaLint.Proofs.Edit.Selection
import EcmaLint.Proofs.Lint.Pass

/-! The passes over a text, one at a time. A run either stops at the text that it looks at, for
one of three causes, or changes the text by the fixes that it takes and goes on with one pass
less. What is taken comes from findings of the pass over the very text that is changed.

The account of a run can be replayed. From the fixes that a report lists for each pass
and the text before, splicing them pass after pass gives the output. Every list of a pass is
one that can be spliced, so nothing is applied where it does not belong. -/
namespace EcmaLint

namespace Linter

/-- A pass over a text reads it as a program, or says that it is none. -/
theorem pass_eq (linter : Linter) (computeFixes : Bool) (text : String) :
    (∃ parsed, linter.parser text linter.parseOptions = .ok parsed ∧
      linter.pass computeFixes text = .ofRules linter.rules computeFixes ⟨text, parsed⟩) ∨
    (∃ error, linter.parser text linter.parseOptions = .error error ∧
      linter.pass computeFixes text = .unparsed text error) := by
  unfold pass
  cases hParsed : linter.parser text linter.parseOptions with
  | ok parsed => exact Or.inl ⟨parsed, rfl, rfl⟩
  | error error => exact Or.inr ⟨error, rfl, rfl⟩

theorem isParsed_pass_iff {linter : Linter} {computeFixes : Bool} {text : String} :
    (linter.pass computeFixes text).isParsed = true ↔
      ∃ parsed, linter.parser text linter.parseOptions = .ok parsed := by
  rcases linter.pass_eq computeFixes text with ⟨parsed, hParsed, hPass⟩ | ⟨error, hError, hPass⟩
  · rw [hPass, hParsed]
    exact ⟨fun _ => ⟨parsed, rfl⟩, fun _ => rfl⟩
  · rw [hPass, hError]
    exact ⟨fun h => (by cases h), fun ⟨_, h⟩ => (by cases h)⟩

end Linter

/-- A finding of a pass over a text with a fix that may be made: it comes from a rule of the
linter that is of one of the kinds, and has a fix for this text. -/
structure Finding.Fixable (finding : Finding) (linter : Linter) (kinds : List RuleKind)
    (text : String) (rank : Nat) (rule : ActiveRule) (fix : Fix) : Prop where
  rule_eq : linter.rules[rank]? = some rule
  kind_mem : rule.info.kind ∈ kinds
  reporter_eq : finding.reporter = some (rank, rule.info.kind)
  ruleId_eq : finding.diagnostic.ruleId = some rule.info.name
  message_declared : ∃ messageId, finding.diagnostic.messageId = some messageId ∧
    (rule.info.template? messageId).isSome
  fix_eq : finding.diagnostic.fix = some fix
  covers : fix.span.Covers text

theorem Finding.offer?_eq_some_iff {kinds : List RuleKind} {finding : Finding}
    {offer : Offer Finding} :
    finding.offer? kinds = some offer ↔
      ∃ rank kind fix, finding.reporter = some (rank, kind) ∧
        finding.diagnostic.fix = some fix ∧ kind ∈ kinds ∧ offer = ⟨finding, rank, fix⟩ := by
  unfold Finding.offer?
  constructor
  · intro h
    obtain ⟨⟨rank, kind⟩, hReporter, h⟩ := Option.bind_eq_some_iff.mp h
    obtain ⟨fix, hFix, h⟩ := Option.bind_eq_some_iff.mp h
    split at h
    case isFalse => cases h
    case isTrue hKind =>
      cases h
      exact ⟨rank, kind, fix, hReporter, hFix, by simpa using hKind, rfl⟩
  · rintro ⟨rank, kind, fix, hReporter, hFix, hKind, rfl⟩
    simp [hReporter, hFix, hKind]

namespace FixRun

variable {linter : Linter} {kinds : List RuleKind} {text : String}

/-- The findings of a pass that has its fixes: each comes from a rule, and none from a text
that is no program. -/
theorem mem_offers_iff {offer : Offer Finding} :
    offer ∈ offers kinds (linter.pass true text) ↔
      offer.owner ∈ (linter.pass true text).findings ∧
        ∃ rule, offer.owner.Fixable linter kinds text offer.rank rule offer.fix := by
  unfold offers
  rw [List.mem_filterMap]
  constructor
  · rintro ⟨finding, hFinding, hOffer⟩
    obtain ⟨rank, kind, fix, hReporter, hFix, hKind, rfl⟩ :=
      Finding.offer?_eq_some_iff.mp hOffer
    refine ⟨hFinding, ?_⟩
    rcases linter.pass_eq true text with ⟨parsed, -, hPass⟩ | ⟨error, -, hPass⟩
    · rw [hPass] at hFinding
      obtain ⟨rank', rule, hRule, hReporter', hVouches⟩ :=
        Pass.exists_rule_of_mem_findings hFinding
      obtain ⟨rfl, rfl⟩ : rank = rank' ∧ kind = rule.info.kind := by
        simpa using hReporter.symm.trans hReporter'
      exact ⟨rule, hRule, hKind, hReporter, hVouches.ruleId_eq, hVouches.message_declared, hFix,
        hVouches.fix_covers fix hFix⟩
    · rw [hPass] at hFinding
      obtain rfl : finding = _ := List.mem_singleton.mp hFinding
      cases hReporter
  · rintro ⟨hFinding, rule, h⟩
    exact ⟨offer.owner, hFinding, Finding.offer?_eq_some_iff.mpr
      ⟨offer.rank, rule.info.kind, offer.fix, h.reporter_eq, h.fix_eq, h.kind_mem, rfl⟩⟩

end FixRun

/-- The fixes of a step, in the order of the text. -/
def FixStep.fixes (step : FixStep) : List Fix := step.accepted.map Offer.fix

/-- A step that a run makes on a text: the text is a program, and of the fixes that the pass
over it offers, of which there are some, those are made that are taken together. -/
structure FixStep.MadeOn (step : FixStep) (linter : Linter) (kinds : List RuleKind)
    (text : String) : Prop where
  isParsed : (linter.pass true text).isParsed = true
  offered : FixRun.offers kinds (linter.pass true text) ≠ []
  accepted_eq : step.accepted =
    (Selection.of (FixRun.offers kinds (linter.pass true text))).accepted
  warnings_eq : step.warnings = (linter.pass true text).warnings

namespace FixStep.MadeOn

variable {linter : Linter} {kinds : List RuleKind} {text : String} {step : FixStep}

theorem fixable (h : step.MadeOn linter kinds text) :
    ∀ offer ∈ step.accepted, offer.owner ∈ (linter.pass true text).findings ∧
      ∃ rule, offer.owner.Fixable linter kinds text offer.rank rule offer.fix := by
  intro offer hOffer
  rw [h.accepted_eq] at hOffer
  exact FixRun.mem_offers_iff.mp (Selection.mem_of_mem_accepted hOffer)

theorem covers (h : step.MadeOn linter kinds text) :
    ∀ offer ∈ step.accepted, offer.fix.span.Covers text := by
  intro offer hOffer
  obtain ⟨-, rule, hFixable⟩ := h.fixable offer hOffer
  exact hFixable.covers

theorem accepted_ne_nil (h : step.MadeOn linter kinds text) : step.accepted ≠ [] := by
  rw [h.accepted_eq]
  exact Selection.accepted_ne_nil h.offered

theorem clear (h : step.MadeOn linter kinds text) :
    step.accepted.Pairwise fun a b => a.fix.span.ClearOf b.fix.span := by
  rw [h.accepted_eq]
  refine Selection.pairwise_clearOf_accepted fun offer hOffer => ?_
  obtain ⟨-, rule, hFixable⟩ := FixRun.mem_offers_iff.mp hOffer
  exact hFixable.covers.start_le_stop

/-- The text after the step is the splice of its fixes. -/
theorem splice (h : step.MadeOn linter kinds text) :
    Fix.splice? step.fixes text = some (Fix.applyAll step.fixes text) := by
  apply Fix.splice?_eq_some_applyAll
  · exact List.pairwise_map.mpr (h.clear.imp fun hClear => hClear.stop_le)
  · intro fix hFix
    obtain ⟨offer, hOffer, rfl⟩ := List.mem_map.mp hFix
    exact h.covers offer hOffer

/-- A run with a pass left makes the step and goes on with the changed text. -/
theorem of_eq (h : step.MadeOn linter kinds text) (remaining : Nat) :
    FixRun.of linter kinds (remaining + 1) text =
      { FixRun.of linter kinds remaining (Fix.applyAll step.fixes text) with
        steps := step ::
          (FixRun.of linter kinds remaining (Fix.applyAll step.fixes text)).steps } := by
  obtain ⟨hParsed, hSome, hAccepted, hWarnings⟩ := h
  rw [FixRun.of]
  simp [hParsed, hSome, fixes, ← hAccepted, ← hWarnings]

end FixStep.MadeOn

namespace FixRun

variable {linter : Linter} {kinds : List RuleKind}

/-- A run that makes no step: the text is no program, nothing is left to fix, or no more
passes are. -/
inductive StopsAt (linter : Linter) (kinds : List RuleKind) (text : String) :
    Nat → Termination → Prop where
  | parseFailure {passes : Nat} (h : (linter.pass true text).isParsed = false) :
      StopsAt linter kinds text passes .parseFailure
  | converged {passes : Nat} (h : (linter.pass true text).isParsed = true)
      (hNone : offers kinds (linter.pass true text) = []) :
      StopsAt linter kinds text passes .converged
  | passCap (h : (linter.pass true text).isParsed = true)
      (hSome : offers kinds (linter.pass true text) ≠ []) :
      StopsAt linter kinds text 0 .passCap

theorem StopsAt.of_eq {passes : Nat} {text : String} {termination : Termination}
    (h : StopsAt linter kinds text passes termination) :
    of linter kinds passes text = ⟨[], text, termination, linter.pass true text⟩ := by
  unfold of
  cases h with
  | parseFailure hParsed => simp [hParsed]
  | converged hParsed hNone => simp [hParsed, hNone]
  | passCap hParsed hSome => simp [hParsed, hSome]

/-- All that a run can do with a text: stop there, or make a step. -/
theorem stopsAt_or_madeOn (linter : Linter) (kinds : List RuleKind) (passes : Nat)
    (text : String) :
    (∃ termination, StopsAt linter kinds text passes termination) ∨
      ∃ remaining, ∃ step : FixStep, passes = remaining + 1 ∧
        step.MadeOn linter kinds text := by
  cases hParsed : (linter.pass true text).isParsed with
  | false => exact Or.inl ⟨_, .parseFailure hParsed⟩
  | true =>
      by_cases hNone : offers kinds (linter.pass true text) = []
      · exact Or.inl ⟨_, .converged hParsed hNone⟩
      · cases passes with
        | zero => exact Or.inl ⟨_, .passCap hParsed hNone⟩
        | succ remaining => exact Or.inr ⟨remaining, ⟨_, _⟩, rfl, ⟨hParsed, hNone, rfl, rfl⟩⟩

/-- What holds of every run that stops, and goes over from the run on the changed text to the
run that makes the step before it, holds of every run. -/
theorem of_induction {motive : Nat → String → FixRun → Prop}
    (stops : ∀ {passes text termination}, StopsAt linter kinds text passes termination →
      motive passes text ⟨[], text, termination, linter.pass true text⟩)
    (makes : ∀ {remaining text} {step : FixStep} {run}, step.MadeOn linter kinds text →
      motive remaining (Fix.applyAll step.fixes text) run →
      motive (remaining + 1) text { run with steps := step :: run.steps })
    (passes : Nat) (text : String) : motive passes text (of linter kinds passes text) := by
  induction passes generalizing text with
  | zero =>
      rcases stopsAt_or_madeOn linter kinds 0 text with ⟨termination, hStops⟩ | ⟨_, _, h, -⟩
      · rw [hStops.of_eq]
        exact stops hStops
      · cases h
  | succ passes ih =>
      rcases stopsAt_or_madeOn linter kinds (passes + 1) text with
        ⟨termination, hStops⟩ | ⟨remaining, step, h, hMade⟩
      · rw [hStops.of_eq]
        exact stops hStops
      · cases h
        rw [hMade.of_eq]
        exact makes hMade (ih _)

/-- The text after some of the steps. -/
def textAfter (text : String) : List FixStep → Nat → String
  | _, 0 => text
  | [], _ + 1 => text
  | step :: later, k + 1 => textAfter (Fix.applyAll step.fixes text) later k

theorem textAfter_zero (text : String) (steps : List FixStep) : textAfter text steps 0 = text := by
  cases steps <;> rfl

theorem output_of (passes : Nat) (text : String) :
    (of linter kinds passes text).output =
      textAfter text (of linter kinds passes text).steps
        (of linter kinds passes text).steps.length := by
  refine of_induction (motive := fun _ text run =>
    run.output = textAfter text run.steps run.steps.length) ?_ ?_ passes text
  · intro passes text termination hStops
    rfl
  · intro remaining text step run hMade hRun
    exact hRun

/-- Every step is made on the text that the steps before it leave. -/
theorem madeOn_of_getElem? (passes : Nat) (text : String) :
    ∀ k step, (of linter kinds passes text).steps[k]? = some step →
      step.MadeOn linter kinds (textAfter text (of linter kinds passes text).steps k) ∧
        textAfter text (of linter kinds passes text).steps (k + 1) =
          Fix.applyAll step.fixes (textAfter text (of linter kinds passes text).steps k) := by
  refine of_induction (motive := fun _ text run => ∀ k step, run.steps[k]? = some step →
    step.MadeOn linter kinds (textAfter text run.steps k) ∧
      textAfter text run.steps (k + 1) =
        Fix.applyAll step.fixes (textAfter text run.steps k)) ?_ ?_ passes text
  · intro passes text termination hStops k step hStep
    cases hStep
  · intro remaining text first run hMade hRun k step hStep
    cases k with
    | zero =>
        cases hStep
        exact ⟨hMade, textAfter_zero _ _⟩
    | succ k => exact hRun k step hStep

theorem exists_madeOn_of_mem {passes : Nat} {text : String} {step : FixStep}
    (h : step ∈ (of linter kinds passes text).steps) :
    ∃ before, step.MadeOn linter kinds before := by
  obtain ⟨k, hStep⟩ := List.mem_iff_getElem?.mp h
  exact ⟨_, (madeOn_of_getElem? passes text k step hStep).1⟩

end FixRun

namespace FixReport

/-- The fixes of steps, numbered from a pass on. -/
def appliedFrom (start : Nat) (steps : List FixStep) : List AppliedFix :=
  (steps.zipIdx start).flatMap fun (step, pass) => appliedIn pass step

theorem appliedFrom_cons (start : Nat) (step : FixStep) (later : List FixStep) :
    appliedFrom start (step :: later) =
      appliedIn start step ++ appliedFrom (start + 1) later := rfl

theorem applied_ofRun (run : FixRun) : (ofRun run).applied = appliedFrom 1 run.steps := rfl

theorem pass_of_mem_appliedIn {pass : Nat} {step : FixStep} {applied : AppliedFix}
    (h : applied ∈ appliedIn pass step) : applied.pass = pass := by
  obtain ⟨offer, -, rfl⟩ := List.mem_map.mp h
  rfl

theorem map_fix_appliedIn (pass : Nat) (step : FixStep) :
    (appliedIn pass step).map AppliedFix.fix = step.fixes := by
  rw [appliedIn, List.map_map]
  rfl

end FixReport

/-- What an entry of the diagnostics says of a fix that was made: the pass, the rule, the
message and the fix. -/
def FixedDiagnostic.made? (fixed : FixedDiagnostic) :
    Option (Nat × Option String × Option String × Option Fix) :=
  match fixed.status with
  | .applied pass => some (pass, fixed.diagnostic.ruleId, fixed.diagnostic.messageId,
      fixed.diagnostic.fix)
  | _ => none

namespace FixReport

/-- The fixes that a report lists for a pass. -/
def madeIn (report : FixReport) (pass : Nat) : List AppliedFix :=
  report.applied.filter fun applied => applied.pass == pass

/-- The report accounts for the way from the first text to its output: `texts k` is the text
after pass `k`, and only the fixes that the report lists lead from one text to the next. -/
structure Replays (report : FixReport) (texts : Nat → String) : Prop where
  /-- The fixes are listed pass by pass. -/
  applied_eq : report.applied = (List.range' 1 report.passes).flatMap report.madeIn
  made_ne_nil : ∀ k < report.passes, report.madeIn (k + 1) ≠ []
  covers : ∀ k < report.passes, ∀ applied ∈ report.madeIn (k + 1),
    applied.fix.span.Covers (texts k)
  /-- The fixes of a pass come in source order, each behind the ones before it. -/
  clear : ∀ k < report.passes,
    (report.madeIn (k + 1)).Pairwise fun a b => a.fix.span.ClearOf b.fix.span
  splice : ∀ k < report.passes,
    Fix.splice? ((report.madeIn (k + 1)).map AppliedFix.fix) (texts k) = some (texts (k + 1))
  output_eq : report.output = texts report.passes
  /-- The diagnostics of the fixes that were made are those of the list, one for one. -/
  diagnostics_eq : report.diagnostics.filterMap FixedDiagnostic.made? =
    report.applied.map fun applied =>
      (applied.pass, some applied.ruleId, some applied.messageId, some applied.fix)

theorem le_pass_of_mem_appliedFrom {start : Nat} {steps : List FixStep} {applied : AppliedFix}
    (h : applied ∈ appliedFrom start steps) : start ≤ applied.pass := by
  obtain ⟨⟨step, pass⟩, hStep, hApplied⟩ := List.mem_flatMap.mp h
  rw [pass_of_mem_appliedIn hApplied]
  exact List.le_snd_of_mem_zipIdx hStep

theorem filter_appliedIn_self (pass : Nat) (step : FixStep) :
    (appliedIn pass step).filter (fun applied => applied.pass == pass) = appliedIn pass step :=
  List.filter_eq_self.mpr fun applied hApplied => by simp [pass_of_mem_appliedIn hApplied]

theorem filter_appliedIn_of_ne {pass other : Nat} (h : pass ≠ other) (step : FixStep) :
    (appliedIn pass step).filter (fun applied => applied.pass == other) = [] :=
  List.filter_eq_nil_iff.mpr fun applied hApplied => by simp [pass_of_mem_appliedIn hApplied, h]

theorem filter_appliedFrom_of_lt {start pass : Nat} (h : pass < start) (steps : List FixStep) :
    (appliedFrom start steps).filter (fun applied => applied.pass == pass) = [] := by
  refine List.filter_eq_nil_iff.mpr fun applied hApplied => ?_
  have := le_pass_of_mem_appliedFrom hApplied
  simp only [beq_iff_eq]
  omega

/-- The fixes that are listed for a pass are those of the step of that number. -/
theorem filter_appliedFrom (start k : Nat) (steps : List FixStep) :
    (appliedFrom start steps).filter (fun applied => applied.pass == start + k) =
      (steps[k]?.map (appliedIn (start + k))).getD [] := by
  induction steps generalizing start k with
  | nil => rfl
  | cons step later ih =>
      rw [appliedFrom_cons, List.filter_append]
      cases k with
      | zero =>
          rw [Nat.add_zero, filter_appliedIn_self, filter_appliedFrom_of_lt (Nat.lt_succ_self _)]
          exact List.append_nil _
      | succ k =>
          have hShift : start + (k + 1) = start + 1 + k := by omega
          rw [filter_appliedIn_of_ne (by omega), hShift, ih]
          rfl

/-- The list of fixes is made of the lists of its passes. -/
theorem appliedFrom_eq_flatMap (start : Nat) (steps : List FixStep) :
    appliedFrom start steps = (List.range' start steps.length).flatMap fun pass =>
      (appliedFrom start steps).filter fun applied => applied.pass == pass := by
  induction steps generalizing start with
  | nil => rfl
  | cons step later ih =>
      rw [List.length_cons, List.range'_succ, List.flatMap_cons, appliedFrom_cons]
      have hHead : (appliedIn start step ++ appliedFrom (start + 1) later).filter
          (fun applied => applied.pass == start) = appliedIn start step := by
        rw [List.filter_append, filter_appliedIn_self,
          filter_appliedFrom_of_lt (Nat.lt_succ_self _), List.append_nil]
      have hTail : ∀ pass ∈ List.range' (start + 1) later.length,
          (appliedIn start step ++ appliedFrom (start + 1) later).filter
            (fun applied => applied.pass == pass) =
          (appliedFrom (start + 1) later).filter fun applied => applied.pass == pass := by
        intro pass hPass
        have hNe : start ≠ pass := by
          have := (List.mem_range'_1.mp hPass).1
          omega
        rw [List.filter_append, filter_appliedIn_of_ne hNe, List.nil_append]
      rw [hHead, List.flatMap_congr hTail, ← ih]

theorem madeIn_ofRun {run : FixRun} {k : Nat} {step : FixStep} (h : run.steps[k]? = some step) :
    (ofRun run).madeIn (k + 1) = appliedIn (k + 1) step := by
  rw [madeIn, applied_ofRun, Nat.add_comm, filter_appliedFrom, h]
  rfl

/-- A diagnostic that stayed is none whose fix was made. -/
theorem made?_stayed (finding : Finding) : (stayed finding).made? = none := by
  unfold stayed FixedDiagnostic.made?
  cases finding.diagnostic.fix <;> rfl

/-- A step marks the diagnostics of just those fixes that it lists. -/
theorem filterMap_made?_fixedIn {linter : Linter} {kinds : List RuleKind} {text : String}
    {step : FixStep} (h : step.MadeOn linter kinds text) (pass : Nat) :
    (fixedIn pass step).filterMap FixedDiagnostic.made? =
      (appliedIn pass step).map fun applied =>
        (applied.pass, some applied.ruleId, some applied.messageId, some applied.fix) := by
  rw [fixedIn, appliedIn, List.filterMap_map, List.map_map, ← List.filterMap_eq_map]
  apply List.filterMap_congr
  intro offer hOffer
  obtain ⟨-, rule, hFixable⟩ := h.fixable offer hOffer
  obtain ⟨messageId, hMessage, -⟩ := hFixable.message_declared
  simp [FixedDiagnostic.made?, hFixable.ruleId_eq, hMessage, hFixable.fix_eq]

/-- The diagnostics of a run mark its fixes as made, one for one, and no others. -/
theorem filterMap_made?_ofRun {linter : Linter} {kinds : List RuleKind} {run : FixRun}
    (h : ∀ step ∈ run.steps, ∃ text, step.MadeOn linter kinds text) :
    (ofRun run).diagnostics.filterMap FixedDiagnostic.made? =
      (ofRun run).applied.map fun applied =>
        (applied.pass, some applied.ruleId, some applied.messageId, some applied.fix) := by
  have hStayed : (run.last.findings.map stayed).filterMap FixedDiagnostic.made? = [] := by
    rw [List.filterMap_map, List.filterMap_eq_nil_iff]
    exact fun finding _ => made?_stayed finding
  rw [applied_ofRun, appliedFrom, ofRun, List.filterMap_append, hStayed, List.append_nil,
    List.filterMap_flatMap, List.map_flatMap]
  apply List.flatMap_congr
  rintro ⟨step, pass⟩ hStep
  obtain ⟨text, hMade⟩ := h step (List.fst_mem_of_mem_zipIdx hStep)
  exact filterMap_made?_fixedIn hMade pass

end FixReport

/-- The replay law. Whatever the rules of a linter do, the report on fixing a text accounts for
every byte of the output: pass by pass, the fixes that it lists cover stretches of the text
before the pass, are clear of each other, and spliced into that text give the next. -/
theorem Linter.exists_replays (linter : Linter) (text : String) (options : FixOptions) :
    ∃ texts : Nat → String, texts 0 = text ∧
      (linter.verifyAndFix text options).Replays texts := by
  let run := FixRun.of linter options.fixKinds options.maxPasses text
  have hStep : ∀ k < run.steps.length, ∃ step, run.steps[k]? = some step ∧
      step.MadeOn linter options.fixKinds (FixRun.textAfter text run.steps k) ∧
      FixRun.textAfter text run.steps (k + 1) =
        Fix.applyAll step.fixes (FixRun.textAfter text run.steps k) := by
    intro k hk
    have hGet : run.steps[k]? = some run.steps[k] := List.getElem?_eq_getElem hk
    exact ⟨run.steps[k], hGet, FixRun.madeOn_of_getElem? _ _ k _ hGet⟩
  refine ⟨FixRun.textAfter text run.steps, FixRun.textAfter_zero _ _, ?_⟩
  show (FixReport.ofRun run).Replays (FixRun.textAfter text run.steps)
  refine
    { applied_eq := FixReport.appliedFrom_eq_flatMap 1 run.steps
      made_ne_nil := ?_
      covers := ?_
      clear := ?_
      splice := ?_
      output_eq := FixRun.output_of _ _
      diagnostics_eq := FixReport.filterMap_made?_ofRun fun _ => FixRun.exists_madeOn_of_mem }
  · intro k hk
    obtain ⟨step, hGet, hMade, -⟩ := hStep k hk
    rw [FixReport.madeIn_ofRun hGet, FixReport.appliedIn, ne_eq, List.map_eq_nil_iff]
    exact hMade.accepted_ne_nil
  · intro k hk applied hApplied
    obtain ⟨step, hGet, hMade, -⟩ := hStep k hk
    rw [FixReport.madeIn_ofRun hGet] at hApplied
    obtain ⟨offer, hOffer, rfl⟩ := List.mem_map.mp hApplied
    exact hMade.covers offer hOffer
  · intro k hk
    obtain ⟨step, hGet, hMade, -⟩ := hStep k hk
    rw [FixReport.madeIn_ofRun hGet, FixReport.appliedIn, List.pairwise_map]
    exact hMade.clear
  · intro k hk
    obtain ⟨step, hGet, hMade, hNext⟩ := hStep k hk
    rw [FixReport.madeIn_ofRun hGet, FixReport.map_fix_appliedIn, hNext]
    exact hMade.splice

end EcmaLint
