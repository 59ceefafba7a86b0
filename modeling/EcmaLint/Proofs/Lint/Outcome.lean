import EcmaLint.Proofs.Lint.FixRun
import EcmaLint.Proofs.Lint.Setup
import EcmaLint.Regex.Reader
import EcmaLint.Rules.ObjectShorthand.Basic

/-! Fixing in two goes. All that a pass hands on to the next one is the text and the number of
passes that are left. So a run may be broken off after any number of passes and taken up again
at its output, and taking up a run that has converged does nothing.

How fixing ends. The last pass of a run looks at the text that is returned, so what the
report says at its end is what the linter says of the output, and the cause for which the run
stopped can be read off the output and the number of passes.

A report counts a text as fixed if any fix was made. That is a matter of the text as it comes
in: no fix made later takes it back, not even one that undoes what was done. -/
namespace EcmaLint

namespace FixRun

variable {linter : Linter} {kinds : List RuleKind}

/-- A run that is taken up by another one where it ends. -/
def andThen (first second : FixRun) : FixRun :=
  { second with steps := first.steps ++ second.steps }

/-- Where a run stops with passes to spare, it stops with any number of them. -/
theorem StopsAt.of_add {passes : Nat} {text : String} {termination : Termination}
    (h : StopsAt linter kinds text passes termination) (more : Nat) :
    of linter kinds (passes + more) text = of linter kinds more text := by
  cases h with
  | parseFailure hParsed =>
      rw [(StopsAt.parseFailure hParsed).of_eq, (StopsAt.parseFailure hParsed).of_eq]
  | converged hParsed hNone =>
      rw [(StopsAt.converged hParsed hNone).of_eq, (StopsAt.converged hParsed hNone).of_eq]
  | passCap hParsed hSome => rw [Nat.zero_add]

/-- A run is one with fewer passes, taken up at its output with the passes that are left. -/
theorem of_add (passes more : Nat) (text : String) :
    of linter kinds (passes + more) text =
      (of linter kinds passes text).andThen
        (of linter kinds more (of linter kinds passes text).output) := by
  refine of_induction (motive := fun passes text run =>
    of linter kinds (passes + more) text = run.andThen (of linter kinds more run.output))
    ?_ ?_ passes text
  · intro passes text termination hStops
    rw [hStops.of_add]
    rfl
  · intro remaining text step run hMade hRun
    have hPasses : remaining + 1 + more = remaining + more + 1 := by omega
    rw [hPasses, hMade.of_eq, hRun]
    rfl

/-- A run that converged has nothing to do on its output, however many passes it is given. -/
theorem of_output_of_converged {passes : Nat} {text : String}
    (h : (of linter kinds passes text).termination = .converged) (cap : Nat) :
    of linter kinds cap (of linter kinds passes text).output =
      ⟨[], (of linter kinds passes text).output, .converged,
        linter.pass true (of linter kinds passes text).output⟩ := by
  revert h
  refine of_induction (motive := fun _ _ run => run.termination = .converged →
    of linter kinds cap run.output =
      ⟨[], run.output, .converged, linter.pass true run.output⟩) ?_ ?_ passes text
  · intro passes text termination hStops hConverged
    obtain rfl : termination = .converged := hConverged
    cases hStops with
    | converged hParsed hNone => exact (StopsAt.converged hParsed hNone).of_eq
  · intro remaining text step run hMade hRun hConverged
    exact hRun hConverged

end FixRun

/-- A fix as it is listed when so many passes come before. -/
def AppliedFix.delayed (passes : Nat) (applied : AppliedFix) : AppliedFix :=
  { applied with pass := applied.pass + passes }

namespace FixReport

theorem appliedFrom_append (start : Nat) (first second : List FixStep) :
    appliedFrom start (first ++ second) =
      appliedFrom start first ++ appliedFrom (start + first.length) second := by
  rw [appliedFrom, List.zipIdx_append, List.flatMap_append]
  rfl

theorem appliedFrom_add (start passes : Nat) (steps : List FixStep) :
    appliedFrom (start + passes) steps =
      (appliedFrom start steps).map (AppliedFix.delayed passes) := by
  induction steps generalizing start with
  | nil => rfl
  | cons step later ih =>
      have hNext : start + passes + 1 = start + 1 + passes := by omega
      rw [appliedFrom_cons, appliedFrom_cons, List.map_append, hNext, ih, appliedIn, appliedIn,
        List.map_map]
      rfl

/-- The report of a run that was broken off and taken up again: it ends as the second part
does, and lists the fixes of both. -/
structure Joins (whole first second : FixReport) : Prop where
  output_eq : whole.output = second.output
  termination_eq : whole.termination = second.termination
  passes_eq : whole.passes = first.passes + second.passes
  applied_eq : whole.applied =
    first.applied ++ second.applied.map (AppliedFix.delayed first.passes)

/-- The report of a run that found nothing to do. -/
structure IsIdle (report : FixReport) (text : String) : Prop where
  applied_eq : report.applied = []
  passes_eq : report.passes = 0
  output_eq : report.output = text
  termination_eq : report.termination = .converged

theorem joins_andThen (first second : FixRun) :
    (ofRun (first.andThen second)).Joins (ofRun first) (ofRun second) := by
  refine ⟨rfl, rfl, List.length_append, ?_⟩
  rw [applied_ofRun, applied_ofRun, applied_ofRun, FixRun.andThen, appliedFrom_append,
    appliedFrom_add]
  rfl

end FixReport

/-- Fix runs compose: fixing with some passes and then fixing the output with some more comes
to the same as fixing with all of them. Where the first run converges the second does
nothing, so fixing is idempotent. -/
theorem Linter.verifyAndFix_add (linter : Linter) (kinds : List RuleKind) (n m : Nat)
    (text : String) :
    (linter.verifyAndFix text ⟨n + m, kinds⟩).Joins
        (linter.verifyAndFix text ⟨n, kinds⟩)
        (linter.verifyAndFix (linter.verifyAndFix text ⟨n, kinds⟩).output ⟨m, kinds⟩) ∧
      ((linter.verifyAndFix text ⟨n, kinds⟩).termination = .converged →
        ∀ cap, (linter.verifyAndFix (linter.verifyAndFix text ⟨n, kinds⟩).output
          ⟨cap, kinds⟩).IsIdle (linter.verifyAndFix text ⟨n, kinds⟩).output) := by
  constructor
  · show (FixReport.ofRun (FixRun.of linter kinds (n + m) text)).Joins _ _
    rw [FixRun.of_add]
    exact FixReport.joins_andThen _ _
  · intro hConverged cap
    let run := FixRun.of linter kinds n text
    show (FixReport.ofRun (FixRun.of linter kinds cap run.output)).IsIdle run.output
    rw [FixRun.of_output_of_converged hConverged]
    exact ⟨rfl, rfl, rfl, rfl⟩

/-- One pass puts a property into shorthand, and all later runs leave it alone. -/
theorem Linter.verifyAndFix_add_shorthand :
    ∃ linter, ofRules [⟨Rules.ObjectShorthand.rule, .error, []⟩] = .ok linter ∧
      (linter.verifyAndFix "({a: a})" ⟨1, RuleKind.all⟩).output = "({a})" ∧
      (linter.verifyAndFix "({a: a})" ⟨1, RuleKind.all⟩).termination = .converged ∧
      ∀ cap, (linter.verifyAndFix "({a})" ⟨cap, RuleKind.all⟩).IsIdle "({a})" := by
  have hRun : (match [⟨Rules.ObjectShorthand.rule, .error, []⟩].mapM
      ConfiguredRule.activate with
    | .ok rules =>
        let report := ({ rules } : Linter).verifyAndFix "({a: a})" ⟨1, RuleKind.all⟩
        report.output == "({a})" && report.termination == .converged
    | .error _ => false) = true := by
    decide +kernel
  cases hRules : [⟨Rules.ObjectShorthand.rule, .error, []⟩].mapM ConfiguredRule.activate with
  | error cause =>
      rw [hRules] at hRun
      cases hRun
  | ok rules =>
      rw [hRules] at hRun
      obtain ⟨hOutput, hTermination⟩ := Bool.and_eq_true_iff.mp hRun
      rw [beq_iff_eq] at hOutput hTermination
      have hIdle := (verifyAndFix_add { rules } RuleKind.all 1 0 "({a: a})").2 hTermination
      rw [hOutput] at hIdle
      exact ⟨{ rules }, ofRules_eq_ok_iff.mpr ⟨rules, mapM_eq_ok_iff.mp hRules, rfl⟩, hOutput,
        hTermination, hIdle⟩

namespace Linter

/-- The text is a program for the linter. -/
def Reads (linter : Linter) (text : String) : Prop :=
  ∃ parsed, linter.parser text linter.parseOptions = .ok parsed

/-- In a pass with fixes over a text, a rule of one of the kinds reports a diagnostic with a
fix. -/
def Offers (linter : Linter) (kinds : List RuleKind) (text : String) (diagnostic : Diagnostic)
    (fix : Fix) : Prop :=
  ∃ rank rule, linter.rules[rank]? = some rule ∧ rule.info.kind ∈ kinds ∧
    ⟨diagnostic, some (rank, rule.info.kind)⟩ ∈ (linter.pass true text).findings ∧
    diagnostic.ruleId = some rule.info.name ∧ diagnostic.fix = some fix

theorem offers_of_mem_offers {linter : Linter} {kinds : List RuleKind} {text : String}
    {offer : Offer Finding} (h : offer ∈ FixRun.offers kinds (linter.pass true text)) :
    linter.Offers kinds text offer.owner.diagnostic offer.fix := by
  obtain ⟨hFinding, rule, hFixable⟩ := FixRun.mem_offers_iff.mp h
  refine ⟨offer.rank, rule, hFixable.rule_eq, hFixable.kind_mem, ?_, hFixable.ruleId_eq,
    hFixable.fix_eq⟩
  rw [← hFixable.reporter_eq]
  exact hFinding

/-- A pass offers nothing just if no diagnostic of it has a fix that may be made. -/
theorem offers_ne_nil_iff {linter : Linter} {kinds : List RuleKind} {text : String} :
    FixRun.offers kinds (linter.pass true text) ≠ [] ↔
      ∃ diagnostic ∈ (linter.pass true text).findings.map Finding.diagnostic,
        ∃ fix, linter.Offers kinds text diagnostic fix := by
  constructor
  · intro hSome
    obtain ⟨offer, hOffer⟩ := List.exists_mem_of_ne_nil _ hSome
    have hFinding := (FixRun.mem_offers_iff.mp hOffer).1
    exact ⟨_, List.mem_map_of_mem hFinding, offer.fix, offers_of_mem_offers hOffer⟩
  · rintro ⟨diagnostic, -, fix, rank, rule, hRule, hKind, hFinding, hRuleId, hFix⟩
    have hOffer : (⟨⟨diagnostic, some (rank, rule.info.kind)⟩, rank, fix⟩ : Offer Finding) ∈
        FixRun.offers kinds (linter.pass true text) := by
      refine List.mem_filterMap.mpr ⟨_, hFinding, Finding.offer?_eq_some_iff.mpr ?_⟩
      exact ⟨rank, rule.info.kind, fix, rfl, hFix, hKind, rfl⟩
    exact List.ne_nil_of_mem hOffer

end Linter

namespace FixRun

variable {linter : Linter} {kinds : List RuleKind}

/-- A run stops at its output, with the passes that are left, and its last pass is the one over
the output. -/
theorem stopsAt_output (passes : Nat) (text : String) :
    ∃ left, StopsAt linter kinds (of linter kinds passes text).output left
        (of linter kinds passes text).termination ∧
      (of linter kinds passes text).last =
        linter.pass true (of linter kinds passes text).output ∧
      (of linter kinds passes text).steps.length + left = passes := by
  refine of_induction (motive := fun passes _ run =>
    ∃ left, StopsAt linter kinds run.output left run.termination ∧
      run.last = linter.pass true run.output ∧ run.steps.length + left = passes) ?_ ?_ passes text
  · intro passes text termination hStops
    exact ⟨passes, hStops, rfl, Nat.zero_add _⟩
  · intro remaining text step run hMade hRun
    obtain ⟨left, hStops, hLast, hLength⟩ := hRun
    refine ⟨left, hStops, hLast, ?_⟩
    rw [List.length_cons]
    omega

theorem StopsAt.parseFailure_iff {text : String} {left : Nat} {termination : Termination}
    (h : StopsAt linter kinds text left termination) :
    termination = .parseFailure ↔ (linter.pass true text).isParsed = false := by
  cases h <;> simp_all

theorem StopsAt.converged_iff {text : String} {left : Nat} {termination : Termination}
    (h : StopsAt linter kinds text left termination) :
    termination = .converged ↔ (linter.pass true text).isParsed = true ∧
      offers kinds (linter.pass true text) = [] := by
  cases h <;> simp_all

theorem StopsAt.passCap_iff {text : String} {left : Nat} {termination : Termination}
    (h : StopsAt linter kinds text left termination) :
    termination = .passCap ↔ (linter.pass true text).isParsed = true ∧
      offers kinds (linter.pass true text) ≠ [] ∧ left = 0 := by
  cases h <;> simp_all

end FixRun

namespace FixReport

/-- What a report says of its output and of how it came to its end. -/
structure Describes (report : FixReport) (linter : Linter) (options : FixOptions) : Prop where
  passes_le : report.passes ≤ options.maxPasses
  remaining_eq : report.remaining = (linter.verify report.output).diagnostics
  failures_eq : report.failures = (linter.verify report.output).failures
  parseFailure_iff : report.termination = .parseFailure ↔ ¬linter.Reads report.output
  /-- Some diagnostic of the output still has a fix that may be made, but no pass is left. -/
  passCap_iff : report.termination = .passCap ↔ linter.Reads report.output ∧
    (∃ diagnostic ∈ (linter.verify report.output).diagnostics,
      ∃ fix, linter.Offers options.fixKinds report.output diagnostic fix) ∧
    report.passes = options.maxPasses
  /-- No diagnostic of the output has a fix that may be made. -/
  converged_iff : report.termination = .converged ↔ linter.Reads report.output ∧
    ¬∃ diagnostic ∈ (linter.verify report.output).diagnostics,
      ∃ fix, linter.Offers options.fixKinds report.output diagnostic fix
  /-- Every fix that was made was reported by a rule of one of the kinds. -/
  applied_offered : ∀ applied ∈ report.applied, ∃ text diagnostic,
    linter.Offers options.fixKinds text diagnostic applied.fix ∧
      diagnostic.ruleId = some applied.ruleId ∧ diagnostic.messageId = some applied.messageId

/-- What remains is what the last pass found; the diagnostics of fixes that were made do not. -/
theorem remaining_ofRun (run : FixRun) :
    (ofRun run).remaining = run.last.findings.map Finding.diagnostic := by
  have hStayed : ∀ fixed ∈ run.last.findings.map stayed,
      ∀ pass, fixed.status ≠ .applied pass := by
    intro fixed hFixed
    obtain ⟨finding, -, rfl⟩ := List.mem_map.mp hFixed
    unfold stayed
    cases finding.diagnostic.fix <;> simp
  rw [remaining, ofRun, List.filter_append, List.filter_eq_nil_iff.mpr, List.filter_eq_self.mpr,
    List.nil_append, List.map_map]
  · rfl
  · intro fixed hFixed
    have hNe := hStayed fixed hFixed
    cases hStatus : fixed.status with
    | applied pass => exact absurd hStatus (hNe pass)
    | unapplied => rfl
    | noFix => rfl
  · intro fixed hFixed
    obtain ⟨⟨step, pass⟩, -, hFixed⟩ := List.mem_flatMap.mp hFixed
    obtain ⟨offer, -, rfl⟩ := List.mem_map.mp hFixed
    simp

/-- Every entry of the list of fixes is an offer of the pass in which it was made. -/
theorem exists_offers_of_mem_appliedFrom {linter : Linter} {kinds : List RuleKind} {start : Nat}
    {steps : List FixStep} (h : ∀ step ∈ steps, ∃ text, step.MadeOn linter kinds text)
    {applied : AppliedFix} (hApplied : applied ∈ appliedFrom start steps) :
    ∃ text diagnostic, linter.Offers kinds text diagnostic applied.fix ∧
      diagnostic.ruleId = some applied.ruleId ∧
      diagnostic.messageId = some applied.messageId := by
  obtain ⟨⟨step, pass⟩, hStep, hApplied⟩ := List.mem_flatMap.mp hApplied
  obtain ⟨offer, hOffer, rfl⟩ := List.mem_map.mp hApplied
  obtain ⟨text, hMade⟩ := h step (List.fst_mem_of_mem_zipIdx hStep)
  obtain ⟨hFinding, rule, hFixable⟩ := hMade.fixable offer hOffer
  obtain ⟨messageId, hMessage, -⟩ := hFixable.message_declared
  refine ⟨text, offer.owner.diagnostic,
    Linter.offers_of_mem_offers (FixRun.mem_offers_iff.mpr ⟨hFinding, rule, hFixable⟩), ?_, ?_⟩
  · rw [hFixable.ruleId_eq, Option.getD_some]
  · rw [hMessage, Option.getD_some]

end FixReport

/-- The report of a linter that makes fixes describes its output. -/
theorem Linter.verifyAndFix_describes (linter : Linter) (h : linter.computeFixes = true)
    (text : String) (options : FixOptions) :
    (linter.verifyAndFix text options).Describes linter options := by
  let run := FixRun.of linter options.fixKinds options.maxPasses text
  obtain ⟨left, hStops, hLast, hLength⟩ :
      ∃ left, FixRun.StopsAt linter options.fixKinds run.output left run.termination ∧
        run.last = linter.pass true run.output ∧
        run.steps.length + left = options.maxPasses :=
    FixRun.stopsAt_output _ _
  have hVerify : (linter.verify run.output).diagnostics =
      (linter.pass true run.output).findings.map Finding.diagnostic := by
    rw [verify, h]
  have hReads : linter.Reads run.output ↔ (linter.pass true run.output).isParsed = true :=
    isParsed_pass_iff.symm
  show (FixReport.ofRun run).Describes linter options
  refine
    { passes_le := Nat.le.intro hLength
      remaining_eq := ?_
      failures_eq := ?_
      parseFailure_iff := ?_
      passCap_iff := ?_
      converged_iff := ?_
      applied_offered := ?_ }
  · rw [FixReport.remaining_ofRun, hLast]
    exact hVerify.symm
  · show run.last.failures = (linter.verify run.output).failures
    rw [hLast, verify, h]
  · show run.termination = _ ↔ ¬linter.Reads run.output
    rw [hStops.parseFailure_iff, hReads, Bool.not_eq_true]
  · have hPasses : left = 0 ↔ run.steps.length = options.maxPasses := by omega
    show run.termination = _ ↔ linter.Reads run.output ∧
      (∃ diagnostic ∈ (linter.verify run.output).diagnostics,
        ∃ fix, linter.Offers options.fixKinds run.output diagnostic fix) ∧
      run.steps.length = options.maxPasses
    rw [hStops.passCap_iff, hReads, hVerify, ← offers_ne_nil_iff, hPasses]
  · show run.termination = _ ↔ linter.Reads run.output ∧
      ¬∃ diagnostic ∈ (linter.verify run.output).diagnostics,
        ∃ fix, linter.Offers options.fixKinds run.output diagnostic fix
    rw [hStops.converged_iff, hReads, hVerify, ← offers_ne_nil_iff, ne_eq,
      Classical.not_not]
  · intro applied hApplied
    exact FixReport.exists_offers_of_mem_appliedFrom (fun _ => FixRun.exists_madeOn_of_mem)
      hApplied

/-- A linter for shorthand in object literals makes fixes, and its report describes the text
that it leaves. -/
theorem Linter.verifyAndFix_describes_shorthand :
    ∃ linter, Linter.ofRules [⟨Rules.ObjectShorthand.rule, .error, []⟩] = .ok linter ∧
      linter.computeFixes = true ∧ (linter.verifyAndFix "({a: a})" {}).Describes linter {} := by
  have hOk : ([⟨Rules.ObjectShorthand.rule, .error, []⟩].mapM
      ConfiguredRule.activate).isOk = true := by
    decide +kernel
  obtain ⟨rules, hRules⟩ := exists_eq_ok_of_isOk hOk
  refine ⟨{ rules }, ?_, rfl, verifyAndFix_describes { rules } rfl _ _⟩
  exact ofRules_eq_ok_iff.mpr ⟨rules, mapM_eq_ok_iff.mp hRules, rfl⟩

namespace FixRun

variable {linter : Linter} {kinds : List RuleKind}

/-- A run makes a step on a text just if it has a pass for it and the text is a program that
offers a fix. -/
theorem steps_ne_nil_iff {passes : Nat} {text : String} :
    (of linter kinds passes text).steps ≠ [] ↔
      0 < passes ∧ (linter.pass true text).isParsed = true ∧
        offers kinds (linter.pass true text) ≠ [] := by
  rcases stopsAt_or_madeOn linter kinds passes text with
    ⟨termination, hStops⟩ | ⟨remaining, step, rfl, hMade⟩
  · rw [hStops.of_eq]
    cases hStops with
    | parseFailure hParsed => simp [hParsed]
    | converged hParsed hNone => simp [hNone]
    | passCap hParsed hSome => simp
  · rw [hMade.of_eq]
    simp [hMade.isParsed, hMade.offered]

/-- A run without steps leaves the text as it is. -/
theorem output_of_steps_eq_nil {passes : Nat} {text : String}
    (h : (of linter kinds passes text).steps = []) :
    (of linter kinds passes text).output = text := by
  rw [output_of, h]
  rfl

end FixRun

/-- A report lists fixes just if its run has made steps, as no step is made without a fix. -/
theorem FixReport.isFixed_ofRun_iff {linter : Linter} {kinds : List RuleKind} {passes : Nat}
    {text : String} :
    (ofRun (FixRun.of linter kinds passes text)).isFixed = true ↔
      (FixRun.of linter kinds passes text).steps ≠ [] := by
  have hMade : ∀ step ∈ (FixRun.of linter kinds passes text).steps, step.accepted ≠ [] := by
    intro step hStep
    obtain ⟨before, hMade⟩ := FixRun.exists_madeOn_of_mem hStep
    exact hMade.accepted_ne_nil
  rw [isFixed, applied_ofRun]
  cases hSteps : (FixRun.of linter kinds passes text).steps with
  | nil => simp [appliedFrom]
  | cons step later =>
      have hStep := hMade step (by simp [hSteps])
      simp [appliedFrom_cons, appliedIn, hStep]

/-- A text counts as fixed just if it offered a fix that was asked for and there was a pass to make
it. Whoever finds the text changed finds it fixed, but not the other way round: fixes may put back
what was there. -/
theorem Linter.isFixed_verifyAndFix_iff (linter : Linter) (text : String)
    (options : FixOptions) :
    ((linter.verifyAndFix text options).isFixed = true ↔
      0 < options.maxPasses ∧ linter.Reads text ∧
        ∃ diagnostic ∈ (linter.pass true text).findings.map Finding.diagnostic,
          ∃ fix, linter.Offers options.fixKinds text diagnostic fix) ∧
      ((linter.verifyAndFix text options).isFixed = true ↔
        0 < (linter.verifyAndFix text options).passes) ∧
      ((linter.verifyAndFix text options).output ≠ text →
        (linter.verifyAndFix text options).isFixed = true) := by
  have hSteps : (linter.verifyAndFix text options).isFixed = true ↔
      (FixRun.of linter options.fixKinds options.maxPasses text).steps ≠ [] :=
    FixReport.isFixed_ofRun_iff
  refine ⟨?_, ?_, fun hChanged => ?_⟩
  · rw [hSteps, FixRun.steps_ne_nil_iff, isParsed_pass_iff, offers_ne_nil_iff]
    rfl
  · rw [hSteps]
    exact List.length_pos_iff.symm
  · rw [hSteps]
    exact fun hNone => hChanged (FixRun.output_of_steps_eq_nil hNone)

/-- Two rules that undo each other have made fixes, but changed nothing. -/
theorem Linter.exists_isFixed_unchanged :
    ∃ linter, Linter.ofRules [⟨Rules.ObjectShorthand.rule, .error, [.string "always"]⟩,
        ⟨Rules.ObjectShorthand.rule, .error, [.string "never"]⟩] = .ok linter ∧
      (linter.verifyAndFix "({a: a})" ⟨2, RuleKind.all⟩).isFixed = true ∧
      (linter.verifyAndFix "({a: a})" ⟨2, RuleKind.all⟩).output = "({a: a})" := by
  have hRun : (match [⟨Rules.ObjectShorthand.rule, .error, [.string "always"]⟩,
      ⟨Rules.ObjectShorthand.rule, .error, [.string "never"]⟩].mapM ConfiguredRule.activate with
    | .ok rules =>
        let report := ({ rules } : Linter).verifyAndFix "({a: a})" ⟨2, RuleKind.all⟩
        report.isFixed && report.output == "({a: a})"
    | .error _ => false) = true := by
    decide +kernel
  split at hRun
  case h_1 rules hRules =>
    rw [Bool.and_eq_true, beq_iff_eq] at hRun
    exact ⟨{ rules }, ofRules_eq_ok_iff.mpr ⟨rules, mapM_eq_ok_iff.mp hRules, rfl⟩, hRun⟩
  case h_2 => cases hRun

end EcmaLint
