import EcmaLint.Proofs.Lint.Outcome

/-! What becomes of the fixes that rules propose. A rule may propose any spans. Of a report that
is accepted, every list of fixes is either joined, if all its spans cover stretches of the
program, or dropped with one warning, and the report is filed all the same. So whatever a
diagnostic holds can be applied, and the fixes that are taken together can be applied one after
the other. -/
namespace EcmaLint

namespace Fix

/-- A fix whose span covers a stretch of a text can be applied to it. -/
theorem isSome_applyTo?_of_covers {fix : Fix} {source : String} (h : fix.span.Covers source) :
    (fix.applyTo? source).isSome := by
  obtain ⟨front, middle, back, hSource, hStart, hStop⟩ := Span.covers_iff.mp h
  have hApply := @applyTo?_ofList fix front middle back hStart hStop
  rw [← hSource, String.ofList_toList] at hApply
  rw [hApply]
  rfl

/-- Applying fixes of which none may fail gives what applying them regardless gives, if they
are in source order and cover stretches of the text. The front is the part of the text before
the first of them. -/
theorem foldrM_applyTo?_append {fixes : List Fix} {front rest : List Char}
    (hOrdered : Ordered fixes)
    (hBehind : ∀ fix ∈ fixes, Text.byteLength front ≤ fix.span.start)
    (hCovers : ∀ fix ∈ fixes, fix.span.Covers (String.ofList (front ++ rest))) :
    ∃ changed, fixes.foldrM (fun fix text => fix.applyTo? text) (String.ofList (front ++ rest)) =
      some (String.ofList (front ++ changed)) := by
  induction fixes generalizing front rest with
  | nil => exact ⟨rest, rfl⟩
  | cons fix later ih =>
      obtain ⟨hFirst, hLater⟩ := List.pairwise_cons.mp hOrdered
      obtain ⟨head, middle, behind, hSource, hStart, hStop⟩ :=
        Span.covers_iff.mp (hCovers fix List.mem_cons_self)
      rw [String.toList_ofList] at hSource
      have hHead : Text.byteLength front ≤ Text.byteLength head := by
        have := hBehind fix List.mem_cons_self
        omega
      rw [List.append_assoc] at hSource
      obtain ⟨kept, rfl, -⟩ := Text.exists_eq_append_of_byteLength_le hSource hHead
      have hSame : front ++ rest = front ++ kept ++ middle ++ behind := by
        simpa using hSource
      have hStopLength : Text.byteLength (front ++ kept ++ middle) = fix.span.stop := by
        simp only [Text.byteLength_append] at hStart ⊢
        omega
      rw [hSame] at hCovers ⊢
      -- the later fixes leave everything up to the end of this span as it is
      obtain ⟨changed, hChanged⟩ := ih hLater
        (fun other hOther => by rw [hStopLength]; exact hFirst other hOther)
        (fun other hOther => hCovers other (List.mem_cons_of_mem _ hOther))
      refine ⟨kept ++ fix.text.toList ++ changed, ?_⟩
      rw [List.foldrM_cons, hChanged, Option.bind_eq_bind, Option.bind_some,
        applyTo?_ofList hStart hStop]
      simp

/-- If no fix fails on the way, it makes no difference that a failing one would be left out. -/
theorem applyAll_eq_of_foldrM {fixes : List Fix} {source output : String}
    (h : fixes.foldrM (fun fix text => fix.applyTo? text) source = some output) :
    applyAll fixes source = output := by
  induction fixes generalizing output with
  | nil => exact Option.some.inj h
  | cons fix later ih =>
      rw [List.foldrM_cons, Option.bind_eq_bind] at h
      obtain ⟨text, hLater, hFix⟩ := Option.bind_eq_some_iff.mp h
      rw [applyAll, List.foldr_cons, ← applyAll, ih hLater, hFix, Option.getD_some]

/-- Of fixes in source order that cover stretches of a text, none fails when all are applied. -/
theorem foldrM_applyTo?_eq_some {fixes : List Fix} {source : String} (hOrdered : Ordered fixes)
    (hCovers : ∀ fix ∈ fixes, fix.span.Covers source) :
    fixes.foldrM (fun fix text => fix.applyTo? text) source = some (applyAll fixes source) := by
  have hWhole : ∀ fix ∈ fixes, fix.span.Covers (String.ofList ([] ++ source.toList)) := by
    simpa using hCovers
  obtain ⟨changed, hChanged⟩ :=
    foldrM_applyTo?_append hOrdered (fun _ _ => Nat.zero_le _) hWhole
  rw [List.nil_append, String.ofList_toList] at hChanged
  rw [hChanged, applyAll_eq_of_foldrM hChanged]

end Fix

namespace Filing

variable {α β : Type}

/-- An action of two parts succeeds if both do, the second on what the first has written. -/
theorem outcome_bind_eq_ok_iff {action : Filing α} {next : α → Filing β} {log later : Log}
    {value : β} :
    outcome (action >>= next) log = (.ok value, later) ↔
      ∃ first between, outcome action log = (.ok first, between) ∧
        outcome (next first) between = (.ok value, later) := by
  rw [outcome_bind]
  rcases outcome action log with ⟨result, written⟩
  cases result with
  | error cause => simp
  | ok first => simp

theorem outcome_pure_eq_ok_iff {first value : α} {log later : Log} :
    outcome (pure first) log = (.ok value, later) ↔ first = value ∧ log = later := by
  rw [show outcome (pure first) log = (.ok first, log) from rfl]
  simp

theorem outcome_throw_ne_ok {cause : RuleError} {value : α} {log later : Log} :
    ¬outcome (throw cause : Filing α) log = (.ok value, later) := by
  rw [show outcome (throw cause : Filing α) log = (.error cause, log) from rfl]
  simp

/-- A check that throws if a condition holds is passed just if it does not. -/
theorem outcome_unless_eq_ok_iff {condition : Prop} [Decidable condition] {cause : RuleError}
    {next : Unit → Filing α} {log later : Log} {value : α} :
    outcome (if condition then throw cause >>= next else next ()) log = (.ok value, later) ↔
      ¬condition ∧ outcome (next ()) log = (.ok value, later) := by
  by_cases hCondition : condition
  · rw [if_pos hCondition, outcome_bind_eq_ok_iff]
    simp [hCondition, outcome_throw_ne_ok]
  · rw [if_neg hCondition]
    simp [hCondition]

end Filing

/-- A log with more warnings. -/
def Log.withWarnings (log : Log) (warnings : List String) : Log :=
  { log with warnings := log.warnings ++ warnings }

theorem Log.withWarnings_append (log : Log) (first second : List String) :
    (log.withWarnings first).withWarnings second = log.withWarnings (first ++ second) := by
  simp [withWarnings]

theorem Log.withWarnings_nil (log : Log) : log.withWarnings [] = log := by
  simp [withWarnings]

namespace Desk

open Filing

/-- The first of some fixes whose span covers no stretch of the program: it is inverted, ends
behind the program, or cuts a character in two. -/
def misfit? (desk : Desk) (fixes : List Fix) : Option Fix :=
  fixes.find? fun fix => !fix.fits desk.source.text

/-- Whether a fix is made of some fixes: fixes are wanted, there are some, and none is a
misfit. -/
def keeps (desk : Desk) (fixes : List Fix) : Bool :=
  desk.computeFixes && !fixes.isEmpty && (desk.misfit? fixes).isNone

/-- What a list of fixes comes to in an accepted report: fixes that are kept are merged into
one, and others are dropped. -/
inductive ComesTo (desk : Desk) (fixes : List Fix) : Option Fix → Prop where
  | dropped (h : desk.keeps fixes = false) : ComesTo desk fixes none
  | merged {fix : Fix} (h : desk.keeps fixes = true)
      (hMerge : Fix.merge desk.source.text fixes = .ok fix) : ComesTo desk fixes (some fix)

/-- What is said about a list of fixes: a warning if there is a misfit. Nobody looks for one
unless fixes are wanted. -/
def complaints (desk : Desk) (fixes : List Fix) : List String :=
  if desk.computeFixes then (desk.misfit? fixes).toList.map desk.misfitWarning else []

/-- What an accepted report leads to: a diagnostic, and a warning for each list of fixes with a
misfit. -/
structure Records (desk : Desk) (specificity : Specificity) (report : Report) (log later : Log)
    (diagnostic : Diagnostic) : Prop where
  filed_eq : later.filed = log.filed ++ [⟨diagnostic, specificity⟩]
  messageId_eq : diagnostic.messageId = some report.messageId
  span_eq : diagnostic.span = report.span
  warnings_eq : later.warnings = log.warnings ++
    (report.fixes.toList ++ report.suggestions.map SuggestionRequest.fixes).flatMap desk.complaints
  fix_of_none : report.fixes = none → diagnostic.fix = none
  fix_of_some : ∀ fixes, report.fixes = some fixes → desk.ComesTo fixes diagnostic.fix
  /-- The suggestions are those whose fixes are kept, in the order of the report. -/
  suggestions_eq : List.Forall₂
    (fun request suggestion => suggestion.messageId = request.messageId ∧
      desk.ComesTo request.fixes (some suggestion.fix))
    (report.suggestions.filter fun request => desk.keeps request.fixes) diagnostic.suggestions

variable {desk : Desk}

theorem misfit?_eq_none_iff {fixes : List Fix} :
    desk.misfit? fixes = none ↔ ∀ fix ∈ fixes, fix.span.Covers desk.source.text := by
  simp only [misfit?, List.find?_eq_none, Bool.not_eq_true', Bool.not_eq_false, Fix.fits_iff]

theorem keeps_iff {fixes : List Fix} :
    desk.keeps fixes = true ↔ desk.computeFixes = true ∧ fixes ≠ [] ∧
      ∀ fix ∈ fixes, fix.span.Covers desk.source.text := by
  simp only [keeps, Bool.and_eq_true, Bool.not_eq_true', List.isEmpty_eq_false_iff,
    Option.isNone_iff_eq_none, misfit?_eq_none_iff, and_assoc]

/-- A list with a span that covers no stretch of the program leads to no fix and, if fixes are
wanted, to one warning. -/
theorem not_keeps_of_not_covers {fixes : List Fix} {fix : Fix} (hFix : fix ∈ fixes)
    (hMisfit : ¬fix.span.Covers desk.source.text) :
    desk.keeps fixes = false ∧
      (desk.complaints fixes).length = if desk.computeFixes then 1 else 0 := by
  constructor
  · refine Bool.eq_false_iff.mpr fun hKeeps => hMisfit ?_
    exact (keeps_iff.mp hKeeps).2.2 fix hFix
  · obtain ⟨misfit, hFound⟩ : ∃ misfit, desk.misfit? fixes = some misfit :=
      Option.ne_none_iff_exists'.mp fun hNone => hMisfit (misfit?_eq_none_iff.mp hNone fix hFix)
    unfold complaints
    split <;> simp [hFound]

theorem ComesTo.eq_none {fixes : List Fix} {fix : Option Fix} (h : desk.ComesTo fixes fix)
    (hDropped : desk.keeps fixes = false) : fix = none := by
  cases h with
  | dropped => rfl
  | merged hKeeps => exact absurd hKeeps (by simp [hDropped])

theorem outcome_joinFixes {fixes : List Fix} {fix : Option Fix} {log later : Log}
    (hWanted : desk.computeFixes = true)
    (h : outcome (desk.joinFixes fixes) log = (.ok fix, later)) :
    later = log.withWarnings (desk.complaints fixes) ∧ desk.ComesTo fixes fix := by
  unfold joinFixes at h
  unfold complaints
  rw [if_pos hWanted]
  split at h
  case isTrue hEmpty =>
    obtain rfl : fixes = [] := List.isEmpty_iff.mp hEmpty
    obtain ⟨rfl, rfl⟩ := outcome_pure_eq_ok_iff.mp h
    exact ⟨(Log.withWarnings_nil log).symm, .dropped (by simp [keeps])⟩
  case isFalse hNonempty =>
    split at h
    case h_1 misfit hMisfit =>
      have hFound : desk.misfit? fixes = some misfit := hMisfit
      obtain ⟨_, between, hWarn, hPure⟩ := outcome_bind_eq_ok_iff.mp h
      obtain ⟨rfl, rfl⟩ := outcome_pure_eq_ok_iff.mp hPure
      cases hWarn
      exact ⟨by rw [hFound]; rfl, .dropped (by simp [keeps, hFound])⟩
    case h_2 hFits =>
      have hNone : desk.misfit? fixes = none := hFits
      split at h
      case h_1 merged hMerge =>
        obtain ⟨rfl, rfl⟩ := outcome_pure_eq_ok_iff.mp h
        refine ⟨by rw [hNone]; exact (Log.withWarnings_nil log).symm, .merged ?_ hMerge⟩
        simp [keeps, hNone, hWanted, hNonempty]
      case h_2 => exact absurd h outcome_throw_ne_ok

theorem outcome_wantedFix {fixes : List Fix} {fix : Option Fix} {log later : Log}
    (h : outcome (desk.wantedFix fixes) log = (.ok fix, later)) :
    later = log.withWarnings (desk.complaints fixes) ∧ desk.ComesTo fixes fix := by
  unfold wantedFix at h
  split at h
  case isTrue hWanted => exact outcome_joinFixes hWanted h
  case isFalse hUnwanted =>
    obtain ⟨rfl, rfl⟩ := outcome_pure_eq_ok_iff.mp h
    unfold complaints
    rw [if_neg hUnwanted]
    exact ⟨(Log.withWarnings_nil log).symm, .dropped (by simp [keeps, hUnwanted])⟩

theorem outcome_mainFix {fixes : Option (List Fix)} {fix : Option Fix} {log later : Log}
    (h : outcome (desk.mainFix fixes) log = (.ok fix, later)) :
    later = log.withWarnings (fixes.toList.flatMap desk.complaints) ∧
      (fixes = none → fix = none) ∧ ∀ list, fixes = some list → desk.ComesTo list fix := by
  cases fixes with
  | none =>
      obtain ⟨rfl, rfl⟩ := outcome_pure_eq_ok_iff.mp h
      exact ⟨(Log.withWarnings_nil log).symm, fun _ => rfl, by simp⟩
  | some fixes =>
      obtain ⟨hLater, hFix⟩ := outcome_wantedFix h
      exact ⟨by simpa using hLater, by simp, by simpa using hFix⟩

theorem outcome_template {messageId template : String} {log later : Log}
    (h : outcome (desk.template messageId) log = (.ok template, later)) : later = log := by
  unfold Desk.template at h
  split at h
  · exact (outcome_pure_eq_ok_iff.mp h).2.symm
  · exact absurd h outcome_throw_ne_ok

theorem outcome_suggestions {requests : List SuggestionRequest} {made : List Suggestion}
    {log later : Log} (h : outcome (desk.suggestions requests) log = (.ok made, later)) :
    later = log.withWarnings
        ((requests.map SuggestionRequest.fixes).flatMap desk.complaints) ∧
      List.Forall₂
        (fun request suggestion => suggestion.messageId = request.messageId ∧
          desk.ComesTo request.fixes (some suggestion.fix))
        (requests.filter fun request => desk.keeps request.fixes) made := by
  induction requests generalizing made log with
  | nil =>
      obtain ⟨rfl, rfl⟩ := outcome_pure_eq_ok_iff.mp h
      exact ⟨(Log.withWarnings_nil log).symm, List.Forall₂.nil⟩
  | cons request rest ih =>
      rw [suggestions] at h
      obtain ⟨template, afterTemplate, hTemplate, h⟩ := outcome_bind_eq_ok_iff.mp h
      obtain ⟨fix, afterFix, hFix, h⟩ := outcome_bind_eq_ok_iff.mp h
      obtain ⟨others, afterOthers, hOthers, h⟩ := outcome_bind_eq_ok_iff.mp h
      obtain ⟨rfl, rfl⟩ := outcome_pure_eq_ok_iff.mp h
      obtain rfl := outcome_template hTemplate
      obtain ⟨rfl, hComesTo⟩ := outcome_wantedFix hFix
      obtain ⟨hLater, hRest⟩ := ih hOthers
      refine ⟨by rw [hLater, Log.withWarnings_append]; rfl, ?_⟩
      cases hComesTo with
      | dropped hDropped =>
          rw [List.filter_cons_of_neg (by simp [hDropped])]
          exact hRest
      | merged hKeeps hMerge =>
          rw [List.filter_cons_of_pos (by simp [hKeeps])]
          exact List.Forall₂.cons ⟨rfl, .merged hKeeps hMerge⟩ hRest

/-- A report that is accepted is recorded, whatever its fixes are. -/
theorem records_of_file_eq_ok {specificity : Specificity} {report : Report} {log later : Log}
    (h : outcome (desk.file specificity report) log = (.ok (), later)) :
    ∃ diagnostic, desk.Records specificity report log later diagnostic := by
  obtain ⟨diagnostic, written, hDiagnose, hFile⟩ := outcome_bind_eq_ok_iff.mp h
  cases hFile
  unfold diagnose at hDiagnose
  obtain ⟨template, afterTemplate, hTemplate, hChecks⟩ := outcome_bind_eq_ok_iff.mp hDiagnose
  dsimp only at hChecks
  obtain ⟨-, hChecks⟩ := outcome_unless_eq_ok_iff.mp hChecks
  obtain ⟨-, hMake⟩ := outcome_unless_eq_ok_iff.mp hChecks
  obtain ⟨fix, afterFix, hFix, hMake⟩ := outcome_bind_eq_ok_iff.mp hMake
  obtain ⟨made, afterMade, hMade, hMake⟩ := outcome_bind_eq_ok_iff.mp hMake
  obtain ⟨rfl, rfl⟩ := outcome_pure_eq_ok_iff.mp hMake
  obtain rfl := outcome_template hTemplate
  obtain ⟨rfl, hNone, hSome⟩ := outcome_mainFix hFix
  obtain ⟨rfl, hSuggestions⟩ := outcome_suggestions hMade
  refine ⟨_,
    { filed_eq := rfl
      messageId_eq := rfl
      span_eq := rfl
      warnings_eq := ?_
      fix_of_none := hNone
      fix_of_some := hSome
      suggestions_eq := hSuggestions }⟩
  rw [Log.withWarnings_append, List.flatMap_append]
  rfl

end Desk

namespace Desk

/-- What becomes of an accepted report: it is recorded, and a list of its fixes in which some
span covers no stretch of the program makes no fix. -/
structure Settles (desk : Desk) (specificity : Specificity) (report : Report) (log later : Log)
    (diagnostic : Diagnostic) : Prop extends
    desk.Records specificity report log later diagnostic where
  fix_of_misfit : ∀ fixes, report.fixes = some fixes →
    (∃ fix ∈ fixes, ¬fix.span.Covers desk.source.text) → diagnostic.fix = none
  not_keeps_of_misfit : ∀ fixes, (∃ fix ∈ fixes, ¬fix.span.Covers desk.source.text) →
    desk.keeps fixes = false
  /-- Such a list is worth one warning. If no fixes are wanted, rules are not asked for any. -/
  complaints_of_misfit : ∀ fixes, (∃ fix ∈ fixes, ¬fix.span.Covers desk.source.text) →
    (desk.complaints fixes).length = if desk.computeFixes then 1 else 0

theorem Records.settles {desk : Desk} {specificity : Specificity} {report : Report}
    {log later : Log} {diagnostic : Diagnostic}
    (h : desk.Records specificity report log later diagnostic) :
    desk.Settles specificity report log later diagnostic := by
  refine
    { h with
      fix_of_misfit := ?_
      not_keeps_of_misfit := fun fixes ⟨fix, hFix, hMisfit⟩ =>
        (not_keeps_of_not_covers hFix hMisfit).1
      complaints_of_misfit := fun fixes ⟨fix, hFix, hMisfit⟩ =>
        (not_keeps_of_not_covers hFix hMisfit).2 }
  rintro fixes hFixes ⟨fix, hFix, hMisfit⟩
  exact (h.fix_of_some fixes hFixes).eq_none (not_keeps_of_not_covers hFix hMisfit).1

end Desk

/-- All that a diagnostic would change: its fix and those of its suggestions. -/
def Diagnostic.fixes (diagnostic : Diagnostic) : List Fix :=
  diagnostic.fix.toList ++ diagnostic.suggestions.map Suggestion.fix

theorem Desk.Vouches.covers {desk : Desk} {diagnostic : Diagnostic} (h : desk.Vouches diagnostic) :
    ∀ fix ∈ diagnostic.fixes, fix.span.Covers desk.source.text := by
  intro fix hFix
  rcases List.mem_append.mp hFix with hFix | hFix
  · exact h.fix_covers fix (Option.mem_toList.mp hFix)
  · obtain ⟨suggestion, hSuggestion, rfl⟩ := List.mem_map.mp hFix
    exact (h.suggestion_covers suggestion hSuggestion).2

/-- What holds of the edits of a pass over a program, whatever the rules propose. -/
structure Pass.EditsApply (pass : Pass) (rules : List ActiveRule) (computeFixes : Bool)
    (source : SourceCode) : Prop where
  /-- Every finding comes from a rule that vouches for it. -/
  vouched : ∀ finding ∈ pass.findings, ∃ rank rule, rules[rank]? = some rule ∧
    finding.reporter = some (rank, rule.info.kind) ∧
    (rule.desk source computeFixes).Vouches finding.diagnostic
  applies : ∀ finding ∈ pass.findings, ∀ fix ∈ finding.diagnostic.fixes,
    fix.span.Covers source.text ∧ (fix.applyTo? source.text).isSome
  /-- The fixes that are taken together are made from the last to the first, and none of them
  fails on the text that the later ones leave. -/
  accepted_apply : ∀ kinds, ∀ accepted,
    (Selection.of (FixRun.offers kinds pass)).accepted.map Offer.fix = accepted →
    accepted.foldrM (fun fix text => fix.applyTo? text) source.text =
      some (Fix.applyAll accepted source.text)

namespace Pass

variable {rules : List ActiveRule} {computeFixes : Bool} {source : SourceCode}

theorem covers_of_mem_offers {kinds : List RuleKind} {offer : Offer Finding}
    (h : offer ∈ FixRun.offers kinds (ofRules rules computeFixes source)) :
    offer.fix.span.Covers source.text := by
  obtain ⟨finding, hFinding, hOffer⟩ := List.mem_filterMap.mp h
  obtain ⟨rank, kind, fix, -, hFix, -, rfl⟩ := Finding.offer?_eq_some_iff.mp hOffer
  obtain ⟨_, rule, -, -, hVouches⟩ := exists_rule_of_mem_findings hFinding
  exact hVouches.fix_covers fix hFix

theorem editsApply_ofRules :
    (ofRules rules computeFixes source).EditsApply rules computeFixes source := by
  refine
    { vouched := fun finding hFinding => exists_rule_of_mem_findings hFinding
      applies := ?_
      accepted_apply := ?_ }
  · intro finding hFinding fix hFix
    obtain ⟨_, rule, -, -, hVouches⟩ := exists_rule_of_mem_findings hFinding
    have hCovers := hVouches.covers fix hFix
    exact ⟨hCovers, Fix.isSome_applyTo?_of_covers hCovers⟩
  · rintro kinds _ rfl
    have hCovers : ∀ offer ∈ FixRun.offers kinds (ofRules rules computeFixes source),
        offer.fix.span.Covers source.text := fun _ => covers_of_mem_offers
    have hClear := Selection.pairwise_clearOf_accepted fun offer hOffer =>
      (hCovers offer hOffer).start_le_stop
    refine Fix.foldrM_applyTo?_eq_some ?_ ?_
    · exact List.pairwise_map.mpr (hClear.imp Span.ClearOf.stop_le)
    · intro fix hFix
      obtain ⟨offer, hOffer, rfl⟩ := List.mem_map.mp hFix
      exact hCovers offer (Selection.mem_of_mem_accepted hOffer)

end Pass

/-- Over a program, whatever the rules propose and whether or not fixes are wanted, the edits of
a pass are declared and can be made, and an accepted report is settled. -/
theorem Linter.pass_editsApply {linter : Linter} {computeFixes : Bool} {text : String}
    {parsed : Parsed} (h : linter.parser text linter.parseOptions = .ok parsed) :
    (linter.pass computeFixes text).EditsApply linter.rules computeFixes ⟨text, parsed⟩ ∧
    ∀ (rule : ActiveRule) specificity report log later,
      Filing.outcome ((rule.desk ⟨text, parsed⟩ computeFixes).file specificity report) log =
        (.ok (), later) →
      ∃ diagnostic, (rule.desk ⟨text, parsed⟩ computeFixes).Settles specificity report log later
        diagnostic := by
  have hPass : linter.pass computeFixes text =
      .ofRules linter.rules computeFixes ⟨text, parsed⟩ := by
    rw [pass, h]
  rw [hPass]
  refine ⟨Pass.editsApply_ofRules, fun rule specificity report log later hFile => ?_⟩
  obtain ⟨diagnostic, hRecords⟩ := Desk.records_of_file_eq_ok hFile
  exact ⟨diagnostic, hRecords.settles⟩

/-- The edits of a linter for shorthand in object literals can be made on a program that has
something to shorten. -/
theorem Linter.pass_editsApply_shorthand :
    ∃ linter parsed, Linter.ofRules [⟨Rules.ObjectShorthand.rule, .error, []⟩] = .ok linter ∧
      linter.parser "({a: a})" linter.parseOptions = .ok parsed ∧
      (linter.pass true "({a: a})").EditsApply linter.rules true ⟨"({a: a})", parsed⟩ := by
  have hOk : ([⟨Rules.ObjectShorthand.rule, .error, []⟩].mapM
      ConfiguredRule.activate).isOk = true := by
    decide +kernel
  obtain ⟨rules, hRules⟩ := exists_eq_ok_of_isOk hOk
  have hReads : (parse "({a: a})" default).isOk = true := by decide +kernel
  obtain ⟨parsed, hParsed⟩ := exists_eq_ok_of_isOk hReads
  refine ⟨{ rules }, parsed, ?_, hParsed, (pass_editsApply hParsed).1⟩
  exact ofRules_eq_ok_iff.mpr ⟨rules, mapM_eq_ok_iff.mp hRules, rfl⟩

end EcmaLint
