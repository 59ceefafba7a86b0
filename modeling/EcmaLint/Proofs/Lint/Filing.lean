import EcmaLint.Lint.Filing
import EcmaLint.Proofs.Edit.Merge

/-! What filing a report does to a log. The checks of a report may write warnings but file
nothing; only a report that passes all of them is filed, behind the earlier ones. So a log
grows at its end, and all that is filed is vouched for by what the rule declares. -/
namespace EcmaLint

namespace Filing

variable {α β : Type}

/-- The result of an action and the log that it leaves. -/
def outcome (action : Filing α) (log : Log) : Except RuleError α × Log :=
  action.run.run log

/-- Nothing is filed, whether the action fails or not, and no warning is lost. A result has
the property. -/
def Prepares (action : Filing α) (property : α → Prop) : Prop :=
  ∀ log, (∃ warnings, (outcome action log).2 =
      { log with warnings := log.warnings ++ warnings }) ∧
    ∀ value, (outcome action log).1 = .ok value → property value

theorem outcome_bind (action : Filing α) (next : α → Filing β) (log : Log) :
    outcome (action >>= next) log =
      match outcome action log with
      | (.ok value, written) => outcome (next value) written
      | (.error cause, written) => (.error cause, written) := by
  change (ExceptT.run (action >>= next)).run log = _
  rw [ExceptT.run_bind]
  rcases hOutcome : outcome action log with ⟨result, written⟩
  have hRun : (ExceptT.run action).run log = (result, written) := hOutcome
  cases result with
  | ok value => rw [StateT.run_bind, hRun]; rfl
  | error cause => rw [StateT.run_bind, hRun]; rfl

theorem Prepares.pure {value : α} {property : α → Prop} (h : property value) :
    Prepares (Pure.pure value) property := by
  intro log
  refine ⟨⟨[], ?_⟩, ?_⟩
  · rw [List.append_nil]
    rfl
  · rintro _ ⟨⟩
    exact h

theorem Prepares.throw {cause : RuleError} {property : α → Prop} :
    Prepares (MonadExcept.throw cause) property := by
  intro log
  refine ⟨⟨[], ?_⟩, ?_⟩
  · rw [List.append_nil]
    rfl
  · rintro _ ⟨⟩

theorem Prepares.bind {action : Filing α} {next : α → Filing β} {between : α → Prop}
    {property : β → Prop} (h : Prepares action between)
    (hNext : ∀ value, between value → Prepares (next value) property) :
    Prepares (action >>= next) property := by
  intro log
  obtain ⟨⟨first, hLog⟩, hValue⟩ := h log
  rw [outcome_bind]
  rcases hOutcome : outcome action log with ⟨result, written⟩
  rw [hOutcome] at hLog hValue
  cases result with
  | error cause => exact ⟨⟨first, hLog⟩, fun value h => by cases h⟩
  | ok value =>
      obtain rfl : written = { log with warnings := log.warnings ++ first } := hLog
      obtain ⟨⟨second, hLog'⟩, hValue'⟩ := hNext value (hValue value rfl) _
      refine ⟨⟨first ++ second, ?_⟩, hValue'⟩
      rw [hLog', List.append_assoc]

theorem Prepares.imp {action : Filing α} {first second : α → Prop} (h : Prepares action first)
    (hImp : ∀ value, first value → second value) : Prepares action second :=
  fun log => ⟨(h log).1, fun value hValue => hImp value ((h log).2 value hValue)⟩

/-- A check that throws unless a condition fails, and the action behind it. -/
theorem Prepares.unless {condition : Prop} [Decidable condition] {cause : RuleError}
    {next : Unit → Filing α} {property : α → Prop}
    (h : ¬condition → Prepares (next ()) property) :
    Prepares (if condition then MonadExcept.throw cause >>= next else next ()) property := by
  by_cases hCondition : condition
  · have hThrow : Prepares (MonadExcept.throw cause) fun _ : Unit => False := Prepares.throw
    rw [if_pos hCondition]
    exact hThrow.bind fun _ hFalse => hFalse.elim
  · rw [if_neg hCondition]
    exact h hCondition

end Filing

/-- What holds of everything that is filed for a rule: it names the rule and a message that
the rule declares, its fixes and suggestions are ones that the rule declares, and they cover
stretches of the program. -/
structure Desk.Vouches (desk : Desk) (diagnostic : Diagnostic) : Prop where
  ruleId_eq : diagnostic.ruleId = some desk.info.name
  message_declared : ∃ messageId, diagnostic.messageId = some messageId ∧
    (desk.info.template? messageId).isSome
  fix_declared : diagnostic.fix.isSome → desk.info.fixable.isSome ∧ desk.computeFixes = true
  fix_covers : ∀ fix ∈ diagnostic.fix, fix.span.Covers desk.source.text
  suggestions_declared : diagnostic.suggestions ≠ [] → desk.info.hasSuggestions = true
  suggestion_covers : ∀ suggestion ∈ diagnostic.suggestions,
    (desk.info.template? suggestion.messageId).isSome ∧
      suggestion.fix.span.Covers desk.source.text

namespace Desk

open Filing

variable {desk : Desk}

theorem prepares_warn (warning : String) : Prepares (warn warning) fun _ => True :=
  fun _ => ⟨⟨[warning], rfl⟩, fun _ _ => trivial⟩

theorem prepares_template (messageId : String) :
    Prepares (desk.template messageId) fun _ => (desk.info.template? messageId).isSome := by
  unfold template
  cases hTemplate : desk.info.template? messageId with
  | none => exact Prepares.throw
  | some template => exact Prepares.pure rfl

/-- A fix that comes out of joining covers a stretch of the program: either all the fixes do
and are merged, or there is none. -/
theorem prepares_joinFixes (fixes : List Fix) :
    Prepares (desk.joinFixes fixes) fun fix => ∀ f ∈ fix, f.span.Covers desk.source.text := by
  unfold joinFixes
  split
  case isTrue => exact Prepares.pure (by simp)
  case isFalse hNonempty =>
    split
    case h_1 =>
      exact (prepares_warn _).bind fun _ _ => Prepares.pure (by simp)
    case h_2 hFits =>
      have hCovers : ∀ fix ∈ fixes, fix.span.Covers desk.source.text := by
        intro fix hFix
        have hFound := List.find?_eq_none.mp hFits fix hFix
        exact Fix.fits_iff.mp (by simpa using hFound)
      split
      case h_1 fix hMerge =>
        refine Prepares.pure ?_
        rintro _ ⟨⟩
        exact Fix.covers_of_merge_eq_ok hMerge (by simpa using hNonempty) hCovers
      case h_2 => exact Prepares.throw

theorem prepares_wantedFix (fixes : List Fix) :
    Prepares (desk.wantedFix fixes) fun fix =>
      (fix.isSome → desk.computeFixes = true) ∧ ∀ f ∈ fix, f.span.Covers desk.source.text := by
  unfold wantedFix
  split
  case isTrue hCompute =>
    exact (prepares_joinFixes fixes).imp fun fix hCovers => ⟨fun _ => hCompute, hCovers⟩
  case isFalse => exact Prepares.pure (by simp)

theorem prepares_mainFix (fixes : Option (List Fix)) :
    Prepares (desk.mainFix fixes) fun fix =>
      (fix.isSome → fixes.isSome ∧ desk.computeFixes = true) ∧
        ∀ f ∈ fix, f.span.Covers desk.source.text := by
  cases fixes with
  | none => exact Prepares.pure (by simp)
  | some fixes =>
      exact (prepares_wantedFix fixes).imp fun fix hFix =>
        ⟨fun hSome => ⟨rfl, hFix.1 hSome⟩, hFix.2⟩

theorem prepares_suggestions (requests : List SuggestionRequest) :
    Prepares (desk.suggestions requests) fun made =>
      (made ≠ [] → requests ≠ []) ∧ ∀ suggestion ∈ made,
        (desk.info.template? suggestion.messageId).isSome ∧
          suggestion.fix.span.Covers desk.source.text := by
  induction requests with
  | nil => exact Prepares.pure (by simp)
  | cons request rest ih =>
      rw [suggestions]
      refine (prepares_template request.messageId).bind fun template hTemplate => ?_
      refine (prepares_wantedFix request.fixes).bind fun fix hFix => ?_
      refine ih.bind fun made hMade => Prepares.pure ?_
      refine ⟨fun _ => List.cons_ne_nil _ _, ?_⟩
      intro suggestion hSuggestion
      rcases List.mem_append.mp hSuggestion with hOwn | hLater
      · obtain ⟨joined, rfl, rfl⟩ := by simpa using hOwn
        exact ⟨hTemplate, hFix.2 joined rfl⟩
      · exact hMade.2 suggestion hLater

/-- A report that passes the checks leads to a diagnostic that is vouched for. -/
theorem prepares_diagnose (report : Report) :
    Prepares (desk.diagnose report) desk.Vouches := by
  unfold diagnose
  refine (prepares_template report.messageId).bind fun template hTemplate => ?_
  refine Prepares.unless fun hFixable => Prepares.unless fun hSuggestions => ?_
  refine (prepares_mainFix report.fixes).bind fun fix hFix => ?_
  refine (prepares_suggestions report.suggestions).bind fun made hMade => Prepares.pure ?_
  refine
    { ruleId_eq := rfl
      message_declared := ⟨_, rfl, hTemplate⟩
      fix_declared := ?_
      fix_covers := hFix.2
      suggestions_declared := ?_
      suggestion_covers := hMade.2 }
  · intro hSome
    obtain ⟨hRequested, hCompute⟩ := hFix.1 hSome
    exact ⟨by simpa [hRequested, Option.isSome_iff_ne_none] using hFixable, hCompute⟩
  · intro hSome
    have hRequested := hMade.1 hSome
    simpa [hRequested] using hSuggestions

end Desk

/-- A later log has all of an earlier one at its start, and what was filed since is vouched
for. -/
def Log.GrowsTo (vouched : Diagnostic → Prop) (log later : Log) : Prop :=
  ∃ filed warnings, later.filed = log.filed ++ filed ∧
    later.warnings = log.warnings ++ warnings ∧ ∀ entry ∈ filed, vouched entry.diagnostic

namespace Log.GrowsTo

variable {vouched : Diagnostic → Prop} {first second third : Log}

theorem refl (log : Log) : log.GrowsTo vouched log :=
  ⟨[], [], by simp, by simp, by simp⟩

theorem trans (h : first.GrowsTo vouched second) (h' : second.GrowsTo vouched third) :
    first.GrowsTo vouched third := by
  obtain ⟨filed, warnings, hFiled, hWarnings, hVouched⟩ := h
  obtain ⟨filed', warnings', hFiled', hWarnings', hVouched'⟩ := h'
  refine ⟨filed ++ filed', warnings ++ warnings', ?_, ?_, ?_⟩
  · rw [hFiled', hFiled, List.append_assoc]
  · rw [hWarnings', hWarnings, List.append_assoc]
  · exact List.forall_mem_append.mpr ⟨hVouched, hVouched'⟩

theorem filed_isPrefix (h : first.GrowsTo vouched second) : first.filed <+: second.filed := by
  obtain ⟨filed, -, hFiled, -, -⟩ := h
  exact ⟨filed, hFiled.symm⟩

/-- All that a log holds that started empty is vouched for. -/
theorem forall_filed (h : Log.GrowsTo vouched {} second) :
    ∀ entry ∈ second.filed, vouched entry.diagnostic := by
  obtain ⟨filed, -, hFiled, -, hVouched⟩ := h
  rw [hFiled]
  simpa using hVouched

end Log.GrowsTo

namespace Desk

open Filing

/-- A report leads to one entry or, if it is refused, to none. -/
theorem growsTo_file (desk : Desk) (specificity : Specificity) (report : Report) (log : Log) :
    log.GrowsTo desk.Vouches (outcome (desk.file specificity report) log).2 := by
  obtain ⟨⟨warnings, hLog⟩, hVouched⟩ := prepares_diagnose report log
  unfold file
  rw [outcome_bind]
  rcases hOutcome : outcome (desk.diagnose report) log with ⟨result, written⟩
  rw [hOutcome] at hLog hVouched
  obtain rfl : written = { log with warnings := log.warnings ++ warnings } := hLog
  cases result with
  | error cause => exact ⟨[], warnings, by simp, rfl, by simp⟩
  | ok diagnostic =>
      refine ⟨[⟨diagnostic, specificity⟩], warnings, rfl, rfl, ?_⟩
      simpa using hVouched diagnostic rfl

/-- Whatever a listener makes of what becomes of its reports, the log only grows. -/
theorem growsTo_follow {Memory : Type} (desk : Desk) (specificity : Specificity)
    (reaction : Reaction Memory) (log : Log) :
    log.GrowsTo desk.Vouches (desk.follow specificity reaction log).2 := by
  induction reaction generalizing log with
  | done memory failure => exact Log.GrowsTo.refl log
  | report report next ih => exact (growsTo_file desk specificity report log).trans (ih _ _)

end Desk

end EcmaLint
