import EcmaLint.Proofs.Lint.Proposals

/-! What a report that is refused leaves behind. Nothing of it is filed. But the fixes of a
report are joined one list after the other while it is checked, the fix of the report itself
first, and a list with a misfit is worth a warning at once. So the warnings about the lists
before the check that failed stay, and there are no others. -/
namespace EcmaLint

namespace Filing

variable {α β : Type}

/-- An action of two parts fails if the first one does, or the second one on what the first has
written. -/
theorem outcome_bind_eq_error_iff {action : Filing α} {next : α → Filing β} {log later : Log}
    {cause : RuleError} :
    outcome (action >>= next) log = (.error cause, later) ↔
      outcome action log = (.error cause, later) ∨
        ∃ first between, outcome action log = (.ok first, between) ∧
          outcome (next first) between = (.error cause, later) := by
  rw [outcome_bind]
  rcases outcome action log with ⟨result, written⟩
  cases result with
  | error cause => simp
  | ok first => simp

theorem outcome_pure_ne_error {value : α} {cause : RuleError} {log later : Log} :
    ¬outcome (pure value) log = (.error cause, later) := by
  rw [show outcome (pure value) log = (.ok value, log) from rfl]
  simp

theorem outcome_throw_eq_error_iff {thrown cause : RuleError} {log later : Log} :
    outcome (throw thrown : Filing α) log = (.error cause, later) ↔
      thrown = cause ∧ log = later := by
  rw [show outcome (throw thrown : Filing α) log = (.error thrown, log) from rfl]
  simp

/-- A check that throws if a condition holds fails itself, or is passed and what follows it
fails. -/
theorem outcome_unless_eq_error_iff {condition : Prop} [Decidable condition]
    {thrown cause : RuleError} {next : Unit → Filing α} {log later : Log} :
    outcome (if condition then throw thrown >>= next else next ()) log = (.error cause, later) ↔
      (condition ∧ thrown = cause ∧ log = later) ∨
        (¬condition ∧ outcome (next ()) log = (.error cause, later)) := by
  by_cases hCondition : condition
  · rw [if_pos hCondition, outcome_bind_eq_error_iff]
    simp [hCondition, outcome_throw_eq_error_iff, outcome_throw_ne_ok]
  · rw [if_neg hCondition]
    simp [hCondition]

end Filing

namespace Desk

open Filing

/-- Fixes of which two overlap. Nobody looks for overlaps if fixes are not wanted or if there
is a misfit. -/
def Clashes (desk : Desk) (fixes : List Fix) (overlap : Overlap) : Prop :=
  desk.keeps fixes = true ∧ Fix.merge desk.source.text fixes = .error overlap

/-- The causes for which a suggestion is refused. -/
inductive RefusesSuggestion (desk : Desk) (request : SuggestionRequest) : RuleError → Prop where
  | unknownMessage (h : desk.info.template? request.messageId = none) :
      RefusesSuggestion desk request (.unknownMessage request.messageId)
  | overlappingFixes {overlap : Overlap} (hKnown : (desk.info.template? request.messageId).isSome)
      (h : desk.Clashes request.fixes overlap) :
      RefusesSuggestion desk request (.overlappingFixes overlap)

/-- What a rule has to declare for a report to be looked at any further. -/
structure Declares (desk : Desk) (report : Report) : Prop where
  message : (desk.info.template? report.messageId).isSome
  fix : report.fixes.isSome → desk.info.fixable.isSome
  suggestions : report.suggestions ≠ [] → desk.info.hasSuggestions = true

/-- The first thing that a report needs and its rule does not declare, as a cause. -/
inductive Misses (desk : Desk) (report : Report) : RuleError → Prop where
  | message (h : desk.info.template? report.messageId = none) :
      Misses desk report (.unknownMessage report.messageId)
  | fix (hKnown : (desk.info.template? report.messageId).isSome) (hFix : report.fixes.isSome)
      (h : desk.info.fixable = none) :
      Misses desk report .fixNotDeclared
  | suggestions (hKnown : (desk.info.template? report.messageId).isSome)
      (hFix : report.fixes.isSome → desk.info.fixable.isSome) (hSome : report.suggestions ≠ [])
      (h : desk.info.hasSuggestions = false) :
      Misses desk report .suggestionsNotDeclared

/-- The check of a report that is the first to fail: its cause, and the lists of fixes that
were joined before it, in the order of the report. -/
inductive Refuses (desk : Desk) (report : Report) : RuleError → List (List Fix) → Prop where
  | misses {cause : RuleError} (h : desk.Misses report cause) : Refuses desk report cause []
  | overlappingFixes {fixes : List Fix} {overlap : Overlap} (hDeclared : desk.Declares report)
      (hFixes : report.fixes = some fixes) (h : desk.Clashes fixes overlap) :
      Refuses desk report (.overlappingFixes overlap) []
  /-- A suggestion is refused after the fix of the report and all suggestions before it have
  passed. -/
  | suggestion {passed rest : List SuggestionRequest} {request : SuggestionRequest}
      {cause : RuleError} (hDeclared : desk.Declares report)
      (hFix : ∀ fixes, report.fixes = some fixes → ∀ overlap, ¬desk.Clashes fixes overlap)
      (hSplit : report.suggestions = passed ++ request :: rest)
      (hPassed : ∀ other ∈ passed, ∀ cause, ¬desk.RefusesSuggestion other cause)
      (h : desk.RefusesSuggestion request cause) :
      Refuses desk report cause (report.fixes.toList ++ passed.map SuggestionRequest.fixes)

variable {desk : Desk}

theorem outcome_template_eq_error_iff {messageId : String} {cause : RuleError} {log later : Log} :
    outcome (desk.template messageId) log = (.error cause, later) ↔
      desk.info.template? messageId = none ∧ .unknownMessage messageId = cause ∧ log = later := by
  unfold Desk.template
  cases desk.info.template? messageId with
  | none => simp [outcome_throw_eq_error_iff]
  | some template => simp [outcome_pure_ne_error]

theorem outcome_template_of_isSome {messageId : String}
    (h : (desk.info.template? messageId).isSome) (log : Log) :
    ∃ template, outcome (desk.template messageId) log = (.ok template, log) := by
  obtain ⟨template, hTemplate⟩ := Option.isSome_iff_exists.mp h
  refine ⟨template, ?_⟩
  unfold Desk.template
  rw [hTemplate]
  rfl

theorem outcome_joinFixes_eq_error_iff {fixes : List Fix} {cause : RuleError} {log later : Log}
    (hWanted : desk.computeFixes = true) :
    outcome (desk.joinFixes fixes) log = (.error cause, later) ↔
      ∃ overlap, desk.Clashes fixes overlap ∧ .overlappingFixes overlap = cause ∧ log = later := by
  unfold joinFixes Clashes keeps
  by_cases hEmpty : fixes.isEmpty = true
  · simp [hEmpty, outcome_pure_ne_error]
  · rw [if_neg hEmpty]
    cases hMisfit : desk.misfit? fixes with
    | some misfit =>
        have hFound : (fixes.find? fun fix => !fix.fits desk.source.text) = some misfit := hMisfit
        rw [hFound]
        simp only [Option.isNone_some, Bool.and_false, Bool.false_eq_true, false_and, exists_false,
          iff_false]
        rintro ⟨⟩
    | none =>
        have hFound : (fixes.find? fun fix => !fix.fits desk.source.text) = none := hMisfit
        rw [hFound]
        cases hMerge : Fix.merge desk.source.text fixes with
        | ok fix => simp [outcome_pure_ne_error]
        | error overlap => simp [hWanted, hEmpty, outcome_throw_eq_error_iff]

/-- Joining fixes fails just if they overlap, and then nothing has been written. -/
theorem outcome_wantedFix_eq_error_iff {fixes : List Fix} {cause : RuleError} {log later : Log} :
    outcome (desk.wantedFix fixes) log = (.error cause, later) ↔
      ∃ overlap, desk.Clashes fixes overlap ∧ .overlappingFixes overlap = cause ∧ log = later := by
  unfold wantedFix
  by_cases hWanted : desk.computeFixes = true
  · rw [if_pos hWanted, outcome_joinFixes_eq_error_iff hWanted]
  · rw [if_neg hWanted]
    simp [outcome_pure_ne_error, Clashes, keeps, hWanted]

/-- Fixes that do not overlap lead to no more than a warning. -/
theorem outcome_wantedFix_of_not_clashes {fixes : List Fix}
    (h : ∀ overlap, ¬desk.Clashes fixes overlap) (log : Log) :
    ∃ fix, outcome (desk.wantedFix fixes) log =
      (.ok fix, log.withWarnings (desk.complaints fixes)) := by
  rcases hOutcome : outcome (desk.wantedFix fixes) log with ⟨result, later⟩
  cases result with
  | ok fix =>
      obtain ⟨rfl, -⟩ := outcome_wantedFix hOutcome
      exact ⟨fix, rfl⟩
  | error cause =>
      obtain ⟨overlap, hClash, -⟩ := outcome_wantedFix_eq_error_iff.mp hOutcome
      exact absurd hClash (h overlap)

/-- A suggestion that is refused stops the suggestions at once. -/
theorem outcome_suggestions_of_refuses {request : SuggestionRequest} {cause : RuleError}
    (h : desk.RefusesSuggestion request cause) (rest : List SuggestionRequest) (log : Log) :
    outcome (desk.suggestions (request :: rest)) log = (.error cause, log) := by
  rw [suggestions]
  cases h with
  | unknownMessage hUnknown =>
      have hTemplate : outcome (desk.template request.messageId) log =
          (.error (.unknownMessage request.messageId), log) :=
        outcome_template_eq_error_iff.mpr ⟨hUnknown, rfl, rfl⟩
      exact outcome_bind_eq_error_iff.mpr (Or.inl hTemplate)
  | @overlappingFixes overlap hKnown hClash =>
      obtain ⟨template, hTemplate⟩ := outcome_template_of_isSome hKnown log
      have hFix : outcome (desk.wantedFix request.fixes) log =
          (.error (.overlappingFixes overlap), log) :=
        outcome_wantedFix_eq_error_iff.mpr ⟨overlap, hClash, rfl, rfl⟩
      refine outcome_bind_eq_error_iff.mpr (Or.inr ⟨template, log, hTemplate, ?_⟩)
      exact outcome_bind_eq_error_iff.mpr (Or.inl hFix)

/-- Behind a suggestion that is not refused, the suggestions fail where the later ones do. -/
theorem outcome_suggestions_of_not_refuses {request : SuggestionRequest}
    (h : ∀ cause, ¬desk.RefusesSuggestion request cause) {rest : List SuggestionRequest}
    {cause : RuleError} {log later : Log} :
    outcome (desk.suggestions (request :: rest)) log = (.error cause, later) ↔
      outcome (desk.suggestions rest) (log.withWarnings (desk.complaints request.fixes)) =
        (.error cause, later) := by
  have hKnown : (desk.info.template? request.messageId).isSome := by
    rw [Option.isSome_iff_ne_none]
    exact fun hUnknown => h _ (.unknownMessage hUnknown)
  have hClear : ∀ overlap, ¬desk.Clashes request.fixes overlap :=
    fun overlap hClash => h _ (.overlappingFixes hKnown hClash)
  obtain ⟨template, hTemplate⟩ := outcome_template_of_isSome hKnown log
  obtain ⟨fix, hFix⟩ := outcome_wantedFix_of_not_clashes hClear log
  rw [suggestions, outcome_bind, hTemplate]
  dsimp only
  rw [outcome_bind, hFix]
  dsimp only
  rw [outcome_bind_eq_error_iff]
  simp [outcome_pure_ne_error]

/-- Suggestions fail just at the first of them that is refused. The warnings about those before
it stay. -/
theorem outcome_suggestions_eq_error_iff {requests : List SuggestionRequest} {cause : RuleError}
    {log later : Log} :
    outcome (desk.suggestions requests) log = (.error cause, later) ↔
      ∃ passed request rest, requests = passed ++ request :: rest ∧
        (∀ other ∈ passed, ∀ cause, ¬desk.RefusesSuggestion other cause) ∧
        desk.RefusesSuggestion request cause ∧
        later = log.withWarnings
          ((passed.map SuggestionRequest.fixes).flatMap desk.complaints) := by
  induction requests generalizing log with
  | nil =>
      rw [suggestions]
      simp [outcome_pure_ne_error]
  | cons first others ih =>
      by_cases hRefused : ∃ cause, desk.RefusesSuggestion first cause
      · obtain ⟨own, hOwn⟩ := hRefused
        rw [outcome_suggestions_of_refuses hOwn]
        constructor
        · rintro ⟨⟩
          exact ⟨[], first, others, rfl, by simp, hOwn, (Log.withWarnings_nil _).symm⟩
        · rintro ⟨passed, request, rest, hSplit, hPassed, hRequest, rfl⟩
          cases passed with
          | nil =>
              obtain ⟨rfl, rfl⟩ := List.cons_eq_cons.mp hSplit
              have hSame := outcome_suggestions_of_refuses hRequest others log
              rw [outcome_suggestions_of_refuses hOwn] at hSame
              rw [List.map_nil, List.flatMap_nil, Log.withWarnings_nil]
              exact hSame
          | cons head tail =>
              obtain ⟨rfl, -⟩ := List.cons_eq_cons.mp hSplit
              exact absurd hOwn (hPassed first List.mem_cons_self own)
      · have hPasses : ∀ cause, ¬desk.RefusesSuggestion first cause :=
          fun cause hCause => hRefused ⟨cause, hCause⟩
        rw [outcome_suggestions_of_not_refuses hPasses, ih]
        constructor
        · rintro ⟨passed, request, rest, rfl, hPassed, hRequest, rfl⟩
          refine ⟨first :: passed, request, rest, rfl, ?_, hRequest, ?_⟩
          · exact List.forall_mem_cons.mpr ⟨hPasses, hPassed⟩
          · rw [Log.withWarnings_append]
            rfl
        · rintro ⟨passed, request, rest, hSplit, hPassed, hRequest, rfl⟩
          cases passed with
          | nil =>
              obtain ⟨rfl, -⟩ := List.cons_eq_cons.mp hSplit
              exact absurd hRequest (hPasses cause)
          | cons head tail =>
              obtain ⟨rfl, hRest⟩ := List.cons_eq_cons.mp hSplit
              refine ⟨tail, request, rest, hRest, ?_, hRequest, ?_⟩
              · exact (List.forall_mem_cons.mp hPassed).2
              · rw [Log.withWarnings_append]
                rfl

theorem outcome_mainFix_eq_error_iff {fixes : Option (List Fix)} {cause : RuleError}
    {log later : Log} :
    outcome (desk.mainFix fixes) log = (.error cause, later) ↔
      ∃ list overlap, fixes = some list ∧ desk.Clashes list overlap ∧
        .overlappingFixes overlap = cause ∧ log = later := by
  cases fixes with
  | none =>
      rw [mainFix]
      simp [outcome_pure_ne_error]
  | some list =>
      rw [mainFix, outcome_wantedFix_eq_error_iff]
      simp

/-- A fix of a report that does not clash leads to no more than a warning. -/
theorem outcome_mainFix_of_not_clashes {fixes : Option (List Fix)}
    (h : ∀ list, fixes = some list → ∀ overlap, ¬desk.Clashes list overlap) (log : Log) :
    ∃ fix, outcome (desk.mainFix fixes) log =
      (.ok fix, log.withWarnings (fixes.toList.flatMap desk.complaints)) := by
  cases fixes with
  | none => exact ⟨none, by rw [mainFix, Option.toList_none, List.flatMap_nil,
      Log.withWarnings_nil]; rfl⟩
  | some list =>
      obtain ⟨fix, hFix⟩ := outcome_wantedFix_of_not_clashes (h list rfl) log
      exact ⟨fix, by simpa [mainFix] using hFix⟩

/-- Behind the checks of what is declared, a report fails with its fix or with its
suggestions. -/
theorem outcome_diagnose_of_declares {report : Report} (h : desk.Declares report)
    {cause : RuleError} {log later : Log} :
    outcome (desk.diagnose report) log = (.error cause, later) ↔
      outcome (desk.mainFix report.fixes) log = (.error cause, later) ∨
        ∃ fix between, outcome (desk.mainFix report.fixes) log = (.ok fix, between) ∧
          outcome (desk.suggestions report.suggestions) between = (.error cause, later) := by
  obtain ⟨template, hTemplate⟩ := outcome_template_of_isSome h.message log
  have hFix : ¬(report.fixes.isSome && desk.info.fixable.isNone) = true := by
    cases hFixes : report.fixes with
    | none => simp
    | some fixes =>
        have := h.fix (by simp [hFixes])
        simpa using Option.isSome_iff_ne_none.mp this
  have hSuggestions : ¬(!report.suggestions.isEmpty && !desk.info.hasSuggestions) = true := by
    by_cases hNone : report.suggestions = []
    · simp [hNone]
    · simp [h.suggestions hNone]
  unfold diagnose
  rw [outcome_bind, hTemplate]
  dsimp only
  rw [if_neg hFix, if_neg hSuggestions, outcome_bind_eq_error_iff]
  simp only [outcome_bind_eq_error_iff, outcome_pure_ne_error, and_false, exists_false, or_false]

/-- A report whose rule does not declare what it needs is refused before any fix is joined. -/
theorem outcome_diagnose_of_misses {report : Report} {cause : RuleError}
    (h : desk.Misses report cause) (log : Log) :
    outcome (desk.diagnose report) log = (.error cause, log) := by
  unfold diagnose
  rw [outcome_bind_eq_error_iff]
  cases h with
  | message hUnknown => exact Or.inl (outcome_template_eq_error_iff.mpr ⟨hUnknown, rfl, rfl⟩)
  | fix hKnown hFix hNone =>
      obtain ⟨template, hTemplate⟩ := outcome_template_of_isSome hKnown log
      refine Or.inr ⟨template, log, hTemplate, outcome_unless_eq_error_iff.mpr (Or.inl ?_)⟩
      exact ⟨by simp [hFix, hNone], rfl, rfl⟩
  | suggestions hKnown hFix hSome hNone =>
      obtain ⟨template, hTemplate⟩ := outcome_template_of_isSome hKnown log
      refine Or.inr ⟨template, log, hTemplate, outcome_unless_eq_error_iff.mpr (Or.inr ⟨?_, ?_⟩)⟩
      · cases hFixes : report.fixes with
        | none => simp
        | some fixes => simpa [Option.isSome_iff_ne_none] using hFix (by simp [hFixes])
      · exact outcome_unless_eq_error_iff.mpr (Or.inl ⟨by simp [hSome, hNone], rfl, rfl⟩)

theorem declares_or_misses (desk : Desk) (report : Report) :
    desk.Declares report ∨ ∃ cause, desk.Misses report cause := by
  cases hTemplate : desk.info.template? report.messageId with
  | none => exact Or.inr ⟨_, .message hTemplate⟩
  | some template =>
      have hKnown : (desk.info.template? report.messageId).isSome := by simp [hTemplate]
      by_cases hFix : report.fixes.isSome ∧ desk.info.fixable = none
      · exact Or.inr ⟨_, .fix hKnown hFix.1 hFix.2⟩
      · have hDeclared : report.fixes.isSome → desk.info.fixable.isSome := fun hSome =>
          Option.isSome_iff_ne_none.mpr fun hNone => hFix ⟨hSome, hNone⟩
        by_cases hSuggestions : report.suggestions ≠ [] ∧ desk.info.hasSuggestions = false
        · exact Or.inr ⟨_, .suggestions hKnown hDeclared hSuggestions.1 hSuggestions.2⟩
        · refine Or.inl ⟨hKnown, hDeclared, fun hSome => ?_⟩
          exact Bool.of_not_eq_false fun hNone => hSuggestions ⟨hSome, hNone⟩

/-- A report is refused by the first of its checks that fails. The warnings about the lists of
fixes that were joined before that check stay, and no others are written. -/
theorem outcome_diagnose_eq_error_iff {report : Report} {cause : RuleError} {log later : Log} :
    outcome (desk.diagnose report) log = (.error cause, later) ↔
      ∃ joined, desk.Refuses report cause joined ∧
        later = log.withWarnings (joined.flatMap desk.complaints) := by
  constructor
  · intro h
    rcases desk.declares_or_misses report with hDeclared | ⟨missed, hMisses⟩
    · rcases (outcome_diagnose_of_declares hDeclared).mp h with hMain | ⟨fix, between, hMain, h⟩
      · obtain ⟨list, overlap, hFixes, hClash, rfl, rfl⟩ := outcome_mainFix_eq_error_iff.mp hMain
        exact ⟨[], .overlappingFixes hDeclared hFixes hClash, (Log.withWarnings_nil _).symm⟩
      · obtain ⟨passed, request, rest, hSplit, hPassed, hRequest, rfl⟩ :=
          outcome_suggestions_eq_error_iff.mp h
        have hClear : ∀ fixes, report.fixes = some fixes →
            ∀ overlap, ¬desk.Clashes fixes overlap := by
          intro fixes hFixes overlap hClash
          have hError : outcome (desk.mainFix report.fixes) log =
              (.error (.overlappingFixes overlap), log) :=
            outcome_mainFix_eq_error_iff.mpr ⟨fixes, overlap, hFixes, hClash, rfl, rfl⟩
          rw [hMain] at hError
          cases hError
        obtain ⟨rfl, -⟩ := outcome_mainFix hMain
        refine ⟨_, .suggestion hDeclared hClear hSplit hPassed hRequest, ?_⟩
        rw [Log.withWarnings_append, List.flatMap_append]
    · rw [outcome_diagnose_of_misses hMisses] at h
      cases h
      exact ⟨[], .misses hMisses, (Log.withWarnings_nil _).symm⟩
  · rintro ⟨joined, hRefuses, rfl⟩
    cases hRefuses with
    | misses hMisses =>
        rw [outcome_diagnose_of_misses hMisses, List.flatMap_nil, Log.withWarnings_nil]
    | overlappingFixes hDeclared hFixes hClash =>
        rw [List.flatMap_nil, Log.withWarnings_nil]
        refine (outcome_diagnose_of_declares hDeclared).mpr (Or.inl ?_)
        exact outcome_mainFix_eq_error_iff.mpr ⟨_, _, hFixes, hClash, rfl, rfl⟩
    | @suggestion passed rest request cause hDeclared hFix hSplit hPassed hRequest =>
        obtain ⟨fix, hMain⟩ := outcome_mainFix_of_not_clashes hFix log
        refine (outcome_diagnose_of_declares hDeclared).mpr (Or.inr ⟨fix, _, hMain, ?_⟩)
        refine outcome_suggestions_eq_error_iff.mpr
          ⟨passed, request, rest, hSplit, hPassed, hRequest, ?_⟩
        rw [Log.withWarnings_append, List.flatMap_append]

end Desk

/-- A report is refused by the first of its checks that fails. Nothing is filed then, and of
the lists of fixes in it just those that were joined before this check are worth warnings. -/
theorem Desk.file_eq_error_iff {desk : Desk} {specificity : Specificity} {report : Report}
    {cause : RuleError} {log later : Log} :
    Filing.outcome (desk.file specificity report) log = (.error cause, later) ↔
      ∃ joined, desk.Refuses report cause joined ∧ later.filed = log.filed ∧
        later.warnings = log.warnings ++ joined.flatMap desk.complaints := by
  have hFile : Filing.outcome (desk.file specificity report) log = (.error cause, later) ↔
      Filing.outcome (desk.diagnose report) log = (.error cause, later) := by
    rw [file, Filing.outcome_bind_eq_error_iff, or_iff_left]
    rintro ⟨diagnostic, between, -, hFiled⟩
    cases hFiled
  rw [hFile, outcome_diagnose_eq_error_iff]
  refine exists_congr fun joined => and_congr_right fun _ => ?_
  constructor
  · rintro rfl
    exact ⟨rfl, rfl⟩
  · intro ⟨hFiled, hWarnings⟩
    cases later
    cases hFiled
    cases hWarnings
    rfl

/-- A refusal may leave a trace. The fix of this report ends behind the program and is dropped
with a warning, which stays when a suggestion turns out to name a message that is not
declared. -/
theorem Desk.exists_file_refused_with_warning :
    ¬∀ (desk : Desk) specificity report log cause later,
      Filing.outcome (desk.file specificity report) log = (.error cause, later) →
        later.filed = log.filed ∧ later.warnings = log.warnings := by
  intro hNoTrace
  have hFile := hNoTrace
    { info := { name := "renaming", fixable := some .code, hasSuggestions := true,
                messages := [("found", "Found.")] }
      source := ⟨"a;", (parse "a;" default).toOption.getD default⟩
      severity := .error
      computeFixes := true }
    ⟨0, 1⟩
    { Report.onSpan "found" ⟨0, 1⟩ with
      fixes := some [⟨⟨0, 9⟩, "b"⟩]
      suggestions := [⟨"missing", [], []⟩] }
    {} (.unknownMessage "missing")
    { warnings :=
        ["rule 'renaming' proposed a fix with invalid range 0..9; the fix was dropped"] }
    (by decide +kernel)
  exact absurd hFile.2 (by decide)

end EcmaLint
