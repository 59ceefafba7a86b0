import EcmaLint.Proofs.Lint.Independence
import EcmaLint.Rules.ObjectShorthand.Basic
import EcmaLint.Rules.Registry

/-! Linting without fixes. When no fixes are wanted, the fixes of a report are not joined, but
all its checks are made. Joining can fail, where fixes of one report overlap, and then the rule
hears nothing more of a pass that it would hear of without fixes. A pass in which that never
happens differs from the pass without fixes only in what its diagnostics offer. A rule might hide
such a failure, or look whether its fix functions are run, so this asks of rules that they do
neither. -/
namespace EcmaLint

/-- A diagnostic that offers no changes. -/
def Diagnostic.erased (diagnostic : Diagnostic) : Diagnostic :=
  { diagnostic with fix := none, suggestions := [] }

def Filed.erased (filed : Filed) : Filed := ⟨filed.diagnostic.erased, filed.specificity⟩

/-- A log whose diagnostics offer no changes. Only fixes give cause for warnings, so there are
none. -/
def Log.erased (log : Log) : Log := { filed := log.filed.map Filed.erased, warnings := [] }

/-- Whether a rule failed because fixes of one report overlap. -/
def RuleError.isOverlap : RuleError → Bool
  | overlappingFixes _ => true
  | _ => false

/-- A reaction that fails in the end because fixes of one report overlap, whatever becomes of the
reports that it still makes. -/
inductive Reaction.FailsByOverlap {Memory : Type} : Reaction Memory → Prop where
  | done (memory : Memory) (overlap : Overlap) :
      FailsByOverlap (.done memory (some (.overlappingFixes overlap)))
  | report {report : Report} {next : Receipt → Reaction Memory}
      (later : ∀ receipt, FailsByOverlap (next receipt)) : FailsByOverlap (.report report next)

/-- A reaction in keeping with what is asked of rules. A listener does not hide that fixes of a
report overlap, and fix functions do nothing but make fixes, so that it is all one whether they are
run. What comes of other errors is up to the listener. -/
inductive Reaction.KeepsContract {Memory : Type} : Reaction Memory → Prop where
  | done (memory : Memory) (failure : Option RuleError) : KeepsContract (.done memory failure)
  | report {report : Report} {next : Receipt → Reaction Memory}
      (handsOn : ∀ overlap, (next ⟨true, .error (.overlappingFixes overlap)⟩).FailsByOverlap)
      (indifferent : ∀ outcome, next ⟨true, outcome⟩ = next ⟨false, outcome⟩)
      (later : ∀ outcome, KeepsContract (next ⟨false, outcome⟩)) :
      KeepsContract (.report report next)

/-- A listener that keeps the contract wherever it is called. -/
def Listener.KeepsContract {Memory : Type} (listener : Listener Memory) : Prop :=
  ∀ source place memory, (listener.react source place memory).KeepsContract

/-- A rule whose listeners keep the contract under all options. -/
def Rule.KeepsContract (rule : Rule) : Prop :=
  ∀ options listeners, rule.create options = .ok listeners →
    ∀ listener ∈ listeners, listener.KeepsContract

def ActiveListener.KeepsContract {Memory : Type} (listener : ActiveListener Memory) : Prop :=
  ∀ source place memory, (listener.react source place memory).KeepsContract

/-- A rule that is set up with listeners that keep the contract. -/
def ActiveRule.KeepsContract (rule : ActiveRule) : Prop :=
  ∀ listener ∈ rule.listeners, listener.KeepsContract

section Contract

variable {Memory : Type}

theorem Reaction.keepsContract_ofReports (memory : Memory) (failure : Option RuleError)
    (reports : List Report) : (ofReports memory failure reports).KeepsContract := by
  induction reports with
  | nil => exact .done memory failure
  | cons report rest ih =>
      refine .report (fun overlap => .done memory overlap) (fun _ => rfl) fun outcome => ?_
      cases outcome with
      | ok _ => exact ih
      | error cause => exact .done memory (some cause)

@[simp]
theorem Listener.keepsContract_reporting (key : String)
    (reports : SourceCode → Place → Memory → List Report) :
    (reporting key reports).KeepsContract :=
  fun _ _ _ => Reaction.keepsContract_ofReports _ _ _

@[simp]
theorem Listener.keepsContract_remembering (key : String) (remember : Place → Memory → Memory) :
    (remembering key remember).KeepsContract :=
  fun _ _ _ => .done _ _

end Contract

namespace Filing

variable {α β γ δ : Type}

/-- Unless it finds that fixes overlap, an action and one that makes no fixes come to the same,
up to erasing, and from logs that are the same up to erasing they leave such logs. -/
def ErasesTo (action : Filing α) (erase : α → β) (bare : Filing β) : Prop :=
  ∀ log, (∀ cause, (outcome action log).1 = .error cause → cause.isOverlap = false) →
    outcome bare log.erased = ((outcome action log).1.map erase, (outcome action log).2.erased)

theorem ErasesTo.pure {erase : α → β} (value : α) :
    ErasesTo (Pure.pure value) erase (Pure.pure (erase value)) :=
  fun _ _ => rfl

theorem ErasesTo.throw {erase : α → β} (cause : RuleError) :
    ErasesTo (MonadExcept.throw cause) erase (MonadExcept.throw cause) :=
  fun _ _ => rfl

/-- An action that fails because fixes overlap is compared with nothing. -/
theorem ErasesTo.of_overlap {erase : α → β} {bare : Filing β} (overlap : Overlap) :
    ErasesTo (MonadExcept.throw (RuleError.overlappingFixes overlap)) erase bare := by
  intro log hClear
  have hFalse := hClear (.overlappingFixes overlap) rfl
  cases hFalse

theorem ErasesTo.bind {action : Filing α} {erase : α → β} {bare : Filing β}
    {next : α → Filing γ} {erase' : γ → δ} {bareNext : β → Filing δ}
    (h : ErasesTo action erase bare)
    (hNext : ∀ value, ErasesTo (next value) erase' (bareNext (erase value))) :
    ErasesTo (action >>= next) erase' (bare >>= bareNext) := by
  intro log hClear
  have hFirst := h log
  rw [outcome_bind] at hClear
  rw [outcome_bind, outcome_bind]
  rcases hOutcome : outcome action log with ⟨result, written⟩
  rw [hOutcome] at hClear hFirst
  cases result with
  | error cause =>
      rw [hFirst (by simpa using hClear)]
      rfl
  | ok value =>
      rw [hFirst (by simp)]
      exact hNext value written hClear

/-- A check that throws unless a condition fails, and the action behind it. -/
theorem ErasesTo.unless {condition : Prop} [Decidable condition] {cause : RuleError}
    {next : Unit → Filing α} {erase : α → β} {bareNext : Unit → Filing β}
    (h : ErasesTo (next ()) erase (bareNext ())) :
    ErasesTo (if condition then MonadExcept.throw cause >>= next else next ()) erase
      (if condition then MonadExcept.throw cause >>= bareNext else bareNext ()) := by
  by_cases hCondition : condition
  · rw [if_pos hCondition, if_pos hCondition]
    exact ErasesTo.throw cause
  · rw [if_neg hCondition, if_neg hCondition]
    exact h

end Filing

namespace Desk

open Filing

/-- The desk where no fixes are wanted. -/
def bare (desk : Desk) : Desk := { desk with computeFixes := false }

variable (desk : Desk)

theorem erases_template (messageId : String) :
    ErasesTo (desk.template messageId) id (desk.bare.template messageId) := by
  have hBare : desk.bare.template messageId = desk.template messageId := rfl
  rw [hBare, template]
  cases desk.info.template? messageId with
  | none => exact ErasesTo.throw _
  | some template => exact ErasesTo.pure template

/-- All that joining can do apart from making a fix is to warn and to find an overlap. -/
theorem erases_joinFixes (fixes : List Fix) :
    ErasesTo (desk.joinFixes fixes) (fun _ => (none : Option Fix)) (Pure.pure none) := by
  unfold joinFixes
  split
  case isTrue => exact ErasesTo.pure none
  case isFalse =>
    split
    case h_1 =>
      -- a warning is all that is written, and erasing drops it
      exact fun _ _ => rfl
    case h_2 =>
      split
      case h_1 fix _ => exact ErasesTo.pure (some fix)
      case h_2 overlap _ => exact ErasesTo.of_overlap overlap

theorem erases_wantedFix (fixes : List Fix) :
    ErasesTo (desk.wantedFix fixes) (fun _ => none) (desk.bare.wantedFix fixes) := by
  have hBare : desk.bare.wantedFix fixes = Pure.pure none := rfl
  rw [hBare, wantedFix]
  split
  case isTrue => exact erases_joinFixes desk fixes
  case isFalse => exact ErasesTo.pure none

theorem erases_mainFix (fixes : Option (List Fix)) :
    ErasesTo (desk.mainFix fixes) (fun _ => none) (desk.bare.mainFix fixes) := by
  cases fixes with
  | none => exact ErasesTo.pure none
  | some fixes => exact erases_wantedFix desk fixes

/-- The messages of suggestions are looked up whether their fixes are wanted or not. -/
theorem erases_suggestions (requests : List SuggestionRequest) :
    ErasesTo (desk.suggestions requests) (fun _ => []) (desk.bare.suggestions requests) := by
  induction requests with
  | nil => exact ErasesTo.pure []
  | cons request rest ih =>
      rw [suggestions, suggestions]
      refine (erases_template desk request.messageId).bind fun template => ?_
      refine (erases_wantedFix desk request.fixes).bind fun fix => ?_
      exact ih.bind fun made => ErasesTo.pure _

theorem erases_diagnose (report : Report) :
    ErasesTo (desk.diagnose report) Diagnostic.erased (desk.bare.diagnose report) := by
  unfold diagnose
  refine (erases_template desk report.messageId).bind fun template => ?_
  refine ErasesTo.unless (ErasesTo.unless ?_)
  refine (erases_mainFix desk report.fixes).bind fun fix => ?_
  exact (erases_suggestions desk report.suggestions).bind fun made => ErasesTo.pure _

theorem erases_file (specificity : Specificity) (report : Report) :
    ErasesTo (desk.file specificity report) id (desk.bare.file specificity report) := by
  refine (erases_diagnose desk report).bind fun diagnostic log _ => ?_
  have hFiled : (log.filed ++ [Filed.mk diagnostic specificity]).map Filed.erased =
      log.filed.map Filed.erased ++ [⟨diagnostic.erased, specificity⟩] :=
    List.map_append
  exact congrArg (fun filed => (Except.ok (), Log.mk filed [])) hFiled.symm

theorem exists_follow_of_failsByOverlap {Memory : Type} {reaction : Reaction Memory}
    (h : reaction.FailsByOverlap) {specificity : Specificity} (log : Log) :
    ∃ overlap, (desk.follow specificity reaction log).1.2 = some (.overlappingFixes overlap) := by
  induction h generalizing log with
  | done memory overlap => exact ⟨overlap, rfl⟩
  | report later ih =>
      rw [follow]
      exact ih _ _

/-- A listener that keeps the contract comes to the same without fixes. -/
theorem follow_erased {Memory : Type} {reaction : Reaction Memory} (hKeeps : reaction.KeepsContract)
    {specificity : Specificity} {log : Log}
    (h : ∀ cause ∈ (desk.follow specificity reaction log).1.2, cause.isOverlap = false) :
    desk.bare.follow specificity reaction log.erased =
      (desk.follow specificity reaction log).map id Log.erased := by
  induction hKeeps generalizing log with
  | done memory failure => rfl
  | @report report next handsOn indifferent _ ih =>
      have hSame : ∀ outcome, next ⟨desk.computeFixes, outcome⟩ = next ⟨false, outcome⟩ := by
        intro outcome
        cases desk.computeFixes
        · rfl
        · exact indifferent outcome
      have hErased := desk.erases_file specificity report log
      rcases hOutcome : outcome (desk.file specificity report) log with ⟨result, written⟩
      have hStep : desk.follow specificity (.report report next) log =
          desk.follow specificity (next ⟨false, result⟩) written := by
        unfold outcome at hOutcome
        rw [follow, hOutcome, ← hSame]
      rw [hStep] at h ⊢
      have hClear : ∀ cause, result = .error cause → cause.isOverlap = false := by
        rintro cause rfl
        cases cause with
        | overlappingFixes overlap =>
            have hFails := handsOn overlap
            rw [indifferent] at hFails
            obtain ⟨other, hOther⟩ := desk.exists_follow_of_failsByOverlap hFails written
            exact h (.overlappingFixes other) hOther
        | _ => rfl
      rw [hOutcome] at hErased
      have hBare : outcome (desk.bare.file specificity report) log.erased =
          (result, written.erased) := by
        rw [hErased hClear, Except.map_id, id]
      unfold outcome at hBare
      rw [follow, hBare]
      exact ih result h

/-- The contract is needed. A listener that does not mind that its report is refused, for fixes that
overlap, reports nothing with fixes and something without them, and fails in neither case. -/
theorem exists_follow_not_erased : ∃ (desk : Desk) (report : Report), desk.computeFixes = true ∧
    desk.follow ⟨0, 0⟩ (.report report fun _ => .done () none) {} = (((), none), {}) ∧
    (desk.bare.follow ⟨0, 0⟩ (.report report fun _ => .done () none) {}).2.filed ≠ [] := by
  let info : RuleInfo :=
    { name := "swallowing", fixable := some .code, messages := [("found", "Found.")] }
  let desk : Desk := ⟨info, ⟨"a", default⟩, .error, true⟩
  let fixes : List Fix := [⟨⟨0, 1⟩, "b"⟩, ⟨⟨0, 1⟩, "c"⟩]
  have hSort : fixes.mergeSort Fix.le = fixes := List.mergeSort_of_pairwise (by decide)
  have hMerge : Fix.merge desk.source.text fixes = .error ⟨⟨0, 1⟩, ⟨0, 1⟩⟩ := by
    rw [Fix.merge, hSort]
    · decide +kernel
    · simp [fixes]
  have hFits : (fixes.find? fun fix => !fix.fits desk.source.text) = none := by decide +kernel
  have hJoin : desk.joinFixes fixes = throw (.overlappingFixes ⟨⟨0, 1⟩, ⟨0, 1⟩⟩) := by
    simp [joinFixes, hFits, hMerge, fixes]
  refine ⟨desk, { Report.onSpan "found" ⟨0, 1⟩ with fixes := some fixes }, rfl, ?_, ?_⟩
  · simp only [follow, file, diagnose, mainFix, wantedFix, hJoin]
    rfl
  · decide +kernel

end Desk

namespace Progress

open Filing

variable {Memory : Type} {desk : Desk} {place : Place}

/-- A rule that has reported the same, but offers no changes. -/
def erased (progress : Progress Memory) : Progress Memory :=
  { progress with log := progress.log.erased }

/-- A rule remembers the same in both ways of linting. -/
theorem callAll_erased {listeners : List (ActiveListener Memory)}
    (hKeeps : ∀ listener ∈ listeners, listener.KeepsContract) {progress : Progress Memory}
    (h : ∀ cause ∈ (callAll desk place listeners progress).2, cause.isOverlap = false) :
    callAll desk.bare place listeners progress.erased =
      (callAll desk place listeners progress).map erased id := by
  induction listeners generalizing progress with
  | nil => rfl
  | cons listener rest ih =>
      obtain ⟨hListener, hRest⟩ := List.forall_mem_cons.mp hKeeps
      have hErased := @Desk.follow_erased desk _ _ (hListener desk.source place progress.memory)
        listener.selector.specificity progress.log
      rcases hFollow : desk.follow listener.selector.specificity
        (listener.react desk.source place progress.memory) progress.log
        with ⟨⟨memory, failure⟩, written⟩
      rw [hFollow] at hErased
      cases failure with
      | some cause =>
          rw [callAll_cons_of_failed hFollow] at h ⊢
          exact callAll_cons_of_failed (hErased h)
      | none =>
          rw [callAll_cons_of_done hFollow] at h ⊢
          exact (callAll_cons_of_done (hErased (by simp))).trans (ih hRest h)

theorem hear_erased {listeners : List (ActiveListener Memory)}
    (hKeeps : ∀ listener ∈ listeners, listener.KeepsContract) {visit : Visit}
    {progress : Progress Memory}
    (h : ∀ cause ∈ (progress.hear desk listeners visit).2, cause.isOverlap = false) :
    progress.erased.hear desk.bare listeners visit =
      (progress.hear desk listeners visit).map erased id := by
  unfold hear at h ⊢
  by_cases hStopped : progress.isStopped = true
  · rw [if_pos hStopped]
    exact if_pos hStopped
  · rw [if_neg hStopped] at h ⊢
    refine (if_neg hStopped).trans (callAll_erased (fun listener hListener => ?_) h)
    exact hKeeps listener (List.mem_of_mem_filter hListener)

end Progress

namespace Runner

def erased (runner : Runner) : Runner := ⟨runner.rule, runner.progress.erased⟩

/-- A rule fails at a visit in both ways of linting or in neither. -/
theorem hear_erased {source : SourceCode} {computeFixes : Bool} {visit : Visit} {runner : Runner}
    (hKeeps : runner.rule.KeepsContract)
    (h : ∀ failure ∈ (runner.hear source computeFixes visit).2,
      failure.cause.isOverlap = false) :
    runner.erased.hear source false visit =
      (runner.hear source computeFixes visit).map erased id := by
  have hClear : ∀ cause ∈ (runner.progress.hear (runner.desk source computeFixes)
      runner.rule.listeners visit).2, cause.isOverlap = false :=
    fun _ hCause => h _ (Option.mem_map_of_mem _ hCause)
  have hProgress : runner.erased.progress.hear (runner.erased.desk source false)
      runner.erased.rule.listeners visit =
        (runner.progress.hear (runner.desk source computeFixes) runner.rule.listeners visit).map
          Progress.erased id :=
    Progress.hear_erased hKeeps hClear
  unfold hear
  rw [hProgress]
  rfl

end Runner

namespace PassState

def erased (state : PassState) : PassState :=
  { state with runners := state.runners.map Runner.erased }

variable {source : SourceCode} {computeFixes : Bool}

theorem hear_erased {state : PassState} {visit : Visit}
    (hKeeps : ∀ runner ∈ state.runners, runner.rule.KeepsContract)
    (h : ∀ failure ∈ (state.hear source computeFixes visit).failures,
      failure.cause.isOverlap = false) :
    state.erased.hear source false visit = (state.hear source computeFixes visit).erased := by
  have hRunners : state.erased.runners.map (Runner.hear source false visit) =
      (state.runners.map (Runner.hear source computeFixes visit)).map
        (Prod.map Runner.erased id) := by
    rw [erased, List.map_map, List.map_map]
    refine List.map_congr_left fun runner hRunner =>
      Runner.hear_erased (hKeeps runner hRunner) fun failure hFailure => ?_
    refine h failure (List.mem_append_right _ (List.mem_filterMap.mpr ?_))
    exact ⟨_, List.mem_map_of_mem hRunner, hFailure⟩
  rw [hear, hear, hRunners]
  simp [erased, List.filterMap_map, Function.comp_def]

end PassState

namespace Reported

def erased (entry : Reported) : Reported := { entry with filed := entry.filed.erased }

end Reported

def Finding.erased (finding : Finding) : Finding :=
  { finding with diagnostic := finding.diagnostic.erased }

namespace Pass

/-- A pass whose diagnostics offer no changes. -/
def erased (pass : Pass) : Pass :=
  { pass with findings := pass.findings.map Finding.erased, warnings := [] }

end Pass

/-- What a linter says without its offers to change the program. -/
def LintResult.erased (result : LintResult) : LintResult :=
  { diagnostics := result.diagnostics.map Diagnostic.erased
    failures := result.failures
    warnings := [] }

namespace Linter

end Linter

end EcmaLint
