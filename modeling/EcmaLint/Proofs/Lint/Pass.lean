import EcmaLint.Lint.Pass
import EcmaLint.Proofs.Lint.Filing

/-! What a rule does in a pass. A rule hears of visits one after the other; its log only
grows, and once it has failed nothing changes any more, so it fails at most once. The rules of
a pass go their ways apart: after any visits each of them is where it would be alone. -/
namespace EcmaLint

open Filing

namespace Progress

variable {Memory : Type}

section

variable {desk : Desk} {place : Place} {listener : ActiveListener Memory}
  {rest : List (ActiveListener Memory)} {progress : Progress Memory} {memory : Memory} {written : Log}

theorem callAll_cons_of_done
    (h : desk.follow listener.selector.specificity
      (listener.react desk.source place progress.memory) progress.log = ((memory, none), written)) :
    callAll desk place (listener :: rest) progress =
      callAll desk place rest ⟨memory, written, false⟩ := by
  rw [callAll, h]

theorem callAll_cons_of_failed {cause : RuleError}
    (h : desk.follow listener.selector.specificity
      (listener.react desk.source place progress.memory) progress.log =
        ((memory, some cause), written)) :
    callAll desk place (listener :: rest) progress = (⟨memory, written, true⟩, some cause) := by
  rw [callAll, h]

end

/-- What calling listeners comes to: the log has grown, and the rule is stopped if a listener
failed. -/
theorem callAll_spec (desk : Desk) (place : Place) (listeners : List (ActiveListener Memory))
    (progress : Progress Memory) :
    progress.log.GrowsTo desk.Vouches (callAll desk place listeners progress).1.log ∧
      ((callAll desk place listeners progress).2.isSome →
        (callAll desk place listeners progress).1.isStopped = true) := by
  induction listeners generalizing progress with
  | nil => exact ⟨Log.GrowsTo.refl _, by simp [callAll]⟩
  | cons listener rest ih =>
      have hFiled := desk.growsTo_follow listener.selector.specificity
        (listener.react desk.source place progress.memory) progress.log
      rcases hFollow : desk.follow listener.selector.specificity
        (listener.react desk.source place progress.memory) progress.log
        with ⟨⟨memory, failure⟩, written⟩
      rw [hFollow] at hFiled
      cases failure with
      | some cause =>
          rw [callAll_cons_of_failed hFollow]
          exact ⟨hFiled, fun _ => rfl⟩
      | none =>
          rw [callAll_cons_of_done hFollow]
          obtain ⟨hGrows, hStops⟩ := ih ⟨memory, written, false⟩
          exact ⟨hFiled.trans hGrows, hStops⟩

theorem hear_spec (desk : Desk) (listeners : List (ActiveListener Memory)) (visit : Visit)
    (progress : Progress Memory) :
    progress.log.GrowsTo desk.Vouches (progress.hear desk listeners visit).1.log ∧
      ((progress.hear desk listeners visit).2.isSome →
        (progress.hear desk listeners visit).1.isStopped = true) := by
  unfold hear
  split
  · exact ⟨Log.GrowsTo.refl _, by simp⟩
  · exact callAll_spec desk _ _ _

end Progress

namespace Runner

variable {source : SourceCode} {computeFixes : Bool}

/-- A stopped rule hears nothing. -/
theorem hear_of_isStopped {runner : Runner} (h : runner.progress.isStopped = true)
    (visit : Visit) : runner.hear source computeFixes visit = (runner, none) := by
  rw [hear, Progress.hear, if_pos h]
  rfl

theorem isStopped_of_failure {visit : Visit} {runner : Runner}
    (h : (runner.hear source computeFixes visit).2.isSome) :
    (runner.hear source computeFixes visit).1.progress.isStopped = true := by
  refine (Progress.hear_spec (runner.desk source computeFixes) _ _ _).2 ?_
  simpa [hear] using h

/-- A rule after some visits. -/
def after (source : SourceCode) (computeFixes : Bool) (visits : List Visit)
    (runner : Runner) : Runner :=
  visits.foldl (fun runner visit => (runner.hear source computeFixes visit).1) runner

/-- The failures of a rule over some visits. -/
def failures (source : SourceCode) (computeFixes : Bool) :
    List Visit → Runner → List ListenerFailure
  | [], _ => []
  | visit :: later, runner =>
      let (next, failure) := runner.hear source computeFixes visit
      failure.toList ++ failures source computeFixes later next

theorem after_append (first second : List Visit) (runner : Runner) :
    runner.after source computeFixes (first ++ second) =
      (runner.after source computeFixes first).after source computeFixes second :=
  List.foldl_append

theorem rule_after (visits : List Visit) (runner : Runner) :
    (runner.after source computeFixes visits).rule = runner.rule := by
  induction visits generalizing runner with
  | nil => rfl
  | cons visit later ih => exact ih (runner.hear source computeFixes visit).1

theorem growsTo_after (visits : List Visit) (runner : Runner) :
    runner.progress.log.GrowsTo (runner.desk source computeFixes).Vouches
      (runner.after source computeFixes visits).progress.log := by
  induction visits generalizing runner with
  | nil => exact Log.GrowsTo.refl _
  | cons visit later ih =>
      -- hearing of a visit does not change the rule, and so not its desk either
      exact (Progress.hear_spec (runner.desk source computeFixes) _ visit runner.progress).1.trans
        (ih (runner.hear source computeFixes visit).1)

theorem after_of_isStopped {runner : Runner} (h : runner.progress.isStopped = true)
    (visits : List Visit) : runner.after source computeFixes visits = runner := by
  induction visits with
  | nil => rfl
  | cons visit later ih =>
      rw [after, List.foldl_cons, hear_of_isStopped h]
      exact ih

theorem failures_of_isStopped {runner : Runner} (h : runner.progress.isStopped = true)
    (visits : List Visit) : runner.failures source computeFixes visits = [] := by
  induction visits with
  | nil => rfl
  | cons visit later ih =>
      rw [failures, hear_of_isStopped h]
      exact ih

theorem length_failures_le_one (visits : List Visit) (runner : Runner) :
    (runner.failures source computeFixes visits).length ≤ 1 := by
  induction visits generalizing runner with
  | nil => exact Nat.zero_le _
  | cons visit later ih =>
      rw [failures, List.length_append]
      cases hFailure : (runner.hear source computeFixes visit).2 with
      | none => simpa using ih _
      | some failure =>
          have hStopped := isStopped_of_failure (by rw [hFailure]; rfl :
            (runner.hear source computeFixes visit).2.isSome)
          rw [failures_of_isStopped hStopped]
          exact Nat.le_refl 1

end Runner

namespace PassState

variable {source : SourceCode} {computeFixes : Bool}

/-- The failures of rules at one visit, each with the rank of the rule that failed. -/
def failuresAt (source : SourceCode) (computeFixes : Bool) (visit : Visit)
    (runners : List (Runner × Nat)) : List (Nat × ListenerFailure) :=
  runners.filterMap fun (runner, rank) =>
    (runner.hear source computeFixes visit).2.map fun failure => (rank, failure)

/-- The failures of rules over some visits, in the order in which they happen, each with the
rank of the rule that failed. -/
def attributedFailures (source : SourceCode) (computeFixes : Bool) :
    List Visit → List Runner → List (Nat × ListenerFailure)
  | [], _ => []
  | visit :: later, runners =>
      failuresAt source computeFixes visit runners.zipIdx ++
        attributedFailures source computeFixes later
          (runners.map fun runner => (runner.hear source computeFixes visit).1)

theorem failuresAt_cons (visit : Visit) (runner : Runner) (rest : List Runner) (start : Nat) :
    failuresAt source computeFixes visit ((runner :: rest).zipIdx start) =
      ((runner.hear source computeFixes visit).2.map fun failure => (start, failure)).toList ++
        failuresAt source computeFixes visit (rest.zipIdx (start + 1)) := by
  rw [failuresAt, List.zipIdx_cons, List.filterMap_cons]
  cases hFailure : (runner.hear source computeFixes visit).2 <;> simp [hFailure, failuresAt]

theorem map_snd_failuresAt (visit : Visit) (runners : List Runner) (start : Nat) :
    (failuresAt source computeFixes visit (runners.zipIdx start)).map Prod.snd =
      runners.filterMap fun runner => (runner.hear source computeFixes visit).2 := by
  induction runners generalizing start with
  | nil => rfl
  | cons runner rest ih =>
      rw [failuresAt_cons, List.map_append, ih, List.filterMap_cons]
      cases hFailure : (runner.hear source computeFixes visit).2 <;> simp

theorem le_of_mem_failuresAt {visit : Visit} {runners : List Runner} {start : Nat}
    {entry : Nat × ListenerFailure}
    (h : entry ∈ failuresAt source computeFixes visit (runners.zipIdx start)) :
    start ≤ entry.1 := by
  obtain ⟨⟨runner, rank⟩, hMem, hEntry⟩ := List.mem_filterMap.mp h
  obtain ⟨failure, -, rfl⟩ := Option.map_eq_some_iff.mp hEntry
  exact List.le_snd_of_mem_zipIdx hMem

/-- At one visit, the failures of one rank are those of the rule of that rank. -/
theorem filter_failuresAt (visit : Visit) (runners : List Runner) (start rank : Nat) :
    ((failuresAt source computeFixes visit (runners.zipIdx start)).filter
        fun entry => entry.1 == start + rank).map Prod.snd =
      (runners[rank]?.bind fun runner => (runner.hear source computeFixes visit).2).toList := by
  induction runners generalizing start rank with
  | nil => rfl
  | cons runner rest ih =>
      rw [failuresAt_cons, List.filter_append, List.map_append]
      cases rank with
      | zero =>
          have hLater : (failuresAt source computeFixes visit (rest.zipIdx (start + 1))).filter
              (fun entry => entry.1 == start + 0) = [] := by
            refine List.filter_eq_nil_iff.mpr fun entry hEntry => ?_
            have := le_of_mem_failuresAt hEntry
            simp only [beq_iff_eq]
            omega
          rw [hLater]
          cases hFailure : (runner.hear source computeFixes visit).2 <;> simp [hFailure]
      | succ rank =>
          have hShift : start + (rank + 1) = start + 1 + rank := by omega
          rw [hShift, ih]
          cases hFailure : (runner.hear source computeFixes visit).2 with
          | none => simp
          | some failure =>
              simp only [Option.map_some, Option.toList_some, List.getElem?_cons_succ]
              rw [List.filter_cons_of_neg (by simp only [beq_iff_eq]; omega)]
              rfl

/-- Every rule of a pass is where it would be alone. -/
theorem runners_foldl_hear (visits : List Visit) (state : PassState) :
    (visits.foldl (hear source computeFixes) state).runners =
      state.runners.map (Runner.after source computeFixes visits) := by
  induction visits generalizing state with
  | nil => exact (List.map_id' _).symm
  | cons visit later ih =>
      rw [List.foldl_cons, ih, hear, List.map_map, List.map_map]
      rfl

/-- The failures of a pass are the attributed ones without their ranks. -/
theorem failures_foldl_hear (visits : List Visit) (state : PassState) :
    (visits.foldl (hear source computeFixes) state).failures =
      state.failures ++
        (attributedFailures source computeFixes visits state.runners).map Prod.snd := by
  induction visits generalizing state with
  | nil => exact (List.append_nil _).symm
  | cons visit later ih =>
      rw [List.foldl_cons, ih, attributedFailures, List.map_append, map_snd_failuresAt]
      simp [hear, List.filterMap_map, Function.comp_def]

/-- The failures attributed to one rank are those of the rule of that rank, had it heard of
the visits alone. -/
theorem filter_attributedFailures (visits : List Visit) (runners : List Runner) (rank : Nat) :
    ((attributedFailures source computeFixes visits runners).filter
        fun entry => entry.1 == rank).map Prod.snd =
      (runners[rank]?.map (Runner.failures source computeFixes visits)).getD [] := by
  induction visits generalizing runners with
  | nil => cases runners[rank]? <;> rfl
  | cons visit later ih =>
      have hHere : ((failuresAt source computeFixes visit runners.zipIdx).filter
          fun entry => entry.1 == rank).map Prod.snd =
            (runners[rank]?.bind fun runner =>
              (runner.hear source computeFixes visit).2).toList := by
        simpa only [Nat.zero_add] using filter_failuresAt visit runners 0 rank
      rw [attributedFailures, List.filter_append, List.map_append, hHere, ih, List.getElem?_map]
      cases hRunner : runners[rank]? <;> simp [Runner.failures]

/-- A failure is attributed to a rule of the name that it carries. -/
theorem exists_runner_of_mem_attributedFailures {visits : List Visit} {runners : List Runner}
    {entry : Nat × ListenerFailure}
    (h : entry ∈ attributedFailures source computeFixes visits runners) :
    ∃ runner, runners[entry.1]? = some runner ∧ entry.2.ruleId = runner.rule.info.name := by
  induction visits generalizing runners with
  | nil => cases h
  | cons visit later ih =>
      rcases List.mem_append.mp h with hHere | hLater
      · obtain ⟨⟨runner, rank⟩, hMem, hEntry⟩ := List.mem_filterMap.mp hHere
        obtain ⟨failure, hFailure, rfl⟩ := Option.map_eq_some_iff.mp hEntry
        obtain ⟨cause, -, rfl⟩ := Option.map_eq_some_iff.mp hFailure
        exact ⟨runner, List.mem_zipIdx_iff_getElem?.mp hMem, rfl⟩
      · obtain ⟨next, hNext, hRule⟩ := ih hLater
        rw [List.getElem?_map] at hNext
        obtain ⟨runner, hRunner, rfl⟩ := Option.map_eq_some_iff.mp hNext
        exact ⟨runner, hRunner, hRule⟩

/-- The failures of a rule that is alone are attributed to it. -/
theorem map_snd_attributedFailures_singleton (visits : List Visit) (runner : Runner) :
    (attributedFailures source computeFixes visits [runner]).map Prod.snd =
      runner.failures source computeFixes visits := by
  have hFirst : ∀ entry ∈ attributedFailures source computeFixes visits [runner],
      (entry.1 == 0) = true := by
    intro entry hEntry
    obtain ⟨_, hRunner, -⟩ := exists_runner_of_mem_attributedFailures hEntry
    obtain ⟨hLt, -⟩ := List.getElem?_eq_some_iff.mp hRunner
    rw [beq_iff_eq]
    exact Nat.lt_one_iff.mp hLt
  rw [← List.filter_eq_self.mpr hFirst]
  exact filter_attributedFailures visits [runner] 0

end PassState

namespace ActiveRule

/-- What filing the reports of a rule depends on. -/
def desk (rule : ActiveRule) (source : SourceCode) (computeFixes : Bool) : Desk :=
  (Runner.start rule).desk source computeFixes

/-- The log of a rule at the end of a pass. -/
def log (rule : ActiveRule) (source : SourceCode) (computeFixes : Bool) : Log :=
  ((Runner.start rule).after source computeFixes source.root.visits).progress.log

/-- What a rule files in a pass is vouched for. -/
theorem vouches_of_mem_log {rule : ActiveRule} {source : SourceCode} {computeFixes : Bool}
    {filed : Filed} (h : filed ∈ (rule.log source computeFixes).filed) :
    (rule.desk source computeFixes).Vouches filed.diagnostic :=
  ((Runner.start rule).growsTo_after source.root.visits).forall_filed filed h

end ActiveRule

namespace Pass

variable (rules : List ActiveRule) (computeFixes : Bool) (source : SourceCode)

/-- The diagnostics that rules file in a pass, by rule. -/
def reported : List Reported :=
  rules.zipIdx.flatMap fun (rule, rank) =>
    (rule.log source computeFixes).filed.map fun filed => ⟨rank, rule.info.kind, filed⟩

theorem runners_foldl_start :
    (source.root.visits.foldl (PassState.hear source computeFixes)
        ⟨rules.map Runner.start, []⟩).runners =
      rules.map fun rule => (Runner.start rule).after source computeFixes source.root.visits := by
  rw [PassState.runners_foldl_hear, List.map_map]
  rfl

theorem ofRunners_after :
    Reported.ofRunners (rules.map fun rule =>
        (Runner.start rule).after source computeFixes source.root.visits) =
      reported rules computeFixes source := by
  rw [Reported.ofRunners, reported, List.zipIdx_map, List.flatMap_map]
  congr 1
  funext ⟨rule, rank⟩
  have hKind : ((Runner.start rule).after source computeFixes
      source.root.visits).rule.info.kind = rule.info.kind := by
    rw [Runner.rule_after]
    rfl
  simp only [Prod.map_apply, hKind]
  rfl

theorem findings_ofRules :
    (ofRules rules computeFixes source).findings =
      ((reported rules computeFixes source).mergeSort Reported.le).map Reported.finding := by
  rw [ofRules, runners_foldl_start, ofRunners_after]

theorem warnings_ofRules :
    (ofRules rules computeFixes source).warnings =
      rules.flatMap fun rule => (rule.log source computeFixes).warnings := by
  rw [ofRules, runners_foldl_start, List.flatMap_map]
  rfl

theorem failures_ofRules :
    (ofRules rules computeFixes source).failures =
      (PassState.attributedFailures source computeFixes source.root.visits
        (rules.map Runner.start)).map Prod.snd := by
  rw [ofRules, PassState.failures_foldl_hear]
  exact List.nil_append _

variable {rules computeFixes source}

/-- A finding of a pass comes from one of its rules, is attributed to that rule and is vouched
for by it. -/
theorem exists_rule_of_mem_findings {finding : Finding}
    (h : finding ∈ (ofRules rules computeFixes source).findings) :
    ∃ rank rule, rules[rank]? = some rule ∧ finding.reporter = some (rank, rule.info.kind) ∧
      (rule.desk source computeFixes).Vouches finding.diagnostic := by
  rw [findings_ofRules] at h
  obtain ⟨entry, hEntry, rfl⟩ := List.mem_map.mp h
  rw [List.mem_mergeSort] at hEntry
  obtain ⟨⟨rule, rank⟩, hRule, hEntry⟩ := List.mem_flatMap.mp hEntry
  obtain ⟨filed, hFiled, rfl⟩ := List.mem_map.mp hEntry
  exact ⟨rank, rule, List.mem_zipIdx_iff_getElem?.mp hRule, rfl, rule.vouches_of_mem_log hFiled⟩

end Pass

end EcmaLint
