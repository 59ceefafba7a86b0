import EcmaLint.Proofs.Lint.FixRun
import EcmaLint.Proofs.Lint.Setup
import EcmaLint.Proofs.Order.StableSort
import EcmaLint.Rules.AsyncExecutor
import EcmaLint.Rules.Script

/-! Rules do not interfere. All rules hear of a visit before any of them hears of the next one,
and their diagnostics are sorted together, but nothing of this shows: what a linter says is put
together from what each of its rules says alone, however many of them fail. -/
namespace EcmaLint

namespace Diagnostic

/-- Whether a diagnostic starts no later than another one. -/
def startsBefore (a b : Diagnostic) : Bool := a.span.start ≤ b.span.start

theorem sortOrder_startsBefore : SortOrder startsBefore := by
  refine ⟨fun a b c => ?_, fun a b => ?_⟩
  · simp only [startsBefore, decide_eq_true_eq]
    exact Nat.le_trans
  · simp only [startsBefore, Bool.or_eq_true, decide_eq_true_eq]
    exact Nat.le_total _ _

end Diagnostic

theorem Specificity.le_iff {a b : Specificity} :
    a.le b = true ↔
      a.attributes < b.attributes ∨ (a.attributes = b.attributes ∧ a.kinds ≤ b.kinds) := by
  simp [le]

/-- The order among the diagnostics of one rule. -/
def Filed.le (a b : Filed) : Bool :=
  a.diagnostic.span.start < b.diagnostic.span.start ||
    (a.diagnostic.span.start == b.diagnostic.span.start && a.specificity.le b.specificity)

namespace Reported

theorem le_iff {a b : Reported} :
    a.le b = true ↔ a.filed.diagnostic.span.start < b.filed.diagnostic.span.start ∨
      (a.filed.diagnostic.span.start = b.filed.diagnostic.span.start ∧
        (a.rank < b.rank ∨
          (a.rank = b.rank ∧ a.filed.specificity.le b.filed.specificity = true))) := by
  simp [le]

theorem sortOrder_le : SortOrder le := by
  refine ⟨fun a b c => ?_, fun a b => ?_⟩
  · simp only [le_iff, Specificity.le_iff]
    omega
  · simp only [Bool.or_eq_true, le_iff, Specificity.le_iff]
    omega

/-- The order of diagnostics by where they start, whichever rule reported them. -/
def startsBefore (a b : Reported) : Bool :=
  a.filed.diagnostic.startsBefore b.filed.diagnostic

theorem sortOrder_startsBefore : SortOrder startsBefore :=
  Diagnostic.sortOrder_startsBefore.comap fun entry : Reported => entry.filed.diagnostic

theorem startsBefore_of_le {a b : Reported} (h : a.le b = true) : a.startsBefore b = true := by
  rw [startsBefore, Diagnostic.startsBefore, decide_eq_true_eq]
  rcases le_iff.mp h with hLt | ⟨hEq, -⟩ <;> omega

/-- Between diagnostics of one rule its rank decides nothing. -/
theorem le_mk (rank : Nat) (kind : RuleKind) (a b : Filed) :
    le ⟨rank, kind, a⟩ ⟨rank, kind, b⟩ = a.le b := by
  simp [le, Filed.le]

/-- Of diagnostics that start at the same place, those of an earlier rule come first. -/
theorem le_of_rank_lt {a b : Reported} (h : a.rank < b.rank)
    (hTie : SortOrder.ties startsBefore a b = true) : a.le b = true := by
  have hStart := SortOrder.ties_iff.mp hTie
  simp only [startsBefore, Diagnostic.startsBefore, decide_eq_true_eq] at hStart
  exact le_iff.mpr (Or.inr ⟨by omega, Or.inl h⟩)

/-- The diagnostics of one rule are sorted as if there were no ranks. -/
theorem mergeSort_map_mk (rank : Nat) (kind : RuleKind) (filed : List Filed) :
    (filed.map (Reported.mk rank kind)).mergeSort le =
      (filed.mergeSort Filed.le).map (Reported.mk rank kind) :=
  (List.map_mergeSort fun a _ b _ => (le_mk rank kind a b).symm).symm

end Reported

namespace Filed

theorem sortOrder_le : SortOrder le := by
  have hReported := Reported.sortOrder_le.comap (Reported.mk 0 .problem)
  simpa only [Reported.le_mk] using hReported

theorem startsBefore_of_le {a b : Filed} (h : a.le b = true) :
    a.diagnostic.startsBefore b.diagnostic = true := by
  rw [← Reported.le_mk 0 .problem] at h
  exact Reported.startsBefore_of_le h

end Filed

namespace ActiveRule

/-- What a rule says of a program when no other rule is there. -/
def diagnostics (rule : ActiveRule) (source : SourceCode) (computeFixes : Bool) :
    List Diagnostic :=
  ((rule.log source computeFixes).filed.mergeSort Filed.le).map Filed.diagnostic

theorem mergeSort_diagnostics (rule : ActiveRule) (source : SourceCode) (computeFixes : Bool) :
    (rule.diagnostics source computeFixes).mergeSort Diagnostic.startsBefore =
      rule.diagnostics source computeFixes := by
  refine List.mergeSort_of_pairwise (List.pairwise_map.mpr ?_)
  have hSorted := List.pairwise_mergeSort Filed.sortOrder_le.trans Filed.sortOrder_le.total
    (rule.log source computeFixes).filed
  exact hSorted.imp Filed.startsBefore_of_le

end ActiveRule

namespace Pass

variable (rules : List ActiveRule) (computeFixes : Bool) (source : SourceCode)

/-- The ranks of rules increase. -/
theorem pairwise_zipIdx : rules.zipIdx.Pairwise fun x y => x.2 < y.2 := by
  rw [List.pairwise_iff_getElem]
  intro i j hi hj hLt
  simpa using hLt

/-- The diagnostics of a pass are those that the rules make alone, sorted by where they start.
Where two of them start at the same place they keep the order of the rules. -/
theorem diagnostics_ofRules :
    (ofRules rules computeFixes source).findings.map Finding.diagnostic =
      (rules.flatMap fun rule => rule.diagnostics source computeFixes).mergeSort
        Diagnostic.startsBefore := by
  have hSort : (reported rules computeFixes source).mergeSort Reported.le =
      (rules.zipIdx.flatMap fun x =>
        ((x.1.log source computeFixes).filed.map
          (Reported.mk x.2 x.1.info.kind)).mergeSort Reported.le).mergeSort
            Reported.startsBefore := by
    refine Reported.sortOrder_le.mergeSort_flatMap Reported.sortOrder_startsBefore
      (fun _ _ => Reported.startsBefore_of_le) ((pairwise_zipIdx rules).imp ?_)
    rintro ⟨first, i⟩ ⟨second, j⟩ hLt a hLeft b hRight hTie
    obtain ⟨_, -, rfl⟩ := List.mem_map.mp hLeft
    obtain ⟨_, -, rfl⟩ := List.mem_map.mp hRight
    exact Reported.le_of_rank_lt hLt hTie
  have hDiagnostic : ∀ list : List Reported,
      (list.mergeSort Reported.startsBefore).map (fun entry => entry.filed.diagnostic) =
        (list.map fun entry => entry.filed.diagnostic).mergeSort Diagnostic.startsBefore :=
    fun list => List.map_mergeSort fun _ _ _ _ => rfl
  have hBlock : ∀ x : ActiveRule × Nat,
      (((x.1.log source computeFixes).filed.map
        (Reported.mk x.2 x.1.info.kind)).mergeSort Reported.le).map
          (fun entry => entry.filed.diagnostic) = x.1.diagnostics source computeFixes := by
    intro x
    rw [Reported.mergeSort_map_mk, List.map_map]
    rfl
  rw [findings_ofRules, List.map_map, hSort]
  refine (hDiagnostic _).trans ?_
  rw [List.map_flatMap, List.flatMap_congr fun x _ => hBlock x]
  congr 1
  conv_rhs => rw [← List.zipIdx_map_fst 0 rules, List.flatMap_map]

/-- A rule that is alone in a pass says what it says among others. -/
theorem diagnostics_ofRules_singleton (rule : ActiveRule) :
    (ofRules [rule] computeFixes source).findings.map Finding.diagnostic =
      rule.diagnostics source computeFixes := by
  rw [diagnostics_ofRules, List.flatMap_singleton, ActiveRule.mergeSort_diagnostics]

theorem failures_ofRules_singleton (rule : ActiveRule) :
    (ofRules [rule] computeFixes source).failures =
      (Runner.start rule).failures source computeFixes source.root.visits := by
  rw [failures_ofRules, List.map_singleton, PassState.map_snd_attributedFailures_singleton]

variable {rules computeFixes source}

theorem mem_diagnostics_of_mem_log {rule : ActiveRule} (hRule : rule ∈ rules) {filed : Filed}
    (hFiled : filed ∈ (rule.log source computeFixes).filed) :
    filed.diagnostic ∈ (ofRules rules computeFixes source).findings.map Finding.diagnostic := by
  rw [diagnostics_ofRules, List.mem_mergeSort]
  refine List.mem_flatMap.mpr ⟨rule, hRule, List.mem_map_of_mem ?_⟩
  exact List.mem_mergeSort.mpr hFiled

end Pass

namespace Linter

/-- The rules of a linter after some visits. -/
def stateAfter (linter : Linter) (source : SourceCode) (visits : List Visit) : PassState :=
  visits.foldl (PassState.hear source linter.computeFixes) ⟨linter.rules.map Runner.start, []⟩

/-- The failures of the rules of a linter over a program, in the order in which they happen,
each with the rank of the rule that failed. -/
def attributedFailures (linter : Linter) (source : SourceCode) : List (Nat × ListenerFailure) :=
  PassState.attributedFailures source linter.computeFixes source.root.visits
    (linter.rules.map Runner.start)

/-- What a linter says of a program is put together from what other linters say, one for each
of its rules, and a failure stops the rule that fails and nothing else. -/
structure Combines (linter : Linter) (singles : List Linter) (source : SourceCode) : Prop where
  /-- The diagnostics are sorted by where they start, and otherwise keep the order of the
  rules. -/
  diagnostics_eq : (linter.verify source.text).diagnostics =
    (singles.flatMap fun single => (single.verify source.text).diagnostics).mergeSort
      Diagnostic.startsBefore
  warnings_eq : (linter.verify source.text).warnings =
    singles.flatMap fun single => (single.verify source.text).warnings
  failures_eq : (linter.verify source.text).failures =
    (linter.attributedFailures source).map Prod.snd
  /-- A failure is attributed to a rule of the name that it carries. -/
  attributed_to : ∀ entry ∈ linter.attributedFailures source,
    ∃ rule, linter.rules[entry.1]? = some rule ∧ entry.2.ruleId = rule.info.name
  failures_of : ∀ rank single, singles[rank]? = some single →
    ((linter.attributedFailures source).filter fun entry => entry.1 == rank).map Prod.snd =
      (single.verify source.text).failures
  /-- Where no other rule has its name, the failures of that name are those of a rule. -/
  failures_named : ∀ rank single rule, singles[rank]? = some single →
    linter.rules[rank]? = some rule →
    (∀ (other : Nat) namesake, linter.rules[other]? = some namesake →
      namesake.info.name = rule.info.name → other = rank) →
    ((linter.verify source.text).failures.filter fun failure =>
      failure.ruleId == rule.info.name) = (single.verify source.text).failures
  failures_le_one : ∀ single ∈ singles, (single.verify source.text).failures.length ≤ 1
  /-- What a rule has reported stays, whatever comes after. -/
  kept : ∀ heard, heard <+: source.root.visits →
    ∀ runner ∈ (linter.stateAfter source heard).runners, ∀ filed ∈ runner.progress.log.filed,
      filed.diagnostic ∈ (linter.verify source.text).diagnostics
  /-- A rule that fails at a visit is at the end of the pass where that visit left it. -/
  stopped : ∀ heard visit, heard ++ [visit] <+: source.root.visits → ∀ (rank : Nat) runner,
    (linter.stateAfter source heard).runners[rank]? = some runner →
    (runner.hear source linter.computeFixes visit).2.isSome →
      (linter.stateAfter source source.root.visits).runners[rank]? =
        some (runner.hear source linter.computeFixes visit).1

theorem runners_stateAfter (linter : Linter) (source : SourceCode) (visits : List Visit) :
    (linter.stateAfter source visits).runners =
      linter.rules.map fun rule =>
        (Runner.start rule).after source linter.computeFixes visits := by
  rw [stateAfter, PassState.runners_foldl_hear, List.map_map]
  rfl

/-- What linting a program says, in terms of the pass over it. -/
theorem verify_of_parsed {linter : Linter} {source : SourceCode}
    (h : linter.parser source.text linter.parseOptions = .ok source.parsed) :
    linter.verify source.text =
      { diagnostics := (Pass.ofRules linter.rules linter.computeFixes source).findings.map
          Finding.diagnostic
        failures := (Pass.ofRules linter.rules linter.computeFixes source).failures
        warnings := (Pass.ofRules linter.rules linter.computeFixes source).warnings } := by
  rw [verify, pass, h]

theorem exists_rule_of_mem_attributedFailures {linter : Linter} {source : SourceCode}
    {entry : Nat × ListenerFailure} (h : entry ∈ linter.attributedFailures source) :
    ∃ rule, linter.rules[entry.1]? = some rule ∧ entry.2.ruleId = rule.info.name := by
  obtain ⟨runner, hRunner, hName⟩ := PassState.exists_runner_of_mem_attributedFailures h
  rw [List.getElem?_map] at hRunner
  obtain ⟨rule, hRule, rfl⟩ := Option.map_eq_some_iff.mp hRunner
  exact ⟨rule, hRule, hName⟩

/-- The failures that carry the name of a rule, if no other rule has the name. -/
theorem filter_name_attributedFailures {linter : Linter} {source : SourceCode} {rank : Nat}
    {rule : ActiveRule} (hRule : linter.rules[rank]? = some rule)
    (hName : ∀ (other : Nat) namesake, linter.rules[other]? = some namesake →
      namesake.info.name = rule.info.name → other = rank) :
    (linter.attributedFailures source).filter (fun entry => entry.2.ruleId == rule.info.name) =
      (linter.attributedFailures source).filter fun entry => entry.1 == rank := by
  refine List.filter_congr fun entry hEntry => ?_
  obtain ⟨reporter, hReporter, hCarried⟩ := exists_rule_of_mem_attributedFailures hEntry
  rw [hCarried, Bool.eq_iff_iff, beq_iff_eq, beq_iff_eq]
  constructor
  · exact hName entry.1 reporter hReporter
  · intro hRank
    rw [hRank, hRule] at hReporter
    rw [Option.some.inj hReporter]

theorem verify_single {linter : Linter} {source : SourceCode}
    (h : linter.parser source.text linter.parseOptions = .ok source.parsed) (rule : ActiveRule) :
    ({ linter with rules := [rule] } : Linter).verify source.text =
      { diagnostics := rule.diagnostics source linter.computeFixes
        failures :=
          (Runner.start rule).failures source linter.computeFixes source.root.visits
        warnings := (rule.log source linter.computeFixes).warnings } := by
  rw [@verify_of_parsed { linter with rules := [rule] } source h,
    Pass.diagnostics_ofRules_singleton, Pass.failures_ofRules_singleton, Pass.warnings_ofRules,
    List.flatMap_singleton]

theorem failures_verify {linter : Linter} {source : SourceCode}
    (h : linter.parser source.text linter.parseOptions = .ok source.parsed) :
    (linter.verify source.text).failures = (linter.attributedFailures source).map Prod.snd := by
  rw [verify_of_parsed h, Pass.failures_ofRules]
  rfl

/-- The failures that are attributed to a rule are those that it has alone. -/
theorem filter_rank_attributedFailures {linter : Linter} {source : SourceCode}
    (h : linter.parser source.text linter.parseOptions = .ok source.parsed) {rank : Nat}
    {rule : ActiveRule} (hRule : linter.rules[rank]? = some rule) :
    ((linter.attributedFailures source).filter fun entry => entry.1 == rank).map Prod.snd =
      (({ linter with rules := [rule] } : Linter).verify source.text).failures := by
  rw [verify_single h, attributedFailures, PassState.filter_attributedFailures,
    List.getElem?_map, hRule]
  rfl

/-- What a rule has filed in the middle of a pass is said in the end. -/
theorem mem_diagnostics_of_mem_filed {linter : Linter} {source : SourceCode}
    (h : linter.parser source.text linter.parseOptions = .ok source.parsed) {heard : List Visit}
    (hHeard : heard <+: source.root.visits) {runner : Runner}
    (hRunner : runner ∈ (linter.stateAfter source heard).runners) {filed : Filed}
    (hFiled : filed ∈ runner.progress.log.filed) :
    filed.diagnostic ∈ (linter.verify source.text).diagnostics := by
  obtain ⟨later, hVisits⟩ := hHeard
  rw [runners_stateAfter] at hRunner
  obtain ⟨rule, hRule, rfl⟩ := List.mem_map.mp hRunner
  rw [verify_of_parsed h]
  apply Pass.mem_diagnostics_of_mem_log hRule
  rw [ActiveRule.log, ← hVisits, Runner.after_append]
  exact (Runner.growsTo_after later _).filed_isPrefix.subset hFiled

/-- A visit at which a rule fails is the last one that the rule hears of. -/
theorem getElem?_runners_of_failure {linter : Linter} {source : SourceCode}
    {heard : List Visit} {visit : Visit} (hHeard : heard ++ [visit] <+: source.root.visits)
    {rank : Nat} {runner : Runner}
    (hRunner : (linter.stateAfter source heard).runners[rank]? = some runner)
    (hFailure : (runner.hear source linter.computeFixes visit).2.isSome) :
    (linter.stateAfter source source.root.visits).runners[rank]? =
      some (runner.hear source linter.computeFixes visit).1 := by
  obtain ⟨later, hVisits⟩ := hHeard
  rw [runners_stateAfter, List.getElem?_map] at hRunner ⊢
  obtain ⟨rule, hRule, rfl⟩ := Option.map_eq_some_iff.mp hRunner
  rw [hRule, Option.map_some, ← hVisits, Runner.after_append, Runner.after_append]
  exact congrArg some (Runner.after_of_isStopped (Runner.isStopped_of_failure hFailure) later)

/-- A linter combines the linters for its rules with the same settings. -/
theorem combines_singles {linter : Linter} {source : SourceCode}
    (h : linter.parser source.text linter.parseOptions = .ok source.parsed) :
    linter.Combines (linter.rules.map fun rule => { linter with rules := [rule] }) source := by
  refine
    { diagnostics_eq := ?_
      warnings_eq := ?_
      failures_eq := failures_verify h
      attributed_to := fun _ => exists_rule_of_mem_attributedFailures
      failures_of := ?_
      failures_named := ?_
      failures_le_one := ?_
      kept := fun _ hHeard _ hRunner _ => mem_diagnostics_of_mem_filed h hHeard hRunner
      stopped := fun _ _ hHeard _ _ => getElem?_runners_of_failure hHeard }
  · rw [verify_of_parsed h, Pass.diagnostics_ofRules, List.flatMap_map]
    simp only [verify_single h]
  · rw [verify_of_parsed h, Pass.warnings_ofRules, List.flatMap_map]
    simp only [verify_single h]
  · intro rank single hGet
    rw [List.getElem?_map] at hGet
    obtain ⟨rule, hRule, rfl⟩ := Option.map_eq_some_iff.mp hGet
    exact filter_rank_attributedFailures h hRule
  · intro rank single rule hGet hRule hName
    rw [List.getElem?_map, hRule] at hGet
    obtain rfl := Option.some.inj hGet
    rw [failures_verify h, List.filter_map, ← filter_rank_attributedFailures h hRule,
      ← filter_name_attributedFailures hRule hName]
    rfl
  · intro single hMem
    obtain ⟨rule, -, rfl⟩ := List.mem_map.mp hMem
    rw [verify_single h]
    exact Runner.length_failures_le_one _ _

/-- The rules of a linter with the settings of another one: how it reads texts and whether it
makes fixes. -/
def under (linter settings : Linter) : Linter := { settings with rules := linter.rules }

/-- Rules do not interfere. Rules for which a linter can be set up have linters of their own,
and on every program, under any settings, the linter for all of them combines those. -/
theorem withRules_combines [RegexEngine] {rules : List ConfiguredRule} {linter : Linter}
    (hEnabled : ∀ configured ∈ rules, configured.severity.isEnabled = true)
    (hLinter : withRules rules = .ok linter) :
    ∃ singles, List.Forall₂ (fun configured single => withRules [configured] = .ok single)
        rules singles ∧
      linter.rules.map ActiveRule.configured = rules ∧
      (∀ source, linter.parser source.text linter.parseOptions = .ok source.parsed →
        linter.Combines singles source) ∧
      ∀ settings source, settings.parser source.text settings.parseOptions = .ok source.parsed →
        (linter.under settings).Combines (singles.map fun single => single.under settings)
          source := by
  refine ⟨_, exists_singles hEnabled hLinter, configured_of_withRules hEnabled hLinter, ?_, ?_⟩
  · intro source hParsed
    obtain ⟨-, active, -, rfl⟩ := (withRules_eq_ok_iff hEnabled).mp hLinter
    exact combines_singles hParsed
  · intro settings source hParsed
    rw [List.map_map]
    exact @combines_singles (linter.under settings) source hParsed

/-- A rule that fails at the first identifier. -/
def refusing : Script :=
  { info := { name := "refusing", messages := [] }
    schema := .closed
    setupFailure := none
    listeners := [("Identifier", [.fail "unexpected $NAME"])] }

/-- A rule that looks for executors is not kept from its work by one that fails. -/
theorem withRules_combines_refusing :
    ∃ linter singles source,
      withRules [⟨Rules.AsyncExecutor.rule, .error, []⟩, ⟨refusing.toRule, .warn, []⟩] =
        .ok linter ∧
      List.Forall₂ (fun configured single => withRules [configured] = .ok single)
        [⟨Rules.AsyncExecutor.rule, .error, []⟩, ⟨refusing.toRule, .warn, []⟩] singles ∧
      source.text = "new Promise(async () => \x7b\x7d)" ∧ linter.Combines singles source := by
  have hEnabled : ∀ configured ∈ ([⟨Rules.AsyncExecutor.rule, .error, []⟩,
      ⟨refusing.toRule, .warn, []⟩] : List ConfiguredRule),
      configured.severity.isEnabled = true := by
    decide
  have hChecked : ∀ configured ∈ ([⟨Rules.AsyncExecutor.rule, .error, []⟩,
      ⟨refusing.toRule, .warn, []⟩] : List ConfiguredRule), checkOptions configured = .ok () := by
    simp only [List.forall_mem_cons, List.not_mem_nil, false_imp_iff, implies_true, and_true]
    exact ⟨checkOptions_closed rfl rfl, checkOptions_closed rfl rfl⟩
  have hActive : ([⟨Rules.AsyncExecutor.rule, .error, []⟩,
      ⟨refusing.toRule, .warn, []⟩].mapM ConfiguredRule.activate).isOk = true := by
    decide +kernel
  have hParsed : (parse "new Promise(async () => \x7b\x7d)" default).isOk = true := by
    decide +kernel
  obtain ⟨active, hActive⟩ := exists_eq_ok_of_isOk hActive
  obtain ⟨parsed, hParsed⟩ := exists_eq_ok_of_isOk hParsed
  have hLinter : withRules _ = .ok { rules := active } := (withRules_eq_ok_iff hEnabled).mpr
    ⟨hChecked, active, mapM_eq_ok_iff.mp hActive, rfl⟩
  obtain ⟨singles, hSingles, -, hCombines, -⟩ := withRules_combines hEnabled hLinter
  exact ⟨_, singles, ⟨_, parsed⟩, hLinter, hSingles, rfl, hCombines ⟨_, parsed⟩ hParsed⟩

end Linter

end EcmaLint
