import EcmaLint.Proofs.Except
import EcmaLint.Proofs.Lint.Independence
import EcmaLint.Proofs.Lint.Pass
import EcmaLint.Proofs.Lint.Proposals
import EcmaLint.Proofs.Selector.Asked
import EcmaLint.Proofs.Tree.Traversal

/-! What a rule remembers in a pass. A rule whose reports all pass their checks is never stopped, so
what it remembers is what its listeners make of the visits, and what is filed for it is what they
report.

What a rule finds in a pass. If the reports of a rule all pass their checks, the findings of the
pass that are attributed to it are its reports, one finding for each of them. -/
namespace EcmaLint

section

namespace Filing

variable {α β : Type}

/-- An action gives a result, whatever was written before. -/
def Succeeds (action : Filing α) : Prop :=
  ∀ log, ∃ value later, outcome action log = (.ok value, later)

theorem Succeeds.pure (value : α) : Succeeds (Pure.pure value) := fun log => ⟨value, log, rfl⟩

theorem Succeeds.modify (change : Log → Log) : Succeeds (modify change) :=
  fun log => ⟨(), change log, rfl⟩

theorem Succeeds.bind {action : Filing α} {next : α → Filing β} (h : Succeeds action)
    (hNext : ∀ value, Succeeds (next value)) : Succeeds (action >>= next) := by
  intro log
  obtain ⟨value, between, hAction⟩ := h log
  obtain ⟨result, later, hResult⟩ := hNext value between
  exact ⟨result, later, outcome_bind_eq_ok_iff.mpr ⟨value, between, hAction, hResult⟩⟩

/-- A check that is passed, and the action behind it. -/
theorem Succeeds.unless {condition : Prop} [Decidable condition] {cause : RuleError}
    {next : Unit → Filing α} (hPassed : ¬condition) (h : Succeeds (next ())) :
    Succeeds (if condition then MonadExcept.throw cause >>= next else next ()) := by
  rwa [if_neg hPassed]

end Filing

open Filing

namespace Desk

/-- A report that passes every check: its message is declared, its fixes are declared and too few to
overlap, and it makes no suggestions. -/
structure Accepts (desk : Desk) (report : Report) : Prop where
  declared : (desk.info.template? report.messageId).isSome
  fixable : report.fixes.isSome → desk.info.fixable.isSome
  single : ∀ fixes ∈ report.fixes, fixes.length ≤ 1
  suggestions_eq : report.suggestions = []

variable {desk : Desk}

theorem succeeds_joinFixes {fixes : List Fix} (h : fixes.length ≤ 1) :
    Succeeds (desk.joinFixes fixes) := by
  unfold joinFixes
  split
  case isTrue => exact .pure _
  case isFalse hNonempty =>
    split
    case h_1 => exact Succeeds.bind (.modify _) fun _ => .pure _
    case h_2 =>
      obtain ⟨fix, rfl⟩ : ∃ fix, fixes = [fix] := by
        refine List.length_eq_one_iff.mp (Nat.le_antisymm h ?_)
        exact List.length_pos_iff.mpr fun hNil => hNonempty (by rw [hNil]; rfl)
      exact .pure _

theorem Accepts.succeeds_diagnose {report : Report} (h : desk.Accepts report) :
    Succeeds (desk.diagnose report) := by
  obtain ⟨template, hTemplate⟩ := Option.isSome_iff_exists.mp h.declared
  have hFixable : ¬(report.fixes.isSome && desk.info.fixable.isNone) = true := by
    intro hRefused
    obtain ⟨hFixes, hNone⟩ := Bool.and_eq_true_iff.mp hRefused
    simpa [Option.isNone_iff_eq_none.mp hNone] using h.fixable hFixes
  have hMain : Succeeds (desk.mainFix report.fixes) := by
    have hSingle := h.single
    cases hFixes : report.fixes with
    | none => exact .pure _
    | some fixes =>
        change Succeeds (desk.wantedFix fixes)
        unfold wantedFix
        split
        · exact succeeds_joinFixes (hSingle fixes hFixes)
        · exact .pure _
  have hDeclared : Succeeds (desk.template report.messageId) := by
    unfold Desk.template
    rw [hTemplate]
    exact .pure _
  unfold diagnose
  refine hDeclared.bind fun _ => .unless hFixable (.unless ?_ (hMain.bind fun _ => ?_))
  · simp [h.suggestions_eq]
  · rw [h.suggestions_eq]
    exact Succeeds.bind (.pure _) fun _ => .pure _

/-- A report that is accepted leads to one entry. -/
theorem Accepts.exists_records {report : Report} (h : desk.Accepts report)
    (specificity : Specificity) (log : Log) :
    ∃ later diagnostic, outcome (desk.file specificity report) log = (.ok (), later) ∧
      desk.Records specificity report log later diagnostic := by
  obtain ⟨_, later, hFile⟩ := h.succeeds_diagnose.bind (fun _ => .modify _) log
  obtain ⟨diagnostic, hRecords⟩ := records_of_file_eq_ok hFile
  exact ⟨later, diagnostic, hFile, hRecords⟩

/-- An entry says what a report says. If it carries a fix, that is the one fix of the report. -/
structure Files (report : Report) (filed : Filed) : Prop where
  messageId_eq : filed.diagnostic.messageId = some report.messageId
  span_eq : filed.diagnostic.span = report.span
  fixes_eq : ∀ fix ∈ filed.diagnostic.fix, report.fixes = some [fix]

theorem Accepts.files {report : Report} (h : desk.Accepts report) {specificity : Specificity}
    {log later : Log} {diagnostic : Diagnostic}
    (hRecords : desk.Records specificity report log later diagnostic) :
    Files report ⟨diagnostic, specificity⟩ where
  messageId_eq := hRecords.messageId_eq
  span_eq := hRecords.span_eq
  fixes_eq := by
    intro fix hFix
    cases hFixes : report.fixes with
    | none => cases (hRecords.fix_of_none hFixes).symm.trans hFix
    | some fixes =>
        have hComes := hRecords.fix_of_some fixes hFixes
        rw [Option.mem_def.mp hFix] at hComes
        cases hComes with
        | merged hKeeps hMerge =>
            obtain ⟨-, hNonempty, -⟩ := keeps_iff.mp hKeeps
            obtain ⟨only, rfl⟩ : ∃ only, fixes = [only] :=
              List.length_eq_one_iff.mp (Nat.le_antisymm (h.single fixes hFixes)
                (List.length_pos_iff.mpr hNonempty))
            obtain rfl : only = fix := Except.ok.inj hMerge
            rfl

theorem exists_report_of_mem {reports : List Report} {entries : List Filed}
    (h : List.Forall₂ Files reports entries) {filed : Filed} (hFiled : filed ∈ entries) :
    ∃ report ∈ reports, Files report filed := by
  induction h with
  | nil => cases hFiled
  | @cons report _ _ _ hFirst _ ih =>
      rcases List.mem_cons.mp hFiled with rfl | hRest
      · exact ⟨report, List.mem_cons_self, hFirst⟩
      · obtain ⟨other, hOther, hFiles⟩ := ih hRest
        exact ⟨other, List.mem_cons_of_mem _ hOther, hFiles⟩

/-- Reports that are all accepted lead to one entry each. -/
theorem exists_of_forall_accepts {Memory : Type} {reports : List Report}
    (h : ∀ report ∈ reports, desk.Accepts report) (specificity : Specificity) (memory : Memory)
    (log : Log) :
    ∃ later entries,
      desk.follow specificity (.ofReports memory none reports) log = ((memory, none), later) ∧
        later.filed = log.filed ++ entries ∧ List.Forall₂ Files reports entries := by
  induction reports generalizing log with
  | nil => exact ⟨log, [], rfl, by simp, .nil⟩
  | cons report rest ih =>
      obtain ⟨hReport, hRest⟩ := List.forall_mem_cons.mp h
      obtain ⟨between, diagnostic, hFile, hRecords⟩ := hReport.exists_records specificity log
      obtain ⟨later, entries, hAll, hFiled, hEntries⟩ := ih hRest between
      unfold outcome at hFile
      refine ⟨later, ⟨diagnostic, specificity⟩ :: entries, ?_, ?_, .cons ?_ hEntries⟩
      · rw [Reaction.ofReports, follow, hFile]
        exact hAll
      · rw [hFiled, hRecords.filed_eq, List.append_assoc, List.singleton_append]
      · exact hReport.files hRecords

end Desk

namespace Reaction

variable {Memory : Type}

/-- The reports of a listener, if none of them is refused. -/
def reports : Reaction Memory → List Report
  | .done _ _ => []
  | .report first next => first :: (next ⟨true, .ok ()⟩).reports

/-- What a listener remembers, if none of its reports is refused. -/
def memory : Reaction Memory → Memory
  | .done memory _ => memory
  | .report _ next => (next ⟨true, .ok ()⟩).memory

@[simp]
theorem reports_done (memory : Memory) (failure : Option RuleError) :
    (done memory failure).reports = [] := rfl

@[simp]
theorem memory_done (memory : Memory) (failure : Option RuleError) :
    (done memory failure).memory = memory := rfl

@[simp]
theorem reports_ofReports (memory : Memory) (failure : Option RuleError) (reports : List Report) :
    (ofReports memory failure reports).reports = reports := by
  induction reports with
  | nil => rfl
  | cons first rest ih => rw [ofReports, Reaction.reports, ih]

@[simp]
theorem memory_ofReports (memory : Memory) (failure : Option RuleError) (reports : List Report) :
    (ofReports memory failure reports).memory = memory := by
  induction reports with
  | nil => rfl
  | cons first rest ih => rw [ofReports, Reaction.memory, ih]

/-- A listener that makes reports, all of them accepted, and does not fail. -/
def IsAccepted (desk : Desk) (reaction : Reaction Memory) : Prop :=
  ∃ memory reports, reaction = ofReports memory none reports ∧
    ∀ report ∈ reports, desk.Accepts report

end Reaction

namespace Progress

variable {Memory : Type}

/-- What listeners report that are called one after the other, and what is remembered then. -/
def told : List (Memory → Reaction Memory) → Memory → List Report × Memory
  | [], memory => ([], memory)
  | react :: rest, memory =>
      let (reports, last) := told rest (react memory).memory
      ((react memory).reports ++ reports, last)

/-- How listeners react at a place. -/
def reactions (source : SourceCode) (place : Place) (listeners : List (ActiveListener Memory)) :
    List (Memory → Reaction Memory) :=
  listeners.map fun listener => listener.react source place

/-- A listener that never fails, with reports that are all accepted. -/
def IsAccepted (desk : Desk) (listener : ActiveListener Memory) : Prop :=
  ∀ place memory, (listener.react desk.source place memory).IsAccepted desk

theorem exists_callAll {desk : Desk} {listeners : List (ActiveListener Memory)}
    (h : ∀ listener ∈ listeners, IsAccepted desk listener) (place : Place) (memory : Memory)
    (log : Log) :
    ∃ later entries, (callAll desk place listeners ⟨memory, log, false⟩).1 =
        ⟨(told (reactions desk.source place listeners) memory).2, later, false⟩ ∧
      later.filed = log.filed ++ entries ∧
      List.Forall₂ Desk.Files (told (reactions desk.source place listeners) memory).1 entries := by
  induction listeners generalizing memory log with
  | nil => exact ⟨log, [], rfl, by simp, .nil⟩
  | cons listener rest ih =>
      obtain ⟨hListener, hRest⟩ := List.forall_mem_cons.mp h
      obtain ⟨next, reports, hReaction, hReports⟩ := hListener place memory
      obtain ⟨between, first, hFollow, hFirst, hFilesFirst⟩ :=
        Desk.exists_of_forall_accepts hReports listener.selector.specificity next log
      obtain ⟨later, others, hCall, hFiled, hFiles⟩ := ih hRest next between
      rw [← hReaction] at hFollow
      have hTold : told (reactions desk.source place (listener :: rest)) memory =
          (reports ++ (told (reactions desk.source place rest) next).1,
            (told (reactions desk.source place rest) next).2) := by
        simp only [reactions, List.map_cons, told, hReaction, Reaction.reports_ofReports,
          Reaction.memory_ofReports]
      refine ⟨later, first ++ others, ?_, ?_, ?_⟩
      · rw [callAll_cons_of_done hFollow, hCall, hTold]
      · rw [hFiled, hFirst, List.append_assoc]
      · rw [hTold]
        exact List.rel_append hFilesFirst hFiles

/-- What a rule makes of a visit, if nothing stops it. -/
def toldAt (source : SourceCode) (listeners : List (ActiveListener Memory)) (visit : Visit)
    (memory : Memory) : List Report × Memory :=
  told (reactions source visit.place (listeners.filter (concerns visit))) memory

/-- What a rule remembers after some visits, if nothing stops it. -/
def remembered (source : SourceCode) (listeners : List (ActiveListener Memory))
    (visits : List Visit) (memory : Memory) : Memory :=
  visits.foldl (fun memory visit => (toldAt source listeners visit memory).2) memory

/-- A rule after some visits. -/
def after (desk : Desk) (listeners : List (ActiveListener Memory)) (visits : List Visit)
    (progress : Progress Memory) : Progress Memory :=
  visits.foldl (fun progress visit => (progress.hear desk listeners visit).1) progress

variable {desk : Desk} {listeners : List (ActiveListener Memory)}

theorem after_concat (visits : List Visit) (visit : Visit) (progress : Progress Memory) :
    progress.after desk listeners (visits ++ [visit]) =
      ((progress.after desk listeners visits).hear desk listeners visit).1 := by
  rw [after, List.foldl_concat, after]

theorem exists_hear (h : ∀ listener ∈ listeners, IsAccepted desk listener) (visit : Visit)
    {progress : Progress Memory} (hGoing : progress.isStopped = false) :
    ∃ later entries, (progress.hear desk listeners visit).1 =
        ⟨(toldAt desk.source listeners visit progress.memory).2, later, false⟩ ∧
      later.filed = progress.log.filed ++ entries ∧
      List.Forall₂ Desk.Files (toldAt desk.source listeners visit progress.memory).1 entries := by
  obtain ⟨memory, log, isStopped⟩ := progress
  obtain rfl : isStopped = false := hGoing
  exact exists_callAll (fun listener hListener => h listener (List.mem_of_mem_filter hListener))
    visit.place memory log

/-- Nothing stops a rule whose reports are all accepted. -/
theorem after_of_isAccepted (h : ∀ listener ∈ listeners, IsAccepted desk listener)
    (visits : List Visit) {progress : Progress Memory} (hGoing : progress.isStopped = false) :
    (progress.after desk listeners visits).isStopped = false ∧
      (progress.after desk listeners visits).memory =
        remembered desk.source listeners visits progress.memory := by
  induction visits generalizing progress with
  | nil => exact ⟨hGoing, rfl⟩
  | cons visit later ih =>
      obtain ⟨log, entries, hHear, -⟩ := exists_hear h visit hGoing
      rw [after, List.foldl_cons, hHear]
      exact ih rfl

end Progress

namespace Listener

open Progress

variable {Memory : Type}

/-- A key that is the plain form of a kind with some attributes, with the suffix for its phase. -/
structure Names (key : String) (phase : Phase) (kind : NodeKind) (attributes : List Attribute) :
    Prop where
  phase_eq : (splitKey key).2 = phase
  plain : Selector.Printer.render? '\'' [⟨⟨some kind, attributes⟩, []⟩] = some (splitKey key).1
  writable : Selector.IsWritableCompound ⟨some kind, attributes⟩

/-- Whether a listener is called at a visit. -/
def hears [RegexEngine] (visit : Visit) (listener : Listener Memory) : Bool :=
  match listener.activate with
  | .ok active => concerns visit active
  | .error _ => false

theorem hears_eq [RegexEngine] {key : String} {selector : Selector}
    (h : Selector.parse (splitKey key).1 = .ok selector)
    (react : SourceCode → Place → Memory → Reaction Memory) (visit : Visit) :
    hears visit ⟨key, react⟩ = ((splitKey key).2 == visit.phase && selector.picks visit.place) := by
  unfold hears activate
  generalize splitKey key = split at h ⊢
  obtain ⟨pattern, ending⟩ := split
  simp only [h]
  rfl

theorem Names.hears_iff [RegexEngine] {key : String} {phase : Phase} {kind : NodeKind}
    {attributes : List Attribute} (h : Names key phase kind attributes)
    (react : SourceCode → Place → Memory → Reaction Memory) (visit : Visit) :
    hears visit ⟨key, react⟩ = true ↔ visit.phase = phase ∧ visit.place.kind = kind ∧
      ∀ tested ∈ attributes, tested.holds visit.place.node = true := by
  have hWritable : ∀ complex ∈ [(⟨⟨some kind, attributes⟩, []⟩ : Complex)],
      Selector.IsWritable complex := by
    simpa [Selector.IsWritable, Complex.compounds] using h.writable
  have hParse := Selector.parse_of_render? (.inl rfl) (List.cons_ne_nil _ _) hWritable h.plain
  rw [hears_eq hParse, Bool.and_eq_true, Selector.picks_single_iff, beq_iff_eq, h.phase_eq, eq_comm]

theorem hears_of_activate [RegexEngine] {listener : Listener Memory}
    {active : ActiveListener Memory}
    (h : listener.activate = .ok active) (visit : Visit) :
    hears visit listener = concerns visit active := by
  unfold hears
  generalize listener.activate = result at h ⊢
  rw [h]

/-- The listeners of a rule that a visit concerns are those that are called at it. -/
theorem reactions_filter [RegexEngine] {created : List (Listener Memory)}
    {listeners : List (ActiveListener Memory)} (h : created.mapM activate = .ok listeners)
    (source : SourceCode) (visit : Visit) :
    reactions source visit.place (listeners.filter (concerns visit)) =
      (created.filter (hears visit)).map fun listener => listener.react source visit.place := by
  have hEach := mapM_eq_ok_iff.mp h
  clear h
  induction hEach with
  | nil => rfl
  | @cons listener active _ _ hActive _ ih =>
      rw [List.filter_cons, List.filter_cons, hears_of_activate hActive]
      split
      · rw [reactions, List.map_cons, List.map_cons, ← reactions, ih, react_of_activate hActive]
      · exact ih

end Listener

/-- A rule keeps its listeners, so it is what it remembers and what was filed that changes. -/
theorem Runner.after_mk (source : SourceCode) (computeFixes : Bool) (visits : List Visit)
    (rule : ActiveRule) (progress : Progress rule.configured.rule.Memory) :
    Runner.after source computeFixes visits ⟨rule, progress⟩ =
      ⟨rule, progress.after (rule.desk source computeFixes) rule.listeners visits⟩ := by
  induction visits generalizing progress with
  | nil => rfl
  | cons visit later ih => exact ih _

/-- A pass of some rules after some visits. -/
def PassState.after (rules : List ActiveRule) (source : SourceCode) (computeFixes : Bool)
    (visits : List Visit) : PassState :=
  visits.foldl (PassState.hear source computeFixes) ⟨rules.map Runner.start, []⟩

/-- A rule of a pass has heard of the visits, whatever the other rules are. -/
theorem PassState.getElem?_runners_after {rules : List ActiveRule} {rank : Nat} {rule : ActiveRule}
    (h : rules[rank]? = some rule) (source : SourceCode) (computeFixes : Bool)
    (visits : List Visit) :
    (after rules source computeFixes visits).runners[rank]? = some ⟨rule,
      Progress.after (rule.desk source computeFixes) rule.listeners visits
        ⟨rule.configured.rule.initial, {}, false⟩⟩ := by
  rw [after, runners_foldl_hear, List.getElem?_map, List.getElem?_map, h]
  exact congrArg some (Runner.after_mk source computeFixes visits rule _)

end

/-- What is said at the events of a place, if nothing is said on leaving. -/
theorem Place.flatMap_events {α : Type} {said : Visit → List α}
    (h : ∀ place, said ⟨.exit, place⟩ = []) (place : Place) :
    place.events.flatMap said = place.descendants.flatMap fun place => said ⟨.enter, place⟩ := by
  induction place using Place.induction with
  | step place ih =>
      rw [events_eq, descendants_eq, List.flatMap_cons, List.flatMap_cons, List.flatMap_append,
        List.flatMap_singleton, h, List.append_nil, List.flatMap_assoc, List.flatMap_assoc,
        List.flatMap_congr ih]

namespace Progress

variable {Memory : Type}

/-- What a rule reports at some visits, if nothing stops it. -/
def reportsOver (source : SourceCode) (listeners : List (ActiveListener Memory)) :
    List Visit → Memory → List Report
  | [], _ => []
  | visit :: later, memory =>
      (toldAt source listeners visit memory).1 ++
        reportsOver source listeners later (toldAt source listeners visit memory).2

/-- A rule whose reports are all accepted files each of them. -/
theorem exists_filed_after {desk : Desk} {listeners : List (ActiveListener Memory)}
    (h : ∀ listener ∈ listeners, IsAccepted desk listener) (visits : List Visit)
    {progress : Progress Memory} (hGoing : progress.isStopped = false) :
    ∃ entries, (progress.after desk listeners visits).log.filed = progress.log.filed ++ entries ∧
      List.Forall₂ Desk.Files (reportsOver desk.source listeners visits progress.memory)
        entries := by
  induction visits generalizing progress with
  | nil => exact ⟨[], (List.append_nil _).symm, .nil⟩
  | cons visit later ih =>
      obtain ⟨log, entries, hHear, hFiled, hFiles⟩ := exists_hear h visit hGoing
      rw [after, List.foldl_cons, hHear]
      obtain ⟨others, hOthers, hRest⟩ := @ih ⟨_, log, false⟩ rfl
      refine ⟨entries ++ others, ?_, List.rel_append hFiles hRest⟩
      rw [← after, hOthers, hFiled, List.append_assoc]

/-- What is reported at some visits is reported at one of them. -/
theorem exists_visit_of_mem_reportsOver {source : SourceCode}
    {listeners : List (ActiveListener Memory)} {visits : List Visit} {memory : Memory}
    {report : Report} (h : report ∈ reportsOver source listeners visits memory) :
    ∃ visit ∈ visits, ∃ memory, report ∈ (toldAt source listeners visit memory).1 := by
  induction visits generalizing memory with
  | nil => cases h
  | cons visit later ih =>
      rcases List.mem_append.mp h with hFirst | hLater
      · exact ⟨visit, List.mem_cons_self, memory, hFirst⟩
      · obtain ⟨other, hOther, hReport⟩ := ih hLater
        exact ⟨other, List.mem_cons_of_mem _ hOther, hReport⟩

/-- Without a memory what is reported at a visit depends on nothing else. -/
theorem reportsOver_unit (source : SourceCode) (listeners : List (ActiveListener Unit))
    (visits : List Visit) :
    reportsOver source listeners visits () =
      visits.flatMap fun visit => (toldAt source listeners visit ()).1 := by
  induction visits with
  | nil => rfl
  | cons visit later ih => rw [reportsOver, ih, List.flatMap_cons]

end Progress

namespace Pass

/-- The findings of a pass that are attributed to the rule of some rank. -/
def findingsOf (pass : Pass) (rank : Nat) : List Finding :=
  pass.findings.filter fun finding => finding.reporter.any fun reporter => reporter.1 == rank

/-- Of what the rules of some ranks file, that of one rank is what one rule files. -/
theorem filter_rank_flatMap (filed : ActiveRule → List Filed) (rules : List ActiveRule)
    (first rank : Nat) :
    ((rules.zipIdx first).flatMap fun (rule, rank) =>
        (filed rule).map (Reported.mk rank rule.info.kind)).filter
          (fun entry => entry.rank == first + rank) =
      (rules[rank]?.map fun rule =>
        (filed rule).map (Reported.mk (first + rank) rule.info.kind)).getD [] := by
  induction rules generalizing first rank with
  | nil => rfl
  | cons rule rest ih =>
      rw [List.zipIdx_cons, List.flatMap_cons, List.filter_append]
      cases rank with
      | zero =>
          have hRest : ((rest.zipIdx (first + 1)).flatMap fun (rule, rank) =>
              (filed rule).map (Reported.mk rank rule.info.kind)).filter
                (fun entry => entry.rank == first + 0) = [] := by
            refine List.filter_eq_nil_iff.mpr fun entry hEntry => ?_
            obtain ⟨⟨other, later⟩, hOther, hEntry⟩ := List.mem_flatMap.mp hEntry
            obtain ⟨_, -, rfl⟩ := List.mem_map.mp hEntry
            have hLe := List.le_snd_of_mem_zipIdx hOther
            simp only [beq_iff_eq]
            omega
          rw [hRest, List.append_nil, List.filter_eq_self.mpr (by simp)]
          rfl
      | succ rank =>
          have hFirst : ((filed rule).map (Reported.mk first rule.info.kind)).filter
              (fun entry => entry.rank == first + (rank + 1)) = [] := by
            refine List.filter_eq_nil_iff.mpr fun entry hEntry => ?_
            obtain ⟨_, -, rfl⟩ := List.mem_map.mp hEntry
            simp
          have hRest := ih (first + 1) rank
          rw [Nat.add_right_comm, Nat.add_assoc] at hRest
          rw [hFirst, List.nil_append, hRest, List.getElem?_cons_succ]

/-- A rule finds what it files. -/
theorem perm_findingsOf {rules : List ActiveRule} {rank : Nat} {rule : ActiveRule}
    (h : rules[rank]? = some rule) (computeFixes : Bool) (source : SourceCode) :
    (((ofRules rules computeFixes source).findingsOf rank).map Finding.diagnostic).Perm
      ((rule.log source computeFixes).filed.map Filed.diagnostic) := by
  have hReported : (reported rules computeFixes source).filter (fun entry => entry.rank == rank) =
      (rule.log source computeFixes).filed.map (Reported.mk rank rule.info.kind) := by
    have hFilter :=
      filter_rank_flatMap (fun rule => (rule.log source computeFixes).filed) rules 0 rank
    rw [h, Nat.zero_add] at hFilter
    exact hFilter
  rw [findingsOf, findings_ofRules, List.filter_map, List.map_map]
  refine (((List.mergeSort_perm _ _).filter _).map _).trans (.of_eq ?_)
  change ((reported rules computeFixes source).filter fun entry => entry.rank == rank).map
    (fun entry => entry.filed.diagnostic) = _
  rw [hReported, List.map_map]
  rfl

theorem map_eq_of_files {reports : List Report} {entries : List Filed}
    (h : List.Forall₂ Desk.Files reports entries) :
    entries.map (fun filed => (filed.diagnostic.messageId, filed.diagnostic.span)) =
      reports.map fun report => (some report.messageId, report.span) := by
  induction h with
  | nil => rfl
  | cons hFirst _ ih =>
      rw [List.map_cons, List.map_cons, hFirst.messageId_eq, hFirst.span_eq, ih]

/-- If the reports of a rule all pass their checks, the rule files them in turn. -/
theorem forall₂_filed_log {rule : ActiveRule} {computeFixes : Bool} {source : SourceCode}
    (hAccepted : ∀ listener ∈ rule.listeners,
      Progress.IsAccepted (rule.desk source computeFixes) listener) :
    List.Forall₂ Desk.Files (Progress.reportsOver source rule.listeners source.root.visits
      rule.configured.rule.initial) (rule.log source computeFixes).filed := by
  obtain ⟨entries, hFiled, hFiles⟩ := Progress.exists_filed_after hAccepted source.root.visits
    (show (⟨rule.configured.rule.initial, {}, false⟩ : Progress _).isStopped = false from rfl)
  have hLog : (rule.log source computeFixes).filed = entries := by
    rw [ActiveRule.log, Runner.start, Runner.after_mk, hFiled]
    rfl
  exact hLog ▸ hFiles

/-- A finding of a rule is one of its reports. -/
theorem exists_report_of_mem_findingsOf {rules : List ActiveRule} {rank : Nat} {rule : ActiveRule}
    (h : rules[rank]? = some rule) {computeFixes : Bool} {source : SourceCode}
    (hAccepted : ∀ listener ∈ rule.listeners,
      Progress.IsAccepted (rule.desk source computeFixes) listener) {finding : Finding}
    (hFinding : finding ∈ (ofRules rules computeFixes source).findingsOf rank) :
    ∃ visit ∈ source.root.visits, ∃ memory,
      ∃ report ∈ (Progress.toldAt source rule.listeners visit memory).1,
        ∃ specificity, Desk.Files report ⟨finding.diagnostic, specificity⟩ := by
  obtain ⟨⟨diagnostic, specificity⟩, hFiled, hSame⟩ := List.mem_map.mp
    ((perm_findingsOf h computeFixes source).subset (List.mem_map_of_mem hFinding))
  obtain rfl : diagnostic = finding.diagnostic := hSame
  obtain ⟨report, hReport, hFiles⟩ := Desk.exists_report_of_mem (forall₂_filed_log hAccepted) hFiled
  obtain ⟨visit, hVisit, memory, hTold⟩ := Progress.exists_visit_of_mem_reportsOver hReport
  exact ⟨visit, hVisit, memory, report, hTold, specificity, hFiles⟩

/-- If the reports of a rule all pass their checks, there is one finding for each of them. -/
theorem perm_findingsOf_reportsOver {rules : List ActiveRule} {rank : Nat} {rule : ActiveRule}
    (h : rules[rank]? = some rule) {computeFixes : Bool} {source : SourceCode}
    (hAccepted : ∀ listener ∈ rule.listeners,
      Progress.IsAccepted (rule.desk source computeFixes) listener) :
    (((ofRules rules computeFixes source).findingsOf rank).map fun finding =>
        (finding.diagnostic.messageId, finding.diagnostic.span)).Perm
      ((Progress.reportsOver source rule.listeners source.root.visits
        rule.configured.rule.initial).map fun report => (some report.messageId, report.span)) := by
  have hPerm := (perm_findingsOf h computeFixes source).map
    fun diagnostic => (diagnostic.messageId, diagnostic.span)
  rw [List.map_map, List.map_map] at hPerm
  exact hPerm.trans (.of_eq (map_eq_of_files (forall₂_filed_log hAccepted)))

end Pass

end EcmaLint
