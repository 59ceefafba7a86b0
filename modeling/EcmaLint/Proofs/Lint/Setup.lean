import EcmaLint.Lint.Linter
import EcmaLint.Lint.Rule
import EcmaLint.Proofs.Except

/-! What the schema of a rule says of its options. The keywords of a schema are put in an
order of their own before they are checked, but a value passes just if it passes all of them,
so the order does not matter for what is allowed.

Setting up linters. Rules are checked and set up one by one, so what is set up for several
rules is what is set up for each of them. -/
namespace EcmaLint

namespace Schema

theorem keywordViolations_eq_nil_iff {list : List Keyword} {value : Json} :
    keywordViolations list value = [] ↔ ∀ keyword ∈ list, keyword.violations value = [] := by
  induction list with
  | nil => simp [keywordViolations]
  | cons keyword rest ih =>
      rw [keywordViolations, List.append_eq_nil_iff, ih, List.forall_mem_cons]

/-- A value passes a schema of members just if it passes the keyword of each member. -/
theorem exists_ofJson?_object [RegexEngine] {members : List (String × Json)}
    {entries : List (String × Entry)}
    {keywords : List (Option Keyword)} (hEntries : ofMembers? members = some entries)
    (hKeywords : (entries.mapM fun (name, entry) => keyword? entries name entry) =
      some keywords) :
    ∃ schema, ofJson? (.object members) = some schema ∧ ∀ value, violations schema value = [] ↔
      ∀ keyword, some keyword ∈ keywords → keyword.violations value = [] := by
  refine ⟨.keywords ((keywords.filterMap id).mergeSort fun a b => a.rank ≤ b.rank), ?_, ?_⟩
  · rw [ofJson?, hEntries]
    show assemble? entries = _
    rw [assemble?, hKeywords]
    rfl
  · intro value
    rw [violations, keywordViolations_eq_nil_iff]
    simp

end Schema

namespace OptionsSchema

/-- Options are accepted just if the compiled schema finds no violation in their list. -/
theorem validate_iff_of_compile [RegexEngine] {schema : OptionsSchema} {ruleId : String}
    {compiled : Schema}
    (h : schema.compile ruleId = .ok compiled) {options : List Json} :
    schema.validate ruleId options = .ok () ↔ compiled.violations (.array options) = [] := by
  rw [validate, h]
  simp only [bind, Except.bind]
  cases compiled.violations (.array options) with
  | nil => exact ⟨fun _ => rfl, fun _ => rfl⟩
  | cons violation others => exact ⟨fun h => (by cases h), fun h => (by cases h)⟩

theorem toJson_closed : toJson .closed =
    .object [("maxItems", .nat 0), ("minItems", .nat 0), ("type", .string "array")] := by
  rw [toJson, Json.ofMembers]
  congr 1

/-- A rule without options takes the empty list of options, and no other. -/
theorem validate_closed_iff [RegexEngine] {ruleId : String} {options : List Json} :
    validate .closed ruleId options = .ok () ↔ options = [] := by
  have hEntries : Schema.ofMembers? [("maxItems", .nat 0), ("minItems", .nat 0),
      ("type", .string "array")] = some [("maxItems", ⟨.nat 0, .plain⟩),
        ("minItems", ⟨.nat 0, .plain⟩), ("type", ⟨.string "array", .plain⟩)] := by
    simp [Schema.ofMembers?, Schema.schemaMembers, Schema.listMembers, Schema.namedMembers]
  have hKeywords : ([("maxItems", ⟨.nat 0, .plain⟩), ("minItems", ⟨.nat 0, .plain⟩),
      ("type", ⟨.string "array", .plain⟩)] : List (String × Schema.Entry)).mapM
        (fun (name, entry) => Schema.keyword? [("maxItems", ⟨.nat 0, .plain⟩),
          ("minItems", ⟨.nat 0, .plain⟩), ("type", ⟨.string "array", .plain⟩)] name entry) =
      some [some (.atMost .items 0), some (.atLeast .items 0), some (.kinds [.array])] := rfl
  obtain ⟨schema, hSchema, hPasses⟩ := Schema.exists_ofJson?_object hEntries hKeywords
  have hCompile : compile .closed ruleId = .ok schema := by
    rw [compile, toJson_closed, hSchema]
  have hViolations : schema.violations (.array options) = [] ↔ options = [] := by
    rw [hPasses]
    simp [Schema.Keyword.violations, Schema.require, Schema.Measure.of?, Schema.Kind.holds]
  exact (validate_iff_of_compile hCompile).trans hViolations

end OptionsSchema

theorem Listener.react_of_activate [RegexEngine] {Memory : Type} {listener : Listener Memory}
    {active : ActiveListener Memory} (h : listener.activate = .ok active) :
    active.react = listener.react := by
  unfold activate at h
  generalize splitKey listener.key = split at h
  obtain ⟨pattern, ending⟩ := split
  cases hParse : Selector.parse pattern with
  | error cause => simp [hParse] at h
  | ok selector =>
      simp only [hParse, Except.ok.injEq] at h
      rw [← h]

theorem ConfiguredRule.configured_of_activate [RegexEngine] {configured : ConfiguredRule}
    {rule : ActiveRule}
    (h : configured.activate = .ok rule) : rule.configured = configured := by
  unfold activate at h
  split at h
  · cases h
    rfl
  · cases h

namespace Linter

variable [RegexEngine]

theorem checkOptions_closed {configured : ConfiguredRule}
    (hSchema : configured.rule.schema = .closed) (hOptions : configured.options = []) :
    checkOptions configured = .ok () := by
  simp only [checkOptions, hSchema, hOptions, OptionsSchema.validate_closed_iff.mpr]

theorem checkAll_eq_ok_iff {rules : List ConfiguredRule} :
    checkAll rules = .ok () ↔ ∀ configured ∈ rules, checkOptions configured = .ok () := by
  induction rules with
  | nil => exact ⟨fun _ _ h => (by cases h), fun _ => rfl⟩
  | cons configured rest ih =>
      rw [List.forall_mem_cons, ← ih, checkAll]
      cases hCheck : checkOptions configured with
      | ok _ => exact ⟨fun h => ⟨rfl, h⟩, fun h => h.2⟩
      | error cause => exact ⟨fun h => (by cases h), fun h => (by cases h.1)⟩

theorem ofRules_eq_ok_iff {rules : List ConfiguredRule} {linter : Linter} :
    ofRules rules = .ok linter ↔
      ∃ active, List.Forall₂ (fun configured rule => configured.activate = .ok rule)
        rules active ∧ linter = { rules := active } := by
  rw [ofRules]
  constructor
  · intro h
    cases hActive : rules.mapM ConfiguredRule.activate with
    | error cause =>
        rw [hActive] at h
        cases h
    | ok active =>
        rw [hActive] at h
        exact ⟨active, mapM_eq_ok_iff.mp hActive, (Except.ok.inj h).symm⟩
  · rintro ⟨active, hActive, rfl⟩
    rw [mapM_eq_ok_iff.mpr hActive]
    rfl

/-- A linter for rules that are all on: their options fit, and each of them is set up. -/
theorem withRules_eq_ok_iff {rules : List ConfiguredRule} {linter : Linter}
    (hEnabled : ∀ configured ∈ rules, configured.severity.isEnabled = true) :
    withRules rules = .ok linter ↔
      (∀ configured ∈ rules, checkOptions configured = .ok ()) ∧
        ∃ active, List.Forall₂ (fun configured rule => configured.activate = .ok rule)
          rules active ∧ linter = { rules := active } := by
  rw [withRules, List.filter_eq_self.mpr hEnabled, ← checkAll_eq_ok_iff, ← ofRules_eq_ok_iff]
  cases hCheck : checkAll rules with
  | error cause => exact ⟨fun h => (by cases h), fun h => (by cases h.1)⟩
  | ok _ => exact ⟨fun h => ⟨rfl, h⟩, fun h => h.2⟩

/-- Rules for which a linter can be set up have linters of their own. -/
theorem exists_singles {rules : List ConfiguredRule} {linter : Linter}
    (hEnabled : ∀ configured ∈ rules, configured.severity.isEnabled = true)
    (h : withRules rules = .ok linter) :
    List.Forall₂ (fun configured single => withRules [configured] = .ok single) rules
      (linter.rules.map fun rule => { rules := [rule] }) := by
  obtain ⟨hChecked, active, hActive, rfl⟩ := (withRules_eq_ok_iff hEnabled).mp h
  have hMembers := (List.forall₂_and_left _ _).mpr ⟨fun _ hMem => hMem, hActive⟩
  refine List.forall₂_map_right_iff.mpr (hMembers.imp ?_)
  rintro configured rule ⟨hMem, hRule⟩
  refine (withRules_eq_ok_iff ?_).mpr ⟨?_, [rule], .cons hRule .nil, rfl⟩
  · rw [List.forall_mem_singleton]
    exact hEnabled configured hMem
  · rw [List.forall_mem_singleton]
    exact hChecked configured hMem

/-- The rules of a linter are those that it is set up for, in their order. -/
theorem configured_of_withRules {rules : List ConfiguredRule} {linter : Linter}
    (hEnabled : ∀ configured ∈ rules, configured.severity.isEnabled = true)
    (h : withRules rules = .ok linter) : linter.rules.map ActiveRule.configured = rules := by
  obtain ⟨-, active, hActive, rfl⟩ := (withRules_eq_ok_iff hEnabled).mp h
  have hConfigured := hActive.imp fun _ _ => ConfiguredRule.configured_of_activate
  rw [← List.forall₂_eq_eq_eq, List.forall₂_map_left_iff]
  exact hConfigured.flip

end Linter

end EcmaLint
