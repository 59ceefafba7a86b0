import EcmaLint.Config.Linter
import EcmaLint.Proofs.Config.RoundTrip
import EcmaLint.Regex.Reader

/-! Configurations laid over one another. What a configuration says of a rule hangs on the setting
that it has for the rule and on its presets, and merging settles both on their own: the upper
setting counts before the lower one, and so do the upper presets. Only presets alone are different,
as they leave nothing of what is below them. -/
namespace EcmaLint

theorem Json.lookup_cons_eq_ite {α : Type} (name key : String) (value : α)
    (rest : List (String × α)) :
    ((key, value) :: rest).lookup name = if name = key then some value else rest.lookup name := by
  rw [List.lookup_cons]
  by_cases h : name = key
  · simp [h]
  · simp [h, beq_false_of_ne h]

/-- Putting a member in changes what is found under its name and nothing else. -/
theorem Json.lookup_insertMember {α : Type} (name : String) (value : α)
    (members : List (String × α)) (other : String) :
    (insertMember name value members).lookup other =
      if other = name then some value else members.lookup other := by
  induction members with
  | nil => exact lookup_cons_eq_ite other name value []
  | cons first rest ih =>
      obtain ⟨key, old⟩ := first
      rw [insertMember]
      by_cases hBefore : name < key
      · rw [if_pos hBefore, lookup_cons_eq_ite]
      · rw [if_neg hBefore]
        by_cases hSame : name = key
        · subst hSame
          rw [if_pos rfl, lookup_cons_eq_ite, lookup_cons_eq_ite]
          split <;> rfl
        · rw [if_neg hSame, lookup_cons_eq_ite, lookup_cons_eq_ite, ih]
          by_cases hKey : other = key
          · subst hKey
            rw [if_pos rfl, if_pos rfl, if_neg (Ne.symm hSame)]
          · rw [if_neg hKey, if_neg hKey]

namespace RuleMap

variable {α : Type}

theorem get?_insert (map : RuleMap α) (name : String) (value : α) (other : String) :
    (map.insert name value).get? other = if other = name then some value else map.get? other :=
  Json.lookup_insertMember name value map.entries other

theorem get?_insertAll_of_pairwise {entries : List (String × α)}
    (h : entries.Pairwise fun a b => a.1 < b.1) (map : RuleMap α) (name : String) :
    (map.insertAll entries).get? name = (entries.lookup name).or (map.get? name) := by
  induction entries generalizing map with
  | nil => rfl
  | cons entry rest ih =>
      obtain ⟨key, value⟩ := entry
      obtain ⟨hFirst, hRest⟩ := List.pairwise_cons.mp h
      have hStep : (map.insertAll ((key, value) :: rest)).get? name =
          (rest.lookup name).or ((map.insert key value).get? name) :=
        ih hRest (map.insert key value)
      rw [hStep, get?_insert, Json.lookup_cons_eq_ite]
      by_cases hName : name = key
      · subst hName
        -- later names are greater, so no later entry takes the place of this one
        have hNone : rest.lookup name = none := List.lookup_eq_none_iff.mpr fun other hOther =>
          bne_iff_ne.mpr fun hEq => String.lt_irrefl _ (hEq ▸ hFirst other hOther)
        rw [if_pos rfl, if_pos rfl, hNone, Option.none_or, Option.some_or]
      · rw [if_neg hName, if_neg hName]

/-- What is put in last counts. -/
theorem get?_insertAll (map upper : RuleMap α) (name : String) :
    (map.insertAll upper.entries).get? name = (upper.get? name).or (map.get? name) :=
  get?_insertAll_of_pairwise upper.sorted map name

end RuleMap

namespace LintConfig

/-- Two configurations say the same of a rule. -/
def Agree [RegexEngine] (first second : LintConfig) (ruleName : String) : Prop :=
  first.severityOf ruleName = second.severityOf ruleName ∧
    first.optionsOf ruleName = second.optionsOf ruleName

/-- The presets that a configuration names, in the form in which it names them. -/
def named? : LintConfig → Option Extends
  | .preset presets => some presets
  | .full presets _ => presets

theorem presets_eq (config : LintConfig) :
    config.presets = (config.named?.map Extends.presets).getD [] := by
  cases config <;> rfl

theorem Agree.refl [RegexEngine] (config : LintConfig) (ruleName : String) :
    config.Agree config ruleName :=
  ⟨rfl, rfl⟩

/-- Configurations agree on a rule if they have the same setting for it, and, where they have none,
the same presets. -/
theorem Agree.of_eq [RegexEngine] {first second : LintConfig} {ruleName : String}
    (hRules : first.rules.get? ruleName = second.rules.get? ruleName)
    (hNamed : first.rules.get? ruleName = none → first.named? = second.named?) :
    first.Agree second ruleName := by
  constructor
  · rw [severityOf, severityOf, ← hRules]
    cases hSetting : first.rules.get? ruleName with
    | some setting => rfl
    | none => rw [presets_eq, presets_eq, hNamed hSetting]
  · rw [optionsOf, optionsOf, hRules]

theorem rules_preset (presets : Extends) : (preset presets).rules = .empty := rfl

theorem merge_preset (base : LintConfig) (presets : Extends) :
    base.merge (.preset presets) = .preset presets := rfl

theorem eq_empty_iff {presets : Option Extends} {rules : RuleMap RuleSetting} :
    full presets rules = empty ↔ (presets.isNone && rules.isEmpty) = true := by
  rw [Bool.and_eq_true, Option.isNone_iff_eq_none]
  constructor
  · intro h
    obtain ⟨rfl, rfl⟩ := full.inj h
    exact ⟨rfl, rfl⟩
  · rintro ⟨rfl, hRules⟩
    have hEmpty : rules = .empty := RuleMap.ext (List.isEmpty_iff.mp hRules)
    rw [hEmpty]
    rfl

/-- Settings are put over settings, and presets stay if there are no upper ones. -/
theorem merge_full {presets : Option Extends} {rules : RuleMap RuleSetting}
    (h : full presets rules ≠ empty) (base : LintConfig) :
    base.merge (.full presets rules) =
      .full (presets.or base.named?) (base.rules.insertAll rules.entries) := by
  have hSays := mt eq_empty_iff.mpr h
  cases base with
  | preset lower =>
      rw [merge, if_neg hSays, rules_preset, rules.insertAll_empty_entries, named?]
  | full lower settings => rw [merge, if_neg hSays, named?, LintConfig.rules]

theorem named?_merge_full (base : LintConfig) (presets : Option Extends)
    (rules : RuleMap RuleSetting) :
    (base.merge (.full presets rules)).named? = presets.or base.named? := by
  by_cases h : full presets rules = empty
  · obtain ⟨rfl, rfl⟩ := full.inj h
    rfl
  · rw [merge_full h, named?]

theorem get?_rules_merge_full (base : LintConfig) (presets : Option Extends)
    (rules : RuleMap RuleSetting) (ruleName : String) :
    (base.merge (.full presets rules)).rules.get? ruleName =
      (rules.get? ruleName).or (base.rules.get? ruleName) := by
  by_cases h : full presets rules = empty
  · obtain ⟨rfl, rfl⟩ := full.inj h
    rfl
  · rw [merge_full h, LintConfig.rules, RuleMap.get?_insertAll]

theorem severityOf_of_get? [RegexEngine] {config : LintConfig} {ruleName : String}
    {setting : RuleSetting}
    (h : config.rules.get? ruleName = some setting) :
    config.severityOf ruleName = setting.level := by
  rw [severityOf, h]

theorem optionsOf_of_get? {config : LintConfig} {ruleName : String} {setting : RuleSetting}
    (h : config.rules.get? ruleName = some setting) :
    config.optionsOf ruleName = setting.options := by
  rw [optionsOf, h]
  rfl

/-- The upper configuration counts for the rules that it names, with its severity and its options,
and without presets of its own it leaves the others as they are below. To lay the configuration
that says nothing over another one, or another one over it, changes nothing for any rule. -/
theorem merge_overrides [RegexEngine] (base : LintConfig) (ruleName : String) :
    (∀ (presets : Option Extends) (rules : RuleMap RuleSetting) (setting : RuleSetting),
      rules.get? ruleName = some setting →
        (base.merge (.full presets rules)).Agree (.full presets rules) ruleName ∧
        (base.merge (.full presets rules)).severityOf ruleName = setting.level ∧
        (base.merge (.full presets rules)).optionsOf ruleName = setting.options) ∧
    (∀ rules : RuleMap RuleSetting, rules.get? ruleName = none →
      (base.merge (.full none rules)).Agree base ruleName) ∧
    (base.merge empty).Agree base ruleName ∧ (empty.merge base).Agree base ruleName := by
  constructor
  · intro presets rules setting hSetting
    have hMerged : (base.merge (.full presets rules)).rules.get? ruleName = some setting := by
      rw [get?_rules_merge_full, hSetting, Option.some_or]
    have hAgree : (base.merge (.full presets rules)).Agree (.full presets rules) ruleName := by
      apply Agree.of_eq
      · exact hMerged.trans hSetting.symm
      · intro hNone
        cases hNone.symm.trans hMerged
    exact ⟨hAgree, severityOf_of_get? hMerged, optionsOf_of_get? hMerged⟩
  constructor
  · intro rules hRules
    apply Agree.of_eq
    · rw [get?_rules_merge_full, hRules, Option.none_or]
    · intro _
      rw [named?_merge_full, Option.none_or]
  constructor
  · exact Agree.refl base ruleName
  · cases base with
    | preset presets => exact Agree.refl _ ruleName
    | full presets rules =>
        apply Agree.of_eq
        · rw [get?_rules_merge_full]
          exact Option.or_none
        · intro _
          rw [named?_merge_full]
          exact Option.or_none

/-- Over presets that turn the rule on, a setting with options, and a setting for another rule. -/
theorem merge_overrides_recommended :
    let named := RuleMap.empty.insert "no-ex-assign" (.detailed .warn [.bool true])
    let other := RuleMap.empty.insert "object-shorthand" (.severity .warn)
    (recommended.merge (.full none named)).severityOf "no-ex-assign" = .warn ∧
    (recommended.merge (.full none named)).optionsOf "no-ex-assign" = [.bool true] ∧
    (recommended.merge (.full none other)).severityOf "no-ex-assign" = .error ∧
    (recommended.merge (.full none other)).optionsOf "no-ex-assign" = [] := by
  intro named other
  obtain ⟨hNamed, hOther, -, -⟩ := merge_overrides recommended "no-ex-assign"
  obtain ⟨-, hLevel, hOptions⟩ := hNamed none named (.detailed .warn [.bool true]) rfl
  obtain ⟨hLeft, hNone⟩ := hOther other rfl
  exact ⟨hLevel, hOptions, hLeft.trans (by decide +kernel), hNone⟩

/-- A rule that the lowest of three configurations names, with presets alone over it, and over these
a configuration that says something, but has no setting for the rule. -/
inductive Strands : LintConfig → LintConfig → LintConfig → String → Prop where
  | intro {base : LintConfig} {lower : Extends} {presets : Option Extends}
      {rules : RuleMap RuleSetting} {ruleName : String}
      (hNamed : base.rules.get? ruleName ≠ none) (hEmpty : full presets rules ≠ empty)
      (hLeaves : rules.get? ruleName = none) :
      Strands base (.preset lower) (.full presets rules) ruleName

theorem Strands.named {base middle upper : LintConfig} {ruleName : String}
    (h : Strands base middle upper ruleName) : base.rules.get? ruleName ≠ none := by
  cases h with
  | intro hNamed => exact hNamed

/-- Settings and presets of three full configurations count from the top down, however they are put
together. -/
theorem agree_merge_full [RegexEngine] {base : LintConfig} {lower upper : Option Extends}
    {settings rules : RuleMap RuleSetting} {ruleName : String} (h : full upper rules ≠ empty) :
    ((base.merge (.full lower settings)).merge (.full upper rules)).Agree
      (base.merge ((full lower settings).merge (.full upper rules))) ruleName := by
  rw [merge_full h (full lower settings)]
  apply Agree.of_eq
  · rw [get?_rules_merge_full, get?_rules_merge_full, get?_rules_merge_full, LintConfig.rules,
      RuleMap.get?_insertAll, Option.or_assoc]
  · intro _
    rw [named?_merge_full, named?_merge_full, named?_merge_full, named?, Option.or_assoc]

/-- What is below presets counts for a configuration over them only where that one names the rule,
or where nothing below does. -/
theorem agree_merge_preset [RegexEngine] {base : LintConfig} {lower : Extends}
    {upper : Option Extends}
    {rules : RuleMap RuleSetting} {ruleName : String} (h : full upper rules ≠ empty)
    (hRules : rules.get? ruleName = none → base.rules.get? ruleName = none) :
    ((preset lower).merge (.full upper rules)).Agree
      (base.merge ((preset lower).merge (.full upper rules))) ruleName := by
  rw [merge_full h]
  apply Agree.of_eq
  · rw [get?_rules_merge_full, rules_preset, LintConfig.rules, RuleMap.get?_insertAll]
    cases hSetting : rules.get? ruleName with
    | some setting => rfl
    | none => rw [hRules hSetting, Option.or_none]
  · intro _
    rw [named?_merge_full, named?, named?]
    cases upper <;> rfl

/-- A rule that only the lower configuration names stays as it is, whatever presets stand above
it. -/
theorem agree_of_named [RegexEngine] {base : LintConfig} {presets : Option Extends}
    {rules : RuleMap RuleSetting} {ruleName : String} (hRules : rules.get? ruleName = none)
    (hNamed : base.rules.get? ruleName ≠ none) :
    (base.merge (.full presets rules)).Agree base ruleName := by
  have hSetting : (base.merge (.full presets rules)).rules.get? ruleName =
      base.rules.get? ruleName := by
    rw [get?_rules_merge_full, hRules, Option.none_or]
  apply Agree.of_eq hSetting
  intro hNone
  exact absurd (hSetting.symm.trans hNone) hNamed

/-- How three configurations are put together matters for no rule but those that the lowest one
names and presets alone are laid over before a setting for another rule, or other presets, come on
top. Put together from below, such a rule is left to the presets, the upper ones if there are any,
and has no options. Put together from above, it keeps the severity and the options that it has in
the lowest configuration. -/
theorem merge_regroups [RegexEngine] (base middle upper : LintConfig) (ruleName : String) :
    (¬ Strands base middle upper ruleName →
      ((base.merge middle).merge upper).Agree (base.merge (middle.merge upper)) ruleName) ∧
    (Strands base middle upper ruleName →
      ((base.merge middle).merge upper).severityOf ruleName =
        severityFromPresets ((upper.named?.map Extends.presets).getD middle.presets) ruleName ∧
      ((base.merge middle).merge upper).optionsOf ruleName = [] ∧
      (base.merge (middle.merge upper)).Agree base ruleName) := by
  constructor
  · intro hKept
    cases upper with
    | preset presets =>
        -- nothing of what is below is left, however it was put together
        exact Agree.refl _ ruleName
    | full presets rules =>
        by_cases hEmpty : full presets rules = empty
        · rw [hEmpty]
          exact Agree.refl _ ruleName
        · cases middle with
          | full lower settings => exact agree_merge_full hEmpty
          | preset lower =>
              -- put together from below, what the lowest one names is gone before `upper` comes
              rw [merge_preset]
              apply agree_merge_preset hEmpty
              intro hLeaves
              by_contra hNamed
              exact hKept (.intro hNamed hEmpty hLeaves)
  · intro hStrands
    cases hStrands with
    | @intro lower presets rules _ hNamed hEmpty hLeaves =>
        have hSetting :
            ((preset lower).merge (.full presets rules)).rules.get? ruleName = none := by
          rw [get?_rules_merge_full, hLeaves]
          rfl
        rw [merge_preset]
        constructor
        · rw [severityOf, hSetting, presets_eq, named?_merge_full]
          cases presets <;> rfl
        constructor
        · rw [optionsOf, hSetting]
          rfl
        · rw [merge_full hEmpty] at hSetting ⊢
          exact agree_of_named hSetting hNamed

/-- A rule that is named under presets, with a setting for another rule on top: put together from
below it is off, and put together from above it keeps its severity and its option. The rule on top
and a rule of the presets alone come out alike. -/
theorem merge_regroups_recommended :
    let base := full none (RuleMap.empty.insert "object-shorthand"
      (.detailed .warn [.string "never"]))
    let upper := full none (RuleMap.empty.insert "no-ex-assign" (.severity .off))
    ((base.merge recommended).merge upper).severityOf "object-shorthand" = .off ∧
    (base.merge (recommended.merge upper)).severityOf "object-shorthand" = .warn ∧
    (base.merge (recommended.merge upper)).optionsOf "object-shorthand" = [.string "never"] ∧
    ((base.merge recommended).merge upper).Agree (base.merge (recommended.merge upper))
      "no-ex-assign" := by
  intro base upper
  have hUpper : upper ≠ empty := by
    intro h
    obtain ⟨-, hRules⟩ := full.inj h
    have hEntries := congrArg RuleMap.entries hRules
    simp [RuleMap.insert, RuleMap.empty, Json.insertMember] at hEntries
  have hStrands : Strands base recommended upper "object-shorthand" :=
    .intro (by simp [base, LintConfig.rules, RuleMap.get?_insert]) hUpper rfl
  obtain ⟨hOff, -, hLevel, hOptions⟩ := (merge_regroups base recommended upper _).2 hStrands
  have hOther := (merge_regroups base recommended upper "no-ex-assign").1 fun h => h.named rfl
  exact ⟨hOff.trans (by decide +kernel), hLevel, hOptions, hOther⟩

/-- Configurations with presets alone in the middle come out differently for a rule if they are put
together in another order. -/
theorem exists_merge_not_regrouped :
    ∃ base middle upper : LintConfig,
      ¬ ((base.merge middle).merge upper).Agree (base.merge (middle.merge upper))
        "object-shorthand" := by
  refine ⟨full none (RuleMap.empty.insert "object-shorthand" (.severity .warn)), recommended,
    full none (RuleMap.empty.insert "no-ex-assign" (.severity .off)), ?_⟩
  intro hAgree
  exact absurd hAgree.1 (by decide +kernel)

end LintConfig

end EcmaLint
