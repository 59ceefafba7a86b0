import EcmaLint.Config.Printer
import EcmaLint.Config.Reader
import EcmaLint.Proofs.Json.Decoding

/-! Configurations written as JSON and read back. What a configuration does not say is left out,
and the reader takes what is missing for what was left out, so it finds every form again: one
preset or a list of them, alone or with rules, and rules with a severity alone or with options. -/
namespace EcmaLint

open Json

theorem Json.eq_some_of_mem_optionalMember {name : String} {value : Option Json}
    {member : String × Json} (h : member ∈ optionalMember name value) : value = some member.2 := by
  cases value with
  | none => cases h
  | some json =>
      obtain rfl := List.mem_singleton.mp h
      rfl

namespace RuleMap

variable {α β : Type}

theorem ext {first second : RuleMap α} (h : first.entries = second.entries) : first = second := by
  cases first
  cases second
  cases h
  rfl

theorem entries_insertAll (map : RuleMap α) (entries : List (String × α)) :
    (map.insertAll entries).entries =
      entries.foldl (fun sorted (name, value) => Json.insertMember name value sorted)
        map.entries := by
  rw [insertAll]
  induction entries generalizing map with
  | nil => rfl
  | cons entry rest ih => exact ih (map.insert entry.1 entry.2)

/-- A map is found again from its entries. -/
theorem insertAll_empty_entries (map : RuleMap α) : empty.insertAll map.entries = map :=
  ext (by rw [entries_insertAll]; exact Json.sortMembers_of_pairwise map.sorted)

/-- Names stay in order when something else is put under them. -/
theorem pairwise_map_entries (map : RuleMap α) (write : α → β) :
    (map.entries.map fun (name, a) => (name, write a)).Pairwise fun a b => a.1 < b.1 :=
  List.pairwise_map.mpr map.sorted

end RuleMap

theorem Severity.decode_name (level : Severity) :
    decode Severity.decoder (.string level.name) = .ok level := by
  cases level <;> rfl

namespace RuleSetting

theorem toJson_detailed_nil (level : Severity) :
    (detailed level []).toJson = .object [("severity", .string level.name)] := rfl

theorem toJson_detailed_of_ne_nil (level : Severity) {options : List Json} (h : options ≠ []) :
    (detailed level options).toJson =
      .object [("options", .array options), ("severity", .string level.name)] := by
  have hOrder : ("options" : String) < "severity" := by decide
  simp [toJson, h, optionalMember, ofMembers, sortMembers, insertMember, hOrder]

/-- What stands in the members of a setting with options. -/
theorem eq_of_mem_members {level : Severity} {options : List Json} {member : String × Json}
    (h : member ∈ ("severity", Json.string level.name) ::
      optionalMember "options" (if options.isEmpty then none else some (.array options))) :
    member.2 = .string level.name ∨ member.2 = .array options := by
  rcases List.mem_cons.mp h with rfl | h
  · exact Or.inl rfl
  · have hOptions := eq_some_of_mem_optionalMember h
    split at hOptions
    · cases hOptions
    · exact Or.inr (Option.some.inj hOptions).symm

theorem isOrdered_toJson {setting : RuleSetting}
    (h : ∀ option ∈ setting.options, option.IsOrdered) : setting.toJson.IsOrdered := by
  cases setting with
  | severity level => exact .string level.name
  | detailed level options =>
      refine isOrdered_ofMembers fun member hMember => ?_
      rcases eq_of_mem_members hMember with hValue | hValue <;> rw [hValue]
      · exact .string level.name
      · exact .array h

theorem fits_toJson {setting : RuleSetting} {levels : Nat}
    (h : ∀ option ∈ setting.options, option.Fits levels) : setting.toJson.Fits (levels + 2) := by
  cases setting with
  | severity level => exact .string _ level.name
  | detailed level options =>
      refine .ofMembers fun member hMember => ?_
      rcases eq_of_mem_members hMember with hValue | hValue <;> rw [hValue]
      · exact .string _ level.name
      · exact .array h

/-- A setting is read back in the form in which it was written: a severity alone is a text, and
options, also ones that are lists themselves, stand in a list. -/
theorem decode_toJson {setting : RuleSetting} (h : ∀ option ∈ setting.options, option.IsOrdered) :
    decode decoder setting.toJson = .ok setting := by
  cases setting with
  | severity level => cases level <;> rfl
  | detailed level options =>
      have hLevel := level.decode_name
      by_cases hOptions : options = []
      · subst hOptions
        rw [toJson_detailed_nil]
        cases level <;> rfl
      · have hList : decode (Decoder.optional Decoder.value) (.array options) =
            .ok (some (.array options)) :=
          decode_optional (by simp) (decode_value (.array h))
        rw [toJson_detailed_of_ne_nil level hOptions]
        rw [decode] at hLevel hList ⊢
        simp only [Document.ofJson, Document.ofMembers, decoder, Decoder.foldMembers,
          Parts.member, Decoder.once]
        rw [← Document.ofJson, ← Document.ofJson, hList, hLevel]
        rfl

end RuleSetting

namespace Extends

theorem isOrdered_toJson (presets : Extends) : presets.toJson.IsOrdered := by
  cases presets with
  | one preset => exact .string preset
  | several presets =>
      refine .array fun item hItem => ?_
      obtain ⟨preset, -, rfl⟩ := List.mem_map.mp hItem
      exact .string preset

theorem fits_toJson (presets : Extends) {levels : Nat} : presets.toJson.Fits (levels + 1) := by
  cases presets with
  | one preset => exact .string _ preset
  | several presets =>
      refine .array fun item hItem => ?_
      obtain ⟨preset, -, rfl⟩ := List.mem_map.mp hItem
      exact .string _ preset

theorem toJson_ne_null (presets : Extends) : presets.toJson ≠ .null := by
  cases presets <;> simp [toJson]

theorem decode_toJson (presets : Extends) : decode decoder presets.toJson = .ok presets := by
  have hOrdered := presets.isOrdered_toJson
  cases presets with
  | one preset =>
      refine @decode_firstOf _ _ [] _ _ _ _ hOrdered (by simp) ?_
      rfl
  | several presets =>
      have hList : decode (Decoder.list Decoder.string) (.array (presets.map Json.string)) =
          .ok presets :=
        decode_list fun preset _ => decode_string preset
      refine @decode_firstOf _ _ [_] _ _ _ _ hOrdered ?_ ?_
      · simp [decode, toJson, Document.ofJson, Decoder.string, Except.toOption]
      · rw [decode] at hList ⊢
        rw [toJson, hList]
        rfl

/-- An object does not name presets. -/
theorem toOption_decode_object {members : List (String × Json)}
    (h : (Json.object members).IsOrdered) : (decode decoder (.object members)).toOption = none := by
  rw [decode, decoder, Decoder.firstOf, Decoder.value, Document.toJson_ofJson h]
  rfl

end Extends

namespace LintConfig

/-- The options of all rules that a configuration names. -/
def options (config : LintConfig) : List Json :=
  config.rules.entries.flatMap fun entry => entry.2.options

theorem mem_options {config : LintConfig} {entry : String × RuleSetting}
    (hEntry : entry ∈ config.rules.entries) {option : Json} (hOption : option ∈ entry.2.options) :
    option ∈ config.options :=
  List.mem_flatMap.mpr ⟨entry, hEntry, hOption⟩

/-- The settings of rules in the order of their names. -/
theorem toJson_rules (rules : RuleMap RuleSetting) :
    rules.toJson = .object (rules.entries.map fun (name, setting) => (name, setting.toJson)) :=
  congrArg Json.object (sortMembers_of_pairwise (rules.pairwise_map_entries RuleSetting.toJson))

theorem decode_rules {rules : RuleMap RuleSetting}
    (h : ∀ entry ∈ rules.entries, ∀ option ∈ entry.2.options, option.IsOrdered) :
    decode rulesDecoder rules.toJson = .ok rules := by
  have hMap : decode (Decoder.map RuleSetting.decoder) rules.toJson = .ok rules.entries := by
    rw [toJson_rules]
    exact decode_map rules.sorted fun entry hEntry => RuleSetting.decode_toJson (h entry hEntry)
  rw [decode] at hMap ⊢
  rw [rulesDecoder, hMap]
  exact congrArg Except.ok rules.insertAll_empty_entries

/-- The members of a full configuration, in order: those of them that say something. -/
theorem toJson_full (presets : Option Extends) (rules : RuleMap RuleSetting) :
    (full presets rules).toJson = .object
      (optionalMember "extends" (presets.map Extends.toJson) ++
        optionalMember "rules" (if rules.isEmpty then none else some rules.toJson)) := by
  have hOrder : ("extends" : String) < "rules" := by decide
  rw [toJson, ofMembers, sortMembers_of_pairwise]
  cases presets with
  | none =>
      cases rules.isEmpty with
      | true => exact .nil
      | false => exact List.pairwise_singleton _ _
  | some named =>
      cases rules.isEmpty with
      | true => exact List.pairwise_singleton _ _
      | false => exact List.pairwise_pair.mpr hOrder

/-- What stands in the members of a full configuration. -/
theorem eq_of_mem_members {presets : Option Extends} {rules : RuleMap RuleSetting}
    {member : String × Json}
    (h : member ∈ optionalMember "extends" (presets.map Extends.toJson) ++
      optionalMember "rules" (if rules.isEmpty then none else some rules.toJson)) :
    (∃ named, member.2 = Extends.toJson named) ∨ member.2 = rules.toJson := by
  rcases List.mem_append.mp h with h | h
  · obtain ⟨named, -, hNamed⟩ := Option.map_eq_some_iff.mp (eq_some_of_mem_optionalMember h)
    exact Or.inl ⟨named, hNamed.symm⟩
  · have hRules := eq_some_of_mem_optionalMember h
    split at hRules
    · cases hRules
    · exact Or.inr (Option.some.inj hRules).symm

theorem isOrdered_toJson {config : LintConfig} (h : ∀ option ∈ config.options, option.IsOrdered) :
    config.toJson.IsOrdered := by
  cases config with
  | preset presets => exact presets.isOrdered_toJson
  | full presets rules =>
      refine isOrdered_ofMembers fun member hMember => ?_
      rcases eq_of_mem_members hMember with ⟨named, hValue⟩ | hValue <;> rw [hValue]
      · exact named.isOrdered_toJson
      · refine isOrdered_ofMembers fun entry hEntry => ?_
        obtain ⟨entry, hRule, rfl⟩ := List.mem_map.mp hEntry
        exact RuleSetting.isOrdered_toJson fun option hOption => h option (mem_options hRule hOption)

/-- The members of a full configuration are read one by one; a missing one says nothing. -/
theorem foldMembers_toJson_full {presets : Option Extends} {rules : RuleMap RuleSetting}
    (h : ∀ entry ∈ rules.entries, ∀ option ∈ entry.2.options, option.IsOrdered) :
    ∃ parts, Decoder.foldMembers Parts.member {} (Document.ofMembers
      (optionalMember "extends" (presets.map Extends.toJson) ++
        optionalMember "rules" (if rules.isEmpty then none else some rules.toJson))) = .ok parts ∧
      parts.finish = .full presets rules := by
  have hRules := decode_rules h
  have hPresets : ∀ presets : Extends, decode (Decoder.optional Extends.decoder) presets.toJson =
      .ok (some presets) :=
    fun presets => decode_optional presets.toJson_ne_null presets.decode_toJson
  simp only [decode] at hRules hPresets
  have hEmpty : rules.isEmpty = true → RuleMap.empty = rules := fun hNone =>
    RuleMap.ext (List.isEmpty_iff.mp hNone).symm
  cases presets with
  | none =>
      cases hNone : rules.isEmpty with
      | true => exact ⟨{}, rfl, by rw [← hEmpty hNone]; rfl⟩
      | false =>
          refine ⟨{ rules := some rules }, ?_, rfl⟩
          simp [optionalMember, Document.ofMembers, Decoder.foldMembers, Parts.member,
            Decoder.once, hRules, bind, Except.bind, pure, Except.pure, Functor.map, Except.map]
  | some presets =>
      cases hNone : rules.isEmpty with
      | true =>
          refine ⟨{ presets := some (some presets) }, ?_, by rw [← hEmpty hNone]; rfl⟩
          simp [optionalMember, Document.ofMembers, Decoder.foldMembers, Parts.member,
            Decoder.once, hPresets, bind, Except.bind, pure, Except.pure, Functor.map, Except.map]
      | false =>
          refine ⟨{ presets := some (some presets), rules := some rules }, ?_, rfl⟩
          simp [optionalMember, Document.ofMembers, Decoder.foldMembers, Parts.member,
            Decoder.once, hRules, hPresets, bind, Except.bind, pure, Except.pure, Functor.map,
            Except.map]

theorem decode_toJson {config : LintConfig} (h : ∀ option ∈ config.options, option.IsOrdered) :
    decode decoder config.toJson = .ok config := by
  have hOrdered := isOrdered_toJson h
  cases config with
  | preset presets =>
      refine @decode_firstOf _ _ [] _ _ _ _ hOrdered (by simp) ?_
      have hPresets := presets.decode_toJson
      rw [decode] at hPresets ⊢
      rw [toJson, hPresets]
      rfl
  | full presets rules =>
      obtain ⟨parts, hParts, hFinish⟩ := @foldMembers_toJson_full presets rules
        fun entry hEntry option hOption => h option (mem_options hEntry hOption)
      rw [toJson_full] at hOrdered ⊢
      refine @decode_firstOf _ _ [_] _ _ _ _ hOrdered ?_ ?_
      · intro other hOther
        obtain rfl := List.mem_singleton.mp hOther
        have hNone := Extends.toOption_decode_object hOrdered
        rw [decode] at hNone ⊢
        revert hNone
        cases Extends.decoder (Document.ofJson (.object _)) with
        | ok presets => exact fun h => by cases h
        | error cause => exact fun _ => rfl
      · rw [fullDecoder, decode_record_object hParts, hFinish]

/-- A configuration is nested four levels deeper than the options in it. -/
theorem fits_toJson {config : LintConfig} {levels : Nat}
    (h : ∀ option ∈ config.options, option.Fits levels) : config.toJson.Fits (levels + 4) := by
  cases config with
  | preset presets => exact presets.fits_toJson
  | full presets rules =>
      refine .ofMembers fun member hMember => ?_
      rcases eq_of_mem_members hMember with ⟨named, hValue⟩ | hValue <;> rw [hValue]
      · exact named.fits_toJson
      · refine .ofMembers fun entry hEntry => ?_
        obtain ⟨entry, hRule, rfl⟩ := List.mem_map.mp hEntry
        exact RuleSetting.fits_toJson fun option hOption => h option (mem_options hRule hOption)

/-- Configurations survive being written. The JSON value of a configuration is read back as that
configuration, whatever its options are, lists and `null` among them, and so is its text, as far
as the reader goes down and keeps numbers. -/
theorem decode_toJson_render {config : LintConfig}
    (h : ∀ option ∈ config.options, option.IsOrdered) :
    decode decoder config.toJson = .ok config ∧
      ((∀ option ∈ config.options, option.Fits 123) →
        ofJsonText config.toJson.render = .ok config) := by
  have hValue := decode_toJson h
  refine ⟨hValue, fun hFits => ?_⟩
  rw [ofJsonText, decodeText_render decoder (fits_toJson hFits), hValue]

/-- A list of presets with a rule whose only option is a list, and one whose option is `null`. -/
theorem decode_toJson_render_nested :
    let config := full (some (.several ["recommended"]))
      ((RuleMap.empty.insert "object-shorthand"
        (.detailed .warn [.array [.string "always", .number (.negative 1)]])).insert
          "no-ex-assign" (.detailed .error [.null]))
    decode decoder config.toJson = .ok config ∧ ofJsonText config.toJson.render = .ok config := by
  intro config
  have hOptions : config.options = [.null, .array [.string "always", .number (.negative 1)]] := by
    have hOrder : ("no-ex-assign" : String) < "object-shorthand" := by decide
    simp [config, options, rules, RuleMap.insert, RuleMap.empty, insertMember, hOrder,
      RuleSetting.options]
  obtain ⟨hValue, hText⟩ := @decode_toJson_render config (by
    rw [hOptions]
    simp [IsOrdered.null, IsOrdered.array, IsOrdered.string, IsOrdered.number])
  refine ⟨hValue, hText ?_⟩
  rw [hOptions]
  simp only [List.forall_mem_cons]
  refine ⟨.null _, .array ?_, by simp⟩
  simp only [List.forall_mem_cons]
  exact ⟨.string _ _, .negative _ (by decide) (by decide), by simp⟩

end LintConfig

end EcmaLint
