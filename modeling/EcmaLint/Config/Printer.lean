import EcmaLint.Config.Basic

/-! Configurations as JSON. What says nothing is left out. -/
namespace EcmaLint

def RuleSetting.toJson : RuleSetting → Json
  | .severity level => .string level.name
  | .detailed level options =>
      .ofMembers
        (("severity", .string level.name) ::
          Json.optionalMember "options" (if options.isEmpty then none else some (.array options)))

def Extends.toJson : Extends → Json
  | .one preset => .string preset
  | .several presets => .array (presets.map Json.string)

/-- The settings of rules as an object. -/
def RuleMap.toJson (map : RuleMap RuleSetting) : Json :=
  .ofMembers (map.entries.map fun (name, setting) => (name, setting.toJson))

def LintConfig.toJson : LintConfig → Json
  | .preset presets => presets.toJson
  | .full presets rules =>
      .ofMembers
        (Json.optionalMember "extends" (presets.map Extends.toJson) ++
          Json.optionalMember "rules" (if rules.isEmpty then none else some rules.toJson))

end EcmaLint
