import EcmaLint.Config.Basic
import EcmaLint.Lint.Linter
import EcmaLint.Rules.Registry

/-! From configurations to linters. A name that no rule has is answered with the names nearest to
it: the distance of two texts is the least number of characters to insert, to remove or to exchange
that leads from one to the other. -/
namespace EcmaLint

namespace Text

/-- The distances of the beginnings of a text from a text that ends in `c`, given the
distances from that text without `c`, and the distance that comes before. -/
def nextDistances (c : Char) : List Char → List Nat → Nat → List Nat
  | d :: ds, diagonal :: above :: row, left =>
      let distance := min (min (left + 1) (above + 1)) (if c = d then diagonal else diagonal + 1)
      left :: nextDistances c ds (above :: row) distance
  | _, _, left => [left]

/-- The distance between two texts. -/
def editDistance (a b : List Char) : Nat :=
  let first := List.range (b.length + 1)
  let last := a.foldl (fun row c => nextDistances c b row (row.headD 0 + 1)) first
  last.getLastD 0

end Text

namespace LintConfig

variable [RegexEngine]

/-- The severity that a preset gives to a rule, if it turns the rule on. -/
def presetSeverity? (ruleName preset : String) : Option Severity :=
  if preset = "recommended" && (findRule? ruleName).any fun rule => rule.info.isRecommended then
    some .error
  else none

/-- The severity that presets give to a rule. Later presets count before earlier ones. -/
def severityFromPresets (presets : List String) (ruleName : String) : Severity :=
  (presets.filterMap (presetSeverity? ruleName)).getLastD .off

/-- The severity of a rule. Rules that nothing is said of are off. -/
def severityOf (config : LintConfig) (ruleName : String) : Severity :=
  match config.rules.get? ruleName with
  | some setting => setting.level
  | none => severityFromPresets config.presets ruleName

/-- The options of a rule. -/
def optionsOf (config : LintConfig) (ruleName : String) : List Json :=
  ((config.rules.get? ruleName).map RuleSetting.options).getD []

def isEnabled (config : LintConfig) (ruleName : String) : Bool :=
  (config.severityOf ruleName).isEnabled

/-- The first of the names that are closest to a name, if they are close enough to be meant. -/
def closestName? (name : String) (names : List String) : Option String :=
  let distances := names.map fun other => (Text.editDistance name.toList other.toList, other)
  let near := distances.filter fun (distance, _) => distance ≤ 3
  let least := near.foldl (fun least (distance, _) => min least distance) 3
  (near.find? fun (distance, _) => distance == least).map Prod.snd

/-- Check that there are presets of the given names. -/
def checkPresets : List String → Except ConfigError Unit
  | [] => .ok ()
  | name :: rest =>
      if knownPresets.contains name then checkPresets rest else .error (.unknownPreset name)

/-- Check a setting against the rule that it is for. -/
def checkSetting (rules : List Rule) (name : String) (setting : RuleSetting) :
    Except ConfigError Unit :=
  match rules.find? fun rule => rule.info.name == name with
  | some rule => rule.schema.validate name setting.options
  | none => .error (.unknownRule name (closestName? name (rules.map fun rule => rule.info.name)))

/-- Check settings in the order of their names. -/
def checkSettings (rules : List Rule) : List (String × RuleSetting) → Except ConfigError Unit
  | [] => .ok ()
  | (name, setting) :: rest => do
      checkSetting rules name setting
      checkSettings rules rest

/-- Check a configuration: its presets first, then its settings, those for rules that are
off included. -/
def validate (config : LintConfig) (rules : List Rule) : Except ConfigError Unit := do
  checkPresets config.presets
  checkSettings rules config.rules.entries

/-- A rule as a configuration has it. -/
def configure (config : LintConfig) (rule : Rule) : ConfiguredRule :=
  ⟨rule, config.severityOf rule.info.name, config.optionsOf rule.info.name⟩

/-- The linter for a configuration. -/
def linter (config : LintConfig) : Except LintError Linter :=
  match config.validate builtinRules with
  | .error cause => .error (.config cause)
  | .ok () =>
      Linter.ofRules
        ((builtinRules.map config.configure).filter fun configured =>
          configured.severity.isEnabled)

end LintConfig

end EcmaLint
