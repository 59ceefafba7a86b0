import EcmaLint.Rules.AsyncExecutor
import EcmaLint.Rules.CatchShadow
import EcmaLint.Rules.CaughtAssignment
import EcmaLint.Rules.ObjectShorthand.Basic
import EcmaLint.Rules.UnsafeFinally

/-! The rules that are always there, in the order in which they run. -/
namespace EcmaLint

variable [RegexEngine]

def builtinRules : List Rule :=
  [Rules.AsyncExecutor.rule, Rules.CatchShadow.rule, Rules.CaughtAssignment.rule,
   Rules.UnsafeFinally.rule, Rules.ObjectShorthand.rule]

def findRule? (name : String) : Option Rule :=
  builtinRules.find? fun rule => rule.info.name == name

/-- The names of the rules in alphabetical order. -/
def builtinRuleNames : List String :=
  (builtinRules.map fun rule => rule.info.name).mergeSort fun a b => !(b < a)

end EcmaLint
