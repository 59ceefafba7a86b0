import EcmaLint.Lint.Rule
import EcmaLint.Rules.Bindings

/-! The name of a caught error must not be the name of a binding around it: old engines
let the error overwrite that binding. -/
namespace EcmaLint.Rules.CatchShadow

def info : RuleInfo :=
  { name := "no-catch-shadow"
    kind := .suggestion
    description :=
      "Disallow `catch` clause parameters from shadowing variables in the outer scope"
    messages :=
      [("mutable", "Value of '\x7b\x7bname\x7d\x7d' may be overwritten in IE 8 and earlier.")] }

/-- Whether a scope around a place binds a name. -/
def isBoundAround (place : Place) (name : String) : Bool :=
  place.ancestors.any fun scope => scope.node.scopeBindings.contains name

def reports (place : Place) : List Report :=
  match (place.node.child? .param).bind Node.name? with
  | some name =>
      if isBoundAround place name then
        [{ Report.onNode "mutable" place.node with data := [("name", name)] }]
      else []
  | none => []

def listeners : List (Listener Unit) :=
  [.reporting "CatchClause[param.type='Identifier']" fun _ place _ => reports place]

def rule : Rule := { info, initial := (), create := fun _ => .ok listeners }

end EcmaLint.Rules.CatchShadow
