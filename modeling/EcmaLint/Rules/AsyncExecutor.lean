import EcmaLint.Lint.Rule

/-! A promise must not be given an async function to run: what it throws is lost. -/
namespace EcmaLint.Rules.AsyncExecutor

def info : RuleInfo :=
  { name := "no-async-promise-executor"
    kind := .problem
    description := "Disallow using an async function as a Promise executor"
    isRecommended := true
    messages := [("async", "Promise executor functions should not be async.")] }

/-- The report points at the word `async` of the function. -/
def reports (source : SourceCode) (place : Place) : List Report :=
  match (place.node.list .arguments).head? with
  | none => []
  | some executor =>
      match source.firstTokenWhere? executor.span fun token => token.text == "async" with
      | some token => [.onToken "async" token]
      | none => [.onNode "async" executor]

def listeners : List (Listener Unit) :=
  [.reporting "NewExpression[callee.name='Promise'][arguments.0.async=true]"
    fun source place _ => reports source place]

def rule : Rule := { info, initial := (), create := fun _ => .ok listeners }

end EcmaLint.Rules.AsyncExecutor
