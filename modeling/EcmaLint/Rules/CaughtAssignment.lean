import EcmaLint.Lint.Rule
import EcmaLint.Rules.Bindings

/-! A caught error must not be assigned to: nothing else refers to it. -/
namespace EcmaLint.Rules.CaughtAssignment

def info : RuleInfo :=
  { name := "no-ex-assign"
    kind := .problem
    description := "Disallow reassigning exceptions in `catch` clauses"
    isRecommended := true
    messages := [("unexpected", "Do not assign to the exception parameter.")] }

/-- The identifiers that a node itself writes, in source order. -/
def written (node : Node) : List Node :=
  match node.kind with
  | .assignmentExpression => ((node.child? .left).map Node.patternIdentifiers).getD []
  | .updateExpression =>
      ((node.child? .argument).filter fun argument => argument.kind == .identifier).toList
  | .forInStatement | .forOfStatement =>
      match node.child? .left with
      | some head => if head.kind = .variableDeclaration then [] else head.patternIdentifiers
      | none => []
  | _ => []

/-- Whether an identifier has one of some names. -/
def isNamedIn (names : List String) (identifier : Node) : Bool :=
  identifier.name?.any names.contains

/-- The writes to names below a node. A name that a scope binds anew is not looked for
inside that scope. -/
def writes (names : List String) (node : Node) : List Node :=
  let bound := node.scopeBindings
  let visible := names.filter fun name => !bound.contains name
  if visible.isEmpty then []
  else
    (written node).filter (isNamedIn visible) ++
      node.children.attach.flatMap fun ⟨child, _⟩ => writes visible child
termination_by sizeOf node
decreasing_by exact Node.sizeOf_lt_of_mem_children ‹_›

/-- One report for each write to a name of the parameter in the body of the clause. -/
def reports (clause : Node) : List Report :=
  match clause.child? .param, clause.child? .body with
  | some param, some body => (writes param.patternNames body).map (Report.onNode "unexpected")
  | _, _ => []

def listeners : List (Listener Unit) :=
  [.reporting "CatchClause[param]" fun _ place _ => reports place.node]

def rule : Rule := { info, initial := (), create := fun _ => .ok listeners }

end EcmaLint.Rules.CaughtAssignment
