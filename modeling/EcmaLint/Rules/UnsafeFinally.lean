import EcmaLint.Lint.Rule

/-! No statement may jump out of a finally block: the jump would hide what the blocks
before it had come to. -/
namespace EcmaLint.Rules.UnsafeFinally

def info : RuleInfo :=
  { name := "no-unsafe-finally"
    kind := .problem
    description := "Disallow control flow statements in `finally` blocks"
    isRecommended := true
    messages := [("unsafeUsage", "Unsafe usage of \x7b\x7bnodeType\x7d\x7d.")] }

/-- How far out a statement can jump at most. -/
inductive Reach where
  /-- Out of everything in the function. -/
  | function
  /-- To the end of the nearest loop or switch. -/
  | breakable
  /-- To the next round of the nearest loop. -/
  | loop
  deriving DecidableEq, Repr

namespace Reach

def of (statement : Node) : Reach :=
  match statement.kind with
  | .breakStatement => if (statement.child? .label).isNone then .breakable else .function
  | .continueStatement => .loop
  | _ => .function

/-- Whether a jump does not go further out than nodes of a kind. -/
def endsAt (reach : Reach) (kind : NodeKind) : Bool :=
  let function := kind == .program || kind.isFunction || kind.isClass
  match reach with
  | .function => function
  | .breakable => function || kind.isLoop || kind == .switchStatement
  | .loop => function || kind.isLoop

end Reach

/-- Whether a node is the statement with a label. -/
def hasLabel (label : Option String) (node : Node) : Bool :=
  label.isSome && node.kind == .labeledStatement &&
    (node.child? .label).bind Node.name? == label

/-- Follow a jump from a node of some kind upwards, to the first finally block or to where
the jump ends. `isInside` says whether the label of the jump has been passed. -/
def leavesFinally (reach : Reach) (label : Option String) (isInside : Bool) (kind : NodeKind) :
    List Ascent → Bool
  | [] => false
  | ascent :: above =>
      if reach.endsAt kind then false
      else
        let isInside := isInside || hasLabel label ascent.parent
        if ascent.parent.kind == .tryStatement && ascent.field == .finalizer then
          !(label.isSome && isInside)
        else
          leavesFinally reach label isInside ascent.parent.kind above

/-- Whether the statement at a place jumps out of a finally block. -/
def isUnsafe (place : Place) : Bool :=
  let label := (place.node.child? .label).bind Node.name?
  leavesFinally (.of place.node) label false place.kind place.ascents

def reports (place : Place) : List Report :=
  if isUnsafe place then
    [{ Report.onNode "unsafeUsage" place.node with data := [("nodeType", place.kind.name)] }]
  else []

def listeners : List (Listener Unit) :=
  ["ReturnStatement", "ThrowStatement", "BreakStatement", "ContinueStatement"].map fun key =>
    .reporting key fun _ place _ => reports place

def rule : Rule := { info, initial := (), create := fun _ => .ok listeners }

end EcmaLint.Rules.UnsafeFinally
