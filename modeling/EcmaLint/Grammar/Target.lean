import EcmaLint.Grammar.ParseError
import EcmaLint.Tree.Node

/-! Assignment targets. What stands before a `=` is first read as an expression and then
turned into a target here. References stay as they are, object and array literals become
patterns, spreads become rest elements, and plain assignments become defaults. Only
positions that are written to change: names of properties, objects of member accesses
and defaults keep their kinds. A node that changes keeps its number. -/
namespace EcmaLint

/-- What a node stands for while an expression is turned into a target. -/
inductive TargetRole where
  | whole
  /-- An element of an array, which may be a spread. -/
  | element
  /-- A member of an object, which is a property or a spread. -/
  | member
  deriving DecidableEq, Repr

namespace Node

/-- The error for a node that cannot be written to. -/
def invalidTarget (span : Span) : ParseError := ⟨.invalidTarget, span.start⟩

/-- The fields belong to a method, a getter or a setter. -/
def isMethodFields (fields : List (FieldName × FieldValue)) : Bool :=
  fields.any fun
    | (.method, .flag true) => true
    | (.kind, .text kind) => kind != "init"
    | _ => false

/-- The span of the argument of a spread, if it is an assignment. -/
def assignedArgument? : List (FieldName × FieldValue) → Option Span
  | (.argument, .slot (some (.mk _ .assignmentExpression span _))) :: _ => some span
  | (.argument, _) :: _ => none
  | _ :: rest => assignedArgument? rest
  | [] => none

/-- The fields belong to a plain assignment. -/
def isPlainAssignment (fields : List (FieldName × FieldValue)) : Bool :=
  fields.any fun
    | (.operator, .text operator) => operator == "="
    | _ => false

mutual

/-- Turn a node into a target. A spread is accepted only as the last of its list. -/
def toTarget (role : TargetRole) (isLast : Bool) : Node → Except ParseError Node
  | .mk id kind span fields =>
      match role, kind with
      | .member, .property =>
          if isMethodFields fields then .error (invalidTarget span)
          else do return .mk id .property span (← targetFields .value .whole fields)
      | .member, .spreadElement | .element, .spreadElement =>
          if !isLast then .error ⟨.elementAfterRest, span.start⟩
          else
            match assignedArgument? fields with
            | some argument => .error (invalidTarget argument)
            | none => do return .mk id .restElement span (← targetFields .argument .whole fields)
      | .member, _ => .error (invalidTarget span)
      | _, .identifier | _, .memberExpression | _, .assignmentPattern =>
          .ok (.mk id kind span fields)
      | _, .objectExpression => do
          return .mk id .objectPattern span (← targetFields .properties .member fields)
      | _, .arrayExpression => do
          return .mk id .arrayPattern span (← targetFields .elements .element fields)
      | _, .assignmentExpression =>
          if isPlainAssignment fields then
            .ok (.mk id .assignmentPattern span (fields.filter fun f => f.1 != .operator))
          else .error (invalidTarget span)
      | _, _ => .error (invalidTarget span)

/-- Turn what the first field with a name holds into targets. -/
def targetFields (name : FieldName) (role : TargetRole) :
    List (FieldName × FieldValue) → Except ParseError (List (FieldName × FieldValue))
  | [] => .ok []
  | (field, value) :: rest =>
      if field = name then do return (field, ← targetValue role value) :: rest
      else do return (field, value) :: (← targetFields name role rest)

def targetValue (role : TargetRole) : FieldValue → Except ParseError FieldValue
  | .slot (some child) => do return .slot (some (← toTarget role true child))
  | .slots children => do return .slots (← targetSlots role children)
  | value => .ok value

def targetSlots (role : TargetRole) :
    List (Option Node) → Except ParseError (List (Option Node))
  | [] => .ok []
  | none :: rest => do return none :: (← targetSlots role rest)
  | some child :: rest => do
      let child ← toTarget role (rest.all Option.isNone) child
      return some child :: (← targetSlots role rest)

end

/-- A reference that compound assignments and updates can write to. -/
def isSimpleTarget (node : Node) : Bool :=
  node.kind == .identifier || node.kind == .memberExpression

end Node

end EcmaLint
