import EcmaLint.Tree.Place

/-! The names that patterns and scopes bind. -/
namespace EcmaLint

namespace Node

/-- The parts of a pattern that are patterns themselves, in source order. -/
def patternParts (pattern : Node) : List Node :=
  match pattern.kind with
  | .objectPattern =>
      (pattern.list .properties).flatMap fun property =>
        if property.kind = .property then (property.child? .value).toList else [property]
  | .arrayPattern => pattern.list .elements
  | .assignmentPattern => (pattern.child? .left).toList
  | .restElement => (pattern.child? .argument).toList
  | _ => []

theorem sizeOf_lt_of_mem_patternParts {pattern part : Node} (h : part ∈ pattern.patternParts) :
    sizeOf part < sizeOf pattern := by
  unfold patternParts at h
  split at h
  · obtain ⟨property, hp, h⟩ := List.mem_flatMap.1 h
    have hlt := sizeOf_lt_of_mem_children (mem_children_of_mem_list hp)
    split at h
    · have := sizeOf_lt_of_mem_children (mem_children_of_child? (Option.mem_toList.1 h))
      omega
    · simp only [List.mem_singleton] at h
      exact h ▸ hlt
  · exact sizeOf_lt_of_mem_children (mem_children_of_mem_list h)
  · exact sizeOf_lt_of_mem_children (mem_children_of_child? (Option.mem_toList.1 h))
  · exact sizeOf_lt_of_mem_children (mem_children_of_child? (Option.mem_toList.1 h))
  · simp at h

/-- The identifiers that a pattern binds or writes, in source order. Members of objects may
be written too, but they are no bindings. -/
def patternIdentifiers (pattern : Node) : List Node :=
  if pattern.kind = .identifier then [pattern]
  else pattern.patternParts.attach.flatMap fun ⟨part, _⟩ => patternIdentifiers part
termination_by sizeOf pattern
decreasing_by exact sizeOf_lt_of_mem_patternParts ‹_›

/-- The names that a pattern binds. -/
def patternNames (pattern : Node) : List String :=
  pattern.patternIdentifiers.filterMap Node.name?

/-- The names that the declarators of a declaration bind. -/
def declaredNames (declaration : Node) : List String :=
  (declaration.list .declarations).flatMap fun declarator =>
    ((declarator.child? .id).map patternNames).getD []

/-- Whether a node is a declaration with the word `var`. -/
def isVarDeclaration (node : Node) : Bool :=
  node.kind == .variableDeclaration && node.text? .kind == some "var"

/-- The name in the field `id`. -/
def idName? (node : Node) : Option String := (node.child? .id).bind Node.name?

/-- The names that `var` declares in a part of a program, nested functions left out. -/
def varNames (root : Node) : List String :=
  let places := (Place.root root).walk fun place => place.depth == 0 || !place.kind.isFunction
  places.flatMap fun place => if place.node.isVarDeclaration then place.node.declaredNames else []

/-- The names that a statement declares for the statements around it. -/
def lexicalNames (statement : Node) : List String :=
  match statement.kind with
  | .variableDeclaration => if statement.isVarDeclaration then [] else statement.declaredNames
  | .functionDeclaration | .classDeclaration => statement.idName?.toList
  | _ => []

/-- The names that the statements in a list field declare. -/
def lexicalNamesIn (node : Node) (field : FieldName) : List String :=
  (node.list field).flatMap lexicalNames

/-- The names that a node binds for the code inside it. The name of a function declaration
is bound by the scope around it. -/
def scopeBindings (node : Node) : List String :=
  match node.kind with
  | .program => node.varNames ++ node.lexicalNamesIn .body
  | .functionDeclaration | .arrowFunctionExpression => functionBindings node
  | .functionExpression => node.idName?.toList ++ functionBindings node
  | .blockStatement => node.lexicalNamesIn .body
  | .switchStatement =>
      (node.list .cases).flatMap fun clause => clause.lexicalNamesIn .consequent
  | .forStatement | .forInStatement | .forOfStatement =>
      match (node.child? .init).or (node.child? .left) with
      | some head => if head.kind = .variableDeclaration then head.lexicalNames else []
      | none => []
  | .catchClause => ((node.child? .param).map patternNames).getD []
  | .classExpression => node.idName?.toList
  | _ => []
where
  /-- The parameters of a function and what its body declares. -/
  functionBindings (node : Node) : List String :=
    (node.list .params).flatMap patternNames ++
      match node.child? .body with
      | some body => body.varNames ++ body.lexicalNamesIn .body
      | none => []

end Node

end EcmaLint
