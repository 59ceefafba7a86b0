import EcmaLint.Proofs.Tree.Forest

/-! The shape of trees. The kind of a node says which fields it has and what kinds of nodes stand in
them, and the value of a field is known from what the field takes. A tree has the shape of a program
if every node in it has the form of its kind. -/
namespace EcmaLint

namespace NodeKind

def isStatement : NodeKind → Bool
  | .emptyStatement | .blockStatement | .expressionStatement | .ifStatement | .labeledStatement
  | .breakStatement | .continueStatement | .withStatement | .switchStatement | .returnStatement
  | .throwStatement | .tryStatement | .whileStatement | .doWhileStatement | .forStatement
  | .forInStatement | .forOfStatement | .debuggerStatement | .functionDeclaration
  | .variableDeclaration | .classDeclaration => true
  | _ => false

def isExpression : NodeKind → Bool
  | .identifier | .literal | .thisExpression | .super | .arrayExpression | .objectExpression
  | .functionExpression | .arrowFunctionExpression | .classExpression | .templateLiteral
  | .taggedTemplateExpression | .unaryExpression | .updateExpression | .binaryExpression
  | .logicalExpression | .assignmentExpression | .conditionalExpression | .callExpression
  | .newExpression | .memberExpression | .chainExpression | .sequenceExpression
  | .yieldExpression | .awaitExpression | .metaProperty => true
  | _ => false

/-- What a declaration binds. -/
def isBinding : NodeKind → Bool
  | .identifier | .arrayPattern | .objectPattern => true
  | _ => false

/-- What is written to, with a default or without. -/
def isTarget : NodeKind → Bool
  | .identifier | .arrayPattern | .objectPattern | .memberExpression | .assignmentPattern => true
  | _ => false

/-- What an update or a compound assignment writes to. -/
def isReference : NodeKind → Bool
  | .identifier | .memberExpression => true
  | _ => false

/-- An element of an array pattern, or a parameter. -/
def isElement (kind : NodeKind) : Bool := kind.isTarget || kind == .restElement

/-- An element of an array, or an argument of a call. -/
def isArgument (kind : NodeKind) : Bool := kind.isExpression || kind == .spreadElement

/-- A member of an object. -/
def isMember (kind : NodeKind) : Bool := kind == .property || kind == .spreadElement

/-- A member of an object pattern. -/
def isPatternMember (kind : NodeKind) : Bool := kind == .property || kind == .restElement

theorem isTarget_of_isBinding {kind : NodeKind} (h : kind.isBinding = true) :
    kind.isTarget = true := by
  cases kind <;> simp_all [isBinding, isTarget]

theorem isTarget_of_isReference {kind : NodeKind} (h : kind.isReference = true) :
    kind.isTarget = true := by
  cases kind <;> simp_all [isReference, isTarget]

end NodeKind

/-- What a field holds: plain data, a word, a flag with some value, or slots that only take nodes
of some kinds. -/
inductive Part where
  | data
  | word
  | wordIn (accepts : String → Bool)
  | flag (value : Bool)
  | one (accepts : NodeKind → Bool)
  | optional (accepts : NodeKind → Bool)
  | many (accepts : NodeKind → Bool)
  /-- A list some slots of which may be empty. -/
  | holed (accepts : NodeKind → Bool)
  /-- A list in which a rest element is the last node. -/
  | restLast (list : Part)

/-- Nothing but holes comes behind a rest element. -/
def Node.RestLast (slots : List (Option Node)) : Prop :=
  ∀ front rest back, slots = front ++ some rest :: back → rest.kind = .restElement →
    ∀ slot ∈ back, slot = none

namespace Part

/-- The value of a field is what the field is there for. -/
def Takes : Part → FieldValue → Prop
  | .data, .text _ | .data, .flag _ | .data, .number _ | .data, .null | .word, .text _ => True
  | .wordIn accepts, .text text => accepts text = true
  | .flag value, .flag held => held = value
  | .one accepts, .slot child => ∃ node, child = some node ∧ accepts node.kind = true
  | .optional accepts, .slot child => ∀ node, child = some node → accepts node.kind = true
  | .many accepts, .slots children =>
      ∀ slot ∈ children, ∃ node, slot = some node ∧ accepts node.kind = true
  | .holed accepts, .slots children => ∀ node, some node ∈ children → accepts node.kind = true
  | .restLast list, value => list.Takes value ∧ Node.RestLast value.slotList
  | _, _ => False

/-- A node of some kind may stand in the field. -/
def accepts : Part → NodeKind → Bool
  | .one accepts, kind | .optional accepts, kind | .many accepts, kind | .holed accepts, kind =>
      accepts kind
  | .restLast list, kind => list.accepts kind
  | _, _ => false

variable {accepts : NodeKind → Bool} {node : Node}

@[simp] theorem data_takes_text (text : String) : Part.data.Takes (.text text) := trivial

@[simp] theorem data_takes_flag (value : Bool) : Part.data.Takes (.flag value) := trivial

@[simp] theorem data_takes_number (value : Float) : Part.data.Takes (.number value) := trivial

@[simp] theorem data_takes_null : Part.data.Takes .null := trivial

@[simp] theorem word_takes_text (text : String) : Part.word.Takes (.text text) := trivial

@[simp] theorem wordIn_takes_text {accepts : String → Bool} {text : String} :
    (wordIn accepts).Takes (.text text) ↔ accepts text = true := Iff.rfl

@[simp] theorem flag_takes_flag {value held : Bool} :
    (Part.flag value).Takes (.flag held) ↔ held = value := Iff.rfl

@[simp] theorem one_takes_node : (one accepts).Takes (.node node) ↔ accepts node.kind = true := by
  simp [Takes, Field.node]

@[simp] theorem optional_takes_slot {child : Option Node} :
    (optional accepts).Takes (.slot child) ↔
      ∀ node, child = some node → accepts node.kind = true := Iff.rfl

@[simp] theorem many_takes_nodes {nodes : List Node} :
    (many accepts).Takes (.nodes nodes) ↔ ∀ node ∈ nodes, accepts node.kind = true := by
  simp [Takes, Field.nodes]

@[simp] theorem holed_takes_slots {slots : List (Option Node)} :
    (holed accepts).Takes (.slots slots) ↔
      ∀ node, some node ∈ slots → accepts node.kind = true := Iff.rfl

@[simp] theorem restLast_takes {list : Part} {value : FieldValue} :
    (restLast list).Takes value ↔ list.Takes value ∧ Node.RestLast value.slotList := Iff.rfl

theorem takes_one_iff {value : FieldValue} :
    (one accepts).Takes value ↔ ∃ node, value = .node node ∧ accepts node.kind = true := by
  refine ⟨fun h => ?_, by rintro ⟨node, rfl, h⟩; exact one_takes_node.mpr h⟩
  cases value with
  | slot child =>
      obtain ⟨node, rfl, hKind⟩ := h
      exact ⟨node, rfl, hKind⟩
  | _ => exact h.elim

theorem takes_optional_iff {value : FieldValue} :
    (optional accepts).Takes value ↔
      ∃ child, value = .slot child ∧ ∀ node, child = some node → accepts node.kind = true := by
  refine ⟨fun h => ?_, by rintro ⟨child, rfl, h⟩; exact h⟩
  cases value with
  | slot child => exact ⟨child, rfl, h⟩
  | _ => exact h.elim

theorem takes_many_iff {value : FieldValue} :
    (many accepts).Takes value ↔
      ∃ nodes, value = .nodes nodes ∧ ∀ node ∈ nodes, accepts node.kind = true := by
  refine ⟨fun h => ?_, by rintro ⟨nodes, rfl, h⟩; exact many_takes_nodes.mpr h⟩
  cases value with
  | slots children =>
      have hFilled : (children.filterMap id).map some = children := by
        induction children with
        | nil => rfl
        | cons slot rest ih =>
            obtain ⟨⟨node, rfl, -⟩, hRest⟩ := List.forall_mem_cons.mp h
            exact congrArg (some node :: ·) (ih hRest)
      refine ⟨children.filterMap id, by rw [Field.nodes, hFilled], ?_⟩
      rw [← hFilled] at h
      exact many_takes_nodes.mp h
  | _ => exact h.elim

theorem takes_holed_iff {value : FieldValue} :
    (holed accepts).Takes value ↔
      ∃ slots, value = .slots slots ∧ ∀ node, some node ∈ slots → accepts node.kind = true := by
  refine ⟨fun h => ?_, by rintro ⟨slots, rfl, h⟩; exact h⟩
  cases value with
  | slots children => exact ⟨children, rfl, h⟩
  | _ => exact h.elim

theorem takes_word_iff {value : FieldValue} : word.Takes value ↔ ∃ text, value = .text text := by
  refine ⟨fun h => ?_, by rintro ⟨text, rfl⟩; trivial⟩
  cases value with
  | text value => exact ⟨value, rfl⟩
  | _ => exact h.elim

theorem takes_wordIn_iff {accepts : String → Bool} {value : FieldValue} :
    (wordIn accepts).Takes value ↔ ∃ text, value = .text text ∧ accepts text = true := by
  refine ⟨fun h => ?_, by rintro ⟨text, rfl, h⟩; exact h⟩
  cases value with
  | text value => exact ⟨value, rfl, h⟩
  | _ => exact h.elim

theorem takes_flag_iff {held : Bool} {value : FieldValue} :
    (flag held).Takes value ↔ value = .flag held := by
  refine ⟨fun h => ?_, by rintro rfl; exact rfl⟩
  cases value with
  | flag value => exact congrArg Field.flag h
  | _ => exact h.elim

/-- What stands in the slots of a field is what the field accepts. -/
theorem Takes.accepts_of_mem {part : Part} {value : FieldValue} (h : part.Takes value)
    (hNode : node ∈ value.filled) : part.accepts node.kind = true := by
  induction part with
  | restLast list ih => exact ih h.1
  | one accepts =>
      obtain ⟨held, rfl, hKind⟩ := takes_one_iff.mp h
      obtain rfl : node = held := by simpa using hNode
      exact hKind
  | optional accepts =>
      obtain ⟨child, rfl, hKind⟩ := takes_optional_iff.mp h
      exact hKind node (by simpa using hNode)
  | many accepts =>
      obtain ⟨nodes, rfl, hKinds⟩ := takes_many_iff.mp h
      exact hKinds node (by simpa using hNode)
  | holed accepts =>
      obtain ⟨slots, rfl, hKinds⟩ := takes_holed_iff.mp h
      exact hKinds node (by simpa using hNode)
  | word =>
      obtain ⟨text, rfl⟩ := takes_word_iff.mp h
      simp at hNode
  | wordIn accepts =>
      obtain ⟨text, rfl, -⟩ := takes_wordIn_iff.mp h
      simp at hNode
  | flag held =>
      obtain rfl := takes_flag_iff.mp h
      simp at hNode
  | data =>
      cases value with
      | slot child => exact h.elim
      | slots children => exact h.elim
      | _ => simp at hNode

end Part

/-- The fields that nodes of one kind have, in visiting order. -/
abbrev NodeForm := List (FieldName × Part)

namespace NodeKind

/-- The form of functions. -/
def functionForm : NodeForm :=
  [(.id, .optional (· == .identifier)), (.params, .restLast (.many isElement)),
   (.body, .one fun kind => kind == .blockStatement || kind.isExpression), (.async, .data),
   (.generator, .data), (.expression, .data)]

/-- The form of classes. -/
def classForm : NodeForm :=
  [(.id, .optional (· == .identifier)), (.superClass, .optional isExpression),
   (.body, .one (· == .classBody))]

/-- The forms that nodes of a kind have. Most kinds have one. A property stands in an object or in
a pattern, and the name of a shorthand property is an identifier without brackets; a literal says
more about large integers and regular expressions. -/
def forms : NodeKind → List NodeForm
  | .program => [[(.body, .many isStatement), (.sourceType, .data)]]
  | .emptyStatement | .debuggerStatement | .thisExpression | .super => [[]]
  | .blockStatement => [[(.body, .many isStatement)]]
  | .expressionStatement => [[(.expression, .one isExpression)]]
  | .ifStatement =>
      [[(.test, .one isExpression), (.consequent, .one isStatement),
        (.alternate, .optional isStatement)]]
  | .labeledStatement => [[(.label, .one (· == .identifier)), (.body, .one isStatement)]]
  | .breakStatement | .continueStatement => [[(.label, .optional (· == .identifier))]]
  | .withStatement => [[(.object, .one isExpression), (.body, .one isStatement)]]
  | .switchStatement => [[(.discriminant, .one isExpression), (.cases, .many (· == .switchCase))]]
  | .switchCase => [[(.test, .optional isExpression), (.consequent, .many isStatement)]]
  | .returnStatement => [[(.argument, .optional isExpression)]]
  | .throwStatement => [[(.argument, .one isExpression)]]
  | .tryStatement =>
      [[(.block, .one (· == .blockStatement)), (.handler, .optional (· == .catchClause)),
        (.finalizer, .optional (· == .blockStatement))]]
  | .catchClause => [[(.param, .optional isBinding), (.body, .one (· == .blockStatement))]]
  | .whileStatement => [[(.test, .one isExpression), (.body, .one isStatement)]]
  | .doWhileStatement => [[(.body, .one isStatement), (.test, .one isExpression)]]
  | .forStatement =>
      [[(.init, .optional fun kind => kind == .variableDeclaration || kind.isExpression),
        (.test, .optional isExpression), (.update, .optional isExpression),
        (.body, .one isStatement)]]
  | .forInStatement =>
      [[(.left, .one fun kind => kind == .variableDeclaration || kind.isTarget),
        (.right, .one isExpression), (.body, .one isStatement)]]
  | .forOfStatement =>
      [[(.left, .one fun kind => kind == .variableDeclaration || kind.isTarget),
        (.right, .one isExpression), (.body, .one isStatement), (.await, .data)]]
  | .functionDeclaration | .functionExpression | .arrowFunctionExpression => [functionForm]
  | .variableDeclaration => [[(.declarations, .many (· == .variableDeclarator)), (.kind, .word)]]
  | .variableDeclarator => [[(.id, .one isBinding), (.init, .optional isExpression)]]
  | .classDeclaration | .classExpression => [classForm]
  | .classBody => [[(.body, .many (· == .methodDefinition))]]
  | .methodDefinition =>
      [[(.key, .one isExpression), (.value, .one (· == .functionExpression)), (.kind, .word),
        (.computed, .data), (.static, .data)]]
  | .identifier => [[(.ident, .word)]]
  | .literal =>
      [[(.value, .data), (.raw, .word)], [(.raw, .word), (.pattern, .word), (.flags, .word)],
       [(.value, .data), (.raw, .word), (.bigint, .word)]]
  | .arrayExpression => [[(.elements, .holed isArgument)]]
  | .objectExpression => [[(.properties, .many isMember)]]
  | .property =>
      [[(.key, .one isExpression), (.value, .one isExpression), (.kind, .word), (.method, .data),
        (.shorthand, .flag false), (.computed, .data)],
       [(.key, .one isExpression), (.value, .one isTarget), (.kind, .word), (.method, .data),
        (.shorthand, .flag false), (.computed, .data)],
       [(.key, .one (· == .identifier)), (.value, .one isTarget), (.kind, .word), (.method, .data),
        (.shorthand, .flag true), (.computed, .flag false)]]
  | .templateLiteral =>
      [[(.quasis, .many (· == .templateElement)), (.expressions, .many isExpression)]]
  | .templateElement => [[(.raw, .word), (.cooked, .word), (.tail, .data)]]
  | .taggedTemplateExpression =>
      [[(.tag, .one isExpression), (.quasi, .one (· == .templateLiteral))]]
  | .unaryExpression => [[(.operator, .word), (.argument, .one isExpression), (.prefixed, .data)]]
  | .updateExpression => [[(.operator, .word), (.argument, .one isReference), (.prefixed, .data)]]
  | .binaryExpression | .logicalExpression =>
      [[(.operator, .word), (.left, .one isExpression), (.right, .one isExpression)]]
  | .assignmentExpression =>
      [[(.operator, .wordIn (· == "=")), (.left, .one isTarget), (.right, .one isExpression)],
       [(.operator, .wordIn (· != "=")), (.left, .one isReference), (.right, .one isExpression)]]
  | .conditionalExpression =>
      [[(.test, .one isExpression), (.consequent, .one isExpression),
        (.alternate, .one isExpression)]]
  | .callExpression =>
      [[(.callee, .one isExpression), (.arguments, .many isArgument), (.optional, .data)]]
  | .newExpression => [[(.callee, .one isExpression), (.arguments, .many isArgument)]]
  | .memberExpression =>
      [[(.object, .one isExpression), (.property, .one isExpression), (.computed, .data),
        (.optional, .data)]]
  | .chainExpression => [[(.expression, .one isExpression)]]
  | .sequenceExpression => [[(.expressions, .many isExpression)]]
  | .yieldExpression => [[(.argument, .optional isExpression), (.delegate, .data)]]
  | .awaitExpression | .spreadElement => [[(.argument, .one isExpression)]]
  | .metaProperty => [[(.metaWord, .one (· == .identifier)), (.property, .one (· == .identifier))]]
  | .objectPattern => [[(.properties, .restLast (.many isPatternMember))]]
  | .arrayPattern => [[(.elements, .restLast (.holed isElement))]]
  | .restElement => [[(.argument, .one isTarget)]]
  | .assignmentPattern => [[(.left, .one isTarget), (.right, .one isExpression)]]

end NodeKind

namespace Node

/-- The field that a form has in a place, with a value that it takes. -/
def FillsIn (field : FieldName × FieldValue) (expected : FieldName × Part) : Prop :=
  field.1 = expected.1 ∧ expected.2.Takes field.2

/-- The fields of a node are those of a form of its kind. -/
def Conforms (node : Node) : Prop :=
  ∃ form ∈ node.kind.forms, List.Forall₂ FillsIn node.fields form

/-- Every node of a tree has a form of its kind. -/
def Shaped (node : Node) : Prop := ∀ below ∈ node.subtree, below.Conforms

/-- A tree with the shape of a program, with a root of some kind. -/
structure IsOf (accepts : NodeKind → Bool) (node : Node) : Prop where
  shaped : node.Shaped
  accepted : accepts node.kind = true

variable {node child : Node}

theorem Shaped.conforms (h : node.Shaped) : node.Conforms := h node (mem_subtree_self node)

theorem shaped_iff : node.Shaped ↔ node.Conforms ∧ ∀ child ∈ node.children, child.Shaped := by
  simp only [Shaped, subtree_eq node, List.forall_mem_cons, List.mem_flatMap]
  refine and_congr_right fun _ => ⟨fun h child hChild below hBelow => ?_, ?_⟩
  · exact h below ⟨child, hChild, hBelow⟩
  · rintro h below ⟨child, hChild, hBelow⟩
    exact h child hChild below hBelow

theorem shaped_mk {id : NodeId} {kind : NodeKind} {span : Span}
    {fields : List (FieldName × FieldValue)} :
    (mk id kind span fields).Shaped ↔ (∃ form ∈ kind.forms, List.Forall₂ FillsIn fields form) ∧
      ∀ child ∈ Field.filledIn fields, child.Shaped := by
  rw [shaped_iff, children_eq_filledIn]
  rfl

theorem Shaped.of_mem_children (h : node.Shaped) (hChild : child ∈ node.children) :
    child.Shaped :=
  (shaped_iff.mp h).2 child hChild

theorem forall₂_fillsIn_cons {fields : List (FieldName × FieldValue)} {name : FieldName}
    {part : Part} {form : NodeForm} : List.Forall₂ FillsIn fields ((name, part) :: form) ↔
      ∃ value rest, part.Takes value ∧ List.Forall₂ FillsIn rest form ∧
        fields = (name, value) :: rest := by
  rw [List.forall₂_cons_right_iff]
  constructor
  · rintro ⟨⟨_, value⟩, rest, ⟨rfl, hTakes⟩, hRest, rfl⟩
    exact ⟨value, rest, hTakes, hRest, rfl⟩
  · rintro ⟨value, rest, hTakes, hRest, rfl⟩
    exact ⟨(name, value), rest, ⟨rfl, hTakes⟩, hRest, rfl⟩

/-- Every field has its place in a form. -/
theorem exists_fillsIn {fields : List (FieldName × FieldValue)} {form : NodeForm}
    (h : List.Forall₂ FillsIn fields form) {field : FieldName × FieldValue}
    (hField : field ∈ fields) : ∃ expected ∈ form, FillsIn field expected := by
  induction h with
  | nil => cases hField
  | cons hFirst _ ih =>
      rcases List.mem_cons.mp hField with rfl | hRest
      · exact ⟨_, List.mem_cons_self, hFirst⟩
      · obtain ⟨expected, hExpected, hFills⟩ := ih hRest
        exact ⟨expected, List.mem_cons_of_mem _ hExpected, hFills⟩

/-- The filled slots of a list hold trees with roots of some kinds. -/
def SlotsOf (accepts : NodeKind → Bool) (slots : List (Option Node)) : Prop :=
  ∀ node, some node ∈ slots → node.IsOf accepts

/-- Trees with roots of some kinds. -/
def ListOf (accepts : NodeKind → Bool) (nodes : List Node) : Prop :=
  ∀ node ∈ nodes, node.IsOf accepts

/-- Slots of which the last that is filled may hold a rest element. -/
structure RestSlots (accepts : NodeKind → Bool) (slots : List (Option Node)) : Prop where
  slotsOf : SlotsOf accepts slots
  restLast : RestLast slots

/-- A list of which the last may be a rest element. -/
structure RestList (accepts : NodeKind → Bool) (nodes : List Node) : Prop where
  listOf : ListOf accepts nodes
  restLast : RestLast (nodes.map some)

/-- A tree with a root of some kind, or nothing. -/
def SlotOf (accepts : NodeKind → Bool) (slot : Option Node) : Prop :=
  ∀ node, slot = some node → node.IsOf accepts

variable {accepts weaker : NodeKind → Bool} {nodes : List Node} {slots : List (Option Node)}

theorem isOf_iff : node.IsOf accepts ↔ node.Shaped ∧ accepts node.kind = true :=
  ⟨fun h => ⟨h.1, h.2⟩, fun h => ⟨h.1, h.2⟩⟩

theorem IsOf.imp (h : node.IsOf accepts) (hImp : ∀ kind, accepts kind = true → weaker kind = true) :
    node.IsOf weaker := ⟨h.shaped, hImp _ h.accepted⟩

/-- A kind that is known is one of those that are accepted. -/
theorem IsOf.weaken {kind : NodeKind} (h : node.IsOf (· == kind)) (hKind : weaker kind = true) :
    node.IsOf weaker :=
  ⟨h.shaped, eq_of_beq h.accepted ▸ hKind⟩

theorem ListOf.nil : ListOf accepts [] := by simp [ListOf]

theorem ListOf.singleton (h : node.IsOf accepts) : ListOf accepts [node] := by
  simpa [ListOf] using h

theorem ListOf.concat (h : ListOf accepts nodes) (hNode : node.IsOf accepts) :
    ListOf accepts (nodes ++ [node]) :=
  List.forall_mem_append.mpr ⟨h, ListOf.singleton hNode⟩

theorem SlotsOf.nil : SlotsOf accepts [] := by simp [SlotsOf]

theorem SlotsOf.hole (h : SlotsOf accepts slots) : SlotsOf accepts (slots ++ [none]) :=
  fun node hNode => h node (by simpa using hNode)

theorem SlotsOf.concat (h : SlotsOf accepts slots) (hNode : node.IsOf accepts) :
    SlotsOf accepts (slots ++ [some node]) := fun held hHeld => by
  rcases List.mem_append.mp hHeld with hSeen | hLast
  · exact h held hSeen
  · obtain rfl := Option.some.inj (List.mem_singleton.mp hLast)
    exact hNode

/-- Where no rest element stands, one may be put at the end. -/
theorem RestLast.concat {last : Node} (h : ∀ held, some held ∈ slots → held.kind ≠ .restElement) :
    RestLast (slots ++ [some last]) := by
  intro front rest back hEq hKind
  obtain rfl | ⟨back, slot, rfl⟩ := back.eq_nil_or_concat
  · simp
  · rw [List.concat_eq_append, ← List.cons_append, ← List.append_assoc] at hEq
    refine absurd hKind (h rest ?_)
    rw [(List.append_inj' hEq rfl).1]
    simp

theorem RestLast.of_forall (h : ∀ held, some held ∈ slots → held.kind ≠ .restElement) :
    RestLast slots := by
  rintro front rest back rfl hKind
  exact absurd hKind (h rest (by simp))

theorem SlotsOf.kind_ne (h : SlotsOf accepts slots) (hRest : accepts .restElement = false) :
    ∀ held, some held ∈ slots → held.kind ≠ .restElement := by
  intro held hHeld hKind
  have hAccepted := (h held hHeld).accepted
  rw [hKind, hRest] at hAccepted
  cases hAccepted

theorem ListOf.slotsOf (h : ListOf accepts nodes) : SlotsOf accepts (nodes.map Option.some) := by
  intro node hNode
  obtain ⟨held, hHeld, ⟨⟩⟩ := List.mem_map.mp hNode
  exact h node hHeld

theorem SlotsOf.rest (h : SlotsOf accepts slots) (hRest : accepts .restElement = false)
    (hImp : ∀ kind, accepts kind = true → weaker kind = true) : RestSlots weaker slots :=
  ⟨fun held hHeld => (h held hHeld).imp hImp, .of_forall (h.kind_ne hRest)⟩

theorem SlotsOf.concat_rest (h : SlotsOf accepts slots) (hRest : accepts .restElement = false)
    (hImp : ∀ kind, accepts kind = true → weaker kind = true) (hNode : node.IsOf weaker) :
    RestSlots weaker (slots ++ [some node]) :=
  ⟨(h.rest hRest hImp).slotsOf.concat hNode, .concat (h.kind_ne hRest)⟩

theorem ListOf.rest (h : ListOf accepts nodes) (hRest : accepts .restElement = false)
    (hImp : ∀ kind, accepts kind = true → weaker kind = true) : RestList weaker nodes :=
  ⟨fun held hHeld => (h held hHeld).imp hImp, .of_forall (h.slotsOf.kind_ne hRest)⟩

theorem ListOf.concat_rest (h : ListOf accepts nodes) (hRest : accepts .restElement = false)
    (hImp : ∀ kind, accepts kind = true → weaker kind = true) (hNode : node.IsOf weaker) :
    RestList weaker (nodes ++ [node]) :=
  ⟨(h.rest hRest hImp).listOf.concat hNode, by
    rw [List.map_append]
    exact .concat (h.slotsOf.kind_ne hRest)⟩

theorem SlotOf.none : SlotOf accepts none := by simp [SlotOf]

theorem SlotOf.some (h : node.IsOf accepts) : SlotOf accepts (some node) := by
  rintro held ⟨⟩
  exact h

end Node

/-- A field holds what it is there for, down to the leaves. -/
def Part.Holds (part : Part) (value : FieldValue) : Prop :=
  part.Takes value ∧ ∀ child ∈ value.filled, child.Shaped

/-- Fields that make a node of some kind have the shape of a program. -/
def NodeKind.Fits (kind : NodeKind) (fields : List (FieldName × FieldValue)) : Prop :=
  ∃ form ∈ kind.forms,
    List.Forall₂ (fun field expected => field.1 = expected.1 ∧ expected.2.Holds field.2) fields form

namespace Part

variable {accepts : NodeKind → Bool}

@[simp] theorem holds_one {node : Node} :
    (one accepts).Holds (.node node) ↔ node.IsOf accepts := by
  simp [Holds, Node.isOf_iff, and_comm]

@[simp] theorem holds_optional {slot : Option Node} :
    (optional accepts).Holds (.slot slot) ↔ Node.SlotOf accepts slot := by
  cases slot <;> simp [Holds, Node.SlotOf, Node.isOf_iff, and_comm]

@[simp] theorem holds_many {nodes : List Node} :
    (many accepts).Holds (.nodes nodes) ↔ Node.ListOf accepts nodes := by
  simp only [Holds, many_takes_nodes, Field.filled_nodes, Node.ListOf]
  exact ⟨fun h node hNode => ⟨h.2 node hNode, h.1 node hNode⟩,
    fun h => ⟨fun node hNode => (h node hNode).2, fun node hNode => (h node hNode).1⟩⟩

@[simp] theorem holds_holed {slots : List (Option Node)} :
    (holed accepts).Holds (.slots slots) ↔ Node.SlotsOf accepts slots := by
  simp only [Holds, holed_takes_slots, Field.filled_slots, Node.SlotsOf, List.mem_filterMap, id]
  refine ⟨fun h node hNode => ⟨h.2 node ⟨_, hNode, rfl⟩, h.1 node hNode⟩,
    fun h => ⟨fun node hNode => (h node hNode).2, ?_⟩⟩
  rintro node ⟨slot, hNode, rfl⟩
  exact (h node hNode).1

theorem holds_restLast {list : Part} {value : FieldValue} :
    (restLast list).Holds value ↔ list.Holds value ∧ Node.RestLast value.slotList := by
  simp only [Holds, restLast_takes]
  exact and_right_comm

@[simp] theorem holds_restLast_many {nodes : List Node} :
    (restLast (many accepts)).Holds (.nodes nodes) ↔ Node.RestList accepts nodes := by
  rw [holds_restLast, holds_many]
  exact ⟨fun h => ⟨h.1, h.2⟩, fun h => ⟨h.1, h.2⟩⟩

@[simp] theorem holds_restLast_holed {slots : List (Option Node)} :
    (restLast (holed accepts)).Holds (.slots slots) ↔ Node.RestSlots accepts slots := by
  rw [holds_restLast, holds_holed]
  exact ⟨fun h => ⟨h.1, h.2⟩, fun h => ⟨h.1, h.2⟩⟩

@[simp] theorem holds_text {text : String} : word.Holds (.text text) := by simp [Holds]

@[simp] theorem holds_wordIn {accepts : String → Bool} {text : String} :
    (wordIn accepts).Holds (.text text) ↔ accepts text = true := by simp [Holds]

@[simp] theorem holds_flag {value held : Bool} :
    (flag value).Holds (.flag held) ↔ held = value := by simp [Holds]

@[simp] theorem data_holds_text {text : String} : data.Holds (.text text) := by simp [Holds]

@[simp] theorem data_holds_flag {value : Bool} : data.Holds (.flag value) := by simp [Holds]

@[simp] theorem data_holds_number {value : Float} : data.Holds (.number value) := by simp [Holds]

@[simp] theorem data_holds_null : data.Holds .null := by simp [Holds]

end Part

/-- A tree has the shape of a program if the fields of its root make one. -/
theorem Node.shaped_iff_fits {node : Node} : node.Shaped ↔ node.kind.Fits node.fields := by
  have hForm : ∀ {fields : List (FieldName × FieldValue)} {form : NodeForm},
      (List.Forall₂ Node.FillsIn fields form ∧ ∀ child ∈ Field.filledIn fields, child.Shaped) ↔
        List.Forall₂ (fun field expected => field.1 = expected.1 ∧ expected.2.Holds field.2)
          fields form := by
    intro fields form
    refine ⟨?_, fun h => ?_⟩
    · rintro ⟨hFields, hBelow⟩
      induction hFields with
      | nil => exact .nil
      | cons hFirst _ ih =>
          obtain ⟨hHere, hRest⟩ := List.forall_mem_append.mp hBelow
          exact .cons ⟨hFirst.1, hFirst.2, hHere⟩ (ih hRest)
    · induction h with
      | nil => exact ⟨.nil, by simp⟩
      | cons hFirst _ ih =>
          exact ⟨.cons ⟨hFirst.1, hFirst.2.1⟩ ih.1,
            List.forall_mem_append.mpr ⟨hFirst.2.2, ih.2⟩⟩
  rw [shaped_iff, children_eq_filledIn]
  refine ⟨fun ⟨⟨form, hMem, hFields⟩, hBelow⟩ => ⟨form, hMem, hForm.mp ⟨hFields, hBelow⟩⟩, ?_⟩
  rintro ⟨form, hMem, hFields⟩
  exact ⟨⟨form, hMem, (hForm.mpr hFields).1⟩, (hForm.mpr hFields).2⟩

end EcmaLint
