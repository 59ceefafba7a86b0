import EcmaLint.Text.Span
import EcmaLint.Tree.Kind

/-! Syntax trees. A node has a number, a kind, the span it covers and its fields in visiting
order; a field holds one child slot, a list of child slots, or plain data. A slot may be empty:
`var a;` has no initializer, and `[a, , b]` has a hole. -/
namespace EcmaLint

/-- The number of a node: nodes are numbered in the order in which they are made. -/
abbrev NodeId := Nat

/-- What a field holds, over what stands in its slots. -/
inductive Field (α : Type) where
  | slot (child : Option α)
  | slots (children : List (Option α))
  | text (value : String)
  | flag (value : Bool)
  | number (value : Float)
  | null

inductive Node where
  | mk (id : NodeId) (kind : NodeKind) (span : Span) (fields : List (FieldName × Field Node))

/-- What a field of a node holds. -/
abbrev FieldValue := Field Node

instance : Inhabited Node := ⟨.mk 0 .emptyStatement ⟨0, 0⟩ []⟩

namespace Node

protected def id : Node → NodeId
  | mk id _ _ _ => id

def kind : Node → NodeKind
  | mk _ kind _ _ => kind

def span : Node → Span
  | mk _ _ span _ => span

def fields : Node → List (FieldName × FieldValue)
  | mk _ _ _ fields => fields

/-- The value of the first field with a name. -/
def field? (node : Node) (name : FieldName) : Option FieldValue := node.fields.lookup name

/-- The node in a field that holds one slot. -/
def child? (node : Node) (name : FieldName) : Option Node :=
  match node.field? name with
  | some (.slot child) => child
  | _ => none

/-- The slots of a list field, holes included. -/
def elements (node : Node) (name : FieldName) : List (Option Node) :=
  match node.field? name with
  | some (.slots children) => children
  | _ => []

/-- The nodes of a list field, without its holes. -/
def list (node : Node) (name : FieldName) : List Node := (node.elements name).filterMap id

def text? (node : Node) (name : FieldName) : Option String :=
  match node.field? name with
  | some (.text value) => some value
  | _ => none

/-- A flag; a node without the field does not have it set. -/
def flag (node : Node) (name : FieldName) : Bool :=
  match node.field? name with
  | some (.flag value) => value
  | _ => false

def number? (node : Node) (name : FieldName) : Option Float :=
  match node.field? name with
  | some (.number value) => some value
  | _ => none

/-- The name of an identifier. -/
def name? (node : Node) : Option String :=
  if node.kind = .identifier then node.text? .ident else none

end Node

namespace Field

variable {α β : Type}

/-- A slot that is filled. -/
def node (child : α) : Field α := .slot (some child)

/-- A list of slots that are all filled. -/
def nodes (children : List α) : Field α := .slots (children.map some)

/-- The slots that a field holds. -/
def slotList : Field α → List (Option α)
  | .slot child => [child]
  | .slots children => children
  | _ => []

/-- A field with something else in its slots. -/
def map (f : α → β) : Field α → Field β
  | .slot child => .slot (child.map f)
  | .slots children => .slots (children.map (Option.map f))
  | .text value => .text value
  | .flag value => .flag value
  | .number value => .number value
  | .null => .null

end Field

namespace Node

/-- Every slot of a node with the name of its field, in visiting order. -/
def slots (node : Node) : List (FieldName × Option Node) :=
  node.fields.flatMap fun (name, value) => value.slotList.map fun slot => (name, slot)

/-- Every child of a node with the name of the field that holds it, in visiting order. -/
def namedChildren (node : Node) : List (FieldName × Node) :=
  node.slots.filterMap fun (name, slot) => slot.map fun child => (name, child)

/-- The children of a node in visiting order. -/
def children (node : Node) : List Node := node.namedChildren.map Prod.snd

/-- The written form that names a node in lists: its kind and its span. -/
def label (node : Node) : String := node.kind.name ++ "@" ++ node.span.render

/-- The sizes of nodes added up: what is left to do for a walk that still has to visit them
and everything below them. -/
noncomputable def totalSize : List Node → Nat
  | [] => 0
  | node :: rest => sizeOf node + totalSize rest

theorem totalSize_append (first second : List Node) :
    totalSize (first ++ second) = totalSize first + totalSize second := by
  induction first with
  | nil => exact (Nat.zero_add _).symm
  | cons node rest ih =>
    rw [List.cons_append, totalSize, totalSize, ih]
    omega

theorem sizeOf_le_totalSize {node : Node} {nodes : List Node} (h : node ∈ nodes) :
    sizeOf node ≤ totalSize nodes := by
  induction nodes with
  | nil => exact absurd h List.not_mem_nil
  | cons first rest ih =>
    rw [totalSize]
    rcases List.mem_cons.1 h with rfl | h
    · omega
    · have := ih h
      omega

end Node

private theorem totalSize_slots_lt (slots : List (Option Node)) :
    Node.totalSize (slots.filterMap id) < sizeOf slots := by
  induction slots with
  | nil => exact Nat.zero_lt_one
  | cons slot rest ih =>
    cases slot with
    | none =>
      have h : (none :: rest).filterMap id = rest.filterMap id := rfl
      rw [h, List.cons.sizeOf_spec]
      omega
    | some child =>
      have h : (some child :: rest).filterMap id = child :: rest.filterMap id := rfl
      rw [h, Node.totalSize, List.cons.sizeOf_spec, Option.some.sizeOf_spec]
      omega

private theorem sizeOf_field_pos (value : FieldValue) : 0 < sizeOf value := by
  cases value with
  | slot child => rw [Field.slot.sizeOf_spec]; omega
  | slots children => rw [Field.slots.sizeOf_spec]; omega
  | text value => rw [Field.text.sizeOf_spec]; omega
  | flag value => rw [Field.flag.sizeOf_spec]; omega
  | number value => rw [Field.number.sizeOf_spec]; omega
  | null => rw [Field.null.sizeOf_spec]; omega

private theorem totalSize_slotList_lt (value : FieldValue) :
    Node.totalSize (value.slotList.filterMap id) < sizeOf value := by
  match value with
  | .slot none => exact sizeOf_field_pos _
  | .slot (some child) =>
    have h : (Field.slot (some child)).slotList.filterMap id = [child] := rfl
    rw [h, Node.totalSize, Node.totalSize, Field.slot.sizeOf_spec, Option.some.sizeOf_spec]
    omega
  | .slots children =>
    have := totalSize_slots_lt children
    rw [Field.slotList, Field.slots.sizeOf_spec]
    omega
  | .text _ | .flag _ | .number _ | .null => exact sizeOf_field_pos _

private theorem totalSize_fields_lt (fields : List (FieldName × FieldValue)) :
    Node.totalSize (fields.flatMap fun f => f.2.slotList.filterMap id) < sizeOf fields := by
  induction fields with
  | nil => exact Nat.zero_lt_one
  | cons field rest ih =>
    obtain ⟨name, value⟩ := field
    have h : Node.totalSize ((name, value).2.slotList.filterMap id) < sizeOf value :=
      totalSize_slotList_lt value
    rw [List.flatMap_cons, Node.totalSize_append, List.cons.sizeOf_spec, Prod.mk.sizeOf_spec]
    omega

namespace Node

theorem children_eq_flatMap (node : Node) :
    node.children = node.fields.flatMap fun f => f.2.slotList.filterMap id := by
  simp only [children, namedChildren, slots]
  induction node.fields with
  | nil => rfl
  | cons field rest ih =>
    obtain ⟨name, value⟩ := field
    simp only [List.flatMap_cons, List.filterMap_append, List.map_append, ih]
    congr 1
    induction value.slotList with
    | nil => rfl
    | cons slot slots ih => cases slot <;> simp_all

/-- The children of a node are together smaller than the node. -/
theorem totalSize_children_lt (node : Node) : totalSize node.children < sizeOf node := by
  rw [children_eq_flatMap]
  obtain ⟨id, kind, span, fields⟩ := node
  have := totalSize_fields_lt fields
  rw [Node.fields, Node.mk.sizeOf_spec]
  omega

/-- A child is smaller than its parent. -/
theorem sizeOf_lt_of_mem_children {node child : Node} (h : child ∈ node.children) :
    sizeOf child < sizeOf node :=
  Nat.lt_of_le_of_lt (sizeOf_le_totalSize h) (totalSize_children_lt node)

/-- The slots of a field are among the slots of the node. -/
theorem mem_children_of_field? {node child : Node} {name : FieldName} {value : FieldValue}
    (h : node.field? name = some value) (hc : some child ∈ value.slotList) :
    child ∈ node.children := by
  rw [children_eq_flatMap, List.mem_flatMap]
  have hmem : (name, value) ∈ node.fields := by
    simp only [field?] at h
    generalize node.fields = fields at h
    induction fields with
    | nil => simp at h
    | cons first rest ih =>
      obtain ⟨other, held⟩ := first
      rw [List.lookup_cons] at h
      split at h
      · simp_all
      · exact List.mem_cons_of_mem _ (ih h)
  exact ⟨(name, value), hmem, List.mem_filterMap.2 ⟨some child, hc, rfl⟩⟩

/-- The node in a field is a child. -/
theorem mem_children_of_child? {node child : Node} {name : FieldName}
    (h : node.child? name = some child) : child ∈ node.children := by
  simp only [child?] at h
  split at h
  · rename_i slot hf
    exact mem_children_of_field? hf (by simp [Field.slotList, h])
  · simp at h

/-- The nodes of a list field are children. -/
theorem mem_children_of_mem_list {node child : Node} {name : FieldName}
    (h : child ∈ node.list name) : child ∈ node.children := by
  simp only [list, elements, List.mem_filterMap, id] at h
  obtain ⟨slot, hm, rfl⟩ := h
  split at hm
  · rename_i children hf
    exact mem_children_of_field? hf (by simpa [Field.slotList] using hm)
  · simp at hm

end Node

end EcmaLint
