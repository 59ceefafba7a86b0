import EcmaLint.Proofs.Selector.RoundTrip
import EcmaLint.Selector.Match

/-! Selectors of a single node. Most keys of listeners name a kind and perhaps some attributes, in
their plain form. Whatever engine there is for regular expressions, such a selector is read as it
is written, and it picks the nodes of the kind that pass the tests on their attributes. -/
namespace EcmaLint

namespace AttributeValue

/-- A name that only one field has leads to what is in that field. -/
theorem step?_node {node : Node} {name : String} {field : FieldName} (hType : name ≠ "type")
    (hName : ∀ other : FieldName, other.text = name ↔ other = field) :
    step? name (.node node) = (node.field? field).map ofField := by
  have hFind : (node.fields.find? fun held => held.1.text == name).map
      (fun held => ofField held.2) = (node.field? field).map ofField := by
    unfold Node.field?
    induction node.fields with
    | nil => rfl
    | cons held rest ih =>
        obtain ⟨other, value⟩ := held
        rw [List.find?_cons, List.lookup_cons]
        by_cases hOther : other = field
        · rw [show (other.text == name) = true from beq_iff_eq.mpr ((hName other).mpr hOther),
            show (field == other) = true from beq_iff_eq.mpr hOther.symm]
          rfl
        · rw [show (other.text == name) = false from
              beq_eq_false_iff_ne.mpr fun h => hOther ((hName other).mp h),
            show (field == other) = false from beq_eq_false_iff_ne.mpr (Ne.symm hOther)]
          exact ih
  rw [step?, if_neg (by simpa using hType)]
  exact hFind

/-- The name of a value is the name of a node. -/
theorem follow?_name_iff {value : AttributeValue} {text : String} :
    follow? ["name"] value = some (.text text) ↔
      ∃ node, value = .node node ∧ node.text? .ident = some text := by
  have hName : ∀ other : FieldName, other.text = "name" ↔ other = .ident := by
    intro other
    cases other <;> decide
  cases value with
  | node node =>
      have hStep := @step?_node node "name" .ident (by decide) hName
      simp only [follow?, hStep, Node.text?, AttributeValue.node.injEq, exists_eq_left']
      cases hField : node.field? .ident with
      | none => simp
      | some value =>
          cases value with
          | slot child => cases child <;> simp [ofField, ofSlot]
          | _ => simp [ofField]
  | list slots => simp [follow?, step?, index?]
  | _ => simp [follow?, step?]

/-- The name of what a field holds. -/
theorem follow?_child_name_iff {node : Node} {name text : String} {field : FieldName}
    (hType : name ≠ "type") (hName : ∀ other : FieldName, other.text = name ↔ other = field) :
    follow? [name, "name"] (.node node) = some (.text text) ↔
      (node.child? field).bind (fun word => word.text? .ident) = some text := by
  rw [follow?, step?_node hType hName, Node.child?]
  cases hField : node.field? field with
  | none => simp
  | some value =>
      rw [Option.map_some, Option.bind_some, follow?_name_iff]
      cases value with
      | slot child => cases child <;> simp [ofField, ofSlot]
      | _ => simp [ofField]

end AttributeValue

namespace Selector

theorem holds_equals_text_iff {path : List String} {text : String} {node : Node} :
    Attribute.holds ⟨path, .equals (.text text)⟩ node = true ↔
      AttributeValue.follow? path (.node node) = some (.text text) := by
  rw [Attribute.holds]
  cases hValue : AttributeValue.follow? path (.node node) with
  | none => simp
  | some value => cases value <;> simp [AttributeTest.holds, AttributeValue.matchesLiteral]

theorem holds_isPresent_iff {path : List String} {node : Node} :
    Attribute.holds ⟨path, .isPresent⟩ node = true ↔
      ∃ value, AttributeValue.follow? path (.node node) = some value ∧ value ≠ .null := by
  rw [Attribute.holds]
  cases hValue : AttributeValue.follow? path (.node node) with
  | none => simp
  | some value => cases value <;> simp [AttributeTest.holds]

/-- A selector of a single node picks what it names. -/
theorem picks_single_iff {source : String} {kind : NodeKind} {attributes : List Attribute}
    {place : Place} :
    Selector.picks ⟨source, [⟨⟨some kind, attributes⟩, []⟩]⟩ place = true ↔
      place.kind = kind ∧ ∀ tested ∈ attributes, tested.holds place.node = true := by
  have hMay : Selector.mayPick ⟨source, [⟨⟨some kind, attributes⟩, []⟩]⟩ place.kind =
      decide (place.kind = kind) := by
    rw [Bool.eq_iff_iff]
    simp [mayPick, candidates?, addCandidate]
  rw [picks, hMay, List.any_cons, List.any_nil, Bool.or_false, Complex.picks, Compound.holds,
    Complex.contextHolds, Bool.and_true, Bool.and_eq_true, Bool.and_eq_true, decide_eq_true_iff,
    and_congr_right_iff, List.all_eq_true]
  rintro rfl
  simp [Place.kind]

end Selector

end EcmaLint
