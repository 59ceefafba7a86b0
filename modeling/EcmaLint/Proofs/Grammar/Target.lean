import EcmaLint.Grammar.Target
import EcmaLint.Proofs.Except
import EcmaLint.Proofs.Tree.Aligned

/-! Turning an expression into a target changes kinds and drops operators, and nothing else: the
tree keeps its nodes, with their numbers, spans and order. -/
namespace EcmaLint.Node

/-- A tree in which nodes were changed in ways that do not matter to how it is put together. -/
structure Turned (changed old : Node) : Prop where
  root : changed.Resembles old
  ids_eq : changed.subtree.map Node.id = old.subtree.map Node.id
  below : ∀ node ∈ changed.subtree, ∃ before ∈ old.subtree, node.Resembles before
  /-- An object that is still one was not touched. -/
  objects : ∀ node ∈ changed.subtree, node.kind = .objectExpression → node ∈ old.subtree

/-- A named child that was turned. -/
def NamedTurned (changed old : FieldName × Node) : Prop :=
  changed.1 = old.1 ∧ changed.2.Turned old.2

namespace Turned

variable {changed old : Node}

theorem refl (node : Node) : node.Turned node :=
  ⟨Resembles.refl node, rfl, fun other h => ⟨other, h, Resembles.refl other⟩, fun _ h _ => h⟩

theorem ids_flatMap {changed old : List Node} (h : List.Forall₂ Turned changed old) :
    (changed.flatMap subtree).map Node.id = (old.flatMap subtree).map Node.id := by
  induction h with
  | nil => rfl
  | cons hFirst _ ih =>
      rw [List.flatMap_cons, List.flatMap_cons, List.map_append, List.map_append, hFirst.ids_eq, ih]

theorem exists_of_mem_flatMap {changed old : List Node} (h : List.Forall₂ Turned changed old)
    {node : Node} (hNode : node ∈ changed.flatMap subtree) :
    ∃ before ∈ old.flatMap subtree, node.Resembles before := by
  induction h with
  | nil => cases hNode
  | cons hFirst _ ih =>
      rw [List.flatMap_cons] at hNode ⊢
      rcases List.mem_append.mp hNode with hNode | hNode
      · obtain ⟨before, hBefore, hResembles⟩ := hFirst.below node hNode
        exact ⟨before, List.mem_append_left _ hBefore, hResembles⟩
      · obtain ⟨before, hBefore, hResembles⟩ := ih hNode
        exact ⟨before, List.mem_append_right _ hBefore, hResembles⟩

theorem objects_flatMap {changed old : List Node} (h : List.Forall₂ Turned changed old) :
    ∀ node ∈ changed.flatMap subtree, node.kind = .objectExpression →
      node ∈ old.flatMap subtree := by
  induction h with
  | nil => simp
  | cons hFirst _ ih =>
      intro node hNode hKind
      rw [List.flatMap_cons] at hNode ⊢
      rcases List.mem_append.mp hNode with hNode | hNode
      · exact List.mem_append_left _ (hFirst.objects node hNode hKind)
      · exact List.mem_append_right _ (ih node hNode hKind)

/-- A tree is turned if its root resembles the old one and its children are turned in place. -/
theorem of_named (hId : changed.id = old.id) (hSpan : changed.span = old.span)
    (hNamed : List.Forall₂ NamedTurned changed.namedChildren old.namedChildren)
    (hTemplate : old.kind = .templateLiteral → changed.kind = .templateLiteral)
    (hShorthand : old.IsShorthand → changed.IsShorthand)
    (hPart : old.IsPart → changed.IsPart) (hPlain : changed.kind.IsPlain) :
    changed.Turned old := by
  have hMarks : changed.marks = old.marks := by
    rw [marks, marks, ← List.forall₂_eq_eq_eq, List.forall₂_map_left_iff,
      List.forall₂_map_right_iff]
    refine hNamed.imp fun a b hTurned => ?_
    simp [hTurned.1, hTurned.2.root.id_eq, hTurned.2.root.span_eq]
  have hChildren : List.Forall₂ Turned changed.children old.children := by
    rw [children, children, List.forall₂_map_left_iff, List.forall₂_map_right_iff]
    exact hNamed.imp fun a b hTurned => hTurned.2
  have hRoot : changed.Resembles old := ⟨hId, hSpan, hMarks, hTemplate, hShorthand, hPart,
    fun h => by simp [hPlain.2.2.1, hPlain.2.2.2] at h⟩
  refine ⟨hRoot, ?_, fun node hNode => ?_, fun node hNode hObject => ?_⟩
  · rw [subtree_eq, subtree_eq, List.map_cons, List.map_cons, hId, ids_flatMap hChildren]
  · rw [subtree_eq] at hNode ⊢
    rcases List.mem_cons.mp hNode with rfl | hNode
    · exact ⟨old, List.mem_cons_self, hRoot⟩
    · obtain ⟨before, hBefore, hResembles⟩ := exists_of_mem_flatMap hChildren hNode
      exact ⟨before, List.mem_cons_of_mem _ hBefore, hResembles⟩
  · rw [subtree_eq] at hNode ⊢
    rcases List.mem_cons.mp hNode with rfl | hNode
    · exact absurd hObject hPlain.2.1
    · exact List.mem_cons_of_mem _ (objects_flatMap hChildren node hNode hObject)

end Turned

/-- The value of a field in which nodes were turned. -/
structure ValueTurned (changed old : FieldValue) : Prop where
  filled : List.Forall₂ Turned changed.filled old.filled
  flag : ∀ flag, old = .flag flag → changed = .flag flag

/-- Fields in which nodes were turned. -/
def FieldsTurned : List (FieldName × FieldValue) → List (FieldName × FieldValue) → Prop :=
  List.Forall₂ fun changed old => changed.1 = old.1 ∧ ValueTurned changed.2 old.2

theorem ValueTurned.refl (value : FieldValue) : ValueTurned value value :=
  ⟨List.forall₂_same.mpr fun node _ => Turned.refl node, fun _ => id⟩

theorem FieldsTurned.refl (fields : List (FieldName × FieldValue)) : FieldsTurned fields fields :=
  List.forall₂_same.mpr fun field _ => ⟨rfl, ValueTurned.refl field.2⟩

namespace FieldsTurned

variable {changed old : List (FieldName × FieldValue)}

theorem named (h : FieldsTurned changed old) :
    List.Forall₂ NamedTurned (Field.namedIn changed) (Field.namedIn old) := by
  induction h with
  | nil => exact List.Forall₂.nil
  | @cons a b _ _ hField _ ih =>
      rw [Field.namedIn, Field.namedIn, List.flatMap_cons, List.flatMap_cons]
      refine List.rel_append ?_ ih
      rw [List.forall₂_map_left_iff, List.forall₂_map_right_iff]
      exact hField.2.filled.imp fun _ _ hTurned => ⟨hField.1, hTurned⟩

theorem lookup_flag (h : FieldsTurned changed old) {name : FieldName} {flag : Bool}
    (hOld : old.lookup name = some (.flag flag)) : changed.lookup name = some (.flag flag) := by
  induction h with
  | nil => cases hOld
  | @cons a b _ _ hField _ ih =>
      rw [List.lookup_cons] at hOld ⊢
      rw [hField.1]
      split at hOld
      · rw [hField.2.flag flag (Option.some.inj hOld)]
      · exact ih hOld

theorem operatorIsPlain (h : FieldsTurned changed old)
    (hOld : ∀ field ∈ old, field.1 = .operator → field.2.filled = []) :
    ∀ field ∈ changed, field.1 = .operator → field.2.filled = [] := by
  induction h with
  | nil => simp
  | @cons a b _ _ hField _ ih =>
      obtain ⟨hFirst, hRest⟩ := List.forall_mem_cons.mp hOld
      refine List.forall_mem_cons.mpr ⟨fun hName => ?_, ih hRest⟩
      have hFilled := hField.2.filled
      rw [hFirst (hField.1 ▸ hName)] at hFilled
      exact List.forall₂_nil_right_iff.mp hFilled

/-- A node with turned fields is turned, if its kind stays what matters. -/
theorem turned (h : FieldsTurned changed old) {id : NodeId} {kind oldKind : NodeKind} {span : Span}
    (hTemplate : oldKind = .templateLiteral → kind = .templateLiteral)
    (hProperty : oldKind = .property → kind = .property)
    (hPlain : kind.IsPlain) : (mk id kind span changed).Turned (mk id oldKind span old) := by
  refine .of_named rfl rfl ?_ hTemplate ?_ (fun hPart => ⟨hPlain.1, h.operatorIsPlain
    hPart.operatorIsPlain, fun h => absurd h hPlain.2.1⟩) hPlain
  · rw [namedChildren_eq_namedIn, namedChildren_eq_namedIn]
    exact h.named
  · rintro ⟨hKind, hFlag⟩
    refine ⟨hProperty hKind, ?_⟩
    unfold flag field? at hFlag ⊢
    split at hFlag
    case h_1 value hLookup =>
      rw [show (mk id kind span changed).fields.lookup .shorthand = _ from h.lookup_flag hLookup]
      exact hFlag
    case h_2 => cases hFlag

end FieldsTurned

/-- All that turning one node can do: leave it as it is, turn what the first field with some name
holds, or drop the operator of an assignment. -/
theorem toTarget_cases {role : TargetRole} {isLast : Bool} {id : NodeId} {kind : NodeKind}
    {span : Span} {fields : List (FieldName × FieldValue)} {target : Node}
    (h : toTarget role isLast (mk id kind span fields) = .ok target) :
    target = mk id kind span fields ∨
    (∃ changedKind name inner changed, targetFields name inner fields = .ok changed ∧
      target = mk id changedKind span changed ∧
      (kind = .templateLiteral → changedKind = .templateLiteral) ∧
      (kind = .property → changedKind = .property) ∧
      changedKind.IsPlain) ∨
    (kind = .assignmentExpression ∧
      target =
        mk id .assignmentPattern span (fields.filter fun field => field.1 != .operator)) := by
  have hTurn : ∀ {changedKind name inner},
      (do return mk id changedKind span (← targetFields name inner fields)) = .ok target →
      (kind = .templateLiteral → changedKind = .templateLiteral) →
      (kind = .property → changedKind = .property) →
      changedKind.IsPlain →
      ∃ changedKind name inner changed, targetFields name inner fields = .ok changed ∧
        target = mk id changedKind span changed ∧
        (kind = .templateLiteral → changedKind = .templateLiteral) ∧
        (kind = .property → changedKind = .property) ∧
        changedKind.IsPlain := by
    intro changedKind name inner hTurned hTemplate hProperty hPlain
    obtain ⟨changed, hFields, ⟨⟩⟩ := exists_of_bind_eq_ok hTurned
    exact ⟨changedKind, name, inner, changed, hFields, rfl, hTemplate, hProperty, hPlain⟩
  unfold toTarget at h
  split at h
  case h_1 =>
    split at h
    · cases h
    · exact Or.inr (Or.inl (hTurn h (by simp) (by simp) (by simp)))
  case h_2 | h_3 =>
    split at h
    · cases h
    · split at h
      · cases h
      · exact Or.inr (Or.inl (hTurn h (by simp) (by simp) (by simp)))
  case h_5 | h_6 | h_7 => exact Or.inl (Except.ok.inj h).symm
  case h_8 | h_9 => exact Or.inr (Or.inl (hTurn h (by simp) (by simp) (by simp)))
  case h_10 =>
    split at h
    · exact Or.inr (Or.inr ⟨rfl, (Except.ok.inj h).symm⟩)
    · cases h
  all_goals cases h

/-- Dropping an operator, which holds no child, leaves the children in place. -/
theorem turned_of_filter {id : NodeId} {span : Span} {fields : List (FieldName × FieldValue)}
    (hPlain : ∀ field ∈ fields, field.1 = .operator → field.2.filled = []) :
    (mk id .assignmentPattern span (fields.filter fun field => field.1 != .operator)).Turned
      (mk id .assignmentExpression span fields) := by
  have hNamed : Field.namedIn (fields.filter fun field => field.1 != .operator) =
      Field.namedIn fields := by
    induction fields with
    | nil => rfl
    | cons field rest ih =>
        obtain ⟨hField, hRest⟩ := List.forall_mem_cons.mp hPlain
        rw [Field.namedIn, Field.namedIn, List.filter_cons, List.flatMap_cons]
        by_cases hName : field.1 = .operator
        · rw [hField hName, if_neg (by simp [hName])]
          exact ih hRest
        · rw [if_pos (by simp [hName]), List.flatMap_cons]
          exact congrArg _ (ih hRest)
  refine .of_named rfl rfl ?_ (by rintro ⟨⟩) (by rintro ⟨⟨⟩, -⟩) ?_ (by simp [Node.kind])
  · rw [namedChildren_eq_namedIn, namedChildren_eq_namedIn, Node.fields, Node.fields, hNamed]
    exact List.forall₂_same.mpr fun child _ => ⟨rfl, Turned.refl child.2⟩
  · exact fun _ => ⟨by simp [Node.kind],
      fun field hField => hPlain field (List.mem_of_mem_filter hField), by simp [Node.kind]⟩

/-- The operators in some trees are plain data. -/
def OperatorsArePlain (nodes : List Node) : Prop := ∀ node ∈ forest nodes, node.OperatorIsPlain

theorem operatorsArePlain_append {first second : List Node} :
    OperatorsArePlain (first ++ second) ↔ OperatorsArePlain first ∧ OperatorsArePlain second := by
  simp only [OperatorsArePlain, forest_append, List.forall_mem_append]

theorem OperatorsArePlain.children {node : Node} (h : OperatorsArePlain [node]) :
    OperatorsArePlain node.children := fun child hChild => h child (by
  rw [forest_singleton]
  exact List.mem_cons_of_mem _ hChild)

mutual

/-- A target is the tree of the expression with some nodes turned. -/
theorem turned_of_toTarget {role : TargetRole} {isLast : Bool} {target : Node} :
    ∀ node : Node, OperatorsArePlain [node] → toTarget role isLast node = .ok target →
      target.Turned node
  | .mk id kind span fields, hPlain, h => by
      rcases toTarget_cases h with rfl | hTurn | ⟨rfl, rfl⟩
      · exact Turned.refl _
      · obtain ⟨changedKind, name, inner, changed, hFields, rfl, hTemplate, hProperty, hKind⟩ :=
          hTurn
        have hBelow := hPlain.children
        rw [children_eq_filledIn] at hBelow
        exact (fieldsTurned_of_targetFields fields hBelow hFields).turned hTemplate hProperty
          hKind
      · exact turned_of_filter (hPlain _ (mem_forest_of_mem (List.mem_singleton_self _)))
termination_by structural node => node

theorem fieldsTurned_of_targetFields {name : FieldName} {role : TargetRole}
    {changed : List (FieldName × FieldValue)} :
    ∀ fields : List (FieldName × FieldValue), OperatorsArePlain (Field.filledIn fields) →
      targetFields name role fields = .ok changed → FieldsTurned changed fields
  | [], _, h => by
      cases h
      exact List.Forall₂.nil
  | (field, value) :: rest, hPlain, h => by
      obtain ⟨hValue, hRest⟩ := operatorsArePlain_append.mp hPlain
      unfold targetFields at h
      split at h
      · obtain ⟨_, hTurned, ⟨⟩⟩ := exists_of_bind_eq_ok h
        exact List.Forall₂.cons ⟨rfl, valueTurned_of_targetValue value hValue hTurned⟩
          (FieldsTurned.refl rest)
      · obtain ⟨_, hTurned, ⟨⟩⟩ := exists_of_bind_eq_ok h
        exact List.Forall₂.cons ⟨rfl, ValueTurned.refl value⟩
          (fieldsTurned_of_targetFields rest hRest hTurned)
termination_by structural fields => fields

theorem valueTurned_of_targetValue {role : TargetRole} {changed : FieldValue} :
    ∀ value : FieldValue, OperatorsArePlain value.filled →
      targetValue role value = .ok changed → ValueTurned changed value
  | .slot (some child), hPlain, h => by
      unfold targetValue at h
      obtain ⟨_, hTurned, ⟨⟩⟩ := exists_of_bind_eq_ok h
      exact ⟨List.Forall₂.cons (turned_of_toTarget child hPlain hTurned) List.Forall₂.nil,
        by rintro _ ⟨⟩⟩
  | .slots children, hPlain, h => by
      unfold targetValue at h
      obtain ⟨_, hTurned, ⟨⟩⟩ := exists_of_bind_eq_ok h
      exact ⟨turned_of_targetSlots children hPlain hTurned, by rintro _ ⟨⟩⟩
  | .slot none, _, h | .text _, _, h | .flag _, _, h | .number _, _, h | .null, _, h => by
      cases h
      exact ValueTurned.refl _
termination_by structural value => value

theorem turned_of_targetSlots {role : TargetRole} {changed : List (Option Node)} :
    ∀ slots : List (Option Node), OperatorsArePlain (slots.filterMap id) →
      targetSlots role slots = .ok changed →
      List.Forall₂ Turned (changed.filterMap id) (slots.filterMap id)
  | [], _, h => by
      cases h
      exact List.Forall₂.nil
  | none :: rest, hPlain, h => by
      unfold targetSlots at h
      obtain ⟨_, hTurned, ⟨⟩⟩ := exists_of_bind_eq_ok h
      have hRest := turned_of_targetSlots rest hPlain hTurned
      exact hRest
  | some child :: rest, hPlain, h => by
      obtain ⟨hChild, hRest⟩ := (@operatorsArePlain_append [child] _).mp hPlain
      unfold targetSlots at h
      obtain ⟨_, hTurned, hTail⟩ := exists_of_bind_eq_ok h
      obtain ⟨_, hTurnedRest, ⟨⟩⟩ := exists_of_bind_eq_ok hTail
      exact List.Forall₂.cons (turned_of_toTarget child hChild hTurned)
        (turned_of_targetSlots rest hRest hTurnedRest)
termination_by structural slots => slots

end

end EcmaLint.Node
