import Mathlib.Data.List.Forall2
import EcmaLint.Grammar.Target
import EcmaLint.Proofs.Except
import EcmaLint.Proofs.Tree.Forest

/-! Trees of one shape. Where one of two such trees can be turned into a target, so can the other,
and the targets are of one shape again. -/
namespace EcmaLint

/-- What two fields hold is alike. -/
inductive Field.Related {α β : Type} (related : α → β → Prop) : Field α → Field β → Prop
  | slot {child : Option α} {other : Option β} (h : Option.Rel related child other) :
      Related related (.slot child) (.slot other)
  | slots {children : List (Option α)} {others : List (Option β)}
      (h : List.Forall₂ (Option.Rel related) children others) :
      Related related (.slots children) (.slots others)
  | text (value : String) : Related related (.text value) (.text value)
  | flag (value : Bool) : Related related (.flag value) (.flag value)
  | number (value : Float) : Related related (.number value) (.number value)
  | null : Related related .null .null

/-- Two fields of one name. -/
inductive Field.Named {α β : Type} (related : α → β → Prop) :
    FieldName × Field α → FieldName × Field β → Prop
  | mk {name : FieldName} {value : Field α} {other : Field β} (h : Related related value other) :
      Named related (name, value) (name, other)

namespace Field

variable {α β : Type} {related : α → β → Prop}

@[simp] theorem related_slot_iff {child : Option α} {other : Option β} :
    Related related (.slot child) (.slot other) ↔ Option.Rel related child other :=
  ⟨fun h => by cases h; assumption, .slot⟩

@[simp] theorem related_slots_iff {children : List (Option α)} {others : List (Option β)} :
    Related related (.slots children) (.slots others) ↔
      List.Forall₂ (Option.Rel related) children others :=
  ⟨fun h => by cases h; assumption, .slots⟩

@[simp] theorem related_node_iff {child : α} {other : β} :
    Related related (node child) (node other) ↔ related child other := by
  rw [node, node, related_slot_iff]
  exact Option.rel_some_some

@[simp] theorem related_nodes_iff {children : List α} {others : List β} :
    Related related (nodes children) (nodes others) ↔ List.Forall₂ related children others := by
  simp [nodes, Option.rel_some_some]

@[simp] theorem related_text_iff {value other : String} :
    Related related (.text value) (.text other) ↔ value = other :=
  ⟨fun h => by cases h; rfl, fun h => h ▸ .text value⟩

@[simp] theorem related_flag_iff {value other : Bool} :
    Related related (.flag value) (.flag other) ↔ value = other :=
  ⟨fun h => by cases h; rfl, fun h => h ▸ .flag value⟩

@[simp] theorem related_number_iff {value other : Float} :
    Related related (.number value) (.number other) ↔ value = other :=
  ⟨fun h => by cases h; rfl, fun h => h ▸ .number value⟩

@[simp] theorem related_null : Related related .null .null := .null

@[simp] theorem named_iff {name : FieldName} {value : Field α} {other : Field β} :
    Named related (name, value) (name, other) ↔ Related related value other :=
  ⟨fun h => by cases h; assumption, .mk⟩

/-- What stands in alike fields is alike, slot by slot. -/
theorem Related.forall₂_filled {value : Field α} {other : Field β} (h : Related related value other) :
    List.Forall₂ related value.filled other.filled := by
  cases h with
  | slot hChild => cases hChild <;> simp [*]
  | slots hChildren =>
      rw [filled_slots, filled_slots]
      induction hChildren with
      | nil => exact .nil
      | cons hFirst _ ih =>
          cases hFirst with
          | none => exact ih
          | some hChild => exact .cons hChild ih
  | _ => exact .nil

theorem forall₂_filledIn {fields : List (FieldName × Field α)} {changed : List (FieldName × Field β)}
    (h : List.Forall₂ (Named related) fields changed) :
    List.Forall₂ related (filledIn fields) (filledIn changed) := by
  induction h with
  | nil => exact .nil
  | cons hFirst _ ih =>
      obtain ⟨hValue⟩ := hFirst
      exact List.rel_append hValue.forall₂_filled ih

end Field

namespace Node

/-- A node that is to become another one has become it. -/
def Settles (becomes : Node → Node → Prop) (node other : Node) : Prop :=
  (∃ new, becomes node new) → becomes node other

/-- Trees of one shape. Their spans are related, and a node may have become another one. Below an
object every node that is to become another one has become it. -/
inductive Alike (bounds : Span → Span → Prop) (becomes : Node → Node → Prop) :
    Node → Node → Prop
  | same {id other : NodeId} {kind : NodeKind} {span shifted : Span}
      {fields changed : List (FieldName × FieldValue)} (hSpan : bounds span shifted)
      (hFields : List.Forall₂ (Field.Named (Alike bounds becomes)) fields changed)
      (hObject : kind = .objectExpression →
        List.Forall₂ (Field.Named (Settles becomes)) fields changed) :
      Alike bounds becomes (.mk id kind span fields) (.mk other kind shifted changed)
  | changed {node other : Node} (h : becomes node other) : Alike bounds becomes node other

variable {bounds : Span → Span → Prop} {becomes : Node → Node → Prop}
  {fields changed : List (FieldName × FieldValue)}

theorem Alike.kind_eq {node other : Node} (h : Alike bounds becomes node other)
    (hBecomes : ∀ {node other : Node}, becomes node other → other.kind = node.kind) :
    other.kind = node.kind := by
  cases h with
  | same => rfl
  | changed h => exact hBecomes h

theorem isMethodFields_eq {related : Node → Node → Prop}
    (h : List.Forall₂ (Field.Named related) fields changed) :
    isMethodFields changed = isMethodFields fields := by
  unfold isMethodFields
  induction h with
  | nil => rfl
  | cons hFirst _ ih =>
      rw [List.any_cons, List.any_cons, ih]
      obtain ⟨hValue⟩ := hFirst
      rename_i name _ _
      cases hValue <;> cases name <;> rfl

theorem isPlainAssignment_eq {related : Node → Node → Prop}
    (h : List.Forall₂ (Field.Named related) fields changed) :
    isPlainAssignment changed = isPlainAssignment fields := by
  unfold isPlainAssignment
  induction h with
  | nil => rfl
  | cons hFirst _ ih =>
      rw [List.any_cons, List.any_cons, ih]
      obtain ⟨hValue⟩ := hFirst
      rename_i name _ _
      cases hValue <;> cases name <;> rfl

/-- A field with plain data holds the same in both. -/
theorem text?_eq_of_named {related : Node → Node → Prop} {node other : Node}
    (h : List.Forall₂ (Field.Named related) node.fields other.fields) (name : FieldName) :
    other.text? name = node.text? name := by
  unfold text? field?
  generalize node.fields = fields at h
  generalize other.fields = changed at h
  induction h with
  | nil => rfl
  | cons hFirst _ ih =>
      obtain ⟨hValue⟩ := hFirst
      rename_i field _ _
      simp only [List.lookup_cons]
      cases hName : name == field with
      | false => exact ih
      | true => cases hValue <;> rfl

theorem assignedArgument?_argument {value : FieldValue} {rest : List (FieldName × FieldValue)} :
    assignedArgument? ((.argument, value) :: rest) = none ↔
      ∀ child, value = .slot (some child) → child.kind ≠ .assignmentExpression := by
  unfold assignedArgument?
  split
  case h_1 heq =>
    cases heq
    simp [Node.kind]
  case h_2 hNone heq =>
    cases heq
    simp only [true_iff]
    rintro ⟨id, kind, span, fields⟩ rfl hKind
    obtain rfl : kind = .assignmentExpression := hKind
    exact hNone _ _ _ rfl
  case h_3 hNone heq =>
    cases heq
    exact absurd rfl (hNone _)
  case h_4 heq => cases heq

theorem assignedArgument?_of_ne {name : FieldName} (hName : name ≠ .argument) {value : FieldValue}
    {rest : List (FieldName × FieldValue)} :
    assignedArgument? ((name, value) :: rest) = assignedArgument? rest := by
  cases name <;> first | rfl | exact absurd rfl hName

/-- A node whose fields under a name were turned into targets. -/
theorem exists_mk_alike {id other : NodeId} {kind : NodeKind} {span shifted : Span}
    {turned : Except ParseError (List (FieldName × FieldValue))}
    {otherTurned : Except ParseError (List (FieldName × FieldValue))} {target : Node}
    (hSpan : bounds span shifted) (hKind : kind ≠ .objectExpression)
    (hTurned : ∀ result, turned = .ok result → ∃ changed, otherTurned = .ok changed ∧
      List.Forall₂ (Field.Named (Alike bounds becomes)) result changed)
    (h : (do return mk id kind span (← turned) : Except ParseError Node) = .ok target) :
    ∃ changed, (do return mk other kind shifted (← otherTurned) : Except ParseError Node) =
        .ok changed ∧ Alike bounds becomes target changed := by
  obtain ⟨result, hResult, ⟨⟩⟩ := exists_of_bind_eq_ok h
  obtain ⟨changed, hChanged, hFields⟩ := hTurned result hResult
  exact ⟨_, by rw [hChanged]; rfl, .same hSpan hFields fun h => absurd h hKind⟩

theorem all_isNone_eq {slots others : List (Option Node)} {related : Node → Node → Prop}
    (h : List.Forall₂ (Option.Rel related) slots others) :
    others.all Option.isNone = slots.all Option.isNone := by
  induction h with
  | nil => rfl
  | cons hFirst _ ih =>
      rw [List.all_cons, List.all_cons, ih]
      cases hFirst <;> rfl

/-- Without its operator an assignment keeps its shape. -/
theorem forall₂_filter_named {related : Node → Node → Prop}
    (h : List.Forall₂ (Field.Named related) fields changed) :
    List.Forall₂ (Field.Named related) (fields.filter fun field => field.1 != .operator)
      (changed.filter fun field => field.1 != .operator) := by
  induction h with
  | nil => exact .nil
  | cons hFirst _ ih =>
      obtain ⟨hValue⟩ := hFirst
      rename_i name _ _
      rw [List.filter_cons, List.filter_cons]
      by_cases hName : (name != .operator) = true
      · rw [if_pos hName, if_pos hName]
        exact .cons (.mk hValue) ih
      · rw [if_neg hName, if_neg hName]
        exact ih

/-- A node becomes one of the same kind, and where it can be a target both are left as they are. -/
structure KeepsTargets (becomes : Node → Node → Prop) : Prop where
  kind_eq : ∀ {node other : Node}, becomes node other → other.kind = node.kind
  settled : ∀ {node other target : Node} {role : TargetRole} {isLast : Bool},
    becomes node other → toTarget role isLast node = .ok target →
      target = node ∧ toTarget role isLast other = .ok other

theorem assignedArgument?_eq_none (hBecomes : KeepsTargets becomes)
    (h : List.Forall₂ (Field.Named (Alike bounds becomes)) fields changed)
    (hNone : assignedArgument? fields = none) : assignedArgument? changed = none := by
  induction h with
  | nil => rfl
  | cons hFirst _ ih =>
      obtain ⟨hValue⟩ := hFirst
      rename_i name value other
      by_cases hName : name = .argument
      · subst hName
        rw [assignedArgument?_argument] at hNone ⊢
        rintro child rfl
        cases hValue with
        | slot hChild =>
            cases hChild with
            | some hChild => exact hChild.kind_eq hBecomes.kind_eq ▸ hNone _ rfl
      · rw [assignedArgument?_of_ne hName] at hNone ⊢
        exact ih hNone

mutual

/-- Turning a tree into a target turns a tree of the same shape into one of the same shape. -/
theorem exists_toTarget_alike (hBecomes : KeepsTargets becomes) {role : TargetRole}
    {isLast : Bool} {target : Node} :
    ∀ node other : Node, Alike bounds becomes node other → toTarget role isLast node = .ok target →
      ∃ changed, toTarget role isLast other = .ok changed ∧ Alike bounds becomes target changed
  | .mk id kind span fields, other, hAlike, h => by
      cases hAlike with
      | changed hChanged =>
          obtain ⟨rfl, hOther⟩ := hBecomes.settled hChanged h
          exact ⟨other, hOther, .changed hChanged⟩
      | same hSpan hFields hObject =>
          rename_i otherId shifted changed
          have hTurned := fun {name : FieldName} {inner : TargetRole} result hResult =>
            @exists_targetFields_alike hBecomes name inner result fields changed hFields hResult
          unfold toTarget at h ⊢
          split at h
          case h_1 =>
            rw [isMethodFields_eq hFields]
            split at h
            · cases h
            case isFalse hMethod =>
              rw [if_neg hMethod]
              exact exists_mk_alike hSpan (by decide) hTurned h
          case h_2 | h_3 =>
            split at h
            · cases h
            case isFalse hLast =>
              split at h
              · cases h
              case h_2 hArgument =>
                rw [if_neg hLast, assignedArgument?_eq_none hBecomes hFields hArgument]
                exact exists_mk_alike hSpan (by decide) hTurned h
          case h_5 | h_6 | h_7 =>
            cases h
            exact ⟨_, rfl, .same hSpan hFields hObject⟩
          case h_8 | h_9 => exact exists_mk_alike hSpan (by decide) hTurned h
          case h_10 =>
            rw [isPlainAssignment_eq hFields]
            split at h
            case isTrue hPlain =>
              cases h
              rw [if_pos hPlain]
              exact ⟨_, rfl, .same hSpan (forall₂_filter_named hFields) (by simp)⟩
            · cases h
          all_goals cases h
termination_by structural node => node

theorem exists_targetFields_alike (hBecomes : KeepsTargets becomes) {name : FieldName}
    {role : TargetRole} {turned : List (FieldName × FieldValue)} :
    ∀ fields changed : List (FieldName × FieldValue),
      List.Forall₂ (Field.Named (Alike bounds becomes)) fields changed →
      targetFields name role fields = .ok turned →
      ∃ other, targetFields name role changed = .ok other ∧
        List.Forall₂ (Field.Named (Alike bounds becomes)) turned other
  | [], _, hFields, h => by
      cases hFields
      cases h
      exact ⟨_, rfl, .nil⟩
  | (field, value) :: rest, _, hFields, h => by
      cases hFields with
      | cons hFirst hRest =>
          cases hFirst with
          | mk hValue =>
              unfold targetFields at h ⊢
              split at h
              case isTrue hName =>
                obtain ⟨result, hResult, ⟨⟩⟩ := exists_of_bind_eq_ok h
                obtain ⟨other, hOther, hRelated⟩ :=
                  exists_targetValue_alike hBecomes value _ hValue hResult
                rw [if_pos hName, hOther]
                exact ⟨_, rfl, .cons (.mk hRelated) hRest⟩
              case isFalse hName =>
                obtain ⟨result, hResult, ⟨⟩⟩ := exists_of_bind_eq_ok h
                obtain ⟨other, hOther, hRelated⟩ :=
                  exists_targetFields_alike hBecomes rest _ hRest hResult
                rw [if_neg hName, hOther]
                exact ⟨_, rfl, .cons (.mk hValue) hRelated⟩
termination_by structural fields => fields

theorem exists_targetValue_alike (hBecomes : KeepsTargets becomes) {role : TargetRole}
    {turned : FieldValue} :
    ∀ value other : FieldValue, Field.Related (Alike bounds becomes) value other →
      targetValue role value = .ok turned →
      ∃ changed, targetValue role other = .ok changed ∧
        Field.Related (Alike bounds becomes) turned changed
  | .slot (some child), _, hRelated, h => by
      cases hRelated with
      | slot hChild =>
          cases hChild with
          | some hChild =>
              unfold targetValue at h ⊢
              obtain ⟨result, hResult, ⟨⟩⟩ := exists_of_bind_eq_ok h
              obtain ⟨other, hOther, hAlike⟩ :=
                exists_toTarget_alike hBecomes child _ hChild hResult
              rw [hOther]
              exact ⟨_, rfl, .slot (.some hAlike)⟩
  | .slots children, _, hRelated, h => by
      cases hRelated with
      | slots hChildren =>
          unfold targetValue at h ⊢
          obtain ⟨result, hResult, ⟨⟩⟩ := exists_of_bind_eq_ok h
          obtain ⟨other, hOther, hAlike⟩ :=
            exists_targetSlots_alike hBecomes children _ hChildren hResult
          rw [hOther]
          exact ⟨_, rfl, .slots hAlike⟩
  | .slot none, _, hRelated, h => by
      cases hRelated with
      | slot hChild =>
          cases hChild
          cases h
          exact ⟨_, rfl, .slot .none⟩
  | .text _, _, hRelated, h | .flag _, _, hRelated, h | .number _, _, hRelated, h
  | .null, _, hRelated, h => by
      cases hRelated
      cases h
      exact ⟨_, rfl, by constructor⟩
termination_by structural value => value

theorem exists_targetSlots_alike (hBecomes : KeepsTargets becomes) {role : TargetRole}
    {turned : List (Option Node)} :
    ∀ slots others : List (Option Node),
      List.Forall₂ (Option.Rel (Alike bounds becomes)) slots others →
      targetSlots role slots = .ok turned →
      ∃ changed, targetSlots role others = .ok changed ∧
        List.Forall₂ (Option.Rel (Alike bounds becomes)) turned changed
  | [], _, hSlots, h => by
      cases hSlots
      cases h
      exact ⟨_, rfl, .nil⟩
  | none :: rest, _, hSlots, h => by
      cases hSlots with
      | cons hFirst hRest =>
          cases hFirst
          unfold targetSlots at h ⊢
          obtain ⟨result, hResult, ⟨⟩⟩ := exists_of_bind_eq_ok h
          obtain ⟨other, hOther, hAlike⟩ := exists_targetSlots_alike hBecomes rest _ hRest hResult
          rw [hOther]
          exact ⟨_, rfl, .cons .none hAlike⟩
  | some child :: rest, _, hSlots, h => by
      cases hSlots with
      | cons hFirst hRest =>
          cases hFirst with
          | some hChild =>
              unfold targetSlots at h ⊢
              obtain ⟨target, hTarget, hTail⟩ := exists_of_bind_eq_ok h
              obtain ⟨result, hResult, ⟨⟩⟩ := exists_of_bind_eq_ok hTail
              obtain ⟨changed, hChanged, hAlike⟩ :=
                exists_toTarget_alike hBecomes child _ hChild hTarget
              obtain ⟨others, hOthers, hRest'⟩ :=
                exists_targetSlots_alike hBecomes rest _ hRest hResult
              rw [all_isNone_eq hRest, hChanged]
              refine ⟨some changed :: others, ?_, .cons (.some hAlike) hRest'⟩
              rw [hOthers]
              rfl
termination_by structural slots => slots

end

mutual

/-- Of the spans of trees of one shape less may be said. -/
theorem Alike.imp {bounds' : Span → Span → Prop}
    (hBounds : ∀ span shifted, bounds span shifted → bounds' span shifted) :
    ∀ node other : Node, Alike bounds becomes node other → Alike bounds' becomes node other
  | .mk id kind span fields, other, h => by
      cases h with
      | changed h => exact .changed h
      | same hSpan hFields hObject =>
          exact .same (hBounds _ _ hSpan) (named_imp hBounds fields _ hFields) hObject
termination_by structural node => node

theorem named_imp {bounds' : Span → Span → Prop}
    (hBounds : ∀ span shifted, bounds span shifted → bounds' span shifted) :
    ∀ fields changed : List (FieldName × FieldValue),
      List.Forall₂ (Field.Named (Alike bounds becomes)) fields changed →
      List.Forall₂ (Field.Named (Alike bounds' becomes)) fields changed
  | [], _, h => by
      cases h
      exact .nil
  | (name, value) :: fields, _, h => by
      cases h with
      | cons hFirst hRest =>
          cases hFirst with
          | mk hValue =>
              exact .cons (.mk (related_imp hBounds value _ hValue))
                (named_imp hBounds fields _ hRest)
termination_by structural fields => fields

theorem related_imp {bounds' : Span → Span → Prop}
    (hBounds : ∀ span shifted, bounds span shifted → bounds' span shifted) :
    ∀ value other : FieldValue, Field.Related (Alike bounds becomes) value other →
      Field.Related (Alike bounds' becomes) value other
  | .slot (some child), _, h => by
      cases h with
      | slot hChild =>
          cases hChild with
          | some hChild => exact .slot (.some (Alike.imp hBounds child _ hChild))
  | .slots children, _, h => by
      cases h with
      | slots hChildren => exact .slots (forall₂_imp hBounds children _ hChildren)
  | .slot none, _, h => by
      cases h with
      | slot hChild =>
          cases hChild
          exact .slot .none
  | .text _, _, h | .flag _, _, h | .number _, _, h | .null, _, h => by
      cases h
      constructor
termination_by structural value => value

theorem forall₂_imp {bounds' : Span → Span → Prop}
    (hBounds : ∀ span shifted, bounds span shifted → bounds' span shifted) :
    ∀ slots others : List (Option Node),
      List.Forall₂ (Option.Rel (Alike bounds becomes)) slots others →
      List.Forall₂ (Option.Rel (Alike bounds' becomes)) slots others
  | [], _, h => by
      cases h
      exact .nil
  | none :: slots, _, h => by
      cases h with
      | cons hFirst hRest =>
          cases hFirst
          exact .cons .none (forall₂_imp hBounds slots _ hRest)
  | some child :: slots, _, h => by
      cases h with
      | cons hFirst hRest =>
          cases hFirst with
          | some hChild =>
              exact .cons (.some (Alike.imp hBounds child _ hChild))
                (forall₂_imp hBounds slots _ hRest)
termination_by structural slots => slots

end

/-- Trees that differ in nothing but the spans and the numbers of their nodes. -/
abbrev Matches : Node → Node → Prop := Alike (fun _ _ => True) fun _ _ => False

/-- Where no node is to become another one, only spans and numbers differ. -/
theorem Alike.toMatches {node other : Node} (h : Alike bounds becomes node other)
    (hNone : ∀ node other, ¬becomes node other) : node.Matches other := by
  obtain rfl : becomes = fun _ _ => False :=
    funext fun node => funext fun other => eq_false (hNone node other)
  exact Alike.imp (fun _ _ _ => trivial) node other h

theorem Matches.kind_eq {node other : Node} (h : node.Matches other) : other.kind = node.kind :=
  Alike.kind_eq h False.elim

theorem Matches.text?_eq {node other : Node} (h : node.Matches other) (name : FieldName) :
    other.text? name = node.text? name := by
  cases h with
  | same _ hFields => exact text?_eq_of_named hFields name
  | changed h => exact h.elim

theorem exists_mem_of_forall₂ {α β : Type} {related : α → β → Prop} {first : List α} {second : List β}
    (h : List.Forall₂ related first second) {value : α} (hValue : value ∈ first) :
    ∃ other ∈ second, related value other := by
  induction h with
  | nil => cases hValue
  | cons hFirst _ ih =>
      rcases List.mem_cons.mp hValue with rfl | hRest
      · exact ⟨_, List.mem_cons_self, hFirst⟩
      · obtain ⟨other, hOther, hRelated⟩ := ih hRest
        exact ⟨other, List.mem_cons_of_mem _ hOther, hRelated⟩

/-- What a member of an object was to become is found in an object of the other tree. -/
theorem Alike.exists_member {property object : Node}
    (hBecomes : ∀ {node other : Node}, becomes node other → node = property)
    (hNew : ∃ new, becomes property new) (hKind : object.kind = .objectExpression)
    (hChild : property ∈ object.children) (node : Node) :
    ∀ other, Alike bounds becomes node other → object ∈ node.subtree →
      ∃ newObject ∈ other.subtree, newObject.kind = .objectExpression ∧
        ∃ new ∈ newObject.children, becomes property new := by
  induction node using Node.induction with
  | step node ih =>
      intro other hAlike hObject
      cases hAlike with
      | changed h =>
          obtain rfl := hBecomes h
          have hLe := sizeOf_le_of_mem_subtree hObject
          have hLt := sizeOf_lt_of_mem_children hChild
          omega
      | @same id otherId kind span shifted fields changed _ hFields hSettles =>
          rw [subtree_eq] at hObject
          rcases List.mem_cons.mp hObject with rfl | hBelow
          · rw [children_eq_filledIn] at hChild
            obtain ⟨new, hMem, hSettled⟩ :=
              exists_mem_of_forall₂ (Field.forall₂_filledIn (hSettles hKind)) hChild
            refine ⟨_, mem_subtree_self _, hKind, new, ?_, hSettled hNew⟩
            rw [children_eq_filledIn]
            exact hMem
          · obtain ⟨child, hMem, hBelow⟩ := mem_forest.mp hBelow
            have hFilled := hMem
            rw [children_eq_filledIn] at hFilled
            obtain ⟨partner, hPartner, hAlike⟩ :=
              exists_mem_of_forall₂ (Field.forall₂_filledIn hFields) hFilled
            obtain ⟨newObject, hMemNew, hNew⟩ := ih child hMem partner hAlike hBelow
            refine ⟨newObject, mem_subtree_trans (mem_subtree_of_mem_children ?_) hMemNew, hNew⟩
            rw [children_eq_filledIn]
            exact hPartner

end Node

end EcmaLint
