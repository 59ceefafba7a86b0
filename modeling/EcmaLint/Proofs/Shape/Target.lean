import EcmaLint.Grammar.Target
import EcmaLint.Proofs.Except
import EcmaLint.Proofs.Shape.Basic

/-! Turning an expression into a target keeps the shape of the tree: what is turned has the form
of its new kind, and what stands where it is written to is a target. -/
namespace EcmaLint

/-- The kinds that nodes have once they are turned. -/
def TargetRole.accepts : TargetRole → NodeKind → Bool
  | .whole => NodeKind.isTarget
  | .element => NodeKind.isElement
  | .member => NodeKind.isPatternMember

theorem TargetRole.accepts_of_isTarget {role : TargetRole} {kind : NodeKind}
    (hRole : role ≠ .member) (hKind : kind.isTarget = true) : role.accepts kind = true := by
  cases role with
  | whole => exact hKind
  | element => simp [accepts, NodeKind.isElement, hKind]
  | member => exact absurd rfl hRole

/-- A field of the same sort that takes nodes of other kinds. -/
def Part.accepting (kinds : NodeKind → Bool) : Part → Part
  | .one _ => .one kinds
  | .optional _ => .optional kinds
  | .many _ => .many kinds
  | .holed _ => .holed kinds
  | .restLast list => .restLast (list.accepting kinds)
  | part => part

/-- What a field takes once it holds what was turned in some role. In a list a rest element comes
last. -/
def TargetRole.turned : TargetRole → Part → Part
  | .whole, part => part.accepting NodeKind.isTarget
  | role, part => .restLast (part.accepting role.accepts)

namespace Node

variable {role : TargetRole} {isLast : Bool} {node target : Node}

/-- What a node is turned into in some role has the shape of a program, and a kind for that role. -/
def Turns (role : TargetRole) (node : Node) : Prop :=
  ∀ isLast target, toTarget role isLast node = .ok target → target.IsOf role.accepts

/-- A node is turned into a rest element only as the last of its list. -/
theorem isLast_of_toTarget (h : toTarget role isLast node = .ok target)
    (hKind : target.kind = .restElement) : isLast = true := by
  obtain ⟨id, kind, span, fields⟩ := node
  unfold toTarget at h
  split at h
  case h_2 | h_3 =>
    split at h
    · cases h
    case isFalse hLast => simpa using hLast
  case h_1 =>
    split at h
    · cases h
    obtain ⟨_, -, ⟨⟩⟩ := exists_of_bind_eq_ok h
    cases hKind
  case h_5 | h_6 | h_7 =>
    cases h
    cases hKind
  case h_8 | h_9 =>
    obtain ⟨_, -, ⟨⟩⟩ := exists_of_bind_eq_ok h
    cases hKind
  case h_10 =>
    split at h
    · cases h
      cases hKind
    · cases h
  all_goals cases h

/-- In slots that were turned there are only holes behind a rest element. -/
theorem restLast_of_targetSlots {slots changed : List (Option Node)}
    (h : targetSlots role slots = .ok changed) :
    RestLast changed ∧ changed.all Option.isNone = slots.all Option.isNone := by
  induction slots generalizing changed with
  | nil =>
      cases h
      exact ⟨by simp [RestLast], rfl⟩
  | cons first rest ih =>
      cases first with
      | none =>
          rw [targetSlots] at h
          obtain ⟨tail, hRest, ⟨⟩⟩ := exists_of_bind_eq_ok h
          obtain ⟨hLast, hEmpty⟩ := ih hRest
          refine ⟨?_, by simpa using hEmpty⟩
          rintro (_ | ⟨_, front⟩) rest back ⟨⟩ hKind
          exact hLast front rest back rfl hKind
      | some child =>
          rw [targetSlots] at h
          obtain ⟨turned, hTurned, hTail⟩ := exists_of_bind_eq_ok h
          obtain ⟨tail, hRest, ⟨⟩⟩ := exists_of_bind_eq_ok hTail
          obtain ⟨hLast, hEmpty⟩ := ih hRest
          refine ⟨?_, rfl⟩
          rintro (_ | ⟨_, front⟩) rest back ⟨⟩ hKind
          · have hHoles := isLast_of_toTarget hTurned hKind
            rw [← hEmpty, List.all_eq_true] at hHoles
            exact fun slot hSlot => Option.isNone_iff_eq_none.mp (hHoles slot hSlot)
          · exact hLast front rest back rfl hKind

theorem restLast_of_targetValue {value changed : FieldValue}
    (h : targetValue role value = .ok changed) : RestLast changed.slotList := by
  have hShort : ∀ {slots : List (Option Node)}, slots.length ≤ 1 → RestLast slots := by
    rintro _ hLength front rest back rfl -
    obtain rfl : back = [] := List.eq_nil_of_length_eq_zero (by simp at hLength; omega)
    simp
  cases changed with
  | slots children =>
      unfold targetValue at h
      split at h
      · obtain ⟨turned, -, ⟨⟩⟩ := exists_of_bind_eq_ok h
      · obtain ⟨turned, hTurned, ⟨⟩⟩ := exists_of_bind_eq_ok h
        exact (restLast_of_targetSlots hTurned).1
      case h_3 hSlots =>
        cases h
        exact absurd rfl (hSlots children)
  | _ => exact hShort (by simp [Field.slotList])

/-- Slots are turned in place, and those that are filled stay filled. -/
theorem isOf_of_targetSlots {slots changed : List (Option Node)}
    (hTurns : ∀ child ∈ slots.filterMap id, child.Turns role)
    (h : targetSlots role slots = .ok changed) :
    (∀ target, some target ∈ changed → target.IsOf role.accepts) ∧
      (none ∈ changed → none ∈ slots) := by
  induction slots generalizing changed with
  | nil =>
      cases h
      simp
  | cons first rest ih =>
      cases first with
      | none =>
          rw [targetSlots] at h
          obtain ⟨turned, hRest, ⟨⟩⟩ := exists_of_bind_eq_ok h
          obtain ⟨hFilled, -⟩ := ih hTurns hRest
          exact ⟨by simpa using hFilled, by simp⟩
      | some child =>
          obtain ⟨hChild, hTail⟩ := List.forall_mem_cons.mp hTurns
          rw [targetSlots] at h
          obtain ⟨turned, hTurned, hRest⟩ := exists_of_bind_eq_ok h
          obtain ⟨tail, hTurnedTail, ⟨⟩⟩ := exists_of_bind_eq_ok hRest
          obtain ⟨hFilled, hHoles⟩ := ih hTail hTurnedTail
          have hFirst := hChild _ _ hTurned
          refine ⟨fun target hTarget => ?_, by simpa using hHoles⟩
          rcases List.mem_cons.mp hTarget with hEq | hRest
          · cases hEq
            exact hFirst
          · exact hFilled target hRest

/-- What a field holds is turned into what the field takes once it accepts targets. -/
theorem takes_of_targetValue {part : Part} {value changed : FieldValue}
    (hTakes : part.Takes value) (hTurns : ∀ child ∈ value.filled, child.Turns role)
    (h : targetValue role value = .ok changed) :
    (part.accepting role.accepts).Takes changed ∧ ∀ child ∈ changed.filled, child.Shaped := by
  have hOne : ∀ {child : Node}, child.Turns role →
      targetValue role (.slot (some child)) = .ok changed →
      ∃ target, changed = .node target ∧ target.IsOf role.accepts := by
    intro child hChild hValue
    rw [targetValue] at hValue
    obtain ⟨turned, hTurned, ⟨⟩⟩ := exists_of_bind_eq_ok hValue
    exact ⟨turned, rfl, hChild _ _ hTurned⟩
  have hList : ∀ {children : List (Option Node)},
      (∀ child ∈ children.filterMap id, child.Turns role) →
      targetValue role (.slots children) = .ok changed →
      ∃ slots, changed = .slots slots ∧
        (∀ target, some target ∈ slots → target.IsOf role.accepts) ∧
        (none ∈ slots → none ∈ children) := by
    intro children hChildren hValue
    rw [targetValue] at hValue
    obtain ⟨turned, hTurned, ⟨⟩⟩ := exists_of_bind_eq_ok hValue
    exact ⟨turned, rfl, isOf_of_targetSlots hChildren hTurned⟩
  induction part with
  | one accepts =>
      obtain ⟨child, rfl, -⟩ := Part.takes_one_iff.mp hTakes
      obtain ⟨target, rfl, hTarget⟩ := hOne (hTurns child (by simp)) h
      simpa [Part.accepting] using ⟨hTarget.accepted, hTarget.shaped⟩
  | optional accepts =>
      obtain ⟨child, rfl, -⟩ := Part.takes_optional_iff.mp hTakes
      cases child with
      | none =>
          cases h
          simp [Part.accepting]
      | some child =>
          obtain ⟨target, rfl, hTarget⟩ := hOne (hTurns child (by simp)) h
          simpa [Part.accepting, Field.node] using ⟨hTarget.accepted, hTarget.shaped⟩
  | many accepts =>
      obtain ⟨children, rfl, -⟩ := Part.takes_many_iff.mp hTakes
      obtain ⟨slots, rfl, hSlots, hFilled⟩ := hList (by simpa using hTurns) h
      refine ⟨fun slot hSlot => ?_, fun child hChild => (hSlots child (by simpa using hChild)).1⟩
      cases slot with
      | none => simpa using hFilled hSlot
      | some target => exact ⟨target, rfl, (hSlots target hSlot).2⟩
  | holed accepts =>
      obtain ⟨children, rfl, -⟩ := Part.takes_holed_iff.mp hTakes
      obtain ⟨slots, rfl, hSlots, -⟩ := hList (by simpa using hTurns) h
      exact ⟨fun target hTarget => (hSlots target hTarget).2,
        fun child hChild => (hSlots child (by simpa using hChild)).1⟩
  | restLast list ih =>
      obtain ⟨hList, hBelow⟩ := ih hTakes.1
      exact ⟨⟨hList, restLast_of_targetValue h⟩, hBelow⟩
  | word =>
      obtain ⟨text, rfl⟩ := Part.takes_word_iff.mp hTakes
      cases h
      simp [Part.accepting]
  | wordIn accepts =>
      obtain ⟨text, rfl, hText⟩ := Part.takes_wordIn_iff.mp hTakes
      cases h
      simpa [Part.accepting] using hText
  | flag held =>
      obtain rfl := Part.takes_flag_iff.mp hTakes
      cases h
      simp [Part.accepting]
  | data =>
      cases value with
      | slot child => exact hTakes.elim
      | slots children => exact hTakes.elim
      | _ =>
          cases h
          simp [Part.accepting]

/-- What a field holds is turned into what the field takes in some role. -/
theorem takes_turned {part : Part} {value changed : FieldValue}
    (hTakes : part.Takes value) (hTurns : ∀ child ∈ value.filled, child.Turns role)
    (h : targetValue role value = .ok changed) :
    (role.turned part).Takes changed ∧ ∀ child ∈ changed.filled, child.Shaped := by
  obtain ⟨hTaken, hBelow⟩ := takes_of_targetValue hTakes hTurns h
  refine ⟨?_, hBelow⟩
  cases role with
  | whole => exact hTaken
  | element | member => exact ⟨hTaken, restLast_of_targetValue h⟩

/-- Turning a field leaves the fields around it as they are. -/
theorem fillsIn_of_targetFields {name : FieldName} {part : Part} {front back : NodeForm}
    {fields changed : List (FieldName × FieldValue)}
    (hFront : ∀ expected ∈ front, expected.1 ≠ name)
    (hFields : List.Forall₂ FillsIn fields (front ++ (name, part) :: back))
    (hShaped : ∀ child ∈ Field.filledIn fields, child.Shaped ∧ child.Turns role)
    (h : targetFields name role fields = .ok changed) :
    List.Forall₂ FillsIn changed (front ++ (name, role.turned part) :: back) ∧
      ∀ child ∈ Field.filledIn changed, child.Shaped := by
  induction front generalizing fields changed with
  | nil =>
      obtain ⟨value, rest, hTakes, hRest, rfl⟩ := forall₂_fillsIn_cons.mp hFields
      rw [targetFields, if_pos rfl] at h
      obtain ⟨turned, hTurned, ⟨⟩⟩ := exists_of_bind_eq_ok h
      obtain ⟨hValue, hOthers⟩ := List.forall_mem_append.mp hShaped
      obtain ⟨hTaken, hBelow⟩ :=
        takes_turned hTakes (fun child hChild => (hValue child hChild).2) hTurned
      refine ⟨forall₂_fillsIn_cons.mpr ⟨turned, rest, hTaken, hRest, rfl⟩, ?_⟩
      exact List.forall_mem_append.mpr ⟨hBelow, fun child hChild => (hOthers child hChild).1⟩
  | cons first front ih =>
      obtain ⟨hFirst, hFrontRest⟩ := List.forall_mem_cons.mp hFront
      obtain ⟨value, rest, hTakes, hRest, rfl⟩ := forall₂_fillsIn_cons.mp hFields
      rw [targetFields, if_neg hFirst] at h
      obtain ⟨turned, hTurned, ⟨⟩⟩ := exists_of_bind_eq_ok h
      obtain ⟨hValue, hOthers⟩ := List.forall_mem_append.mp hShaped
      obtain ⟨hForm, hBelow⟩ := ih hFrontRest hRest hOthers hTurned
      refine ⟨forall₂_fillsIn_cons.mpr ⟨value, turned, hTakes, hForm, rfl⟩, ?_⟩
      exact List.forall_mem_append.mpr ⟨fun child hChild => (hValue child hChild).1, hBelow⟩

/-- A node with turned fields has the shape of a program if its kind has the form with targets. -/
theorem shaped_of_targetFields {id : NodeId} {kind : NodeKind} {span : Span} {name : FieldName}
    {part : Part} (front back : NodeForm) {fields changed : List (FieldName × FieldValue)}
    (hFields : List.Forall₂ FillsIn fields (front ++ (name, part) :: back))
    (hFront : ∀ expected ∈ front, expected.1 ≠ name)
    (hShaped : ∀ child ∈ Field.filledIn fields, child.Shaped ∧ child.Turns role)
    (h : targetFields name role fields = .ok changed)
    (hForm : front ++ (name, role.turned part) :: back ∈ kind.forms) :
    (mk id kind span changed).Shaped := by
  obtain ⟨hChanged, hBelow⟩ := fillsIn_of_targetFields hFront hFields hShaped h
  exact shaped_mk.mpr ⟨⟨_, hForm, hChanged⟩, hBelow⟩

/-- With a target for its value a property still has a form of properties. -/
theorem exists_of_mem_property_forms {form : NodeForm} (h : form ∈ NodeKind.property.forms) :
    ∃ key value back, form = [(.key, key)] ++ (.value, value) :: back ∧
      [(.key, key)] ++ (.value, TargetRole.whole.turned value) :: back ∈
        NodeKind.property.forms := by
  simp only [NodeKind.forms, List.mem_cons, List.not_mem_nil, or_false] at h
  rcases h with rfl | rfl | rfl
  · exact ⟨_, _, _, rfl, by simp [NodeKind.forms, Part.accepting, TargetRole.turned]⟩
  · exact ⟨_, _, _, rfl, by simp [NodeKind.forms, Part.accepting, TargetRole.turned]⟩
  · exact ⟨_, _, _, rfl, by simp [NodeKind.forms, Part.accepting, TargetRole.turned]⟩

/-- The kinds of expressions with one field have patterns that take targets in that field. -/
theorem shaped_of_only_field {id : NodeId} {kind changedKind : NodeKind} {span : Span}
    {name : FieldName} {part : Part} {fields changed : List (FieldName × FieldValue)}
    (hShaped : (mk id kind span fields).Shaped)
    (hTurns : ∀ child ∈ Field.filledIn fields, child.Shaped ∧ child.Turns role)
    (h : targetFields name role fields = .ok changed)
    (hForms : kind.forms = [[(name, part)]])
    (hChanged : changedKind.forms = [[(name, role.turned part)]]) :
    (mk id changedKind span changed).Shaped := by
  obtain ⟨form, hForm, hFields⟩ := hShaped.conforms
  obtain rfl := List.mem_singleton.mp (hForms ▸ hForm)
  exact shaped_of_targetFields [] [] hFields (by simp) hTurns h (by simp [hChanged])

/-- Whatever its operator, what an assignment writes to is a target. -/
theorem exists_of_mem_assignmentExpression_forms {form : NodeForm}
    (h : form ∈ NodeKind.assignmentExpression.forms) : ∃ operator kinds,
      form = [(.operator, operator), (.left, .one kinds), (.right, .one NodeKind.isExpression)] ∧
        ∀ kind, kinds kind = true → kind.isTarget = true := by
  simp only [NodeKind.forms, List.mem_cons, List.not_mem_nil, or_false] at h
  rcases h with rfl | rfl
  · exact ⟨_, _, rfl, fun _ => id⟩
  · exact ⟨_, _, rfl, fun _ => NodeKind.isTarget_of_isReference⟩

/-- Without its operator an assignment has the form of a pattern with a default. -/
theorem shaped_assignmentPattern {id : NodeId} {span : Span}
    {fields : List (FieldName × FieldValue)}
    (h : (mk id .assignmentExpression span fields).Shaped) :
    (mk id .assignmentPattern span (fields.filter fun field => field.1 != .operator)).Shaped := by
  obtain ⟨⟨form, hForm, hFields⟩, hBelow⟩ := shaped_mk.mp h
  obtain ⟨operator, kinds, rfl, hKinds⟩ := exists_of_mem_assignmentExpression_forms hForm
  obtain ⟨value, rest, -, hRest, rfl⟩ := forall₂_fillsIn_cons.mp hFields
  obtain ⟨left, last, hLeft, hLast, rfl⟩ := forall₂_fillsIn_cons.mp hRest
  obtain ⟨target, rfl, hTarget⟩ := Part.takes_one_iff.mp hLeft
  have hKept : last.filter (fun field => field.1 != .operator) = last := by
    refine List.filter_eq_self.mpr fun field hField => ?_
    obtain ⟨expected, hExpected, hName, -⟩ := exists_fillsIn hLast hField
    rw [hName, List.mem_singleton.mp hExpected]
    rfl
  rw [List.filter_cons_of_neg (by simp), List.filter_cons_of_pos (by simp), hKept]
  refine shaped_mk.mpr ⟨⟨_, List.mem_singleton_self _, ?_⟩, (List.forall_mem_append.mp hBelow).2⟩
  exact forall₂_fillsIn_cons.mpr
    ⟨_, _, Part.one_takes_node.mpr (hKinds _ hTarget), hLast, rfl⟩

/-- What a node of a program is turned into has the shape of a program. -/
theorem turns_of_shaped (node : Node) (h : node.Shaped) (role : TargetRole) : node.Turns role := by
  induction node using Node.induction generalizing role with
  | step node ih =>
      obtain ⟨id, kind, span, fields⟩ := node
      intro isLast target hTurned
      have hBelow : ∀ role, ∀ child ∈ Field.filledIn fields, child.Shaped ∧ child.Turns role := by
        intro role child hChild
        have hMem : child ∈ (mk id kind span fields).children := by
          rwa [children_eq_filledIn]
        have hChildShaped := h.of_mem_children hMem
        exact ⟨hChildShaped, ih child hMem hChildShaped role⟩
      unfold toTarget at hTurned
      split at hTurned
      case h_1 =>
        split at hTurned
        · cases hTurned
        obtain ⟨changed, hChanged, ⟨⟩⟩ := exists_of_bind_eq_ok hTurned
        obtain ⟨form, hForm, hFields⟩ := h.conforms
        obtain ⟨key, value, back, rfl, hTarget⟩ := exists_of_mem_property_forms hForm
        exact ⟨shaped_of_targetFields [(.key, key)] back hFields (by simp) (hBelow .whole) hChanged
          hTarget, rfl⟩
      case h_2 | h_3 =>
        split at hTurned
        · cases hTurned
        split at hTurned
        · cases hTurned
        obtain ⟨changed, hChanged, ⟨⟩⟩ := exists_of_bind_eq_ok hTurned
        exact ⟨shaped_of_only_field h (hBelow .whole) hChanged rfl rfl, rfl⟩
      case h_5 | h_6 | h_7 =>
        cases hTurned
        exact ⟨h, TargetRole.accepts_of_isTarget ‹_› rfl⟩
      case h_8 | h_9 =>
        obtain ⟨changed, hChanged, ⟨⟩⟩ := exists_of_bind_eq_ok hTurned
        exact ⟨shaped_of_only_field h (hBelow _) hChanged rfl rfl,
          TargetRole.accepts_of_isTarget ‹_› rfl⟩
      case h_10 =>
        split at hTurned
        · cases hTurned
          exact ⟨shaped_assignmentPattern h, TargetRole.accepts_of_isTarget ‹_› rfl⟩
        · cases hTurned
      all_goals cases hTurned

end Node

end EcmaLint
