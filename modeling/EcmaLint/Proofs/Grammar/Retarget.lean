import EcmaLint.Grammar.Basic
import EcmaLint.Grammar.Parser
import EcmaLint.Proofs.Grammar.Reading
import EcmaLint.Proofs.Shape.Inversion

/-! What turning an expression into a target writes to the arena. Turning goes down from the
expression through elements, members, values and spreads, and the nodes on its way are the only ones
that change, each in its own cell. Names of properties, objects of member accesses and defaults are
off the way. -/
namespace EcmaLint

/-- Turning goes on from a node to what one of its fields holds. -/
def NodeKind.leadsToTargets : NodeKind → FieldName → Bool
  | .arrayExpression, .elements | .objectExpression, .properties | .property, .value
  | .spreadElement, .argument => true
  | _, _ => false

/-- What a field holds is read, and not written to, even where the node is part of a target: the name
of a property, the object and the name of a member access, a default. -/
def NodeKind.onlyReads : NodeKind → FieldName → Bool
  | .property, .key | .memberExpression, .object | .memberExpression, .property
  | .assignmentExpression, .right | .assignmentPattern, .right => true
  | _, _ => false

/-- What turning a node does to its cell, where it changes it. -/
inductive Cell.TurnsInto : Cell → Cell → Prop
  | object {cell : Cell} (h : cell.kind = .objectExpression) :
      TurnsInto cell { cell with kind := .objectPattern }
  | array {cell : Cell} (h : cell.kind = .arrayExpression) :
      TurnsInto cell { cell with kind := .arrayPattern }
  | spread {cell : Cell} (h : cell.kind = .spreadElement) :
      TurnsInto cell { cell with kind := .restElement }
  | assignment {cell : Cell} (h : cell.kind = .assignmentExpression)
      (hPlain : (.operator, .text "=") ∈ cell.fields) :
      TurnsInto cell
        { cell with
          kind := .assignmentPattern
          fields := cell.fields.filter fun field => field.1 != .operator }

theorem Cell.TurnsInto.span_eq {cell changed : Cell} (h : cell.TurnsInto changed) :
    changed.span = cell.span := by
  cases h <;> rfl

namespace Place

/-- Every step from the root down to a place is one that turning takes. -/
def isTargetPosition (place : Place) : Bool :=
  place.ascents.all fun ascent => ascent.parent.kind.leadsToTargets ascent.field

/-- On the way from the root down to a place something is only read. -/
def isOnlyRead (place : Place) : Bool :=
  place.ascents.any fun ascent => ascent.parent.kind.onlyReads ascent.field

variable {place child : Place} {changed : Node}

theorem isTargetPosition_eq_false (h : place.isOnlyRead = true) :
    place.isTargetPosition = false := by
  obtain ⟨ascent, hAscent, hReads⟩ := List.any_eq_true.mp h
  refine List.all_eq_false.mpr ⟨ascent, hAscent, ?_⟩
  unfold NodeKind.onlyReads at hReads
  split at hReads <;> simp_all [NodeKind.leadsToTargets]

theorem isTargetPosition_of_mem_children {name : FieldName} (hPlace : place.isTargetPosition = true)
    (hChild : child ∈ place.children) (hField : child.field? = some name)
    (hName : place.kind.leadsToTargets name = true) : child.isTargetPosition = true := by
  obtain ⟨field, rank, hAscents⟩ := ascents_of_mem_children hChild
  obtain rfl : field = name := by
    rw [field?, hAscents] at hField
    exact Option.some.inj hField
  rw [isTargetPosition, hAscents, List.all_cons]
  exact Bool.and_eq_true_iff.mpr ⟨hName, hPlace⟩

/-- A tree that stands in the place of another one: every node in it has the number of an old one,
and its cell is the old one unless that stood in a target position. -/
structure TurnsInto (place : Place) (changed : Node) : Prop where
  id_eq : changed.id = place.node.id
  below : ∀ node ∈ changed.subtree, ∃ old ∈ place.descendants, node.id = old.node.id ∧
    (node.cell = old.node.cell ∨
      old.isTargetPosition = true ∧ old.node.cell.TurnsInto node.cell)

theorem turnsInto_self (place : Place) : place.TurnsInto place.node where
  id_eq := rfl
  below node hNode := by
    rw [← map_node_descendants] at hNode
    obtain ⟨old, hOld, rfl⟩ := List.mem_map.mp hNode
    exact ⟨old, hOld, rfl, .inl rfl⟩

theorem TurnsInto.of_children (hId : changed.id = place.node.id)
    (hCell : changed.cell = place.node.cell ∨
      place.isTargetPosition = true ∧ place.node.cell.TurnsInto changed.cell)
    (hChildren : ∀ node ∈ changed.children, ∃ old ∈ place.children, old.TurnsInto node) :
    place.TurnsInto changed where
  id_eq := hId
  below node hNode := by
    rw [Node.subtree_eq] at hNode
    rcases List.mem_cons.mp hNode with rfl | hBelow
    · exact ⟨place, mem_descendants_self place, hId, hCell⟩
    · obtain ⟨turned, hTurned, hUnder⟩ := List.mem_flatMap.mp hBelow
      obtain ⟨child, hChild, hTurns⟩ := hChildren turned hTurned
      obtain ⟨old, hOld, hSame⟩ := hTurns.below node hUnder
      exact ⟨old, mem_descendants_iff.mpr (.inr ⟨child, hChild, hOld⟩), hSame⟩

end Place

namespace Node

variable {role : TargetRole} {isLast : Bool} {node target : Node}

theorem id_of_toTarget (h : toTarget role isLast node = .ok target) : target.id = node.id := by
  obtain ⟨id, kind, span, fields⟩ := node
  rcases toTarget_cases h with rfl | ⟨_, _, _, _, -, rfl, -⟩ | ⟨-, rfl⟩ <;> rfl

/-- What a field holds was there before, or it was turned. -/
def IsTurned (role : TargetRole) (old : List Node) (node : Node) : Prop :=
  ∃ before ∈ old, ∃ isLast, toTarget role isLast before = .ok node

/-- Slots that are turned keep their numbers. -/
theorem isTurned_of_targetSlots {slots changed : List (Option Node)}
    (h : targetSlots role slots = .ok changed) :
    changed.map (Option.map Node.id) = slots.map (Option.map Node.id) ∧
      ∀ node ∈ changed.filterMap id, node.IsTurned role (slots.filterMap id) := by
  induction slots generalizing changed with
  | nil =>
      cases h
      simp
  | cons first rest ih =>
      cases first with
      | none =>
          rw [targetSlots] at h
          obtain ⟨turned, hRest, ⟨⟩⟩ := exists_of_bind_eq_ok h
          obtain ⟨hIds, hTurned⟩ := ih hRest
          exact ⟨by simp [hIds], hTurned⟩
      | some child =>
          rw [targetSlots] at h
          obtain ⟨turned, hFirst, hTail⟩ := exists_of_bind_eq_ok h
          obtain ⟨tail, hRest, ⟨⟩⟩ := exists_of_bind_eq_ok hTail
          obtain ⟨hIds, hTurned⟩ := ih hRest
          refine ⟨by simp [hIds, id_of_toTarget hFirst], List.forall_mem_cons.mpr ⟨?_, ?_⟩⟩
          · exact ⟨child, List.mem_cons_self, _, hFirst⟩
          · intro node hNode
            obtain ⟨before, hBefore, hOk⟩ := hTurned node hNode
            exact ⟨before, List.mem_cons_of_mem _ hBefore, hOk⟩

theorem isTurned_of_targetValue {value changed : FieldValue}
    (h : targetValue role value = .ok changed) :
    changed.map Node.id = value.map Node.id ∧
      ∀ node ∈ changed.filled, node.IsTurned role value.filled := by
  unfold targetValue at h
  split at h
  · obtain ⟨turned, hTurned, ⟨⟩⟩ := exists_of_bind_eq_ok h
    refine ⟨congrArg (Field.slot ∘ some) (id_of_toTarget hTurned), ?_⟩
    exact fun node hNode => ⟨_, List.mem_cons_self, true, by rwa [List.mem_singleton.mp hNode]⟩
  · obtain ⟨turned, hTurned, ⟨⟩⟩ := exists_of_bind_eq_ok h
    obtain ⟨hIds, hEach⟩ := isTurned_of_targetSlots hTurned
    exact ⟨congrArg Field.slots hIds, hEach⟩
  case h_3 hSlot hSlots =>
    cases h
    refine ⟨rfl, fun node hNode => ?_⟩
    -- neither a filled slot nor a list of slots, so it holds nothing
    cases value with
    | slot child =>
        cases child with
        | none => cases hNode
        | some child => exact absurd rfl (hSlot child)
    | slots children => exact absurd rfl (hSlots children)
    | _ => cases hNode

/-- Turned fields keep the numbers of what they hold, and what is not turned stays. -/
theorem isTurned_of_targetFields {name : FieldName} {fields changed : List (FieldName × FieldValue)}
    (h : targetFields name role fields = .ok changed) :
    (changed.map fun field => (field.1, field.2.map Node.id)) =
        (fields.map fun field => (field.1, field.2.map Node.id)) ∧
      ∀ child ∈ Field.filledIn changed, child ∈ Field.filledIn fields ∨
        ∃ before, (name, before) ∈ Field.namedIn fields ∧
          ∃ isLast, toTarget role isLast before = .ok child := by
  induction fields generalizing changed with
  | nil =>
      cases h
      simp
  | cons field rest ih =>
      obtain ⟨held, value⟩ := field
      unfold targetFields at h
      split at h
      case isTrue hName =>
        subst hName
        obtain ⟨turned, hTurned, ⟨⟩⟩ := exists_of_bind_eq_ok h
        obtain ⟨hIds, hEach⟩ := isTurned_of_targetValue hTurned
        refine ⟨by simp [hIds], List.forall_mem_append.mpr ⟨fun child hChild => .inr ?_, ?_⟩⟩
        · obtain ⟨before, hBefore, hOk⟩ := hEach child hChild
          refine ⟨before, ?_, hOk⟩
          exact List.mem_append_left _ (List.mem_map.mpr ⟨before, hBefore, rfl⟩)
        · exact fun child hChild => .inl (List.mem_append_right _ hChild)
      case isFalse hName =>
        obtain ⟨turned, hTurned, ⟨⟩⟩ := exists_of_bind_eq_ok h
        obtain ⟨hIds, hEach⟩ := ih hTurned
        refine ⟨by simp [hIds], List.forall_mem_append.mpr ⟨fun child hChild => .inl ?_, ?_⟩⟩
        · exact List.mem_append_left _ hChild
        · intro child hChild
          rcases hEach child hChild with hSame | ⟨before, hBefore, hOk⟩
          · exact .inl (List.mem_append_right _ hSame)
          · exact .inr ⟨before, List.mem_append_right _ hBefore, hOk⟩

/-- A plain assignment is one whose operator is `=`. -/
theorem mem_fields_of_isPlainAssignment {fields : List (FieldName × FieldValue)}
    (h : isPlainAssignment fields = true) : (.operator, .text "=") ∈ fields := by
  obtain ⟨field, hField, hPlain⟩ := List.any_eq_true.mp h
  split at hPlain
  · rwa [beq_iff_eq.mp hPlain] at hField
  · cases hPlain

end Node

namespace Place

variable {place : Place}

/-- Turning what one field holds, where the field is one that turning goes down through. -/
theorem turnsInto_of_targetFields {id : NodeId} {kind changedKind : NodeKind} {span : Span}
    {fields changed : List (FieldName × FieldValue)} {name : FieldName} {role : TargetRole}
    (hNode : place.node = .mk id kind span fields) (hPlace : place.isTargetPosition = true)
    (hTurns : ∀ child ∈ place.children, child.isTargetPosition = true →
      ∀ isLast target, Node.toTarget role isLast child.node = .ok target →
        child.TurnsInto target)
    (hFields : Node.targetFields name role fields = .ok changed)
    (hLeads : kind.leadsToTargets name = true)
    (hKind : changedKind = kind ∨ place.node.cell.TurnsInto
      { place.node.cell with kind := changedKind }) :
    place.TurnsInto (.mk id changedKind span changed) := by
  obtain ⟨hIds, hEach⟩ := Node.isTurned_of_targetFields hFields
  have hCell : (Node.mk id changedKind span changed).cell =
      { place.node.cell with kind := changedKind } := by
    rw [hNode, Node.cell, Node.cell]
    simp only [Node.kind, Node.span, Node.fields, hIds]
  refine .of_children (by rw [hNode]; rfl) ?_ fun child hChild => ?_
  · rw [hCell]
    refine hKind.imp (fun hSame => ?_) fun hChanged => ⟨hPlace, hChanged⟩
    rw [hSame, hNode]
    rfl
  rw [Node.children_eq_filledIn] at hChild
  rcases hEach child hChild with hSame | ⟨before, hBefore, isLast, hOk⟩
  · have hOld : child ∈ place.node.children := by
      rwa [hNode, Node.children_eq_filledIn]
    rw [← map_node_children] at hOld
    obtain ⟨old, hMem, rfl⟩ := List.mem_map.mp hOld
    exact ⟨old, hMem, turnsInto_self old⟩
  · have hNamed : (name, before) ∈ place.node.namedChildren := by
      rwa [hNode, Node.namedChildren_eq_namedIn]
    obtain ⟨old, hMem, hField, rfl⟩ := exists_of_mem_namedChildren hNamed
    refine ⟨old, hMem, hTurns old hMem ?_ isLast child hOk⟩
    refine isTargetPosition_of_mem_children hPlace hMem hField ?_
    rwa [Place.kind, hNode, Node.kind]

/-- Dropping the operator of an assignment leaves what stands below it. -/
theorem turnsInto_of_assignment {id : NodeId} {span : Span}
    {fields : List (FieldName × FieldValue)}
    (hNode : place.node = .mk id .assignmentExpression span fields)
    (hPlace : place.isTargetPosition = true) (hPlain : Node.isPlainAssignment fields = true) :
    place.TurnsInto
      (.mk id .assignmentPattern span (fields.filter fun field => field.1 != .operator)) := by
  have hCell : (Node.mk id .assignmentPattern span
      (fields.filter fun field => field.1 != .operator)).cell =
        { place.node.cell with
          kind := .assignmentPattern
          fields := place.node.cell.fields.filter fun field => field.1 != .operator } := by
    rw [hNode, Node.cell, Node.cell]
    simp only [Node.kind, Node.span, Node.fields, List.filter_map, Function.comp_def]
  refine .of_children (by rw [hNode]; rfl) (.inr ⟨hPlace, ?_⟩) fun child hChild => ?_
  · rw [hCell]
    refine .assignment (by rw [hNode]; rfl) ?_
    rw [hNode]
    exact List.mem_map.mpr ⟨_, Node.mem_fields_of_isPlainAssignment hPlain, rfl⟩
  · have hOld : child ∈ place.node.children := by
      rw [Node.children_eq_filledIn] at hChild ⊢
      obtain ⟨field, hField, hHeld⟩ := List.mem_flatMap.mp hChild
      rw [hNode]
      exact List.mem_flatMap.mpr ⟨field, List.mem_of_mem_filter hField, hHeld⟩
    rw [← map_node_children] at hOld
    obtain ⟨old, hMem, rfl⟩ := List.mem_map.mp hOld
    exact ⟨old, hMem, turnsInto_self old⟩

/-- Turning what stands in a target position changes nothing but nodes in target positions. -/
theorem turnsInto_of_toTarget (place : Place) :
    place.isTargetPosition = true → ∀ role isLast target,
      Node.toTarget role isLast place.node = .ok target → place.TurnsInto target := by
  induction place using Place.induction with
  | step place ih =>
      intro hPlace role isLast target h
      have hTurns : ∀ role, ∀ child ∈ place.children, child.isTargetPosition = true →
          ∀ isLast target, Node.toTarget role isLast child.node = .ok target →
            child.TurnsInto target := fun role child hChild hPosition =>
        ih child hChild hPosition role
      cases hNode : place.node with
      | mk id kind span fields =>
      rw [hNode] at h
      unfold Node.toTarget at h
      split at h
      case h_1 =>
        split at h
        · cases h
        obtain ⟨changed, hChanged, ⟨⟩⟩ := exists_of_bind_eq_ok h
        exact turnsInto_of_targetFields hNode hPlace (hTurns _) hChanged rfl (.inl rfl)
      case h_2 | h_3 =>
        split at h
        · cases h
        split at h
        · cases h
        obtain ⟨changed, hChanged, ⟨⟩⟩ := exists_of_bind_eq_ok h
        exact turnsInto_of_targetFields hNode hPlace (hTurns _) hChanged rfl
          (.inr (.spread (by rw [hNode]; rfl)))
      case h_5 | h_6 | h_7 =>
        cases h
        exact hNode ▸ turnsInto_self place
      case h_8 =>
        obtain ⟨changed, hChanged, ⟨⟩⟩ := exists_of_bind_eq_ok h
        exact turnsInto_of_targetFields hNode hPlace (hTurns _) hChanged rfl
          (.inr (.object (by rw [hNode]; rfl)))
      case h_9 =>
        obtain ⟨changed, hChanged, ⟨⟩⟩ := exists_of_bind_eq_ok h
        exact turnsInto_of_targetFields hNode hPlace (hTurns _) hChanged rfl
          (.inr (.array (by rw [hNode]; rfl)))
      case h_10 =>
        split at h
        case isTrue hPlain =>
          cases h
          exact turnsInto_of_assignment hNode hPlace hPlain
        case isFalse => cases h
      all_goals cases h

end Place

/-- The nodes of a tree are in an arena, each under a number of its own. -/
structure Arena.HoldsTree (arena : Arena) (node : Node) : Prop where
  stored : ∀ below ∈ node.subtree, arena[below.id]? = some below.cell
  nodup : (node.subtree.map Node.id).Nodup

/-- What was read is in the arena. -/
theorem Reads.holdsTree {moved : Bool} {before after : Cursor} {node : Node}
    (h : Reads moved before [node] after) : after.arena.HoldsTree node where
  stored below hBelow := h.stores.stored below (Node.mem_forest.mpr ⟨node, by simp, hBelow⟩)
  nodup := by simpa using h.stores.nodup

/-- An arena before and after an expression in it was turned into a target. -/
structure Arena.Retargets (expression : Node) (before after : Arena) : Prop where
  size_eq : after.size = before.size
  span_eq : ∀ id : NodeId, after[id]?.map Cell.span = before[id]?.map Cell.span
  outside : ∀ id ∉ expression.subtree.map Node.id, after[id]? = before[id]?
  inside : ∀ place ∈ (Place.root expression).descendants,
    after[place.node.id]? = before[place.node.id]? ∨
      place.isTargetPosition = true ∧ ∃ cell changed, before[place.node.id]? = some cell ∧
        after[place.node.id]? = some changed ∧ cell.TurnsInto changed
  /-- Names of properties, objects of member accesses and defaults stay as they are. -/
  onlyRead : ∀ place ∈ (Place.root expression).descendants, place.isOnlyRead = true →
    after[place.node.id]? = before[place.node.id]?

namespace Arena

variable {arena : Arena} {expression target : Node}

/-- A cell is written over only by a node of its number. -/
theorem getElem?_rewrite (arena : Arena) (node : Node) (id : NodeId) :
    (arena.rewrite node)[id]? = arena[id]? ∨
      ∃ below ∈ node.subtree, below.id = id ∧ (arena.rewrite node)[id]? = some below.cell := by
  unfold rewrite
  -- the cells that were written last count
  induction node.subtree using List.reverseRecOn with
  | nil => exact .inl rfl
  | append_singleton front last ih =>
      rw [List.foldl_append, List.foldl_cons, List.foldl_nil]
      by_cases hId : last.id = id
      · subst hId
        rw [Array.getElem?_setIfInBounds_self]
        split
        · exact .inr ⟨last, by simp, rfl, rfl⟩
        case isFalse hBounds =>
          rw [size_foldl_setIfInBounds] at hBounds
          exact .inl (Array.getElem?_eq_none (Nat.not_lt.mp hBounds)).symm
      · rw [Array.getElem?_setIfInBounds_ne hId]
        refine ih.imp_right ?_
        rintro ⟨below, hBelow, hRest⟩
        exact ⟨below, List.mem_append_left _ hBelow, hRest⟩

theorem retargets_rewrite (hHolds : arena.HoldsTree expression)
    (h : (Place.root expression).TurnsInto target) :
    Retargets expression arena (arena.rewrite target) := by
  have hNodup : ((Place.root expression).descendants.map fun place => place.node.id).Nodup := by
    have hIds := hHolds.nodup
    rwa [← show (Place.root expression).node = expression from rfl, ← Place.map_node_descendants,
      List.map_map] at hIds
  have hStored : ∀ place ∈ (Place.root expression).descendants,
      arena[place.node.id]? = some place.node.cell := fun place hPlace =>
    hHolds.stored place.node (Place.node_mem_subtree hPlace)
  have hCell : ∀ id, (arena.rewrite target)[id]? = arena[id]? ∨
      ∃ place ∈ (Place.root expression).descendants, place.node.id = id ∧
        place.isTargetPosition = true ∧ ∃ changed, place.node.cell.TurnsInto changed ∧
          (arena.rewrite target)[id]? = some changed := by
    intro id
    rcases getElem?_rewrite arena target id with hSame | ⟨below, hBelow, rfl, hWritten⟩
    · exact .inl hSame
    · obtain ⟨place, hPlace, hId, hSame | ⟨hPosition, hTurns⟩⟩ := h.below below hBelow
      · rw [hWritten, hId, hStored place hPlace, hSame]
        exact .inl rfl
      · exact .inr ⟨place, hPlace, hId.symm, hPosition, below.cell, hTurns, hWritten⟩
  have hInside : ∀ place ∈ (Place.root expression).descendants,
      (arena.rewrite target)[place.node.id]? = arena[place.node.id]? ∨
        place.isTargetPosition = true ∧ ∃ cell changed, arena[place.node.id]? = some cell ∧
          (arena.rewrite target)[place.node.id]? = some changed ∧ cell.TurnsInto changed := by
    intro place hPlace
    refine (hCell place.node.id).imp_right ?_
    rintro ⟨other, hOther, hId, hPosition, changed, hTurns, hWritten⟩
    obtain rfl := List.inj_on_of_nodup_map hNodup hOther hPlace hId
    exact ⟨hPosition, other.node.cell, changed, hStored other hOther, hWritten, hTurns⟩
  refine
    { size_eq := size_foldl_setIfInBounds _ _
      span_eq := fun id => ?_
      outside := fun id hId => ?_
      inside := hInside
      onlyRead := fun place hPlace hRead => ?_ }
  · rcases hCell id with hSame | ⟨place, hPlace, rfl, -, changed, hTurns, hWritten⟩
    · rw [hSame]
    · rw [hWritten, hStored place hPlace, Option.map_some, Option.map_some, hTurns.span_eq]
  · rcases hCell id with hSame | ⟨place, hPlace, rfl, -⟩
    · exact hSame
    · exact absurd (List.mem_map_of_mem (Place.node_mem_subtree hPlace)) hId
  · refine (hInside place hPlace).resolve_right fun hChanged => ?_
    rw [Place.isTargetPosition_eq_false hRead] at hChanged
    exact absurd hChanged.1 (by decide)

end Arena

/-- Turning an expression into a target changes the arena in target positions only, and there only
what a node is, or that an assignment has an operator. -/
theorem Grammar.retargets_of_toTarget {expression target : Node} {state later : ParserState}
    (hHolds : state.cursor.arena.HoldsTree expression)
    (h : (Grammar.toTarget expression : Parser Node) state = .ok target later) :
    Arena.Retargets expression state.cursor.arena later.cursor.arena := by
  unfold Grammar.toTarget at h
  cases hTarget : expression.toTarget .whole true with
  | error error =>
      rw [hTarget] at h
      cases h
  | ok changed =>
      rw [hTarget] at h
      cases h
      exact Arena.retargets_rewrite hHolds
        ((Place.root expression).turnsInto_of_toTarget rfl .whole true _ hTarget)

/-- In `[a = {}]` the array and the assignment change, and the default stays an object. -/
theorem Grammar.retargets_of_toTarget_default :
    let name := Node.mk 0 .identifier ⟨1, 2⟩ [(.ident, .text "a")]
    let value := Node.mk 1 .objectExpression ⟨5, 7⟩ [(.properties, .nodes [])]
    let element := Node.mk 2 .assignmentExpression ⟨1, 7⟩
      [(.operator, .text "="), (.left, .node name), (.right, .node value)]
    let expression := Node.mk 3 .arrayExpression ⟨0, 8⟩ [(.elements, .nodes [element])]
    let context : Context := { year := 2015, size := 8, newlineAtEnd := false }
    let cursor : Cursor :=
      { previousEnd := 8, rest := [], shorthandDefaults := []
        arena := #[name.cell, value.cell, element.cell, expression.cell] }
    ∃ target later, cursor.arena.HoldsTree expression ∧
      (Grammar.toTarget expression : Parser Node) ⟨context, cursor⟩ = .ok target later ∧
      Arena.Retargets expression cursor.arena later.cursor.arena := by
  intro name value element expression context cursor
  have hSubtree : expression.subtree = [expression, element, name, value] := by
    simp [Node.subtree_eq, expression, element, name, value, Node.children_eq_filledIn,
      Node.fields]
  have hHolds : cursor.arena.HoldsTree expression := by
    refine ⟨fun below hBelow => ?_, ?_⟩
    · rw [hSubtree] at hBelow
      simp only [List.mem_cons, List.not_mem_nil, or_false] at hBelow
      rcases hBelow with rfl | rfl | rfl | rfl <;> rfl
    · rw [hSubtree]
      decide
  exact ⟨_, _, hHolds, rfl, @Grammar.retargets_of_toTarget _ _ ⟨context, cursor⟩ _ hHolds rfl⟩

end EcmaLint
