import Mathlib.Data.List.Basic
import Mathlib.Data.List.Perm.Basic
import EcmaLint.Tree.Arena
import EcmaLint.Tree.Place

/-! The nodes of trees as lists. What stands below some nodes is taken apart along the children,
so what holds of a tree is shown for its root and for the forest of its children.

Places below a place. A walk keeps its places in a list; what it visits is taken apart here
along the children, so that what holds of every place of a tree can be shown from the root down. -/
namespace EcmaLint

namespace Field

variable {α β : Type}

/-- What stands in the filled slots of a field. -/
def filled (value : Field α) : List α := value.slotList.filterMap id

@[simp] theorem filled_slot (child : Option α) : (slot child).filled = child.toList := by
  cases child <;> rfl

@[simp] theorem filled_slots (children : List (Option α)) :
    (slots children).filled = children.filterMap id := rfl

@[simp] theorem filled_node (child : α) : (node child).filled = [child] := rfl

@[simp] theorem filled_nodes (children : List α) : (nodes children).filled = children := by
  simp [filled, nodes, slotList, List.filterMap_map]

@[simp] theorem filled_text (value : String) : (text value : Field α).filled = [] := rfl

@[simp] theorem filled_flag (value : Bool) : (flag value : Field α).filled = [] := rfl

@[simp] theorem filled_number (value : Float) : (number value : Field α).filled = [] := rfl

@[simp] theorem filled_null : (null : Field α).filled = [] := rfl

theorem slotList_map (f : α → β) (value : Field α) :
    (value.map f).slotList = value.slotList.map (Option.map f) := by
  cases value <;> rfl

theorem filled_map (f : α → β) (value : Field α) : (value.map f).filled = value.filled.map f := by
  simp only [filled, slotList_map, List.filterMap_map, List.map_filterMap]
  rfl

end Field

/-- What stands in the filled slots of some fields, in visiting order. -/
def Field.filledIn {α : Type} (fields : List (FieldName × Field α)) : List α :=
  fields.flatMap fun field => field.2.filled

@[simp] theorem Field.filledIn_nil {α : Type} :
    filledIn ([] : List (FieldName × Field α)) = [] := rfl

@[simp] theorem Field.filledIn_cons {α : Type} (field : FieldName × Field α)
    (rest : List (FieldName × Field α)) :
    filledIn (field :: rest) = field.2.filled ++ filledIn rest := rfl

/-- What stands in the filled slots of some fields, with the names of the fields. -/
def Field.namedIn {α : Type} (fields : List (FieldName × Field α)) : List (FieldName × α) :=
  fields.flatMap fun field => field.2.filled.map fun child => (field.1, child)

namespace Node

theorem children_eq_filledIn (node : Node) : node.children = Field.filledIn node.fields :=
  node.children_eq_flatMap

theorem namedChildren_eq_namedIn (node : Node) :
    node.namedChildren = Field.namedIn node.fields := by
  simp only [namedChildren, slots, Field.namedIn, List.filterMap_flatMap, List.filterMap_map,
    Field.filled, List.map_filterMap]
  rfl

theorem children_cell (node : Node) : node.cell.children = node.children.map Node.id := by
  rw [children_eq_filledIn, Field.filledIn, Cell.children, cell, List.flatMap_map,
    List.map_flatMap]
  exact congrArg node.fields.flatMap (funext fun field => Field.filled_map Node.id field.2)

/-- The nodes of some trees, each before those below it. -/
def forest (nodes : List Node) : List Node := nodes.flatMap subtree

@[simp] theorem forest_nil : forest [] = [] := rfl

@[simp] theorem forest_cons (node : Node) (rest : List Node) :
    forest (node :: rest) = node.subtree ++ forest rest := rfl

@[simp] theorem forest_append (first second : List Node) :
    forest (first ++ second) = forest first ++ forest second := List.flatMap_append

theorem forest_singleton (node : Node) : forest [node] = node :: forest node.children := by
  rw [forest, List.flatMap_singleton, subtree_eq, forest]

theorem forest_perm {first second : List Node} (h : first.Perm second) :
    (forest first).Perm (forest second) := h.flatMap_right subtree

theorem mem_subtree_self (node : Node) : node ∈ node.subtree := by
  rw [subtree_eq]
  exact List.mem_cons_self

theorem mem_forest {nodes : List Node} {node : Node} :
    node ∈ forest nodes ↔ ∃ root ∈ nodes, node ∈ root.subtree := List.mem_flatMap

theorem mem_forest_of_mem {nodes : List Node} {node : Node} (h : node ∈ nodes) :
    node ∈ forest nodes := mem_forest.mpr ⟨node, h, mem_subtree_self node⟩

theorem mem_subtree_of_mem_children {node child : Node} (h : child ∈ node.children) :
    child ∈ node.subtree := by
  rw [subtree_eq]
  exact List.mem_cons_of_mem _ (mem_forest_of_mem h)

/-- An induction along the children. -/
theorem induction {motive : Node → Prop}
    (step : ∀ node, (∀ child ∈ node.children, motive child) → motive node) (node : Node) :
    motive node :=
  step node fun child _ => induction step child
termination_by sizeOf node
decreasing_by exact sizeOf_lt_of_mem_children ‹_›

/-- What is below a node below another one is below that one. -/
theorem mem_subtree_trans {node below deeper : Node} (hBelow : below ∈ node.subtree)
    (hDeeper : deeper ∈ below.subtree) : deeper ∈ node.subtree := by
  induction node using Node.induction with
  | step node ih =>
      rw [subtree_eq] at hBelow
      rcases List.mem_cons.mp hBelow with rfl | hBelow
      · exact hDeeper
      · obtain ⟨child, hChild, hIn⟩ := List.mem_flatMap.mp hBelow
        rw [subtree_eq]
        exact List.mem_cons_of_mem _ (List.mem_flatMap.mpr ⟨child, hChild, ih child hChild hIn⟩)

/-- Nothing below a node is larger than it. -/
theorem sizeOf_le_of_mem_subtree {node below : Node} (h : below ∈ node.subtree) :
    sizeOf below ≤ sizeOf node := by
  induction node using Node.induction with
  | step node ih =>
      rw [subtree_eq] at h
      rcases List.mem_cons.mp h with rfl | hBelow
      · exact Nat.le_refl _
      · obtain ⟨child, hChild, hIn⟩ := mem_forest.mp hBelow
        exact Nat.le_trans (ih child hChild hIn) (Nat.le_of_lt (sizeOf_lt_of_mem_children hChild))

private theorem forest_perm_of_subtree_perm {nodes : List Node}
    (h : ∀ node ∈ nodes, node.subtree.Perm (node :: node.subtree.flatMap children)) :
    (forest nodes).Perm (nodes ++ (forest nodes).flatMap children) := by
  induction nodes with
  | nil => exact List.Perm.refl _
  | cons node rest ih =>
      obtain ⟨hNode, hRest⟩ := List.forall_mem_cons.mp h
      rw [forest_cons, List.flatMap_append]
      refine (hNode.append (ih hRest)).trans ?_
      exact List.Perm.cons node (List.perm_append_comm_assoc _ _ _)

/-- The nodes of some trees are their roots and the children of all nodes. -/
theorem forest_perm_children (nodes : List Node) :
    (forest nodes).Perm (nodes ++ (forest nodes).flatMap children) := by
  have hTree : ∀ node : Node, node.subtree.Perm (node :: node.subtree.flatMap children) := by
    intro node
    induction node using induction with
    | step node ih =>
        rw [subtree_eq, List.flatMap_cons]
        exact List.Perm.cons node (forest_perm_of_subtree_perm ih)
  exact forest_perm_of_subtree_perm fun node _ => hTree node

end Node

namespace Place

variable {place child start : Place}

theorem node_mem_of_mem_children (h : child ∈ place.children) :
    child.node ∈ place.node.children := by
  rw [← map_node_children]
  exact List.mem_map_of_mem h

theorem ascents_of_mem_below {rank : Nat} {rest : List (FieldName × Node)}
    (h : child ∈ below place rank rest) :
    ∃ field rank, child.ascents = ⟨place.node, field, rank⟩ :: place.ascents := by
  induction rest generalizing rank with
  | nil => cases h
  | cons first rest ih =>
      obtain ⟨field, node⟩ := first
      rcases List.mem_cons.mp h with rfl | hRest
      · exact ⟨field, rank, rfl⟩
      · exact ih hRest

theorem ascents_of_mem_children (h : child ∈ place.children) :
    ∃ field rank, child.ascents = ⟨place.node, field, rank⟩ :: place.ascents :=
  ascents_of_mem_below h

theorem parent?_of_mem_children (h : child ∈ place.children) : child.parent? = some place := by
  obtain ⟨field, rank, hAscents⟩ := ascents_of_mem_children h
  rw [parent?, hAscents]

theorem ancestors_of_mem_children (h : child ∈ place.children) :
    child.ancestors = place :: place.ancestors := by
  obtain ⟨field, rank, hAscents⟩ := ascents_of_mem_children h
  rw [ancestors, hAscents, alongAscents]
  rfl

theorem depth_of_mem_children (h : child ∈ place.children) : child.depth = place.depth + 1 := by
  obtain ⟨field, rank, hAscents⟩ := ascents_of_mem_children h
  rw [depth, hAscents, List.length_cons, depth]

@[simp] theorem parent?_root (node : Node) : (root node).parent? = none := rfl

@[simp] theorem ancestors_root (node : Node) : (root node).ancestors = [] := rfl

theorem length_ancestors (place : Place) : place.ancestors.length = place.depth := by
  rw [ancestors, depth]
  induction place.ascents with
  | nil => rfl
  | cons ascent above ih => rw [alongAscents, List.length_cons, ih, List.length_cons]

/-- An induction along the children. -/
theorem induction {motive : Place → Prop}
    (step : ∀ place, (∀ child ∈ place.children, motive child) → motive place) (place : Place) :
    motive place :=
  step place fun child _ => induction step child
termination_by sizeOf place.node
decreasing_by exact Node.sizeOf_lt_of_mem_children (node_mem_of_mem_children ‹_›)

theorem walkAll_append (descend : Place → Bool) (front back : List Place) :
    walkAll descend (front ++ back) = walkAll descend front ++ walkAll descend back := by
  induction front using walkAll.induct descend with
  | case1 => rw [walkAll, List.nil_append, List.nil_append]
  | case2 place later ih =>
      rw [dite_eq_ite] at ih
      rw [walkAll, List.cons_append, walkAll, ← List.append_assoc, ih, List.cons_append]

theorem walkAll_eq_flatMap (descend : Place → Bool) (places : List Place) :
    walkAll descend places = places.flatMap (walk descend) := by
  induction places with
  | nil => rw [walkAll, List.flatMap_nil]
  | cons place rest ih =>
      rw [← List.singleton_append, walkAll_append, ih, List.flatMap_append, List.flatMap_singleton,
        walk]

/-- A walk visits a place and then, if it descends, walks through its children. -/
theorem walk_eq (descend : Place → Bool) (place : Place) :
    place.walk descend =
      place :: if descend place then place.children.flatMap (walk descend) else [] := by
  rw [walk, walkAll, List.append_nil]
  split
  · rw [walkAll_eq_flatMap]
  · rw [walkAll]

theorem descendants_eq (place : Place) :
    place.descendants = place :: place.children.flatMap descendants := by
  rw [descendants, walk_eq, if_pos rfl]
  rfl

theorem mem_descendants_iff : child ∈ place.descendants ↔
    child = place ∨ ∃ next ∈ place.children, child ∈ next.descendants := by
  rw [descendants_eq, List.mem_cons, List.mem_flatMap]

theorem mem_descendants_self (place : Place) : place ∈ place.descendants :=
  mem_descendants_iff.mpr (.inl rfl)

theorem mem_descendants_of_mem_children (h : place ∈ start.descendants)
    (hChild : child ∈ place.children) : child ∈ start.descendants := by
  induction start using induction with
  | step start ih =>
      rcases mem_descendants_iff.mp h with rfl | ⟨next, hNext, hPlace⟩
      · exact mem_descendants_iff.mpr (.inr ⟨child, hChild, mem_descendants_self child⟩)
      · exact mem_descendants_iff.mpr (.inr ⟨next, hNext, ih next hNext hPlace⟩)

/-- What holds of a place and goes over from every place to its children holds of everything
below it. -/
theorem forall_descendants {motive : Place → Prop} (hStart : motive start)
    (hStep : ∀ place ∈ start.descendants, motive place →
      ∀ child ∈ place.children, motive child) :
    ∀ place ∈ start.descendants, motive place := by
  induction start using induction with
  | step start ih =>
      intro place hPlace
      rcases mem_descendants_iff.mp hPlace with rfl | ⟨next, hNext, hBelow⟩
      · exact hStart
      · have hFirst := hStep start (mem_descendants_self start) hStart next hNext
        refine ih next hNext hFirst (fun between hBetween => ?_) place hBelow
        exact hStep between (mem_descendants_iff.mpr (.inr ⟨next, hNext, hBetween⟩))

/-- The places of a tree stand for its nodes, in the same order. -/
theorem map_node_descendants (place : Place) :
    place.descendants.map Place.node = place.node.subtree := by
  induction place using induction with
  | step place ih =>
      rw [descendants_eq, Node.subtree_eq, List.map_cons, List.map_flatMap, ← map_node_children,
        List.flatMap_map]
      exact congrArg _ (List.flatMap_congr ih)

theorem node_mem_subtree (h : place ∈ start.descendants) : place.node ∈ start.node.subtree := by
  rw [← map_node_descendants]
  exact List.mem_map_of_mem h

/-- The way up from a place of a tree leads over places of the tree. -/
theorem ancestors_subset_descendants {program : Node} :
    ∀ place ∈ (root program).descendants, place.ancestors ⊆ (root program).descendants := by
  refine forall_descendants (by simp) fun place hPlace ih child hChild => ?_
  rw [ancestors_of_mem_children hChild]
  exact List.cons_subset.mpr ⟨hPlace, ih⟩

theorem parent_mem_ancestors {parent : Place} (h : place.parent? = some parent) :
    parent ∈ place.ancestors := by
  obtain ⟨node, ascents⟩ := place
  cases ascents with
  | nil => cases h
  | cons ascent above =>
      cases h
      exact List.mem_cons_self

end Place

end EcmaLint
