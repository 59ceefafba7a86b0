import EcmaLint.Proofs.Tree.Forest
import EcmaLint.Proofs.Tree.Linked
import EcmaLint.Proofs.Tree.Traversal

/-! The way up from a place is the way up through the arena. A place knows its ancestors because
it was reached through them; a node in the arena was told its parent afterwards. In the arena of
a program the two agree, and the number of a node tells it from all others.

Places above and below each other. The way up from a place goes over the places that it is
below, each once, and in a tree without repetitions a place is told by its node. -/
namespace EcmaLint

namespace Ast

variable {ast : Ast} {program : Node}

namespace Holds

theorem children_eq (h : ast.Holds program) {node : Node} (hNode : node ∈ program.subtree) :
    ast.children node.id = node.children.map Node.id := by
  rw [children, h.getElem?_eq node hNode, ← Node.children_cell]
  rfl

theorem id_lt_size (h : ast.Holds program) {node : Node} (hNode : node ∈ program.subtree) :
    node.id < ast.size :=
  (Array.getElem?_eq_some_iff.mp (h.getElem?_eq node hNode)).1

/-- The root is the first node that a walk visits. -/
theorem root_eq (h : ast.Holds program) : ast.root = program.id := by
  have hWalk := h.walk_eq
  rw [walk, Node.subtree_eq, List.map_cons] at hWalk
  cases hSize : ast.size with
  | zero =>
      rw [hSize] at hWalk
      cases hWalk
  | succ bound =>
      rw [hSize, walkWithin] at hWalk
      obtain ⟨rest, -, hRest⟩ := Option.bind_eq_some_iff.mp hWalk
      exact (List.cons.inj (Option.some.inj hRest)).1

/-- The numbers of the nodes of a program are those of the cells. -/
theorem perm_ids (h : ast.Holds program) (hTree : ast.IsTree) :
    (program.subtree.map Node.id).Perm (List.range ast.size) := by
  obtain ⟨visited, hVisited, hAll⟩ := hTree.walk
  obtain rfl := Option.some.inj (h.walk_eq.symm.trans hVisited)
  exact hAll

/-- No two nodes of a program have the same number. -/
theorem nodup (h : ast.Holds program) (hTree : ast.IsTree) :
    (program.subtree.map Node.id).Nodup :=
  (h.perm_ids hTree).nodup_iff.mpr List.nodup_range

theorem eq_of_id_eq (h : ast.Holds program) (hTree : ast.IsTree) {first second : Node}
    (hFirst : first ∈ program.subtree) (hSecond : second ∈ program.subtree)
    (hId : first.id = second.id) : first = second :=
  List.inj_on_of_nodup_map (h.nodup hTree) hFirst hSecond hId

end Holds

variable (hTree : ast.IsTree) (hHolds : ast.Holds program)
include hTree hHolds

theorem parent?_of_mem_children {node child : Node} (hNode : node ∈ program.subtree)
    (hChild : child ∈ node.children) : ast.parent? child.id = some node.id := by
  rw [hTree.parent?_eq_some, hHolds.children_eq hNode]
  exact List.mem_map_of_mem hChild

theorem parent?_of_place : ∀ place ∈ (Place.root program).descendants,
    ast.parent? place.node.id = place.parent?.map fun parent => parent.node.id := by
  refine Place.forall_descendants ?_ fun place hPlace _ child hChild => ?_
  · rw [Place.parent?_root, Place.root, ← hHolds.root_eq, hTree.parent?_root]
    rfl
  · have hParent := parent?_of_mem_children hTree hHolds (Place.node_mem_subtree hPlace)
      (Place.node_mem_of_mem_children hChild)
    rw [hParent, Place.parent?_of_mem_children hChild]
    rfl

/-- As long as the bound lasts, the way up from the node of a place is that of the place. -/
theorem ancestorsWithin_of_place : ∀ place ∈ (Place.root program).descendants,
    ∀ bound above, ast.ancestorsWithin bound place.node.id = some above →
      above = place.ancestors.map fun ancestor => ancestor.node.id := by
  refine Place.forall_descendants ?_ fun place hPlace ih child hChild => ?_
  · intro bound above hAbove
    cases bound with
    | zero => cases hAbove
    | succ bound =>
        rw [Place.root, ancestorsWithin, ← hHolds.root_eq, hTree.parent?_root] at hAbove
        cases hAbove
        rfl
  · intro bound above hAbove
    cases bound with
    | zero => cases hAbove
    | succ bound =>
        have hParent := parent?_of_mem_children hTree hHolds (Place.node_mem_subtree hPlace)
          (Place.node_mem_of_mem_children hChild)
        rw [ancestorsWithin, hParent] at hAbove
        obtain ⟨rest, hRest, hCons⟩ := Option.bind_eq_some_iff.mp hAbove
        cases hCons
        rw [ih bound rest hRest, Place.ancestors_of_mem_children hChild, List.map_cons]

theorem ancestors_of_place {place : Place} (hPlace : place ∈ (Place.root program).descendants) :
    ast.ancestors place.node.id = some (place.ancestors.map fun ancestor => ancestor.node.id) := by
  obtain ⟨above, hAbove, -⟩ :=
    hTree.ancestors _ (hHolds.id_lt_size (Place.node_mem_subtree hPlace))
  rw [hAbove, ancestorsWithin_of_place hTree hHolds place hPlace _ above hAbove]

end Ast

namespace Place

/-- The first in a list without repetitions of which something holds. -/
theorem find?_eq_some_iff_of_nodup {α : Type} {front back : List α} {a : α} {p : α → Bool}
    (h : (front ++ a :: back).Nodup) :
    (front ++ a :: back).find? p = some a ↔ p a = true ∧ ∀ b ∈ front, p b = false := by
  induction front with
  | nil =>
      rw [List.nil_append, List.find?_cons]
      cases hHolds : p a with
      | true => simp
      | false =>
          have hBack : back.find? p ≠ some a := fun hFound =>
            (List.nodup_cons.mp h).1 (List.mem_of_find?_eq_some hFound)
          simp [hBack]
  | cons b front ih =>
      rw [List.cons_append] at h ⊢
      obtain ⟨hFirst, hRest⟩ := List.nodup_cons.mp h
      rw [List.find?_cons, List.forall_mem_cons]
      cases hHolds : p b with
      | true =>
          have hNe : b ≠ a := by
            rintro rfl
            exact hFirst (by simp)
          simp [hNe]
      | false =>
          rw [ih hRest]
          simp

variable {start place child first second : Place}

theorem descendants_sublist : ∀ place ∈ start.descendants,
    place.descendants.Sublist start.descendants := by
  refine forall_descendants (List.Sublist.refl _) fun place _ ih child hChild => ?_
  refine List.Sublist.trans ?_ ih
  rw [descendants_eq place]
  have hBelow := (List.singleton_sublist.mpr hChild).flatMap descendants
  rw [List.flatMap_singleton] at hBelow
  exact hBelow.cons _

theorem mem_descendants_trans {start place below : Place} (hPlace : place ∈ start.descendants)
    (h : below ∈ place.descendants) : below ∈ start.descendants :=
  (descendants_sublist place hPlace).subset h

/-- What is properly below a place has it on the way up. -/
theorem mem_ancestors_of_ne (h : place ∈ start.descendants) (hNe : place ≠ start) :
    start ∈ place.ancestors := by
  rcases mem_descendants_iff.mp h with rfl | ⟨child, hChild, hPlace⟩
  · exact absurd rfl hNe
  · rw [ancestors_eq_upTo_append hPlace, ancestors_of_mem_children hChild]
    simp

theorem mem_descendants_of_mem_ancestors {program : Node} {above : Place} :
    ∀ place ∈ (root program).descendants, above ∈ place.ancestors →
      place ∈ above.descendants := by
  refine forall_descendants (by simp) fun place hPlace ih child hChild hAbove => ?_
  rw [ancestors_of_mem_children hChild] at hAbove
  rcases List.mem_cons.mp hAbove with rfl | hAbove
  · exact mem_descendants_of_mem_children (mem_descendants_self above) hChild
  · exact mem_descendants_of_mem_children (ih hAbove) hChild

theorem mem_children_of_parent? {program : Node} {parent : Place} :
    ∀ place ∈ (root program).descendants, place.parent? = some parent →
      place ∈ parent.children := by
  refine forall_descendants (by simp) fun place _ _ child hChild hParent => ?_
  obtain rfl := Option.some.inj ((parent?_of_mem_children hChild).symm.trans hParent)
  exact hChild

theorem ancestors_of_parent? {parent : Place} (h : place.parent? = some parent) :
    place.ancestors = parent :: parent.ancestors := by
  obtain ⟨node, ascents⟩ := place
  cases ascents with
  | nil => cases h
  | cons ascent above =>
      cases h
      rfl

/-- The way up from a child leads over its parent. -/
theorem upTo_child (hPlace : place ∈ start.descendants) (hChild : child ∈ place.children) :
    start.upTo child = place :: start.upTo place := by
  have hAncestors := ancestors_of_mem_children hChild
  rw [ancestors_eq_upTo_append (mem_descendants_of_mem_children hPlace hChild),
    ancestors_eq_upTo_append hPlace, ← List.cons_append] at hAncestors
  exact List.append_cancel_right hAncestors

theorem depth_le_of_mem_descendants (h : place ∈ start.descendants) :
    start.depth ≤ place.depth := by
  obtain ⟨between, -, -, hDepth⟩ := ancestors_eq_append place h
  omega

theorem eq_of_depth_le (h : place ∈ start.descendants) (hDepth : place.depth ≤ start.depth) :
    place = start := by
  rcases mem_descendants_iff.mp h with rfl | ⟨child, hChild, hPlace⟩
  · rfl
  · have hLe := depth_le_of_mem_descendants hPlace
    rw [depth_of_mem_children hChild] at hLe
    omega

/-- The way up to a place ends with the place. -/
theorem exists_upTo_eq_concat (h : place ∈ start.descendants) (hNe : place ≠ start) :
    ∃ front, start.upTo place = front ++ [start] := by
  rcases mem_descendants_iff.mp h with rfl | ⟨child, hChild, hPlace⟩
  · exact absurd rfl hNe
  · exact ⟨child.upTo place, upTo_of_mem_children hChild hPlace⟩

/-- The way up from a place goes over no place twice. -/
theorem nodup_ancestors (place : Place) : place.ancestors.Nodup := by
  obtain ⟨node, ascents⟩ := place
  induction ascents generalizing node with
  | nil => exact List.nodup_nil
  | cons ascent above ih =>
      refine List.nodup_cons.mpr ⟨fun hMem => ?_, ih ascent.parent⟩
      exact Nat.lt_irrefl _ (@depth_lt_of_mem_ancestors ⟨ascent.parent, above⟩ _ hMem)

/-- In a tree without repetitions a place is told by its node. -/
theorem eq_of_node_eq {program : Node} (hNodup : program.subtree.Nodup)
    (hFirst : first ∈ (root program).descendants) (hSecond : second ∈ (root program).descendants)
    (hNode : first.node = second.node) : first = second := by
  refine List.inj_on_of_nodup_map ?_ hFirst hSecond hNode
  rwa [map_node_descendants]

end Place

end EcmaLint
