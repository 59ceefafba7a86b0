import Mathlib.Data.List.Nodup
import Mathlib.Data.List.Range
import EcmaLint.Proofs.Tree.Forest

/-! What reading adds to an arena. Nodes are pushed one at a time, each after its children, and
some are written again. Between two moments the arena grows by the cells of exactly the nodes
that stand in the trees read in between: no number is skipped, and none is used twice. -/
namespace EcmaLint

open Node

/-- The growth of an arena by the nodes of some trees. -/
structure Stores (before : Arena) (nodes : List Node) (after : Arena) : Prop where
  size_le : before.size ≤ after.size
  /-- The new numbers are those of the nodes, each once. -/
  ids : ((forest nodes).map Node.id).Perm (List.range' before.size (after.size - before.size))
  kept : ∀ id < before.size, after[id]? = before[id]?
  stored : ∀ node ∈ forest nodes, after[node.id]? = some node.cell
  child_lt : ∀ node ∈ forest nodes, ∀ child ∈ node.children, child.id < node.id

namespace Stores

variable {before between after : Arena} {nodes later : List Node}

theorem refl (arena : Arena) : Stores arena [] arena where
  size_le := Nat.le_refl _
  ids := by simp
  kept _ _ := rfl
  stored := by simp
  child_lt := by simp

theorem id_bounds (h : Stores before nodes after) {node : Node} (hNode : node ∈ forest nodes) :
    before.size ≤ node.id ∧ node.id < after.size := by
  obtain ⟨hLe, hLt⟩ := List.mem_range'_1.mp (h.ids.subset (List.mem_map_of_mem hNode))
  rw [Nat.add_sub_cancel' h.size_le] at hLt
  exact ⟨hLe, hLt⟩

theorem nodup (h : Stores before nodes after) : ((forest nodes).map Node.id).Nodup :=
  h.ids.nodup_iff.mpr List.nodup_range'

theorem trans (h : Stores before nodes between) (h' : Stores between later after) :
    Stores before (nodes ++ later) after := by
  have hSize := h.size_le
  have hSize' := h'.size_le
  refine
    { size_le := Nat.le_trans hSize hSize'
      ids := ?_
      kept := ?_
      stored := ?_
      child_lt := ?_ }
  · have hJoin : List.range' before.size (between.size - before.size) ++
        List.range' between.size (after.size - between.size) =
          List.range' before.size (after.size - before.size) := by
      have hAppend := @List.range'_append_1 before.size (between.size - before.size)
        (after.size - between.size)
      rwa [Nat.add_sub_cancel' hSize, Nat.add_comm,
        Nat.sub_add_sub_cancel hSize' hSize] at hAppend
    rw [forest_append, List.map_append, ← hJoin]
    exact h.ids.append h'.ids
  · intro id hId
    rw [h'.kept id (Nat.lt_of_lt_of_le hId hSize), h.kept id hId]
  · intro node hNode
    rw [forest_append] at hNode
    rcases List.mem_append.mp hNode with hNode | hNode
    · rw [h'.kept _ (h.id_bounds hNode).2, h.stored node hNode]
    · exact h'.stored node hNode
  · intro node hNode
    rw [forest_append] at hNode
    rcases List.mem_append.mp hNode with hNode | hNode
    · exact h.child_lt node hNode
    · exact h'.child_lt node hNode

/-- A new node takes the trees that were read as its children. -/
theorem push (h : Stores before nodes after) {node : Node} (hId : node.id = after.size)
    (hChildren : node.children.Perm nodes) : Stores before [node] (after.push node.cell) := by
  have hSize := h.size_le
  have hForest : (forest [node]).Perm (node :: forest nodes) := by
    rw [forest_singleton]
    exact List.Perm.cons node (forest_perm hChildren)
  refine
    { size_le := by rw [Array.size_push]; omega
      ids := ?_
      kept := ?_
      stored := ?_
      child_lt := ?_ }
  · have hSucc : List.range' before.size ((after.push node.cell).size - before.size) =
        List.range' before.size (after.size - before.size) ++ [after.size] := by
      rw [Array.size_push, Nat.succ_sub hSize, List.range'_1_concat, Nat.add_sub_cancel' hSize]
    rw [hSucc]
    refine (hForest.map Node.id).trans ?_
    rw [List.map_cons, hId]
    exact (List.Perm.cons _ h.ids).trans (List.perm_append_singleton _ _).symm
  · intro id hLt
    rw [Array.getElem?_push_lt (Nat.lt_of_lt_of_le hLt hSize), ← h.kept id hLt,
      Array.getElem?_eq_getElem]
  · intro other hOther
    rcases List.mem_cons.mp (hForest.subset hOther) with rfl | hOther
    · rw [hId, Array.getElem?_push_size]
    · have hLt := (h.id_bounds hOther).2
      rw [Array.getElem?_push_lt hLt, ← h.stored other hOther, Array.getElem?_eq_getElem]
  · intro other hOther
    rcases List.mem_cons.mp (hForest.subset hOther) with rfl | hOther
    · intro child hChild
      rw [hId]
      exact (h.id_bounds (mem_forest_of_mem (hChildren.subset hChild))).2
    · exact h.child_lt other hOther

end Stores

namespace Arena

theorem size_foldl_setIfInBounds (nodes : List Node) (arena : Arena) :
    (nodes.foldl (fun arena node => arena.setIfInBounds node.id node.cell) arena).size =
      arena.size := by
  induction nodes generalizing arena with
  | nil => rfl
  | cons node rest ih => rw [List.foldl_cons, ih, Array.size_setIfInBounds]

theorem getElem?_foldl_setIfInBounds_of_ne {nodes : List Node} {id : NodeId}
    (h : ∀ node ∈ nodes, node.id ≠ id) (arena : Arena) :
    (nodes.foldl (fun arena node => arena.setIfInBounds node.id node.cell) arena)[id]? =
      arena[id]? := by
  induction nodes generalizing arena with
  | nil => rfl
  | cons node rest ih =>
      obtain ⟨hNode, hRest⟩ := List.forall_mem_cons.mp h
      rw [List.foldl_cons, ih hRest, Array.getElem?_setIfInBounds_ne hNode]

/-- Nodes with different numbers do not overwrite each other. -/
theorem getElem?_foldl_setIfInBounds {nodes : List Node} (h : (nodes.map Node.id).Nodup)
    {arena : Arena} {node : Node} (hNode : node ∈ nodes) (hLt : node.id < arena.size) :
    (nodes.foldl (fun arena node => arena.setIfInBounds node.id node.cell) arena)[node.id]? =
      some node.cell := by
  induction nodes generalizing arena with
  | nil => cases hNode
  | cons first rest ih =>
      obtain ⟨hFirst, hRest⟩ := List.nodup_cons.mp h
      rw [List.foldl_cons]
      rcases List.mem_cons.mp hNode with rfl | hNode
      · rw [getElem?_foldl_setIfInBounds_of_ne, Array.getElem?_setIfInBounds_self_of_lt hLt]
        exact fun other hOther hId => hFirst (hId ▸ List.mem_map_of_mem hOther)
      · exact ih hRest hNode (by rwa [Array.size_setIfInBounds])

end Arena

/-- Writing a tree again with the same numbers in the same places replaces it. -/
theorem Stores.rewrite {before after : Arena} {node target : Node}
    (h : Stores before [node] after)
    (hIds : (forest [target]).map Node.id = (forest [node]).map Node.id)
    (hChildren : ∀ changed ∈ forest [target], ∃ old ∈ forest [node],
      old.id = changed.id ∧ old.children.map Node.id = changed.children.map Node.id) :
    Stores before [target] (after.rewrite target) := by
  have hSubtree : forest [target] = target.subtree := List.flatMap_singleton _ _
  have hSize : (after.rewrite target).size = after.size := Arena.size_foldl_setIfInBounds _ _
  have hBounds : ∀ changed ∈ forest [target],
      before.size ≤ changed.id ∧ changed.id < after.size := by
    intro changed hChanged
    obtain ⟨old, hOld, hId, -⟩ := hChildren changed hChanged
    rw [← hId]
    exact h.id_bounds hOld
  refine
    { size_le := by rw [hSize]; exact h.size_le
      ids := by rw [hSize, hIds]; exact h.ids
      kept := ?_
      stored := ?_
      child_lt := ?_ }
  · intro id hLt
    rw [← h.kept id hLt]
    refine Arena.getElem?_foldl_setIfInBounds_of_ne (fun changed hChanged hId => ?_) after
    exact absurd (hId ▸ hLt) (Nat.not_lt.mpr (hBounds changed (hSubtree ▸ hChanged)).1)
  · intro changed hChanged
    refine Arena.getElem?_foldl_setIfInBounds ?_ (hSubtree ▸ hChanged) (hBounds changed hChanged).2
    rw [← hSubtree, hIds]
    exact h.nodup
  · intro changed hChanged child hChild
    obtain ⟨old, hOld, hId, hSame⟩ := hChildren changed hChanged
    obtain ⟨oldChild, hOldChild, hChildId⟩ :=
      List.mem_map.mp (hSame ▸ List.mem_map_of_mem hChild)
    rw [← hId, ← hChildId]
    exact h.child_lt old hOld oldChild hOldChild

end EcmaLint
