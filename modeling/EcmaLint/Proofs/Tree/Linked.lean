import EcmaLint.Proofs.Tree.Stores

/-! Arenas that are trees. The cells of a program were made from the leaves up, so every number
but that of the root stands in one slot, which belongs to a greater number. That is all it takes
for the way up and the way down to be each other's inverse, and for both of them to end. -/
namespace EcmaLint

open Node

/-- In a list without repetitions that is put together from parts, a member tells its part. -/
theorem index_eq_of_nodup_flatMap {α β : Type} {list : List α} {parts : α → List β}
    (h : (list.flatMap parts).Nodup) {i j : Nat} {a b : α} (ha : list[i]? = some a)
    (hb : list[j]? = some b) {x : β} (hxa : x ∈ parts a) (hxb : x ∈ parts b) : i = j := by
  obtain ⟨hi, rfl⟩ := List.getElem?_eq_some_iff.mp ha
  obtain ⟨hj, rfl⟩ := List.getElem?_eq_some_iff.mp hb
  have hApart := List.pairwise_iff_getElem.mp (List.nodup_flatMap.mp h).2
  rcases Nat.lt_trichotomy i j with hLt | hEq | hLt
  · exact (hApart i j hi hj hLt hxa hxb).elim
  · exact hEq
  · exact (hApart j i hj hi hLt hxb hxa).elim

theorem Field.mem_filled {α : Type} {value : Field α} {child : α} :
    child ∈ value.filled ↔ ∃ slot : Nat, value.slotList[slot]? = some (some child) := by
  rw [filled, List.mem_filterMap, ← List.mem_iff_getElem?]
  constructor
  · rintro ⟨slot, hSlot, hChild⟩
    exact hChild ▸ hSlot
  · intro hSlot
    exact ⟨some child, hSlot, rfl⟩

theorem Cell.mem_children {cell : Cell} {child : NodeId} : child ∈ cell.children ↔
    ∃ field : Nat, ∃ value, cell.fields[field]? = some value ∧ child ∈ value.2.filled := by
  rw [children, List.mem_flatMap]
  constructor
  · rintro ⟨value, hValue, hChild⟩
    obtain ⟨field, hField⟩ := List.mem_iff_getElem?.mp hValue
    exact ⟨field, value, hField, hChild⟩
  · rintro ⟨field, value, hField, hChild⟩
    exact ⟨value, List.mem_of_getElem? hField, hChild⟩

/-- Where a slot is: the node that it belongs to, the place of its field in the node, and its own
place in the field. -/
structure SlotPlace where
  node : NodeId
  field : Nat
  slot : Nat

namespace Ast

/-- What stands in a slot. -/
def slot? (ast : Ast) (place : SlotPlace) : Option NodeId := do
  let cell ← ast.cells[place.node]?
  let field ← cell.fields[place.field]?
  (field.2.slotList[place.slot]?).join

/-- The nodes of a program form a tree. -/
structure IsTree (ast : Ast) : Prop where
  root_lt : ast.root < ast.size
  /-- Every node but the root stands in one slot of one field of one node. -/
  held : ∀ id < ast.size, id ≠ ast.root → ∃! place, ast.slot? place = some id
  root_free : ∀ place, ast.slot? place ≠ some ast.root
  parent?_eq_some : ∀ id parent, ast.parent? id = some parent ↔ id ∈ ast.children parent
  parent?_root : ast.parent? ast.root = none
  child_lt : ∀ parent, ∀ child ∈ ast.children parent, child < parent
  /-- Recursion over children ends. -/
  wellFounded : WellFounded fun child parent => child ∈ ast.children parent
  /-- A walk from the root ends and visits every node once. -/
  walk : ∃ visited, ast.walk = some visited ∧ visited.Perm (List.range ast.size)
  /-- The way up from any node ends, and it ends at the root. -/
  ancestors : ∀ id < ast.size, ∃ above, ast.ancestors id = some above ∧
    (id :: above).getLast? = some ast.root

/-- The cells are those of the nodes of a tree, each under its number and with its parent, and a
walk visits them in the order of the tree. -/
structure Holds (ast : Ast) (program : Node) : Prop where
  walk_eq : ast.walk = some (program.subtree.map Node.id)
  getElem?_eq : ∀ node ∈ program.subtree,
    ast.cells[node.id]? = some { node.cell with parent? := ast.parent? node.id }

theorem slot?_eq_some_iff {ast : Ast} {place : SlotPlace} {id : NodeId} :
    ast.slot? place = some id ↔ ∃ cell, ast.cells[place.node]? = some cell ∧
      ∃ field, cell.fields[place.field]? = some field ∧
        field.2.slotList[place.slot]? = some (some id) := by
  simp only [slot?, Option.bind_eq_bind, Option.bind_eq_some_iff, Option.join_eq_some_iff]

theorem mem_children {ast : Ast} {parent child : NodeId} : child ∈ ast.children parent ↔
    ∃ cell, ast.cells[parent]? = some cell ∧ child ∈ cell.children := by
  cases hCell : ast.cells[parent]? <;> simp [children, hCell]

/-- The children of a node are what stands in its slots. -/
theorem mem_children_iff {ast : Ast} {parent child : NodeId} : child ∈ ast.children parent ↔
    ∃ place, place.node = parent ∧ ast.slot? place = some child := by
  constructor
  · intro h
    obtain ⟨cell, hCell, hChild⟩ := mem_children.mp h
    obtain ⟨i, field, hField, hFilled⟩ := Cell.mem_children.mp hChild
    obtain ⟨j, hSlot⟩ := Field.mem_filled.mp hFilled
    exact ⟨⟨parent, i, j⟩, rfl, slot?_eq_some_iff.mpr ⟨cell, hCell, field, hField, hSlot⟩⟩
  · rintro ⟨place, rfl, hPlace⟩
    obtain ⟨cell, hCell, field, hField, hSlot⟩ := slot?_eq_some_iff.mp hPlace
    exact mem_children.mpr ⟨cell, hCell, Cell.mem_children.mpr
      ⟨place.field, field, hField, Field.mem_filled.mpr ⟨place.slot, hSlot⟩⟩⟩

/-- If no child is listed twice, none stands in two slots. The list is put together from cells,
the children of a cell from fields, and those of a field from slots, so the place is found in
three steps. -/
theorem slotPlace_unique {ast : Ast} (h : (ast.cells.toList.flatMap Cell.children).Nodup)
    {first second : SlotPlace} {child : NodeId} (hFirst : ast.slot? first = some child)
    (hSecond : ast.slot? second = some child) : first = second := by
  obtain ⟨node, i, j⟩ := first
  obtain ⟨node', i', j'⟩ := second
  obtain ⟨cell, hCell, field, hField, hSlot⟩ := slot?_eq_some_iff.mp hFirst
  obtain ⟨cell', hCell', field', hField', hSlot'⟩ := slot?_eq_some_iff.mp hSecond
  dsimp only at hCell hCell' hField hField' hSlot hSlot'
  have hFilled := Field.mem_filled.mpr ⟨j, hSlot⟩
  have hFilled' := Field.mem_filled.mpr ⟨j', hSlot'⟩
  obtain rfl : node = node' := by
    rw [← Array.getElem?_toList] at hCell hCell'
    exact index_eq_of_nodup_flatMap h hCell hCell'
      (Cell.mem_children.mpr ⟨i, field, hField, hFilled⟩)
      (Cell.mem_children.mpr ⟨i', field', hField', hFilled'⟩)
  obtain rfl := Option.some.inj (hCell.symm.trans hCell')
  have hCellNodup : (cell.fields.flatMap fun field => field.2.filled).Nodup :=
    (List.nodup_flatMap.mp h).1 cell (Array.mem_toList_iff.mpr (Array.mem_of_getElem? hCell))
  obtain rfl := index_eq_of_nodup_flatMap hCellNodup hField hField' hFilled hFilled'
  obtain rfl := Option.some.inj (hField.symm.trans hField')
  have hFieldNodup := (List.nodup_flatMap.mp hCellNodup).1 field (List.mem_of_getElem? hField)
  rw [Field.filled, List.filterMap_eq_flatMap_toList] at hFieldNodup
  have hMem : child ∈ (some child).toList := Option.mem_toList.mpr rfl
  obtain rfl := index_eq_of_nodup_flatMap hFieldNodup hSlot hSlot' hMem hMem
  rfl

variable {arena : Arena} {root : NodeId}

theorem mem_links {child parent : NodeId} :
    (child, parent) ∈ links arena ↔ child ∈ Ast.children ⟨arena, root⟩ parent := by
  simp only [mem_children, links, List.mem_flatMap, List.mem_map, Prod.exists,
    List.mem_zipIdx_iff_getElem?, Array.getElem?_toList]
  constructor
  · rintro ⟨cell, parent, hCell, child, hChild, ⟨⟩⟩
    exact ⟨cell, hCell, hChild⟩
  · rintro ⟨cell, hCell, hChild⟩
    exact ⟨cell, parent, hCell, child, hChild, rfl⟩

theorem map_fst_links : (links arena).map Prod.fst = arena.toList.flatMap Cell.children := by
  simp only [links, List.map_flatMap, List.map_map]
  have hCells := List.zipIdx_map_fst 0 arena.toList
  generalize arena.toList.zipIdx = pairs at hCells
  rw [← hCells, List.flatMap_map]
  simp [Function.comp_def]

/-- Telling children their parents one by one. The last parent of a child counts. -/
theorem getElem?_foldl_modify (pairs : List (NodeId × NodeId)) (arena : Arena) (id : NodeId) :
    (pairs.foldl (fun cells (child, parent) =>
      cells.modify child fun cell => { cell with parent? := some parent }) arena)[id]? =
      arena[id]?.map fun cell =>
        { cell with parent? := (pairs.reverse.lookup id).or cell.parent? } := by
  induction pairs generalizing arena with
  | nil => simp
  | cons pair rest ih =>
      obtain ⟨child, parent⟩ := pair
      rw [List.foldl_cons, ih, Array.getElem?_modify, List.reverse_cons, List.lookup_append]
      split
      case isTrue h =>
        subst h
        cases arena[child]? <;> simp
      case isFalse h =>
        have hNe : (id == child) = false := by simpa using Ne.symm h
        simp [List.lookup_cons, hNe]

theorem getElem?_link (id : NodeId) : (link arena root).cells[id]? = arena[id]?.map fun cell =>
    { cell with parent? := ((links arena).reverse.lookup id).or cell.parent? } :=
  getElem?_foldl_modify (links arena) arena id

theorem children_link (parent : NodeId) :
    (link arena root).children parent = Ast.children ⟨arena, root⟩ parent := by
  rw [children, getElem?_link, Option.map_map]
  rfl

theorem slot?_link (place : SlotPlace) :
    (link arena root).slot? place = Ast.slot? ⟨arena, root⟩ place := by
  rw [slot?, getElem?_link, slot?]
  cases arena[place.node]? <;> rfl

theorem size_link : (link arena root).size = arena.size := by
  have hSize : ∀ (pairs : List (NodeId × NodeId)) (cells : Arena),
      (pairs.foldl (fun cells (child, parent) =>
        cells.modify child fun cell => { cell with parent? := some parent }) cells).size =
        cells.size := by
    intro pairs
    induction pairs with
    | nil => exact fun _ => rfl
    | cons pair rest ih =>
        intro cells
        rw [List.foldl_cons, ih, Array.size_modify]
  exact hSize (links arena) arena

end Ast

/-- An arena whose numbers are held once each, but for that of the root, and by greater ones. -/
structure Arena.Rooted (arena : Arena) (root : NodeId) : Prop where
  held : (root :: (Ast.links arena).map Prod.fst).Perm (List.range arena.size)
  child_lt : ∀ parent, ∀ child ∈ Ast.children ⟨arena, root⟩ parent, child < parent
  unlinked : ∀ cell ∈ arena.toList, cell.parent? = none

theorem toList_eq_filterMap {α : Type} (array : Array α) :
    array.toList = (List.range array.size).filterMap fun i => array[i]? := by
  have hSome : array.toList.map some = (List.range array.size).map fun i => array[i]? := by
    refine List.ext_getElem? fun i => ?_
    by_cases hi : i < array.size
    · simp [hi]
    · simp [Nat.not_lt.mp hi]
  have hId := congrArg (List.filterMap id) hSome
  simpa [List.filterMap_map, Function.comp_def] using hId

namespace Stores

variable {arena : Arena} {program : Node}

/-- The arena of a whole program consists of the cells of its nodes. -/
theorem cells_perm (h : Stores #[] [program] arena) :
    arena.toList.Perm ((forest [program]).map cell) := by
  have hIds : (List.range arena.size).Perm ((forest [program]).map Node.id) := by
    rw [List.range_eq_range']
    exact h.ids.symm
  rw [toList_eq_filterMap, ← List.filterMap_eq_map]
  refine (hIds.filterMap fun i => arena[i]?).trans ?_
  have hStored : (forest [program]).filterMap (fun node => arena[node.id]?) =
      (forest [program]).filterMap (some ∘ cell) := List.filterMap_congr h.stored
  rw [List.filterMap_map, ← hStored]
  rfl

theorem rooted (h : Stores #[] [program] arena) : arena.Rooted program.id where
  held := by
    have hChildren : (arena.toList.flatMap Cell.children).Perm
        (((forest [program]).flatMap Node.children).map Node.id) := by
      rw [List.map_flatMap]
      simpa only [List.flatMap_map, children_cell] using h.cells_perm.flatMap_right Cell.children
    rw [Ast.map_fst_links]
    refine (List.Perm.cons _ hChildren).trans ?_
    refine ((forest_perm_children [program]).map Node.id).symm.trans ?_
    rw [List.range_eq_range']
    exact h.ids
  child_lt parent child hChild := by
    obtain ⟨cell, hCell, hChild⟩ := Ast.mem_children.mp hChild
    obtain ⟨hParent, -⟩ := Array.getElem?_eq_some_iff.mp hCell
    have hId : parent ∈ (forest [program]).map Node.id :=
      h.ids.symm.subset (List.range_eq_range' ▸ List.mem_range.mpr hParent)
    obtain ⟨node, hNode, rfl⟩ := List.mem_map.mp hId
    obtain rfl := Option.some.inj (hCell.symm.trans (h.stored node hNode))
    rw [children_cell] at hChild
    obtain ⟨below, hBelow, rfl⟩ := List.mem_map.mp hChild
    exact h.child_lt node hNode below hBelow
  unlinked cell hCell := by
    obtain ⟨node, -, rfl⟩ := List.mem_map.mp (h.cells_perm.subset hCell)
    rfl

end Stores

theorem lookup_eq_some_iff_mem {α β : Type} [DecidableEq α] {pairs : List (α × β)}
    (h : (pairs.map Prod.fst).Nodup) {key : α} {value : β} :
    pairs.lookup key = some value ↔ (key, value) ∈ pairs := by
  rw [List.lookup_eq_some_iff]
  constructor
  · rintro ⟨front, back, rfl, -⟩
    simp
  · intro hMem
    obtain ⟨front, back, rfl⟩ := List.append_of_mem hMem
    refine ⟨front, back, rfl, fun pair hPair => ?_⟩
    rw [List.map_append, List.map_cons] at h
    have hApart := (List.nodup_append'.mp h).2.2 (List.mem_map_of_mem hPair)
    exact bne_iff_ne.mpr fun hEq => hApart (hEq ▸ List.mem_cons_self)

namespace Arena.Rooted

variable {arena : Arena} {root : NodeId}

theorem nodup (h : arena.Rooted root) : (root :: (Ast.links arena).map Prod.fst).Nodup :=
  h.held.nodup_iff.mpr List.nodup_range

/-- What is a child is held by a link. -/
theorem mem_map_fst_links {child parent : NodeId}
    (h : child ∈ (Ast.link arena root).children parent) :
    child ∈ (Ast.links arena).map Prod.fst := by
  rw [Ast.children_link] at h
  exact List.mem_map_of_mem (Ast.mem_links.mpr h)

/-- The parent that a node was told is the node that holds it. -/
theorem parent?_eq_some (h : arena.Rooted root) {child parent : NodeId} :
    (Ast.link arena root).parent? child = some parent ↔
      child ∈ (Ast.link arena root).children parent := by
  -- no child is linked twice, so the last link that counts is the only one
  have hNodup := (List.nodup_cons.mp h.nodup).2
  have hLookup : (Ast.links arena).reverse.lookup child = some parent ↔
      child ∈ (Ast.link arena root).children parent := by
    rw [lookup_eq_some_iff_mem, List.mem_reverse, Ast.mem_links, Ast.children_link]
    rwa [List.map_reverse, List.nodup_reverse]
  rw [← hLookup, Ast.parent?, Ast.getElem?_link]
  cases hCell : arena[child]? with
  | none =>
      have hNever : ¬(Ast.links arena).reverse.lookup child = some parent := by
        intro hParent
        have hLink := mem_map_fst_links (hLookup.mp hParent)
        have hLt := List.mem_range.mp (h.held.subset (List.mem_cons_of_mem root hLink))
        exact absurd hLt (Nat.not_lt.mpr (Array.getElem?_eq_none_iff.mp hCell))
      simpa using hNever
  | some cell =>
      have hUnlinked := h.unlinked cell (Array.mem_toList_iff.mpr (Array.mem_of_getElem? hCell))
      simp [hUnlinked]

theorem child_lt_parent (h : arena.Rooted root) {child parent : NodeId}
    (hChild : child ∈ (Ast.link arena root).children parent) : child < parent := by
  rw [Ast.children_link] at hChild
  exact h.child_lt parent child hChild

theorem parent?_root (h : arena.Rooted root) : (Ast.link arena root).parent? root = none := by
  rw [Option.eq_none_iff_forall_ne_some]
  intro parent hParent
  exact (List.nodup_cons.mp h.nodup).1 (mem_map_fst_links (h.parent?_eq_some.mp hParent))

/-- Every node but the root has a parent. -/
theorem exists_parent (h : arena.Rooted root) {child : NodeId} (hChild : child < arena.size)
    (hRoot : child ≠ root) : ∃ parent, child ∈ (Ast.link arena root).children parent := by
  have hMem := h.held.symm.subset (List.mem_range.mpr hChild)
  have hHeld := (List.mem_cons.mp hMem).resolve_left hRoot
  obtain ⟨link, hLink, rfl⟩ := List.mem_map.mp hHeld
  refine ⟨link.2, ?_⟩
  rw [Ast.children_link]
  exact Ast.mem_links.mp hLink

/-- The way up from a node leads over greater and greater numbers to the root. -/
theorem exists_ancestorsWithin (h : arena.Rooted root) {bound node : Nat}
    (hNode : node < arena.size) (hBound : arena.size - node < bound) :
    ∃ above, (Ast.link arena root).ancestorsWithin bound node = some above ∧
      (node :: above).getLast? = some root := by
  -- on the bound: above a parent there are fewer numbers left
  induction bound generalizing node with
  | zero => exact absurd hBound (Nat.not_lt_zero _)
  | succ bound ih =>
      rw [Ast.ancestorsWithin]
      by_cases hRoot : node = root
      · subst hRoot
        rw [h.parent?_root]
        exact ⟨[], rfl, rfl⟩
      · obtain ⟨parent, hParent⟩ := h.exists_parent hNode hRoot
        have hLt := h.child_lt_parent hParent
        have hParentLt : parent < arena.size := by
          rw [Ast.children_link] at hParent
          obtain ⟨cell, hCell, -⟩ := Ast.mem_children.mp hParent
          exact (Array.getElem?_eq_some_iff.mp hCell).1
        have hCloser : arena.size - parent < bound :=
          Nat.lt_of_lt_of_le (Nat.sub_lt_sub_left hNode hLt) (Nat.le_of_lt_succ hBound)
        obtain ⟨above, hAbove, hLast⟩ := ih hParentLt hCloser
        refine ⟨parent :: above, ?_, by rw [List.getLast?_cons_cons, hLast]⟩
        rw [h.parent?_eq_some.mpr hParent]
        dsimp only
        rw [hAbove]
        rfl

theorem exists_ancestors (h : arena.Rooted root) {node : NodeId} (hNode : node < arena.size) :
    ∃ above, (Ast.link arena root).ancestors node = some above ∧
      (node :: above).getLast? = some root := by
  rw [Ast.ancestors, Ast.size_link]
  exact h.exists_ancestorsWithin hNode (by omega)

end Arena.Rooted

/-- A walk over trees whose children are those of the arena visits their nodes, each before those
below it. -/
theorem Ast.walkWithin_eq {ast : Ast} {nodes : List Node} {bound : Nat}
    (h : ∀ node ∈ forest nodes, ast.children node.id = node.children.map Node.id)
    (hBound : (forest nodes).length ≤ bound) :
    ast.walkWithin bound (nodes.map Node.id) = some ((forest nodes).map Node.id) := by
  induction bound generalizing nodes with
  | zero =>
      cases nodes with
      | nil => rfl
      | cons node rest =>
          rw [forest_cons, subtree_eq, List.cons_append, List.length_cons] at hBound
          exact absurd hBound (Nat.not_succ_le_zero _)
  | succ bound ih =>
      cases nodes with
      | nil => rfl
      | cons node rest =>
          have hForest : forest (node :: rest) = node :: forest (node.children ++ rest) := by
            rw [forest_cons, subtree_eq, forest_append]
            rfl
          rw [hForest] at h hBound ⊢
          obtain ⟨hNode, hBelow⟩ := List.forall_mem_cons.mp h
          have hRest := ih hBelow (Nat.le_of_succ_le_succ hBound)
          rw [List.map_cons, walkWithin, hNode, ← List.map_append, hRest]
          rfl

namespace Stores

variable {arena : Arena} {program : Node}

/-- A walk through the arena of a program visits the nodes of the program. -/
theorem walk_eq (h : Stores #[] [program] arena) :
    (Ast.link arena program.id).walk = some (program.subtree.map Node.id) := by
  have hForest : forest [program] = program.subtree := List.flatMap_singleton _ _
  have hChildren : ∀ node ∈ forest [program],
      (Ast.link arena program.id).children node.id = node.children.map Node.id := by
    intro node hNode
    rw [Ast.children_link, Ast.children, h.stored node hNode, ← children_cell]
    rfl
  have hSize : (forest [program]).length = arena.size := by
    simpa using h.ids.length_eq
  rw [← hForest, Ast.walk, Ast.size_link, ← hSize]
  exact Ast.walkWithin_eq hChildren (Nat.le_refl _)

/-- The arena of a program holds the nodes of the program. -/
theorem holds (h : Stores #[] [program] arena) :
    (Ast.link arena program.id).Holds program where
  walk_eq := h.walk_eq
  getElem?_eq node hNode := by
    have hStored := h.stored node (by rwa [forest, List.flatMap_singleton])
    rw [Ast.parent?, Ast.getElem?_link, hStored]
    rfl

/-- The arena of a whole program is a tree once it is linked. -/
theorem isTree (h : Stores #[] [program] arena) : (Ast.link arena program.id).IsTree := by
  have hRooted := h.rooted
  obtain ⟨hRoot, hNodup⟩ := List.nodup_cons.mp hRooted.nodup
  have hSize : (Ast.link arena program.id).size = arena.size := Ast.size_link
  have hHeld : ∀ {place child}, (Ast.link arena program.id).slot? place = some child →
      child ∈ (Ast.link arena program.id).children place.node :=
    fun hPlace => Ast.mem_children_iff.mpr ⟨_, rfl, hPlace⟩
  exact
    { root_lt := by
        rw [hSize]
        exact List.mem_range.mp (hRooted.held.subset List.mem_cons_self)
      held := fun id hId hNotRoot => by
        rw [hSize] at hId
        obtain ⟨parent, hParent⟩ := hRooted.exists_parent hId hNotRoot
        obtain ⟨place, -, hPlace⟩ := Ast.mem_children_iff.mp hParent
        refine ⟨place, hPlace, fun other hOther => ?_⟩
        dsimp only at hPlace hOther
        rw [Ast.slot?_link] at hPlace hOther
        rw [Ast.map_fst_links] at hNodup
        exact Ast.slotPlace_unique hNodup hOther hPlace
      root_free := fun place hPlace => hRoot (Arena.Rooted.mem_map_fst_links (hHeld hPlace))
      parent?_eq_some := fun _ _ => hRooted.parent?_eq_some
      parent?_root := hRooted.parent?_root
      child_lt := fun _ _ => hRooted.child_lt_parent
      wellFounded := Subrelation.wf hRooted.child_lt_parent Nat.lt_wfRel.wf
      walk := by
        have hIds := h.ids
        refine ⟨_, h.walk_eq, ?_⟩
        rw [hSize, List.range_eq_range']
        rwa [forest, List.flatMap_singleton] at hIds
      ancestors := fun id hId => hRooted.exists_ancestors (hSize ▸ hId) }

end Stores

end EcmaLint
