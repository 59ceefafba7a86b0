import EcmaLint.Tree.Node

/-! The arena of a program: its nodes by number. A cell is a node with the numbers of its
children in its slots. Cells are made from the leaves up and changed in place, and nothing in
them says that they form a tree: two slots may hold the same number, and none may hold it.
`Ast.link` adds the way up. -/
namespace EcmaLint

/-- A node as it is stored. -/
structure Cell where
  kind : NodeKind
  span : Span
  /-- The node that holds it, once the cells are linked. -/
  parent? : Option NodeId := none
  fields : List (FieldName × Field NodeId)
  deriving Inhabited

/-- The numbers of the children in visiting order. -/
def Cell.children (cell : Cell) : List NodeId :=
  cell.fields.flatMap fun field => field.2.slotList.filterMap id

namespace Node

/-- The cell of a node. -/
def cell (node : Node) : Cell :=
  { kind := node.kind
    span := node.span
    fields := node.fields.map fun field => (field.1, field.2.map Node.id) }

/-- A node and every node below it, each before those below it. -/
def subtree (node : Node) : List Node :=
  node :: node.children.attach.flatMap fun ⟨child, _⟩ => subtree child
termination_by sizeOf node
decreasing_by exact sizeOf_lt_of_mem_children ‹_›

theorem subtree_eq (node : Node) : node.subtree = node :: node.children.flatMap subtree := by
  rw [subtree, List.flatMap_subtype (fun _ _ => rfl), List.unattach_attach]

end Node

/-- The nodes of a program by number. -/
abbrev Arena := Array Cell

/-- Write a node and every node below it over the cells of their numbers. -/
def Arena.rewrite (arena : Arena) (node : Node) : Arena :=
  node.subtree.foldl (fun arena node => arena.setIfInBounds node.id node.cell) arena

/-- The arena of a whole program. -/
structure Ast where
  cells : Arena
  root : NodeId
  deriving Inhabited

namespace Ast

/-- What every filled slot holds, with the node that the slot belongs to. -/
def links (cells : Arena) : List (NodeId × NodeId) :=
  cells.toList.zipIdx.flatMap fun (cell, parent) => cell.children.map fun child => (child, parent)

/-- Tell every child its parent. If a child is held by several slots, the last one counts. -/
def link (cells : Arena) (root : NodeId) : Ast :=
  { cells := (links cells).foldl
      (fun cells (child, parent) =>
        cells.modify child fun cell => { cell with parent? := some parent })
      cells
    root }

def size (ast : Ast) : Nat := ast.cells.size

def parent? (ast : Ast) (id : NodeId) : Option NodeId := ast.cells[id]?.bind Cell.parent?

/-- The children of a node in visiting order. -/
def children (ast : Ast) (id : NodeId) : List NodeId :=
  (ast.cells[id]?.map Cell.children).getD []

/-- Parent, grandparent and so on, if they come to an end before a number of nodes is looked at. -/
def ancestorsWithin (ast : Ast) : Nat → NodeId → Option (List NodeId)
  | 0, _ => none
  | bound + 1, id =>
      match ast.parent? id with
      | none => some []
      | some parent => do return parent :: (← ancestorsWithin ast bound parent)

/-- Parent, grandparent and so on. There is no result if this does not end: a way up over more
nodes than there are goes round in circles. -/
def ancestors (ast : Ast) (id : NodeId) : Option (List NodeId) :=
  ast.ancestorsWithin (ast.size + 1) id

/-- Visit the nodes on a stack, each before its children, if there are no more visits than a
number. -/
def walkWithin (ast : Ast) : Nat → List NodeId → Option (List NodeId)
  | _, [] => some []
  | 0, _ :: _ => none
  | bound + 1, id :: stack => do return id :: (← walkWithin ast bound (ast.children id ++ stack))

/-- The nodes that a walk from the root visits, in the order of the visits. There is no result if
there are more visits than nodes. -/
def walk (ast : Ast) : Option (List NodeId) := ast.walkWithin ast.size [ast.root]

end Ast

end EcmaLint
