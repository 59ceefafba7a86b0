import EcmaLint.Tree.Node

/-! Places in a tree. A place is a node together with the way up to the root, so that
ancestors, and the field that holds the node, can be asked for. Two places of one tree
are the same exactly if their addresses are.

Walks through a tree. Both walks keep the places still to come in a list, so they
need no recursion into the tree; the order they visit in is the one of the recursive
definitions, node before children and children in field order. -/
namespace EcmaLint

/-- One step of the way up: the parent, the field of the parent that holds the node, and
the rank of the node among the children of the parent. -/
structure Ascent where
  parent : Node
  field : FieldName
  rank : Nat

structure Place where
  node : Node
  /-- The way up, nearest first; empty at the root. -/
  ascents : List Ascent

namespace Place

def root (node : Node) : Place := ⟨node, []⟩

instance : Inhabited Place := ⟨root default⟩

def kind (place : Place) : NodeKind := place.node.kind

def span (place : Place) : Span := place.node.span

/-- The ranks on the way up, nearest first. -/
def address (place : Place) : List Nat := place.ascents.map Ascent.rank

/-- The field of the parent that holds the node. -/
def field? (place : Place) : Option FieldName := place.ascents.head?.map Ascent.field

def parent? (place : Place) : Option Place :=
  match place.ascents with
  | [] => none
  | ascent :: above => some ⟨ascent.parent, above⟩

/-- The places along a way up, nearest first. -/
def alongAscents : List Ascent → List Place
  | [] => []
  | ascent :: above => ⟨ascent.parent, above⟩ :: alongAscents above

/-- Parent, grandparent and so on up to the root. -/
def ancestors (place : Place) : List Place := alongAscents place.ascents

/-- The number of ancestors. -/
def depth (place : Place) : Nat := place.ascents.length

/-- The places below a place, given the fields and nodes from a rank on. -/
def below (place : Place) : Nat → List (FieldName × Node) → List Place
  | _, [] => []
  | rank, (field, child) :: rest =>
      ⟨child, ⟨place.node, field, rank⟩ :: place.ascents⟩ :: below place (rank + 1) rest

/-- The children of a place in visiting order. -/
def children (place : Place) : List Place := below place 0 place.node.namedChildren

/-- The children that a field holds. -/
def childrenIn (place : Place) (field : FieldName) : List Place :=
  place.children.filter fun child => child.field? = some field

/-- The child in a field that holds one slot. -/
def child? (place : Place) (field : FieldName) : Option Place :=
  if (place.node.child? field).isSome then (place.childrenIn field).head? else none

/-- The children in a list field, without its holes. -/
def list (place : Place) (field : FieldName) : List Place :=
  if (place.node.elements field).isEmpty then [] else place.childrenIn field

theorem map_node_below (place : Place) (rank : Nat) (rest : List (FieldName × Node)) :
    (below place rank rest).map Place.node = rest.map Prod.snd := by
  induction rest generalizing rank with
  | nil => rfl
  | cons first rest ih => simp [below, ih]

theorem map_node_children (place : Place) :
    place.children.map Place.node = place.node.children := by
  simp [children, map_node_below, Node.children]

/-- The nodes of the children are together smaller than the node of the place. -/
theorem totalSize_children_lt (place : Place) :
    Node.totalSize (place.children.map Place.node) < sizeOf place.node := by
  rw [map_node_children]
  exact Node.totalSize_children_lt place.node

end Place

namespace Place

/-- Visit the places of a list, each before the places below it. Where `descend` is
false the places below are left out. -/
def walkAll (descend : Place → Bool) : List Place → List Place
  | [] => []
  | place :: later =>
      place :: walkAll descend ((if descend place then place.children else []) ++ later)
termination_by places => Node.totalSize (places.map node)
decreasing_by
  have h := totalSize_children_lt place
  rw [List.map_append, Node.totalSize_append, List.map_cons, Node.totalSize]
  split
  · omega
  · rw [List.map_nil, Node.totalSize]
    omega

/-- A place and the places below it, leaving out what is below a place where `descend`
is false. -/
def walk (descend : Place → Bool) (place : Place) : List Place := walkAll descend [place]

/-- A place and every place below it. -/
def descendants (place : Place) : List Place := place.walk fun _ => true

end Place

/-- Listeners hear of a node twice: before and after everything below it. -/
inductive Phase where
  | enter
  | exit
  deriving DecidableEq, Repr

/-- One moment of a traversal. -/
structure Visit where
  phase : Phase
  place : Place

namespace Visit

/-- The work that a visit still to come stands for. -/
noncomputable def weight : Visit → Nat
  | ⟨.enter, place⟩ => 2 * sizeOf place.node
  | ⟨.exit, _⟩ => 1

/-- The work that visits still to come stand for. -/
noncomputable def totalWeight : List Visit → Nat
  | [] => 0
  | visit :: later => visit.weight + totalWeight later

theorem totalWeight_append (first second : List Visit) :
    totalWeight (first ++ second) = totalWeight first + totalWeight second := by
  induction first with
  | nil => exact (Nat.zero_add _).symm
  | cons visit later ih =>
    rw [List.cons_append, totalWeight, totalWeight, ih]
    omega

theorem totalWeight_enter (places : List Place) :
    totalWeight (places.map fun place => ⟨.enter, place⟩) =
      2 * Node.totalSize (places.map Place.node) := by
  induction places with
  | nil => rfl
  | cons place rest ih =>
    rw [List.map_cons, List.map_cons, totalWeight, Node.totalSize, ih, weight]
    omega

/-- Every visit that a list of visits still to come leads to. Entering a node puts its
children and its exit in front of what was still to come. -/
def run : List Visit → List Visit
  | [] => []
  | ⟨.enter, place⟩ :: later =>
      ⟨.enter, place⟩ ::
        run (place.children.map (fun child => ⟨.enter, child⟩) ++ ⟨.exit, place⟩ :: later)
  | ⟨.exit, place⟩ :: later => ⟨.exit, place⟩ :: run later
termination_by visits => totalWeight visits
decreasing_by
  · have h := Place.totalSize_children_lt place
    rw [totalWeight_append, totalWeight_enter, totalWeight, totalWeight, weight, weight]
    omega
  · rw [totalWeight, weight]
    omega

end Visit

/-- The visits of a whole tree. -/
def Place.visits (place : Place) : List Visit := Visit.run [⟨.enter, place⟩]

end EcmaLint
