import EcmaLint.Proofs.Grammar.Program
import EcmaLint.Proofs.Tree.Lineage
import EcmaLint.Regex.Reader
import EcmaLint.Selector.Match
import EcmaLint.Selector.Reader

/-! What selectors pick. A complex selector picks a node if there are nodes above it, one for each
of its compounds, that stand to each other as its combinators say. The search for them goes up from
the node and tries every ancestor, so it finds them if there are any; and the test on the kind that
comes before the search turns down no node that the search would find. -/
namespace EcmaLint

/-- A node passes the test of an attribute: its path leads somewhere, and the test holds there. -/
def Attribute.Fits (tested : Attribute) (node : Node) : Prop :=
  ∃ value, AttributeValue.follow? tested.path (.node node) = some value ∧
    tested.test.holds value = true

/-- A node is of the kind of a compound, if that names one, and passes all its tests. -/
structure Compound.Fits (compound : Compound) (node : Node) : Prop where
  kind_eq : ∀ kind, compound.kind = some kind → node.kind = kind
  attributes : ∀ tested ∈ compound.attributes, tested.Fits node

/-- How a node has to stand to the one that a combinator joins it to. -/
def Combinator.Joins (ast : Ast) (node above : Node) : Combinator → Prop
  | .child => ast.parent? node.id = some above.id
  | .descendant => ∃ ids, ast.ancestors node.id = some ids ∧ above.id ∈ ids

/-- Every node of a list stands to the next as the combinator between them says. -/
def Joined (ast : Ast) (combinators : List Combinator) (nodes : List Node) : Prop :=
  ∀ (i : Nat) combinator node above, combinators[i]? = some combinator → nodes[i]? = some node →
    nodes[i + 1]? = some above → combinator.Joins ast node above

/-- Nodes for the compounds of a complex selector, the subject first and each before the one that
stands to its left in the selector. -/
structure Complex.FitsAlong (complex : Complex) (ast : Ast) (nodes : List Node) : Prop where
  fits : List.Forall₂ Compound.Fits complex.compounds nodes
  joined : Joined ast (complex.context.map Prod.fst) nodes

theorem Attribute.holds_iff (tested : Attribute) (node : Node) :
    tested.holds node = true ↔ tested.Fits node := by
  rw [holds, Fits, Option.any_eq_true]

theorem Compound.holds_iff (compound : Compound) (node : Node) :
    compound.holds node = true ↔ compound.Fits node := by
  rw [holds, Bool.and_eq_true, Option.all_eq_true, List.all_eq_true]
  constructor
  · rintro ⟨hKind, hAttributes⟩
    exact ⟨fun kind h => (beq_iff_eq.mp (hKind kind h)).symm,
      fun tested h => (tested.holds_iff node).mp (hAttributes tested h)⟩
  · rintro ⟨hKind, hAttributes⟩
    exact ⟨fun kind h => beq_iff_eq.mpr (hKind kind h).symm,
      fun tested h => (tested.holds_iff node).mpr (hAttributes tested h)⟩

theorem joined_nil (ast : Ast) (nodes : List Node) : Joined ast [] nodes := by
  intro i combinator node above h
  cases h

theorem joined_cons {ast : Ast} {combinator : Combinator} {rest : List Combinator}
    {node above : Node} {nodes : List Node} :
    Joined ast (combinator :: rest) (node :: above :: nodes) ↔
      combinator.Joins ast node above ∧ Joined ast rest (above :: nodes) := by
  constructor
  · intro h
    exact ⟨h 0 combinator node above rfl rfl rfl, fun i => h (i + 1)⟩
  · rintro ⟨hFirst, hRest⟩ i
    cases i with
    | zero =>
        rintro _ _ _ ⟨⟩ ⟨⟩ ⟨⟩
        exact hFirst
    | succ i => exact hRest i

/-- The places that a combinator tries above a place. -/
def Combinator.reach (place : Place) : Combinator → List Place
  | .child => place.parent?.toList
  | .descendant => place.ancestors

theorem Combinator.reach_subset_ancestors (combinator : Combinator) (place : Place) :
    combinator.reach place ⊆ place.ancestors := by
  cases combinator with
  | child =>
      intro next hNext
      exact Place.parent_mem_ancestors (Option.mem_toList.mp hNext)
  | descendant => exact List.Subset.refl _

theorem Complex.contextHolds_cons (combinator : Combinator) (compound : Compound)
    (context : List (Combinator × Compound)) (place : Place) :
    contextHolds ((combinator, compound) :: context) place = true ↔
      ∃ next ∈ combinator.reach place,
        compound.holds next.node = true ∧ contextHolds context next = true := by
  cases combinator with
  | child => simp [contextHolds, Combinator.reach, Option.any_eq_true]
  | descendant => simp [contextHolds, Combinator.reach]

section

variable {ast : Ast} {program : Node} (hTree : ast.IsTree) (hHolds : ast.Holds program)
include hTree hHolds

/-- What a combinator tries is what it joins to. -/
theorem Combinator.joins_iff {place : Place} (hPlace : place ∈ (Place.root program).descendants)
    {above : Node} (hAbove : above ∈ program.subtree) (combinator : Combinator) :
    combinator.Joins ast place.node above ↔
      ∃ next ∈ combinator.reach place, next.node = above := by
  -- the arena only knows the number of the node above, which no other node has
  have hSame : ∀ next ∈ place.ancestors, next.node.id = above.id ↔ next.node = above := by
    intro next hNext
    have hNextPlace := Place.ancestors_subset_descendants place hPlace hNext
    exact ⟨hHolds.eq_of_id_eq hTree (Place.node_mem_subtree hNextPlace) hAbove,
      congrArg Node.id⟩
  cases combinator with
  | child =>
      have hParent := Ast.parent?_of_place hTree hHolds place hPlace
      rw [Joins, hParent, Option.map_eq_some_iff]
      constructor
      · rintro ⟨next, hNext, hId⟩
        exact ⟨next, Option.mem_toList.mpr hNext,
          (hSame next (Place.parent_mem_ancestors hNext)).mp hId⟩
      · rintro ⟨next, hNext, rfl⟩
        exact ⟨next, Option.mem_toList.mp hNext, rfl⟩
  | descendant =>
      have hAncestors := Ast.ancestors_of_place hTree hHolds hPlace
      constructor
      · rintro ⟨ids, hIds, hMem⟩
        rw [hAncestors] at hIds
        cases hIds
        obtain ⟨next, hNext, hId⟩ := List.mem_map.mp hMem
        exact ⟨next, hNext, (hSame next hNext).mp hId⟩
      · rintro ⟨next, hNext, rfl⟩
        exact ⟨_, hAncestors, List.mem_map_of_mem hNext⟩

/-- The search succeeds just if there are nodes above for the rest of the compounds. The
induction is on the compounds that are left, over all places that they might be searched from. -/
theorem Complex.contextHolds_iff {context : List (Combinator × Compound)} {place : Place}
    (hPlace : place ∈ (Place.root program).descendants) :
    contextHolds context place = true ↔
      ∃ above : List Node, above ⊆ program.subtree ∧
        List.Forall₂ Compound.Fits (context.map Prod.snd) above ∧
        Joined ast (context.map Prod.fst) (place.node :: above) := by
  induction context generalizing place with
  | nil =>
      refine ⟨fun _ => ⟨[], by simp, .nil, joined_nil _ _⟩, fun _ => ?_⟩
      rw [contextHolds]
  | cons step context ih =>
      obtain ⟨combinator, compound⟩ := step
      rw [contextHolds_cons]
      constructor
      · rintro ⟨next, hNext, hCompound, hContext⟩
        have hNextPlace := Place.ancestors_subset_descendants place hPlace
          (combinator.reach_subset_ancestors place hNext)
        have hNode := Place.node_mem_subtree hNextPlace
        obtain ⟨above, hAbove, hFits, hJoined⟩ := (ih hNextPlace).mp hContext
        have hJoins := (combinator.joins_iff hTree hHolds hPlace hNode).mpr ⟨next, hNext, rfl⟩
        exact ⟨next.node :: above, List.cons_subset.mpr ⟨hNode, hAbove⟩,
          .cons ((compound.holds_iff _).mp hCompound) hFits, joined_cons.mpr ⟨hJoins, hJoined⟩⟩
      · rintro ⟨nodes, hNodes, hAll, hJoined⟩
        obtain ⟨node, above, hCompound, hFits, rfl⟩ := List.forall₂_cons_left_iff.mp hAll
        obtain ⟨hNode, hAbove⟩ := List.cons_subset.mp hNodes
        obtain ⟨hJoins, hJoined⟩ := joined_cons.mp hJoined
        obtain ⟨next, hNext, rfl⟩ := (combinator.joins_iff hTree hHolds hPlace hNode).mp hJoins
        have hNextPlace := Place.ancestors_subset_descendants place hPlace
          (combinator.reach_subset_ancestors place hNext)
        exact ⟨next, hNext, (compound.holds_iff _).mpr hCompound,
          (ih hNextPlace).mpr ⟨above, hAbove, hFits, hJoined⟩⟩

theorem Complex.picks_iff (complex : Complex) {place : Place}
    (hPlace : place ∈ (Place.root program).descendants) :
    complex.picks place = true ↔ ∃ nodes : List Node, nodes ⊆ program.subtree ∧
      nodes.head? = some place.node ∧ complex.FitsAlong ast nodes := by
  rw [picks, Bool.and_eq_true, Compound.holds_iff, contextHolds_iff hTree hHolds hPlace]
  constructor
  · rintro ⟨hSubject, above, hAbove, hFits, hJoined⟩
    exact ⟨place.node :: above, List.cons_subset.mpr ⟨Place.node_mem_subtree hPlace, hAbove⟩, rfl,
      .cons hSubject hFits, hJoined⟩
  · rintro ⟨nodes, hNodes, hHead, hFits, hJoined⟩
    obtain ⟨node, above, hSubject, hAboveFits, rfl⟩ := List.forall₂_cons_left_iff.mp hFits
    cases hHead
    exact ⟨hSubject, above, (List.cons_subset.mp hNodes).2, hAboveFits, hJoined⟩

end

/-- A complex selector can pick nodes of a kind. -/
def Complex.Allows (complex : Complex) (kind : NodeKind) : Prop :=
  complex.subject.kind = none ∨ complex.subject.kind = some kind

namespace Selector

theorem all_addCandidate (candidates? : Option (List NodeKind)) (complex : Complex)
    (kind : NodeKind) : (addCandidate candidates? complex).all (·.contains kind) = true ↔
      candidates?.all (·.contains kind) = true ∨ complex.Allows kind := by
  cases hKind : complex.subject.kind with
  | none => simp [addCandidate, Complex.Allows, hKind]
  | some named =>
      cases candidates? with
      | none => simp [addCandidate, hKind]
      | some kinds =>
          simp only [addCandidate, Complex.Allows, hKind, Option.all_some, reduceCtorEq,
            Option.some.injEq, false_or, eq_comm (a := named)]
          by_cases hKnown : kinds.contains named = true
          · rw [if_pos hKnown]
            exact ⟨.inl, fun h => h.elim id fun hEq => hEq ▸ hKnown⟩
          · rw [if_neg hKnown]
            simp

theorem all_foldl_addCandidate (alternatives : List Complex)
    (candidates? : Option (List NodeKind)) (kind : NodeKind) :
    (alternatives.foldl addCandidate candidates?).all (·.contains kind) = true ↔
      candidates?.all (·.contains kind) = true ∨
        ∃ complex ∈ alternatives, complex.Allows kind := by
  induction alternatives generalizing candidates? with
  | nil => simp
  | cons complex rest ih =>
      rw [List.foldl_cons, ih, all_addCandidate, or_assoc]
      simp

/-- The test on the kind lets through what some alternative can pick, whatever the others are and
in whatever order they come. -/
theorem mayPick_iff (selector : Selector) (kind : NodeKind) : selector.mayPick kind = true ↔
    ∃ complex ∈ selector.alternatives, complex.Allows kind := by
  rw [mayPick, candidates?, all_foldl_addCandidate]
  simp

end Selector

theorem Complex.allows_of_picks {complex : Complex} {place : Place}
    (h : complex.picks place = true) : complex.Allows place.kind := by
  rw [picks, Bool.and_eq_true, Compound.holds_iff] at h
  cases hKind : complex.subject.kind with
  | none => exact .inl hKind
  | some kind => exact .inr (by rw [hKind, Place.kind, h.1.kind_eq kind hKind])

/-- The test on the kind never changes what is picked. -/
theorem Selector.picks_iff (selector : Selector) (place : Place) :
    selector.picks place = true ↔
      ∃ complex ∈ selector.alternatives, complex.picks place = true := by
  rw [picks, Bool.and_eq_true, mayPick_iff, List.any_eq_true]
  constructor
  · exact And.right
  · rintro ⟨complex, hComplex, hPicks⟩
    exact ⟨⟨complex, hComplex, Complex.allows_of_picks hPicks⟩, complex, hComplex, hPicks⟩

/-- In the tree of a program a selector picks just the nodes that some alternative of it has nodes
for: one for each compound, joined as its combinators say. The test on the kind lets all of them
through, and what it tells apart is the kinds that the alternatives name. -/
theorem parse_picks_iff {source : String} {options : ParseOptions} {parsed : Parsed}
    (h : parse source options = .ok parsed) (selector : Selector) {place : Place}
    (hPlace : place ∈ (Place.root parsed.program).descendants) :
    (selector.picks place = true ↔ ∃ complex ∈ selector.alternatives, ∃ nodes : List Node,
      nodes ⊆ parsed.program.subtree ∧ nodes.head? = some place.node ∧
        complex.FitsAlong parsed.ast nodes) ∧
      (∀ complex ∈ selector.alternatives, complex.picks place = true →
        selector.mayPick place.kind = true) ∧
      ∀ kind, selector.mayPick kind = true ↔
        ∃ complex ∈ selector.alternatives, complex.Allows kind := by
  obtain ⟨-, arena, hStores, hAst⟩ := lies_of_parse h
  refine ⟨?_, fun complex hComplex hPicks => ?_, selector.mayPick_iff⟩
  · have hEach : ∀ complex : Complex, complex.picks place = true ↔ ∃ nodes : List Node,
        nodes ⊆ parsed.program.subtree ∧ nodes.head? = some place.node ∧
          complex.FitsAlong parsed.ast nodes := fun complex =>
      complex.picks_iff (hAst ▸ hStores.isTree) (hAst ▸ hStores.holds) hPlace
    simp only [selector.picks_iff, hEach]
  · exact (selector.mayPick_iff place.kind).mpr
      ⟨complex, hComplex, Complex.allows_of_picks hPicks⟩

/-- The second alternative picks a block, though the first one names another kind. -/
theorem parse_picks_iff_block : ∃ parsed selector place,
    parse "if (a) \x7b\x7d" default = .ok parsed ∧
      Selector.parse "Identifier, Program IfStatement > [type='BlockStatement']" = .ok selector ∧
      place ∈ (Place.root parsed.program).descendants ∧ place.kind = .blockStatement ∧
      ∃ complex ∈ selector.alternatives, ∃ nodes : List Node,
        nodes ⊆ parsed.program.subtree ∧ nodes.head? = some place.node ∧
          complex.FitsAlong parsed.ast nodes := by
  have hParses : (parse "if (a) \x7b\x7d" default).isOk = true := by decide +kernel
  have hCompiles : (Selector.parse
      "Identifier, Program IfStatement > [type='BlockStatement']").isOk = true := by
    decide +kernel
  have hAny : ((parse "if (a) \x7b\x7d" default).toOption.any fun parsed =>
      (Selector.parse
        "Identifier, Program IfStatement > [type='BlockStatement']").toOption.any fun selector =>
          ((Place.root parsed.program).children.flatMap Place.children).any fun place =>
            selector.picks place && place.kind == .blockStatement) = true := by
    decide +kernel
  obtain ⟨parsed, hParse⟩ := exists_eq_ok_of_isOk hParses
  obtain ⟨selector, hSelector⟩ := exists_eq_ok_of_isOk hCompiles
  rw [hParse, hSelector] at hAny
  obtain ⟨place, hPlace, hBlock⟩ := List.any_eq_true.mp hAny
  obtain ⟨hPicks, hKind⟩ := Bool.and_eq_true_iff.mp hBlock
  obtain ⟨statement, hStatement, hChild⟩ := List.mem_flatMap.mp hPlace
  have hBelow : place ∈ (Place.root parsed.program).descendants :=
    Place.mem_descendants_of_mem_children
      (Place.mem_descendants_of_mem_children (Place.mem_descendants_self _) hStatement) hChild
  exact ⟨parsed, selector, place, hParse, hSelector, hBelow, beq_iff_eq.mp hKind,
    (parse_picks_iff hParse selector hBelow).1.mp hPicks⟩

end EcmaLint
