import Mathlib.Data.List.Flatten
import Mathlib.Data.List.NodupEquivFin
import EcmaLint.Proofs.Tree.Forest

/-! Traversals against the recursive definition. The visits of a tree are kept in a list that exits
are put into ahead of time; here they are shown to be what one writes down without such a list: a
node is entered, then come the events of its children, then it is left. From this it follows where
the events of a node stand, since those of every node below it are one stretch. -/
namespace EcmaLint

open Place

/-- What happens at a place: it is entered, then come the events of its children in field order,
and then it is left. -/
def Place.events (place : Place) : List Visit :=
  ⟨.enter, place⟩ :: (place.children.attach.flatMap fun ⟨child, _⟩ => events child) ++
    [⟨.exit, place⟩]
termination_by sizeOf place.node
decreasing_by exact Node.sizeOf_lt_of_mem_children (node_mem_of_mem_children ‹_›)

theorem Place.events_eq (place : Place) :
    place.events = ⟨.enter, place⟩ :: (place.children.flatMap events ++ [⟨.exit, place⟩]) := by
  rw [events, List.flatMap_subtype (fun _ _ => rfl), List.unattach_attach, List.cons_append]

namespace Visit

/-- Entering a list of places comes to their events one behind the other, if that is so for each
of them. -/
theorem run_map_enter {places : List Place}
    (h : ∀ place ∈ places, ∀ later, run (⟨.enter, place⟩ :: later) = place.events ++ run later)
    (later : List Visit) :
    run (places.map (fun place => ⟨.enter, place⟩) ++ later) =
      places.flatMap events ++ run later := by
  induction places with
  | nil => rfl
  | cons place rest ih =>
      obtain ⟨hPlace, hRest⟩ := List.forall_mem_cons.mp h
      rw [List.map_cons, List.cons_append, hPlace, ih hRest, List.flatMap_cons, List.append_assoc]

/-- Entering a place leads to its events, and then to what was still to come. -/
theorem run_enter (place : Place) (later : List Visit) :
    run (⟨.enter, place⟩ :: later) = place.events ++ run later := by
  induction place using Place.induction generalizing later with
  | step place ih =>
      rw [run, run_map_enter ih, run, events_eq]
      simp

end Visit

/-- The loop over visits still to come makes the events of the recursive definition. -/
theorem Place.visits_eq_events (place : Place) : place.visits = place.events := by
  rw [visits, Visit.run_enter, Visit.run, List.append_nil]

namespace Place

/-- The moments at which the places of a list are entered. -/
def enters (places : List Place) : List Visit := places.map fun place => ⟨.enter, place⟩

/-- The moments at which the places of a list are left. -/
def exits (places : List Place) : List Visit := places.map fun place => ⟨.exit, place⟩

theorem filter_events (place : Place) :
    place.events.filter (fun visit => visit.phase = .enter) = enters place.descendants := by
  induction place using Place.induction with
  | step place ih =>
      rw [events_eq, descendants_eq, List.filter_cons_of_pos rfl, List.filter_append,
        List.filter_flatMap, List.flatMap_congr ih, enters, List.map_cons, List.map_flatMap]
      simp [enters]

/-- Every place of a tree is entered once and left once. -/
theorem perm_events (place : Place) :
    place.events.Perm (enters place.descendants ++ exits place.descendants) := by
  induction place using Place.induction with
  | step place ih =>
      have hChildren : (place.children.flatMap events).Perm
          (enters (place.children.flatMap descendants) ++
            exits (place.children.flatMap descendants)) := by
        rw [enters, exits, List.map_flatMap, List.map_flatMap]
        exact (List.Perm.flatMap_left _ ih).trans (List.flatMap_append_perm _ _ _).symm
      rw [events_eq, descendants_eq]
      refine List.Perm.cons _ ((hChildren.append_right _).trans ?_)
      rw [List.append_assoc]
      exact List.Perm.append_left _ (List.perm_append_singleton _ _)

theorem mem_events {visit : Visit} {place : Place} :
    visit ∈ place.events ↔ visit.place ∈ place.descendants := by
  obtain ⟨phase, at_⟩ := visit
  rw [(perm_events place).mem_iff, List.mem_append, enters, exits, List.mem_map, List.mem_map]
  cases phase <;> simp

theorem nodup_events {place : Place} (h : place.descendants.Nodup) : place.events.Nodup := by
  rw [(perm_events place).nodup_iff, List.nodup_append']
  refine ⟨h.map fun _ _ hEq => congrArg Visit.place hEq,
    h.map fun _ _ hEq => congrArg Visit.place hEq, ?_⟩
  intro visit hEnter hExit
  obtain ⟨_, -, rfl⟩ := List.mem_map.mp hEnter
  obtain ⟨_, -, hEq⟩ := List.mem_map.mp hExit
  cases hEq

/-- The events of everything below a place are one stretch of the events of the place. -/
theorem events_isInfix {start : Place} : ∀ place ∈ start.descendants,
    place.events <:+: start.events := by
  refine forall_descendants (List.infix_refl _) fun place _ ih child hChild => ?_
  refine List.IsInfix.trans ?_ ih
  obtain ⟨front, back, hSplit⟩ := List.append_of_mem hChild
  rw [events_eq place, hSplit, List.flatMap_append, List.flatMap_cons]
  exact ⟨⟨.enter, place⟩ :: front.flatMap events, back.flatMap events ++ [⟨.exit, place⟩], by simp⟩

/-- In a list without repetitions what stands before something else has the smaller index. -/
theorem lt_of_pair_sublist {α : Type} {list : List α} (hNodup : list.Nodup) {first second : α}
    (h : [first, second].Sublist list) {i j : Nat} (hi : list[i]? = some first)
    (hj : list[j]? = some second) : i < j := by
  obtain ⟨f, hf⟩ := List.sublist_iff_exists_fin_orderEmbedding_get_eq.mp h
  obtain ⟨hi, rfl⟩ := List.getElem?_eq_some_iff.mp hi
  obtain ⟨hj, rfl⟩ := List.getElem?_eq_some_iff.mp hj
  have hFirst : i = f 0 := hNodup.getElem_inj_iff.mp (hf 0)
  have hSecond : j = f 1 := hNodup.getElem_inj_iff.mp (hf 1)
  have hLt : (f 0 : Nat) < f 1 := f.lt_iff_lt.mpr Nat.zero_lt_one
  omega

variable {start place : Place} {visit : Visit} {i j : Nat}

/-- A place is left after all that happens below it. -/
theorem le_of_exit (hNodup : start.descendants.Nodup) (hPlace : place ∈ start.descendants)
    (hi : start.events[i]? = some ⟨.exit, place⟩) (hj : start.events[j]? = some visit)
    (hBelow : visit.place ∈ place.descendants) : j ≤ i := by
  have hVisit := mem_events.mpr hBelow
  have hInfix := (events_isInfix place hPlace).sublist
  rw [events_eq, ← List.cons_append] at hVisit hInfix
  rcases List.mem_append.mp hVisit with hBefore | hExit
  · have hPair : [visit, ⟨.exit, place⟩].Sublist start.events :=
      ((List.singleton_sublist.mpr hBefore).append (List.Sublist.refl _)).trans hInfix
    exact Nat.le_of_lt (lt_of_pair_sublist (nodup_events hNodup) hPair hj hi)
  · obtain rfl := List.mem_singleton.mp hExit
    obtain ⟨hLt, -⟩ := List.getElem?_eq_some_iff.mp hj
    exact Nat.le_of_eq ((List.getElem?_inj hLt (nodup_events hNodup)).mp (hj.trans hi.symm))

/-- A place is left before anything happens at a sibling to the right of it or below that. -/
theorem lt_of_exit (hNodup : start.descendants.Nodup) (hPlace : place ∈ start.descendants)
    {first second : Place} (hSiblings : [first, second].Sublist place.children)
    (hi : start.events[i]? = some ⟨.exit, first⟩) (hj : start.events[j]? = some visit)
    (hBelow : visit.place ∈ second.descendants) : i < j := by
  have hExit : ⟨.exit, first⟩ ∈ first.events := mem_events.mpr (mem_descendants_self first)
  have hPair : [⟨.exit, first⟩, visit].Sublist (first.events ++ second.events) :=
    (List.singleton_sublist.mpr hExit).append (List.singleton_sublist.mpr (mem_events.mpr hBelow))
  have hChildren : (first.events ++ second.events).Sublist place.events := by
    have hBoth := hSiblings.flatMap events
    rw [List.flatMap_cons, List.flatMap_singleton] at hBoth
    rw [events_eq place]
    exact (hBoth.trans (List.sublist_append_left _ _)).cons _
  have hInfix := (events_isInfix place hPlace).sublist
  exact lt_of_pair_sublist (nodup_events hNodup) ((hPair.trans hChildren).trans hInfix) hi hj

/-- The places above a place, up to one that it is below. -/
def upTo (start place : Place) : List Place := place.ancestors.take (place.depth - start.depth)

/-- The way up from a place goes over places of the tree that it is in, and on from its root. -/
theorem ancestors_eq_append : ∀ place ∈ start.descendants, ∃ between ⊆ start.descendants,
    place.ancestors = between ++ start.ancestors ∧ place.depth = between.length + start.depth := by
  refine forall_descendants ⟨[], by simp, rfl, (Nat.zero_add _).symm⟩ ?_
  intro place hPlace ih child hChild
  obtain ⟨between, hBetween, hAncestors, hDepth⟩ := ih
  refine ⟨place :: between, List.cons_subset.mpr ⟨hPlace, hBetween⟩, ?_, ?_⟩
  · rw [ancestors_of_mem_children hChild, hAncestors, List.cons_append]
  · rw [depth_of_mem_children hChild, hDepth, List.length_cons, Nat.add_right_comm]

theorem depth_lt_of_mem_ancestors {above : Place} (h : above ∈ place.ancestors) :
    above.depth < place.depth := by
  obtain ⟨node, ascents⟩ := place
  rw [ancestors] at h
  rw [depth, depth]
  induction ascents with
  | nil => cases h
  | cons ascent rest ih =>
      rw [List.length_cons]
      rcases List.mem_cons.mp h with rfl | hRest
      · exact Nat.lt_succ_self _
      · exact Nat.lt_succ_of_lt (ih hRest)

theorem upTo_self (start : Place) : start.upTo start = [] := by
  rw [upTo, Nat.sub_self, List.take_zero]

/-- Going up further ends in the parent of where it went up to. -/
theorem upTo_of_mem_children {child : Place} (hChild : child ∈ start.children)
    (hPlace : place ∈ child.descendants) : start.upTo place = child.upTo place ++ [start] := by
  obtain ⟨between, -, hAncestors, hDepth⟩ := ancestors_eq_append place hPlace
  have hChildDepth := depth_of_mem_children hChild
  have hLong : place.depth - start.depth = (between ++ [start]).length := by
    rw [List.length_append, List.length_singleton]
    omega
  have hShort : place.depth - child.depth = between.length := by omega
  rw [ancestors_of_mem_children hChild, List.append_cons] at hAncestors
  rw [upTo, upTo, hLong, hShort, hAncestors, List.take_left, List.append_assoc, List.take_left]

/-- The way up from a place leads to a place that it is below, and from there on. -/
theorem ancestors_eq_upTo_append (hPlace : place ∈ start.descendants) :
    place.ancestors = start.upTo place ++ start.ancestors := by
  obtain ⟨between, -, hAncestors, hDepth⟩ := ancestors_eq_append place hPlace
  rw [upTo, hAncestors, hDepth, Nat.add_sub_cancel, List.take_left]

/-- The places on the way up are those of the tree that a place is below. -/
theorem mem_upTo_iff {above : Place} (hPlace : place ∈ start.descendants) :
    above ∈ start.upTo place ↔ above ∈ start.descendants ∧ above ∈ place.ancestors := by
  obtain ⟨between, hBetween, hAncestors, hDepth⟩ := ancestors_eq_append place hPlace
  have hUpTo : start.upTo place = between := by
    rw [upTo, hAncestors, hDepth, Nat.add_sub_cancel, List.take_left]
  rw [hUpTo, hAncestors, List.mem_append]
  refine ⟨fun h => ⟨hBetween h, .inl h⟩, fun h => h.2.resolve_right fun hStart => ?_⟩
  -- above the start nothing is as deep as what is below it
  obtain ⟨_, -, -, hAbove⟩ := ancestors_eq_append above h.1
  have hLt := depth_lt_of_mem_ancestors hStart
  omega

theorem walk_eq_filter (descend : Place → Bool) (start : Place) :
    start.walk descend = start.descendants.filter fun place => (start.upTo place).all descend := by
  induction start using Place.induction with
  | step start ih =>
      have hRest : (if descend start = true then start.children.flatMap (walk descend) else []) =
          (start.children.flatMap descendants).filter fun place =>
            (start.upTo place).all descend := by
        rw [List.filter_flatMap]
        split
        case isTrue h =>
          refine List.flatMap_congr fun child hChild => ?_
          rw [ih child hChild]
          refine List.filter_congr fun place hPlace => ?_
          rw [upTo_of_mem_children hChild hPlace, List.all_append, List.all_cons, h]
          simp
        case isFalse h =>
          symm
          refine List.flatMap_eq_nil_iff.mpr fun child hChild => ?_
          refine List.filter_eq_nil_iff.mpr fun place hPlace => ?_
          rw [upTo_of_mem_children hChild hPlace, List.all_append, List.all_cons]
          simp [h]
      rw [walk_eq, descendants_eq, List.filter_cons_of_pos (by simp [upTo_self]), hRest]

open Classical in
/-- A walk visits what is entered, but for what is below a place that it does not descend from. -/
theorem walk_eq_enters (descend : Place → Bool) (start : Place) :
    start.walk descend =
      ((start.events.filter fun visit => visit.phase = .enter).map Visit.place).filter fun place =>
        ∀ above ∈ start.descendants, above ∈ place.ancestors → descend above = true := by
  rw [walk_eq_filter, filter_events, enters, List.map_map]
  have hId : (Visit.place ∘ fun place => ⟨.enter, place⟩ : Place → Place) = id := rfl
  rw [hId, List.map_id]
  refine List.filter_congr fun place hPlace => ?_
  rw [Bool.eq_iff_iff, List.all_eq_true, decide_eq_true_iff]
  simp only [mem_upTo_iff hPlace, and_imp]

end Place

end EcmaLint
