/-! Stable sorting. Sorting keeps the order of values that tie, and a sorted list is known by
its groups of ties. So a list of blocks may be sorted block by block first: what is left to do
is a sort by the key that orders the blocks among each other. -/
namespace EcmaLint

universe u

/-- A comparison that lists can be sorted by. -/
structure SortOrder {α : Type} (le : α → α → Bool) : Prop where
  trans : ∀ a b c, le a b → le b c → le a c
  total : ∀ a b, le a b || le b a

namespace SortOrder

variable {α : Type} {le coarse : α → α → Bool}

/-- A comparison of values by something that belongs to them. -/
theorem comap {β : Type} (h : SortOrder le) (key : β → α) :
    SortOrder fun a b => le (key a) (key b) :=
  ⟨fun _ _ _ => h.trans _ _ _, fun _ _ => h.total _ _⟩

/-- Whether two values come at the same place. -/
def ties (le : α → α → Bool) (a b : α) : Bool := le a b && le b a

theorem ties_iff {a b : α} : ties le a b = true ↔ le a b = true ∧ le b a = true :=
  Bool.and_eq_true_iff

theorem ties_self (h : SortOrder le) (a : α) : ties le a a = true := by
  have hSelf : le a a = true := by simpa using h.total a a
  exact ties_iff.mpr ⟨hSelf, hSelf⟩

theorem le_of_ties (h : SortOrder le) {a b c : α} (hLeft : ties le a b = true)
    (hRight : ties le a c = true) : le b c = true :=
  h.trans b a c (ties_iff.mp hLeft).2 (ties_iff.mp hRight).1

/-- Sorting keeps the order of values that all tie. -/
theorem filter_mergeSort (h : SortOrder le) {p : α → Bool}
    (hTies : ∀ a b, p a → p b → le a b) (list : List α) :
    (list.mergeSort le).filter p = list.filter p := by
  have hSorted : (list.filter p).Pairwise fun a b => le a b = true :=
    List.pairwise_filter.mpr (List.pairwise_of_forall fun a b => hTies a b)
  have hSublist : (list.filter p).Sublist ((list.mergeSort le).filter p) := by
    have hFiltered := (List.sublist_mergeSort h.trans h.total hSorted
      List.filter_sublist).filter p
    rwa [List.filter_filter, List.filter_congr fun a _ => Bool.and_self (p a)] at hFiltered
  have hLength := ((List.mergeSort_perm list le).filter p).length_eq
  exact (hSublist.eq_of_length hLength.symm).symm

theorem filter_ties_mergeSort (h : SortOrder le) (a : α) (list : List α) :
    (list.mergeSort le).filter (ties le a) = list.filter (ties le a) :=
  h.filter_mergeSort (fun _ _ => h.le_of_ties) list

/-- The first value of a sorted list comes before all values of it. -/
theorem le_of_mem_cons (h : SortOrder le) {a b : α} {list : List α}
    (hSorted : (a :: list).Pairwise fun a b => le a b = true) (hMem : b ∈ a :: list) :
    le a b = true := by
  rcases List.mem_cons.mp hMem with rfl | hMem
  · exact (ties_iff.mp (h.ties_self b)).1
  · exact List.rel_of_pairwise_cons hSorted hMem

theorem mem_iff_of_filter_ties_eq (h : SortOrder le) {first second : List α}
    (hTies : ∀ a, first.filter (ties le a) = second.filter (ties le a)) (a : α) :
    a ∈ first ↔ a ∈ second := by
  have hGroup : a ∈ first.filter (ties le a) ↔ a ∈ second.filter (ties le a) := by
    rw [hTies]
  simpa [List.mem_filter, h.ties_self] using hGroup

/-- Sorted lists with the same groups of ties are the same. -/
theorem eq_of_filter_ties_eq (h : SortOrder le) {first second : List α}
    (hFirst : first.Pairwise fun a b => le a b = true)
    (hSecond : second.Pairwise fun a b => le a b = true)
    (hTies : ∀ a, first.filter (ties le a) = second.filter (ties le a)) : first = second := by
  have hMem := h.mem_iff_of_filter_ties_eq hTies
  induction first generalizing second with
  | nil =>
      refine (List.eq_nil_iff_forall_not_mem.mpr fun a hSome => ?_).symm
      exact List.not_mem_nil ((hMem a).mpr hSome)
  | cons a first ih =>
      cases second with
      | nil => exact absurd ((hMem a).mp List.mem_cons_self) List.not_mem_nil
      | cons b second =>
          -- each of the first values comes before the other one, so they tie
          have hTie : ties le a b = true := ties_iff.mpr
            ⟨h.le_of_mem_cons hFirst ((hMem b).mpr List.mem_cons_self),
              h.le_of_mem_cons hSecond ((hMem a).mp List.mem_cons_self)⟩
          have hGroup := hTies a
          rw [List.filter_cons_of_pos (h.ties_self a), List.filter_cons_of_pos hTie] at hGroup
          obtain rfl : a = b := (List.cons.inj hGroup).1
          have hRest : ∀ c, first.filter (ties le c) = second.filter (ties le c) := by
            intro c
            have hGroup := hTies c
            by_cases hHead : ties le c a = true
            · rw [List.filter_cons_of_pos hHead, List.filter_cons_of_pos hHead] at hGroup
              exact (List.cons.inj hGroup).2
            · rwa [List.filter_cons_of_neg hHead, List.filter_cons_of_neg hHead] at hGroup
          rw [ih (List.Pairwise.of_cons hFirst) (List.Pairwise.of_cons hSecond) hRest
            (h.mem_iff_of_filter_ties_eq hRest)]

/-- A list that is in order wherever a coarser comparison ties is put in order by a sort with
the coarser one. -/
theorem pairwise_mergeSort_of_coarse (h : SortOrder le) (hCoarse : SortOrder coarse)
    (hRefines : ∀ a b, le a b → coarse a b) {list : List α}
    (hList : list.Pairwise fun a b => ties coarse a b → le a b) :
    (list.mergeSort coarse).Pairwise fun a b => le a b = true := by
  have hSorted := List.pairwise_mergeSort hCoarse.trans hCoarse.total list
  refine List.pairwise_iff_forall_sublist.mpr fun {a b} hPair => ?_
  have hForth : coarse a b = true := List.pairwise_iff_forall_sublist.mp hSorted hPair
  by_cases hBack : coarse b a = true
  · -- the two tie, so they stand in the list as they stand in the sorted one
    have hTie : ties coarse a b = true := ties_iff.mpr ⟨hForth, hBack⟩
    have hGroup := hPair.filter (ties coarse a)
    rw [List.filter_cons_of_pos (hCoarse.ties_self a), List.filter_cons_of_pos hTie,
      List.filter_nil, hCoarse.filter_ties_mergeSort] at hGroup
    exact List.pairwise_iff_forall_sublist.mp hList (hGroup.trans List.filter_sublist) hTie
  · rcases Bool.or_eq_true_iff.mp (h.total a b) with hLe | hGe
    · exact hLe
    · exact absurd (hRefines b a hGe) hBack

/-- Blocks that are in order among each other wherever a coarser comparison ties may be sorted
one by one; a sort with the coarser comparison does the rest. -/
theorem mergeSort_flatMap (h : SortOrder le) (hCoarse : SortOrder coarse)
    (hRefines : ∀ a b, le a b → coarse a b) {β : Type u} {blocks : List β}
    {block : β → List α}
    (hBlocks : blocks.Pairwise fun x y =>
      ∀ a ∈ block x, ∀ b ∈ block y, ties coarse a b → le a b) :
    (blocks.flatMap block).mergeSort le =
      (blocks.flatMap fun x => (block x).mergeSort le).mergeSort coarse := by
  apply h.eq_of_filter_ties_eq (List.pairwise_mergeSort h.trans h.total _)
  · refine h.pairwise_mergeSort_of_coarse hCoarse hRefines (List.pairwise_flatMap.mpr ⟨?_, ?_⟩)
    · intro x hMem
      have hSorted := List.pairwise_mergeSort h.trans h.total (block x)
      exact hSorted.imp fun {a b} (hLe : le a b = true) (_ : ties coarse a b = true) => hLe
    · refine hBlocks.imp fun hOrder a hLeft b hRight => ?_
      exact hOrder a (List.mem_mergeSort.mp hLeft) b (List.mem_mergeSort.mp hRight)
  · intro a
    have hCoarseTies : ∀ b c, ties le a b → ties le a c → coarse b c := by
      intro b c hLeft hRight
      exact hRefines b c (h.le_of_ties hLeft hRight)
    rw [h.filter_ties_mergeSort, hCoarse.filter_mergeSort hCoarseTies, List.filter_flatMap,
      List.filter_flatMap]
    congr 1
    funext x
    exact (h.filter_ties_mergeSort a (block x)).symm

end SortOrder

end EcmaLint
