import Mathlib.Data.List.Basic

/-! Finding a place in an ordered list by halving. A search asks of single items whether they stand
before, at or behind the place that is looked for, and it is right where the answers are in order.
Where a test splits a list into a front that passes and a back that fails, the place between the two
is found in this way, and it is the place where a scan from the start would stop. -/
namespace EcmaLint

variable {α : Type}

/-- Look for an item at which `order` says equal between two indices: its index, or the index at
which such an item would stand. -/
def searchBetween (order : α → Ordering) (items : List α) (low high : Nat)
    (hHigh : high ≤ items.length) : Except Nat Nat :=
  if hLess : low < high then
    match order items[low + (high - low) / 2] with
    | .lt => searchBetween order items (low + (high - low) / 2 + 1) high hHigh
    | .eq => .ok (low + (high - low) / 2)
    | .gt => searchBetween order items low (low + (high - low) / 2) (by omega)
  else
    .error low
termination_by high - low

/-- Look for an item in a whole list. -/
def search (order : α → Ordering) (items : List α) : Except Nat Nat :=
  searchBetween order items 0 items.length (Nat.le_refl _)

/-- The number of items in front of the first one that fails a test, found by halving. -/
def cutPoint (test : α → Bool) (items : List α) : Nat :=
  match search (fun item => if test item then .lt else .gt) items with
  | .ok index => index
  | .error index => index

/-- What is before the place that is looked for comes first, and what is behind it comes last. -/
def Ascends (order : α → Ordering) (items : List α) : Prop :=
  items.Pairwise fun a b => (order b = .lt → order a = .lt) ∧ (order a = .gt → order b = .gt)

/-- No item that passes a test stands behind one that fails it. -/
def Parted (test : α → Bool) (items : List α) : Prop :=
  items.Pairwise fun a b => test b = true → test a = true

section Search

variable {order : α → Ordering} {items : List α} {low high index : Nat}
  {hHigh : high ≤ items.length}

/-- A search finds nothing but what it looks for. -/
theorem order_eq_of_searchBetween (h : searchBetween order items low high hHigh = .ok index) :
    ∃ hIndex : index < items.length, order items[index] = .eq := by
  fun_induction searchBetween order items low high hHigh with
  | case1 low high hHigh hLess hOrder ih => exact ih h
  | case2 low high hHigh hLess hOrder =>
      cases h
      exact ⟨by omega, hOrder⟩
  | case3 low high hHigh hLess hOrder ih => exact ih h
  | case4 => cases h

/-- Where a search finds nothing, the items in front of the place that it gives are before what it
looks for and the others are behind. -/
theorem order_of_searchBetween_eq_error (hAscends : Ascends order items) (hLe : low ≤ high)
    (hBefore : ∀ j (hj : j < items.length), j < low → order items[j] = .lt)
    (hBehind : ∀ j (hj : j < items.length), high ≤ j → order items[j] = .gt)
    (h : searchBetween order items low high hHigh = .error index) :
    index ≤ items.length ∧
      (∀ j (hj : j < items.length), j < index → order items[j] = .lt) ∧
      ∀ j (hj : j < items.length), index ≤ j → order items[j] = .gt := by
  have hPairs := List.pairwise_iff_getElem.mp hAscends
  fun_induction searchBetween order items low high hHigh with
  | case1 low high hHigh hLess hOrder ih =>
      refine ih (by omega) (fun j hj hLow => ?_) hBehind h
      rcases Nat.lt_or_eq_of_le (Nat.lt_succ_iff.mp hLow) with hFront | rfl
      · exact (hPairs _ _ hj (by omega) hFront).1 hOrder
      · exact hOrder
  | case2 => cases h
  | case3 low high hHigh hLess hOrder ih =>
      refine ih (by omega) hBefore (fun j hj hMiddle => ?_) h
      rcases Nat.lt_or_eq_of_le hMiddle with hBack | rfl
      · exact (hPairs _ _ (by omega) hj hBack).2 hOrder
      · exact hOrder
  | case4 =>
      rename_i low high hHigh hDone
      cases h
      exact ⟨by omega, hBefore, fun j hj hLow => hBehind j hj (by omega)⟩

theorem order_eq_of_search (h : search order items = .ok index) :
    ∃ hIndex : index < items.length, order items[index] = .eq :=
  order_eq_of_searchBetween h

theorem order_of_search_eq_error (hAscends : Ascends order items)
    (h : search order items = .error index) : index ≤ items.length ∧
      (∀ j (hj : j < items.length), j < index → order items[j] = .lt) ∧
      ∀ j (hj : j < items.length), index ≤ j → order items[j] = .gt :=
  order_of_searchBetween_eq_error hAscends (Nat.zero_le _)
    (fun _ _ hLess => absurd hLess (Nat.not_lt_zero _))
    (fun _ hj hLe => absurd hj (Nat.not_lt.mpr hLe)) h

end Search

/-- The items that pass a test are a front part if the items of that part pass and no others do. -/
theorem filter_eq_take {test : α → Bool} {items : List α} {index : Nat}
    (hFront : ∀ j (hj : j < items.length), j < index → test items[j] = true)
    (hBack : ∀ j (hj : j < items.length), index ≤ j → test items[j] = false) :
    items.filter test = items.take index := by
  have hTake : ∀ item ∈ items.take index, test item = true := by
    intro item hItem
    obtain ⟨j, hj, rfl⟩ := List.mem_take_iff_getElem.mp hItem
    exact hFront j (by omega) (by omega)
  have hDrop : (items.drop index).filter test = [] := by
    refine List.filter_eq_nil_iff.mpr fun item hItem => ?_
    obtain ⟨j, hj, rfl⟩ := List.mem_drop_iff_getElem.mp hItem
    rw [hBack (index + j) (by omega) (Nat.le_add_right _ _)]
    exact Bool.false_ne_true
  conv_lhs => rw [← List.take_append_drop index items]
  rw [List.filter_append, List.filter_eq_self.mpr hTake, hDrop, List.append_nil]

namespace Parted

variable {test : α → Bool} {items : List α}

/-- A scan that stops at the first failure sees all that passes. -/
theorem takeWhile_eq_filter (h : Parted test items) : items.takeWhile test = items.filter test := by
  induction items with
  | nil => rfl
  | cons item items ih =>
      obtain ⟨hFirst, hRest⟩ := List.pairwise_cons.mp h
      by_cases hTest : test item = true
      · rw [List.takeWhile_cons_of_pos hTest, List.filter_cons_of_pos hTest, ih hRest]
      · have hNone : items.filter test = [] :=
          List.filter_eq_nil_iff.mpr fun later hLater hPass => hTest (hFirst later hLater hPass)
        rw [List.takeWhile_cons_of_neg hTest, List.filter_cons_of_neg hTest, hNone]

theorem dropWhile_eq_filter (h : Parted test items) :
    items.dropWhile test = items.filter fun item => !test item := by
  induction items with
  | nil => rfl
  | cons item items ih =>
      obtain ⟨hFirst, hRest⟩ := List.pairwise_cons.mp h
      by_cases hTest : test item = true
      · rw [List.dropWhile_cons_of_pos hTest, List.filter_cons_of_neg (by simp [hTest]), ih hRest]
      · have hAll : items.filter (fun item => !test item) = items :=
          List.filter_eq_self.mpr fun later hLater => by
            simpa using fun hPass => hTest (hFirst later hLater hPass)
        rw [List.dropWhile_cons_of_neg hTest, List.filter_cons_of_pos (by simp [hTest]), hAll]

/-- Halving finds the place where a scan stops. -/
theorem cutPoint_eq (h : Parted test items) :
    cutPoint test items = (items.takeWhile test).length := by
  have hAscends : Ascends (fun item => if test item then .lt else .gt) items := by
    refine h.imp fun {a b} hTest => ?_
    cases ha : test a <;> cases hb : test b <;> simp_all
  unfold cutPoint
  split
  case h_1 index hFound =>
    obtain ⟨_, hEqual⟩ := order_eq_of_search hFound
    split at hEqual <;> cases hEqual
  case h_2 index hFound =>
    obtain ⟨hIndex, hBefore, hBehind⟩ := order_of_search_eq_error hAscends hFound
    have hTake : items.takeWhile test = items.take index := by
      rw [h.takeWhile_eq_filter]
      exact filter_eq_take (fun j hj hLess => by simpa using hBefore j hj hLess)
        fun j hj hLe => by simpa using hBehind j hj hLe
    rw [hTake, List.length_take, Nat.min_eq_left hIndex]

theorem take_cutPoint (h : Parted test items) :
    items.take (cutPoint test items) = items.takeWhile test := by
  rw [h.cutPoint_eq, List.prefix_iff_eq_take.mp (List.takeWhile_prefix test)]
  simp

theorem drop_cutPoint (h : Parted test items) :
    items.drop (cutPoint test items) = items.dropWhile test := by
  have hSplit := @List.takeWhile_append_dropWhile _ test items
  rw [h.cutPoint_eq]
  nth_rewrite 2 [← hSplit]
  exact List.drop_left

end Parted

end EcmaLint
