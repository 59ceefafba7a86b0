import Mathlib.Data.Prod.Lex
import Mathlib.Data.List.Nodup
import Mathlib.Data.List.Permutation
import EcmaLint.Proofs.Edit.Selection

/-! The choice of fixes against the rule that it stands for: go through the offers in order and
take each that conflicts with none of those taken so far. The choice looks at the last one taken
only. That is enough because spans taken in order are clear of each other, so what is clear of
the last one is clear of all of them. -/
namespace EcmaLint

/-- Two spans cannot both be replaced, the later being the one that comes behind in order: both
are insertions at one place, or not both are insertions and the later starts before the earlier
ends. -/
def Span.Conflict (earlier later : Span) : Prop :=
  (earlier.isEmpty = true ∧ later.isEmpty = true ∧ earlier.start = later.start) ∨
    (¬(earlier.isEmpty = true ∧ later.isEmpty = true) ∧ later.start < earlier.stop)

namespace Span

instance (earlier later : Span) : Decidable (earlier.Conflict later) :=
  inferInstanceAs (Decidable (_ ∨ _))

theorem conflicts_iff {earlier later : Span} :
    earlier.conflicts later = true ↔ earlier.Conflict later := by
  unfold conflicts Conflict
  split
  case isTrue hEmpty => simp_all
  case isFalse hEmpty => simp_all

/-- Spans that are clear of each other do not conflict. -/
theorem ClearOf.not_conflict {earlier later : Span} (h : earlier.ClearOf later) :
    ¬earlier.Conflict later := by
  rintro (hBoth | ⟨-, hStart⟩)
  · exact h.not_both_inserted hBoth
  · exact absurd h.stop_le (Nat.not_le_of_lt hStart)

end Span

/-- What offers are sorted by: where a fix starts, where it ends, and the rank of its owner. -/
def Offer.key {α : Type} (offer : Offer α) : Nat ×ₗ Nat ×ₗ Nat :=
  toLex (offer.fix.span.start, toLex (offer.fix.span.stop, offer.rank))

/-- A list is put in the order of a key, and members with the same key stay in the order in which
they came. -/
structure StablySorted {β κ : Type} [LinearOrder κ] (key : β → κ) (list sorted : List β) :
    Prop where
  perm : sorted.Perm list
  ordered : sorted.Pairwise fun a b => key a ≤ key b
  stable : ∀ k, (sorted.filter fun a => key a = k) = list.filter fun a => key a = k

/-- Sorting by a comparison that stands for the order of a key puts a list in the order of the
key. -/
theorem SortOrder.stablySorted_mergeSort {β κ : Type} [LinearOrder κ] {le : β → β → Bool}
    {key : β → κ} (h : SortOrder le) (hKey : ∀ a b, le a b = true ↔ key a ≤ key b)
    (list : List β) : StablySorted key list (list.mergeSort le) where
  perm := List.mergeSort_perm list le
  ordered := (List.pairwise_mergeSort h.trans h.total list).imp (hKey _ _).mp
  stable k := h.filter_mergeSort (p := fun a => key a = k)
    (fun a b ha hb => (hKey a b).mpr
      (le_of_eq ((of_decide_eq_true ha).trans (of_decide_eq_true hb).symm))) list

namespace Selection

variable {α : Type}

/-- Go through offers and take each that conflicts with none of those taken before. -/
def takeClear (taken : List (Offer α)) : List (Offer α) → Selection α
  | [] => ⟨[], []⟩
  | offer :: rest =>
      if ∃ earlier ∈ taken, earlier.fix.span.Conflict offer.fix.span then
        let later := takeClear taken rest
        ⟨later.accepted, offer :: later.deferred⟩
      else
        let later := takeClear (taken ++ [offer]) rest
        ⟨offer :: later.accepted, later.deferred⟩

/-- What the choice among sorted offers amounts to. -/
structure IsGreedy (sorted : List (Offer α)) (selection : Selection α) : Prop where
  /-- Each offer was compared with all those taken before it. -/
  eq_takeClear : selection = takeClear [] sorted
  sublist : selection.accepted.Sublist sorted
  no_conflict : selection.accepted.Pairwise fun a b => ¬a.fix.span.Conflict b.fix.span
  /-- What has to wait conflicts with something taken that comes before it in order. -/
  conflict : ∀ offer ∈ selection.deferred, ∃ earlier ∈ selection.accepted,
    [earlier, offer].Sublist sorted ∧ earlier.fix.span.Conflict offer.fix.span

theorem le_iff_key_le {a b : Offer α} : le a b = true ↔ a.key ≤ b.key := by
  simp only [le_iff, Fix.le_iff, Bool.eq_false_iff, ne_eq, Offer.key, Prod.Lex.toLex_le_toLex]
  omega

theorem stablySorted_mergeSort (offers : List (Offer α)) :
    StablySorted Offer.key offers (offers.mergeSort le) :=
  sortOrder_le.stablySorted_mergeSort (fun _ _ => le_iff_key_le) offers

/-- Offers with different keys can be sorted in one way only. -/
theorem mergeSort_eq_of_perm {first second : List (Offer α)} (hPerm : first.Perm second)
    (hKeys : second.Pairwise fun a b => a.key ≠ b.key) :
    first.mergeSort le = second.mergeSort le := by
  have hSorted := fun offers : List (Offer α) =>
    List.pairwise_mergeSort sortOrder_le.trans sortOrder_le.total offers
  refine List.Perm.eq_of_pairwise (fun a b ha hb hab hba => ?_) (hSorted first) (hSorted second)
    ((List.mergeSort_perm first le).trans (hPerm.trans (List.mergeSort_perm second le).symm))
  have hKey : a.key = b.key := le_antisymm (le_iff_key_le.mp hab) (le_iff_key_le.mp hba)
  exact List.inj_on_of_nodup_map (List.pairwise_map.mpr hKeys)
    (hPerm.subset (List.mem_mergeSort.mp ha)) (List.mem_mergeSort.mp hb) hKey

/-- Of spans that are clear of each other it is enough to look at the last one. -/
theorem exists_conflict_iff {front : List (Offer α)} {last : Offer α} {span : Span}
    (hFront : ∀ earlier ∈ front, earlier.fix.span.ClearOf last.fix.span)
    (hValid : last.fix.span.start ≤ last.fix.span.stop)
    (hBehind : last.fix.span.start ≤ span.start) :
    (∃ earlier ∈ front ++ [last], earlier.fix.span.Conflict span) ↔
      last.fix.span.conflicts span = true := by
  rw [Span.conflicts_iff]
  constructor
  · rintro ⟨earlier, hEarlier, hConflict⟩
    rcases List.mem_append.mp hEarlier with hBefore | hLast
    · -- what is clear of the last one is clear of the one before it as well
      by_contra hApart
      have hClear := Span.clearOf_of_conflicts_eq_false
        (Bool.eq_false_iff.mpr fun h => hApart (Span.conflicts_iff.mp h)) hBehind
      exact ((hFront earlier hBefore).trans hClear hValid).not_conflict hConflict
    · rwa [List.mem_singleton.mp hLast] at hConflict
  · intro hConflict
    exact ⟨last, List.mem_append_right _ (List.mem_singleton_self last), hConflict⟩

/-- Comparing with the span taken last comes to comparing with all of them. -/
theorem take_some_eq_takeClear {front offers : List (Offer α)} {last : Offer α}
    (hFront : ∀ earlier ∈ front, earlier.fix.span.ClearOf last.fix.span)
    (hSorted : (last :: offers).Pairwise fun a b => a.fix.span.start ≤ b.fix.span.start)
    (hValid : ∀ offer ∈ last :: offers, offer.fix.span.start ≤ offer.fix.span.stop) :
    take (some last.fix.span) offers = takeClear (front ++ [last]) offers := by
  induction offers generalizing front last with
  | nil => rfl
  | cons offer rest ih =>
      obtain ⟨hLast, hRest⟩ := List.pairwise_cons.mp hSorted
      obtain ⟨hLastOffer, hLastRest⟩ := List.forall_mem_cons.mp hLast
      obtain ⟨hValidLast, hValidRest⟩ := List.forall_mem_cons.mp hValid
      have hAll := exists_conflict_iff hFront hValidLast hLastOffer
      rw [take, takeClear, Option.any_some]
      by_cases hConflict : last.fix.span.conflicts offer.fix.span = true
      · rw [if_pos hConflict, if_pos (hAll.mpr hConflict)]
        rw [ih hFront (List.pairwise_cons.mpr ⟨hLastRest, hRest.of_cons⟩)
          (List.forall_mem_cons.mpr ⟨hValidLast, (List.forall_mem_cons.mp hValidRest).2⟩)]
      · rw [if_neg hConflict, if_neg (mt hAll.mp hConflict)]
        have hClear := Span.clearOf_of_conflicts_eq_false (Bool.eq_false_iff.mpr hConflict)
          hLastOffer
        have hFrontOffer : ∀ earlier ∈ front ++ [last],
            earlier.fix.span.ClearOf offer.fix.span := by
          intro earlier hEarlier
          rcases List.mem_append.mp hEarlier with hBefore | hSame
          · exact (hFront earlier hBefore).trans hClear hValidLast
          · rwa [List.mem_singleton.mp hSame]
        rw [ih hFrontOffer hRest hValidRest]

/-- Nothing was taken before the first of some sorted offers, so it is taken. -/
theorem take_none_eq_takeClear {offers : List (Offer α)}
    (hSorted : offers.Pairwise fun a b => a.fix.span.start ≤ b.fix.span.start)
    (hValid : ∀ offer ∈ offers, offer.fix.span.start ≤ offer.fix.span.stop) :
    take none offers = takeClear [] offers := by
  cases offers with
  | nil => rfl
  | cons offer rest =>
      rw [take, takeClear, if_neg (by simp), if_neg (by simp)]
      have hFront : ∀ earlier ∈ ([] : List (Offer α)),
          earlier.fix.span.ClearOf offer.fix.span := by simp
      rw [take_some_eq_takeClear hFront hSorted hValid]

/-- Every offer is either taken or has to wait. -/
theorem perm_takeClear (taken offers : List (Offer α)) :
    ((takeClear taken offers).accepted ++ (takeClear taken offers).deferred).Perm offers := by
  induction offers generalizing taken with
  | nil => exact List.Perm.refl _
  | cons offer rest ih =>
      rw [takeClear]
      split
      · exact List.perm_middle.trans ((ih taken).cons offer)
      · exact (ih (taken ++ [offer])).cons offer

theorem mem_of_mem_takeClear_deferred {taken offers : List (Offer α)} {offer : Offer α}
    (h : offer ∈ (takeClear taken offers).deferred) : offer ∈ offers :=
  (perm_takeClear taken offers).subset (List.mem_append_right _ h)

/-- Nothing is taken that conflicts with what was taken before it. -/
theorem not_conflict_takeClear (taken offers : List (Offer α)) :
    (∀ earlier ∈ taken, ∀ offer ∈ (takeClear taken offers).accepted,
        ¬earlier.fix.span.Conflict offer.fix.span) ∧
      (takeClear taken offers).accepted.Pairwise fun a b => ¬a.fix.span.Conflict b.fix.span := by
  induction offers generalizing taken with
  | nil => exact ⟨by simp [takeClear], List.Pairwise.nil⟩
  | cons offer rest ih =>
      rw [takeClear]
      split
      case isTrue => exact ih taken
      case isFalse hNone =>
        obtain ⟨hBefore, hLater⟩ := ih (taken ++ [offer])
        obtain ⟨hTaken, hOffer⟩ := List.forall_mem_append.mp hBefore
        refine ⟨fun earlier hEarlier => List.forall_mem_cons.mpr ⟨?_, hTaken earlier hEarlier⟩, ?_⟩
        · exact fun hConflict => hNone ⟨earlier, hEarlier, hConflict⟩
        · exact List.pairwise_cons.mpr ⟨List.forall_mem_singleton.mp hOffer, hLater⟩

/-- What has to wait conflicts with something that was taken before it. -/
theorem conflict_takeClear (taken offers : List (Offer α)) :
    ∀ offer ∈ (takeClear taken offers).deferred,
      (∃ earlier ∈ taken, earlier.fix.span.Conflict offer.fix.span) ∨
        ∃ earlier ∈ (takeClear taken offers).accepted,
          [earlier, offer].Sublist offers ∧ earlier.fix.span.Conflict offer.fix.span := by
  induction offers generalizing taken with
  | nil => simp [takeClear]
  | cons first rest ih =>
      intro offer hOffer
      rw [takeClear] at hOffer ⊢
      split at hOffer
      case isTrue hConflict =>
        rw [if_pos hConflict]
        rcases List.mem_cons.mp hOffer with rfl | hLater
        · exact .inl hConflict
        · refine (ih taken offer hLater).imp_right ?_
          rintro ⟨earlier, hEarlier, hOrder, hConflict⟩
          exact ⟨earlier, hEarlier, hOrder.cons first, hConflict⟩
      case isFalse hNone =>
        rw [if_neg hNone]
        have hRest := mem_of_mem_takeClear_deferred hOffer
        rcases ih (taken ++ [first]) offer hOffer with
          ⟨earlier, hEarlier, hConflict⟩ | ⟨earlier, hEarlier, hOrder, hConflict⟩
        · rcases List.mem_append.mp hEarlier with hBefore | hSame
          · exact .inl ⟨earlier, hBefore, hConflict⟩
          · rw [List.mem_singleton.mp hSame] at hConflict
            exact .inr ⟨first, List.mem_cons_self,
              (List.singleton_sublist.mpr hRest).cons_cons first, hConflict⟩
        · exact .inr ⟨earlier, List.mem_cons_of_mem _ hEarlier, hOrder.cons first, hConflict⟩

/-- The choice among offers of valid spans. They are put in order stably, the pass through them
is the greedy one that compares each with all those taken so far, and the result does not depend
on the order in which offers with different keys are given. -/
theorem of_isGreedy {offers : List (Offer α)}
    (hValid : ∀ offer ∈ offers, offer.fix.span.start ≤ offer.fix.span.stop) :
    (∃ sorted, StablySorted Offer.key offers sorted ∧ IsGreedy sorted (of offers)) ∧
      ((of offers).accepted ++ (of offers).deferred).Perm offers ∧
      (offers ≠ [] → (of offers).accepted ≠ []) ∧
      ∀ other : List (Offer α), other.Perm offers →
        offers.Pairwise (fun a b => a.key ≠ b.key) → of other = of offers := by
  have hSame : of offers = takeClear [] (offers.mergeSort le) :=
    take_none_eq_takeClear (pairwise_start_le_mergeSort offers)
      fun offer hOffer => hValid offer (List.mem_mergeSort.mp hOffer)
  have hPerm := perm_takeClear [] (offers.mergeSort le)
  rw [← hSame] at hPerm
  refine ⟨⟨offers.mergeSort le, stablySorted_mergeSort offers, ?_⟩,
    hPerm.trans (List.mergeSort_perm offers le), accepted_ne_nil, fun other hOther hKeys => ?_⟩
  · exact
      { eq_takeClear := hSame
        sublist := sublist_take none _
        no_conflict := hSame ▸ (not_conflict_takeClear [] _).2
        conflict := fun offer hOffer => by
          rw [hSame] at hOffer ⊢
          exact (conflict_takeClear [] _ offer hOffer).resolve_left (by simp) }
  · rw [of, of, mergeSort_eq_of_perm hOther hKeys]

/-- Insertions at the start, inside and at the end of a replacement: the one inside has to wait,
and so does the second of two at one place. A deletion may start where an insertion stands. -/
theorem of_isGreedy_insertions :
    let offers : List (Offer Nat) := [⟨0, 0, ⟨⟨2, 6⟩, "x"⟩⟩, ⟨1, 1, ⟨⟨4, 4⟩, "y"⟩⟩,
      ⟨2, 2, ⟨⟨2, 2⟩, "("⟩⟩, ⟨3, 3, ⟨⟨6, 6⟩, ")"⟩⟩, ⟨4, 4, ⟨⟨6, 6⟩, "]"⟩⟩, ⟨5, 5, ⟨⟨6, 8⟩, ""⟩⟩]
    (∀ offer ∈ offers, offer.fix.span.start ≤ offer.fix.span.stop) ∧
      (of offers).accepted.map Offer.owner = [2, 0, 3, 5] ∧
      (of offers).deferred.map Offer.owner = [1, 4] ∧
      (∃ sorted, StablySorted Offer.key offers sorted ∧ IsGreedy sorted (of offers)) ∧
      of offers.reverse = of offers := by
  intro offers
  have hValid : ∀ offer ∈ offers, offer.fix.span.start ≤ offer.fix.span.stop := by decide
  have hKeys : offers.Pairwise fun a b => a.key ≠ b.key := by decide
  obtain ⟨hGreedy, -, -, hAnyOrder⟩ := of_isGreedy hValid
  exact ⟨hValid, by cbv, by cbv, hGreedy, hAnyOrder _ offers.reverse_perm hKeys⟩

end Selection

end EcmaLint
