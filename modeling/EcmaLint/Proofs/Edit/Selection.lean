import EcmaLint.Edit.Fix
import EcmaLint.Proofs.Edit.Merge
import EcmaLint.Proofs.Order.StableSort

/-! What the choice of fixes comes to. Any two offers can be compared, so sorted offers start
in source order. A pass through them looks only at the span taken last; that is enough for
every two spans taken to be clear of each other. -/
namespace EcmaLint

/-- The order of fixes, without its tests. -/
theorem Fix.le_iff {a b : Fix} :
    a.le b = true ↔ a.span.start < b.span.start ∨
      (a.span.start = b.span.start ∧ a.span.stop ≤ b.span.stop) := by
  simp [Fix.le]

theorem Fix.sortOrder_le : SortOrder Fix.le := by
  refine ⟨fun a b c => ?_, fun a b => ?_⟩
  · simp only [le_iff]
    omega
  · simp only [Bool.or_eq_true, le_iff]
    omega

theorem Fix.start_le_of_le {a b : Fix} (h : a.le b = true) : a.span.start ≤ b.span.start := by
  rw [le_iff] at h
  omega

/-- The later of two spans starts where the earlier one ends, or behind it, and they are not
two insertions at one place. -/
structure Span.ClearOf (earlier later : Span) : Prop where
  stop_le : earlier.stop ≤ later.start
  not_both_inserted : ¬(earlier.isEmpty = true ∧ later.isEmpty = true ∧
    earlier.start = later.start)

namespace Span

theorem isEmpty_iff {span : Span} : span.isEmpty = true ↔ span.start = span.stop := by
  simp [isEmpty]

/-- The test of conflict rejects what is not clear, given that the spans are in order. -/
theorem clearOf_of_conflicts_eq_false {earlier later : Span}
    (h : earlier.conflicts later = false) (hOrder : earlier.start ≤ later.start) :
    earlier.ClearOf later := by
  unfold conflicts at h
  split at h
  case isTrue hEmpty =>
    rw [Bool.and_eq_true, isEmpty_iff, isEmpty_iff] at hEmpty
    have hApart : earlier.start ≠ later.start := by simpa using h
    exact ⟨by omega, fun hBoth => hApart hBoth.2.2⟩
  case isFalse hEmpty =>
    have hStop : earlier.stop ≤ later.start := by simpa using h
    exact ⟨hStop, fun hBoth => hEmpty (by simp [hBoth.1, hBoth.2.1])⟩

/-- What is clear of a span is clear of all that this span is clear of. An insertion in the
middle keeps insertions on both sides of it apart. -/
theorem ClearOf.trans {first second third : Span} (h : first.ClearOf second)
    (h' : second.ClearOf third) (hValid : second.start ≤ second.stop) : first.ClearOf third := by
  refine ⟨Nat.le_trans h.stop_le (Nat.le_trans hValid h'.stop_le), ?_⟩
  rintro ⟨hFirst, hThird, hStart⟩
  have hStop := h.stop_le
  have hStop' := h'.stop_le
  rw [isEmpty_iff] at hFirst
  have hSecond : second.isEmpty = true := isEmpty_iff.mpr (by omega)
  exact h.not_both_inserted ⟨isEmpty_iff.mpr hFirst, hSecond, by omega⟩

end Span

namespace Selection

variable {α : Type}

theorem le_iff {a b : Offer α} :
    le a b = true ↔ a.fix.le b.fix = true ∧ (b.fix.le a.fix = false ∨ a.rank ≤ b.rank) := by
  simp [le]

theorem sortOrder_le : SortOrder (@le α) := by
  refine ⟨fun a b c hab hbc => ?_, fun a b => ?_⟩
  · obtain ⟨hFix, hRank⟩ := le_iff.mp hab
    obtain ⟨hFix', hRank'⟩ := le_iff.mp hbc
    refine le_iff.mpr ⟨Fix.sortOrder_le.trans _ _ _ hFix hFix', ?_⟩
    cases hca : c.fix.le a.fix with
    | false => exact Or.inl rfl
    | true =>
        -- the three fixes tie, so the ranks decide
        have hba : b.fix.le a.fix = true := Fix.sortOrder_le.trans _ _ _ hFix' hca
        have hcb : c.fix.le b.fix = true := Fix.sortOrder_le.trans _ _ _ hca hFix
        rw [hba] at hRank
        rw [hcb] at hRank'
        have hFirst : a.rank ≤ b.rank := by simpa using hRank
        have hSecond : b.rank ≤ c.rank := by simpa using hRank'
        exact Or.inr (Nat.le_trans hFirst hSecond)
  · have hFix := Fix.sortOrder_le.total a.fix b.fix
    rw [Bool.or_eq_true] at hFix ⊢
    rw [le_iff, le_iff]
    cases hab : a.fix.le b.fix <;> cases hba : b.fix.le a.fix <;> simp_all
    omega

/-- Sorted offers come in source order. -/
theorem pairwise_start_le_mergeSort (offers : List (Offer α)) :
    (offers.mergeSort le).Pairwise fun a b => a.fix.span.start ≤ b.fix.span.start :=
  (List.pairwise_mergeSort sortOrder_le.trans sortOrder_le.total offers).imp
    fun h => Fix.start_le_of_le (le_iff.mp h).1

theorem sublist_take (last : Option Span) (offers : List (Offer α)) :
    (take last offers).accepted.Sublist offers := by
  induction offers generalizing last with
  | nil => exact List.Sublist.slnil
  | cons offer rest ih =>
      rw [take]
      split
      · exact (ih _).cons _
      · exact (ih _).cons_cons _

/-- Every span taken is clear of the one that was taken last before. -/
theorem clearOf_of_mem_take {span : Span} {offers : List (Offer α)}
    (hSorted : offers.Pairwise fun a b => a.fix.span.start ≤ b.fix.span.start)
    (hValid : ∀ offer ∈ offers, offer.fix.span.start ≤ offer.fix.span.stop)
    (hBefore : ∀ offer ∈ offers, span.start ≤ offer.fix.span.start) :
    ∀ offer ∈ (take (some span) offers).accepted, span.ClearOf offer.fix.span := by
  induction offers generalizing span with
  | nil => intro offer hMem; cases hMem
  | cons first rest ih =>
      obtain ⟨hFirst, hRest⟩ := List.pairwise_cons.mp hSorted
      obtain ⟨hValidFirst, hValidRest⟩ := List.forall_mem_cons.mp hValid
      obtain ⟨hBeforeFirst, hBeforeRest⟩ := List.forall_mem_cons.mp hBefore
      intro offer hMem
      rw [take] at hMem
      split at hMem
      case isTrue => exact ih hRest hValidRest hBeforeRest offer hMem
      case isFalse hConflict =>
        have hClear : span.ClearOf first.fix.span :=
          Span.clearOf_of_conflicts_eq_false (by simpa using hConflict) hBeforeFirst
        rcases List.mem_cons.mp hMem with rfl | hLater
        · exact hClear
        · exact hClear.trans (ih hRest hValidRest hFirst offer hLater) hValidFirst

/-- Every two spans taken are clear of each other, although each was compared with one. -/
theorem pairwise_clearOf_take {last : Option Span} {offers : List (Offer α)}
    (hSorted : offers.Pairwise fun a b => a.fix.span.start ≤ b.fix.span.start)
    (hValid : ∀ offer ∈ offers, offer.fix.span.start ≤ offer.fix.span.stop) :
    (take last offers).accepted.Pairwise fun a b => a.fix.span.ClearOf b.fix.span := by
  induction offers generalizing last with
  | nil => exact List.Pairwise.nil
  | cons first rest ih =>
      obtain ⟨hFirst, hRest⟩ := List.pairwise_cons.mp hSorted
      obtain ⟨-, hValidRest⟩ := List.forall_mem_cons.mp hValid
      rw [take]
      split
      · exact ih hRest hValidRest
      · exact List.pairwise_cons.mpr
          ⟨clearOf_of_mem_take hRest hValidRest hFirst, ih hRest hValidRest⟩

theorem mem_of_mem_accepted {offers : List (Offer α)} {offer : Offer α}
    (h : offer ∈ (of offers).accepted) : offer ∈ offers :=
  List.mem_mergeSort.mp ((sublist_take none _).subset h)

/-- Offers of valid spans that are taken together are clear of each other. -/
theorem pairwise_clearOf_accepted {offers : List (Offer α)}
    (hValid : ∀ offer ∈ offers, offer.fix.span.start ≤ offer.fix.span.stop) :
    (of offers).accepted.Pairwise fun a b => a.fix.span.ClearOf b.fix.span :=
  pairwise_clearOf_take (pairwise_start_le_mergeSort offers)
    fun offer hMem => hValid offer (List.mem_mergeSort.mp hMem)

/-- Of some offers at least one is taken: the first in order meets no other. -/
theorem accepted_ne_nil {offers : List (Offer α)} (h : offers ≠ []) :
    (of offers).accepted ≠ [] := by
  have hSorted : offers.mergeSort le ≠ [] := by
    rw [ne_eq, ← List.length_eq_zero_iff, List.length_mergeSort, List.length_eq_zero_iff]
    exact h
  unfold of
  cases hList : offers.mergeSort le with
  | nil => exact absurd hList hSorted
  | cons first rest => simp [take]

end Selection

end EcmaLint
