import EcmaLint.Proofs.Edit.Greedy
import EcmaLint.Proofs.Edit.Merge

/-! One fix in place of many does what all of them do. Only neighbours are compared, and the texts
between them are cut out of the source one by one; as no span is inverted, the first overlap of
neighbours is there whenever there is any, and every cut is a stretch that the splice of all the
fixes keeps. -/
namespace EcmaLint

/-- Two spans share a stretch of a text, or one of them is a place inside the other. -/
def Span.Overlaps (first second : Span) : Prop :=
  first.start < second.stop ∧ second.start < first.stop

/-- A span goes from the smallest start of some fixes to their largest end. -/
structure Span.IsHullOf (hull : Span) (fixes : List Fix) : Prop where
  start_le : ∀ fix ∈ fixes, hull.start ≤ fix.span.start
  exists_start : ∃ fix ∈ fixes, fix.span.start = hull.start
  le_stop : ∀ fix ∈ fixes, fix.span.stop ≤ hull.stop
  exists_stop : ∃ fix ∈ fixes, fix.span.stop = hull.stop

theorem Span.IsHullOf.perm {hull : Span} {fixes others : List Fix} (h : hull.IsHullOf fixes)
    (hPerm : fixes.Perm others) : hull.IsHullOf others where
  start_le fix hFix := h.start_le fix (hPerm.mem_iff.mpr hFix)
  exists_start := h.exists_start.imp fun _ hFix => ⟨hPerm.mem_iff.mp hFix.1, hFix.2⟩
  le_stop fix hFix := h.le_stop fix (hPerm.mem_iff.mpr hFix)
  exists_stop := h.exists_stop.imp fun _ hFix => ⟨hPerm.mem_iff.mp hFix.1, hFix.2⟩

namespace Fix

/-- What fixes are sorted by: where they start, then where they end. -/
def key (fix : Fix) : Nat ×ₗ Nat := toLex (fix.span.start, fix.span.stop)

theorem le_iff_key_le {a b : Fix} : a.le b = true ↔ a.key ≤ b.key := by
  simp only [le_iff, key, Prod.Lex.toLex_le_toLex]

/-- The rule for joining fixes, for a single one as for many: they are sorted, neighbours must not
overlap, and the text between them is kept. -/
def mergeInOrder (source : String) (fixes : List Fix) : Except Overlap Fix :=
  let sorted := fixes.mergeSort le
  match firstOverlap? sorted with
  | some overlap => .error overlap
  | none =>
      let start := (sorted.head?.map fun fix => fix.span.start).getD 0
      .ok ⟨⟨start, lastStop start sorted⟩, joined source start sorted⟩

/-- The text between an offset and itself is empty, whether or not the offset cuts the source. -/
theorem getD_text?_point (offset : Nat) (source : String) :
    ((Span.mk offset offset).text? source).getD "" = "" := by
  cases hText : (Span.mk offset offset).text? source with
  | none => rfl
  | some text =>
      obtain ⟨middle, hSlice, rfl⟩ := Option.map_eq_some_iff.mp hText
      obtain ⟨-, -, -, -, hLength⟩ := Text.slice?_eq_some_iff.mp hSlice
      have hNil : middle = [] := Text.eq_nil_of_byteLength_eq_zero (Nat.add_eq_left.mp hLength)
      rw [hNil, Option.getD_some, String.ofList_nil]

/-- Giving back a single fix as it is agrees with the general rule. -/
theorem merge_eq_mergeInOrder (source : String) (fixes : List Fix) :
    merge source fixes = mergeInOrder source fixes := by
  unfold merge
  split
  case h_1 fix =>
    have hJoined : joined source fix.span.start [fix] = fix.text := by
      rw [joined, joined, getD_text?_point]
      simp
    simp [mergeInOrder, firstOverlap?, lastStop, hJoined]
  case h_2 => rfl

/-- The overlap that is found is one of neighbours. -/
theorem exists_neighbours_of_firstOverlap? {fixes : List Fix} {overlap : Overlap}
    (h : firstOverlap? fixes = some overlap) :
    ∃ first second, [first, second].Sublist fixes ∧ overlap = ⟨first.span, second.span⟩ ∧
      second.span.start < first.span.stop := by
  induction fixes with
  | nil => cases h
  | cons first rest ih =>
      cases rest with
      | nil => cases h
      | cons second rest =>
          rw [firstOverlap?] at h
          split at h
          case isTrue hOverlap =>
            cases h
            exact ⟨first, second, (List.nil_sublist rest).cons_cons second |>.cons_cons first, rfl,
              hOverlap⟩
          case isFalse =>
            obtain ⟨other, later, hSublist, hRest⟩ := ih h
            exact ⟨other, later, hSublist.cons first, hRest⟩

/-- Neighbours are enough: an overlap is found whenever some fix starts before an earlier one
ends. -/
theorem firstOverlap?_eq_none_iff_ordered {fixes : List Fix}
    (hValid : ∀ fix ∈ fixes, fix.span.start ≤ fix.span.stop) :
    firstOverlap? fixes = none ↔ Ordered fixes := by
  refine ⟨fun h => ordered_of_firstOverlap?_eq_none h hValid, fun hOrdered => ?_⟩
  rw [Option.eq_none_iff_forall_ne_some]
  intro overlap hOverlap
  obtain ⟨first, second, hSublist, -, hBefore⟩ := exists_neighbours_of_firstOverlap? hOverlap
  have hApart := List.pairwise_iff_forall_sublist.mp hOrdered hSublist
  omega

/-- If the second of two sorted fixes is not inverted and starts before the first ends, each reaches
into the other. -/
theorem overlaps_of_start_lt_stop {first second : Fix} (hSorted : first.le second = true)
    (hSecond : second.span.start ≤ second.span.stop)
    (h : second.span.start < first.span.stop) : first.span.Overlaps second.span := by
  rw [le_iff] at hSorted
  exact ⟨by omega, h⟩

theorem lastStop_cons (offset : Nat) (fix : Fix) (later : List Fix) :
    lastStop offset (fix :: later) = lastStop fix.span.stop later := by
  cases later with
  | nil => rfl
  | cons next rest => simp [lastStop, List.getLast?_cons]

/-- What is spliced from an offset on is the joined text of the fixes, and behind it the rest of
the source as it was. -/
theorem exists_joined_of_spliceFrom? {source : String} {fixes : List Fix}
    {front rest changed : List Char} (hSource : source.toList = front ++ rest)
    (h : spliceFrom? (Text.byteLength front) fixes rest = some changed) :
    ∃ walked behind, rest = walked ++ behind ∧
      Text.byteLength front + Text.byteLength walked = lastStop (Text.byteLength front) fixes ∧
      changed = (joined source (Text.byteLength front) fixes).toList ++ behind := by
  induction fixes generalizing front rest changed with
  | nil =>
      cases h
      exact ⟨[], rest, rfl, rfl, by simp [joined]⟩
  | cons fix later ih =>
      rw [spliceFrom?] at h
      split at h
      case isFalse => cases h
      case isTrue hOrder =>
        obtain ⟨⟨kept, tail⟩, hKept, h⟩ := Option.bind_eq_some_iff.mp h
        obtain ⟨⟨middle, behind⟩, hMiddle, h⟩ := Option.bind_eq_some_iff.mp h
        obtain ⟨changedBehind, hBehind, h⟩ := Option.bind_eq_some_iff.mp h
        cases h
        obtain ⟨rfl, hStart⟩ := Text.splitAt?_eq_some_iff.mp hKept
        obtain ⟨rfl, hStop⟩ := Text.splitAt?_eq_some_iff.mp hMiddle
        have hFront : Text.byteLength (front ++ kept ++ middle) = fix.span.stop := by
          simp only [Text.byteLength_append]
          omega
        rw [← hFront] at hBehind
        obtain ⟨walked, last, rfl, hLast, rfl⟩ := ih (by simpa using hSource) hBehind
        have hSlice : Text.slice? (Text.byteLength front) fix.span.start source.toList =
            some kept :=
          Text.slice?_eq_some_iff.mpr
            ⟨front, middle ++ (walked ++ last), by simpa using hSource, rfl, by omega⟩
        refine ⟨kept ++ middle ++ walked, last, by simp, ?_, ?_⟩
        · rw [lastStop_cons, ← hFront, ← hLast]
          simp only [Text.byteLength_append]
          omega
        · rw [joined, Span.text?, hSlice, ← hFront]
          simp

variable {source : String} {first : Fix} {later : List Fix}

/-- The joined fix does what splicing all of the fixes does. -/
theorem Ordered.applyTo?_joined (hOrdered : Ordered (first :: later))
    (hCovers : ∀ fix ∈ first :: later, fix.span.Covers source) :
    ∃ changed, splice? (first :: later) source = some changed ∧
      (Fix.mk ⟨first.span.start, lastStop first.span.start (first :: later)⟩
        (joined source first.span.start (first :: later))).applyTo? source = some changed := by
  obtain ⟨front, rest, hSource, hStart⟩ := (hCovers first List.mem_cons_self).start_isBoundary
  have hSame : source = String.ofList (front ++ rest) := by
    rw [← hSource, String.ofList_toList]
  have hBehind : ∀ fix ∈ first :: later, Text.byteLength front ≤ fix.span.start := by
    rw [hStart]
    refine List.forall_mem_cons.mpr ⟨Nat.le_refl _, fun fix hFix => ?_⟩
    have hFirst := (hCovers first List.mem_cons_self).start_le_stop
    have hApart := (List.pairwise_cons.mp hOrdered).1 fix hFix
    omega
  obtain ⟨changed, hSplice, hApply⟩ := exists_spliceFrom? hOrdered hBehind (hSame ▸ hCovers)
  obtain ⟨walked, behind, rfl, hStop, rfl⟩ := exists_joined_of_spliceFrom? hSource hSplice
  rw [hStart] at hStop hApply
  refine ⟨_, splice?_eq_some_applyAll hOrdered hCovers, ?_⟩
  have hDone : (Fix.mk ⟨first.span.start, lastStop first.span.start (first :: later)⟩
      (joined source first.span.start (first :: later))).applyTo?
        (String.ofList (front ++ walked ++ behind)) = _ := applyTo?_ofList hStart hStop
  rwa [List.append_assoc, ← hSame, List.append_assoc, ← hApply, ← hSame] at hDone

/-- The ends of ordered fixes. -/
theorem Ordered.isHullOf (hOrdered : Ordered (first :: later))
    (hCovers : ∀ fix ∈ first :: later, fix.span.Covers source) :
    (Span.mk first.span.start (lastStop first.span.start (first :: later))).IsHullOf
      (first :: later) := by
  have hNonempty : first :: later ≠ [] := List.cons_ne_nil _ _
  rw [lastStop_eq hNonempty]
  have hSplit := List.dropLast_append_getLast hNonempty
  have hBeforeLast : ∀ fix ∈ (first :: later).dropLast,
      fix.span.stop ≤ ((first :: later).getLast hNonempty).span.start := by
    intro fix hFix
    rw [← hSplit] at hOrdered
    exact (List.pairwise_append.mp hOrdered).2.2 fix hFix _ (List.mem_singleton_self _)
  refine
    { start_le := List.forall_mem_cons.mpr ⟨Nat.le_refl _, fun fix hFix => ?_⟩
      exists_start := ⟨first, List.mem_cons_self, rfl⟩
      le_stop := fun fix hFix => ?_
      exists_stop := ⟨_, List.getLast_mem hNonempty, rfl⟩ }
  · have hFirst := (hCovers first List.mem_cons_self).start_le_stop
    have hApart := (List.pairwise_cons.mp hOrdered).1 fix hFix
    show first.span.start ≤ fix.span.start
    omega
  · have hLast := (hCovers _ (List.getLast_mem hNonempty)).start_le_stop
    rw [← hSplit] at hFix
    rcases List.mem_append.mp hFix with hBefore | hSame
    · exact Nat.le_trans (hBeforeLast fix hBefore) hLast
    · rw [List.mem_singleton.mp hSame]

/-- Joining the fixes of a report, all of which fit the text. They are put in order stably. Joining
fails just if some fix then starts before an earlier one ends, and it names two fixes that overlap.
Else there is one fix over their hull, and it does to the text what the splice of the sorted fixes
does. A single fix, which is given back as it is, makes no exception. -/
theorem merge_combines {source : String} {fixes : List Fix} (hNonempty : fixes ≠ [])
    (hCovers : ∀ fix ∈ fixes, fix.span.Covers source) :
    ∃ sorted, StablySorted key fixes sorted ∧
      ((∃ overlap, merge source fixes = .error overlap) ↔
        ∃ earlier later, [earlier, later].Sublist sorted ∧
          later.span.start < earlier.span.stop) ∧
      (∀ overlap, merge source fixes = .error overlap →
        ∃ first ∈ fixes, ∃ second ∈ fixes, overlap = ⟨first.span, second.span⟩ ∧
          [first, second].Sublist sorted ∧ first.span.Overlaps second.span) ∧
      (∀ merged, merge source fixes = .ok merged → merged.span.IsHullOf fixes ∧
        ∃ changed, splice? sorted source = some changed ∧
          merged.applyTo? source = some changed) ∧
      merge source fixes = mergeInOrder source fixes := by
  have hSorted := sortOrder_le.stablySorted_mergeSort (fun _ _ => le_iff_key_le) fixes
  have hCoversSorted : ∀ fix ∈ fixes.mergeSort le, fix.span.Covers source :=
    fun fix hFix => hCovers fix (hSorted.perm.mem_iff.mp hFix)
  have hOverlap := firstOverlap?_eq_none_iff_ordered
    fun fix hFix => (hCoversSorted fix hFix).start_le_stop
  refine ⟨fixes.mergeSort le, hSorted, ?_, ?_, ?_, merge_eq_mergeInOrder source fixes⟩ <;>
    rw [merge_eq_mergeInOrder, mergeInOrder]
  · cases hFirst : firstOverlap? (fixes.mergeSort le) with
    | some overlap =>
        obtain ⟨first, second, hSublist, -, hBefore⟩ := exists_neighbours_of_firstOverlap? hFirst
        exact ⟨fun _ => ⟨first, second, hSublist, hBefore⟩, fun _ => ⟨overlap, rfl⟩⟩
    | none =>
        refine ⟨fun ⟨_, h⟩ => (nomatch h), fun ⟨earlier, later, hSublist, hBefore⟩ => ?_⟩
        have hApart := List.pairwise_iff_forall_sublist.mp (hOverlap.mp hFirst) hSublist
        exact absurd hApart (Nat.not_le_of_lt hBefore)
  · intro overlap hError
    cases hFirst : firstOverlap? (fixes.mergeSort le) with
    | none =>
        rw [hFirst] at hError
        cases hError
    | some found =>
        rw [hFirst] at hError
        cases hError
        obtain ⟨first, second, hSublist, rfl, hBefore⟩ :=
          exists_neighbours_of_firstOverlap? hFirst
        have hLe := List.pairwise_iff_forall_sublist.mp hSorted.ordered hSublist
        have hFirstIn := hSublist.subset List.mem_cons_self
        have hSecondIn := hSublist.subset (List.mem_cons_of_mem _ List.mem_cons_self)
        exact ⟨first, hSorted.perm.mem_iff.mp hFirstIn, second, hSorted.perm.mem_iff.mp hSecondIn,
          rfl, hSublist, overlaps_of_start_lt_stop (le_iff_key_le.mpr hLe)
            (hCoversSorted second hSecondIn).start_le_stop hBefore⟩
  · intro merged hMerged
    cases hFirst : firstOverlap? (fixes.mergeSort le) with
    | some overlap =>
        rw [hFirst] at hMerged
        cases hMerged
    | none =>
        rw [hFirst] at hMerged
        cases hMerged
        have hOrdered := hOverlap.mp hFirst
        have hPerm := hSorted.perm
        generalize fixes.mergeSort le = sorted at hCoversSorted hOrdered hPerm
        cases sorted with
        | nil => exact absurd hPerm.symm.eq_nil hNonempty
        | cons first later =>
            exact ⟨(hOrdered.isHullOf hCoversSorted).perm hPerm,
              hOrdered.applyTo?_joined hCoversSorted⟩

/-- Two insertions at one place and a replacement behind them, proposed out of order, in a text
with a character of two bytes. A second report has a deletion that starts inside a replacement. -/
theorem merge_combines_insertions :
    let source := "é12 34"
    let fixes : List Fix := [⟨⟨5, 7⟩, "z"⟩, ⟨⟨2, 2⟩, "("⟩, ⟨⟨2, 2⟩, "["⟩]
    let clashing : List Fix := [⟨⟨4, 7⟩, ""⟩, ⟨⟨2, 5⟩, "ab"⟩]
    (∀ fix ∈ fixes ++ clashing, fix.span.Covers source) ∧
      merge source fixes = .ok ⟨⟨2, 7⟩, "([12 z"⟩ ∧
      (Span.mk 2 7).IsHullOf fixes ∧
      (∃ sorted, StablySorted key fixes sorted ∧
        splice? sorted source = (Fix.mk ⟨2, 7⟩ "([12 z").applyTo? source) ∧
      merge source clashing = .error ⟨⟨2, 5⟩, ⟨4, 7⟩⟩ ∧
      (Span.mk 2 5).Overlaps ⟨4, 7⟩ := by
  intro source fixes clashing
  have hCovers : ∀ fix ∈ fixes ++ clashing, fix.span.Covers source := by
    simp only [← fits_iff]
    decide
  obtain ⟨hFixes, hClashing⟩ := List.forall_mem_append.mp hCovers
  have hSort : fixes.mergeSort le = [⟨⟨2, 2⟩, "("⟩, ⟨⟨2, 2⟩, "["⟩, ⟨⟨5, 7⟩, "z"⟩] := by
    simp [fixes, List.mergeSort, List.MergeSort.Internal.splitInTwo, le]
  have hMerged : merge source fixes = .ok ⟨⟨2, 7⟩, "([12 z"⟩ := by
    rw [merge, hSort]
    · decide +kernel
    · simp [fixes]
  have hSort' : clashing.mergeSort le = [⟨⟨2, 5⟩, "ab"⟩, ⟨⟨4, 7⟩, ""⟩] := by
    simp [clashing, List.mergeSort, List.MergeSort.Internal.splitInTwo, le]
  have hError : merge source clashing = .error ⟨⟨2, 5⟩, ⟨4, 7⟩⟩ := by
    rw [merge, hSort']
    · decide +kernel
    · simp [clashing]
  obtain ⟨sorted, hSorted, -, -, hJoined, -⟩ := merge_combines (by decide) hFixes
  obtain ⟨hHull, changed, hSplice, hApply⟩ := hJoined _ hMerged
  obtain ⟨_, -, -, hNamed, -, -⟩ := merge_combines (by decide) hClashing
  obtain ⟨first, -, second, -, hEq, -, hOverlaps⟩ := hNamed _ hError
  obtain ⟨hFirst, hSecond⟩ := Overlap.mk.inj hEq
  exact ⟨hCovers, hMerged, hHull, ⟨sorted, hSorted, hSplice.trans hApply.symm⟩, hError,
    hFirst ▸ hSecond ▸ hOverlaps⟩

end Fix

end EcmaLint
