import Mathlib.Data.List.Chain
import EcmaLint.Edit.Fix
import EcmaLint.Proofs.Text.Boundary

/-! Many fixes at once. A splice walks a text from left to right, copies what lies between
the spans and writes the new texts in place of the spans. Applying fixes one after the other
from the right gives the splice, because no fix moves a span that is still to be replaced.

One fix in place of many still fits the text. Neighbours are compared only with each
other, but as no span is inverted the whole list is then in order, and the joined span goes
from a boundary to a boundary.

The rewriting of a text in place. Fixes are applied from the right, each to the text that the
ones behind it have left; what comes out is laid out from the left, as stretches of the text as it
was with the new texts between them. -/
namespace EcmaLint.Fix

/-- The splice of the rest of a text, whose first byte has the given offset in the whole text.
There is none if a span starts before the text that is left, or ends off a boundary. -/
def spliceFrom? : Nat → List Fix → List Char → Option (List Char)
  | _, [], rest => some rest
  | offset, fix :: later, rest =>
      if offset ≤ fix.span.start ∧ fix.span.start ≤ fix.span.stop then do
        let (kept, tail) ← Text.splitAt? (fix.span.start - offset) rest
        let (_, behind) ← Text.splitAt? (fix.span.stop - fix.span.start) tail
        let changed ← spliceFrom? fix.span.stop later behind
        return kept ++ fix.text.toList ++ changed
      else none

/-- A text in which the span of every fix is replaced by the text of the fix, and every other
byte is kept. The spans have to come in source order. -/
def splice? (fixes : List Fix) (source : String) : Option String :=
  (spliceFrom? 0 fixes source.toList).map String.ofList

/-- Fixes in source order, none of which starts before an earlier one ends. -/
def Ordered (fixes : List Fix) : Prop :=
  fixes.Pairwise fun earlier later => earlier.span.stop ≤ later.span.start

/-- What a fix does to a text with its span in the middle. -/
theorem applyTo?_ofList {fix : Fix} {front middle back : List Char}
    (hStart : Text.byteLength front = fix.span.start)
    (hStop : fix.span.start + Text.byteLength middle = fix.span.stop) :
    fix.applyTo? (String.ofList (front ++ middle ++ back)) =
      some (String.ofList (front ++ fix.text.toList ++ back)) := by
  have hLength : fix.span.stop - fix.span.start = Text.byteLength middle := by omega
  rw [applyTo?, if_pos (by omega), hLength, ← hStart, String.toList_ofList, List.append_assoc,
    Text.splitAt?_byteLength_append]
  simp [Text.splitAt?_byteLength_append]

/-- One step of the walk: the text between the offset and the span is copied. -/
theorem spliceFrom?_cons {fix : Fix} {later : List Fix} {offset : Nat}
    {kept middle behind changed : List Char}
    (hStart : offset + Text.byteLength kept = fix.span.start)
    (hStop : fix.span.start + Text.byteLength middle = fix.span.stop)
    (h : spliceFrom? fix.span.stop later behind = some changed) :
    spliceFrom? offset (fix :: later) (kept ++ middle ++ behind) =
      some (kept ++ fix.text.toList ++ changed) := by
  have hKept : fix.span.start - offset = Text.byteLength kept := by omega
  have hMiddle : fix.span.stop - fix.span.start = Text.byteLength middle := by omega
  rw [spliceFrom?, if_pos (by omega), hKept, hMiddle, List.append_assoc,
    Text.splitAt?_byteLength_append]
  simp [Text.splitAt?_byteLength_append, h]

/-- The text before the offset has been walked over, and the fixes lie behind it. The walk
over the rest succeeds, and the fixes applied from the right leave the front as it is. -/
theorem exists_spliceFrom? {fixes : List Fix} {front rest : List Char}
    (hOrdered : Ordered fixes)
    (hBehind : ∀ fix ∈ fixes, Text.byteLength front ≤ fix.span.start)
    (hCovers : ∀ fix ∈ fixes, fix.span.Covers (String.ofList (front ++ rest))) :
    ∃ changed, spliceFrom? (Text.byteLength front) fixes rest = some changed ∧
      applyAll fixes (String.ofList (front ++ rest)) = String.ofList (front ++ changed) := by
  induction fixes generalizing front rest with
  | nil => exact ⟨rest, rfl, rfl⟩
  | cons fix later ih =>
      obtain ⟨hFirst, hLater⟩ := List.pairwise_cons.mp hOrdered
      obtain ⟨head, middle, behind, hSource, hStart, hStop⟩ :=
        Span.covers_iff.mp (hCovers fix List.mem_cons_self)
      rw [String.toList_ofList, List.append_assoc] at hSource
      obtain ⟨kept, rfl, hRest⟩ := Text.exists_eq_append_of_byteLength_le hSource
        (by have := hBehind fix List.mem_cons_self; omega)
      subst hRest
      rw [Text.byteLength_append] at hStart
      -- the induction goes on behind the span, with all that came before it as the new front
      have hFront : Text.byteLength (front ++ kept ++ middle) = fix.span.stop := by
        simp only [Text.byteLength_append]
        omega
      have hSame : front ++ (kept ++ (middle ++ behind)) = front ++ kept ++ middle ++ behind := by
        simp
      rw [hSame] at hCovers
      obtain ⟨changed, hSplice, hApply⟩ := ih hLater
        (fun other hOther => by rw [hFront]; exact hFirst other hOther)
        (fun other hOther => hCovers other (List.mem_cons_of_mem _ hOther))
      rw [hFront] at hSplice
      refine ⟨kept ++ fix.text.toList ++ changed, ?_, ?_⟩
      · rw [← List.append_assoc]
        exact spliceFrom?_cons hStart hStop hSplice
      · rw [hSame, applyAll, List.foldr_cons, ← applyAll, hApply,
          applyTo?_ofList (by rw [Text.byteLength_append]; omega) hStop]
        simp

/-- Fixes that cover stretches of a text and come in source order can be spliced into it, and
the splice is what applying them from the right gives. -/
theorem splice?_eq_some_applyAll {fixes : List Fix} {source : String}
    (hOrdered : Ordered fixes) (hCovers : ∀ fix ∈ fixes, fix.span.Covers source) :
    splice? fixes source = some (applyAll fixes source) := by
  have hWhole : ∀ fix ∈ fixes, fix.span.Covers (String.ofList ([] ++ source.toList)) := by
    simpa using hCovers
  obtain ⟨changed, hSplice, hApply⟩ :=
    exists_spliceFrom? hOrdered (fun _ _ => Nat.zero_le _) hWhole
  rw [Text.byteLength_nil] at hSplice
  rw [List.nil_append, String.ofList_toList, List.nil_append] at hApply
  rw [splice?, hSplice, hApply, Option.map_some]

/-- The two ways in which merging succeeds. -/
theorem merge_eq_ok {source : String} {fixes : List Fix} {fix : Fix}
    (h : merge source fixes = .ok fix) :
    fixes = [fix] ∨ ∃ sorted start, sorted = fixes.mergeSort le ∧
      start = (sorted.head?.map fun first => first.span.start).getD 0 ∧
      firstOverlap? sorted = none ∧
      fix = ⟨⟨start, lastStop start sorted⟩, joined source start sorted⟩ := by
  unfold merge at h
  split at h
  · cases h
    exact Or.inl rfl
  · refine Or.inr ⟨_, _, rfl, rfl, ?_⟩
    cases hOverlap : firstOverlap? (fixes.mergeSort le) with
    | some overlap => simp [hOverlap] at h
    | none =>
        simp only [hOverlap] at h
        cases h
        exact ⟨rfl, rfl⟩

/-- Without overlapping neighbours nothing in the list overlaps. -/
theorem ordered_of_firstOverlap?_eq_none {fixes : List Fix} (h : firstOverlap? fixes = none)
    (hValid : ∀ fix ∈ fixes, fix.span.start ≤ fix.span.stop) : Ordered fixes := by
  induction fixes with
  | nil => exact List.Pairwise.nil
  | cons first rest ih =>
      cases rest with
      | nil => exact List.pairwise_singleton _ _
      | cons second rest =>
          obtain ⟨-, hValidRest⟩ := List.forall_mem_cons.mp hValid
          rw [firstOverlap?] at h
          split at h
          case isTrue => cases h
          case isFalse hApart =>
            have hOrdered : Ordered (second :: rest) := ih h hValidRest
            refine List.pairwise_cons.mpr ⟨?_, hOrdered⟩
            intro other hOther
            have hSecond := hValidRest second List.mem_cons_self
            rcases List.mem_cons.mp hOther with rfl | hLater
            · omega
            · have := (List.pairwise_cons.mp hOrdered).1 other hLater
              omega

/-- From the start of the first to the end of the last of ordered fixes. -/
theorem Ordered.covers_hull {source : String} {fixes : List Fix} (hOrdered : Ordered fixes)
    (hCovers : ∀ fix ∈ fixes, fix.span.Covers source) (hNonempty : fixes ≠ []) :
    (Span.mk (fixes.head hNonempty).span.start
      (fixes.getLast hNonempty).span.stop).Covers source := by
  have hFirst := hCovers _ (List.head_mem hNonempty)
  have hLast := hCovers _ (List.getLast_mem hNonempty)
  refine ⟨?_, hLast.stop_le, hFirst.start_isBoundary, hLast.stop_isBoundary⟩
  cases fixes with
  | nil => cases hNonempty rfl
  | cons first rest =>
      have hFirstOrder := hFirst.start_le_stop
      have hLastOrder := hLast.start_le_stop
      rcases List.mem_cons.mp (List.getLast_mem hNonempty) with hSame | hLater
      · rw [hSame, List.head_cons]
        exact hFirstOrder
      · have hApart := (List.pairwise_cons.mp hOrdered).1 _ hLater
        rw [List.head_cons] at hFirstOrder ⊢
        show first.span.start ≤ ((first :: rest).getLast hNonempty).span.stop
        omega

theorem lastStop_eq {offset : Nat} {fixes : List Fix} (hNonempty : fixes ≠ []) :
    lastStop offset fixes = (fixes.getLast hNonempty).span.stop := by
  simp [lastStop, List.getLast?_eq_some_getLast hNonempty]

/-- What comes out of merging fixes that fit a text fits it as well. -/
theorem covers_of_merge_eq_ok {source : String} {fixes : List Fix} {fix : Fix}
    (h : merge source fixes = .ok fix) (hNonempty : fixes ≠ [])
    (hCovers : ∀ other ∈ fixes, other.span.Covers source) : fix.span.Covers source := by
  rcases merge_eq_ok h with rfl | ⟨sorted, start, hSorted, hStart, hOverlap, rfl⟩
  · exact hCovers fix List.mem_cons_self
  · have hCoversSorted : ∀ other ∈ sorted, other.span.Covers source := by
      intro other hOther
      rw [hSorted, List.mem_mergeSort] at hOther
      exact hCovers other hOther
    have hSortedNonempty : sorted ≠ [] := by
      rw [hSorted, ← List.length_pos_iff, List.length_mergeSort]
      exact List.length_pos_iff.mpr hNonempty
    have hOrdered : Ordered sorted :=
      ordered_of_firstOverlap?_eq_none hOverlap fun other hOther =>
        (hCoversSorted other hOther).start_le_stop
    rw [List.head?_eq_some_head hSortedNonempty] at hStart
    subst hStart
    rw [lastStop_eq hSortedNonempty]
    exact hOrdered.covers_hull hCoversSorted hSortedNonempty

/-- A text laid out from an offset on: the text up to the span of the first fix, the new text, the
text from there to the next span, and so on to the end. There is none if one of the stretches
cannot be cut out of the text. -/
def laidOut? (source : String) : Nat → List Fix → Option (List Char)
  | offset, [] => Text.slice? offset (Text.byteLength source.toList) source.toList
  | offset, fix :: later => do
      let kept ← Text.slice? offset fix.span.start source.toList
      let changed ← laidOut? source fix.span.stop later
      return kept ++ fix.text.toList ++ changed

/-- No neighbours overlap if each span ends where the next one starts, or before. -/
theorem firstOverlap?_eq_none_iff {fixes : List Fix} :
    firstOverlap? fixes = none ↔
      fixes.IsChain fun earlier later => earlier.span.stop ≤ later.span.start := by
  induction fixes with
  | nil => simp [firstOverlap?]
  | cons first rest ih =>
      cases rest with
      | nil => simp [firstOverlap?]
      | cons second rest =>
          rw [firstOverlap?, List.isChain_cons_cons, ← ih, ← Nat.not_lt]
          split
          case isTrue hOverlap => simp [hOverlap]
          case isFalse hApart => simp [hApart]

/-- What is spliced from an offset on is laid out from there. -/
theorem laidOut?_of_spliceFrom? {fixes : List Fix} {front rest changed : List Char}
    {source : String} (hSource : source.toList = front ++ rest)
    (h : spliceFrom? (Text.byteLength front) fixes rest = some changed) :
    laidOut? source (Text.byteLength front) fixes = some changed := by
  induction fixes generalizing front rest changed with
  | nil =>
      cases h
      refine Text.slice?_eq_some_iff.mpr ⟨front, [], by simpa using hSource, rfl, ?_⟩
      rw [hSource, Text.byteLength_append]
  | cons fix later ih =>
      rw [spliceFrom?] at h
      split at h
      case isFalse => cases h
      case isTrue hOrder =>
        obtain ⟨⟨kept, tail⟩, hKept, h⟩ := Option.bind_eq_some_iff.mp h
        obtain ⟨⟨middle, behind⟩, hMiddle, h⟩ := Option.bind_eq_some_iff.mp h
        obtain ⟨changedBehind, hBehind, h⟩ := Option.bind_eq_some_iff.mp h
        cases h
        obtain ⟨rfl, hStart⟩ := Text.splitAt?_eq_some_iff.mp hKept
        obtain ⟨rfl, hStop⟩ := Text.splitAt?_eq_some_iff.mp hMiddle
        have hFront : Text.byteLength (front ++ kept ++ middle) = fix.span.stop := by
          simp only [Text.byteLength_append]
          omega
        have hSlice : Text.slice? (Text.byteLength front) fix.span.start source.toList =
            some kept :=
          Text.slice?_eq_some_iff.mpr
            ⟨front, middle ++ behind, by simpa using hSource, rfl, by omega⟩
        rw [← hFront] at hBehind
        have hLater := ih (by simpa using hSource) hBehind
        rw [hFront] at hLater
        rw [laidOut?, hSlice, hLater]
        rfl

/-- Every fix fits the text that the ones behind it have left. -/
theorem Ordered.covers_applyAll {source : String} {earlier later : List Fix} {fix : Fix}
    (hOrdered : Ordered (earlier ++ fix :: later))
    (hCovers : ∀ other ∈ earlier ++ fix :: later, other.span.Covers source) :
    fix.span.Covers (applyAll later source) := by
  obtain ⟨hBehind, hLater⟩ := List.pairwise_cons.mp (List.pairwise_append.mp hOrdered).2.1
  obtain ⟨hFix, hCoversLater⟩ :=
    List.forall_mem_cons.mp (List.forall_mem_append.mp hCovers).2
  obtain ⟨front, middle, back, hSource, hStart, hStop⟩ := Span.covers_iff.mp hFix
  have hFront : Text.byteLength (front ++ middle) = fix.span.stop := by
    rw [Text.byteLength_append]
    omega
  have hSame : source = String.ofList (front ++ middle ++ back) := by
    rw [← hSource, String.ofList_toList]
  rw [hSame] at hCoversLater ⊢
  obtain ⟨changed, -, hApply⟩ := exists_spliceFrom? hLater
    (fun other hOther => by rw [hFront]; exact hBehind other hOther) hCoversLater
  rw [hApply]
  exact Span.covers_iff.mpr ⟨front, middle, changed, String.toList_ofList .., hStart, hStop⟩

/-- Applying a fix that fits is one step of applying all. -/
theorem applyTo?_of_covers {source : String} {fix : Fix} {later : List Fix}
    (h : fix.span.Covers (applyAll later source)) :
    fix.applyTo? (applyAll later source) = some (applyAll (fix :: later) source) := by
  obtain ⟨front, middle, back, hSource, hStart, hStop⟩ := Span.covers_iff.mp h
  have hApply : fix.applyTo? (String.ofList (front ++ middle ++ back)) = _ :=
    applyTo?_ofList hStart hStop
  rw [← hSource, String.ofList_toList] at hApply
  rw [hApply, applyAll, List.foldr_cons, ← applyAll, hApply, Option.getD_some]

/-- Fixes that cover stretches of a text, each of which ends where the next one starts or before.
Applying them from the right gives the text laid out from the left, every one of them fits the
text that it is applied to, and one fix alone does what it does by itself. -/
theorem applyAll_isLaidOut {source : String} {fixes : List Fix}
    (hCovers : ∀ fix ∈ fixes, fix.span.Covers source)
    (hChain : fixes.IsChain fun earlier later => earlier.span.stop ≤ later.span.start) :
    laidOut? source 0 fixes = some (applyAll fixes source).toList ∧
      (∀ earlier fix later, fixes = earlier ++ fix :: later →
        fix.span.Covers (applyAll later source) ∧
          fix.applyTo? (applyAll later source) = some (applyAll (fix :: later) source)) ∧
      ∀ fix, fixes = [fix] → fix.applyTo? source = some (applyAll fixes source) := by
  have hOrdered : Ordered fixes :=
    ordered_of_firstOverlap?_eq_none (firstOverlap?_eq_none_iff.mpr hChain)
      fun fix hFix => (hCovers fix hFix).start_le_stop
  have hSteps : ∀ earlier fix later, fixes = earlier ++ fix :: later →
      fix.span.Covers (applyAll later source) ∧
        fix.applyTo? (applyAll later source) = some (applyAll (fix :: later) source) := by
    rintro earlier fix later rfl
    have hFits := hOrdered.covers_applyAll hCovers
    exact ⟨hFits, applyTo?_of_covers hFits⟩
  refine ⟨?_, hSteps, fun fix hFix => hFix ▸ (hSteps [] fix [] hFix).2⟩
  have hWhole := splice?_eq_some_applyAll hOrdered hCovers
  obtain ⟨changed, hSplice, hApply⟩ := Option.map_eq_some_iff.mp hWhole
  rw [← hApply, String.toList_ofList]
  exact laidOut?_of_spliceFrom? (List.nil_append source.toList).symm hSplice

/-- An insertion directly before a replacement, a deletion, and an insertion at the end of a text
with a character of two bytes in it. -/
theorem applyAll_isLaidOut_insertions :
    let source := "é12 34"
    let fixes : List Fix := [⟨⟨2, 2⟩, "("⟩, ⟨⟨2, 4⟩, "ab"⟩, ⟨⟨4, 5⟩, ""⟩, ⟨⟨7, 7⟩, ")"⟩]
    (∀ fix ∈ fixes, fix.span.Covers source) ∧
      (fixes.IsChain fun earlier later => earlier.span.stop ≤ later.span.start) ∧
      applyAll fixes source = "é(ab34)" ∧
      laidOut? source 0 fixes = some (applyAll fixes source).toList ∧
      ∀ earlier fix later, fixes = earlier ++ fix :: later →
        fix.span.Covers (applyAll later source) := by
  intro source fixes
  have hCovers : ∀ fix ∈ fixes, fix.span.Covers source := by
    simp only [← fits_iff]
    decide
  have hChain : fixes.IsChain fun earlier later => earlier.span.stop ≤ later.span.start := by
    decide
  obtain ⟨hLaidOut, hSteps, -⟩ := applyAll_isLaidOut hCovers hChain
  exact ⟨hCovers, hChain, by decide, hLaidOut, fun _ _ _ h => (hSteps _ _ _ h).1⟩

end EcmaLint.Fix
