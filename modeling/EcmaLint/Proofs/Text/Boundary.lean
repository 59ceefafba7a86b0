import EcmaLint.Edit.Fix

/-! Where a text can be cut. A boundary is said here without the function that cuts: the
text is two texts, and the first has as many bytes as the offset says. A span that ends on
two boundaries in order is one that a fix can replace. -/
namespace EcmaLint

namespace Text

/-- The text is a text of `offset` bytes with another one behind it. -/
def IsBoundary (offset : Nat) (cs : List Char) : Prop :=
  ∃ front back, cs = front ++ back ∧ byteLength front = offset

@[simp]
theorem byteLength_nil : byteLength [] = 0 := rfl

@[simp]
theorem byteLength_cons (c : Char) (cs : List Char) :
    byteLength (c :: cs) = c.utf8Size + byteLength cs := rfl

theorem eq_nil_of_byteLength_eq_zero {cs : List Char} (h : byteLength cs = 0) : cs = [] := by
  cases cs with
  | nil => rfl
  | cons c cs =>
      have := c.utf8Size_pos
      rw [byteLength_cons] at h
      omega

/-- A text starts with a shorter start of it. Characters have bytes, so the shorter start in
bytes is the shorter one in characters. -/
theorem exists_eq_append_of_byteLength_le {a b c d : List Char} (h : a ++ b = c ++ d)
    (hLe : byteLength a ≤ byteLength c) : ∃ e, c = a ++ e ∧ b = e ++ d := by
  rcases List.append_eq_append_iff.mp h with ⟨e, hc, hb⟩ | ⟨e, ha, hd⟩
  · exact ⟨e, hc, hb⟩
  · rw [ha, byteLength_append] at hLe
    have hNil : e = [] := eq_nil_of_byteLength_eq_zero (by omega)
    subst hNil
    exact ⟨[], by simpa using ha.symm, by simpa using hd.symm⟩

theorem splitAt?_byteLength_append (front back : List Char) :
    splitAt? (byteLength front) (front ++ back) = some (front, back) := by
  induction front with
  | nil => simp [splitAt?]
  | cons c cs ih =>
      have hPos := c.utf8Size_pos
      obtain ⟨n, hn⟩ : ∃ n, c.utf8Size + byteLength cs = n + 1 :=
        Nat.exists_eq_add_one_of_ne_zero (by omega)
      have hRest : n + 1 - c.utf8Size = byteLength cs := by omega
      have hFits : c.utf8Size ≤ n + 1 := by omega
      rw [byteLength_cons, hn, List.cons_append, splitAt?, if_pos hFits, hRest, ih]
      rfl

/-- The cut at an offset is the one cut whose first part has that many bytes. -/
theorem splitAt?_eq_some_iff {offset : Nat} {cs front back : List Char} :
    splitAt? offset cs = some (front, back) ↔ cs = front ++ back ∧ byteLength front = offset := by
  constructor
  · intro h
    obtain ⟨hEq, hLength⟩ := splitAt?_eq_some h
    exact ⟨hEq.symm, hLength⟩
  · rintro ⟨rfl, rfl⟩
    exact splitAt?_byteLength_append front back

/-- What a slice is: a text between two others, with the offsets that it asks for. -/
theorem slice?_eq_some_iff {start stop : Nat} {cs middle : List Char} :
    slice? start stop cs = some middle ↔
      ∃ front back, cs = front ++ middle ++ back ∧ byteLength front = start ∧
        start + byteLength middle = stop := by
  unfold slice?
  constructor
  · intro h
    split at h
    case isFalse => cases h
    case isTrue hLe =>
      obtain ⟨⟨front, tail⟩, hFront, h⟩ := Option.bind_eq_some_iff.mp h
      obtain ⟨⟨middle', back⟩, hMiddle, h⟩ := Option.bind_eq_some_iff.mp h
      cases h
      obtain ⟨rfl, hStart⟩ := splitAt?_eq_some_iff.mp hFront
      obtain ⟨rfl, hStop⟩ := splitAt?_eq_some_iff.mp hMiddle
      exact ⟨front, back, by simp, hStart, by omega⟩
  · rintro ⟨front, back, rfl, hStart, rfl⟩
    rw [if_pos (Nat.le_add_right _ _), ← hStart, Nat.add_sub_cancel_left, List.append_assoc,
      splitAt?_byteLength_append]
    simp [splitAt?_byteLength_append]

theorem IsBoundary.le {offset : Nat} {cs : List Char} (h : IsBoundary offset cs) :
    offset ≤ byteLength cs := by
  obtain ⟨front, back, rfl, rfl⟩ := h
  rw [byteLength_append]
  omega

end Text

/-- A span covers a stretch of a text: its ends are in order, inside the text and on
boundaries. -/
structure Span.Covers (span : Span) (source : String) : Prop where
  start_le_stop : span.start ≤ span.stop
  stop_le : span.stop ≤ Text.byteLength source.toList
  start_isBoundary : Text.IsBoundary span.start source.toList
  stop_isBoundary : Text.IsBoundary span.stop source.toList

/-- A span covers a stretch of a text if the text has three parts of which the span is the
middle one. -/
theorem Span.covers_iff {span : Span} {source : String} :
    span.Covers source ↔
      ∃ front middle back, source.toList = front ++ middle ++ back ∧
        Text.byteLength front = span.start ∧
        span.start + Text.byteLength middle = span.stop := by
  constructor
  · rintro ⟨hOrder, -, ⟨front, tail, hFront, hStart⟩, ⟨head, back, hHead, hStop⟩⟩
    obtain ⟨middle, rfl, -⟩ :=
      Text.exists_eq_append_of_byteLength_le (hFront.symm.trans hHead) (by omega)
    rw [Text.byteLength_append] at hStop
    exact ⟨front, middle, back, hHead, hStart, by omega⟩
  · rintro ⟨front, middle, back, hSource, hStart, hStop⟩
    have hBoundary : Text.IsBoundary span.stop source.toList :=
      ⟨front ++ middle, back, hSource, by rw [Text.byteLength_append]; omega⟩
    exact ⟨by omega, hBoundary.le, ⟨front, middle ++ back, by simp [hSource], hStart⟩, hBoundary⟩

/-- The test that is made of a proposed fix says what it should. -/
theorem Fix.fits_iff {fix : Fix} {source : String} :
    fix.fits source = true ↔ fix.span.Covers source := by
  rw [Span.covers_iff, Fix.fits, Span.text?, Option.isSome_map, Option.isSome_iff_exists]
  constructor
  · rintro ⟨middle, h⟩
    obtain ⟨front, back, h⟩ := Text.slice?_eq_some_iff.mp h
    exact ⟨front, middle, back, h⟩
  · rintro ⟨front, middle, back, h⟩
    exact ⟨middle, Text.slice?_eq_some_iff.mpr ⟨front, back, h⟩⟩

end EcmaLint
