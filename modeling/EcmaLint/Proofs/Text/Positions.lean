import EcmaLint.Proofs.Text.Lines

/-! Positions by counting. The line of an offset is the number of lines that end in front of it,
and its column the width of what stands between the start of the line and the offset. A position is
found by walking through the text or by looking into the table of line starts, and both give what
the counting gives. Going forward in the text never goes backward in positions, and from one
character to the next it always goes forward. A position tells both counts in 32 bits, which are
enough for a text whose length and one more have 32 bits, and not for one that is longer. -/
namespace EcmaLint

namespace LineColumn

open Text

/-- The position behind a character of a line. -/
def cover (place : LineColumn) (c : Char) : LineColumn :=
  ⟨place.line, place.column + utf16Size c⟩

/-- The position behind a character that is passed as a whole. -/
def pass (place : LineColumn) (c : Char) (cs : List Char) : LineColumn :=
  if endsLine c cs then ⟨place.line + 1, 1⟩ else cover place c

section Advance

variable {place : LineColumn} {bytes : Nat} {c : Char} {cs : List Char}

@[simp]
theorem advance_zero (place : LineColumn) (cs : List Char) : advance place 0 cs = place := by
  cases cs <;> rfl

theorem advance_of_le (h : c.utf8Size ≤ bytes) :
    advance place bytes (c :: cs) = advance (pass place c cs) (bytes - c.utf8Size) cs := by
  have hPos := c.utf8Size_pos
  obtain ⟨bytes, rfl⟩ : ∃ n, bytes = n + 1 := Nat.exists_eq_add_one_of_ne_zero (by omega)
  rw [advance, decide_eq_true h, Bool.true_and, pass]
  split <;> rfl

/-- An offset inside a character counts that character as one of its line. -/
theorem advance_of_lt (hPos : 0 < bytes) (h : bytes < c.utf8Size) :
    advance place bytes (c :: cs) = cover place c := by
  obtain ⟨bytes, rfl⟩ : ∃ n, bytes = n + 1 := Nat.exists_eq_add_one_of_ne_zero (by omega)
  have hDone : bytes + 1 - c.utf8Size = 0 := by omega
  rw [advance, decide_eq_false (Nat.not_le.mpr h), Bool.false_and, if_neg Bool.false_ne_true, hDone,
    advance_zero, cover]

end Advance

/-- The position that counting gives for an offset in a text that starts at a position and at the
offset `base`: each line end makes a new line, and the column counts what stands behind the last. -/
def counted (place : LineColumn) (base last : Nat) (cs : List Char) : LineColumn where
  line := place.line + (lineEndsUpTo base last cs).length
  column := (if lineEndsUpTo base last cs = [] then place.column else 1) +
    unitsBetween (lastStart base (lineEndsUpTo base last cs)) last (charIndices base cs)

section Counted

variable {place : LineColumn} {base last : Nat} {c : Char} {cs : List Char}

theorem counted_of_le (h : last ≤ base) : counted place base last cs = place := by
  have hUnits : unitsBetween base last (charIndices base cs) = 0 :=
    unitsBetween_eq_zero fun _ hChar => .inl (Nat.le_trans h (le_of_mem_charIndices hChar))
  rw [counted, lineEndsUpTo_eq_nil h, if_pos rfl, lastStart_nil, hUnits]
  rfl

theorem counted_cons_of_endsLine (hEnds : endsLine c cs = true) (hLe : base + c.utf8Size ≤ last) :
    counted place base last (c :: cs) =
      counted ⟨place.line + 1, 1⟩ (base + c.utf8Size) last cs := by
  have hPos := c.utf8Size_pos
  have hStart := le_lastStart (base + c.utf8Size) last cs
  have hNew : lineEndsUpTo base last (c :: cs) =
      (base + c.utf8Size) :: lineEndsUpTo (base + c.utf8Size) last cs := by
    rw [lineEndsUpTo_cons, if_pos ⟨hEnds, hLe⟩]
  have hFront : ¬(lastStart (base + c.utf8Size) (lineEndsUpTo (base + c.utf8Size) last cs) ≤ base ∧
      base < last) := by
    omega
  simp only [counted, hNew, lastStart_cons, charIndices, unitsBetween_cons, if_neg hFront,
    if_neg (List.cons_ne_nil _ _), List.length_cons, Nat.zero_add, ite_self]
  congr 1
  omega

theorem counted_cons_of_not_endsLine (hLess : base < last)
    (h : ¬(endsLine c cs = true ∧ base + c.utf8Size ≤ last)) :
    counted place base last (c :: cs) =
      counted (cover place c) (base + c.utf8Size) last cs := by
  have hPos := c.utf8Size_pos
  have hSame : lineEndsUpTo base last (c :: cs) = lineEndsUpTo (base + c.utf8Size) last cs := by
    rw [lineEndsUpTo_cons, if_neg h]
  simp only [counted, hSame, charIndices, unitsBetween_cons]
  congr 1
  cases hEnds : lineEndsUpTo (base + c.utf8Size) last cs with
  | nil =>
      have hUnits : unitsBetween base last (charIndices (base + c.utf8Size) cs) =
          unitsBetween (base + c.utf8Size) last (charIndices (base + c.utf8Size) cs) :=
        unitsBetween_congr fun char hChar => by
          have := le_of_mem_charIndices hChar
          omega
      have hFront : lastStart base [] ≤ base ∧ base < last := ⟨Nat.le_refl _, hLess⟩
      rw [if_pos hFront, if_pos rfl, if_pos rfl, lastStart_nil, lastStart_nil, hUnits,
        cover, Nat.add_assoc]
  | cons lineEnd ends =>
      have hStart := le_lastStart (base + c.utf8Size) last cs
      rw [hEnds, lastStart_cons] at hStart
      have hFront : ¬(lastStart lineEnd ends ≤ base ∧ base < last) := by omega
      simp only [lastStart_cons, if_neg hFront, if_neg (List.cons_ne_nil _ _), Nat.zero_add]

end Counted

/-- A walk through a text ends where counting says. -/
theorem advance_eq_counted (place : LineColumn) (bytes base : Nat) (cs : List Char) :
    advance place bytes cs = counted place base (base + bytes) cs := by
  induction cs generalizing place bytes base with
  | nil => cases bytes <;> rfl
  | cons c cs ih =>
      rcases Nat.eq_zero_or_pos bytes with rfl | hPos
      · rw [advance_zero, Nat.add_zero, counted_of_le (Nat.le_refl _)]
      rcases Nat.lt_or_ge bytes c.utf8Size with hLess | hLe
      · rw [advance_of_lt hPos hLess, counted_cons_of_not_endsLine (by omega) (by omega),
          counted_of_le (by omega)]
      · have hRest : base + c.utf8Size + (bytes - c.utf8Size) = base + bytes := by omega
        rw [advance_of_le hLe, ih _ _ (base + c.utf8Size), hRest, pass]
        split
        case isTrue hEnds => rw [counted_cons_of_endsLine hEnds (by omega)]
        case isFalse hEnds =>
          rw [counted_cons_of_not_endsLine (by omega) fun h => hEnds h.1]

theorem counted_min (place : LineColumn) (last : Nat) (cs : List Char) :
    counted place 0 (min last (byteLength cs)) cs = counted place 0 last cs := by
  rw [counted, lineEndsUpTo_min, unitsBetween_min]
  rfl

theorem of_eq_counted (source : String) (offset : Nat) :
    of source offset = counted origin 0 offset source.toList := by
  rw [of, advance_eq_counted origin offset 0, Nat.zero_add]

/-- The position of an offset by its place in the table of line starts. There is none where the
table has no such line or the line starts inside a character. -/
def ofTable? (source : List Char) (offset : Nat) : Option LineColumn := do
  let offset := min offset (byteLength source)
  let starts := lineStarts source
  let line := lineIndex starts offset
  let start ← starts[line]?
  let tail ← slice? start (byteLength source) source
  let passed := (charIndices 0 tail).takeWhile fun char => start + char.1 < offset
  pure ⟨line + 1, (passed.map fun char => utf16Size char.2).sum + 1⟩

/-- Looking into the table gives what the walk gives, and it always gives something. -/
theorem ofTable?_eq (source : String) (offset : Nat) :
    ofTable? source.toList offset = some (of source offset) := by
  rw [of_eq_counted, ← counted_min]
  unfold ofTable? counted origin
  dsimp only
  generalize min offset (byteLength source.toList) = offset
  obtain ⟨hLine, hStart⟩ := lineIndex_lineStarts source.toList offset
  obtain ⟨front, back, hSource, hFront⟩ := exists_eq_append_of_lastStart offset source.toList
  have hTail : slice? (byteLength front) (byteLength source.toList) source.toList = some back :=
    slice?_eq_some_iff.mpr ⟨front, [], by rw [hSource, List.append_nil], rfl, by
      rw [hSource, byteLength_append]⟩
  have hWidth := unitsBetween_eq_sum_takeWhile front back offset
  rw [← hSource] at hWidth
  rw [hStart, hLine, ← hFront, hWidth, ite_self, Nat.add_comm 1, Nat.add_comm 1]
  simp only [Option.bind_eq_bind, Option.bind_some, hTail]
  rfl

instance : LT LineColumn :=
  ⟨fun a b => a.line < b.line ∨ a.line = b.line ∧ a.column < b.column⟩

instance : LE LineColumn :=
  ⟨fun a b => a.line < b.line ∨ a.line = b.line ∧ a.column ≤ b.column⟩

section Order

variable {a b c place : LineColumn} {first second : Nat} {cs : List Char}

theorem lt_def : a < b ↔ a.line < b.line ∨ a.line = b.line ∧ a.column < b.column := Iff.rfl

theorem le_def : a ≤ b ↔ a.line < b.line ∨ a.line = b.line ∧ a.column ≤ b.column := Iff.rfl

theorem le_refl (a : LineColumn) : a ≤ a := .inr ⟨rfl, Nat.le_refl _⟩

theorem lt_of_lt_of_le (hab : a < b) (hbc : b ≤ c) : a < c := by
  rw [lt_def] at hab ⊢
  rw [le_def] at hbc
  omega

theorem le_trans (hab : a ≤ b) (hbc : b ≤ c) : a ≤ c := by
  rw [le_def] at hab hbc ⊢
  omega

theorem le_of_lt (h : a < b) : a ≤ b := by
  rw [lt_def] at h
  rw [le_def]
  omega

theorem ne_of_lt (h : a < b) : a ≠ b := by
  rintro rfl
  rw [lt_def] at h
  omega

theorem lt_cover (place : LineColumn) (c : Char) : place < cover place c :=
  .inr ⟨rfl, Nat.lt_add_of_pos_right (utf16Size_pos c)⟩

/-- A character that is only partly passed leads no further than one that is passed as a whole. -/
theorem cover_le_pass (place : LineColumn) (c : Char) (cs : List Char) :
    cover place c ≤ pass place c cs := by
  rw [pass]
  split
  case isTrue => exact .inl (Nat.lt_succ_self _)
  case isFalse => exact le_refl _

theorem lt_pass (place : LineColumn) (c : Char) (cs : List Char) : place < pass place c cs :=
  lt_of_lt_of_le (lt_cover place c) (cover_le_pass place c cs)

/-- A walk never goes backward. -/
theorem le_advance (place : LineColumn) (bytes : Nat) (cs : List Char) :
    place ≤ advance place bytes cs := by
  induction cs generalizing place bytes with
  | nil => cases bytes <;> exact le_refl _
  | cons c cs ih =>
      rcases Nat.eq_zero_or_pos bytes with rfl | hPos
      · rw [advance_zero]
        exact le_refl _
      rcases Nat.lt_or_ge bytes c.utf8Size with hLess | hLe
      · rw [advance_of_lt hPos hLess]
        exact le_of_lt (lt_cover place c)
      · rw [advance_of_le hLe]
        exact le_of_lt (lt_of_lt_of_le (lt_pass place c cs) (ih _ _))

/-- A walk that passes anything goes forward. -/
theorem lt_advance_cons (place : LineColumn) {bytes : Nat} (hPos : 0 < bytes) (c : Char)
    (cs : List Char) : place < advance place bytes (c :: cs) := by
  rcases Nat.lt_or_ge bytes c.utf8Size with hLess | hLe
  · rw [advance_of_lt hPos hLess]
    exact lt_cover place c
  · rw [advance_of_le hLe]
    exact lt_of_lt_of_le (lt_pass place c cs) (le_advance _ _ _)

/-- The longer of two walks goes as far as the shorter one. -/
theorem advance_le_advance (place : LineColumn) (cs : List Char) (h : first ≤ second) :
    advance place first cs ≤ advance place second cs := by
  induction cs generalizing place first second with
  | nil => cases first <;> cases second <;> exact le_refl _
  | cons c cs ih =>
      rcases Nat.eq_zero_or_pos first with rfl | hPos
      · rw [advance_zero]
        exact le_advance _ _ _
      rcases Nat.lt_or_ge first c.utf8Size with hFirst | hFirst
      · rw [advance_of_lt hPos hFirst]
        rcases Nat.lt_or_ge second c.utf8Size with hSecond | hSecond
        · rw [advance_of_lt (Nat.lt_of_lt_of_le hPos h) hSecond]
          exact le_refl _
        · rw [advance_of_le hSecond]
          exact le_trans (cover_le_pass _ _ _) (le_advance _ _ _)
      · rw [advance_of_le hFirst, advance_of_le (Nat.le_trans hFirst h)]
        exact ih _ (Nat.sub_le_sub_right h _)

/-- A walk that goes on behind whole characters goes forward. -/
theorem advance_lt_advance (place : LineColumn) {first second : Nat} {cs : List Char}
    (hBoundary : IsBoundary first cs) (hLess : first < second) (hLe : second ≤ byteLength cs) :
    advance place first cs < advance place second cs := by
  obtain ⟨front, back, rfl, rfl⟩ := hBoundary
  induction front generalizing place second with
  | nil =>
      cases back with
      | nil =>
          rw [List.append_nil] at hLe
          omega
      | cons c cs =>
          rw [byteLength_nil, advance_zero]
          exact lt_advance_cons place hLess c cs
  | cons c front ih =>
      rw [byteLength_cons] at hLess
      rw [List.cons_append, byteLength_cons] at hLe
      rw [List.cons_append, byteLength_cons, advance_of_le (Nat.le_add_right _ _),
        advance_of_le (by omega), Nat.add_sub_cancel_left]
      exact ih _ (by omega) (by omega)

end Order

/-- No count of lines or columns is larger than the number of bytes. -/
theorem advance_bounds (place : LineColumn) (bytes : Nat) (cs : List Char) :
    (advance place bytes cs).line ≤ place.line + byteLength cs ∧
      (advance place bytes cs).column ≤ max 1 place.column + byteLength cs := by
  induction cs generalizing place bytes with
  | nil => cases bytes <;> exact ⟨Nat.le_refl _, Nat.le_max_right _ _⟩
  | cons c cs ih =>
      have hPos := c.utf8Size_pos
      have hWide := utf16Size_le c
      rw [byteLength_cons]
      rcases Nat.eq_zero_or_pos bytes with rfl | hPos
      · rw [advance_zero]
        omega
      rcases Nat.lt_or_ge bytes c.utf8Size with hLess | hLe
      · simp only [advance_of_lt hPos hLess, cover]
        omega
      · rw [advance_of_le hLe]
        have hLater := ih (pass place c cs) (bytes - c.utf8Size)
        have hNext : (pass place c cs).line ≤ place.line + 1 ∧
            (pass place c cs).column ≤ max 1 place.column + utf16Size c := by
          unfold pass cover
          split <;> dsimp only <;> omega
        omega

/-- Both counts have 32 bits at most. -/
structure Fits (place : LineColumn) : Prop where
  line : place.line < 2 ^ 32
  column : place.column < 2 ^ 32

namespace Fits

variable {a b : LineColumn}

theorem toNat_line (h : a.Fits) : a.position.line.toNat = a.line :=
  UInt32.toNat_ofNat_of_lt' h.line

theorem toNat_column (h : a.Fits) : a.position.column.toNat = a.column :=
  UInt32.toNat_ofNat_of_lt' h.column

theorem line_eq_iff (ha : a.Fits) (hb : b.Fits) :
    a.position.line = b.position.line ↔ a.line = b.line := by
  rw [← UInt32.toNat_inj, ha.toNat_line, hb.toNat_line]

theorem lt_iff (ha : a.Fits) (hb : b.Fits) : a.position < b.position ↔ a < b := by
  rw [Position.lt_def, lt_def, ha.line_eq_iff hb, UInt32.lt_iff_toNat_lt, UInt32.lt_iff_toNat_lt,
    ha.toNat_line, hb.toNat_line, ha.toNat_column, hb.toNat_column]

theorem le_iff (ha : a.Fits) (hb : b.Fits) : a.position ≤ b.position ↔ a ≤ b := by
  rw [Position.le_def, le_def, ha.line_eq_iff hb, UInt32.lt_iff_toNat_lt, UInt32.le_iff_toNat_le,
    ha.toNat_line, hb.toNat_line, ha.toNat_column, hb.toNat_column]

theorem eq_of_position_eq (ha : a.Fits) (hb : b.Fits) (h : a.position = b.position) : a = b := by
  have hLine : a.line = b.line := by rw [← ha.toNat_line, ← hb.toNat_line, h]
  have hColumn : a.column = b.column := by rw [← ha.toNat_column, ← hb.toNat_column, h]
  cases a
  cases b
  exact (mk.injEq ..).mpr ⟨hLine, hColumn⟩

end Fits

/-- No count is larger than the length of the text and one. -/
theorem fits_of {source : String} (h : byteLength source.toList + 1 < 2 ^ 32) (offset : Nat) :
    (of source offset).Fits := by
  obtain ⟨hLine, hColumn⟩ := advance_bounds origin offset source.toList
  have hFirst : origin.line = 1 ∧ origin.column = 1 := ⟨rfl, rfl⟩
  refine ⟨?_, ?_⟩ <;> rw [of] <;> omega

theorem advance_replicate (place : LineColumn) (n : Nat) :
    advance place n (List.replicate n 'a') = ⟨place.line, place.column + n⟩ := by
  induction n generalizing place with
  | zero => rfl
  | succ n ih =>
      have hSize : 'a'.utf8Size = 1 := rfl
      rw [List.replicate_succ, advance_of_le (hSize ▸ Nat.le_add_left 1 n), hSize,
        Nat.add_sub_cancel, ih]
      show (⟨place.line, place.column + 1 + n⟩ : LineColumn) = _
      rw [Nat.add_assoc, Nat.add_comm 1]

end LineColumn

namespace Position

open Text

/-- What is said of the positions in a text. -/
structure Exact (source : String) : Prop where
  /-- The line is the number of line ends at or in front of the offset, counted from one. -/
  line : ∀ offset, (of source offset).line.toNat =
    1 + (lineEndsUpTo 0 (min offset (byteLength source.toList)) source.toList).length
  /-- The column is the width of what starts on the line and in front of the offset, counted from
  one. -/
  column : ∀ offset, (of source offset).column.toNat =
    1 + unitsBetween
      (lastStart 0 (lineEndsUpTo 0 (min offset (byteLength source.toList)) source.toList)) offset
      (charIndices 0 source.toList)
  /-- Looking into the table of line starts never fails and gives this position. -/
  found : ∀ offset, (LineColumn.ofTable? source.toList offset).map LineColumn.position =
    some (of source offset)
  /-- No count starts again from zero. -/
  fits : ∀ offset, (LineColumn.of source offset).Fits
  /-- From one character to a later one the position grows. -/
  lt_of_lt : ∀ first second, IsBoundary first source.toList → IsBoundary second source.toList →
    first < second → of source first < of source second
  /-- No two characters share a position. -/
  injective : ∀ first second, IsBoundary first source.toList → IsBoundary second source.toList →
    of source first = of source second → first = second
  /-- At no later offset is the position an earlier one. -/
  monotone : ∀ first second, first ≤ second → of source first ≤ of source second

/-- Positions are exact in every text whose length and one more have 32 bits. -/
theorem of_exact (source : String) (h : byteLength source.toList + 1 < 2 ^ 32) : Exact source := by
  have hFits := LineColumn.fits_of h
  have hGrows : ∀ first second, IsBoundary first source.toList → IsBoundary second source.toList →
      first < second → of source first < of source second := fun first second hFirst hSecond hLess =>
    ((hFits first).lt_iff (hFits second)).mpr
      (LineColumn.advance_lt_advance .origin hFirst hLess hSecond.le)
  exact {
    line := fun offset => by
      rw [of, (hFits offset).toNat_line, LineColumn.of_eq_counted, lineEndsUpTo_min]
      rfl
    column := fun offset => by
      rw [of, (hFits offset).toNat_column, LineColumn.of_eq_counted, lineEndsUpTo_min,
        LineColumn.counted, LineColumn.origin, ite_self]
    found := fun offset => by rw [LineColumn.ofTable?_eq, Option.map_some, of]
    fits := hFits
    lt_of_lt := hGrows
    injective := fun first second hFirst hSecond hSame => by
      have hPlaces := (hFits first).eq_of_position_eq (hFits second) hSame
      rcases Nat.lt_trichotomy first second with hLess | hEqual | hLess
      · exact absurd hPlaces
          (LineColumn.ne_of_lt (LineColumn.advance_lt_advance .origin hFirst hLess hSecond.le))
      · exact hEqual
      · exact absurd hPlaces.symm
          (LineColumn.ne_of_lt (LineColumn.advance_lt_advance .origin hSecond hLess hFirst.le))
    monotone := fun first second hLe => ((hFits first).le_iff (hFits second)).mpr
      (LineColumn.advance_le_advance .origin source.toList hLe) }

/-- An offset between `\r` and `\n` is still on the line that they end. -/
theorem of_exact_return : Exact "a\r\nb" ∧ of "a\r\nb" 2 = ⟨1, 3⟩ ∧ of "a\r\nb" 3 = ⟨2, 1⟩ :=
  ⟨of_exact _ (by decide), by decide, by decide⟩

theorem byteLength_replicate (n : Nat) : byteLength (List.replicate n 'a') = n := by
  induction n with
  | zero => rfl
  | succ n ih => rw [List.replicate_succ, byteLength_cons, ih, Nat.add_comm]; rfl

/-- In a text of a single line with one byte more the last column starts again from zero. -/
theorem of_replicate {n : Nat} (h : n + 1 = 2 ^ 32) :
    of (String.ofList (List.replicate n 'a')) n = ⟨1, 0⟩ := by
  rw [of, LineColumn.of, String.toList_ofList, LineColumn.advance_replicate]
  show (⟨.ofNat 1, .ofNat (1 + n)⟩ : Position) = _
  rw [Nat.add_comm, h]
  rfl

/-- There is a text whose length has 32 bits, and at its end the column is zero, in front of the
first one. -/
theorem exists_not_exact : ∃ source : String, byteLength source.toList < 2 ^ 32 ∧
    of source (byteLength source.toList) = ⟨1, 0⟩ ∧ ¬Exact source := by
  obtain ⟨n, hSize⟩ : ∃ n, n + 1 = 2 ^ 32 := ⟨2 ^ 32 - 1, rfl⟩
  have hLength : byteLength (String.ofList (List.replicate n 'a')).toList = n := by
    rw [String.toList_ofList, byteLength_replicate]
  have hEnd := of_replicate hSize
  refine ⟨String.ofList (List.replicate n 'a'), by omega, by rw [hLength, hEnd], fun h => ?_⟩
  have hColumn := h.column n
  rw [hEnd, Nat.add_comm] at hColumn
  exact Nat.succ_ne_zero _ hColumn.symm

end Position

end EcmaLint
