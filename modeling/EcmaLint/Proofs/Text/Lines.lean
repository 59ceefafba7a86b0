import Mathlib.Algebra.GroupWithZero.Nat
import EcmaLint.Proofs.Order.Search
import EcmaLint.Proofs.Token.Literals
import EcmaLint.Text.Span

/-! The lines of a text. A line ends behind each line end, which is found between characters, and
the offsets behind the line ends go up. A table of the offsets at which lines start is made in one
pass over the text, and the line of an offset is found in it by halving: it is the last one that
starts at or in front of the offset. -/
namespace EcmaLint

namespace Text

/-- The characters of a text that starts at an offset, each with the offset at which it starts. -/
def charIndices (base : Nat) : List Char → List (Nat × Char)
  | [] => []
  | c :: cs => (base, c) :: charIndices (base + c.utf8Size) cs

/-- The offsets behind the line ends of a text that starts at an offset. A `\r` and the `\n` behind
it end one line. -/
def lineEnds (base : Nat) : List Char → List Nat
  | [] => []
  | '\r' :: '\n' :: cs => (base + 2) :: lineEnds (base + 2) cs
  | c :: cs =>
      if ['\n', '\r', '\u2028', '\u2029'].contains c then
        (base + c.utf8Size) :: lineEnds (base + c.utf8Size) cs
      else lineEnds (base + c.utf8Size) cs

/-- The line ends of a text at or in front of an offset. -/
def lineEndsUpTo (base last : Nat) (cs : List Char) : List Nat :=
  (lineEnds base cs).filter fun lineEnd => lineEnd ≤ last

/-- The offset at which the last line of some starts, where the first one starts at `base`. -/
def lastStart (base : Nat) (ends : List Nat) : Nat := ends.getLast?.getD base

/-- The number of UTF-16 units of the characters that start between two offsets. -/
def unitsBetween (first last : Nat) (chars : List (Nat × Char)) : Nat :=
  ((chars.filter fun char => first ≤ char.1 && char.1 < last).map fun char =>
    utf16Size char.2).sum

theorem utf16Size_pos (c : Char) : 0 < utf16Size c := by
  unfold utf16Size
  split <;> decide

/-- A character that takes two UTF-16 units takes more than one byte. -/
theorem utf16Size_le (c : Char) : utf16Size c ≤ c.utf8Size := by
  have hPos := c.utf8Size_pos
  unfold utf16Size
  split
  case isTrue => exact hPos
  case isFalse hLarge =>
    have hMany : c.utf8Size ≠ 1 := fun hOne => by
      have hSmall := Char.utf8Size_eq_one_iff.mp hOne
      have hNat : c.toNat ≤ 127 := UInt32.le_iff_toNat_le.mp hSmall
      omega
    omega

section Offsets

variable {base first last : Nat} {c : Char} {cs : List Char}

theorem charIndices_append (base : Nat) (front back : List Char) :
    charIndices base (front ++ back) =
      charIndices base front ++ charIndices (base + byteLength front) back := by
  induction front generalizing base with
  | nil => rfl
  | cons c cs ih =>
      rw [List.cons_append, charIndices, charIndices, ih, byteLength_cons, Nat.add_assoc,
        List.cons_append]

theorem charIndices_add (base offset : Nat) (cs : List Char) : charIndices (base + offset) cs =
    (charIndices offset cs).map fun char => (base + char.1, char.2) := by
  induction cs generalizing offset with
  | nil => rfl
  | cons c cs ih => rw [charIndices, charIndices, List.map_cons, Nat.add_assoc, ih]

theorem le_of_mem_charIndices {char : Nat × Char} (h : char ∈ charIndices base cs) :
    base ≤ char.1 := by
  induction cs generalizing base with
  | nil => cases h
  | cons c cs ih =>
      rcases List.mem_cons.mp h with rfl | hLater
      · exact Nat.le_refl _
      · have := ih hLater
        omega

theorem lt_of_mem_charIndices {char : Nat × Char} (h : char ∈ charIndices base cs) :
    char.1 < base + byteLength cs := by
  induction cs generalizing base with
  | nil => cases h
  | cons c cs ih =>
      have hPos := c.utf8Size_pos
      rw [byteLength_cons]
      rcases List.mem_cons.mp h with rfl | hLater
      · omega
      · have := ih hLater
        omega

/-- Characters stand one behind the other, so those in front of an offset come first. -/
theorem parted_charIndices (base last : Nat) (cs : List Char) :
    Parted (fun char => decide (char.1 < last)) (charIndices base cs) := by
  induction cs generalizing base with
  | nil => exact List.Pairwise.nil
  | cons c cs ih =>
      refine List.pairwise_cons.mpr ⟨fun char hChar hLess => ?_, ih _⟩
      have hLe := le_of_mem_charIndices hChar
      have hLast := of_decide_eq_true hLess
      exact decide_eq_true (by omega)

/-- Whether a line ends is read off a character and the one behind it. -/
theorem lineEnds_cons (base : Nat) (c : Char) (cs : List Char) : lineEnds base (c :: cs) =
    if endsLine c cs then (base + c.utf8Size) :: lineEnds (base + c.utf8Size) cs
    else lineEnds (base + c.utf8Size) cs := by
  by_cases hBreak : c = '\r' ∧ ∃ rest, cs = '\n' :: rest
  · obtain ⟨rfl, rest, rfl⟩ := hBreak
    have hNewline :
        lineEnds (base + 1) ('\n' :: rest) = (base + 2) :: lineEnds (base + 2) rest := by
      rw [lineEnds]
      · rfl
      · intro _ hEq
        exact absurd hEq (by decide)
    rw [lineEnds]
    exact hNewline.symm
  · have hFollowed : (c == '\r' && cs.head? == some '\n') = false := by
      rw [Bool.and_eq_false_imp]
      intro hReturn
      refine beq_eq_false_iff_ne.mpr fun hHead => hBreak ⟨eq_of_beq hReturn, ?_⟩
      obtain ⟨rest, hRest⟩ := List.head?_eq_some_iff.mp hHead
      exact ⟨rest, hRest⟩
    have hEnds : endsLine c cs = ['\n', '\r', '\u2028', '\u2029'].contains c := by
      rw [endsLine, hFollowed, Bool.not_false, Bool.and_true, isLineTerminator]
      simp only [List.contains_cons, List.contains_nil, Bool.or_false, Bool.or_assoc]
    rw [hEnds, lineEnds]
    rintro rest rfl rfl
    exact hBreak ⟨rfl, rest, rfl⟩

theorem lt_of_mem_lineEnds {lineEnd : Nat} (h : lineEnd ∈ lineEnds base cs) : base < lineEnd := by
  induction cs generalizing base with
  | nil => cases h
  | cons c cs ih =>
      have hPos := c.utf8Size_pos
      rw [lineEnds_cons] at h
      split at h
      case isTrue =>
        rcases List.mem_cons.mp h with rfl | hLater
        · omega
        · have := ih hLater
          omega
      case isFalse =>
        have := ih h
        omega

/-- Lines end between characters. -/
theorem exists_eq_append_of_mem_lineEnds {lineEnd : Nat} (h : lineEnd ∈ lineEnds base cs) :
    ∃ front back, cs = front ++ back ∧ base + byteLength front = lineEnd := by
  induction cs generalizing base with
  | nil => cases h
  | cons c cs ih =>
      have hStep : lineEnd ∈ lineEnds (base + c.utf8Size) cs →
          ∃ front back, c :: cs = front ++ back ∧ base + byteLength front = lineEnd := by
        intro hLater
        obtain ⟨front, back, rfl, rfl⟩ := ih hLater
        exact ⟨c :: front, back, rfl, by rw [byteLength_cons, Nat.add_assoc]⟩
      rw [lineEnds_cons] at h
      split at h
      case isTrue =>
        rcases List.mem_cons.mp h with rfl | hLater
        · exact ⟨[c], cs, rfl, rfl⟩
        · exact hStep hLater
      case isFalse => exact hStep h

theorem pairwise_lineEnds (base : Nat) (cs : List Char) : (lineEnds base cs).Pairwise (· < ·) := by
  induction cs generalizing base with
  | nil => exact List.Pairwise.nil
  | cons c cs ih =>
      rw [lineEnds_cons]
      split
      case isTrue => exact List.pairwise_cons.mpr ⟨fun _ => lt_of_mem_lineEnds, ih _⟩
      case isFalse => exact ih _

theorem lineEndsUpTo_cons (base last : Nat) (c : Char) (cs : List Char) :
    lineEndsUpTo base last (c :: cs) =
      if endsLine c cs ∧ base + c.utf8Size ≤ last then
        (base + c.utf8Size) :: lineEndsUpTo (base + c.utf8Size) last cs
      else lineEndsUpTo (base + c.utf8Size) last cs := by
  rw [lineEndsUpTo, lineEnds_cons]
  cases endsLine c cs with
  | false => rfl
  | true =>
      rw [if_pos rfl, List.filter_cons]
      simp only [decide_eq_true_iff, true_and]
      rfl

theorem lineEndsUpTo_eq_nil (h : last ≤ base) : lineEndsUpTo base last cs = [] := by
  refine List.filter_eq_nil_iff.mpr fun lineEnd hEnd hLe => ?_
  have hLess := lt_of_mem_lineEnds hEnd
  have hLast := of_decide_eq_true hLe
  omega

/-- No line ends behind the end of the text. -/
theorem lineEndsUpTo_min (last : Nat) (cs : List Char) :
    lineEndsUpTo 0 (min last (byteLength cs)) cs = lineEndsUpTo 0 last cs := by
  refine List.filter_congr fun lineEnd hEnd => ?_
  obtain ⟨front, back, rfl, rfl⟩ := exists_eq_append_of_mem_lineEnds hEnd
  rw [byteLength_append, decide_eq_decide]
  omega

theorem le_lastStart (base last : Nat) (cs : List Char) :
    base ≤ lastStart base (lineEndsUpTo base last cs) := by
  unfold lastStart
  cases hLast : (lineEndsUpTo base last cs).getLast? with
  | none => exact Nat.le_refl _
  | some lineEnd =>
      have hMem := List.mem_of_getLast? hLast
      exact Nat.le_of_lt (lt_of_mem_lineEnds (List.mem_of_mem_filter hMem))

theorem lastStart_nil (base : Nat) : lastStart base [] = base := rfl

/-- Behind a line end the last start does not ask where the line in front of it began. -/
theorem lastStart_cons (base lineEnd : Nat) (ends : List Nat) :
    lastStart base (lineEnd :: ends) = lastStart lineEnd ends := by
  rw [lastStart, List.getLast?_cons]
  rfl

/-- What is counted starts at or behind any offset in front of all characters. -/
theorem unitsBetween_congr {first' : Nat} {chars : List (Nat × Char)}
    (h : ∀ char ∈ chars, first ≤ char.1 ∧ first' ≤ char.1) :
    unitsBetween first last chars = unitsBetween first' last chars := by
  unfold unitsBetween
  rw [List.filter_congr fun char hChar => ?_]
  rw [decide_eq_true (h char hChar).1, decide_eq_true (h char hChar).2]

theorem unitsBetween_eq_zero {chars : List (Nat × Char)}
    (h : ∀ char ∈ chars, last ≤ char.1 ∨ char.1 < first) : unitsBetween first last chars = 0 := by
  have hNone : (chars.filter fun char => first ≤ char.1 && char.1 < last) = [] := by
    refine List.filter_eq_nil_iff.mpr fun char hChar hBetween => ?_
    rw [Bool.and_eq_true, decide_eq_true_iff, decide_eq_true_iff] at hBetween
    rcases h char hChar with hLe | hLess <;> omega
  rw [unitsBetween, hNone]
  rfl

theorem unitsBetween_min (first last : Nat) (cs : List Char) :
    unitsBetween first (min last (byteLength cs)) (charIndices 0 cs) =
      unitsBetween first last (charIndices 0 cs) := by
  unfold unitsBetween
  rw [List.filter_congr fun char hChar => ?_]
  have hLess := lt_of_mem_charIndices hChar
  congr 1
  rw [decide_eq_decide]
  omega

theorem unitsBetween_append (front back : List (Nat × Char)) :
    unitsBetween first last (front ++ back) =
      unitsBetween first last front + unitsBetween first last back := by
  rw [unitsBetween, List.filter_append, List.map_append, List.sum_append]
  rfl

theorem unitsBetween_cons {char : Nat × Char} {chars : List (Nat × Char)} :
    unitsBetween first last (char :: chars) =
      (if first ≤ char.1 ∧ char.1 < last then utf16Size char.2 else 0) +
        unitsBetween first last chars := by
  simp only [unitsBetween, List.filter_cons, Bool.and_eq_true, decide_eq_true_iff]
  split
  case isTrue => rw [List.map_cons, List.sum_cons]
  case isFalse => rw [Nat.zero_add]

end Offsets

/-- The offset behind a character of a text with some bytes, if a line starts there. A `\r` asks for
the byte behind it. -/
def lineStartBehind? (bytes : List UInt8) (index : Nat) (c : Char) : Option Nat :=
  if c == '\n' then some (index + 1)
  else if c == '\r' && bytes[index + 1]? != some 10 then some (index + 1)
  else if c == '\u2028' || c == '\u2029' then some (index + c.utf8Size)
  else none

/-- The offsets at which the lines of a text start, noted in one pass. -/
def lineStarts (source : List Char) : List Nat :=
  0 :: (charIndices 0 source).filterMap fun char =>
    lineStartBehind? (utf8 source) char.1 char.2

/-- The index of the line that an offset lies on, where the starts of the lines are given. -/
def lineIndex (starts : List Nat) (offset : Nat) : Nat :=
  match search (fun start => compare start offset) starts with
  | .ok line => line
  | .error next => next - 1

/-- The byte behind a `\r` is a `\n` if the character behind it is. -/
theorem head?_utf8_eq_some_iff (cs : List Char) :
    (utf8 cs).head? = some 10 ↔ cs.head? = some '\n' := by
  rw [List.head?_eq_some_iff, List.head?_eq_some_iff]
  constructor
  · rintro ⟨bytes, hBytes⟩
    exact @exists_eq_cons_of_utf8_eq_cons '\n' cs bytes (by decide) hBytes
  · rintro ⟨rest, rfl⟩
    exact ⟨utf8 rest, rfl⟩

theorem length_utf8 (cs : List Char) : (utf8 cs).length = byteLength cs := by
  induction cs with
  | nil => rfl
  | cons c cs ih =>
      rw [utf8_cons, List.length_append, String.length_utf8EncodeChar, ih, byteLength_cons]

/-- The bytes tell as much of a line end as the characters do. -/
theorem lineStartBehind?_eq (front : List Char) (c : Char) (cs : List Char) :
    lineStartBehind? (utf8 (front ++ c :: cs)) (byteLength front) c =
      if endsLine c cs then some (byteLength front + c.utf8Size) else none := by
  by_cases hNewline : c = '\n'
  · subst hNewline
    rfl
  by_cases hReturn : c = '\r'
  · subst hReturn
    have hNext : (utf8 (front ++ '\r' :: cs))[byteLength front + 1]? = (utf8 cs).head? := by
      have hSplit : utf8 (front ++ '\r' :: cs) = utf8 front ++ (13 :: utf8 cs) :=
        List.flatMap_append
      rw [hSplit, ← length_utf8, List.getElem?_append_right (Nat.le_add_right _ _),
        Nat.add_sub_cancel_left, List.getElem?_cons_succ, List.head?_eq_getElem?]
    have hEnds : endsLine '\r' cs = !(cs.head? == some '\n') := rfl
    have hSame : ((utf8 cs).head? == some 10) = (cs.head? == some '\n') := by
      rw [Bool.eq_iff_iff, beq_iff_eq, beq_iff_eq, head?_utf8_eq_some_iff]
    rw [lineStartBehind?, hNext, bne, hSame, hEnds]
    cases !(cs.head? == some '\n') <;> rfl
  · have hNewline := beq_eq_false_iff_ne.mpr hNewline
    have hReturn := beq_eq_false_iff_ne.mpr hReturn
    simp only [lineStartBehind?, endsLine, isLineTerminator, hNewline, hReturn,
      Bool.false_or, Bool.false_and, Bool.not_false, Bool.and_true, Bool.false_eq_true, if_false]

theorem filterMap_charIndices (front cs : List Char) :
    (charIndices (byteLength front) cs).filterMap (fun char =>
      lineStartBehind? (utf8 (front ++ cs)) char.1 char.2) = lineEnds (byteLength front) cs := by
  induction cs generalizing front with
  | nil => rfl
  | cons c cs ih =>
      have hLength : byteLength (front ++ [c]) = byteLength front + c.utf8Size := by
        rw [byteLength_append, byteLength_cons, byteLength_nil, Nat.add_zero]
      have hRest := ih (front ++ [c])
      rw [hLength, List.append_assoc, List.singleton_append] at hRest
      rw [charIndices, List.filterMap_cons, lineStartBehind?_eq, hRest, lineEnds_cons]
      split <;> simp_all

theorem lineStarts_eq (source : List Char) : lineStarts source = 0 :: lineEnds 0 source :=
  congrArg (0 :: ·) (filterMap_charIndices [] source)

theorem ascends_compare {starts : List Nat} (h : starts.Pairwise (· < ·)) (offset : Nat) :
    Ascends (fun start => compare start offset) starts := by
  refine h.imp fun {a b} hLess => ?_
  simp only [Nat.compare_eq_lt, Nat.compare_eq_gt]
  omega

/-- The line that an offset lies on is the last one that starts at or in front of it. -/
theorem lineIndex_spec {start : Nat} {starts : List Nat} {offset : Nat}
    (hSorted : (start :: starts).Pairwise (· < ·)) (hStart : start ≤ offset) :
    lineIndex (start :: starts) offset < (start :: starts).length ∧
      (start :: starts).filter (fun start => decide (start ≤ offset)) =
        (start :: starts).take (lineIndex (start :: starts) offset + 1) := by
  have hPairs := List.pairwise_iff_getElem.mp hSorted
  unfold lineIndex
  split
  case h_1 line hFound =>
    obtain ⟨hLine, hEqual⟩ := order_eq_of_search hFound
    rw [Nat.compare_eq_eq] at hEqual
    refine ⟨hLine, filter_eq_take (fun j hj hLe => decide_eq_true ?_)
      fun j hj hLess => decide_eq_false ?_⟩
    · rcases Nat.lt_or_eq_of_le (Nat.le_of_lt_succ hLe) with hFront | rfl
      · have := hPairs j line hj hLine hFront
        omega
      · exact Nat.le_of_eq hEqual
    · have := hPairs line j hLine hj hLess
      omega
  case h_2 next hMissed =>
    obtain ⟨hNext, hBefore, hBehind⟩ :=
      order_of_search_eq_error (ascends_compare hSorted offset) hMissed
    simp only [Nat.compare_eq_lt, Nat.compare_eq_gt] at hBefore hBehind
    -- the first line starts in front of every offset
    have hPos : next ≠ 0 := by
      rintro rfl
      have hFirst := hBehind 0 (Nat.succ_pos _) (Nat.le_refl _)
      exact Nat.not_lt.mpr hStart hFirst
    obtain ⟨line, rfl⟩ := Nat.exists_eq_add_one_of_ne_zero hPos
    refine ⟨hNext, filter_eq_take (fun j hj hLess => decide_eq_true ?_)
      fun j hj hLe => decide_eq_false ?_⟩
    · exact Nat.le_of_lt (hBefore j hj hLess)
    · exact Nat.not_le.mpr (hBehind j hj hLe)

/-- The lines that start at or in front of an offset, read off the table. -/
theorem lineIndex_lineStarts (source : List Char) (offset : Nat) :
    lineIndex (lineStarts source) offset = (lineEndsUpTo 0 offset source).length ∧
      (lineStarts source)[lineIndex (lineStarts source) offset]? =
        some (lastStart 0 (lineEndsUpTo 0 offset source)) := by
  have hSorted : (0 :: lineEnds 0 source).Pairwise (· < ·) :=
    List.pairwise_cons.mpr ⟨fun _ => lt_of_mem_lineEnds, pairwise_lineEnds 0 source⟩
  obtain ⟨hLess, hFilter⟩ := lineIndex_spec hSorted (Nat.zero_le offset)
  have hFirst : (0 :: lineEnds 0 source).filter (fun start => decide (start ≤ offset)) =
      0 :: lineEndsUpTo 0 offset source :=
    List.filter_cons_of_pos (decide_eq_true (Nat.zero_le offset))
  rw [hFirst] at hFilter
  rw [lineStarts_eq]
  generalize lineIndex (0 :: lineEnds 0 source) offset = line at hLess hFilter ⊢
  constructor
  · have hLength := congrArg List.length hFilter
    rw [List.length_cons, List.length_take_of_le hLess] at hLength
    exact (Nat.succ.inj hLength).symm
  · have hLast := congrArg List.getLast? hFilter
    rw [List.getLast?_cons, List.getLast?_take, if_neg (Nat.succ_ne_zero _), Nat.add_sub_cancel,
      List.getElem?_eq_getElem hLess, Option.some_or] at hLast
    rw [List.getElem?_eq_getElem hLess, ← hLast]
    rfl

/-- A line starts at the start of the text or behind a line end, so the text can be cut there. -/
theorem exists_eq_append_of_lastStart (last : Nat) (source : List Char) :
    ∃ front back, source = front ++ back ∧
      byteLength front = lastStart 0 (lineEndsUpTo 0 last source) := by
  unfold lastStart
  cases hLast : (lineEndsUpTo 0 last source).getLast? with
  | none => exact ⟨[], source, rfl, rfl⟩
  | some lineEnd =>
      have hMem := List.mem_of_mem_filter (List.mem_of_getLast? hLast)
      obtain ⟨front, back, hSource, hFront⟩ := exists_eq_append_of_mem_lineEnds hMem
      exact ⟨front, back, hSource, by rw [Option.getD_some, ← hFront, Nat.zero_add]⟩

/-- The width of a line up to an offset is that of the characters in front of the offset in the text
that starts with the line. -/
theorem unitsBetween_eq_sum_takeWhile (front back : List Char) (offset : Nat) :
    unitsBetween (byteLength front) offset (charIndices 0 (front ++ back)) =
      (((charIndices 0 back).takeWhile fun char => byteLength front + char.1 < offset).map
        fun char => utf16Size char.2).sum := by
  have hFront : unitsBetween (byteLength front) offset (charIndices 0 front) = 0 :=
    unitsBetween_eq_zero fun char hChar => .inr (by simpa using lt_of_mem_charIndices hChar)
  have hShift : charIndices (byteLength front) back =
      (charIndices 0 back).map fun char => (byteLength front + char.1, char.2) :=
    charIndices_add (byteLength front) 0 back
  have hFilter : (charIndices (byteLength front) back).filter
      (fun char => byteLength front ≤ char.1 && char.1 < offset) =
      (charIndices (byteLength front) back).takeWhile fun char => decide (char.1 < offset) := by
    rw [(parted_charIndices _ offset back).takeWhile_eq_filter]
    refine List.filter_congr fun char hChar => ?_
    rw [decide_eq_true (le_of_mem_charIndices hChar), Bool.true_and]
  rw [charIndices_append, unitsBetween_append, hFront, Nat.zero_add, Nat.zero_add, unitsBetween,
    hFilter, hShift, List.takeWhile_map, List.map_map]
  rfl

end Text

end EcmaLint
