import Mathlib.Data.List.Forall2
import Mathlib.Data.Nat.Digits.Defs
import EcmaLint.Proofs.Text.Boundary
import EcmaLint.Text.Escape

/-! Texts written out with escapes, and what is read back from them. A character may be written as it
is, by its code or by its code units, and a line may go on behind a backslash; the pieces stand one
behind the other in any mixture. Reading takes each piece as a whole, so it gives back what was
written, however it was written. -/
namespace EcmaLint.Text

/-- The hexadecimal digits by their values, in lower case and in upper case. -/
def hexTables : List (List Char) :=
  [['0', '1', '2', '3', '4', '5', '6', '7', '8', '9', 'a', 'b', 'c', 'd', 'e', 'f'],
   ['0', '1', '2', '3', '4', '5', '6', '7', '8', '9', 'A', 'B', 'C', 'D', 'E', 'F']]

/-- The character is a hexadecimal digit with a value, in either case. -/
def IsHexDigit (c : Char) (value : Nat) : Prop := ∃ table ∈ hexTables, table[value]? = some c

instance (c : Char) (value : Nat) : Decidable (IsHexDigit c value) :=
  inferInstanceAs (Decidable (∃ table ∈ hexTables, table[value]? = some c))

/-- The number in hexadecimal digits, the most significant one first. There may be zeros in front. -/
def IsHex (digits : List Char) (number : Nat) : Prop :=
  ∃ values, List.Forall₂ IsHexDigit digits values ∧ Nat.ofDigits 16 values.reverse = number

/-- The UTF-16 code units of a character. -/
def codeUnits (c : Char) : List Nat :=
  if c.toNat < 0x10000 then [c.toNat]
  else [0xD800 + (c.toNat - 0x10000) / 0x400, 0xDC00 + (c.toNat - 0x10000) % 0x400]

/-- How one character may be written. -/
inductive WritesChar (c : Char) : List Char → Prop
  | itself (hPlain : c ≠ '\\') : WritesChar c [c]
  | byte {digits : List Char} (hDigits : IsHex digits c.toNat) (hLength : digits.length = 2) :
      WritesChar c ('\\' :: 'x' :: digits)
  | code {digits : List Char} (hDigits : IsHex digits c.toNat) (hNonempty : digits ≠ []) :
      WritesChar c ('\\' :: 'u' :: '{' :: (digits ++ ['}']))
  | units {written : List (List Char)}
      (hUnits : List.Forall₂ (fun digits unit => digits.length = 4 ∧ IsHex digits unit) written
        (codeUnits c)) : WritesChar c (written.flatMap fun digits => '\\' :: 'u' :: digits)

/-- What breaks a line of a literal and stands for nothing. -/
def lineContinuations : List (List Char) :=
  [['\\', '\n'], ['\\', '\r', '\n'], ['\\', '\u2028'], ['\\', '\u2029']]

/-- How characters may be written, one behind the other. -/
inductive Writes : List Char → List Char → Prop
  | nil : Writes [] []
  | char {c : Char} {cs piece text : List Char} (hPiece : WritesChar c piece)
      (hRest : Writes cs text) : Writes (c :: cs) (piece ++ text)
  | continuation {cs piece text : List Char} (hPiece : piece ∈ lineContinuations)
      (hRest : Writes cs text) : Writes cs (piece ++ text)

section Digits

variable {c : Char} {value number : Nat} {digits rest : List Char}

/-- A digit is read as its value. -/
theorem hexDigit?_of_isHexDigit (h : IsHexDigit c value) : hexDigit? c = some value := by
  obtain ⟨table, hTable, hFound⟩ := h
  have hAll : ∀ table ∈ hexTables, ∀ entry ∈ table.zipIdx, hexDigit? entry.1 = some entry.2 := by
    decide
  exact hAll table hTable (c, value) (List.mem_zipIdx_iff_getElem?.mpr hFound)

theorem ne_of_isHexDigit {d : Char} (h : IsHexDigit c value) (hd : hexDigit? d = none) : c ≠ d := by
  rintro rfl
  rw [hexDigit?_of_isHexDigit h] at hd
  cases hd

theorem IsHex.ne_of_mem {d : Char} (h : IsHex digits number) (hd : hexDigit? d = none) :
    ∀ c ∈ digits, c ≠ d := by
  obtain ⟨values, hValues, -⟩ := h
  intro c hc
  induction hValues with
  | nil => cases hc
  | cons hDigit _ ih =>
      rcases List.mem_cons.mp hc with rfl | hLater
      · exact ne_of_isHexDigit hDigit hd
      · exact ih hLater

/-- Reading goes through digits with what it has read so far. -/
theorem hexDigits?_eq {values : List Nat} (h : List.Forall₂ IsHexDigit digits values)
    (before : Nat) : hexDigits? before digits =
      some (before * 16 ^ values.length + Nat.ofDigits 16 values.reverse) := by
  induction h generalizing before with
  | nil => simp [hexDigits?]
  | @cons c value digits values hDigit _ ih =>
      rw [hexDigits?, hexDigit?_of_isHexDigit hDigit, Option.bind_eq_bind, Option.bind_some, ih,
        List.reverse_cons, Nat.ofDigits_append, Nat.ofDigits_singleton, List.length_reverse,
        List.length_cons, pow_succ]
      congr 1
      ring

/-- A number that fits is read off its digits. -/
theorem hexNumber?_of_isHex (h : IsHex digits number) (hNonempty : digits ≠ [])
    (hFits : number < 2 ^ 32) : hexNumber? digits = some number := by
  have hSign : digits.head? ≠ some '+' := fun hHead =>
    h.ne_of_mem (by decide) '+' (List.mem_of_mem_head? hHead) rfl
  obtain ⟨values, hValues, rfl⟩ := h
  have hRead := hexDigits?_eq hValues 0
  rw [Nat.zero_mul, Nat.zero_add] at hRead
  have hEmpty : digits.isEmpty = false := List.isEmpty_eq_false_iff.mpr hNonempty
  simp only [hexNumber?, beq_eq_false_iff_ne.mpr hSign, Bool.false_eq_true, if_false, hEmpty, hRead]
  exact Option.filter_some_pos (by simpa using hFits)

end Digits

section Codes

variable {c : Char} {rest : List Char}

/-- No character has the code of a surrogate. -/
theorem toNat_cases (c : Char) : c.toNat < 0xD800 ∨ 0xE000 ≤ c.toNat ∧ c.toNat < 0x110000 := by
  rcases c.valid with h | ⟨hLow, hHigh⟩
  · exact .inl h
  · exact .inr ⟨hLow, hHigh⟩

theorem scalar_toNat (c : Char) : scalar c.toNat = c := by
  have hCode := toNat_cases c
  rw [scalar, if_pos, Char.ofNat_toNat]
  simp only [Bool.or_eq_true, Bool.and_eq_true, decide_eq_true_eq]
  omega

/-- The code of a character is that character, whatever stands behind. -/
theorem codeUnit_toNat (c : Char) (rest : List Char) : codeUnit (some c.toNat) rest = (c, 0) := by
  have hCode := toNat_cases c
  have hSurrogate : isHighSurrogate c.toNat = false := by
    simp only [isHighSurrogate, Bool.and_eq_false_iff, decide_eq_false_iff_not]
    omega
  simp only [codeUnit, hSurrogate, Bool.false_eq_true, if_false, scalar_toNat]

/-- The first code unit of a pair takes the second one along. -/
theorem codeUnit_pair {digits : List Char} {high low : Nat} (hHigh : isHighSurrogate high = true)
    (hLow : isLowSurrogate low = true) (hDigits : IsHex digits low) (hLength : digits.length = 4)
    (hJoined : 0x10000 + (high - 0xD800) * 0x400 + (low - 0xDC00) = c.toNat) :
    codeUnit (some high) ('\\' :: 'u' :: (digits ++ rest)) = (c, 6) := by
  have hFits : low < 2 ^ 32 := by
    simp only [isLowSurrogate, Bool.and_eq_true, decide_eq_true_eq] at hLow
    omega
  have hNonempty : digits ≠ [] := List.ne_nil_of_length_eq_add_one hLength
  have hRead : lowSurrogate? ('\\' :: 'u' :: (digits ++ rest)) = some low := by
    rw [lowSurrogate?, ← hLength, List.take_left, hexNumber?_of_isHex hDigits hNonempty hFits]
    exact Option.filter_some_pos hLow
  simp only [codeUnit, hHigh, if_true, hRead, hJoined, scalar_toNat]

/-- A character is one code unit, or a high surrogate and a low one. -/
theorem codeUnits_cases (c : Char) : codeUnits c = [c.toNat] ∨
    ∃ high low, codeUnits c = [high, low] ∧ isHighSurrogate high = true ∧
      isLowSurrogate low = true ∧ 0x10000 + (high - 0xD800) * 0x400 + (low - 0xDC00) = c.toNat := by
  have hCode := toNat_cases c
  unfold codeUnits
  split
  case isTrue => exact .inl rfl
  case isFalse =>
    refine .inr ⟨_, _, rfl, ?_, ?_, by omega⟩
    · simp only [isHighSurrogate, Bool.and_eq_true, decide_eq_true_eq]
      omega
    · simp only [isLowSurrogate, Bool.and_eq_true, decide_eq_true_eq]
      omega

end Codes

section Pieces

variable {c : Char} {digits rest : List Char}

/-- What a backslash starts is read as a whole. -/
theorem unescape_backslash {body decoded : List Char}
    (h : escape (body ++ rest) = (decoded, body.length)) :
    unescape ('\\' :: (body ++ rest)) = decoded ++ unescape rest := by
  rw [unescape, if_pos rfl, h]
  dsimp only
  rw [List.drop_left]

theorem escape_byte (hDigits : IsHex digits c.toNat) (hLength : digits.length = 2) :
    escape ('x' :: digits ++ rest) = ([c], digits.length + 1) := by
  have hCode := toNat_cases c
  have hNonempty : digits ≠ [] := List.ne_nil_of_length_eq_add_one hLength
  rw [List.cons_append, escape, ← hLength, List.take_left, List.drop_left]
  dsimp only
  rw [hexNumber?_of_isHex hDigits hNonempty (by omega), codeUnit_toNat, Nat.add_comm 1]
  rfl

theorem escape_code (hDigits : IsHex digits c.toNat) (hNonempty : digits ≠ []) :
    escape ('u' :: '{' :: (digits ++ ['}']) ++ rest) = ([c], digits.length + 3) := by
  have hCode := toNat_cases c
  have hTake : (digits ++ '}' :: rest).takeWhile (· != '}') = digits := by
    rw [List.takeWhile_append_of_pos, List.takeWhile_cons_of_neg (by simp), List.append_nil]
    intro d hd
    simpa using hDigits.ne_of_mem (by decide) d hd
  rw [List.cons_append, List.cons_append, List.append_assoc, List.singleton_append, escape]
  dsimp only
  rw [hTake, hexNumber?_of_isHex hDigits hNonempty (by omega), codeUnit_toNat, Nat.add_comm 3]
  rfl

/-- Four digits behind `\u` are one code unit. -/
theorem escape_unit {unit : Nat} (hDigits : IsHex digits unit) (hLength : digits.length = 4)
    (hFits : unit < 2 ^ 32) : escape ('u' :: digits ++ rest) =
      ([(codeUnit (some unit) rest).1], digits.length + 1 + (codeUnit (some unit) rest).2) := by
  have hNonempty : digits ≠ [] := List.ne_nil_of_length_eq_add_one hLength
  have hNumber := hexNumber?_of_isHex hDigits hNonempty hFits
  have hBrace := hDigits.ne_of_mem (show hexDigit? '{' = none by decide)
  obtain ⟨d, more, rfl⟩ := List.exists_cons_of_ne_nil hNonempty
  rw [List.cons_append, escape, ← hLength, List.take_left, List.drop_left]
  · dsimp only
    rw [hNumber, Nat.add_comm 1]
  · rintro others hEq
    exact hBrace d List.mem_cons_self (List.cons.inj hEq).1

theorem unescape_units {written : List (List Char)}
    (h : List.Forall₂ (fun digits unit => digits.length = 4 ∧ IsHex digits unit) written
      (codeUnits c)) :
    unescape ((written.flatMap fun digits => '\\' :: 'u' :: digits) ++ rest) =
      c :: unescape rest := by
  have hCode := toNat_cases c
  rcases codeUnits_cases c with hUnits | ⟨first, second, hUnits, hFirst, hSecond, hJoined⟩
  · rw [hUnits] at h
    obtain ⟨digits, ⟨hLength, hDigits⟩, rfl⟩ : ∃ digits, (digits.length = 4 ∧
        IsHex digits c.toNat) ∧ written = [digits] := by
      cases h with
      | cons hOnly hNone => cases hNone with | nil => exact ⟨_, hOnly, rfl⟩
    rw [List.flatMap_singleton, List.cons_append]
    refine @unescape_backslash rest ('u' :: digits) [c] ?_
    rw [escape_unit hDigits hLength (by omega), codeUnit_toNat]
    rfl
  · rw [hUnits] at h
    obtain ⟨high, low, ⟨hHighLength, hHigh⟩, ⟨hLowLength, hLow⟩, rfl⟩ : ∃ high low : List Char,
        (high.length = 4 ∧ IsHex high first) ∧ (low.length = 4 ∧ IsHex low second) ∧
        written = [high, low] := by
      cases h with
      | cons hHigh hMore =>
        cases hMore with
        | cons hLow hNone => cases hNone with | nil => exact ⟨_, _, hHigh, hLow, rfl⟩
    have hFits : first < 2 ^ 32 := by
      simp only [isHighSurrogate, Bool.and_eq_true, decide_eq_true_eq] at hFirst
      omega
    have hUnit := @escape_unit high ('\\' :: 'u' :: (low ++ rest)) _ hHigh hHighLength hFits
    rw [codeUnit_pair hFirst hSecond hLow hLowLength hJoined] at hUnit
    have hText : ([high, low].flatMap fun digits => '\\' :: 'u' :: digits) ++ rest =
        '\\' :: ('u' :: (high ++ '\\' :: 'u' :: low) ++ rest) := by
      simp
    have hBody : 'u' :: (high ++ '\\' :: 'u' :: low) ++ rest =
        'u' :: high ++ '\\' :: 'u' :: (low ++ rest) := by
      simp
    rw [hText]
    refine @unescape_backslash rest _ [c] ?_
    rw [hBody, hUnit]
    simp [hHighLength, hLowLength]

/-- A character is read off any of its forms. -/
theorem unescape_char {piece : List Char} (h : WritesChar c piece) :
    unescape (piece ++ rest) = c :: unescape rest := by
  cases h with
  | itself hPlain => rw [List.singleton_append, unescape, if_neg hPlain]
  | byte hDigits hLength =>
      rw [List.cons_append]
      exact unescape_backslash (escape_byte hDigits hLength)
  | code hDigits hNonempty =>
      rw [List.cons_append]
      refine @unescape_backslash rest _ [c] ((escape_code hDigits hNonempty).trans ?_)
      simp
  | units hUnits => exact unescape_units hUnits

/-- A line that goes on stands for nothing. -/
theorem unescape_continuation {piece : List Char} (h : piece ∈ lineContinuations) :
    unescape (piece ++ rest) = unescape rest := by
  simp only [lineContinuations, List.mem_cons, List.not_mem_nil, or_false] at h
  rcases h with rfl | rfl | rfl | rfl
  · exact @unescape_backslash rest ['\n'] [] rfl
  · exact @unescape_backslash rest ['\r', '\n'] [] rfl
  · exact @unescape_backslash rest ['\u2028'] [] rfl
  · exact @unescape_backslash rest ['\u2029'] [] rfl

end Pieces

/-- What was written out is read back. -/
theorem unescape_of_writes {cs text : List Char} (h : Writes cs text) : unescape text = cs := by
  induction h with
  | nil => rw [unescape]
  | char hPiece _ ih => rw [unescape_char hPiece, ih]
  | continuation hPiece _ ih => rw [unescape_continuation hPiece, ih]

-- the digit behind the pair and the letter behind the last code could be taken for more of them
theorem unescape_of_writes_mixed :
    Writes ['A', '😀', '4', '\n', 'n'] "\\x41\\uD83D\\ude004\\\r\n\\u\x7b00000000a\x7d\\u006e".toList ∧
      unescape "\\x41\\uD83D\\ude004\\\r\n\\u\x7b00000000a\x7d\\u006e".toList =
        ['A', '😀', '4', '\n', 'n'] := by
  have hByte : WritesChar 'A' ['\\', 'x', '4', '1'] := .byte ⟨[4, 1], by decide, rfl⟩ rfl
  have hPair : WritesChar '😀' ['\\', 'u', 'D', '8', '3', 'D', '\\', 'u', 'd', 'e', '0', '0'] :=
    @WritesChar.units '😀' [['D', '8', '3', 'D'], ['d', 'e', '0', '0']]
      (.cons ⟨rfl, [13, 8, 3, 13], by decide, rfl⟩
        (.cons ⟨rfl, [13, 14, 0, 0], by decide, rfl⟩ .nil))
  have hPlain : WritesChar '4' ['4'] := .itself (by decide)
  have hLine : ['\\', '\r', '\n'] ∈ lineContinuations := by decide
  have hCode : WritesChar '\n' ('\\' :: 'u' :: '{' :: (List.replicate 8 '0' ++ ['a'] ++ ['}'])) :=
    .code ⟨[0, 0, 0, 0, 0, 0, 0, 0, 10], by decide, rfl⟩ (by decide)
  have hUnit : WritesChar 'n' ['\\', 'u', '0', '0', '6', 'e'] :=
    @WritesChar.units 'n' [['0', '0', '6', 'e']] (.cons ⟨rfl, [0, 0, 6, 14], by decide, rfl⟩ .nil)
  have hWrites : Writes ['A', '😀', '4', '\n', 'n']
      "\\x41\\uD83D\\ude004\\\r\n\\u\x7b00000000a\x7d\\u006e".toList :=
    .char hByte (.char hPair (.char hPlain (.continuation hLine (.char hCode (.char hUnit .nil)))))
  exact ⟨hWrites, unescape_of_writes hWrites⟩

end EcmaLint.Text
