import EcmaLint.Proofs.Token.Lengths

/-! How far a piece looks ahead. A piece whose end is a delimiter does not look behind it, and a
piece that goes on as long as it can stops at the first character that nothing goes on with. So it
does not matter what stands behind such a place. -/
namespace EcmaLint.Lexer

/-- Characters, beyond those of words, with which a number or a punctuator may go on. -/
def continuations : List Char := ['.', '+', '-', '=', '<', '>', '*', '&', '|', '?']

/-- No word, number or punctuator goes on with the character. -/
def isSolid (c : Char) : Bool := !Text.isWordPart c && !continuations.contains c

/-- The text is empty or starts with a solid character. -/
def Halts (cs : List Char) : Prop := ∀ c ∈ cs.head?, isSolid c = true

/-- The text is empty or a line ends where it starts. -/
def EndsLine (cs : List Char) : Prop := ∀ c ∈ cs.head?, Text.isLineTerminator c = true

theorem isWordPart_of_isSolid {c : Char} (h : isSolid c = true) : Text.isWordPart c = false := by
  simp only [isSolid, Bool.and_eq_true, Bool.not_eq_true'] at h
  exact h.1

theorem ne_of_isSolid {c d : Char} (h : isSolid c = true) (hd : isSolid d = false) : c ≠ d := by
  rintro rfl
  simp [h] at hd

theorem isWordPart_of_isAlpha {c : Char} (h : c.isAlpha = true) : Text.isWordPart c = true := by
  simp [Text.isWordPart, Text.isWordStart, h]

theorem isWordPart_of_isDigit {c : Char} (h : c.isDigit = true) : Text.isWordPart c = true := by
  simp [Text.isWordPart, h]

theorem isSolid_of_isLineTerminator {c : Char} (h : Text.isLineTerminator c = true) :
    isSolid c = true := by
  simp only [Text.isLineTerminator, Bool.or_eq_true, beq_iff_eq] at h
  rcases h with ((rfl | rfl) | rfl) | rfl <;> decide

theorem EndsLine.halts {cs : List Char} (h : EndsLine cs) : Halts cs :=
  fun c hc => isSolid_of_isLineTerminator (h c hc)

/-- The number of characters of a fraction with its point. -/
def pointLength (cs : List Char) : Nat :=
  match cs with
  | '.' :: rest => 1 + digitsLength Char.isDigit rest
  | _ => 0

theorem pointLength_le (cs : List Char) : pointLength cs ≤ cs.length := by
  unfold pointLength
  split
  case h_1 rest =>
    have hRest := digitsLength_le Char.isDigit rest
    rw [List.length_cons]
    omega
  case h_2 => exact Nat.zero_le _

/-- The number of characters of a number of which the given ones stand before its exponent. -/
def tailLength (mantissa : Nat) (cs : List Char) : Nat :=
  mantissa + exponentLength (cs.drop mantissa) +
    suffixLength (cs.drop (mantissa + exponentLength (cs.drop mantissa)))

theorem decimalLength_eq (cs : List Char) : decimalLength cs =
    tailLength (digitsLength Char.isDigit cs +
      pointLength (cs.drop (digitsLength Char.isDigit cs))) cs := rfl

theorem isAlphanum_of_le {c low high : Char} (hLow : low ≤ c) (hHigh : c ≤ high)
    (h : 48 ≤ low.toNat ∧ high.toNat ≤ 57 ∨ 65 ≤ low.toNat ∧ high.toNat ≤ 90 ∨
      97 ≤ low.toNat ∧ high.toNat ≤ 122) : c.isAlphanum = true := by
  have hLow' : low.toNat ≤ c.toNat := hLow
  have hHigh' : c.toNat ≤ high.toNat := hHigh
  refine Bool.or_eq_true_iff.mpr ?_
  rw [Text.isAlpha_iff_toNat, Char.isDigit_iff_toNat]
  change (65 ≤ c.toNat ∧ c.toNat ≤ 90 ∨ 97 ≤ c.toNat ∧ c.toNat ≤ 122) ∨
    48 ≤ c.toNat ∧ c.toNat ≤ 57
  omega

theorem isWordPart_of_isAlphanum {c : Char} (h : c.isAlphanum = true) :
    Text.isWordPart c = true := by
  rcases Bool.or_eq_true_iff.mp h with h | h <;> simp [Text.isWordPart, Text.isWordStart, h]

/-- The digits of a radix are letters and digits. -/
theorem isWordPart_of_radixDigits? {letter : Char} {isDigit : Char → Bool}
    (h : radixDigits? letter = some isDigit) :
    Text.isWordPart letter = true ∧ isDigit '_' = false ∧
      ∀ c, isDigit c = true → Text.isWordPart c = true := by
  have hLetter : ∀ {first second : Char}, Text.isWordPart first = true →
      Text.isWordPart second = true → (letter == first || letter == second) = true →
      Text.isWordPart letter = true := by
    intro first second hFirst hSecond hEq
    rcases Bool.or_eq_true_iff.mp hEq with hEq | hEq <;> rwa [beq_iff_eq.mp hEq]
  unfold radixDigits? at h
  split at h
  case isTrue hHex =>
    cases h
    refine ⟨hLetter (by decide) (by decide) hHex, by decide, fun c hc => ?_⟩
    apply isWordPart_of_isAlphanum
    simp only [isHexDigit, Bool.or_eq_true, Bool.and_eq_true, decide_eq_true_eq] at hc
    rcases hc with (hDigit | ⟨hLow, hHigh⟩) | ⟨hLow, hHigh⟩
    · simp [Char.isAlphanum, hDigit]
    · exact isAlphanum_of_le hLow hHigh (by decide)
    · exact isAlphanum_of_le hLow hHigh (by decide)
  split at h
  case isTrue hOctal =>
    cases h
    refine ⟨hLetter (by decide) (by decide) hOctal, by decide, fun c hc => ?_⟩
    simp only [Bool.and_eq_true, decide_eq_true_eq] at hc
    exact isWordPart_of_isAlphanum (isAlphanum_of_le hc.1 hc.2 (by decide))
  split at h
  case isTrue hBinary =>
    cases h
    refine ⟨hLetter (by decide) (by decide) hBinary, by decide, fun c hc => ?_⟩
    rcases Bool.or_eq_true_iff.mp hc with hc | hc <;> rw [beq_iff_eq.mp hc] <;> decide
  · cases h
theorem numberLength_eq_decimalLength {cs : List Char}
    (h : ∀ letter rest, cs = '0' :: letter :: rest → radixDigits? letter = none) :
    numberLength cs = decimalLength cs := by
  unfold numberLength
  split
  case h_1 letter rest => rw [h letter rest rfl]
  case h_2 => rfl

namespace Halts

variable {cs back other : List Char} {test : Char → Bool}

theorem nil : Halts [] := by simp [Halts]

theorem isSolid_of_cons {c : Char} (h : Halts (c :: cs)) : isSolid c = true := h c rfl

theorem head?_append_eq_some_iff (h : Halts back) {c : Char} (hc : isSolid c = false) :
    (cs ++ back).head? = some c ↔ cs.head? = some c := by
  cases cs with
  | nil =>
      refine iff_of_false (fun hHead => ?_) (by simp)
      exact absurd (h c hHead) (by simp [hc])
  | cons d cs => simp

/-- A stretch of characters that are not solid does not go on behind its text. -/
theorem takeWhile_append (h : Halts back) (hTest : ∀ c, isSolid c = true → test c = false) :
    (cs ++ back).takeWhile test = cs.takeWhile test := by
  have hBack : back.takeWhile test = [] := by
    cases back with
    | nil => rfl
    | cons c back => exact List.takeWhile_cons_of_neg (by simp [hTest c h.isSolid_of_cons])
  rw [List.takeWhile_append, hBack]
  split
  case isTrue hAll =>
    rw [List.append_nil]
    exact ((List.takeWhile_prefix test).eq_of_length hAll).symm
  case isFalse => rfl

theorem wordLength_append (h : Halts back) : wordLength (cs ++ back) = wordLength cs :=
  congrArg List.length (h.takeWhile_append fun _ => isWordPart_of_isSolid)

theorem digitsLength_eq_zero {isDigit : Char → Bool}
    (h : ∀ c ∈ cs.head?, isDigit c = false) : digitsLength isDigit cs = 0 := by
  unfold digitsLength
  split <;> simp_all

/-- The digits of a number end with its text. -/
theorem digitsLength_append (h : Halts back) {isDigit : Char → Bool}
    (hDigit : ∀ c, isDigit c = true → Text.isWordPart c = true)
    (hUnderscore : isDigit '_' = false) :
    digitsLength isDigit (cs ++ back) = digitsLength isDigit cs := by
  have hHead : ∀ c, isSolid c = true → isDigit c = false := fun c hc =>
    Bool.eq_false_iff.mpr fun hYes => by simpa [isWordPart_of_isSolid hc] using hDigit c hYes
  have hBack : digitsLength isDigit back = 0 :=
    digitsLength_eq_zero fun c hc => hHead c (h c hc)
  have hNot : ∀ rest, back ≠ '_' :: rest := by
    rintro rest rfl
    exact absurd h.isSolid_of_cons (by decide)
  fun_induction digitsLength isDigit cs
  case case1 => exact hBack
  case case2 c hc =>
    cases back with
    | nil => simp [digitsLength, hc]
    | cons d back =>
        rw [List.singleton_append, digitsLength]
        · simp [hc, hBack]
        · simp
        · rintro e rest hEq
          exact hNot _ hEq
  case case3 | case6 | case8 => exact digitsLength_eq_zero (by simp_all)
  case case4 hc hd ih => simpa [digitsLength, hc, hd] using ih
  case case5 hc hd => simp [digitsLength, hc, hd]
  case case7 c cs hNil hSeparator hc ih =>
    -- an underscore at the end of the text is followed by no digit
    by_cases hLast : cs = ['_']
    · subst hLast
      cases back with
      | nil => simp [digitsLength, hc]
      | cons d back => simp [digitsLength, hc, hHead d h.isSolid_of_cons, hUnderscore]
    · rw [List.cons_append, digitsLength, if_pos hc, ih]
      · exact fun hEmpty => hNil (List.append_eq_nil_iff.mp hEmpty).1
      · intro d rest hEq
        obtain ⟨first, tail, rfl⟩ := List.exists_cons_of_ne_nil hNil
        cases tail with
        | nil => exact hLast (by simpa using (List.cons.inj hEq).1)
        | cons second tail =>
            obtain ⟨rfl, rfl, -⟩ : first = '_' ∧ second = d ∧ tail ++ back = rest := by
              simpa using hEq
            exact hSeparator _ _ rfl

theorem decimalDigits_append (h : Halts back) :
    digitsLength Char.isDigit (cs ++ back) = digitsLength Char.isDigit cs :=
  h.digitsLength_append (fun _ => isWordPart_of_isDigit) (by decide)

theorem suffixLength_append (h : Halts back) : suffixLength (cs ++ back) = suffixLength cs := by
  unfold suffixLength
  simp only [beq_iff_eq, h.head?_append_eq_some_iff (show isSolid 'n' = false by decide)]

theorem exponentLength_append (h : Halts back) :
    exponentLength (cs ++ back) = exponentLength cs := by
  cases cs with
  | nil =>
      unfold exponentLength
      cases back with
      | nil => rfl
      | cons c back =>
          have hc := h.isSolid_of_cons
          have hLower := ne_of_isSolid hc (show isSolid 'e' = false by decide)
          have hUpper := ne_of_isSolid hc (show isSolid 'E' = false by decide)
          simp [hLower, hUpper]
  | cons e cs =>
      rw [List.cons_append, exponentLength, exponentLength]
      have hPlus : (cs ++ back).head? = some '+' ↔ cs.head? = some '+' :=
        h.head?_append_eq_some_iff (by decide)
      have hMinus : (cs ++ back).head? = some '-' ↔ cs.head? = some '-' :=
        h.head?_append_eq_some_iff (by decide)
      simp only [beq_iff_eq, Bool.or_eq_true, hPlus, hMinus]
      have hSign : (if cs.head? = some '+' ∨ cs.head? = some '-' then 1 else 0) ≤ cs.length := by
        split
        · cases cs <;> simp_all
        · exact Nat.zero_le _
      rw [List.drop_append_of_le_length hSign, h.decimalDigits_append]

theorem tailLength_append (h : Halts back) {mantissa : Nat} (hLe : mantissa ≤ cs.length) :
    tailLength mantissa (cs ++ back) = tailLength mantissa cs := by
  have hExponent := exponentLength_le (cs.drop mantissa)
  rw [List.length_drop] at hExponent
  rw [tailLength, tailLength, List.drop_append_of_le_length hLe, h.exponentLength_append,
    List.drop_append_of_le_length (by omega), h.suffixLength_append]

theorem pointLength_append (h : Halts back) : pointLength (cs ++ back) = pointLength cs := by
  cases cs with
  | nil =>
      cases back with
      | nil => rfl
      | cons c back =>
          have hc := ne_of_isSolid h.isSolid_of_cons (show isSolid '.' = false by decide)
          simp [pointLength, hc]
  | cons c cs =>
      by_cases hc : c = '.'
      · subst hc
        simp [pointLength, h.decimalDigits_append]
      · simp [pointLength, hc]

theorem decimalLength_append (h : Halts back) : decimalLength (cs ++ back) = decimalLength cs := by
  have hWhole := digitsLength_le Char.isDigit cs
  have hPoint := pointLength_le (cs.drop (digitsLength Char.isDigit cs))
  rw [List.length_drop] at hPoint
  rw [decimalLength_eq, decimalLength_eq, h.decimalDigits_append,
    List.drop_append_of_le_length hWhole, h.pointLength_append]
  have hMantissa : digitsLength Char.isDigit cs +
      pointLength (cs.drop (digitsLength Char.isDigit cs)) ≤ cs.length := by
    omega
  exact h.tailLength_append hMantissa

theorem numberLength_append (h : Halts back) : numberLength (cs ++ back) = numberLength cs := by
  have hDecimal := @h.decimalLength_append cs
  by_cases hZero : ∃ letter rest, cs = '0' :: letter :: rest
  · obtain ⟨letter, rest, rfl⟩ := hZero
    rw [List.cons_append, List.cons_append, numberLength, numberLength]
    cases hRadix : radixDigits? letter with
    | none => exact hDecimal
    | some isDigit =>
        obtain ⟨-, hUnderscore, hDigit⟩ := isWordPart_of_radixDigits? hRadix
        have hDigits := digitsLength_le isDigit rest
        dsimp only
        rw [h.digitsLength_append hDigit hUnderscore, List.drop_append_of_le_length hDigits,
          h.suffixLength_append]
        rw [List.cons_append, List.cons_append] at hDecimal
        rw [hDecimal]
  · have hShort : numberLength cs = decimalLength cs :=
      numberLength_eq_decimalLength fun letter rest hEq => absurd ⟨letter, rest, hEq⟩ hZero
    have hLong : numberLength (cs ++ back) = decimalLength (cs ++ back) := by
      refine numberLength_eq_decimalLength fun letter rest hEq => ?_
      have hLetter : letter ∈ back.head? := by
        cases cs with
        | nil => exact absurd (h '0' (by rw [← List.nil_append back, hEq]; rfl)) (by decide)
        | cons c cs =>
            obtain ⟨rfl, hRest⟩ := List.cons.inj hEq
            cases cs with
            | nil => rw [show back = letter :: rest from hRest]; rfl
            | cons d cs => exact absurd ⟨d, cs, rfl⟩ hZero
      refine Option.eq_none_iff_forall_ne_some.mpr fun isDigit hRadix => ?_
      simpa [isWordPart_of_isSolid (h letter hLetter)] using
        (isWordPart_of_radixDigits? hRadix).1
    rw [hLong, hShort, hDecimal]

theorem fractionLength_append (h : Halts back) (hNonempty : cs ≠ []) :
    fractionLength (cs ++ back) = fractionLength cs := by
  obtain ⟨c, cs, rfl⟩ := List.exists_cons_of_ne_nil hNonempty
  have hDigits := digitsLength_le Char.isDigit cs
  rw [fractionLength, fractionLength]
  simp only [List.cons_append, List.drop_succ_cons, List.drop_zero, h.decimalDigits_append]
  rw [Nat.add_comm 1, List.drop_succ_cons, List.drop_succ_cons,
    List.drop_append_of_le_length hDigits, h.exponentLength_append]

/-- A punctuator has no solid character behind its first one. -/
theorem isSolid_eq_false_of_mem_punctuators : ∀ text ∈ punctuators,
    ∀ c ∈ text.toList.tail, isSolid c = false := by
  have hAll : (punctuators.all fun text => text.toList.tail.all fun c => !isSolid c) = true := by
    decide +kernel
  simpa only [List.all_eq_true, Bool.not_eq_true'] using hAll

/-- A punctuator that starts a text does not reach behind it. -/
theorem isPrefixOf_append (h : Halts back) (hNonempty : cs ≠ []) {text : String}
    (hText : text ∈ punctuators) :
    text.toList.isPrefixOf (cs ++ back) = text.toList.isPrefixOf cs := by
  have hTail := isSolid_eq_false_of_mem_punctuators text hText
  generalize text.toList = wanted at hTail
  cases wanted with
  | nil => rfl
  | cons first wanted =>
      obtain ⟨c, cs, rfl⟩ := List.exists_cons_of_ne_nil hNonempty
      rw [List.tail_cons] at hTail
      rw [List.cons_append, List.isPrefixOf_cons_cons, List.isPrefixOf_cons_cons]
      congr 1
      clear hNonempty
      induction wanted generalizing cs with
      | nil => rfl
      | cons second wanted ih =>
          obtain ⟨hSecond, hWanted⟩ := List.forall_mem_cons.mp hTail
          cases cs with
          | nil =>
              cases back with
              | nil => rfl
              | cons d back =>
                  have hd := ne_of_isSolid h.isSolid_of_cons hSecond
                  simp [List.isPrefixOf, Ne.symm hd]
          | cons d cs =>
              rw [List.cons_append, List.isPrefixOf_cons_cons, List.isPrefixOf_cons_cons, ih hWanted]

theorem punctuatorLength?_append (h : Halts back) (hNonempty : cs ≠ []) :
    punctuatorLength? (cs ++ back) = punctuatorLength? cs := by
  unfold punctuatorLength?
  congr 1
  have hSame : ∀ texts : List String, (∀ text ∈ texts, text ∈ punctuators) →
      texts.find? (fun text => text.toList.isPrefixOf (cs ++ back)) =
        texts.find? fun text => text.toList.isPrefixOf cs := by
    intro texts hTexts
    induction texts with
    | nil => rfl
    | cons text texts ih =>
        obtain ⟨hText, hRest⟩ := List.forall_mem_cons.mp hTexts
        rw [List.find?_cons, List.find?_cons, h.isPrefixOf_append hNonempty hText, ih hRest]
  exact hSame punctuators fun _ hText => hText

end Halts

variable {cs : List Char} {n : Nat}

/-- A length that is not zero leaves the first character where it is. -/
theorem head?_take_append (h : 0 < n) (hLe : n ≤ cs.length) (more : List Char) :
    (cs.take n ++ more).head? = cs.head? := by
  cases cs with
  | nil => simp at hLe; omega
  | cons c cs =>
      obtain ⟨m, rfl⟩ : ∃ m, n = m + 1 := ⟨n - 1, by omega⟩
      rfl

theorem blockCommentLength?_take (h : blockCommentLength? cs = some n) (more : List Char) :
    blockCommentLength? (cs.take n ++ more) = some n := by
  fun_induction blockCommentLength? cs generalizing n with
  | case1 cs =>
      cases h
      rfl
  | case2 c cs hNot ih =>
      obtain ⟨m, hm, rfl⟩ := Option.map_eq_some_iff.mp h
      have hPos : 0 < m := by
        obtain ⟨body, hBody⟩ := take_blockCommentLength? hm
        refine Nat.pos_of_ne_zero fun hZero => ?_
        simp [hZero] at hBody
      rw [List.take_succ_cons, List.cons_append, blockCommentLength?, ih hm, Option.map_some]
      rintro rest rfl hRest
      have hHead := head?_take_append hPos (blockCommentLength?_le hm) more
      rw [hRest] at hHead
      obtain ⟨tail, rfl⟩ := List.head?_eq_some_iff.mp hHead.symm
      exact hNot tail rfl rfl
  | case3 => cases h

theorem stringLength?_take {quote : Char} (hEscape : quote ≠ '\\')
    (h : stringLength? quote cs = some n) (more : List Char) : stringLength? quote (cs.take n ++ more) = some n := by
  fun_induction stringLength? quote cs generalizing n with
  | case1 => cases h
  | case2 cs ih =>
      obtain ⟨m, hm, rfl⟩ := Option.map_eq_some_iff.mp h
      simp only [List.take_succ_cons, List.cons_append, stringLength?, ih hm, Option.map_some]
  | case3 c cs hNot ih =>
      obtain ⟨m, hm, rfl⟩ := Option.map_eq_some_iff.mp h
      obtain ⟨body, back, hBody, hLength⟩ := exists_of_stringLength? hm
      have hPos : 0 < m := by simp [hLength]
      have hLe : m ≤ cs.length := by simp [hBody, hLength]
      simp only [List.take_succ_cons, List.cons_append]
      rw [stringLength?, ih hm, Option.map_some]
      rintro rest rfl hRest
      have hHead := head?_take_append hPos hLe more
      rw [hRest] at hHead
      obtain ⟨tail, rfl⟩ := List.head?_eq_some_iff.mp hHead.symm
      exact hNot tail rfl rfl
  | case4 c cs _ _ hQuote =>
      cases h
      obtain rfl : c = quote := by simpa using hQuote
      rw [List.take_succ_cons, List.take_zero, List.singleton_append, stringLength?, if_pos hQuote]
      · exact fun _ hc _ => hEscape hc
      · exact fun _ _ hc _ => hEscape hc
  | case5 => cases h
  | case6 c cs _ _ hQuote hPlain ih =>
      obtain ⟨m, hm, rfl⟩ := Option.map_eq_some_iff.mp h
      rw [List.take_succ_cons, List.cons_append, stringLength?, if_neg hQuote, if_neg hPlain, ih hm,
        Option.map_some]
      · rintro _ rfl
        simp at hPlain
      · rintro _ _ rfl
        simp at hPlain

theorem templateLength?_take {opens : Bool} (h : templateLength? cs = some (n, opens))
    (more : List Char) : templateLength? (cs.take n ++ more) = some (n, opens) := by
  fun_induction templateLength? cs generalizing n opens with
  | case1 => cases h
  | case2 c cs ih =>
      obtain ⟨⟨m, opens⟩, hm, hEq⟩ := Option.map_eq_some_iff.mp h
      cases hEq
      simp only [List.take_succ_cons, List.cons_append, templateLength?, ih hm, Option.map_some]
  | case3 | case4 =>
      cases h
      rfl
  | case5 c cs hEscape hTick hOpens ih =>
      obtain ⟨⟨m, opens⟩, hm, hEq⟩ := Option.map_eq_some_iff.mp h
      cases hEq
      obtain ⟨body, back, hBody, hLength⟩ := exists_of_templateLength? hm
      have hPos : 0 < m := by cases opens <;> simp [hLength, templateClosing]
      have hLe : m ≤ cs.length := by simp [hBody, hLength]
      have hHead := head?_take_append hPos hLe more
      rw [List.take_succ_cons, List.cons_append, templateLength?, ih hm, Option.map_some]
      · rintro d rest rfl hRest
        rw [hRest] at hHead
        obtain ⟨tail, rfl⟩ := List.head?_eq_some_iff.mp hHead.symm
        exact hEscape d tail rfl rfl
      · exact hTick
      · rintro rest rfl hRest
        rw [hRest] at hHead
        obtain ⟨tail, rfl⟩ := List.head?_eq_some_iff.mp hHead.symm
        exact hOpens tail rfl rfl

theorem regexBodyLength?_take {inClass : Bool} (h : regexBodyLength? inClass cs = some n)
    (more : List Char) : regexBodyLength? inClass (cs.take n ++ more) = some n := by
  fun_induction regexBodyLength? inClass cs generalizing n with
  | case1 => cases h
  | case2 => cases h
  | case3 inClass c cs hPlain ih =>
      obtain ⟨m, hm, rfl⟩ := Option.map_eq_some_iff.mp h
      simp only [List.take_succ_cons, List.cons_append]
      rw [regexBodyLength?, if_neg hPlain, ih hm, Option.map_some]
  | case4 inClass c cs _ hSlash =>
      cases h
      rw [List.take_succ_cons, List.take_zero, List.singleton_append, regexBodyLength?,
        if_pos hSlash]
      rintro _ _ rfl
      simp at hSlash
  | case5 => cases h
  | case6 inClass c cs _ hSlash hPlain inner =>
      rename_i ih
      obtain ⟨m, hm, rfl⟩ := Option.map_eq_some_iff.mp h
      rw [List.take_succ_cons, List.cons_append, regexBodyLength?, if_neg hSlash, if_neg hPlain]
      · dsimp only
        rw [ih hm, Option.map_some]
      · rintro _ _ rfl
        simp at hPlain

variable {previous : Option Token} {braces : List Brace} {c : Char} {rest inner back other : List Char}
  {found : Piece}

/-- Characters that are pieces of their own. -/
def singles : List Char := ['(', ')', '[', ']', ',', ';']

/-- Characters that open pieces with a delimiter, or are pieces of their own. -/
def delimiters : List Char := ['"', '\'', '`', '{', '}'] ++ singles

theorem piece_quote (h : c = '"' ∨ c = '\'') : piece previous braces c rest =
    match stringLength? c rest with
    | none => .error .unterminatedString
    | some n => .ok ⟨.token .string, n, braces⟩ := by
  rcases h with rfl | rfl <;> rfl

theorem piece_tick : piece previous braces '`' rest = templatePiece braces rest := rfl

theorem piece_openBrace :
    piece previous braces '{' rest = .ok ⟨.token .punctuator, 0, .block :: braces⟩ := rfl

theorem piece_closeBrace : piece previous braces '}' rest =
    match braces with
    | .substitution :: outer => templatePiece outer rest
    | _ => .ok ⟨.token .punctuator, 0, braces.tail⟩ := rfl

theorem piece_single (h : c ∈ singles) :
    piece previous braces c rest = .ok ⟨.token .punctuator, 0, braces⟩ := by
  simp only [singles, List.mem_cons, List.not_mem_nil, or_false] at h
  rcases h with rfl | rfl | rfl | rfl | rfl | rfl <;> rfl

theorem templatePiece_take (h : templatePiece braces rest = .ok found) (more : List Char) :
    templatePiece braces (rest.take found.more ++ more) = .ok found := by
  unfold templatePiece at h
  split at h
  case h_1 => cases h
  case h_2 n opens hLength =>
    cases h
    rw [templatePiece, templateLength?_take hLength]

/-- A piece with a delimiter ends with it, whatever stands behind. -/
theorem piece_delimited (hOpens : c ∈ delimiters) (h : piece previous braces c rest = .ok found)
    (more : List Char) : piece previous braces c (rest.take found.more ++ more) = .ok found := by
  have hQuote : c = '"' ∨ c = '\'' →
      piece previous braces c (rest.take found.more ++ more) = .ok found := by
    intro hQuote
    rw [piece_quote hQuote] at h ⊢
    split at h
    case h_1 => cases h
    case h_2 n hLength =>
      cases h
      rw [stringLength?_take (by rcases hQuote with rfl | rfl <;> decide) hLength]
  rcases List.mem_append.mp hOpens with hOpens | hSingle
  · simp only [List.mem_cons, List.not_mem_nil, or_false] at hOpens
    rcases hOpens with hDouble | hSimple | rfl | rfl | rfl
    · exact hQuote (.inl hDouble)
    · exact hQuote (.inr hSimple)
    · exact templatePiece_take h more
    · rwa [piece_openBrace] at h ⊢
    · rw [piece_closeBrace] at h ⊢
      split at h
      case h_1 => exact templatePiece_take h more
      case h_2 => exact h
  · rwa [piece_single hSingle] at h ⊢

/-- What is no comment and ends with no delimiter ends where nothing goes on. -/
theorem piece_append (hSlash : c ≠ '/') (hOpens : c ∉ delimiters) (h : Halts back) :
    piece previous braces c (inner ++ back) = piece previous braces c inner := by
  simp only [delimiters, List.mem_append, List.mem_cons, List.not_mem_nil, or_false,
    not_or] at hOpens
  have hNumber : numberLength (c :: (inner ++ back)) = numberLength (c :: inner) :=
    @h.numberLength_append (c :: inner)
  have hFraction : fractionLength (c :: (inner ++ back)) = fractionLength (c :: inner) :=
    h.fractionLength_append (List.cons_ne_nil c inner)
  have hPunctuator : punctuatorLength? (c :: (inner ++ back)) = punctuatorLength? (c :: inner) :=
    h.punctuatorLength?_append (List.cons_ne_nil c inner)
  have hPoint : (inner ++ back).head?.any Char.isDigit = inner.head?.any Char.isDigit := by
    cases inner with
    | cons => rfl
    | nil =>
        cases back with
        | nil => rfl
        | cons d back =>
            refine Bool.eq_false_iff.mpr fun hDigit => ?_
            simpa [isWordPart_of_isSolid h.isSolid_of_cons] using isWordPart_of_isDigit hDigit
  unfold piece
  simp only [hNumber, hFraction, hPunctuator, hPoint, h.wordLength_append,
    List.take_append_of_le_length (wordLength_le inner), hOpens, hSlash, beq_iff_eq,
    Bool.or_eq_true, or_self, if_false]

theorem isBlank_slash : Text.isBlank '/' = false := by decide

theorem piece_lineComment (h : rest.head? = some '/') :
    piece previous braces '/' rest = .ok ⟨.comment .line, lineLength rest, braces⟩ := by
  unfold piece
  simp [isBlank_slash, h]

theorem piece_blockComment (h : rest.head? = some '*') : piece previous braces '/' rest =
    match blockCommentLength? rest.tail with
    | none => .error .unterminatedComment
    | some n => .ok ⟨.comment .block, n + 1, braces⟩ := by
  have hLine : (rest.head? == some '/') = false := by rw [h]; decide
  have hBlock : (rest.head? == some '*') = true := by rw [h]; decide
  unfold piece
  rw [isBlank_slash, hLine, hBlock]
  rfl

theorem piece_operator (hLine : rest.head? ≠ some '/') (hBlock : rest.head? ≠ some '*') :
    piece previous braces '/' rest =
      if regexAllowed previous then
        match regexLength? rest with
        | none => .error .unterminatedRegularExpression
        | some n => .ok ⟨.token .regularExpression, n, braces⟩
      else .ok ⟨.token .punctuator, if rest.head? == some '=' then 1 else 0, braces⟩ := by
  have hLine := beq_eq_false_iff_ne.mpr hLine
  have hBlock := beq_eq_false_iff_ne.mpr hBlock
  unfold piece
  rw [isBlank_slash, hLine, hBlock]
  rfl

/-- A block comment ends with its delimiter. -/
theorem piece_blockComment_take (hStar : rest.head? = some '*')
    (h : piece previous braces '/' rest = .ok found) (more : List Char) :
    piece previous braces '/' (rest.take found.more ++ more) = .ok found := by
  rw [piece_blockComment hStar] at h
  split at h
  case h_1 => cases h
  case h_2 n hLength =>
    cases h
    obtain ⟨tail, rfl⟩ := List.head?_eq_some_iff.mp hStar
    rw [List.tail_cons] at hLength
    rw [List.take_succ_cons, List.cons_append, piece_blockComment rfl, List.tail_cons,
      blockCommentLength?_take hLength]

/-- The flags of a regular expression end where nothing goes on. -/
theorem regexLength?_append {n : Nat} (hBack : Halts back) (hOther : Halts other)
    (h : regexLength? (inner ++ back) = some n) (hLe : n ≤ inner.length) :
    regexLength? (inner ++ other) = some n := by
  obtain ⟨body, hBody, rfl⟩ := Option.map_eq_some_iff.mp h
  have hInner : body ≤ inner.length := by omega
  have hTake := regexBodyLength?_take hBody (inner.drop body ++ other)
  rw [List.take_append_of_le_length hInner, ← List.append_assoc, List.take_append_drop] at hTake
  have hAlpha : ∀ c, isSolid c = true → c.isAlpha = false := fun c hc =>
    Bool.eq_false_iff.mpr fun hYes => by
      simpa [isWordPart_of_isSolid hc] using isWordPart_of_isAlpha hYes
  rw [regexLength?, hTake, Option.map_some, List.drop_append_of_le_length hInner,
    List.drop_append_of_le_length hInner, hBack.takeWhile_append hAlpha,
    hOther.takeWhile_append hAlpha]

/-- A line that ends inside a text, or with it, is not changed by what stands behind. -/
theorem lineLength_append (hLe : lineLength (inner ++ back) ≤ inner.length)
    (hLine : lineLength (inner ++ back) = inner.length → EndsLine back → EndsLine other) :
    lineLength (inner ++ other) = lineLength (inner ++ back) := by
  unfold lineLength at hLe hLine ⊢
  rw [List.takeWhile_append] at hLe hLine ⊢
  rw [List.takeWhile_append]
  by_cases hAll : (inner.takeWhile fun c => !Text.isLineTerminator c).length = inner.length
  · rw [if_pos hAll, List.length_append] at hLe hLine ⊢
    rw [if_pos hAll, List.length_append]
    have hNil : back.takeWhile (fun c => !Text.isLineTerminator c) = [] :=
      List.eq_nil_of_length_eq_zero (by omega)
    have hOther := hLine (by omega) fun c hc => by
      obtain ⟨back, rfl⟩ := List.head?_eq_some_iff.mp hc
      rw [List.takeWhile_cons] at hNil
      split at hNil
      case isTrue => cases hNil
      case isFalse hEnds => simpa using hEnds
    have hEnds : other.takeWhile (fun c => !Text.isLineTerminator c) = [] := by
      cases other with
      | nil => rfl
      | cons c other => exact List.takeWhile_cons_of_neg (by simp [hOther c rfl])
    rw [hEnds, List.length_nil]
    omega
  · rw [if_neg hAll, if_neg hAll]

/-- Two texts with which a line ends, or which start with the same character. -/
def EndsAlike (cs other : List Char) : Prop :=
  EndsLine cs ∧ EndsLine other ∨ cs.head? = other.head?

theorem EndsAlike.endsLine (h : EndsAlike back other) (hBack : EndsLine back) : EndsLine other := by
  rcases h with ⟨-, hOther⟩ | hSame
  · exact hOther
  · exact fun c hc => hBack c (hSame ▸ hc)

/-- No comment starts with a slash that is a piece of its own. -/
theorem head?_ne_slash_of_piece (h : piece previous braces '/' rest = .ok found)
    (hMore : found.more = 0) : rest.head? ≠ some '/' := by
  intro hHead
  rw [piece_lineComment hHead] at h
  cases h
  obtain ⟨tail, rfl⟩ := List.head?_eq_some_iff.mp hHead
  have hLength : lineLength ('/' :: tail) = lineLength tail + 1 := rfl
  rw [hLength] at hMore
  cases hMore

/-- As `piece_append`, for comments and what else starts with a slash, where a line may go on. -/
theorem piece_slash_append (h : piece previous braces '/' (inner ++ back) = .ok found)
    (hLe : found.more ≤ inner.length) (hBack : Halts back) (hOther : Halts other)
    (hLine : found.more = inner.length → EndsAlike back other) :
    piece previous braces '/' (inner ++ other) = .ok found := by
  cases inner with
  | nil =>
      -- of what a slash opens only a division ends with the slash
      have hMore : found.more = 0 := Nat.le_zero.mp hLe
      have hSolid : ∀ c, isSolid c = false → back.head? ≠ some c ∧ other.head? ≠ some c :=
        fun c hc => ⟨fun hHead => ne_of_isSolid (hBack c hHead) hc rfl,
          fun hHead => ne_of_isSolid (hOther c hHead) hc rfl⟩
      rw [List.nil_append] at h ⊢
      have hSlash := head?_ne_slash_of_piece h hMore
      have hSlash' : other.head? ≠ some '/' := by
        rcases hLine hMore with ⟨-, hEnds⟩ | hSame
        · exact fun hHead => absurd (hEnds '/' hHead) (by decide)
        · rwa [← hSame]
      obtain ⟨hStar, hStar'⟩ := hSolid '*' (by decide)
      obtain ⟨hEqual, hEqual'⟩ := hSolid '=' (by decide)
      rw [piece_operator hSlash hStar] at h
      rw [piece_operator hSlash' hStar']
      split at h
      case isTrue =>
        split at h
        case h_1 => cases h
        case h_2 n hLength =>
          cases h
          obtain ⟨body, flags, _, -, hn, -⟩ := exists_of_regexLength? hLength
          simp only [List.length_append, List.length_cons] at hn
          exact absurd (hn.symm.trans hMore) (by omega)
      case isFalse hDivides =>
        rw [if_neg hDivides, ← h]
        simp [hEqual, hEqual']
  | cons d inner =>
      by_cases hLineComment : d = '/'
      · subst hLineComment
        rw [List.cons_append, piece_lineComment rfl] at h ⊢
        cases h
        have hLength : lineLength ('/' :: inner ++ other) = lineLength ('/' :: inner ++ back) :=
          lineLength_append hLe fun hEnd => (hLine hEnd).endsLine
        rw [List.cons_append, List.cons_append] at hLength
        rw [hLength]
      by_cases hBlock : d = '*'
      · subst hBlock
        have hTake := piece_blockComment_take rfl h (('*' :: inner).drop found.more ++ other)
        rwa [List.take_append_of_le_length hLe, ← List.append_assoc, List.take_append_drop] at hTake
      rw [List.cons_append, piece_operator (by simpa) (by simpa)] at h ⊢
      split at h
      case isTrue hRegex =>
        rw [if_pos hRegex]
        split at h
        case h_1 => cases h
        case h_2 n hLength =>
          cases h
          rw [← List.cons_append] at hLength ⊢
          rw [regexLength?_append hBack hOther hLength hLe]
      case isFalse hRegex =>
        rw [if_neg hRegex]
        exact h

/-- A piece in front of a place where nothing goes on is not changed by what stands there. -/
theorem piece_halting (h : piece previous braces c (inner ++ back) = .ok found)
    (hLe : found.more ≤ inner.length) (hBack : Halts back) (hOther : Halts other)
    (hLine : c = '/' → found.more = inner.length → EndsAlike back other) :
    piece previous braces c (inner ++ other) = .ok found := by
  by_cases hSlash : c = '/'
  · subst hSlash
    exact piece_slash_append h hLe hBack hOther (hLine rfl)
  by_cases hOpens : c ∈ delimiters
  · have hTake := piece_delimited hOpens h (inner.drop found.more ++ other)
    rwa [List.take_append_of_le_length hLe, ← List.append_assoc, List.take_append_drop] at hTake
  · rw [piece_append hSlash hOpens hOther]
    rwa [piece_append hSlash hOpens hBack] at h

end EcmaLint.Lexer
