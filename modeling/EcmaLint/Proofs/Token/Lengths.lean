import EcmaLint.Proofs.Token.Pieces

/-! How long pieces are. Every function that measures the start of a text finds a length in that
text, so a piece never runs over the end of what is left; and where it looks for a delimiter, the
piece ends with that delimiter. -/
namespace EcmaLint.Lexer

theorem lineLength_le (cs : List Char) : lineLength cs ≤ cs.length :=
  (List.takeWhile_prefix _).length_le

theorem wordLength_le (cs : List Char) : wordLength cs ≤ cs.length :=
  (List.takeWhile_prefix _).length_le

theorem blockCommentLength?_le {cs : List Char} {n : Nat}
    (h : blockCommentLength? cs = some n) : n ≤ cs.length := by
  fun_induction blockCommentLength? cs generalizing n with
  | case1 cs =>
      cases h
      simp
  | case2 c cs _ ih =>
      obtain ⟨m, hm, rfl⟩ := Option.map_eq_some_iff.mp h
      exact Nat.succ_le_succ (ih hm)
  | case3 => cases h

/-- A string literal ends with its quote. -/
theorem exists_of_stringLength? {quote : Char} {cs : List Char} {n : Nat}
    (h : stringLength? quote cs = some n) :
    ∃ body back, cs = body ++ [quote] ++ back ∧ n = (body ++ [quote]).length := by
  fun_induction stringLength? quote cs generalizing n with
  | case1 => cases h
  | case2 cs ih =>
      obtain ⟨m, hm, rfl⟩ := Option.map_eq_some_iff.mp h
      obtain ⟨body, back, rfl, rfl⟩ := ih hm
      exact ⟨'\\' :: '\r' :: '\n' :: body, back, rfl, by simp⟩
  | case3 c cs _ ih =>
      obtain ⟨m, hm, rfl⟩ := Option.map_eq_some_iff.mp h
      obtain ⟨body, back, rfl, rfl⟩ := ih hm
      exact ⟨'\\' :: c :: body, back, rfl, by simp⟩
  | case4 c cs _ _ hQuote =>
      cases h
      exact ⟨[], cs, by simpa using hQuote, by simp⟩
  | case5 => cases h
  | case6 c cs _ _ _ _ ih =>
      obtain ⟨m, hm, rfl⟩ := Option.map_eq_some_iff.mp h
      obtain ⟨body, back, rfl, rfl⟩ := ih hm
      exact ⟨c :: body, back, rfl, by simp⟩

/-- What a template piece ends with. -/
def templateClosing (opens : Bool) : List Char := if opens then ['$', '{'] else ['`']

theorem exists_of_templateLength? {cs : List Char} {n : Nat} {opens : Bool}
    (h : templateLength? cs = some (n, opens)) : ∃ body back,
      cs = body ++ templateClosing opens ++ back ∧
        n = (body ++ templateClosing opens).length := by
  fun_induction templateLength? cs generalizing n opens with
  | case1 => cases h
  | case2 c cs ih =>
      obtain ⟨⟨m, opens⟩, hm, hEq⟩ := Option.map_eq_some_iff.mp h
      cases hEq
      obtain ⟨body, back, rfl, rfl⟩ := ih hm
      exact ⟨'\\' :: c :: body, back, rfl, by simp⟩
  | case3 cs =>
      cases h
      exact ⟨[], cs, rfl, rfl⟩
  | case4 cs =>
      cases h
      exact ⟨[], cs, rfl, rfl⟩
  | case5 c cs _ _ _ ih =>
      obtain ⟨⟨m, opens⟩, hm, hEq⟩ := Option.map_eq_some_iff.mp h
      cases hEq
      obtain ⟨body, back, rfl, rfl⟩ := ih hm
      exact ⟨c :: body, back, rfl, by simp⟩

theorem exists_of_regexBodyLength? {inClass : Bool} {cs : List Char} {n : Nat}
    (h : regexBodyLength? inClass cs = some n) :
    ∃ body back, cs = body ++ ['/'] ++ back ∧ n = body.length + 1 := by
  fun_induction regexBodyLength? inClass cs generalizing n with
  | case1 => cases h
  | case2 => cases h
  | case3 inClass c cs _ ih =>
      obtain ⟨m, hm, rfl⟩ := Option.map_eq_some_iff.mp h
      obtain ⟨body, back, rfl, rfl⟩ := ih hm
      exact ⟨'\\' :: c :: body, back, rfl, by simp⟩
  | case4 inClass c cs _ hSlash =>
      cases h
      rw [Bool.and_eq_true, beq_iff_eq] at hSlash
      exact ⟨[], cs, by simp [hSlash.1], rfl⟩
  | case5 => cases h
  | case6 inClass c cs =>
      rename_i ih
      obtain ⟨m, hm, rfl⟩ := Option.map_eq_some_iff.mp h
      obtain ⟨body, back, rfl, rfl⟩ := ih hm
      exact ⟨c :: body, back, rfl, by simp⟩

/-- A regular expression ends with its flags, which are letters. -/
theorem exists_of_regexLength? {cs : List Char} {n : Nat} (h : regexLength? cs = some n) :
    ∃ body flags back, cs = body ++ '/' :: flags ++ back ∧
      n = (body ++ '/' :: flags).length ∧ '/' ∉ flags := by
  obtain ⟨m, hBody, rfl⟩ := Option.map_eq_some_iff.mp h
  obtain ⟨body, back, rfl, rfl⟩ := exists_of_regexBodyLength? hBody
  have hBack : (body ++ ['/'] ++ back).drop (body.length + 1) = back := by
    rw [show body.length + 1 = (body ++ ['/']).length by simp, List.drop_left]
  rw [hBack]
  refine ⟨body, back.takeWhile Char.isAlpha, back.dropWhile Char.isAlpha, ?_, ?_, fun hSlash => ?_⟩
  · simp [List.takeWhile_append_dropWhile]
  · simp only [List.length_append, List.length_cons]
    omega
  · exact absurd (List.all_eq_true.mp List.all_takeWhile _ hSlash) (by decide)

theorem digitsLength_le (isDigit : Char → Bool) (cs : List Char) :
    digitsLength isDigit cs ≤ cs.length := by
  fun_induction digitsLength isDigit cs <;> simp_all <;> omega

theorem exponentLength_le (cs : List Char) : exponentLength cs ≤ cs.length := by
  unfold exponentLength
  split
  case h_1 => exact Nat.le_refl _
  case h_2 e cs =>
    dsimp only
    generalize hSign : (if cs.head? == some '+' || cs.head? == some '-' then 1 else 0) = sign
    have hDigits := digitsLength_le Char.isDigit (cs.drop sign)
    rw [List.length_drop] at hDigits
    have hHead : sign ≤ cs.length := by
      rw [← hSign]
      split
      · cases cs with
        | nil => simp_all
        | cons c cs => simp
      · exact Nat.zero_le _
    rw [List.length_cons]
    repeat' split
    all_goals omega

theorem suffixLength_le (cs : List Char) : suffixLength cs ≤ cs.length := by
  unfold suffixLength
  split
  · cases cs with
    | nil => simp_all
    | cons c cs => simp
  · exact Nat.zero_le _

/-- What follows the point of a number ends in the text if what stands before it does. -/
theorem add_suffixLength_le {cs : List Char} {n : Nat} (h : n ≤ cs.length) :
    n + exponentLength (cs.drop n) +
      suffixLength (cs.drop (n + exponentLength (cs.drop n))) ≤ cs.length := by
  have hPower := exponentLength_le (cs.drop n)
  have hSuffix := suffixLength_le (cs.drop (n + exponentLength (cs.drop n)))
  rw [List.length_drop] at hPower hSuffix
  omega

theorem decimalLength_le (cs : List Char) : decimalLength cs ≤ cs.length := by
  have hWhole := digitsLength_le Char.isDigit cs
  refine add_suffixLength_le ?_
  split
  case h_1 rest hDrop =>
    have hRest := digitsLength_le Char.isDigit rest
    have hLength := congrArg List.length hDrop
    rw [List.length_drop, List.length_cons] at hLength
    have hBoth : digitsLength Char.isDigit cs + (1 + digitsLength Char.isDigit rest) ≤
        cs.length := by
      omega
    exact hBoth
  case h_2 => exact hWhole

theorem numberLength_le (cs : List Char) : numberLength cs ≤ cs.length := by
  unfold numberLength
  split
  case h_1 letter rest =>
    split
    case h_1 => exact decimalLength_le _
    case h_2 isDigit _ =>
      dsimp only
      split
      case isTrue => exact decimalLength_le _
      case isFalse =>
        have hDigits := digitsLength_le isDigit rest
        have hSuffix := suffixLength_le (rest.drop (digitsLength isDigit rest))
        rw [List.length_drop] at hSuffix
        simp only [List.length_cons]
        omega
  case h_2 => exact decimalLength_le cs

theorem fractionLength_le {cs : List Char} (h : cs ≠ []) : fractionLength cs ≤ cs.length := by
  have hPos := List.length_pos_iff.mpr h
  have hDigits := digitsLength_le Char.isDigit (cs.drop 1)
  rw [List.length_drop] at hDigits
  have hPower := exponentLength_le (cs.drop (1 + digitsLength Char.isDigit (cs.drop 1)))
  rw [List.length_drop] at hPower
  rw [fractionLength]
  omega

theorem punctuatorLength?_le {cs : List Char} {n : Nat} (h : punctuatorLength? cs = some n) :
    n ≤ cs.length := by
  obtain ⟨p, hFind, rfl⟩ := Option.map_eq_some_iff.mp h
  have hPrefix := List.find?_some hFind
  rw [← String.length_toList]
  exact (List.isPrefixOf_iff_prefix.mp hPrefix).length_le

/-- The kinds of tokens that words make. -/
def wordKinds : List TokenKind := [.boolean, .null, .keyword, .identifier]

theorem ofWord_mem_wordKinds (word : String) : TokenKind.ofWord word ∈ wordKinds := by
  unfold TokenKind.ofWord
  repeat' split
  all_goals decide

/-- How a piece that starts with `c` is measured against the text behind it. -/
inductive Measured (c : Char) (rest : List Char) : PieceKind → Nat → Prop where
  | blank : Measured c rest .blank 0
  | lineComment : Measured c rest (.comment .line) (lineLength rest)
  | blockComment {n : Nat} (opens : rest.head? = some '*')
      (closes : blockCommentLength? rest.tail = some n) :
      Measured c rest (.comment .block) (n + 1)
  | regularExpression {n : Nat} (opens : c = '/') (closes : regexLength? rest = some n) :
      Measured c rest (.token .regularExpression) n
  | word {kind : TokenKind} (isWord : kind ∈ wordKinds) :
      Measured c rest (.token kind) (wordLength rest)
  | number {n : Nat} (fits : n ≤ rest.length) : Measured c rest (.token .numeric) n
  | string {n : Nat} (opens : c = '"' ∨ c = '\'') (closes : stringLength? c rest = some n) :
      Measured c rest (.token .string) n
  | template {n : Nat} {opens : Bool} (resumes : c = '`' ∨ c = '}')
      (closes : templateLength? rest = some (n, opens)) :
      Measured c rest (.token .template) n
  | punctuator {n : Nat} (fits : n ≤ rest.length) : Measured c rest (.token .punctuator) n

theorem measured_of_templatePiece {braces : List Brace} {c : Char} {rest : List Char}
    {found : Piece} (hOpens : c = '`' ∨ c = '}') (h : templatePiece braces rest = .ok found) :
    Measured c rest found.kind found.more := by
  unfold templatePiece at h
  split at h
  case h_1 => cases h
  case h_2 n opens hLength =>
    cases h
    exact .template hOpens hLength

/-- A slash opens a comment or a regular expression, or it divides. -/
theorem measured_of_slash {previous : Option Token} {braces : List Brace} {rest : List Char}
    {found : Piece} (h : piece previous braces '/' rest = .ok found) :
    Measured '/' rest found.kind found.more := by
  have hBlank : Text.isBlank '/' = false := by decide
  unfold piece at h
  rw [hBlank, if_neg Bool.false_ne_true, if_pos BEq.rfl] at h
  split at h
  case isTrue =>
    cases h
    exact .lineComment
  split at h
  case isTrue hStar =>
    split at h
    case h_1 => cases h
    case h_2 n hLength =>
      cases h
      exact .blockComment (by simpa using hStar) hLength
  split at h
  case isTrue =>
    split at h
    case h_1 => cases h
    case h_2 n hLength =>
      cases h
      exact .regularExpression rfl hLength
  case isFalse =>
    cases h
    cases rest with
    | nil => exact .punctuator (Nat.le_refl _)
    | cons d rest =>
        refine .punctuator ?_
        dsimp only
        rw [List.length_cons]
        split <;> omega

/-- A length that counts the first character is one too many. -/
theorem sub_one_le_of_le_length {c : Char} {rest : List Char} {n : Nat}
    (h : n ≤ (c :: rest).length) : n - 1 ≤ rest.length :=
  Nat.sub_le_of_le_add h

theorem measured_of_piece {previous : Option Token} {braces : List Brace} {c : Char}
    {rest : List Char} {found : Piece} (h : piece previous braces c rest = .ok found) :
    Measured c rest found.kind found.more := by
  by_cases hSlash : c = '/'
  · subst hSlash
    exact measured_of_slash h
  unfold piece at h
  rw [if_neg (by simpa using hSlash : ¬(c == '/') = true)] at h
  split at h
  case isTrue =>
    cases h
    exact .blank
  split at h
  case isTrue =>
    cases h
    exact .word (ofWord_mem_wordKinds _)
  split at h
  case isTrue =>
    cases h
    exact .number (sub_one_le_of_le_length (numberLength_le _))
  split at h
  case isTrue =>
    cases h
    exact .number (sub_one_le_of_le_length (fractionLength_le (List.cons_ne_nil c rest)))
  split at h
  case isTrue hQuote =>
    split at h
    case h_1 => cases h
    case h_2 n hLength =>
      cases h
      exact .string (by simpa using hQuote) hLength
  split at h
  case isTrue hTick => exact measured_of_templatePiece (.inl (by simpa using hTick)) h
  split at h
  case isTrue =>
    cases h
    exact .punctuator (Nat.zero_le _)
  split at h
  case isTrue hBrace =>
    split at h
    case h_1 => exact measured_of_templatePiece (.inr (by simpa using hBrace)) h
    case h_2 =>
      cases h
      exact .punctuator (Nat.zero_le _)
  split at h
  case h_1 n hLength =>
    cases h
    exact .punctuator (sub_one_le_of_le_length (punctuatorLength?_le hLength))
  case h_2 => cases h

/-- A piece has no more characters than are left. -/
theorem Measured.more_le {c : Char} {rest : List Char} {kind : PieceKind} {more : Nat}
    (h : Measured c rest kind more) : more ≤ rest.length := by
  cases h with
  | blank => exact Nat.zero_le _
  | lineComment => exact lineLength_le rest
  | @blockComment n opens closes =>
      obtain ⟨tail, rfl⟩ := List.head?_eq_some_iff.mp opens
      exact Nat.succ_le_succ (blockCommentLength?_le closes)
  | regularExpression _ closes =>
      obtain ⟨body, flags, back, rfl, rfl, -⟩ := exists_of_regexLength? closes
      exact (List.prefix_append _ back).length_le
  | word => exact wordLength_le rest
  | number fits => exact fits
  | string _ closes =>
      obtain ⟨body, back, rfl, rfl⟩ := exists_of_stringLength? closes
      simp
  | template _ closes =>
      obtain ⟨body, back, rfl, rfl⟩ := exists_of_templateLength? closes
      simp
  | punctuator fits => exact fits

end EcmaLint.Lexer
