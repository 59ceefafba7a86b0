import EcmaLint.Proofs.Selector.Written
import EcmaLint.Regex.Reader

/-! Reading what was written. Each part of a selector is read off the front of a text, whatever
stands behind it, as long as that cannot be taken for more of the part. -/
namespace EcmaLint.Selector

open Reader

/-- A reader takes a value off the front of a text and leaves the rest. -/
def Takes {α : Type} (reader : Reading α) (text : List Char) (value : α) (rest : List Char) :
    Prop :=
  reader.run text = .ok (value, rest)

theorem Takes.bind {α β : Type} {text middle rest : List Char} {first : Reading α}
    {next : α → Reading β} {a : α} {b : β} (hFirst : Takes first text a middle)
    (hNext : Takes (next a) middle b rest) : Takes (first >>= next) text b rest := by
  rw [Takes, StateT.run_bind, hFirst]
  exact hNext

theorem takes_get (text : List Char) : Takes get text text text := rfl

theorem takes_pure {α : Type} (value : α) (text : List Char) :
    Takes (pure value) text value text := rfl

theorem takes_set (rest text : List Char) : Takes (set rest) text ⟨⟩ rest := rfl

theorem takes_modify (f : List Char → List Char) (text : List Char) :
    Takes (modify f) text ⟨⟩ (f text) := rfl

theorem takes_eat (c : Char) (rest : List Char) : Takes (eat c) (c :: rest) true rest := by
  refine (takes_get _).bind ?_
  rw [if_pos (by simp)]
  exact (takes_modify _ _).bind (takes_pure _ _)

theorem takes_eat_other {c : Char} {text : List Char} (h : text.head? ≠ some c) :
    Takes (eat c) text false text := by
  refine (takes_get _).bind ?_
  rw [if_neg (by simpa using h)]
  exact takes_pure _ _

theorem takes_expect (c : Char) (rest : List Char) : Takes (expect c) (c :: rest) ⟨⟩ rest :=
  (takes_eat c rest).bind (takes_pure _ _)

/-- White space is read up to what is none. -/
theorem takes_blanks {space rest : List Char} (hSpace : IsSpace space)
    (hRest : ∀ c, rest.head? = some c → Text.isWhiteSpace c = false) :
    Takes blanks (space ++ rest) (decide (space ≠ [])) rest := by
  have hTrim : Text.trimStart (space ++ rest) = rest := by
    rw [Text.trimStart, List.dropWhile_append_of_pos hSpace]
    cases rest with
    | nil => rfl
    | cons c cs => rw [List.dropWhile_cons_of_neg (by simp [hRest c rfl])]
  refine (takes_get _).bind ?_
  rw [hTrim]
  refine (takes_set _ _).bind ?_
  have hLength : decide (rest.length < (space ++ rest).length) = decide (space ≠ []) := by
    cases space with
    | nil => simp
    | cons c cs =>
        have hLess : rest.length < (c :: cs ++ rest).length := by
          rw [List.length_append, List.length_cons]
          omega
        exact decide_eq_decide.mpr (iff_of_true hLess (List.cons_ne_nil _ _))
  rw [hLength]
  exact takes_pure _ _

/-- A name is read up to a character that is no part of one. -/
theorem takes_name {word rest : List Char} (hWord : ∀ c ∈ word, isNamePart c)
    (hRest : ∀ c, rest.head? = some c → isNamePart c = false) :
    Takes name (word ++ rest) (String.ofList word) rest := by
  have hTake : (word ++ rest).takeWhile isNamePart = word := by
    rw [List.takeWhile_append_of_pos hWord]
    cases rest with
    | nil => simp
    | cons c cs => rw [List.takeWhile_cons_of_neg (by simp [hRest c rfl]), List.append_nil]
  refine (takes_get _).bind ?_
  rw [hTake]
  refine (takes_modify _ _).bind ?_
  rw [List.drop_left]
  exact takes_pure _ _

/-- The characters of names are visible and have one byte. -/
theorem range_of_isNamePart {c : Char} (h : isNamePart c = true) :
    33 ≤ c.toNat ∧ c.toNat ≤ 127 := by
  simp only [isNamePart, isNameStart, Bool.or_eq_true, beq_iff_eq, Text.isAlpha_iff_toNat,
    Char.isDigit_iff_toNat] at h
  rcases h with ((((⟨hLow, hHigh⟩ | ⟨hLow, hHigh⟩) | rfl) | rfl) | ⟨hLow, hHigh⟩) | rfl
  all_goals first
    | decide
    | exact ⟨le_trans (by decide) hLow, le_trans hHigh (by decide)⟩

theorem isWhiteSpace_eq_false_of_isNamePart {c : Char} (h : isNamePart c = true) :
    Text.isWhiteSpace c = false := by
  have hRange := range_of_isNamePart h
  simp only [Text.isWhiteSpace, Text.inRanges, Text.whiteSpaceRanges, List.any_cons, List.any_nil]
  simp
  omega

/-- What is true of white space and of the start of a text is true of the start of the text with
white space in front of it. -/
theorem head?_space {P : Char → Prop} {space rest : List Char} (hSpace : IsSpace space)
    (hP : ∀ c, Text.isWhiteSpace c = true → P c) (hRest : ∀ c, rest.head? = some c → P c) :
    ∀ c, (space ++ rest).head? = some c → P c := by
  cases space with
  | nil => exact hRest
  | cons first others =>
      intro c hHead
      obtain rfl : first = c := by simpa using hHead
      exact hP _ (hSpace _ List.mem_cons_self)

theorem head?_cons {P : Char → Prop} {c : Char} {rest : List Char} (h : P c) :
    ∀ d, (c :: rest).head? = some d → P d := by
  intro d hHead
  obtain rfl : c = d := by simpa using hHead
  exact h

/-- A string is read back without the backslashes that were put in. -/
theorem quoted?_escape {quote : Char} (hQuote : quote ≠ '\\') (value rest : List Char) :
    quoted? quote (Printer.escape quote value ++ quote :: rest) = some (value, rest) := by
  induction value with
  | nil => simp [Printer.escape, quoted?, hQuote]
  | cons c cs ih =>
      rw [Printer.escape]
      split
      case isTrue => simp [quoted?, ih]
      case isFalse hPlain =>
        obtain ⟨hNotQuote, hNotEscape⟩ : c ≠ quote ∧ c ≠ '\\' := by simpa using hPlain
        rw [List.cons_append, quoted?, if_neg hNotQuote, ih]
        · rfl
        all_goals simp_all

/-- A word is no number, no string and no regular expression. -/
theorem takes_word [RegexEngine] {word : String} {literal : SelectorLiteral} {rest : List Char}
    (hWord : (word, literal) ∈
      [("true", .bool true), ("false", .bool false), ("null", SelectorLiteral.null)])
    (hRest : ∀ c, rest.head? = some c → isNamePart c = false) :
    Takes Reader.literal (word.toList ++ rest) literal rest := by
  simp only [List.mem_cons, Prod.mk.injEq, List.not_mem_nil, or_false] at hWord
  rcases hWord with ⟨rfl, rfl⟩ | ⟨rfl, rfl⟩ | ⟨rfl, rfl⟩
  all_goals
    refine (takes_get _).bind ?_
    refine (takes_name (List.all_eq_true.mp (by decide)) hRest).bind ?_
    rw [String.ofList_toList]
    exact takes_pure _ _

theorem takes_literal [RegexEngine] {literal : SelectorLiteral} {text rest : List Char}
    (h : WritesLiteral literal text) (hRest : ∀ c, rest.head? = some c → isNamePart c = false) :
    Takes Reader.literal (text ++ rest) literal rest := by
  cases h with
  | @text quote value isQuote =>
      have hQuote : quote ≠ '\\' := by rcases isQuote with rfl | rfl <;> decide
      have hRead := quoted?_escape hQuote value.toList rest
      refine (takes_get _).bind ?_
      simp only [List.cons_append, List.append_assoc, List.head?_cons, List.nil_append,
        List.tail_cons, hRead]
      rw [if_pos (by rcases isQuote with rfl | rfl <;> rfl), String.ofList_toList]
      exact (takes_set _ _).bind (takes_pure _ _)
  | yes => exact takes_word (by simp) hRest
  | no => exact takes_word (by simp) hRest
  | null => exact takes_word (by simp) hRest

/-- What may stand behind a path. -/
def EndsPath (text : List Char) : Prop :=
  ∀ c, text.head? = some c → isNamePart c = false ∧ c ≠ '.'

theorem IsSegment.head?_not_space {segment : String} (h : IsSegment segment) (rest : List Char) :
    ∀ c, (segment.toList ++ rest).head? = some c → Text.isWhiteSpace c = false := by
  have hStarts := h.starts
  cases hText : segment.toList with
  | nil => simp [hText] at hStarts
  | cons first others =>
      exact head?_cons (isWhiteSpace_eq_false_of_isNamePart (h.parts first (by simp [hText])))

theorem takes_segment {segment : String} {rest : List Char} (h : IsSegment segment)
    (hRest : ∀ c, rest.head? = some c → isNamePart c = false) :
    Takes Reader.segment (segment.toList ++ rest) segment rest := by
  have hName := takes_name h.parts hRest
  rw [String.ofList_toList] at hName
  have hHead : (segment.toList ++ rest).head?.any fun c => isNameStart c || c.isDigit := by
    have hStarts := h.starts
    cases hText : segment.toList with
    | nil => simp [hText] at hStarts
    | cons c cs => simpa [hText] using hStarts
  refine (takes_get _).bind ?_
  rw [if_pos hHead]
  exact hName

/-- The names of a path after the first one, with a point in front of each. -/
def points (path : List String) : List Char := path.flatMap fun segment => '.' :: segment.toList

theorem not_isNamePart_points (path : List String) {rest : List Char} (hRest : EndsPath rest) :
    ∀ c, (points path ++ rest).head? = some c → isNamePart c = false := by
  cases path with
  | nil => exact fun c hHead => (hRest c hHead).1
  | cons segment later => exact head?_cons (by decide)

theorem length_le_points (path : List String) : path.length ≤ (points path).length := by
  induction path with
  | nil => exact le_rfl
  | cons segment later ih =>
      simp only [points, List.flatMap_cons, List.length_append, List.length_cons] at ih ⊢
      omega

theorem takes_segments {path : List String} {rest : List Char} {fuel : Nat}
    (hPath : ∀ segment ∈ path, IsSegment segment) (hFuel : path.length ≤ fuel)
    (hRest : EndsPath rest) :
    Takes (segments fuel) (points path ++ rest) path rest := by
  induction path generalizing fuel with
  | nil =>
      cases fuel with
      | zero => exact takes_pure _ _
      | succ fuel =>
          refine (takes_eat_other fun hPoint => (hRest _ hPoint).2 rfl).bind ?_
          exact takes_pure _ _
  | cons segment later ih =>
      obtain ⟨fuel, rfl⟩ : ∃ n, fuel = n + 1 := Nat.exists_eq_add_one_of_ne_zero (by
        rintro rfl
        simp at hFuel)
      obtain ⟨hSegment, hLater⟩ := List.forall_mem_cons.mp hPath
      rw [points, List.flatMap_cons, List.append_assoc]
      refine (takes_eat _ _).bind ?_
      refine (takes_segment hSegment (not_isNamePart_points later hRest)).bind ?_
      exact (ih hLater (by simpa using hFuel)).bind (takes_pure _ _)

/-- The text of a path is its first name and the others with their points. -/
theorem toList_intercalate_point (segment : String) (path : List String) :
    (".".intercalate (segment :: path)).toList =
      segment.toList ++ points path := by
  induction path generalizing segment with
  | nil => simp [points]
  | cons next later ih =>
      rw [String.intercalate_cons_cons, String.toList_append, String.toList_append, ih]
      simp [points]

theorem not_isNamePart_of_isWhiteSpace {c : Char} (h : Text.isWhiteSpace c = true) :
    isNamePart c = false :=
  Bool.eq_false_iff.mpr fun hPart => by
    rw [isWhiteSpace_eq_false_of_isNamePart hPart] at h
    cases h

/-- A sign that is no white space does not start a text with white space in front. -/
theorem ne_of_isWhiteSpace {c d : Char} (h : Text.isWhiteSpace c = true)
    (hSign : Text.isWhiteSpace d = false) : c ≠ d := by
  rintro rfl
  rw [h] at hSign
  cases hSign

theorem WritesLiteral.head?_not_space {literal : SelectorLiteral} {text rest : List Char}
    (h : WritesLiteral literal text) :
    ∀ c, (text ++ rest).head? = some c → Text.isWhiteSpace c = false := by
  cases h with
  | text value isQuote => exact head?_cons (by rcases isQuote with rfl | rfl <;> decide)
  | yes => exact head?_cons (c := 't') (by decide)
  | no => exact head?_cons (c := 'f') (by decide)
  | null => exact head?_cons (c := 'n') (by decide)

/-- A literal in white space, and what is read behind it. -/
theorem takes_compared [RegexEngine] {α : Type} {literal : SelectorLiteral}
    {left text right rest after : List Char} {next : SelectorLiteral → Reading α} {value : α}
    (hLeft : IsSpace left) (h : WritesLiteral literal text) (hRight : IsSpace right)
    (hNext : Takes (next literal) (right ++ ']' :: rest) value after) :
    Takes (blanks >>= fun _ => Reader.literal >>= next) (left ++ (text ++ (right ++ ']' :: rest)))
      value after := by
  have hEnds : ∀ c, (right ++ ']' :: rest).head? = some c → isNamePart c = false :=
    head?_space hRight (fun _ => not_isNamePart_of_isWhiteSpace) (head?_cons (by decide))
  exact (takes_blanks hLeft h.head?_not_space).bind ((takes_literal h hEnds).bind hNext)

/-- A test stands between a path and the white space before the closing bracket. -/
theorem takes_test [RegexEngine] {test : AttributeTest} {text space : List Char}
    (h : WritesTest test text)
    (hSpace : IsSpace space) (rest : List Char) :
    ∃ middle separated, Takes blanks (text ++ (space ++ ']' :: rest)) separated middle ∧
      Takes Reader.test middle test rest := by
  have hBracket : ∀ c, (']' :: rest).head? = some c → Text.isWhiteSpace c = false :=
    head?_cons (by decide)
  have hClose : ∀ test : AttributeTest,
      Takes (do let _ ← blanks; expect ']'; pure test) (space ++ ']' :: rest) test rest := fun _ =>
    (takes_blanks hSpace hBracket).bind ((takes_expect _ _).bind (takes_pure _ _))
  cases h with
  | isPresent =>
      rw [List.nil_append]
      exact ⟨_, _, takes_blanks hSpace hBracket, (takes_eat _ _).bind (takes_pure _ _)⟩
  | equals before after writes =>
      simp only [List.append_assoc]
      refine ⟨_, _, takes_blanks before (head?_cons (c := '=') (by decide)), ?_⟩
      refine (takes_eat_other (by simp)).bind ((takes_get _).bind ((takes_eat _ _).bind ?_))
      rw [if_neg (by simp), if_pos rfl]
      exact takes_compared after writes hSpace ((takes_pure _ _).bind (hClose _))
  | differs before after writes =>
      simp only [List.append_assoc]
      refine ⟨_, _, takes_blanks before (head?_cons (c := '!') (by decide)), ?_⟩
      refine (takes_eat_other (by simp)).bind ((takes_get _).bind
        ((takes_eat_other (by simp)).bind ?_))
      rw [if_pos (by simp)]
      exact (takes_modify _ _).bind
        (takes_compared after writes hSpace ((takes_pure _ _).bind (hClose _)))

theorem WritesTest.endsPath {test : AttributeTest} {text space : List Char}
    (h : WritesTest test text) (hSpace : IsSpace space) (rest : List Char) :
    EndsPath (text ++ (space ++ ']' :: rest)) := by
  have hBlank : ∀ c, Text.isWhiteSpace c = true → isNamePart c = false ∧ c ≠ '.' := fun c h =>
    ⟨not_isNamePart_of_isWhiteSpace h, ne_of_isWhiteSpace h (by decide)⟩
  cases h with
  | isPresent =>
      rw [List.nil_append]
      exact head?_space hSpace hBlank (head?_cons (by decide))
  | equals before after writes | differs before after writes =>
      simp only [List.append_assoc]
      exact head?_space before hBlank (head?_cons (by decide))

theorem takes_bracketed [RegexEngine] {tested : Attribute} {text rest : List Char}
    (h : WritesAttribute tested text) : Takes bracketed (text ++ rest) tested rest := by
  obtain ⟨isPath, inside, behind, writes⟩ := h
  rename_i path test left right testText
  obtain ⟨hSome, hSegments⟩ := isPath
  obtain ⟨segment, later, rfl⟩ := List.exists_cons_of_ne_nil hSome
  obtain ⟨hSegment, hLater⟩ := List.forall_mem_cons.mp hSegments
  have hEnds := writes.endsPath behind rest
  obtain ⟨middle, separated, hBlanks, hTest⟩ := takes_test writes behind rest
  have hFuel : later.length ≤ (points later ++ (testText ++ (right ++ ']' :: rest))).length :=
    (length_le_points later).trans (by simp)
  rw [toList_intercalate_point]
  simp only [List.append_assoc, List.cons_append, List.nil_append]
  refine (takes_expect _ _).bind ?_
  refine (takes_blanks inside (hSegment.head?_not_space _)).bind ?_
  refine (takes_segment hSegment (not_isNamePart_points later hEnds)).bind ?_
  refine (takes_get _).bind ?_
  exact (takes_segments hLater hFuel hEnds).bind (hBlanks.bind (hTest.bind (takes_pure _ _)))

theorem WritesAttribute.exists_cons {tested : Attribute} {text : List Char}
    (h : WritesAttribute tested text) : ∃ more, text = '[' :: more := by
  obtain ⟨isPath, inside, behind, writes⟩ := h
  exact ⟨_, rfl⟩

theorem length_le_attributes {attributes : List Attribute} {texts : List (List Char)}
    (h : List.Forall₂ WritesAttribute attributes texts) :
    attributes.length ≤ texts.flatten.length := by
  induction h with
  | nil => exact le_rfl
  | cons hFirst _ ih =>
      obtain ⟨more, rfl⟩ := hFirst.exists_cons
      simp only [List.flatten_cons, List.length_append, List.length_cons] at ih ⊢
      omega

theorem takes_attributes [RegexEngine] {attributes : List Attribute} {texts : List (List Char)}
    {rest : List Char} {fuel : Nat} (h : List.Forall₂ WritesAttribute attributes texts)
    (hFuel : attributes.length ≤ fuel) (hRest : rest.head? ≠ some '[') :
    Takes (Reader.attributes fuel) (texts.flatten ++ rest) attributes rest := by
  induction h generalizing fuel with
  | nil =>
      cases fuel with
      | zero => exact takes_pure _ _
      | succ fuel =>
          refine (takes_get _).bind ?_
          rw [if_neg (by simpa using hRest)]
          exact takes_pure _ _
  | @cons tested text attributes texts hFirst _ ih =>
      obtain ⟨fuel, rfl⟩ : ∃ n, fuel = n + 1 := Nat.exists_eq_add_one_of_ne_zero (by
        rintro rfl
        simp at hFuel)
      obtain ⟨more, hMore⟩ := hFirst.exists_cons
      rw [List.flatten_cons, List.append_assoc]
      refine (takes_get _).bind ?_
      rw [if_pos (by simp [hMore])]
      exact (takes_bracketed hFirst).bind ((ih (by simpa using hFuel)).bind (takes_pure _ _))

theorem ofName?_name (kind : NodeKind) : NodeKind.ofName? kind.name = some kind := by
  cases kind <;> decide +kernel

theorem isNamePart_of_mem_name (kind : NodeKind) : ∀ c ∈ kind.name.toList, isNamePart c :=
  List.all_eq_true.mp (by cases kind <;> decide +kernel)

theorem exists_cons_name (kind : NodeKind) :
    ∃ c cs, kind.name.toList = c :: cs ∧ isNameStart c = true := by
  have hStarts : kind.name.toList.head?.any isNameStart = true := by
    cases kind <;> decide +kernel
  cases hText : kind.name.toList with
  | nil => simp [hText] at hStarts
  | cons c cs => exact ⟨c, cs, rfl, by simpa [hText] using hStarts⟩

/-- What may stand behind a compound. -/
def EndsCompound (text : List Char) : Prop :=
  ∀ c, text.head? = some c → isNamePart c = false ∧ c ≠ '[' ∧ c ≠ ':'

theorem takes_head_kind (kind : NodeKind) {rest : List Char}
    (hRest : ∀ c, rest.head? = some c → isNamePart c = false) :
    Takes head (kind.name.toList ++ rest) (some kind, true) rest := by
  obtain ⟨c, cs, hName, hStart⟩ := exists_cons_name kind
  have hStar : c ≠ '*' := by
    rintro rfl
    exact absurd hStart (by decide)
  refine (takes_get _).bind ((takes_eat_other (by simpa [hName] using hStar)).bind ?_)
  rw [if_neg (by simp), if_pos (by simpa [hName] using hStart)]
  refine (takes_name (isNamePart_of_mem_name kind) hRest).bind ?_
  rw [String.ofList_toList, ofName?_name]
  exact takes_pure _ _

/-- The attributes of a compound and the tests of what stands behind it. -/
theorem takes_compound_of_head [RegexEngine] {kind : Option NodeKind} {hasHead : Bool}
    {attributes : List Attribute} {texts : List (List Char)} {text rest : List Char}
    (hHead : Takes head text (kind, hasHead) (texts.flatten ++ rest))
    (hSome : hasHead = true ∨ attributes ≠ [])
    (h : List.Forall₂ WritesAttribute attributes texts) (hRest : EndsCompound rest) :
    Takes Reader.compound text ⟨kind, attributes⟩ rest := by
  have hFuel : attributes.length ≤ (texts.flatten ++ rest).length :=
    (length_le_attributes h).trans (by simp)
  have hBracket : rest.head? ≠ some '[' := fun hHead => (hRest _ hHead).2.1 rfl
  have hColon : rest.head? ≠ some ':' := fun hHead => (hRest _ hHead).2.2 rfl
  refine hHead.bind ((takes_get _).bind ((takes_attributes h hFuel hBracket).bind
    ((takes_get _).bind ?_)))
  rw [if_neg (by simpa using hColon)]
  dsimp only
  rw [if_neg (by rcases hSome with h | h <;> simp [h])]
  exact takes_pure _ _

theorem head?_attributes {attributes : List Attribute} {texts : List (List Char)}
    {rest : List Char} {P : Char → Prop} (h : List.Forall₂ WritesAttribute attributes texts)
    (hBracket : P '[') (hRest : ∀ c, rest.head? = some c → P c) :
    ∀ c, (texts.flatten ++ rest).head? = some c → P c := by
  cases h with
  | nil => exact hRest
  | cons hFirst _ =>
      obtain ⟨more, rfl⟩ := hFirst.exists_cons
      exact head?_cons hBracket

theorem takes_compound [RegexEngine] {compound : Compound} {text rest : List Char}
    (h : WritesCompound compound text) (hRest : EndsCompound rest) :
    Takes Reader.compound (text ++ rest) compound rest := by
  cases h with
  | kind kind writes =>
      rw [List.append_assoc]
      have hBehind := head?_attributes writes (P := fun c => isNamePart c = false) (by decide)
        fun c hHead => (hRest c hHead).1
      exact takes_compound_of_head (takes_head_kind kind hBehind) (.inl rfl) writes hRest
  | star =>
      have hStar :
          Takes head ('*' :: rest) (none, true) (([] : List (List Char)).flatten ++ rest) :=
        (takes_get _).bind ((takes_eat _ _).bind (takes_pure _ _))
      exact takes_compound_of_head hStar (.inl rfl) .nil hRest
  | attributes isSome writes =>
      rename_i tests texts
      have hNone : Takes head (texts.flatten ++ rest) (none, false) (texts.flatten ++ rest) := by
        cases writes with
        | nil => exact absurd rfl isSome
        | cons hFirst _ =>
            obtain ⟨more, rfl⟩ := hFirst.exists_cons
            exact (takes_get _).bind ((takes_eat_other (by simp)).bind (takes_pure _ _))
      exact takes_compound_of_head hNone (.inr isSome) writes hRest

/-- How a compound can start: in no case like a combinator or the end of an alternative. -/
theorem WritesCompound.exists_cons {compound : Compound} {text : List Char}
    (h : WritesCompound compound text) :
    ∃ c more, text = c :: more ∧ Text.isWhiteSpace c = false ∧ c ≠ ',' ∧ c ≠ '>' := by
  cases h with
  | @kind kind _ texts _ =>
      obtain ⟨c, cs, hName, hStart⟩ := exists_cons_name kind
      have hPart : isNamePart c = true := by rw [isNamePart, hStart, Bool.true_or, Bool.true_or]
      refine ⟨c, cs ++ texts.flatten, by rw [hName]; rfl,
        isWhiteSpace_eq_false_of_isNamePart hPart, ?_, ?_⟩
      all_goals
        rintro rfl
        exact absurd hStart (by decide)
  | star => exact ⟨'*', [], rfl, by decide, by decide, by decide⟩
  | attributes isSome writes =>
      cases writes with
      | nil => exact absurd rfl isSome
      | cons hFirst _ =>
          obtain ⟨more, rfl⟩ := hFirst.exists_cons
          exact ⟨'[', _, rfl, by decide, by decide, by decide⟩

theorem endsCompound_space {space rest : List Char} (hSpace : IsSpace space)
    (hRest : EndsCompound rest) : EndsCompound (space ++ rest) :=
  head?_space hSpace (fun _ h => ⟨not_isNamePart_of_isWhiteSpace h,
    ne_of_isWhiteSpace h (by decide), ne_of_isWhiteSpace h (by decide)⟩) hRest

theorem WritesCombinator.endsCompound {combinator : Combinator} {between rest : List Char}
    (h : WritesCombinator combinator between) : EndsCompound (between ++ rest) := by
  cases h with
  | child before after =>
      simp only [List.append_assoc]
      exact endsCompound_space before (head?_cons (by decide))
  | descendant isSpace isSome =>
      obtain ⟨c, cs, rfl⟩ := List.exists_cons_of_ne_nil isSome
      have hHead := isSpace c List.mem_cons_self
      exact head?_cons ⟨not_isNamePart_of_isWhiteSpace hHead, ne_of_isWhiteSpace hHead (by decide),
        ne_of_isWhiteSpace hHead (by decide)⟩

/-- One turn of the loop: a combinator and the compound behind it become the last ones. -/
theorem takes_joint [RegexEngine] {subject compound : Compound}
    {context : List (Combinator × Compound)}
    {combinator : Combinator} {between text rest after : List Char} {fuel : Nat} {found : Complex}
    (hJoins : WritesCombinator combinator between) (hWrites : WritesCompound compound text)
    (hRest : EndsCompound rest)
    (hLater : Takes (continuation fuel ⟨compound, (combinator, subject) :: context⟩) rest found
      after) :
    Takes (continuation (fuel + 1) ⟨subject, context⟩) (between ++ (text ++ rest)) found after := by
  obtain ⟨c, more, hText, hBlank, hComma, hAngle⟩ := hWrites.exists_cons
  have hCompound := takes_compound hWrites hRest
  have hHead : ∀ d, (text ++ rest).head? = some d → Text.isWhiteSpace d = false := by
    rw [hText]
    exact head?_cons hBlank
  cases hJoins with
  | child before after =>
      simp only [List.append_assoc]
      refine (takes_blanks before (head?_cons (c := '>') (by decide))).bind ((takes_get _).bind ?_)
      exact (takes_modify _ _).bind ((takes_blanks after hHead).bind (hCompound.bind hLater))
  | descendant isSpace isSome =>
      refine (takes_blanks isSpace hHead).bind ((takes_get _).bind ?_)
      rw [hText] at hCompound ⊢
      simp only [List.cons_append, List.head?_cons]
      rw [if_neg (by simpa using hComma), if_neg (by simpa using hAngle),
        if_pos (decide_eq_true isSome)]
      exact hCompound.bind hLater

/-- A complex selector starts with its first compound, and the loop reads the rest of it in one
turn for each combinator. -/
theorem takes_continuation [RegexEngine] {complex : Complex} {text : List Char}
    (h : WritesComplex complex text) :
    ∃ first front tail, text = front ++ tail ∧ WritesCompound first front ∧
      complex.context.length ≤ tail.length ∧
      ∀ {rest after : List Char} {fuel : Nat} {found : Complex}, EndsCompound rest →
        Takes (continuation fuel complex) rest found after →
        EndsCompound (tail ++ rest) ∧
        Takes (continuation (fuel + complex.context.length) ⟨first, []⟩) (tail ++ rest) found
          after := by
  induction h with
  | @single compound text writes =>
      exact ⟨compound, text, [], by simp, writes, by simp, fun hRest h => ⟨hRest, h⟩⟩
  | @joined above compound context combinator front between text former joins writes ih =>
      obtain ⟨first, start, tail, rfl, hFirst, hLength, hFormer⟩ := ih
      obtain ⟨c, more, hText, -⟩ := writes.exists_cons
      refine ⟨first, start, tail ++ between ++ text, by simp, hFirst, ?_, ?_⟩
      · simp only [List.length_append, List.length_cons, hText] at hLength ⊢
        omega
      · intro rest after fuel found hRest hLater
        have hTurn := takes_joint joins writes hRest hLater
        rw [List.append_assoc, List.append_assoc, List.length_cons, Nat.add_comm _ 1,
          ← Nat.add_assoc]
        exact hFormer joins.endsCompound hTurn

/-- What may stand behind an alternative: the end of the text, or a comma. -/
def EndsComplex (text : List Char) : Prop := ∀ c, text.head? = some c → c = ','

theorem EndsComplex.endsCompound {text : List Char} (h : EndsComplex text) : EndsCompound text := by
  intro c hHead
  obtain rfl := h c hHead
  decide

theorem EndsComplex.head?_not_space {text : List Char} (h : EndsComplex text) :
    ∀ c, text.head? = some c → Text.isWhiteSpace c = false := by
  intro c hHead
  obtain rfl := h c hHead
  decide

/-- An alternative is read with the white space behind it. -/
theorem takes_complex [RegexEngine] {complex : Complex} {text space rest : List Char}
    (h : WritesComplex complex text) (hSpace : IsSpace space) (hRest : EndsComplex rest) :
    Takes Reader.complex (text ++ (space ++ rest)) complex rest := by
  obtain ⟨first, front, tail, rfl, hFirst, hLength, hTurns⟩ := takes_continuation h
  have hStops : ∀ fuel, Takes (continuation (fuel + 1) complex) (space ++ rest) complex rest := by
    intro fuel
    refine (takes_blanks hSpace hRest.head?_not_space).bind ((takes_get _).bind ?_)
    cases rest with
    | nil => exact takes_pure _ _
    | cons c cs =>
        obtain rfl := hRest c rfl
        exact takes_pure _ _
  have hEnds := endsCompound_space hSpace hRest.endsCompound
  obtain ⟨n, hFuel⟩ : ∃ n, (tail ++ (space ++ rest)).length + 1 = n + 1 + complex.context.length :=
    ⟨(tail ++ (space ++ rest)).length - complex.context.length, by
      rw [List.length_append]
      omega⟩
  obtain ⟨hBehind, hRead⟩ := hTurns hEnds (hStops n)
  rw [List.append_assoc]
  refine (takes_compound hFirst hBehind).bind ((takes_get _).bind ?_)
  rw [hFuel]
  exact hRead

theorem WritesComplex.head?_not_space [RegexEngine] {complex : Complex} {text rest : List Char}
    (h : WritesComplex complex text) :
    ∀ c, (text ++ rest).head? = some c → Text.isWhiteSpace c = false := by
  obtain ⟨first, front, tail, rfl, hFirst, -⟩ := takes_continuation h
  obtain ⟨c, more, rfl, hBlank, -⟩ := hFirst.exists_cons
  exact head?_cons hBlank

theorem takes_alternatives [RegexEngine] {alternatives : List Complex} {text : List Char}
    {fuel : Nat}
    (h : Writes alternatives text) (hFuel : text.length < fuel) :
    Takes (Reader.alternatives fuel) text alternatives [] := by
  have hNoSpace : ∀ c, ([] : List Char).head? = some c → Text.isWhiteSpace c = false := by simp
  induction h generalizing fuel with
  | @last complex left text right before writes after =>
      obtain ⟨fuel, rfl⟩ : ∃ n, fuel = n + 1 := Nat.exists_eq_add_one_of_ne_zero (by omega)
      rw [List.append_assoc]
      have hComplex := takes_complex writes after (by simp [EndsComplex] : EndsComplex [])
      rw [List.append_nil] at hComplex
      refine (takes_blanks before writes.head?_not_space).bind (hComplex.bind ?_)
      refine (takes_blanks isSpace_nil hNoSpace).bind ((takes_eat_other (by simp)).bind ?_)
      exact takes_pure _ _
  | @more complex later left text right rest before writes after others ih =>
      obtain ⟨fuel, rfl⟩ : ∃ n, fuel = n + 1 := Nat.exists_eq_add_one_of_ne_zero (by omega)
      have hComma : EndsComplex (",".toList ++ rest) := head?_cons rfl
      have hLater : rest.length < fuel := by
        simp only [List.length_append] at hFuel
        have : ",".toList.length = 1 := rfl
        omega
      simp only [List.append_assoc]
      refine (takes_blanks before writes.head?_not_space).bind
        ((takes_complex writes after hComma).bind ?_)
      refine (takes_blanks isSpace_nil hComma.head?_not_space).bind ((takes_eat _ _).bind ?_)
      exact (ih hLater).bind (takes_pure _ _)

/-- Every written form of alternatives is read as these alternatives. -/
theorem parse_of_writes [RegexEngine] {alternatives : List Complex} {text : List Char}
    (h : Writes alternatives text) :
    parse (String.ofList text) = .ok ⟨String.ofList text, alternatives⟩ := by
  have hRead := takes_alternatives h (Nat.lt_succ_self _)
  rw [Takes] at hRead
  simp only [parse, String.toList_ofList, hRead]

theorem parse_of_render? [RegexEngine] {quote : Char} (hQuote : quote = '\'' ∨ quote = '"')
    {alternatives : List Complex} (hSome : alternatives ≠ [])
    (hWritable : ∀ complex ∈ alternatives, IsWritable complex) {pattern : String}
    (hPlain : Printer.render? quote alternatives = some pattern) :
    parse pattern = .ok ⟨pattern, alternatives⟩ := by
  obtain ⟨text, hText, hWrites⟩ := exists_writes hQuote hSome hWritable
  obtain rfl := Option.some.inj (hPlain.symm.trans hText)
  exact parse_of_writes hWrites

/-- Alternatives with valid paths and plain tests have a plain form in either quotes, which is read
as these alternatives, and so is every form that has other white space around commas, child
combinators and comparisons, in place of descendant combinators or just inside brackets, and other
quotes. -/
theorem parse_readsWritten [RegexEngine] (alternatives : List Complex) (hSome : alternatives ≠ [])
    (hWritable : ∀ complex ∈ alternatives, IsWritable complex) :
    (∀ quote, quote = '\'' ∨ quote = '"' →
      ∃ pattern, Printer.render? quote alternatives = some pattern ∧
        parse pattern = .ok ⟨pattern, alternatives⟩ ∧ Writes alternatives pattern.toList) ∧
    ∀ pattern : String, Writes alternatives pattern.toList →
      parse pattern = .ok ⟨pattern, alternatives⟩ := by
  constructor
  · intro quote hQuote
    obtain ⟨text, hPlain, hWrites⟩ := exists_writes hQuote hSome hWritable
    exact ⟨_, hPlain, parse_of_writes hWrites, by rwa [String.toList_ofList]⟩
  · intro pattern hWrites
    have hParse := parse_of_writes hWrites
    rwa [String.ofList_toList] at hParse

/-- A quote in a string, and white space wherever it may be put in. -/
theorem parse_readsWritten_spaced : ∃ alternatives,
    parse "* > Identifier[name!='it\\'s'], [a.0]" =
      .ok ⟨"* > Identifier[name!='it\\'s'], [a.0]", alternatives⟩ ∧
    parse " *>\tIdentifier[ name != \"it's\"\n] ,[a.0]" =
      .ok ⟨" *>\tIdentifier[ name != \"it's\"\n] ,[a.0]", alternatives⟩ := by
  have hName : IsPath ["name"] := by decide +kernel
  have hItem : IsPath ["a", "0"] := by decide +kernel
  obtain ⟨hPlain, hForms⟩ := parse_readsWritten
    [⟨⟨some .identifier, [⟨["name"], .differs (.text "it's")⟩]⟩, [(.child, ⟨none, []⟩)]⟩,
      ⟨⟨none, [⟨["a", "0"], .isPresent⟩]⟩, []⟩]
    (by simp)
    (by simp [IsWritable, IsWritableCompound, Complex.compounds, IsPlainTest, hName, hItem])
  obtain ⟨pattern, hRender, hParse, -⟩ := hPlain '\'' (.inl rfl)
  obtain rfl := Option.some.inj ((by decide +kernel : Printer.render? '\'' _ =
    some "* > Identifier[name!='it\\'s'], [a.0]").symm.trans hRender)
  refine ⟨_, hParse, hForms _ ?_⟩
  have hSpace : ∀ c, Text.isWhiteSpace c = true → IsSpace [c] := by simp [IsSpace]
  exact .more (hSpace ' ' (by decide))
    (.joined (.single .star) (.child isSpace_nil (hSpace '\t' (by decide)))
      (.kind .identifier (.cons (.bracketed hName (hSpace ' ' (by decide)) (hSpace '\n' (by decide))
        (.differs (hSpace ' ' (by decide)) (hSpace ' ' (by decide)) (.text "it's" (.inr rfl))))
        .nil)))
    (hSpace ' ' (by decide))
    (.last isSpace_nil (.single (.attributes (by simp)
      (.cons (.bracketed hItem isSpace_nil isSpace_nil .isPresent) .nil))) isSpace_nil)

end EcmaLint.Selector
