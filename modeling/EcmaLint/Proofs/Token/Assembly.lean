import EcmaLint.Proofs.Token.Layout

/-! Methods put together from the stretches of a text. The key, the parameters and the body of a
function are cut out of the text and put behind each other, with modifiers before them and
parentheses where there were none. The new text is scanned as these chunks, and what stood behind
the function is scanned as before. -/
namespace EcmaLint.Lexer

variable {state final : State} {cs left other : List Char} {offset : Nat} {newline : Option Bool}
  {chunks more front : List Chunk} {chunk : Chunk} {lexeme : Lexeme} {found rest : List Lexeme}
  {braces behind last : List Brace}

/-- The first lexeme is that of the first token. -/
theorem exists_eq_append_of_lexemes (h : lexemes offset newline chunks = lexeme :: rest) :
    ∃ trivia chunk more kind, chunks = trivia ++ chunk :: more ∧
      (∀ chunk ∈ trivia, chunk.IsTrivia) ∧ chunk.kind = .token kind ∧
      kind = lexeme.token.kind ∧ chunk.text = lexeme.token.text.toList := by
  induction chunks generalizing offset newline with
  | nil => cases h
  | cons chunk chunks ih =>
      obtain ⟨kind, chunk⟩ := chunk
      have hTrivia : (∀ token, kind ≠ .token token) →
          lexemes (offset + Text.byteLength chunk) (newline.map (· || endsLineIn chunk)) chunks =
            lexeme :: rest →
          ∃ trivia next more token, (⟨kind, chunk⟩ :: chunks : List Chunk) = trivia ++ next :: more ∧
            (∀ chunk ∈ trivia, chunk.IsTrivia) ∧ next.kind = .token token ∧
            token = lexeme.token.kind ∧ next.text = lexeme.token.text.toList := by
        intro hKind hRest
        obtain ⟨trivia, next, more, token, rfl, hAll, hNext⟩ := ih hRest
        exact ⟨⟨kind, chunk⟩ :: trivia, next, more, token, rfl,
          List.forall_mem_cons.mpr ⟨hKind, hAll⟩, hNext⟩
      cases kind with
      | blank | comment => exact hTrivia (by simp) h
      | token kind =>
          obtain ⟨rfl, -⟩ := List.cons.inj h
          exact ⟨[], _, chunks, kind, rfl, by simp, rfl, rfl, by simp⟩

/-- A stretch from its only token to that token. -/
theorem exists_eq_singleton_of_lexemes (hStarts : StartsWithToken chunks)
    (hEnds : EndsWithToken chunks) (h : lexemes offset newline chunks = [lexeme]) :
    ∃ chunk, chunks = [chunk] ∧ chunk.kind = .token lexeme.token.kind ∧
      chunk.text = lexeme.token.text.toList := by
  obtain ⟨⟨_, first⟩, rest, kind, rfl, rfl⟩ := hStarts
  obtain ⟨rfl, hRest⟩ := List.cons.inj h
  obtain ⟨init, ⟨_, last⟩, lastKind, hEq, rfl⟩ := hEnds
  cases init with
  | nil =>
      obtain ⟨hChunk, rfl⟩ := List.cons.inj hEq
      exact ⟨_, rfl, rfl, by simp⟩
  | cons chunk init =>
      obtain ⟨-, rfl⟩ := List.cons.inj hEq
      have hNil : lexemes (offset + Text.byteLength first) (some false)
          (init ++ [⟨.token lastKind, last⟩]) = [] := hRest
      rw [lexemes_append] at hNil
      exact absurd (List.append_eq_nil_iff.mp hNil).2 (by simp [lexemes])

theorem startsFreely_of_lexemes (h : lexemes offset newline chunks = lexeme :: rest)
    (hSlash : lexeme.token.text.toList.head? ≠ some '/') : StartsFreely chunks := by
  obtain ⟨trivia, chunk, more, kind, rfl, hTrivia, hKind, -, hText⟩ := exists_eq_append_of_lexemes h
  exact ⟨trivia, chunk, more, kind, rfl, hTrivia, hKind, hText ▸ hSlash⟩

/-- Every token has its lexeme. -/
theorem exists_lexeme_of_mem (h : chunk ∈ chunks) {kind : TokenKind}
    (hKind : chunk.kind = .token kind) :
    ∃ lexeme ∈ lexemes offset newline chunks, lexeme.token.kind = kind ∧
      lexeme.token.text.toList = chunk.text := by
  induction chunks generalizing offset newline with
  | nil => cases h
  | cons first chunks ih =>
      obtain ⟨firstKind, first⟩ := first
      rcases List.mem_cons.mp h with rfl | hRest
      · cases hKind
        exact ⟨_, List.mem_cons_self, rfl, by simp⟩
      · cases firstKind with
        | blank | comment => exact ih hRest
        | token =>
            obtain ⟨lexeme, hLexeme, hFound⟩ := @ih (offset + Text.byteLength first) (some false) hRest
            exact ⟨lexeme, List.mem_cons_of_mem _ hLexeme, hFound⟩

/-- What ends with a bracket ends by itself. -/
theorem exists_closed_of_lexemes (hEnds : EndsWithToken chunks)
    (hLast : (lexemes offset newline chunks).getLast? = some lexeme) {c : Char}
    (hText : lexeme.token.text = String.ofList [c]) (hc : c ∈ ['{', '}'] ++ singles) :
    ∃ init chunk, chunks = init ++ [chunk] ∧ chunk.IsClosed := by
  obtain ⟨init, ⟨_, text⟩, kind, rfl, rfl⟩ := hEnds
  refine ⟨init, _, rfl, Chunk.isClosed_of_single ?_ hc⟩
  rw [lexemes_append, lexemes, lexemes, List.getLast?_append, List.getLast?_singleton,
    Option.some_or] at hLast
  obtain rfl := Option.some.inj hLast
  exact (String.ofList_injective hText :)

namespace Run

/-- What stands between tokens starts with a blank or with a slash. -/
theorem head_of_isTrivia (h : Run state cs chunks final left) (hChunk : chunk ∈ chunks)
    (hTrivia : chunk.IsTrivia) :
    ∀ c ∈ chunk.text.head?, Text.isBlank c = true ∨ c = '/' := by
  obtain ⟨before, after, rfl⟩ := List.append_of_mem hChunk
  obtain ⟨between, mid, -, hRun⟩ := h.exists_split
  cases hRun with
  | @cons _ _ previous c rest _ found _ _ hPiece _ =>
      rintro _ ⟨⟩
      exact isBlank_or_eq_slash_of_piece hPiece hTrivia

/-- Behind a stretch without braces the same braces are open as before it. -/
theorem braces_eq_of_lexemes (h : Run state cs chunks final left)
    (hPlain : ∀ lexeme ∈ lexemes offset newline chunks,
      ∀ c ∈ lexeme.token.text.toList.head?, c ∉ ['`', '{', '}']) :
    final.braces = state.braces := by
  refine h.braces_eq fun chunk hChunk c hc => ?_
  by_cases hTrivia : chunk.IsTrivia
  · rcases h.head_of_isTrivia hChunk hTrivia c hc with hBlank | rfl
    · intro hBrace
      have hAll : (['`', '{', '}'].all fun c => !Text.isBlank c) = true := by decide
      have hNot := List.all_eq_true.mp hAll c hBrace
      rw [hBlank] at hNot
      cases hNot
    · decide
  · simp only [Chunk.IsTrivia, not_forall, not_not] at hTrivia
    obtain ⟨kind, hKind⟩ := hTrivia
    obtain ⟨lexeme, hLexeme, -, hText⟩ := exists_lexeme_of_mem hChunk hKind
    exact hPlain lexeme hLexeme c (hText ▸ hc)

/-- Nothing goes on with a stretch that starts with trivia or with a solid character. -/
theorem halts_of_lexemes (h : Run state cs chunks final left)
    (hFirst : lexemes offset newline chunks = lexeme :: rest)
    (hSolid : ∀ c ∈ lexeme.token.text.toList.head?, isSolid c = true) (other : List Char) :
    Halts (text chunks ++ other) := by
  obtain ⟨trivia, chunk, more, kind, rfl, hTrivia, hKind, -, hText⟩ :=
    exists_eq_append_of_lexemes hFirst
  intro c hc
  cases trivia with
  | nil =>
      have hNonempty := h.text_ne_nil chunk (by simp)
      obtain ⟨d, tail, hChunk⟩ := List.exists_cons_of_ne_nil hNonempty
      have hHead : d = c := by simpa [hChunk] using hc
      exact hSolid c (by simp [← hText, hChunk, hHead])
  | cons first trivia =>
      have hNonempty := h.text_ne_nil first (by simp)
      obtain ⟨d, tail, hChunk⟩ := List.exists_cons_of_ne_nil hNonempty
      have hHead : d = c := by simpa [hChunk] using hc
      rcases h.head_of_isTrivia (by simp) (hTrivia first (by simp)) d
        (by simp [hChunk]) with hBlank | rfl
      · exact hHead ▸ isSolid_of_isBlank hBlank
      · exact hHead ▸ by decide

end Run

/-- In front of a text some chunks are scanned, whatever a slash would mean before them. -/
def Scans (braces : List Brace) (chunks : List Chunk) (behind : List Brace) (other : List Char) :
    Prop :=
  ∀ expectsOperand, ∃ expects,
    Run ⟨expectsOperand, braces⟩ (text chunks ++ other) chunks ⟨expects, behind⟩ other

namespace Scans

theorem nil : Scans braces [] braces other := fun expectsOperand => ⟨expectsOperand, .nil⟩

theorem append (h : Scans braces chunks behind (text more ++ other))
    (h' : Scans behind more last other) : Scans braces (chunks ++ more) last other := by
  intro expectsOperand
  obtain ⟨between, hFirst⟩ := h expectsOperand
  obtain ⟨expects, hSecond⟩ := h' between
  rw [text_append, List.append_assoc]
  exact ⟨expects, hFirst.append hSecond⟩

/-- A stretch of another text whose first token is no slash. -/
theorem of_run (h : Run state cs chunks final left) (hStart : StartsFreely chunks)
    (hSealed : Sealed chunks left other) : Scans state.braces chunks final.braces other :=
  fun expectsOperand => ⟨final.expectsOperand, h.elsewhere hStart hSealed expectsOperand⟩

/-- A stretch in front of what has always stood behind it. -/
theorem same (h : Run state cs chunks final left) (hStart : StartsFreely chunks) :
    Scans state.braces chunks final.braces left := by
  intro expectsOperand
  rw [← h.eq_append]
  obtain ⟨trivia, chunk, more, kind, rfl, hTrivia, hKind, hSlash⟩ := hStart
  exact ⟨final.expectsOperand, h.expecting hTrivia hKind hSlash expectsOperand⟩

theorem mark {c : Char} (hc : c ∈ singles) : Scans braces [.mark c] braces other :=
  fun _ => ⟨_, run_single hc _ other⟩

theorem space : Scans braces [.space] braces other := fun _ => ⟨_, run_space _ other⟩

theorem star (hOther : ∀ c ∈ other.head?, c ≠ '*' ∧ c ≠ '=') :
    Scans braces [.mark '*'] braces other := fun _ => ⟨_, run_star hOther _⟩

theorem colon : Scans braces [.mark ':'] braces other := fun _ => ⟨_, run_colon _ other⟩

theorem word {c : Char} {cs : List Char} (hStart : Text.isWordStart c = true)
    (hParts : ∀ d ∈ cs, Text.isWordPart d = true)
    (hOther : ∀ d ∈ other.head?, Text.isWordPart d = false) :
    Scans braces [.word (c :: cs)] braces other := by
  intro expectsOperand
  have hText : text [.word (c :: cs)] = c :: cs := List.append_nil _
  rw [hText]
  exact ⟨_, run_word hStart hParts hOther ⟨expectsOperand, braces⟩⟩

end Scans

/-- The chunks of a stretch that stands behind others, with its lexemes. -/
def Holds (lead : List Char) (front chunks : List Chunk) (found : List Lexeme) : Prop :=
  ∃ newline, lexemes (Text.byteLength (lead ++ text front)) newline chunks = found

/-- A property cut at the parts of its value, which is a function: behind the key, in front of the
parameters, behind them, in front of the body and behind it. In front of the parameters and of the
body of a function that is no arrow function, the cut is made behind the token before them, so that
they keep the blanks and comments between. -/
structure MethodCut (isArrow : Bool) (lead : List Char)
    (front key head params arrow block closes : List Chunk)
    (keys heads paramLexemes arrows blocks closings : List Lexeme) : Prop where
  isArrow_iff : isArrow = true ↔ arrows ≠ []
  keys_hold : Holds lead front key keys
  key_starts : StartsWithToken key
  key_ends : EndsWithToken key
  heads_hold : Holds lead (front ++ key) head heads
  head_ends : isArrow = false → EndsWithToken head
  params_hold : Holds lead (front ++ key ++ head) params paramLexemes
  params_starts : isArrow = true → StartsWithToken params
  params_ends : EndsWithToken params
  arrows_hold : Holds lead (front ++ key ++ head ++ params) arrow arrows
  arrow_ends : isArrow = true → EndsWithToken arrow
  arrow_nil : isArrow = false → arrow = []
  blocks_hold : Holds lead (front ++ key ++ head ++ params ++ arrow) block blocks
  block_ends : EndsWithToken block
  closings_hold : Holds lead (front ++ key ++ head ++ params ++ arrow ++ block) closes closings
  closes_ends : closings ≠ [] → EndsWithToken closes
  closes_nil : closings = [] → closes = []

/-- Behind a stretch without braces the same braces are open as before it. -/
theorem Run.braces_eq_of_holds {lead : List Char} (h : Run state cs chunks final left)
    (hHolds : Holds lead front chunks found)
    (hPlain : ∀ lexeme ∈ found, ∀ c ∈ lexeme.token.text.toList.head?, c ∉ ['`', '{', '}']) :
    final.braces = state.braces := by
  obtain ⟨newline, rfl⟩ := hHolds
  exact h.braces_eq_of_lexemes hPlain

/-- Behind some lexemes, if there are any, chunks are cut at the end of the last one. -/
theorem exists_cut_behind_or {first second : List Lexeme}
    (h : lexemes offset (some false) chunks = first ++ second) :
    ∃ front back, chunks = front ++ back ∧ lexemes offset (some false) front = first ∧
      (first ≠ [] → EndsWithToken front) ∧ (first = [] → front = []) ∧
      lexemes (offset + Text.byteLength (text front)) (some false) back = second := by
  by_cases hFirst : first = []
  · subst hFirst
    exact ⟨[], chunks, rfl, rfl, fun hNot => absurd rfl hNot, fun _ => rfl, h⟩
  · obtain ⟨front, back, hEq, hEnds, hFront, hBack⟩ := exists_cut_behind h hFirst
    exact ⟨front, back, hEq, hFront, fun _ => hEnds, fun hNil => absurd hNil hFirst, hBack⟩

theorem EndsWithToken.ne_nil (h : EndsWithToken chunks) : chunks ≠ [] := by
  obtain ⟨init, last, _, rfl, -⟩ := h
  simp

theorem EndsWithToken.of_append (h : EndsWithToken (chunks ++ more)) (hNonempty : more ≠ []) :
    EndsWithToken more := by
  obtain ⟨init, last, rfl⟩ := (List.eq_nil_or_concat more).resolve_left hNonempty
  rw [List.concat_eq_append] at h ⊢
  obtain ⟨before, final, kind, hEq, hKind⟩ := h
  rw [← List.append_assoc] at hEq
  obtain ⟨-, hLast⟩ := List.append_inj' hEq rfl
  obtain rfl := (List.cons.inj hLast).1
  exact ⟨init, last, kind, rfl, hKind⟩

theorem StartsWithToken.of_append (h : StartsWithToken (chunks ++ more)) (hNonempty : chunks ≠ []) :
    StartsWithToken chunks := by
  obtain ⟨first, rest, rfl⟩ := List.exists_cons_of_ne_nil hNonempty
  obtain ⟨_, _, kind, hEq, hKind⟩ := h
  obtain ⟨rfl, -⟩ := List.cons.inj hEq
  exact ⟨first, rest, kind, rfl, hKind⟩

theorem StartsWithToken.append (h : StartsWithToken chunks) (more : List Chunk) :
    StartsWithToken (chunks ++ more) := by
  obtain ⟨first, rest, kind, rfl, hKind⟩ := h
  exact ⟨first, rest ++ more, kind, rfl, hKind⟩

theorem exists_methodCut {isArrow : Bool} {lead : List Char}
    {keys heads paramLexemes arrows blocks closings : List Lexeme} (hStarts : StartsWithToken chunks)
    (hEnds : EndsWithToken chunks) (h : Holds lead front chunks
      (keys ++ (heads ++ (paramLexemes ++ (arrows ++ (blocks ++ closings))))))
    (hKeys : keys ≠ []) (hHeads : heads ≠ []) (hParams : paramLexemes ≠ [])
    (hArrow : isArrow = true ↔ arrows ≠ []) (hBlocks : blocks ≠ []) :
    ∃ key head params arrow block closes,
      chunks = key ++ (head ++ (params ++ (arrow ++ (block ++ closes)))) ∧
      MethodCut isArrow lead front key head params arrow block closes keys heads paramLexemes
        arrows blocks closings := by
  obtain ⟨newline, hRest⟩ := h
  obtain ⟨key, behindKey, rfl, hKeyEnds, hKeys', hRest⟩ := exists_cut_behind hRest hKeys
  rw [← byteLength_text_append] at hRest
  -- in front of the parameters the cut depends on the function
  obtain ⟨head, behindHead, newline, rfl, hHeadEnds, hParamsStart, hHeads', hRest⟩ :
      ∃ head behindHead newline, behindKey = head ++ behindHead ∧
        (isArrow = false → EndsWithToken head) ∧
        (isArrow = true → StartsWithToken behindHead) ∧
        lexemes (Text.byteLength (lead ++ text (front ++ key))) (some false) head = heads ∧
        lexemes (Text.byteLength (lead ++ text (front ++ key)) + Text.byteLength (text head))
          newline behindHead = paramLexemes ++ (arrows ++ (blocks ++ closings)) := by
    cases isArrow with
    | true =>
        obtain ⟨head, rest, hEq, hStarts, hHead, hRest⟩ := exists_cut_before hRest (by simp [hParams])
        exact ⟨head, rest, _, hEq, by simp, fun _ => hStarts, hHead, hRest⟩
    | false =>
        obtain ⟨head, rest, hEq, hEnds, hHead, hRest⟩ := exists_cut_behind hRest hHeads
        exact ⟨head, rest, _, hEq, fun _ => hEnds, by simp, hHead, hRest⟩
  rw [← byteLength_text_append] at hRest
  obtain ⟨params, behindParams, rfl, hParamsEnds, hParams', hRest⟩ := exists_cut_behind hRest hParams
  rw [← byteLength_text_append] at hRest
  obtain ⟨arrow, behindArrow, rfl, hArrows', hArrowEnds, hArrowNil, hRest⟩ :=
    exists_cut_behind_or hRest
  rw [← byteLength_text_append] at hRest
  obtain ⟨block, closes, rfl, hBlockEnds, hBlocks', hRest⟩ := exists_cut_behind hRest hBlocks
  rw [← byteLength_text_append] at hRest
  refine ⟨key, head, params, arrow, block, closes, rfl, ?_⟩
  simp only [← List.append_assoc] at hEnds
  exact
    { isArrow_iff := hArrow
      keys_hold := ⟨_, hKeys'⟩
      key_starts := hStarts.of_append hKeyEnds.ne_nil
      key_ends := hKeyEnds
      heads_hold := ⟨_, hHeads'⟩
      head_ends := hHeadEnds
      params_hold := ⟨_, hParams'⟩
      params_starts := fun hIs => (hParamsStart hIs).of_append hParamsEnds.ne_nil
      params_ends := hParamsEnds
      arrows_hold := ⟨_, hArrows'⟩
      arrow_ends := fun hIs => hArrowEnds (hArrow.mp hIs)
      arrow_nil := fun hIs => hArrowNil (by
        by_contra hSome
        exact Bool.false_ne_true (hIs.symm.trans (hArrow.mpr hSome)))
      blocks_hold := ⟨_, hBlocks'⟩
      block_ends := hBlockEnds
      closings_hold := ⟨_, hRest⟩
      closes_ends := fun hSome => hEnds.of_append (by rintro rfl; exact hSome hRest.symm)
      closes_nil := fun hNil => by
        by_contra hSome
        obtain ⟨init, last, hLast, -⟩ := exists_lexeme_of_endsWithToken (hEnds.of_append hSome)
        rw [hNil, hLast] at hRest
        simp at hRest }

/-- The words in front of the key of a method. -/
def modifierChunks (isAsync isGenerator : Bool) : List Chunk :=
  (if isAsync then [.word ['a', 's', 'y', 'n', 'c'], .space] else []) ++
    (if isGenerator then [.mark '*'] else [])

/-- Parameters in parentheses. -/
def paramsChunks (isBare : Bool) (params : List Chunk) : List Chunk :=
  if isBare then .mark '(' :: (params ++ [.mark ')']) else params

/-- A method with a key, parameters and a body that were cut out of a text. -/
def methodChunks (isAsync isGenerator isBare : Bool) (key params block : List Chunk) : List Chunk :=
  modifierChunks isAsync isGenerator ++ (key ++ (paramsChunks isBare params ++ block))

/-- How the lexemes of a property look whose value is a function. -/
structure MethodLexemes (isBare : Bool)
    (keys heads params arrows blocks closings : List Lexeme) : Prop where
  key_first : ∃ lexeme ∈ keys.head?, ∀ c ∈ lexeme.token.text.toList.head?, c ∉ ['/', '*', '=']
  key_last : (∃ lexeme, keys = [lexeme]) ∨ ∃ lexeme ∈ keys.getLast?, lexeme.token.text = "]"
  head_first : ∃ lexeme ∈ heads.head?, lexeme.token.text = ":"
  plain : ∀ lexeme ∈ heads ++ arrows ++ closings,
    ∀ c ∈ lexeme.token.text.toList.head?, c ∉ ['`', '{', '}']
  params_first : isBare = false → ∃ lexeme ∈ params.head?, lexeme.token.text = "("
  params_last : isBare = false → ∃ lexeme ∈ params.getLast?, lexeme.token.text = ")"
  params_bare : isBare = true → arrows ≠ [] ∧ ∃ lexeme, params = [lexeme] ∧
    lexeme.token.kind = .identifier ∧ lexeme.token.IsSpelt
  block_first : ∃ lexeme ∈ blocks.head?, lexeme.token.text = "\x7b"
  block_last : ∃ lexeme ∈ blocks.getLast?, lexeme.token.text = "\x7d"

/-- In front of anything the word `async` may stand with a space behind it. -/
theorem scans_async {isAsync : Bool} :
    Scans braces (if isAsync then [.word ['a', 's', 'y', 'n', 'c'], .space] else []) braces other := by
  cases isAsync with
  | true =>
      change Scans braces ([.word ['a', 's', 'y', 'n', 'c']] ++ [.space]) braces _
      have hParts : ['s', 'y', 'n', 'c'].all Text.isWordPart = true := by decide +kernel
      refine .append (.word (by decide +kernel) (List.all_eq_true.mp hParts) ?_) .space
      rintro _ ⟨⟩
      decide +kernel
  | false => exact .nil

/-- In front of a key modifiers are scanned as such. -/
theorem scans_modifierChunks {isAsync isGenerator : Bool}
    (hOther : ∀ c ∈ other.head?, c ≠ '*' ∧ c ≠ '=') :
    Scans braces (modifierChunks isAsync isGenerator) braces other := by
  refine .append scans_async ?_
  cases isGenerator with
  | true => exact .star hOther
  | false => exact .nil

/-- An identifier is scanned as a word. -/
theorem exists_word_of_spelt (hSpelt : Spelt .identifier cs) :
    ∃ c rest, cs = c :: rest ∧ Text.isWordStart c = true ∧
      (∀ d ∈ rest, Text.isWordPart d = true) ∧ TokenKind.ofWord (String.ofList cs) = .identifier := by
  generalize hKind : TokenKind.identifier = kind at hSpelt
  cases hSpelt with
  | word hStart hParts => exact ⟨_, _, rfl, hStart, hParts, rfl⟩
  | number | fraction | string | template | regularExpression | punctuator => cases hKind

/-- A key is scanned as before in front of what nothing goes on with. -/
theorem Holds.scans_key {lead : List Char} {key : List Chunk} {keys : List Lexeme}
    (h : Holds lead front key keys) (hStarts : StartsWithToken key)
    (hEnds : EndsWithToken key)
    (hFirst : ∃ lexeme ∈ keys.head?, ∀ c ∈ lexeme.token.text.toList.head?, c ∉ ['/', '*', '='])
    (hLast : (∃ lexeme, keys = [lexeme]) ∨ ∃ lexeme ∈ keys.getLast?, lexeme.token.text = "]")
    (hRun : Run state cs key final left) (hLeft : Halts left) (hOther : Halts other) :
    Scans state.braces key final.braces other := by
  obtain ⟨newline, hKeys⟩ := h
  obtain ⟨first, hFirst, hHead⟩ := hFirst
  obtain ⟨rest, hCons⟩ := List.head?_eq_some_iff.mp hFirst
  have hSlash : first.token.text.toList.head? ≠ some '/' := fun hSlash =>
    hHead '/' hSlash (by decide)
  refine .of_run hRun (startsFreely_of_lexemes (hKeys.trans hCons) hSlash) ?_
  obtain ⟨lexeme, hSingle⟩ | ⟨last, hLast, hBracket⟩ := hLast
  · obtain rfl : lexeme = first := by
      rw [hSingle] at hCons
      exact (List.cons.inj hCons).1
    obtain ⟨chunk, rfl, -, hText⟩ := exists_eq_singleton_of_lexemes hStarts hEnds
      (hKeys.trans hSingle)
    exact sealed_of_halts (hText ▸ hSlash) hLeft hOther
  · obtain ⟨init, chunk, rfl, hClosed⟩ := exists_closed_of_lexemes hEnds
      (hKeys ▸ hLast) (c := ']') hBracket (by decide)
    exact sealed_of_isClosed hClosed

namespace MethodCut

variable {isArrow isBare isAsync isGenerator : Bool} {lead : List Char}
  {key head params arrow block closes back : List Chunk}
  {keys heads paramLexemes arrows blocks closings : List Lexeme}
  (h : MethodCut isArrow lead front key head params arrow block closes keys heads paramLexemes
    arrows blocks closings)
  (hLooks : MethodLexemes isBare keys heads paramLexemes arrows blocks closings)
include h hLooks

/-- Parameters are scanned as before, also in parentheses of their own. -/
theorem scans_params (hRun : Run state cs params final left) :
    Scans state.braces (paramsChunks isBare params) final.braces other := by
  obtain ⟨newline, hParams⟩ := h.params_hold
  cases isBare with
  | true =>
      obtain ⟨hArrow, lexeme, hSingle, hKind, hSpelt⟩ := hLooks.params_bare rfl
      rw [hSingle] at hParams
      rw [Token.IsSpelt, hKind] at hSpelt
      obtain ⟨c, rest, hText, hStart, hParts, hWord⟩ := exists_word_of_spelt hSpelt
      obtain ⟨⟨_, chunk⟩, rfl, rfl, rfl⟩ := exists_eq_singleton_of_lexemes
        (h.params_starts (h.isArrow_iff.mpr hArrow)) h.params_ends hParams
      have hBraces : final.braces = state.braces := by
        refine hRun.braces_eq fun chunk hChunk d hd hBrace => ?_
        rw [List.mem_singleton.mp hChunk, hText] at hd
        obtain rfl : c = d := Option.some.inj hd
        have hAll : (['`', '{', '}'].all fun c => !Text.isWordStart c) = true := by decide +kernel
        have hNot := List.all_eq_true.mp hAll c hBrace
        rw [hStart] at hNot
        cases hNot
      have hChunk : (⟨.token lexeme.token.kind, lexeme.token.text.toList⟩ : Chunk) =
          .word (c :: rest) := by
        rw [Chunk.word, ← hText, hWord, hKind]
      rw [hBraces, hChunk]
      change Scans state.braces ([.mark '('] ++ ([.word (c :: rest)] ++ [.mark ')'])) state.braces other
      refine .append (.mark (by decide)) (.append (.word hStart hParts ?_) (.mark (by decide)))
      rintro _ ⟨⟩
      decide +kernel
  | false =>
      obtain ⟨first, hFirst, hOpens⟩ := hLooks.params_first rfl
      obtain ⟨last, hLast, hCloses⟩ := hLooks.params_last rfl
      obtain ⟨rest, hCons⟩ := List.head?_eq_some_iff.mp hFirst
      obtain ⟨init, chunk, hEq, hClosed⟩ := exists_closed_of_lexemes h.params_ends
        (hParams ▸ hLast) (c := ')') hCloses (by decide)
      refine .of_run hRun (startsFreely_of_lexemes (hParams.trans hCons) (by rw [hOpens]; decide)) ?_
      subst hEq
      exact sealed_of_isClosed hClosed

/-- Neither a key nor a modifier goes on with the parameters. -/
theorem halts_params (hRun : Run state cs params final left) (other : List Char) :
    Halts (text (paramsChunks isBare params) ++ other) := by
  cases isBare with
  | true =>
      rintro _ ⟨⟩
      decide +kernel
  | false =>
      obtain ⟨newline, hParams⟩ := h.params_hold
      obtain ⟨first, hFirst, hOpens⟩ := hLooks.params_first rfl
      obtain ⟨rest, hCons⟩ := List.head?_eq_some_iff.mp hFirst
      refine hRun.halts_of_lexemes (hParams.trans hCons) ?_ other
      rw [hOpens]
      rintro _ ⟨⟩
      decide +kernel

theorem scans_key (hRun : Run state cs key final left) (hLeft : Halts left) (hOther : Halts other) :
    Scans state.braces key final.braces other :=
  h.keys_hold.scans_key h.key_starts h.key_ends hLooks.key_first hLooks.key_last hRun hLeft hOther

theorem halts_head (hRun : Run state cs head final left) : Halts (text head ++ left) := by
  obtain ⟨newline, hHeads⟩ := h.heads_hold
  obtain ⟨first, hFirst, hColon⟩ := hLooks.head_first
  obtain ⟨rest, hCons⟩ := List.head?_eq_some_iff.mp hFirst
  refine hRun.halts_of_lexemes (hHeads.trans hCons) ?_ left
  rw [hColon]
  rintro _ ⟨⟩
  decide +kernel

theorem scans_block (hRun : Run state cs block final left) :
    Scans state.braces block final.braces other := by
  obtain ⟨newline, hBlocks⟩ := h.blocks_hold
  obtain ⟨first, hFirst, hOpens⟩ := hLooks.block_first
  obtain ⟨rest, hCons⟩ := List.head?_eq_some_iff.mp hFirst
  obtain ⟨last, hLast, hCloses⟩ := hLooks.block_last
  obtain ⟨init, chunk, hEq, hClosed⟩ := exists_closed_of_lexemes h.block_ends
    (hBlocks ▸ hLast) (c := '}') hCloses (by decide)
  refine .of_run hRun (startsFreely_of_lexemes (hBlocks.trans hCons) (by rw [hOpens]; decide)) ?_
  subst hEq
  exact sealed_of_isClosed hClosed

/-- A method is scanned in the place of the property, and what follows as before. -/
theorem scans (hRun : Run state cs
      (key ++ (head ++ (params ++ (arrow ++ (block ++ (closes ++ back)))))) final left)
    (hBack : StartsFreely back) :
    Scans state.braces (methodChunks isAsync isGenerator isBare key params block ++ back)
      final.braces left := by
  obtain ⟨_, _, hKeyRun, hRun⟩ := hRun.exists_split
  obtain ⟨_, _, hHeadRun, hRun⟩ := hRun.exists_split
  obtain ⟨_, _, hParamsRun, hRun⟩ := hRun.exists_split
  obtain ⟨_, _, hArrowRun, hRun⟩ := hRun.exists_split
  obtain ⟨_, _, hBlockRun, hRun⟩ := hRun.exists_split
  obtain ⟨_, _, hClosesRun, hBackRun⟩ := hRun.exists_split
  have hPlain := hLooks.plain
  -- what is left out opens and closes no braces
  have hHeadBraces := hHeadRun.braces_eq_of_holds h.heads_hold fun lexeme hLexeme =>
    hPlain lexeme (by simp [hLexeme])
  have hArrowBraces := hArrowRun.braces_eq_of_holds h.arrows_hold fun lexeme hLexeme =>
    hPlain lexeme (by simp [hLexeme])
  have hClosesBraces := hClosesRun.braces_eq_of_holds h.closings_hold fun lexeme hLexeme =>
    hPlain lexeme (by simp [hLexeme])
  -- the modifiers
  have hKeyStart : ∀ c ∈ (text (key ++ (paramsChunks isBare params ++ (block ++ back))) ++
      left).head?, c ≠ '*' ∧ c ≠ '=' := by
    intro c hc
    obtain ⟨first, hFirst, hHead⟩ := hLooks.key_first
    obtain ⟨rest, hCons⟩ := List.head?_eq_some_iff.mp hFirst
    obtain ⟨newline, hKeys⟩ := h.keys_hold
    obtain ⟨⟨_, chunk⟩, more, kind, rfl, rfl⟩ := h.key_starts
    obtain ⟨rfl, -⟩ := List.cons.inj (hKeys.trans hCons)
    have hNonempty := hKeyRun.text_ne_nil _ List.mem_cons_self
    obtain ⟨d, tail, hChunk⟩ := List.exists_cons_of_ne_nil hNonempty
    have hSame : chunk.head? = some c := by
      dsimp only at hChunk
      simpa [hChunk] using hc
    have hNot := hHead c (by simpa using hSame)
    simp at hNot
    exact hNot.2
  have hModifiers := @scans_modifierChunks _ state.braces isAsync isGenerator hKeyStart
  -- the key, which a colon followed and a parenthesis follows now
  have hHalts := hHeadRun.eq_append ▸ h.halts_head hLooks hHeadRun
  have hKey := h.scans_key hLooks hKeyRun hHalts
    (h.halts_params hLooks hParamsRun (text (block ++ back) ++ left))
  -- the parameters, the body and what follows
  have hRest : Scans state.braces (modifierChunks isAsync isGenerator ++
      (key ++ (paramsChunks isBare params ++ (block ++ back)))) final.braces left := by
    refine .append hModifiers (.append (by rwa [text_append, List.append_assoc]) ?_)
    rw [← hHeadBraces]
    refine .append (h.scans_params hLooks hParamsRun) ?_
    rw [← hArrowBraces]
    refine .append (h.scans_block hLooks hBlockRun) ?_
    rw [← hClosesBraces]
    exact .same hBackRun hBack
  simpa [methodChunks, List.append_assoc] using hRest

end MethodCut

/-- In front of a token other chunks may be put into a text, behind a brace or a comma. -/
theorem Layout.exchange_scans {source : String} {lead : List Char}
    (h : Layout source lead (front ++ chunks)) (hStarts : StartsWithToken chunks)
    (hMark : ∃ mark ∈ (lexemes (Text.byteLength lead) none front).getLast?,
      mark.token.text = "\x7b" ∨ mark.token.text = ",")
    (hScans : ∀ state cs final, Run state cs chunks final [] →
      Scans state.braces more final.braces []) :
    Layout (String.ofList (lead ++ text (front ++ more))) lead (front ++ more) := by
  obtain ⟨mark, hLast, hText⟩ := hMark
  obtain ⟨init, last, rfl⟩ : ∃ init last, front = init ++ [last] := by
    rcases List.eq_nil_or_concat front with rfl | ⟨init, last, rfl⟩
    · cases hLast
    · exact ⟨init, last, List.concat_eq_append⟩
  obtain ⟨final, hRun⟩ := h.run
  have hClosed : last.IsClosed := by
    by_cases hTrivia : last.IsTrivia
    · obtain ⟨next, rest, kind, rfl, hToken⟩ := hStarts
      rw [List.append_assoc] at hRun
      obtain ⟨_, _, -, hBehind⟩ := hRun.exists_split
      exact hBehind.isClosed_of_isTrivia hTrivia hToken
    · simp only [Chunk.IsTrivia, not_forall, not_not] at hTrivia
      obtain ⟨kind, hKind⟩ := hTrivia
      have hEnds : EndsWithToken (init ++ [last]) := ⟨init, last, kind, rfl, hKind⟩
      obtain ⟨_, chunk, hEq, hClosed⟩ : ∃ before chunk, init ++ [last] = before ++ [chunk] ∧
          chunk.IsClosed := by
        rcases hText with hBrace | hComma
        · exact exists_closed_of_lexemes hEnds hLast (c := '{') hBrace (by decide)
        · exact exists_closed_of_lexemes hEnds hLast (c := ',') hComma (by decide)
      obtain ⟨-, hSame⟩ := List.append_inj' hEq rfl
      exact (List.cons.inj hSame).1 ▸ hClosed
  obtain ⟨between, mid, hFront, hBehind⟩ := hRun.exists_split
  obtain ⟨expects, hMore⟩ := hScans _ _ _ hBehind between.expectsOperand
  rw [List.append_nil] at hMore
  refine @exchange _ _ _ _ _ h (by simp) ⟨expects, final.braces⟩ ?_
  rw [text_append]
  exact (hFront.before (sealed_of_isClosed hClosed)).append hMore

end EcmaLint.Lexer
