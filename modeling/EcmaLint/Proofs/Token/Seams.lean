import EcmaLint.Proofs.Token.Spelling

/-! Stretches of a scan put together in another way. A stretch is scanned as before wherever the same
braces are open, if its first token is no slash and if what it ends with is told apart from what is
put behind it. -/
namespace EcmaLint.Lexer

theorem isSolid_of_isBlank {c : Char} (h : Text.isBlank c = true) : isSolid c = true := by
  have hRange : ∃ range ∈ Text.blankRanges, range.1 ≤ c.toNat ∧ c.toNat ≤ range.2 := by
    simpa [Text.isBlank, Text.inRanges] using h
  have hAll : (Text.blankRanges.all fun range => (List.range' range.1 (range.2 + 1 - range.1)).all
      fun n => isSolid (Char.ofNat n)) = true := by decide +kernel
  obtain ⟨range, hRange, hLow, hHigh⟩ := hRange
  have hSolid := List.all_eq_true.mp (List.all_eq_true.mp hAll range hRange) c.toNat
    (List.mem_range'_1.mpr ⟨hLow, by omega⟩)
  rwa [Char.ofNat_toNat] at hSolid

theorem isBlank_of_isLineTerminator {c : Char} (h : Text.isLineTerminator c = true) :
    Text.isBlank c = true := by
  simp only [Text.isLineTerminator, Bool.or_eq_true, beq_iff_eq] at h
  rcases h with ((rfl | rfl) | rfl) | rfl <;> decide

theorem endsLine_drop_lineLength (cs : List Char) : EndsLine (cs.drop (lineLength cs)) := by
  induction cs with
  | nil => simp [EndsLine]
  | cons c cs ih =>
      by_cases hEnds : Text.isLineTerminator c = true
      · simp [lineLength, EndsLine, hEnds]
      · simpa [lineLength, hEnds] using ih

variable {state between final : State} {cs left other : List Char}
  {chunks trivia more front : List Chunk} {chunk next : Chunk} {c : Char} {braces : List Brace}

/-- A chunk that ends by itself, and with which nothing before it goes on. -/
structure Chunk.IsClosed (chunk : Chunk) : Prop where
  delimited : chunk.IsDelimited
  solid : ∃ c ∈ chunk.text, isSolid c = true

theorem Chunk.isClosed_of_single (h : chunk.text = [c]) (hc : c ∈ ['{', '}'] ++ singles) :
    chunk.IsClosed where
  delimited := by
    refine .inr (.inl ⟨c, by rw [h]; rfl, ?_⟩)
    simp only [delimiters, singles, List.mem_append, List.mem_cons, List.not_mem_nil, or_false]
      at hc ⊢
    tauto
  solid := by
    have hAll : (['{', '}'] ++ singles).all isSolid = true := by decide +kernel
    exact ⟨c, by simp [h], List.all_eq_true.mp hAll c hc⟩

/-- Behind a chunk that is closed anything may follow. -/
theorem sealed_of_isClosed (h : chunk.IsClosed) : Sealed (front ++ [chunk]) left other :=
  sealed_of_isSolid h.solid (.inl h.delimited)

/-- A single chunk is told apart from what nothing goes on with. -/
theorem sealed_of_halts (h : chunk.text.head? ≠ some '/') (hLeft : Halts left)
    (hOther : Halts other) : Sealed [chunk] left other := by
  intro before inner back hEq
  obtain ⟨rfl, hRest⟩ | ⟨_, _, hNil⟩ := List.cons_eq_append_iff.mp hEq
  · obtain ⟨rfl, rfl⟩ := List.cons.inj hRest
    exact .inr ⟨[], left, other, rfl, rfl, hLeft, hOther, fun hSlash => absurd hSlash h⟩
  · simp at hNil

/-- No line goes on with a token, so what stands right before a token is closed if it is none. -/
theorem Run.isClosed_of_isTrivia (h : Run state cs (chunk :: next :: more) final left)
    (hTrivia : chunk.IsTrivia) {kind : TokenKind} (hToken : next.kind = .token kind) :
    chunk.IsClosed := by
  cases h with
  | @cons _ _ previous c rest _ found _ _ hPiece hRest =>
      have hWritten := written_of_piece hPiece
      by_cases hBlank : Text.isBlank c = true
      · have hKind := piece_blank hBlank ▸ hPiece
        cases hKind
        exact ⟨.inl rfl, c, by simp, isSolid_of_isBlank hBlank⟩
      by_cases hSlash : c = '/'
      · subst hSlash
        by_cases hBlock : rest.head? = some '*'
        · obtain ⟨tail, rfl⟩ := List.head?_eq_some_iff.mp hBlock
          rw [piece_blockComment rfl] at hPiece
          split at hPiece
          case h_1 => cases hPiece
          case h_2 =>
            cases hPiece
            exact ⟨.inr (.inr ⟨_, rfl⟩), '/', List.mem_cons_self, by decide⟩
        by_cases hLine : rest.head? = some '/'
        · rw [piece_lineComment hLine] at hPiece
          cases hPiece
          -- what follows the line ends it, and so it is blank
          have hEnds := endsLine_drop_lineLength rest
          generalize rest.drop (lineLength rest) = tail at hRest hEnds
          cases hRest with
          | @cons _ _ _ d behind _ foundNext _ _ hNext _ =>
              have hBlankNext := isBlank_of_isLineTerminator (hEnds d rfl)
              rw [piece_blank hBlankNext] at hNext
              cases hNext
              cases hToken
        · rw [piece_operator hLine hBlock] at hPiece
          repeat' split at hPiece
          all_goals cases hPiece
          all_goals exact absurd rfl (hTrivia _)
      · rcases isBlank_or_eq_slash_of_piece hPiece hTrivia with hBlank' | hSlash'
        · exact absurd hBlank' hBlank
        · exact absurd hSlash' hSlash

/-- The first token of some chunks is no slash. -/
def StartsFreely (chunks : List Chunk) : Prop :=
  ∃ trivia chunk more kind, chunks = trivia ++ chunk :: more ∧
    (∀ chunk ∈ trivia, chunk.IsTrivia) ∧ chunk.kind = .token kind ∧ chunk.text.head? ≠ some '/'

namespace Run

/-- A stretch is scanned as before wherever the same braces are open. -/
theorem elsewhere (h : Run state cs chunks final left) (hStart : StartsFreely chunks)
    (hSealed : Sealed chunks left other) (expectsOperand : Bool) :
    Run ⟨expectsOperand, state.braces⟩ (text chunks ++ other) chunks final other := by
  obtain ⟨trivia, chunk, more, kind, rfl, hTrivia, hKind, hSlash⟩ := hStart
  exact (h.expecting hTrivia hKind hSlash expectsOperand).before hSealed

/-- A text is scanned in one way. -/
theorem chunks_eq (h : Run state cs chunks final []) {other : State} (h' : Run state cs more other []) :
    chunks = more := by
  generalize hLeft : ([] : List Char) = left at h
  induction h generalizing more with
  | nil =>
      subst hLeft
      cases h'
      rfl
  | cons hPrevious hPiece _ ih =>
      cases h' with
      | cons hPrevious' hPiece' hRest' =>
          rw [piece_eq_of_regexAllowed (hPrevious.trans hPrevious'.symm), hPiece'] at hPiece
          cases hPiece
          rw [ih hRest' hLeft]

end Run

/-- The chunk of a character that is a punctuator. -/
def Chunk.mark (c : Char) : Chunk := ⟨.token .punctuator, [c]⟩

/-- The chunk of a word. -/
def Chunk.word (word : List Char) : Chunk := ⟨.token (.ofWord (String.ofList word)), word⟩

/-- The chunk of a space. -/
def Chunk.space : Chunk := ⟨.blank, [' ']⟩

theorem run_single (hc : c ∈ singles) (state : State) (other : List Char) :
    Run state (c :: other) [.mark c]
      ⟨(Chunk.mark c).expectsOperand state.expectsOperand, state.braces⟩ other := by
  obtain ⟨previous, hPrevious⟩ := exists_regexAllowed_eq state.expectsOperand
  exact .cons_of_piece hPrevious (piece_single hc) rfl .nil

theorem run_blank (hc : Text.isBlank c = true) (state : State) (other : List Char) :
    Run state (c :: other) [⟨.blank, [c]⟩] state other := by
  obtain ⟨previous, hPrevious⟩ := exists_regexAllowed_eq state.expectsOperand
  exact .cons_of_piece hPrevious (piece_blank hc) rfl .nil

theorem run_space (state : State) (other : List Char) :
    Run state (' ' :: other) [.space] state other :=
  run_blank (by decide) state other

/-- A star is a punctuator of its own unless another star or an equals sign follows. -/
theorem run_star (hOther : ∀ c ∈ other.head?, c ≠ '*' ∧ c ≠ '=') (state : State) :
    Run state ('*' :: other) [.mark '*'] ⟨true, state.braces⟩ other := by
  obtain ⟨previous, hPrevious⟩ := exists_regexAllowed_eq state.expectsOperand
  have hLength : punctuatorLength? ('*' :: other) = some 1 := by
    cases other with
    | nil => decide +kernel
    | cons c other =>
        obtain ⟨hStar, hEqual⟩ := hOther c rfl
        simp [punctuatorLength?, punctuators, List.isPrefixOf, hStar.symm, hEqual.symm]
        rfl
  have hPiece : piece previous state.braces '*' other =
      .ok ⟨.token .punctuator, 0, state.braces⟩ := by
    unfold piece
    simp [show Text.isBlank '*' = false by decide, show Text.isWordStart '*' = false by decide,
      hLength]
  exact .cons_of_piece hPrevious hPiece rfl .nil

/-- A colon is a punctuator of its own. -/
theorem run_colon (state : State) (other : List Char) :
    Run state (':' :: other) [.mark ':'] ⟨true, state.braces⟩ other := by
  obtain ⟨previous, hPrevious⟩ := exists_regexAllowed_eq state.expectsOperand
  have hLength : punctuatorLength? (':' :: other) = some 1 := by
    simp [punctuatorLength?, punctuators, List.isPrefixOf]
    rfl
  have hPiece : piece previous state.braces ':' other =
      .ok ⟨.token .punctuator, 0, state.braces⟩ := by
    unfold piece
    simp [show Text.isBlank ':' = false by decide, show Text.isWordStart ':' = false by decide,
      hLength]
  exact .cons_of_piece hPrevious hPiece rfl .nil

/-- A word is one wherever no word goes on behind it. -/
theorem run_word {cs : List Char} (hStart : Text.isWordStart c = true)
    (hParts : ∀ d ∈ cs, Text.isWordPart d = true)
    (hOther : ∀ d ∈ other.head?, Text.isWordPart d = false) (state : State) :
    Run state (c :: cs ++ other) [.word (c :: cs)]
      ⟨(Chunk.word (c :: cs)).expectsOperand state.expectsOperand, state.braces⟩ other := by
  obtain ⟨previous, hPrevious⟩ := exists_regexAllowed_eq state.expectsOperand
  have hLength : wordLength (cs ++ other) = cs.length := by
    have hNone : other.takeWhile Text.isWordPart = [] := by
      cases other with
      | nil => rfl
      | cons d other => exact List.takeWhile_cons_of_neg (by simp [hOther d rfl])
    rw [wordLength, List.takeWhile_append_of_pos hParts, hNone, List.append_nil]
  have hTake : (cs ++ other).take cs.length = cs := List.take_left
  have hBlank : Text.isBlank c = false := by
    refine Bool.eq_false_iff.mpr fun hBlank => ?_
    have hSolid := isWordPart_of_isSolid (isSolid_of_isBlank hBlank)
    simp [Text.isWordPart, hStart] at hSolid
  have hSlash : (c == '/') = false := by
    refine beq_eq_false_iff_ne.mpr ?_
    rintro rfl
    exact absurd hStart (by decide)
  have hPiece : piece previous state.braces c (cs ++ other) =
      .ok ⟨.token (.ofWord (String.ofList (c :: cs))), cs.length, state.braces⟩ := by
    unfold piece
    rw [hBlank, hSlash, hStart, hLength]
    dsimp only
    rw [hTake]
    rfl
  rw [List.cons_append]
  refine .cons_of_piece hPrevious hPiece ?_ ?_
  · exact congrArg (fun text => Chunk.mk _ (c :: text)) hTake.symm
  · dsimp only
    rw [List.drop_left]
    exact .nil

end EcmaLint.Lexer
