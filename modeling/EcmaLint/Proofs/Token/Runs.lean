import Mathlib.Tactic.ByContra
import EcmaLint.Proofs.Token.Locality
import EcmaLint.Proofs.Token.Slices

/-! Stretches of a scan. What is scanned between two places of a text is a list of pieces with their
texts, and where the scan stands is what a slash and a closing brace would mean there. A stretch says
nothing of offsets, so it can be put somewhere else and in front of another text. -/
namespace EcmaLint.Lexer

/-- A piece with its characters. -/
structure Chunk where
  kind : PieceKind
  text : List Char
  deriving DecidableEq

/-- What the next piece depends on, apart from the text. -/
structure State where
  /-- A slash opens a regular expression. -/
  expectsOperand : Bool
  braces : List Brace
  deriving DecidableEq

/-- The characters of some chunks, one behind the other. -/
def text (chunks : List Chunk) : List Char := chunks.flatMap Chunk.text

@[simp] theorem text_nil : text [] = [] := rfl

@[simp] theorem text_cons (chunk : Chunk) (chunks : List Chunk) :
    text (chunk :: chunks) = chunk.text ++ text chunks := rfl

@[simp] theorem text_append (first second : List Chunk) :
    text (first ++ second) = text first ++ text second :=
  List.flatMap_append

/-- Whether a slash behind a chunk would open a regular expression. -/
def Chunk.expectsOperand (chunk : Chunk) (before : Bool) : Bool :=
  match chunk.kind with
  | .token kind => regexAllowed (some ⟨kind, ⟨0, 0⟩, String.ofList chunk.text⟩)
  | _ => before

/-- From a state and a text to another state and what is left of the text. -/
inductive Run : State → List Char → List Chunk → State → List Char → Prop
  | nil {state : State} {cs : List Char} : Run state cs [] state cs
  | cons {state final : State} {previous : Option Token} {c : Char} {rest left : List Char}
      {found : Piece} {chunks : List Chunk}
      (hPrevious : regexAllowed previous = state.expectsOperand)
      (hPiece : piece previous state.braces c rest = .ok found)
      (hRest : Run
        ⟨Chunk.expectsOperand ⟨found.kind, c :: rest.take found.more⟩ state.expectsOperand,
          found.braces⟩ (rest.drop found.more) chunks final left) :
      Run state (c :: rest) (⟨found.kind, c :: rest.take found.more⟩ :: chunks) final left

/-- The tokens and comments of chunks that start at an offset. -/
def lay (offset : Nat) : List Chunk → TokenizedText
  | [] => {}
  | ⟨kind, text⟩ :: chunks =>
      prepend kind ⟨offset, offset + Text.byteLength text⟩ text
        (lay (offset + Text.byteLength text) chunks)

/-- Of the token before only that counts what a slash means behind it. -/
theorem piece_eq_of_regexAllowed {previous other : Option Token} {braces : List Brace} {c : Char}
    {rest : List Char} (h : regexAllowed previous = regexAllowed other) :
    piece previous braces c rest = piece other braces c rest := by
  unfold piece
  rw [h]

theorem regexAllowed_latest (kind : PieceKind) (span : Span) (text : List Char)
    (previous : Option Token) : regexAllowed (latest kind span text previous) =
      Chunk.expectsOperand ⟨kind, text⟩ (regexAllowed previous) := by
  cases kind <;> rfl

/-- A scan is a run to the end of the text. -/
theorem exists_run_of_scan {offset : Nat} {previous : Option Token} {braces : List Brace}
    {cs : List Char} {out : TokenizedText} (h : scan offset previous braces cs = .ok out) :
    ∃ chunks final, Run ⟨regexAllowed previous, braces⟩ cs chunks final [] ∧
      out = lay offset chunks := by
  fun_induction scan offset previous braces cs generalizing out with
  | case1 =>
      cases h
      exact ⟨[], _, .nil, rfl⟩
  | case2 => cases h
  | case3 => cases h
  | case4 offset previous braces c rest found hPiece text span after later hLater =>
      rename_i ih
      cases h
      obtain ⟨chunks, final, hRun, rfl⟩ := ih hLater
      refine ⟨_, final, .cons rfl hPiece ?_, rfl⟩
      rw [← regexAllowed_latest _ span]
      exact hRun

theorem Run.scan_eq {state final : State} {cs left : List Char} {chunks : List Chunk}
    (h : Run state cs chunks final left) {offset : Nat} {previous : Option Token}
    (hPrevious : regexAllowed previous = state.expectsOperand) (hLeft : left = []) :
    scan offset previous state.braces cs = .ok (lay offset chunks) := by
  induction h generalizing offset previous with
  | nil =>
      subst hLeft
      rw [scan]
      rfl
  | cons hBefore hPiece _ ih =>
      rw [piece_eq_of_regexAllowed (hBefore.trans hPrevious.symm)] at hPiece
      rw [scan_of_piece hPiece, ih (by rw [regexAllowed_latest, hPrevious]) hLeft]
      rfl

namespace Run

variable {state between final : State} {cs mid left : List Char} {chunks first second : List Chunk}

theorem cons_of_piece {chunk : Chunk} {previous : Option Token} {c : Char} {rest : List Char}
    {found : Piece} (hPrevious : regexAllowed previous = state.expectsOperand)
    (hPiece : piece previous state.braces c rest = .ok found)
    (hChunk : chunk = ⟨found.kind, c :: rest.take found.more⟩)
    (hRest : Run ⟨chunk.expectsOperand state.expectsOperand, found.braces⟩ (rest.drop found.more)
      chunks final left) : Run state (c :: rest) (chunk :: chunks) final left := by
  subst hChunk
  exact .cons hPrevious hPiece hRest

/-- What was scanned is the start of the text. -/
theorem eq_append (h : Run state cs chunks final left) : cs = text chunks ++ left := by
  induction h with
  | nil => rfl
  | cons _ _ _ ih =>
      rw [text_cons, List.append_assoc, ← ih, List.cons_append, List.take_append_drop]

theorem append (h : Run state cs first between mid) (h' : Run between mid second final left) :
    Run state cs (first ++ second) final left := by
  induction h with
  | nil => exact h'
  | cons hPrevious hPiece _ ih => exact .cons hPrevious hPiece (ih h')

theorem exists_split (h : Run state cs (first ++ second) final left) :
    ∃ between mid, Run state cs first between mid ∧ Run between mid second final left := by
  induction first generalizing state cs with
  | nil => exact ⟨state, cs, .nil, h⟩
  | cons chunk first ih =>
      cases h with
      | cons hPrevious hPiece hRest =>
          obtain ⟨between, mid, hFirst, hSecond⟩ := ih hRest
          exact ⟨between, mid, .cons hPrevious hPiece hFirst, hSecond⟩

/-- Every piece has a text. -/
theorem text_ne_nil (h : Run state cs chunks final left) : ∀ chunk ∈ chunks, chunk.text ≠ [] := by
  induction h with
  | nil => simp
  | cons _ _ _ ih => exact List.forall_mem_cons.mpr ⟨List.cons_ne_nil _ _, ih⟩

end Run

/-- A chunk ends with a delimiter, or is one. -/
def Chunk.IsDelimited (chunk : Chunk) : Prop :=
  chunk.kind = .blank ∨ (∃ c ∈ chunk.text.head?, c ∈ delimiters) ∨
    ∃ rest, chunk.text = '/' :: '*' :: rest

/-- Nothing of two texts is looked at behind a chunk, or the same up to a place where nothing goes
on. -/
def Chunk.Seals (chunk : Chunk) (behind other : List Char) : Prop :=
  chunk.IsDelimited ∨ ∃ inner back more, behind = inner ++ back ∧ other = inner ++ more ∧
    Halts back ∧ Halts more ∧
    (chunk.text.head? = some '/' → inner = [] → EndsAlike back more)

theorem piece_blank {previous : Option Token} {braces : List Brace} {c : Char} {rest : List Char}
    (h : Text.isBlank c = true) : piece previous braces c rest = .ok ⟨.blank, 0, braces⟩ := by
  unfold piece
  rw [if_pos h]

theorem isBlank_of_piece {previous : Option Token} {braces : List Brace} {c : Char}
    {rest : List Char} {found : Piece} (h : piece previous braces c rest = .ok found)
    (hKind : found.kind = .blank) : Text.isBlank c = true := by
  have hWritten := written_of_piece h
  rw [hKind] at hWritten
  generalize hText : c :: rest.take found.more = text at hWritten
  cases hWritten with
  | blank hBlank =>
      obtain ⟨rfl, -⟩ := List.cons.inj hText
      exact hBlank

/-- A piece that seals its text is the same in front of another one. -/
theorem piece_of_seals {previous : Option Token} {braces : List Brace} {c : Char}
    {rest other : List Char} {found : Piece} (h : piece previous braces c rest = .ok found)
    (hSeals : Chunk.Seals ⟨found.kind, c :: rest.take found.more⟩ (rest.drop found.more) other) :
    piece previous braces c (rest.take found.more ++ other) = .ok found := by
  have hMore := (measured_of_piece h).more_le
  rcases hSeals with (hBlank | ⟨d, hHead, hOpens⟩ | ⟨tail, hText⟩) |
    ⟨inner, back, more, hBehind, rfl, hBack, hOther, hLine⟩
  · have hKind : found.kind = .blank := hBlank
    have hc := isBlank_of_piece h hKind
    rw [piece_blank hc] at h ⊢
    exact h
  · obtain rfl : c = d := by simpa using hHead
    exact piece_delimited hOpens h other
  · obtain ⟨rfl, hTail⟩ := List.cons.inj (show c :: rest.take found.more = '/' :: '*' :: tail from hText)
    refine piece_blockComment_take ?_ h other
    rw [← List.take_append_drop found.more rest, hTail]
    rfl
  · rw [← List.append_assoc]
    rw [← List.take_append_drop found.more rest, hBehind, ← List.append_assoc] at h
    refine piece_halting h ?_ hBack hOther fun hSlash hEnd => hLine (by simp [hSlash]) ?_
    · rw [List.length_append, List.length_take]
      omega
    · rw [List.length_append, List.length_take] at hEnd
      exact List.eq_nil_of_length_eq_zero (by omega)

/-- Each of some chunks seals its text, where one text stands behind them all or another one. -/
def Sealed (chunks : List Chunk) (left other : List Char) : Prop :=
  ∀ front chunk back, chunks = front ++ chunk :: back →
    chunk.Seals (text back ++ left) (text back ++ other)

theorem Sealed.tail {chunk : Chunk} {chunks : List Chunk} {left other : List Char}
    (h : Sealed (chunk :: chunks) left other) : Sealed chunks left other :=
  fun front later back hEq => h (chunk :: front) later back (by rw [hEq]; rfl)

/-- A solid character behind some chunks keeps them apart from what follows. -/
theorem sealed_of_isSolid {chunks : List Chunk} {last : Chunk} {left other : List Char}
    (hSolid : ∃ c ∈ last.text, isSolid c = true) (hLast : last.Seals left other) :
    Sealed (chunks ++ [last]) left other := by
  intro front chunk back hEq
  rcases List.eq_nil_or_concat back with rfl | ⟨inner, final, rfl⟩
  · obtain ⟨-, hChunk⟩ := List.append_inj' hEq rfl
    obtain rfl : last = chunk := by simpa using hChunk
    simpa using hLast
  · obtain rfl : final = last := by
      have hEnd := congrArg List.getLast? hEq
      simpa [List.getLast?_append, List.getLast?_cons] using hEnd.symm
    obtain ⟨c, hMem, hc⟩ := hSolid
    obtain ⟨before, after, hText⟩ := List.append_of_mem hMem
    have hHalts : ∀ more : List Char, Halts (c :: (after ++ more)) := fun more d hd => by
      obtain rfl : c = d := by simpa using hd
      exact hc
    exact .inr ⟨text inner ++ before, c :: (after ++ left), c :: (after ++ other), by simp [hText],
      by simp [hText], hHalts left, hHalts other, fun _ _ => .inr rfl⟩

namespace Run

variable {state between final : State} {cs mid left other : List Char}
  {chunks first second : List Chunk}

/-- A run whose chunks seal their texts is the same in front of another text. -/
theorem before (h : Run state cs chunks final left) (hSealed : Sealed chunks left other) :
    Run state (text chunks ++ other) chunks final other := by
  induction h with
  | nil => exact .nil
  | @cons state final previous c rest left found chunks hPrevious hPiece hRest ih =>
      have hSeals := hSealed [] _ chunks rfl
      rw [← hRest.eq_append] at hSeals
      have hOther := piece_of_seals hPiece hSeals
      have hMore := (measured_of_piece hPiece).more_le
      have hLength : (rest.take found.more).length = found.more := by
        rw [List.length_take]
        omega
      rw [text_cons, List.append_assoc, List.cons_append]
      refine cons_of_piece hPrevious hOther ?_ ?_
      · rw [List.take_left' hLength]
      · rw [List.drop_left' hLength]
        exact ih hSealed.tail

end Run

theorem exists_regexAllowed_eq (expectsOperand : Bool) :
    ∃ previous, regexAllowed previous = expectsOperand := by
  cases expectsOperand with
  | true => exact ⟨none, rfl⟩
  | false => exact ⟨some ⟨.identifier, ⟨0, 0⟩, ""⟩, rfl⟩

/-- Only for a token that starts with a slash does it matter what stands before. -/
theorem piece_of_ne_slash {previous other : Option Token} {braces : List Brace} {c : Char}
    {rest : List Char} {found : Piece} (h : piece previous braces c rest = .ok found)
    (hNot : c = '/' → ∀ kind, found.kind ≠ .token kind) :
    piece other braces c rest = .ok found := by
  by_cases hSlash : c = '/'
  · subst hSlash
    by_cases hLine : rest.head? = some '/'
    · rwa [piece_lineComment hLine] at h ⊢
    by_cases hBlock : rest.head? = some '*'
    · rwa [piece_blockComment hBlock] at h ⊢
    rw [piece_operator hLine hBlock] at h
    have hToken : ∃ kind, found.kind = .token kind := by
      repeat' split at h
      all_goals cases h
      all_goals exact ⟨_, rfl⟩
    obtain ⟨kind, hKind⟩ := hToken
    exact absurd hKind (hNot rfl kind)
  · unfold piece at h ⊢
    rwa [if_neg (by simpa using hSlash : ¬(c == '/') = true)] at h ⊢

/-- Braces are opened and closed by three characters only. -/
theorem braces_eq_of_piece {previous : Option Token} {braces : List Brace} {c : Char}
    {rest : List Char} {found : Piece} (h : piece previous braces c rest = .ok found)
    (hOther : c ∉ ['`', '{', '}']) : found.braces = braces := by
  simp only [List.mem_cons, List.not_mem_nil, or_false, not_or] at hOther
  unfold piece at h
  simp only [hOther, beq_iff_eq, if_false] at h
  repeat' split at h
  all_goals cases h
  all_goals rfl

/-- What stands between tokens starts with a blank or with a slash. -/
theorem isBlank_or_eq_slash_of_piece {previous : Option Token} {braces : List Brace} {c : Char}
    {rest : List Char} {found : Piece} (h : piece previous braces c rest = .ok found)
    (hTrivia : ∀ kind, found.kind ≠ .token kind) : Text.isBlank c = true ∨ c = '/' := by
  by_contra hNeither
  obtain ⟨hBlank, hSlash⟩ := not_or.mp hNeither
  unfold piece at h
  rw [if_neg hBlank, if_neg (by simpa using hSlash)] at h
  unfold templatePiece at h
  repeat' split at h
  all_goals cases h
  all_goals exact hTrivia _ rfl

/-- What stands between tokens neither opens nor closes a brace. -/
theorem braces_eq_of_trivia {previous : Option Token} {braces : List Brace} {c : Char}
    {rest : List Char} {found : Piece} (h : piece previous braces c rest = .ok found)
    (hTrivia : ∀ kind, found.kind ≠ .token kind) : found.braces = braces := by
  refine braces_eq_of_piece h fun hBrace => ?_
  have hAll : (['`', '{', '}'].all fun c => !Text.isBlank c && c != '/') = true := by decide
  have hNeither := List.all_eq_true.mp hAll c hBrace
  rcases isBlank_or_eq_slash_of_piece h hTrivia with hBlank | rfl
  · simp [hBlank] at hNeither
  · simp at hNeither

/-- A chunk between tokens. -/
def Chunk.IsTrivia (chunk : Chunk) : Prop := ∀ kind, chunk.kind ≠ .token kind

theorem Chunk.IsTrivia.expectsOperand_eq {chunk : Chunk} (h : chunk.IsTrivia) (before : Bool) :
    chunk.expectsOperand before = before := by
  unfold expectsOperand
  split
  case h_1 kind hKind => exact absurd hKind (h kind)
  case h_2 => rfl

theorem Chunk.expectsOperand_of_token {chunk : Chunk} {kind : TokenKind}
    (h : chunk.kind = .token kind) (before other : Bool) :
    chunk.expectsOperand before = chunk.expectsOperand other := by
  unfold expectsOperand
  rw [h]

namespace Run

variable {state final : State} {cs left : List Char} {chunks trivia more : List Chunk}
  {chunk : Chunk}

/-- Up to the first token it only matters for a slash what stands before. -/
theorem expecting (h : Run state cs (trivia ++ chunk :: more) final left)
    (hTrivia : ∀ chunk ∈ trivia, chunk.IsTrivia) {kind : TokenKind}
    (hToken : chunk.kind = .token kind) (hSlash : chunk.text.head? ≠ some '/')
    (expectsOperand : Bool) :
    Run ⟨expectsOperand, state.braces⟩ cs (trivia ++ chunk :: more) final left := by
  obtain ⟨other, hOther⟩ := exists_regexAllowed_eq expectsOperand
  induction trivia generalizing state cs with
  | nil =>
      rw [List.nil_append] at h ⊢
      cases h with
      | cons _ hPiece hRest =>
          refine .cons hOther (piece_of_ne_slash hPiece fun hc => ?_) ?_
          · exact absurd (congrArg some hc) hSlash
          · rwa [Chunk.expectsOperand_of_token hToken _ expectsOperand] at hRest
  | cons first trivia ih =>
      obtain ⟨hFirst, hRestTrivia⟩ := List.forall_mem_cons.mp hTrivia
      rw [List.cons_append] at h ⊢
      cases h with
      | @cons _ _ previous c rest _ found _ _ hPiece hRest =>
          refine .cons hOther (piece_of_ne_slash hPiece fun _ => hFirst) ?_
          rw [hFirst.expectsOperand_eq]
          exact ih hRest hRestTrivia

theorem braces_eq (h : Run state cs chunks final left)
    (hOther : ∀ chunk ∈ chunks, ∀ c ∈ chunk.text.head?, c ∉ ['`', '{', '}']) :
    final.braces = state.braces := by
  induction h with
  | nil => rfl
  | cons _ hPiece _ ih =>
      obtain ⟨hFirst, hRest⟩ := List.forall_mem_cons.mp hOther
      exact (ih hRest).trans (braces_eq_of_piece hPiece (hFirst _ rfl))

end Run

variable {offset : Nat} {first second chunks : List Chunk}

theorem lay_append : lay offset (first ++ second) =
    { tokens := (lay offset first).tokens ++
        (lay (offset + Text.byteLength (text first)) second).tokens
      comments := (lay offset first).comments ++
        (lay (offset + Text.byteLength (text first)) second).comments } := by
  induction first generalizing offset with
  | nil => rfl
  | cons chunk first ih =>
      obtain ⟨kind, chunk⟩ := chunk
      rw [List.cons_append, lay, lay, ih, text_cons, Text.byteLength_append, Nat.add_assoc]
      cases kind <;> rfl

/-- The first chunk is a token. -/
def StartsWithToken (chunks : List Chunk) : Prop :=
  ∃ chunk rest kind, chunks = chunk :: rest ∧ chunk.kind = .token kind

/-- The last chunk is a token. -/
def EndsWithToken (chunks : List Chunk) : Prop :=
  ∃ init chunk kind, chunks = init ++ [chunk] ∧ chunk.kind = .token kind

theorem tokens_lay_token {chunk : Chunk} {kind : TokenKind} (h : chunk.kind = .token kind) :
    (lay offset (chunk :: chunks)).tokens =
      ⟨kind, ⟨offset, offset + Text.byteLength chunk.text⟩, String.ofList chunk.text⟩ ::
        (lay (offset + Text.byteLength chunk.text) chunks).tokens := by
  obtain ⟨_, text⟩ := chunk
  obtain rfl : _ = _ := h
  rfl

end EcmaLint.Lexer
