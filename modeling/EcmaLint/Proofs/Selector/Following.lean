import EcmaLint.Proofs.Selector.Offsets
import EcmaLint.Proofs.Selector.RoundTrip
import EcmaLint.Proofs.Text.Boundary

/-! Reading a selector by offsets follows reading it as a text. What is left of the text is always
what stands behind the offset, so no character is cut, and a loop over characters ends before its
turns are used up, with the value that a function of the text finds. -/
namespace EcmaLint

namespace Text

/-- What is left of a text behind an offset. -/
def Ahead (source : List Char) (offset : Nat) (rest : List Char) : Prop :=
  ∃ front, source = front ++ rest ∧ byteLength front = offset

variable {source text rest : List Char} {offset : Nat}

theorem Ahead.append (h : Ahead source offset (text ++ rest)) :
    Ahead source (offset + byteLength text) rest := by
  obtain ⟨front, rfl, rfl⟩ := h
  exact ⟨front ++ text, by simp, by simp⟩

theorem Ahead.tail {c : Char} (h : Ahead source offset (c :: rest)) :
    Ahead source (offset + c.utf8Size) rest := by
  have hTail : Ahead source (offset + byteLength [c]) rest := Ahead.append h
  simpa using hTail

theorem Ahead.slice?_eq (h : Ahead source offset (text ++ rest)) :
    slice? offset (offset + byteLength text) source = some text := by
  obtain ⟨front, rfl, rfl⟩ := h
  exact slice?_eq_some_iff.mpr ⟨front, rest, by simp, rfl, rfl⟩

theorem Ahead.stop_eq (h : Ahead source offset text) :
    offset + byteLength text = byteLength source := by
  obtain ⟨front, rfl, rfl⟩ := h
  rw [byteLength_append]

theorem Ahead.length_le (h : Ahead source offset text) : text.length ≤ source.length := by
  obtain ⟨front, rfl, -⟩ := h
  rw [List.length_append]
  exact Nat.le_add_left _ _

theorem Ahead.isBoundary (h : Ahead source offset text) : IsBoundary offset source :=
  h.imp fun _ hFront => ⟨text, hFront⟩

end Text

namespace Selector

open Text (Ahead)

variable {source : List Char} {α β γ δ : Type}

/-- A reader by offsets goes the same way as one that takes the text apart: it gets to the offset
at which what the other one leaves starts, or refuses with the same fault there. -/
inductive Follows (source : List Char) (view : β → α) (moving : Moving α)
    (reading : Reader.Reading β) (offset : Nat) (text : List Char) : Prop where
  | ok {value : β} {rest : List Char} {stop : Nat} (reads : reading.run text = .ok (value, rest))
      (moves : (moving.run offset).run = some (.ok (view value, stop)))
      (ahead : Ahead source stop rest) (length_le : rest.length ≤ text.length)
  | error {mistake : Reader.Mistake} {stop : Nat} (reads : reading.run text = .error mistake)
      (moves : (moving.run offset).run = some (.error (mistake.fault, stop)))
      (ahead : Ahead source stop mistake.rest)

namespace Follows

variable {view : β → α} {offset : Nat} {text : List Char}

theorem pure (view : β → α) (ahead : Ahead source offset text) (value : β) :
    Follows source view (Pure.pure (view value)) (Pure.pure value) offset text :=
  .ok rfl rfl ahead le_rfl

/-- Both readers may have moved on to where they do the same. -/
theorem of_run_eq {moving moving' : Moving α} {reading reading' : Reader.Reading β} {stop : Nat}
    {rest : List Char} (later : Follows source view moving' reading' stop rest)
    (hMoves : (moving.run offset).run = (moving'.run stop).run)
    (hReads : reading.run text = reading'.run rest) (hLength : rest.length ≤ text.length) :
    Follows source view moving reading offset text := by
  cases later with
  | ok reads moves ahead length_le =>
      exact .ok (hReads.trans reads) (hMoves.trans moves) ahead (length_le.trans hLength)
  | error reads moves ahead => exact .error (hReads.trans reads) (hMoves.trans moves) ahead

section Bind

variable {moving : Moving α} {reading : Reader.Reading β} {next : α → Moving γ}
  {next' : β → Reader.Reading δ} {a : α} {b : β} {stop : Nat} {rest : List Char}

theorem run_bind (moves : (moving.run offset).run = some (.ok (a, stop))) :
    ((moving >>= next).run offset).run = ((next a).run stop).run := by
  rw [StateT.run_bind, ExceptT.run_bind, moves]
  rfl

theorem run_bind_error {fault : SelectorFault}
    (moves : (moving.run offset).run = some (.error (fault, stop))) :
    ((moving >>= next).run offset).run = some (.error (fault, stop)) := by
  rw [StateT.run_bind, ExceptT.run_bind, moves]
  rfl

/-- Both readers do a step that cannot fail. -/
theorem step {view : δ → γ} (later : Follows source view (next a) (next' b) stop rest)
    (moves : (moving.run offset).run = some (.ok (a, stop))) (reads : Takes reading text b rest)
    (length_le : rest.length ≤ text.length) :
    Follows source view (moving >>= next) (reading >>= next') offset text := by
  cases later with
  | ok reads' moves' ahead' length_le' =>
      exact .ok (Takes.bind reads reads') ((run_bind moves).trans moves') ahead'
        (length_le'.trans length_le)
  | error reads' moves' ahead' =>
      refine .error ?_ ((run_bind moves).trans moves') ahead'
      rw [StateT.run_bind, reads]
      exact reads'

/-- Only the reader by offsets does a step. -/
theorem stepOffset {view : δ → γ} {reading : Reader.Reading δ}
    (later : Follows source view (next a) reading stop text)
    (moves : (moving.run offset).run = some (.ok (a, stop))) :
    Follows source view (moving >>= next) reading offset text :=
  of_run_eq later (run_bind moves) rfl le_rfl

/-- Only the reader of texts does a step. -/
theorem stepText {view : δ → γ} {moving : Moving γ}
    (later : Follows source view moving (next' b) offset rest) (reads : Takes reading text b rest)
    (length_le : rest.length ≤ text.length) :
    Follows source view moving (reading >>= next') offset text := by
  refine of_run_eq later rfl ?_ length_le
  rw [StateT.run_bind, reads]
  rfl

theorem bindTaken {view' : δ → γ} (first : Follows source view moving reading offset text)
    (later : ∀ value stop rest, Takes reading text value rest → Ahead source stop rest →
      rest.length ≤ text.length →
      Follows source view' (next (view value)) (next' value) stop rest) :
    Follows source view' (moving >>= next) (reading >>= next') offset text := by
  cases first with
  | ok reads moves ahead length_le =>
      exact step (later _ _ _ reads ahead length_le) moves reads length_le
  | error reads moves ahead =>
      refine .error ?_ (run_bind_error moves) ahead
      rw [StateT.run_bind, reads]
      rfl

theorem bind {view' : δ → γ} (first : Follows source view moving reading offset text)
    (later : ∀ value stop rest, Ahead source stop rest → rest.length ≤ text.length →
      Follows source view' (next (view value)) (next' value) stop rest) :
    Follows source view' (moving >>= next) (reading >>= next') offset text :=
  bindTaken first fun value stop rest _ => later value stop rest

end Bind

theorem getText {moving : Moving α} {next : List Char → Reader.Reading β}
    (later : Follows source view moving (next text) offset text) :
    Follows source view moving (get >>= next) offset text :=
  stepText later (takes_get text) le_rfl

theorem getOffset {next : Nat → Moving α} {reading : Reader.Reading β}
    (later : Follows source view (next offset) reading offset text) :
    Follows source view (get >>= next) reading offset text :=
  stepOffset later rfl

theorem run_left (ahead : Ahead source offset text) :
    ((Moving.left source).run offset).run = some (.ok (text, offset)) := by
  have hAll : Ahead source offset (text ++ []) := by simpa using ahead
  have hSlice := hAll.slice?_eq
  rw [ahead.stop_eq] at hSlice
  change (((Moving.slice source offset (Text.byteLength source)).run offset).run) = _
  rw [Moving.slice, hSlice]
  rfl

/-- What is ahead is a slice of the pattern. -/
theorem left {next : List Char → Moving α} {reading : Reader.Reading β}
    (ahead : Ahead source offset text)
    (later : Follows source view (next text) reading offset text) :
    Follows source view (Moving.left source >>= next) reading offset text :=
  stepOffset later (run_left ahead)

theorem run_peek (ahead : Ahead source offset text) :
    ((Moving.peek source).run offset).run = some (.ok (text.head?, offset)) :=
  run_bind (run_left ahead)

theorem peek {next : Option Char → Moving α} {reading : Reader.Reading β}
    (ahead : Ahead source offset text)
    (later : Follows source view (next text.head?) reading offset text) :
    Follows source view (Moving.peek source >>= next) reading offset text :=
  stepOffset later (run_peek ahead)

/-- Only the reader by offsets moves on. -/
theorem advance {n : Nat} {next : PUnit → Moving α} {reading : Reader.Reading β}
    (later : Follows source view (next ⟨⟩) reading (offset + n) text) :
    Follows source view (Moving.advance n >>= next) reading offset text :=
  stepOffset later rfl

theorem refuseAt {start : Nat} {rest : List Char} {fault : SelectorFault}
    (ahead : Ahead source start rest) :
    Follows source view (Moving.refuseAt start fault) (Reader.failAt fault rest) offset text :=
  .error rfl rfl ahead

theorem refuse {fault : SelectorFault} (ahead : Ahead source offset text) :
    Follows source view (Moving.refuse fault) (Reader.fail fault) offset text :=
  getText (getOffset (refuseAt ahead))

theorem refuse_bind {fault : SelectorFault} {next : γ → Moving α} {next' : δ → Reader.Reading β}
    (ahead : Ahead source offset text) :
    Follows source view (Moving.refuse fault >>= next) (Reader.fail fault >>= next') offset text :=
  .error rfl rfl ahead

theorem exists_cons_of_head? {c : Char} (h : text.head? = some c) : ∃ rest, text = c :: rest := by
  cases text with
  | nil => cases h
  | cons d rest => exact ⟨rest, by simpa using h⟩

theorem run_eat {c : Char} {rest : List Char} (ahead : Ahead source offset (c :: rest)) :
    ((Moving.eat source c).run offset).run = some (.ok (true, offset + c.utf8Size)) := by
  rw [Moving.eat, run_bind (run_peek ahead), if_pos (by simp)]
  rfl

theorem run_eat_other {c : Char} (ahead : Ahead source offset text) (h : text.head? ≠ some c) :
    ((Moving.eat source c).run offset).run = some (.ok (false, offset)) := by
  rw [Moving.eat, run_bind (run_peek ahead), if_neg (by simpa using h)]
  rfl

/-- A character is eaten by both readers or by none. -/
theorem eat {c : Char} {next : Bool → Moving α} {next' : Bool → Reader.Reading β}
    (ahead : Ahead source offset text)
    (yes : ∀ rest, text = c :: rest → Ahead source (offset + c.utf8Size) rest →
      Follows source view (next true) (next' true) (offset + c.utf8Size) rest)
    (no : text.head? ≠ some c → Follows source view (next false) (next' false) offset text) :
    Follows source view (Moving.eat source c >>= next) (Reader.eat c >>= next') offset text := by
  by_cases hHead : text.head? = some c
  · obtain ⟨rest, rfl⟩ := exists_cons_of_head? hHead
    exact step (yes rest rfl ahead.tail) (run_eat ahead) (takes_eat c rest) (Nat.le_succ _)
  · exact step (no hHead) (run_eat_other ahead hHead) (takes_eat_other hHead) le_rfl

theorem expect {c : Char} (ahead : Ahead source offset text) :
    Follows source id (Moving.expect source c) (Reader.expect c) offset text :=
  eat ahead (fun _ _ ahead => pure id ahead PUnit.unit) fun _ => refuse ahead

theorem run_expect {c : Char} {rest : List Char} (ahead : Ahead source offset (c :: rest)) :
    ((Moving.expect source c).run offset).run = some (.ok (⟨⟩, offset + c.utf8Size)) :=
  run_bind (run_eat ahead)

/-- A loop over characters ends where the first of them fails the test. -/
theorem run_skipWhile {test : Char → Bool} {step : Char → Nat} {fuel : Nat}
    (hStep : ∀ c, test c = true → step c = c.utf8Size) (ahead : Ahead source offset text)
    (hFuel : text.length < fuel) :
    ((Moving.skipWhile source test step fuel).run offset).run =
      some (.ok (⟨⟩, offset + Text.byteLength (text.takeWhile test))) := by
  induction fuel generalizing text offset with
  | zero => exact absurd hFuel (Nat.not_lt_zero _)
  | succ fuel ih =>
      rw [Moving.skipWhile, run_bind (run_peek ahead)]
      cases text with
      | nil => rfl
      | cons c rest =>
          rw [List.head?_cons, List.takeWhile_cons]
          by_cases hTest : test c = true
          · have hLater := ih ahead.tail (Nat.lt_of_succ_lt_succ hFuel)
            dsimp only
            rw [if_pos hTest, if_pos hTest, Text.byteLength_cons, ← Nat.add_assoc, ← hLater,
              ← hStep c hTest]
            rfl
          · dsimp only
            rw [if_neg hTest, if_neg hTest]
            rfl

theorem byteLength_pos (text : List Char) : 0 < Text.byteLength text ↔ text ≠ [] := by
  cases text with
  | nil => simp
  | cons c cs => simp [Nat.add_pos_left c.utf8Size_pos]

theorem utf8Size_of_isNamePart (c : Char) (h : Reader.isNamePart c = true) : 1 = c.utf8Size :=
  (Char.utf8Size_eq_one_iff.mpr (UInt32.le_iff_toNat_le.mpr (range_of_isNamePart h).2)).symm

theorem run_slice {front rest : List Char} {start : Nat}
    (ahead : Ahead source start (front ++ rest)) :
    ((Moving.slice source start (start + Text.byteLength front)).run offset).run =
      some (.ok (front, offset)) := by
  rw [Moving.slice, ahead.slice?_eq]
  rfl

variable (ahead : Ahead source offset text)
include ahead

theorem ahead_dropWhile (test : Char → Bool) :
    Ahead source (offset + Text.byteLength (text.takeWhile test)) (text.dropWhile test) := by
  rw [← List.takeWhile_append_dropWhile (p := test) (l := text)] at ahead
  exact ahead.append

theorem lt_length : text.length < source.length + 1 := Nat.lt_succ_of_le ahead.length_le

theorem blanks : Follows source id (Moving.blanks source) Reader.blanks offset text := by
  have hSplit := List.takeWhile_append_dropWhile (p := Text.isWhiteSpace) (l := text)
  have hMoved : decide (offset < offset + Text.byteLength (text.takeWhile Text.isWhiteSpace)) =
      decide ((text.dropWhile Text.isWhiteSpace).length < text.length) := by
    have hLength := congrArg List.length hSplit
    rw [List.length_append] at hLength
    have hPos := byteLength_pos (text.takeWhile Text.isWhiteSpace)
    rw [← List.length_pos_iff] at hPos
    exact decide_eq_decide.mpr (by omega)
  refine getOffset (getText ?_)
  refine step (a := PUnit.unit) (b := PUnit.unit) (getOffset ?_)
    (run_skipWhile (fun _ _ => rfl) ahead (lt_length ahead)) (takes_set _ _)
    (List.dropWhile_sublist _).length_le
  rw [hMoved]
  exact pure id (ahead_dropWhile ahead _) _

theorem name : Follows source id (Moving.name source) Reader.name offset text := by
  have hSplit := List.takeWhile_append_dropWhile (p := Reader.isNamePart) (l := text)
  have hDrop : text.drop (text.takeWhile Reader.isNamePart).length =
      text.dropWhile Reader.isNamePart :=
    (congrArg (List.drop _) hSplit).symm.trans List.drop_left
  refine getOffset (getText ?_)
  refine step (a := PUnit.unit) (b := PUnit.unit) (getOffset ?_)
    (run_skipWhile utf8Size_of_isNamePart ahead (lt_length ahead)) (takes_modify _ _) ?_
  · rw [hDrop]
    refine stepOffset ?_ (run_slice (hSplit.symm ▸ ahead))
    exact pure id (ahead_dropWhile ahead _) _
  · rw [List.length_drop]
    exact Nat.sub_le _ _

end Follows

/-- A loop by offsets over the body of a literal comes to what a function of the text finds: the
body and what is behind its end, or nothing, which is a fault of the whole literal. -/
def Closes (source : List Char) (moving : Moving (List Char)) (fault : SelectorFault) (start : Nat)
    (offset : Nat) (text : List Char) : Option (List Char × List Char) → Prop
  | some (body, rest) => ∃ stop, (moving.run offset).run = some (.ok (body, stop)) ∧
      Ahead source stop rest ∧ rest.length ≤ text.length
  | none => (moving.run offset).run = some (.error (fault, start))

namespace Closes

variable {moving : Moving (List Char)} {fault : SelectorFault} {start offset stop : Nat}
  {text rest : List Char} {found : Option (List Char × List Char)}

/-- Characters that belong to the body are put in front of what comes later. -/
theorem prepend (front : List Char) (h : Closes source moving fault start stop rest found)
    (hLength : rest.length ≤ text.length) {whole : Moving (List Char)}
    (hMoves : (whole.run offset).run =
      ((moving >>= fun body => pure (front ++ body) : Moving (List Char)).run stop).run) :
    Closes source whole fault start offset text
      (found.map fun (body, rest) => (front ++ body, rest)) := by
  cases found with
  | none => exact hMoves.trans (Follows.run_bind_error h)
  | some result =>
      obtain ⟨last, hMoving, hAhead, hLast⟩ := h
      exact ⟨last, hMoves.trans (Follows.run_bind hMoving), hAhead, hLast.trans hLength⟩

/-- One turn of a loop looks at the next character and moves over it. -/
theorem run_turn {c : Char} {next : Option Char → Moving (List Char)}
    {later : PUnit → Moving (List Char)} (ahead : Ahead source offset (c :: rest))
    (hNext : next (some c) = Moving.advance c.utf8Size >>= later) :
    ((Moving.peek source >>= next).run offset).run =
      ((later ⟨⟩).run (offset + c.utf8Size)).run := by
  rw [Follows.run_bind (Follows.run_peek ahead), List.head?_cons, hNext]
  rfl

/-- The body of a string, one character or escape after the other. -/
theorem quoted (start : Nat) (quote : Char) {fuel : Nat} (ahead : Ahead source offset text)
    (hFuel : text.length < fuel) :
    Closes source (Moving.quoted source start quote fuel) .unterminatedString start offset text
      (Reader.quoted? quote text) := by
  induction fuel generalizing text offset with
  | zero => exact absurd hFuel (Nat.not_lt_zero _)
  | succ fuel ih =>
      cases text with
      | nil => exact Follows.run_bind (Follows.run_peek ahead)
      | cons c rest =>
          by_cases hEscape : c = '\\'
          · subst hEscape
            cases rest with
            | nil =>
                exact (run_turn ahead rfl).trans (Follows.run_bind (Follows.run_peek ahead.tail))
            | cons d rest =>
                rw [Reader.quoted?]
                have hLater := ih ahead.tail.tail (Nat.lt_of_succ_lt (Nat.lt_of_succ_lt_succ hFuel))
                refine hLater.prepend [d] (Nat.le_add_right _ 2) ?_
                exact (run_turn ahead rfl).trans (Follows.run_bind (Follows.run_peek ahead.tail))
          · have hFound : Reader.quoted? quote (c :: rest) =
                if c = quote then some ([], rest)
                else (Reader.quoted? quote rest).map fun (value, rest) => (c :: value, rest) := by
              rw [Reader.quoted?]
              all_goals simp [hEscape]
            rw [hFound]
            by_cases hQuote : c = quote
            · refine (if_pos hQuote).symm ▸ ⟨_, ?_, ahead.tail, Nat.le_succ _⟩
              refine (run_turn ahead rfl).trans ?_
              rw [if_neg (by simpa using hEscape), if_pos (by simpa using hQuote)]
              rfl
            · refine (if_neg hQuote).symm ▸ (ih ahead.tail (Nat.lt_of_succ_lt_succ hFuel)).prepend
                [c] (Nat.le_succ _) ?_
              refine (run_turn ahead rfl).trans ?_
              rw [if_neg (by simpa using hEscape), if_neg (by simpa using hQuote)]
              rfl

/-- The body of a regular expression. Escapes stay in it as they are written. -/
theorem slashed (start : Nat) {fuel : Nat} (ahead : Ahead source offset text)
    (hFuel : text.length < fuel) :
    Closes source (Moving.slashed source start fuel) .unterminatedRegex start offset text
      (Reader.slashed? text) := by
  induction fuel generalizing text offset with
  | zero => exact absurd hFuel (Nat.not_lt_zero _)
  | succ fuel ih =>
      cases text with
      | nil => exact Follows.run_bind (Follows.run_peek ahead)
      | cons c rest =>
          by_cases hEscape : c = '\\'
          · subst hEscape
            cases rest with
            | nil =>
                have hLater := ih ahead.tail (Nat.lt_of_succ_lt_succ hFuel)
                refine hLater.prepend ['\\'] (Nat.le_add_right _ 1) ?_
                exact (run_turn ahead rfl).trans (Follows.run_bind (Follows.run_peek ahead.tail))
            | cons d rest =>
                rw [Reader.slashed?]
                have hLater := ih ahead.tail.tail (Nat.lt_of_succ_lt (Nat.lt_of_succ_lt_succ hFuel))
                refine hLater.prepend ['\\', d] (Nat.le_add_right _ 2) ?_
                exact (run_turn ahead rfl).trans (Follows.run_bind (Follows.run_peek ahead.tail))
          · have hFound : Reader.slashed? (c :: rest) =
                if c = '/' then some ([], rest)
                else (Reader.slashed? rest).map fun (body, rest) => (c :: body, rest) := by
              rw [Reader.slashed?]
              all_goals simp [hEscape]
            rw [hFound]
            by_cases hSlash : c = '/'
            · refine (if_pos hSlash).symm ▸ ⟨_, ?_, ahead.tail, Nat.le_succ _⟩
              refine (run_turn ahead rfl).trans ?_
              rw [if_pos (by simpa using hSlash)]
              rfl
            · refine (if_neg hSlash).symm ▸ (ih ahead.tail (Nat.lt_of_succ_lt_succ hFuel)).prepend
                [c] (Nat.le_succ _) ?_
              refine (run_turn ahead rfl).trans ?_
              rw [if_neg (by simpa using hSlash), if_neg (by simpa using hEscape)]
              rfl

end Closes

namespace Follows

variable {offset : Nat} {text : List Char} (ahead : Ahead source offset text)
include ahead

/-- Letters behind a regular expression, up to one that is no setting. -/
theorem flags (found : RegexFlags) {fuel : Nat} (hFuel : text.length < fuel) :
    Follows source id (Moving.flags source fuel found) (Reader.flags found) offset text := by
  induction text generalizing offset found fuel with
  | nil =>
      obtain ⟨fuel, rfl⟩ := Nat.exists_eq_add_one_of_ne_zero (Nat.ne_zero_of_lt hFuel)
      exact .ok rfl (run_bind (run_peek ahead)) ahead le_rfl
  | cons c cs ih =>
      obtain ⟨fuel, rfl⟩ := Nat.exists_eq_add_one_of_ne_zero (Nat.ne_zero_of_lt hFuel)
      have hLater : ∀ more : RegexFlags,
          Follows source id (Moving.flags source fuel more) (Reader.flags more)
            (offset + c.utf8Size) cs := fun more =>
        ih ahead.tail more (Nat.lt_of_succ_lt_succ hFuel)
      have hSetting : c ∈ ['i', 'm', 's', 'u'] ∨ c ∉ ['i', 'm', 's', 'u'] := em _
      rcases hSetting with hSetting | hOther
      · simp only [List.mem_cons, List.not_mem_nil, or_false] at hSetting
        rcases hSetting with rfl | rfl | rfl | rfl
        all_goals exact of_run_eq (hLater _) (run_bind (run_peek ahead)) rfl (Nat.le_succ _)
      · simp only [List.mem_cons, List.not_mem_nil, or_false, not_or] at hOther
        obtain ⟨hI, hM, hS, hU⟩ := hOther
        have hReads : Reader.flags found (c :: cs) =
            if c.isAlpha then .error ⟨.unsupportedFlag c, c :: cs⟩ else .ok (found, c :: cs) := by
          rw [Reader.flags]
          all_goals assumption
        by_cases hAlpha : c.isAlpha = true
        · have hFlag : (some c).filter Char.isAlpha = some c := by simp [hAlpha]
          refine .error (hReads.trans (if_pos hAlpha)) ((run_bind (run_peek ahead)).trans ?_) ahead
          rw [List.head?_cons, hFlag]
          dsimp only
          split
          all_goals first
            | contradiction
            | rfl
        · have hFlag : (some c).filter Char.isAlpha = none := by simp [hAlpha]
          refine .ok (hReads.trans (if_neg hAlpha)) ((run_bind (run_peek ahead)).trans ?_) ahead
            le_rfl
          rw [List.head?_cons, hFlag]
          rfl

/-- A regular expression, from its opening slash on. -/
theorem regex [RegexEngine] {rest : List Char} (hText : text = '/' :: rest) :
    Follows source id (Moving.regex source) Reader.regex offset text := by
  subst hText
  have hAhead : Ahead source (offset + 1) rest := ahead.tail
  have hClose := Closes.slashed offset hAhead (lt_length hAhead)
  refine getOffset (getText (advance ?_))
  rw [List.tail_cons]
  cases hFound : Reader.slashed? rest with
  | none =>
      rw [hFound] at hClose
      exact .error rfl (run_bind_error hClose) ahead
  | some found =>
      obtain ⟨body, behind⟩ := found
      rw [hFound] at hClose
      obtain ⟨stop, hMoves, hBehind, hLength⟩ := hClose
      refine stepOffset ?_ hMoves
      dsimp only
      have hFlags := flags hBehind {} (lt_length hBehind)
      cases hFlags with
      | @error mistake stop reads moves aheadMistake =>
          refine .error ?_ (run_bind_error moves) aheadMistake
          have hReads : Reader.flags {} behind = .error mistake := reads
          rw [StateT.run_bind, hReads]
          rfl
      | @ok value rest' stop reads moves aheadRest length_le =>
          have hTakes : Takes (liftM (Reader.flags {} behind)) ('/' :: rest) (value, rest')
              ('/' :: rest) := by
            have hReads : Reader.flags {} behind = .ok (value, rest') := reads
            rw [hReads]
            rfl
          refine step ?_ moves hTakes le_rfl
          dsimp only [id]
          cases RegexEngine.compile? value (String.ofList body) with
          | none => exact refuseAt ahead
          | some regex =>
              refine stepText ?_ (takes_set _ _) ((length_le.trans hLength).trans (Nat.le_succ _))
              exact pure id aheadRest _

omit ahead in
/-- A number is negative where a sign was taken in front of its digits. -/
theorem signed_eq {sign digits : List Char} (hDigits : digits.head? ≠ some '-')
    (hSign : sign = [] ∨ sign = ['-']) :
    (if (sign ++ digits).head? == some '-' then -Decimal.ofText (sign ++ digits).tail
      else Decimal.ofText (sign ++ digits)) =
      if sign.isEmpty then Decimal.ofText digits else -Decimal.ofText digits := by
  rcases hSign with rfl | rfl
  · rw [List.nil_append, if_neg (by simpa using hDigits)]
    rfl
  · rfl

/-- The digits and points of a number behind its sign, if it has one. -/
theorem unsigned (sign : List Char) {body : List Char} (hText : text = sign ++ body)
    (hSign : (if text.head? == some '-' then ['-'] else []) = sign) :
    Follows source id
      (do
        Moving.skipWhile source (fun c => c.isDigit || c == '.') (fun _ => 1) (source.length + 1)
        let text ← Moving.slice source offset (← get)
        if Reader.isNumber text then
          return .number
            (if text.head? == some '-' then -Decimal.ofText text.tail else Decimal.ofText text)
        else Moving.refuseAt offset (.invalidNumber (String.ofList text)))
      Reader.number (offset + Text.byteLength sign) text := by
  let isDigit : Char → Bool := fun c => c.isDigit || c == '.'
  have hSize : ∀ c, isDigit c = true → 1 = c.utf8Size := by
    intro c hDigit
    rcases Bool.or_eq_true_iff.mp hDigit with hDigit | hPoint
    · exact utf8Size_of_isNamePart c (by rw [Reader.isNamePart, hDigit]; simp)
    · obtain rfl := beq_iff_eq.mp hPoint
      rfl
  have hBody : Ahead source (offset + Text.byteLength sign) body := (hText ▸ ahead).append
  have hSplit := List.takeWhile_append_dropWhile (p := isDigit) (l := body)
  have hWritten : text = sign ++ body.takeWhile isDigit ++ body.dropWhile isDigit := by
    rw [List.append_assoc, hSplit, hText]
  have hRest := ahead_dropWhile hBody isDigit
  rw [Nat.add_assoc, ← Text.byteLength_append] at hRest
  have hMoves := run_skipWhile hSize hBody (lt_length hBody)
  rw [Nat.add_assoc, ← Text.byteLength_append] at hMoves
  refine stepOffset (getOffset (stepOffset ?_ (run_slice (hWritten ▸ ahead)))) hMoves
  refine getText ?_
  have hDigits : (text.drop sign.length).takeWhile (fun c => c.isDigit || c == '.') =
      body.takeWhile isDigit := by
    rw [hText, List.drop_left]
  simp only [hSign, hDigits]
  by_cases hNumber : Reader.isNumber (sign ++ body.takeWhile isDigit) = true
  · rw [if_pos hNumber, if_pos hNumber]
    have hDrop : text.drop (sign ++ body.takeWhile isDigit).length = body.dropWhile isDigit := by
      conv_lhs => rw [hWritten]
      exact List.drop_left
    rw [hDrop]
    have hLength : (body.dropWhile isDigit).length ≤ text.length := by
      rw [← hDrop, List.length_drop]
      exact Nat.sub_le _ _
    have hHead : (body.takeWhile isDigit).head? ≠ some '-' := by
      intro hMinus
      have hDigit := List.mem_takeWhile_imp (List.mem_of_mem_head? hMinus)
      cases hDigit
    have hSigns : sign = [] ∨ sign = ['-'] := by
      rw [← hSign]
      split <;> simp
    have hValue := signed_eq hHead hSigns
    rw [hValue]
    exact stepText (pure id hRest _) (takes_set _ _) hLength
  · rw [if_neg hNumber, if_neg hNumber]
    exact refuseAt ahead

/-- A number, which may have a minus sign in front. -/
theorem number : Follows source id (Moving.number source) Reader.number offset text := by
  refine getOffset (peek ahead ?_)
  by_cases hMinus : text.head? = some '-'
  · obtain ⟨rest, rfl⟩ := exists_cons_of_head? hMinus
    exact stepOffset (unsigned ahead ['-'] rfl rfl) rfl
  · have hNone : (text.head? == some '-') = false := by simpa using hMinus
    rw [hNone]
    exact unsigned ahead [] rfl (by rw [hNone]; rfl)

/-- A string, from its opening quote on. -/
theorem string {quote : Char} {rest : List Char} (hText : text = quote :: rest)
    (hSize : quote.utf8Size = 1) :
    Follows source id
      (do
        let start ← get
        Moving.advance 1
        return .text (String.ofList
          (← Moving.quoted source start quote (source.length + 1))))
      (match Reader.quoted? quote text.tail with
        | none => Reader.failAt .unterminatedString text
        | some (value, rest) => do
            set rest
            return SelectorLiteral.text (String.ofList value)) offset text := by
  subst hText
  have hAhead : Ahead source (offset + 1) rest := hSize ▸ ahead.tail
  have hClose := Closes.quoted offset quote hAhead (lt_length hAhead)
  rw [List.tail_cons]
  refine getOffset (advance ?_)
  cases hFound : Reader.quoted? quote rest with
  | none =>
      rw [hFound] at hClose
      exact .error rfl (run_bind_error hClose) ahead
  | some found =>
      obtain ⟨value, behind⟩ := found
      rw [hFound] at hClose
      obtain ⟨stop, hMoves, hBehind, hLength⟩ := hClose
      exact stepOffset (stepText (pure id hBehind _) (takes_set _ _)
        (hLength.trans (Nat.le_succ _))) hMoves

theorem literal [RegexEngine] :
    Follows source id (Moving.literal source) Reader.literal offset text := by
  refine peek ahead (getText ?_)
  cases text with
  | nil => exact refuse ahead
  | cons c rest =>
      simp only [List.head?_cons]
      by_cases hQuote : (c == '\'' || c == '"') = true
      · rw [if_pos hQuote, if_pos hQuote]
        refine string ahead rfl ?_
        rcases Bool.or_eq_true_iff.mp hQuote with h | h <;> rw [beq_iff_eq.mp h] <;> rfl
      rw [if_neg hQuote, if_neg hQuote]
      by_cases hSlash : (c == '/') = true
      · rw [if_pos hSlash, if_pos hSlash]
        exact regex ahead (by rw [beq_iff_eq.mp hSlash])
      rw [if_neg hSlash, if_neg hSlash]
      by_cases hNumber : (c.isDigit || c == '-' || c == '.') = true
      · rw [if_pos hNumber, if_pos hNumber]
        exact number ahead
      rw [if_neg hNumber, if_neg hNumber]
      by_cases hName : Reader.isNameStart c = true
      · rw [if_pos hName, if_pos hName]
        refine (name ahead).bind fun word stop left hLeft _ => ?_
        dsimp only [id]
        by_cases hTrue : word = "true"
        · exact hTrue ▸ pure id hLeft _
        by_cases hFalse : word = "false"
        · exact hFalse ▸ pure id hLeft _
        by_cases hNull : word = "null"
        · exact hNull ▸ pure id hLeft _
        simp only
        exact pure id hLeft _
      rw [if_neg hName, if_neg hName]
      exact refuse ahead

end Follows

end Selector

end EcmaLint
