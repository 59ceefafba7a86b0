import EcmaLint.Proofs.Except
import EcmaLint.Proofs.Selector.Following
import EcmaLint.Selector.Match

/-! Selectors stay on the boundaries of their patterns. From its attributes to its alternatives the
reader by offsets follows the reader of texts, so it always comes to a result, and its faults are at
boundaries. The chains that it builds are matched by indices that are all in range. -/
namespace EcmaLint

/-- A complex selector from left to right. -/
def Complex.chain (complex : Complex) : Selector.Moving.Chain where
  compounds := complex.compounds.reverse
  combinators := (complex.context.map Prod.fst).reverse

namespace Selector

open Text (Ahead)

variable {source : List Char} {α β : Type}

namespace Follows

variable {offset : Nat} {text : List Char} (ahead : Ahead source offset text)
include ahead

theorem segment : Follows source id (Moving.segment source) Reader.segment offset text := by
  refine peek ahead (getText ?_)
  by_cases hName : (text.head?.any fun c => Reader.isNameStart c || c.isDigit) = true
  · rw [if_pos hName, if_pos hName]
    exact name ahead
  · rw [if_neg hName, if_neg hName]
    exact refuse ahead

/-- A loop may have more turns than it takes. -/
theorem segments {fuel turns : Nat} (hFuel : text.length < fuel) (hTurns : text.length ≤ turns) :
    Follows source id (Moving.segments source fuel) (Reader.segments turns) offset text := by
  induction turns generalizing text offset fuel with
  | zero =>
      obtain ⟨fuel, rfl⟩ := Nat.exists_eq_add_one_of_ne_zero (Nat.ne_zero_of_lt hFuel)
      obtain rfl : text = [] := List.length_eq_zero_iff.mp (Nat.le_zero.mp hTurns)
      exact stepOffset (pure id ahead _) (run_eat_other ahead (by simp))
  | succ turns ih =>
      obtain ⟨fuel, rfl⟩ := Nat.exists_eq_add_one_of_ne_zero (Nat.ne_zero_of_lt hFuel)
      refine eat ahead (fun rest hText hRest => ?_) fun _ => pure id ahead _
      subst hText
      refine (segment hRest).bind fun name stop left hLeft hLength => ?_
      have hLater : Follows source id (Moving.segments source fuel) (Reader.segments turns) stop
          left := by
        rw [List.length_cons] at hFuel hTurns
        exact ih hLeft (by omega) (by omega)
      exact hLater.bind fun names stop left hLeft _ => pure id hLeft _

theorem test [RegexEngine] : Follows source id (Moving.test source) Reader.test offset text := by
  have hClose : ∀ (test : AttributeTest) {stop rest}, Ahead source stop rest →
      Follows source id (do let _ ← Moving.blanks source; Moving.expect source ']'; return test)
        (do let _ ← Reader.blanks; Reader.expect ']'; return test) stop rest :=
    fun test _ _ hRest => (blanks hRest).bind fun _ _ _ hBehind _ =>
      (expect hBehind).bind fun _ _ _ hBehind _ => pure id hBehind test
  refine eat ahead (fun rest _ hRest => pure id hRest _) fun _ => ?_
  have hCompared : ∀ (make : SelectorLiteral → AttributeTest) {stop rest}, Ahead source stop rest →
      Follows source id
        (do
          let _ ← Moving.blanks source
          let literal ← Moving.literal source
          let test ← Pure.pure (make literal)
          let _ ← Moving.blanks source
          Moving.expect source ']'
          return test)
        (do
          let _ ← Reader.blanks
          let literal ← Reader.literal
          let test ← Pure.pure (make literal)
          let _ ← Reader.blanks
          Reader.expect ']'
          return test) stop rest :=
    fun make _ _ hRest => (blanks hRest).bind fun _ _ _ hBehind _ =>
      (literal hBehind).bind fun value _ _ hBehind _ =>
        (pure id hBehind (make value)).bind fun test _ _ hBehind _ => hClose test hBehind
  refine left ahead (getText (eat ahead (fun rest hText hRest => ?_) fun _ => ?_))
  · have hOther : ¬ "!=".toList.isPrefixOf text = true := by rw [hText]; simp
    rw [if_neg hOther, if_neg hOther, if_pos rfl, if_pos rfl]
    exact hCompared .equals hRest
  · by_cases hDiffers : "!=".toList.isPrefixOf text = true
    · rw [if_pos hDiffers, if_pos hDiffers]
      obtain ⟨rest, rfl⟩ := List.isPrefixOf_iff_prefix.mp hDiffers
      have hRest : Ahead source (offset + 2) rest := ahead.append
      refine stepText (advance ?_) (takes_modify _ _) ?_
      · exact hCompared .differs hRest
      · rw [List.length_drop]
        exact Nat.sub_le _ _
    · rw [if_neg hDiffers, if_neg hDiffers, if_neg Bool.false_ne_true, if_neg Bool.false_ne_true]
      exact refuse_bind ahead

/-- Behind its opening bracket an attribute is shorter than the text. -/
theorem bracketed_bind [RegexEngine] {γ δ : Type} {view : δ → γ} {rest : List Char}
    {next : Attribute → Moving γ} {next' : Attribute → Reader.Reading δ}
    (hText : text = '[' :: rest)
    (later : ∀ tested stop left, Ahead source stop left → left.length < text.length →
      Follows source view (next tested) (next' tested) stop left) :
    Follows source view (Moving.bracketed source >>= next) (Reader.bracketed >>= next') offset
      text := by
  subst hText
  simp only [Moving.bracketed, Reader.bracketed, bind_assoc, pure_bind]
  refine stepText (stepOffset ?_ (run_expect ahead)) (takes_expect _ _) (Nat.le_succ _)
  · refine (blanks ahead.tail).bind fun _ _ _ hBehind hBlank => ?_
    refine (segment hBehind).bind fun first _ text hBehind hFirst => getText ?_
    refine (segments hBehind (lt_length hBehind) le_rfl).bind fun names _ _ hBehind hNames => ?_
    refine (blanks hBehind).bind fun _ _ _ hBehind hMore => ?_
    refine (test hBehind).bind fun test _ _ hBehind hTest => later _ _ _ hBehind ?_
    simp only [List.length_cons]
    omega

theorem attributes [RegexEngine] {fuel turns : Nat} (hFuel : text.length < fuel)
    (hTurns : text.length ≤ turns) :
    Follows source id (Moving.attributes source fuel) (Reader.attributes turns) offset text := by
  induction turns generalizing text offset fuel with
  | zero =>
      obtain ⟨fuel, rfl⟩ := Nat.exists_eq_add_one_of_ne_zero (Nat.ne_zero_of_lt hFuel)
      obtain rfl : text = [] := List.length_eq_zero_iff.mp (Nat.le_zero.mp hTurns)
      exact stepOffset (pure id ahead _) (run_peek ahead)
  | succ turns ih =>
      obtain ⟨fuel, rfl⟩ := Nat.exists_eq_add_one_of_ne_zero (Nat.ne_zero_of_lt hFuel)
      refine peek ahead (getText ?_)
      by_cases hBracket : (text.head? == some '[') = true
      · rw [if_pos hBracket, if_pos hBracket]
        obtain ⟨rest, hText⟩ := exists_cons_of_head? (beq_iff_eq.mp hBracket)
        refine bracketed_bind ahead hText fun tested _ left hLeft hLength => ?_
        exact (ih hLeft (Nat.lt_of_lt_of_le hLength (Nat.le_of_lt_succ hFuel))
          (Nat.le_of_lt_succ (Nat.lt_of_lt_of_le hLength hTurns))).bind
          fun others _ _ hBehind _ => pure id hBehind _
      · rw [if_neg hBracket, if_neg hBracket]
        exact pure id ahead _

theorem head : Follows source id (Moving.head source) Reader.head offset text := by
  refine getOffset (getText (eat ahead (fun _ _ hRest => pure id hRest _) fun _ => ?_))
  rw [if_neg Bool.false_ne_true, if_neg Bool.false_ne_true]
  refine peek ahead ?_
  by_cases hName : (text.head?.any Reader.isNameStart) = true
  · rw [if_pos hName, if_pos hName]
    refine (name ahead).bind fun word _ _ hRest _ => ?_
    dsimp only [id]
    cases NodeKind.ofName? word with
    | none => exact refuseAt ahead
    | some kind => exact pure id hRest _
  · rw [if_neg hName, if_neg hName]
    exact pure id ahead _

theorem compound [RegexEngine] :
    Follows source id (Moving.compound source) Reader.compound offset text := by
  refine (head ahead).bind fun found _ text hText _ => ?_
  obtain ⟨kind, hasHead⟩ := found
  refine getText ((attributes hText (lt_length hText) le_rfl).bind fun tests _ text hText _ => ?_)
  refine peek hText (getText ?_)
  dsimp only [id]
  have hFinish : ∀ {stop rest}, Ahead source stop rest → Follows source id
      (do
        if !hasHead && tests.isEmpty then Moving.refuse .missingCompound
        return { kind, attributes := tests : Compound })
      (do
        if !hasHead && tests.isEmpty then Reader.fail .missingCompound
        return { kind, attributes := tests }) stop rest := by
    intro stop rest hRest
    by_cases hNothing : (!hasHead && tests.isEmpty) = true
    · rw [if_pos hNothing, if_pos hNothing]
      exact refuse_bind hRest
    · rw [if_neg hNothing, if_neg hNothing]
      exact pure id hRest _
  by_cases hColon : (text.head? == some ':') = true
  · rw [if_pos hColon, if_pos hColon]
    exact refuse_bind hText
  · rw [if_neg hColon, if_neg hColon]
    exact hFinish hText

theorem unexpected {α β : Type} {view : β → α} :
    Follows source view (Moving.unexpected source) Reader.unexpected offset text := by
  refine peek ahead (getText ?_)
  cases text with
  | nil => exact refuse ahead
  | cons c rest => exact refuse ahead

omit ahead in
theorem chain_joined (complex : Complex) (combinator : Combinator) (next : Compound) :
    Complex.chain ⟨next, (combinator, complex.subject) :: complex.context⟩ =
      ⟨complex.chain.compounds ++ [next], complex.chain.combinators ++ [combinator]⟩ := by
  simp [Complex.chain, Complex.compounds]

/-- Each turn takes a combinator and a compound, and the combinator is not empty. -/
theorem continuation [RegexEngine] (complex : Complex) {fuel turns : Nat}
    (hFuel : text.length < fuel)
    (hTurns : text.length < turns) :
    Follows source Complex.chain (Moving.continuation source fuel complex.chain)
      (Reader.continuation turns complex) offset text := by
  induction turns generalizing text offset fuel complex with
  | zero => exact absurd hTurns (Nat.not_lt_zero _)
  | succ turns ih =>
      obtain ⟨fuel, rfl⟩ := Nat.exists_eq_add_one_of_ne_zero (Nat.ne_zero_of_lt hFuel)
      have hExtend : ∀ (combinator : Combinator) {stop rest}, Ahead source stop rest →
          rest.length < text.length →
          Follows source Complex.chain
            (do
              let next ← Moving.compound source
              Moving.continuation source fuel ⟨complex.chain.compounds ++ [next],
                complex.chain.combinators ++ [combinator]⟩)
            (do
              let subject ← Reader.compound
              Reader.continuation turns ⟨subject, (combinator, complex.subject) :: complex.context⟩)
            stop rest := by
        intro combinator stop rest hRest hLength
        refine (compound hRest).bind fun next stop left hLeft hLess => ?_
        rw [id, ← chain_joined]
        exact ih hLeft _ (by omega) (by omega)
      refine (blanks ahead).bindTaken fun separated stop rest hTaken hRest hLength => ?_
      have hSeparated : separated = decide (rest.length < text.length) := by
        obtain ⟨rfl, rfl⟩ := Prod.mk.inj (Except.ok.inj hTaken)
        rfl
      refine peek hRest (getText ?_)
      cases rest with
      | nil => exact pure Complex.chain hRest complex
      | cons c rest =>
          simp only [List.head?_cons, id]
          by_cases hComma : (c == ',') = true
          · rw [if_pos hComma, if_pos hComma]
            exact pure Complex.chain hRest complex
          rw [if_neg hComma, if_neg hComma]
          by_cases hAngle : (c == '>') = true
          · rw [if_pos hAngle, if_pos hAngle]
            obtain rfl := beq_iff_eq.mp hAngle
            refine stepText (advance ?_) (takes_modify _ _) (Nat.le_succ _)
            refine (blanks hRest.tail).bind fun _ _ _ hBehind hLess => ?_
            exact hExtend .child hBehind (by simp at hLength; omega)
          rw [if_neg hAngle, if_neg hAngle]
          by_cases hBlank : separated = true
          · rw [if_pos hBlank, if_pos hBlank]
            rw [hSeparated] at hBlank
            exact hExtend .descendant hRest (of_decide_eq_true hBlank)
          rw [if_neg hBlank, if_neg hBlank]
          exact unexpected hRest

theorem complex [RegexEngine] :
    Follows source Complex.chain (Moving.complex source) Reader.complex offset text := by
  refine (compound ahead).bind fun first stop rest hRest _ => getText ?_
  exact continuation hRest ⟨first, []⟩ (lt_length hRest) (Nat.lt_succ_self _)

theorem alternatives [RegexEngine] {fuel turns : Nat} (hFuel : text.length < fuel)
    (hTurns : text.length < turns) :
    Follows source (List.map Complex.chain) (Moving.alternatives source fuel)
      (Reader.alternatives turns) offset text := by
  induction turns generalizing text offset fuel with
  | zero => exact absurd hTurns (Nat.not_lt_zero _)
  | succ turns ih =>
      obtain ⟨fuel, rfl⟩ := Nat.exists_eq_add_one_of_ne_zero (Nat.ne_zero_of_lt hFuel)
      refine (blanks ahead).bind fun _ _ _ hFirst hLength => ?_
      refine (complex hFirst).bind fun first _ _ hBehind hLess => ?_
      refine (blanks hBehind).bind fun _ _ text hBehind hLeft => ?_
      refine eat hBehind (fun rest hText hRest => ?_) fun _ => ?_
      · rw [if_pos rfl, if_pos rfl]
        have hShorter : rest.length < text.length := by simp [hText]
        exact (ih hRest (by omega) (by omega)).bind fun others _ _ hEnd _ =>
          pure (List.map Complex.chain) hEnd (first :: others)
      · rw [if_neg Bool.false_ne_true, if_neg Bool.false_ne_true]
        refine peek hBehind (getText ?_)
        cases text with
        | nil => exact pure (List.map Complex.chain) hBehind [first]
        | cons c rest => exact unexpected hBehind

end Follows

theorem Takes.exists_of_bind {text rest : List Char} {first : Reader.Reading α}
    {next : α → Reader.Reading β} {b : β} (h : Takes (first >>= next) text b rest) :
    ∃ a middle, Takes first text a middle ∧ Takes (next a) middle b rest := by
  rw [Takes, StateT.run_bind] at h
  obtain ⟨⟨a, middle⟩, hFirst, hNext⟩ := exists_of_bind_eq_ok h
  exact ⟨a, middle, hFirst, hNext⟩

/-- There is at least one alternative. -/
theorem alternatives_ne_nil [RegexEngine] {turns : Nat} {text rest : List Char}
    {found : List Complex}
    (h : Takes (Reader.alternatives turns) text found rest) : found ≠ [] := by
  have hUnexpected : ∀ text : List Char, ¬ Takes (Reader.unexpected) text found rest := by
    intro text hTakes
    cases text <;> cases hTakes
  cases turns with
  | zero => exact absurd h (hUnexpected text)
  | succ turns =>
      obtain ⟨_, _, -, h⟩ := h.exists_of_bind
      obtain ⟨first, _, -, h⟩ := h.exists_of_bind
      obtain ⟨_, _, -, h⟩ := h.exists_of_bind
      obtain ⟨comma, text, -, h⟩ := h.exists_of_bind
      split at h
      · obtain ⟨others, _, -, h⟩ := h.exists_of_bind
        obtain ⟨rfl, -⟩ := Prod.mk.inj (Except.ok.inj h)
        exact List.cons_ne_nil _ _
      · obtain ⟨_, _, -, h⟩ := h.exists_of_bind
        split at h
        · obtain ⟨rfl, -⟩ := Prod.mk.inj (Except.ok.inj h)
          exact List.cons_ne_nil _ _
        · exact absurd h (hUnexpected _)

/-- Whether a node and those above it fit a compound and all that stands to its left. There is no
result where an index is out of range. -/
def Moving.Chain.matchesAt? (chain : Chain) : Nat → Place → Option Bool
  | 0, place => do return (← chain.compounds[0]?).holds place.node
  | index + 1, place => do
      if !(← chain.compounds[index + 1]?).holds place.node then return false
      match ← chain.combinators[index]? with
      | .child =>
          match place.parent? with
          | none => return false
          | some parent => chain.matchesAt? index parent
      | .descendant => place.ancestors.anyM (chain.matchesAt? index)

/-- A chain that starts like that of a complex selector picks the same nodes at its subject. -/
theorem matchesAt?_of_prefix {complex : Complex} {chain : Moving.Chain}
    (hCompounds : complex.chain.compounds <+: chain.compounds)
    (hCombinators : complex.chain.combinators <+: chain.combinators) (place : Place) :
    chain.matchesAt? complex.context.length place = some (complex.picks place) := by
  obtain ⟨subject, context⟩ := complex
  induction context generalizing subject place with
  | nil =>
      obtain ⟨others, hOthers⟩ := hCompounds
      have hSubject : chain.compounds[0]? = some subject := by
        rw [← hOthers]
        rfl
      simp [Moving.Chain.matchesAt?, hSubject, Complex.picks, Complex.contextHolds]
  | cons joint rest ih =>
      obtain ⟨combinator, above⟩ := joint
      rw [Follows.chain_joined ⟨above, rest⟩ combinator subject] at hCompounds hCombinators
      have hAbove : chain.matchesAt? rest.length =
          fun place => some ((Complex.mk above rest).picks place) := by
        funext place
        exact ih place above ((List.prefix_append _ _).trans hCompounds)
          ((List.prefix_append _ _).trans hCombinators)
      have hSubject : chain.compounds[rest.length + 1]? = some subject := by
        obtain ⟨others, hOthers⟩ := hCompounds
        simp [← hOthers, Complex.chain, Complex.compounds]
      have hCombinator : chain.combinators[rest.length]? = some combinator := by
        obtain ⟨others, hOthers⟩ := hCombinators
        simp [← hOthers, Complex.chain]
      simp only [List.length_cons, Moving.Chain.matchesAt?, hSubject, hCombinator, hAbove,
        Option.bind_eq_bind, Option.bind_some, Complex.picks]
      by_cases hHolds : subject.holds place.node = true
      · cases combinator with
        | child =>
            simp only [hHolds, Complex.contextHolds]
            cases place.parent? <;> rfl
        | descendant =>
            simp only [hHolds, Complex.contextHolds]
            exact List.anyM_pure
      · simp [hHolds]

/-- What reading by offsets comes to: alternatives of which every compound and every combinator
can be reached by its index, or a fault at a boundary of the pattern. -/
inductive ComesTo [RegexEngine] (pattern : String) :
    Except (SelectorFault × Nat) (List Moving.Chain) → Prop where
  | selector {chains : List Moving.Chain} {alternatives : List Complex}
      (parses : parse pattern = .ok ⟨pattern, alternatives⟩) (isSome : chains ≠ [])
      (fits : List.Forall₂ (fun chain complex =>
        chain.compounds.length = chain.combinators.length + 1 ∧
          ∀ place, chain.matchesAt? (chain.compounds.length - 1) place = some (complex.picks place))
        chains alternatives) : ComesTo pattern (.ok chains)
  | fault {fault : SelectorFault} {offset : Nat}
      (parses : parse pattern = .error ⟨pattern, fault, offset⟩)
      (offset_le : offset ≤ Text.byteLength pattern.toList)
      (isBoundary : Text.IsBoundary offset pattern.toList) :
      ComesTo pattern (.error (fault, offset))

/-- Reading a pattern by offsets always comes to a result, without a slice off a boundary and
without a loop that goes on. It is what `parse` says: either a selector, which is matched without
an index out of range, or a fault at an offset that is a boundary of the pattern. -/
theorem parse_staysOnBoundaries [RegexEngine] (pattern : String) :
    ∃ result, parseAt? pattern = some result ∧ ComesTo pattern result := by
  have hStart : Ahead pattern.toList 0 pattern.toList := ⟨[], rfl, rfl⟩
  have hFollows := Follows.alternatives hStart (Nat.lt_succ_self _) (Nat.lt_succ_self _)
  cases hFollows with
  | @ok alternatives rest stop reads moves ahead length_le =>
      have hSome : alternatives.map Complex.chain ≠ [] := by
        simpa using alternatives_ne_nil reads
      have hParses : parse pattern = .ok ⟨pattern, alternatives⟩ := by simp only [parse, reads]
      refine ⟨.ok (alternatives.map Complex.chain), by simp only [parseAt?, moves]; rfl,
        .selector hParses hSome ?_⟩
      rw [List.forall₂_map_left_iff, List.forall₂_same]
      intro complex _
      have hLength : complex.chain.compounds.length = complex.context.length + 1 := by
        simp [Complex.chain, Complex.compounds]
      refine ⟨by simp [Complex.chain, Complex.compounds], fun place => ?_⟩
      rw [hLength, Nat.add_sub_cancel]
      exact matchesAt?_of_prefix (List.prefix_refl _) (List.prefix_refl _) place
  | @error mistake stop reads moves ahead =>
      have hStop := ahead.stop_eq
      refine ⟨.error (mistake.fault, stop), by simp only [parseAt?, moves]; rfl,
        .fault ?_ ahead.isBoundary.le ahead.isBoundary⟩
      simp only [parse, reads]
      rw [← hStop, Nat.add_sub_cancel]

end Selector

end EcmaLint
