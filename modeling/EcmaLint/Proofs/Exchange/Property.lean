import EcmaLint.Proofs.Exchange.Parts

/-! The parts of properties in their long form: a key, a colon and a value, perhaps in
parentheses.

Where a property of a program was read. A text that is exchanged for itself is read as the same
program, so a property of an object in it was read as a property off the tokens that it spans. -/
namespace EcmaLint

section

open Grammar Production

variable {k levels : Nat} {context : Context} {cursor later : Cursor} {key property : Node}
  {computed : Bool}

/-- A word, a string or a number. -/
def Token.IsName (token : Token) : Prop :=
  token.isWord = true ∨ token.kind = .string ∨ token.kind = .numeric

/-- What a key is read off: one token, or an expression in brackets. -/
inductive ReadsKey (key : Node) : Bool → List Lexeme → Prop
  | plain {lexeme : Lexeme} (hName : lexeme.token.IsName) (hSpan : key.span = lexeme.token.span) :
      ReadsKey key false [lexeme]
  | computed {opening closing : Lexeme} {opens middle closes : List Lexeme}
      (hOpening : opening.is "[" = true) (hOpens : ∀ lexeme ∈ opens, lexeme.is "(" = true)
      (hBounds : key.span.Bounds (middle.map Lexeme.token))
      (hCloses : ∀ lexeme ∈ closes, lexeme.is ")" = true) (hClosing : closing.is "]" = true) :
      ReadsKey key true (opening :: (opens ++ middle ++ closes) ++ [closing])

/-- Every key is read off one token or off an expression in brackets. -/
theorem exists_readsKey
    (hRun : propertyKey (upTo k : Grammar Production) context cursor = .ok ((key, computed), later))
    (hSound : cursor.IsSound) (hSize : 0 < context.size) :
    ∃ keys, cursor.rest = keys ++ later.rest ∧ ReadsKey key computed keys ∧
      (computed = false → later.shorthandDefaults = cursor.shorthandDefaults) := by
  cases hRest : cursor.rest with
  | nil =>
      have hNever : Yields unexpected context cursor fun (_ : Node × Bool) _ => False := .unexpected
      unfold propertyKey at hRun
      rw [get_bind_eq, Cursor.current?, hRest] at hRun
      exact (hNever _ _ hRun).elim
  | cons lexeme rest =>
      have hToken : cursor.current? = some lexeme.token := by rw [Cursor.current?, hRest]; rfl
      have hLiteral : ∀ {value : FieldValue}, lexeme.token.IsName →
          (do
            bump
            return (← literal lexeme.token value, false) : Production (Node × Bool)) context cursor =
            .ok ((key, computed), later) →
          ∃ keys, lexeme :: rest = keys ++ later.rest ∧ ReadsKey key computed keys ∧
            (computed = false → later.shorthandDefaults = cursor.shorthandDefaults) := by
        intro value hName hRun
        obtain ⟨_, _, hBump, hStore⟩ := exists_of_run hRun
        rw [bump_eq, Cursor.past_of_cons hRest] at hBump
        cases hBump
        cases hStore
        exact ⟨[lexeme], rfl, .plain hName rfl, fun _ => rfl⟩
      by_cases hString : lexeme.token.kind = .string
      · exact hLiteral (.inr (.inl hString)) (Exchange.propertyKey_of_string hToken hString ▸ hRun)
      by_cases hNumeric : lexeme.token.kind = .numeric
      · exact hLiteral (.inr (.inr hNumeric)) (Exchange.propertyKey_of_numeric hToken hNumeric ▸ hRun)
      by_cases hOpening : lexeme.token.isPunctuator "[" = true
      · rw [Exchange.propertyKey_of_opening hToken hOpening] at hRun
        obtain ⟨_, _, hRequire, hBumps⟩ := exists_of_run hRun
        obtain ⟨-, rfl⟩ := since_le_of_require hRequire
        obtain ⟨_, _, hBump, hInner⟩ := exists_of_run hBumps
        rw [bump_eq] at hBump
        cases hBump
        obtain ⟨key, between, hKey, hExpect⟩ := exists_of_run hInner
        obtain ⟨_, _, hExpect, ⟨⟩⟩ := exists_of_run hExpect
        obtain ⟨hClosing, rfl⟩ := eq_past_of_expect hExpect
        obtain ⟨closing, hIs, hPasses⟩ := Cursor.exists_passes_of_atText hClosing
        have hOpeningText : cursor.atText "[" = true := by
          refine atText_of_current hToken ?_ (beq_iff_eq.mp (Bool.and_eq_true_iff.mp hOpening).2)
          simp [beq_iff_eq.mp (Bool.and_eq_true_iff.mp hOpening).1]
        obtain ⟨opening, hIsOpening, hPassesOpening⟩ := Cursor.exists_passes_of_atText hOpeningText
        have hSound' := hSound.of_eq_append hPassesOpening.rest_eq
        obtain ⟨taken, hTaken, -⟩ :=
          brackets_assignment { context with withoutIn := false } _ hSound' hSize _ _ hKey
        obtain ⟨opens, middle, closes, inner, first, last, hUnwraps⟩ :=
          ReadsValue.exists_unwraps
            ((findsValues_upTo k (Nat.le_refl k)).assignment.allowIn _ _ _ _ hKey) hSound' hSize
            ((readsNodes_upTo k).assignment.allowIn _ _ hSound'.inOrder _ _ hKey) ⟨taken, hTaken⟩
        refine ⟨_, ?_, .computed hIsOpening hUnwraps.opens_is hUnwraps.bounds hUnwraps.closes_is
          hIs, by simp⟩
        rw [← hRest, hPassesOpening.rest_eq, hUnwraps.passesOpens.rest_eq, hUnwraps.rest_eq,
          hUnwraps.passesCloses.rest_eq, hPasses.rest_eq]
        simp
      · have hNot := Bool.eq_false_iff.mpr hOpening
        rw [Exchange.propertyKey_of_word hToken hString hNumeric hNot] at hRun
        obtain ⟨node, between, hName, ⟨⟩⟩ := exists_of_run hRun
        have hWord := isWord_of_identifierName hToken hName
        rw [identifierName_of_isWord hToken hWord] at hName
        obtain ⟨_, _, hBump, hStore⟩ := exists_of_run hName
        rw [bump_eq, Cursor.past_of_cons hRest] at hBump
        cases hBump
        cases hStore
        exact ⟨[lexeme], rfl, .plain (.inl hWord) rfl, fun _ => rfl⟩

/-- A property that is neither a method nor an accessor nor in shorthand. -/
structure Node.IsLong (property : Node) : Prop where
  method_eq : property.flag .method = false
  shorthand_eq : property.flag .shorthand = false
  kind_ne : ∀ word ∈ ["get", "set"], property.text? .kind ≠ some word

/-- The fields of a property in its long form. -/
def longFields (key value : Node) (computed : Bool) : List (FieldName × FieldValue) :=
  [(.key, .node key), (.value, .node value), (.kind, .text "init"), (.method, .flag false),
   (.shorthand, .flag false), (.computed, .flag computed)]

theorem yields_accessor {atWord : Cursor → String → Bool} :
    Yields (accessor atWord) context cursor fun word later =>
      (word = none → later = cursor) ∧ ∀ text ∈ word, text ∈ ["get", "set"] :=
  .get_bind (.ite (fun _ => .skip fun _ _ => .pure (by simp)) fun _ =>
    .ite (fun _ => .skip fun _ _ => .pure (by simp)) fun _ => .pure (by simp))

/-- The parts of a property in its long form. -/
theorem yields_property_parts {G : Grammar Production} : Yields (Grammar.property G) context cursor
    fun property later => property.IsLong →
      ∃ key computed value atColon atEnd,
        Grammar.propertyKey G context cursor = .ok ((key, computed), atColon) ∧
        atColon.atText ":" = true ∧
        allowIn G.assignment context atColon.past = .ok (value, atEnd) ∧
        atEnd.Passes [] later ∧ property.fields = longFields key value computed := by
  refine .startOffset_bind fun start hStart => .get_bind ?_
  refine .optional_two ?_ ?_ fun behind
    (hBehind : ¬atPropertyModifier cursor "async" = true → behind = cursor) => .get_bind ?_
  · exact fun hAsync _ _ _ hNot => absurd hAsync hNot
  · exact fun _ _ => rfl
  refine .optional_three ?_ ?_ fun behind'
    (hBehind' : ¬behind.atText "*" = true → behind' = behind) => ?_
  · exact fun hStar _ _ _ hNot => absurd hStar hNot
  · exact fun _ _ => rfl
  refine .either (fun _ => yields_accessor) (fun _ => .pure ⟨fun _ => rfl, by simp⟩)
    fun word atKey hWord => .get_bind ?_
  refine (yields_run _).bind fun ⟨key, computed⟩ atColon hKey => ?_
  cases word with
  | some word =>
      refine .bind (fun _ _ _ => trivial) fun value between _ => ?_
      rintro _ _ ⟨⟩ hLong
      exact absurd rfl (hLong.kind_ne word (hWord.2 word rfl))
  | none =>
      refine .get_bind (.ite (fun _ => ?_) fun hNot => ?_)
      · refine .bind (fun _ _ _ => trivial) fun _ _ _ => .bind (fun _ _ _ => trivial) fun _ _ _ => ?_
        rintro _ _ ⟨⟩ hLong
        cases hLong.method_eq
      simp only [Bool.or_eq_true, not_or] at hNot
      obtain rfl := hBehind hNot.1.1
      obtain rfl := hBehind' hNot.1.2
      obtain rfl := hWord.1 rfl
      refine yields_eat_cases.bind ?_
      rintro found later (⟨rfl, hColon, rfl⟩ | ⟨rfl, rfl⟩)
      · rw [if_pos rfl]
        refine (yields_run _).bind fun value atEnd hValue => ?_
        rintro _ _ ⟨⟩ -
        exact ⟨key, computed, value, atColon, atEnd, hKey, hColon, hValue, ⟨rfl, rfl⟩, rfl⟩
      · rw [if_neg Bool.false_ne_true]
        refine .ite (fun _ => ?_) fun _ => .unexpected
        refine .bind (fun _ _ _ => trivial) fun _ _ _ =>
          .bind (fun _ _ _ => trivial) fun _ _ _ => .either (fun _ _ _ _ => trivial)
            (fun _ _ _ _ => trivial) fun _ _ _ => ?_
        rintro _ _ ⟨⟩ hLong
        cases hLong.shorthand_eq

/-- A property in its long form, part by part. -/
structure PropertyParts (levels : Nat) (context : Context) (cursor : Cursor) (property : Node)
    (later : Cursor) (key value : Node) (computed : Bool) (keys : List Lexeme) (colon : Lexeme)
    (opens middle closes : List Lexeme) (inner : Context) (atColon first last : Cursor) :
    Prop where
  levels_pos : 0 < levels
  runsKey : propertyKey (upTo levels : Grammar Production) context cursor =
    .ok ((key, computed), atColon)
  keys_eq : cursor.rest = keys ++ atColon.rest
  readsKey : ReadsKey key computed keys
  defaults_eq : computed = false → atColon.shorthandDefaults = cursor.shorthandDefaults
  passesColon : atColon.Passes [colon] atColon.past
  colon_is : colon.is ":" = true
  unwraps : Unwraps levels context atColon.past value later opens middle closes inner first last
  fields_eq : property.fields = longFields key value computed

theorem PropertyParts.rest_eq {value : Node} {keys opens middle closes : List Lexeme}
    {colon : Lexeme} {inner : Context} {atColon first last : Cursor}
    (h : PropertyParts levels context cursor property later key value computed keys colon opens
      middle closes inner atColon first last) :
    cursor.rest = keys ++ (colon :: (opens ++ (middle ++ (closes ++ later.rest)))) := by
  rw [h.keys_eq, h.passesColon.rest_eq, h.unwraps.passesOpens.rest_eq, h.unwraps.rest_eq,
    h.unwraps.passesCloses.rest_eq, List.singleton_append]

/-- Every property in its long form has these parts. -/
theorem exists_propertyParts
    (hRun : Grammar.property (upTo levels : Grammar Production) context cursor =
      .ok (property, later))
    (hLong : property.IsLong) (hSound : cursor.IsSound) (hSize : 0 < context.size) :
    ∃ key value computed keys colon opens middle closes inner atColon first last,
      PropertyParts levels context cursor property later key value computed keys colon opens middle
        closes inner atColon first last := by
  obtain ⟨key, computed, value, atColon, atEnd, hKey, hColon, hValue, hEnds, hFields⟩ :=
    yields_property_parts _ _ hRun hLong
  obtain ⟨keys, hKeys, hReadsKey, hDefaults⟩ := exists_readsKey hKey hSound hSize
  obtain ⟨colon, hIs, hPasses⟩ := Cursor.exists_passes_of_atText hColon
  have hSound' := (hSound.of_eq_append hKeys).of_eq_append hPasses.rest_eq
  obtain ⟨taken, hTaken, -⟩ :=
    brackets_assignment { context with withoutIn := false } _ hSound' hSize _ _ hValue
  obtain ⟨opens, middle, closes, inner, first, last, hUnwraps⟩ := ReadsValue.exists_unwraps
    ((findsValues_upTo levels (Nat.le_refl levels)).assignment.allowIn _ _ _ _ hValue) hSound' hSize
    ((readsNodes_upTo levels).assignment.allowIn _ _ hSound'.inOrder _ _ hValue) ⟨taken, hTaken⟩
  have hCloses := hUnwraps.passesCloses.trans hEnds
  rw [List.append_nil] at hCloses
  exact ⟨key, value, computed, keys, colon, opens, middle, closes, inner, atColon, first, last,
    { levels_pos := by
        by_contra hZero
        obtain rfl : levels = 0 := by omega
        have hNever : Yields (allowIn (upTo 0).assignment) context atColon.past
            fun (_ : Node) _ => False := .withReader .unexpected
        exact (hNever _ _ hValue).elim
      runsKey := hKey
      keys_eq := hKeys
      readsKey := hReadsKey
      defaults_eq := hDefaults
      passesColon := hPasses
      colon_is := hIs
      unwraps := { hUnwraps with passesCloses := hCloses }
      fields_eq := hFields }⟩

end

open Grammar Node Production

/-- A stretch in its own place. -/
def Exchange.same (front out back : List Lexeme) (year size : Nat) (property : Node) : Exchange where
  front
  out
  into := out
  back
  newBack := back
  year
  size
  newSize := size
  shift := Eq
  waits stage offset moved := moved = offset ∧ (stage = .before → offset < property.span.start)
  property? := some property
  becomes _ := False
  known := False

/-- A property that was read off a stretch, from a brace or a comma before it on. -/
structure FoundProperty (front out back : List Lexeme) (year size : Nat) (property : Node)
    (levels : Nat) (context : Context) (cursor later : Cursor) : Prop where
  year_eq : context.year = year
  size_eq : context.size = size
  sound : cursor.IsSound
  rest_eq : cursor.rest = out ++ back
  defaults_lt : ∀ offset ∈ cursor.shorthandDefaults, offset < property.span.start
  mark : ∃ mark ∈ front.getLast?, mark.is "\x7b" = true ∨ mark.is "," = true
  runs : Grammar.property (upTo levels : Grammar Production) context cursor = .ok (property, later)
  later_eq : later.rest = back
  ends : later.atText "\x7d" = true ∨ later.atText "," = true

theorem Lexeme.Alike.refl (lexeme : Lexeme) : lexeme.Alike Eq lexeme := ⟨⟨rfl, rfl, rfl⟩, rfl, rfl⟩

variable {k : Nat} {context : Context} {cursor later : Cursor} {front out back : List Lexeme}
  {program object property : Node}

theorem Exchange.isFair_same {year size : Nat}
    (hOrder : Token.InOrder ((front ++ (out ++ back)).map Lexeme.token))
    (hKind : property.kind = .property) (hBounds : property.span.Bounds (out.map Lexeme.token)) :
    (same front out back year size property).IsFair where
  near_le := by
    rintro _ _ _ _ (rfl | ⟨rfl, rfl⟩) (rfl | ⟨rfl, rfl⟩) <;> exact Iff.rfl
  waits_of_mem {stage lexeme copy} hAlike hNonempty hMem := by
    refine ⟨hAlike.start.symm, fun hStage => ?_⟩
    obtain ⟨-, hFront⟩ := hMem.resolve_right fun h => absurd (hStage.symm.trans h.1) (by decide)
    obtain ⟨first, hHead, hStart⟩ := hBounds.head
    rw [List.map_append] at hOrder
    refine hStart ▸ hNonempty.trans_le (hOrder.stop_le_start (List.mem_map_of_mem hFront) ?_)
    rw [List.map_append]
    exact List.mem_append_left _ (List.mem_of_mem_head? hHead)
  waits_le := by
    rintro _ _ _ _ _ (rfl | ⟨rfl, rfl⟩) ⟨rfl, -⟩ <;> exact Iff.rfl
  back := List.forall₂_same.mpr fun lexeme _ => .refl lexeme
  into_ne_nil := by
    rintro rfl
    obtain ⟨_, hHead, -⟩ := hBounds.head
    cases hHead
  inOrder := by
    rw [List.map_append] at hOrder
    exact hOrder.append_right
  property := by
    rintro _ ⟨⟩
    exact ⟨hKind, hBounds⟩
  into_is_eq_false _ hTail lexeme hLexeme := by
    refine hTail lexeme ?_
    obtain ⟨rest, rfl⟩ := List.head?_eq_some_iff.mp (Option.mem_def.mp hLexeme)
    rfl
  becomes := ⟨fun h => h.2.elim, fun h => h.2.elim⟩

/-- Where a property stands in an object of a program, it was read off the tokens that it spans. -/
theorem exists_foundProperty
    (hRun : (upTo k : Grammar Production).program context cursor = .ok (program, later))
    (hSound : cursor.IsSound) (hRest : cursor.rest = front ++ (out ++ back))
    (hDefaults : cursor.shorthandDefaults = [])
    (hObject : object ∈ forest [program]) (hKind : object.kind = .objectExpression)
    (hChild : property ∈ object.children) (hProperty : property.kind = .property)
    (hBounds : property.span.Bounds (out.map Lexeme.token)) :
    ∃ levels inner edge behind, FoundProperty front out back context.year context.size property
      levels inner edge behind := by
  let W := Exchange.same front out back context.year context.size property
  have hFair : W.IsFair := Exchange.isFair_same (hRest ▸ hSound.inOrder) hProperty hBounds
  have hFits : W.Fits context context :=
    ⟨rfl, rfl, rfl, rfl, rfl, rfl, rfl, rfl, rfl, Nat.le_refl _⟩
  by_contra hNone
  -- if the property is never read, nothing is to be known of how it is read again
  have hRereads : ∀ n m, n ≤ m → W.Rereads (upTo n) (upTo m) := by
    intro n m _ inner other edge twin node behind hInner hEdge hMark hNode hRuns hBehind hEnds
    obtain rfl : property = node := Option.some.inj hNode
    have hWaiting := hEdge.defaults.imp fun _ _ h => And.intro (h.2 rfl) h.1
    exact (hNone ⟨n, inner, edge, behind, hInner.edition_eq, hInner.size_eq,
      ⟨hEdge.inOrder, hEdge.tidy⟩, hEdge.rest_eq, ((List.forall₂_and_left _ _).mp hWaiting).1,
      hMark, hRuns, hBehind, hEnds⟩).elim
  have hMirrored := Exchange.mirrored_upTo hFair hRereads k k (Nat.le_refl k)
  have hMeets : ∃ stage, W.Meets stage cursor cursor := by
    by_cases hFront : front = []
    · refine ⟨.lost, hSound.inOrder, hSound.tidy, ?_, fun h => absurd rfl h, fun h => absurd rfl h⟩
      change cursor.rest <:+ out ++ back
      rw [hRest, hFront]
      exact List.suffix_refl _
    · have hRest' : cursor.rest = front ++ W.tail := hRest
      refine ⟨.before, hSound.inOrder, hSound.tidy, ⟨front, front, ⟨hFront, List.suffix_refl _, ?_, ?_⟩,
        hRest', hRest'⟩, fun _ => .inl rfl, fun _ => by simp [hDefaults]⟩
      · exact List.forall₂_same.mpr fun lexeme _ => .refl lexeme
      · intro n _ first second hFirst hSecond
        have hSame : second.rest = first.rest := hSecond.trans hFirst.symm
        have hLooks := Cursor.Looks.refl first
        exact ⟨hSame ▸ hLooks.first, fun h => hSame ▸ hLooks.second h, hSame ▸ hLooks.arrow,
          fun h => hSame ▸ hLooks.arrowNext h⟩
  obtain ⟨stage, hMeets⟩ := hMeets
  exact (hMirrored.program_after hFits hMeets (.inl rfl) hRun hObject hKind hChild rfl).2.1

end EcmaLint
