import EcmaLint.Proofs.Exchange.Pattern
import EcmaLint.Proofs.Grammar.Operand

/-! Functions, methods and classes, arrays, arguments and properties, in the old text and in the new
one. -/
namespace EcmaLint

section

open Grammar Node Production

namespace Exchange

variable {W : Exchange} {G H : Grammar Production} {first stage : Stage}
  {origin cursor twin : Cursor}
  {context other : Context} {depth : Nat} {start start' : Nat}

/-- A node that may be missing, in front of others. -/
theorem forall₂_toList_append {related : Node → Node → Prop} {child other : Option Node}
    {nodes others : List Node} (hSome : other.isSome = child.isSome)
    (h : List.Forall₂ related (child.toList ++ nodes) (other.toList ++ others)) :
    Option.Rel related child other ∧ List.Forall₂ related nodes others := by
  cases child <;> cases other <;> simp_all

/-- A node that may be missing. -/
theorem rel_of_toList {related : Node → Node → Prop} {child other : Option Node}
    (hSome : other.isSome = child.isSome) (h : List.Forall₂ related child.toList other.toList) :
    Option.Rel related child other := by
  cases child <;> cases other <;> simp_all

/-- A node behind others. -/
theorem forall₂_concat {related : Node → Node → Prop} {nodes others : List Node}
    {last last' : Node} :
    List.Forall₂ related (nodes ++ [last]) (others ++ [last']) ↔
      List.Forall₂ related nodes others ∧ related last last' := by
  rw [← List.forall₂_reverse_iff]
  simp [and_comm]

/-- The fields of two functions whose parts are alike. -/
theorem named_functionFields {related : Node → Node → Prop} {name name' : Option Node}
    {params params' : List Node} {body body' : Node} {isAsync isGenerator isExpression : Bool}
    (hSome : name'.isSome = name.isSome)
    (h : List.Forall₂ related (name.toList ++ (params ++ [body]))
      (name'.toList ++ (params' ++ [body']))) :
    List.Forall₂ (Field.Named related)
      (functionFields name params body isAsync isGenerator isExpression)
      (functionFields name' params' body' isAsync isGenerator isExpression) := by
  obtain ⟨hName, hRest⟩ := forall₂_toList_append hSome h
  obtain ⟨hParams, hBody⟩ := forall₂_concat.mp hRest
  simp [functionFields, hName, hParams, hBody]

theorem mirrors_nameFor (role : Role) :
    W.Mirrors (nameFor role) (nameFor role) Option.toList
      fun name name' => name'.isSome = name.isSome := by
  intro context other stage cursor twin hFits hMeets
  refine (Tracks.refl hMeets).get_bind fun twin h hLooks => ?_
  refine .ite (fun _ => by rw [hLooks.atIdentifier_eq]) (fun _ => ?_) fun _ => ?_
  · exact mirrorsNode_identifier.bindAfter hFits h fun _ _ _ _ _ h => .pure ⟨h, rfl⟩
  · exact .ite (fun _ => Iff.rfl) (fun _ => .unexpected) fun _ => .pure ⟨h, rfl⟩

/-- Words that are read alike, which stand where they are asked for. -/
structure Asks (atWord : Cursor → String → Bool) : Prop where
  atText : ∀ {cursor word}, atWord cursor word = true → cursor.atText word = true
  same : ∀ {cursor twin : Cursor} {word}, cursor.Looks twin →
    word ∉ ["\x7b", "\x7d", ")", "]", ","] → atWord twin word = atWord cursor word

theorem asks_atModifier : Asks atModifier where
  atText h := by
    simp only [atModifier, Bool.and_eq_true] at h
    exact h.1.1.1.1
  same hLooks hWord := hLooks.atModifier_eq hWord

theorem Tracks.accessor {atWord : Cursor → String → Bool} {read others : List Node}
    (hAsks : Asks atWord) (h : W.Tracks first origin depth read others stage cursor twin) :
    Mimics stage (accessor atWord) (accessor atWord) context other cursor twin
      fun reached word word' later later' => word' = word ∧
        W.Tracks first origin depth read others reached later later' := by
  refine h.get_bind fun twin h hLooks => ?_
  refine .ite (fun _ => by rw [hAsks.same hLooks (by decide)]) (fun hGet => ?_) fun _ => ?_
  · refine h.bump_bind (Cursor.isFlat_of_atText (hAsks.atText hGet) (by decide)) fun _ _ _ h => ?_
    exact .pure ⟨rfl, h⟩
  refine .ite (fun _ => by rw [hAsks.same hLooks (by decide)]) (fun hSet => ?_) fun _ => ?_
  · refine h.bump_bind (Cursor.isFlat_of_atText (hAsks.atText hSet) (by decide)) fun _ _ _ h => ?_
    exact .pure ⟨rfl, h⟩
  · exact .pure ⟨rfl, h⟩

/-- Two nodes that are alike give one name, if they are no properties. -/
theorem keyName?_eq {key key' : Node} (hFair : W.IsFair) (h : W.Alike key key')
    (hKind : key.kind ≠ .property) : keyName? key' = keyName? key := by
  cases h with
  | @same _ _ kind _ _ _ _ _ hFields _ =>
      cases kind
      case identifier => exact text?_eq_of_named hFields .ident
      case literal => exact text?_eq_of_named hFields .value
      all_goals rfl
  | changed hChanged => exact absurd (hFair.property _ hChanged.1).1 hKind

namespace Mirrored

/-- The parameters up to the parenthesis that closes them. -/
theorem iterate_paramsTurn (hG : W.Mirrored G H) :
    W.Mirrors (iterate (paramsTurn G) []) (iterate (paramsTurn H) []) (fun params => params)
      fun _ _ => True := by
  intro context other stage cursor twin hFits hMeets
  obtain ⟨_, hAdvances⟩ := hG.advances
  have hConsumes := consumes_of_rounds fun limit => (hAdvances (limit + 1)).paramsTurn
  refine (Mimics.iterate hG.fair hConsumes
    (fun reached seen seen' => W.Tracks stage cursor 0 seen seen' reached)
    (fun reached params params' => W.Tracks stage cursor 0 params params' reached)
    (Tracks.refl hMeets) (fun _ _ _ _ _ h => h.meets.abreast) fun _ seen seen' _ _ h => ?_).imp
    fun _ _ _ _ _ h => ⟨h, trivial⟩
  refine h.get_bind fun twin h hLooks =>
    .ite (fun _ => hLooks.atText_iff _) (fun _ => .pure (.done h)) fun _ => ?_
  refine h.get_bind fun twin h hLooks =>
    .ite (fun _ => hLooks.atText_iff _) (fun _ => ?_) fun _ => ?_
  · refine hG.restElement.bindAfter hFits h fun _ rest rest' _ _ h => ?_
    refine h.get_bind fun twin h hLooks => .ite (fun _ => hLooks.atText_iff _)
      (fun _ => .pure (.done h)) fun _ => ?_
    exact .startOffset_bind hFits h.meets fun _ _ _ => .fault_bind
  · refine hG.bindingElement.bindAfter hFits h fun _ param param' _ _ h => ?_
    refine h.eat_bind (by decide) fun _ found _ _ h => .ite (fun _ => Iff.rfl) (fun _ => ?_)
      fun _ => .pure (.done h)
    refine h.get_bind fun twin h hLooks => .optional_two (fun _ => hLooks.atText_iff _)
      (fun _ => ?_) (fun _ => h) fun _ _ _ h => .pure (.again h)
    exact .startOffset_bind hFits h.meets fun _ _ _ => h.require hFits

theorem params (hG : W.Mirrored G H) :
    W.Mirrors (params G) (params H) (fun params => params) fun _ _ => True := by
  intro context other stage cursor twin hFits hMeets
  refine (Tracks.refl hMeets).open_bind (by decide) fun _ _ _ h => ?_
  refine hG.iterate_paramsTurn.bindAfter hFits h fun _ _ _ _ _ h _ => ?_
  exact h.close_bind (by decide) fun _ _ _ h => .pure ⟨h, trivial⟩

theorem paramsAndBody (hG : W.Mirrored G H) (isAsync isGenerator : Bool) :
    W.Mirrors (paramsAndBody G isAsync isGenerator) (paramsAndBody H isAsync isGenerator)
      (fun parts => parts.1 ++ [parts.2]) fun _ _ => True := by
  refine Mirrors.inFunction fun context other stage cursor twin hFits hMeets => ?_
  refine hG.params.bindAfter hFits (.refl hMeets) fun _ params params' _ _ h _ => ?_
  exact hG.block.bindAfter hFits h fun _ body body' _ _ h => .pure ⟨h, trivial⟩

/-- A function is read from its own word on, and may have started before. -/
theorem function {isAsync : Bool} {role : Role} (hG : W.Mirrored G H) (hFits : W.Fits context other)
    (h : W.Tracks first origin depth [] [] stage cursor twin)
    (hStart : first ≠ .lost → W.Near start start') :
    Mimics stage (function G start isAsync role) (function H start' isAsync role) context other
      cursor twin fun reached node node' later later' =>
        W.Tracks first origin depth [node] [node'] reached later later' := by
  refine h.expect_bind (by decide) fun _ _ _ h => h.get_bind fun twin h hLooks => ?_
  rw [hLooks.atText_eq]
  refine .optional_three (fun _ => Iff.rfl) (fun hText => ?_) (fun _ => h) fun _ _ _ h => ?_
  · refine .startOffset_bind hFits h.meets fun _ _ _ => .require_bind hFits ?_
    exact h.bump (Cursor.isFlat_of_atText hText (by decide))
  refine (mirrors_nameFor role).bindAfter hFits h fun _ name name' _ _ h hSome => ?_
  refine (hG.paramsAndBody isAsync _).bindAfter hFits h ?_
  rintro _ ⟨params, body⟩ ⟨params', body'⟩ _ _ h -
  refine h.finish hG.fair hStart (fun _ hAlike => named_functionFields hSome ?_) ?_ ?_
  · simpa using hAlike
  · simp [functionFields]
  · cases role <;> simp [Role.functionKind]

theorem methodFunction (hG : W.Mirrored G H) (isAsync isGenerator : Bool) :
    W.MirrorsNode (methodFunction G isAsync isGenerator)
      (methodFunction H isAsync isGenerator) := by
  intro context other stage cursor twin hFits hMeets
  refine .startOffset_bind hFits hMeets fun start start' hStart => ?_
  refine (hG.paramsAndBody isAsync isGenerator).bindAfter hFits (.refl hMeets) ?_
  rintro _ ⟨params, body⟩ ⟨params', body'⟩ _ _ h -
  refine h.finish hG.fair hStart (fun _ hAlike => named_functionFields rfl ?_) ?_ (by simp)
  · simpa using hAlike
  · simp [functionFields]

theorem methodDefinition (hG : W.Mirrored G H) :
    W.MirrorsNode (methodDefinition G) (methodDefinition H) := by
  intro context other stage cursor twin hFits hMeets
  refine .startOffset_bind hFits hMeets fun start start' hStart => ?_
  refine (Tracks.refl hMeets).get_bind fun twin h hLooks => ?_
  rw [hLooks.atModifier_eq (by decide)]
  refine .optional (fun _ => Iff.rfl) (fun hStatic => ?_) (fun _ => h) fun _ _ _ h => ?_
  · exact h.bump (Cursor.isFlat_of_atText (asks_atModifier.atText hStatic) (by decide))
  refine h.get_bind fun twin h hLooks => ?_
  rw [hLooks.onSameLine_eq (by decide)]
  refine .optional_three (fun _ => Iff.rfl) (fun hAsync => ?_) (fun _ => h) fun _ _ _ h => ?_
  · refine .startOffset_bind hFits h.meets fun _ _ _ => .require_bind hFits ?_
    have hText := asks_atModifier.atText (Bool.and_eq_true_iff.mp hAsync).1
    exact h.bump (Cursor.isFlat_of_atText hText (by decide))
  refine h.eat_bind (by decide) fun _ isGenerator _ _ h => ?_
  refine .either (fun _ => Iff.rfl) (fun _ => h.accessor asks_atModifier)
    (fun _ => .pure ⟨rfl, h⟩) ?_
  rintro _ word _ _ _ ⟨rfl, h⟩
  refine hG.propertyKey.bindAfter hFits h ?_
  rintro _ ⟨key, computed⟩ ⟨key', again⟩ _ _ h ⟨hSame, hKey⟩
  obtain rfl : again = computed := hSame
  refine h.get_bind fun twin h hLooks => .ensure (fun _ => hLooks.atText_iff _) (fun _ => h)
    (fun _ => .unexpected) fun _ _ _ h => ?_
  refine (hG.methodFunction _ _).bindAfter hFits h fun _ value value' _ _ h => ?_
  refine h.finish hG.fair hStart (fun _ hAlike => ?_) (by simp) (by simp)
  have hAlike' : W.Alike key key' ∧ W.Alike value value' := by simpa using hAlike
  have hName : again = false → keyName? key' = keyName? key := fun hPlain =>
    keyName?_eq hG.fair hAlike'.1 (hKey hPlain)
  cases hComputed : again with
  | false => simp [hAlike', hName hComputed]
  | true => simp [hAlike']

theorem classBody (hG : W.Mirrored G H) : W.MirrorsNode (classBody G) (classBody H) := by
  intro context other stage cursor twin hFits hMeets
  refine .startOffset_bind hFits hMeets fun start start' hStart => ?_
  refine (Tracks.refl hMeets).open_bind (by decide) fun _ _ _ h => ?_
  obtain ⟨_, hAdvances⟩ := hG.advances
  have hConsumes := consumes_of_rounds fun limit => (hAdvances (limit + 1)).classTurn
  refine (Mimics.iterate hG.fair hConsumes
    (fun reached seen seen' => W.Tracks stage cursor 1 seen seen' reached)
    (fun reached body body' later later' =>
      W.Tracks stage cursor 1 body body' reached later later' ∧ later.atText "\x7d" = true)
    h (fun _ _ _ _ _ h => h.meets.abreast) fun _ seen seen' _ _ h => ?_).bind
    fun _ body body' _ _ h => ?_
  · refine h.get_bind fun twin h hLooks => ?_
    refine .ite (fun _ => hLooks.atText_iff _) (fun hText => .pure (.done ⟨h, hText⟩)) fun _ => ?_
    refine .ite (fun _ => by rw [hLooks.atEnd_eq]) (fun _ => .unexpected) fun _ => ?_
    refine h.eat_bind (by decide) fun _ found _ _ h => .ite (fun _ => Iff.rfl)
      (fun _ => .pure (.again h)) fun _ => ?_
    exact hG.methodDefinition.bindAfter hFits h fun _ _ _ _ _ h => .pure (.again h)
  · refine h.1.bump_closing_bind h.2 (by decide) fun _ _ _ h => ?_
    exact h.finish hG.fair hStart (fun _ h => by simpa using h) (by simp) (by simp)

theorem classOf (hG : W.Mirrored G H) (role : Role) :
    W.MirrorsNode (classOf G role) (classOf H role) := by
  intro context other stage cursor twin hFits hMeets
  refine .startOffset_bind hFits hMeets fun start start' hStart => .require_bind hFits ?_
  refine (Tracks.refl hMeets).expect_bind (by decide) fun _ _ _ h => ?_
  refine (mirrors_nameFor role).bindAfter hFits h fun _ name name' _ _ h hName => ?_
  refine h.eat_bind (by decide) fun _ found _ _ h => ?_
  refine .either (fun _ => Iff.rfl) (fun _ => hG.leftHandSide.someAfter hFits h)
    (fun _ => .pure ⟨by simpa using h, rfl⟩) fun _ superClass superClass' _ _ h => ?_
  refine hG.classBody.bindAfter hFits h.1 fun _ body body' _ _ hBody => ?_
  refine hBody.finish hG.fair hStart (fun _ hAlike => ?_) (by simp) ?_
  · obtain ⟨hFirst, hRest⟩ := forall₂_toList_append hName (by simpa using hAlike)
    obtain ⟨hSecond, hLast⟩ := forall₂_toList_append h.2 hRest
    simpa [hFirst, hSecond] using hLast
  · cases role <;> simp [Role.classKind]

end Mirrored
end Exchange

end

open Grammar Node Production

namespace Exchange

variable {W : Exchange} {G H : Grammar Production} {first stage : Stage}
  {origin cursor twin : Cursor}
  {context other : Context} {depth : Nat} {start start' : Nat} {read others : List Node}

theorem asks_atAccessor : Asks atAccessor where
  atText h := by
    simp only [atAccessor, atPropertyModifier, Bool.and_eq_true] at h
    exact h.1.1.1
  same hLooks hWord := hLooks.atAccessor_eq hWord

namespace Mirrored

theorem spreadElement (hG : W.Mirrored G H) :
    W.MirrorsNode (spreadElement G) (spreadElement H) := by
  intro context other stage cursor twin hFits hMeets
  refine .startOffset_bind hFits hMeets fun start start' hStart => .require_bind hFits ?_
  refine (Tracks.refl hMeets).expect_bind (by decide) fun _ _ _ h => ?_
  refine hG.assignment.allowIn.bindAfter hFits h fun _ argument argument' _ _ h => ?_
  exact h.finish hG.fair hStart (fun _ h => by simpa using h) (by simp) (by simp)

theorem arguments (hG : W.Mirrored G H) :
    W.Mirrors (arguments G) (arguments H) (fun arguments => arguments) fun _ _ => True := by
  intro context other stage cursor twin hFits hMeets
  refine (Tracks.refl hMeets).open_bind (by decide) fun _ _ _ h => ?_
  obtain ⟨_, hAdvances⟩ := hG.advances
  have hConsumes := consumes_of_rounds fun limit => (hAdvances (limit + 1)).argumentsTurn
  refine h.list_bind hG.fair hConsumes (fun _ seen seen' _ _ h => ?_) fun _ _ _ _ _ h => ?_
  · refine h.get_bind fun twin h hLooks =>
      .ite (fun _ => hLooks.atText_iff _) (fun _ => .pure (.done h)) fun _ => ?_
    refine h.get_bind fun twin h hLooks => .either (fun _ => hLooks.atText_iff _)
      (fun _ => hG.spreadElement.after hFits h) (fun _ => hG.assignment.allowIn.after hFits h)
      fun _ argument argument' _ _ h => ?_
    refine h.eat_bind (by decide) fun _ found _ _ h => .ite (fun _ => Iff.rfl) (fun _ => ?_)
      fun _ => .pure (.done h)
    refine h.get_bind fun twin h hLooks => .optional_two (fun _ => hLooks.atText_iff _)
      (fun _ => ?_) (fun _ => h) fun _ _ _ h => .pure (.again h)
    exact .startOffset_bind hFits h.meets fun _ _ _ => h.require hFits
  · exact h.close_bind (by decide) fun _ _ _ h => .pure ⟨h, trivial⟩

theorem arrayLiteral (hG : W.Mirrored G H) : W.MirrorsNode (arrayLiteral G) (arrayLiteral H) := by
  intro context other stage cursor twin hFits hMeets
  refine .startOffset_bind hFits hMeets fun start start' hStart => ?_
  refine (Tracks.refl hMeets).open_bind (by decide) fun _ _ _ h => ?_
  obtain ⟨_, hAdvances⟩ := hG.advances
  have hConsumes := consumes_of_rounds fun limit => (hAdvances (limit + 1)).arrayTurn
  replace h : W.TracksSlots stage cursor 1 _ [] [] _ _ := ⟨h, rfl⟩
  refine (Mimics.iterate hG.fair hConsumes (W.TracksSlots stage cursor 1)
    (W.TracksSlots stage cursor 1) h (fun _ _ _ _ _ h => h.tracks.meets.abreast) ?_).bind ?_
  · rintro _ seen seen' _ _ ⟨h, hFilled⟩
    refine h.get_bind fun twin h hLooks =>
      .ite (fun _ => hLooks.atText_iff _) (fun _ => .pure (.done ⟨h, hFilled⟩)) fun _ => ?_
    refine h.eat_bind (by decide) fun _ found _ _ h => .ite (fun _ => Iff.rfl)
      (fun _ => .pure (.again (.hole h hFilled))) fun _ => ?_
    refine h.get_bind fun twin h hLooks => .either (fun _ => hLooks.atText_iff _)
      (fun _ => hG.spreadElement.after hFits h) (fun _ => hG.assignment.allowIn.after hFits h)
      fun _ element element' _ _ h => ?_
    refine h.get_bind fun twin h hLooks => .ensure (fun _ => hLooks.atText_iff _) (fun _ => h)
      (fun _ => h.expect (by decide)) fun _ _ _ h => .pure (.again (.filled h hFilled))
  · rintro _ elements elements' _ _ ⟨h, hFilled⟩
    refine h.close_bind (by decide) fun _ _ _ h => ?_
    refine h.finish hG.fair hStart (fun _ hAlike => ?_) (by simp) (by simp)
    simpa using forall₂_of_filterMap hFilled hAlike

/-- The default of a shorthand property, from its `=` on. -/
theorem shorthandDefault {name name' : Node} (hG : W.Mirrored G H) (hFits : W.Fits context other)
    (h : W.Tracks first origin depth [name] [name'] stage cursor twin)
    (hStart : first ≠ .lost → W.Near start start') (hText : cursor.atText "=" = true) :
    Mimics stage (shorthandDefault G start name) (shorthandDefault H start' name') context other
      cursor twin fun reached pattern pattern' later later' =>
        W.Tracks first origin depth [pattern] [pattern'] reached later later' := by
  obtain ⟨_, _, hRest, -⟩ := Cursor.exists_cons_of_atText hText
  refine .startOffset_waits_bind hG.fair h.meets (by simp [hRest])
    fun offset offset' hOffset => ?_
  have hWaits : W.Tracks first origin depth [name] [name'] stage
      { cursor with shorthandDefaults := cursor.shorthandDefaults ++ [offset] }
      { twin with shorthandDefaults := twin.shorthandDefaults ++ [offset'] } := by
    refine h.congr rfl (h.meets.congr rfl rfl h.meets.previousEnd fun hStage => ?_)
    exact List.rel_append (h.meets.defaults hStage) (.cons (hOffset hStage) .nil)
  refine Mimics.modify_bind (hWaits.bump_bind ?_ fun _ _ _ h => ?_)
  · exact Cursor.isFlat_of_atText hText (by decide)
  · refine hG.assignment.allowIn.bindAfter hFits h fun _ value value' _ _ h => ?_
    exact h.withDefault hG.fair hStart

end Mirrored

theorem yields_cloneIdentifier_rest {name : Node} :
    Yields (cloneIdentifier name) context cursor fun _ later => later.rest = cursor.rest := by
  rintro _ _ ⟨⟩
  rfl

/-- Moving past the current token if it has a text, where it is known what comes if it does not. -/
theorem Tracks.eat_cases_bind {α : Type} {text : String} {next another : Bool → Production α}
    {property : Stage → α → α → Cursor → Cursor → Prop}
    (h : W.Tracks first origin depth read others stage cursor twin)
    (hText : text ∉ Token.openings ∧ text ∉ Token.closings)
    (hFound : ∀ reached later later',
      W.Tracks first origin depth read others reached later later' →
      Mimics reached (next true) (another true) context other later later' property)
    (hMissing : Mimics stage (next false) (another false) context other cursor twin property) :
    Mimics stage (Production.eat text >>= next) (Production.eat text >>= another) context other
      cursor twin property := by
  have hEat : Mimics stage (Production.eat text) (Production.eat text) context other cursor twin
      fun reached found found' later later' => found' = found ∧
        (found = true ∧ W.Tracks first origin depth read others reached later later' ∨
          found = false ∧ reached = stage ∧ later = cursor ∧ later' = twin) := by
    refine .get_bind (.ite (h.atText text) (fun hAt => ?_)
      fun _ => .pure ⟨rfl, .inr ⟨rfl, rfl, rfl, rfl⟩⟩)
    exact h.bump_bind (Cursor.isFlat_of_atText hAt hText) fun _ _ _ h => .pure ⟨rfl, .inl ⟨rfl, h⟩⟩
  refine hEat.bind ?_
  rintro _ found _ _ _ ⟨rfl, ⟨rfl, h⟩ | ⟨rfl, rfl, rfl, rfl⟩⟩
  · exact hFound _ _ _ h
  · exact hMissing

namespace Mirrored

theorem property (hG : W.Mirrored G H) : W.MirrorsNode (property G) (property H) := by
  intro context other stage cursor twin hFits hMeets
  refine .startOffset_bind hFits hMeets fun start start' hStart => ?_
  refine (Tracks.refl hMeets).get_bind fun twin h hLooks => ?_
  rw [hLooks.atPropertyModifier_eq (by decide)]
  refine .optional_two (fun _ => Iff.rfl) (fun hAsync => .require_bind hFits ?_) (fun _ => h)
    fun _ _ _ h => ?_
  · simp only [atPropertyModifier, Bool.and_eq_true] at hAsync
    exact h.bump (Cursor.isFlat_of_atText hAsync.1.1 (by decide))
  refine h.get_bind fun twin h hLooks => ?_
  rw [hLooks.atText_eq]
  refine .optional_three (fun _ => Iff.rfl) (fun hText => ?_) (fun _ => h) fun _ _ _ h => ?_
  · refine .startOffset_bind hFits h.meets fun _ _ _ => .require_bind hFits ?_
    exact h.bump (Cursor.isFlat_of_atText hText (by decide))
  refine .either (fun _ => Iff.rfl) (fun _ => h.accessor asks_atAccessor)
    (fun _ => .pure ⟨rfl, h⟩) ?_
  rintro _ word again _ _ ⟨hAgain, h⟩
  obtain rfl : again = word := hAgain
  refine h.get_bind fun twin h hLooks => ?_
  rw [hLooks.atIdentifier_eq]
  refine ((hG.propertyKey.after hFits h).and_yields
    (hG.reads.propertyKey h.meets.inOrder)).bind ?_
  rintro between ⟨key, computed⟩ ⟨key', computed'⟩ _ _ ⟨⟨h, hSame, hKey⟩, -, hLeaf⟩
  obtain rfl : computed' = computed := hSame
  cases again with
  | some word =>
      refine (hG.methodFunction _ _).bindAfter hFits h fun _ value value' _ _ h => ?_
      exact h.propertyNode hG.fair hStart fun _ => rfl
  | none =>
      refine h.get_bind fun twin h hLooks => ?_
      simp only [hLooks.atText_eq]
      refine .ite (fun _ => Iff.rfl) (fun _ => .require_bind hFits ?_) fun _ => ?_
      · refine (hG.methodFunction _ _).bindAfter hFits h fun _ value value' _ _ h => ?_
        exact h.propertyNode hG.fair hStart fun _ => rfl
      refine h.eat_cases_bind (by decide) (fun _ _ _ h => ?_) ?_
      · refine hG.assignment.allowIn.bindAfter hFits h fun _ value value' _ _ h => ?_
        exact h.propertyNode hG.fair hStart fun _ => rfl
      simp only [Bool.false_eq_true, if_false]
      refine .ite (fun _ => Iff.rfl) (fun hShorthand => .require_bind hFits ?_)
        fun _ => .unexpected
      have hPlain : computed' = false := by simp_all
      have hStart' := fun hReached => hStart (h.leads.ne_lost hReached)
      refine ((h.cloneIdentifier hG.fair (hLeaf.isLeaf hPlain).children_eq (hKey hPlain)).and_yields
        yields_cloneIdentifier_rest).bind ?_
      rintro _ name name' _ _ ⟨hName, hRest⟩
      refine .either (fun _ => Iff.rfl) (fun hText => ?_) (fun _ => .pure hName)
        fun _ value value' _ _ hValue => (h.trans hValue).propertyNode hG.fair hStart fun _ => rfl
      refine hG.shorthandDefault hFits hName hStart' ?_
      rwa [Cursor.atText, Cursor.peekIs, hRest]

end Mirrored
end Exchange

end EcmaLint
