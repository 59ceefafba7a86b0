import EcmaLint.Proofs.Exchange.Stretch

/-! Properties in their short forms, read off the parts of the long form. The key, the parameters and
the body of a function are read as before wherever they stand, so a method is read off their
copies; where the value is a variable, a shorthand property is read off its name. -/
namespace EcmaLint

open Grammar Lexer Production

namespace Production

variable {α β γ : Type} {context : Context} {cursor between later : Cursor} {result : α}

theorem exists_finish (kind : NodeKind) (start : Nat) (fields : List (FieldName × FieldValue)) :
    ∃ node later, (finish kind start fields : Production Node) context cursor = .ok (node, later) ∧
      node.kind = kind ∧ node.fields = fields ∧ cursor.Passes [] later :=
  ⟨_, _, rfl, rfl, rfl, rfl, rfl⟩

theorem exists_store (kind : NodeKind) (span : Span) (fields : List (FieldName × FieldValue)) :
    ∃ node later, (store kind span fields : Production Node) context cursor = .ok (node, later) ∧
      node.kind = kind ∧ node.fields = fields ∧ cursor.Passes [] later :=
  ⟨_, _, rfl, rfl, rfl, rfl, rfl⟩

theorem optional_two_eq_ok {condition : Prop} [Decidable condition] {first : Production β}
    {second : β → Production Unit} {next : Unit → Production α}
    (hSteps : condition → (first >>= second) context cursor = .ok ((), between))
    (hSkip : ¬condition → between = cursor)
    (hNext : next () context between = .ok (result, later)) :
    (if condition then first >>= fun value => second value >>= next else next ()) context cursor =
      .ok (result, later) := by
  split
  case isTrue h =>
    rw [← bind_assoc]
    exact bind_eq_ok (hSteps h) hNext
  case isFalse h => rwa [← hSkip h]

theorem optional_three_eq_ok {condition : Prop} [Decidable condition] {first : Production β}
    {second : β → Production γ} {third : γ → Production Unit} {next : Unit → Production α}
    (hSteps : condition →
      (first >>= fun value => second value >>= third) context cursor = .ok ((), between))
    (hSkip : ¬condition → between = cursor)
    (hNext : next () context between = .ok (result, later)) :
    (if condition then first >>= fun value => second value >>= fun value => third value >>= next
      else next ()) context cursor = .ok (result, later) := by
  split
  case isTrue h =>
    obtain ⟨value, inner, hFirst, hRest⟩ := exists_of_run (hSteps h)
    obtain ⟨other, innermost, hSecond, hThird⟩ := exists_of_run hRest
    exact bind_eq_ok hFirst (bind_eq_ok hSecond (bind_eq_ok hThird hNext))
  case isFalse h => rwa [← hSkip h]

end Production

namespace Grammar

variable {G : Grammar Production} {context : Context}
  {cursor between atKey atParams atBody atEnd : Cursor}
  {isAsync isGenerator computed : Bool} {key body : Node} {nodes : List Node}

/-- The fields of a method of an object. -/
def methodFields (key value : Node) (computed : Bool) : List (FieldName × FieldValue) :=
  [(.key, .node key), (.value, .node value), (.kind, .text "init"), (.method, .flag true),
   (.shorthand, .flag false), (.computed, .flag computed)]

/-- The fields of a property whose name is its value. -/
def shorthandFields (key value : Node) : List (FieldName × FieldValue) :=
  [(.key, .node key), (.value, .node value), (.kind, .text "init"), (.method, .flag false),
   (.shorthand, .flag true), (.computed, .flag false)]

/-- In front of a punctuator, other than one that starts the name of a property, every word is a
name. -/
theorem atPropertyModifier_eq_false {lexeme next : Lexeme} {rest : List Lexeme}
    (hRest : cursor.rest = lexeme :: next :: rest) (hKind : next.token.kind = .punctuator)
    (hText : next.token.text ≠ "[" ∧ next.token.text ≠ "*") (word : String) :
    atPropertyModifier cursor word = false := by
  simp [atPropertyModifier, Cursor.peek?, hRest, hKind, hText]

theorem atAccessor_eq_false {word : String} (h : atPropertyModifier cursor word = false) :
    atAccessor cursor word = false := by
  simp [atAccessor, h]

/-- Where neither `get` nor `set` is a modifier, nothing is read. -/
theorem accessor_bind_eq_ok {α : Type} {isPlain : Bool} {next : Option String → Production α}
    {result : α × Cursor}
    (hPlain : isPlain = true → ∀ word ∈ ["get", "set"], atPropertyModifier cursor word = false)
    (hNext : next none context cursor = .ok result) :
    (if isPlain = true then accessor atAccessor >>= next else pure none >>= next) context cursor =
      .ok result := by
  split
  case isTrue h =>
    have hNone : (accessor atAccessor : Production (Option String)) context cursor =
        .ok (none, cursor) := by
      unfold accessor
      rw [get_bind_eq, atAccessor_eq_false (hPlain h "get" (by simp)),
        atAccessor_eq_false (hPlain h "set" (by simp))]
      rfl
    exact bind_eq_ok hNone hNext
  case isFalse => exact hNext

theorem exists_methodFunction
    (hParams : Grammar.params G (context.ofFunction isAsync isGenerator) atParams =
      .ok (nodes, atBody))
    (hBody : Grammar.block G (context.ofFunction isAsync isGenerator) atBody = .ok (body, atEnd)) :
    ∃ value later, methodFunction G isAsync isGenerator context atParams = .ok (value, later) ∧
      value.kind = .functionExpression ∧
      value.fields = functionFields none nodes body isAsync isGenerator false ∧
      atEnd.Passes [] later := by
  have hBoth : paramsAndBody G isAsync isGenerator context atParams =
      .ok ((nodes, body), atEnd) := by
    change (params G >>= fun params => block G >>= fun body => pure (params, body))
      (context.ofFunction isAsync isGenerator) atParams = _
    exact bind_eq_ok hParams (bind_eq_ok hBody rfl)
  obtain ⟨value, later, hRun, hKind, hFields, hLater⟩ :=
    @exists_finish context atEnd .functionExpression _
      (functionFields none nodes body isAsync isGenerator false)
  exact ⟨value, later, bind_eq_ok startOffset_eq (bind_eq_ok hBoth hRun), hKind, hFields, hLater⟩

/-- A method is read modifier by modifier, and then its key, its parameters and its body. -/
theorem exists_property_of_method (hAsync : atPropertyModifier cursor "async" = isAsync)
    (hBetween : between = if isAsync = true then cursor.past else cursor)
    (hStar : between.atText "*" = isGenerator)
    (hAtKey : atKey = if isGenerator = true then between.past else between)
    (hPlain : isAsync = false → isGenerator = false →
      ∀ word ∈ ["get", "set"], atPropertyModifier atKey word = false)
    (hKey : propertyKey G context atKey = .ok ((key, computed), atParams))
    (hOpens : atParams.atText "(" = true) (hYear : 2015 ≤ context.year)
    (hSince : isAsync = true → Feature.asyncMethods.since ≤ context.year)
    (hParams : Grammar.params G (context.ofFunction isAsync isGenerator) atParams =
      .ok (nodes, atBody))
    (hBody : Grammar.block G (context.ofFunction isAsync isGenerator) atBody = .ok (body, atEnd)) :
    ∃ method value later, Grammar.property G context cursor = .ok (method, later) ∧
      method.kind = .property ∧ method.fields = methodFields key value computed ∧
      value.kind = .functionExpression ∧
      value.fields = functionFields none nodes body isAsync isGenerator false ∧
      atEnd.Passes [] later := by
  obtain ⟨value, behind, hValue, hFunction, hParts, hBehind⟩ :=
    exists_methodFunction hParams hBody
  obtain ⟨method, later, hNode, hKind, hFields, hLater⟩ := @exists_finish context behind .property
    ((cursor.current?.map fun token => token.span.start).getD context.size)
    (methodFields key value computed)
  refine ⟨method, value, later, ?_, hKind, hFields, hFunction, hParts, hBehind.trans hLater⟩
  unfold Grammar.property
  refine bind_eq_ok startOffset_eq ?_
  rw [get_bind_eq, hAsync]
  refine @optional_two_eq_ok _ _ _ _ between _ _ _ _ _ _ _ (fun h => ?_) (fun h => ?_) ?_
  · rw [hBetween, if_pos h]
    exact bind_eq_ok (require_of_le (hSince h)) bump_eq
  · rw [hBetween, if_neg h]
  dsimp only
  rw [get_bind_eq, hStar]
  refine @optional_three_eq_ok _ _ _ _ _ atKey _ _ _ _ _ _ _ _ (fun h => ?_) (fun h => ?_) ?_
  · rw [hAtKey, if_pos h]
    exact bind_eq_ok startOffset_eq (bind_eq_ok (require_of_le hYear) bump_eq)
  · rw [hAtKey, if_neg h]
  refine accessor_bind_eq_ok (fun h => ?_) ?_
  · simp only [Bool.and_eq_true, Bool.not_eq_true'] at h
    exact hPlain h.1 h.2
  rw [get_bind_eq]
  refine bind_eq_ok hKey ?_
  dsimp only
  rw [get_bind_eq, hOpens, Bool.or_true, if_pos rfl]
  exact bind_eq_ok (require_of_le hYear) (bind_eq_ok hValue hNode)

theorem exists_propertyKey_of_name {token : Token} (hToken : cursor.current? = some token)
    (hIdentifier : token.kind = .identifier) :
    ∃ key later, propertyKey G context cursor = .ok ((key, false), later) ∧
      key.kind = .identifier ∧ key.fields = [(.ident, .text token.text)] ∧
      cursor.past.Passes [] later := by
  obtain ⟨key, later, hRun, hKind, hFields, hLater⟩ := @exists_store context cursor.past
    .identifier token.span [(.ident, .text token.text)]
  refine ⟨key, later, ?_, hKind, hFields, hLater⟩
  rw [Exchange.propertyKey_of_word hToken (by simp [hIdentifier]) (by simp [hIdentifier])
    (by simp [Token.isPunctuator, hIdentifier])]
  refine @bind_eq_ok _ _ _ _ later _ _ _ _ _ ?_ rfl
  rw [identifierName_of_isWord hToken (by simp [Token.isWord, hIdentifier])]
  exact bind_eq_ok bump_eq hRun

/-- A property is read off an identifier in front of a comma or of the end of the object. -/
theorem exists_property_of_name {lexeme next : Lexeme} {rest : List Lexeme}
    (hRest : cursor.rest = lexeme :: next :: rest) (hIdentifier : lexeme.token.kind = .identifier)
    (hStar : lexeme.is "*" = false) (hPunctuator : next.token.kind = .punctuator)
    (hNext : next.token.text = "\x7d" ∨ next.token.text = ",") (hYear : 2015 ≤ context.year) :
    ∃ property key value later, Grammar.property G context cursor = .ok (property, later) ∧
      property.kind = .property ∧ property.fields = shorthandFields key value ∧
      (∀ name ∈ [key, value], name.kind = .identifier ∧
        name.fields = [(.ident, .text lexeme.token.text)]) ∧
      cursor.past.Passes [] later := by
  have hPast : cursor.past.rest = next :: rest := by rw [Cursor.past_of_cons hRest]
  have hModifier := atPropertyModifier_eq_false hRest hPunctuator
    (by rcases hNext with h | h <;> rw [h] <;> decide)
  have hToken : cursor.current? = some lexeme.token := by simp [Cursor.current?, hRest]
  obtain ⟨key, atColon, hKey, hKeyKind, hKeyFields, hAtColon⟩ :=
    @exists_propertyKey_of_name G context _ _ hToken hIdentifier
  obtain ⟨value, behind, hValue, hValueKind, hValueFields, hBehind⟩ :=
    @exists_store context atColon .identifier key.span key.fields
  obtain ⟨property, later, hNode, hKind, hFields, hLater⟩ :=
    @exists_finish context behind .property
      ((cursor.current?.map fun token => token.span.start).getD context.size)
      (shorthandFields key value)
  refine ⟨property, key, value, later, ?_, hKind, hFields, ?_, (hAtColon.trans hBehind).trans hLater⟩
  rotate_left
  · simp [hKeyKind, hKeyFields, hValueKind, hValueFields]
  have hAt : ∀ text, atColon.atText text = next.is text := by
    intro text
    have hHead := hAtColon.rest_eq
    rw [hPast, List.nil_append] at hHead
    simp [Cursor.atText, Cursor.peekIs, ← hHead]
  have hIs : ∀ text, next.is text = (next.token.text == text) := by
    intro text
    simp [Lexeme.is, hPunctuator]
  unfold Grammar.property
  refine bind_eq_ok startOffset_eq ?_
  rw [get_bind_eq, hModifier "async"]
  refine @optional_two_eq_ok _ _ _ _ cursor _ _ _ _ _ _ _ (by simp) (fun _ => rfl) ?_
  dsimp only
  rw [get_bind_eq, show cursor.atText "*" = false by
    simpa [Cursor.atText, Cursor.peekIs, hRest] using hStar]
  refine @optional_three_eq_ok _ _ _ _ _ cursor _ _ _ _ _ _ _ _ (by simp) (fun _ => rfl) ?_
  refine accessor_bind_eq_ok (fun _ word _ => hModifier word) ?_
  rw [get_bind_eq]
  refine bind_eq_ok hKey ?_
  dsimp only
  rw [get_bind_eq, hAt, hIs]
  simp only [Bool.false_or]
  rw [if_neg (by rcases hNext with h | h <;> rw [h] <;> decide)]
  refine bind_eq_ok (eat_of_not_atText ?_) ?_
  · rw [hAt, hIs]
    rcases hNext with h | h <;> rw [h] <;> decide
  rw [if_neg Bool.false_ne_true, if_pos ?_]
  · refine bind_eq_ok (require_of_le hYear) (bind_eq_ok hValue ?_)
    rw [hAt, hIs, if_neg (by rcases hNext with h | h <;> rw [h] <;> decide)]
    exact hNode
  · simp only [hAt, hIs, Cursor.atIdentifier, hToken]
    rcases hNext with h | h <;> simp [h, hIdentifier]

theorem exists_identifier {token : Token} (hToken : cursor.current? = some token)
    (hIdentifier : token.kind = .identifier) :
    ∃ node later, (identifier : Production Node) context cursor = .ok (node, later) ∧
      node.kind = .identifier ∧
      node.fields = [(.ident, .text token.text)] ∧ cursor.past.Passes [] later := by
  obtain ⟨node, later, hRun, hKind, hFields, hLater⟩ := @exists_store context cursor.past
    .identifier token.span [(.ident, .text token.text)]
  refine ⟨node, later, ?_, hKind, hFields, hLater⟩
  unfold identifier
  rw [get_bind_eq, hToken]
  simp only [hIdentifier, beq_self_eq_true, if_true]
  exact bind_eq_ok bump_eq hRun

/-- A variable in parentheses is read as one parameter. -/
theorem exists_params_of_name {levels : Nat} {opening name closing : Lexeme} {rest : List Lexeme}
    (hRest : cursor.rest = opening :: name :: closing :: rest) (hOpening : opening.is "(" = true)
    (hIdentifier : name.token.kind = .identifier) (hSpelt : name.token.IsSpelt)
    (hClosing : closing.is ")" = true) (hLevels : 0 < levels) :
    ∃ node later,
      Grammar.params (upTo levels : Grammar Production) context cursor = .ok ([node], later) ∧
      node.kind = .identifier ∧ node.fields = [(.ident, .text name.token.text)] ∧
      cursor.Passes [opening, name, closing] later := by
  obtain ⟨below, rfl⟩ : ∃ below, levels = below + 1 := ⟨levels - 1, by omega⟩
  have hPast : cursor.past.rest = name :: closing :: rest := by rw [Cursor.past_of_cons hRest]
  have hName : ∀ text ∈ symbols, cursor.past.atText text = false := by
    intro text hText
    refine Bool.eq_false_iff.mpr fun hAt => ?_
    have hIs : name.is text = true := by simpa [Cursor.atText, Cursor.peekIs, hPast] using hAt
    exact absurd (hIdentifier.symm.trans (Lexeme.kind_eq_punctuator hSpelt hIs hText)) (by decide)
  have hToken : cursor.past.current? = some name.token := by simp [Cursor.current?, hPast]
  obtain ⟨node, later, hRun, hKind, hFields, hLater⟩ :=
    @exists_identifier context _ _ hToken hIdentifier
  have hLater' : later.rest = closing :: rest := by
    have hBehind := hLater.rest_eq
    rw [Cursor.past_of_cons hPast] at hBehind
    exact hBehind.symm
  have hAt : ∀ text, text ≠ ")" → later.atText text = false := by
    intro text hText
    refine Bool.eq_false_iff.mpr fun hAt => hText ?_
    have hIs : closing.is text = true := by simpa [Cursor.atText, Cursor.peekIs, hLater'] using hAt
    exact (Lexeme.text_eq_of_is hIs).symm.trans (Lexeme.text_eq_of_is hClosing)
  have hTarget : (upTo (below + 1) : Grammar Production).bindingTarget context cursor.past =
      .ok (node, later) := by
    change bindingTargetBody (upTo below : Grammar Production) context cursor.past = _
    unfold bindingTargetBody
    rw [get_bind_eq, hName "[" (by decide), hName "\x7b" (by decide), if_neg Bool.false_ne_true,
      if_neg Bool.false_ne_true]
    exact hRun
  have hElement : bindingElement (upTo (below + 1) : Grammar Production) context cursor.past =
      .ok (node, later) := by
    unfold bindingElement
    refine bind_eq_ok startOffset_eq (bind_eq_ok hTarget ?_)
    rw [get_bind_eq, hAt "=" (by decide), if_neg Bool.false_ne_true]
    rfl
  have hTurn : paramsTurn (upTo (below + 1) : Grammar Production) [] context cursor.past =
      .ok (.done [node], later) := by
    unfold paramsTurn
    rw [get_bind_eq, hName ")" (by decide), if_neg Bool.false_ne_true, get_bind_eq,
      hName "..." (by decide), if_neg Bool.false_ne_true]
    refine bind_eq_ok hElement ?_
    exact bind_eq_ok (eat_of_not_atText (hAt "," (by decide))) rfl
  have hAtClosing : later.atText ")" = true := by
    simpa [Cursor.atText, Cursor.peekIs, hLater'] using hClosing
  refine ⟨node, later.past, ?_, hKind, hFields, ?_, ?_⟩
  · refine bind_eq_ok (expect_of_atText (by
      simpa [Cursor.atText, Cursor.peekIs, hRest] using hOpening)) ?_
    refine @bind_eq_ok _ _ _ _ later _ _ _ [node] _ ?_
      (bind_eq_ok (expect_of_atText hAtClosing) rfl)
    unfold iterate
    rw [get_bind_eq]
    exact bind_eq_ok hTurn rfl
  · rw [hRest, Cursor.past_of_cons hLater']
    rfl
  · have hDefaults := hLater.defaults_eq
    rw [Cursor.past_of_cons hPast, Cursor.past_of_cons hRest] at hDefaults
    rw [Cursor.past_of_cons hLater']
    exact hDefaults

end Grammar

/-- A property whose value is a function, and a method in its place: the key is the same, and so are
the parameters and the body of the function. -/
inductive Node.IsMethodFor (property method : Node) : Prop
  | mk {key key' value value' body body' : Node} {params params' : List Node}
      {computed isAsync isGenerator : Bool}
      (fields_eq : property.fields = longFields key value computed)
      (value_kind : value.kind = .functionExpression ∨ value.kind = .arrowFunctionExpression)
      (value_fields : value.fields = functionFields none params body isAsync isGenerator false)
      (method_kind : method.kind = .property)
      (method_fields : method.fields = methodFields key' value' computed)
      (function_kind : value'.kind = .functionExpression)
      (function_fields :
        value'.fields = functionFields none params' body' isAsync isGenerator false)
      (key_matches : key.Matches key') (params_match : List.Forall₂ Node.Matches params params')
      (body_matches : body.Matches body') : IsMethodFor property method

namespace Exchange

/-- The lexemes of a method: its modifiers, its key, its parameters, which may have to get
parentheses, and its body. -/
structure MethodText (isAsync isGenerator isBare : Bool) (asyncs stars : List Lexeme)
    (keys : Stretch) (opens : List Lexeme) (params : Stretch) (closes : List Lexeme)
    (block : Stretch) : Prop where
  asyncs_is : ∀ lexeme ∈ asyncs, lexeme.is "async" = true
  asyncs_length : asyncs.length = isAsync.toNat
  stars_is : ∀ lexeme ∈ stars, lexeme.is "*" = true
  stars_length : stars.length = isGenerator.toNat
  sameLine : isAsync = true → ∀ lexeme ∈ (stars ++ keys.copies).head?, lexeme.newlineBefore = false
  keys_moved : keys.IsMoved
  opens_is : ∀ lexeme ∈ opens, lexeme.is "(" = true
  opens_length : opens.length = isBare.toNat
  params_moved : params.IsMoved
  closes_is : ∀ lexeme ∈ closes, lexeme.is ")" = true
  closes_length : closes.length = isBare.toNat
  block_moved : block.IsMoved
  keys_params : keys.stop ≤ params.start ∧ keys.newStop ≤ params.newStart
  params_block : params.stop ≤ block.start ∧ params.newStop ≤ block.newStart

variable {W : Exchange} {n m k : Nat} {context other inner : Context}
  {cursor twin later first last atColon atKey atParams atArrow atBody atEnd : Cursor}
  {property key value body : Node} {nodes : List Node} {computed isAsync isGenerator isBare : Bool}
  {keyLexemes opens middle closes head paramLexemes arrows blockLexemes : List Lexeme}
  {colon : Lexeme} {asyncs stars newOpens newCloses back : List Lexeme}
  {keys params block : Stretch} {outside : Nat → Nat → Prop}

theorem Fits.ofFunction (h : W.Fits context other) (hContains : context.Contains inner) :
    W.Fits (inner.ofFunction isAsync isGenerator) (other.ofFunction isAsync isGenerator) where
  edition_eq := hContains.year_eq.trans h.edition_eq
  year_eq := h.year_eq.trans hContains.year_eq.symm
  size_eq := hContains.size_eq.trans h.size_eq
  newSize_eq := h.newSize_eq
  newlineAtEnd_eq := h.newlineAtEnd_eq.trans hContains.newlineAtEnd_eq.symm
  inFunction_eq := rfl
  inAsync_eq := rfl
  inGenerator_eq := rfl
  withoutIn_eq := rfl
  depth_le := h.depth_le.trans hContains.depth_le

/-- The copy of a key starts with a name that a parenthesis follows, or with a bracket. -/
theorem atPropertyModifier_eq_false_of_key (hKeys : keys.IsMoved)
    (hReads : ReadsKey key computed keys.lexemes) {opening : Lexeme} {rest : List Lexeme}
    (hRest : cursor.rest = keys.copies ++ opening :: rest)
    (hOpening : opening.token.kind = .punctuator ∧ opening.token.text = "(") {word : String}
    (hWord : word ≠ "[") : atPropertyModifier cursor word = false := by
  obtain ⟨lexeme, copy, behind, more, hLexemes, hCopies, hKind, hText, -, hAlike⟩ := hKeys.first
  rw [hLexemes] at hReads
  cases hReads with
  | plain hName hSpan =>
      cases hAlike
      rw [hCopies] at hRest
      exact atPropertyModifier_eq_false hRest hOpening.1 (by rw [hOpening.2]; decide) word
  | computed hBracket =>
      have hNot : cursor.atText word = false := by
        refine Bool.eq_false_iff.mpr fun hAt => hWord ?_
        have hIs : copy.is word = true := by
          simpa [Cursor.atText, Cursor.peekIs, hRest, hCopies] using hAt
        exact (Lexeme.text_eq_of_is hIs).symm.trans (hText.trans (Lexeme.text_eq_of_is hBracket))
      simp [atPropertyModifier, hNot]

/-- The copy of a key starts with a name or with a bracket. -/
theorem startsName_of_key (hKeys : keys.IsMoved) (hReads : ReadsKey key computed keys.lexemes)
    (hSpelt : ∀ lexeme ∈ keys.lexemes, lexeme.token.IsSpelt) :
    ∀ lexeme ∈ keys.copies.head?, lexeme.is "*" = false ∧
      (lexeme.token.kind ≠ .punctuator ∨ lexeme.token.text = "[") := by
  obtain ⟨lexeme, copy, behind, more, hLexemes, hCopies, hKind, hText, -, -⟩ := hKeys.first
  rw [hLexemes] at hReads hSpelt
  rw [hCopies]
  rintro _ ⟨⟩
  have hSame : copy.is "*" = lexeme.is "*" := by simp [Lexeme.is, hKind, hText]
  rw [hSame, hKind, hText]
  cases hReads with
  | plain hName =>
      have hNot : lexeme.token.kind ≠ .punctuator := by
        rcases hName with hWord | hString | hNumber
        · intro hPunctuator
          simp [Token.isWord, hPunctuator] at hWord
        · simp [hString]
        · simp [hNumber]
      refine ⟨Bool.eq_false_iff.mpr fun hIs => hNot ?_, .inl hNot⟩
      exact Lexeme.kind_eq_punctuator (hSpelt lexeme List.mem_cons_self) hIs (by decide)
  | computed hBracket =>
      have hOpens := Lexeme.text_eq_of_is hBracket
      refine ⟨Bool.eq_false_iff.mpr fun hIs => ?_, .inr hOpens⟩
      exact absurd ((Lexeme.text_eq_of_is hIs).symm.trans hOpens) (by decide)

/-- Moving past a modifier that may be missing. -/
theorem passes_modifier {flag : Bool} {modifiers rest : List Lexeme}
    (hRest : cursor.rest = modifiers ++ rest) (hLength : modifiers.length = flag.toNat) :
    cursor.Passes modifiers (if flag = true then cursor.past else cursor) ∧
      (if flag = true then cursor.past else cursor).rest = rest := by
  cases flag with
  | true =>
      obtain ⟨modifier, rfl⟩ := List.length_eq_one_iff.mp hLength
      rw [if_pos rfl, Cursor.past_of_cons hRest]
      exact ⟨⟨hRest, rfl⟩, rfl⟩
  | false =>
      obtain rfl := List.length_eq_zero_iff.mp hLength
      exact ⟨.refl _, hRest⟩

namespace MethodText

variable (h : MethodText isAsync isGenerator isBare asyncs stars keys newOpens params newCloses block)
include h

/-- The word `async` is a modifier just where it was put. -/
theorem atPropertyModifier_async {opening : Lexeme} {rest : List Lexeme}
    (hReads : ReadsKey key computed keys.lexemes)
    (hSpelt : ∀ lexeme ∈ keys.lexemes, lexeme.token.IsSpelt)
    (hRest : cursor.rest = asyncs ++ (stars ++ (keys.copies ++ opening :: rest)))
    (hOpening : opening.token.kind = .punctuator ∧ opening.token.text = "(") :
    atPropertyModifier cursor "async" = isAsync := by
  have hStart := startsName_of_key h.keys_moved hReads hSpelt
  have hStarsLength := h.stars_length
  obtain ⟨first, more, hCopies⟩ : ∃ first more, keys.copies = first :: more := by
    obtain ⟨_, copy, _, more, -, hCopies, -⟩ := h.keys_moved.first
    exact ⟨copy, more, hCopies⟩
  have hAsyncs := h.asyncs_is
  have hStars := h.stars_is
  cases isAsync with
  | true =>
      obtain ⟨word, rfl⟩ := List.length_eq_one_iff.mp h.asyncs_length
      have hLine := h.sameLine rfl
      have hWord := hAsyncs word List.mem_cons_self
      cases isGenerator with
      | true =>
          obtain ⟨star, rfl⟩ := List.length_eq_one_iff.mp hStarsLength
          have hText := Lexeme.text_eq_of_is (hStars star List.mem_cons_self)
          have hBefore := hLine star rfl
          simp [atPropertyModifier, Cursor.atText, Cursor.peekIs, Cursor.newlineBeforePeek,
            Cursor.peek?, hRest, hWord, hBefore, hText]
      | false =>
          obtain rfl := List.length_eq_zero_iff.mp hStarsLength
          have hBefore := hLine first (by simp [hCopies])
          have hName := (hStart first (by simp [hCopies])).2
          simp [atPropertyModifier, Cursor.atText, Cursor.peekIs, Cursor.newlineBeforePeek,
            Cursor.peek?, hRest, hCopies, hWord, hBefore, hName]
  | false =>
      obtain rfl := List.length_eq_zero_iff.mp h.asyncs_length
      cases isGenerator with
      | true =>
          obtain ⟨star, rfl⟩ := List.length_eq_one_iff.mp hStarsLength
          have hText := Lexeme.text_eq_of_is (hStars star List.mem_cons_self)
          have hNot : star.is "async" = false := Bool.eq_false_iff.mpr fun hIs =>
            absurd ((Lexeme.text_eq_of_is hIs).symm.trans hText) (by decide)
          simp [atPropertyModifier, Cursor.atText, Cursor.peekIs, hRest, hNot]
      | false =>
          obtain rfl := List.length_eq_zero_iff.mp hStarsLength
          exact atPropertyModifier_eq_false_of_key h.keys_moved hReads hRest hOpening (by decide)

theorem atText_star {rest : List Lexeme} (hReads : ReadsKey key computed keys.lexemes)
    (hSpelt : ∀ lexeme ∈ keys.lexemes, lexeme.token.IsSpelt)
    (hRest : cursor.rest = stars ++ (keys.copies ++ rest)) : cursor.atText "*" = isGenerator := by
  have hStart := startsName_of_key h.keys_moved hReads hSpelt
  obtain ⟨_, copy, _, more, -, hCopies, -⟩ := h.keys_moved.first
  cases isGenerator with
  | true =>
      obtain ⟨star, rfl⟩ := List.length_eq_one_iff.mp h.stars_length
      simpa [Cursor.atText, Cursor.peekIs, hRest] using h.stars_is star List.mem_cons_self
  | false =>
      obtain rfl := List.length_eq_zero_iff.mp h.stars_length
      simpa [Cursor.atText, Cursor.peekIs, hRest, hCopies] using
        (hStart copy (by simp [hCopies])).1

/-- Behind the key stands a parenthesis. -/
theorem exists_opening (hRuns : RunsParams k context isBare atParams nodes params.lexemes atArrow)
    (rest : List Lexeme) : ∃ opening more, newOpens ++ (params.copies ++ rest) = opening :: more ∧
      opening.is "(" = true := by
  obtain ⟨lexeme, copy, _, more, hLexemes, hCopies, hKind, hText, -, -⟩ := h.params_moved.first
  rw [hLexemes] at hRuns
  cases hRuns with
  | parenthesized hRun hRest =>
      obtain rfl := List.length_eq_zero_iff.mp h.opens_length
      obtain ⟨_, _, hExpect, -⟩ := exists_of_run hRun
      have hOpens := (eq_past_of_expect hExpect).1
      refine ⟨copy, more ++ rest, by simp [hCopies], ?_⟩
      have hIs : lexeme.is "(" = true := by
        simpa [Cursor.atText, Cursor.peekIs, hRest] using hOpens
      simpa [Lexeme.is, hKind, hText] using hIs
  | bare =>
      obtain ⟨opening, hOpens⟩ := List.length_eq_one_iff.mp h.opens_length
      exact ⟨opening, params.copies ++ rest, by simp [hOpens], h.opens_is opening (by simp [hOpens])⟩

/-- The copies of parameters are read like them, in parentheses at last. -/
theorem exists_params (hRuns : RunsParams k context isBare atParams nodes params.lexemes atArrow)
    (hLevels : k ≤ m) (hPos : 0 < m) (hFits : W.Fits context other) (hSound : atParams.IsSound)
    (hSpelt : ∀ lexeme ∈ twin.rest, lexeme.token.IsSpelt)
    (hRest : twin.rest = newOpens ++ (params.copies ++ (newCloses ++ back))) (hBack : back ≠ [])
    (hSize : params.stop < context.size) (hNewSize : params.newStop < other.size)
    (hInside : ∀ offset moved, offset < params.stop →
      Moved params.start params.stop params.newStart offset moved → outside offset moved)
    (hDefaults : Waiting outside params.start params.newStart atParams.shorthandDefaults
      twin.shorthandDefaults) :
    ∃ nodes' later',
      Grammar.params (upTo m : Grammar Production) other twin = .ok (nodes', later') ∧
      List.Forall₂ Node.Matches nodes nodes' ∧ later'.rest = back ∧
      Waiting outside params.stop params.newStop atArrow.shorthandDefaults
        later'.shorthandDefaults := by
  have hMoved := h.params_moved
  generalize hLexemes : params.lexemes = lexemes at hRuns
  cases hRuns with
  | parenthesized hRun hOld =>
      subst hLexemes
      obtain rfl := List.length_eq_zero_iff.mp h.opens_length
      obtain rfl := List.length_eq_zero_iff.mp h.closes_length
      have hBegins := hMoved.begins hOld hRest hBack hSound hDefaults
      have hNewStop := hMoved.newStop_eq
      obtain ⟨nodes', later', more, hNew, hMatches, hBeside⟩ := exists_params_twin
        hLevels hFits hBegins hSize (by omega) hRun (List.nil_append _).symm
      obtain ⟨hLater, hWaiting⟩ := hMoved.behind hInside hBeside
      exact ⟨nodes', later', hNew, hMatches, hLater, hWaiting⟩
  | @bare cursor later lexeme id hPasses hKind =>
      obtain ⟨opening, rfl⟩ := List.length_eq_one_iff.mp h.opens_length
      obtain ⟨closing, rfl⟩ := List.length_eq_one_iff.mp h.closes_length
      obtain ⟨_, copy, _, more, hLexeme, hCopies, hSameKind, hText, -, hAlike⟩ := hMoved.first
      obtain ⟨rfl, rfl⟩ := List.cons.inj (hLexemes.symm.trans hLexeme)
      cases hAlike
      rw [hCopies] at hRest
      have hIn : ∀ lexeme ∈ [opening, copy, closing], lexeme ∈ twin.rest := by
        simp [hRest]
      obtain ⟨⟨other, _, span, _⟩, later', hNew, rfl, rfl, hLater⟩ :=
        @exists_params_of_name other _ _ _ _ _ _
        hRest (h.opens_is opening (by simp)) (hSameKind.trans hKind)
        (hSpelt copy (hIn copy (by simp))) (h.closes_is closing (by simp)) hPos
      refine ⟨_, later', hNew, .cons (.same trivial ?_ (by simp)) .nil, ?_, ?_⟩
      · simp [hText]
      · have hBehind := hLater.rest_eq
        rw [hRest] at hBehind
        simpa using hBehind.symm
      · rw [hLater.defaults_eq, hPasses.defaults_eq]
        have hStop := hMoved.newStop_eq
        have hStart := hMoved.start_le
        exact hDefaults.mono hStart (by omega)

end MethodText

/-- A method is read off the copies of the parts of a property whose value is a function. -/
theorem exists_method_twin
    (hText : MethodText isAsync isGenerator isBare asyncs stars keys newOpens params newCloses block)
    (hProperty : PropertyParts n context cursor property later key value computed keys.lexemes colon
      opens middle closes inner atColon first last)
    (hFunction : FunctionParts k inner value first last isAsync isGenerator isBare head
      params.lexemes arrows block.lexemes nodes body atParams atArrow atBody atEnd)
    (hLevels : n ≤ m) (hLevel : k ≤ n) (hPos : 0 < m) (hFits : W.Fits context other)
    (hYear : 2015 ≤ context.year) (hSound : cursor.IsSound)
    (hSpelt : ∀ lexeme ∈ cursor.rest, lexeme.token.IsSpelt)
    (hNewSpelt : ∀ lexeme ∈ twin.rest, lexeme.token.IsSpelt)
    (hRest : twin.rest = asyncs ++ (stars ++ (keys.copies ++ (newOpens ++ (params.copies ++
      (newCloses ++ (block.copies ++ back))))))) (hBack : back ≠ [])
    (hSize : block.stop < context.size) (hNewSize : block.newStop < other.size)
    (hInside : ∀ stretch ∈ [keys, params, block], ∀ offset moved, offset < stretch.stop →
      Moved stretch.start stretch.stop stretch.newStart offset moved → outside offset moved)
    (hDefaults : Waiting outside keys.start keys.newStart cursor.shorthandDefaults
      twin.shorthandDefaults) :
    ∃ method later',
      Grammar.property (upTo m : Grammar Production) other twin = .ok (method, later') ∧
      property.IsMethodFor method ∧ later'.rest = back ∧
      Waiting outside block.stop block.newStop later.shorthandDefaults later'.shorthandDefaults := by
  have hUnwraps := hProperty.unwraps
  have hParamsLe := hText.params_moved.start_le
  have hParamsStop := hText.params_moved.newStop_eq
  have hBlockLe := hText.block_moved.start_le
  have hBlockStop := hText.block_moved.newStop_eq
  have hKeysStop := hText.keys_moved.newStop_eq
  have hKeysParams := hText.keys_params
  have hParamsBlock := hText.params_block
  -- the cursors in front of the parts of the old text
  have hSoundFirst := ((hSound.of_eq_append hProperty.keys_eq).of_eq_append
    hProperty.passesColon.rest_eq).of_eq_append hUnwraps.passesOpens.rest_eq
  have hSoundParams := hSoundFirst.of_eq_append hFunction.passesHead.rest_eq
  have hSoundBody := (hSoundParams.of_eq_append hFunction.runsParams.rest_eq).of_eq_append
    hFunction.passesArrows.rest_eq
  have hKeySpelt : ∀ lexeme ∈ keys.lexemes, lexeme.token.IsSpelt := fun lexeme hLexeme =>
    hSpelt lexeme (hProperty.keys_eq ▸ List.mem_append_left _ hLexeme)
  obtain ⟨opening, more, hTail, hOpening⟩ :=
    hText.exists_opening hFunction.runsParams (newCloses ++ (block.copies ++ back))
  have hOpeningSpelt : opening.token.IsSpelt := hNewSpelt opening (by rw [hRest, hTail]; simp)
  have hOpening' : opening.token.kind = .punctuator ∧ opening.token.text = "(" :=
    ⟨Lexeme.kind_eq_punctuator hOpeningSpelt hOpening (by decide), Lexeme.text_eq_of_is hOpening⟩
  -- the modifiers
  have hAsync := hText.atPropertyModifier_async hProperty.readsKey hKeySpelt (hTail ▸ hRest)
    hOpening'
  obtain ⟨hPassesAsync, hBetween⟩ := passes_modifier hRest hText.asyncs_length
  have hStar := hText.atText_star hProperty.readsKey hKeySpelt hBetween
  obtain ⟨hPassesStar, hAtKey⟩ := passes_modifier hBetween hText.stars_length
  generalize hKeyCursor : (if isGenerator = true then _ else _ : Cursor) = atKey at hPassesStar hAtKey
  have hKeyDefaults : Waiting outside keys.start keys.newStart cursor.shorthandDefaults
      atKey.shorthandDefaults := by
    rw [hPassesStar.defaults_eq, hPassesAsync.defaults_eq]
    exact hDefaults
  -- the key
  have hKeyBegins := hText.keys_moved.begins hProperty.keys_eq hAtKey (by simp [hTail]) hSound
    hKeyDefaults
  obtain ⟨key', atParams', _, hKey, hKeyMatches, hBesideKey⟩ := exists_propertyKey_twin
    hLevels hFits hKeyBegins (by omega) (by omega) hProperty.runsKey (List.nil_append _).symm
  obtain ⟨hAtParams, hWaitingKey⟩ := hText.keys_moved.behind (hInside keys (by simp)) hBesideKey
  -- the parameters
  have hInnerFits : W.Fits (inner.ofFunction isAsync isGenerator)
      (other.ofFunction isAsync isGenerator) := hFits.ofFunction hUnwraps.contains
  have hInnerSize : block.stop < (inner.ofFunction isAsync isGenerator).size := by
    rw [← hUnwraps.contains.size_eq] at hSize
    exact hSize
  have hParamsDefaults : atParams.shorthandDefaults = atColon.shorthandDefaults :=
    (hFunction.passesHead.defaults_eq.trans hUnwraps.passesOpens.defaults_eq).trans
      hProperty.passesColon.defaults_eq
  obtain ⟨nodes', atBody', hParams, hNodes, hAtBody, hWaitingParams⟩ := hText.exists_params
    hFunction.runsParams (hLevel.trans hLevels) hPos hInnerFits hSoundParams
    (fun lexeme hLexeme => hNewSpelt lexeme (by rw [hRest, ← hAtParams]; simp [hLexeme])) hAtParams
    (by simp [hBack]) (by omega) (show params.newStop < other.size by omega)
    (hInside params (by simp)) (hParamsDefaults ▸ hWaitingKey.mono hKeysParams.1 hKeysParams.2)
  -- the body
  have hBlockBegins := hText.block_moved.begins hFunction.block_eq hAtBody hBack
    hSoundBody (hFunction.passesArrows.defaults_eq ▸
      hWaitingParams.mono hParamsBlock.1 hParamsBlock.2)
  obtain ⟨body', atEnd', _, hBody, hBodyMatches, hBesideBody⟩ := exists_block_twin
    (hLevel.trans hLevels) hInnerFits hBlockBegins hInnerSize
    (show block.newStart + block.stop < other.size + block.start by omega) hFunction.runsBlock
    (List.nil_append _).symm
  obtain ⟨hAtEnd, hWaitingBody⟩ := hText.block_moved.behind (hInside block (by simp)) hBesideBody
  have hPlain : isAsync = false → isGenerator = false →
      ∀ word ∈ ["get", "set"], atPropertyModifier atKey word = false := fun _ _ word hWord =>
    atPropertyModifier_eq_false_of_key hText.keys_moved hProperty.readsKey (hTail ▸ hAtKey)
      hOpening' (by rintro rfl; simp at hWord)
  obtain ⟨method, value', later', hRun, hKind, hFields, hFunctionKind, hFunctionFields, hLater⟩ :=
    exists_property_of_method hAsync rfl hStar hKeyCursor.symm hPlain hKey
      (by simpa [Cursor.atText, Cursor.peekIs, hAtParams, hTail] using hOpening)
      (hFits.year_eq ▸ hYear)
      (fun h => by
        rw [hFits.year_eq, ← hUnwraps.contains.year_eq]
        exact hFunction.async_since h)
      hParams hBody
  refine ⟨method, later', hRun, ?_, ?_, ?_⟩
  · refine .mk hProperty.fields_eq ?_ hFunction.fields_eq hKind hFields hFunctionKind
      hFunctionFields hKeyMatches hNodes hBodyMatches
    have hForm := hFunction.form
    generalize value.kind = kind at hForm
    cases hForm with
    | function => exact .inl rfl
    | arrow => exact .inr rfl
  · rw [← hAtEnd, hLater.rest_eq, List.nil_append]
  · rw [hLater.defaults_eq, hUnwraps.passesCloses.defaults_eq, hFunction.ends.defaults_eq]
    exact hWaitingBody

end Exchange

end EcmaLint
