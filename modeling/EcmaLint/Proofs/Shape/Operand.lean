import EcmaLint.Grammar.Operand
import EcmaLint.Proofs.Grammar.Yields
import EcmaLint.Proofs.Shape.Target

/-! The shape of what is read up to operands: names and literals, binding patterns, functions and
classes, objects, calls. What the grammar comes back to is assumed to have its shape. -/
namespace EcmaLint

open Production Node NodeKind Grammar

/-- The productions of a grammar give trees with the shape of a program. -/
structure Grammar.Shapes (G : Grammar Production) : Prop where
  statement : Gives G.statement (IsOf isStatement)
  assignment : Gives G.assignment (IsOf isExpression)
  binary : ∀ minimum, Gives (G.binary minimum) (IsOf isExpression)
  unary : Gives G.unary (IsOf isExpression)
  leftHandSide : Gives G.leftHandSide (IsOf isExpression)
  newExpression : Gives G.newExpression (IsOf isExpression)
  bindingTarget : Gives G.bindingTarget (IsOf isBinding)

namespace Production.Gives

variable {kind : NodeKind} {fields : List (FieldName × FieldValue)} {accepts : NodeKind → Bool}
  {start : Nat}

theorem finishFitting (hFits : kind.Fits fields) (hKind : accepts kind = true) :
    Gives (Production.finish kind start fields) (IsOf accepts) :=
  .finish fun _ _ => ⟨shaped_iff_fits.mpr hFits, hKind⟩

theorem storeFitting (accepts : NodeKind → Bool) {span : Span} (hFits : kind.Fits fields)
    (hKind : accepts kind = true) :
    Gives (Production.store kind span fields) (IsOf accepts) :=
  .store fun _ => ⟨shaped_iff_fits.mpr hFits, hKind⟩

theorem someOf {production : Production Node} (h : Gives production (IsOf accepts)) :
    Gives (some <$> production) (SlotOf accepts) := .map (h.imp fun _ => SlotOf.some)

/-- The nodes of a list are read one behind the other. -/
theorem list (accepts : NodeKind → Bool) {nodes : List Node}
    {turn : List Node → Production (Turn (List Node) (List Node))} (h : ListOf accepts nodes)
    (hTurn : ∀ seen, ListOf accepts seen →
      Gives (turn seen) (Turn.Gives (ListOf accepts) (ListOf accepts))) :
    Gives (Production.iterate turn nodes) (ListOf accepts) :=
  .iterate (ListOf accepts) (ListOf accepts) h hTurn

/-- As `list`, with holes. -/
theorem slots (accepts : NodeKind → Bool)
    {turn : List (Option Node) → Production (Turn (List (Option Node)) (List (Option Node)))}
    (hTurn : ∀ seen, SlotsOf accepts seen →
      Gives (turn seen) (Turn.Gives (SlotsOf accepts) (SlotsOf accepts))) :
    Gives (Production.iterate turn []) (SlotsOf accepts) :=
  .iterate (SlotsOf accepts) (SlotsOf accepts) SlotsOf.nil hTurn

end Production.Gives

theorem gives_identifier : Gives identifier (IsOf (· == .identifier)) := by
  refine .skip fun cursor => ?_
  split
  · exact .ite (.skip fun _ => .storeFitting _ (by simp [Fits, forms]) rfl) .unexpected
  · exact .unexpected

theorem gives_identifierName : Gives identifierName (IsOf (· == .identifier)) := by
  refine .skip fun cursor => ?_
  split
  · exact .ite (.skip fun _ => .storeFitting _ (by simp [Fits, forms]) rfl) .unexpected
  · exact .unexpected

/-- A literal may have any plain data for its value. -/
theorem gives_literal {token : Token} {value : FieldValue} (hValue : Part.data.Holds value) :
    Gives (literal token value) (IsOf (· == .literal)) :=
  .storeFitting _ (by simp [Fits, forms, hValue]) rfl

theorem gives_templateElement {token : Token} :
    Gives (templateElement token) (IsOf (· == .templateElement)) :=
  .storeFitting _ (by simp [Fits, forms]) rfl

theorem gives_withDefault {start : Nat} {target value : Node} (hTarget : target.IsOf isTarget)
    (hValue : value.IsOf isExpression) :
    Gives (withDefault start target value) (IsOf (· == .assignmentPattern)) :=
  .finishFitting (by simp [Fits, forms, hTarget, hValue]) rfl

/-- A second node of an identifier is an identifier as well. -/
theorem gives_cloneIdentifier {name : Node} (h : name.IsOf (· == .identifier)) :
    Gives (cloneIdentifier name) (IsOf (· == .identifier)) :=
  .storeFitting _ (eq_of_beq h.accepted ▸ shaped_iff_fits.mp h.shaped) rfl

/-- The name of a shorthand property may be followed by a default. -/
theorem gives_shorthand {start : Nat} {key value : Node} (hKey : key.IsOf (· == .identifier))
    (hValue : value.IsOf isTarget) :
    Gives (propertyNode start key value "init" false true false) (IsOf (· == .property)) :=
  .finishFitting (by simp [Fits, forms, hKey, hValue]) rfl

/-- The rest element of an object pattern. -/
theorem gives_objectRest : Gives objectRest (IsOf (· == .restElement)) := by
  refine .skip fun start => .skip fun _ => .skip fun _ => ?_
  refine gives_identifier.bind fun argument hArgument => .finishFitting ?_ rfl
  have hTarget : argument.IsOf isTarget := hArgument.weaken rfl
  simp [Fits, forms, hTarget]

/-- The name of a function or class may be left out. -/
theorem gives_nameFor (role : Role) : Gives (nameFor role) (SlotOf (· == .identifier)) :=
  .skip fun _ => .ite (gives_identifier.bind fun _ hName => .pure (.some hName))
    (.ite .unexpected (.pure .none))

theorem fits_function {kind : NodeKind} (hKind : kind.forms = [functionForm])
    {name : Option Node} {params : List Node} {body : Node}
    {isAsync isGenerator isExpression : Bool}
    (hName : SlotOf (· == .identifier) name) (hParams : RestList isElement params)
    (hBody : body.IsOf fun kind => kind == .blockStatement || kind.isExpression) :
    kind.Fits (functionFields name params body isAsync isGenerator isExpression) := by
  simp [Fits, hKind, functionForm, functionFields, hName, hParams, hBody]

/-- A literal with more to it for large integers. -/
theorem gives_numericLiteral {token : Token} :
    Gives (numericLiteral token) (IsOf (· == .literal)) := by
  refine .skip fun _ => .ite (.skip fun _ => .storeFitting _ ?_ rfl) (gives_literal (by simp))
  simp [Fits, forms]

theorem gives_memberNode {start : Nat} {object property : Node} {computed isOptional : Bool}
    (hObject : object.IsOf isExpression) (hProperty : property.IsOf isExpression) :
    Gives (memberNode start object property computed isOptional) (IsOf isExpression) :=
  .finishFitting (by simp [Fits, forms, hObject, hProperty]) rfl

theorem gives_dotMember {start : Nat} {object : Node} {isOptional : Bool}
    (hObject : object.IsOf isExpression) :
    Gives (dotMember start object isOptional) (IsOf isExpression) :=
  gives_identifierName.bind fun _ hName => gives_memberNode hObject (hName.weaken rfl)

theorem gives_newTarget {start : Nat} {word : Span} :
    Gives (newTarget start word) (IsOf isExpression) := by
  refine .skip fun cursor => .ensure (.skip fun context => .ensure ?_)
  refine .bind (.storeFitting (· == .identifier) (by simp [Fits, forms]) rfl) ?_
  intro metaWord hMeta
  refine gives_identifierName.bind fun property hProperty => .finishFitting ?_ rfl
  simp [Fits, forms, hMeta, hProperty]

namespace Grammar.Shapes

variable {G : Grammar Production}

theorem expression (hG : G.Shapes) : Gives G.expression (IsOf isExpression) := by
  refine .skip fun start => hG.assignment.bind fun first hFirst => .skip fun cursor => ?_
  refine .ite (.bind (.list isExpression (.singleton hFirst) fun seen hSeen => ?_)
    fun expressions h => .finishFitting (by simp [Fits, forms, h]) rfl) (.pure hFirst)
  exact .skip fun _ => .ite
    (hG.assignment.bind fun next hNext => .pure (hSeen.concat hNext)) (.pure hSeen)

theorem parenthesized (hG : G.Shapes) : Gives G.parenthesized (IsOf isExpression) :=
  .skip fun _ => hG.expression.allowIn.bind fun _ hInner => .skip fun _ => .pure hInner

theorem block (hG : G.Shapes) : Gives G.block (IsOf (· == .blockStatement)) := by
  refine .skip fun start => .skip fun _ => .bind (.list isStatement .nil fun seen hSeen => ?_)
    fun body hBody => .skip fun _ => .finishFitting (by simp [Fits, forms, hBody]) rfl
  refine .skip fun cursor => .ite (.pure hSeen) (.ite .unexpected ?_)
  exact hG.statement.bind fun statement hStatement => .pure (hSeen.concat hStatement)

theorem template (hG : G.Shapes) : Gives G.template (IsOf (· == .templateLiteral)) := by
  refine .skip fun start => .skip fun _ => .bind (.iterate
    (fun seen => ListOf (· == .templateElement) seen.1 ∧ ListOf isExpression seen.2)
    (fun seen => ListOf (· == .templateElement) seen.1 ∧ ListOf isExpression seen.2)
    ⟨.nil, .nil⟩ fun seen h => ?_) fun seen h =>
      .finishFitting (by simp [Fits, forms, h.1, h.2]) rfl
  refine .skip fun cursor => ?_
  split
  · exact .unexpected
  refine .ite .unexpected (.skip fun _ => ?_)
  refine gives_templateElement.bind fun quasi hQuasi => ?_
  refine .ite (.pure ⟨h.1.concat hQuasi, h.2⟩) ?_
  exact hG.expression.allowIn.bind fun inner hInner => .skip fun cursor =>
    .ensure (.pure ⟨h.1.concat hQuasi, h.2.concat hInner⟩)

/-- What is known of the name of a property that was read from a cursor: it is an expression, and
an identifier if it starts with one and stands without brackets. -/
def KeyAt (cursor : Cursor) (result : Node × Bool) : Prop :=
  result.1.IsOf isExpression ∧
    (cursor.atIdentifier = true → result.2 = false → result.1.IsOf (· == .identifier))

theorem yields_propertyKey (hG : G.Shapes) {context : Context} {cursor : Cursor} :
    Yields (propertyKey G) context cursor fun result _ => KeyAt cursor result := by
  have hLiteral : ∀ {token : Token} {value : FieldValue}, Part.data.Holds value →
      token.kind ≠ .identifier → cursor.current? = some token →
      Yields (bump >>= fun _ => literal token value >>= fun key => Pure.pure (key, false)) context
        cursor fun result _ => KeyAt cursor result := by
    intro token value hValue hKind hToken
    refine .bind (fun _ _ _ => trivial) fun _ later (_ : True) => ?_
    refine (gives_literal hValue context later).bind fun key _ hKey => .pure ⟨?_, fun hAt => ?_⟩
    · exact hKey.weaken rfl
    · simp [Cursor.atIdentifier, hToken, hKind] at hAt
  refine .get_bind ?_
  split
  · exact .unexpected
  case h_2 token hToken =>
    split
    case h_1 hKind => exact hLiteral (by simp) (by simp [hKind]) hToken
    case h_2 hKind => exact hLiteral (by simp) (by simp [hKind]) hToken
    refine .ite (fun _ => ?_) fun _ => ?_
    · refine (?_ : Gives _ (KeyAt cursor)) context cursor
      refine .skip fun _ => .skip fun _ => hG.assignment.allowIn.bind fun key hKey => ?_
      exact .skip fun _ => .pure ⟨hKey, by simp⟩
    · refine Gives.bind gives_identifierName (fun key hKey => .pure ?_) context cursor
      exact ⟨hKey.weaken rfl, fun _ _ => hKey⟩

theorem propertyKey (hG : G.Shapes) :
    Gives (propertyKey G) fun result => result.1.IsOf isExpression :=
  fun _ _ => hG.yields_propertyKey.imp fun _ _ h => h.1

/-- The name of a property, where the cursor in front of it is looked at as well. -/
theorem key_bind {α : Type} {property : α → Prop} (hG : G.Shapes)
    {next : Cursor → Node × Bool → Production α}
    (hNext : ∀ cursor result, KeyAt cursor result → Gives (next cursor result) property) :
    Gives (get >>= fun cursor => Grammar.propertyKey G >>= next cursor) property :=
  fun context cursor => .get_bind (hG.yields_propertyKey.bind fun result later hKey =>
    hNext cursor result hKey context later)

theorem bindingElement (hG : G.Shapes) : Gives (bindingElement G) (IsOf isTarget) := by
  refine .skip fun start => hG.bindingTarget.bind fun target hTarget => .skip fun cursor => ?_
  have hWhole : target.IsOf isTarget := hTarget.imp fun _ => isTarget_of_isBinding
  refine .ite (.skip fun offset => .skip fun _ => .skip fun _ => ?_) (.pure hWhole)
  exact hG.assignment.allowIn.bind fun value hValue =>
    (gives_withDefault hWhole hValue).imp fun _ hNode => hNode.weaken rfl

theorem restElement (hG : G.Shapes) : Gives (restElement G) (IsOf (· == .restElement)) := by
  refine .skip fun start => .skip fun _ => .skip fun _ => ?_
  refine hG.bindingTarget.bind fun argument hArgument => .finishFitting ?_ rfl
  simp [Fits, forms, hArgument.imp fun _ => isTarget_of_isBinding]

theorem arrayPattern (hG : G.Shapes) : Gives (arrayPattern G) (IsOf isBinding) := by
  have hImp : ∀ kind, isTarget kind = true → isElement kind = true := fun kind hKind => by
    simp [isElement, hKind]
  refine .skip fun start => .skip fun _ => .bind
    (.iterate (SlotsOf isTarget) (RestSlots isElement) .nil fun seen hSeen => ?_)
    fun elements h => .skip fun _ => .finishFitting (by simp [Fits, forms, h]) rfl
  refine .skip fun cursor => .ite (.pure (hSeen.rest rfl hImp)) (.skip fun _ => ?_)
  refine .ite (.pure hSeen.hole) (.skip fun cursor => .ite ?_ ?_)
  · exact hG.restElement.bind fun rest hRest => .skip fun cursor =>
      .ensure_two (.pure (hSeen.concat_rest rfl hImp (hRest.weaken rfl)))
  · refine hG.bindingElement.bind fun element hTarget => .skip fun cursor => ?_
    exact .ensure (.pure (hSeen.concat hTarget))

theorem patternProperty (hG : G.Shapes) : Gives (patternProperty G) (IsOf (· == .property)) := by
  refine .skip fun start => hG.key_bind fun cursor (key, computed) hKey => ?_
  refine .skip fun found => .ite ?_ ?_
  · exact hG.bindingElement.bind fun value hValue =>
      .finishFitting (by simp [Fits, forms, hKey.1, hValue]) rfl
  split
  case isFalse => exact .unexpected
  case isTrue h =>
    obtain ⟨hAt, hComputed⟩ := Bool.and_eq_true_iff.mp h
    obtain rfl : computed = false := by simpa using hComputed
    have hName := hKey.2 hAt rfl
    refine (gives_cloneIdentifier hName).bind fun name hClone => .skip fun found => ?_
    have hTarget : name.IsOf isTarget := hClone.weaken rfl
    refine .ite ?_ (gives_shorthand hName hTarget)
    refine hG.assignment.allowIn.bind fun value hValue => ?_
    refine (gives_withDefault hTarget hValue).bind fun value hValue => ?_
    exact gives_shorthand hName (hValue.weaken rfl)

theorem objectPattern (hG : G.Shapes) : Gives (objectPattern G) (IsOf isBinding) := by
  refine .skip fun start => .skip fun _ => .bind
    (.iterate (ListOf (· == .property)) (RestList isPatternMember) .nil fun seen hSeen => ?_)
    fun members h => .skip fun _ => .finishFitting (by simp [Fits, forms, h]) rfl
  have hImp : ∀ kind : NodeKind, (kind == .property) = true → isPatternMember kind = true :=
    fun kind hKind => by simp [isPatternMember, hKind]
  refine .skip fun cursor => .ite (.pure (hSeen.rest rfl hImp)) (.skip fun cursor => .ite ?_ ?_)
  · exact gives_objectRest.bind fun rest hRest => .skip fun cursor =>
      .ensure_two (.pure (hSeen.concat_rest rfl hImp (hRest.weaken rfl)))
  · refine hG.patternProperty.bind fun property hProperty => .skip fun cursor => ?_
    exact .ensure (.pure (hSeen.concat hProperty))

theorem bindingTargetBody (hG : G.Shapes) : Gives (bindingTargetBody G) (IsOf isBinding) :=
  .skip fun _ => .ite (.skip fun _ => .skip fun _ => hG.arrayPattern)
    (.ite (.skip fun _ => .skip fun _ => hG.objectPattern)
      (gives_identifier.imp fun _ hName => hName.weaken rfl))

theorem params (hG : G.Shapes) : Gives (params G) (RestList isElement) := by
  have hImp : ∀ kind, isTarget kind = true → isElement kind = true := fun kind hKind => by
    simp [isElement, hKind]
  refine .skip fun _ => .bind
    (.iterate (ListOf isTarget) (RestList isElement) .nil fun seen hSeen => ?_)
    fun params h => .skip fun _ => .pure h
  refine .skip fun cursor => .ite (.pure (hSeen.rest rfl hImp)) (.skip fun cursor => .ite ?_ ?_)
  · exact hG.restElement.bind fun rest hRest => .skip fun cursor =>
      .ensure_two (.pure (hSeen.concat_rest rfl hImp (hRest.weaken rfl)))
  · refine hG.bindingElement.bind fun element hTarget => .skip fun found => ?_
    have hElements := hSeen.concat hTarget
    exact .ite (.skip fun cursor => .optional_two (.pure hElements))
      (.pure (hElements.rest rfl hImp))

/-- Parameters and a body. -/
theorem paramsAndBody (hG : G.Shapes) (isAsync isGenerator : Bool) :
    Gives (paramsAndBody G isAsync isGenerator) fun result =>
      RestList isElement result.1 ∧ result.2.IsOf (· == .blockStatement) :=
  .inFunction (hG.params.bind fun _ hParams => hG.block.bind fun _ hBody => .pure ⟨hParams, hBody⟩)

theorem function (hG : G.Shapes) (start : Nat) (isAsync : Bool) (role : Role) :
    Gives (function G start isAsync role) (IsOf (· == role.functionKind)) := by
  refine .skip fun _ => .skip fun cursor => .optional_three ?_
  refine (gives_nameFor role).bind fun name hName => ?_
  refine (hG.paramsAndBody _ _).bind fun (params, body) ⟨hParams, hBody⟩ => ?_
  exact .finishFitting (fits_function (by cases role <;> rfl) hName hParams (hBody.weaken rfl))
    (beq_self_eq_true _)

theorem methodFunction (hG : G.Shapes) (isAsync isGenerator : Bool) :
    Gives (methodFunction G isAsync isGenerator) (IsOf (· == .functionExpression)) :=
  .skip fun _ => (hG.paramsAndBody _ _).bind fun (_, _) ⟨hParams, hBody⟩ =>
    .finishFitting (fits_function rfl .none hParams (hBody.weaken rfl)) rfl

theorem methodDefinition (hG : G.Shapes) :
    Gives (methodDefinition G) (IsOf (· == .methodDefinition)) := by
  refine .skip fun start => .skip fun cursor => .optional (.skip fun cursor => .optional_three ?_)
  refine .skip fun isGenerator => .skip_either fun word => ?_
  refine hG.propertyKey.bind fun (key, computed) hKey => .skip fun cursor => .ensure ?_
  refine (hG.methodFunction _ _).bind fun value hValue => .finishFitting ?_ rfl
  simp [Fits, forms, hKey, hValue]

theorem classBody (hG : G.Shapes) : Gives (classBody G) (IsOf (· == .classBody)) := by
  refine .skip fun start => .skip fun _ => .bind
    (.list (· == .methodDefinition) .nil fun seen hSeen => ?_)
    fun members h => .skip fun _ => .finishFitting (by simp [Fits, forms, h]) rfl
  refine .skip fun cursor => .ite (.pure hSeen) (.ite .unexpected (.skip fun found => ?_))
  refine .ite (.pure hSeen) ?_
  exact hG.methodDefinition.bind fun member hMember => .pure (hSeen.concat hMember)

theorem classOf (hG : G.Shapes) (role : Role) :
    Gives (classOf G role) (IsOf (· == role.classKind)) := by
  refine .skip fun start => .skip fun _ => .skip fun _ => ?_
  refine (gives_nameFor role).bind fun name hName => .skip fun extends_ => ?_
  refine .either hG.leftHandSide.someOf (.pure .none) fun superClass hSuper => ?_
  refine hG.classBody.bind fun body hBody => .finishFitting ?_ (beq_self_eq_true _)
  cases role <;> simp [Fits, Role.classKind, forms, classForm, hName, hSuper, hBody]

theorem spreadElement (hG : G.Shapes) : Gives (spreadElement G) (IsOf (· == .spreadElement)) :=
  .skip fun _ => .skip fun _ => .skip fun _ => hG.assignment.allowIn.bind fun _ hArgument =>
    .finishFitting (by simp [Fits, forms, hArgument]) rfl

/-- An argument of a call or an element of an array, with what comes behind it. -/
theorem argument_bind {α : Type} {property : α → Prop} (hG : G.Shapes) {condition : Prop}
    [Decidable condition] {next : Node → Production α}
    (hNext : ∀ argument, argument.IsOf isArgument → Gives (next argument) property) :
    Gives (if condition then Grammar.spreadElement G >>= next
      else Production.allowIn G.assignment >>= next) property :=
  .either (hG.spreadElement.imp fun _ h => h.weaken rfl)
    (hG.assignment.allowIn.imp fun _ h => h.imp fun kind hKind => by simp [isArgument, hKind]) hNext

theorem arguments (hG : G.Shapes) : Gives (arguments G) (ListOf isArgument) := by
  refine .skip fun _ => .bind (.list isArgument .nil fun seen hSeen => ?_)
    fun arguments h => .skip fun _ => .pure h
  refine .skip fun cursor => .ite (.pure hSeen) (.skip fun cursor => hG.argument_bind ?_)
  intro argument hArgument
  refine .skip fun found => .ite (.skip fun cursor => .optional_two ?_) ?_
  · exact .pure (hSeen.concat hArgument)
  · exact .pure (hSeen.concat hArgument)

theorem arrayLiteral (hG : G.Shapes) : Gives (arrayLiteral G) (IsOf isExpression) := by
  refine .skip fun start => .skip fun _ => .bind (.slots isArgument fun seen hSeen => ?_)
    fun elements h => .skip fun _ => .finishFitting (by simp [Fits, forms, h]) rfl
  refine .skip fun cursor => .ite (.pure hSeen) (.skip fun found => .ite (.pure hSeen.hole) ?_)
  refine .skip fun cursor => hG.argument_bind fun element hElement => .skip fun cursor => ?_
  exact .ensure (.pure (hSeen.concat hElement))

theorem shorthandDefault (hG : G.Shapes) {start : Nat} {name : Node} (hName : name.IsOf isTarget) :
    Gives (shorthandDefault G start name) (IsOf isTarget) :=
  .skip fun _ => .skip fun _ => .skip fun _ => hG.assignment.allowIn.bind fun _ hValue =>
    (gives_withDefault hName hValue).imp fun _ h => h.weaken rfl

theorem property (hG : G.Shapes) : Gives (property G) (IsOf (· == .property)) := by
  have hPlain : ∀ {start : Nat} {key value : Node} {kind : String} {isMethod computed : Bool},
      key.IsOf isExpression → value.IsOf isExpression →
      Gives (propertyNode start key value kind isMethod false computed) (IsOf (· == .property)) :=
    fun hKey hValue => .finishFitting (by simp [Fits, forms, hKey, hValue]) rfl
  refine .skip fun start => .skip fun cursor => .optional_two ?_
  refine .skip fun cursor => .optional_three ?_
  refine .skip_either fun word => hG.key_bind fun cursor found hKey => ?_
  obtain ⟨key, computed⟩ := found
  have hMethod : ∀ isAsync isGenerator kind isMethod,
      Gives (Grammar.methodFunction G isAsync isGenerator >>= fun value =>
        propertyNode start key value kind isMethod false computed) (IsOf (· == .property)) :=
    fun _ _ _ _ => (hG.methodFunction _ _).bind fun _ hValue => hPlain hKey.1 (hValue.weaken rfl)
  cases word with
  | some word => exact hMethod _ _ _ _
  | none =>
  refine .skip fun after => .ite (.skip fun _ => hMethod _ _ _ _) (.skip fun found => .ite ?_ ?_)
  · exact hG.assignment.allowIn.bind fun value hValue => hPlain hKey.1 hValue
  split
  case isFalse => exact .unexpected
  case isTrue h =>
    simp only [Bool.and_eq_true, Bool.not_eq_true'] at h
    obtain ⟨⟨hAt, rfl⟩, -⟩ := h
    have hName := hKey.2 hAt rfl
    refine .skip fun _ => (gives_cloneIdentifier hName).bind fun name hClone => ?_
    have hTarget : name.IsOf isTarget := hClone.weaken rfl
    exact .either (hG.shorthandDefault hTarget) (.pure hTarget) fun value hValue =>
      gives_shorthand hName hValue

theorem objectLiteral (hG : G.Shapes) : Gives (objectLiteral G) (IsOf isExpression) := by
  refine .skip fun start => .skip fun _ => .bind
    (.list isMember .nil fun seen hSeen => ?_)
    fun members h => .skip fun _ => .finishFitting (by simp [Fits, forms, h]) rfl
  have hProperty : Gives (Grammar.property G) (IsOf isMember) :=
    hG.property.imp fun _ h => h.weaken rfl
  refine .skip fun cursor => .ite (.pure hSeen) (.skip fun cursor => ?_)
  refine .either_three (fun _ => hG.spreadElement.imp fun _ h => h.weaken rfl) hProperty
    fun member hMember => .skip fun cursor => ?_
  exact .ensure (.pure (hSeen.concat hMember))

theorem primary (hG : G.Shapes) : Gives (primary G) (IsOf isExpression) := by
  have hWord : ∀ {kind : NodeKind} {span : Span}, kind.forms = [[]] → kind.isExpression = true →
      Gives (bump >>= fun _ => store kind span []) (IsOf isExpression) :=
    fun hForms hKind => .skip fun _ => .storeFitting _ (by simp [Fits, hForms]) hKind
  have hLiteral : ∀ {token : Token} {value : FieldValue}, Part.data.Holds value →
      Gives (bump >>= fun _ => literal token value) (IsOf isExpression) :=
    fun hValue => .skip fun _ => (gives_literal hValue).imp fun _ h => h.weaken rfl
  refine .skip fun cursor => ?_
  split
  · exact .unexpected
  split
  · exact .ite (.skip fun _ => .skip fun _ =>
      (hG.function _ _ _).imp fun _ h => h.weaken rfl)
        (gives_identifier.imp fun _ h => h.weaken rfl)
  · refine .ite (hWord rfl rfl) (.ite (hWord rfl rfl) (.ite ?_ (.ite ?_ .unexpected)))
    · exact (hG.function _ _ _).imp fun _ h => h.weaken rfl
    · exact (hG.classOf _).imp fun _ h => h.weaken rfl
  · exact hLiteral (by simp)
  · exact hLiteral (by simp)
  · exact gives_numericLiteral.imp fun _ h => h.weaken rfl
  · exact hLiteral (by simp)
  · exact .skip fun _ => .storeFitting _ (by simp [Fits, forms]) rfl
  · exact .ite (hG.template.imp fun _ h => h.weaken rfl) .unexpected
  · refine .ite (.skip fun _ => ?_) (.ite hG.arrayLiteral (.ite hG.objectLiteral .unexpected))
    exact hG.expression.allowIn.bind fun _ hInner => .skip fun _ => .pure hInner

theorem computedMember (hG : G.Shapes) {start : Nat} {object : Node} {isOptional : Bool}
    (hObject : object.IsOf isExpression) :
    Gives (computedMember G start object isOptional) (IsOf isExpression) :=
  .skip fun _ => hG.expression.allowIn.bind fun _ hProperty => .skip fun _ =>
    gives_memberNode hObject hProperty

theorem call (hG : G.Shapes) {start : Nat} {callee : Node} {isOptional : Bool}
    (hCallee : callee.IsOf isExpression) :
    Gives (call G start callee isOptional) (IsOf isExpression) :=
  hG.arguments.bind fun _ hArguments =>
    .finishFitting (by simp [Fits, forms, hCallee, hArguments]) rfl

theorem taggedTemplate (hG : G.Shapes) {start : Nat} {tag : Node} (hTag : tag.IsOf isExpression) :
    Gives (taggedTemplate G start tag) (IsOf isExpression) :=
  hG.template.bind fun _ hQuasi => .finishFitting (by simp [Fits, forms, hTag, hQuasi]) rfl

/-- One access, call or template behind an operand. -/
theorem operandTurn (hG : G.Shapes) {start : Nat} {operand : Node} {chained : Bool}
    (h : operand.IsOf isExpression) :
    Gives (operandTurn G start (operand, chained)) (Turn.Gives
      (fun result => result.1.IsOf isExpression) fun result => result.1.IsOf isExpression) := by
  have hAgain : ∀ {production : Production Node} {flag : Bool},
      Gives production (IsOf isExpression) →
      Gives (production >>= fun operand => Pure.pure (Turn.again (operand, flag))) (Turn.Gives
        (fun result : Node × Bool => result.1.IsOf isExpression)
        fun result : Node × Bool => result.1.IsOf isExpression) :=
    fun hProduction => hProduction.bind fun _ hOperand => .pure hOperand
  refine .skip fun found => .ite (hAgain (gives_dotMember h)) (.skip fun cursor => .ite ?_ ?_)
  · refine .skip fun _ => .skip fun _ => .skip fun _ => .skip fun cursor => ?_
    refine .ite (hAgain (hG.call h)) (.ite (hAgain (hG.computedMember h)) ?_)
    exact hAgain (gives_dotMember h)
  refine .skip fun cursor => .ite (hAgain (hG.computedMember h)) (.skip fun cursor => ?_)
  refine .ite (hAgain (hG.call h)) (.skip fun cursor => .ite ?_ (.pure h))
  exact .ite (.skip fun _ => .fault) (hAgain (hG.taggedTemplate h))

theorem leftHandSideBody (hG : G.Shapes) : Gives (leftHandSideBody G) (IsOf isExpression) := by
  refine .skip fun start => .skip fun cursor => .either hG.newExpression hG.primary ?_
  intro operand hOperand
  refine .bind (.iterate _ (fun result => result.1.IsOf isExpression) hOperand
    fun (operand, chained) h => hG.operandTurn h) fun (operand, chained) h => ?_
  exact .ite (.finishFitting (by simp [Fits, forms, h]) rfl) (.pure h)

/-- One access or template behind the callee of `new`. -/
theorem calleeTurn (hG : G.Shapes) {start : Nat} {callee : Node} (h : callee.IsOf isExpression) :
    Gives (calleeTurn G start callee) (Turn.Gives (IsOf isExpression) (IsOf isExpression)) := by
  have hAgain : ∀ {production : Production Node}, Gives production (IsOf isExpression) →
      Gives (production >>= fun callee => Pure.pure (Turn.again callee))
        (Turn.Gives (IsOf isExpression) (IsOf isExpression)) :=
    fun hProduction => hProduction.bind fun _ hCallee => .pure hCallee
  refine .skip fun found => .ite (hAgain (gives_dotMember h)) (.skip fun cursor => ?_)
  refine .ite (hAgain (hG.computedMember h)) (.skip fun cursor => ?_)
  refine .ite (hAgain (hG.taggedTemplate h)) (.skip fun cursor => .ite ?_ (.pure h))
  exact .skip fun _ => .fault

theorem newExpressionBody (hG : G.Shapes) : Gives (newExpressionBody G) (IsOf isExpression) := by
  refine .skip fun start => .skip fun cursor => .skip fun _ => .skip fun found => ?_
  refine .ite gives_newTarget (.skip fun _ => .skip fun cursor => ?_)
  refine .either hG.newExpression hG.primary fun callee hCallee => ?_
  refine .bind (.iterate _ (IsOf isExpression) hCallee fun _ h => hG.calleeTurn h) ?_
  intro callee hCallee
  refine .skip fun cursor => .either hG.arguments (.pure .nil) fun arguments hArguments => ?_
  exact .finishFitting (by simp [Fits, forms, hCallee, hArguments]) rfl

end Grammar.Shapes

end EcmaLint
