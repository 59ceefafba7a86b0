import EcmaLint.Proofs.Shape.Waiting

/-! The defaults in what a statement is made of: literals, patterns, functions and operands. The one
place where a default starts to wait is a shorthand property of an object, so a property that leaves
none waiting has none. -/
namespace EcmaLint

open Production Node

namespace Grammar

theorem settles_literal {token : Token} {value : FieldValue} (h : value.filled = []) :
    Settles (literal token value) fun node => node.children = [] := .leaf (by simp [h])

theorem settles_numericLiteral {token : Token} :
    Settles (numericLiteral token) fun node => node.children = [] :=
  settles_bump.skip fun _ => .ite
    (settles_require.skip fun _ => .leaf (by simp)) (settles_literal (by simp))

namespace SettlesDefaults

variable {G : Grammar Production}

theorem expression (hG : G.SettlesDefaults) : Settles G.expression IsSettled := by
  refine settles_startOffset.skip fun start => hG.assignment.bind fun first => .get_bind fun _ => ?_
  refine .ite (.bind (.list (fun seen => ?_) [first]) fun nodes => .finish ?_) (.pure id)
  · exact (settles_eat ",").skip fun _ => .ite (hG.assignment.bind fun next => .again) (.pure id)
  · exact fun _ _ hNodes hFirst => .of_fields (by simp) (by simpa [hFirst] using hNodes)

theorem parenthesized (hG : G.SettlesDefaults) : Settles G.parenthesized IsSettled :=
  (settles_expect "(").skip fun _ => hG.expression.allowIn.bind fun _ =>
    (settles_expect ")").skip fun _ => .pure id

theorem block (hG : G.SettlesDefaults) : Settles G.block IsSettled := by
  refine settles_startOffset.skip fun start => (settles_expect "\x7b").skip fun _ => ?_
  refine .bind (.list (fun seen => .get_bind fun _ => ?_) []) fun body =>
    settles_bump.skip fun _ => ?_
  · exact .ite (.pure id) (.ite .unexpected (hG.statement.bind fun statement => .again))
  · exact .finish fun _ _ hBody => .of_fields (by simp) (by simpa using hBody)

theorem template (hG : G.SettlesDefaults) : Settles G.template IsSettled := by
  refine settles_startOffset.skip fun start => settles_require.skip fun _ => .bind
    (.iterate (fun parts => AllSettled (parts.1 ++ parts.2))
      (fun parts => AllSettled (parts.1 ++ parts.2)) (fun parts => .get_bind fun cursor => ?_)
      ([], []))
    fun parts => .finish fun _ _ hParts => .of_fields (by simp) (by simpa using hParts)
  obtain ⟨quasis, expressions⟩ := parts
  split
  · exact .unexpected
  refine .ite .unexpected (settles_bump.skip fun _ => ?_)
  have hPiece : ∀ {token}, Settles (templateElement token) IsSettled :=
    (Settles.leaf (by simp)).imp fun _ => .of_childless
  refine hPiece.bind fun quasi => .ite (.pure ?_) ?_
  · intro hQuasi hSeen
    simp_all [Turn.Gives]
  refine hG.expression.allowIn.bind fun inner => .get_bind fun _ => .ensure .unexpected (.pure ?_)
  intro hInner hQuasi hSeen
  simp_all [Turn.Gives]

/-- A name without brackets has nothing below it. -/
theorem propertyKey (hG : G.SettlesDefaults) :
    Settles (propertyKey G) fun key =>
      key.1.IsSettled ∧ (key.2 = false → key.1.children = []) := by
  have hPlain : ∀ {production : Production Node},
      Settles production (fun node => node.children = []) →
      Settles (do return (← production, false)) fun key : Node × Bool =>
        key.1.IsSettled ∧ (key.2 = false → key.1.children = []) := fun hProduction =>
    hProduction.bind fun _ => .pure fun h => ⟨.of_childless h, fun _ => h⟩
  refine .get_bind fun cursor => ?_
  split
  · exact .unexpected
  split
  · exact settles_bump.skip fun _ => hPlain (settles_literal (by simp))
  · exact settles_bump.skip fun _ => hPlain (settles_literal (by simp))
  refine .ite ?_ (hPlain settles_identifierName)
  exact settles_require.skip fun _ => settles_bump.skip fun _ => hG.assignment.allowIn.bind fun _ =>
    (settles_expect "]").skip fun _ => .pure fun h => ⟨h, by simp⟩

/-- The node of a property. -/
theorem propertyNode {start : Nat} {key value : Node} {kind : String}
    {isMethod shorthand computed : Bool} :
    Settles (propertyNode start key value kind isMethod shorthand computed) fun node =>
      (key.IsSettled ∧ value.IsSettled → node.IsSettled) ∧
        (value.kind ≠ .assignmentPattern → ¬node.HasDefault) := by
  refine .finish fun _ _ => ⟨fun h => .of_fields (by simp) (by simp [h]), fun hKind hDefault => ?_⟩
  obtain ⟨-, other, hOther, hPattern⟩ := hDefault
  obtain rfl : value = other := Option.some.inj hOther
  exact hKind hPattern

theorem bindingElement (hG : G.SettlesDefaults) : Settles (bindingElement G) IsSettled := by
  refine settles_startOffset.skip fun start => hG.bindingTarget.bind fun target => ?_
  refine .get_bind fun _ => .ite (.requiring ?_) (.pure id)
  exact settles_bump.skip fun _ => hG.assignment.allowIn.bind fun value =>
    .finish fun _ _ hValue hTarget => .of_fields (by simp) (by simp [hValue, hTarget])

theorem restElement (hG : G.SettlesDefaults) : Settles (restElement G) IsSettled :=
  settles_startOffset.skip fun _ => settles_require.skip fun _ =>
    (settles_expect "...").skip fun _ => hG.bindingTarget.bind fun _ =>
      .finish fun _ _ h => .of_fields (by simp) (by simp [h])

theorem arrayPattern (hG : G.SettlesDefaults) : Settles (arrayPattern G) IsSettled := by
  refine settles_startOffset.skip fun start => (settles_expect "[").skip fun _ => .bind
    (.iterate (fun slots => AllSettled (slots.filterMap id))
      (fun slots => AllSettled (slots.filterMap id)) (fun seen => .get_bind fun _ => ?_) [])
    fun elements => (settles_expect "]").skip fun _ =>
      .finish fun _ _ h => .of_fields (by simp) (by simpa using h)
  refine .ite (.pure id) ((settles_eat ",").skip fun _ => .ite (.pure ?_) ?_)
  · simp [Turn.Gives]
  refine .get_bind fun _ => .ite ?_ ?_
  · refine hG.restElement.bind fun rest => .get_bind fun _ => ?_
    refine .ensure_two settles_startOffset (fun _ => .fault) (.pure ?_)
    simp_all [Turn.Gives]
  · refine hG.bindingElement.bind fun element => .get_bind fun _ => ?_
    refine .ensure (settles_expect ",") (.pure ?_)
    simp_all [Turn.Gives]

theorem cloneIdentifier {name : Node} :
    Settles (cloneIdentifier name) fun clone =>
      clone.kind = .identifier ∧ (name.children = [] → clone.IsSettled) :=
  .store fun _ => ⟨rfl, fun hName => .of_childless (by rwa [children_eq_filledIn] at hName ⊢)⟩

theorem withDefault {start : Nat} {target value : Node} :
    Settles (withDefault start target value) fun node =>
      target.IsSettled → value.IsSettled → node.IsSettled :=
  .finish fun _ _ hTarget hValue => .of_fields (by simp) (by simp [hTarget, hValue])

theorem patternProperty (hG : G.SettlesDefaults) : Settles (patternProperty G) IsSettled := by
  refine settles_startOffset.skip fun start => .get_bind fun _ => hG.propertyKey.bind fun key => ?_
  obtain ⟨key, computed⟩ := key
  refine (settles_eat ":").skip fun _ => .ite ?_ ?_
  · exact hG.bindingElement.bind fun value => propertyNode.imp fun _ h hValue hKey =>
      h.1 ⟨hKey.1, hValue⟩
  split
  case isFalse => exact .unexpected
  case isTrue hShorthand =>
    have hComputed : computed = false := by simp_all
    refine cloneIdentifier.bind fun name => (settles_eat "=").skip fun _ => .ite ?_ ?_
    · refine hG.assignment.allowIn.bind fun value => withDefault.bind fun pattern => ?_
      exact propertyNode.imp fun _ h hPattern hValue hName hKey =>
        h.1 ⟨hKey.1, hPattern (hName.2 (hKey.2 hComputed)) hValue⟩
    · exact propertyNode.imp fun _ h hName hKey => h.1 ⟨hKey.1, hName.2 (hKey.2 hComputed)⟩

theorem objectPattern (hG : G.SettlesDefaults) : Settles (objectPattern G) IsSettled := by
  have hRest : Settles objectRest IsSettled :=
    settles_startOffset.skip fun _ => settles_require.skip fun _ => settles_bump.skip fun _ =>
      settles_identifier.bind fun _ => .finish fun _ _ h => .of_fields (by simp) (by simp [h])
  refine settles_startOffset.skip fun start => (settles_expect "\x7b").skip fun _ => .bind
    (.list (fun seen => .get_bind fun _ => .ite (.pure id) (.get_bind fun _ => .ite ?_ ?_)) [])
    fun properties => (settles_expect "\x7d").skip fun _ =>
      .finish fun _ _ h => .of_fields (by simp) (by simpa using h)
  · refine hRest.bind fun rest => .get_bind fun _ => ?_
    refine .ensure_two settles_startOffset (fun _ => .fault) (.pure ?_)
    simp_all [Turn.Gives]
  · refine hG.patternProperty.bind fun property => .get_bind fun _ => ?_
    exact .ensure (settles_expect ",") .again

theorem bindingTargetBody (hG : G.SettlesDefaults) : Settles (bindingTargetBody G) IsSettled := by
  refine .get_bind fun _ => .ite ?_ (.ite ?_ settles_identifier)
  · exact .requiring hG.arrayPattern
  · exact .requiring hG.objectPattern

theorem params (hG : G.SettlesDefaults) : Settles (params G) AllSettled := by
  refine (settles_expect "(").skip fun _ => .bind
    (.list (fun seen => .get_bind fun _ => .ite (.pure id) (.get_bind fun _ => .ite ?_ ?_)) [])
    fun params => (settles_expect ")").skip fun _ => .pure fun h => h allSettled_nil
  · refine hG.restElement.bind fun rest => .get_bind fun _ => ?_
    refine .ensure_two settles_startOffset (fun _ => .fault) (.pure ?_)
    simp_all [Turn.Gives]
  · refine hG.bindingElement.bind fun param => (settles_eat ",").skip fun _ => .ite ?_ (.pure ?_)
    · refine .get_bind fun _ => ?_
      exact .optional_two settles_startOffset (fun _ => settles_require) .again
    · simp_all [Turn.Gives]

theorem paramsAndBody (hG : G.SettlesDefaults) (isAsync isGenerator : Bool) :
    Settles (paramsAndBody G isAsync isGenerator) fun read => AllSettled (read.1 ++ [read.2]) :=
  .inFunction <| hG.params.bind fun _ => hG.block.bind fun _ => .pure fun hBody hParams => by
    simp [hParams, hBody]

theorem settles_nameFor (role : Role) : Settles (nameFor role) fun name => AllSettled name.toList :=
  .get_bind fun _ => .ite (settles_identifier.bind fun _ => .pure fun h => by simpa using h)
    (.ite .unexpected (.pure (by simp)))

/-- The node of a function. -/
theorem functionNode {kind : NodeKind} {start : Nat} {name : Option Node} {params : List Node}
    {body : Node} {isAsync isGenerator isExpression : Bool} (hKind : kind ≠ .objectExpression) :
    Settles (finish kind start
      (functionFields name params body isAsync isGenerator isExpression)) fun node =>
        AllSettled (params ++ [body]) → AllSettled name.toList → node.IsSettled :=
  .finish fun _ _ hRead hName => .of_fields hKind (by
    simp_all [functionFields])

theorem function (hG : G.SettlesDefaults) (start : Nat) (isAsync : Bool) (role : Role) :
    Settles (function G start isAsync role) IsSettled := by
  refine (settles_expect "function").skip fun _ => .get_bind fun _ => ?_
  refine .optional_three settles_startOffset (fun _ => settles_require) (fun _ => settles_bump) ?_
  exact (settles_nameFor role).bind fun _ => (hG.paramsAndBody _ _).bind fun (_, _) =>
    functionNode (by cases role <;> simp [Role.functionKind])

theorem methodFunction (hG : G.SettlesDefaults) (isAsync isGenerator : Bool) :
    Settles (methodFunction G isAsync isGenerator) IsSettled :=
  settles_startOffset.skip fun _ => (hG.paramsAndBody _ _).bind fun (_, _) =>
    (functionNode (by simp)).imp fun _ h hRead => h hRead (by simp)

theorem settles_accessor (atWord : Cursor → String → Bool) :
    Settles (accessor atWord) fun _ => True :=
  .get_bind fun _ => .ite (settles_bump.skip fun _ => .pure trivial)
    (.ite (settles_bump.skip fun _ => .pure trivial) (.pure trivial))

theorem methodDefinition (hG : G.SettlesDefaults) : Settles (methodDefinition G) IsSettled := by
  refine settles_startOffset.skip fun start => .get_bind fun _ => .optional settles_bump ?_
  refine .get_bind fun _ => .optional_three settles_startOffset (fun _ => settles_require)
    (fun _ => settles_bump) ((settles_eat "*").skip fun _ => ?_)
  refine .either (settles_accessor _) (.pure trivial) fun word => ?_
  refine hG.propertyKey.bind fun (key, computed) => .get_bind fun _ => .ensure .unexpected ?_
  refine (hG.methodFunction _ _).bind fun value => .finish fun _ _ hValue hKey _ => ?_
  exact .of_fields (by simp) (by simp [hValue, hKey.1])

theorem classBody (hG : G.SettlesDefaults) : Settles (classBody G) IsSettled := by
  refine settles_startOffset.skip fun start => (settles_expect "\x7b").skip fun _ => .bind
    (.list (fun seen => .get_bind fun _ => .ite (.pure id) (.ite .unexpected ?_)) [])
    fun members => settles_bump.skip fun _ =>
      .finish fun _ _ h => .of_fields (by simp) (by simpa using h)
  refine (settles_eat ";").skip fun _ => .ite (.pure id) ?_
  exact hG.methodDefinition.bind fun _ => .again

theorem classOf (hG : G.SettlesDefaults) (role : Role) : Settles (classOf G role) IsSettled := by
  refine settles_startOffset.skip fun start => settles_require.skip fun _ => ?_
  refine (settles_expect "class").skip fun _ => (settles_nameFor role).bind fun name => ?_
  refine (settles_eat "extends").skip fun _ => .either hG.leftHandSide.someOf (.pure (by simp))
    fun superClass => hG.classBody.bind fun body => .finish fun _ _ hBody hSuper hName => ?_
  refine .of_fields (by cases role <;> simp [Role.classKind]) ?_
  simp_all

theorem spreadElement (hG : G.SettlesDefaults) : Settles (spreadElement G) IsSettled :=
  settles_startOffset.skip fun _ => settles_require.skip fun _ =>
    (settles_expect "...").skip fun _ => hG.assignment.allowIn.bind fun _ =>
      .finish fun _ _ h => .of_fields (by simp) (by simp [h])

theorem arguments (hG : G.SettlesDefaults) : Settles (arguments G) AllSettled := by
  refine (settles_expect "(").skip fun _ => .bind
    (.list (fun seen => .get_bind fun _ => .ite (.pure id) (.get_bind fun _ => ?_)) [])
    fun arguments => (settles_expect ")").skip fun _ => .pure fun h => h allSettled_nil
  refine .either hG.spreadElement hG.assignment.allowIn fun argument => ?_
  refine (settles_eat ",").skip fun _ => .ite (.get_bind fun _ => ?_) (.pure ?_)
  · exact .optional_two settles_startOffset (fun _ => settles_require) .again
  · simp_all [Turn.Gives]

theorem arrayLiteral (hG : G.SettlesDefaults) : Settles (arrayLiteral G) IsSettled := by
  refine settles_startOffset.skip fun start => (settles_expect "[").skip fun _ => .bind
    (.iterate (fun slots => AllSettled (slots.filterMap id))
      (fun slots => AllSettled (slots.filterMap id)) (fun seen => .get_bind fun _ => ?_) [])
    fun elements => (settles_expect "]").skip fun _ =>
      .finish fun _ _ h => .of_fields (by simp) (by simpa using h)
  refine .ite (.pure id) ((settles_eat ",").skip fun _ => .ite (.pure ?_) (.get_bind fun _ => ?_))
  · simp [Turn.Gives]
  refine .either hG.spreadElement hG.assignment.allowIn fun element => .get_bind fun _ => ?_
  refine .ensure (settles_expect ",") (.pure ?_)
  simp_all [Turn.Gives]

/-- A default waits from the `=` on. -/
theorem shorthandDefault (hG : G.SettlesDefaults) {start : Nat} {name : Node} :
    Settles (shorthandDefault G start name) fun _ => False := by
  intro context cursor hPassed
  refine .startOffset_bind fun offset hOffset => ?_
  refine .assoc ((Keeps.wait hPassed hOffset).bind fun _ later h => ?_)
  have hRest : Settles (do Grammar.withDefault start name (← allowIn G.assignment)) fun _ => True :=
    hG.assignment.allowIn.skip fun _ => withDefault.imp fun _ _ => trivial
  exact (hRest.after h).imp fun _ _ h => h.imp And.left

/-- A property of an object that leaves no default waiting has none. -/
theorem property (hG : G.SettlesDefaults) :
    Settles (property G) IsSettledMember := by
  refine settles_startOffset.skip fun start => .get_bind fun _ => ?_
  refine .optional_two settles_require (fun _ => settles_bump) (.get_bind fun _ => ?_)
  refine .optional_three settles_startOffset (fun _ => settles_require) (fun _ => settles_bump) ?_
  refine .either (settles_accessor _) (.pure trivial) fun word => .get_bind fun _ => ?_
  refine hG.propertyKey.bind fun (key, computed) => ?_
  have hMethod : ∀ isAsync isGenerator kind isMethod,
      Settles (do
        let value ← Grammar.methodFunction G isAsync isGenerator
        Grammar.propertyNode start key value kind isMethod false computed) fun node =>
          key.IsSettled → node.IsSettledMember := fun _ _ _ _ =>
    ((hG.methodFunction _ _).and_gives (hG.shapes.methodFunction _ _)).bind fun value =>
      propertyNode.imp fun _ h hValue hKey =>
        ⟨h.1 ⟨hKey, hValue.1⟩, h.2 (by simp [eq_of_beq hValue.2.accepted])⟩
  cases word with
  | some word => exact (hMethod _ _ _ _).imp fun _ h hKey _ => h hKey.1
  | none =>
  refine .get_bind fun _ => .ite (settles_require.skip fun _ => ?_) ?_
  · exact (hMethod _ _ _ _).imp fun _ h hKey _ => h hKey.1
  refine (settles_eat ":").skip fun _ => .ite ?_ ?_
  · refine (hG.assignment.allowIn.and_gives hG.shapes.assignment.allowIn).bind fun value => ?_
    refine propertyNode.imp fun _ h hValue hKey _ => ⟨h.1 ⟨hKey.1, hValue.1⟩, h.2 fun hKind => ?_⟩
    have hExpression := hValue.2.accepted
    rw [hKind] at hExpression
    cases hExpression
  split
  case isFalse => exact .unexpected
  case isTrue hShorthand =>
    have hComputed : computed = false := by simp_all
    refine settles_require.skip fun _ => cloneIdentifier.bind fun name => ?_
    have hDefault : Settles (Grammar.shorthandDefault G start name) (· = name) :=
      hG.shorthandDefault.imp fun _ => False.elim
    refine .either hDefault (.pure rfl) fun value => propertyNode.imp ?_
    rintro _ h rfl hName hKey -
    exact ⟨h.1 ⟨hKey.1, hName.2 (hKey.2 hComputed)⟩, h.2 (by simp [hName.1])⟩

theorem objectLiteral (hG : G.SettlesDefaults) : Settles (objectLiteral G) IsSettled := by
  have hSpread : Settles (Grammar.spreadElement G) IsSettledMember :=
    (hG.spreadElement.and_gives hG.shapes.spreadElement).imp fun _ h => ⟨h.1, fun hDefault => by
      simpa [hDefault.1] using h.2.accepted⟩
  refine settles_startOffset.skip fun start => (settles_expect "\x7b").skip fun _ => .bind
    (.iterate (fun seen => ∀ member ∈ seen, member.IsSettledMember)
      (fun members => ∀ member ∈ members, member.IsSettledMember)
      (fun seen => .get_bind fun _ => .ite (.pure id) (.get_bind fun _ => ?_)) [])
    fun members => (settles_expect "\x7d").skip fun _ =>
      .finish fun _ _ h => .of_members (h (by simp))
  have hRest : ∀ member, Settles (do
      unless (← get).atText "\x7d" do expect ","
      return Turn.again (seen ++ [member]) : Production (Turn (List Node) (List Node)))
        fun outcome => member.IsSettledMember →
          (∀ member ∈ seen, member.IsSettledMember) → Turn.Gives
            (fun seen => ∀ member ∈ seen, member.IsSettledMember)
            (fun members => ∀ member ∈ members, member.IsSettledMember) outcome :=
    fun member => .get_bind fun _ => .ensure (settles_expect ",") (.pure fun hMember hSeen =>
      List.forall_mem_append.mpr ⟨hSeen, List.forall_mem_singleton.mpr hMember⟩)
  refine .ite ?_ (hG.property.bind hRest)
  exact .requiring (hSpread.bind hRest)

theorem primary (hG : G.SettlesDefaults) : Settles (primary G) IsSettled := by
  have hWord : ∀ {kind : NodeKind} {span : Span},
      Settles (do bump; store kind span []) IsSettled := fun {_ _} =>
    settles_bump.skip fun _ => (Settles.leaf (by simp)).imp fun _ => .of_childless
  have hLiteral : ∀ {token : Token} {value : FieldValue}, value.filled = [] →
      Settles (do bump; literal token value) IsSettled := fun hValue =>
    settles_bump.skip fun _ => (settles_literal hValue).imp fun _ => .of_childless
  refine .get_bind fun cursor => ?_
  split
  · exact .unexpected
  split
  · exact .ite (settles_require.skip fun _ => settles_bump.skip fun _ => hG.function _ _ _)
      settles_identifier
  · exact .ite hWord (.ite hWord (.ite (hG.function _ _ _) (.ite (hG.classOf _) .unexpected)))
  · exact hLiteral (by simp)
  · exact hLiteral (by simp)
  · exact settles_numericLiteral.imp fun _ => .of_childless
  · exact hLiteral (by simp)
  · exact settles_bump.skip fun _ => (Settles.leaf (by simp)).imp fun _ => .of_childless
  · exact .ite hG.template .unexpected
  · refine .ite (settles_bump.skip fun _ => ?_)
      (.ite hG.arrayLiteral (.ite hG.objectLiteral .unexpected))
    exact hG.expression.allowIn.bind fun _ => (settles_expect ")").skip fun _ => .pure id

theorem memberNode {start : Nat} {object property : Node} {computed isOptional : Bool} :
    Settles (memberNode start object property computed isOptional) fun node =>
      property.IsSettled → object.IsSettled → node.IsSettled :=
  .finish fun _ _ hProperty hObject => .of_fields (by simp) (by simp [hObject, hProperty])

theorem dotMember {start : Nat} {object : Node} {isOptional : Bool} :
    Settles (dotMember start object isOptional) fun node => object.IsSettled → node.IsSettled :=
  settles_identifierName.bind fun _ => memberNode.imp fun _ h hName => h (.of_childless hName)

theorem computedMember (hG : G.SettlesDefaults) {start : Nat} {object : Node} {isOptional : Bool} :
    Settles (computedMember G start object isOptional) fun node =>
      object.IsSettled → node.IsSettled :=
  (settles_expect "[").skip fun _ => hG.expression.allowIn.bind fun _ =>
    (settles_expect "]").skip fun _ => memberNode

theorem call (hG : G.SettlesDefaults) {start : Nat} {callee : Node} {isOptional : Bool} :
    Settles (call G start callee isOptional) fun node => callee.IsSettled → node.IsSettled :=
  hG.arguments.bind fun _ => .finish fun _ _ hArguments hCallee =>
    .of_fields (by simp) (by simp [hArguments, hCallee])

theorem taggedTemplate (hG : G.SettlesDefaults) {start : Nat} {tag : Node} :
    Settles (taggedTemplate G start tag) fun node => tag.IsSettled → node.IsSettled :=
  hG.template.bind fun _ => .finish fun _ _ hQuasi hTag =>
    .of_fields (by simp) (by simp [hQuasi, hTag])

/-- What follows an operand takes it below itself. -/
theorem operandTurn (hG : G.SettlesDefaults) {start : Nat} {operand : Node × Bool} :
    Settles (operandTurn G start operand) fun outcome => operand.1.IsSettled → Turn.Gives
      (fun operand => operand.1.IsSettled) (fun operand => operand.1.IsSettled) outcome := by
  obtain ⟨operand, chained⟩ := operand
  have hAgain : ∀ {production : Production Node} {flag : Bool},
      Settles production (fun node => operand.IsSettled → node.IsSettled) →
      Settles (do return Turn.again (← production, flag)) fun outcome => operand.IsSettled →
        Turn.Gives (fun operand : Node × Bool => operand.1.IsSettled)
          (fun operand : Node × Bool => operand.1.IsSettled) outcome :=
    fun hProduction => hProduction.bind fun _ => .pure id
  refine (settles_eat ".").skip fun _ => .ite (hAgain dotMember) (.get_bind fun _ => .ite ?_ ?_)
  · refine .requiring <| settles_bump.skip fun _ => ?_
    refine .get_bind fun _ => .ite (hAgain hG.call) ?_
    exact .ite (hAgain hG.computedMember) (hAgain dotMember)
  refine .get_bind fun _ => .ite (hAgain hG.computedMember) (.get_bind fun _ => ?_)
  refine .ite (hAgain hG.call) (.get_bind fun _ => .ite ?_ (.pure id))
  exact .ite (settles_startOffset.skip fun _ => .fault) (hAgain hG.taggedTemplate)

theorem leftHandSideBody (hG : G.SettlesDefaults) : Settles (leftHandSideBody G) IsSettled := by
  refine settles_startOffset.skip fun start => .get_bind fun _ => ?_
  refine .either hG.newExpression hG.primary fun operand => .bind (.iterate
    (fun operand => operand.1.IsSettled) (fun operand => operand.1.IsSettled)
    (fun _ => hG.operandTurn) (operand, false)) fun (operand, chained) => ?_
  refine .ite (.finish fun _ _ hOperand hFirst => ?_) (.pure id)
  exact .of_fields (by simp) (by simpa using hOperand hFirst)

theorem calleeTurn (hG : G.SettlesDefaults) {start : Nat} {callee : Node} :
    Settles (calleeTurn G start callee) fun outcome => callee.IsSettled →
      Turn.Gives IsSettled IsSettled outcome := by
  have hAgain : ∀ {production : Production Node},
      Settles production (fun node => callee.IsSettled → node.IsSettled) →
      Settles (do return Turn.again (← production)) fun outcome => callee.IsSettled →
        Turn.Gives IsSettled IsSettled outcome :=
    fun hProduction => hProduction.bind fun _ => .pure id
  refine (settles_eat ".").skip fun _ => .ite (hAgain dotMember) (.get_bind fun _ => ?_)
  refine .ite (hAgain hG.computedMember) (.get_bind fun _ => ?_)
  refine .ite (hAgain hG.taggedTemplate) (.get_bind fun _ => .ite ?_ (.pure id))
  exact settles_startOffset.skip fun _ => .fault

theorem settles_newTarget {start : Nat} {word : Span} :
    Settles (newTarget start word) IsSettled := by
  refine .get_bind fun _ => .ensure .unexpected (.read_bind fun _ => .ensure .fault ?_)
  refine .bind (.leaf (by simp)) fun metaWord => settles_identifierName.bind fun property => ?_
  refine .finish fun _ _ hProperty hWord => .of_fields (by simp) ?_
  simp [IsSettled.of_childless hProperty, IsSettled.of_childless hWord]

theorem newExpressionBody (hG : G.SettlesDefaults) : Settles (newExpressionBody G) IsSettled := by
  refine settles_startOffset.skip fun start => .get_bind fun _ => ?_
  refine (settles_expect "new").skip fun _ => (settles_eat ".").skip fun _ => ?_
  refine .ite settles_newTarget ?_
  refine settles_startOffset.skip fun calleeStart => .get_bind fun _ => ?_
  refine .either hG.newExpression hG.primary fun callee => .bind
    (.iterate IsSettled IsSettled (fun _ => hG.calleeTurn) callee) fun callee =>
      .get_bind fun _ => ?_
  refine .either hG.arguments (.pure allSettled_nil) fun arguments => .finish ?_
  intro _ _ hArguments hCallee hFirst
  exact .of_fields (by simp) (by simp [hArguments, hCallee hFirst])

end SettlesDefaults

end Grammar

end EcmaLint
