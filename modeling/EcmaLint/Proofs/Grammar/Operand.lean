import EcmaLint.Grammar.Function
import EcmaLint.Grammar.Object
import EcmaLint.Grammar.Operand
import EcmaLint.Proofs.Grammar.Pattern

/-! What functions, methods, classes, array and object literals, arguments and operands read. A
function may start before its own word, so it is made of what was read since an origin. An access, a
call or a template takes the operand before it below itself, so the node read since the origin is
always one. -/
namespace EcmaLint.Grammar

open Production

variable {G : Grammar Production} {context : Context} {origin cursor : Cursor} {start : Nat}
  {moved : Bool}
  {operand : Node} {isOptional : Bool}

theorem Role.functionKind_isPlain (role : Role) : role.functionKind.IsPlain := by
  cases role <;> simp [functionKind]

theorem Role.classKind_isPlain (role : Role) : role.classKind.IsPlain := by
  cases role <;> simp [classKind]

theorem functionFields_hold {kind : NodeKind} (hKind : kind.IsPlain) (name : Option Node)
    (params : List Node) (body : Node) (isAsync isGenerator isExpression : Bool) :
    Field.Hold kind (functionFields name params body isAsync isGenerator isExpression)
      (name.toList ++ params ++ [body]) := by
  simpa [Field.Hold, functionFields] using hKind

theorem collects_nameFor (role : Role) : Collects false (nameFor role) Option.toList := by
  intro context cursor hOrder
  refine .get_bind (.ite (fun _ => ?_) fun _ => .ite (fun _ => .unexpected) fun _ => ?_)
  · exact readsNode_identifier.bindAfter (Reads.refl hOrder) fun name later h => .pure h.weaken
  · exact .pure (Reads.refl hOrder)

/-- Words may have been skipped since the origin, but only if there was cause to. -/
structure Skips (cause : Prop) (origin cursor : Cursor) : Prop where
  reads : Reads false origin [] cursor
  eq_of_not : ¬cause → cursor = origin

theorem Skips.refl (hOrder : Token.InOrder cursor.tokens) : Skips False cursor cursor :=
  ⟨Reads.refl hOrder, fun _ => rfl⟩

theorem Skips.of_cause {cause : Prop} (hCause : cause) (h : Reads false origin [] cursor) :
    Skips cause origin cursor := ⟨h, fun hNot => absurd hCause hNot⟩

theorem Skips.or_left {cause other : Prop} (h : Skips cause origin cursor) :
    Skips (cause ∨ other) origin cursor := ⟨h.reads, fun hNot => h.eq_of_not (not_or.mp hNot).1⟩

theorem yields_require_bump {cause other : Prop} {feature : Feature} {offset : Nat}
    (h : Skips cause origin cursor) (hOther : other) :
    Yields (do require feature offset; bump) context cursor fun _ later =>
      Skips (cause ∨ other) origin later := by
  refine .require_bind ?_
  exact (collects_bump.passAfter h.reads).imp fun _ _ h => .of_cause (Or.inr hOther) h

theorem yields_accessor {cause : Prop} (atWord : Cursor → String → Bool)
    (h : Skips cause origin cursor) :
    Yields (accessor atWord) context cursor fun word later =>
      Skips (cause ∨ word ≠ none) origin later := by
  refine .get_bind (.ite (fun _ => ?_) fun _ => .ite (fun _ => ?_) fun _ => ?_)
  · exact collects_bump.skipAfter h.reads fun _ _ h => .pure (.of_cause (Or.inr (by simp)) h)
  · exact collects_bump.skipAfter h.reads fun _ _ h => .pure (.of_cause (Or.inr (by simp)) h)
  · exact .pure h.or_left

theorem collects_accessor (atWord : Cursor → String → Bool) :
    Collects false (accessor atWord) fun _ => [] := fun _ _ hOrder =>
  (yields_accessor atWord (Skips.refl hOrder)).imp fun _ _ h => h.reads

namespace ReadsNodes

theorem params (hG : G.ReadsNodes) : Collects true (params G) fun params => params := by
  intro context cursor hOrder
  refine (collects_expect "(").skipAfter (Reads.refl hOrder) fun _ later h => ?_
  refine .iterate_bind (Reads true cursor) (Reads true cursor) h
    (fun seen later h => ?_) fun params later h => ?_
  · refine .get_bind (.ite (fun _ => .pure h) fun _ => .get_bind (.ite (fun _ => ?_) fun _ => ?_))
    · refine hG.restElement.bindAfter h fun rest later h => ?_
      refine .get_bind (.ite (fun _ => .pure h) fun _ => ?_)
      exact .startOffset_bind fun _ _ => .fault_bind
    · refine hG.bindingElement.bindAfter h fun param later h => ?_
      refine (collects_eat ",").skipAfter h fun _ later h => .ite (fun _ => ?_) fun _ => .pure h
      refine .get_bind (.optional_two (fun _ => ?_) (fun _ => h) fun later h => .pure h)
      exact .startOffset_bind fun _ _ => .require h
  · exact (collects_expect ")").skipAfter h fun _ _ h => .pure h

theorem paramsAndBody (hG : G.ReadsNodes) (isAsync isGenerator : Bool) :
    Collects true (paramsAndBody G isAsync isGenerator) fun read => read.1 ++ [read.2] := by
  refine Collects.inFunction fun context cursor hOrder => ?_
  refine hG.params.bindAfter (Reads.refl hOrder) fun params later h => ?_
  exact hG.block.readsNode.bindAfter h fun body later h => .pure h

theorem function {isAsync : Bool} {role : Role} (hG : G.ReadsNodes)
    (h : Reads moved origin [] cursor) (hStart : origin.StartsAt start) :
    Yields (function G start isAsync role) context cursor fun node later =>
      Reads true origin [node] later ∧ node.Spans origin later := by
  refine (collects_expect "function").skipAfter h fun _ later h => .get_bind ?_
  refine .optional_three (fun _ => ?_) (fun _ => h.weaken) fun later h => ?_
  · refine .startOffset_bind fun _ _ => ?_
    refine .require_bind ?_
    exact (collects_bump.passAfter h).imp fun _ _ h => h.weaken
  refine (collects_nameFor role).bindAfter h fun name later h => ?_
  refine (hG.paramsAndBody isAsync _).bindAfter h ?_
  rintro ⟨params, body⟩ later h
  refine .finish h hStart ?_
  simpa using functionFields_hold role.functionKind_isPlain name params body isAsync _ false

theorem methodFunction (hG : G.ReadsNodes) (isAsync isGenerator : Bool) :
    ReadsNode (methodFunction G isAsync isGenerator) := by
  intro context cursor hOrder
  refine .startOffset_bind fun start hStart => ?_
  refine (hG.paramsAndBody isAsync isGenerator).bindAfter (Reads.refl hOrder) ?_
  rintro ⟨params, body⟩ later h
  exact .finishNode h hStart (functionFields_hold (by simp) none params body isAsync isGenerator
    false)

theorem methodDefinition (hG : G.ReadsNodes) : ReadsNode (methodDefinition G) := by
  intro context cursor hOrder
  refine .startOffset_bind fun start hStart => .get_bind ?_
  refine .optional (fun _ => collects_bump.passAfter (Reads.refl hOrder))
    (fun _ => Reads.refl hOrder) fun later h => .get_bind ?_
  refine .optional_three (fun _ => ?_) (fun _ => h) fun later h => ?_
  · refine .startOffset_bind fun _ _ => ?_
    exact .require_bind (collects_bump.passAfter h)
  refine (collects_eat "*").skipAfter h fun _ later h => ?_
  refine .either (fun _ => (collects_accessor _).passAfter h) (fun _ => .pure h)
    fun word later h => ?_
  refine (hG.propertyKey h.inOrder).bind ?_
  rintro ⟨key, computed⟩ later ⟨hKey, -⟩
  have h := h.trans hKey
  refine .get_bind (.ensure (fun _ => h) (fun _ => .unexpected) fun later h => ?_)
  refine (hG.methodFunction _ _).bindAfter h fun value later h => ?_
  exact .finishNode h hStart (by simp [Field.Hold])

theorem classBody (hG : G.ReadsNodes) : ReadsNode (classBody G) := by
  intro context cursor hOrder
  refine .startOffset_bind fun start hStart => ?_
  refine (collects_expect "\x7b").skipAfter (Reads.refl hOrder) fun _ later h => ?_
  refine .iterate_bind (Reads true cursor) (Reads true cursor) h
    (fun seen later h => ?_) fun members later h => ?_
  · refine .get_bind (.ite (fun _ => .pure h) fun _ => .ite (fun _ => .unexpected) fun _ => ?_)
    refine (collects_eat ";").skipAfter h fun _ later h => .ite (fun _ => .pure h) fun _ => ?_
    exact hG.methodDefinition.bindAfter h fun _ _ h => .pure h
  · refine collects_bump.skipAfter h fun _ later h => ?_
    exact .finishNode h hStart (by simp [Field.Hold])

theorem classOf (hG : G.ReadsNodes) (role : Role) : ReadsSpan (classOf G role) := by
  intro context cursor hOrder
  refine .startOffset_bind fun start hStart => ?_
  refine .require_bind ?_
  refine (collects_expect "class").skipAfter (Reads.refl hOrder) fun _ later h => ?_
  refine (collects_nameFor role).bindAfter h fun name later h => ?_
  refine (collects_eat "extends").skipAfter h fun _ later h => ?_
  refine .either (fun _ => hG.leftHandSide.someAfter h) (fun _ => .pure h.none)
    fun superClass later h => ?_
  refine hG.classBody.bindAfter h fun body later h => ?_
  exact .finish h hStart (by simpa [Field.Hold] using role.classKind_isPlain)

end ReadsNodes

namespace ReadsNodes

theorem spreadElement (hG : G.ReadsNodes) : ReadsNode (spreadElement G) := by
  intro context cursor hOrder
  refine .startOffset_bind fun start hStart => ?_
  refine .require_bind ?_
  refine (collects_expect "...").skipAfter (Reads.refl hOrder) fun _ later h => ?_
  refine hG.assignment.allowIn.bindAfter h fun argument later h => ?_
  exact .finishNode h hStart (by simp [Field.Hold])

theorem arguments (hG : G.ReadsNodes) : Collects true (arguments G) fun arguments => arguments := by
  intro context cursor hOrder
  refine (collects_expect "(").skipAfter (Reads.refl hOrder) fun _ later h => ?_
  refine .iterate_bind (Reads true cursor) (Reads true cursor) h
    (fun seen later h => ?_) fun arguments later h => ?_
  · refine .get_bind (.ite (fun _ => .pure h) fun _ => .get_bind ?_)
    refine .either (fun _ => hG.spreadElement.after h) (fun _ => hG.assignment.allowIn.after h)
      fun argument later h => ?_
    refine (collects_eat ",").skipAfter h fun _ later h => .ite (fun _ => ?_) fun _ => .pure h
    refine .get_bind (.optional_two (fun _ => ?_) (fun _ => h) fun later h => .pure h)
    exact .startOffset_bind fun _ _ => .require h
  · exact (collects_expect ")").skipAfter h fun _ _ h => .pure h

theorem arrayLiteral (hG : G.ReadsNodes) : ReadsSpan (arrayLiteral G) := by
  intro context cursor hOrder
  refine .startOffset_bind fun start hStart => ?_
  refine (collects_expect "[").skipAfter (Reads.refl hOrder) fun _ later h => ?_
  refine .iterate_bind (ReadsSlots true cursor) (ReadsSlots true cursor) h
    (fun seen later h => ?_) fun elements later h => ?_
  · refine .get_bind (.ite (fun _ => .pure h) fun _ => ?_)
    refine (collects_eat ",").skipAfter h fun _ later h => ?_
    refine .ite (fun _ => .pure (ReadsSlots.hole h)) fun _ => .get_bind ?_
    refine .either (fun _ => hG.spreadElement.after h) (fun _ => hG.assignment.allowIn.after h)
      fun element later h => ?_
    refine .get_bind (.ensure (fun _ => h) (fun _ => ?_) fun later h => ?_)
    · exact (collects_expect ",").passAfter h
    · exact .pure (ReadsSlots.filled h)
  · refine (collects_expect "]").skipAfter h fun _ later h => ?_
    exact .finish h hStart (by simp [Field.Hold])

/-- The second node of the name of a shorthand property may get a default. -/
theorem shorthandDefault (hG : G.ReadsNodes) {name key : Node} (h : Clones origin key [name] cursor)
    (hStart : origin.StartsAt start) :
    Yields (shorthandDefault G start name) context cursor fun pattern later =>
      Clones origin key [pattern] later := by
  refine .startOffset_bind fun offset _ => ?_
  refine h.skipAfter (collects_modify_defaults _) fun _ later h => ?_
  refine h.skipAfter collects_bump fun _ later h => ?_
  refine h.bindAfter hG.assignment.allowIn fun value later h => ?_
  exact yields_withDefault_of_clones h hStart

theorem property (hG : G.ReadsNodes) : ReadsSpan (property G) := by
  intro context cursor hOrder
  refine .startOffset_bind fun start hStart => .get_bind ?_
  have h := Skips.refl hOrder
  refine .optional_two (fun hAsync => yields_require_bump h hAsync) (fun _ => h.or_left)
    fun later h => .get_bind ?_
  refine .optional_three
    (fun hGenerator => .startOffset_bind fun _ _ => yields_require_bump h hGenerator)
    (fun _ => h.or_left) fun later h => ?_
  refine .either (fun _ => yields_accessor _ h) (fun _ => .pure h.or_left) fun word later h => ?_
  refine .get_bind ((hG.propertyKey h.reads.inOrder).bind ?_)
  rintro ⟨key, computed⟩ between ⟨hKeyRead, hKey⟩
  have hRead := h.reads.trans hKeyRead
  cases word with
  | some word =>
      refine (hG.methodFunction _ _).bindAfter hRead fun value later h => ?_
      exact yields_propertyNode h hStart
  | none =>
      refine .get_bind (.ite (fun _ => ?_) fun hPlain => ?_)
      · refine .require_bind ?_
        refine (hG.methodFunction _ _).bindAfter hRead fun value later h => ?_
        exact yields_propertyNode h hStart
      refine (collects_eat ":").skipAfter hRead fun _ later hRead => .ite (fun _ => ?_) fun _ => ?_
      · refine hG.assignment.allowIn.bindAfter hRead fun value later h => ?_
        exact yields_propertyNode h hStart
      refine .ite (fun hShorthand => ?_) fun _ => .unexpected
      -- nothing was skipped, so the name starts the property
      obtain rfl := h.eq_of_not (by simp_all)
      have hComputed : computed = false := by simp_all
      refine .require_bind ?_
      refine (yields_cloneIdentifier hRead (hKey.isLeaf hComputed)
        (hKey.isWord hComputed (by simp_all))).bind fun name later h => ?_
      refine .either (fun _ => hG.shorthandDefault h hStart) (fun _ => .pure h)
        fun value later h => ?_
      exact yields_propertyNode_of_clones h hStart

theorem objectLiteral (hG : G.ReadsNodes) : ReadsSpan (objectLiteral G) := by
  intro context cursor hOrder
  refine .startOffset_bind fun start hStart => ?_
  refine (collects_expect "\x7b").skipAfter (Reads.refl hOrder) fun _ later h => ?_
  -- the brace is taken before the first member
  have hMember : ∀ {production : Production Node} {context : Context} {later : Cursor}
      {seen : List Node}, ReadsNode production → Reads true cursor seen later →
      (∀ child ∈ seen, start < child.span.start) →
      Yields production context later fun member after =>
        Reads true cursor (seen ++ [member]) after ∧
          ∀ child ∈ seen ++ [member], start < child.span.start := by
    intro production context later seen hProduction h hSeen
    refine (hProduction context later h.inOrder).imp fun member after hMember => ?_
    refine ⟨h.trans hMember, List.forall_mem_append.mpr ⟨hSeen, ?_⟩⟩
    simpa using h.start_lt hStart hMember
  refine .iterate_bind
    (fun seen later => Reads true cursor seen later ∧ ∀ child ∈ seen, start < child.span.start)
    (fun seen later => Reads true cursor seen later ∧ ∀ child ∈ seen, start < child.span.start)
    ⟨h, by simp⟩ ?_ ?_
  · rintro seen later ⟨h, hSeen⟩
    refine .get_bind (.ite (fun _ => .pure ⟨h, hSeen⟩) fun _ => .get_bind ?_)
    refine .either_three (fun _ => .startOffset_bind fun _ _ => ?_)
      (fun _ => hMember hG.property.readsNode h hSeen) ?_
    · exact .require_bind (hMember hG.spreadElement h hSeen)
    rintro member later ⟨h, hSeen⟩
    refine .get_bind (.ensure (fun _ => h) (fun _ => ?_) fun later h => .pure ⟨h, hSeen⟩)
    exact (collects_expect ",").passAfter h
  · rintro properties later ⟨h, hSeen⟩
    refine (collects_expect "\x7d").skipAfter h fun _ later h => ?_
    exact .finish_of_perm h hStart (by simp) (by simp) (by simp) (by simp) (fun _ => hSeen) rfl
      rfl

end ReadsNodes

theorem yields_memberNode {property : Node} {computed : Bool}
    (h : Reads true origin [operand, property] cursor) (hStart : origin.StartsAt start) :
    Yields (memberNode start operand property computed isOptional) context cursor
      fun node later => ReadsWhole origin node later :=
  .finishWhole h hStart (by simp [Field.Hold])

theorem yields_dotMember (h : Reads true origin [operand] cursor) (hStart : origin.StartsAt start) :
    Yields (dotMember start operand isOptional) context cursor
      fun node later => ReadsWhole origin node later :=
  readsNode_identifierName.bindAfter h fun _ _ h => yields_memberNode h hStart

/-- What stands behind `new` and a point, where the word `new` is read as a name as well. -/
theorem yields_newTarget {token : Token} (h : Reads true origin [] cursor)
    (hStart : origin.StartsAt start) (hToken : origin.current? = some token)
    (hText : token.text = "new") :
    Yields (newTarget start token.span) context cursor
      fun node later => ReadsWhole origin node later := by
  refine .get_bind (.ensure (fun _ => h) (fun _ => .unexpected) fun later h => ?_)
  refine .read_bind (.ensure (fun _ => h) (fun _ => .fault) fun later h => ?_)
  refine (Yields.leaf h hToken (hText ▸ Field.copy_word)).bind fun metaWord later h => ?_
  refine readsNode_identifierName.bindAfter h.1 fun property later h => ?_
  exact .finishWhole h hStart (by simp [Field.Hold])

namespace ReadsNodes

/-- What stands in parentheses. -/
theorem inParentheses (hG : G.ReadsNodes) {token : Token} (hOrder : Token.InOrder cursor.tokens)
    (hToken : cursor.current? = some token) (hText : token.text = "(") :
    Yields (do bump; let inner ← allowIn G.expression; expect ")"; return inner) context cursor
      fun node later => ReadsWhole cursor node later := by
  refine .bump_bind hToken hOrder fun later h hOpening => ?_
  refine (hG.isWhole_expression.allowIn context later h.inOrder).bind ?_
  rintro inner after ⟨hReads, taken, hTaken, hWrapped⟩
  refine (((collects_expect ")").passAfter (h.trans hReads)).and (yields_expect_tokens ")")).bind ?_
  rintro - last ⟨hLast, closing, hClosingText, hClosing⟩
  refine .pure ⟨hLast, token :: taken ++ [closing], ?_, .parentheses hText hWrapped hClosingText⟩
  rw [hOpening, hTaken, hClosing]
  simp

theorem primary (hG : G.ReadsNodes) : IsWhole (primary G) := by
  intro context cursor hOrder
  refine .get_bind ?_
  cases hToken : cursor.current? with
  | none => exact .unexpected
  | some token =>
      have h := Reads.refl hOrder
      have hStart : cursor.StartsAt token.span.start := fun other hOther => by
        rw [Option.some.inj (hToken.symm.trans hOther)]
      have hLiteral : ∀ value : FieldValue, value.filled = [] → token.kind ≠ .regularExpression →
          Yields (do bump; literal token value) context cursor
            fun node later => ReadsWhole cursor node later := fun value hValue hKind =>
        .bump_bind hToken hOrder fun _ h hTokens =>
          .leafWhole h hTokens (Field.copy_literal hKind hValue)
      have hWord : ∀ kind : NodeKind, kind.IsPlain →
          Yields (do bump; store kind token.span []) context cursor
            fun node later => ReadsWhole cursor node later := fun kind hKind =>
        .bump_bind hToken hOrder fun _ h hTokens =>
          .leafWhole h hTokens (Field.copy_of_isPlain hKind)
      dsimp only
      split
      · refine .ite (fun _ => ?_) fun _ => isWhole_identifier context cursor hOrder
        refine .require_bind ?_
        refine collects_bump.skipAfter h fun _ later h => ?_
        exact (hG.function h hStart).imp fun _ _ hNode => .of_spans hNode
      · refine .ite (fun _ => hWord _ (by simp)) fun _ => ?_
        refine .ite (fun _ => hWord _ (by simp)) fun _ => ?_
        refine .ite (fun _ => ?_) fun _ => .ite (fun _ => ?_) fun _ => .unexpected
        · exact (hG.function h hStart).imp fun _ _ hNode => .of_spans hNode
        · exact (hG.classOf .expression context cursor hOrder).imp fun _ _ hNode => .of_spans hNode
      case h_3 hKind => exact hLiteral _ (by simp) (by simp [hKind])
      case h_4 hKind => exact hLiteral _ (by simp) (by simp [hKind])
      case h_5 hKind => exact yields_numericLiteral hOrder hToken (by simp [hKind])
      case h_6 hKind => exact hLiteral _ (by simp) (by simp [hKind])
      case h_7 hKind =>
        refine .bump_bind hToken hOrder fun _ h hTokens => ?_
        refine .leafWhole h hTokens ⟨by simp, by simp, fun id => ?_⟩
        exact .regularExpression (List.mem_singleton_self token) hKind
          (makes_store_iff.mpr ⟨id, rfl⟩)
      · refine .ite (fun hHead => ?_) fun _ => .unexpected
        exact (hG.template hOrder hHead).imp fun _ _ hNode => .of_spans hNode
      · refine .ite (fun hText => hG.inParentheses hOrder hToken (by simpa using hText)) fun _ =>
          .ite (fun _ => ?_) fun _ => .ite (fun _ => ?_) fun _ => .unexpected
        · exact (hG.arrayLiteral context cursor hOrder).imp fun _ _ hNode => .of_spans hNode
        · exact (hG.objectLiteral context cursor hOrder).imp fun _ _ hNode => .of_spans hNode

theorem computedMember (hG : G.ReadsNodes) (h : Reads true origin [operand] cursor)
    (hStart : origin.StartsAt start) :
    Yields (computedMember G start operand isOptional) context cursor
      fun node later => ReadsWhole origin node later := by
  refine (collects_expect "[").skipAfter h fun _ later h => ?_
  refine hG.expression.allowIn.bindAfter h fun property later h => ?_
  exact (collects_expect "]").skipAfter h fun _ later h => yields_memberNode h hStart

theorem call (hG : G.ReadsNodes) (h : Reads true origin [operand] cursor)
    (hStart : origin.StartsAt start) :
    Yields (call G start operand isOptional) context cursor
      fun node later => ReadsWhole origin node later :=
  hG.arguments.bindAfter h fun _ _ h => .finishWhole h hStart (by simp [Field.Hold])

theorem taggedTemplate (hG : G.ReadsNodes) (h : Reads true origin [operand] cursor)
    (hStart : origin.StartsAt start) (hHead : atTemplateHead cursor = true) :
    Yields (taggedTemplate G start operand) context cursor
      fun node later => ReadsWhole origin node later :=
  (hG.template h.inOrder hHead).bind fun _ _ hTemplate =>
    .finishWhole (h.trans hTemplate.1) hStart (by simp [Field.Hold])

theorem operandTurn (hG : G.ReadsNodes) {state : Node × Bool}
    (h : ReadsWhole origin state.1 cursor) (hStart : origin.StartsAt start) :
    Yields (operandTurn G start state) context cursor
      (Turn.Meets (fun state later => ReadsWhole origin state.1 later)
        fun state later => ReadsWhole origin state.1 later) := by
  obtain ⟨operand, chained⟩ := state
  refine (Yields.eatBehind h).bind ?_
  rintro found later ⟨h, hWhole⟩
  refine .ite (fun _ => ?_) fun hFound => ?_
  · exact (yields_dotMember h hStart).bind fun _ _ h => .pure h
  refine .get_bind (.ite (fun _ => ?_) fun _ => ?_)
  · refine .startOffset_bind fun _ _ => ?_
    refine .require_bind ?_
    refine collects_bump.skipAfter h fun _ later h => .get_bind ?_
    refine .ite (fun _ => (hG.call h hStart).bind fun _ _ h => .pure h) fun _ => ?_
    refine .ite (fun _ => (hG.computedMember h hStart).bind fun _ _ h => .pure h) fun _ => ?_
    exact (yields_dotMember h hStart).bind fun _ _ h => .pure h
  refine .get_bind (.ite (fun _ => ?_) fun _ => ?_)
  · exact (hG.computedMember h hStart).bind fun _ _ h => .pure h
  refine .get_bind (.ite (fun _ => ?_) fun _ => ?_)
  · exact (hG.call h hStart).bind fun _ _ h => .pure h
  refine .get_bind (.ite (fun hHead => ?_) fun _ => .pure (hWhole (by simpa using hFound)))
  refine .ite (fun _ => .startOffset_bind fun _ _ => .fault) fun _ => ?_
  exact (hG.taggedTemplate h hStart hHead).bind fun _ _ h => .pure h

theorem leftHandSideBody (hG : G.ReadsNodes) : IsWhole (leftHandSideBody G) := by
  intro context cursor hOrder
  refine .startOffset_bind fun start hStart => .get_bind ?_
  refine .either (fun _ => hG.expressions.newExpression context cursor hOrder)
    (fun _ => hG.primary context cursor hOrder) fun operand later h => ?_
  refine .iterate_bind (fun state later => ReadsWhole cursor state.1 later)
    (fun state later => ReadsWhole cursor state.1 later) h
    (fun state later h => hG.operandTurn h hStart) ?_
  rintro ⟨operand, chained⟩ later h
  exact .ite (fun _ => .finishWhole h.reads hStart (by simp [Field.Hold])) fun _ => .pure h

theorem calleeTurn (hG : G.ReadsNodes) (h : Reads true origin [operand] cursor)
    (hStart : origin.StartsAt start) :
    Yields (calleeTurn G start operand) context cursor
      (Turn.Meets (fun node later => Reads true origin [node] later)
        fun node later => Reads true origin [node] later) := by
  refine (collects_eat ".").skipAfter h fun _ later h => .ite (fun _ => ?_) fun _ => ?_
  · exact (yields_dotMember h hStart).bind fun _ _ h => .pure h.reads
  refine .get_bind (.ite (fun _ => ?_) fun _ => ?_)
  · exact (hG.computedMember h hStart).bind fun _ _ h => .pure h.reads
  refine .get_bind (.ite (fun hHead => ?_) fun _ => ?_)
  · exact (hG.taggedTemplate h hStart hHead).bind fun _ _ h => .pure h.reads
  refine .get_bind (.ite (fun _ => ?_) fun _ => .pure h)
  exact .startOffset_bind fun _ _ => .fault

/-- The callee of `new`, with its own accesses. -/
theorem newExpressionBody (hG : G.ReadsNodes) : IsWhole (newExpressionBody G) := by
  intro context cursor hOrder
  refine .startOffset_bind fun start hStart => .get_bind ?_
  refine (((collects_expect "new").after (Reads.refl hOrder)).and
    (yields_expect_tokens "new")).bind ?_
  rintro - later ⟨h, token, hText, hTokens⟩
  rw [List.append_nil] at h
  have hToken : cursor.current? = some token := by rw [Cursor.current?_eq, hTokens, List.head?_cons]
  refine (collects_eat ".").skipAfter h fun _ later h => .ite (fun _ => ?_) fun _ => ?_
  · simp only [hToken, Option.map_some, Option.getD_some]
    exact yields_newTarget h hStart hToken hText
  -- the accesses of the callee start with the callee, behind the word `new`
  refine .startOffset_bind fun calleeStart hCalleeStart => .get_bind ?_
  refine .either (fun _ => hG.newExpression context later h.inOrder)
    (fun _ => hG.primary.readsNode context later h.inOrder) fun callee between hCallee => ?_
  refine .iterate_bind (fun node between => Reads true later [node] between)
    (fun node between => Reads true later [node] between) hCallee
    (fun node between h => hG.calleeTurn h hCalleeStart) fun callee between hCallee => ?_
  have h := h.trans hCallee
  refine .get_bind (.either (fun _ => hG.arguments.after h) (fun _ => .pure ?_)
    fun arguments later h => ?_)
  · simpa using h
  · exact .finishWhole h hStart (by simp [Field.Hold])

end ReadsNodes

end EcmaLint.Grammar
