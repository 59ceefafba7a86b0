import EcmaLint.Grammar.Operand
import EcmaLint.Proofs.Edition.Gated

/-! Operands under two editions: words, literals, patterns, functions, classes, objects and
accesses go the same way in every year up to the first feature that is missing. -/
namespace EcmaLint

open Production

/-- All that the grammar can come back to goes the same way in every year. -/
structure Grammar.IsGated (G : Grammar Production) : Prop where
  statement : Gated G.statement
  assignment : Gated G.assignment
  binary : ∀ minimum, Gated (G.binary minimum)
  unary : Gated G.unary
  leftHandSide : Gated G.leftHandSide
  newExpression : Gated G.newExpression
  bindingTarget : Gated G.bindingTarget

namespace Grammar

theorem gated_literal (token : Token) (value : FieldValue) : Gated (literal token value) :=
  .store _ _ _

theorem gated_numericLiteral (token : Token) : Gated (numericLiteral token) := by
  refine .bind .bump fun _ => .ite ?_ (gated_literal token _)
  exact .bind (.require _ _) fun _ => .store _ _ _

theorem gated_withDefault (start : Nat) (target value : Node) :
    Gated (withDefault start target value) :=
  .finish _ _ _

theorem gated_propertyNode (start : Nat) (key value : Node) (kind : String)
    (isMethod shorthand computed : Bool) :
    Gated (propertyNode start key value kind isMethod shorthand computed) :=
  .finish _ _ _

theorem gated_cloneIdentifier (name : Node) : Gated (cloneIdentifier name) := .store _ _ _

theorem gated_objectRest : Gated objectRest := by
  refine .bind .startOffset fun start => .bind (.require _ _) fun _ => ?_
  exact .bind .bump fun _ => .bind .identifier fun argument => .finish _ _ _

theorem gated_nameFor (role : Role) : Gated (nameFor role) := by
  refine .get_bind fun cursor _ => .ite ?_ (.ite .unexpected (.pure _))
  exact .bind .identifier fun name => .pure _

theorem gated_accessor (atWord : Cursor → String → Bool) : Gated (accessor atWord) := by
  refine .get_bind fun cursor _ => .ite ?_ (.ite ?_ (.pure _))
  · exact .bind .bump fun _ => .pure _
  · exact .bind .bump fun _ => .pure _

theorem gated_memberNode (start : Nat) (object property : Node) (computed isOptional : Bool) :
    Gated (memberNode start object property computed isOptional) :=
  .finish _ _ _

theorem gated_dotMember (start : Nat) (object : Node) (isOptional : Bool) :
    Gated (dotMember start object isOptional) :=
  .bind .identifierName fun property => gated_memberNode start object property false isOptional

theorem gated_newTarget (start : Nat) (word : Span) : Gated (newTarget start word) := by
  refine .get_bind fun cursor _ => .ensure .unexpected ?_
  refine .read_bind (fun context => ?_) fun _ _ => rfl
  refine .ensure (.fault _ _) (.bind (.store _ _ _) fun metaWord => ?_)
  exact .bind .identifierName fun property => .finish _ _ _

namespace IsGated

variable {G : Grammar Production}

theorem expression (hG : G.IsGated) : Gated G.expression := by
  refine .bind .startOffset fun start => .bind hG.assignment fun first => ?_
  refine .get_bind fun cursor _ => .ite ?_ (.pure first)
  refine .bind (.iterate (fun seen => ?_) _) fun expressions => .finish _ _ _
  refine .bind (.eat ",") fun _ => .ite ?_ (.pure _)
  exact .bind hG.assignment fun _ => .pure _

theorem parenthesized (hG : G.IsGated) : Gated G.parenthesized := by
  refine .bind (.expect "(") fun _ => .bind hG.expression.allowIn fun inner => ?_
  exact .bind (.expect ")") fun _ => .pure inner

theorem block (hG : G.IsGated) : Gated G.block := by
  refine .bind .startOffset fun start => .bind (.expect "\x7b") fun _ => ?_
  refine .bind (.iterate (fun seen => ?_) _) fun body => .bind .bump fun _ => .finish _ _ _
  refine .get_bind fun cursor _ => .ite (.pure _) (.ite .unexpected ?_)
  exact .bind hG.statement fun _ => .pure _

theorem template (hG : G.IsGated) : Gated (template G) := by
  refine .bind .startOffset fun start => .bind (.require _ _) fun _ => ?_
  refine .bind (.iterate ?_ _) fun pieces => .finish _ _ _
  rintro ⟨quasis, expressions⟩
  refine .get_bind fun cursor _ => ?_
  cases cursor.current? with
  | none => exact .unexpected
  | some token =>
      refine .ite .unexpected (.bind .bump fun _ => .bind (.store _ _ _) fun quasi => ?_)
      refine .ite (.pure _) (.bind hG.expression.allowIn fun inner => .get_bind fun cursor _ => ?_)
      exact .ensure .unexpected (.pure _)

theorem propertyKey (hG : G.IsGated) : Gated (propertyKey G) := by
  refine .get_bind fun cursor _ => ?_
  cases cursor.current? with
  | none => exact .unexpected
  | some token =>
      have hLiteral : ∀ value : FieldValue,
          Gated (do bump; return (← literal token value, false)) := fun value =>
        .bind .bump fun _ => .bind (gated_literal token value) fun _ => .pure _
      dsimp only
      split
      · exact hLiteral _
      · exact hLiteral _
      · refine .ite ?_ (.bind .identifierName fun _ => .pure _)
        refine .bind (.require _ _) fun _ => .bind .bump fun _ => ?_
        exact .bind hG.assignment.allowIn fun key => .bind (.expect "]") fun _ => .pure _

theorem bindingElement (hG : G.IsGated) : Gated (bindingElement G) := by
  refine .bind .startOffset fun start => .bind hG.bindingTarget fun target => ?_
  refine .get_bind fun cursor _ => .ite ?_ (.pure target)
  refine .bind .startOffset fun _ => .bind (.require _ _) fun _ => .bind .bump fun _ => ?_
  exact .bind hG.assignment.allowIn fun value => gated_withDefault start target value

theorem restElement (hG : G.IsGated) : Gated (restElement G) := by
  refine .bind .startOffset fun start => .bind (.require _ _) fun _ => ?_
  refine .bind (.expect "...") fun _ => .bind hG.bindingTarget fun argument => .finish _ _ _

theorem arrayPatternTurn (hG : G.IsGated) (seen : List (Option Node)) :
    Gated (arrayPatternTurn G seen) := by
  refine .get_bind fun cursor _ => ?_
  refine .ite (.pure _) (.bind (.eat ",") fun _ => .ite (.pure _) ?_)
  refine .get_bind fun cursor _ => .ite ?_ ?_
  · refine .bind hG.restElement fun rest => .get_bind fun cursor _ => ?_
    exact .ensure_two .startOffset (fun _ => .fault _ _) (.pure _)
  · refine .bind hG.bindingElement fun element => .get_bind fun cursor _ => ?_
    exact .ensure (.expect ",") (.pure _)

theorem arrayPattern (hG : G.IsGated) : Gated (arrayPattern G) := by
  refine .bind .startOffset fun start => .bind (.expect "[") fun _ => ?_
  exact .bind (.iterate hG.arrayPatternTurn _) fun elements =>
    .bind (.expect "]") fun _ => .finish _ _ _

theorem patternProperty (hG : G.IsGated) : Gated (patternProperty G) := by
  refine .bind .startOffset fun start => .get_bind fun cursor _ => .bind hG.propertyKey ?_
  rintro ⟨key, computed⟩
  refine .bind (.eat ":") fun _ => .ite ?_ (.ite ?_ .unexpected)
  · exact .bind hG.bindingElement fun value => gated_propertyNode _ _ _ _ _ _ _
  · refine .bind (gated_cloneIdentifier key) fun name => .bind (.eat "=") fun _ => .ite ?_ ?_
    · refine .bind hG.assignment.allowIn fun value => ?_
      refine .bind (gated_withDefault start name value) fun value => ?_
      exact gated_propertyNode _ _ _ _ _ _ _
    · exact gated_propertyNode _ _ _ _ _ _ _

theorem objectPatternTurn (hG : G.IsGated) (seen : List Node) :
    Gated (objectPatternTurn G seen) := by
  refine .get_bind fun cursor _ => ?_
  refine .ite (.pure _) (.get_bind fun cursor _ => .ite ?_ ?_)
  · refine .bind gated_objectRest fun rest => .get_bind fun cursor _ => ?_
    exact .ensure_two .startOffset (fun _ => .fault _ _) (.pure _)
  · refine .bind hG.patternProperty fun property => .get_bind fun cursor _ => ?_
    exact .ensure (.expect ",") (.pure _)

theorem objectPattern (hG : G.IsGated) : Gated (objectPattern G) := by
  refine .bind .startOffset fun start => .bind (.expect "\x7b") fun _ => ?_
  exact .bind (.iterate hG.objectPatternTurn _) fun properties =>
    .bind (.expect "\x7d") fun _ => .finish _ _ _

theorem bindingTargetBody (hG : G.IsGated) : Gated (bindingTargetBody G) := by
  refine .get_bind fun cursor _ => .ite ?_ (.ite ?_ .identifier)
  · exact .bind .startOffset fun _ => .bind (.require _ _) fun _ => hG.arrayPattern
  · exact .bind .startOffset fun _ => .bind (.require _ _) fun _ => hG.objectPattern

theorem paramsTurn (hG : G.IsGated) (seen : List Node) : Gated (paramsTurn G seen) := by
  refine .get_bind fun cursor _ => ?_
  refine .ite (.pure _) (.get_bind fun cursor _ => .ite ?_ ?_)
  · refine .bind hG.restElement fun rest => .get_bind fun cursor _ => ?_
    exact .ensure_two .startOffset (fun _ => .fault _ _) (.pure _)
  · refine .bind hG.bindingElement fun param => .bind (.eat ",") fun _ => .ite ?_ (.pure _)
    exact .get_bind fun cursor _ => .optional_two .startOffset (fun _ => .require _ _) (.pure _)

theorem params (hG : G.IsGated) : Gated (params G) :=
  .bind (.expect "(") fun _ => .bind (.iterate hG.paramsTurn _) fun params =>
    .bind (.expect ")") fun _ => .pure params

theorem paramsAndBody (hG : G.IsGated) (isAsync isGenerator : Bool) :
    Gated (paramsAndBody G isAsync isGenerator) :=
  .inFunction (.bind hG.params fun _ => .bind hG.block fun _ => .pure _)

theorem function (hG : G.IsGated) (start : Nat) (isAsync : Bool) (role : Role) :
    Gated (function G start isAsync role) := by
  refine .bind (.expect "function") fun _ => .get_bind fun cursor _ => ?_
  refine .optional_three .startOffset (fun _ => .require _ _) (fun _ => .bump) ?_
  refine .bind (gated_nameFor role) fun name => .bind (hG.paramsAndBody isAsync _) ?_
  rintro ⟨params, body⟩
  exact .finish _ _ _

theorem methodFunction (hG : G.IsGated) (isAsync isGenerator : Bool) :
    Gated (methodFunction G isAsync isGenerator) :=
  .bind .startOffset fun _ =>
    .bind (hG.paramsAndBody isAsync isGenerator) fun _ => .finish _ _ _

theorem methodDefinition (hG : G.IsGated) : Gated (methodDefinition G) := by
  refine .bind .startOffset fun start => .get_bind fun cursor _ => ?_
  refine .optional .bump (.get_bind fun cursor _ => ?_)
  refine .optional_three .startOffset (fun _ => .require _ _) (fun _ => .bump) ?_
  refine .bind (.eat "*") fun isGenerator => .either (gated_accessor _) (.pure _) fun word => ?_
  refine .bind hG.propertyKey ?_
  rintro ⟨key, computed⟩
  refine .get_bind fun cursor _ => .ensure .unexpected ?_
  exact .bind (hG.methodFunction _ _) fun value => .finish _ _ _

theorem classBody (hG : G.IsGated) : Gated (classBody G) := by
  refine .bind .startOffset fun start => .bind (.expect "\x7b") fun _ => ?_
  refine .bind (.iterate (fun seen => ?_) _) fun members => .bind .bump fun _ => .finish _ _ _
  refine .get_bind fun cursor _ => .ite (.pure _) (.ite .unexpected ?_)
  refine .bind (.eat ";") fun _ => .ite (.pure _) ?_
  exact .bind hG.methodDefinition fun _ => .pure _

theorem classOf (hG : G.IsGated) (role : Role) : Gated (classOf G role) := by
  refine .bind .startOffset fun start => .bind (.require _ _) fun _ => ?_
  refine .bind (.expect "class") fun _ => .bind (gated_nameFor role) fun name => ?_
  refine .bind (.eat "extends") fun _ => .either hG.leftHandSide.map (.pure _) fun superClass => ?_
  exact .bind hG.classBody fun body => .finish _ _ _

theorem spreadElement (hG : G.IsGated) : Gated (spreadElement G) := by
  refine .bind .startOffset fun start => .bind (.require _ _) fun _ => ?_
  refine .bind (.expect "...") fun _ => .bind hG.assignment.allowIn fun argument => .finish _ _ _

theorem argumentsTurn (hG : G.IsGated) (seen : List Node) : Gated (argumentsTurn G seen) := by
  refine .get_bind fun cursor _ => .ite (.pure _) (.get_bind fun cursor _ => ?_)
  refine .either hG.spreadElement hG.assignment.allowIn fun argument => ?_
  refine .bind (.eat ",") fun _ => .ite ?_ (.pure _)
  exact .get_bind fun cursor _ => .optional_two .startOffset (fun _ => .require _ _) (.pure _)

theorem arguments (hG : G.IsGated) : Gated (arguments G) :=
  .bind (.expect "(") fun _ => .bind (.iterate hG.argumentsTurn _) fun arguments =>
    .bind (.expect ")") fun _ => .pure arguments

theorem arrayTurn (hG : G.IsGated) (seen : List (Option Node)) : Gated (arrayTurn G seen) := by
  refine .get_bind fun cursor _ => ?_
  refine .ite (.pure _) (.bind (.eat ",") fun _ => .ite (.pure _) (.get_bind fun cursor _ => ?_))
  refine .either hG.spreadElement hG.assignment.allowIn fun element => ?_
  exact .get_bind fun cursor _ => .ensure (.expect ",") (.pure _)

theorem arrayLiteral (hG : G.IsGated) : Gated (arrayLiteral G) := by
  refine .bind .startOffset fun start => .bind (.expect "[") fun _ => ?_
  exact .bind (.iterate hG.arrayTurn _) fun elements =>
    .bind (.expect "]") fun _ => .finish _ _ _

theorem shorthandDefault (hG : G.IsGated) (start : Nat) (name : Node) :
    Gated (shorthandDefault G start name) := by
  refine .bind .startOffset fun offset => .bind (.modify fun _ hFree => hFree) fun _ => ?_
  exact .bind .bump fun _ => .bind hG.assignment.allowIn fun value =>
    gated_withDefault start name value

theorem property (hG : G.IsGated) : Gated (property G) := by
  refine .bind .startOffset fun start => .get_bind fun cursor _ => ?_
  refine .optional_two (.require _ _) (fun _ => .bump) (.get_bind fun cursor _ => ?_)
  refine .optional_three .startOffset (fun _ => .require _ _) (fun _ => .bump) ?_
  refine .either (gated_accessor _) (.pure _) fun word => .get_bind fun cursor _ => ?_
  refine .bind hG.propertyKey ?_
  rintro ⟨key, computed⟩
  cases word with
  | some word => exact .bind (hG.methodFunction _ _) fun value => gated_propertyNode _ _ _ _ _ _ _
  | none =>
      refine .get_bind fun cursor _ => .ite ?_ (.bind (.eat ":") fun _ => .ite ?_ (.ite ?_ ?_))
      · refine .bind (.require _ _) fun _ => .bind (hG.methodFunction _ _) fun value => ?_
        exact gated_propertyNode _ _ _ _ _ _ _
      · exact .bind hG.assignment.allowIn fun value => gated_propertyNode _ _ _ _ _ _ _
      · refine .bind (.require _ _) fun _ => .bind (gated_cloneIdentifier key) fun name => ?_
        refine .either (hG.shorthandDefault start name) (.pure name) fun value => ?_
        exact gated_propertyNode _ _ _ _ _ _ _
      · exact .unexpected

theorem objectTurn (hG : G.IsGated) (seen : List Node) : Gated (objectTurn G seen) := by
  refine .get_bind fun cursor _ => .ite (.pure _) (.get_bind fun cursor _ => ?_)
  refine .either_three .startOffset (fun _ => .require _ _) (fun _ => hG.spreadElement) hG.property
    fun member => ?_
  exact .get_bind fun cursor _ => .ensure (.expect ",") (.pure _)

theorem objectLiteral (hG : G.IsGated) : Gated (objectLiteral G) := by
  refine .bind .startOffset fun start => .bind (.expect "\x7b") fun _ => ?_
  exact .bind (.iterate hG.objectTurn _) fun properties =>
    .bind (.expect "\x7d") fun _ => .finish _ _ _

theorem primary (hG : G.IsGated) : Gated (primary G) := by
  refine .get_bind fun cursor _ => ?_
  cases cursor.current? with
  | none => exact .unexpected
  | some token =>
      dsimp only
      have hLiteral : ∀ value : FieldValue, Gated (do bump; literal token value) := fun value =>
        .bind .bump fun _ => gated_literal token value
      cases token.kind with
      | identifier =>
          refine .ite (.bind (.require _ _) fun _ => .bind .bump fun _ => ?_) .identifier
          exact hG.function _ _ _
      | keyword =>
          refine .ite (.bind .bump fun _ => .store _ _ _) ?_
          refine .ite (.bind .bump fun _ => .store _ _ _) ?_
          exact .ite (hG.function _ _ _) (.ite (hG.classOf _) .unexpected)
      | boolean => exact hLiteral _
      | null => exact hLiteral _
      | numeric => exact gated_numericLiteral token
      | string => exact hLiteral _
      | regularExpression => exact .bind .bump fun _ => .store _ _ _
      | template => exact .ite hG.template .unexpected
      | punctuator =>
          refine .ite ?_ (.ite hG.arrayLiteral (.ite hG.objectLiteral .unexpected))
          exact .bind .bump fun _ => .bind hG.expression.allowIn fun inner =>
            .bind (.expect ")") fun _ => .pure inner

theorem computedMember (hG : G.IsGated) (start : Nat) (object : Node) (isOptional : Bool) :
    Gated (computedMember G start object isOptional) :=
  .bind (.expect "[") fun _ => .bind hG.expression.allowIn fun property =>
    .bind (.expect "]") fun _ => gated_memberNode start object property true isOptional

theorem call (hG : G.IsGated) (start : Nat) (callee : Node) (isOptional : Bool) :
    Gated (call G start callee isOptional) :=
  .bind hG.arguments fun _ => .finish _ _ _

theorem taggedTemplate (hG : G.IsGated) (start : Nat) (tag : Node) :
    Gated (taggedTemplate G start tag) :=
  .bind hG.template fun _ => .finish _ _ _

theorem operandTurn (hG : G.IsGated) (start : Nat) (state : Node × Bool) :
    Gated (operandTurn G start state) := by
  obtain ⟨operand, chained⟩ := state
  refine .bind (.eat ".") fun _ => .ite ?_ (.get_bind fun cursor _ => .ite ?_ ?_)
  · exact .bind (gated_dotMember start operand false) fun _ => .pure _
  · refine .bind .startOffset fun _ => .bind (.require _ _) fun _ => .bind .bump fun _ => ?_
    refine .get_bind fun cursor _ => .ite ?_ (.either ?_ ?_ fun _ => .pure _)
    · exact .bind (hG.call start operand true) fun _ => .pure _
    · exact hG.computedMember start operand true
    · exact gated_dotMember start operand true
  refine .get_bind fun cursor _ => .ite ?_ (.get_bind fun cursor _ => .ite ?_ ?_)
  · exact .bind (hG.computedMember start operand false) fun _ => .pure _
  · exact .bind (hG.call start operand false) fun _ => .pure _
  refine .get_bind fun cursor _ => .ite (.ite ?_ ?_) (.pure _)
  · exact .bind .startOffset fun _ => .fault _ _
  · exact .bind (hG.taggedTemplate start operand) fun _ => .pure _

theorem leftHandSideBody (hG : G.IsGated) : Gated (leftHandSideBody G) := by
  refine .bind .startOffset fun start => .get_bind fun cursor _ => ?_
  refine .either hG.newExpression hG.primary fun operand => ?_
  refine .bind (.iterate (hG.operandTurn start) _) ?_
  rintro ⟨operand, chained⟩
  exact .ite (.finish _ _ _) (.pure _)

theorem calleeTurn (hG : G.IsGated) (start : Nat) (callee : Node) :
    Gated (calleeTurn G start callee) := by
  refine .bind (.eat ".") fun _ => .ite ?_ (.get_bind fun cursor _ => .ite ?_ ?_)
  · exact .bind (gated_dotMember start callee false) fun _ => .pure _
  · exact .bind (hG.computedMember start callee false) fun _ => .pure _
  refine .get_bind fun cursor _ => .ite ?_ (.get_bind fun cursor _ => .ite ?_ (.pure _))
  · exact .bind (hG.taggedTemplate start callee) fun _ => .pure _
  · exact .bind .startOffset fun _ => .fault _ _

theorem newExpressionBody (hG : G.IsGated) : Gated (newExpressionBody G) := by
  refine .bind .startOffset fun start => .get_bind fun cursor _ => .bind (.expect "new") fun _ => ?_
  refine .bind (.eat ".") fun _ => .ite (gated_newTarget _ _) ?_
  refine .bind .startOffset fun calleeStart => .get_bind fun cursor _ => ?_
  refine .either hG.newExpression hG.primary fun callee => ?_
  refine .bind (.iterate (hG.calleeTurn calleeStart) _) fun callee => .get_bind fun cursor _ => ?_
  exact .either hG.arguments (.pure _) fun arguments => .finish _ _ _

end IsGated
end Grammar

end EcmaLint
