import EcmaLint.Grammar.Pattern
import EcmaLint.Proofs.Progress.Steps

/-! How far the parts of the grammar get that others are made of: lists of expressions, blocks,
literals, templates and patterns. A production that starts with a token comes back to the grammar
behind it, so it proceeds with one token more than the grammar does. A turn of a loop that asks
for another one takes a token, also where the loop would go on at the end of the program. -/
namespace EcmaLint

open Production Node

/-- The parts of a program that the grammar comes back to. -/
inductive Symbol where
  | statement
  | assignment
  | binary (minimum : Nat)
  | unary
  | leftHandSide
  | newExpression
  | bindingTarget

namespace Grammar

/-- What a grammar reads a part with. -/
def read {m : Type → Type} (G : Grammar m) : Symbol → m Node
  | .statement => G.statement
  | .assignment => G.assignment
  | .binary minimum => G.binary minimum
  | .unary => G.unary
  | .leftHandSide => G.leftHandSide
  | .newExpression => G.newExpression
  | .bindingTarget => G.bindingTarget

/-- A grammar of productions and one of parsers read every part in the same way wherever fewer
tokens than a limit are left. -/
def Alike (place : Nat → Prop) (limit : Nat) (G : Grammar Production) (H : Grammar Parser) :
    Prop :=
  ∀ symbol, ProceedsNode place limit (G.read symbol) (H.read symbol)

variable {place : Nat → Prop} {limit : Nat} {G : Grammar Production} {H : Grammar Parser}
  {context : Context} {origin cursor : Cursor} {start : Nat}

theorem rounds_expressionTurn (hAssignment : ProceedsNode place limit G.assignment H.assignment) :
    Rounds place limit false (expressionTurn G) (expressionTurn H) (fun seen => seen)
      fun seen => seen := by
  intro seen context cursor hLies hLeft hSeen
  refine .eat_ite (Advances.refl hLies hLeft hSeen) (fun later h => ?_) fun later h => .pure h
  exact hAssignment.bindAfter h h.here fun _ _ h => .pure h

theorem proceeds_expression (hAssignment : ProceedsNode place limit G.assignment H.assignment) :
    ProceedsNode place limit G.expression H.expression := by
  intro context cursor hLies hLeft
  have h := Advances.refl hLies hLeft Starts.nil
  refine .startOffset_bind hLies fun start hStart => ?_
  refine hAssignment.bindAfter h h.here fun first later h => ?_
  refine .get_bind (.ite (fun _ => ?_) fun _ => .pure h)
  refine ((rounds_expressionTurn hAssignment).iterate [first] h.starts).bindAfter h h.here
    fun expressions later h => ?_
  exact .finish h hStart (by simp +contextual)

namespace Alike

theorem expression (hG : Alike place limit G H) :
    ProceedsNode place limit G.expression H.expression :=
  proceeds_expression (hG .assignment)

theorem parenthesized (hG : Alike place limit G H) :
    ProceedsNode place (limit + 1) G.parenthesized H.parenthesized := by
  intro context cursor hLies hLeft
  have h := Advances.refl hLies hLeft Starts.nil
  refine (proceeds_expect "(").skipAfter h h.here fun _ later h => ?_
  refine hG.expression.allowIn.bindAfter h h.past fun inner later h => ?_
  exact (proceeds_expect ")").skipAfter h h.here fun _ _ h => .pure h

theorem blockTurn (hG : Alike place limit G H) :
    Rounds place limit false (blockTurn G) (blockTurn H) (fun seen => seen) fun seen => seen := by
  intro seen context cursor hLies hLeft hSeen
  have h := Advances.refl hLies hLeft hSeen
  refine .get_bind (.ite (fun _ => .pure h) fun _ => .ite (fun _ => .unexpected hLies) fun _ => ?_)
  exact (hG .statement).bindAfter h h.here fun _ _ h => .pure h

theorem block (hG : Alike place limit G H) :
    ProceedsNode place (limit + 1) G.block H.block := by
  intro context cursor hLies hLeft
  have h := Advances.refl hLies hLeft Starts.nil
  refine .startOffset_bind hLies fun start hStart => ?_
  refine (proceeds_expect "\x7b").skipAfter h h.here fun _ later h => ?_
  refine (hG.blockTurn.iterate [] Starts.nil).bindAfter h h.past fun body later h => ?_
  refine proceeds_bump.skipAfter h h.here fun _ later h => ?_
  exact .finish h hStart (by simp)

end Alike

theorem proceeds_literal {token : Token} {value : FieldValue} (hStart : place token.span.start)
    (hValue : value.filled = []) :
    Proceeds place limit (fun _ => false) (literal token value) (literal token value)
      fun node => [node] :=
  proceeds_store hStart (by simp [hValue, Starts.nil])

/-- Moving past a token and making a literal of it. -/
theorem follows_literal {token : Token} {value : FieldValue}
    (hLies : cursor.LiesIn place context.size) (hLeft : cursor.rest.length < limit)
    (hToken : cursor.current? = some token) (hValue : value.filled = []) :
    Follows place (do bump; literal token value) (do bump; literal token value) context cursor
      fun node later => Advances place context.size limit true cursor [node] later :=
  .bump_store hLies hLeft hToken (by simp [hValue])

theorem follows_numericLiteral {token : Token} (hLies : cursor.LiesIn place context.size)
    (hLeft : cursor.rest.length < limit) (hToken : cursor.current? = some token) :
    Follows place (numericLiteral token) (numericLiteral token) context cursor
      fun node later => Advances place context.size limit true cursor [node] later := by
  have hStart := (hLies.current hToken).1
  have h := Advances.refl hLies hLeft Starts.nil
  refine (Follows.bump_of_current hToken h).bind fun _ later h => ?_
  refine .ite (fun _ => .require_bind hStart ?_) fun _ => ?_
  · exact (proceeds_store hStart (by simp [Starts.nil])).after h h.here
  · exact (proceeds_literal hStart rfl).after h h.here

namespace Alike

theorem templateTurn (hG : Alike place limit G H) :
    Rounds place (limit + 1) true (templateTurn G) (templateTurn H)
      (fun parts => parts.1 ++ parts.2) fun parts => parts.1 ++ parts.2 := by
  rintro ⟨quasis, expressions⟩ context cursor hLies hLeft hSeen
  refine .get_bind ?_
  cases hToken : cursor.current? with
  | none => exact .unexpected hLies
  | some token =>
      refine .ite (fun _ => .unexpected hLies) fun _ => ?_
      have h := Advances.refl hLies hLeft hSeen
      refine (Follows.bump_of_current hToken h).bind fun _ later h => ?_
      have hElement : Proceeds place (limit + 1) (fun _ => false) (templateElement token)
          (templateElement token) fun node => [node] :=
        proceeds_store (hLies.current hToken).1 (by simp [Starts.nil])
      refine hElement.bindAfter h h.here fun quasi later h => ?_
      refine .ite (fun _ => .pure (h.subset (by grind))) fun _ => ?_
      refine hG.expression.allowIn.bindAfter h h.past fun inner later h => .get_bind ?_
      refine .ensure (fun _ => h) (fun _ => .unexpected h.liesIn) fun later h => ?_
      exact .pure (h.subset (by grind))

theorem template (hG : Alike place limit G H) :
    ProceedsNode place (limit + 1) (template G) (template H) := by
  intro context cursor hLies hLeft
  have h := Advances.refl hLies hLeft Starts.nil
  refine .startOffset_bind hLies fun start hStart => .require_bind hStart ?_
  refine (hG.templateTurn.iterate ([], []) Starts.nil).bindAfter h h.here ?_
  rintro ⟨quasis, expressions⟩ later h
  exact .finish h hStart (by simp)

theorem propertyKey (hG : Alike place limit G H) :
    Proceeds place (limit + 1) (fun _ => true) (propertyKey G) (propertyKey H)
      fun key => [key.1] := by
  intro context cursor hLies hLeft
  refine .get_bind ?_
  cases hToken : cursor.current? with
  | none => exact .unexpected hLies
  | some token =>
      have h := Advances.refl hLies hLeft Starts.nil
      have hStart := (hLies.current hToken).1
      dsimp only
      split
      · refine (Follows.bump_of_current hToken h).bind fun _ later h => ?_
        exact (proceeds_literal hStart rfl).bindAfter h h.here fun _ _ h => .pure h
      · refine (Follows.bump_of_current hToken h).bind fun _ later h => ?_
        exact (proceeds_literal hStart rfl).bindAfter h h.here fun _ _ h => .pure h
      · refine .ite (fun _ => .require_bind hStart ?_) fun _ => ?_
        · refine (Follows.bump_of_current hToken h).bind fun _ later h => ?_
          refine (hG .assignment).allowIn.bindAfter h h.past fun key later h => ?_
          exact (proceeds_expect "]").skipAfter h h.here fun _ _ h => .pure h
        · exact proceedsNode_identifierName.bindAfter h h.here fun _ _ h => .pure h

theorem bindingElement (hG : Alike place limit G H) :
    ProceedsNode place limit (bindingElement G) (bindingElement H) := by
  intro context cursor hLies hLeft
  have h := Advances.refl hLies hLeft Starts.nil
  refine .startOffset_bind hLies fun start hStart => ?_
  refine (hG .bindingTarget).bindAfter h h.here fun target later h => ?_
  refine .get_bind (.ite (fun _ => ?_) fun _ => .pure h)
  refine .startOffset_bind h.liesIn fun _ hHere => .require_bind hHere ?_
  refine proceeds_bump.skipAfter h h.here fun _ later h => ?_
  refine (hG .assignment).allowIn.bindAfter h h.here fun value later h => ?_
  exact .finish h hStart (by simp)

theorem restElement (hG : Alike place limit G H) :
    ProceedsNode place (limit + 1) (restElement G) (restElement H) := by
  intro context cursor hLies hLeft
  have h := Advances.refl hLies hLeft Starts.nil
  refine .startOffset_bind hLies fun start hStart => .require_bind hStart ?_
  refine (proceeds_expect "...").skipAfter h h.here fun _ later h => ?_
  refine (hG .bindingTarget).bindAfter h h.past fun argument later h => ?_
  exact .finish h hStart (by simp)

theorem arrayPatternTurn (hG : Alike place limit G H) :
    Rounds place limit false (arrayPatternTurn G) (arrayPatternTurn H)
      (fun slots => slots.filterMap id) fun slots => slots.filterMap id := by
  intro seen context cursor hLies hLeft hSeen
  have h := Advances.refl hLies hLeft hSeen
  refine .get_bind (.ite (fun _ => .pure h) fun _ => ?_)
  refine .eat_ite h (fun later h => .pure (h.subset (by simp))) fun later h => ?_
  refine .get_bind (.ite (fun _ => ?_) fun _ => ?_)
  · refine hG.restElement.bindAfter h h.ahead fun rest later h => .get_bind ?_
    refine .ensure_two (fun _ => h) (fun _ => .faultHere h.liesIn) fun later h => ?_
    exact .pure (h.weaken.subset (by simp))
  · refine hG.bindingElement.bindAfter h h.here fun element later h => .get_bind ?_
    refine .ensure (fun _ => h) (fun _ => (proceeds_expect ",").passAfter h h.here)
      fun later h => ?_
    exact .pure (h.subset (by simp))

theorem arrayPattern (hG : Alike place limit G H) :
    ProceedsNode place (limit + 1) (arrayPattern G) (arrayPattern H) := by
  intro context cursor hLies hLeft
  have h := Advances.refl hLies hLeft Starts.nil
  refine .startOffset_bind hLies fun start hStart => ?_
  refine (proceeds_expect "[").skipAfter h h.here fun _ later h => ?_
  refine (hG.arrayPatternTurn.iterate [] Starts.nil).bindAfter h h.past fun elements later h => ?_
  refine (proceeds_expect "]").skipAfter h h.here fun _ later h => ?_
  exact .finish h hStart (by simp)

end Alike

theorem proceeds_withDefault {target value : Node} (hStart : place start)
    (hParts : Starts place [target, value]) :
    Proceeds place limit (fun _ => false) (withDefault start target value)
      (withDefault start target value) fun node => [node] :=
  proceeds_finish hStart (hParts.subset (by simp))

/-- Making a property of a name and a value that were read since the origin. -/
theorem follows_propertyNode {moved : Bool} {read : List Node} {key value : Node} {kind : String}
    {isMethod shorthand computed : Bool}
    (h : Advances place context.size limit moved origin read cursor) (hStart : place start)
    (hKey : key ∈ read) (hValue : value ∈ read) :
    Follows place (propertyNode start key value kind isMethod shorthand computed)
      (propertyNode start key value kind isMethod shorthand computed) context cursor
      fun node later => Advances place context.size limit moved origin [node] later :=
  .finish h hStart (by simp [hKey, hValue])

theorem proceeds_cloneIdentifier {name : Node} (h : Starts place [name]) :
    Proceeds place limit (fun _ => false) (cloneIdentifier name) (cloneIdentifier name)
      fun node => [node] :=
  proceeds_store (h.start List.mem_cons_self) (children_eq_filledIn name ▸ h.children)

namespace Alike

theorem patternProperty (hG : Alike place limit G H) :
    ProceedsNode place (limit + 1) (patternProperty G) (patternProperty H) := by
  intro context cursor hLies hLeft
  have h := Advances.refl hLies hLeft Starts.nil
  refine .startOffset_bind hLies fun start hStart => .get_bind ?_
  refine hG.propertyKey.bindAfter h h.here ?_
  rintro ⟨key, computed⟩ later h
  refine .eat_ite h (fun later h => ?_) fun later h => ?_
  · refine hG.bindingElement.bindAfter h h.past fun value later h => ?_
    exact follows_propertyNode h hStart (by simp) (by simp)
  refine .ite (fun _ => ?_) fun _ => .unexpected h.liesIn
  refine (proceeds_cloneIdentifier h.starts).bindAfter h h.here fun name later h => ?_
  refine .eat_ite h (fun later h => ?_) fun later h => ?_
  · refine (hG .assignment).allowIn.bindAfter h h.past fun value later h => ?_
    have hParts : Starts place [name, value] := h.starts.subset (by simp)
    refine (proceeds_withDefault hStart hParts).bindAfter h h.here fun value later h => ?_
    exact follows_propertyNode h hStart (by simp) (by simp)
  · exact follows_propertyNode h hStart (by simp) (by simp)

end Alike

theorem proceedsNode_objectRest : ProceedsNode place limit objectRest objectRest := by
  intro context cursor hLies hLeft
  have h := Advances.refl hLies hLeft Starts.nil
  refine .startOffset_bind hLies fun start hStart => .require_bind hStart ?_
  refine proceeds_bump.skipAfter h h.here fun _ later h => ?_
  refine proceedsNode_identifier.bindAfter h h.here fun argument later h => ?_
  exact .finish h hStart (by simp)

namespace Alike

theorem objectPatternTurn (hG : Alike place limit G H) :
    Rounds place limit false (objectPatternTurn G) (objectPatternTurn H) (fun seen => seen)
      fun seen => seen := by
  intro seen context cursor hLies hLeft hSeen
  have h := Advances.refl hLies hLeft hSeen
  refine .get_bind (.ite (fun _ => .pure h) fun _ => .get_bind (.ite (fun _ => ?_) fun _ => ?_))
  · refine proceedsNode_objectRest.bindAfter h h.here fun rest later h => .get_bind ?_
    refine .ensure_two (fun _ => h) (fun _ => .faultHere h.liesIn) fun later h => ?_
    exact .pure h.weaken
  · refine hG.patternProperty.bindAfter h h.ahead fun property later h => .get_bind ?_
    refine .ensure (fun _ => h) (fun _ => (proceeds_expect ",").passAfter h h.here)
      fun later h => .pure h

theorem objectPattern (hG : Alike place limit G H) :
    ProceedsNode place (limit + 1) (objectPattern G) (objectPattern H) := by
  intro context cursor hLies hLeft
  have h := Advances.refl hLies hLeft Starts.nil
  refine .startOffset_bind hLies fun start hStart => ?_
  refine (proceeds_expect "\x7b").skipAfter h h.here fun _ later h => ?_
  refine (hG.objectPatternTurn.iterate [] Starts.nil).bindAfter h h.past
    fun properties later h => ?_
  refine (proceeds_expect "\x7d").skipAfter h h.here fun _ later h => ?_
  exact .finish h hStart (by simp)

theorem bindingTargetBody (hG : Alike place limit G H) :
    ProceedsNode place (limit + 1) (bindingTargetBody G) (bindingTargetBody H) := by
  intro context cursor hLies hLeft
  have h := Advances.refl hLies hLeft Starts.nil
  refine .get_bind (.ite (fun _ => ?_) fun _ => .ite (fun _ => ?_) fun _ => ?_)
  · refine .startOffset_bind hLies fun _ hStart => .require_bind hStart ?_
    exact hG.arrayPattern.after h h.here
  · refine .startOffset_bind hLies fun _ hStart => .require_bind hStart ?_
    exact hG.objectPattern.after h h.here
  · exact proceedsNode_identifier context cursor hLies hLeft

end Alike
end Grammar

end EcmaLint
