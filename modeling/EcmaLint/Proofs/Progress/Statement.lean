import EcmaLint.Grammar.Expression
import EcmaLint.Grammar.Statement
import EcmaLint.Proofs.Progress.Operand

/-! How far operations, arrow functions and assignments get. On the way from assignments down to
operands no token is taken, so these productions need the next one below them with as many tokens
left as they start with.

How far statements get. Where a statement is known by its first token, some of the productions
for it move past that token without looking. Most of them could not go on without one; the others
take a token where there is one. -/
namespace EcmaLint.Grammar

open Production Node

variable {place : Nat → Prop} {limit : Nat} {G : Grammar Production} {H : Grammar Parser}
  {context : Context} {origin cursor : Cursor} {read : List Node} {start : Nat} {moved : Bool}
  {token : Token}

theorem limit_pos (hToken : cursor.current? = some token) (hLeft : cursor.rest.length < limit + 1) :
    0 < limit := by
  cases hRest : cursor.rest with
  | nil => simp [Cursor.current?, hRest] at hToken
  | cons lexeme rest =>
      rw [hRest, List.length_cons] at hLeft
      omega

/-- Failing unless one of the nodes that were read is a reference. -/
theorem follows_requireSimpleTarget {node : Node}
    (h : Advances place context.size limit moved origin read cursor) (hNode : node ∈ read) :
    Follows place (requireSimpleTarget node) (requireSimpleTarget node) context cursor
      fun _ later => Advances place context.size limit moved origin read later :=
  .ite (fun _ => .pure h) fun _ => .throw (h.starts.start hNode)

theorem proceeds_checkPower (hStart : place start) (left : Node) :
    Proceeds place limit (fun _ => false) (checkPower start left) (checkPower start left)
      fun _ => [] := by
  intro context cursor hLies hLeft
  refine .startOffset_bind hLies fun _ hHere => .require_bind hHere ?_
  exact .ite (fun _ => .fault hStart) fun _ => .pure (Advances.refl hLies hLeft Starts.nil)

theorem follows_assignmentTarget {operator : String} {left : Node}
    (h : Advances place context.size limit moved origin [left] cursor) :
    Follows place (assignmentTarget operator left) (assignmentTarget operator left) context cursor
      fun target later => Advances place context.size limit moved origin [target] later := by
  refine .ite (fun _ => .toTarget h) fun _ => ?_
  refine .optional_two (fun _ => .requireHere h.liesIn h) (fun _ => h) fun later h => ?_
  refine .optional_two (fun _ => .requireHere h.liesIn h) (fun _ => h) fun later h => ?_
  exact (follows_requireSimpleTarget h List.mem_cons_self).bind fun _ _ h => .pure h

namespace Alike

theorem postfixUpdate (hLeftHandSide : ProceedsNode place limit G.leftHandSide H.leftHandSide)
    (hStart : place start) :
    ProceedsNode place limit (postfixUpdate G start) (postfixUpdate H start) := by
  intro context cursor hLies hLeft
  have h := Advances.refl hLies hLeft Starts.nil
  refine hLeftHandSide.bindAfter h h.here fun operand later h => .get_bind ?_
  refine proceeds_newlineBefore.skipAfter h h.here fun _ later h => ?_
  refine .ite (fun _ => ?_) fun _ => .pure h
  refine (follows_requireSimpleTarget h List.mem_cons_self).bind fun _ later h => ?_
  exact proceeds_bump.skipAfter h h.here fun _ later h => .finish h hStart (by simp)

theorem unaryBody (hG : Alike place limit G H)
    (hLeftHandSide : ProceedsNode place (limit + 1) G.leftHandSide H.leftHandSide) :
    ProceedsNode place (limit + 1) (unaryBody G) (unaryBody H) := by
  intro context cursor hLies hLeft
  refine .startOffset_bind hLies fun start hStart => .get_bind ?_
  have h := Advances.refl hLies hLeft Starts.nil
  cases hToken : cursor.current? with
  | none => exact .unexpected hLies
  | some token =>
      refine .ite (fun _ => ?_) fun _ => .ite (fun _ => ?_) fun _ => .read_bind ?_
      · refine (Follows.bump_of_current hToken h).bind fun _ later h => ?_
        refine (hG .unary).nested.bindAfter h h.past fun argument later h => ?_
        exact .finish h hStart (by simp)
      · refine (Follows.bump_of_current hToken h).bind fun _ later h => ?_
        refine (hG .unary).nested.bindAfter h h.past fun argument later h => ?_
        refine (follows_requireSimpleTarget h List.mem_cons_self).bind fun _ later h => ?_
        exact .finish h hStart (by simp)
      refine .ite (fun _ => .require_bind hStart ?_)
        fun _ => postfixUpdate hLeftHandSide hStart context cursor hLies hLeft
      refine (Follows.bump_of_current hToken h).bind fun _ later h => ?_
      refine (hG .unary).nested.bindAfter h h.past fun argument later h => ?_
      exact .finish h hStart (by simp)

theorem binaryTurn (hG : Alike place limit G H) (hStart : place start) (minimum : Nat) :
    Rounds place limit false (binaryTurn G start minimum) (binaryTurn H start minimum)
      (fun left => [left]) fun left => [left] := by
  intro left context cursor hLies hLeft hSeen
  have h := Advances.refl hLies hLeft hSeen
  refine .read_bind (.get_bind ?_)
  split
  · exact .pure h
  refine .ite (fun _ => .pure h) fun _ => ?_
  refine .optional (fun _ => (proceeds_checkPower hStart _).passAfter h h.here) (fun _ => h)
    fun later h => ?_
  refine .optional_two (fun _ => .requireHere h.liesIn h) (fun _ => h) fun later h => ?_
  refine proceeds_bump.skipAfter h h.here fun _ later h => ?_
  refine (hG (.binary _)).bindAfter h h.here fun right later h => ?_
  exact (Follows.finish h hStart (by simp)).bind fun _ _ h => .pure h

theorem binaryBody (hG : Alike place limit G H)
    (hUnary : ProceedsNode place (limit + 1) G.unary H.unary) (minimum : Nat) :
    ProceedsNode place (limit + 1) (binaryBody G minimum) (binaryBody H minimum) := by
  intro context cursor hLies hLeft
  have h := Advances.refl hLies hLeft Starts.nil
  refine .startOffset_bind hLies fun start hStart => ?_
  refine hUnary.bindAfter h h.here fun left later h => ?_
  exact ((hG.binaryTurn hStart minimum).iterate left h.starts).onlyAfter h h.past

theorem conditional (hG : Alike place limit G H)
    (hBinary : ProceedsNode place (limit + 1) (G.binary 0) (H.binary 0)) :
    ProceedsNode place (limit + 1) (conditional G) (conditional H) := by
  intro context cursor hLies hLeft
  have h := Advances.refl hLies hLeft Starts.nil
  refine .startOffset_bind hLies fun start hStart => ?_
  refine hBinary.bindAfter h h.here fun test later h => ?_
  refine .eat_ite h (fun later h => ?_) fun later h => .pure h
  refine (hG .assignment).allowIn.bindAfter h h.past fun consequent later h => ?_
  refine (proceeds_expect ":").skipAfter h h.here fun _ later h => ?_
  refine (hG .assignment).bindAfter h h.past fun alternate later h => ?_
  exact .finish h hStart (by simp)

theorem arrowBody (hG : Alike place limit G H) (isAsync : Bool) :
    Proceeds place limit (fun _ => true) (arrowBody G isAsync) (arrowBody H isAsync)
      fun body => [body.1] := by
  refine Proceeds.keepingIn fun context cursor hLies hLeft => ?_
  have h := Advances.refl hLies hLeft Starts.nil
  refine .get_bind (.ite (fun _ => ?_) fun _ => ?_)
  · exact hG.block.inFunction.bindAfter h h.ahead fun _ _ h => .pure h
  · exact (hG .assignment).within.bindAfter h h.here fun _ _ h => .pure h

theorem arrowFunction (hG : Alike place limit G H) (isAsync : Bool) :
    ProceedsNode place (limit + 1) (arrowFunction G isAsync) (arrowFunction H isAsync) := by
  intro context cursor hLies hLeft
  have h := Advances.refl hLies hLeft Starts.nil
  refine .startOffset_bind hLies fun start hStart => .require_bind hStart ?_
  refine .optional_two (fun _ => .require_bind hStart (proceeds_bump.passAfter h h.here))
    (fun _ => h) fun later h => .get_bind ?_
  have hSingle : Proceeds place (limit + 1) (fun _ => true)
      ((fun param => [param]) <$> identifier) ((fun param => [param]) <$> identifier)
      fun params => params := fun context cursor hLies hLeft =>
    .map (proceedsNode_identifier context cursor hLies hLeft)
  refine .either (fun _ => hG.params.inFunction.after h h.here)
    (fun _ => hSingle.after h h.here) fun params later h => ?_
  refine (proceeds_expect "=>").skipAfter h h.here fun _ later h => ?_
  refine (hG.arrowBody isAsync).bindAfter h h.past ?_
  rintro ⟨body, isExpression⟩ later h
  exact .finish h hStart (by simp [functionFields])

theorem yieldExpression (hG : Alike place limit G H) (hLimit : 0 < limit) :
    ProceedsIfLeft place (limit + 1) (yieldExpression G) (yieldExpression H)
      fun node => [node] := by
  intro context cursor hLies hLeft
  refine .startOffset_bind hLies fun start hStart => ?_
  refine .bump_bind_ifLeft hLies hLeft hLimit fun later hLies hLeft => ?_
  have h := Advances.refl hLies hLeft Starts.nil
  refine .get_bind ?_
  refine proceeds_newlineBefore.skipAfter h h.here fun _ later h => ?_
  refine .ite (fun _ => .finish h hStart (by simp)) fun _ => ?_
  refine (proceeds_eat "*").skipAfter h h.here fun _ later h => ?_
  refine (hG .assignment).bindAfter h h.here fun argument later h => ?_
  exact .finish h.weaken hStart (by simp)

theorem assignmentBody (hG : Alike place limit G H)
    (hBinary : ProceedsNode place (limit + 1) (G.binary 0) (H.binary 0)) :
    ProceedsNode place (limit + 1) (assignmentBody G) (assignmentBody H) := by
  intro context cursor hLies hLeft
  refine .get_bind (.read_bind (.ite (fun hYield => ?_) fun _ => ?_))
  · obtain ⟨token, hToken⟩ := Cursor.exists_current_of_atText (Bool.and_eq_true_iff.mp hYield).2
    exact (hG.yieldExpression (limit_pos hToken hLeft)).atToken hToken hLies hLeft
  split
  · exact hG.arrowFunction _ context cursor hLies hLeft
  refine .startOffset_bind hLies fun start hStart => ?_
  have h := Advances.refl hLies hLeft Starts.nil
  refine (hG.conditional hBinary).bindAfter h h.here fun left later h => .get_bind ?_
  split
  · exact .pure h
  refine (follows_assignmentTarget h).bind fun target later h => ?_
  refine proceeds_bump.skipAfter h h.here fun _ later h => ?_
  refine (hG .assignment).bindAfter h h.past fun right later h => ?_
  exact .finish h hStart (by simp)

end Alike

theorem proceeds_checkInitializer (isConst : Bool) (target : Node) :
    Proceeds place limit (fun _ => false) (checkInitializer isConst target)
      (checkInitializer isConst target) fun _ => [] := by
  intro context cursor hLies hLeft
  dsimp only [checkInitializer]
  refine .optional_two (fun _ => .faultHere hLies) (fun _ => Advances.refl hLies hLeft Starts.nil)
    fun later h => ?_
  exact .ite (fun _ => .faultHere h.liesIn) fun _ => .pure h

theorem proceeds_shortStatement (kind : NodeKind) (withSemicolon : Bool) (hLimit : 0 < limit) :
    ProceedsIfLeft place (limit + 1) (shortStatement kind withSemicolon)
      (shortStatement kind withSemicolon) fun node => [node] := by
  intro context cursor hLies hLeft
  refine .startOffset_bind hLies fun start hStart => ?_
  refine .bump_bind_ifLeft hLies hLeft hLimit fun later hLies hLeft => ?_
  have h := Advances.refl hLies hLeft Starts.nil
  refine .optional (fun _ => proceeds_semicolon.passAfter h h.here) (fun _ => h)
    fun later h => ?_
  exact .finish h hStart (by simp)

theorem proceeds_jumpStatement (kind : NodeKind) (hLimit : 0 < limit) :
    ProceedsIfLeft place (limit + 1) (jumpStatement kind) (jumpStatement kind)
      fun node => [node] := by
  intro context cursor hLies hLeft
  refine .startOffset_bind hLies fun start hStart => ?_
  refine .bump_bind_ifLeft hLies hLeft hLimit fun later hLies hLeft => ?_
  have h := Advances.refl hLies hLeft Starts.nil
  refine .get_bind ?_
  refine proceeds_newlineBefore.skipAfter h h.here fun _ later h => ?_
  refine .either (fun _ => proceedsNode_identifier.someAfter h h.here) (fun _ => .pure h.none)
    fun label later h => ?_
  refine proceeds_semicolon.skipAfter h h.here fun _ later h => ?_
  exact .finish h hStart (by simp)

namespace Alike

theorem declarator (hG : Alike place limit G H) (isConst inFor : Bool) :
    ProceedsNode place limit (declarator G isConst inFor) (declarator H isConst inFor) := by
  intro context cursor hLies hLeft
  have h := Advances.refl hLies hLeft Starts.nil
  refine .startOffset_bind hLies fun start hStart => ?_
  refine (hG .bindingTarget).bindAfter h h.here fun target later h => ?_
  refine (proceeds_eat "=").skipAfter h h.here fun _ later h => ?_
  refine .either (fun _ => (hG .assignment).someAfter h h.here) (fun _ => .pure h.none)
    fun init later h => ?_
  refine .optional (fun _ => (proceeds_checkInitializer _ _).passAfter h h.here) (fun _ => h)
    fun later h => ?_
  exact .finish h hStart (by simp)

theorem declaratorsTurn (hG : Alike place limit G H) (isConst inFor : Bool) :
    Rounds place limit true (declaratorsTurn G isConst inFor) (declaratorsTurn H isConst inFor)
      (fun seen => seen) fun seen => seen := by
  intro seen context cursor hLies hLeft hSeen
  have h := Advances.refl hLies hLeft hSeen
  refine (hG.declarator isConst inFor).bindAfter h h.here fun declaration later h => ?_
  exact .eat_ite h (fun later h => .pure h) fun later h => .pure h

theorem declarators (hG : Alike place limit G H) (inFor : Bool) (hLimit : 0 < limit) :
    Proceeds place (limit + 1) (fun _ => true) (declarators G inFor) (declarators H inFor)
      fun declarations => declarations := by
  intro context cursor hLies hLeft
  refine .get_bind (.bump_bind hLies hLeft hLimit fun later hLies hLeft => ?_)
  exact (hG.declaratorsTurn _ inFor).iterate [] Starts.nil context later hLies hLeft

theorem variableStatement (hG : Alike place limit G H) (kind : String) (hLimit : 0 < limit) :
    ProceedsNode place (limit + 1) (variableStatement G kind) (variableStatement H kind) := by
  intro context cursor hLies hLeft
  have h := Advances.refl hLies hLeft Starts.nil
  refine .startOffset_bind hLies fun start hStart => ?_
  refine (hG.declarators false hLimit).bindAfter h h.here fun declarations later h => ?_
  refine proceeds_semicolon.skipAfter h h.here fun _ later h => ?_
  exact .finish h hStart (by simp)

theorem expressionStatement
    (hAssignment : ProceedsNode place (limit + 1) G.assignment H.assignment) :
    ProceedsNode place (limit + 1) (expressionStatement G) (expressionStatement H) := by
  intro context cursor hLies hLeft
  have h := Advances.refl hLies hLeft Starts.nil
  refine .startOffset_bind hLies fun start hStart => ?_
  refine (proceeds_expression hAssignment).bindAfter h h.here fun expression later h => ?_
  refine proceeds_semicolon.skipAfter h h.here fun _ later h => ?_
  exact .finish h hStart (by simp)

theorem ifStatement (hG : Alike place limit G H) :
    ProceedsNode place (limit + 1) (ifStatement G) (ifStatement H) := by
  intro context cursor hLies hLeft
  have h := Advances.refl hLies hLeft Starts.nil
  refine .startOffset_bind hLies fun start hStart => ?_
  refine proceeds_bump.skipAfter h h.here fun _ later h => ?_
  refine hG.parenthesized.bindAfter h h.here fun test later h => ?_
  refine (hG .statement).bindAfter h h.past fun consequent later h => ?_
  refine (proceeds_eat "else").skipAfter h h.here fun _ later h => ?_
  refine .either (fun _ => (hG .statement).someAfter h h.past) (fun _ => .pure h.none)
    fun alternate later h => ?_
  exact .finish h hStart (by simp)

theorem forEach (hG : Alike place limit G H) {left : Node} {isAwait : Bool} (hStart : place start)
    (hTarget : Starts place [left]) :
    ProceedsNode place limit (forEach G start left isAwait) (forEach H start left isAwait) := by
  intro context cursor hLies hLeft
  have h := Advances.refl hLies hLeft hTarget
  refine .get_bind ?_
  dsimp only
  refine .optional_two_or (fun _ => .requireHere hLies h) (fun _ => .unexpected hLies)
    (fun _ => h) fun later h => ?_
  refine proceeds_bump.skipAfter h h.here fun _ later h => ?_
  refine .either (fun _ => (hG .assignment).allowIn.after h h.here)
    (fun _ => hG.expression.allowIn.after h h.here) fun right later h => ?_
  refine (proceeds_expect ")").skipAfter h h.here fun _ later h => ?_
  refine (hG .statement).bindAfter h h.here fun body later h => ?_
  exact .ite (fun _ => .finish h hStart (by simp)) fun _ => .finish h hStart (by simp)

theorem forClauses (hG : Alike place limit G H) (init : Option Node) {isAwait : Bool}
    (hStart : place start) (hInit : Starts place init.toList) :
    ProceedsNode place limit (forClauses G start init isAwait)
      (forClauses H start init isAwait) := by
  intro context cursor hLies hLeft
  have h := Advances.refl hLies hLeft hInit
  dsimp only [Grammar.forClauses]
  refine .optional (fun _ => .unexpected hLies) (fun _ => h) fun later h => ?_
  refine (proceeds_expect ";").skipAfter h h.here fun _ later h => .get_bind ?_
  refine .either (fun _ => .pure h.none) (fun _ => hG.expression.allowIn.someAfter h h.here)
    fun test later h => ?_
  refine (proceeds_expect ";").skipAfter h h.here fun _ later h => .get_bind ?_
  refine .either (fun _ => .pure h.none) (fun _ => hG.expression.allowIn.someAfter h h.here)
    fun update later h => ?_
  refine (proceeds_expect ")").skipAfter h h.here fun _ later h => ?_
  refine (hG .statement).bindAfter h h.here fun body later h => ?_
  exact .finish h hStart (by simp)

theorem forDeclaration (hG : Alike place limit G H) {isAwait : Bool} (hStart : place start) :
    ProceedsNode place limit (forDeclaration G start isAwait)
      (forDeclaration H start isAwait) := by
  intro context cursor hLies hLeft
  have hDeclarators := hG.declarators true (Nat.zero_lt_of_lt hLeft)
  have h := Advances.refl hLies hLeft Starts.nil
  refine .startOffset_bind hLies fun declarationStart hDeclarationStart => .get_bind ?_
  refine .optional (fun _ => .require hDeclarationStart h) (fun _ => h) fun later h => ?_
  refine hDeclarators.withoutIn.bindAfter h h.ahead fun declarations later h => ?_
  refine (Follows.finish h hDeclarationStart (by simp)).bind fun declaration later h => ?_
  refine .get_bind (.ite (fun _ => ?_) fun _ => ?_)
  · exact (hG.forEach hStart h.starts).onlyAfter h h.here
  · exact (hG.forClauses (some declaration) hStart h.starts).onlyAfter h h.here

theorem forStatement (hG : Alike place limit G H) :
    ProceedsNode place (limit + 1) (forStatement G) (forStatement H) := by
  intro context cursor hLies hLeft
  have h := Advances.refl hLies hLeft Starts.nil
  refine .startOffset_bind hLies fun start hStart => ?_
  refine proceeds_bump.skipAfter h h.here fun _ later h => .get_bind (.read_bind ?_)
  refine .optional_three (fun _ => .startOffset_bind h.liesIn fun _ hHere => ?_) (fun _ => h)
    fun later h => ?_
  · exact .require_bind hHere (proceeds_bump.passAfter h h.here)
  refine (proceeds_expect "(").skipAfter h h.here fun _ later h => .get_bind ?_
  refine .ite (fun _ => (hG.forClauses none hStart Starts.nil).onlyAfter h h.past)
    fun _ => .read_bind ?_
  refine .ite (fun _ => (hG.forDeclaration hStart).after h h.past) fun _ => ?_
  refine hG.expression.withoutIn.bindAfter h h.past fun expression later h => .get_bind ?_
  refine .ite (fun _ => ?_)
    fun _ => (hG.forClauses (some expression) hStart h.starts).onlyAfter h h.past
  refine (Follows.toTarget h).bind fun target later h => ?_
  exact (hG.forEach hStart h.starts).onlyAfter h h.past

theorem whileStatement (hG : Alike place limit G H) :
    ProceedsNode place (limit + 1) (whileStatement G) (whileStatement H) := by
  intro context cursor hLies hLeft
  have h := Advances.refl hLies hLeft Starts.nil
  refine .startOffset_bind hLies fun start hStart => ?_
  refine proceeds_bump.skipAfter h h.here fun _ later h => ?_
  refine hG.parenthesized.bindAfter h h.here fun test later h => ?_
  refine (hG .statement).bindAfter h h.past fun body later h => ?_
  exact .finish h hStart (by simp)

theorem doWhileStatement (hG : Alike place limit G H) (hLimit : 0 < limit) :
    ProceedsNode place (limit + 1) (doWhileStatement G) (doWhileStatement H) := by
  intro context cursor hLies hLeft
  refine .startOffset_bind hLies fun start hStart => ?_
  refine .bump_bind hLies hLeft hLimit fun later hLies hLeft => ?_
  have h := Advances.refl hLies hLeft Starts.nil
  refine (hG .statement).bindAfter h h.here fun body later h => ?_
  refine (proceeds_expect "while").skipAfter h h.here fun _ later h => ?_
  refine hG.parenthesized.bindAfter h h.ahead fun test later h => ?_
  refine (proceeds_eat ";").skipAfter h h.here fun _ later h => ?_
  exact .finish h hStart (by simp)

theorem returnStatement (hG : Alike place limit G H) (hLimit : 0 < limit) :
    ProceedsIfLeft place (limit + 1) (returnStatement G) (returnStatement H)
      fun node => [node] := by
  intro context cursor hLies hLeft
  refine .startOffset_bind hLies fun start hStart => ?_
  refine .bump_bind_ifLeft hLies hLeft hLimit fun later hLies hLeft => ?_
  have h := Advances.refl hLies hLeft Starts.nil
  refine proceeds_atStatementEnd.skipAfter h h.here fun _ later h => ?_
  refine .either (fun _ => .pure h.none) (fun _ => hG.expression.someAfter h h.here)
    fun argument later h => ?_
  refine proceeds_semicolon.skipAfter h h.here fun _ later h => ?_
  exact .finish h hStart (by simp)

theorem throwStatement (hG : Alike place limit G H) (hLimit : 0 < limit) :
    ProceedsNode place (limit + 1) (throwStatement G) (throwStatement H) := by
  intro context cursor hLies hLeft
  refine .startOffset_bind hLies fun start hStart => ?_
  refine .bump_bind hLies hLeft hLimit fun later hLies hLeft => ?_
  have h := Advances.refl hLies hLeft Starts.nil
  refine proceeds_newlineBefore.skipAfter h h.here fun _ later h => ?_
  refine .optional_two (fun _ => .get_bind (.fault h.liesIn.previousEnd)) (fun _ => h)
    fun later h => ?_
  refine hG.expression.bindAfter h h.here fun argument later h => ?_
  refine proceeds_semicolon.skipAfter h h.here fun _ later h => ?_
  exact .finish h hStart (by simp)

theorem catchClause (hG : Alike place limit G H) :
    ProceedsNode place limit (catchClause G) (catchClause H) := by
  intro context cursor hLies hLeft
  have h := Advances.refl hLies hLeft Starts.nil
  refine .startOffset_bind hLies fun start hStart => ?_
  refine proceeds_bump.skipAfter h h.here fun _ later h => ?_
  refine (proceeds_eat "(").skipAfter h h.here fun _ later h => ?_
  refine .either_threes (fun _ => ?_) (fun _ => .startOffset_bind h.liesIn fun _ hHere => ?_)
    fun param later
      (h : Advances place context.size limit false cursor param.toList later) => ?_
  · refine (hG .bindingTarget).bindAfter h h.here fun param later h => ?_
    exact (proceeds_expect ")").skipAfter h h.here fun _ later h => .pure h.weaken
  · exact .require_bind hHere (.pure h.weaken)
  refine hG.block.bindAfter h h.ahead fun body later h => ?_
  exact .finish h hStart (by simp)

theorem tryStatement (hG : Alike place limit G H) :
    ProceedsNode place (limit + 1) (tryStatement G) (tryStatement H) := by
  intro context cursor hLies hLeft
  have h := Advances.refl hLies hLeft Starts.nil
  refine .startOffset_bind hLies fun start hStart => ?_
  refine proceeds_bump.skipAfter h h.here fun _ later h => ?_
  refine hG.block.bindAfter h h.here fun block later h => .get_bind ?_
  refine .either (fun _ => hG.catchClause.someAfter h h.past) (fun _ => .pure h.none)
    fun handler later h => ?_
  refine (proceeds_eat "finally").skipAfter h h.here fun _ later h => ?_
  refine .either (fun _ => hG.block.someAfter h h.here) (fun _ => .pure h.none)
    fun finalizer later h => ?_
  refine .optional_two (fun _ => .faultHere h.liesIn) (fun _ => h) fun later h => ?_
  exact .finish h hStart (by simp)

theorem caseHead (hG : Alike place limit G H) (seenDefault : Bool) :
    Proceeds place limit (fun _ => false) (caseHead G seenDefault) (caseHead H seenDefault)
      fun head => head.1.toList := by
  intro context cursor hLies hLeft
  have h := Advances.refl hLies hLeft Starts.nil
  refine .eat_ite h (fun later h => ?_) fun later h =>
    .get_bind (.ite (fun _ => ?_) fun _ => .unexpected h.liesIn)
  · exact hG.expression.allowIn.bindAfter h h.here fun _ _ h => .pure h.weaken
  refine .optional_two (fun _ => .faultHere h.liesIn) (fun _ => h) fun later h => ?_
  exact proceeds_bump.skipAfter h h.here fun _ _ h => .pure h

theorem caseTurn (hG : Alike place limit G H) :
    Rounds place limit false (caseTurn G) (caseTurn H) (fun seen => seen) fun seen => seen := by
  intro seen context cursor hLies hLeft hSeen
  have h := Advances.refl hLies hLeft hSeen
  refine .get_bind (.ite (fun _ => .pure h) fun _ => .ite (fun _ => .unexpected hLies) fun _ => ?_)
  exact (hG .statement).bindAfter h h.here fun _ _ h => .pure h

theorem switchTurn (hG : Alike place limit G H) :
    Rounds place limit false (switchTurn G) (switchTurn H) (fun state => state.1)
      fun cases => cases := by
  rintro ⟨seen, seenDefault⟩ context cursor hLies hLeft hSeen
  have h := Advances.refl hLies hLeft hSeen
  refine .get_bind (.ite (fun _ => .pure h) fun _ => .startOffset_bind hLies fun start hStart => ?_)
  refine (hG.caseHead seenDefault).bindAfter h h.here ?_
  rintro ⟨test, seenDefault⟩ later h
  refine (proceeds_expect ":").skipAfter h h.here fun _ later h => ?_
  refine (hG.caseTurn.iterate [] Starts.nil).bindAfter h h.here fun consequent later h => ?_
  have hParts : Starts place (test.toList ++ consequent) := h.starts.subset (by simp +contextual)
  refine (proceeds_finish hStart (by simpa using hParts)).bindAfter h h.here fun case later h => ?_
  exact .pure (h.subset (by grind))

theorem switchStatement (hG : Alike place limit G H) :
    ProceedsNode place (limit + 1) (switchStatement G) (switchStatement H) := by
  intro context cursor hLies hLeft
  have h := Advances.refl hLies hLeft Starts.nil
  refine .startOffset_bind hLies fun start hStart => ?_
  refine proceeds_bump.skipAfter h h.here fun _ later h => ?_
  refine hG.parenthesized.bindAfter h h.here fun discriminant later h => ?_
  refine (proceeds_expect "\x7b").skipAfter h h.here fun _ later h => ?_
  refine (hG.switchTurn.iterate ([], false) Starts.nil).bindAfter h h.past fun cases later h => ?_
  refine proceeds_bump.skipAfter h h.here fun _ later h => ?_
  exact .finish h hStart (by simp)

theorem withStatement (hG : Alike place limit G H) :
    ProceedsNode place (limit + 1) (withStatement G) (withStatement H) := by
  intro context cursor hLies hLeft
  have h := Advances.refl hLies hLeft Starts.nil
  refine .startOffset_bind hLies fun start hStart => ?_
  refine proceeds_bump.skipAfter h h.here fun _ later h => ?_
  refine hG.parenthesized.bindAfter h h.here fun object later h => ?_
  refine (hG .statement).bindAfter h h.past fun body later h => ?_
  exact .finish h hStart (by simp)

theorem labeledStatement (hG : Alike place limit G H) :
    ProceedsNode place (limit + 1) (labeledStatement G) (labeledStatement H) := by
  intro context cursor hLies hLeft
  have h := Advances.refl hLies hLeft Starts.nil
  refine .startOffset_bind hLies fun start hStart => ?_
  refine proceedsNode_identifier.bindAfter h h.here fun label later h => ?_
  refine (proceeds_expect ":").skipAfter h h.here fun _ later h => ?_
  refine (hG .statement).bindAfter h h.past fun body later h => ?_
  exact .finish h hStart (by simp)

theorem keywordStatement (hG : Alike place limit G H)
    (hAssignment : ProceedsNode place (limit + 1) G.assignment H.assignment) (word : String)
    (hLimit : 0 < limit) :
    ProceedsIfLeft place (limit + 1) (keywordStatement G word) (keywordStatement H word)
      fun node => [node] := by
  have hVariables := fun kind => (hG.variableStatement kind hLimit).ifLeft
  unfold Grammar.keywordStatement
  split
  · exact hVariables "var"
  · intro context cursor hLies hLeft
    refine .startOffset_bind hLies fun _ hStart => .require_bind hStart ?_
    exact hVariables "const" context cursor hLies hLeft
  · intro context cursor hLies hLeft
    refine .startOffset_bind hLies fun start hStart => ?_
    exact (hG.function hStart).ifLeft context cursor hLies hLeft
  · exact (hG.classOf .declaration).ifLeft
  · exact hG.ifStatement.ifLeft
  · exact hG.forStatement.ifLeft
  · exact hG.whileStatement.ifLeft
  · exact (hG.doWhileStatement hLimit).ifLeft
  · exact hG.returnStatement hLimit
  · exact proceeds_jumpStatement .breakStatement hLimit
  · exact proceeds_jumpStatement .continueStatement hLimit
  · exact (hG.throwStatement hLimit).ifLeft
  · exact hG.tryStatement.ifLeft
  · exact hG.switchStatement.ifLeft
  · exact hG.withStatement.ifLeft
  · exact proceeds_shortStatement .debuggerStatement true hLimit
  · exact (expressionStatement hAssignment).ifLeft

theorem wordStatement (hG : Alike place limit G H)
    (hAssignment : ProceedsNode place (limit + 1) G.assignment H.assignment) (word : String)
    (hLimit : 0 < limit) :
    ProceedsNode place (limit + 1) (wordStatement G word) (wordStatement H word) := by
  intro context cursor hLies hLeft
  refine .get_bind (.read_bind (.ite (fun _ => ?_) fun _ => .ite (fun _ => ?_) fun _ => ?_))
  · exact hG.variableStatement "let" hLimit context cursor hLies hLeft
  · have h := Advances.refl hLies hLeft Starts.nil
    refine .startOffset_bind hLies fun start hStart => .require_bind hStart ?_
    exact proceeds_bump.skipAfter h h.here fun _ later h => (hG.function hStart).after h h.here
  · exact .ite (fun _ => hG.labeledStatement context cursor hLies hLeft)
      fun _ => expressionStatement hAssignment context cursor hLies hLeft

theorem statementBody (hG : Alike place limit G H)
    (hAssignment : ProceedsNode place (limit + 1) G.assignment H.assignment) :
    ProceedsNode place (limit + 1) (statementBody G) (statementBody H) := by
  intro context cursor hLies hLeft
  refine .get_bind ?_
  cases hToken : cursor.current? with
  | none => exact .unexpected hLies
  | some token =>
      have hLimit := limit_pos hToken hLeft
      have hExpression := expressionStatement hAssignment context cursor hLies hLeft
      dsimp only
      split
      · exact (hG.keywordStatement hAssignment _ hLimit).atToken hToken hLies hLeft
      · exact hG.wordStatement hAssignment _ hLimit context cursor hLies hLeft
      · refine .ite (fun _ => hG.block context cursor hLies hLeft) fun _ => .ite (fun _ => ?_)
          fun _ => hExpression
        exact (proceeds_shortStatement _ _ hLimit).atToken hToken hLies hLeft
      · exact hExpression

end Alike

end EcmaLint.Grammar
