import EcmaLint.Grammar.Operand
import EcmaLint.Proofs.Progress.Part

/-! How far functions, classes, literals of arrays and objects, calls and operands get. -/
namespace EcmaLint.Grammar

open Production Node

variable {place : Nat → Prop} {limit : Nat} {G : Grammar Production} {H : Grammar Parser}
  {context : Context} {origin cursor : Cursor} {read : List Node} {start : Nat} {moved : Bool}

theorem proceeds_nameFor (role : Role) :
    Proceeds place limit (fun _ => false) (nameFor role) (nameFor role) Option.toList := by
  intro context cursor hLies hLeft
  have h := Advances.refl hLies hLeft Starts.nil
  refine .get_bind (.ite (fun _ => ?_) fun _ => .ite (fun _ => .unexpected hLies) fun _ => .pure h)
  exact proceedsNode_identifier.bindAfter h h.here fun _ _ h => .pure h.weaken

theorem proceeds_accessor (atWord : Cursor → String → Bool) :
    Proceeds place limit (fun _ => false) (accessor atWord) (accessor atWord) fun _ => [] := by
  intro context cursor hLies hLeft
  have h := Advances.refl hLies hLeft Starts.nil
  refine .get_bind (.ite (fun _ => ?_) fun _ => .ite (fun _ => ?_) fun _ => .pure h)
  · exact proceeds_bump.skipAfter h h.here fun _ _ h => .pure h
  · exact proceeds_bump.skipAfter h h.here fun _ _ h => .pure h

namespace Alike

theorem paramsTurn (hG : Alike place limit G H) :
    Rounds place limit false (paramsTurn G) (paramsTurn H) (fun seen => seen)
      fun seen => seen := by
  intro seen context cursor hLies hLeft hSeen
  have h := Advances.refl hLies hLeft hSeen
  refine .get_bind (.ite (fun _ => .pure h) fun _ => .get_bind (.ite (fun _ => ?_) fun _ => ?_))
  · refine hG.restElement.bindAfter h h.ahead fun rest later h => .get_bind ?_
    refine .ensure_two (fun _ => h) (fun _ => .faultHere h.liesIn) fun later h => ?_
    exact .pure h.weaken
  · refine hG.bindingElement.bindAfter h h.here fun param later h => ?_
    refine .eat_ite h (fun later h => .get_bind ?_) fun later h => .pure h.weaken
    exact .optional_two (fun _ => .requireHere h.liesIn h) (fun _ => h) fun later h => .pure h

theorem params (hG : Alike place limit G H) :
    Proceeds place (limit + 1) (fun _ => true) (params G) (params H) fun params => params := by
  intro context cursor hLies hLeft
  have h := Advances.refl hLies hLeft Starts.nil
  refine (proceeds_expect "(").skipAfter h h.here fun _ later h => ?_
  refine (hG.paramsTurn.iterate [] Starts.nil).bindAfter h h.past fun params later h => ?_
  exact (proceeds_expect ")").skipAfter h h.here fun _ _ h => .pure h

theorem paramsAndBody (hG : Alike place limit G H) (isAsync isGenerator : Bool) :
    Proceeds place (limit + 1) (fun _ => true) (paramsAndBody G isAsync isGenerator)
      (paramsAndBody H isAsync isGenerator) fun read => read.1 ++ [read.2] := by
  refine Proceeds.inFunction fun context cursor hLies hLeft => ?_
  have h := Advances.refl hLies hLeft Starts.nil
  refine hG.params.bindAfter h h.here fun params later h => ?_
  exact hG.block.bindAfter h h.here fun body later h => .pure h

theorem function {isAsync : Bool} {role : Role} (hG : Alike place limit G H)
    (hStart : place start) :
    ProceedsNode place (limit + 1) (function G start isAsync role)
      (function H start isAsync role) := by
  intro context cursor hLies hLeft
  have h := Advances.refl hLies hLeft Starts.nil
  refine (proceeds_expect "function").skipAfter h h.here fun _ later h => .get_bind ?_
  refine .optional_three (fun _ => ?_) (fun _ => h) fun later h => ?_
  · refine .startOffset_bind h.liesIn fun _ hHere => .require_bind hHere ?_
    exact proceeds_bump.passAfter h h.here
  refine (proceeds_nameFor role).bindAfter h h.here fun name later h => ?_
  refine (hG.paramsAndBody isAsync _).bindAfter h h.here ?_
  rintro ⟨params, body⟩ later h
  exact .finish h hStart (by simp [functionFields])

theorem methodFunction (hG : Alike place limit G H) (isAsync isGenerator : Bool) :
    ProceedsNode place (limit + 1) (methodFunction G isAsync isGenerator)
      (methodFunction H isAsync isGenerator) := by
  intro context cursor hLies hLeft
  have h := Advances.refl hLies hLeft Starts.nil
  refine .startOffset_bind hLies fun start hStart => ?_
  refine (hG.paramsAndBody isAsync isGenerator).bindAfter h h.here ?_
  rintro ⟨params, body⟩ later h
  exact .finish h hStart (by simp [functionFields])

theorem methodDefinition (hG : Alike place limit G H) :
    ProceedsNode place (limit + 1) (methodDefinition G) (methodDefinition H) := by
  intro context cursor hLies hLeft
  have h := Advances.refl hLies hLeft Starts.nil
  refine .startOffset_bind hLies fun start hStart => .get_bind ?_
  refine .optional (fun _ => proceeds_bump.passAfter h h.here) (fun _ => h)
    fun later h => .get_bind ?_
  refine .optional_three (fun _ => ?_) (fun _ => h) fun later h => ?_
  · refine .startOffset_bind h.liesIn fun _ hHere => .require_bind hHere ?_
    exact proceeds_bump.passAfter h h.here
  refine (proceeds_eat "*").skipAfter h h.here fun _ later h => ?_
  refine .either (fun _ => (proceeds_accessor _).passAfter h h.here) (fun _ => .pure h)
    fun word later h => ?_
  refine hG.propertyKey.bindAfter h h.here ?_
  rintro ⟨key, computed⟩ later h
  refine .get_bind (.ensure (fun _ => h) (fun _ => .unexpected h.liesIn) fun later h => ?_)
  refine (hG.methodFunction _ _).bindAfter h h.here fun value later h => ?_
  exact (Follows.finish h hStart (by simp)).imp fun _ _ h => by simpa using h

theorem classTurn (hG : Alike place limit G H) :
    Rounds place limit false (classTurn G) (classTurn H) (fun seen => seen) fun seen => seen := by
  intro seen context cursor hLies hLeft hSeen
  have h := Advances.refl hLies hLeft hSeen
  refine .get_bind (.ite (fun _ => .pure h) fun _ => .ite (fun _ => .unexpected hLies) fun _ => ?_)
  refine .eat_ite h (fun later h => .pure h) fun later h => ?_
  exact hG.methodDefinition.bindAfter h h.ahead fun _ _ h => .pure h

theorem classBody (hG : Alike place limit G H) :
    ProceedsNode place (limit + 1) (classBody G) (classBody H) := by
  intro context cursor hLies hLeft
  have h := Advances.refl hLies hLeft Starts.nil
  refine .startOffset_bind hLies fun start hStart => ?_
  refine (proceeds_expect "\x7b").skipAfter h h.here fun _ later h => ?_
  refine (hG.classTurn.iterate [] Starts.nil).bindAfter h h.past fun members later h => ?_
  refine proceeds_bump.skipAfter h h.here fun _ later h => ?_
  exact .finish h hStart (by simp)

theorem classOf (hG : Alike place limit G H) (role : Role) :
    ProceedsNode place (limit + 1) (classOf G role) (classOf H role) := by
  intro context cursor hLies hLeft
  have h := Advances.refl hLies hLeft Starts.nil
  refine .startOffset_bind hLies fun start hStart => .require_bind hStart ?_
  refine (proceeds_expect "class").skipAfter h h.here fun _ later h => ?_
  refine (proceeds_nameFor role).bindAfter h h.here fun name later h => ?_
  refine (proceeds_eat "extends").skipAfter h h.here fun _ later h => ?_
  refine .either (fun _ => (hG .leftHandSide).someAfter h h.past) (fun _ => .pure h.none)
    fun superClass later h => ?_
  refine hG.classBody.bindAfter h h.here fun body later h => ?_
  exact .finish h hStart (by simp)

theorem spreadElement (hG : Alike place limit G H) :
    ProceedsNode place (limit + 1) (spreadElement G) (spreadElement H) := by
  intro context cursor hLies hLeft
  have h := Advances.refl hLies hLeft Starts.nil
  refine .startOffset_bind hLies fun start hStart => .require_bind hStart ?_
  refine (proceeds_expect "...").skipAfter h h.here fun _ later h => ?_
  refine (hG .assignment).allowIn.bindAfter h h.past fun argument later h => ?_
  exact .finish h hStart (by simp)

theorem argumentsTurn (hG : Alike place limit G H) :
    Rounds place limit false (argumentsTurn G) (argumentsTurn H) (fun seen => seen)
      fun seen => seen := by
  intro seen context cursor hLies hLeft hSeen
  have h := Advances.refl hLies hLeft hSeen
  refine .get_bind (.ite (fun _ => .pure h) fun _ => .get_bind ?_)
  refine .either (fun _ => hG.spreadElement.after h h.ahead)
    (fun _ => (hG .assignment).allowIn.after h h.here) fun argument later h => ?_
  refine .eat_ite h (fun later h => .get_bind ?_) fun later h => .pure h.weaken
  exact .optional_two (fun _ => .requireHere h.liesIn h) (fun _ => h) fun later h => .pure h

theorem arguments (hG : Alike place limit G H) :
    Proceeds place (limit + 1) (fun _ => true) (arguments G) (arguments H)
      fun arguments => arguments := by
  intro context cursor hLies hLeft
  have h := Advances.refl hLies hLeft Starts.nil
  refine (proceeds_expect "(").skipAfter h h.here fun _ later h => ?_
  refine (hG.argumentsTurn.iterate [] Starts.nil).bindAfter h h.past fun arguments later h => ?_
  exact (proceeds_expect ")").skipAfter h h.here fun _ _ h => .pure h

theorem arrayTurn (hG : Alike place limit G H) :
    Rounds place limit false (arrayTurn G) (arrayTurn H) (fun slots => slots.filterMap id)
      fun slots => slots.filterMap id := by
  intro seen context cursor hLies hLeft hSeen
  have h := Advances.refl hLies hLeft hSeen
  refine .get_bind (.ite (fun _ => .pure h) fun _ => ?_)
  refine .eat_ite h (fun later h => .pure (h.subset (by simp))) fun later h => .get_bind ?_
  refine .either (fun _ => hG.spreadElement.after h h.ahead)
    (fun _ => (hG .assignment).allowIn.after h h.here) fun element later h => .get_bind ?_
  refine .ensure (fun _ => h) (fun _ => (proceeds_expect ",").passAfter h h.here) fun later h => ?_
  exact .pure (h.subset (by simp))

theorem arrayLiteral (hG : Alike place limit G H) :
    ProceedsNode place (limit + 1) (arrayLiteral G) (arrayLiteral H) := by
  intro context cursor hLies hLeft
  have h := Advances.refl hLies hLeft Starts.nil
  refine .startOffset_bind hLies fun start hStart => ?_
  refine (proceeds_expect "[").skipAfter h h.here fun _ later h => ?_
  refine (hG.arrayTurn.iterate [] Starts.nil).bindAfter h h.past fun elements later h => ?_
  refine (proceeds_expect "]").skipAfter h h.here fun _ later h => ?_
  exact .finish h hStart (by simp)

/-- The default of a shorthand property. Its offset waits until the object is known to be a
pattern, and it is that of a token. -/
theorem shorthandDefault {name : Node} (hG : Alike place limit G H) (hStart : place start)
    (hName : Starts place [name]) :
    ProceedsNode place limit (shorthandDefault G start name) (shorthandDefault H start name) := by
  intro context cursor hLies hLeft
  have h := Advances.refl hLies hLeft hName
  refine .startOffset_bind hLies fun offset hOffset => ?_
  have hWaits : Advances place context.size limit false cursor [name]
      { cursor with shorthandDefaults := cursor.shorthandDefaults ++ [offset] } := by
    obtain ⟨hSize, hTokens, hEnd, hDefaults⟩ := hLies
    refine ⟨h.takes, ⟨hSize, hTokens, hEnd, ?_⟩, hName, hLeft⟩
    exact List.forall_mem_append.mpr ⟨hDefaults, by simpa using hOffset⟩
  refine .modify_bind (proceeds_bump.skipAfter hWaits hWaits.here fun _ later h => ?_)
  refine (hG .assignment).allowIn.bindAfter h h.here fun value later h => ?_
  exact .finish h hStart (by simp)

theorem property (hG : Alike place limit G H) :
    ProceedsNode place (limit + 1) (property G) (property H) := by
  intro context cursor hLies hLeft
  have h := Advances.refl hLies hLeft Starts.nil
  refine .startOffset_bind hLies fun start hStart => .get_bind ?_
  refine .optional_two
    (fun _ => .require_bind hStart (proceeds_bump.passAfter h h.here)) (fun _ => h)
    fun later h => .get_bind ?_
  refine .optional_three (fun _ => ?_) (fun _ => h) fun later h => ?_
  · refine .startOffset_bind h.liesIn fun _ hHere => .require_bind hHere ?_
    exact proceeds_bump.passAfter h h.here
  refine .either (fun _ => (proceeds_accessor _).passAfter h h.here) (fun _ => .pure h)
    fun word later h => .get_bind ?_
  refine hG.propertyKey.bindAfter h h.here ?_
  rintro ⟨key, computed⟩ later h
  cases word with
  | some word =>
      refine (hG.methodFunction _ _).bindAfter h h.here fun value later h => ?_
      exact follows_propertyNode h hStart (by simp) (by simp)
  | none =>
      refine .get_bind (.ite (fun _ => .require_bind hStart ?_) fun _ => ?_)
      · refine (hG.methodFunction _ _).bindAfter h h.here fun value later h => ?_
        exact follows_propertyNode h hStart (by simp) (by simp)
      refine .eat_ite h (fun later h => ?_) fun later h => ?_
      · refine (hG .assignment).allowIn.bindAfter h h.past fun value later h => ?_
        exact follows_propertyNode h hStart (by simp) (by simp)
      refine .ite (fun _ => .require_bind hStart ?_) fun _ => .unexpected h.liesIn
      refine (proceeds_cloneIdentifier h.starts).bindAfter h h.here fun name later h => ?_
      have hName : Starts place [name] := h.starts.subset (by simp)
      refine .either
        (fun _ => ((hG.shorthandDefault hStart hName).after h h.past).imp fun _ _ h => h.of_or)
        (fun _ => .pure (h.subset (by simp))) fun value later h => ?_
      exact follows_propertyNode h hStart (by simp) (by simp)

theorem objectTurn (hG : Alike place limit G H) :
    Rounds place limit false (objectTurn G) (objectTurn H) (fun seen => seen)
      fun seen => seen := by
  intro seen context cursor hLies hLeft hSeen
  have h := Advances.refl hLies hLeft hSeen
  refine .get_bind (.ite (fun _ => .pure h) fun _ => .get_bind ?_)
  refine .either_three (fun _ => .startOffset_bind hLies fun _ hHere => ?_)
    (fun _ => hG.property.after h h.ahead) fun member later h => .get_bind ?_
  · exact .require_bind hHere (hG.spreadElement.after h h.ahead)
  refine .ensure (fun _ => h) (fun _ => (proceeds_expect ",").passAfter h h.here)
    fun later h => .pure h

theorem objectLiteral (hG : Alike place limit G H) :
    ProceedsNode place (limit + 1) (objectLiteral G) (objectLiteral H) := by
  intro context cursor hLies hLeft
  have h := Advances.refl hLies hLeft Starts.nil
  refine .startOffset_bind hLies fun start hStart => ?_
  refine (proceeds_expect "\x7b").skipAfter h h.here fun _ later h => ?_
  refine (hG.objectTurn.iterate [] Starts.nil).bindAfter h h.past fun properties later h => ?_
  refine (proceeds_expect "\x7d").skipAfter h h.here fun _ later h => ?_
  exact .finish h hStart (by simp)

theorem primary (hG : Alike place limit G H) :
    ProceedsNode place (limit + 1) (primary G) (primary H) := by
  intro context cursor hLies hLeft
  refine .get_bind ?_
  cases hToken : cursor.current? with
  | none => exact .unexpected hLies
  | some token =>
      have h := Advances.refl hLies hLeft Starts.nil
      have hStart := (hLies.current hToken).1
      dsimp only
      split
      · refine .ite (fun _ => .require_bind hStart ?_) fun _ => ?_
        · exact proceeds_bump.skipAfter h h.here fun _ later h =>
            (hG.function hStart).after h h.here
        · exact proceedsNode_identifier context cursor hLies hLeft
      · refine .ite (fun _ => .bump_store hLies hLeft hToken rfl) fun _ => ?_
        refine .ite (fun _ => .bump_store hLies hLeft hToken rfl) fun _ => ?_
        refine .ite (fun _ => (hG.function hStart).after h h.here) fun _ => ?_
        exact .ite (fun _ => (hG.classOf .expression).after h h.here) fun _ => .unexpected hLies
      · exact follows_literal hLies hLeft hToken rfl
      · exact follows_literal hLies hLeft hToken rfl
      · exact follows_numericLiteral hLies hLeft hToken
      · exact follows_literal hLies hLeft hToken rfl
      · exact .bump_store hLies hLeft hToken rfl
      · exact .ite (fun _ => hG.template.after h h.here) fun _ => .unexpected hLies
      · refine .ite (fun _ => ?_) fun _ => .ite (fun _ => hG.arrayLiteral.after h h.here)
          fun _ => .ite (fun _ => hG.objectLiteral.after h h.here) fun _ => .unexpected hLies
        refine (Follows.bump_of_current hToken h).bind fun _ later h => ?_
        refine hG.expression.allowIn.bindAfter h h.past fun inner later h => ?_
        exact (proceeds_expect ")").skipAfter h h.here fun _ _ h => .pure h

end Alike

theorem follows_dotMember {operand : Node} {isOptional : Bool}
    (h : Advances place context.size limit false origin [operand] cursor) (hStart : place start) :
    Follows place (dotMember start operand isOptional) (dotMember start operand isOptional) context
      cursor fun node later => Advances place context.size limit true origin [node] later :=
  proceedsNode_identifierName.bindAfter h h.here fun _ _ h => .finish h hStart (by simp)

/-- What stands behind `new` and a point, where the word `new` is read as a name as well. -/
theorem follows_newTarget {word : Span}
    (h : Advances place context.size limit false origin [] cursor) (hStart : place start)
    (hWord : place word.start) :
    Follows place (newTarget start word) (newTarget start word) context cursor
      fun node later => Advances place context.size limit true origin [node] later := by
  refine .get_bind (.ensure (fun _ => h) (fun _ => .unexpected h.liesIn) fun later h => ?_)
  refine .read_bind (.ensure (fun _ => h) (fun _ => .fault hStart) fun later h => ?_)
  refine (proceeds_store hWord Starts.nil).bindAfter h h.here fun metaWord later h => ?_
  refine proceedsNode_identifierName.bindAfter h h.here fun property later h => ?_
  exact .finish h hStart (by simp)

namespace Alike

variable {operand : Node} {isOptional : Bool}

theorem computedMember (hG : Alike place limit G H)
    (h : Advances place context.size (limit + 1) false origin [operand] cursor)
    (hStart : place start) :
    Follows place (computedMember G start operand isOptional)
      (computedMember H start operand isOptional) context cursor
      fun node later => Advances place context.size (limit + 1) true origin [node] later := by
  refine (proceeds_expect "[").skipAfter h h.here fun _ later h => ?_
  refine hG.expression.allowIn.bindAfter h h.past fun property later h => ?_
  refine (proceeds_expect "]").skipAfter h h.here fun _ later h => ?_
  exact .finish h hStart (by simp)

theorem call (hG : Alike place limit G H)
    (h : Advances place context.size (limit + 1) false origin [operand] cursor)
    (hStart : place start) :
    Follows place (call G start operand isOptional) (call H start operand isOptional) context cursor
      fun node later => Advances place context.size (limit + 1) true origin [node] later :=
  hG.arguments.bindAfter h h.here fun _ _ h => .finish h hStart (by simp)

theorem taggedTemplate (hG : Alike place limit G H)
    (h : Advances place context.size (limit + 1) false origin [operand] cursor)
    (hStart : place start) :
    Follows place (taggedTemplate G start operand) (taggedTemplate H start operand) context cursor
      fun node later => Advances place context.size (limit + 1) true origin [node] later :=
  hG.template.bindAfter h h.here fun _ _ h => .finish h hStart (by simp)

theorem operandTurn (hG : Alike place limit G H) (hStart : place start) :
    Rounds place (limit + 1) false (operandTurn G start) (operandTurn H start)
      (fun state => [state.1]) fun state => [state.1] := by
  rintro ⟨operand, chained⟩ context cursor hLies hLeft hSeen
  have h := Advances.refl hLies hLeft hSeen
  refine .eat_ite h (fun later h => ?_) fun later h => .get_bind (.ite (fun _ => ?_) fun _ => ?_)
  · exact (follows_dotMember h.weaken hStart).bind fun _ _ h => .pure h
  · refine .startOffset_bind h.liesIn fun _ hHere => .require_bind hHere ?_
    refine proceeds_bump.skipAfter h h.here fun _ later h => .get_bind ?_
    refine .ite (fun _ => (hG.call h hStart).bind fun _ _ h => .pure h) fun _ => ?_
    refine .ite (fun _ => (hG.computedMember h hStart).bind fun _ _ h => .pure h) fun _ => ?_
    exact (follows_dotMember h hStart).bind fun _ _ h => .pure h
  refine .get_bind (.ite (fun _ => ?_) fun _ => .get_bind (.ite (fun _ => ?_) fun _ => ?_))
  · exact (hG.computedMember h hStart).bind fun _ _ h => .pure h
  · exact (hG.call h hStart).bind fun _ _ h => .pure h
  refine .get_bind (.ite (fun _ => ?_) fun _ => .pure h)
  refine .ite (fun _ => .faultHere h.liesIn) fun _ => ?_
  exact (hG.taggedTemplate h hStart).bind fun _ _ h => .pure h

theorem leftHandSideBody (hG : Alike place limit G H)
    (hNew : ProceedsNode place (limit + 1) G.newExpression H.newExpression) :
    ProceedsNode place (limit + 1) (leftHandSideBody G) (leftHandSideBody H) := by
  intro context cursor hLies hLeft
  have h := Advances.refl hLies hLeft Starts.nil
  refine .startOffset_bind hLies fun start hStart => .get_bind ?_
  refine .either (fun _ => hNew.after h h.here) (fun _ => hG.primary.after h h.here)
    fun operand later h => ?_
  refine ((hG.operandTurn hStart).iterate (operand, false) h.starts).bindAfter h h.here ?_
  rintro ⟨operand, chained⟩ later h
  refine .ite (fun _ => .finish h hStart (by simp)) fun _ => .pure (h.subset (by simp))

theorem calleeTurn (hG : Alike place limit G H) (hStart : place start) :
    Rounds place (limit + 1) false (calleeTurn G start) (calleeTurn H start)
      (fun callee => [callee]) fun callee => [callee] := by
  intro callee context cursor hLies hLeft hSeen
  have h := Advances.refl hLies hLeft hSeen
  refine .eat_ite h (fun later h => ?_) fun later h => .get_bind (.ite (fun _ => ?_) fun _ => ?_)
  · exact (follows_dotMember h.weaken hStart).bind fun _ _ h => .pure h
  · exact (hG.computedMember h hStart).bind fun _ _ h => .pure h
  refine .get_bind (.ite (fun _ => ?_) fun _ => .get_bind (.ite (fun _ => ?_) fun _ => .pure h))
  · exact (hG.taggedTemplate h hStart).bind fun _ _ h => .pure h
  · exact .faultHere h.liesIn

theorem newExpressionBody (hG : Alike place limit G H) :
    ProceedsNode place (limit + 1) (newExpressionBody G) (newExpressionBody H) := by
  intro context cursor hLies hLeft
  have h := Advances.refl hLies hLeft Starts.nil
  refine .startOffset_bind hLies fun start hStart => .get_bind ?_
  refine (proceeds_expect "new").skipAfter h h.here fun _ later h => ?_
  obtain ⟨token, hToken⟩ := h.exists_current
  refine .eat_ite h (fun later h => ?_) fun later h => ?_
  · simp only [hToken, Option.map_some, Option.getD_some]
    exact follows_newTarget h.weaken hStart (hLies.current hToken).1
  refine .startOffset_bind h.liesIn fun calleeStart hCalleeStart => .get_bind ?_
  refine .either (fun _ => (hG .newExpression).after h h.past) (fun _ => hG.primary.after h h.here)
    fun callee later h => ?_
  refine ((hG.calleeTurn hCalleeStart).iterate callee h.starts).bindAfter h h.here
    fun callee later h => .get_bind ?_
  refine .either (fun _ => hG.arguments.after h h.here) (fun _ => .pure ?_)
    fun arguments later h => ?_
  · simpa using h.none
  · exact .finish h hStart (by simp +contextual)

end Alike

end EcmaLint.Grammar
