import EcmaLint.Proofs.Grammar.Program
import EcmaLint.Proofs.Shape.Statement

/-! Shorthand properties with a default. In `{ a = 1 }` the default is in order only if the object
becomes a pattern, so it waits until then. While a part of the source is read, the defaults that
waited before it go on waiting; if the part leaves no other one waiting, then every object with a
default in it stands below something that is written to. -/
namespace EcmaLint

open Production Node Grammar

namespace Node

/-- The property of an object has a default in the place of its value. -/
def HasDefault (property : Node) : Prop :=
  property.kind = .property ∧
    ∃ value, property.child? .value = some value ∧ value.kind = .assignmentPattern

/-- A plain assignment or the head of a loop writes to a target. -/
def WritesTo (node target : Node) : Prop :=
  (node.kind = .assignmentExpression ∧ node.text? .operator = some "=" ∨
      node.kind = .forInStatement ∨ node.kind = .forOfStatement) ∧
    node.child? .left = some target ∧ target.kind.isTarget = true

/-- There is an object with a default below a node, and nothing that is written to around it. -/
inductive HoldsDefault : Node → Prop
  | here {object property : Node} (kind_eq : object.kind = .objectExpression)
      (mem : property ∈ object.children) (hasDefault : property.HasDefault) : HoldsDefault object
  | deeper {node child : Node} (mem : child ∈ node.children) (not_writesTo : ¬node.WritesTo child)
      (holds : HoldsDefault child) : HoldsDefault node

/-- Every object with a default stands below something that is written to. -/
def IsSettled (node : Node) : Prop := ¬node.HoldsDefault

/-- As `IsSettled`, for some nodes. -/
def AllSettled (nodes : List Node) : Prop := ∀ node ∈ nodes, node.IsSettled

@[simp] theorem allSettled_nil : AllSettled [] := by simp [AllSettled]

@[simp] theorem allSettled_cons {node : Node} {rest : List Node} :
    AllSettled (node :: rest) ↔ node.IsSettled ∧ AllSettled rest := List.forall_mem_cons

@[simp] theorem allSettled_append {first second : List Node} :
    AllSettled (first ++ second) ↔ AllSettled first ∧ AllSettled second := List.forall_mem_append

variable {id : NodeId} {kind : NodeKind} {span : Span} {fields : List (FieldName × FieldValue)}

/-- A node is settled if its children are, those that it writes to apart. -/
theorem IsSettled.of_children {node : Node} (hKind : node.kind ≠ .objectExpression)
    (h : ∀ child ∈ node.children, ¬node.WritesTo child → child.IsSettled) : node.IsSettled := by
  rintro (⟨hObject, -, -⟩ | ⟨hMem, hNot, hHolds⟩)
  · exact hKind hObject
  · exact h _ hMem hNot hHolds

theorem IsSettled.of_fields (hKind : kind ≠ .objectExpression)
    (h : AllSettled (Field.filledIn fields)) : (Node.mk id kind span fields).IsSettled :=
  .of_children hKind fun child hChild _ => h child (by rwa [children_eq_filledIn] at hChild)

/-- What is written to need not be settled. -/
theorem IsSettled.of_target {left : Node} (hKind : kind ≠ .objectExpression)
    (hLeft : (Node.mk id kind span fields).WritesTo left ∨ left.IsSettled)
    (hOthers : ∀ child ∈ Field.filledIn fields, child = left ∨ child.IsSettled) :
    (Node.mk id kind span fields).IsSettled := by
  refine .of_children hKind fun child hChild hNot => ?_
  rw [children_eq_filledIn] at hChild
  rcases hOthers child hChild with rfl | hSettled
  · exact hLeft.resolve_left hNot
  · exact hSettled

theorem IsSettled.of_childless {node : Node} (h : node.children = []) : node.IsSettled := by
  rintro (⟨-, hMem, -⟩ | ⟨hMem, -, -⟩)
  all_goals simp [h] at hMem

/-- A member of an object that is settled has no default. -/
def IsSettledMember (member : Node) : Prop := member.IsSettled ∧ ¬member.HasDefault

theorem IsSettled.of_members {members : List Node}
    (h : ∀ member ∈ members, member.IsSettledMember) :
    (Node.mk id .objectExpression span [(.properties, .nodes members)]).IsSettled := by
  have hChildren : (Node.mk id .objectExpression span [(.properties, .nodes members)]).children =
      members := by
    rw [children_eq_filledIn, Node.fields]
    simp
  rintro (⟨-, hMem, hDefault⟩ | ⟨hMem, -, hHolds⟩)
  · exact (h _ (hChildren ▸ hMem)).2 hDefault
  · exact (h _ (hChildren ▸ hMem)).1 hHolds

/-- An object with a default below a node that is settled stands below what is written to. -/
theorem IsSettled.exists_writesTo {node object property : Node} (h : node.IsSettled)
    (hObject : object ∈ node.subtree) (hKind : object.kind = .objectExpression)
    (hMem : property ∈ object.children) (hDefault : property.HasDefault) :
    ∃ writer ∈ node.subtree, ∃ target, writer.WritesTo target ∧ object ∈ target.subtree := by
  induction node using Node.induction with
  | step node ih =>
      rw [subtree_eq] at hObject
      rcases List.mem_cons.mp hObject with rfl | hBelow
      · exact absurd (.here hKind hMem hDefault) h
      obtain ⟨child, hChild, hIn⟩ := List.mem_flatMap.mp hBelow
      by_cases hWrites : node.WritesTo child
      · exact ⟨node, mem_subtree_self node, child, hWrites, hIn⟩
      · obtain ⟨writer, hWriter, hTarget⟩ :=
          ih child hChild (fun hHolds => h (.deeper hChild hWrites hHolds)) hIn
        exact ⟨writer, mem_subtree_trans (mem_subtree_of_mem_children hChild) hWriter, hTarget⟩

end Node

/-- Every default that waits lies before the tokens that are left. -/
structure Cursor.HasPassed (cursor : Cursor) : Prop where
  inOrder : Token.InOrder cursor.tokens
  lt_start : ∀ offset ∈ cursor.shorthandDefaults, ∀ token ∈ cursor.tokens, offset < token.span.start

/-- Between two cursors no default stopped waiting, and if none was added then something holds. -/
structure Keeps (before : Cursor) (settled : Prop) (after : Cursor) : Prop where
  hasPassed : after.HasPassed
  isPrefix : before.shorthandDefaults <+: after.shorthandDefaults
  settled : after.shorthandDefaults = before.shorthandDefaults → settled

namespace Keeps

variable {before between after : Cursor} {settled other : Prop}

theorem refl {cursor : Cursor} (h : cursor.HasPassed) (hSettled : settled) :
    Keeps cursor settled cursor := ⟨h, List.prefix_rfl, fun _ => hSettled⟩

theorem imp (h : Keeps before settled after) (hImp : settled → other) : Keeps before other after :=
  { h with settled := fun hSame => hImp (h.settled hSame) }

theorem trans (h : Keeps before settled between) (h' : Keeps between other after) :
    Keeps before (settled ∧ other) after where
  hasPassed := h'.hasPassed
  isPrefix := h.isPrefix.trans h'.isPrefix
  settled hSame := by
    have hLength := h'.isPrefix.length_le
    rw [hSame] at hLength
    have hBetween := h.isPrefix.eq_of_length_le hLength
    exact ⟨h.settled hBetween.symm, h'.settled (hSame.trans hBetween)⟩

/-- Tokens may be taken and nodes made. -/
theorem of_tokens {cursor later : Cursor} (h : cursor.HasPassed) (hSettled : settled)
    (hTokens : later.tokens <:+ cursor.tokens)
    (hDefaults : later.shorthandDefaults = cursor.shorthandDefaults) :
    Keeps cursor settled later where
  hasPassed :=
    { inOrder := by
        obtain ⟨taken, hTaken⟩ := hTokens
        have hOrder := h.inOrder
        rw [← hTaken] at hOrder
        exact hOrder.append_right
      lt_start := fun offset hOffset token hToken =>
        h.lt_start offset (hDefaults ▸ hOffset) token (hTokens.subset hToken) }
  isPrefix := hDefaults ▸ List.prefix_rfl
  settled _ := hSettled

end Keeps

namespace Production

variable {α β γ δ σ : Type}

/-- Wherever a production is read from, the defaults that waited go on waiting, and if none is
added then the result has a property. -/
def Settles (production : Production α) (property : α → Prop) : Prop :=
  ∀ context cursor, cursor.HasPassed →
    Yields production context cursor fun value later => Keeps cursor (property value) later

namespace Settles

variable {property : α → Prop} {between : β → Prop} {context : Context} {cursor : Cursor}

theorem imp {weaker : α → Prop} {production : Production α} (h : Settles production property)
    (hImp : ∀ value, property value → weaker value) : Settles production weaker :=
  fun context cursor hPassed =>
    (h context cursor hPassed).imp fun value _ hKeeps => hKeeps.imp (hImp value)

/-- What a production gives anyhow. -/
theorem and_gives {other : α → Prop} {production : Production α} (h : Settles production property)
    (hGives : Gives production other) :
    Settles production fun value => property value ∧ other value := fun context cursor hPassed =>
  ((h context cursor hPassed).and (hGives context cursor)).imp fun _ _ hBoth =>
    hBoth.1.imp fun hValue => ⟨hValue, hBoth.2⟩

/-- Reading on behind some part. -/
theorem after {origin : Cursor} {settled : Prop} {production : Production α}
    (h : Settles production property) (hKeeps : Keeps origin settled cursor) :
    Yields production context cursor fun value later =>
      Keeps origin (settled ∧ property value) later :=
  (h context cursor hKeeps.hasPassed).imp fun _ _ hLater => hKeeps.trans hLater

theorem pure {value : α} (h : property value) : Settles (Pure.pure value) property :=
  fun _ _ hPassed => .pure (.refl hPassed h)

theorem bind {first : Production β} {next : β → Production α} (h : Settles first between)
    (hNext : ∀ value, Settles (next value) fun result => between value → property result) :
    Settles (first >>= next) property := fun context cursor hPassed =>
  (h context cursor hPassed).bind fun value _ hKeeps =>
    ((hNext value).after hKeeps).imp fun _ _ hLater => hLater.imp fun hBoth => hBoth.2 hBoth.1

/-- What a step gives may not matter. -/
theorem skip {first : Production β} {next : β → Production α} (h : Settles first between)
    (hNext : ∀ value, Settles (next value) property) : Settles (first >>= next) property :=
  h.bind fun value => (hNext value).imp fun _ hResult _ => hResult

theorem get_bind {next : Cursor → Production α} (h : ∀ cursor, Settles (next cursor) property) :
    Settles (get >>= next) property := fun context cursor hPassed =>
  .get_bind (h cursor context cursor hPassed)

theorem read_bind {next : Context → Production α} (h : ∀ context, Settles (next context) property) :
    Settles (read >>= next) property := fun context cursor hPassed =>
  .read_bind (h context context cursor hPassed)

theorem map {f : β → α} {first : Production β} (h : Settles first fun value => property (f value)) :
    Settles (f <$> first) property :=
  h.bind fun _ => .pure id

theorem fault {cause : SyntaxFault} {offset : Nat} :
    Settles (Production.fault cause offset) property := fun _ _ _ => .fault

theorem throw {error : ParseError} : Settles (MonadExcept.throw error) property :=
  fun _ _ _ => .throw

theorem unexpected : Settles Production.unexpected property := fun _ _ _ => .unexpected

theorem withReader {change : Context → Context} {inner : Production α}
    (h : Settles inner property) : Settles (MonadWithReader.withReader change inner) property :=
  fun context cursor hPassed => .withReader (h (change context) cursor hPassed)

theorem allowIn {inner : Production α} (h : Settles inner property) :
    Settles (Production.allowIn inner) property := h.withReader

theorem withoutIn {inner : Production α} (h : Settles inner property) :
    Settles (Production.withoutIn inner) property := h.withReader

theorem inFunction {isAsync isGenerator : Bool} {inner : Production α}
    (h : Settles inner property) :
    Settles (Production.inFunction isAsync isGenerator inner) property := h.withReader

theorem ite {condition : Prop} [Decidable condition] {first second : Production α}
    (hTrue : Settles first property) (hFalse : Settles second property) :
    Settles (if condition then first else second) property := by
  split
  · exact hTrue
  · exact hFalse

/-- One of two readings, with what comes behind both. -/
theorem either {condition : Prop} [Decidable condition] {first second : Production β}
    {next : β → Production α} (hTrue : Settles first between) (hFalse : Settles second between)
    (hNext : ∀ value, Settles (next value) fun result => between value → property result) :
    Settles (if condition then first >>= next else second >>= next) property :=
  .ite (hTrue.bind hNext) (hFalse.bind hNext)

/-- What every turn of a repetition keeps up holds when it is done. -/
theorem iterate {turn : σ → Production (Turn σ β)} (invariant : σ → Prop) (between : β → Prop)
    (hTurn : ∀ state, Settles (turn state) fun outcome =>
      invariant state → Turn.Gives invariant between outcome) (state : σ) :
    Settles (Production.iterate turn state) fun result => invariant state → between result := by
  intro context origin hPassed
  refine .iterate (fun other later => Keeps origin (invariant state → invariant other) later)
    (fun result later => Keeps origin (invariant state → between result) later)
    (.refl hPassed id) fun other later hKeeps => ?_
  refine ((hTurn other).after hKeeps).imp fun outcome after hAfter => ?_
  cases outcome with
  | again next => exact hAfter.imp fun h hState => h.2 (h.1 hState)
  | done result => exact hAfter.imp fun h hState => h.2 (h.1 hState)

theorem store {kind : NodeKind} {span : Span} {fields : List (FieldName × FieldValue)}
    {property : Node → Prop} (h : ∀ id, property (.mk id kind span fields)) :
    Settles (Production.store kind span fields) property := fun _ cursor hPassed =>
  .store fun _ hNode => .of_tokens hPassed (hNode ▸ h cursor.arena.size) List.suffix_rfl rfl

theorem finish {kind : NodeKind} {start : Nat} {fields : List (FieldName × FieldValue)}
    {property : Node → Prop} (h : ∀ id span, property (.mk id kind span fields)) :
    Settles (Production.finish kind start fields) property :=
  .get_bind fun _ => .store fun id => h id _

/-- A step that leaves the cursor as it is. -/
theorem of_same {production : Production α}
    (h : ∀ context cursor, Yields production context cursor fun _ later => later = cursor) :
    Settles production fun _ => True := fun context cursor hPassed =>
  (h context cursor).imp fun _ _ hSame => by
    rw [hSame]
    exact .refl hPassed trivial

/-- A step that is made only under a condition, with what comes behind it. -/
theorem optional {condition : Prop} [Decidable condition] {step : Production Unit}
    {next : Unit → Production α} (hStep : Settles step fun _ => True)
    (hNext : Settles (next ()) property) :
    Settles (if condition then step >>= next else next ()) property :=
  .ite (hStep.skip fun _ => hNext) hNext

/-- As `optional`, for two steps. -/
theorem optional_two {condition : Prop} [Decidable condition] {first : Production β}
    {second : β → Production Unit} {next : Unit → Production α}
    (hFirst : Settles first between) (hSecond : ∀ value, Settles (second value) fun _ => True)
    (hNext : Settles (next ()) property) :
    Settles (if condition then first >>= fun value => second value >>= next else next ())
      property :=
  .ite (hFirst.skip fun value => (hSecond value).skip fun _ => hNext) hNext

/-- As `optional`, for three steps. -/
theorem optional_three {condition : Prop} [Decidable condition] {first : Production β}
    {second : β → Production γ} {third : γ → Production Unit} {next : Unit → Production α}
    {middle : γ → Prop} (hFirst : Settles first between)
    (hSecond : ∀ value, Settles (second value) middle)
    (hThird : ∀ value, Settles (third value) fun _ => True) (hNext : Settles (next ()) property) :
    Settles (if condition then first >>= fun value => second value >>= fun value =>
      third value >>= next else next ()) property :=
  .ite (hFirst.skip fun value => (hSecond value).skip fun value =>
    (hThird value).skip fun _ => hNext) hNext

/-- A check that fails unless a condition holds, with what comes behind it. -/
theorem ensure {condition : Prop} [Decidable condition] {step : Production Unit}
    {next : Unit → Production α} (hStep : Settles step fun _ => True)
    (hNext : Settles (next ()) property) :
    Settles (if condition then next () else step >>= next) property :=
  .ite hNext (hStep.skip fun _ => hNext)

/-- As `ensure`, for two steps. -/
theorem ensure_two {condition : Prop} [Decidable condition] {first : Production β}
    {second : β → Production Unit} {next : Unit → Production α}
    (hFirst : Settles first between) (hSecond : ∀ value, Settles (second value) fun _ => True)
    (hNext : Settles (next ()) property) :
    Settles (if condition then next () else first >>= fun value => second value >>= next)
      property :=
  .ite hNext (hFirst.skip fun value => (hSecond value).skip fun _ => hNext)

end Settles

theorem settles_get : Settles get fun _ => True := .of_same fun _ _ _ _ hRun => by
  cases hRun
  rfl

theorem settles_startOffset : Settles startOffset fun _ => True :=
  .of_same fun _ _ => .get_bind (.read_bind (.pure rfl))

theorem settles_require {feature : Feature} {offset : Nat} :
    Settles (require feature offset) fun _ => True :=
  .of_same fun _ _ => .require rfl

theorem settles_newlineBefore : Settles newlineBefore fun _ => True :=
  .of_same fun _ _ => yields_newlineBefore_eq

theorem settles_bump : Settles bump fun _ => True := by
  intro context cursor hPassed
  refine .modify ?_
  cases hRest : cursor.rest with
  | nil => exact .refl hPassed trivial
  | cons lexeme rest =>
      refine .of_tokens hPassed trivial ⟨[lexeme.token], ?_⟩ rfl
      rw [Cursor.tokens, Cursor.tokens, hRest]
      rfl

theorem settles_eat (text : String) : Settles (eat text) fun _ => True :=
  .get_bind fun _ => .ite (settles_bump.skip fun _ => .pure trivial) (.pure trivial)

theorem settles_expect (text : String) : Settles (expect text) fun _ => True :=
  (settles_eat text).skip fun _ => .ite (.pure trivial) .unexpected

theorem settles_atStatementEnd : Settles atStatementEnd fun _ => True :=
  .get_bind fun _ => settles_newlineBefore.skip fun _ => .pure trivial

theorem settles_semicolon : Settles semicolon fun _ => True :=
  (settles_eat ";").skip fun _ => .ite (.pure trivial)
    (settles_atStatementEnd.skip fun _ => .ite (.pure trivial) .unexpected)

namespace Settles

variable {production : Production Node} {kind : NodeKind} {start : Nat}
  {fields : List (FieldName × FieldValue)}

/-- The offset of a feature is read only to say where it stands. -/
theorem requiring {α : Type} {property : α → Prop} {feature : Feature} {next : Unit → Production α}
    (h : Settles (next ()) property) :
    Settles (startOffset >>= fun offset => require feature offset >>= next) property :=
  settles_startOffset.skip fun _ => settles_require.skip fun _ => h

/-- Part of a part is one level deeper. -/
theorem nested (h : Settles production IsSettled) :
    Settles (Production.nested production) IsSettled :=
  .read_bind fun _ => .ite (settles_startOffset.skip fun _ => .fault) h.withReader

theorem someOf (h : Settles production IsSettled) :
    Settles (some <$> production) fun slot => AllSettled slot.toList :=
  .map (h.imp fun _ hNode => by simpa using hNode)

/-- A node with nothing below it. -/
theorem leaf {span : Span} (h : Field.filledIn fields = []) :
    Settles (Production.store kind span fields) fun node => node.children = [] :=
  .store fun _ => by rwa [children_eq_filledIn]

end Settles

theorem settles_identifierName : Settles identifierName fun node => node.children = [] := by
  refine .get_bind fun cursor => ?_
  split
  · exact .ite (settles_bump.skip fun _ => .leaf (by simp)) .unexpected
  · exact .unexpected

theorem settles_identifier : Settles identifier IsSettled := by
  refine .get_bind fun cursor => ?_
  split
  · refine .ite (settles_bump.skip fun _ => ?_) .unexpected
    exact (Settles.leaf (by simp)).imp fun _ => .of_childless
  · exact .unexpected

end Production

/-- Turning what was read since an origin into a target settles nothing that waited before. -/
theorem Keeps.toTarget {context : Context} {origin cursor : Cursor} {settled : Prop} {moved : Bool}
    {expression : Node} (h : Keeps origin settled cursor) (hPassed : origin.HasPassed)
    (hReads : Reads moved origin [expression] cursor) (hShaped : expression.Shaped) :
    Yields (Grammar.toTarget expression) context cursor fun target later =>
      Keeps origin (target.kind.isTarget = true) later := by
  have hBefore : ∀ offset ∈ origin.shorthandDefaults, offset < expression.span.start := by
    obtain ⟨taken, -, hTakes⟩ := hReads.takes
    obtain ⟨token, hToken, hStart⟩ :=
      (hTakes.aligned expression (mem_forest_of_mem (List.mem_singleton_self _))).start_mem
    intro offset hOffset
    rw [← hStart]
    exact hPassed.lt_start offset hOffset token (hTakes.tokens_eq ▸ List.mem_append_left _ hToken)
  suffices hKeeps : Yields (Grammar.toTarget expression) context cursor fun _ later =>
      Keeps origin True later from
    ((gives_toTarget hShaped context cursor).and hKeeps).imp fun _ _ hBoth =>
      hBoth.2.imp fun _ => hBoth.1.accepted
  unfold Grammar.toTarget
  split
  · exact .throw
  refine .bind (.modify ?_) fun _ _ hLater => .pure hLater
  obtain ⟨added, hAdded⟩ := h.isPrefix
  constructor
  · exact ⟨h.hasPassed.inOrder, fun offset hOffset =>
      h.hasPassed.lt_start offset (List.mem_of_mem_filter hOffset)⟩
  · rw [← hAdded, List.filter_append, List.filter_eq_self.mpr]
    · exact List.prefix_append _ _
    · intro offset hOffset
      have hLt := hBefore offset hOffset
      simp
      omega
  · exact fun _ => trivial

/-- A default that waits from a token on waits behind it. -/
theorem Keeps.of_waiting {cursor later : Cursor} {offset : Nat} (h : cursor.HasPassed)
    (hOffset : cursor.StartsAt offset) (hTokens : later.tokens = cursor.tokens.tail)
    (hDefaults : later.shorthandDefaults = cursor.shorthandDefaults ++ [offset]) :
    Keeps cursor False later := by
  have hOrder := h.inOrder
  have hSuffix : later.tokens <:+ cursor.tokens := hTokens ▸ List.tail_suffix _
  refine ⟨⟨?_, fun other hOther token hToken => ?_⟩, ?_, ?_⟩
  · obtain ⟨taken, hTaken⟩ := hSuffix
    exact (hTaken ▸ hOrder).append_right
  · rw [hDefaults] at hOther
    rcases List.mem_append.mp hOther with hBefore | hNew
    · exact h.lt_start other hBefore token (hSuffix.subset hToken)
    obtain rfl : other = offset := List.mem_singleton.mp hNew
    cases hFirst : cursor.tokens with
    | nil => simp [hTokens, hFirst] at hToken
    | cons first rest =>
        have hOrder : Token.InOrder ([first] ++ rest) := by rwa [hFirst] at hOrder
        rw [hTokens, hFirst, List.tail_cons] at hToken
        have hStart := hOffset first (by rw [Cursor.current?_eq, hFirst]; rfl)
        have hNonempty := hOrder.nonempty first List.mem_cons_self
        have hApart := hOrder.stop_le_start (List.mem_singleton_self first) hToken
        omega
  · exact hDefaults ▸ List.prefix_append _ _
  · simp [hDefaults]

theorem Keeps.wait {context : Context} {cursor : Cursor} {offset : Nat} (h : cursor.HasPassed)
    (hOffset : cursor.StartsAt offset) :
    Yields (do
      modify fun cursor =>
        { cursor with shorthandDefaults := cursor.shorthandDefaults ++ [offset] }
      bump) context cursor fun _ later => Keeps cursor False later := by
  rintro _ later ⟨⟩
  cases hRest : cursor.rest with
  | nil => exact .of_waiting h hOffset (by simp [Cursor.tokens, hRest]) (by simp [hRest])
  | cons lexeme rest =>
      exact .of_waiting h hOffset (by simp [Cursor.tokens, hRest]) (by simp [hRest])

/-- The parts of a program that the grammar comes back to are settled. -/
structure Grammar.SettlesDefaults (G : Grammar Production) : Prop where
  reads : G.ReadsNodes
  shapes : G.Shapes
  statement : Settles G.statement IsSettled
  assignment : Settles G.assignment IsSettled
  binary : ∀ minimum, Settles (G.binary minimum) IsSettled
  unary : Settles G.unary IsSettled
  leftHandSide : Settles G.leftHandSide IsSettled
  newExpression : Settles G.newExpression IsSettled
  bindingTarget : Settles G.bindingTarget IsSettled

namespace Production.Settles

/-- The nodes of a list are read one behind the other. -/
theorem list {turn : List Node → Production (Turn (List Node) (List Node))}
    (hTurn : ∀ seen, Settles (turn seen) fun outcome =>
      AllSettled seen → Turn.Gives AllSettled AllSettled outcome) (seen : List Node) :
    Settles (Production.iterate turn seen) fun nodes => AllSettled seen → AllSettled nodes :=
  .iterate AllSettled AllSettled hTurn seen

/-- Another node behind those that were seen. -/
theorem again {seen : List Node} {node : Node} :
    Settles (Pure.pure (Turn.again (seen ++ [node])) : Production (Turn (List Node) (List Node)))
      fun outcome => node.IsSettled → AllSettled seen → Turn.Gives AllSettled AllSettled outcome :=
  .pure fun hNode hSeen => by simpa [Turn.Gives] using ⟨hSeen, hNode⟩

end Production.Settles

end EcmaLint
