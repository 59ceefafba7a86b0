import EcmaLint.Grammar.Basic
import EcmaLint.Grammar.Expression
import EcmaLint.Proofs.Grammar.Reading

/-! The steps that productions are made of, and what each of them reads: moving over tokens, making
nodes, and turning a node into a target. What the productions read that the grammar can come back to
is an assumption on a grammar, with what follows for words, expressions with commas and blocks. -/
namespace EcmaLint

/-- Fields of a node over one token, which hold nothing but what the token tells. -/
structure Field.Copy (token : Token) (kind : NodeKind) (fields : List (FieldName × FieldValue)) :
    Prop where
  childless : ∀ field ∈ fields, field.2.filled = []
  isProper : kind ≠ .program ∧ kind ≠ .objectExpression ∧ kind.isOperation = false
  transcribes : ∀ id, (Node.mk id kind token.span fields).Transcribes [token]

namespace Field

variable {token : Token}

theorem Copy.filledIn_eq {kind : NodeKind} {fields : List (FieldName × FieldValue)}
    (h : Copy token kind fields) : filledIn fields = [] := by
  simpa [filledIn] using fun name value hField => h.childless (name, value) hField

theorem copy_of_isPlain {kind : NodeKind} (hKind : kind.IsPlain) : Copy token kind [] where
  childless := by simp
  isProper := ⟨hKind.1, hKind.2.1, hKind.2.2.1⟩
  transcribes _ := .other hKind.2.2.2

theorem copy_word : Copy token .identifier [(.ident, .text token.text)] where
  childless := by simp
  isProper := by simp
  transcribes _ := .word (List.mem_singleton_self token)

theorem copy_literal {value : FieldValue} (hKind : token.kind ≠ .regularExpression)
    (hValue : value.filled = []) :
    Copy token .literal [(.value, value), (.raw, .text token.text)] where
  childless := by simp [hValue]
  isProper := by simp
  transcribes _ := .literal (List.mem_singleton_self token) hKind (by simp)

end Field

namespace Production

open Node

variable {α : Type} {moved : Bool} {context : Context} {origin cursor : Cursor}
  {read : List Node} {property : α → Cursor → Prop}

/-- The offset at which the reading of a part starts. -/
theorem Yields.startOffset_bind {next : Nat → Production α}
    (h : ∀ start, cursor.StartsAt start → Yields (next start) context cursor property) :
    Yields (startOffset >>= next) context cursor property := by
  refine h _ fun token hToken => ?_
  rw [Option.mem_def.mp hToken]
  rfl

theorem collects_bump : Collects false bump fun _ => [] := by
  intro context cursor hOrder
  refine .modify ?_
  cases hRest : cursor.rest with
  | nil => exact Reads.refl hOrder
  | cons lexeme rest => exact ⟨⟨_, by simp, Takes.bump hOrder hRest⟩, Stores.refl _⟩

/-- Changing the list of defaults that wait for a pattern. -/
theorem collects_modify_defaults (change : Cursor → List Nat) :
    Collects false (modify fun cursor => { cursor with shorthandDefaults := change cursor })
      fun _ => [] :=
  fun _ _ hOrder => .modify ((Reads.refl hOrder).withDefaults _)

/-- Moving past a token that is there takes it. -/
theorem Yields.bump_of_current {token : Token} (hToken : cursor.current? = some token)
    (h : Reads moved origin read cursor) :
    Yields bump context cursor fun _ later => Reads true origin read later := by
  refine .modify ?_
  cases hRest : cursor.rest with
  | nil => simp [Cursor.current?, hRest] at hToken
  | cons lexeme rest =>
      have hBump : Reads true cursor []
          { cursor with previousEnd := lexeme.token.span.stop, rest } :=
        ⟨⟨_, by simp, Takes.bump h.inOrder hRest⟩, Stores.refl _⟩
      have hReads := h.trans hBump
      rwa [Bool.or_true, List.append_nil] at hReads

/-- Moving past a token with a text, if it is there. -/
theorem Yields.eat {text : String} (h : Reads moved origin read cursor) :
    Yields (eat text) context cursor fun found later =>
      Reads (moved || found) origin read later := by
  refine .get_bind (.ite (fun hText => ?_) fun _ => .pure ?_)
  · obtain ⟨token, hToken⟩ := Cursor.exists_current_of_atText hText
    refine (Yields.bump_of_current hToken h).bind fun _ later hLater => .pure ?_
    rwa [Bool.or_true]
  · rwa [Bool.or_false]

theorem collects_eat (text : String) : Collects false (eat text) fun _ => [] :=
  fun _ _ hOrder => (Yields.eat (Reads.refl hOrder)).imp fun _ _ hLater => hLater.weaken

/-- A token that is not there is not moved past. -/
theorem yields_eat_eq (text : String) : Yields (Production.eat text) context cursor
    fun found later => found = false → later = cursor :=
  .get_bind (.ite (fun _ => .skip fun _ _ => .pure (by simp)) fun _ => .pure fun _ => rfl)

theorem yields_bump_tokens {token : Token} (hToken : cursor.current? = some token) :
    Yields bump context cursor fun _ later => cursor.tokens = token :: later.tokens := by
  refine .modify ?_
  cases hRest : cursor.rest with
  | nil => simp [Cursor.current?, hRest] at hToken
  | cons lexeme rest =>
      obtain rfl : lexeme.token = token := by simpa [Cursor.current?, hRest] using hToken
      simp [Cursor.tokens, hRest]

theorem yields_expect_tokens (text : String) : Yields (expect text) context cursor
    fun _ later => ∃ token : Token, token.text = text ∧ cursor.tokens = token :: later.tokens := by
  have hEat : Yields (Production.eat text) context cursor fun found later => found = true →
      ∃ token : Token, token.text = text ∧ cursor.tokens = token :: later.tokens := by
    refine .get_bind (.ite (fun hText => ?_) fun _ => .pure (by simp))
    obtain ⟨token, hToken⟩ := Cursor.exists_current_of_atText hText
    exact (yields_bump_tokens hToken).bind fun _ _ h => .pure fun _ =>
      ⟨token, Cursor.text_eq_of_atText hText hToken, h⟩
  exact hEat.bind fun found _ h => .ite (fun hFound => .pure (h hFound)) fun _ => .unexpected

theorem collects_expect (text : String) : Collects true (expect text) fun _ => [] := by
  intro context cursor hOrder
  refine (Yields.eat (Reads.refl hOrder)).bind fun found later hLater => ?_
  refine .ite (fun hFound => .pure ?_) fun _ => .unexpected
  rwa [hFound] at hLater

/-- Asking for a feature moves nothing. -/
theorem Yields.require {feature : Feature} {offset : Nat} {property : Unit → Cursor → Prop}
    (h : property () cursor) : Yields (require feature offset) context cursor property :=
  .read_bind (.ite (fun _ => .pure h) fun _ => .fault)

theorem Yields.require_bind {feature : Feature} {offset : Nat} {next : Unit → Production α}
    (h : Yields (next ()) context cursor property) :
    Yields (Production.require feature offset >>= next) context cursor property := by
  have hSame : Yields (Production.require feature offset) context cursor
      fun _ later => later = cursor := .require rfl
  exact hSame.bind fun _ _ hLater => hLater ▸ h

theorem collects_newlineBefore : Collects false newlineBefore fun _ => [] := by
  intro context cursor hOrder
  refine .get_bind ?_
  split
  · exact .read_bind (.pure (Reads.refl hOrder))
  · exact .pure (Reads.refl hOrder)

theorem yields_newlineBefore_eq :
    Yields newlineBefore context cursor fun _ later => later = cursor := by
  refine .get_bind ?_
  split
  · exact .read_bind (.pure rfl)
  · exact .pure rfl

theorem collects_atStatementEnd : Collects false atStatementEnd fun _ => [] := by
  intro context cursor hOrder
  refine .get_bind ?_
  exact collects_newlineBefore.skipAfter (Reads.refl hOrder) fun _ _ h => .pure h

theorem collects_semicolon : Collects false semicolon fun _ => [] := by
  intro context cursor hOrder
  refine (collects_eat ";").skipAfter (Reads.refl hOrder) fun _ _ h => ?_
  refine .ite (fun _ => .pure h) fun _ => ?_
  refine collects_atStatementEnd.skipAfter h fun _ _ h => ?_
  exact .ite (fun _ => .pure h) fun _ => .unexpected

/-- What making a node does. -/
theorem Yields.store {kind : NodeKind} {span : Span} {fields : List (FieldName × FieldValue)}
    {property : Node → Cursor → Prop}
    (h : ∀ node, node = .mk cursor.arena.size kind span fields →
      property node { cursor with arena := cursor.arena.push node.cell }) :
    Yields (store kind span fields) context cursor property := by
  rintro _ _ ⟨⟩
  exact h _ rfl

/-- Making a node over everything taken since the origin, with the nodes read since then as its
children. The children of a template come in another order than they were read. -/
theorem Yields.finish_of_takes {kind : NodeKind} {start : Nat}
    {fields : List (FieldName × FieldValue)} {taken : List Token} {arena : Arena}
    (hTakes : Takes origin taken read cursor) (hTaken : taken ≠ [])
    (hStores : Stores arena read cursor.arena) (hStart : origin.StartsAt start)
    (hPerm : (Field.filledIn fields).Perm read)
    (hOrder : kind ≠ .templateLiteral → Field.filledIn fields = read) (hKind : kind ≠ .program)
    (hPlain : ∀ field ∈ fields, field.1 = .operator → field.2.filled = [])
    (hFrom : kind = .objectExpression → ∀ child ∈ read, start < child.span.start)
    (hGroups : ∀ id, (Node.mk id kind ⟨start, cursor.previousEnd⟩ fields).Groups taken)
    (hTranscribes : ∀ id,
      (Node.mk id kind ⟨start, cursor.previousEnd⟩ fields).Transcribes taken) :
    Yields (finish kind start fields) context cursor fun node later =>
      Takes origin taken [node] later ∧ Stores arena [node] later.arena ∧
        node.Spans origin later := by
  refine .get_bind (.store ?_)
  rintro node hNode
  obtain ⟨hBounds, hEnd⟩ := hTakes.bounds hTaken hStart
  have hChildren : node.children = Field.filledIn fields := by
    rw [children_eq_filledIn, hNode, Node.fields]
  have hSpan : node.span = ⟨start, max cursor.previousEnd start⟩ := by rw [hNode, Node.span]
  rw [← hChildren] at hPerm hOrder
  have hAligned : node.Aligned taken := by
    refine hTakes.aligned_of_children (hSpan ▸ hBounds) hPerm (fun hKind => hOrder ?_) ?_ ?_ ?_
    · rwa [hNode] at hKind
    · refine ⟨by rwa [hNode], by rwa [hNode], fun hObject child hChild => ?_⟩
      rw [hSpan]
      exact hFrom (by rwa [hNode] at hObject) child (hPerm.subset hChild)
    · rw [hNode, ← hEnd]
      exact hGroups _
    · rw [hNode, ← hEnd]
      exact hTranscribes _
  refine ⟨?_, hStores.push (by rw [hNode, Node.id]) hPerm, ?_, ?_⟩
  · refine (hTakes.node hAligned fun below hBelow => ?_).congr rfl rfl
    exact hTakes.aligned below ((forest_perm hPerm).subset hBelow)
  · rwa [hSpan]
  · exact (congrArg Span.stop hSpan).trans hEnd.symm

/-- As `finish_of_takes`, for what was read since the origin. -/
theorem Yields.finish_of_perm {kind : NodeKind} {start : Nat}
    {fields : List (FieldName × FieldValue)} (h : Reads true origin read cursor)
    (hStart : origin.StartsAt start) (hPerm : (Field.filledIn fields).Perm read)
    (hOrder : kind ≠ .templateLiteral → Field.filledIn fields = read) (hKind : kind ≠ .program)
    (hPlain : ∀ field ∈ fields, field.1 = .operator → field.2.filled = [])
    (hFrom : kind = .objectExpression → ∀ child ∈ read, start < child.span.start)
    (hOperation : kind.isOperation = false) (hVerbatim : kind.isVerbatim = false) :
    Yields (Production.finish kind start fields) context cursor fun node later =>
      Reads true origin [node] later ∧ node.Spans origin later := by
  obtain ⟨⟨taken, hTaken, hTakes⟩, hStores⟩ := h
  refine (Yields.finish_of_takes hTakes (hTaken rfl) hStores hStart hPerm hOrder hKind
    hPlain hFrom (fun _ => groups_of_not_isOperation hOperation) fun _ => .other hVerbatim).imp ?_
  rintro node later ⟨hTakes, hStores, hSpans⟩
  exact ⟨⟨⟨taken, hTaken, hTakes⟩, hStores⟩, hSpans⟩

/-- Making a node of everything read since the origin. -/
theorem Yields.finish {kind : NodeKind} {start : Nat} {fields : List (FieldName × FieldValue)}
    (h : Reads true origin read cursor) (hStart : origin.StartsAt start)
    (hFields : Field.Hold kind fields read) :
    Yields (finish kind start fields) context cursor fun node later =>
      Reads true origin [node] later ∧ node.Spans origin later :=
  .finish_of_perm h hStart (hFields.1 ▸ List.Perm.refl _) (fun _ => hFields.1) hFields.2.1.1
    hFields.2.2 (fun hObject => absurd hObject hFields.2.1.2.1) hFields.2.1.2.2.1
    hFields.2.1.2.2.2

/-- Making a node of everything read since the origin, where only the node counts. -/
theorem Yields.finishNode {kind : NodeKind} {start : Nat} {fields : List (FieldName × FieldValue)}
    (h : Reads true origin read cursor) (hStart : origin.StartsAt start)
    (hFields : Field.Hold kind fields read) :
    Yields (Production.finish kind start fields) context cursor fun node later =>
      Reads true origin [node] later :=
  (Yields.finish h hStart hFields).imp fun _ _ hNode => hNode.1

/-- A node for the first token taken since the origin, with nothing below it. -/
structure IsLeaf (node : Node) (origin : Cursor) : Prop where
  children_eq : node.children = []
  startsAt : origin.StartsAt node.span.start

/-- Making a node of the first token taken since the origin. -/
theorem Yields.leaf {kind : NodeKind} {token : Token} {fields : List (FieldName × FieldValue)}
    (h : Reads true origin [] cursor) (hToken : origin.current? = some token)
    (hFields : Field.Copy token kind fields) :
    Yields (Production.store kind token.span fields) context cursor fun node later =>
      Reads true origin [node] later ∧ IsLeaf node origin := by
  refine .store ?_
  rintro node hNode
  obtain ⟨⟨taken, hTaken, hTakes⟩, hStores⟩ := h
  obtain ⟨first, rest, rfl⟩ := List.exists_cons_of_ne_nil (hTaken rfl)
  obtain rfl : first = token := by
    rw [Cursor.current?_eq, hTakes.tokens_eq] at hToken
    exact Option.some.inj hToken
  have hChildren : node.children = [] := by
    rw [children_eq_filledIn, hNode, Node.fields, hFields.filledIn_eq]
  have hAligned : node.Aligned (first :: rest) :=
    { toNests := nests_of_children_eq_nil hChildren
      start_lt_stop := by
        rw [hNode]
        exact hTakes.inOrder_taken.nonempty first List.mem_cons_self
      start_mem := ⟨first, List.mem_cons_self, by rw [hNode, Node.span]⟩
      stop_mem := ⟨first, List.mem_cons_self, by rw [hNode, Node.span]⟩
      isPart := by
        rw [hNode]
        exact ⟨hFields.isProper.1, fun field hField _ => hFields.childless field hField,
          fun hObject => absurd hObject hFields.isProper.2.1⟩
      groups := by
        rw [hNode]
        exact groups_of_not_isOperation hFields.isProper.2.2
      transcribes := by
        rw [hNode]
        exact (hFields.transcribes _).mono ⟨[], rest, rfl⟩ }
  have hId : node.id = cursor.arena.size := by rw [hNode, Node.id]
  have hPush := hStores.push hId (hChildren ▸ List.Perm.refl _)
  refine ⟨⟨⟨first :: rest, hTaken, ?_⟩, hPush⟩, hChildren, ?_⟩
  · exact (hTakes.node hAligned (by simp [hChildren])).congr rfl rfl
  · intro other hOther
    rw [hNode, Node.span, Option.some.inj (hToken.symm.trans hOther)]

/-- Turning what was read since the origin into a target. -/
theorem Yields.toTarget {expression : Node} (h : Reads moved origin [expression] cursor) :
    Yields (Grammar.toTarget expression) context cursor fun target later =>
      Reads moved origin [target] later := by
  unfold Grammar.toTarget
  split
  · exact .throw
  case h_2 target hTarget =>
    refine .bind (.modify ?_) fun _ _ hLater => .pure hLater
    obtain ⟨⟨taken, hTaken, hTakes⟩, hStores⟩ := h
    have hTurned := turned_of_toTarget expression
      (fun node hNode => (hTakes.aligned node hNode).isPart.operatorIsPlain) hTarget
    have hForest : ∀ node : Node, forest [node] = node.subtree := fun node =>
      List.flatMap_singleton _ _
    have hBelow : ∀ node ∈ forest [target], ∃ old ∈ forest [expression], node.Resembles old := by
      rw [hForest, hForest]
      exact hTurned.below
    refine ⟨⟨taken, hTaken, Takes.congr (hTakes.replace ?_ ?_) rfl rfl⟩, hStores.rewrite ?_ ?_⟩
    · intro node hNode
      obtain ⟨old, hOld, hResembles⟩ := hBelow node hNode
      exact hResembles.aligned (hTakes.aligned old hOld)
    · exact List.pairwise_singleton _ _
    · rw [hForest, hForest, hTurned.ids_eq]
    · intro node hNode
      obtain ⟨old, hOld, hResembles⟩ := hBelow node hNode
      exact ⟨old, hOld, hResembles.id_eq.symm, hResembles.children_ids.symm⟩

end Production

/-- Between two cursors there is a node over all tokens, or one in parentheses. -/
def Node.Fills (node : Node) (before after : Cursor) : Prop :=
  ∃ taken, before.tokens = taken ++ after.tokens ∧ node.IsWrapped taken

/-- A node that was read between two cursors and leaves out nothing but parentheses around it. -/
structure ReadsWhole (before : Cursor) (node : Node) (after : Cursor) : Prop where
  reads : Reads true before [node] after
  fills : node.Fills before after

theorem ReadsWhole.of_spans {before after : Cursor} {node : Node}
    (h : Reads true before [node] after ∧ node.Spans before after) :
    ReadsWhole before node after := by
  refine ⟨h.1, ?_⟩
  obtain ⟨taken, hTaken, hTakes⟩ := h.1.takes
  obtain ⟨hBounds, hEnd⟩ := hTakes.bounds (hTaken rfl) h.2.1
  rw [← hEnd, ← h.2.2] at hBounds
  exact ⟨taken, hTakes.tokens_eq, .bare hBounds⟩

namespace Production

section

variable {context : Context} {origin cursor : Cursor}

/-- A production reads a node and leaves out nothing but parentheses around it. -/
def IsWhole (production : Production Node) : Prop :=
  ∀ context cursor, Token.InOrder cursor.tokens →
    Yields production context cursor fun node later => ReadsWhole cursor node later

theorem IsWhole.readsNode {production : Production Node} (h : IsWhole production) :
    ReadsNode production := fun context cursor hOrder =>
  (h context cursor hOrder).imp fun _ _ hNode => hNode.reads

theorem IsWhole.allowIn {production : Production Node} (h : IsWhole production) :
    IsWhole (Production.allowIn production) := fun _ cursor hOrder =>
  .withReader (h _ cursor hOrder)

theorem IsWhole.nested {production : Production Node} (h : IsWhole production) :
    IsWhole (Production.nested production) := fun _ cursor hOrder =>
  .read_bind (.ite (fun _ => .skip fun _ _ => .fault) fun _ => .withReader (h _ cursor hOrder))

/-- Making a node of everything read since the origin, which leaves out nothing. -/
theorem Yields.finishWhole {kind : NodeKind} {start : Nat} {fields : List (FieldName × FieldValue)}
    {read : List Node} (h : Reads true origin read cursor) (hStart : origin.StartsAt start)
    (hFields : Field.Hold kind fields read) :
    Yields (Production.finish kind start fields) context cursor
      fun node later => ReadsWhole origin node later :=
  (Yields.finish h hStart hFields).imp fun _ _ hNode => .of_spans hNode

/-- Making a node of the only token taken since the origin. -/
theorem Yields.leafWhole {kind : NodeKind} {token : Token} {fields : List (FieldName × FieldValue)}
    (h : Reads true origin [] cursor) (hTokens : origin.tokens = token :: cursor.tokens)
    (hFields : Field.Copy token kind fields) :
    Yields (Production.store kind token.span fields) context cursor
      fun node later => ReadsWhole origin node later := by
  have hToken : origin.current? = some token := by rw [Cursor.current?_eq, hTokens, List.head?_cons]
  have hSpan : Yields (Production.store kind token.span fields) context cursor
      fun node later => later.tokens = cursor.tokens ∧ node.span = token.span :=
    .store fun node hNode => ⟨rfl, by rw [hNode, Node.span]⟩
  refine ((Yields.leaf h hToken hFields).and hSpan).imp ?_
  rintro node later ⟨⟨hReads, -⟩, hLater, hSpan⟩
  refine ⟨hReads, [token], by rw [hTokens, hLater, List.singleton_append], .bare ?_⟩
  rw [hSpan]
  exact ⟨⟨token, rfl, rfl⟩, token, rfl, rfl⟩

/-- Moving past a token, where what comes next knows that it was the only one. -/
theorem Yields.bump_bind {α : Type} {token : Token} {next : Unit → Production α}
    {property : α → Cursor → Prop} (hToken : cursor.current? = some token)
    (hOrder : Token.InOrder cursor.tokens)
    (hNext : ∀ later, Reads true cursor [] later → cursor.tokens = token :: later.tokens →
      Yields (next ()) context later property) : Yields (bump >>= next) context cursor property :=
  ((Yields.bump_of_current hToken (Reads.refl hOrder)).and (yields_bump_tokens hToken)).bind
    fun _ later h => hNext later h.1 h.2

/-- Behind a node that was read a token may follow. -/
theorem Yields.eatBehind {node : Node} {text : String} (h : ReadsWhole origin node cursor) :
    Yields (Production.eat text) context cursor fun found later =>
      Reads true origin [node] later ∧ (found = false → ReadsWhole origin node later) := by
  refine ((collects_eat text).passAfter h.reads).and ?_
  exact (yields_eat_eq text).imp fun found later hSame hFound => hSame hFound ▸ h

end

/-- A production reads a node that spans all that it reads. -/
def ReadsSpan (production : Production Node) : Prop :=
  ∀ context cursor, Token.InOrder cursor.tokens →
    Yields production context cursor fun node later =>
      Reads true cursor [node] later ∧ node.Spans cursor later

theorem ReadsSpan.readsNode {production : Production Node} (h : ReadsSpan production) :
    ReadsNode production := fun context cursor hOrder =>
  (h context cursor hOrder).imp fun _ _ hNode => hNode.1

theorem ReadsSpan.nested {production : Production Node} (h : ReadsSpan production) :
    ReadsSpan (Production.nested production) := by
  intro context cursor hOrder
  refine .read_bind (.ite (fun _ => ?_) fun _ => .withReader (h _ cursor hOrder))
  exact .bind (fun _ _ _ => trivial) fun _ _ _ => .fault

theorem isWhole_identifier : IsWhole identifier := by
  intro context cursor hOrder
  refine .get_bind ?_
  cases hToken : cursor.current? with
  | none => exact .unexpected
  | some token =>
      refine .ite (fun _ => ?_) fun _ => .unexpected
      exact .bump_bind hToken hOrder fun _ h hTokens => .leafWhole h hTokens Field.copy_word

/-- A word read as a name has nothing below it. -/
theorem yields_identifierName {context : Context} {cursor : Cursor}
    (hOrder : Token.InOrder cursor.tokens) :
    Yields identifierName context cursor fun node later =>
      Reads true cursor [node] later ∧ IsLeaf node cursor ∧ node.kind = .identifier := by
  refine .get_bind ?_
  cases hToken : cursor.current? with
  | none => exact .unexpected
  | some token =>
      refine .ite (fun _ => ?_) fun _ => .unexpected
      refine (Yields.bump_of_current hToken (Reads.refl hOrder)).bind fun _ later h => ?_
      refine ((Yields.leaf h hToken Field.copy_word).and (.store fun node hNode => ?_)).imp
        fun _ _ h => ⟨h.1.1, h.1.2, h.2⟩
      rw [hNode, Node.kind]

theorem readsNode_identifier : ReadsNode identifier := isWhole_identifier.readsNode

theorem readsNode_identifierName : ReadsNode identifierName := fun _ _ hOrder =>
  (yields_identifierName hOrder).imp fun _ _ hNode => hNode.1

end Production

open Production

/-- If a node is an operation with two operands, it stands in parentheses: it starts behind the
first token between two cursors and ends before the last one. -/
def Node.IsOperand (node : Node) (before after : Cursor) : Prop :=
  node.kind.isOperation = true →
    (∃ token, before.current? = some token ∧ token.span.start < node.span.start) ∧
      node.span.stop < after.previousEnd

/-- The operator of a node binds at least as tightly as some precedence. -/
def Node.BindsAtLeast (node : Node) (precedence : Nat) : Prop :=
  ∃ operator binding, node.text? .operator = some operator ∧
    Operator.precedence? operator = some binding ∧ precedence ≤ binding

/-- No operator at a cursor binds as tightly as some precedence. -/
def Cursor.Stops (cursor : Cursor) (context : Context) (precedence : Nat) : Prop :=
  ∀ operator binding,
    Grammar.binaryOperator? context.withoutIn cursor = some (operator, binding) →
      binding < precedence

/-- A production reads operations with two operands in parentheses only. -/
def Production.ReadsOperand (production : Production Node) : Prop :=
  ∀ context cursor, Token.InOrder cursor.tokens →
    Yields production context cursor fun node later => node.IsOperand cursor later

/-- What stands between operators that bind more loosely than some precedence. -/
structure Node.IsTerm (node : Node) (context : Context) (precedence : Nat) (after : Cursor) :
    Prop where
  /-- The last operator binds that tightly, if it is not in parentheses. -/
  binds : node.kind.isOperation = true → node.span.stop = after.previousEnd →
    node.BindsAtLeast precedence
  stops : after.Stops context precedence

/-- A production reads all that is joined by operators down to some precedence. -/
def Production.ReadsTerm (precedence : Nat) (production : Production Node) : Prop :=
  ∀ context cursor, Token.InOrder cursor.tokens →
    Yields production context cursor fun node later => node.IsTerm context precedence later

/-- What a grammar reads as the operands of operations. -/
structure Grammar.ReadsOperands (G : Grammar Production) : Prop where
  binary : ∀ minimum, ReadsTerm minimum (G.binary minimum)
  unary : ReadsOperand G.unary
  leftHandSide : ReadsOperand G.leftHandSide
  newExpression : ReadsOperand G.newExpression

/-- What a grammar reads as expressions. -/
structure Grammar.ReadsExpressions (G : Grammar Production) : Prop where
  assignment : IsWhole G.assignment
  binary : ∀ minimum, IsWhole (G.binary minimum)
  unary : IsWhole G.unary
  leftHandSide : IsWhole G.leftHandSide
  newExpression : IsWhole G.newExpression

/-- All that the grammar can come back to reads nodes. -/
structure Grammar.ReadsNodes (G : Grammar Production) : Prop where
  statement : ReadsSpan G.statement
  expressions : G.ReadsExpressions
  bindingTarget : ReadsNode G.bindingTarget
  operands : G.ReadsOperands

namespace Grammar.ReadsNodes

variable {G : Grammar Production}

theorem assignment (hG : G.ReadsNodes) : ReadsNode G.assignment :=
  hG.expressions.assignment.readsNode

theorem binary (hG : G.ReadsNodes) (minimum : Nat) : ReadsNode (G.binary minimum) :=
  (hG.expressions.binary minimum).readsNode

theorem unary (hG : G.ReadsNodes) : ReadsNode G.unary := hG.expressions.unary.readsNode

theorem leftHandSide (hG : G.ReadsNodes) : ReadsNode G.leftHandSide :=
  hG.expressions.leftHandSide.readsNode

theorem newExpression (hG : G.ReadsNodes) : ReadsNode G.newExpression :=
  hG.expressions.newExpression.readsNode

theorem isWhole_expression (hG : G.ReadsNodes) : IsWhole G.expression := by
  intro context cursor hOrder
  refine .startOffset_bind fun start hStart => ?_
  refine (hG.expressions.assignment context cursor hOrder).bind fun first later hFirst => ?_
  refine .get_bind (.ite (fun _ => ?_) fun _ => .pure hFirst)
  refine .iterate_bind (Reads true cursor) (Reads true cursor) hFirst.reads
    (fun seen later h => ?_) fun expressions later h => ?_
  · refine (collects_eat ",").skipAfter h fun _ later h => ?_
    refine .ite (fun _ => ?_) fun _ => .pure h
    exact hG.assignment.bindAfter h fun _ _ h => .pure h
  · exact .finishWhole h hStart (by simp [Field.Hold])

theorem expression (hG : G.ReadsNodes) : ReadsNode G.expression := hG.isWhole_expression.readsNode

theorem parenthesized (hG : G.ReadsNodes) : ReadsNode G.parenthesized := by
  intro context cursor hOrder
  refine (collects_expect "(").skipAfter (Reads.refl hOrder) fun _ later h => ?_
  refine hG.expression.allowIn.bindAfter h fun inner later h => ?_
  refine (collects_expect ")").skipAfter h fun _ later h => ?_
  exact .pure h

theorem block (hG : G.ReadsNodes) : ReadsSpan G.block := by
  intro context cursor hOrder
  refine .startOffset_bind fun start hStart => ?_
  refine (collects_expect "\x7b").skipAfter (Reads.refl hOrder) fun _ later h => ?_
  refine .iterate_bind (Reads true cursor) (Reads true cursor) h
    (fun seen later h => ?_) fun body later h => ?_
  · refine .get_bind (.ite (fun _ => .pure h) fun _ => .ite (fun _ => .unexpected) fun _ => ?_)
    exact hG.statement.readsNode.bindAfter h fun _ _ h => .pure h
  · refine collects_bump.skipAfter h fun _ later h => ?_
    exact .finish h hStart (by simp [Field.Hold])

end Grammar.ReadsNodes

end EcmaLint
