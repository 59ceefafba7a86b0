import EcmaLint.Grammar.Literal
import EcmaLint.Grammar.Pattern
import EcmaLint.Proofs.Grammar.Steps

/-! What literals, templates and names of properties read. The nodes of a template are read in
turn, a piece and an expression, and put into two lists.

What binding patterns read. In `{ a }` and `{ a = 1 }` one token is the name of a property and
its value, or the target of the default that is its value; there are two nodes for it, and the
second is made after the first. -/
namespace EcmaLint

namespace Grammar

open Production

variable {G : Grammar Production} {context : Context} {origin cursor : Cursor} {token : Token}

theorem yields_literal {value : FieldValue} (h : Reads true origin [] cursor)
    (hToken : origin.current? = some token) (hKind : token.kind ≠ .regularExpression)
    (hValue : value.filled = []) :
    Yields (literal token value) context cursor fun node later =>
      Reads true origin [node] later ∧ IsLeaf node origin :=
  .leaf h hToken (Field.copy_literal hKind hValue)

theorem yields_numericLiteral (hOrder : Token.InOrder cursor.tokens)
    (hToken : cursor.current? = some token) (hKind : token.kind ≠ .regularExpression) :
    Yields (numericLiteral token) context cursor
      fun node later => ReadsWhole cursor node later := by
  refine .bump_bind hToken hOrder fun later h hTokens => .ite (fun _ => ?_) fun _ => ?_
  · refine .require_bind (.leafWhole h hTokens ⟨by simp, by simp, fun _ => ?_⟩)
    exact .literal (List.mem_singleton_self token) hKind (by simp)
  · exact .leafWhole h hTokens (Field.copy_literal hKind (by simp))

/-- The tokens at a cursor open a piece of a template, the first one or a later one. -/
def OpensPiece (isFirst : Bool) (cursor : Cursor) : Prop :=
  ∀ token ∈ cursor.current?, token.text.toList.head? = some (if isFirst then '`' else '}')

theorem opensPiece_of_atTemplateHead (h : atTemplateHead cursor = true) :
    OpensPiece true cursor := by
  intro token hToken
  rw [atTemplateHead, Option.mem_def.mp hToken] at h
  simpa using (Bool.and_eq_true_iff.mp h).2

theorem opensPiece_of_atTemplateContinuation (h : atTemplateContinuation cursor = true) :
    OpensPiece false cursor := by
  intro token hToken
  rw [atTemplateContinuation, Option.mem_def.mp hToken] at h
  simpa using (Bool.and_eq_true_iff.mp h).2

/-- Making a piece of a template behind its token. -/
theorem yields_templateElement {isFirst : Bool} (h : Reads true origin [] cursor)
    (hTokens : origin.tokens = token :: cursor.tokens) (hKind : token.kind = .template)
    (hOpens : OpensPiece isFirst origin) :
    Yields (templateElement token) context cursor fun quasi later =>
      Takes origin [token] [quasi] later ∧ Stores origin.arena [quasi] later.arena ∧
        quasi.IsPiece isFirst (isTail token.text.toList) token := by
  have hToken : origin.current? = some token := by rw [Cursor.current?_eq, hTokens, List.head?_cons]
  have hPiece : ∀ {quasi : Node}, Makes (templateElement token) quasi →
      quasi.IsPiece isFirst (isTail token.text.toList) token := fun hMade =>
    ⟨hKind, hOpens token hToken, rfl, hMade⟩
  have hStays : Yields (templateElement token) context cursor
      fun _ later => later.tokens = cursor.tokens := .store fun _ _ => rfl
  have hMakes : Yields (templateElement token) context cursor
      fun quasi later => Makes (templateElement token) quasi ∧ later.tokens = cursor.tokens :=
    fun _ later hRun => ⟨⟨_, _, later, hRun⟩, hStays _ later hRun⟩
  refine (Yields.and (.leaf h hToken ⟨by simp, by simp, fun id => ?_⟩) hMakes).imp ?_
  · exact .piece (List.mem_singleton_self token) (hPiece (makes_store_iff.mpr ⟨id, rfl⟩))
  rintro quasi later ⟨⟨hReads, -⟩, hMade, hLater⟩
  refine ⟨hReads.takes_of_tokens_eq ?_, hReads.stores, hPiece hMade⟩
  rw [hTokens, hLater, List.singleton_append]

/-- The pieces and the expressions of a template that were read since the origin, and how they
share out the tokens. -/
structure ReadsParts (forms : List Token → List Node → List Node → Prop) (origin : Cursor)
    (parts : List Node × List Node) (cursor : Cursor) : Prop where
  parts : ∃ taken read, Takes origin taken read cursor ∧ Stores origin.arena read cursor.arena ∧
    (parts.1 ++ parts.2).Perm read ∧ forms taken parts.1 parts.2

/-- A piece that is read counts behind the expressions before it. -/
theorem perm_append_piece {quasis expressions read : List Node} (quasi : Node)
    (h : (quasis ++ expressions).Perm read) :
    (quasis ++ [quasi] ++ expressions).Perm (read ++ [quasi]) := by
  rw [List.append_assoc]
  refine (List.Perm.append_left _ List.perm_append_comm).trans ?_
  rw [← List.append_assoc]
  exact h.append_right _

/-- A turn reads a piece, and if a substitution follows, the expression in it. -/
theorem ReadsNodes.templateTurn (hG : G.ReadsNodes) {parts : List Node × List Node}
    (h : ReadsParts Node.OpensTemplate origin parts cursor)
    (hOpens : OpensPiece parts.1.isEmpty cursor) :
    Yields (templateTurn G parts) context cursor (Turn.Meets
      (fun parts later =>
        ReadsParts Node.OpensTemplate origin parts later ∧ OpensPiece parts.1.isEmpty later)
      (ReadsParts (Node.FormsTemplate true) origin)) := by
  obtain ⟨quasis, expressions⟩ := parts
  obtain ⟨taken, read, hTakes, hStores, hPerm, hForms⟩ := h
  refine .get_bind ?_
  cases hToken : cursor.current? with
  | none => exact .unexpected
  | some token =>
      refine .ite (fun _ => .unexpected) fun hKind => ?_
      refine .bump_bind hToken hTakes.inOrder_after fun later hBump hTokens => ?_
      refine (yields_templateElement hBump hTokens (by simpa using hKind) hOpens).bind ?_
      rintro quasi later ⟨hTakesPiece, hStoresPiece, hPiece⟩
      have hTakes := hTakes.trans hTakesPiece
      have hStores := hStores.trans hStoresPiece
      have hPerm := perm_append_piece quasi hPerm
      refine .ite (fun hTail => .pure ⟨_, _, hTakes, hStores, hPerm, ?_⟩) fun hTail => ?_
      · rw [hTail] at hPiece
        exact hForms.close hPiece
      rw [Bool.not_eq_true] at hTail
      rw [hTail] at hPiece
      refine (hG.isWhole_expression.allowIn context later hTakes.inOrder_after).bind ?_
      rintro inner after ⟨hReads, inside, hInside, hWrapped⟩
      refine .get_bind (.ite (fun hNext => .pure ⟨⟨_, _,
        hTakes.trans (hReads.takes_of_tokens_eq hInside), hStores.trans hReads.stores, ?_, ?_⟩, ?_⟩)
        fun _ => .unexpected_bind)
      · rw [← List.append_assoc]
        exact hPerm.append_right _
      · rw [List.append_assoc]
        exact hForms.append hPiece hWrapped
      · rw [show (quasis ++ [quasi]).isEmpty = false by simp]
        exact opensPiece_of_atTemplateContinuation hNext

theorem ReadsNodes.template (hG : G.ReadsNodes) (hOrder : Token.InOrder cursor.tokens)
    (hHead : atTemplateHead cursor = true) :
    Yields (template G) context cursor fun node later =>
      Reads true cursor [node] later ∧ node.Spans cursor later := by
  refine .startOffset_bind fun start hStart => ?_
  refine .require_bind ?_
  refine .iterate_bind
    (fun parts later =>
      ReadsParts Node.OpensTemplate cursor parts later ∧ OpensPiece parts.1.isEmpty later)
    (ReadsParts (Node.FormsTemplate true) cursor)
    ⟨⟨[], [], Takes.refl hOrder, Stores.refl _, List.Perm.refl _, Node.opensTemplate_nil⟩,
      opensPiece_of_atTemplateHead hHead⟩
    (fun parts later h => hG.templateTurn h.1 h.2) ?_
  rintro ⟨quasis, expressions⟩ later ⟨taken, read, hTakes, hStores, hPerm, hForms⟩
  have hTaken : taken ≠ [] := by
    obtain ⟨_, _, _, _, rfl, -⟩ := hForms.exists_cons
    simp
  obtain ⟨hBounds, hEnd⟩ := hTakes.bounds hTaken hStart
  refine (Yields.finish_of_takes hTakes hTaken hStores hStart ?_ (absurd rfl) (by simp) (by simp)
    (by simp) (fun _ => Node.groups_of_not_isOperation rfl) fun _ => ?_).imp ?_
  · simpa using hPerm
  · rw [← hEnd] at hBounds
    exact .template List.infix_rfl hBounds hForms
  · rintro node later ⟨hTakes, hStores, hSpans⟩
    exact ⟨⟨⟨taken, fun _ => hTaken, hTakes⟩, hStores⟩, hSpans⟩

/-- A name without brackets has nothing below it, and it is read as a word where one stands. -/
structure IsKey (key : Node × Bool) (origin : Cursor) : Prop where
  isLeaf : key.2 = false → IsLeaf key.1 origin
  isWord : key.2 = false → origin.atIdentifier = true → key.1.kind = .identifier

theorem ReadsNodes.propertyKey (hG : G.ReadsNodes) (hOrder : Token.InOrder cursor.tokens) :
    Yields (propertyKey G) context cursor fun key later =>
      Reads true cursor [key.1] later ∧ IsKey key cursor := by
  have hName : Yields (do return (← identifierName, false)) context cursor fun key later =>
      Reads true cursor [key.1] later ∧ IsKey key cursor :=
    (yields_identifierName hOrder).bind fun _ _ h => .pure ⟨h.1, fun _ => h.2.1, fun _ _ => h.2.2⟩
  refine .get_bind ?_
  cases hToken : cursor.current? with
  | none => exact .unexpected
  | some token =>
      have hLiteral : ∀ value : FieldValue, value.filled = [] → token.kind ≠ .identifier →
          token.kind ≠ .regularExpression →
          Yields (do bump; return (← literal token value, false)) context cursor fun key later =>
            Reads true cursor [key.1] later ∧ IsKey key cursor := by
        intro value hValue hWord hKind
        refine (Yields.bump_of_current hToken (Reads.refl hOrder)).bind fun _ later h => ?_
        refine (yields_literal h hToken hKind hValue).bind fun _ _ h =>
          .pure ⟨h.1, fun _ => h.2, ?_⟩
        simp [Cursor.atIdentifier, hToken, hWord]
      dsimp only
      split
      case h_1 hKind => exact hLiteral _ (by simp) (by simp [hKind]) (by simp [hKind])
      case h_2 hKind => exact hLiteral _ (by simp) (by simp [hKind]) (by simp [hKind])
      · refine .ite (fun _ => ?_) fun _ => hName
        refine .require_bind ?_
        refine collects_bump.skipAfter (Reads.refl hOrder) fun _ later h => ?_
        refine hG.assignment.allowIn.bindAfter h fun key later h => ?_
        exact (collects_expect "]").skipAfter h fun _ _ h => .pure ⟨h, by simp, by simp⟩

end Grammar

open Node Production

/-- A name was read since the origin and then a second time, as the first of some other nodes. -/
structure Clones (origin : Cursor) (name : Node) (nodes : List Node) (cursor : Cursor) : Prop where
  takes : ∃ taken, taken ≠ [] ∧ name.Aligned taken ∧ Takes origin taken nodes cursor
  stores : ∃ between, Stores origin.arena [name] between ∧ Stores between nodes cursor.arena
  isLeaf : IsLeaf name origin

namespace Clones

variable {context : Context} {origin cursor later : Cursor} {name : Node} {nodes : List Node}

/-- Reading on behind the second node of a name. -/
theorem trans {moved : Bool} {more : List Node} (h : Clones origin name nodes cursor)
    (hMore : Reads moved cursor more later) : Clones origin name (nodes ++ more) later := by
  obtain ⟨taken, hTaken, hName, hTakes⟩ := h.takes
  obtain ⟨between, hFirst, hSecond⟩ := h.stores
  obtain ⟨⟨takenMore, -, hTakesMore⟩, hStoresMore⟩ := hMore
  exact
    { takes := ⟨taken ++ takenMore, List.append_ne_nil_of_left_ne_nil hTaken _,
        hName.mono List.infix_append_left, hTakes.trans hTakesMore⟩
      stores := ⟨between, hFirst, hSecond.trans hStoresMore⟩
      isLeaf := h.isLeaf }

theorem inOrder (h : Clones origin name nodes cursor) : Token.InOrder cursor.tokens := by
  obtain ⟨taken, -, -, hTakes⟩ := h.takes
  exact hTakes.inOrder_after

theorem bindAfter {α β : Type} {moved : Bool} {production : Production α} {read : α → List Node}
    {next : α → Production β} {property : β → Cursor → Prop}
    (hProduction : Collects moved production read) (h : Clones origin name nodes cursor)
    (hNext : ∀ value later, Clones origin name (nodes ++ read value) later →
      Yields (next value) context later property) :
    Yields (production >>= next) context cursor property :=
  (hProduction context cursor h.inOrder).bind fun value later hRead =>
    hNext value later (h.trans hRead)

theorem skipAfter {α β : Type} {moved : Bool} {production : Production α}
    {next : α → Production β} {property : β → Cursor → Prop}
    (hProduction : Collects moved production fun _ => []) (h : Clones origin name nodes cursor)
    (hNext : ∀ value later, Clones origin name nodes later →
      Yields (next value) context later property) :
    Yields (production >>= next) context cursor property :=
  h.bindAfter hProduction fun value later hLater =>
    hNext value later (by rwa [List.append_nil] at hLater)

end Clones

namespace Grammar

variable {G : Grammar Production} {context : Context} {origin cursor : Cursor} {name : Node}
  {start : Nat}

theorem yields_cloneIdentifier (h : Reads true origin [name] cursor) (hLeaf : IsLeaf name origin)
    (hWord : name.kind = .identifier) :
    Yields (cloneIdentifier name) context cursor fun clone later =>
      Clones origin name [clone] later := by
  refine .store ?_
  rintro clone hClone
  obtain ⟨⟨taken, hTaken, hTakes⟩, hStores⟩ := h
  have hName := hTakes.aligned name (mem_forest_of_mem (List.mem_singleton_self name))
  have hChildren : clone.children = [] := by
    rw [children_eq_filledIn, hClone, Node.fields, ← children_eq_filledIn, hLeaf.children_eq]
  have hSpan : clone.span = name.span := by rw [hClone, Node.span]
  have hAligned : clone.Aligned taken :=
    { toNests := nests_of_children_eq_nil hChildren
      start_lt_stop := hSpan ▸ hName.start_lt_stop
      start_mem := hSpan ▸ hName.start_mem
      stop_mem := hSpan ▸ hName.stop_mem
      isPart := by
        rw [hClone]
        exact ⟨by simp [Node.kind], hName.isPart.operatorIsPlain, by simp [Node.kind]⟩
      groups := by
        rw [hClone]
        exact groups_of_not_isOperation rfl
      transcribes := by
        obtain ⟨token, hToken, hSpan, hFields⟩ := hName.transcribes.exists_word hWord
        rw [hClone, hSpan, hFields]
        exact .word hToken }
  refine ⟨⟨taken, hTaken rfl, hName, ?_⟩, ⟨cursor.arena, hStores, ?_⟩, hLeaf⟩
  · exact (hTakes.node hAligned (by simp [hChildren])).congr rfl rfl
  · exact (Stores.refl _).push (by rw [hClone, Node.id]) (hChildren ▸ List.Perm.refl _)

/-- A second node of a name may get a default. -/
theorem yields_withDefault_of_clones {target value : Node}
    (h : Clones origin name [target, value] cursor) (hStart : origin.StartsAt start) :
    Yields (withDefault start target value) context cursor fun pattern later =>
      Clones origin name [pattern] later := by
  obtain ⟨taken, hTaken, hName, hTakes⟩ := h.takes
  obtain ⟨between, hFirst, hSecond⟩ := h.stores
  refine (Yields.finish_of_takes hTakes hTaken hSecond hStart (by simp) (by simp) (by simp)
    (by simp) (by simp) (fun _ => groups_of_not_isOperation rfl) fun _ => .other rfl).imp ?_
  rintro pattern later ⟨hTakes, hStores, -⟩
  exact ⟨⟨taken, hTaken, hName, hTakes⟩, ⟨between, hFirst, hStores⟩, h.isLeaf⟩

theorem yields_propertyNode {key value : Node} {kind : String} {isMethod shorthand computed : Bool}
    (h : Reads true origin [key, value] cursor) (hStart : origin.StartsAt start) :
    Yields (propertyNode start key value kind isMethod shorthand computed) context cursor
      fun node later => Reads true origin [node] later ∧ node.Spans origin later :=
  .finish h hStart (by simp [Field.Hold])

/-- The name and the value of a shorthand property start together. -/
theorem yields_propertyNode_of_clones {key value : Node} {kind : String} {isMethod computed : Bool}
    (h : Clones origin key [value] cursor) (hStart : origin.StartsAt start) :
    Yields (propertyNode start key value kind isMethod true computed) context cursor
      fun node later => Reads true origin [node] later ∧ node.Spans origin later := by
  obtain ⟨taken, hTaken, hKey, hTakes⟩ := h.takes
  obtain ⟨between, hFirst, hSecond⟩ := h.stores
  -- `finish` wants nodes one behind the other, and these two lie over the same token
  refine .get_bind (.store ?_)
  rintro node hNode
  have hNamed : node.namedChildren = [(.key, key), (.value, value)] := by
    rw [namedChildren_eq_namedIn, hNode, Node.fields]
    simp [Field.namedIn]
  have hChildren : node.children = [key, value] := by
    rw [children, hNamed]
    rfl
  have hSpan : node.span = ⟨start, max cursor.previousEnd start⟩ := by rw [hNode, Node.span]
  obtain ⟨hBounds, hEnd⟩ := hTakes.bounds hTaken hStart
  rw [← hSpan] at hBounds
  have hBelow : ∀ child ∈ [key, value], child.Aligned taken := by
    simpa using ⟨hKey, hTakes.aligned value (mem_forest_of_mem (List.mem_singleton_self value))⟩
  have hKeyStart : key.span.start = node.span.start := by
    obtain ⟨first, hFirst, hFirstStart⟩ := hBounds.head
    have hCurrent : origin.current? = some first := by
      rw [Cursor.current?_eq, hTakes.tokens_eq, List.head?_append, hFirst]
      rfl
    rw [h.isLeaf.startsAt first hCurrent, hFirstStart]
  have hShorthand : node.IsShorthand := by
    rw [hNode]
    exact ⟨rfl, rfl⟩
  have hPart : node.IsPart := by
    rw [hNode]
    exact ⟨by simp [Node.kind], by simp [OperatorIsPlain, Node.fields], by simp [Node.kind]⟩
  have hNests := nests_of_shorthand hNamed hShorthand hKeyStart fun child hChild =>
    (hBelow child hChild).inside_of_bounds hTakes.inOrder_taken hBounds
  have hGroups : node.Groups taken := by
    rw [hNode]
    exact groups_of_not_isOperation rfl
  have hAligned := hNests.aligned hTakes.inOrder_taken hBounds hPart hGroups
    (.other (by rw [hNode]; rfl))
  refine ⟨⟨⟨taken, fun _ => hTaken, ?_⟩,
    (hFirst.trans hSecond).push (by rw [hNode, Node.id]) ?_⟩, ?_, ?_⟩
  · refine (hTakes.node hAligned ?_).congr rfl rfl
    rw [hChildren, forest_cons, subtree_eq, h.isLeaf.children_eq]
    exact List.forall_mem_cons.mpr ⟨hKey, hTakes.aligned⟩
  · rw [hChildren]
    exact List.Perm.refl _
  · rwa [hSpan]
  · exact (congrArg Span.stop hSpan).trans hEnd.symm

namespace ReadsNodes

theorem bindingElement (hG : G.ReadsNodes) : ReadsNode (bindingElement G) := by
  intro context cursor hOrder
  refine .startOffset_bind fun start hStart => ?_
  refine hG.bindingTarget.bindAfter (Reads.refl hOrder) fun target later h => ?_
  refine .get_bind (.ite (fun _ => ?_) fun _ => .pure h)
  refine .startOffset_bind fun _ _ => ?_
  refine .require_bind ?_
  refine collects_bump.skipAfter h fun _ later h => ?_
  refine hG.assignment.allowIn.bindAfter h fun value later h => ?_
  exact .finishNode h hStart (by simp [Field.Hold])

theorem restElement (hG : G.ReadsNodes) : ReadsNode (restElement G) := by
  intro context cursor hOrder
  refine .startOffset_bind fun start hStart => ?_
  refine .require_bind ?_
  refine (collects_expect "...").skipAfter (Reads.refl hOrder) fun _ later h => ?_
  refine hG.bindingTarget.bindAfter h fun argument later h => ?_
  exact .finishNode h hStart (by simp [Field.Hold])

theorem arrayPattern (hG : G.ReadsNodes) : ReadsNode (arrayPattern G) := by
  intro context cursor hOrder
  refine .startOffset_bind fun start hStart => ?_
  refine (collects_expect "[").skipAfter (Reads.refl hOrder) fun _ later h => ?_
  refine .iterate_bind (ReadsSlots true cursor) (ReadsSlots true cursor) h
    (fun seen later h => ?_) fun elements later h => ?_
  · refine .get_bind (.ite (fun _ => .pure h) fun _ => ?_)
    refine (collects_eat ",").skipAfter h fun _ later h => ?_
    refine .ite (fun _ => .pure (ReadsSlots.hole h)) fun _ => ?_
    refine .get_bind (.ite (fun _ => ?_) fun _ => ?_)
    · refine hG.restElement.bindAfter h fun rest later h => ?_
      refine .get_bind (.ite (fun _ => .pure (ReadsSlots.filled h)) fun _ => ?_)
      exact .startOffset_bind fun _ _ => .fault_bind
    · refine hG.bindingElement.bindAfter h fun element later h => ?_
      refine .get_bind (.ensure (fun _ => h) (fun _ => ?_) fun later h => ?_)
      · exact (collects_expect ",").passAfter h
      · exact .pure (ReadsSlots.filled h)
  · refine (collects_expect "]").skipAfter h fun _ later h => ?_
    exact .finishNode h hStart (by simp [Field.Hold])

/-- Reading a property of an object pattern. A shorthand property is one whose name was read as
a word, so there is nothing below it. -/
theorem patternProperty (hG : G.ReadsNodes) : ReadsSpan (patternProperty G) := by
  intro context cursor hOrder
  refine .startOffset_bind fun start hStart => .get_bind ?_
  refine (hG.propertyKey hOrder).bind ?_
  rintro ⟨key, computed⟩ later ⟨h, hKey⟩
  refine (collects_eat ":").skipAfter h fun _ later h => .ite (fun _ => ?_) fun _ => ?_
  · refine hG.bindingElement.bindAfter h fun value later h => ?_
    exact yields_propertyNode h hStart
  refine .ite (fun hShorthand => ?_) fun _ => .unexpected
  obtain ⟨hWord, hComputed⟩ := Bool.and_eq_true_iff.mp hShorthand
  rw [Bool.not_eq_true'] at hComputed
  refine (yields_cloneIdentifier h (hKey.isLeaf hComputed) (hKey.isWord hComputed hWord)).bind
    fun name later h => ?_
  refine h.skipAfter (collects_eat "=") fun _ later h => .ite (fun _ => ?_) fun _ => ?_
  · refine h.bindAfter hG.assignment.allowIn fun value later h => ?_
    refine (yields_withDefault_of_clones h hStart).bind fun pattern later h => ?_
    exact yields_propertyNode_of_clones h hStart
  · exact yields_propertyNode_of_clones h hStart

end ReadsNodes

theorem readsNode_objectRest : ReadsNode objectRest := by
  intro context cursor hOrder
  refine .startOffset_bind fun start hStart => ?_
  refine .require_bind ?_
  refine collects_bump.skipAfter (Reads.refl hOrder) fun _ later h => ?_
  refine readsNode_identifier.bindAfter h fun argument later h => ?_
  exact .finishNode h hStart (by simp [Field.Hold])

namespace ReadsNodes

theorem objectPattern (hG : G.ReadsNodes) : ReadsNode (objectPattern G) := by
  intro context cursor hOrder
  refine .startOffset_bind fun start hStart => ?_
  refine (collects_expect "\x7b").skipAfter (Reads.refl hOrder) fun _ later h => ?_
  refine .iterate_bind (Reads true cursor) (Reads true cursor) h
    (fun seen later h => ?_) fun properties later h => ?_
  · refine .get_bind (.ite (fun _ => .pure h) fun _ => .get_bind (.ite (fun _ => ?_) fun _ => ?_))
    · refine readsNode_objectRest.bindAfter h fun rest later h => ?_
      refine .get_bind (.ite (fun _ => .pure h) fun _ => ?_)
      exact .startOffset_bind fun _ _ => .fault_bind
    · refine hG.patternProperty.readsNode.bindAfter h fun property later h => ?_
      refine .get_bind (.ensure (fun _ => h) (fun _ => ?_) fun later h => .pure h)
      exact (collects_expect ",").passAfter h
  · refine (collects_expect "\x7d").skipAfter h fun _ later h => ?_
    exact .finishNode h hStart (by simp [Field.Hold])

theorem bindingTargetBody (hG : G.ReadsNodes) : ReadsNode (bindingTargetBody G) := by
  intro context cursor hOrder
  refine .get_bind (.ite (fun _ => ?_) fun _ => .ite (fun _ => ?_) fun _ => ?_)
  · refine .startOffset_bind fun _ _ => ?_
    refine .require_bind ?_
    exact hG.arrayPattern.after (Reads.refl hOrder)
  · refine .startOffset_bind fun _ _ => ?_
    refine .require_bind ?_
    exact hG.objectPattern.after (Reads.refl hOrder)
  · exact readsNode_identifier context cursor hOrder

end ReadsNodes
end Grammar

end EcmaLint
