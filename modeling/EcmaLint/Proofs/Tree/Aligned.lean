import EcmaLint.Grammar.Literal
import EcmaLint.Proofs.Token.Order
import EcmaLint.Proofs.Tree.Forest
import EcmaLint.Proofs.Tree.Operations

/-! What nodes repeat of the text. A word and a literal hold the text of one token, and so does a
piece of a template, whose pieces and expressions take turns. An expression in a template may stand
in parentheses, which belong to no node; apart from these it is all that stands between two
pieces.

How the nodes of a tree lie over the tokens that they were read off. A node starts and ends
with tokens, and its children lie inside it, one behind the other. There are two exceptions: the
pieces of a template come before the expressions between them, and in `{ a }` the name and the
value of the property lie over the same token. -/
namespace EcmaLint

/-- Words, literals, templates and their pieces. -/
def NodeKind.isVerbatim (kind : NodeKind) : Bool :=
  kind == .identifier || kind == .literal || kind == .templateElement || kind == .templateLiteral

@[simp] theorem NodeKind.isVerbatim_eq_false_iff {kind : NodeKind} :
    kind.isVerbatim = false ↔ kind ≠ .identifier ∧ kind ≠ .literal ∧ kind ≠ .templateElement ∧
      kind ≠ .templateLiteral := by
  simp [isVerbatim, and_assoc]

/-- A production can make a node. -/
def Production.Makes (production : Production Node) (node : Node) : Prop :=
  ∃ context cursor later, production context cursor = .ok (node, later)

theorem Production.makes_store_iff {kind : NodeKind} {span : Span}
    {fields : List (FieldName × FieldValue)} {node : Node} :
    Makes (store kind span fields) node ↔ ∃ id, node = .mk id kind span fields := by
  constructor
  · rintro ⟨_, cursor, _, ⟨⟩⟩
    exact ⟨cursor.arena.size, rfl⟩
  · rintro ⟨id, rfl⟩
    have hMakes : ∀ cursor : Cursor,
        Makes (store kind span fields) (.mk cursor.arena.size kind span fields) := fun cursor =>
      ⟨⟨0, 0, false, false, false, false, false, 0⟩, cursor, _, rfl⟩
    simpa using hMakes ⟨0, [], [], .replicate id default⟩

namespace Node

/-- A node over some tokens that may stand in parentheses. -/
inductive IsWrapped (node : Node) : List Token → Prop where
  | bare {tokens : List Token} (bounds : node.span.Bounds tokens) : IsWrapped node tokens
  | parentheses {opening closing : Token} {tokens : List Token} (hOpening : opening.text = "(")
      (inner : IsWrapped node tokens) (hClosing : closing.text = ")") :
      IsWrapped node (opening :: tokens ++ [closing])

/-- A piece of a template, read off a token. The first piece starts with a backtick, and a piece
behind a substitution starts with the brace that closes it. -/
structure IsPiece (isFirst isTail : Bool) (token : Token) (node : Node) : Prop where
  kind_eq : token.kind = .template
  opens : token.text.toList.head? = some (if isFirst then '`' else '}')
  tail_eq : Grammar.isTail token.text.toList = isTail
  made : Production.Makes (Grammar.templateElement token) node

theorem IsPiece.node_kind_eq {isFirst isTail : Bool} {token : Token} {node : Node}
    (h : node.IsPiece isFirst isTail token) : node.kind = .templateElement := by
  obtain ⟨id, rfl⟩ := Production.makes_store_iff.mp h.made
  rfl

theorem IsPiece.span_eq {isFirst isTail : Bool} {token : Token} {node : Node}
    (h : node.IsPiece isFirst isTail token) : node.span = token.span := by
  obtain ⟨id, rfl⟩ := Production.makes_store_iff.mp h.made
  rfl

/-- All pieces of a template, or of what is left of it behind a substitution, with an expression
between each two of them. -/
inductive FormsTemplate : Bool → List Token → List Node → List Node → Prop where
  | close {isFirst : Bool} {token : Token} {quasi : Node}
      (piece : quasi.IsPiece isFirst true token) : FormsTemplate isFirst [token] [quasi] []
  | cons {isFirst : Bool} {token : Token} {inner more : List Token} {quasi expression : Node}
      {quasis expressions : List Node} (piece : quasi.IsPiece isFirst false token)
      (substituted : expression.IsWrapped inner)
      (rest : FormsTemplate false more quasis expressions) :
      FormsTemplate isFirst (token :: inner ++ more) (quasi :: quasis) (expression :: expressions)

/-- What forms a template starts with a piece over its first token. -/
theorem FormsTemplate.exists_cons {isFirst : Bool} {tokens : List Token}
    {quasis expressions : List Node} (h : FormsTemplate isFirst tokens quasis expressions) :
    ∃ token restTokens quasi rest, tokens = token :: restTokens ∧ quasis = quasi :: rest ∧
      quasi.span = token.span := by
  cases h with
  | close piece => exact ⟨_, _, _, _, rfl, rfl, piece.span_eq⟩
  | cons piece => exact ⟨_, _, _, _, rfl, rfl, piece.span_eq⟩

/-- Pieces and expressions that form a template with all that can be left of one. -/
def OpensTemplate (tokens : List Token) (quasis expressions : List Node) : Prop :=
  ∀ more rest behind, FormsTemplate quasis.isEmpty more rest behind →
    FormsTemplate true (tokens ++ more) (quasis ++ rest) (expressions ++ behind)

theorem opensTemplate_nil : OpensTemplate [] [] [] := fun _ _ _ h => h

namespace OpensTemplate

variable {tokens inner : List Token} {quasis expressions : List Node} {token : Token}
  {quasi expression : Node}

theorem append (h : OpensTemplate tokens quasis expressions)
    (hPiece : quasi.IsPiece quasis.isEmpty false token) (hExpression : expression.IsWrapped inner) :
    OpensTemplate (tokens ++ token :: inner) (quasis ++ [quasi]) (expressions ++ [expression]) := by
  intro more rest behind hRest
  have hEmpty : (quasis ++ [quasi]).isEmpty = false := by simp
  have hForms := h _ _ _ (.cons hPiece hExpression (hEmpty ▸ hRest))
  simpa using hForms

theorem close (h : OpensTemplate tokens quasis expressions)
    (hPiece : quasi.IsPiece quasis.isEmpty true token) :
    FormsTemplate true (tokens ++ [token]) (quasis ++ [quasi]) expressions := by
  simpa using h _ _ _ (.close hPiece)

end OpensTemplate

/-- What a node holds of the text is what the tokens hold that it was read off. -/
inductive Transcribes (tokens : List Token) : Node → Prop where
  | other {node : Node} (h : node.kind.isVerbatim = false) : Transcribes tokens node
  | word {id : NodeId} {token : Token} (mem : token ∈ tokens) :
      Transcribes tokens (.mk id .identifier token.span [(.ident, .text token.text)])
  | literal {id : NodeId} {token : Token} {value : FieldValue}
      {more : List (FieldName × FieldValue)} (mem : token ∈ tokens)
      (kind_ne : token.kind ≠ .regularExpression) (more_eq : ∀ field ∈ more, field.1 = .bigint) :
      Transcribes tokens
        (.mk id .literal token.span ((.value, value) :: (.raw, .text token.text) :: more))
  | regularExpression {token : Token} {node : Node} (mem : token ∈ tokens)
      (kind_eq : token.kind = .regularExpression) (made : Production.Makes (Grammar.regexLiteral token) node) :
      Transcribes tokens node
  | piece {token : Token} {node : Node} {isFirst isTail : Bool} (mem : token ∈ tokens)
      (h : node.IsPiece isFirst isTail token) : Transcribes tokens node
  | template {id : NodeId} {span : Span} {taken : List Token} {quasis expressions : List Node}
      (isInfix : taken <:+: tokens) (bounds : span.Bounds taken)
      (forms : FormsTemplate true taken quasis expressions) :
      Transcribes tokens (.mk id .templateLiteral span
        [(.quasis, .nodes quasis), (.expressions, .nodes expressions)])

theorem Transcribes.mono {node : Node} {tokens more : List Token} (h : node.Transcribes tokens)
    (hMore : tokens <:+: more) : node.Transcribes more := by
  cases h with
  | other h => exact .other h
  | word mem => exact .word (hMore.subset mem)
  | literal mem kind_ne more_eq => exact .literal (hMore.subset mem) kind_ne more_eq
  | regularExpression mem kind_eq made => exact .regularExpression (hMore.subset mem) kind_eq made
  | piece mem h => exact .piece (hMore.subset mem) h
  | template isInfix bounds forms => exact .template (isInfix.trans hMore) bounds forms

theorem kind_eq_of_makes_regexLiteral {token : Token} {node : Node}
    (h : Production.Makes (Grammar.regexLiteral token) node) : node.kind = .literal := by
  obtain ⟨id, rfl⟩ := Production.makes_store_iff.mp h
  rfl

/-- A word is the text of a token and nothing else. -/
theorem Transcribes.exists_word {node : Node} {tokens : List Token} (h : node.Transcribes tokens)
    (hKind : node.kind = .identifier) : ∃ token ∈ tokens, node.span = token.span ∧
      node.fields = [(.ident, .text token.text)] := by
  cases h with
  | other h => simp [hKind] at h
  | word mem => exact ⟨_, mem, rfl, rfl⟩
  | literal | template => cases hKind
  | regularExpression _ _ made => simp [kind_eq_of_makes_regexLiteral made] at hKind
  | piece _ h => simp [h.node_kind_eq] at hKind

end Node

/-- Two spans that do not overlap. -/
def Span.Disjoint (a b : Span) : Prop := a.stop ≤ b.start ∨ b.stop ≤ a.start

/-- Neither a program, nor an object, nor an operation with two operands, nor what repeats the
text. -/
@[simp]
def NodeKind.IsPlain (kind : NodeKind) : Prop :=
  kind ≠ .program ∧ kind ≠ .objectExpression ∧ kind.isOperation = false ∧ kind.isVerbatim = false

namespace Node

/-- A property whose name is also its value, or the target of a default that is its value. -/
def IsShorthand (node : Node) : Prop := node.kind = .property ∧ node.flag .shorthand = true

/-- No child stands under the name of an operator, which is plain data. -/
def OperatorIsPlain (node : Node) : Prop :=
  ∀ field ∈ node.fields, field.1 = .operator → field.2.filled = []

/-- What a node below a program shows of itself: it is no program, its operator is plain data, and
if it is an object, it starts before its members do. -/
structure IsPart (node : Node) : Prop where
  kind_ne : node.kind ≠ .program
  operatorIsPlain : node.OperatorIsPlain
  start_lt : node.kind = .objectExpression → ∀ child ∈ node.children,
    node.span.start < child.span.start

/-- How the children of a node lie in it. -/
structure Nests (node : Node) : Prop where
  inside : ∀ child ∈ node.children,
    node.span.start ≤ child.span.start ∧ child.span.stop ≤ node.span.stop
  ordered : node.kind ≠ .templateLiteral →
    node.children.Pairwise fun a b => a.span.start ≤ b.span.start
  disjoint : node.namedChildren.Pairwise fun a b => a.2.span.Disjoint b.2.span ∨
    node.IsShorthand ∧ a.1 = .key ∧ b.1 = .value

/-- A node starts where a token starts and ends where a token ends, joins its operands as its
operator tells, and holds the text of its tokens. -/
structure Aligned (tokens : List Token) (node : Node) : Prop extends node.Nests where
  start_lt_stop : node.span.start < node.span.stop
  start_mem : ∃ token ∈ tokens, token.span.start = node.span.start
  stop_mem : ∃ token ∈ tokens, token.span.stop = node.span.stop
  isPart : node.IsPart
  groups : node.Groups tokens
  transcribes : node.Transcribes tokens

variable {node : Node} {tokens : List Token}

theorem Aligned.mono {more : List Token} (h : node.Aligned tokens) (hMore : tokens <:+: more) :
    node.Aligned more := by
  obtain ⟨start, hStart, hStartEq⟩ := h.start_mem
  obtain ⟨stop, hStop, hStopEq⟩ := h.stop_mem
  exact
    { h with
      start_mem := ⟨start, hMore.subset hStart, hStartEq⟩
      stop_mem := ⟨stop, hMore.subset hStop, hStopEq⟩
      groups := h.groups.mono hMore.subset
      transcribes := h.transcribes.mono hMore }

/-- What lies over some of the tokens lies inside a span that bounds all of them. -/
theorem Aligned.inside_of_bounds {span : Span} (h : node.Aligned tokens)
    (hOrder : Token.InOrder tokens) (hBounds : span.Bounds tokens) :
    span.start ≤ node.span.start ∧ node.span.stop ≤ span.stop := by
  obtain ⟨first, hFirst, hFirstEq⟩ := hBounds.head
  obtain ⟨last, hLast, hLastEq⟩ := hBounds.last
  obtain ⟨start, hStart, hStartEq⟩ := h.start_mem
  obtain ⟨stop, hStop, hStopEq⟩ := h.stop_mem
  rw [← hFirstEq, ← hLastEq, ← hStartEq, ← hStopEq]
  exact ⟨hOrder.start_le_of_head? hFirst hStart, hOrder.stop_le_of_getLast? hLast hStop⟩

/-- A node whose children nest in it lies over the tokens that its span bounds. -/
theorem Nests.aligned (h : node.Nests) (hOrder : Token.InOrder tokens)
    (hBounds : node.span.Bounds tokens) (hPart : node.IsPart) (hGroups : node.Groups tokens)
    (hTranscribes : node.Transcribes tokens) : node.Aligned tokens where
  toNests := h
  start_lt_stop := hBounds.start_lt_stop hOrder
  start_mem := by
    obtain ⟨first, hFirst, hStart⟩ := hBounds.head
    exact ⟨first, List.mem_of_head? hFirst, hStart⟩
  stop_mem := by
    obtain ⟨last, hLast, hStop⟩ := hBounds.last
    exact ⟨last, List.mem_of_getLast? hLast, hStop⟩
  isPart := hPart
  groups := hGroups
  transcribes := hTranscribes

/-- Children that were read one behind the other nest in the node. They may come in another
order only in a template. -/
theorem Nests.of_perm {read : List Node} (hPerm : node.children.Perm read)
    (hOrder : node.kind ≠ .templateLiteral → node.children = read)
    (hNonempty : ∀ child ∈ read, child.span.start < child.span.stop)
    (hInTurn : read.Pairwise fun a b => a.span.stop ≤ b.span.start)
    (hInside : ∀ child ∈ read,
      node.span.start ≤ child.span.start ∧ child.span.stop ≤ node.span.stop) : node.Nests where
  inside child hChild := hInside child (hPerm.subset hChild)
  ordered hKind := by
    rw [hOrder hKind]
    refine hInTurn.imp_of_mem fun hFirst _ hStop => ?_
    exact Nat.le_of_lt (Nat.lt_of_lt_of_le (hNonempty _ hFirst) hStop)
  disjoint := by
    have hDisjoint : node.children.Pairwise fun a b => a.span.Disjoint b.span :=
      (hPerm.pairwise_iff fun h => Or.symm h).mpr (hInTurn.imp Or.inl)
    rw [children, List.pairwise_map] at hDisjoint
    exact hDisjoint.imp Or.inl

theorem nests_of_children_eq_nil (h : node.children = []) : node.Nests :=
  .of_perm (h ▸ List.Perm.refl _) (fun _ => h) (by simp) List.Pairwise.nil (by simp)

/-- In a shorthand property the name may start with the value, if it starts the property. -/
theorem nests_of_shorthand {key value : Node}
    (hNamed : node.namedChildren = [(.key, key), (.value, value)]) (hShorthand : node.IsShorthand)
    (hStart : key.span.start = node.span.start)
    (hInside : ∀ child ∈ [key, value],
      node.span.start ≤ child.span.start ∧ child.span.stop ≤ node.span.stop) : node.Nests := by
  have hChildren : node.children = [key, value] := by
    rw [children, hNamed]
    rfl
  refine ⟨hChildren ▸ hInside, fun _ => ?_, ?_⟩
  · rw [hChildren, List.pairwise_pair, hStart]
    exact (hInside value (by simp)).1
  · rw [hNamed]
    exact List.pairwise_pair.mpr (Or.inr ⟨hShorthand, rfl, rfl⟩)

/-- What the children of a node show of themselves: the field that holds them, their numbers and
their spans. -/
def marks (node : Node) : List (FieldName × NodeId × Span) :=
  node.namedChildren.map fun child => (child.1, child.2.id, child.2.span)

/-- A node that was changed in a way that does not matter to how its children lie in it. -/
structure Resembles (changed old : Node) : Prop where
  id_eq : changed.id = old.id
  span_eq : changed.span = old.span
  marks_eq : changed.marks = old.marks
  kind_of_template : old.kind = .templateLiteral → changed.kind = .templateLiteral
  isShorthand : old.IsShorthand → changed.IsShorthand
  isPart : old.IsPart → changed.IsPart
  /-- An operation that is still one was not touched, nor was what repeats the text. -/
  eq_of_kind : changed.kind.isOperation = true ∨ changed.kind.isVerbatim = true → changed = old

namespace Resembles

variable {changed old : Node}

theorem refl (node : Node) : node.Resembles node := ⟨rfl, rfl, rfl, id, id, id, fun _ => rfl⟩

theorem children_ids (h : changed.Resembles old) :
    changed.children.map Node.id = old.children.map Node.id := by
  have hMarks := congrArg (List.map fun mark => mark.2.1) h.marks_eq
  simpa [marks, children, Function.comp_def] using hMarks

theorem children_spans (h : changed.Resembles old) :
    changed.children.map Node.span = old.children.map Node.span := by
  have hMarks := congrArg (List.map fun mark => mark.2.2) h.marks_eq
  simpa [marks, children, Function.comp_def] using hMarks

theorem nests (h : changed.Resembles old) (hOld : old.Nests) : changed.Nests := by
  refine ⟨fun child hChild => ?_, fun hKind => ?_, ?_⟩
  · obtain ⟨oldChild, hOldChild, hSpan⟩ :=
      List.mem_map.mp (h.children_spans ▸ List.mem_map_of_mem hChild)
    rw [h.span_eq, ← hSpan]
    exact hOld.inside oldChild hOldChild
  · have hOrdered := hOld.ordered fun hTemplate => hKind (h.kind_of_template hTemplate)
    have hSpans : (old.children.map Node.span).Pairwise fun a b => a.start ≤ b.start :=
      List.pairwise_map.mpr hOrdered
    rwa [← h.children_spans, List.pairwise_map] at hSpans
  · have hDisjoint : old.marks.Pairwise fun a b => a.2.2.Disjoint b.2.2 ∨
        old.IsShorthand ∧ a.1 = .key ∧ b.1 = .value := List.pairwise_map.mpr hOld.disjoint
    rw [← h.marks_eq] at hDisjoint
    exact (List.pairwise_map.mp hDisjoint).imp
      (Or.imp_right fun ⟨hShorthand, hNames⟩ => ⟨h.isShorthand hShorthand, hNames⟩)

theorem aligned (h : changed.Resembles old) (hOld : old.Aligned tokens) :
    changed.Aligned tokens where
  toNests := h.nests hOld.toNests
  start_lt_stop := h.span_eq ▸ hOld.start_lt_stop
  start_mem := h.span_eq ▸ hOld.start_mem
  stop_mem := h.span_eq ▸ hOld.stop_mem
  isPart := h.isPart hOld.isPart
  groups hKind := by
    have hSame := h.eq_of_kind (.inl hKind)
    exact hSame ▸ hOld.groups (hSame ▸ hKind)
  transcribes := by
    cases hKind : changed.kind.isVerbatim with
    | false => exact .other hKind
    | true => exact h.eq_of_kind (.inr hKind) ▸ hOld.transcribes

end Resembles
end Node

end EcmaLint
