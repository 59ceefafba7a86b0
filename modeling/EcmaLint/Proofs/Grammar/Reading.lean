import EcmaLint.Proofs.Grammar.Target
import EcmaLint.Proofs.Grammar.Yields
import EcmaLint.Proofs.Tree.Stores

/-! What has been read between two cursors. The tokens in between are taken, the nodes read off
them lie over these tokens one behind the other, and the arena has grown by exactly these nodes
and what is below them. Reading on adds to all of this; making a node puts the nodes read so far
below it. -/
namespace EcmaLint

open Node

namespace Cursor

/-- The tokens that are still to be read. -/
def tokens (cursor : Cursor) : List Token := cursor.rest.map Lexeme.token

theorem current?_eq (cursor : Cursor) : cursor.current? = cursor.tokens.head? := by
  rw [current?, tokens, List.head?_map]

theorem exists_current_of_atText {cursor : Cursor} {text : String} (h : cursor.atText text = true) :
    ∃ token, cursor.current? = some token := by
  cases hRest : cursor.rest with
  | nil => simp [atText, peekIs, hRest] at h
  | cons lexeme rest => exact ⟨lexeme.token, by simp [current?, hRest]⟩

theorem text_eq_of_atText {cursor : Cursor} {text : String} {token : Token}
    (h : cursor.atText text = true) (hToken : cursor.current? = some token) :
    token.text = text := by
  obtain ⟨lexeme, hLexeme, rfl⟩ := Option.map_eq_some_iff.mp hToken
  rw [List.head?_eq_getElem?] at hLexeme
  have hIs : lexeme.is text = true := by simpa [atText, peekIs, hLexeme] using h
  unfold Lexeme.is at hIs
  split at hIs
  case h_4 => simpa using hIs
  all_goals cases hIs

end Cursor

/-- The tokens taken between two cursors and the nodes read off them. -/
structure Takes (before : Cursor) (taken : List Token) (nodes : List Node) (after : Cursor) :
    Prop where
  tokens_eq : before.tokens = taken ++ after.tokens
  previousEnd_eq :
    after.previousEnd = (taken.getLast?.map fun token => token.span.stop).getD before.previousEnd
  inOrder : Token.InOrder before.tokens
  aligned : ∀ node ∈ forest nodes, node.Aligned taken
  inTurn : nodes.Pairwise fun a b => a.span.stop ≤ b.span.start

namespace Takes

variable {before between after : Cursor} {taken more : List Token} {nodes later : List Node}

theorem refl {cursor : Cursor} (h : Token.InOrder cursor.tokens) : Takes cursor [] [] cursor where
  tokens_eq := rfl
  previousEnd_eq := rfl
  inOrder := h
  aligned := by simp
  inTurn := List.Pairwise.nil

theorem inOrder_taken (h : Takes before taken nodes after) : Token.InOrder taken := by
  have hOrder := h.inOrder
  rw [h.tokens_eq] at hOrder
  exact hOrder.append_left

theorem inOrder_after (h : Takes before taken nodes after) : Token.InOrder after.tokens := by
  have hOrder := h.inOrder
  rw [h.tokens_eq] at hOrder
  exact hOrder.append_right

theorem trans (h : Takes before taken nodes between) (h' : Takes between more later after) :
    Takes before (taken ++ more) (nodes ++ later) after where
  tokens_eq := by rw [h.tokens_eq, h'.tokens_eq, List.append_assoc]
  previousEnd_eq := by
    rw [h'.previousEnd_eq, h.previousEnd_eq, List.getLast?_append]
    cases more.getLast? <;> rfl
  inOrder := h.inOrder
  aligned := by
    rw [forest_append]
    refine List.forall_mem_append.mpr ⟨fun node hNode => ?_, fun node hNode => ?_⟩
    · exact (h.aligned node hNode).mono List.infix_append_left
    · exact (h'.aligned node hNode).mono List.infix_append_right
  inTurn := by
    refine List.pairwise_append.mpr ⟨h.inTurn, h'.inTurn, fun a ha b hb => ?_⟩
    obtain ⟨stop, hStop, hStopEq⟩ := (h.aligned a (mem_forest_of_mem ha)).stop_mem
    obtain ⟨start, hStart, hStartEq⟩ := (h'.aligned b (mem_forest_of_mem hb)).start_mem
    have hOrder := h.inOrder
    rw [h.tokens_eq, h'.tokens_eq] at hOrder
    rw [← hStopEq, ← hStartEq]
    exact hOrder.stop_le_start hStop (List.mem_append_left _ hStart)

/-- Only the tokens and the end of the last one count. -/
theorem congr {other : Cursor} (h : Takes before taken nodes after)
    (hRest : other.rest = after.rest) (hEnd : other.previousEnd = after.previousEnd) :
    Takes before taken nodes other :=
  { h with
    tokens_eq := by rw [h.tokens_eq, Cursor.tokens, Cursor.tokens, hRest]
    previousEnd_eq := by rw [hEnd, h.previousEnd_eq] }

/-- Other nodes over the same tokens. -/
theorem replace (h : Takes before taken nodes after)
    (hAligned : ∀ node ∈ forest later, node.Aligned taken)
    (hInTurn : later.Pairwise fun a b => a.span.stop ≤ b.span.start) :
    Takes before taken later after :=
  { h with aligned := hAligned, inTurn := hInTurn }

theorem bump {cursor : Cursor} {lexeme : Lexeme} {rest : List Lexeme}
    (h : Token.InOrder cursor.tokens) (hRest : cursor.rest = lexeme :: rest) :
    Takes cursor [lexeme.token] [] { cursor with previousEnd := lexeme.token.span.stop, rest } :=
  { refl h with
    tokens_eq := by
      rw [Cursor.tokens, Cursor.tokens, hRest]
      rfl
    previousEnd_eq := rfl
    aligned := by simp }

/-- What was taken starts with the current token, and the last token read ends it. -/
theorem bounds (h : Takes before taken nodes after) (hTaken : taken ≠ []) {start : Nat}
    (hStart : ∀ token ∈ before.current?, start = token.span.start) :
    (⟨start, max after.previousEnd start⟩ : Span).Bounds taken ∧
      after.previousEnd = max after.previousEnd start := by
  have hLast := List.getLast?_eq_some_getLast hTaken
  generalize taken.getLast hTaken = last at hLast
  obtain ⟨first, rest, rfl⟩ := List.exists_cons_of_ne_nil hTaken
  have hCurrent : before.current? = some first := by
    rw [Cursor.current?_eq, h.tokens_eq]
    rfl
  have hEnd : after.previousEnd = last.span.stop := by
    rw [h.previousEnd_eq, hLast]
    rfl
  have hLe : start ≤ after.previousEnd := by
    have hStop := h.inOrder_taken.stop_le_of_getLast? hLast List.mem_cons_self
    have hNonempty := h.inOrder_taken.nonempty first List.mem_cons_self
    have hFirst := hStart first hCurrent
    omega
  rw [Nat.max_eq_left hLe]
  exact ⟨⟨⟨first, rfl, (hStart first hCurrent).symm⟩, last, hLast, hEnd.symm⟩, rfl⟩

/-- A node over all that was taken, with the nodes read so far as its children. -/
theorem aligned_of_children (h : Takes before taken nodes after) {node : Node}
    (hBounds : node.span.Bounds taken) (hChildren : node.children.Perm nodes)
    (hOrder : node.kind ≠ .templateLiteral → node.children = nodes)
    (hPart : node.IsPart) (hGroups : node.Groups taken) (hTranscribes : node.Transcribes taken) :
    node.Aligned taken := by
  have hNode : ∀ child ∈ nodes, child.Aligned taken := fun child hChild =>
    h.aligned child (mem_forest_of_mem hChild)
  have hNests : node.Nests := .of_perm hChildren hOrder
    (fun child hChild => (hNode child hChild).start_lt_stop) h.inTurn
    fun child hChild => (hNode child hChild).inside_of_bounds h.inOrder_taken hBounds
  exact hNests.aligned h.inOrder_taken hBounds hPart hGroups hTranscribes

/-- A node over what was taken stands for the nodes below it. -/
theorem node (h : Takes before taken nodes after) {node : Node} (hNode : node.Aligned taken)
    (hBelow : ∀ below ∈ forest node.children, below.Aligned taken) :
    Takes before taken [node] after :=
  { h with
    aligned := by
      rw [forest_singleton]
      exact List.forall_mem_cons.mpr ⟨hNode, hBelow⟩
    inTurn := List.pairwise_singleton _ _ }

end Takes

/-- The nodes read between two cursors, with the tokens below them and the arena that holds them.
The flag says that some token was taken. -/
structure Reads (moved : Bool) (before : Cursor) (nodes : List Node) (after : Cursor) : Prop where
  takes : ∃ taken, (moved = true → taken ≠ []) ∧ Takes before taken nodes after
  stores : Stores before.arena nodes after.arena

namespace Reads

variable {moved movedOn : Bool} {before between after : Cursor} {nodes later : List Node}

theorem refl {cursor : Cursor} (h : Token.InOrder cursor.tokens) : Reads false cursor [] cursor :=
  ⟨⟨[], by simp, Takes.refl h⟩, Stores.refl _⟩

theorem trans (h : Reads moved before nodes between) (h' : Reads movedOn between later after) :
    Reads (moved || movedOn) before (nodes ++ later) after := by
  obtain ⟨⟨taken, hMoved, hTakes⟩, hStores⟩ := h
  obtain ⟨⟨more, hMovedOn, hTakes'⟩, hStores'⟩ := h'
  refine ⟨⟨taken ++ more, fun hOr => ?_, hTakes.trans hTakes'⟩, hStores.trans hStores'⟩
  rcases Bool.or_eq_true_iff.mp hOr with hFirst | hSecond
  · exact List.append_ne_nil_of_left_ne_nil (hMoved hFirst) _
  · exact List.append_ne_nil_of_right_ne_nil _ (hMovedOn hSecond)

theorem inOrder (h : Reads moved before nodes after) : Token.InOrder after.tokens := by
  obtain ⟨taken, -, hTakes⟩ := h.takes
  exact hTakes.inOrder_after

theorem weaken (h : Reads moved before nodes after) : Reads false before nodes after := by
  obtain ⟨taken, -, hTakes⟩ := h.takes
  exact ⟨⟨taken, by simp, hTakes⟩, h.stores⟩

theorem of_or (h : Reads (moved || movedOn) before nodes after) :
    Reads moved before nodes after := by
  obtain ⟨taken, hMoved, hTakes⟩ := h.takes
  exact ⟨⟨taken, fun hFirst => hMoved (by simp [hFirst]), hTakes⟩, h.stores⟩

/-- The tokens that were taken are those that are no longer ahead. -/
theorem takes_of_tokens_eq {taken : List Token} (h : Reads moved before nodes after)
    (hTokens : before.tokens = taken ++ after.tokens) : Takes before taken nodes after := by
  obtain ⟨other, -, hTakes⟩ := h.takes
  rwa [List.append_cancel_right (hTokens.symm.trans hTakes.tokens_eq)]

/-- What is left out reads nothing. -/
theorem none (h : Reads moved before nodes after) :
    Reads moved before (nodes ++ (Option.none : Option Node).toList) after := by
  simpa using h

/-- Where a token was taken there is a current one. -/
theorem exists_current (h : Reads true before nodes after) :
    ∃ token, before.current? = some token := by
  obtain ⟨taken, hTaken, hTakes⟩ := h.takes
  obtain ⟨first, rest, rfl⟩ := List.exists_cons_of_ne_nil (hTaken rfl)
  exact ⟨first, by rw [Cursor.current?_eq, hTakes.tokens_eq]; rfl⟩

/-- A node read behind what was read since an origin starts behind the origin. -/
theorem start_lt {start : Nat} {node : Node} (h : Reads true before nodes between)
    (hStart : ∀ token ∈ before.current?, start = token.span.start)
    (hNode : Reads moved between [node] after) : start < node.span.start := by
  obtain ⟨taken, hTaken, hTakes⟩ := h.takes
  obtain ⟨more, -, hTakesNode⟩ := hNode.takes
  obtain ⟨first, rest, rfl⟩ := List.exists_cons_of_ne_nil (hTaken rfl)
  have hOrder := hTakes.inOrder
  rw [hTakes.tokens_eq, hTakesNode.tokens_eq] at hOrder
  obtain ⟨token, hToken, hTokenStart⟩ :=
    (hTakesNode.aligned node (mem_forest_of_mem (List.mem_singleton_self node))).start_mem
  have hFirst := hStart first (by rw [Cursor.current?_eq, hTakes.tokens_eq]; rfl)
  have hNonempty := hOrder.nonempty first (by simp)
  have hApart := hOrder.stop_le_start List.mem_cons_self (List.mem_append_left _ hToken)
  omega

/-- The list of defaults that wait for a pattern does not count. -/
theorem withDefaults (h : Reads moved before nodes after) (defaults : List Nat) :
    Reads moved before nodes { after with shorthandDefaults := defaults } := by
  obtain ⟨⟨taken, hMoved, hTakes⟩, hStores⟩ := h
  exact ⟨⟨taken, hMoved, hTakes.congr rfl rfl⟩, hStores⟩

end Reads

/-- As `Reads`, for a list of slots some of which may be holes. -/
def ReadsSlots (moved : Bool) (before : Cursor) (slots : List (Option Node)) (after : Cursor) :
    Prop :=
  Reads moved before (slots.filterMap id) after

namespace ReadsSlots

variable {moved : Bool} {before after : Cursor} {slots : List (Option Node)}

theorem hole (h : ReadsSlots moved before slots after) :
    ReadsSlots moved before (slots ++ [none]) after := by
  simpa [ReadsSlots] using h

theorem filled {node : Node} (h : Reads moved before (slots.filterMap id ++ [node]) after) :
    ReadsSlots moved before (slots ++ [some node]) after := by
  simpa [ReadsSlots] using h

end ReadsSlots

/-- An offset is the start of the current token, if there is one. -/
def Cursor.StartsAt (cursor : Cursor) (start : Nat) : Prop :=
  ∀ token ∈ cursor.current?, start = token.span.start

/-- A node starts with the current token of one cursor and ends with the last token read before
another. -/
def Node.Spans (node : Node) (before after : Cursor) : Prop :=
  before.StartsAt node.span.start ∧ node.span.stop = after.previousEnd

/-- Fields of a part of a program whose filled slots hold some nodes, none of them under the name
of an operator. -/
def Field.Hold (kind : NodeKind) (fields : List (FieldName × FieldValue)) (nodes : List Node) :
    Prop :=
  Field.filledIn fields = nodes ∧ kind.IsPlain ∧
    ∀ field ∈ fields, field.1 = .operator → field.2.filled = []

namespace Production

/-- A production reads the nodes of its result. The flag says that it takes some token. -/
def Collects {α : Type} (moved : Bool) (production : Production α) (nodes : α → List Node) :
    Prop :=
  ∀ context cursor, Token.InOrder cursor.tokens →
    Yields production context cursor fun value later => Reads moved cursor (nodes value) later

/-- A production reads a node. -/
abbrev ReadsNode (production : Production Node) : Prop :=
  Collects true production fun node => [node]

namespace Collects

variable {α β : Type} {moved movedOn : Bool} {production : Production α} {nodes : α → List Node}
  {context : Context} {origin cursor : Cursor} {read : List Node}

/-- What a production reads is added to what was read before. -/
theorem after (hProduction : Collects movedOn production nodes)
    (h : Reads moved origin read cursor) :
    Yields production context cursor fun value later =>
      Reads (moved || movedOn) origin (read ++ nodes value) later :=
  (hProduction context cursor h.inOrder).imp fun _ _ hValue => h.trans hValue

theorem bindAfter {next : α → Production β} {property : β → Cursor → Prop}
    (hProduction : Collects movedOn production nodes) (h : Reads moved origin read cursor)
    (hNext : ∀ value later, Reads (moved || movedOn) origin (read ++ nodes value) later →
      Yields (next value) context later property) :
    Yields (production >>= next) context cursor property :=
  (hProduction.after h).bind hNext

/-- As `bindAfter`, for a production that reads no nodes. -/
theorem skipAfter {next : α → Production β} {property : β → Cursor → Prop}
    (hProduction : Collects movedOn production fun _ => []) (h : Reads moved origin read cursor)
    (hNext : ∀ value later, Reads (moved || movedOn) origin read later →
      Yields (next value) context later property) :
    Yields (production >>= next) context cursor property :=
  hProduction.bindAfter h fun value later hLater =>
    hNext value later (by rwa [List.append_nil] at hLater)

/-- As `after`, for a production that reads no nodes. -/
theorem passAfter (hProduction : Collects movedOn production fun _ => [])
    (h : Reads moved origin read cursor) :
    Yields production context cursor fun _ later => Reads moved origin read later :=
  (hProduction.after h).imp fun _ later hLater => by
    rw [List.append_nil] at hLater
    exact hLater.of_or

/-- As `after`, for a node that might have been left out. -/
theorem someAfter {production : Production Node} (hProduction : ReadsNode production)
    (h : Reads moved origin read cursor) :
    Yields (some <$> production) context cursor fun node later =>
      Reads moved origin (read ++ node.toList) later :=
  .map ((hProduction.after h).imp fun _ _ hLater => hLater.of_or)

theorem withReader {change : Context → Context} (h : Collects moved production nodes) :
    Collects moved (MonadWithReader.withReader change production) nodes :=
  fun context cursor hOrder => h (change context) cursor hOrder

theorem allowIn (h : Collects moved production nodes) : Collects moved (allowIn production) nodes :=
  h.withReader

theorem withoutIn (h : Collects moved production nodes) :
    Collects moved (withoutIn production) nodes :=
  h.withReader

theorem inFunction {isAsync isGenerator : Bool} (h : Collects moved production nodes) :
    Collects moved (inFunction isAsync isGenerator production) nodes :=
  h.withReader

theorem nested (h : Collects moved production nodes) :
    Collects moved (nested production) nodes := by
  intro context cursor hOrder
  refine .read_bind (.ite (fun _ => ?_) fun _ => h.withReader context cursor hOrder)
  exact .bind (fun _ _ _ => trivial) fun _ _ _ => .fault

theorem map {f : α → β} {mapped : β → List Node} (h : Collects moved production nodes)
    (hMapped : ∀ value, mapped (f value) = nodes value) :
    Collects moved (f <$> production) mapped := fun context cursor hOrder =>
  .map ((h context cursor hOrder).imp fun value later hValue => by rwa [hMapped])

end Collects

end Production

end EcmaLint
