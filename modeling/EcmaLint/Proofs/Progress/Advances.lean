import EcmaLint.Proofs.Grammar.Steps
import EcmaLint.Proofs.Progress.Follows

/-! How far productions get. Between two cursors some tokens were taken, and whatever is known of
at the later one, the nodes read in between included, lies at places. A production proceeds if it
gets on in this way wherever fewer tokens than a limit are left; one that has taken a token may
come back to productions that proceed with one token less. -/
namespace EcmaLint

open Node

/-- Some nodes and all nodes below them start at places. -/
def Node.Starts (place : Nat → Prop) (nodes : List Node) : Prop :=
  ∀ node ∈ forest nodes, place node.span.start

namespace Node.Starts

variable {place : Nat → Prop} {nodes more : List Node}

theorem nil : Starts place [] := by simp [Starts]

theorem append (h : Starts place nodes) (h' : Starts place more) :
    Starts place (nodes ++ more) := by
  rw [Starts, forest_append]
  exact List.forall_mem_append.mpr ⟨h, h'⟩

theorem subset (h : Starts place nodes) (hSubset : ∀ node ∈ more, node ∈ nodes) :
    Starts place more := by
  intro below hBelow
  obtain ⟨root, hRoot, hBelow⟩ := mem_forest.mp hBelow
  exact h below (mem_forest.mpr ⟨root, hSubset root hRoot, hBelow⟩)

theorem start (h : Starts place nodes) {node : Node} (hNode : node ∈ nodes) :
    place node.span.start :=
  h node (mem_forest_of_mem hNode)

theorem singleton {node : Node} (hStart : place node.span.start)
    (hBelow : Starts place node.children) : Starts place [node] := by
  rw [Starts, forest_singleton]
  exact List.forall_mem_cons.mpr ⟨hStart, hBelow⟩

theorem children {node : Node} (h : Starts place [node]) : Starts place node.children := by
  rw [Starts, forest_singleton] at h
  exact (List.forall_mem_cons.mp h).2

end Node.Starts

/-- What was read between two cursors: tokens, some of them if the flag says so, and nodes. Fewer
tokens than a limit were left at the first cursor. -/
structure Advances (place : Nat → Prop) (size limit : Nat) (moved : Bool) (origin : Cursor)
    (nodes : List Node) (cursor : Cursor) : Prop where
  takes : ∃ taken, (moved = true → taken ≠ []) ∧ origin.rest = taken ++ cursor.rest
  liesIn : cursor.LiesIn place size
  starts : Starts place nodes
  within : origin.rest.length < limit

namespace Advances

variable {place : Nat → Prop} {size limit bound : Nat} {moved movedOn : Bool}
  {origin between cursor : Cursor} {nodes later : List Node}

theorem refl (hLies : cursor.LiesIn place size) (hWithin : cursor.rest.length < limit)
    (hStarts : Starts place nodes) : Advances place size limit false cursor nodes cursor :=
  ⟨⟨[], by simp, rfl⟩, hLies, hStarts, hWithin⟩

theorem trans (h : Advances place size limit moved origin nodes between)
    (h' : Advances place size bound movedOn between later cursor) :
    Advances place size limit (moved || movedOn) origin (nodes ++ later) cursor := by
  obtain ⟨taken, hMoved, hTaken⟩ := h.takes
  obtain ⟨more, hMovedOn, hMore⟩ := h'.takes
  refine ⟨⟨taken ++ more, fun hOr => ?_, ?_⟩, h'.liesIn, h.starts.append h'.starts, h.within⟩
  · rcases Bool.or_eq_true_iff.mp hOr with hFirst | hSecond
    · exact List.append_ne_nil_of_left_ne_nil (hMoved hFirst) _
    · exact List.append_ne_nil_of_right_ne_nil _ (hMovedOn hSecond)
  · rw [hTaken, hMore, List.append_assoc]

/-- Of the nodes that were read some may be forgotten. -/
theorem subset (h : Advances place size limit moved origin nodes cursor)
    (hSubset : ∀ node ∈ later, node ∈ nodes) :
    Advances place size limit moved origin later cursor :=
  { h with starts := h.starts.subset hSubset }

theorem of_or (h : Advances place size limit (moved || movedOn) origin nodes cursor) :
    Advances place size limit moved origin nodes cursor := by
  obtain ⟨taken, hMoved, hTaken⟩ := h.takes
  exact { h with takes := ⟨taken, fun hFirst => hMoved (by simp [hFirst]), hTaken⟩ }

theorem weaken (h : Advances place size limit moved origin nodes cursor) :
    Advances place size limit false origin nodes cursor := by
  rw [← Bool.false_or moved] at h
  exact h.of_or

/-- Where a token was taken it does not matter whether one had to be. -/
theorem of_moved (h : Advances place size limit true origin nodes cursor) :
    Advances place size limit moved origin nodes cursor := by
  obtain ⟨taken, hMoved, hTaken⟩ := h.takes
  exact { h with takes := ⟨taken, fun _ => hMoved rfl, hTaken⟩ }

/-- What is left out adds no node. -/
theorem none (h : Advances place size limit moved origin nodes cursor) :
    Advances place size limit moved origin (nodes ++ (Option.none : Option Node).toList)
      cursor := by
  simpa using h

theorem length_le (h : Advances place size limit moved origin nodes cursor) :
    cursor.rest.length ≤ origin.rest.length := by
  obtain ⟨taken, -, hTaken⟩ := h.takes
  rw [hTaken, List.length_append]
  omega

theorem length_lt (h : Advances place size limit true origin nodes cursor) :
    cursor.rest.length < origin.rest.length := by
  obtain ⟨taken, hMoved, hTaken⟩ := h.takes
  have hPos := List.length_pos_of_ne_nil (hMoved rfl)
  rw [hTaken, List.length_append]
  omega

/-- Fewer tokens than the limit are left. -/
theorem here (h : Advances place size limit moved origin nodes cursor) :
    cursor.rest.length < limit :=
  Nat.lt_of_le_of_lt h.length_le h.within

theorem ahead (h : Advances place size limit moved origin nodes cursor) :
    cursor.rest.length < limit + 1 :=
  Nat.lt_succ_of_lt h.here

/-- Behind a token there are fewer left still. -/
theorem past (h : Advances place size (limit + 1) true origin nodes cursor) :
    cursor.rest.length < limit := by
  have hLess := h.length_lt
  have hWithin := h.within
  omega

/-- Where a token was taken there is a current one. -/
theorem exists_current (h : Advances place size limit true origin nodes cursor) :
    ∃ token, origin.current? = some token := by
  obtain ⟨taken, hMoved, hTaken⟩ := h.takes
  obtain ⟨first, rest, rfl⟩ := List.exists_cons_of_ne_nil (hMoved rfl)
  exact ⟨first.token, by rw [Cursor.current?, hTaken]; rfl⟩

end Advances

namespace Production

variable {α β σ : Type}

/-- A production and a parser get on in the same way wherever fewer tokens than a limit are left. -/
def Proceeds (place : Nat → Prop) (limit : Nat) (moved : α → Bool) (production : Production α)
    (parser : Parser α) (nodes : α → List Node) : Prop :=
  ∀ context cursor, cursor.LiesIn place context.size → cursor.rest.length < limit →
    Follows place production parser context cursor fun value later =>
      Advances place context.size limit (moved value) cursor (nodes value) later

/-- A production and a parser read a node in the same way. -/
abbrev ProceedsNode (place : Nat → Prop) (limit : Nat) (production : Production Node)
    (parser : Parser Node) : Prop :=
  Proceeds place limit (fun _ => true) production parser fun node => [node]

/-- As `Proceeds`, for productions that move past a token without looking at it, and so take one
where there is one. -/
def ProceedsIfLeft (place : Nat → Prop) (limit : Nat) (production : Production α)
    (parser : Parser α) (nodes : α → List Node) : Prop :=
  ∀ context cursor, cursor.LiesIn place context.size → cursor.rest.length < limit →
    Follows place production parser context cursor fun value later =>
      Advances place context.size limit (!cursor.atEnd) cursor (nodes value) later

namespace Proceeds

variable {place : Nat → Prop} {limit bound : Nat} {moved : Bool} {movedOn : α → Bool}
  {first : Production α} {second : Parser α} {nodes : α → List Node} {context : Context}
  {origin cursor : Cursor} {read : List Node}

/-- What a production reads is added to what was read before. -/
theorem after (hProceeds : Proceeds place bound movedOn first second nodes)
    (h : Advances place context.size limit moved origin read cursor)
    (hLeft : cursor.rest.length < bound) :
    Follows place first second context cursor fun value later =>
      Advances place context.size limit (moved || movedOn value) origin (read ++ nodes value)
        later :=
  (hProceeds context cursor h.liesIn hLeft).imp fun _ _ hValue => h.trans hValue

/-- As `after`, where only what the production reads counts from then on. -/
theorem onlyAfter (hProceeds : Proceeds place bound movedOn first second nodes)
    (h : Advances place context.size limit moved origin read cursor)
    (hLeft : cursor.rest.length < bound) :
    Follows place first second context cursor fun value later =>
      Advances place context.size limit (moved || movedOn value) origin (nodes value) later :=
  (hProceeds.after h hLeft).imp fun _ _ hValue => hValue.subset fun _ => List.mem_append_right _

theorem bindAfter {next : α → Production β} {other : α → Parser β} {property : β → Cursor → Prop}
    (hProceeds : Proceeds place bound movedOn first second nodes)
    (h : Advances place context.size limit moved origin read cursor)
    (hLeft : cursor.rest.length < bound)
    (hNext : ∀ value later,
      Advances place context.size limit (moved || movedOn value) origin (read ++ nodes value)
        later →
      Follows place (next value) (other value) context later property) :
    Follows place (first >>= next) (second >>= other) context cursor property :=
  (hProceeds.after h hLeft).bind hNext

/-- As `bindAfter`, for a production that reads no nodes. -/
theorem skipAfter {next : α → Production β} {other : α → Parser β} {property : β → Cursor → Prop}
    (hProceeds : Proceeds place bound movedOn first second fun _ => [])
    (h : Advances place context.size limit moved origin read cursor)
    (hLeft : cursor.rest.length < bound)
    (hNext : ∀ value later,
      Advances place context.size limit (moved || movedOn value) origin read later →
      Follows place (next value) (other value) context later property) :
    Follows place (first >>= next) (second >>= other) context cursor property :=
  hProceeds.bindAfter h hLeft fun value later hLater =>
    hNext value later (by rwa [List.append_nil] at hLater)

/-- As `after`, for a production that reads no nodes. -/
theorem passAfter (hProceeds : Proceeds place bound movedOn first second fun _ => [])
    (h : Advances place context.size limit moved origin read cursor)
    (hLeft : cursor.rest.length < bound) :
    Follows place first second context cursor fun _ later =>
      Advances place context.size limit moved origin read later :=
  (hProceeds.after h hLeft).imp fun _ later hLater => by
    rw [List.append_nil] at hLater
    exact hLater.of_or

/-- As `after`, for a node that might have been left out. -/
theorem someAfter {first : Production Node} {second : Parser Node} {movedOn : Node → Bool}
    (hProceeds : Proceeds place bound movedOn first second fun node => [node])
    (h : Advances place context.size limit moved origin read cursor)
    (hLeft : cursor.rest.length < bound) :
    Follows place (some <$> first) (some <$> second) context cursor fun node later =>
      Advances place context.size limit moved origin (read ++ node.toList) later :=
  .map ((hProceeds.after h hLeft).imp fun _ _ hLater => hLater.of_or)

theorem within {shift : Shift} (h : Proceeds place limit movedOn first second nodes) :
    Proceeds place limit movedOn (Scoped.within shift first) (Scoped.within shift second)
      nodes := by
  intro context cursor hLies hLeft
  have hSize : (shift.enter context).size = context.size := by cases shift <;> rfl
  rw [← hSize] at hLies ⊢
  exact (h (shift.enter context) cursor hLies hLeft).within

theorem keepingIn (h : Proceeds place limit movedOn first second nodes) :
    Proceeds place limit movedOn (Scoped.keepingIn first) (Scoped.keepingIn second) nodes :=
  fun context cursor hLies hLeft => (h context cursor hLies hLeft).keepingIn

theorem allowIn (h : Proceeds place limit movedOn first second nodes) :
    Proceeds place limit movedOn (allowIn first) (allowIn second) nodes :=
  h.within

theorem withoutIn (h : Proceeds place limit movedOn first second nodes) :
    Proceeds place limit movedOn (withoutIn first) (withoutIn second) nodes :=
  h.within

theorem inFunction {isAsync isGenerator : Bool}
    (h : Proceeds place limit movedOn first second nodes) :
    Proceeds place limit movedOn (inFunction isAsync isGenerator first)
      (inFunction isAsync isGenerator second) nodes :=
  h.within

/-- What gets on where fewer tokens are left than a limit does so under a lower limit. -/
theorem lower (h : Proceeds place (limit + 1) movedOn first second nodes) :
    Proceeds place limit movedOn first second nodes :=
  fun context cursor hLies hLeft => (h context cursor hLies (Nat.lt_succ_of_lt hLeft)).imp
    fun _ _ hValue => { hValue with within := hLeft }

theorem unexpected :
    Proceeds place limit movedOn Production.unexpected Production.unexpected nodes :=
  fun _ _ hLies _ => .unexpected hLies

end Proceeds

/-- What takes a token takes one where there is one. -/
theorem Proceeds.ifLeft {place : Nat → Prop} {limit : Nat} {first : Production α}
    {second : Parser α} {nodes : α → List Node}
    (h : Proceeds place limit (fun _ => true) first second nodes) :
    ProceedsIfLeft place limit first second nodes :=
  fun context cursor hLies hLeft => (h context cursor hLies hLeft).imp fun _ _ hValue =>
    hValue.of_moved

theorem ProceedsIfLeft.atToken {place : Nat → Prop} {limit : Nat} {first : Production α}
    {second : Parser α} {nodes : α → List Node} {context : Context} {cursor : Cursor}
    {token : Token} (h : ProceedsIfLeft place limit first second nodes)
    (hToken : cursor.current? = some token) (hLies : cursor.LiesIn place context.size)
    (hLeft : cursor.rest.length < limit) :
    Follows place first second context cursor fun value later =>
      Advances place context.size limit true cursor (nodes value) later := by
  have hAtEnd : (!cursor.atEnd) = true := by
    cases hRest : cursor.rest with
    | nil => simp [Cursor.current?, hRest] at hToken
    | cons => simp [Cursor.atEnd, hRest]
  rw [← hAtEnd]
  exact h context cursor hLies hLeft

/-- What one turn of a repetition gets on: one that asks for another turn takes a token. -/
def Rounds (place : Nat → Prop) (limit : Nat) (moved : Bool)
    (turn : σ → Production (Turn σ β)) (twin : σ → Parser (Turn σ β)) (nodes : σ → List Node)
    (results : β → List Node) : Prop :=
  ∀ state context cursor, cursor.LiesIn place context.size → cursor.rest.length < limit →
    Starts place (nodes state) → Follows place (turn state) (twin state) context cursor
      (Turn.Meets
        (fun next later => Advances place context.size limit true cursor (nodes next) later)
        fun result later => Advances place context.size limit moved cursor (results result) later)

/-- Turns that get on are repeated until one is done. -/
theorem Rounds.iterate {place : Nat → Prop} {limit : Nat} {moved : Bool}
    {turn : σ → Production (Turn σ β)} {twin : σ → Parser (Turn σ β)} {nodes : σ → List Node}
    {results : β → List Node}
    (hRounds : Rounds place limit moved turn twin nodes results) (state : σ)
    (hState : Starts place (nodes state)) :
    Proceeds place limit (fun _ => moved) (iterate turn state) (iterate twin state) results := by
  intro context cursor hLies hLeft
  refine .iterate (fun state later =>
      Advances place context.size limit false cursor (nodes state) later)
    (Advances.refl hLies hLeft hState) (fun _ _ h => h.liesIn) fun state later h => ?_
  refine (hRounds state context later h.liesIn h.here h.starts).imp fun outcome after hMeets => ?_
  cases outcome with
  | again next => exact (h.trans hMeets).weaken.subset fun _ => List.mem_append_right _
  | done result =>
      have hDone := (h.trans hMeets).subset fun _ => List.mem_append_right _
      rwa [Bool.false_or] at hDone

end Production

end EcmaLint
