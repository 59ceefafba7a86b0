import EcmaLint.Proofs.Tree.Traversal
import EcmaLint.Rules.ObjectShorthand.Basic

/-! Arrow functions against their subtrees. While a program is traversed, arrow functions that are
open and those that were found to share something are kept in lists; what these lists come to is
what a search of the subtree of each arrow function gives. -/
namespace EcmaLint

namespace Place

/-- An identifier that only names something: a member or a property that is not computed, a label,
or a word of `new.target`. -/
def OnlyNames (identifier : Place) : Prop :=
  ∃ parent, identifier.parent? = some parent ∧
    ((parent.kind = .memberExpression ∧ identifier.field? = some .property ∧
        parent.node.flag .computed = false) ∨
      ((parent.kind = .property ∨ parent.kind = .methodDefinition) ∧
        identifier.field? = some .key ∧ parent.node.flag .computed = false) ∨
      parent.kind ∈ [.metaProperty, .labeledStatement, .breakStatement, .continueStatement])

/-- What stands at a place belongs to the function around it: `this`, `super`, `new.target`, or the
variable `arguments`. -/
def BelongsToFunction (place : Place) : Prop :=
  place.kind = .thisExpression ∨ place.kind = .super ∨
    (place.kind = .metaProperty ∧
      (place.node.child? .metaWord).bind (fun word => word.text? .ident) = some "new" ∧
      (place.node.child? .property).bind (fun word => word.text? .ident) = some "target") ∨
    (place.kind = .identifier ∧ place.node.text? .ident = some "arguments" ∧ ¬place.OnlyNames)

/-- A function with a `this` and `arguments` of its own. -/
def OwnsThis (place : Place) : Prop :=
  place.kind = .functionDeclaration ∨ place.kind = .functionExpression

/-- Something below a place, or there, belongs to a function around the place: no function between
the two owns it. -/
def SharesLexically (place : Place) : Prop :=
  ∃ use ∈ place.descendants, use.BelongsToFunction ∧ ∀ above ∈ place.upTo use, ¬above.OwnsThis

variable {place child : Place}

theorem not_ownsThis_of_belongsToFunction (h : place.BelongsToFunction) : ¬place.OwnsThis := by
  rintro (hKind | hKind) <;> simp [BelongsToFunction, hKind] at h

/-- A search goes through the children of a place, unless the place is a function with a `this` of
its own. -/
theorem sharesLexically_iff : place.SharesLexically ↔ place.BelongsToFunction ∨
    (¬place.OwnsThis ∧ ∃ child ∈ place.children, child.SharesLexically) := by
  constructor
  · rintro ⟨use, hUse, hBelongs, hBetween⟩
    rcases mem_descendants_iff.mp hUse with rfl | ⟨child, hChild, hBelow⟩
    · exact .inl hBelongs
    · rw [upTo_of_mem_children hChild hBelow, List.forall_mem_append] at hBetween
      exact .inr ⟨hBetween.2 place List.mem_cons_self, child, hChild, use, hBelow, hBelongs,
        hBetween.1⟩
  · rintro (hBelongs | ⟨hOwns, child, hChild, use, hBelow, hBelongs, hBetween⟩)
    · exact ⟨place, mem_descendants_self place, hBelongs, by simp [upTo_self]⟩
    · refine ⟨use, mem_descendants_iff.mpr (.inr ⟨child, hChild, hBelow⟩), hBelongs, ?_⟩
      rw [upTo_of_mem_children hChild hBelow, List.forall_mem_append]
      exact ⟨hBetween, by simpa using hOwns⟩

/-- The address is that of an arrow function that shares something, at a place or below it. -/
def HoldsSharing (place : Place) (address : List Nat) : Prop :=
  ∃ arrow ∈ place.descendants, arrow.kind = .arrowFunctionExpression ∧ arrow.SharesLexically ∧
    address = arrow.address

theorem holdsSharing_iff {address : List Nat} : place.HoldsSharing address ↔
    (place.kind = .arrowFunctionExpression ∧ place.SharesLexically ∧ address = place.address) ∨
      ∃ child ∈ place.children, child.HoldsSharing address := by
  constructor
  · rintro ⟨arrow, hArrow, hHolds⟩
    rcases mem_descendants_iff.mp hArrow with rfl | ⟨child, hChild, hBelow⟩
    · exact .inl hHolds
    · exact .inr ⟨child, hChild, arrow, hBelow, hHolds⟩
  · rintro (hHolds | ⟨child, hChild, arrow, hBelow, hHolds⟩)
    · exact ⟨place, mem_descendants_self place, hHolds⟩
    · exact ⟨arrow, mem_descendants_iff.mpr (.inr ⟨child, hChild, hBelow⟩), hHolds⟩

theorem length_address (place : Place) : place.address.length = place.depth :=
  List.length_map _

theorem address_of_mem_children (h : child ∈ place.children) :
    ∃ rank, child.address = rank :: place.address := by
  obtain ⟨field, rank, hAscents⟩ := ascents_of_mem_children h
  exact ⟨rank, by rw [address, hAscents, List.map_cons, address]⟩

/-- Places below a place come with ranks one after the other. -/
theorem map_address_below (place : Place) (rank : Nat) (rest : List (FieldName × Node)) :
    (below place rank rest).map address =
      (List.range' rank rest.length).map fun rank => rank :: place.address := by
  induction rest generalizing rank with
  | nil => rfl
  | cons first rest ih =>
      rw [below, List.map_cons, ih, List.length_cons, List.range'_succ, List.map_cons]
      rfl

theorem nodup_address_children (place : Place) : (place.children.map address).Nodup := by
  rw [children, map_address_below]
  exact (List.nodup_range' ..).map fun _ _ h => (List.cons.inj h).1

/-- The address of a place below another one ends with the address of that one. -/
theorem exists_address_eq_append {start : Place} : ∀ place ∈ start.descendants,
    ∃ ranks, place.address = ranks ++ start.address := by
  refine forall_descendants ⟨[], rfl⟩ fun place _ ih child hChild => ?_
  obtain ⟨ranks, hRanks⟩ := ih
  obtain ⟨rank, hRank⟩ := address_of_mem_children hChild
  exact ⟨rank :: ranks, by rw [hRank, hRanks, List.cons_append]⟩

/-- Two places of a tree with the same address are the same place. -/
theorem eq_of_address_eq {start first second : Place} (hFirst : first ∈ start.descendants)
    (hSecond : second ∈ start.descendants) (h : first.address = second.address) :
    first = second := by
  induction start using induction with
  | step start ih =>
      -- below a child the address is longer than that of the start, and tells which child it is
      have hLonger : ∀ child ∈ start.children, ∀ place ∈ child.descendants, ∃ ranks,
          place.address = ranks ++ child.address := fun child _ => exists_address_eq_append
      rcases mem_descendants_iff.mp hFirst with rfl | ⟨left, hLeft, hBelowLeft⟩ <;>
        rcases mem_descendants_iff.mp hSecond with rfl | ⟨right, hRight, hBelowRight⟩
      · rfl
      · obtain ⟨ranks, hRanks⟩ := hLonger right hRight second hBelowRight
        obtain ⟨rank, hRank⟩ := address_of_mem_children hRight
        have hLength := congrArg List.length (h.trans hRanks)
        rw [hRank, List.length_append, List.length_cons] at hLength
        omega
      · obtain ⟨ranks, hRanks⟩ := hLonger left hLeft first hBelowLeft
        obtain ⟨rank, hRank⟩ := address_of_mem_children hLeft
        have hLength := congrArg List.length (h.symm.trans hRanks)
        rw [hRank, List.length_append, List.length_cons] at hLength
        omega
      · obtain ⟨ranks, hRanks⟩ := hLonger left hLeft first hBelowLeft
        obtain ⟨others, hOthers⟩ := hLonger right hRight second hBelowRight
        have hEnds := hRanks.symm.trans (h.trans hOthers)
        have hDepth : left.address.length = right.address.length := by
          rw [length_address, length_address, depth_of_mem_children hLeft,
            depth_of_mem_children hRight]
        have hAddress := (List.append_inj' hEnds hDepth).2
        obtain rfl := List.inj_on_of_nodup_map start.nodup_address_children hLeft hRight hAddress
        exact ih left hLeft hBelowLeft hBelowRight

/-- A program, and nothing below it is one. -/
structure IsWholeProgram (start : Place) : Prop where
  kind_eq : start.kind = .program
  kind_ne : ∀ place ∈ start.descendants, ∀ child ∈ place.children, child.kind ≠ .program

theorem IsWholeProgram.kind_ne_below {start : Place} (h : start.IsWholeProgram)
    (hPlace : place ∈ start.descendants) (hChild : child ∈ place.children) :
    ∀ below ∈ child.descendants, below.kind ≠ .program := by
  have hBoth : ∀ below ∈ child.descendants,
      below ∈ start.descendants ∧ below.kind ≠ .program := by
    refine forall_descendants
      ⟨mem_descendants_of_mem_children hPlace hChild, h.kind_ne place hPlace child hChild⟩ ?_
    intro below _ ⟨hBelow, _⟩ deeper hDeeper
    exact ⟨mem_descendants_of_mem_children hBelow hDeeper, h.kind_ne below hBelow deeper hDeeper⟩
  exact fun below hBelow => (hBoth below hBelow).2

end Place

namespace Rules.ObjectShorthand

open Place

/-- The test of the rule says what only names something. -/
theorem isReference_iff {identifier : Place} :
    isReference identifier = true ↔ ¬identifier.OnlyNames := by
  obtain ⟨node, ascents⟩ := identifier
  cases ascents with
  | nil => simp [isReference, OnlyNames, parent?]
  | cons ascent above =>
      obtain ⟨parent, field, rank⟩ := ascent
      simp only [isReference, OnlyNames, parent?, field?, List.head?_cons, Option.map_some,
        Option.some.injEq, exists_eq_left', Place.kind]
      cases parent.kind <;> simp [imp_iff_not_or]

instance (identifier : Place) : Decidable identifier.OnlyNames :=
  decidable_of_iff (¬isReference identifier = true) (by rw [isReference_iff, not_not])

instance (place : Place) : Decidable place.BelongsToFunction := by
  unfold BelongsToFunction
  infer_instance

namespace ArrowScopes

/-- What the listeners for functions, arrow functions and what they share do at a visit. -/
def hear (scopes : ArrowScopes) (visit : Visit) : ArrowScopes :=
  match visit.phase, visit.place.kind with
  | .enter, .program | .enter, .functionDeclaration | .enter, .functionExpression =>
      scopes.enterFunction
  | .exit, .program | .exit, .functionDeclaration | .exit, .functionExpression =>
      scopes.exitFunction
  | .enter, .arrowFunctionExpression => scopes.enterArrow visit.place
  | .exit, .arrowFunctionExpression => scopes.exitArrow visit.place
  | .enter, _ => if visit.place.BelongsToFunction then scopes.share else scopes
  | .exit, _ => scopes

variable {scopes : ArrowScopes} {place : Place}

theorem hear_of_ownsThis (h : place.OwnsThis) :
    scopes.hear ⟨.enter, place⟩ = scopes.enterFunction ∧
      scopes.hear ⟨.exit, place⟩ = scopes.exitFunction := by
  rcases h with hKind | hKind <;> simp [hear, hKind]

theorem hear_of_program (h : place.kind = .program) :
    scopes.hear ⟨.enter, place⟩ = scopes.enterFunction ∧
      scopes.hear ⟨.exit, place⟩ = scopes.exitFunction := by
  simp [hear, h]

theorem hear_of_arrow (h : place.kind = .arrowFunctionExpression) :
    scopes.hear ⟨.enter, place⟩ = scopes.enterArrow place ∧
      scopes.hear ⟨.exit, place⟩ = scopes.exitArrow place := by
  simp [hear, h]

theorem hear_of_other (hProgram : place.kind ≠ .program) (hOwns : ¬place.OwnsThis)
    (hArrow : place.kind ≠ .arrowFunctionExpression) :
    scopes.hear ⟨.enter, place⟩ = (if place.BelongsToFunction then scopes.share else scopes) ∧
      scopes.hear ⟨.exit, place⟩ = scopes := by
  obtain ⟨hDeclaration, hExpression⟩ := not_or.mp hOwns
  unfold hear
  cases hKind : place.kind <;> simp_all

/-- What has changed once some places were left again: the same functions are open, arrow functions
of the innermost one share what is shared below the places, and so do those below the places
themselves. -/
structure Heard (places : List Place) (around : List (List Nat)) (before after : ArrowScopes) :
    Prop where
  functions_eq : after.functions = before.functions
  mem_sharing_iff : ∀ address, address ∈ after.sharing ↔ address ∈ before.sharing ∨
    (address ∈ around ∧ ∃ place ∈ places, place.SharesLexically) ∨
    ∃ place ∈ places, place.HoldsSharing address

namespace Heard

variable {around : List (List Nat)} {before between after : ArrowScopes}

theorem nil (scopes : ArrowScopes) : Heard [] around scopes scopes :=
  ⟨rfl, by simp⟩

theorem cons {places : List Place} (h : Heard [place] around before between)
    (hRest : Heard places around between after) : Heard (place :: places) around before after where
  functions_eq := hRest.functions_eq.trans h.functions_eq
  mem_sharing_iff address := by
    rw [hRest.mem_sharing_iff, h.mem_sharing_iff]
    simp only [List.mem_cons, List.not_mem_nil, or_false, exists_eq_or_imp, exists_eq_left,
      and_or_left, or_assoc, or_left_comm]

/-- A function with a `this` of its own keeps what is shared below it to itself. -/
theorem function (h : Heard place.children [] scopes.enterFunction between)
    (hOwns : place.OwnsThis) : Heard [place] around scopes between.exitFunction where
  functions_eq := by
    rw [exitFunction, h.functions_eq]
    rfl
  mem_sharing_iff address := by
    have hShares : ¬place.SharesLexically := fun hShares =>
      (sharesLexically_iff.mp hShares).elim
        (fun hBelongs => not_ownsThis_of_belongsToFunction hBelongs hOwns)
        fun hBelow => hBelow.1 hOwns
    have hArrow : place.kind ≠ .arrowFunctionExpression := by
      rcases hOwns with hKind | hKind <;> simp [hKind]
    have hChildren := h.mem_sharing_iff address
    simp only [List.mem_singleton, exists_eq_left, @holdsSharing_iff place, hShares, hArrow,
      false_and, and_false, false_or]
    simpa [exitFunction, enterFunction] using hChildren

/-- An arrow function shares what is shared below it, like those around it. -/
theorem arrow {outer : List (List (List Nat))} (hAround : scopes.functions = around :: outer)
    (h : Heard place.children (place.address :: around) (scopes.enterArrow place) between)
    (hArrow : place.kind = .arrowFunctionExpression) (hFresh : place.address ∉ around) :
    Heard [place] around scopes (between.exitArrow place) where
  functions_eq := by
    have hFunctions := h.functions_eq
    simp only [enterArrow, changeInnermost, hAround] at hFunctions
    simp only [exitArrow, changeInnermost, hFunctions, hAround]
    rw [List.filter_cons_of_neg (by simp), List.filter_eq_self.mpr]
    intro address hAddress
    simpa using fun hEq : address = place.address => hFresh (hEq ▸ hAddress)
  mem_sharing_iff address := by
    have hBelongs : ¬place.BelongsToFunction := by simp [BelongsToFunction, hArrow]
    have hOwns : ¬place.OwnsThis := by simp [OwnsThis, hArrow]
    have hShares : place.SharesLexically ↔ ∃ child ∈ place.children, child.SharesLexically := by
      rw [sharesLexically_iff]
      simp [hBelongs, hOwns]
    have hChildren := h.mem_sharing_iff address
    have hKept : (between.exitArrow place).sharing = between.sharing := by
      unfold exitArrow changeInnermost
      split <;> rfl
    have hEntered : (scopes.enterArrow place).sharing = scopes.sharing := by
      simp [enterArrow, changeInnermost, hAround]
    rw [hKept, hChildren, hEntered, List.mem_cons]
    simp only [List.mem_singleton, exists_eq_left, @holdsSharing_iff place, hArrow, true_and,
      ← hShares]
    grind

/-- Any other place shares what is shared there and below it. -/
theorem other {outer : List (List (List Nat))} (hAround : scopes.functions = around :: outer)
    (h : Heard place.children around
      (if place.BelongsToFunction then scopes.share else scopes) between)
    (hOwns : ¬place.OwnsThis) (hArrow : place.kind ≠ .arrowFunctionExpression) :
    Heard [place] around scopes between where
  functions_eq := by
    rw [h.functions_eq]
    split <;> rfl
  mem_sharing_iff address := by
    have hChildren := h.mem_sharing_iff address
    rw [hChildren]
    simp only [List.mem_singleton, exists_eq_left, @holdsSharing_iff place, hArrow, false_and,
      false_or, @sharesLexically_iff place, hOwns, not_false_eq_true, true_and]
    split
    case isTrue hBelongs =>
      simp only [share, hAround, List.headD_cons, List.mem_append, hBelongs, true_or, and_true]
      grind
    case isFalse hBelongs => simp only [hBelongs, false_or]

end Heard

/-- Places one behind the other, each of which changes no more than it may. -/
theorem heard_flatMap_events {places : List Place}
    (hEach : ∀ place ∈ places, ∀ {around outer scopes}, scopes.functions = around :: outer →
      (∀ address ∈ around, address.length < place.depth) →
        Heard [place] around scopes (place.events.foldl hear scopes))
    {around : List (List Nat)} {outer : List (List (List Nat))} {scopes : ArrowScopes}
    (hAround : scopes.functions = around :: outer)
    (hShorter : ∀ place ∈ places, ∀ address ∈ around, address.length < place.depth) :
    Heard places around scopes ((places.flatMap events).foldl hear scopes) := by
  induction places generalizing scopes with
  | nil => exact .nil scopes
  | cons place rest ih =>
      obtain ⟨hPlace, hRest⟩ := List.forall_mem_cons.mp hEach
      obtain ⟨hShorterPlace, hShorterRest⟩ := List.forall_mem_cons.mp hShorter
      have hFirst := hPlace hAround hShorterPlace
      rw [List.flatMap_cons, List.foldl_append]
      exact hFirst.cons (ih hRest (hFirst.functions_eq.trans hAround) hShorterRest)

/-- The arrow functions that are open inside a place, when those around it have shorter
addresses. -/
theorem exists_around_of_enter (hPlace : place.kind = .program ∨
      ∃ around outer, scopes.functions = around :: outer ∧
        ∀ address ∈ around, address.length < place.depth) :
    ∃ around outer, (scopes.hear ⟨.enter, place⟩).functions = around :: outer ∧
      ∀ address ∈ around, address.length < place.depth + 1 := by
  rcases hPlace with hProgram | ⟨around, outer, hAround, hShorter⟩
  · rw [(hear_of_program hProgram).1]
    exact ⟨[], _, rfl, by simp⟩
  have hLonger : ∀ address ∈ around, address.length < place.depth + 1 := fun address hAddress =>
    Nat.lt_succ_of_lt (hShorter address hAddress)
  by_cases hProgram : place.kind = .program
  · rw [(hear_of_program hProgram).1]
    exact ⟨[], _, rfl, by simp⟩
  by_cases hOwns : place.OwnsThis
  · rw [(hear_of_ownsThis hOwns).1]
    exact ⟨[], _, rfl, by simp⟩
  by_cases hArrow : place.kind = .arrowFunctionExpression
  · rw [(hear_of_arrow hArrow).1]
    refine ⟨place.address :: around, outer, by simp [enterArrow, changeInnermost, hAround], ?_⟩
    exact List.forall_mem_cons.mpr ⟨by simp [length_address], hLonger⟩
  · rw [(hear_of_other hProgram hOwns hArrow).1]
    refine ⟨around, outer, ?_, hLonger⟩
    split <;> exact hAround

/-- The events of a place that is no program, and neither is anything below it. Arrow functions that
are open around it have shorter addresses. -/
theorem heard_events {place : Place} (hProgram : ∀ below ∈ place.descendants, below.kind ≠ .program)
    {around : List (List Nat)} {outer : List (List (List Nat))} {scopes : ArrowScopes}
    (hAround : scopes.functions = around :: outer)
    (hShorter : ∀ address ∈ around, address.length < place.depth) :
    Heard [place] around scopes (place.events.foldl hear scopes) := by
  induction place using Place.induction generalizing around outer scopes with
  | step place ih =>
      have hChildren : ∀ {around outer scopes}, scopes.functions = around :: outer →
          (∀ address ∈ around, address.length < place.depth + 1) →
            Heard place.children around scopes
              ((place.children.flatMap events).foldl hear scopes) := by
        intro around outer scopes hAround hShorter
        refine heard_flatMap_events (fun child hChild => ?_) hAround fun child hChild => ?_
        · refine ih child hChild fun below hBelow => hProgram below ?_
          exact mem_descendants_iff.mpr (.inr ⟨child, hChild, hBelow⟩)
        · rwa [depth_of_mem_children hChild]
      have hLonger : ∀ address ∈ around, address.length < place.depth + 1 :=
        fun address hAddress => Nat.lt_succ_of_lt (hShorter address hAddress)
      rw [events_eq, List.foldl_cons, List.foldl_append, List.foldl_cons, List.foldl_nil]
      by_cases hOwns : place.OwnsThis
      · rw [(hear_of_ownsThis hOwns).1, (hear_of_ownsThis hOwns).2]
        exact .function (hChildren rfl (by simp)) hOwns
      by_cases hArrow : place.kind = .arrowFunctionExpression
      · rw [(hear_of_arrow hArrow).1, (hear_of_arrow hArrow).2]
        have hEntered : (scopes.enterArrow place).functions =
            (place.address :: around) :: outer := by
          simp [enterArrow, changeInnermost, hAround]
        have hFresh : place.address ∉ around := fun hMem =>
          absurd (hShorter _ hMem) (by simp [length_address])
        refine .arrow hAround (hChildren hEntered ?_) hArrow hFresh
        exact List.forall_mem_cons.mpr ⟨by simp [length_address], hLonger⟩
      · have hOther := fun scopes => @hear_of_other scopes place
          (hProgram place (mem_descendants_self place)) hOwns hArrow
        rw [(hOther _).1, (hOther _).2]
        have hShared : (if place.BelongsToFunction then scopes.share else scopes).functions =
            around :: outer := by
          split <;> exact hAround
        exact .other hAround (hChildren hShared hLonger) hOwns hArrow

/-- The address of an arrow function is known: it is open, or was found to share something. -/
def Knows (scopes : ArrowScopes) (address : List Nat) : Prop :=
  address ∈ scopes.sharing ∨ ∃ arrows ∈ scopes.functions, address ∈ arrows

theorem Knows.of_changeInnermost {change : List (List Nat) → List (List Nat)}
    {address : List Nat} (h : (scopes.changeInnermost change).Knows address) :
    scopes.Knows address ∨ ∃ arrows ∈ scopes.functions, address ∈ change arrows := by
  obtain ⟨functions, sharing⟩ := scopes
  cases functions with
  | nil => exact .inl h
  | cons arrows outer =>
      rcases h with hSharing | ⟨changed, hChanged, hAddress⟩
      · exact .inl (.inl hSharing)
      · rcases List.mem_cons.mp hChanged with rfl | hOuter
        · exact .inr ⟨arrows, List.mem_cons_self, hAddress⟩
        · exact .inl (.inr ⟨changed, List.mem_cons_of_mem _ hOuter, hAddress⟩)

/-- Only arrow functions that are entered become known. -/
theorem knows_hear {visit : Visit} {address : List Nat} (h : (scopes.hear visit).Knows address) :
    scopes.Knows address ∨ visit.phase = .enter ∧ visit.place.address = address := by
  obtain ⟨phase, place⟩ := visit
  have hShare : scopes.share.Knows address → scopes.Knows address := by
    rintro (hSharing | hOpen)
    · rcases List.mem_append.mp hSharing with hInnermost | hSharing
      · cases hFunctions : scopes.functions with
        | nil => simp [hFunctions] at hInnermost
        | cons arrows outer =>
            rw [hFunctions] at hInnermost
            exact .inr ⟨arrows, by simp [hFunctions], hInnermost⟩
      · exact .inl hSharing
    · exact .inr hOpen
  unfold hear at h
  split at h
  case h_7 hPhase _ =>
    obtain rfl : phase = .enter := hPhase
    rcases Knows.of_changeInnermost h with hKnown | ⟨arrows, hArrows, hAddress⟩
    · exact .inl hKnown
    · rcases List.mem_cons.mp hAddress with rfl | hOpen
      · exact .inr ⟨rfl, rfl⟩
      · exact .inl (.inr ⟨arrows, hArrows, hOpen⟩)
  case h_8 =>
    rcases Knows.of_changeInnermost h with hKnown | ⟨arrows, hArrows, hAddress⟩
    · exact .inl hKnown
    · exact .inl (.inr ⟨arrows, hArrows, List.mem_of_mem_filter hAddress⟩)
  case h_9 =>
    split at h
    · exact .inl (hShare h)
    · exact .inl h
  case h_10 => exact .inl h
  case h_1 | h_2 | h_3 =>
    refine .inl (h.imp_right ?_)
    rintro ⟨arrows, hArrows, hAddress⟩
    rcases List.mem_cons.mp hArrows with rfl | hOuter
    · cases hAddress
    · exact ⟨arrows, hOuter, hAddress⟩
  case h_4 | h_5 | h_6 =>
    refine .inl (h.imp_right ?_)
    rintro ⟨arrows, hArrows, hAddress⟩
    exact ⟨arrows, List.mem_of_mem_tail hArrows, hAddress⟩

/-- What is known after some visits was entered in one of them. -/
theorem exists_enter_of_knows {visits : List Visit} {address : List Nat}
    (h : (visits.foldl hear scopes).Knows address) :
    scopes.Knows address ∨
      ∃ visit ∈ visits, visit.phase = .enter ∧ visit.place.address = address := by
  induction visits generalizing scopes with
  | nil => exact .inl h
  | cons visit later ih =>
      rcases ih h with hKnown | ⟨other, hOther, hEntered⟩
      · rcases knows_hear hKnown with hBefore | hHere
        · exact .inl hBefore
        · exact .inr ⟨visit, List.mem_cons_self, hHere⟩
      · exact .inr ⟨other, List.mem_cons_of_mem _ hOther, hEntered⟩

variable {start : Place}

/-- Children of a place of a program, one behind the other. -/
theorem heard_children (h : start.IsWholeProgram) (hPlace : place ∈ start.descendants)
    {places : List Place} (hPlaces : places ⊆ place.children) {around : List (List Nat)}
    {outer : List (List (List Nat))} (hAround : scopes.functions = around :: outer)
    (hShorter : ∀ address ∈ around, address.length < place.depth + 1) :
    Heard places around scopes ((places.flatMap events).foldl hear scopes) := by
  refine heard_flatMap_events (fun child hChild => ?_) hAround fun child hChild => ?_
  · exact heard_events (h.kind_ne_below hPlace (hPlaces hChild))
  · rwa [depth_of_mem_children (hPlaces hChild)]

/-- Where the events of a place stand in those of a program. When the place is entered some function
is open, unless it is the program, and arrow functions open in it have shorter addresses. -/
theorem exists_around (h : start.IsWholeProgram) : ∀ place ∈ start.descendants,
    ∃ earlier later, start.events = earlier ++ place.events ++ later ∧
      (place.kind = .program ∨ ∃ around outer, (earlier.foldl hear {}).functions = around :: outer ∧
        ∀ address ∈ around, address.length < place.depth) := by
  refine forall_descendants ⟨[], [], by simp, .inl h.kind_eq⟩ ?_
  intro place hPlace ih child hChild
  obtain ⟨earlier, later, hEvents, hAround⟩ := ih
  obtain ⟨front, back, hSplit⟩ := List.append_of_mem hChild
  obtain ⟨around, outer, hInside, hShorter⟩ := exists_around_of_enter hAround
  refine ⟨earlier ++ ⟨.enter, place⟩ :: front.flatMap events,
    back.flatMap events ++ [⟨.exit, place⟩] ++ later, ?_, .inr ⟨around, outer, ?_, ?_⟩⟩
  · rw [hEvents, events_eq place, hSplit]
    simp
  · -- the siblings before the child leave the same functions open
    have hFront : front ⊆ place.children := hSplit ▸ List.subset_append_left _ _
    rw [List.foldl_append, List.foldl_cons]
    exact (heard_children h hPlace hFront hInside hShorter).functions_eq.trans hInside
  · rwa [depth_of_mem_children hChild]

/-- When the parent of an arrow function is left, the arrow function was found to share something
just if it does. -/
theorem shares_iff (h : start.IsWholeProgram) (hNodup : start.descendants.Nodup)
    {earlier later : List Visit} {arrow : Place}
    (hEvents : start.events = earlier ++ ⟨.exit, place⟩ :: later)
    (hChild : arrow ∈ place.children) (hArrow : arrow.kind = .arrowFunctionExpression) :
    (earlier.foldl hear {}).shares arrow = true ↔ arrow.SharesLexically := by
  have hIn : place ∈ start.descendants :=
    mem_events.mp (hEvents ▸ List.mem_append_right _ List.mem_cons_self)
  have hArrowIn := mem_descendants_of_mem_children hIn hChild
  obtain ⟨before, after, hBefore, hAround⟩ := exists_around h place hIn
  obtain ⟨around, outer, hInside, hShorter⟩ := exists_around_of_enter hAround
  have hOnce := nodup_events hNodup
  -- every visit happens once, so what comes before the exit is what leads up to the place and then
  -- the events of its children
  have hSplit : earlier ++ ⟨.exit, place⟩ :: later =
      before ++ ⟨.enter, place⟩ :: place.children.flatMap events ++ ⟨.exit, place⟩ :: after := by
    rw [← hEvents, hBefore, events_eq]
    simp
  obtain ⟨-, hOnceLater, hApart⟩ := List.nodup_append'.mp (hEvents ▸ hOnce)
  obtain ⟨rfl, -, rfl⟩ := (List.append_cons_inj_of_notMem
    (fun hMem => hApart hMem List.mem_cons_self) (List.nodup_cons.mp hOnceLater).1).mp hSplit
  have hHeard := heard_children h hIn (List.Subset.refl _) hInside hShorter
  -- the arrow function was not entered before its parent
  have hUnknown : ¬((before.foldl hear {}).hear ⟨.enter, place⟩).Knows arrow.address := by
    intro hKnows
    have hFolded : ((before ++ [(⟨.enter, place⟩ : Visit)]).foldl hear {}).Knows arrow.address := by
      rwa [List.foldl_concat]
    rcases exists_enter_of_knows hFolded with hStart | ⟨⟨phase, entered⟩, hVisit, rfl, hAddress⟩
    · simp [Knows] at hStart
    have hFront : before ++ [⟨.enter, place⟩] ++ place.children.flatMap events ++
        ⟨.exit, place⟩ :: later = start.events := by
      rw [hEvents]
      simp
    have hVisitIn : ⟨.enter, entered⟩ ∈ start.events := by
      rw [← hFront, List.append_assoc]
      exact List.mem_append_left _ hVisit
    obtain rfl := eq_of_address_eq (mem_events.mp hVisitIn) hArrowIn hAddress
    have hInChildren : ⟨.enter, entered⟩ ∈ place.children.flatMap events :=
      List.mem_flatMap.mpr ⟨entered, hChild, mem_events.mpr (mem_descendants_self entered)⟩
    rw [← hFront] at hOnce
    exact (List.nodup_append'.mp (List.nodup_append'.mp hOnce).1).2.2 hVisit hInChildren
  obtain ⟨hNotSharing, hNotOpen⟩ := not_or.mp hUnknown
  have hNotAround : arrow.address ∉ around := fun hMem =>
    hNotOpen ⟨around, hInside ▸ List.mem_cons_self, hMem⟩
  rw [List.foldl_append, List.foldl_cons, shares, List.contains_iff_mem, hHeard.mem_sharing_iff]
  simp only [hNotSharing, hNotAround, false_and, false_or]
  constructor
  · rintro ⟨child, hSibling, other, hOther, -, hShares, hAddress⟩
    have hOtherIn : other ∈ start.descendants :=
      forall_descendants (motive := (· ∈ start.descendants))
        (mem_descendants_of_mem_children hIn hSibling)
        (fun _ _ hBetween _ => mem_descendants_of_mem_children hBetween) other hOther
    rwa [eq_of_address_eq hArrowIn hOtherIn hAddress]
  · exact fun hShares => ⟨arrow, hChild, arrow, mem_descendants_self arrow, hArrow, hShares, rfl⟩

/-- At the end of a program no function is open. -/
theorem functions_eq_nil (h : start.IsWholeProgram) :
    (start.events.foldl hear {}).functions = [] := by
  rw [events_eq, List.foldl_cons, List.foldl_append, List.foldl_cons, List.foldl_nil,
    (hear_of_program h.kind_eq).1, (hear_of_program h.kind_eq).2, exitFunction,
    (heard_children h (mem_descendants_self start) (List.Subset.refl _) rfl (by simp)).functions_eq]
  rfl

end ArrowScopes
end Rules.ObjectShorthand

end EcmaLint
