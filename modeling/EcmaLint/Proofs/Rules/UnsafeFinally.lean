import Mathlib.Data.List.TakeWhile
import EcmaLint.Proofs.Grammar.Program
import EcmaLint.Proofs.Lint.Remembering
import EcmaLint.Proofs.Rules.Bindings
import EcmaLint.Proofs.Shape.Statement
import EcmaLint.Proofs.Tree.Lineage
import EcmaLint.Rules.UnsafeFinally

/-! Jumps out of finally blocks. The rule follows a jump upwards to the first finally block or to
where it takes the jump to end; it reports a jump if some finally block has the jump in it, but not
the end of the jump. -/
namespace EcmaLint.Rules.UnsafeFinally

open Place Progress Listener

/-- The statements that jump. -/
def isJump (kind : NodeKind) : Bool :=
  kind == .returnStatement || kind == .throwStatement || kind == .breakStatement ||
    kind == .continueStatement

/-- The label that a jump names. -/
def label? (node : Node) : Option String := (node.child? .label).bind Node.name?

/-- Whether a jump within a function ends at a node: a jump out of the function at a class, a jump
without a label at what it is for. A jump with a label ends at the statement with the label; one
with the word `continue` is not followed further than the nearest loop. -/
def isEndOf (jump node : Node) : Bool :=
  match jump.kind, label? jump with
  | .breakStatement, none => node.kind.isLoop || node.kind == .switchStatement
  | .breakStatement, label => hasLabel label node
  | .continueStatement, none => node.kind.isLoop
  | .continueStatement, label => node.kind.isLoop || hasLabel label node
  | _, _ => node.kind.isClass

/-- Where a jump ends, at the latest at its function or program. -/
def end? (place : Place) : Option Place :=
  place.ancestors.find? fun above => above.kind.isHome || isEndOf place.node above.node

/-- A place is the last block of a `try` statement. -/
def IsFinalizer (place : Place) : Prop :=
  place.field? = some .finalizer ∧ ∃ parent, place.parent? = some parent ∧
    parent.kind = .tryStatement

/-- A jump leads out of a finally block: the block has the jump in it, but not its end. -/
def LeavesFinalizer (place : Place) : Prop :=
  isJump place.kind = true ∧ ∃ target, end? place = some target ∧
    ∃ block ∈ place.ancestors, IsFinalizer block ∧ target ∉ block.descendants

variable {reach : Reach} {label : Option String}

theorem isFinalizer_cons_iff {node : Node} {ascent : Ascent} {above : List Ascent} :
    IsFinalizer ⟨node, ascent :: above⟩ ↔
      (ascent.parent.kind == .tryStatement && ascent.field == .finalizer) = true := by
  simp [IsFinalizer, field?, parent?, kind, and_comm]

/-- A jump can be followed from a place up to a block: it ends nowhere on the way, and the statement
with its label is not passed. -/
inductive Climbs (reach : Reach) (label : Option String) : Place → Place → Prop
  | here {place : Place} (hGoesOn : reach.endsAt place.kind = false) :
      Climbs reach label place place
  | up {place parent block : Place} (hGoesOn : reach.endsAt place.kind = false)
      (hParent : place.parent? = some parent) (hLabel : hasLabel label parent.node = false)
      (h : Climbs reach label parent block) : Climbs reach label place block

theorem Climbs.goesOn {place block : Place} (h : Climbs reach label place block) :
    reach.endsAt place.kind = false := by
  cases h <;> assumption

/-- Climbing to a block further up goes on from the parent. -/
theorem climbs_iff_of_parent {place parent block : Place} (hParent : place.parent? = some parent)
    (hNe : block ≠ place) : Climbs reach label place block ↔ reach.endsAt place.kind = false ∧
      hasLabel label parent.node = false ∧ Climbs reach label parent block := by
  refine ⟨fun h => ?_, fun ⟨hGoesOn, hLabel, h⟩ => .up hGoesOn hParent hLabel h⟩
  cases h with
  | here => exact absurd rfl hNe
  | up hGoesOn hUp hLabel h =>
      obtain rfl := Option.some.inj (hParent.symm.trans hUp)
      exact ⟨hGoesOn, hLabel, h⟩

theorem hasLabel_of_kind_ne {node : Node} (h : node.kind ≠ .labeledStatement) :
    hasLabel label node = false := by
  simp [hasLabel, h]

@[simp] theorem hasLabel_none (node : Node) : hasLabel none node = false := rfl

/-- A jump leaves a finally block if it can be followed up to one. -/
theorem leavesFinally_iff (place : Place) (isInside : Bool) :
    leavesFinally reach label isInside place.kind place.ascents = true ↔
      (label.isSome → isInside = false) ∧
        ∃ block, IsFinalizer block ∧ Climbs reach label place block := by
  obtain ⟨node, ascents⟩ := place
  induction ascents generalizing node isInside with
  | nil =>
      have hNone : ∀ block, IsFinalizer block → ¬Climbs reach label ⟨node, []⟩ block := by
        rintro block ⟨hField, -⟩ hClimbs
        cases hClimbs with
        | here => cases hField
        | up _ hParent => cases hParent
      simpa [leavesFinally] using fun _ => hNone
  | cons ascent above ih =>
      have hParent : (Place.mk node (ascent :: above)).parent? = some ⟨ascent.parent, above⟩ := rfl
      change leavesFinally reach label isInside node.kind (ascent :: above) = true ↔ _
      rw [leavesFinally]
      by_cases hEnds : reach.endsAt node.kind = true
      · rw [if_pos hEnds]
        refine ⟨fun h => Bool.noConfusion h, fun ⟨_, _, _, hClimbs⟩ => ?_⟩
        exact absurd hClimbs.goesOn (by simp [kind, hEnds])
      rw [if_neg hEnds]
      rw [Bool.not_eq_true] at hEnds
      by_cases hLast : (ascent.parent.kind == .tryStatement && ascent.field == .finalizer) = true
      · have hTry : ascent.parent.kind = .tryStatement := by simp_all
        have hLabel : hasLabel label ascent.parent = false :=
          hasLabel_of_kind_ne (by simp [hTry])
        rw [if_pos hLast, hLabel]
        have hHere : ∃ block, IsFinalizer block ∧
            Climbs reach label ⟨node, ascent :: above⟩ block :=
          ⟨_, isFinalizer_cons_iff.mpr hLast, .here hEnds⟩
        cases label <;> simp [hHere]
      · rw [if_neg hLast]
        refine (ih _ _).trans ?_
        have hUp : (∃ block, IsFinalizer block ∧
            Climbs reach label ⟨node, ascent :: above⟩ block) ↔
              hasLabel label ascent.parent = false ∧
                ∃ block, IsFinalizer block ∧ Climbs reach label ⟨ascent.parent, above⟩ block := by
          constructor
          · rintro ⟨block, hBlock, hClimbs⟩
            have hNe : block ≠ ⟨node, ascent :: above⟩ := by
              rintro rfl
              exact hLast (isFinalizer_cons_iff.mp hBlock)
            obtain ⟨-, hLabel, hRest⟩ := (climbs_iff_of_parent hParent hNe).mp hClimbs
            exact ⟨hLabel, block, hBlock, hRest⟩
          · rintro ⟨hLabel, block, hBlock, hRest⟩
            exact ⟨block, hBlock, .up hEnds hParent hLabel hRest⟩
        rw [hUp]
        cases label <;> simp [and_assoc]

theorem Climbs.mem {place block : Place} (h : Climbs reach label place block) :
    block ∈ place :: place.ancestors := by
  induction h with
  | here => exact List.mem_cons_self
  | up _ hParent _ _ ih =>
      rw [ancestors_of_parent? hParent]
      exact List.mem_cons_of_mem _ ih

/-- A jump is followed over the places between it and a block. -/
theorem climbs_iff {block : Place} : ∀ place ∈ block.descendants,
    (Climbs reach label place block ↔ reach.endsAt place.kind = false ∧
      ∀ above ∈ block.upTo place,
        reach.endsAt above.kind = false ∧ hasLabel label above.node = false) := by
  refine forall_descendants ⟨fun h => ⟨h.goesOn, by simp [upTo_self]⟩, fun h => .here h.1⟩ ?_
  intro place hPlace ih child hChild
  have hNe : block ≠ child := by
    rintro rfl
    have hLe := depth_le_of_mem_descendants hPlace
    rw [depth_of_mem_children hChild] at hLe
    omega
  rw [climbs_iff_of_parent (parent?_of_mem_children hChild) hNe, ih, upTo_child hPlace hChild,
    List.forall_mem_cons]
  tauto

theorem endsAt_of_isJump {kind : NodeKind} (h : isJump kind = true) (reach : Reach) :
    reach.endsAt kind = false := by
  simp only [isJump, Bool.or_eq_true, beq_iff_eq] at h
  rcases h with ((rfl | rfl) | rfl) | rfl <;> cases reach <;> rfl

theorem isFlow_of_isJump {kind : NodeKind} (h : isJump kind = true) : kind.isFlow = true := by
  simp only [isJump, Bool.or_eq_true, beq_iff_eq] at h
  rcases h with ((rfl | rfl) | rfl) | rfl <;> rfl

theorem endsAt_of_isHome {kind : NodeKind} (h : kind.isHome = true) (reach : Reach) :
    reach.endsAt kind = true := by
  unfold NodeKind.isHome at h
  cases reach <;> simp [Reach.endsAt, h]

/-- What ends a jump below its home, other than classes. -/
theorem endsAt_eq {kind : NodeKind} (hHome : kind.isHome = false) (hClass : kind.isClass = false)
    (reach : Reach) : reach.endsAt kind = match reach with
      | .function => false
      | .breakable => kind.isLoop || kind == .switchStatement
      | .loop => kind.isLoop := by
  unfold NodeKind.isHome at hHome
  cases reach <;> simp [Reach.endsAt, hHome, hClass]

/-- Two searches find the same if they agree up to where both stop. -/
theorem find?_congr_of_takeWhile {α : Type} {list : List α} {p q stop : α → Bool}
    (hStop : ∀ a, stop a = true → p a = true ∧ q a = true)
    (h : ∀ a ∈ list.takeWhile (fun a => !stop a), p a = q a) : list.find? p = list.find? q := by
  induction list with
  | nil => rfl
  | cons a rest ih =>
      by_cases hHere : stop a = true
      · obtain ⟨hp, hq⟩ := hStop a hHere
        rw [List.find?_cons_of_pos hp, List.find?_cons_of_pos hq]
      · rw [List.takeWhile_cons_of_pos (by simpa using hHere)] at h
        obtain ⟨hFirst, hRest⟩ := List.forall_mem_cons.mp h
        rw [List.find?_cons, List.find?_cons, hFirst, ih hRest]

section

variable {program : Node} (hShaped : program.Shaped) {place : Place}
  (hPlace : place ∈ (root program).descendants)
include hShaped hPlace

theorem kind_of_isFinalizer (h : IsFinalizer place) : place.kind = .blockStatement := by
  obtain ⟨hField, parent, hParent, hTry⟩ := h
  have hChild := mem_children_of_parent? place hPlace hParent
  have hAbove := ancestors_subset_descendants place hPlace (parent_mem_ancestors hParent)
  have hConforms : parent.node.Conforms := hShaped _ (node_mem_subtree hAbove)
  obtain ⟨form, hForm, -, part, hPart, hAccepts⟩ :=
    hConforms.exists_part (mem_namedChildren_of_mem_children hChild hField)
  rw [show parent.node.kind = .tryStatement from hTry] at hForm
  obtain rfl := List.mem_singleton.mp hForm
  obtain rfl : part = .optional (· == .blockStatement) := by simpa using hPart
  exact eq_of_beq hAccepts

/-- A jump leads out of a finally block that does not have in it where the jump is stopped. -/
theorem isUnsafe_iff (hJump : isJump place.kind = true) {target : Place}
    (hTarget : place.ancestors.find? (fun above => (Reach.of place.node).endsAt above.kind ||
      hasLabel (label? place.node) above.node) = some target) :
    isUnsafe place = true ↔
      ∃ block ∈ place.ancestors, IsFinalizer block ∧ target ∉ block.descendants := by
  have hGoesOn : (Reach.of place.node).endsAt place.kind = false := endsAt_of_isJump hJump _
  have hUnsafe : isUnsafe place = true ↔ ∃ block, IsFinalizer block ∧
      Climbs (.of place.node) (label? place.node) place block :=
    (leavesFinally_iff place false).trans (and_iff_right fun _ => rfl)
  -- nothing on the way to a block stops the jump exactly if what stops it is further up
  have hClimbs : ∀ block ∈ place.ancestors,
      (Climbs (.of place.node) (label? place.node) place block ↔ target ∉ block.descendants) := by
    intro block hBlock
    have hBelow := mem_descendants_of_mem_ancestors place hPlace hBlock
    rw [climbs_iff place hBelow, and_iff_right hGoesOn]
    rw [ancestors_eq_upTo_append hBelow, List.find?_append] at hTarget
    cases hFound : (block.upTo place).find? fun above =>
        (Reach.of place.node).endsAt above.kind || hasLabel (label? place.node) above.node with
    | none =>
        rw [hFound, Option.none_or] at hTarget
        have hNone := List.find?_eq_none.mp hFound
        have hLt := depth_lt_of_mem_ancestors (List.mem_of_find?_eq_some hTarget)
        refine iff_of_true (fun above hAbove => ?_) fun hIn => ?_
        · simpa using hNone above hAbove
        · exact Nat.not_lt_of_le (depth_le_of_mem_descendants hIn) hLt
    | some stop =>
        rw [hFound, Option.some_or, Option.some_inj] at hTarget
        subst hTarget
        have hIn := List.mem_of_find?_eq_some hFound
        refine iff_of_false (fun h => ?_) fun h => h ((mem_upTo_iff hBelow).mp hIn).1
        have hStops := List.find?_some hFound
        simp [h stop hIn] at hStops
  rw [hUnsafe]
  constructor
  · rintro ⟨block, hFinalizer, h⟩
    rcases List.mem_cons.mp h.mem with rfl | hBlock
    · rw [kind_of_isFinalizer hShaped hPlace hFinalizer] at hJump
      cases hJump
    · exact ⟨block, hBlock, hFinalizer, (hClimbs block hBlock).mp h⟩
  · rintro ⟨block, hBlock, hFinalizer, h⟩
    exact ⟨block, hFinalizer, (hClimbs block hBlock).mpr h⟩

/-- Only some jumps have labels, and a label is an identifier. -/
theorem kind_of_label (hJump : isJump place.kind = true) {label : Node}
    (hLabel : place.node.child? .label = some label) :
    (place.kind = .breakStatement ∨ place.kind = .continueStatement) ∧
      label.kind = .identifier := by
  obtain ⟨form, hForm, -, part, hPart, hAccepts⟩ :=
    (hShaped _ (node_mem_subtree hPlace)).exists_part (Node.mem_namedChildren_of_child? hLabel)
  simp only [isJump, Bool.or_eq_true, beq_iff_eq, kind] at hJump ⊢
  rcases hJump with ((hJump | hJump) | hJump) | hJump
  all_goals
    rw [hJump] at hForm
    obtain rfl := List.mem_singleton.mp hForm
    simp at hPart
  all_goals
    subst hPart
    exact ⟨by simp [hJump], eq_of_beq hAccepts⟩

/-- A jump with a label names it. -/
theorem isNone_label? (hJump : isJump place.kind = true) :
    (label? place.node).isNone = (place.node.child? .label).isNone := by
  unfold label?
  cases hLabel : place.node.child? .label with
  | none => rfl
  | some label =>
      obtain ⟨held, hHeld, -, rfl⟩ :=
        exists_of_mem_namedChildren (Node.mem_namedChildren_of_child? hLabel)
      have hConforms : held.node.Conforms :=
        hShaped _ (node_mem_subtree (mem_descendants_of_mem_children hPlace hHeld))
      obtain ⟨name, hName⟩ :=
        hConforms.name?_of_identifier (kind_of_label hShaped hPlace hJump hLabel).2
      rw [Option.bind_some, hName]
      rfl

theorem label?_eq_none (hJump : isJump place.kind = true) (hBreak : place.kind ≠ .breakStatement)
    (hContinue : place.kind ≠ .continueStatement) : label? place.node = none := by
  unfold label?
  cases hLabel : place.node.child? .label with
  | none => rfl
  | some label =>
      exact absurd (kind_of_label hShaped hPlace hJump hLabel).1 (by simp [hBreak, hContinue])

/-- What stops a jump is where it ends. -/
theorem find?_eq_end? (hJump : isJump place.kind = true) :
    place.ancestors.find? (fun above => (Reach.of place.node).endsAt above.kind ||
      hasLabel (label? place.node) above.node) = end? place := by
  have hFlow := isFlow_of_isJump hJump
  have hLabel := isNone_label? hShaped hPlace hJump
  refine find?_congr_of_takeWhile (fun above (hHome : above.kind.isHome = true) => ?_)
    fun above hAbove => ?_
  · simp [endsAt_of_isHome hHome, hHome]
  have hHome : above.kind.isHome = false := by simpa using List.mem_takeWhile_imp hAbove
  have hClass := forall_not_isClass hShaped place hPlace hFlow above hAbove
  rw [endsAt_eq hHome hClass, hHome, Bool.false_or, Reach.of, isEndOf, ← hLabel]
  by_cases hBreak : place.kind = .breakStatement
  · rw [show place.node.kind = .breakStatement from hBreak]
    cases label? place.node <;> simp [kind]
  by_cases hContinue : place.kind = .continueStatement
  · rw [show place.node.kind = .continueStatement from hContinue]
    cases label? place.node <;> simp [kind]
  rw [label?_eq_none hShaped hPlace hJump hBreak hContinue]
  have hNoClass : above.node.kind.isClass = false := hClass
  simp only [isJump, Bool.or_eq_true, beq_iff_eq, hBreak, hContinue, or_false] at hJump
  rcases hJump with hKind | hKind
  all_goals
    rw [show place.node.kind = _ from hKind]
    simp [hNoClass]

/-- The statements that the rule reports on are the jumps that lead out of a finally block. -/
theorem isUnsafe_iff_leavesFinalizer (hRoot : program.kind = .program)
    (hJump : isJump place.kind = true) : isUnsafe place = true ↔ LeavesFinalizer place := by
  have hNe : place ≠ root program := by
    rintro rfl
    rw [kind, root, hRoot] at hJump
    cases hJump
  have hSome : (end? place).isSome = true := by
    refine List.find?_isSome.mpr ⟨root program, mem_ancestors_of_ne hPlace hNe, ?_⟩
    rw [kind, root, hRoot]
    rfl
  obtain ⟨target, hTarget⟩ := Option.isSome_iff_exists.mp hSome
  rw [isUnsafe_iff hShaped hPlace hJump ((find?_eq_end? hShaped hPlace hJump).trans hTarget)]
  constructor
  · exact fun h => ⟨hJump, target, hTarget, h⟩
  · rintro ⟨-, other, hOther, h⟩
    obtain rfl := Option.some.inj (hTarget.symm.trans hOther)
    exact h

end

/-- The keys of the listeners with the kinds that they name. -/
def keys : List (String × NodeKind) :=
  [("ReturnStatement", .returnStatement), ("ThrowStatement", .throwStatement),
   ("BreakStatement", .breakStatement), ("ContinueStatement", .continueStatement)]

theorem names_of_mem_keys {entry : String × NodeKind} (h : entry ∈ keys) :
    Names entry.1 .enter entry.2 [] := by
  have hKeys : ∀ entry ∈ keys, (splitKey entry.1).2 = .enter ∧
      Selector.Printer.render? '\'' [⟨⟨some entry.2, []⟩, []⟩] = some (splitKey entry.1).1 := by
    decide +kernel
  exact ⟨(hKeys entry h).1, (hKeys entry h).2, fun _ hTested => nomatch hTested⟩

theorem listeners_eq : listeners = keys.map fun entry =>
    .reporting entry.1 fun _ place _ => reports place := rfl

/-- What is reported at a visit, if the listeners are set up. -/
theorem toldAt_eq [RegexEngine] {actives : List (ActiveListener Unit)}
    (h : listeners.mapM activate = .ok actives)
    (source : SourceCode) (visit : Visit) : (toldAt source actives visit ()).1 =
      if visit.phase = .enter ∧ isJump visit.place.kind = true then reports visit.place
      else [] := by
  have hHears : ∀ entry ∈ keys, ∀ react : SourceCode → Place → Unit → Reaction Unit,
      hears visit ⟨entry.1, react⟩ = true ↔
        visit.phase = .enter ∧ visit.place.kind = entry.2 := by
    intro entry hEntry react
    rw [(names_of_mem_keys hEntry).hears_iff]
    simp
  simp only [keys, List.forall_mem_cons, List.not_mem_nil, false_imp_iff, implies_true,
    and_true] at hHears
  obtain ⟨hReturn, hThrow, hBreak, hContinue⟩ := hHears
  rw [toldAt, reactions_filter h, listeners_eq]
  simp only [keys, List.map_cons, List.map_nil, reporting, List.filter_cons, List.filter_nil,
    hReturn, hThrow, hBreak, hContinue]
  by_cases hEnter : visit.phase = .enter
  · by_cases hFirst : visit.place.kind = .returnStatement
    · simp [hEnter, hFirst, isJump, told]
    by_cases hSecond : visit.place.kind = .throwStatement
    · simp [hEnter, hSecond, isJump, told]
    by_cases hThird : visit.place.kind = .breakStatement
    · simp [hEnter, hThird, isJump, told]
    by_cases hFourth : visit.place.kind = .continueStatement
    · simp [hEnter, hFourth, isJump, told]
    · simp [hFirst, hSecond, hThird, hFourth, isJump, told]
  · simp [hEnter, told]

theorem isAccepted_of_activate [RegexEngine] {actives : List (ActiveListener Unit)}
    (h : listeners.mapM activate = .ok actives) {desk : Desk} (hInfo : desk.info = info) :
    ∀ active ∈ actives, IsAccepted desk active := by
  intro active hActive place memory
  obtain ⟨listener, hListener, hActivate⟩ := exists_of_mem_mapM h hActive
  obtain ⟨key, -, rfl⟩ := List.mem_map.mp hListener
  rw [react_of_activate hActivate]
  refine ⟨memory, reports place, rfl, fun report hReport => ?_⟩
  unfold reports at hReport
  split at hReport
  case isTrue =>
    obtain rfl := List.mem_singleton.mp hReport
    have hDeclared : (info.template? "unsafeUsage").isSome = true := by decide
    exact ⟨hInfo ▸ hDeclared, by rintro ⟨⟩, by rintro _ ⟨⟩, rfl⟩
  case isFalse => cases hReport

theorem map_filter_eq_flatMap {α β : Type} (p : α → Bool) (f : α → β) (list : List α) :
    (list.filter p).map f = list.flatMap fun a => if p a = true then [f a] else [] := by
  induction list with
  | nil => rfl
  | cons a rest ih =>
      rw [List.filter_cons, List.flatMap_cons, ← ih]
      split <;> rfl

open Classical in
/-- In every program the rule finds the jumps that lead out of a finally block, each once, whatever
other rules there are. -/
theorem parse_findsUnsafeJumps [RegexEngine] {text : String} {parseOptions : ParseOptions}
    {parsed : Parsed}
    (hParse : parse text parseOptions = .ok parsed) {severity : Severity} {options : List Json}
    {actives : List (ActiveListener Unit)}
    (hListeners : (⟨rule, severity, options⟩ : ConfiguredRule).listeners = .ok actives)
    {rules : List ActiveRule} {rank : Nat}
    (hRule : rules[rank]? = some ⟨⟨rule, severity, options⟩, actives⟩) (computeFixes : Bool) :
    (((Pass.ofRules rules computeFixes { text, parsed }).findingsOf rank).map fun finding =>
        (finding.diagnostic.messageId, finding.diagnostic.span)).Perm
      (((Place.root parsed.program).descendants.filter fun place => LeavesFinalizer place).map
        fun place => (some "unsafeUsage", place.span)) := by
  have hActivate : listeners.mapM activate = .ok actives := by
    obtain ⟨created, hCreated, hActivate⟩ := exists_of_bind_eq_ok hListeners
    exact Except.ok.inj hCreated ▸ hActivate
  have hAccepted : ∀ listener ∈ actives, IsAccepted
      (ActiveRule.desk ⟨⟨rule, severity, options⟩, actives⟩ { text, parsed } computeFixes)
        listener :=
    isAccepted_of_activate hActivate rfl
  refine (Pass.perm_findingsOf_reportsOver hRule hAccepted).trans (.of_eq ?_)
  have hShaped : parsed.program.Shaped := (shaped_of_parse hParse).shaped
  have hRoot : parsed.program.kind = .program := (lies_of_parse hParse).1.kind_eq
  have hExit : ∀ place, (toldAt { text, parsed } actives ⟨.exit, place⟩ ()).1 = [] := by
    intro place
    rw [toldAt_eq hActivate, if_neg (by simp)]
  change ((reportsOver { text, parsed } actives (Place.root parsed.program).visits ()).map _) = _
  rw [reportsOver_unit, visits_eq_events, flatMap_events hExit, List.map_flatMap,
    map_filter_eq_flatMap]
  refine List.flatMap_congr fun place hPlace => ?_
  rw [toldAt_eq hActivate]
  by_cases hJump : isJump place.kind = true
  · have hUnsafe := isUnsafe_iff_leavesFinalizer hShaped hPlace hRoot hJump
    rw [if_pos ⟨rfl, hJump⟩, reports]
    by_cases hLeaves : LeavesFinalizer place
    · rw [if_pos (hUnsafe.mpr hLeaves), if_pos (by simpa using hLeaves)]
      rfl
    · rw [if_neg fun h => hLeaves (hUnsafe.mp h), if_neg (by simpa using hLeaves)]
      rfl
  · rw [if_neg fun h => hJump h.2, if_neg (by simpa using fun h => hJump h.1)]
    rfl

open Classical in
/-- A loop that is left out of a finally block. -/
theorem parse_findsUnsafeJumps_break :
    ∃ parsed actives,
      parse "while (a) \x7b try \x7b\x7d finally \x7b break; \x7d \x7d" default = .ok parsed ∧
      (⟨rule, .error, []⟩ : ConfiguredRule).listeners = .ok actives ∧
      (((Pass.ofRules [⟨⟨rule, .error, []⟩, actives⟩] true
          ⟨"while (a) \x7b try \x7b\x7d finally \x7b break; \x7d \x7d", parsed⟩).findingsOf 0).map
            fun finding => (finding.diagnostic.messageId, finding.diagnostic.span)).Perm
        (((Place.root parsed.program).descendants.filter fun place => LeavesFinalizer place).map
          fun place => (some "unsafeUsage", place.span)) := by
  have hReads : (parse "while (a) \x7b try \x7b\x7d finally \x7b break; \x7d \x7d" default).isOk =
      true := by
    decide +kernel
  obtain ⟨parsed, hParsed⟩ := exists_eq_ok_of_isOk hReads
  have hOk : (⟨rule, .error, []⟩ : ConfiguredRule).listeners.isOk = true := by decide +kernel
  obtain ⟨actives, hActives⟩ := exists_eq_ok_of_isOk hOk
  exact ⟨parsed, actives, hParsed, hActives, parse_findsUnsafeJumps hParsed hActives rfl true⟩

end EcmaLint.Rules.UnsafeFinally
