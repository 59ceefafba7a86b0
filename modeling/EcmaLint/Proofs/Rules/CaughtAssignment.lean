import EcmaLint.Proofs.Lint.Remembering
import EcmaLint.Proofs.Rules.Bindings
import EcmaLint.Proofs.Rules.ObjectShorthand
import EcmaLint.Proofs.Shape.Inversion
import EcmaLint.Proofs.Shape.Statement
import EcmaLint.Proofs.Tree.Lineage
import EcmaLint.Rules.CaughtAssignment

/-! Assignments to caught errors. The rule searches the body of each catch clause on its own and
takes the names that are bound anew out of the search; together the searches find each identifier
once that is written and whose name is bound nearest by a catch clause around it. -/
namespace EcmaLint

/-- A node writes an identifier: the left side of an assignment or the head of a loop binds it, or
it is the operand of an update. -/
inductive Node.Writes : Node → Node → Prop
  | assignment {node target identifier : Node} (hKind : node.kind = .assignmentExpression)
      (hTarget : node.child? .left = some target) (h : target.Binds identifier) :
      Writes node identifier
  | update {node identifier : Node} (hKind : node.kind = .updateExpression)
      (hOperand : node.child? .argument = some identifier)
      (hIdentifier : identifier.kind = .identifier) : Writes node identifier
  | head {node head identifier : Node}
      (hKind : node.kind = .forInStatement ∨ node.kind = .forOfStatement)
      (hHead : node.child? .left = some head) (hPattern : head.kind ≠ .variableDeclaration)
      (h : head.Binds identifier) : Writes node identifier

namespace Place

/-- A node above a place writes the identifier at the place. -/
def IsWrittenBy (place writer : Place) : Prop :=
  writer ∈ place.ancestors ∧ writer.node.Writes place.node

def IsWritten (place : Place) : Prop := ∃ writer, place.IsWrittenBy writer

/-- The nearest scope around a place that binds a name. -/
def binder? (place : Place) (name : String) : Option Place :=
  place.ancestors.find? fun scope => scope.node.scopeBindings.contains name

/-- A name at a place is that of an error that a clause caught: no scope is nearer that binds the
name, and the place is in the body of the clause. -/
structure CaughtBy (place clause : Place) (name : String) : Prop where
  binder?_eq : place.binder? name = some clause
  kind_eq : clause.kind = .catchClause
  mem_body : ∃ body ∈ clause.childrenIn .body, place ∈ body.descendants

def IsCaught (place : Place) (name : String) : Prop := ∃ clause, place.CaughtBy clause name

end Place

namespace Rules.CaughtAssignment

open Place Progress Listener

theorem mem_written_iff {node identifier : Node} :
    identifier ∈ written node ↔ node.Writes identifier := by
  constructor
  · intro h
    unfold written at h
    split at h
    case h_1 hKind =>
      cases hTarget : node.child? .left with
      | none => simp [hTarget] at h
      | some target =>
          rw [hTarget] at h
          exact .assignment hKind hTarget (Node.mem_patternIdentifiers_iff.mp h)
    case h_2 hKind =>
      obtain ⟨hOperand, hIdentifier⟩ := Option.filter_eq_some_iff.mp (Option.mem_toList.mp h)
      exact .update hKind hOperand (eq_of_beq hIdentifier)
    case h_3 hKind | h_4 hKind =>
      split at h
      case h_1 head hHead =>
        split at h
        case isTrue => cases h
        case isFalse hPattern =>
          exact .head (by simp [hKind]) hHead hPattern (Node.mem_patternIdentifiers_iff.mp h)
      case h_2 => cases h
    case h_5 => cases h
  · intro h
    cases h with
    | assignment hKind hTarget h =>
        simpa [written, hKind, hTarget] using Node.mem_patternIdentifiers_iff.mpr h
    | update hKind hOperand hIdentifier => simp [written, hKind, hOperand, hIdentifier]
    | head hKind hHead hPattern h =>
        rcases hKind with hKind | hKind
        all_goals
          simpa [written, hKind, hHead, hPattern] using Node.mem_patternIdentifiers_iff.mpr h

/-- A node writes through a pattern that it holds, or an identifier. -/
theorem exists_target_of_writes {node identifier : Node} (h : node.Writes identifier) :
    node.kind.isPatternPart = false ∧ ∃ field target, field ≠ .key ∧
      (field, target) ∈ node.namedChildren ∧ target.Binds identifier := by
  cases h with
  | assignment hKind hTarget h =>
      exact ⟨by rw [hKind]; rfl, _, _, by decide, Node.mem_namedChildren_of_child? hTarget, h⟩
  | update hKind hOperand hIdentifier =>
      exact ⟨by rw [hKind]; rfl, _, _, by decide, Node.mem_namedChildren_of_child? hOperand,
        .identifier hIdentifier⟩
  | head hKind hHead _ h =>
      exact ⟨by rcases hKind with hKind | hKind <;> rw [hKind] <;> rfl, _, _, by decide,
        Node.mem_namedChildren_of_child? hHead, h⟩

/-- What a node writes are nodes below it, one behind the other. -/
theorem written_sublist (node : Node) : (written node).Sublist (Node.forest node.children) := by
  have hPattern : ∀ {name target}, node.child? name = some target →
      target.patternIdentifiers.Sublist (Node.forest node.children) := by
    intro name target hTarget
    have hSublist := (Node.child?_sublist_children node name).flatMap Node.subtree
    rw [hTarget, Option.toList_some, List.flatMap_singleton] at hSublist
    exact target.patternIdentifiers_sublist.trans hSublist
  unfold written
  split
  case h_1 =>
    cases hTarget : node.child? .left with
    | none => exact List.nil_sublist _
    | some target => exact hPattern hTarget
  case h_2 =>
    cases hOperand : node.child? .argument with
    | none => exact List.nil_sublist _
    | some operand =>
        rw [Option.filter_some]
        split
        case isTrue hIdentifier =>
          have hSublist := hPattern hOperand
          rwa [Node.patternIdentifiers_eq, if_pos (eq_of_beq hIdentifier)] at hSublist
        case isFalse => exact List.nil_sublist _
  case h_3 | h_4 =>
    split
    case h_1 head hHead =>
      split
      case isTrue => exact List.nil_sublist _
      case isFalse => exact hPattern hHead
    case h_2 => exact List.nil_sublist _
  case h_5 => exact List.nil_sublist _

/-- The names that a node does not bind anew. -/
def unbound (names : List String) (node : Node) : List String :=
  names.filter fun name => !node.scopeBindings.contains name

theorem contains_unbound (names : List String) (node : Node) (name : String) :
    (unbound names node).contains name =
      (names.contains name && !node.scopeBindings.contains name) := by
  rw [Bool.eq_iff_iff]
  simp [unbound]

theorem writes_nil (node : Node) : writes [] node = [] := by
  rw [writes]
  rfl

/-- A search goes on with the names that the node does not bind. -/
theorem writes_eq_append (names : List String) (node : Node) :
    writes names node = (written node).filter (isNamedIn (unbound names node)) ++
      node.children.flatMap (writes (unbound names node)) := by
  rw [writes, ← unbound]
  split
  case isTrue hNone =>
    have hUnnamed : ∀ identifier, isNamedIn [] identifier = false := by
      intro identifier
      cases hName : identifier.name? <;> simp [isNamedIn, hName]
    rw [List.isEmpty_iff.mp hNone]
    simp [hUnnamed, writes_nil]
  case isFalse => rw [List.flatMap_subtype (fun _ _ => rfl), List.unattach_attach]

/-- A search takes what is written with one of its names, if no scope on the way binds the name. -/
theorem writes_eq (names : List String) (start : Place) :
    writes names start.node = start.descendants.flatMap fun writer =>
      (written writer.node).filter fun identifier => identifier.name?.any fun name =>
        names.contains name && (writer :: start.upTo writer).all fun scope =>
          !scope.node.scopeBindings.contains name := by
  induction start using Place.induction generalizing names with
  | step start ih =>
      rw [writes_eq_append, descendants_eq, List.flatMap_cons, upTo_self, ← map_node_children,
        List.flatMap_map, List.flatMap_assoc]
      congr 1
      · refine List.filter_congr fun identifier _ => ?_
        rw [isNamedIn]
        congr 1
        funext name
        rw [contains_unbound, List.all_cons, List.all_nil, Bool.and_true]
      · refine List.flatMap_congr fun child hChild => ?_
        rw [ih child hChild]
        refine List.flatMap_congr fun writer hWriter => List.filter_congr fun identifier _ => ?_
        rw [upTo_of_mem_children hChild hWriter, ← List.cons_append]
        congr 1
        funext name
        simp only [contains_unbound, List.all_append, List.all_cons, List.all_nil, Bool.and_true]
        ac_rfl

theorem mem_writes_iff {names : List String} {start : Place} {identifier : Node} :
    identifier ∈ writes names start.node ↔ ∃ writer ∈ start.descendants,
      writer.node.Writes identifier ∧ ∃ name, identifier.name? = some name ∧ name ∈ names ∧
        ∀ scope ∈ writer :: start.upTo writer, name ∉ scope.node.scopeBindings := by
  simp only [writes_eq, List.mem_flatMap, List.mem_filter, mem_written_iff, Option.any_eq_true,
    Bool.and_eq_true, List.all_eq_true, Bool.not_eq_true', List.contains_eq_mem,
    decide_eq_true_iff, decide_eq_false_iff_not]

variable {program identifier : Node} {place writer target : Place}

/-- What is written stands below the node that writes it, with nothing but parts of patterns in
between. -/
theorem exists_leadsTo_of_writes (h : writer.node.Writes identifier) :
    ∃ target ∈ writer.children, ∃ place, place.node = identifier ∧ target.LeadsTo place ∧
      place.field? ≠ some .key := by
  obtain ⟨-, field, held, hName, hNamed, hBinds⟩ := exists_target_of_writes h
  obtain ⟨target, hTarget, hField, hNode⟩ := exists_of_mem_namedChildren hNamed
  obtain ⟨place, hIdentifier, hLeads⟩ := exists_leadsTo_of_binds hBinds target hNode
  refine ⟨target, hTarget, place, hIdentifier, hLeads, hLeads.field?_ne ?_⟩
  simpa [hField] using hName

theorem kind_of_writes {node : Node} (h : node.Writes identifier) :
    identifier.kind = .identifier := by
  obtain ⟨-, _, _, -, -, hBinds⟩ := exists_target_of_writes h
  exact hBinds.kind_eq

theorem ancestors_of_leadsTo (hTarget : target ∈ writer.children) (h : target.LeadsTo place) :
    place.ancestors = target.upTo place ++ writer :: writer.ancestors := by
  rw [ancestors_eq_upTo_append h.mem_descendants, ancestors_of_mem_children hTarget]

theorem exists_isWrittenBy (hWriter : writer ∈ (root program).descendants)
    (h : writer.node.Writes identifier) : ∃ place ∈ (root program).descendants,
      place.node = identifier ∧ place.IsWrittenBy writer := by
  obtain ⟨target, hTarget, place, rfl, hLeads, -⟩ := exists_leadsTo_of_writes h
  refine ⟨place, ?_, rfl, ?_, h⟩
  · exact mem_descendants_trans (mem_descendants_of_mem_children hWriter hTarget)
      hLeads.mem_descendants
  · rw [ancestors_of_leadsTo hTarget hLeads]
    simp

section

variable (hNodup : program.subtree.Nodup) (hPlace : place ∈ (root program).descendants)
include hNodup hPlace

theorem exists_leadsTo_of_isWrittenBy (h : place.IsWrittenBy writer) :
    ∃ target ∈ writer.children, target.LeadsTo place ∧ place.field? ≠ some .key := by
  obtain ⟨hAbove, hWrites⟩ := h
  have hWriter := ancestors_subset_descendants place hPlace hAbove
  obtain ⟨target, hTarget, found, hNode, hLeads, hField⟩ := exists_leadsTo_of_writes hWrites
  have hFound := mem_descendants_trans (mem_descendants_of_mem_children hWriter hTarget)
    hLeads.mem_descendants
  obtain rfl := eq_of_node_eq hNodup hFound hPlace hNode
  exact ⟨target, hTarget, hLeads, hField⟩

/-- The node that writes an identifier is the nearest one that is no part of a pattern. -/
theorem find?_of_isWrittenBy (h : place.IsWrittenBy writer) :
    place.ancestors.find? (fun above => !above.kind.isPatternPart) = some writer := by
  obtain ⟨target, hTarget, hLeads, -⟩ := exists_leadsTo_of_isWrittenBy hNodup hPlace h
  have hParts : (target.upTo place).find? (fun above => !above.kind.isPatternPart) = none := by
    refine List.find?_eq_none.mpr fun above hAbove => ?_
    simp [hLeads.isPatternPart above hAbove]
  have hWriter : writer.kind.isPatternPart = false := (exists_target_of_writes h.2).1
  rw [ancestors_of_leadsTo hTarget hLeads, List.find?_append, hParts, Option.none_or,
    List.find?_cons_of_pos (by simp [hWriter])]

theorem eq_of_isWrittenBy {first second : Place} (hFirst : place.IsWrittenBy first)
    (hSecond : place.IsWrittenBy second) : first = second :=
  Option.some.inj ((find?_of_isWrittenBy hNodup hPlace hFirst).symm.trans
    (find?_of_isWrittenBy hNodup hPlace hSecond))

end

/-- No identifier is written twice. -/
theorem nodup_flatMap_written (hNodup : program.subtree.Nodup) {writers : List Place}
    (hWriters : writers ⊆ (root program).descendants) (hOnce : writers.Nodup) :
    (writers.flatMap fun writer => written writer.node).Nodup := by
  refine List.nodup_flatMap.mpr ⟨fun writer hWriter => ?_, hOnce.pairwise_of_forall_ne ?_⟩
  · have hBelow := (descendants_sublist writer (hWriters hWriter)).map node
    rw [map_node_descendants, map_node_descendants, root, Node.subtree_eq writer.node] at hBelow
    exact (List.nodup_cons.mp (hBelow.nodup hNodup)).2.sublist (written_sublist writer.node)
  · intro first hFirst second hSecond hNe identifier hWritten hAgain
    obtain ⟨place, hPlace, rfl, hBy⟩ :=
      exists_isWrittenBy (hWriters hFirst) (mem_written_iff.mp hWritten)
    obtain ⟨other, hOther, hNode, hByOther⟩ :=
      exists_isWrittenBy (hWriters hSecond) (mem_written_iff.mp hAgain)
    obtain rfl := eq_of_node_eq hNodup hOther hPlace hNode
    exact hNe (eq_of_isWrittenBy hNodup hPlace hBy hByOther)

/-- What one clause reports on. -/
def caughtWrites (clause : Node) : List Node :=
  match clause.child? .param, clause.child? .body with
  | some param, some body => writes param.patternNames body
  | _, _ => []

theorem reports_eq (clause : Node) :
    reports clause = (caughtWrites clause).map (Report.onNode "unexpected") := by
  unfold reports caughtWrites
  split <;> simp_all

variable {clause body : Place} {name : String}

/-- What is written in a block is written by a node in the block. -/
theorem writer_mem_descendants_iff (hNodup : program.subtree.Nodup)
    (hPlace : place ∈ (root program).descendants) (h : place.IsWrittenBy writer)
    (hBlock : body.kind = .blockStatement) :
    writer ∈ body.descendants ↔ place ∈ body.descendants := by
  constructor
  · intro hWriter
    obtain ⟨target, hTarget, hLeads, -⟩ := exists_leadsTo_of_isWrittenBy hNodup hPlace h
    exact mem_descendants_trans (mem_descendants_of_mem_children hWriter hTarget)
      hLeads.mem_descendants
  · intro hBelow
    have hNe : place ≠ body := by
      rintro rfl
      rw [kind, kind_of_writes h.2] at hBlock
      cases hBlock
    have hMem : body ∈ body.upTo place :=
      (mem_upTo_iff hBelow).mpr ⟨mem_descendants_self body, mem_ancestors_of_ne hBelow hNe⟩
    have hFind := find?_of_isWrittenBy hNodup hPlace h
    rw [ancestors_eq_upTo_append hBelow, List.find?_append] at hFind
    cases hFound : (body.upTo place).find? fun above => !above.kind.isPatternPart with
    | none =>
        have hPart := List.find?_eq_none.mp hFound body hMem
        rw [hBlock] at hPart
        exact absurd rfl hPart
    | some found =>
        rw [hFound, Option.some_or, Option.some.injEq] at hFind
        subst hFind
        exact ((mem_upTo_iff hBelow).mp (List.mem_of_find?_eq_some hFound)).1

/-- Whether a clause caught what is written in its body is decided between the two. -/
theorem caughtBy_iff (hNodup : program.subtree.Nodup)
    (hPlace : place ∈ (root program).descendants) (h : place.IsWrittenBy writer)
    (hKind : clause.kind = .catchClause) (hBody : clause.childrenIn .body = [body])
    (hBlock : body.kind = .blockStatement) :
    place.CaughtBy clause name ↔ writer ∈ body.descendants ∧ name ∈ clause.node.scopeBindings ∧
      ∀ scope ∈ writer :: body.upTo writer, name ∉ scope.node.scopeBindings := by
  have hChild := mem_children_of_childrenIn_eq hBody
  have hWriter := writer_mem_descendants_iff hNodup hPlace h hBlock
  obtain ⟨target, hTarget, hLeads, -⟩ := exists_leadsTo_of_isWrittenBy hNodup hPlace h
  have hParts : ∀ above ∈ target.upTo place, name ∉ above.node.scopeBindings := by
    intro above hAbove
    rw [Node.scopeBindings_of_isPatternPart (hLeads.isPatternPart above hAbove)]
    exact List.not_mem_nil
  have hBinder : writer ∈ body.descendants → (place.binder? name = some clause ↔
      name ∈ clause.node.scopeBindings ∧
        ∀ scope ∈ writer :: body.upTo writer, name ∉ scope.node.scopeBindings) := by
    intro hIn
    have hAncestors : place.ancestors =
        (target.upTo place ++ writer :: body.upTo writer) ++ clause :: clause.ancestors := by
      rw [ancestors_of_leadsTo hTarget hLeads, ancestors_eq_upTo_append hIn,
        ancestors_of_mem_children hChild, List.append_assoc, List.cons_append]
    have hOnce := nodup_ancestors place
    rw [hAncestors] at hOnce
    rw [binder?, hAncestors, find?_eq_some_iff_of_nodup hOnce]
    simp only [List.contains_eq_mem, decide_eq_true_iff, decide_eq_false_iff_not,
      List.forall_mem_append]
    exact and_congr_right fun _ => and_iff_right hParts
  constructor
  · rintro ⟨hFound, -, found, hFoundBody, hBelow⟩
    rw [hBody, List.mem_singleton] at hFoundBody
    subst hFoundBody
    exact ⟨hWriter.mpr hBelow, (hBinder (hWriter.mpr hBelow)).mp hFound⟩
  · rintro ⟨hIn, hBound⟩
    exact ⟨(hBinder hIn).mpr hBound, hKind, body, by simp [hBody], hWriter.mp hIn⟩

/-- A clause reports on what is written with a name that it caught. -/
theorem mem_caughtWrites_iff (hNodup : program.subtree.Nodup) (hShaped : program.Shaped)
    (hPlace : place ∈ (root program).descendants) (hClause : clause ∈ (root program).descendants)
    (hKind : clause.kind = .catchClause) :
    place.node ∈ caughtWrites clause.node ↔ place.IsWritten ∧
      ∃ name, place.node.name? = some name ∧ place.CaughtBy clause name := by
  have hConforms : clause.node.Conforms := hShaped _ (node_mem_subtree hClause)
  obtain ⟨value, hParam, hTakes⟩ :=
    hConforms.exists_field? .param (congrArg NodeKind.forms hKind) rfl
  obtain ⟨param, rfl, -⟩ := Part.takes_optional_iff.mp hTakes
  obtain ⟨value, hBody, hTakes⟩ :=
    hConforms.exists_field? .body (congrArg NodeKind.forms hKind) rfl
  obtain ⟨block, rfl, hBlock⟩ := Part.takes_one_iff.mp hTakes
  obtain ⟨body, hIn, rfl⟩ := exists_childrenIn_eq hConforms hBody
  have hCaught : ∀ {writer}, place.IsWrittenBy writer → ∀ name, place.CaughtBy clause name ↔
      writer ∈ body.descendants ∧ name ∈ clause.node.scopeBindings ∧
        ∀ scope ∈ writer :: body.upTo writer, name ∉ scope.node.scopeBindings :=
    fun h name => caughtBy_iff hNodup hPlace h hKind hIn (eq_of_beq hBlock)
  have hNode : clause.node.child? .body = some body.node := by rw [Node.child?, hBody]; rfl
  have hHeld : clause.node.child? .param = param := by rw [Node.child?, hParam]
  have hBound : clause.node.scopeBindings = (param.map Node.patternNames).getD [] := by
    rw [Node.scopeBindings, show clause.node.kind = .catchClause from hKind, hHeld]
  rw [caughtWrites, hHeld, hNode]
  rw [hBound] at hCaught
  cases param with
  | none =>
      refine ⟨fun h => (List.not_mem_nil h).elim, ?_⟩
      rintro ⟨⟨writer, hBy⟩, name, -, hName⟩
      cases ((hCaught hBy name).mp hName).2.1
  | some param =>
      rw [mem_writes_iff]
      constructor
      · rintro ⟨writer, hWriter, hWrites, name, hName, hScopes⟩
        have hAbove := mem_descendants_trans
          (mem_descendants_of_mem_children hClause (mem_children_of_childrenIn_eq hIn)) hWriter
        obtain ⟨found, hFound, hSame, hBy⟩ := exists_isWrittenBy hAbove hWrites
        obtain rfl := eq_of_node_eq hNodup hFound hPlace hSame
        exact ⟨⟨writer, hBy⟩, name, hName, (hCaught hBy name).mpr ⟨hWriter, hScopes⟩⟩
      · rintro ⟨⟨writer, hBy⟩, name, hName, hClaimed⟩
        obtain ⟨hWriter, hScopes⟩ := (hCaught hBy name).mp hClaimed
        exact ⟨writer, hWriter, hBy.2, name, hName, hScopes⟩

/-- What a clause reports on is written somewhere. -/
theorem exists_of_mem_caughtWrites (hClause : clause ∈ (root program).descendants)
    (h : identifier ∈ caughtWrites clause.node) :
    ∃ place ∈ (root program).descendants, place.node = identifier ∧ place.IsWritten := by
  unfold caughtWrites at h
  split at h
  case h_2 => cases h
  case h_1 param block _ hBlock =>
    obtain ⟨body, hBody, -, rfl⟩ :=
      exists_of_mem_namedChildren (Node.mem_namedChildren_of_child? hBlock)
    obtain ⟨writer, hWriter, hWrites, -⟩ := mem_writes_iff.mp h
    have hAbove :=
      mem_descendants_trans (mem_descendants_of_mem_children hClause hBody) hWriter
    obtain ⟨place, hPlace, hNode, hBy⟩ := exists_isWrittenBy hAbove hWrites
    exact ⟨place, hPlace, hNode, writer, hBy⟩

theorem nodup_caughtWrites (hNodup : program.subtree.Nodup)
    (hClause : clause ∈ (root program).descendants) : (caughtWrites clause.node).Nodup := by
  unfold caughtWrites
  split
  case h_2 => exact List.nodup_nil
  case h_1 param block _ hBlock =>
    obtain ⟨body, hBody, -, rfl⟩ :=
      exists_of_mem_namedChildren (Node.mem_namedChildren_of_child? hBlock)
    have hBelow := descendants_sublist body (mem_descendants_of_mem_children hClause hBody)
    have hOnce : (root program).descendants.Nodup := by
      refine List.Nodup.of_map node ?_
      rwa [map_node_descendants]
    rw [writes_eq]
    refine (nodup_flatMap_written hNodup hBelow.subset (hOnce.sublist hBelow)).sublist ?_
    exact List.Sublist.flatMap_right _ fun writer _ => List.filter_sublist

/-- What all clauses of a program report on. -/
def allCaughtWrites (program : Node) : List Node :=
  (root program).descendants.flatMap fun clause =>
    if clause.kind = .catchClause then caughtWrites clause.node else []

theorem mem_allCaughtWrites_iff (hNodup : program.subtree.Nodup) (hShaped : program.Shaped)
    (hPlace : place ∈ (root program).descendants) :
    place.node ∈ allCaughtWrites program ↔ place.IsWritten ∧
      ∃ name, place.node.name? = some name ∧ place.IsCaught name := by
  rw [allCaughtWrites, List.mem_flatMap]
  constructor
  · rintro ⟨clause, hClause, h⟩
    split at h
    case isTrue hKind =>
      obtain ⟨hWritten, name, hName, hCaught⟩ :=
        (mem_caughtWrites_iff hNodup hShaped hPlace hClause hKind).mp h
      exact ⟨hWritten, name, hName, clause, hCaught⟩
    case isFalse => cases h
  · rintro ⟨hWritten, name, hName, clause, hCaught⟩
    have hClause : clause ∈ (root program).descendants :=
      ancestors_subset_descendants place hPlace (List.mem_of_find?_eq_some hCaught.binder?_eq)
    refine ⟨clause, hClause, ?_⟩
    rw [if_pos hCaught.kind_eq, mem_caughtWrites_iff hNodup hShaped hPlace hClause hCaught.kind_eq]
    exact ⟨hWritten, name, hName, hCaught⟩

theorem exists_of_mem_allCaughtWrites (h : identifier ∈ allCaughtWrites program) :
    ∃ place ∈ (root program).descendants, place.node = identifier ∧ place.IsWritten := by
  obtain ⟨clause, hClause, h⟩ := List.mem_flatMap.mp h
  split at h
  case isTrue => exact exists_of_mem_caughtWrites hClause h
  case isFalse => cases h

/-- No two searches take the same identifier, since it has one nearest binder. -/
theorem nodup_allCaughtWrites (hNodup : program.subtree.Nodup) (hShaped : program.Shaped) :
    (allCaughtWrites program).Nodup := by
  have hOnce : (root program).descendants.Nodup := by
    refine List.Nodup.of_map node ?_
    rwa [map_node_descendants]
  refine List.nodup_flatMap.mpr ⟨fun clause hClause => ?_, hOnce.pairwise_of_forall_ne ?_⟩
  · split
    case isTrue => exact nodup_caughtWrites hNodup hClause
    case isFalse => exact List.nodup_nil
  · intro first hFirst second hSecond hNe identifier hHere hThere
    obtain ⟨hFirstKind, hHere⟩ : first.kind = .catchClause ∧
        identifier ∈ caughtWrites first.node := by simpa using hHere
    obtain ⟨hSecondKind, hThere⟩ : second.kind = .catchClause ∧
        identifier ∈ caughtWrites second.node := by simpa using hThere
    obtain ⟨place, hPlace, rfl, -⟩ := exists_of_mem_caughtWrites hFirst hHere
    obtain ⟨-, name, hName, hCaught⟩ :=
      (mem_caughtWrites_iff hNodup hShaped hPlace hFirst hFirstKind).mp hHere
    obtain ⟨-, other, hOther, hCaughtToo⟩ :=
      (mem_caughtWrites_iff hNodup hShaped hPlace hSecond hSecondKind).mp hThere
    obtain rfl := Option.some.inj (hName.symm.trans hOther)
    exact hNe (Option.some.inj (hCaught.binder?_eq.symm.trans hCaughtToo.binder?_eq))

/-- No two written identifiers lie over the same stretch of a program. -/
theorem eq_of_span_eq_of_isWritten {tokens : List Token} (hLies : program.LiesOver tokens)
    (hShaped : program.Shaped) (hNodup : program.subtree.Nodup) {first second : Place}
    (hFirst : first ∈ (root program).descendants) (hSecond : second ∈ (root program).descendants)
    (hFirstWritten : first.IsWritten) (hSecondWritten : second.IsWritten)
    (hSpan : first.span = second.span) : first = second := by
  obtain ⟨_, hFirstBy⟩ := hFirstWritten
  obtain ⟨_, hSecondBy⟩ := hSecondWritten
  obtain ⟨_, -, -, hFirstField⟩ := exists_leadsTo_of_isWrittenBy hNodup hFirst hFirstBy
  obtain ⟨_, -, -, hSecondField⟩ := exists_leadsTo_of_isWrittenBy hNodup hSecond hSecondBy
  have hFirstKind := kind_of_writes hFirstBy.2
  have hNotProgram : first.kind ≠ .program := fun hKind => by cases hFirstKind.symm.trans hKind
  exact eq_of_span_eq hShaped (nests_of_liesOver hLies) hFirst hSecond hFirstKind
    (kind_of_writes hSecondBy.2) hFirstField hSecondField
    (aligned_of_liesOver hLies hFirst hNotProgram).start_lt_stop hSpan

/-- What is reported at a visit, if the listeners are set up. -/
theorem toldAt_eq [RegexEngine] {actives : List (ActiveListener Unit)}
    (h : listeners.mapM activate = .ok actives)
    (source : SourceCode) (visit : Visit) : (toldAt source actives visit ()).1 =
      if visit.phase = .enter ∧ visit.place.kind = .catchClause then reports visit.place.node
      else [] := by
  have hKey : Names "CatchClause[param]" .enter .catchClause [⟨["param"], .isPresent⟩] := by
    refine ⟨by decide +kernel, by decide +kernel, ?_⟩
    simp only [Selector.IsWritableCompound, List.mem_singleton, forall_eq]
    exact ⟨by decide +kernel, trivial⟩
  have hName : ∀ other : FieldName, other.text = "param" ↔ other = .param := by
    intro other
    cases other <;> decide
  rw [toldAt, reactions_filter h, listeners, List.filter_cons, reporting]
  split
  case isTrue hHeard =>
    obtain ⟨hPhase, hKind, -⟩ := (hKey.hears_iff _ visit).mp hHeard
    rw [if_pos ⟨hPhase, hKind⟩]
    simp [told]
  case isFalse hUnheard =>
    split
    case isFalse => rfl
    case isTrue hClause =>
      -- a clause that is not heard of has no parameter
      suffices hParam : visit.place.node.child? .param = none by simp [reports, hParam, told]
      simp only [hKey.hears_iff, List.mem_singleton, forall_eq, Selector.holds_isPresent_iff] at hUnheard
      rw [AttributeValue.follow?,
        AttributeValue.step?_node (by decide) hName] at hUnheard
      by_contra hSome
      obtain ⟨param, hParam⟩ := Option.ne_none_iff_exists'.mp hSome
      refine hUnheard ⟨hClause.1, hClause.2, .node param, ?_, by simp⟩
      rw [Node.field?_of_child? hParam]
      rfl

theorem isAccepted_of_activate [RegexEngine] {actives : List (ActiveListener Unit)}
    (h : listeners.mapM activate = .ok actives) {desk : Desk} (hInfo : desk.info = info) :
    ∀ active ∈ actives, IsAccepted desk active := by
  intro active hActive place memory
  obtain ⟨listener, hListener, hActivate⟩ := exists_of_mem_mapM h hActive
  obtain rfl := List.mem_singleton.mp hListener
  rw [react_of_activate hActivate]
  refine ⟨memory, reports place.node, rfl, fun report hReport => ?_⟩
  rw [reports_eq] at hReport
  obtain ⟨node, -, rfl⟩ := List.mem_map.mp hReport
  exact ObjectShorthand.accepts_onNode (by rw [hInfo]; decide) node

/-- Over all visits of a program the rule reports on what its clauses report on. -/
theorem reportsOver_eq [RegexEngine] {actives : List (ActiveListener Unit)}
    (h : listeners.mapM activate = .ok actives) (source : SourceCode) :
    reportsOver source actives source.root.visits () =
      (allCaughtWrites source.parsed.program).map (Report.onNode "unexpected") := by
  have hExit : ∀ place, (toldAt source actives ⟨.exit, place⟩ ()).1 = [] := by
    intro place
    rw [toldAt_eq h, if_neg (by simp)]
  rw [reportsOver_unit, visits_eq_events, flatMap_events hExit, allCaughtWrites, List.map_flatMap]
  refine List.flatMap_congr fun clause _ => ?_
  rw [toldAt_eq h]
  by_cases hKind : clause.kind = .catchClause
  · rw [if_pos ⟨rfl, hKind⟩, if_pos hKind, reports_eq]
  · rw [if_neg fun hBoth => hKind hBoth.2, if_neg hKind, List.map_nil]

/-- What the rule finds in a pass are the identifiers that its clauses report on. -/
theorem perm_findingsOf [RegexEngine] {severity : Severity} {options : List Json}
    {actives : List (ActiveListener Unit)} (h : listeners.mapM activate = .ok actives)
    {rules : List ActiveRule} {rank : Nat}
    (hRule : rules[rank]? = some ⟨⟨rule, severity, options⟩, actives⟩) (computeFixes : Bool)
    (source : SourceCode) :
    (((Pass.ofRules rules computeFixes source).findingsOf rank).map fun finding =>
        (finding.diagnostic.messageId, finding.diagnostic.span)).Perm
      ((allCaughtWrites source.parsed.program).map fun identifier =>
        (some "unexpected", identifier.span)) := by
  have hAccepted : ∀ listener ∈ actives, IsAccepted
      (ActiveRule.desk ⟨⟨rule, severity, options⟩, actives⟩ source computeFixes) listener :=
    isAccepted_of_activate h rfl
  refine (Pass.perm_findingsOf_reportsOver hRule hAccepted).trans (.of_eq ?_)
  exact (congrArg (List.map _) (reportsOver_eq h source)).trans List.map_map

/-- What a rule of a pass finds on assignments to caught errors. -/
structure FindsCaughtWrites (program : Node) (pass : Pass) (rank : Nat) : Prop where
  /-- If the nearest scope that binds the name of a written identifier is a catch clause and the
  identifier is in its body, there is one finding on the identifier. -/
  once : ∀ place ∈ (root program).descendants, place.IsWritten →
    ∀ name, place.node.name? = some name → place.IsCaught name →
      ((pass.findingsOf rank).map fun finding => finding.diagnostic.span).count place.span = 1
  /-- Otherwise there is none. -/
  never : ∀ place ∈ (root program).descendants, place.IsWritten →
    ∀ name, place.node.name? = some name → ¬place.IsCaught name →
      ((pass.findingsOf rank).map fun finding => finding.diagnostic.span).count place.span = 0
  /-- Nothing else is found. -/
  only : ∀ finding ∈ pass.findingsOf rank, finding.diagnostic.messageId = some "unexpected" ∧
    ∃ place ∈ (root program).descendants, place.IsWritten ∧
      (∃ name, place.node.name? = some name ∧ place.IsCaught name) ∧
        finding.diagnostic.span = place.span

/-- In every program each write to a caught error is found once, whatever other rules there are. -/
theorem parse_findsCaughtWrites [RegexEngine] {text : String} {parseOptions : ParseOptions}
    {parsed : Parsed}
    (hParse : parse text parseOptions = .ok parsed) {severity : Severity} {options : List Json}
    {actives : List (ActiveListener Unit)}
    (hListeners : (⟨rule, severity, options⟩ : ConfiguredRule).listeners = .ok actives)
    {rules : List ActiveRule} {rank : Nat}
    (hRule : rules[rank]? = some ⟨⟨rule, severity, options⟩, actives⟩) (computeFixes : Bool) :
    FindsCaughtWrites parsed.program (Pass.ofRules rules computeFixes { text, parsed }) rank := by
  have hActivate : listeners.mapM activate = .ok actives := by
    obtain ⟨created, hCreated, hActivate⟩ := exists_of_bind_eq_ok hListeners
    exact Except.ok.inj hCreated ▸ hActivate
  obtain ⟨hLies, arena, hStores, hAst⟩ := lies_of_parse hParse
  have hTree : parsed.ast.IsTree := hAst ▸ hStores.isTree
  have hHolds : parsed.ast.Holds parsed.program := hAst ▸ hStores.holds
  have hNodup : parsed.program.subtree.Nodup := List.Nodup.of_map _ (hHolds.nodup hTree)
  have hShaped : parsed.program.Shaped := (shaped_of_parse hParse).shaped
  have hFound := perm_findingsOf hActivate hRule computeFixes { text, parsed }
  have hSpans : (((Pass.ofRules rules computeFixes { text, parsed }).findingsOf rank).map
      fun finding => finding.diagnostic.span).Perm
        ((allCaughtWrites parsed.program).map Node.span) := by
    simpa [Function.comp_def] using hFound.map Prod.snd
  have hSame : ∀ place ∈ (root parsed.program).descendants, place.IsWritten →
      ∀ identifier ∈ allCaughtWrites parsed.program, identifier.span = place.span →
        identifier = place.node := by
    intro place hPlace hWritten identifier hCaught hSpan
    obtain ⟨found, hIn, rfl, hFoundWritten⟩ := exists_of_mem_allCaughtWrites hCaught
    exact congrArg Place.node
      (eq_of_span_eq_of_isWritten hLies hShaped hNodup hIn hPlace hFoundWritten hWritten hSpan)
  have hOnce : ((allCaughtWrites parsed.program).map Node.span).Nodup := by
    refine List.Nodup.map_on ?_ (nodup_allCaughtWrites hNodup hShaped)
    intro first hFirst second hSecond hSpan
    obtain ⟨place, hPlace, rfl, hWritten⟩ := exists_of_mem_allCaughtWrites hSecond
    exact hSame place hPlace hWritten first hFirst hSpan
  refine ⟨fun place hPlace hWritten name hName hCaught => ?_,
    fun place hPlace hWritten name hName hUncaught => ?_, fun finding hFinding => ?_⟩
  · rw [hSpans.count_eq]
    refine List.count_eq_one_of_mem hOnce (List.mem_map_of_mem ?_)
    exact (mem_allCaughtWrites_iff hNodup hShaped hPlace).mpr ⟨hWritten, name, hName, hCaught⟩
  · rw [hSpans.count_eq, List.count_eq_zero]
    intro hMem
    obtain ⟨identifier, hIdentifier, hSpan⟩ := List.mem_map.mp hMem
    obtain rfl := hSame place hPlace hWritten identifier hIdentifier hSpan
    obtain ⟨-, other, hOther, hCaught⟩ :=
      (mem_allCaughtWrites_iff hNodup hShaped hPlace).mp hIdentifier
    obtain rfl := Option.some.inj (hName.symm.trans hOther)
    exact hUncaught hCaught
  · have hMem := hFound.subset (List.mem_map_of_mem hFinding)
    obtain ⟨identifier, hIdentifier, hEq⟩ := List.mem_map.mp hMem
    obtain ⟨hId, hSpan⟩ := Prod.mk.inj hEq
    obtain ⟨place, hPlace, rfl, -⟩ := exists_of_mem_allCaughtWrites hIdentifier
    obtain ⟨hWritten, hCaught⟩ := (mem_allCaughtWrites_iff hNodup hShaped hPlace).mp hIdentifier
    exact ⟨hId.symm, place, hPlace, hWritten, hCaught, hSpan.symm⟩

/-- A clause within a clause for the same name, and writes through a pattern with a default. -/
def nestedClauses : String :=
  "try \x7b\x7d catch (e) \x7b try \x7b\x7d catch (e) \x7b [e = e++] = a \x7d e = a \x7d"

theorem parse_findsCaughtWrites_nestedClauses :
    ∃ parsed actives, parse nestedClauses default = .ok parsed ∧
      (⟨rule, .error, []⟩ : ConfiguredRule).listeners = .ok actives ∧
      FindsCaughtWrites parsed.program
        (Pass.ofRules [⟨⟨rule, .error, []⟩, actives⟩] true ⟨nestedClauses, parsed⟩) 0 := by
  have hReads : (parse nestedClauses default).isOk = true := by decide +kernel
  obtain ⟨parsed, hParsed⟩ := exists_eq_ok_of_isOk hReads
  have hOk : (⟨rule, .error, []⟩ : ConfiguredRule).listeners.isOk = true := by decide +kernel
  obtain ⟨actives, hActives⟩ := exists_eq_ok_of_isOk hOk
  exact ⟨parsed, actives, hParsed, hActives, parse_findsCaughtWrites hParsed hActives rfl true⟩

end Rules.CaughtAssignment

end EcmaLint
