import EcmaLint.Proofs.Shape.Inversion
import EcmaLint.Proofs.Tree.Lineage
import EcmaLint.Proofs.Tree.Traversal
import EcmaLint.Rules.Bindings

/-! What patterns bind, as a relation, and where the identifiers stand that a pattern binds: between
the pattern and the identifier there are only parts of patterns, which open no scope.

Where statements stand. Between a statement and the function or program that it is part of there
are only statements, cases and catch clauses, and what is part of a function is in its body. -/
namespace EcmaLint

/-- The nodes that patterns are put together from. -/
def NodeKind.isPatternPart : NodeKind → Bool
  | .objectPattern | .property | .arrayPattern | .assignmentPattern | .restElement => true
  | _ => false

namespace Node

/-- A pattern binds an identifier: it is the identifier, or some part of it binds the identifier.
The parts of an object pattern are the values of its properties and its rest element, those of an
array pattern its elements; of a pattern with a default it is what stands before the default. -/
inductive Binds : Node → Node → Prop
  | identifier {node : Node} (hKind : node.kind = .identifier) : Binds node node
  | property {pattern property value identifier : Node} (hKind : pattern.kind = .objectPattern)
      (hMember : property ∈ pattern.list .properties) (hProperty : property.kind = .property)
      (hValue : property.child? .value = some value) (h : Binds value identifier) :
      Binds pattern identifier
  | member {pattern member identifier : Node} (hKind : pattern.kind = .objectPattern)
      (hMember : member ∈ pattern.list .properties) (hOther : member.kind ≠ .property)
      (h : Binds member identifier) : Binds pattern identifier
  | element {pattern element identifier : Node} (hKind : pattern.kind = .arrayPattern)
      (hElement : element ∈ pattern.list .elements) (h : Binds element identifier) :
      Binds pattern identifier
  | default {pattern target identifier : Node} (hKind : pattern.kind = .assignmentPattern)
      (hTarget : pattern.child? .left = some target) (h : Binds target identifier) :
      Binds pattern identifier
  | rest {pattern target identifier : Node} (hKind : pattern.kind = .restElement)
      (hTarget : pattern.child? .argument = some target) (h : Binds target identifier) :
      Binds pattern identifier

variable {pattern identifier : Node}

theorem Binds.kind_eq (h : pattern.Binds identifier) : identifier.kind = .identifier := by
  induction h with
  | identifier hKind => exact hKind
  | _ => assumption

/-- A pattern that is no identifier binds what its parts bind. -/
theorem binds_iff_of_ne (hKind : pattern.kind ≠ .identifier) :
    pattern.Binds identifier ↔ ∃ part ∈ pattern.patternParts, part.Binds identifier := by
  constructor
  · intro h
    cases h with
    | identifier hIdentifier => exact absurd hIdentifier hKind
    | @property _ property value _ hPattern hMember hProperty hValue h =>
        refine ⟨value, ?_, h⟩
        simp only [patternParts, hPattern]
        exact List.mem_flatMap.mpr ⟨property, hMember, by simp [hProperty, hValue]⟩
    | @member _ member _ hPattern hMember hOther h =>
        refine ⟨member, ?_, h⟩
        simp only [patternParts, hPattern]
        exact List.mem_flatMap.mpr ⟨member, hMember, by simp [hOther]⟩
    | element hPattern hElement h => exact ⟨_, by simpa only [patternParts, hPattern], h⟩
    | default hPattern hTarget h => exact ⟨_, by simp [patternParts, hPattern, hTarget], h⟩
    | rest hPattern hTarget h => exact ⟨_, by simp [patternParts, hPattern, hTarget], h⟩
  · rintro ⟨part, hPart, h⟩
    unfold patternParts at hPart
    split at hPart
    case h_1 hPattern =>
      obtain ⟨member, hMember, hPart⟩ := List.mem_flatMap.mp hPart
      split at hPart
      case isTrue hProperty =>
        exact .property hPattern hMember hProperty (Option.mem_toList.mp hPart) h
      case isFalse hOther =>
        obtain rfl := List.mem_singleton.mp hPart
        exact .member hPattern hMember hOther h
    case h_2 hPattern => exact .element hPattern hPart h
    case h_3 hPattern => exact .default hPattern (Option.mem_toList.mp hPart) h
    case h_4 hPattern => exact .rest hPattern (Option.mem_toList.mp hPart) h
    case h_5 => cases hPart

theorem patternIdentifiers_eq (pattern : Node) : pattern.patternIdentifiers =
    if pattern.kind = .identifier then [pattern]
    else pattern.patternParts.flatMap patternIdentifiers := by
  rw [patternIdentifiers, List.flatMap_subtype (fun _ _ => rfl), List.unattach_attach]

theorem mem_patternIdentifiers_iff :
    identifier ∈ pattern.patternIdentifiers ↔ pattern.Binds identifier := by
  induction pattern using patternIdentifiers.induct with
  | case1 pattern hKind =>
      rw [patternIdentifiers_eq, if_pos hKind, List.mem_singleton]
      constructor
      · rintro rfl
        exact .identifier hKind
      · intro h
        cases h <;> simp_all
  | case2 pattern hKind ih =>
      rw [patternIdentifiers_eq, if_neg hKind, List.mem_flatMap, binds_iff_of_ne hKind]
      exact exists_congr fun part => and_congr_right fun hPart => ih part hPart

/-- The names that a pattern binds are those of the identifiers that it binds. -/
theorem mem_patternNames_iff {name : String} : name ∈ pattern.patternNames ↔
    ∃ identifier, pattern.Binds identifier ∧ identifier.name? = some name := by
  simp only [patternNames, List.mem_filterMap, mem_patternIdentifiers_iff]

/-- What stands in a field stands among the children. -/
theorem filled_sublist_children {node : Node} {name : FieldName} {value : FieldValue}
    (h : node.field? name = some value) : value.filled.Sublist node.children := by
  obtain ⟨front, back, hFields, -⟩ := List.lookup_eq_some_iff.mp h
  rw [children_eq_filledIn, hFields, Field.filledIn, List.flatMap_append, List.flatMap_cons]
  exact (List.sublist_append_left _ _).trans (List.sublist_append_right _ _)

theorem child?_sublist_children (node : Node) (name : FieldName) :
    (node.child? name).toList.Sublist node.children := by
  unfold child?
  split
  case h_1 child hField => simpa using filled_sublist_children hField
  case h_2 => exact List.nil_sublist _

theorem list_sublist_children (node : Node) (name : FieldName) :
    (node.list name).Sublist node.children := by
  unfold list elements
  split
  case h_1 children hField => simpa using filled_sublist_children hField
  case h_2 => exact List.nil_sublist _

/-- The parts of a pattern are parts of its tree that are apart from each other. -/
theorem forest_patternParts_sublist (pattern : Node) :
    (forest pattern.patternParts).Sublist (forest pattern.children) := by
  have hChild : ∀ name, (forest (pattern.child? name).toList).Sublist (forest pattern.children) :=
    fun name => (child?_sublist_children pattern name).flatMap subtree
  unfold patternParts
  split
  case h_1 =>
    refine List.Sublist.trans ?_ ((list_sublist_children pattern .properties).flatMap subtree)
    rw [forest, List.flatMap_assoc]
    refine List.Sublist.flatMap_right _ fun member _ => ?_
    split
    · rw [subtree_eq member]
      exact ((child?_sublist_children member .value).flatMap subtree).cons _
    · rw [List.flatMap_singleton]
  case h_2 => exact (list_sublist_children pattern .elements).flatMap subtree
  case h_3 | h_4 => exact hChild _
  case h_5 => exact List.nil_sublist _

/-- The identifiers that a pattern binds are nodes of its tree, one behind the other. -/
theorem patternIdentifiers_sublist (pattern : Node) :
    pattern.patternIdentifiers.Sublist pattern.subtree := by
  induction pattern using patternIdentifiers.induct with
  | case1 pattern hKind =>
      rw [patternIdentifiers_eq, if_pos hKind, List.singleton_sublist]
      exact mem_subtree_self pattern
  | case2 pattern hKind ih =>
      rw [patternIdentifiers_eq, if_neg hKind, subtree_eq]
      refine List.Sublist.cons _ (List.Sublist.trans ?_ (forest_patternParts_sublist pattern))
      exact List.Sublist.flatMap_right _ ih

variable {node child : Node} {name : FieldName}

theorem mem_namedChildren_of_mem_filled {value : FieldValue} (h : node.field? name = some value)
    (hChild : child ∈ value.filled) : (name, child) ∈ node.namedChildren := by
  obtain ⟨front, back, hFields, -⟩ := List.lookup_eq_some_iff.mp h
  rw [namedChildren_eq_namedIn, Field.namedIn, List.mem_flatMap]
  exact ⟨(name, value), hFields ▸ by simp, List.mem_map_of_mem hChild⟩

theorem mem_namedChildren_of_child? (h : node.child? name = some child) :
    (name, child) ∈ node.namedChildren :=
  mem_namedChildren_of_mem_filled (field?_of_child? h) (by simp)

theorem mem_namedChildren_of_mem_list (h : child ∈ node.list name) :
    (name, child) ∈ node.namedChildren := by
  unfold list elements at h
  split at h
  case h_1 children hField => exact mem_namedChildren_of_mem_filled hField h
  case h_2 => cases h

/-- Parts of patterns open no scope. -/
theorem scopeBindings_of_isPatternPart (h : node.kind.isPatternPart = true) :
    node.scopeBindings = [] := by
  unfold scopeBindings
  split <;> simp_all [NodeKind.isPatternPart]

end Node

namespace Place

variable {place child below : Place}

/-- Between a place and a place below it there are only parts of patterns, the upper place
included, and the way down leads through no name of a property. -/
structure LeadsTo (place below : Place) : Prop where
  mem_descendants : below ∈ place.descendants
  isPatternPart : ∀ above ∈ place.upTo below, above.kind.isPatternPart = true
  field?_ne : place.field? ≠ some .key → below.field? ≠ some .key

theorem LeadsTo.self (place : Place) : place.LeadsTo place :=
  ⟨mem_descendants_self place, by simp [upTo_self], id⟩

theorem LeadsTo.of_mem_children (h : child.LeadsTo below) (hChild : child ∈ place.children)
    (hField : child.field? ≠ some .key) (hKind : place.kind.isPatternPart = true) :
    place.LeadsTo below := by
  refine ⟨mem_descendants_iff.mpr (.inr ⟨child, hChild, h.mem_descendants⟩), ?_,
    fun _ => h.field?_ne hField⟩
  rw [upTo_of_mem_children hChild h.mem_descendants]
  exact List.forall_mem_append.mpr ⟨h.isPatternPart, by simpa using hKind⟩

/-- What a child of a pattern leads to, the pattern leads to. -/
theorem exists_leadsTo_of_child {part identifier : Node} {name : FieldName}
    (hPart : (name, part) ∈ place.node.namedChildren) (hName : name ≠ .key)
    (hKind : place.node.kind.isPatternPart = true)
    (h : ∀ child : Place, child.node = part →
      ∃ below, below.node = identifier ∧ child.LeadsTo below) :
    ∃ below, below.node = identifier ∧ place.LeadsTo below := by
  obtain ⟨child, hChild, hField, hNode⟩ := exists_of_mem_namedChildren hPart
  obtain ⟨below, hIdentifier, hLeads⟩ := h child hNode
  exact ⟨below, hIdentifier, hLeads.of_mem_children hChild (by simpa [hField] using hName) hKind⟩

/-- An identifier that a pattern binds stands below the pattern. -/
theorem exists_leadsTo_of_binds {pattern identifier : Node} (h : pattern.Binds identifier)
    (place : Place) (hPattern : place.node = pattern) :
    ∃ below, below.node = identifier ∧ place.LeadsTo below := by
  induction h generalizing place with
  | identifier hKind => exact ⟨place, hPattern, .self place⟩
  | property hKind hMember hProperty hValue _ ih =>
      subst hPattern
      refine exists_leadsTo_of_child (Node.mem_namedChildren_of_mem_list hMember) (by decide)
        (by rw [hKind]; rfl) ?_
      rintro member rfl
      exact exists_leadsTo_of_child (Node.mem_namedChildren_of_child? hValue) (by decide)
        (by rw [hProperty]; rfl) ih
  | member hKind hMember hOther _ ih =>
      subst hPattern
      exact exists_leadsTo_of_child (Node.mem_namedChildren_of_mem_list hMember) (by decide)
        (by rw [hKind]; rfl) ih
  | element hKind hElement _ ih =>
      subst hPattern
      exact exists_leadsTo_of_child (Node.mem_namedChildren_of_mem_list hElement) (by decide)
        (by rw [hKind]; rfl) ih
  | default hKind hTarget _ ih | rest hKind hTarget _ ih =>
      subst hPattern
      exact exists_leadsTo_of_child (Node.mem_namedChildren_of_child? hTarget) (by decide)
        (by rw [hKind]; rfl) ih

end Place

namespace NodeKind

/-- Statements, and the parts of statements that hold statements. -/
def isFlow (kind : NodeKind) : Bool :=
  kind.isStatement || kind == .switchCase || kind == .catchClause

/-- What statements are part of. -/
def isHome (kind : NodeKind) : Bool := kind == .program || kind.isFunction

variable {kind child : NodeKind}

/-- Statements are accepted only where statements are expected. -/
theorem not_accepted_of_isFlow (h : child.isFlow = true) :
    child.isExpression = false ∧ child.isBinding = false ∧ child.isTarget = false ∧
      child.isReference = false ∧ child ≠ .identifier ∧ child ≠ .restElement ∧
      child ≠ .spreadElement ∧ child ≠ .property ∧ child ≠ .classBody ∧
      child ≠ .variableDeclarator ∧ child ≠ .methodDefinition ∧ child ≠ .functionExpression ∧
      child ≠ .templateElement ∧ child ≠ .templateLiteral := by
  cases child <;> simp_all [isFlow, isStatement, isExpression, isBinding, isTarget, isReference]

/-- What accepts a statement in a form is the body of a home, or the form is one of a statement. -/
theorem home_or_flow_of_accepts (hFlow : child.isFlow = true) :
    ∀ form ∈ kind.forms, ∀ field ∈ form, field.2.accepts child = true →
      (kind.isHome = true ∧ field.1 = .body) ∨
        (kind.isFlow = true ∧ kind.isHome = false ∧ kind.isClass = false) := by
  obtain ⟨hExpression, hBinding, hTarget, hReference, hIdentifier, hRest, hSpread, hProperty,
    hClassBody, hDeclarator, hMethod, hFunction, hPiece, hTemplate⟩ := not_accepted_of_isFlow hFlow
  cases kind
  all_goals
    simp only [forms, functionForm, classForm, List.forall_mem_cons, List.not_mem_nil,
      false_imp_iff, implies_true, and_true]
  all_goals
    simp [Part.accepts, isHome, isFlow, isStatement, isFunction, isClass, isElement, isArgument,
      isMember, isPatternMember, *]

end NodeKind

namespace Place

variable {program : Node} {place child : Place}

/-- The function or program that a place is part of. -/
def home? (place : Place) : Option Place := place.ancestors.find? fun above => above.kind.isHome

theorem home_or_flow_of_mem_children (h : place.node.Conforms) (hChild : child ∈ place.children)
    (hFlow : child.kind.isFlow = true) :
    (place.kind.isHome = true ∧ child.field? = some .body) ∨
      (place.kind.isFlow = true ∧ place.kind.isHome = false ∧ place.kind.isClass = false) := by
  obtain ⟨name, hField, hNamed⟩ := exists_field?_of_mem_children hChild
  obtain ⟨form, hForm, -, part, hPart, hAccepts⟩ := h.exists_part hNamed
  rw [hField, Option.some_inj]
  exact NodeKind.home_or_flow_of_accepts hFlow form hForm (name, part) hPart hAccepts

/-- The home of a child of something else is the home of that. -/
theorem home?_of_mem_children (hChild : child ∈ place.children) :
    child.home? = if place.kind.isHome = true then some place else place.home? := by
  rw [home?, ancestors_of_mem_children hChild, List.find?_cons]
  split <;> simp_all [home?]

/-- A place is part of a home that it is below, if no other home is between. -/
theorem home?_eq_some_iff (hPlace : place ∈ (root program).descendants) {home : Place}
    (hHome : home.kind.isHome = true) (hNe : place ≠ home) : place.home? = some home ↔
      place ∈ home.descendants ∧
        ∀ above ∈ home.upTo place, above = home ∨ above.kind.isHome = false := by
  have hFirst : place ∈ home.descendants → (place.home? = some home ↔
      ∀ above ∈ home.upTo place, above = home ∨ above.kind.isHome = false) := by
    intro hBelow
    obtain ⟨front, hUpTo⟩ := exists_upTo_eq_concat hBelow hNe
    have hAncestors : place.ancestors = front ++ home :: home.ancestors := by
      rw [ancestors_eq_upTo_append hBelow, hUpTo, List.append_assoc, List.singleton_append]
    have hOnce := nodup_ancestors place
    rw [hAncestors] at hOnce
    have hNotMem : ∀ above ∈ front, above ≠ home := by
      rintro above hAbove rfl
      exact (List.nodup_append.mp hOnce).2.2 above hAbove above List.mem_cons_self rfl
    rw [home?, hAncestors, find?_eq_some_iff_of_nodup hOnce, hUpTo, and_iff_right hHome,
      List.forall_mem_append, List.forall_mem_singleton, and_iff_left (.inl rfl)]
    exact forall₂_congr fun above hAbove => by simp [hNotMem above hAbove]
  constructor
  · intro h
    have hBelow := mem_descendants_of_mem_ancestors place hPlace (List.mem_of_find?_eq_some h)
    exact ⟨hBelow, (hFirst hBelow).mp h⟩
  · rintro ⟨hBelow, h⟩
    exact (hFirst hBelow).mpr h

variable (hShaped : program.Shaped)
include hShaped

/-- No class stands between a statement and its home. -/
theorem forall_not_isClass : ∀ place ∈ (root program).descendants, place.kind.isFlow = true →
    ∀ above ∈ place.ancestors.takeWhile (fun above => !above.kind.isHome),
      above.kind.isClass = false := by
  refine forall_descendants (by simp) fun place hPlace ih child hChild hFlow => ?_
  rw [ancestors_of_mem_children hChild]
  rcases home_or_flow_of_mem_children (hShaped _ (node_mem_subtree hPlace)) hChild hFlow with
    ⟨hHome, -⟩ | ⟨hAbove, hHome, hClass⟩
  · simp [hHome]
  · rw [List.takeWhile_cons_of_pos (by simp [hHome])]
    exact List.forall_mem_cons.mpr ⟨hClass, ih hAbove⟩

/-- A statement stands in the body of its home. -/
theorem exists_body_of_home? : ∀ place ∈ (root program).descendants, place.kind.isFlow = true →
    ∀ home, place.home? = some home →
      ∃ body ∈ home.childrenIn .body, place ∈ body.descendants := by
  refine forall_descendants (by simp [home?])
    fun place hPlace ih child hChild hFlow home hHome => ?_
  rw [home?_of_mem_children hChild] at hHome
  rcases home_or_flow_of_mem_children (hShaped _ (node_mem_subtree hPlace)) hChild hFlow with
    ⟨hIsHome, hField⟩ | ⟨hAbove, hIsHome, -⟩
  · rw [if_pos hIsHome] at hHome
    obtain rfl := Option.some.inj hHome
    exact ⟨child, List.mem_filter.mpr ⟨hChild, by simpa using hField⟩, mem_descendants_self child⟩
  · rw [if_neg (by simp [hIsHome])] at hHome
    obtain ⟨body, hBody, hBelow⟩ := ih hAbove home hHome
    exact ⟨body, hBody, mem_descendants_of_mem_children hBelow hChild⟩

end Place

end EcmaLint
