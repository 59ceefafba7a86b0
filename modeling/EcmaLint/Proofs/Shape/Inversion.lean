import EcmaLint.Proofs.Grammar.Program
import EcmaLint.Proofs.Shape.Basic
import EcmaLint.Proofs.Tree.Aligned

/-! What the shape of a tree says of single nodes: which fields nodes of a kind have, what stands in
them, and which places are the children in a field. Nothing stands below an identifier, and siblings
do not overlap, so two identifiers of a program never lie over the same stretch; only in a shorthand
property the name may be the value too. -/
namespace EcmaLint

namespace Node

variable {node child : Node} {name : FieldName}

theorem field?_of_child? (h : node.child? name = some child) :
    node.field? name = some (.node child) := by
  unfold child? at h
  split at h
  case h_1 held hField => rw [hField, h, Field.node]
  case h_2 => cases h

/-- A field that a form has is there, with a value that it takes. -/
theorem exists_lookup_of_forall₂ {fields : List (FieldName × FieldValue)} {form : NodeForm}
    (h : List.Forall₂ FillsIn fields form) {part : Part} (hPart : form.lookup name = some part) :
    ∃ value, fields.lookup name = some value ∧ part.Takes value := by
  induction h with
  | nil => cases hPart
  | @cons field expected _ _ hFirst _ ih =>
      obtain ⟨held, value⟩ := field
      obtain ⟨_, wanted⟩ := expected
      obtain ⟨rfl, hTakes⟩ := hFirst
      rw [List.lookup_cons] at hPart ⊢
      by_cases hName : (name == held) = true
      · rw [hName] at hPart ⊢
        exact ⟨value, rfl, Option.some.inj hPart ▸ hTakes⟩
      · rw [Bool.not_eq_true] at hName
        rw [hName] at hPart ⊢
        exact ih hPart

/-- If nodes of a kind have one form, the fields of a node are those of the form. -/
theorem Conforms.exists_field? (h : node.Conforms) (name : FieldName) {form : NodeForm}
    {part : Part} (hForms : node.kind.forms = [form]) (hPart : form.lookup name = some part) :
    ∃ value, node.field? name = some value ∧ part.Takes value := by
  obtain ⟨found, hFound, hFields⟩ := h
  rw [hForms] at hFound
  obtain rfl := List.mem_singleton.mp hFound
  exact exists_lookup_of_forall₂ hFields hPart

theorem nodup_names_of_mem_forms {kind : NodeKind} :
    ∀ form ∈ kind.forms, (form.map Prod.fst).Nodup := by
  cases kind <;> decide

theorem map_fst_eq_of_forall₂ {fields : List (FieldName × FieldValue)} {form : NodeForm}
    (h : List.Forall₂ FillsIn fields form) : fields.map Prod.fst = form.map Prod.fst := by
  induction h with
  | nil => rfl
  | cons hFirst _ ih => rw [List.map_cons, List.map_cons, hFirst.1, ih]

/-- No two fields of a node have the same name. -/
theorem Conforms.nodup_names (h : node.Conforms) : (node.fields.map Prod.fst).Nodup := by
  obtain ⟨form, hForm, hFields⟩ := h
  rw [map_fst_eq_of_forall₂ hFields]
  exact nodup_names_of_mem_forms form hForm

/-- A child is of a kind that a form of its parent accepts where the child stands. -/
theorem Conforms.exists_part (h : node.Conforms) (hChild : (name, child) ∈ node.namedChildren) :
    ∃ form ∈ node.kind.forms, List.Forall₂ FillsIn node.fields form ∧
      ∃ part, (name, part) ∈ form ∧ part.accepts child.kind = true := by
  obtain ⟨form, hForm, hFields⟩ := h
  rw [namedChildren_eq_namedIn, Field.namedIn, List.mem_flatMap] at hChild
  obtain ⟨field, hField, hHeld⟩ := hChild
  obtain ⟨held, hMem, ⟨⟩⟩ := List.mem_map.mp hHeld
  obtain ⟨expected, hExpected, hName, hTakes⟩ := exists_fillsIn hFields hField
  refine ⟨form, hForm, hFields, expected.2, ?_, hTakes.accepts_of_mem hMem⟩
  rw [hName]
  exact hExpected

/-- Nothing stands below an identifier. -/
theorem Conforms.children_of_identifier (h : node.Conforms) (hKind : node.kind = .identifier) :
    node.children = [] := by
  refine List.eq_nil_iff_forall_not_mem.mpr fun child hChild => ?_
  obtain ⟨⟨name, _⟩, hNamed, rfl⟩ := List.mem_map.mp hChild
  obtain ⟨form, hForm, -, part, hPart, hAccepts⟩ := h.exists_part hNamed
  rw [hKind] at hForm
  obtain rfl := List.mem_singleton.mp hForm
  cases List.mem_singleton.mp hPart
  cases hAccepts

theorem Conforms.name?_of_identifier (h : node.Conforms) (hKind : node.kind = .identifier) :
    ∃ name, node.name? = some name := by
  obtain ⟨value, hField, hTakes⟩ := h.exists_field? .ident (congrArg _ hKind) rfl
  obtain ⟨text, rfl⟩ := Part.takes_word_iff.mp hTakes
  exact ⟨text, by rw [name?, if_pos hKind, text?, hField]⟩

/-- The name of a shorthand property is an identifier. -/
theorem Conforms.kind_of_shorthand_key (h : node.Conforms) (hShorthand : node.IsShorthand)
    (hChild : (.key, child) ∈ node.namedChildren) : child.kind = .identifier := by
  obtain ⟨hKind, hFlag⟩ := hShorthand
  obtain ⟨form, hForm, hFields, part, hPart, hAccepts⟩ := h.exists_part hChild
  have hHeld : ∀ held, form.lookup .shorthand = some (.flag held) → held = true := by
    intro held hLookup
    obtain ⟨value, hField, hTakes⟩ := exists_lookup_of_forall₂ hFields hLookup
    obtain rfl := Part.takes_flag_iff.mp hTakes
    rwa [flag, field?, hField] at hFlag
  rw [hKind] at hForm
  simp only [NodeKind.forms, List.mem_cons, List.not_mem_nil, or_false] at hForm
  rcases hForm with rfl | rfl | rfl
  · cases hHeld false rfl
  · cases hHeld false rfl
  · obtain rfl : part = .one (· == .identifier) := by simpa using hPart
    exact eq_of_beq hAccepts

end Node

namespace Field

/-- The children that the fields of one name hold. -/
theorem filter_namedIn {α : Type} {fields : List (FieldName × Field α)}
    (hNodup : (fields.map Prod.fst).Nodup) {name : FieldName} {value : Field α}
    (h : fields.lookup name = some value) :
    ((namedIn fields).filter fun child => child.1 = name).map Prod.snd = value.filled := by
  obtain ⟨front, back, rfl, hFront⟩ := List.lookup_eq_some_iff.mp h
  have hOther : ∀ {rest : List (FieldName × Field α)}, (∀ field ∈ rest, field.1 ≠ name) →
      ((namedIn rest).filter fun child => child.1 = name) = [] := by
    intro rest hRest
    refine List.filter_eq_nil_iff.mpr fun child hChild => ?_
    obtain ⟨field, hField, hHeld⟩ := List.mem_flatMap.mp hChild
    obtain ⟨_, -, rfl⟩ := List.mem_map.mp hHeld
    simpa using hRest field hField
  have hBack : ∀ field ∈ back, field.1 ≠ name := by
    rw [List.map_append, List.map_cons] at hNodup
    have hHead := (List.nodup_cons.mp (List.nodup_append.mp hNodup).2.1).1
    rintro field hField rfl
    exact hHead (List.mem_map.mpr ⟨field, hField, rfl⟩)
  have hHere : ((value.filled.map fun child => (name, child)).filter
      fun child => child.1 = name) = value.filled.map fun child => (name, child) := by
    rw [List.filter_eq_self]
    rintro child hChild
    obtain ⟨_, -, rfl⟩ := List.mem_map.mp hChild
    simp
  rw [namedIn, List.flatMap_append, List.flatMap_cons, ← namedIn, ← namedIn, List.filter_append,
    List.filter_append, hOther fun field hField => ?_, hOther hBack, hHere]
  · simp [Function.comp_def]
  · rintro rfl
    simpa using hFront field hField

end Field

namespace Place

variable {place : Place}

private theorem map_field?_below (rank : Nat) (rest : List (FieldName × Node)) :
    (below place rank rest).map (fun child => (child.field?, child.node)) =
      rest.map fun child => (some child.1, child.2) := by
  induction rest generalizing rank with
  | nil => rfl
  | cons first rest ih => exact congrArg _ (ih (rank + 1))

/-- The children of a place know the fields that hold them. -/
theorem map_field?_children (place : Place) :
    place.children.map (fun child => (child.field?, child.node)) =
      place.node.namedChildren.map fun child => (some child.1, child.2) :=
  map_field?_below 0 _

theorem mem_namedChildren_of_mem_children {child : Place} {name : FieldName}
    (h : child ∈ place.children) (hField : child.field? = some name) :
    (name, child.node) ∈ place.node.namedChildren := by
  have hPair : (some name, child.node) ∈
      place.children.map fun child => (child.field?, child.node) :=
    List.mem_map.mpr ⟨child, h, by rw [hField]⟩
  rw [map_field?_children] at hPair
  obtain ⟨⟨_, _⟩, hNamed, hEq⟩ := List.mem_map.mp hPair
  cases hEq
  exact hNamed

theorem exists_field?_of_mem_children {child : Place} (h : child ∈ place.children) :
    ∃ name, child.field? = some name ∧ (name, child.node) ∈ place.node.namedChildren := by
  obtain ⟨name, rank, hAscents⟩ := ascents_of_mem_children h
  have hField : child.field? = some name := by rw [field?, hAscents]; rfl
  exact ⟨name, hField, mem_namedChildren_of_mem_children h hField⟩

theorem exists_of_mem_namedChildren {node : Node} {name : FieldName}
    (h : (name, node) ∈ place.node.namedChildren) :
    ∃ child ∈ place.children, child.field? = some name ∧ child.node = node := by
  have hPair : (some name, node) ∈
      place.node.namedChildren.map fun child => (some child.1, child.2) :=
    List.mem_map.mpr ⟨_, h, rfl⟩
  rw [← map_field?_children] at hPair
  obtain ⟨child, hChild, hEq⟩ := List.mem_map.mp hPair
  exact ⟨child, hChild, Prod.mk.inj hEq⟩

theorem map_node_childrenIn (place : Place) (name : FieldName) :
    (place.childrenIn name).map node =
      (place.node.namedChildren.filter fun child => child.1 = name).map Prod.snd := by
  have hChildren := congrArg
    (fun pairs => (pairs.filter fun pair => pair.1 = some name).map Prod.snd)
    (map_field?_children place)
  simpa [List.filter_map, List.map_map, Function.comp_def, childrenIn] using hChildren

theorem mem_children_of_childrenIn_eq {child : Place} {name : FieldName}
    (h : place.childrenIn name = [child]) : child ∈ place.children := by
  have hMem : child ∈ place.childrenIn name := by
    rw [h]
    exact List.mem_cons_self
  exact List.mem_of_mem_filter hMem

/-- The children in a field are what the field holds. -/
theorem map_node_childrenIn_of_field? (h : place.node.Conforms) {name : FieldName}
    {value : FieldValue} (hField : place.node.field? name = some value) :
    (place.childrenIn name).map node = value.filled := by
  rw [map_node_childrenIn, Node.namedChildren_eq_namedIn]
  exact Field.filter_namedIn h.nodup_names hField

/-- A field that holds one node has one place. -/
theorem exists_childrenIn_eq (h : place.node.Conforms) {name : FieldName} {held : Node}
    (hField : place.node.field? name = some (.node held)) :
    ∃ child, place.childrenIn name = [child] ∧ child.node = held := by
  have hNodes := map_node_childrenIn_of_field? h hField
  rw [Field.filled_node] at hNodes
  exact List.map_eq_singleton_iff.mp hNodes

/-- The child in a field that holds one slot is the node there. -/
theorem node_of_child? (h : place.node.Conforms) {name : FieldName} {child : Place}
    (hChild : place.child? name = some child) :
    place.node.child? name = some child.node := by
  unfold child? at hChild
  split at hChild
  case isTrue hSome =>
    obtain ⟨held, hHeld⟩ := Option.isSome_iff_exists.mp hSome
    obtain ⟨found, hFound, rfl⟩ := exists_childrenIn_eq h (Node.field?_of_child? hHeld)
    rw [hFound] at hChild
    obtain rfl := Option.some.inj hChild
    exact hHeld
  case isFalse => cases hChild

variable {start child first second : Place}

/-- A place below the root of a program lies over its tokens. -/
theorem aligned_of_liesOver {program : Node} {tokens : List Token} (h : program.LiesOver tokens)
    (hPlace : place ∈ (root program).descendants) (hKind : place.kind ≠ .program) :
    place.node.Aligned tokens := by
  rcases List.mem_cons.mp (Node.subtree_eq program ▸ node_mem_subtree hPlace) with hTop | hBelow
  · exact absurd ((congrArg Node.kind hTop).trans h.kind_eq) hKind
  · exact h.aligned _ hBelow

theorem nests_of_liesOver {program : Node} {tokens : List Token} (h : program.LiesOver tokens) :
    ∀ place ∈ (root program).descendants, place.node.Nests := by
  intro place hPlace
  rcases List.mem_cons.mp (Node.subtree_eq program ▸ node_mem_subtree hPlace) with hTop | hBelow
  · exact hTop ▸ h.nests
  · exact (h.aligned _ hBelow).toNests

/-- What is below a place lies inside it. -/
theorem inside_of_mem_descendants (hNests : ∀ place ∈ start.descendants, place.node.Nests) :
    ∀ place ∈ start.descendants,
      start.span.start ≤ place.span.start ∧ place.span.stop ≤ start.span.stop := by
  refine forall_descendants ⟨Nat.le_refl _, Nat.le_refl _⟩ fun place hPlace ih child hChild => ?_
  obtain ⟨hStart, hStop⟩ := (hNests place hPlace).inside _ (node_mem_of_mem_children hChild)
  exact ⟨ih.1.trans hStart, hStop.trans ih.2⟩

/-- The children of a place are apart, but for the name and the value of a shorthand property. -/
theorem pairwise_disjoint_children (hNests : place.node.Nests) :
    place.children.Pairwise fun first second => first.span.Disjoint second.span ∨
      place.node.IsShorthand ∧ (first.field? = some .key ∨ second.field? = some .key) := by
  have hNamed : (place.node.namedChildren.map fun child => (some child.1, child.2)).Pairwise
      fun a b => a.2.span.Disjoint b.2.span ∨
        place.node.IsShorthand ∧ (a.1 = some FieldName.key ∨ b.1 = some FieldName.key) := by
    refine List.pairwise_map.mpr (hNests.disjoint.imp fun h => h.imp_right ?_)
    exact And.imp_right fun hNames => .inl (congrArg some hNames.1)
  rwa [← map_field?_children, List.pairwise_map] at hNamed

theorem disjoint_of_ne (hNests : place.node.Nests) (hFirst : first ∈ place.children)
    (hSecond : second ∈ place.children) (hNe : first ≠ second) :
    first.span.Disjoint second.span ∨
      place.node.IsShorthand ∧ (first.field? = some .key ∨ second.field? = some .key) := by
  have hSymm : Std.Symm fun first second : Place => first.span.Disjoint second.span ∨
      place.node.IsShorthand ∧ (first.field? = some .key ∨ second.field? = some .key) :=
    ⟨fun _ _ h => h.imp Or.symm (And.imp_right Or.symm)⟩
  exact (pairwise_disjoint_children hNests).forall hFirst hSecond hNe

/-- An identifier has nothing below it. -/
theorem eq_of_mem_descendants_identifier (hShaped : place.node.Shaped)
    (hKind : place.kind = .identifier) : ∀ below ∈ place.descendants, below = place := by
  intro below hBelow
  rcases mem_descendants_iff.mp hBelow with rfl | ⟨child, hChild, -⟩
  · rfl
  · have hNode := node_mem_of_mem_children hChild
    rw [hShaped.conforms.children_of_identifier hKind] at hNode
    cases hNode

/-- Of two places over the same stretch one is below the other, if neither is an identifier that is
the name of a property. -/
theorem mem_descendants_of_span_eq (hShaped : start.node.Shaped)
    (hNests : ∀ place ∈ start.descendants, place.node.Nests) (hFirst : first ∈ start.descendants)
    (hSecond : second ∈ start.descendants)
    (hFirstField : first.kind = .identifier → first.field? ≠ some .key)
    (hSecondField : second.kind = .identifier → second.field? ≠ some .key)
    (hNonempty : first.span.start < first.span.stop) (hSpan : first.span = second.span) :
    first ∈ second.descendants ∨ second ∈ first.descendants := by
  -- the name of a property in shorthand is an identifier and has nothing below it
  have hKey : ∀ {place child below : Place}, place.node.Shaped → child ∈ place.children →
      place.node.IsShorthand → child.field? = some .key → below ∈ child.descendants →
      below.kind = .identifier ∧ below.field? = some .key := by
    intro place child below hPlace hChild hShorthand hField hBelow
    have hKind : child.kind = .identifier :=
      hPlace.conforms.kind_of_shorthand_key hShorthand
        (mem_namedChildren_of_mem_children hChild hField)
    rw [eq_of_mem_descendants_identifier
      (hPlace.of_mem_children (node_mem_of_mem_children hChild)) hKind below hBelow]
    exact ⟨hKind, hField⟩
  induction start using Place.induction with
  | step start ih =>
      rcases mem_descendants_iff.mp hFirst with rfl | ⟨left, hLeft, hBelowLeft⟩
      · exact .inr hSecond
      rcases mem_descendants_iff.mp hSecond with rfl | ⟨right, hRight, hBelowRight⟩
      · exact .inl hFirst
      have hBelow : ∀ {child}, child ∈ start.children →
          ∀ place ∈ child.descendants, place.node.Nests := fun hChild place hPlace =>
        hNests place (mem_descendants_iff.mpr (.inr ⟨_, hChild, hPlace⟩))
      by_cases hSame : left = right
      · subst hSame
        exact ih left hLeft (hShaped.of_mem_children (node_mem_of_mem_children hLeft))
          (hBelow hLeft) hBelowLeft hBelowRight
      rcases disjoint_of_ne (hNests _ (mem_descendants_self _)) hLeft hRight hSame with
        hDisjoint | ⟨hShorthand, hField | hField⟩
      · obtain ⟨hLeftStart, hLeftStop⟩ := inside_of_mem_descendants (hBelow hLeft) first hBelowLeft
        obtain ⟨hRightStart, hRightStop⟩ :=
          inside_of_mem_descendants (hBelow hRight) second hBelowRight
        rw [← hSpan] at hRightStart hRightStop
        unfold Span.Disjoint at hDisjoint
        omega
      · obtain ⟨hKind, hField⟩ := hKey hShaped hLeft hShorthand hField hBelowLeft
        exact absurd hField (hFirstField hKind)
      · obtain ⟨hKind, hField⟩ := hKey hShaped hRight hShorthand hField hBelowRight
        exact absurd hField (hSecondField hKind)

/-- Of the places below a place two identifiers over the same stretch are the same, if neither is
the name of a property. -/
theorem eq_of_span_eq (hShaped : start.node.Shaped)
    (hNests : ∀ place ∈ start.descendants, place.node.Nests) (hFirst : first ∈ start.descendants)
    (hSecond : second ∈ start.descendants) (hFirstKind : first.kind = .identifier)
    (hSecondKind : second.kind = .identifier) (hFirstField : first.field? ≠ some .key)
    (hSecondField : second.field? ≠ some .key) (hNonempty : first.span.start < first.span.stop)
    (hSpan : first.span = second.span) : first = second := by
  have hBelow : ∀ {place}, place ∈ start.descendants → place.node.Shaped := fun hPlace below hBelow =>
    hShaped below (Node.mem_subtree_trans (node_mem_subtree hPlace) hBelow)
  rcases mem_descendants_of_span_eq hShaped hNests hFirst hSecond (fun _ => hFirstField)
    (fun _ => hSecondField) hNonempty hSpan with h | h
  · exact eq_of_mem_descendants_identifier (hBelow hSecond) hSecondKind first h
  · exact (eq_of_mem_descendants_identifier (hBelow hFirst) hFirstKind second h).symm

end Place

end EcmaLint
