import EcmaLint.Proofs.Rules.ArrowScopes
import EcmaLint.Proofs.Rules.Bindings
import EcmaLint.Proofs.Rules.ObjectShorthand
import EcmaLint.Proofs.Shape.Statement

/-! The names that functions and programs bind through `var`. They are looked for in the body of a
function, and nested functions are left out, but for one that is itself the body of an arrow
function. -/
namespace EcmaLint

/-- The names that a function or program binds because they are declared with `var` inside it. -/
def Node.varBindings (node : Node) : List String :=
  match node.kind with
  | .program => node.varNames
  | .functionDeclaration | .functionExpression | .arrowFunctionExpression =>
      ((node.child? .body).map Node.varNames).getD []
  | _ => []

theorem Node.varBindings_sublist (node : Node) : node.varBindings.Sublist node.scopeBindings := by
  have hFunction : ((node.child? .body).map Node.varNames).getD [] |>.Sublist
      (scopeBindings.functionBindings node) := by
    unfold scopeBindings.functionBindings
    cases node.child? .body with
    | none => exact List.nil_sublist _
    | some body =>
        exact (List.sublist_append_left _ _).trans (List.sublist_append_right _ _)
  unfold varBindings
  split
  case h_1 hKind =>
    rw [scopeBindings, hKind]
    exact List.sublist_append_left _ _
  case h_2 hKind =>
    rw [scopeBindings, hKind]
    exact hFunction
  case h_3 hKind =>
    rw [scopeBindings, hKind]
    exact hFunction.trans (List.sublist_append_right _ _)
  case h_4 hKind =>
    rw [scopeBindings, hKind]
    exact hFunction
  case h_5 => exact List.nil_sublist _

namespace Place

/-- A place of a part of a tree, as a place of the tree. -/
def onto (start place : Place) : Place := ⟨place.node, place.ascents ++ start.ascents⟩

variable {start place : Place}

@[simp] theorem node_onto : (start.onto place).node = place.node := rfl

@[simp] theorem depth_onto : (start.onto place).depth = place.depth + start.depth :=
  List.length_append

theorem children_onto : (start.onto place).children = place.children.map start.onto := by
  have hBelow : ∀ rank rest,
      below (start.onto place) rank rest = (below place rank rest).map start.onto := by
    intro rank rest
    induction rest generalizing rank with
    | nil => rfl
    | cons first rest ih => exact congrArg _ (ih (rank + 1))
  exact hBelow 0 _

theorem walk_onto (start : Place) (descend : Place → Bool) (place : Place) :
    (start.onto place).walk descend =
      (place.walk fun below => descend (start.onto below)).map start.onto := by
  induction place using Place.induction with
  | step place ih =>
      rw [walk_eq, walk_eq, children_onto, List.map_cons, List.flatMap_map]
      split
      · rw [List.map_flatMap, List.flatMap_congr ih]
      · rfl

/-- The names that `var` declares in a part of a tree, by the places of the tree. -/
theorem varNames_eq (start : Place) : start.node.varNames =
    (start.walk fun place => place.depth == start.depth || !place.kind.isFunction).flatMap
      fun place => if place.node.isVarDeclaration then place.node.declaredNames else [] := by
  have hOnto : start.onto (root start.node) = start := rfl
  have hWalk := walk_onto start
    (fun place => place.depth == start.depth || !place.kind.isFunction) (root start.node)
  have hDepth : (fun below => (start.onto below).depth == start.depth ||
      !(start.onto below).kind.isFunction) = fun below => below.depth == 0 ||
        !below.kind.isFunction := by
    funext below
    rw [Bool.eq_iff_iff]
    simp [kind]
  rw [hOnto, hDepth] at hWalk
  rw [hWalk, List.flatMap_map]
  rfl

/-- A place is a declaration with the word `var` and one of its declarators binds a name. -/
def DeclaresVar (place : Place) (name : String) : Prop :=
  place.node.isVarDeclaration = true ∧ ∃ declarator ∈ place.node.list .declarations,
    ∃ target, declarator.child? .id = some target ∧
      ∃ identifier, target.Binds identifier ∧ identifier.name? = some name

theorem declaresVar_iff {name : String} : place.DeclaresVar name ↔
    place.node.isVarDeclaration = true ∧ name ∈ place.node.declaredNames := by
  refine and_congr_right fun _ => ?_
  rw [Node.declaredNames, List.mem_flatMap]
  refine exists_congr fun declarator => and_congr_right fun _ => ?_
  cases declarator.child? .id with
  | none => simp
  | some target => simp [Node.mem_patternNames_iff]

theorem DeclaresVar.kind_eq {name : String} (h : place.DeclaresVar name) :
    place.kind = .variableDeclaration := by
  have hKind := (Bool.and_eq_true_iff.mp h.1).1
  exact eq_of_beq hKind

theorem mem_varNames_iff {name : String} : name ∈ start.node.varNames ↔
    ∃ place ∈ start.descendants, place.DeclaresVar name ∧
      ∀ above ∈ start.upTo place, above.depth = start.depth ∨ above.kind.isFunction = false := by
  simp only [varNames_eq, walk_eq_filter, List.mem_flatMap, List.mem_filter, List.all_eq_true,
    Bool.or_eq_true, beq_iff_eq, Bool.not_eq_true', declaresVar_iff, List.mem_ite_nil_right]
  exact exists_congr fun place => by tauto

/-- The function or program whose declarations a scope takes for its own: that is the scope, but for
an arrow function with a function for its body. -/
def varHolder (scope : Place) : Place :=
  match scope.child? .body with
  | some body => if body.kind.isFunction = true then body else scope
  | none => scope

section

variable {program : Node} (hWhole : (root program).IsWholeProgram) {name : String}
include hWhole

/-- In a program a place other than its root is a home if it is a function. -/
theorem isHome_eq (hPlace : place ∈ (root program).descendants) (hDepth : 0 < place.depth) :
    place.kind.isHome = place.kind.isFunction := by
  rcases mem_descendants_iff.mp hPlace with rfl | ⟨child, hChild, hBelow⟩
  · cases hDepth
  · have hKind := hWhole.kind_ne_below (mem_descendants_self _) hChild place hBelow
    simp [NodeKind.isHome, hKind]

/-- A name is declared below a place with no function or program between. -/
theorem mem_varNames_iff_of_program (hStart : start ∈ (root program).descendants) :
    name ∈ start.node.varNames ↔ ∃ place ∈ start.descendants, place.DeclaresVar name ∧
      ∀ above ∈ start.upTo place, above = start ∨ above.kind.isHome = false := by
  rw [mem_varNames_iff]
  refine exists_congr fun place => and_congr_right fun hPlace => and_congr_right fun _ => ?_
  refine forall₂_congr fun above hAbove => ?_
  have hIn := ((mem_upTo_iff hPlace).mp hAbove).1
  by_cases hSame : above = start
  · simp [hSame]
  · have hDeep : start.depth < above.depth := by
      by_contra hLe
      exact hSame (eq_of_depth_le hIn (Nat.le_of_not_lt hLe))
    rw [isHome_eq hWhole (mem_descendants_trans hStart hIn) (Nat.zero_lt_of_lt hDeep)]
    simp [hSame, Nat.ne_of_gt hDeep]

/-- What is declared with `var` in a function or program, up to nested functions. -/
theorem mem_varNames_iff_of_isHome (hStart : start ∈ (root program).descendants)
    (hHome : start.kind.isHome = true) : name ∈ start.node.varNames ↔
      ∃ place ∈ (root program).descendants, place.DeclaresVar name ∧
        place.home? = some start := by
  have hNe : ∀ {place : Place}, place.DeclaresVar name → place ≠ start := by
    rintro place hDeclares rfl
    rw [hDeclares.kind_eq] at hHome
    cases hHome
  rw [mem_varNames_iff_of_program hWhole hStart]
  constructor
  · rintro ⟨place, hPlace, hDeclares, hAbove⟩
    have hIn := mem_descendants_trans hStart hPlace
    exact ⟨place, hIn, hDeclares,
      (home?_eq_some_iff hIn hHome (hNe hDeclares)).mpr ⟨hPlace, hAbove⟩⟩
  · rintro ⟨place, hIn, hDeclares, h⟩
    obtain ⟨hPlace, hAbove⟩ := (home?_eq_some_iff hIn hHome (hNe hDeclares)).mp h
    exact ⟨place, hPlace, hDeclares, hAbove⟩

variable (hShaped : program.Shaped) {scope body : Place}
  (hScope : scope ∈ (root program).descendants)
include hShaped hScope

/-- What is declared with `var` in the body of a function is declared in the function, if the body
is no function itself. -/
theorem mem_varNames_iff_of_body (hHome : scope.kind.isHome = true)
    (hBody : scope.childrenIn .body = [body]) (hNoHome : body.kind.isHome = false) :
    name ∈ body.node.varNames ↔ ∃ place ∈ (root program).descendants,
      place.DeclaresVar name ∧ place.home? = some scope := by
  have hChild := mem_children_of_childrenIn_eq hBody
  have hNe : ∀ {place : Place}, place.DeclaresVar name → place ≠ scope := by
    rintro place hDeclares rfl
    rw [hDeclares.kind_eq] at hHome
    cases hHome
  rw [mem_varNames_iff_of_program hWhole (mem_descendants_of_mem_children hScope hChild)]
  constructor
  · rintro ⟨place, hPlace, hDeclares, hAbove⟩
    have hBelow := mem_descendants_iff.mpr (.inr ⟨body, hChild, hPlace⟩)
    have hIn := mem_descendants_trans hScope hBelow
    refine ⟨place, hIn, hDeclares,
      (home?_eq_some_iff hIn hHome (hNe hDeclares)).mpr ⟨hBelow, ?_⟩⟩
    rw [upTo_of_mem_children hChild hPlace, List.forall_mem_append, List.forall_mem_singleton]
    refine ⟨fun above hOn => .inr ?_, .inl rfl⟩
    rcases hAbove above hOn with rfl | hNone
    · exact hNoHome
    · exact hNone
  · rintro ⟨place, hIn, hDeclares, h⟩
    have hFlow : place.kind.isFlow = true := by rw [hDeclares.kind_eq]; rfl
    obtain ⟨found, hFound, hPlace⟩ := exists_body_of_home? hShaped place hIn hFlow scope h
    rw [hBody, List.mem_singleton] at hFound
    subst hFound
    refine ⟨place, hPlace, hDeclares, fun above hOn => .inr ?_⟩
    obtain ⟨-, hAbove⟩ := (home?_eq_some_iff hIn hHome (hNe hDeclares)).mp h
    rw [upTo_of_mem_children hChild hPlace, List.forall_mem_append] at hAbove
    refine (hAbove.1 above hOn).resolve_left ?_
    rintro rfl
    have hLe := depth_le_of_mem_descendants ((mem_upTo_iff hPlace).mp hOn).1
    rw [depth_of_mem_children hChild] at hLe
    omega

/-- A function or program binds what is declared with `var` in it, up to nested functions; an arrow
function whose body is a function binds what is declared in that function. -/
theorem mem_varBindings_iff (hHome : scope.kind.isHome = true) :
    name ∈ scope.node.varBindings ↔ ∃ place ∈ (root program).descendants,
      place.DeclaresVar name ∧ place.home? = some scope.varHolder := by
  have hConforms : scope.node.Conforms := hShaped _ (node_mem_subtree hScope)
  rcases Bool.or_eq_true_iff.mp hHome with hProgram | hFunction
  · have hKind : scope.node.kind = .program := eq_of_beq hProgram
    obtain ⟨value, hField, hTakes⟩ := hConforms.exists_field? .body (congrArg _ hKind) rfl
    obtain ⟨statements, rfl, -⟩ := Part.takes_many_iff.mp hTakes
    have hHolder : scope.varHolder = scope := by
      simp [varHolder, child?, Node.child?, hField, Field.nodes]
    rw [Node.varBindings, hKind, hHolder]
    exact mem_varNames_iff_of_isHome hWhole hScope hHome
  · obtain ⟨hForms, hBindings⟩ : scope.node.kind.forms = [NodeKind.functionForm] ∧
        scope.node.varBindings = ((scope.node.child? .body).map Node.varNames).getD [] := by
      simp only [NodeKind.isFunction, Bool.or_eq_true, beq_iff_eq, kind] at hFunction
      unfold Node.varBindings
      rcases hFunction with (hKind | hKind) | hKind <;> rw [hKind] <;> exact ⟨rfl, rfl⟩
    obtain ⟨value, hField, hTakes⟩ := hConforms.exists_field? .body hForms rfl
    obtain ⟨block, rfl, -⟩ := Part.takes_one_iff.mp hTakes
    obtain ⟨body, hBody, rfl⟩ := exists_childrenIn_eq hConforms hField
    have hNode : scope.node.child? .body = some body.node := by rw [Node.child?, hField]; rfl
    have hChild : scope.child? .body = some body := by simp [child?, hNode, hBody]
    rw [hBindings, hNode, Option.map_some, Option.getD_some, varHolder, hChild]
    have hIn := mem_descendants_of_mem_children hScope (mem_children_of_childrenIn_eq hBody)
    have hIsHome := isHome_eq hWhole hIn <| by
      rw [depth_of_mem_children (mem_children_of_childrenIn_eq hBody)]
      exact Nat.succ_pos _
    by_cases hNested : body.kind.isFunction = true
    · simp only [hNested, if_true]
      exact mem_varNames_iff_of_isHome hWhole hIn (hIsHome.trans hNested)
    · simp only [hNested, if_false, Bool.false_eq_true]
      exact mem_varNames_iff_of_body hWhole hShaped hScope hHome hBody
        (by simpa [hIsHome] using hNested)

end

end Place

/-- Functions and programs of what a source is read as bind through `var` what is declared in them,
or in the function that is their body. -/
theorem parse_bindsVars {text : String} {options : ParseOptions} {parsed : Parsed}
    (h : parse text options = .ok parsed) :
    ∀ scope ∈ (Place.root parsed.program).descendants, scope.kind.isHome = true → ∀ name,
      name ∈ scope.node.varBindings ↔ ∃ place ∈ (Place.root parsed.program).descendants,
        place.DeclaresVar name ∧ place.home? = some scope.varHolder :=
  fun _ hScope hHome _ =>
    Place.mem_varBindings_iff (Rules.ObjectShorthand.isWholeProgram_of_parse h)
      (shaped_of_parse h).shaped hScope hHome

/-- An arrow function with a function for its body. -/
theorem parse_bindsVars_arrow : ∃ parsed,
    parse "(a => function () \x7b var b; \x7d)" default = .ok parsed ∧
      ∀ scope ∈ (Place.root parsed.program).descendants, scope.kind.isHome = true → ∀ name,
        name ∈ scope.node.varBindings ↔ ∃ place ∈ (Place.root parsed.program).descendants,
          place.DeclaresVar name ∧ place.home? = some scope.varHolder := by
  have hOk : (parse "(a => function () \x7b var b; \x7d)" default).isOk = true := by
    decide +kernel
  obtain ⟨parsed, hParse⟩ := exists_eq_ok_of_isOk hOk
  exact ⟨parsed, hParse, parse_bindsVars hParse⟩

end EcmaLint
