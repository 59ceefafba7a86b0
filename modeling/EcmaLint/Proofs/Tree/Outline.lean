import EcmaLint.Proofs.Grammar.Program
import EcmaLint.Proofs.Tree.Lineage
import EcmaLint.Proofs.Tree.Traversal
import EcmaLint.Tree.Outline

/-! The outline of a tree as a list of lines. Nothing that a line shows ends it early, since texts
stand in quotes, and nothing but a hole ends as a hole does; so the lines of an outline are those
it was put together from, and the lines of the nodes can be told from the others.

The three ways through the tree of a program. Listeners are told of the events of the recursive
definition, walks visit what is entered there, and outlines list it. -/
namespace EcmaLint

section

/-- The lines of a text that ends with a line end. -/
def Text.lines (text : String) : List String :=
  ((text.toList.splitOn '\n').dropLast).map String.ofList

/-- Lines one behind the other, each with its end. -/
def Text.unlines (lines : List String) : String := String.join (lines.map fun line => line ++ "\n")

/-- A line of an outline is that of a hole. -/
def Text.endsAsHole (line : String) : Bool := "<hole>".toList.isSuffixOf line.toList

theorem Text.unlines_append (first second : List String) :
    unlines (first ++ second) = unlines first ++ unlines second := by
  rw [unlines, List.map_append, String.join_append, unlines, unlines]

theorem Text.lines_unlines {lines : List String} (h : ∀ line ∈ lines, '\n' ∉ line.toList) :
    Text.lines (unlines lines) = lines := by
  have hSplit : (unlines lines).toList.splitOn '\n' = lines.map String.toList ++ [[]] := by
    induction lines with
    | nil => rfl
    | cons line rest ih =>
        obtain ⟨hLine, hRest⟩ := List.forall_mem_cons.mp h
        have hText : (unlines (line :: rest)).toList =
            line.toList ++ '\n' :: (unlines rest).toList := by
          rw [unlines, List.map_cons, String.join_cons, ← unlines, String.toList_append,
            String.toList_append, List.append_assoc]
          rfl
        rw [hText, List.splitOn_append_cons_self_of_not_mem hLine, ih hRest]
        rfl
  rw [Text.lines, hSplit, List.dropLast_concat, List.map_map]
  simp [Function.comp_def]

/-- A text stays on its line and does not end as a hole does. -/
def Text.Inline (text : String) : Prop := '\n' ∉ text.toList ∧ text.toList.getLast? ≠ some '>'

namespace Text.Inline

theorem append {first second : String} (h : Inline first) (h' : Inline second) :
    Inline (first ++ second) := by
  rw [Inline, String.toList_append, List.mem_append, List.getLast?_append]
  refine ⟨not_or.mpr ⟨h.1, h'.1⟩, ?_⟩
  have hSecond := h'.2
  cases hLast : second.toList.getLast? with
  | none => exact h.2
  | some c =>
      rw [hLast] at hSecond
      exact hSecond

theorem join {texts : List String} (h : ∀ text ∈ texts, Inline text) :
    Inline (String.join texts) := by
  induction texts with
  | nil => exact ⟨by simp, by simp⟩
  | cons text rest ih =>
      obtain ⟨hText, hRest⟩ := List.forall_mem_cons.mp h
      rw [String.join_cons]
      exact hText.append (ih hRest)

theorem of_forall {chars : List Char} (h : ∀ c ∈ chars, c ≠ '\n' ∧ c ≠ '>') :
    Inline (String.ofList chars) := by
  rw [Inline, String.toList_ofList]
  exact ⟨fun hMem => (h _ hMem).1 rfl, fun hLast => (h _ (List.mem_of_getLast? hLast)).2 rfl⟩

theorem of_isDigit {chars : List Char} (h : ∀ c ∈ chars, c.isDigit = true) :
    Inline (String.ofList chars) := by
  refine of_forall fun c hc => ⟨?_, ?_⟩
  · rintro rfl
    cases h _ hc
  · rintro rfl
    cases h _ hc

end Text.Inline

open Text

theorem isDigit_of_mem_toString {n : Nat} {c : Char} (h : c ∈ (toString n).toList) :
    c.isDigit = true := by
  rw [Nat.toString_eq_ofList_toDigits, String.toList_ofList] at h
  exact Nat.isDigit_of_mem_toDigits (by decide) (by decide) h

theorem inline_toString (n : Nat) : Inline (toString n) := by
  rw [← String.ofList_toList (s := toString n)]
  exact .of_isDigit fun c hc => isDigit_of_mem_toString hc

theorem inline_indent (depth : Nat) : Inline (Node.indent depth) := by
  refine .of_forall fun c hc => ?_
  rw [List.eq_of_mem_replicate hc]
  decide

theorem inline_kind (kind : NodeKind) : Inline kind.name := by
  cases kind <;> exact ⟨by decide, by decide⟩

theorem inline_field (name : FieldName) : Inline name.text := by
  cases name <;> exact ⟨by decide, by decide⟩

theorem newline_not_mem_toDigits (n : Nat) : '\n' ∉ Nat.toDigits 16 n := by
  induction n using Nat.strongRecOn with
  | ind n ih =>
      rw [Nat.toDigits_eq_if (by decide)]
      split
      · simp
      · have hLt : n / 16 < n := by omega
        simp [ih _ hLt]

/-- In quotes a line end is written with other characters. -/
theorem newline_not_mem_quotedChar (c : Char) : '\n' ∉ quotedChar c := by
  by_cases hNewline : c = '\n'
  · subst hNewline
    decide
  · unfold quotedChar
    split
    any_goals decide
    split
    · simp [newline_not_mem_toDigits]
    · simpa using Ne.symm hNewline

theorem inline_quoted (text : String) : Inline (quoted text) := by
  rw [Inline, quoted, String.toList_ofList]
  constructor
  · simp [newline_not_mem_quotedChar]
  · rw [List.getLast?_concat]
    decide

namespace Decimal

theorem inline_zeros (n : Nat) : Inline (zeros n) := by
  refine .of_forall fun c hc => ?_
  rw [List.eq_of_mem_replicate hc]
  decide

theorem inline_sign (negative : Bool) : Inline (sign negative) := by
  cases negative <;> exact ⟨by decide, by decide⟩

theorem inline_positional (digits : Nat) (power : Int) : Inline (positional digits power) := by
  have hDigits : ∀ {part : List Char}, part ⊆ (toString digits).toList →
      Inline (String.ofList part) := fun hPart =>
    .of_isDigit fun c hc => isDigit_of_mem_toString (hPart hc)
  have hEmpty : Inline "" := ⟨by simp, by simp⟩
  have hPoint : Inline "." := ⟨by decide, by decide⟩
  have hZero : Inline "0." := ⟨by decide, by decide⟩
  dsimp only [positional]
  split
  · refine (hDigits (List.Subset.refl _)).append ?_
    split
    · exact hEmpty
    · exact inline_zeros _
  · split
    · exact ((hDigits (List.take_subset _ _)).append hPoint).append
        (hDigits (List.drop_subset _ _))
    · exact (hZero.append (inline_zeros _)).append (hDigits (List.Subset.refl _))

theorem inline_plain (value : Float) : Inline (plain value) := by
  unfold plain
  split
  · exact ⟨by decide, by decide⟩
  · exact (inline_sign _).append ⟨by decide, by decide⟩
  · exact (inline_sign _).append (inline_positional _ _)

end Decimal

namespace Node

theorem inline_outline (name : FieldName) (value : FieldValue) : Inline (value.outline name) := by
  have hSpace : Inline " " := ⟨by decide, by decide⟩
  have hEquals : Inline "=" := ⟨by decide, by decide⟩
  have hEmpty : Inline "" := ⟨by simp, by simp⟩
  have hName := hSpace.append (inline_field name)
  unfold Field.outline
  split
  · exact (hName.append hEquals).append (inline_quoted _)
  · exact hName
  · exact (hName.append hEquals).append (Decimal.inline_plain _)
  · exact hName.append ⟨by decide, by decide⟩
  · exact hEmpty

theorem inline_headline {label : String} (h : Inline label) (node : Node) :
    Inline (headline label node) := by
  have hSpan : Inline node.span.render :=
    ((inline_toString _).append ⟨by decide, by decide⟩).append (inline_toString _)
  have hLabel : Inline node.label :=
    ((inline_kind node.kind).append ⟨by decide, by decide⟩).append hSpan
  refine (h.append hLabel).append (.join ?_)
  intro text hText
  obtain ⟨field, -, rfl⟩ := List.mem_map.mp hText
  exact inline_outline field.1 field.2

/-- The lines of the nodes of a tree, each before the lines of the nodes below it. -/
def linesAt (depth : Nat) (label : String) (node : Node) : List String :=
  (indent depth ++ headline label node) ::
    node.namedChildren.attach.flatMap fun ⟨(name, child), _⟩ =>
      linesAt (depth + 1) (name.text ++ ": ") child
termination_by sizeOf node
decreasing_by
  exact sizeOf_lt_of_mem_children (List.mem_map_of_mem ‹(name, child) ∈ node.namedChildren›)

theorem linesAt_eq (depth : Nat) (label : String) (node : Node) : node.linesAt depth label =
    (indent depth ++ headline label node) ::
      node.namedChildren.flatMap fun field =>
        field.2.linesAt (depth + 1) (field.1.text ++ ": ") := by
  rw [linesAt, List.flatMap_subtype (fun _ _ => rfl), List.unattach_attach]

end Node

/-- A text is made of lines, and those that are not the line of a hole are the ones listed. -/
def Text.Lists (text : String) (listed : List String) : Prop :=
  ∃ lines, text = unlines lines ∧ (∀ line ∈ lines, '\n' ∉ line.toList) ∧
    lines.filter (fun line => !endsAsHole line) = listed

namespace Text.Lists

theorem nil : Lists "" [] := ⟨[], rfl, by simp, rfl⟩

theorem append {first second : String} {listed more : List String} (h : Lists first listed)
    (h' : Lists second more) : Lists (first ++ second) (listed ++ more) := by
  obtain ⟨lines, rfl, hLines, rfl⟩ := h
  obtain ⟨others, rfl, hOthers, rfl⟩ := h'
  exact ⟨lines ++ others, (unlines_append _ _).symm,
    List.forall_mem_append.mpr ⟨hLines, hOthers⟩, List.filter_append _ _⟩

theorem line {text : String} (h : Inline text) : Lists (text ++ "\n") [text] := by
  refine ⟨[text], by simp [unlines], by simpa using h.1, ?_⟩
  have hEnd : endsAsHole text = false := by
    rw [endsAsHole, Bool.eq_false_iff, ne_eq, List.isSuffixOf_iff_suffix]
    rintro ⟨front, hFront⟩
    refine h.2 ?_
    rw [← hFront, List.getLast?_append]
    rfl
  simp [hEnd]

theorem hole {text : String} (h : '\n' ∉ text.toList) : Lists (text ++ ": <hole>\n") [] := by
  refine ⟨[text ++ ": <hole>"], ?_, ?_, ?_⟩
  · simp [unlines, String.append_assoc]
  · simp [h]
  · have hEnd : endsAsHole (text ++ ": <hole>") = true := by
      rw [endsAsHole, List.isSuffixOf_iff_suffix, String.toList_append]
      exact (by decide : "<hole>".toList <:+ ": <hole>".toList).trans (List.suffix_append _ _)
    simp [hEnd]

theorem lines_filter {text : String} {listed : List String} (h : Lists text listed) :
    (Text.lines text).filter (fun line => !endsAsHole line) = listed := by
  obtain ⟨lines, rfl, hLines, rfl⟩ := h
  rw [lines_unlines hLines]

end Text.Lists

namespace Node

variable {depth : Nat} {name : FieldName}

theorem lists_outlineSlots {slots : List (Option Node)} {listed : Node → List String}
    (h : ∀ child ∈ slots.filterMap id,
      Lists (outlineAt depth (name.text ++ ": ") child) (listed child)) :
    Lists (outlineSlots depth name slots) ((slots.filterMap id).flatMap listed) := by
  induction slots with
  | nil => exact .nil
  | cons slot rest ih =>
      cases slot with
      | none =>
          have hIndent : '\n' ∉ (indent depth ++ name.text).toList :=
            ((inline_indent depth).append (inline_field name)).1
          rw [outlineSlots]
          exact (Lists.hole hIndent).append (ih h)
      | some child =>
          obtain ⟨hChild, hRest⟩ := List.forall_mem_cons.mp h
          rw [outlineSlots]
          exact hChild.append (ih hRest)

theorem lists_outlineFields {fields : List (FieldName × FieldValue)}
    {listed : FieldName × Node → List String}
    (h : ∀ field ∈ Field.namedIn fields,
      Lists (outlineAt depth (field.1.text ++ ": ") field.2) (listed field)) :
    Lists (outlineFields depth fields) ((Field.namedIn fields).flatMap listed) := by
  induction fields with
  | nil => exact .nil
  | cons field rest ih =>
      obtain ⟨name, value⟩ := field
      have hSplit : Field.namedIn ((name, value) :: rest) =
          (value.filled.map fun child => (name, child)) ++ Field.namedIn rest := rfl
      rw [hSplit] at h ⊢
      obtain ⟨hValue, hRest⟩ := List.forall_mem_append.mp h
      have hTail := ih hRest
      rw [List.flatMap_append, List.flatMap_map]
      match value with
      | .slot (some child) =>
          rw [outlineFields, Field.filled_slot, Option.toList_some, List.flatMap_singleton]
          exact (hValue (name, child) (by simp)).append hTail
      | .slots children =>
          rw [outlineFields, Field.filled_slots]
          refine (lists_outlineSlots fun child hChild => ?_).append hTail
          exact hValue (name, child) (List.mem_map_of_mem hChild)
      | .slot none | .text _ | .flag _ | .number _ | .null => exact hTail

/-- The outline of a tree lists the lines of its nodes. -/
theorem lists_outlineAt {label : String} (hLabel : Inline label) (node : Node) :
    Lists (outlineAt depth label node) (node.linesAt depth label) := by
  induction node using induction generalizing depth label with
  | step node ih =>
      have hFields : Lists (outlineFields (depth + 1) node.fields)
          (node.namedChildren.flatMap fun field =>
            field.2.linesAt (depth + 1) (field.1.text ++ ": ")) := by
        rw [namedChildren_eq_namedIn]
        refine lists_outlineFields fun field hField => ih field.2 ?_ ?_
        · rw [children, namedChildren_eq_namedIn]
          exact List.mem_map_of_mem hField
        · exact (inline_field field.1).append ⟨by decide, by decide⟩
      have hLine := Lists.line ((inline_indent depth).append (inline_headline hLabel node))
      rw [linesAt_eq]
      obtain ⟨id, kind, span, fields⟩ := node
      rw [outlineAt]
      exact hLine.append hFields

end Node

namespace Place

/-- What stands in front of a node in an outline: the name of the field that holds it. -/
def lead (place : Place) : String := (place.field?.map fun field => field.text ++ ": ").getD ""

/-- The line of a place in the outline of its tree. -/
def line (place : Place) : String :=
  String.ofList (List.replicate (2 * place.ancestors.length) ' ') ++
    Node.headline place.lead place.node

theorem line_eq (place : Place) :
    place.line = Node.indent place.depth ++ Node.headline place.lead place.node := by
  rw [line, length_ancestors, Node.indent]

theorem flatMap_below (place : Place) (rank : Nat) (rest : List (FieldName × Node)) :
    ((below place rank rest).flatMap fun child => child.node.linesAt child.depth child.lead) =
      rest.flatMap fun field =>
        field.2.linesAt (place.depth + 1) (field.1.text ++ ": ") := by
  induction rest generalizing rank with
  | nil => rfl
  | cons field rest ih =>
      rw [below, List.flatMap_cons, List.flatMap_cons, ih]
      rfl

/-- The lines of a tree are those of its places, in the order of a walk. -/
theorem map_line_descendants (place : Place) :
    place.descendants.map line = place.node.linesAt place.depth place.lead := by
  induction place using Place.induction with
  | step place ih =>
      rw [descendants_eq, List.map_cons, List.map_flatMap, List.flatMap_congr ih, children,
        flatMap_below, Node.linesAt_eq, line_eq]

end Place

/-- The lines of an outline that are not those of holes are the lines of the nodes, in the order of
a walk that leaves nothing out. -/
theorem Node.lines_outline (program : Node) :
    (Text.lines program.outline).filter (fun line => !Text.endsAsHole line) =
      ((Place.root program).walk fun _ => true).map Place.line := by
  have hLists : Lists program.outline (program.linesAt 0 "") :=
    lists_outlineAt ⟨by simp, by simp⟩ program
  rw [hLists.lines_filter]
  exact ((Place.root program).map_line_descendants).symm

end

/-- The numbers of the nodes at which visits of one phase happen. -/
def Visit.idsIn (phase : Phase) (visits : List Visit) : List NodeId :=
  (visits.filter fun visit => visit.phase = phase).map fun visit => visit.place.node.id

open Classical in
/-- The traversals of the tree of a program agree with the events of the recursive definition. -/
structure Parsed.TraversalsAgree (parsed : Parsed) : Prop where
  visits_eq : (Place.root parsed.program).visits = (Place.root parsed.program).events
  /-- Every node is entered once and left once. -/
  entered : (Visit.idsIn .enter (Place.root parsed.program).visits).Perm
    (List.range parsed.ast.size)
  exited : (Visit.idsIn .exit (Place.root parsed.program).visits).Perm
    (List.range parsed.ast.size)
  /-- A node is left after all events of what is below it. -/
  below_before_exit : ∀ (i j : Nat) place visit,
    (Place.root parsed.program).visits[i]? = some ⟨.exit, place⟩ →
      (Place.root parsed.program).visits[j]? = some visit →
        visit.place ∈ place.descendants → j ≤ i
  /-- A node is left before any event of a sibling behind it, or of what is below that. -/
  exit_before_sibling : ∀ parent ∈ (Place.root parsed.program).descendants,
    ∀ first second : Place, [first, second].Sublist parent.children →
      ∀ (i j : Nat) visit, (Place.root parsed.program).visits[i]? = some ⟨.exit, first⟩ →
        (Place.root parsed.program).visits[j]? = some visit →
          visit.place ∈ second.descendants → i < j
  /-- A walk from a node visits what is entered from there on, but for what is properly below a
  node that it does not descend from. -/
  walk_eq : ∀ start ∈ (Place.root parsed.program).descendants, ∀ descend : Place → Bool,
    start.walk descend =
      ((start.events.filter fun visit => visit.phase = .enter).map Visit.place).filter fun place =>
        ∀ above ∈ start.descendants, above ∈ place.ancestors → descend above = true
  /-- The outline has a line for every node that a walk visits, indented twice as far as the node
  has ancestors, and lines for holes. -/
  lines_eq : (Text.lines parsed.program.outline).filter (fun line => !Text.endsAsHole line) =
    ((Place.root parsed.program).walk fun _ => true).map Place.line

namespace Ast.Holds

variable {ast : Ast} {program : Node}

theorem perm_ids_descendants (h : ast.Holds program) (hTree : ast.IsTree) :
    ((Place.root program).descendants.map fun place => place.node.id).Perm
      (List.range ast.size) := by
  have hNodes : (Place.root program).descendants.map Place.node = program.subtree :=
    (Place.root program).map_node_descendants
  have hIds := h.perm_ids hTree
  rwa [← hNodes, List.map_map] at hIds

theorem nodup_descendants (h : ast.Holds program) (hTree : ast.IsTree) :
    (Place.root program).descendants.Nodup :=
  List.Nodup.of_map _ ((h.perm_ids_descendants hTree).nodup_iff.mpr List.nodup_range)

/-- What is visited in one phase is every node once, whichever phase it is. -/
theorem perm_idsIn (h : ast.Holds program) (hTree : ast.IsTree) (phase : Phase) :
    (Visit.idsIn phase (Place.root program).visits).Perm (List.range ast.size) := by
  refine List.Perm.trans ?_ (h.perm_ids_descendants hTree)
  rw [Place.visits_eq_events, Visit.idsIn]
  refine ((((Place.root program).perm_events).filter _).map _).trans (List.Perm.of_eq ?_)
  rw [List.filter_append, List.map_append, Place.enters, Place.exits, List.filter_map,
    List.filter_map]
  cases phase <;> simp [Function.comp_def]

end Ast.Holds

/-- The traversals of every program agree. -/
theorem parse_traversalsAgree {source : String} {options : ParseOptions} {parsed : Parsed}
    (h : parse source options = .ok parsed) : parsed.TraversalsAgree := by
  obtain ⟨-, arena, hStores, hAst⟩ := lies_of_parse h
  have hTree : parsed.ast.IsTree := hAst ▸ hStores.isTree
  have hHolds : parsed.ast.Holds parsed.program := hAst ▸ hStores.holds
  have hNodup := hHolds.nodup_descendants hTree
  have hVisits := (Place.root parsed.program).visits_eq_events
  exact
    { visits_eq := hVisits
      entered := hHolds.perm_idsIn hTree .enter
      exited := hHolds.perm_idsIn hTree .exit
      below_before_exit := by
        intro i j place visit hi hj hBelow
        rw [hVisits] at hi hj
        have hPlace := Place.mem_events.mp (List.mem_of_getElem? hi)
        exact Place.le_of_exit hNodup hPlace hi hj hBelow
      exit_before_sibling := by
        intro parent hParent first second hSiblings i j visit hi hj hBelow
        rw [hVisits] at hi hj
        exact Place.lt_of_exit hNodup hParent hSiblings hi hj hBelow
      walk_eq := fun start _ descend => Place.walk_eq_enters descend start
      lines_eq := Node.lines_outline parsed.program }

/-- A statement without an initializer, and an array with a hole in it. -/
theorem parse_traversalsAgree_hole :
    ∃ parsed, parse "var a; [a, , \"\\n<hole>\"]" default = .ok parsed ∧
      parsed.TraversalsAgree := by
  have hOk : (parse "var a; [a, , \"\\n<hole>\"]" default).isOk = true := by decide +kernel
  obtain ⟨parsed, hParse⟩ := exists_eq_ok_of_isOk hOk
  exact ⟨parsed, hParse, parse_traversalsAgree hParse⟩

end EcmaLint
