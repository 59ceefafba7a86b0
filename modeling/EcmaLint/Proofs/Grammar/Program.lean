import EcmaLint.Grammar.Program
import EcmaLint.Proofs.Grammar.Statement
import EcmaLint.Proofs.Progress.Program
import EcmaLint.Proofs.Tree.Linked

/-! What whole programs read. The levels of the grammar are tied together by induction: each of
them reads nodes if the one below it does. The statements of a program take all of its tokens,
and the arena of a program that was read holds its nodes and nothing else.

Precedence climbing. Each call that reads a term takes the operators that bind at least as
tightly as its minimum and leaves the next one to its caller, so every operation joins its operands
as the precedence table tells, and over a chain of operators there is no other tree. -/
namespace EcmaLint

section

open Production Node

/-- Nodes that lie over tokens one behind the other, with no token between two of them. -/
inductive Tiles : List Token → List Node → Prop
  | nil : Tiles [] []
  | append {taken more : List Token} {nodes : List Node} {node : Node} (front : Tiles taken nodes)
      (bounds : node.span.Bounds more) : Tiles (taken ++ more) (nodes ++ [node])

/-- Asking every node of a tiling for its tokens gives back all of them. -/
theorem Tiles.flatMap_tokensIn {source : SourceCode} {taken back : List Token} {nodes : List Node}
    (h : Tiles taken nodes) (hTokens : source.tokens = taken ++ back)
    (hOrder : Token.InOrder source.tokens) :
    (nodes.flatMap fun node => source.tokensIn node.span) = taken := by
  induction h generalizing back with
  | nil => rfl
  | append front hBounds ih =>
      have hNode := source.tokensIn_eq hTokens hOrder hBounds
      have hFront := ih (hTokens.trans (List.append_assoc _ _ _))
      rw [List.flatMap_append, List.flatMap_singleton, hNode, hFront]

/-- The nodes of a program follow its tokens. -/
structure SourceCode.FollowsTokens (source : SourceCode) : Prop where
  kind_eq : source.parsed.program.kind = .program
  /-- Every node below the program starts with its first token and ends with its last one. -/
  bounds : ∀ node ∈ source.parsed.program.children.flatMap Node.subtree, ∃ first last,
    source.firstToken? node.span = some first ∧ source.lastToken? node.span = some last ∧
      first.span.start = node.span.start ∧ last.span.stop = node.span.stop
  /-- Children lie inside their parent, in order and apart from each other. -/
  nests : ∀ node ∈ source.parsed.program.subtree, node.Nests
  /-- The statements of the program share out the tokens. -/
  body : ((source.parsed.program.list .body).flatMap fun statement =>
    source.tokensIn statement.span) = source.tokens

/-- What is known of a program that was read off some tokens. -/
structure Node.LiesOver (program : Node) (tokens : List Token) : Prop where
  inOrder : Token.InOrder tokens
  kind_eq : program.kind = .program
  nests : program.Nests
  aligned : ∀ node ∈ forest program.children, node.Aligned tokens
  tiles : Tiles tokens (program.list .body)

theorem SourceCode.followsTokens_of_liesOver {source : SourceCode}
    (h : source.parsed.program.LiesOver source.tokens) : source.FollowsTokens where
  kind_eq := h.kind_eq
  bounds node hNode := by
    have hAligned := h.aligned node hNode
    obtain ⟨front, middle, back, hTokens, hBounds⟩ :=
      h.inOrder.exists_bounds hAligned.start_lt_stop hAligned.start_mem hAligned.stop_mem
    have hMiddle := tokensIn_eq hTokens h.inOrder hBounds
    obtain ⟨⟨first, hFirst, hStart⟩, last, hLast, hStop⟩ := hBounds
    refine ⟨first, last, ?_, ?_, hStart, hStop⟩
    · rw [firstToken?, hMiddle, hFirst]
    · rw [lastToken?, hMiddle, hLast]
  nests node hNode := by
    rw [subtree_eq] at hNode
    rcases List.mem_cons.mp hNode with rfl | hBelow
    · exact h.nests
    · exact (h.aligned node hBelow).toNests
  body := h.tiles.flatMap_tokensIn (List.append_nil _).symm h.inOrder

namespace Grammar

/-- Every level of the grammar reads nodes. -/
theorem readsNodes_upTo (n : Nat) : (upTo n).ReadsNodes := by
  induction n with
  | zero =>
      exact
        { statement := fun _ _ _ => .unexpected
          expressions :=
            { assignment := fun _ _ _ => .unexpected
              binary := fun _ _ _ _ => .unexpected
              unary := fun _ _ _ => .unexpected
              leftHandSide := fun _ _ _ => .unexpected
              newExpression := fun _ _ _ => .unexpected }
          bindingTarget := fun _ _ _ => .unexpected
          operands :=
            { binary := fun _ _ _ _ => .unexpected
              unary := fun _ _ _ => .unexpected
              leftHandSide := fun _ _ _ => .unexpected
              newExpression := fun _ _ _ => .unexpected } }
  | succ n ih =>
      exact
        { statement := ih.statementBody.nested
          expressions :=
            { assignment := ih.assignmentBody.nested
              binary := fun minimum => (ih.binaryBody minimum).1
              unary := ih.unaryBody
              leftHandSide := ih.leftHandSideBody
              newExpression := ih.newExpressionBody }
          bindingTarget := ih.bindingTargetBody
          operands :=
            { binary := fun minimum => (ih.binaryBody minimum).2
              unary := readsOperand_unaryBody ih
              leftHandSide := readsOperand_leftHandSideBody ih
              newExpression := fun _ _ _ => isOperand_of_other readsOther_newExpressionBody } }

/-- The statements read between two cursors, which take every token in between. -/
structure ReadsBody (before : Cursor) (body : List Node) (after : Cursor) : Prop where
  takes : ∃ taken, Takes before taken body after ∧ Tiles taken body
  stores : Stores before.arena body after.arena

theorem ReadsBody.append {before between after : Cursor} {body : List Node} {statement : Node}
    (h : ReadsBody before body between) (hStatement : Reads true between [statement] after)
    (hSpans : statement.Spans between after) : ReadsBody before (body ++ [statement]) after := by
  obtain ⟨⟨taken, hTakes, hTiles⟩, hStores⟩ := h
  obtain ⟨⟨more, hMore, hTakesMore⟩, hStoresMore⟩ := hStatement
  obtain ⟨hBounds, hEnd⟩ := hTakesMore.bounds (hMore rfl) hSpans.1
  rw [← hEnd, ← hSpans.2] at hBounds
  exact ⟨⟨_, hTakes.trans hTakesMore, hTiles.append hBounds⟩, hStores.trans hStoresMore⟩

namespace ReadsNodes

variable {G : Grammar Production} {context : Context} {cursor : Cursor}

theorem programBody (hG : G.ReadsNodes) (hOrder : Token.InOrder cursor.tokens) :
    Yields G.programBody context cursor fun body later =>
      ReadsBody cursor body later ∧ later.tokens = [] := by
  refine .iterate (ReadsBody cursor)
    (fun body later => ReadsBody cursor body later ∧ later.tokens = [])
    ⟨⟨[], Takes.refl hOrder, .nil⟩, Stores.refl _⟩ fun seen later h => .get_bind ?_
  refine .ite (fun hEnd => .pure ⟨h, ?_⟩) fun _ => ?_
  · rw [Cursor.tokens, List.isEmpty_iff.mp hEnd, List.map_nil]
  obtain ⟨taken, hTakes, -⟩ := h.takes
  refine (hG.statement context later hTakes.inOrder_after).bind fun statement after hStatement => ?_
  refine .get_bind ?_
  split
  · exact .fault
  · exact .pure (h.append hStatement.1 hStatement.2)

theorem program (hG : G.ReadsNodes) {tokens : List Token} (hTokens : cursor.tokens = tokens)
    (hOrder : Token.InOrder tokens) (hSize : ∀ token ∈ tokens, token.span.stop ≤ context.size) :
    Yields G.program context cursor fun program later =>
      program.LiesOver tokens ∧ Stores cursor.arena [program] later.arena := by
  refine (hG.programBody (hTokens ▸ hOrder)).bind fun body later h => .read_bind (.store ?_)
  rintro program hProgram
  obtain ⟨⟨⟨taken, hTakes, hTiles⟩, hStores⟩, hEnd⟩ := h
  obtain rfl : tokens = taken := by
    rw [← hTokens, hTakes.tokens_eq, hEnd, List.append_nil]
  have hChildren : program.children = body := by
    rw [children_eq_filledIn, hProgram, Node.fields]
    simp
  have hBody : program.list .body = body := by
    rw [hProgram]
    simp [Node.list, elements, field?, Node.fields, Field.nodes]
  have hInside : ∀ child ∈ body,
      program.span.start ≤ child.span.start ∧ child.span.stop ≤ program.span.stop := by
    intro child hChild
    obtain ⟨token, hToken, hStop⟩ := (hTakes.aligned child (mem_forest_of_mem hChild)).stop_mem
    rw [hProgram, Node.span, ← hStop]
    exact ⟨Nat.zero_le _, hSize token hToken⟩
  refine ⟨⟨hOrder, by rw [hProgram, Node.kind], ?_, hChildren ▸ hTakes.aligned,
    hBody ▸ hTiles⟩, hStores.push (by rw [hProgram, Node.id]) (hChildren ▸ List.Perm.refl _)⟩
  exact .of_perm (hChildren ▸ List.Perm.refl _) (fun _ => hChildren)
    (fun child hChild => (hTakes.aligned child (mem_forest_of_mem hChild)).start_lt_stop)
    hTakes.inTurn hInside

end ReadsNodes
end Grammar

/-- What tokens are read as lies over them and fills its arena. -/
theorem lies_of_parseTokens {source : String} {year : Nat} {tokens : List Token} {program : Node}
    {ast : Ast} (h : parseTokens source year tokens = .ok (program, ast))
    (hOrder : Token.InOrder tokens)
    (hSize : ∀ token ∈ tokens, token.span.stop ≤ Text.byteLength source.toList) :
    program.LiesOver tokens ∧
      ∃ arena, Stores #[] [program] arena ∧ ast = .link arena program.id := by
  rw [parseTokens_eq] at h
  obtain ⟨⟨root, last⟩, hRun, hResult⟩ := exists_of_bind_eq_ok h
  cases hResult
  have hTokens := map_token_ofTokens source.toList none tokens
  obtain ⟨hLies, hStores⟩ := (Grammar.readsNodes_upTo _).program (by exact hTokens) hOrder
    (by exact hSize) program last hRun
  exact ⟨hLies, last.arena, hStores, rfl⟩

/-- What a source is read as lies over its tokens and fills its arena. -/
theorem lies_of_parse {source : String} {options : ParseOptions} {parsed : Parsed}
    (h : parse source options = .ok parsed) : parsed.program.LiesOver parsed.tokens ∧
      ∃ arena, Stores #[] [parsed.program] arena ∧ parsed.ast = .link arena parsed.program.id := by
  rw [parse] at h
  obtain ⟨out, hTokenize, hParse⟩ := exists_of_bind_eq_ok h
  obtain ⟨tree, hTree, hResult⟩ := exists_of_bind_eq_ok hParse
  cases hResult
  obtain ⟨hOrder, hSize⟩ := inOrder_of_tokenize hTokenize
  exact lies_of_parseTokens hTree hOrder hSize

/-- The arena of every program is a tree, and it holds the nodes of the program. -/
theorem parse_isTree {source : String} {options : ParseOptions} {parsed : Parsed}
    (h : parse source options = .ok parsed) :
    parsed.ast.IsTree ∧ parsed.ast.Holds parsed.program := by
  obtain ⟨-, arena, hStores, hAst⟩ := lies_of_parse h
  rw [hAst]
  exact ⟨hStores.isTree, hStores.holds⟩

/-- In `({ a } = b)` the name is there twice, and the object was turned into a pattern. -/
theorem parse_isTree_pattern :
    ∃ parsed, parse "(\x7b a \x7d = b)" default = .ok parsed ∧
      parsed.ast.IsTree ∧ parsed.ast.Holds parsed.program := by
  have hOk : (parse "(\x7b a \x7d = b)" default).isOk = true := by decide +kernel
  obtain ⟨parsed, hParse⟩ := exists_eq_ok_of_isOk hOk
  exact ⟨parsed, hParse, parse_isTree hParse⟩

/-- The nodes of every program follow its tokens. -/
theorem parse_followsTokens {source : String} {options : ParseOptions} {parsed : Parsed}
    (h : parse source options = .ok parsed) :
    SourceCode.FollowsTokens { text := source, parsed } :=
  SourceCode.followsTokens_of_liesOver (lies_of_parse h).1

/-- A template with an expression between its pieces, and a property whose name is its value. -/
theorem parse_followsTokens_template : ∃ parsed,
    parse "x = \x7b y \x7d, `a$\x7bb\x7dc`" default = .ok parsed ∧
      SourceCode.FollowsTokens { text := "x = \x7b y \x7d, `a$\x7bb\x7dc`", parsed } := by
  have hOk : (parse "x = \x7b y \x7d, `a$\x7bb\x7dc`" default).isOk = true := by decide +kernel
  obtain ⟨parsed, hParse⟩ := exists_eq_ok_of_isOk hOk
  exact ⟨parsed, hParse, parse_followsTokens hParse⟩

end

variable {text : String} {options : ParseOptions} {parsed : Parsed}

/-- Every node of a program joins its operands as its operator tells. -/
theorem groups_of_parse (h : parse text options = .ok parsed) :
    ∀ node ∈ parsed.program.subtree, node.Groups parsed.tokens := by
  intro node hNode
  obtain ⟨hLies, -⟩ := lies_of_parse h
  rw [Node.subtree_eq] at hNode
  rcases List.mem_cons.mp hNode with rfl | hBelow
  · exact Node.groups_of_not_isOperation (by rw [hLies.kind_eq]; rfl)
  · exact (hLies.aligned node hBelow).groups

/-- Every operation joins two operands around its operator, and what stands on its sides without
parentheses may stand there. The operators that no parentheses part are grouped, and there is no
other way to group them. -/
theorem parse_groupsOperators (h : parse text options = .ok parsed) :
    ∀ node ∈ parsed.program.subtree, node.kind.isOperation = true →
      (∃ operator left right, node.Joins parsed.tokens operator left right) ∧
        node.operatorTree.Grouped ∧ ∀ other : OperatorTree, other.Grouped →
          other.chain = node.operatorTree.chain → other = node.operatorTree := by
  intro node hNode hKind
  have hGrouped : node.operatorTree.Grouped :=
    Node.grouped_operatorTree node fun below hBelow =>
      groups_of_parse h below (Node.mem_subtree_trans hNode hBelow)
  exact ⟨groups_of_parse h node hNode hKind, hGrouped,
    fun other hOther hChain => hOther.eq_of_chain_eq hGrouped hChain⟩

/-- A chain that groups to the left around one that groups to the right, and a sum in
parentheses. -/
theorem parse_groupsOperators_power : ∃ parsed node,
    parse "a - b * c ** d ** e - (f + g)" default = .ok parsed ∧
      node ∈ parsed.program.subtree ∧ node.kind.isOperation = true ∧
      (∃ operator left right, node.Joins parsed.tokens operator left right) ∧
        node.operatorTree.Grouped ∧ ∀ other : OperatorTree, other.Grouped →
          other.chain = node.operatorTree.chain → other = node.operatorTree := by
  have hKinds : ((parse "a - b * c ** d ** e - (f + g)" default).toOption.bind fun parsed =>
      (parsed.program.list .body).head?.bind fun statement =>
        (statement.child? .expression).map Node.kind) = some .binaryExpression := by
    decide +kernel
  cases hParse : parse "a - b * c ** d ** e - (f + g)" default with
  | error cause =>
      rw [hParse] at hKinds
      cases hKinds
  | ok parsed =>
      rw [hParse, Except.toOption, Option.bind_some] at hKinds
      obtain ⟨statement, hStatement, hExpression⟩ := Option.bind_eq_some_iff.mp hKinds
      obtain ⟨node, hNode, hKind⟩ := Option.map_eq_some_iff.mp hExpression
      have hMem : node ∈ parsed.program.subtree :=
        Node.mem_subtree_trans
          (Node.mem_subtree_of_mem_children
            (Node.mem_children_of_mem_list (List.mem_of_head? hStatement)))
          (Node.mem_subtree_of_mem_children (Node.mem_children_of_child? hNode))
      have hOperation : node.kind.isOperation = true := by
        rw [hKind]
        rfl
      exact ⟨parsed, node, rfl, hMem, hOperation,
        parse_groupsOperators hParse node hMem hOperation⟩

end EcmaLint
