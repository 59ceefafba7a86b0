import EcmaLint.Grammar.Program
import EcmaLint.Proofs.Progress.Statement

/-! How far whole programs get. A production on one level of the grammar comes back to the level
below it, either behind a token or on its way from statements down to operands, and `Symbol.rank`
counts what is left of that way. So once there are enough levels for the tokens that are left, what
is read does not depend on what stands below the lowest of them: nothing comes down to it. And
the parser reads a program as the productions do that are handed their context, so that from there
on it is enough to know what those do. -/
namespace EcmaLint

open Production Node

/-- How many levels a part takes at most before a token is read. -/
def Symbol.rank : Symbol → Nat
  | .newExpression => 1
  | .bindingTarget => 1
  | .leftHandSide => 2
  | .unary => 3
  | .binary _ => 4
  | .assignment => 5
  | .statement => 6

namespace Symbol

theorem rank_pos (symbol : Symbol) : 0 < symbol.rank := by
  cases symbol <;> simp [rank]

theorem rank_le (symbol : Symbol) : symbol.rank ≤ 6 := by
  cases symbol <;> simp [rank]

end Symbol

namespace Grammar

variable {place : Nat → Prop} {limit : Nat} {G : Grammar Production} {H : Grammar Parser}

section

variable {m : Type → Type} [Monad m] [MonadReaderOf Context m] [MonadStateOf Cursor m]
  [MonadExceptOf ParseError m] [Scoped m]

/-- The grammar that comes back to another one. -/
def next (G : Grammar m) : Grammar m where
  statement := Scoped.delay fun _ => nested (statementBody G)
  assignment := Scoped.delay fun _ => nested (assignmentBody G)
  binary minimum := Scoped.delay fun _ => binaryBody G minimum
  unary := Scoped.delay fun _ => unaryBody G
  leftHandSide := Scoped.delay fun _ => leftHandSideBody G
  newExpression := Scoped.delay fun _ => newExpressionBody G
  bindingTarget := Scoped.delay fun _ => bindingTargetBody G

/-- A number of levels of the grammar on top of any grammar. -/
def above (base : Grammar m) : Nat → Grammar m
  | 0 => base
  | n + 1 => (above base n).next

theorem above_upTo_zero (n : Nat) : above (upTo 0 : Grammar m) n = upTo n := by
  induction n with
  | zero => rfl
  | succ n ih =>
      rw [above, ih]
      rfl

end

/-- One level of the grammar reads a part if the level below reads every part behind a token, and
those further down the way before it. -/
theorem Alike.next (hBelow : Alike place limit G H) (symbol : Symbol)
    (hHere : ∀ lower, lower.rank < symbol.rank →
      ProceedsNode place (limit + 1) (G.read lower) (H.read lower)) :
    ProceedsNode place (limit + 1) (G.next.read symbol) (H.next.read symbol) := by
  cases symbol with
  | statement => exact (hBelow.statementBody (hHere .assignment (by decide))).nested
  | assignment => exact (hBelow.assignmentBody (hHere (.binary 0) (by decide))).nested
  | binary minimum => exact hBelow.binaryBody (hHere .unary (by simp [Symbol.rank])) minimum
  | unary => exact hBelow.unaryBody (hHere .leftHandSide (by decide))
  | leftHandSide => exact hBelow.leftHandSideBody (hHere .newExpression (by decide))
  | newExpression => exact hBelow.newExpressionBody
  | bindingTarget => exact hBelow.bindingTargetBody

/-- Every level of the grammar gets on, however many tokens are left. -/
theorem alike_upTo (n : Nat) : Alike place limit (upTo n) (upTo n) := by
  induction n generalizing limit with
  | zero => exact fun symbol => by cases symbol <;> exact Proceeds.unexpected
  | succ n ih =>
      intro symbol
      cases limit with
      | zero => exact fun _ _ _ hLeft => absurd hLeft (Nat.not_lt_zero _)
      | succ limit => exact ih.next symbol fun lower _ => ih lower

/-- With enough levels for the tokens that are left a part is read in the same way, whatever the
levels stand on. -/
theorem proceedsNode_above {base : Grammar Production} {other : Grammar Parser} {n m : Nat}
    {symbol : Symbol}
    (hn : 6 * limit + symbol.rank ≤ n + 6) (hm : 6 * limit + symbol.rank ≤ m + 6) :
    ProceedsNode place limit ((above base n).read symbol) ((above other m).read symbol) := by
  have hPos := symbol.rank_pos
  -- every level down costs a token or a rank, and six levels are paid for each token
  induction n generalizing m limit symbol with
  | zero =>
      intro context cursor _ hLeft
      omega
  | succ n ih =>
      cases limit with
      | zero => exact fun _ _ _ hLeft => absurd hLeft (Nat.not_lt_zero _)
      | succ limit =>
          obtain ⟨m, rfl⟩ : ∃ below, m = below + 1 := ⟨m - 1, by omega⟩
          have hBelow : Alike place limit (above base n) (above other m) := by
            intro lower
            have hLower := lower.rank_le
            exact ih (by omega) (by omega) lower.rank_pos
          exact hBelow.next symbol fun lower hLower => ih (by omega) (by omega) lower.rank_pos

theorem rounds_programTurn (hStatement : ProceedsNode place limit G.statement H.statement) :
    Rounds place limit false (programTurn G) (programTurn H) (fun seen => seen)
      fun seen => seen := by
  intro seen context cursor hLies hLeft hSeen
  have h := Advances.refl hLies hLeft hSeen
  refine .get_bind (.ite (fun _ => .pure h) fun _ => ?_)
  refine hStatement.bindAfter h h.here fun statement later h => .get_bind ?_
  split
  case h_1 offset hOffset =>
    exact .fault (h.liesIn.shorthandDefaults offset (List.mem_of_head? hOffset))
  case h_2 => exact .pure h

theorem proceeds_program (hStatement : ProceedsNode place limit G.statement H.statement)
    (hZero : place 0) :
    Proceeds place limit (fun _ => false) G.program H.program fun node => [node] := by
  intro context cursor hLies hLeft
  have h := Advances.refl hLies hLeft Starts.nil
  refine ((rounds_programTurn hStatement).iterate [] Starts.nil).bindAfter h h.here
    fun body later h => .read_bind ?_
  have hBody : Starts place (Field.filledIn [(FieldName.body, .nodes body),
      (.sourceType, .text "script")]) := h.starts.subset (by simp)
  exact (proceeds_store hZero hBody).onlyAfter h h.here

end Grammar

/-- Read a program with a grammar. -/
def parseWith (G : Grammar Parser) (source : String) (options : ParseOptions) :
    Except ParseError Parsed := do
  let { tokens, comments } ← tokenize source
  let (program, ast) ← parseTokensWith G source options.year tokens
  return { program, ast, tokens, comments }

theorem map_token_ofTokens (source : List Char) (previous : Option Nat) (tokens : List Token) :
    (Lexeme.ofTokens source previous tokens).map Lexeme.token = tokens := by
  induction tokens generalizing previous with
  | nil => rfl
  | cons token rest ih => rw [Lexeme.ofTokens, List.map_cons, ih]

theorem length_ofTokens (source : List Char) (previous : Option Nat) (tokens : List Token) :
    (Lexeme.ofTokens source previous tokens).length = tokens.length := by
  rw [← map_token_ofTokens source previous tokens, List.length_map, map_token_ofTokens]

/-- With enough levels for its tokens a parser reads a program in the same way, whatever the levels
stand on, namely as it is read by productions that are handed their context; and if it is refused
then at a place. -/
theorem parseTokensWith_follows {place : Nat → Prop} {source : String} {tokens : List Token}
    {n m : Nat} (base : Grammar Production) (other : Grammar Parser) (year : Nat) (hZero : place 0)
    (hSize : place (Text.byteLength source.toList))
    (hTokens : ∀ token ∈ tokens, place token.span.start ∧ place token.span.stop)
    (hn : Grammar.levels tokens.length ≤ n) (hm : Grammar.levels tokens.length ≤ m) :
    parseTokensWith (other.above m) source year tokens = (do
      let { context, cursor } := ParserState.start source year tokens
      let (program, later) ← (base.above n).program context cursor
      return (program, .link later.arena program.id) : Except ParseError (Node × Ast)) ∧
      Lands place (fun _ => True) (parseTokensWith (other.above m) source year tokens) := by
  have hLies : (ParserState.start source year tokens).cursor.LiesIn place
      (Text.byteLength source.toList) := by
    refine ⟨hSize, fun lexeme hLexeme => hTokens _ ?_, hZero, by simp [ParserState.start]⟩
    rw [← map_token_ofTokens source.toList none tokens]
    exact List.mem_map_of_mem hLexeme
  have hStatement : ProceedsNode place (tokens.length + 1) ((base.above n).read .statement)
      ((other.above m).read .statement) := by
    rw [Grammar.levels] at hn hm
    exact Grammar.proceedsNode_above (by rw [Symbol.rank]; omega) (by rw [Symbol.rank]; omega)
  have hLeft : (ParserState.start source year tokens).cursor.rest.length < tokens.length + 1 :=
    Nat.lt_succ_of_le (length_ofTokens _ _ _).le
  obtain ⟨hAgrees, hLands⟩ := Grammar.proceeds_program hStatement hZero
    (ParserState.start source year tokens).context _ hLies hLeft
  have hSame : parseTokensWith (other.above m) source year tokens = _ :=
    (congrArg (· >>= _) hAgrees.outcome_eq).trans (bind_map_left _ _ _)
  refine ⟨hSame, ?_⟩
  rw [hSame]
  exact hLands.bind fun _ _ => trivial

/-- The parser reads a program as it is read by productions that are handed their context. -/
theorem parseTokens_eq (source : String) (year : Nat) (tokens : List Token) :
    parseTokens source year tokens = (do
      let { context, cursor } := ParserState.start source year tokens
      let (program, later) ←
        (Grammar.upTo (Grammar.levels tokens.length) : Grammar Production).program context cursor
      return (program, .link later.arena program.id) : Except ParseError (Node × Ast)) := by
  have hSame := (@parseTokensWith_follows (fun _ => True) source tokens _ _ (Grammar.upTo 0)
    (Grammar.upTo 0) year trivial trivial (fun _ _ => ⟨trivial, trivial⟩) le_rfl le_rfl).1
  rw [Grammar.above_upTo_zero, Grammar.above_upTo_zero] at hSame
  exact hSame

end EcmaLint
