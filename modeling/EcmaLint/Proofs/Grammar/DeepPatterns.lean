import EcmaLint.Proofs.Grammar.Accepts

/-! Patterns are read without counting levels. A binding pattern comes back to itself and not to an
expression, so no level is entered with a pattern inside of a pattern, and a program may open any
number of brackets in front of a name that it binds. -/
namespace EcmaLint

open Production

namespace Sign

/-- The sign opens a parenthesis, a bracket or a brace. -/
def opens (sign : Sign) : Bool :=
  sign.kind == .punctuator && ["(", "[", "\x7b"].contains sign.text

/-- The sign closes a parenthesis, a bracket or a brace. -/
def closes (sign : Sign) : Bool :=
  sign.kind == .punctuator && [")", "]", "\x7d"].contains sign.text

end Sign

/-- The number of parentheses, brackets and braces that are open behind some tokens. -/
def Token.openBehind (tokens : List Token) : Nat :=
  tokens.countP (fun token => token.sign.opens) - tokens.countP fun token => token.sign.closes

namespace Grammar

/-- A name in some brackets, in front of other signs. -/
def bracketed : Nat → List Sign → List Sign
  | 0, left => ⟨.identifier, "a"⟩ :: left
  | n + 1, left => .mark "[" :: bracketed n (.mark "]" :: left)

theorem bracketed_eq (n : Nat) (left : List Sign) : bracketed n left =
    List.replicate n (.mark "[") ++ ⟨.identifier, "a"⟩ ::
      (List.replicate n (.mark "]") ++ left) := by
  induction n generalizing left with
  | zero => rfl
  | succ n ih =>
      rw [bracketed, ih, List.replicate_succ, List.replicate_succ', List.cons_append,
        List.append_assoc, List.singleton_append]

/-- What opens an element of an array pattern, and nothing else. -/
theorem exists_bracketed_eq_cons (n : Nat) (left : List Sign) : ∃ sign signs,
    bracketed n left = sign :: signs ∧
      sign.is "]" = false ∧ sign.is "," = false ∧ sign.is "..." = false := by
  cases n with
  | zero => exact ⟨_, _, rfl, by decide⟩
  | succ n => exact ⟨_, _, rfl, by decide⟩

variable {context : Context} {left : List Sign}

theorem accepts_bindingElement {G : Grammar Production} {signs : List Sign} {text : String}
    (hText : (text == "=") = false)
    (h : Accepts G.bindingTarget context signs (.mark text :: left) fun _ => True) :
    Accepts (bindingElement G) context signs (.mark text :: left) fun _ => True := by
  refine Accepts.startOffset.bind fun _ _ => h.bind fun _ _ => .get_bind fun cursor hSees => ?_
  have hNone : cursor.atText "=" = false := (hSees.atText_cons "=").trans hText
  rw [hNone, if_neg Bool.false_ne_true]
  exact .pure trivial

/-- A pattern with one element is read if its element is. -/
theorem accepts_arrayPattern {G : Grammar Production} {sign : Sign} {signs : List Sign}
    (hSign : sign.is "]" = false ∧ sign.is "," = false ∧ sign.is "..." = false)
    (h : Accepts G.bindingTarget context (sign :: signs) (.mark "]" :: left) fun _ => True) :
    Accepts (arrayPattern G) context (.mark "[" :: sign :: signs) left fun _ => True := by
  obtain ⟨hClose, hComma, hPoints⟩ := hSign
  have hElement : ∀ seen, Accepts (arrayPatternTurn G seen) context (sign :: signs)
      (.mark "]" :: left) fun leadsTo => ∃ next, leadsTo = .again next := by
    intro seen
    refine .get_bind fun cursor hSees => ?_
    rw [hSees.atText_cons, hClose, if_neg Bool.false_ne_true]
    refine (Accepts.eat_of_not hComma).bind ?_
    rintro _ rfl
    rw [if_neg Bool.false_ne_true]
    refine .get_bind fun cursor hSees => ?_
    rw [hSees.atText_cons, hPoints, if_neg Bool.false_ne_true]
    refine (accepts_bindingElement (by decide) h).bind fun element _ => ?_
    refine .get_bind fun cursor hSees => ?_
    have hEnd : cursor.atText "]" = true := hSees.atText_cons "]"
    rw [if_pos hEnd]
    exact .pure ⟨_, rfl⟩
  have hEnd : ∀ seen, Accepts (arrayPatternTurn G seen) context (.mark "]" :: left)
      (.mark "]" :: left) fun leadsTo => ∃ result, leadsTo = .done result ∧ True := by
    intro seen
    refine .get_bind fun cursor hSees => ?_
    have hEnd : cursor.atText "]" = true := hSees.atText_cons "]"
    rw [hEnd, if_pos rfl]
    exact .pure ⟨seen, rfl, trivial⟩
  refine Accepts.startOffset.bind fun _ _ => (Accepts.expect (by decide)).bind fun _ _ => ?_
  have hElements := Accepts.iterate (.turns_again (hElement []) fun _ => .turns_done (hEnd _))
  refine hElements.bind fun _ _ => ?_
  exact (Accepts.expect (by decide)).bind fun _ _ => .finish

/-- The brackets around a name are read without entering a level. -/
theorem accepts_bindingTarget (hYear : 2015 ≤ context.year) {n levels : Nat} (h : n < levels)
    (left : List Sign) :
    Accepts (upTo levels).bindingTarget context (bracketed n left) left fun _ => True := by
  induction n generalizing levels left with
  | zero =>
      obtain ⟨levels, rfl⟩ := Nat.exists_eq_add_one_of_ne_zero (Nat.ne_of_gt h)
      change Accepts (bindingTargetBody (upTo levels)) context (bracketed 0 left) left _
      refine .get_bind fun cursor hSees => ?_
      have hArray : cursor.atText "[" = false := hSees.atText_cons "["
      have hObject : cursor.atText "\x7b" = false := hSees.atText_cons "\x7b"
      rw [hArray, hObject, if_neg Bool.false_ne_true, if_neg Bool.false_ne_true]
      exact .identifier
  | succ n ih =>
      obtain ⟨levels, rfl⟩ := Nat.exists_eq_add_one_of_ne_zero (Nat.ne_of_gt (Nat.zero_lt_of_lt h))
      have hInner := ih (Nat.lt_of_succ_lt_succ h) (.mark "]" :: left)
      have hSince : Feature.since .destructuring ≤ context.year := hYear
      obtain ⟨sign, signs, hSigns, hSign⟩ := exists_bracketed_eq_cons n (.mark "]" :: left)
      rw [hSigns] at hInner
      rw [bracketed, hSigns]
      change Accepts (bindingTargetBody (upTo levels)) context _ left _
      refine .get_bind fun cursor hSees => ?_
      have hArray : cursor.atText "[" = true := hSees.atText_cons "["
      rw [hArray, if_pos rfl]
      exact Accepts.startOffset.bind fun _ _ => (Accepts.require hSince).bind fun _ _ =>
        accepts_arrayPattern hSign hInner

/-- A pair of braces is a block. -/
theorem accepts_block {G : Grammar Production} :
    Accepts G.block context (.mark "\x7b" :: .mark "\x7d" :: left) left fun _ => True := by
  have hEnd : ∀ seen, Accepts (blockTurn G seen) context (.mark "\x7d" :: left)
      (.mark "\x7d" :: left) fun leadsTo => ∃ result, leadsTo = .done result ∧ True := by
    intro seen
    refine .get_bind fun cursor hSees => ?_
    have hClose : cursor.atText "\x7d" = true := hSees.atText_cons "\x7d"
    rw [hClose, if_pos rfl]
    exact .pure ⟨seen, rfl, trivial⟩
  refine Accepts.startOffset.bind fun _ _ => (Accepts.expect (by decide)).bind fun _ _ => ?_
  refine (Accepts.iterate (.turns_done (hEnd _))).bind fun _ _ => ?_
  exact Accepts.bump.bind fun _ _ => .finish

/-- The signs of a program that catches what a name in some brackets takes apart. -/
def catching (n : Nat) : List Sign :=
  ⟨.keyword, "try"⟩ :: .mark "\x7b" :: .mark "\x7d" :: ⟨.keyword, "catch"⟩ :: .mark "(" ::
    bracketed n [.mark ")", .mark "\x7b", .mark "\x7d"]

/-- All brackets are open in front of the name. -/
theorem exists_catching_eq_append (n : Nat) : ∃ back, catching n =
    (⟨.keyword, "try"⟩ :: .mark "\x7b" :: .mark "\x7d" :: ⟨.keyword, "catch"⟩ :: .mark "(" ::
      List.replicate n (.mark "[")) ++ ⟨.identifier, "a"⟩ :: back := by
  rw [catching, bracketed_eq]
  exact ⟨_, rfl⟩

theorem accepts_catchClause {G : Grammar Production} {signs : List Sign}
    (h : Accepts G.bindingTarget context signs [.mark ")", .mark "\x7b", .mark "\x7d"]
      fun _ => True) :
    Accepts (catchClause G) context (⟨.keyword, "catch"⟩ :: .mark "(" :: signs) []
      fun _ => True := by
  refine Accepts.startOffset.bind fun _ _ => Accepts.bump.bind fun _ _ => ?_
  refine (Accepts.eat (by decide)).bind ?_
  rintro _ rfl
  rw [if_pos rfl]
  refine h.bind fun param _ => (Accepts.expect (by decide)).bind fun _ _ => ?_
  exact (Accepts.pure trivial).bind fun _ (_ : True) => accepts_block.bind fun _ _ => .finish

theorem accepts_tryStatement {G : Grammar Production} {signs : List Sign}
    (h : Accepts (catchClause G) context (⟨.keyword, "catch"⟩ :: signs) [] fun _ => True) :
    Accepts (tryStatement G) context
      (⟨.keyword, "try"⟩ :: .mark "\x7b" :: .mark "\x7d" :: ⟨.keyword, "catch"⟩ :: signs) []
      fun _ => True := by
  refine Accepts.startOffset.bind fun _ _ => Accepts.bump.bind fun _ _ => ?_
  refine accepts_block.bind fun _ _ => .get_bind fun cursor hSees => ?_
  have hCatch : cursor.atText "catch" = true := hSees.atText_cons "catch"
  have hHandler : Accepts (some <$> catchClause G) context (⟨.keyword, "catch"⟩ :: signs) []
      fun handler => handler.isNone = false := .map (h.imp fun _ _ => rfl)
  rw [hCatch, if_pos rfl]
  refine hHandler.bind fun handler hSome => Accepts.eat_nil.bind ?_
  rintro _ rfl
  rw [if_neg Bool.false_ne_true]
  refine (Accepts.pure trivial).bind fun finalizer (_ : True) => ?_
  dsimp only
  rw [hSome, Bool.false_and, if_neg Bool.false_ne_true]
  exact .finish

theorem accepts_statement {levels n : Nat} (hYear : 2015 ≤ context.year)
    (hDepth : context.depth < maximumDepth) (h : n < levels) :
    Accepts (upTo (levels + 1)).statement context (catching n) [] fun _ => True := by
  refine .nested hDepth ?_
  refine .get_bind fun cursor hSees => ?_
  obtain ⟨lexeme, rest, hRest, hSign, -⟩ := hSees.exists_lexeme
  have hCurrent : cursor.current? = some lexeme.token := by
    rw [Cursor.current?, hRest]
    rfl
  have hKind : lexeme.token.kind = .keyword := congrArg Sign.kind hSign
  have hText : lexeme.token.text = "try" := congrArg Sign.text hSign
  simp only [hCurrent, hKind, hText]
  exact accepts_tryStatement (accepts_catchClause (accepts_bindingTarget (by exact hYear) h _))

theorem accepts_program {levels n : Nat} (hYear : 2015 ≤ context.year)
    (hDepth : context.depth < maximumDepth) (h : n < levels) :
    Accepts (upTo (levels + 1)).program context (catching n) [] fun _ => True := by
  have hFirst : Accepts ((upTo (levels + 1)).programTurn []) context (catching n) []
      fun leadsTo => ∃ next, leadsTo = .again next := by
    refine .get_bind fun cursor hSees => ?_
    have hMore : cursor.atEnd = false := hSees.atEnd_eq
    rw [hMore, if_neg Bool.false_ne_true]
    refine (accepts_statement hYear hDepth h).bind fun statement _ => ?_
    refine .get_bind fun cursor hSees => ?_
    rw [hSees.shorthandDefaults_eq]
    exact .pure ⟨_, rfl⟩
  have hEnd : ∀ seen, Accepts ((upTo (levels + 1)).programTurn seen) context [] []
      fun leadsTo => ∃ result, leadsTo = .done result ∧ True := by
    intro seen
    refine .get_bind fun cursor hSees => ?_
    rw [hSees.atEnd_eq]
    exact .pure ⟨seen, rfl, trivial⟩
  refine (Accepts.iterate (.turns_again hFirst fun _ => .turns_done (hEnd _))).bind fun _ _ => ?_
  exact .read_bind .store

end Grammar

namespace Sign.Lexes

open Lexer

theorem bracketed {left : List Sign} (hHalts : Halts (write left)) (h : Lexes [] left) (n : Nat) :
    Lexes [] (Grammar.bracketed n left) := by
  induction n generalizing left with
  | zero => exact h.word rfl (by decide) (fun _ => rfl) hHalts
  | succ n ih =>
      have hClose : Lexes [] (.mark "]" :: left) :=
        h.cons rfl fun _ => piece_single (by decide)
      have hHalts : Halts (write (.mark "]" :: left)) := by
        rintro _ ⟨⟩
        decide
      exact (ih hHalts hClose).cons rfl fun _ => piece_single (by decide)

theorem catching (n : Nat) : Lexes [] (Grammar.catching n) := by
  have hBody : Lexes [] [.mark "\x7b", .mark "\x7d"] :=
    Lexes.cons rfl (fun _ => piece_openBrace) (Lexes.cons rfl (fun _ => rfl) nil)
  have hClose : Lexes [] [.mark ")", .mark "\x7b", .mark "\x7d"] :=
    hBody.cons rfl fun _ => piece_single (by decide)
  have hTarget := hClose.bracketed (by rintro _ ⟨⟩; decide) n
  have hOpen : Lexes [] (.mark "(" :: _) := hTarget.cons rfl fun _ => piece_single (by decide)
  have hCatch : Lexes [] (⟨.keyword, "catch"⟩ :: _) :=
    hOpen.word rfl (by decide) (fun _ => rfl) (by rintro _ ⟨⟩; decide)
  have hBlock : Lexes [] (.mark "\x7b" :: .mark "\x7d" :: _) :=
    Lexes.cons rfl (fun _ => piece_openBrace) (Lexes.cons rfl (fun _ => rfl) hCatch)
  exact hBlock.word rfl (by decide) (fun _ => rfl) (by rintro _ ⟨⟩; decide)

end Sign.Lexes

/-- A program is accepted however many brackets are open at some token of it: patterns take apart
what is caught, and they are nested in each other without counting levels. -/
theorem exists_parse_openBehind (bound : Nat) {options : ParseOptions}
    (hYear : 2015 ≤ options.year) : ∃ source parsed, parse source options = .ok parsed ∧
      ∃ front token back, parsed.tokens = front ++ token :: back ∧
        bound < Token.openBehind front := by
  have hAccepts : ∀ context : Context, context.year = options.year → context.depth = 0 →
      Accepts (Grammar.upTo (Grammar.levels (Grammar.catching bound).length)).program context
        (Grammar.catching bound) [] fun _ => True := by
    intro context hSame hDepth
    have hLength : bound + 1 ≤ (Grammar.catching bound).length := by
      rw [Grammar.catching, Grammar.bracketed_eq]
      simp
      omega
    obtain ⟨levels, hLevels⟩ : ∃ levels,
        Grammar.levels (Grammar.catching bound).length = levels + 1 := ⟨_, rfl⟩
    rw [hLevels]
    rw [Grammar.levels] at hLevels
    exact Grammar.accepts_program (hSame ▸ hYear) (hDepth ▸ by decide) (by omega)
  obtain ⟨parsed, hParse, hTokens⟩ :=
    exists_parse_of_accepts (.catching bound) (by rintro ⟨⟩) hAccepts
  refine ⟨_, parsed, hParse, ?_⟩
  obtain ⟨later, hCatching⟩ := Grammar.exists_catching_eq_append bound
  rw [hCatching] at hTokens
  obtain ⟨front, behind, hParts, hFront, hBehind⟩ := List.map_eq_append_iff.mp hTokens
  obtain ⟨token, back, rfl, -, -⟩ := List.map_eq_cons_iff.mp hBehind
  refine ⟨front, token, back, hParts, ?_⟩
  have hOpen : Token.openBehind front =
      (front.map Token.sign).countP Sign.opens - (front.map Token.sign).countP Sign.closes := by
    rw [List.countP_map, List.countP_map]
    rfl
  rw [hOpen, hFront]
  simp [List.countP_replicate, Sign.opens, Sign.closes, Sign.mark]

end EcmaLint
