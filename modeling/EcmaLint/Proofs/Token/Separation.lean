import EcmaLint.Proofs.Token.Nesting

/-! Texts behind each other. If no substitution is open at the end of a text, another text behind it
and behind a semicolon on a line of its own is cut into the same tokens as alone. A scan carries
three things from one text to the other: the blocks that are still open, which only a brace that
closes nothing would tell from none, what a slash means, which a semicolon settles, and how far the
last piece goes, which the end of a line settles. -/
namespace EcmaLint

open Lexer

namespace Token

variable {token : Token} {tokens : List Token} {braces : List Brace}

/-- A piece of a template that goes on behind a substitution. -/
def resumesTemplate (token : Token) : Bool := token.closes? == some .substitution

/-- A piece of a template that ends where a substitution starts. -/
def opensSubstitution (token : Token) : Bool := token.opens? == some .substitution

theorem count_turn (h : ∀ brace ∈ token.closes?,
      (braces.head? = some .substitution ↔ brace = .substitution)) :
    (token.turn braces).count .substitution + token.resumesTemplate.toNat =
      braces.count .substitution + token.opensSubstitution.toNat := by
  have hOpened : token.opens?.toList.count .substitution = token.opensSubstitution.toNat := by
    unfold opensSubstitution
    rcases token.opens? with _ | _ | _ <;> rfl
  have hClosed : (if token.closes?.isSome then braces.tail else braces).count .substitution +
      token.resumesTemplate.toNat = braces.count .substitution := by
    unfold resumesTemplate
    rcases hCloses : token.closes? with _ | _ | _
    · rfl
    · have hHead := h .block hCloses
      rcases braces with _ | ⟨_ | _, braces⟩ <;> simp_all
    · have hHead := (h .substitution hCloses).mpr rfl
      obtain ⟨outer, rfl⟩ := List.head?_eq_some_iff.mp hHead
      simp
  rw [turn, List.count_append, hOpened]
  omega

/-- As many substitutions are open as were opened and not closed. -/
theorem count_foldl_turn (h : Fit braces tokens) :
    (tokens.foldl turn braces).count .substitution + tokens.countP resumesTemplate =
      braces.count .substitution + tokens.countP opensSubstitution := by
  induction tokens generalizing braces with
  | nil => rfl
  | cons token tokens ih =>
      obtain ⟨hFirst, hRest⟩ := h.of_cons
      have hTurn := count_turn hFirst
      have hLater := ih hRest
      have hToNat : ∀ flag : Bool, (if flag = true then 1 else 0) = flag.toNat := by decide
      rw [List.foldl_cons, List.countP_cons, List.countP_cons, hToNat, hToNat]
      omega

end Token

namespace Lexer

variable {previous : Option Token} {braces under : List Brace} {c : Char} {rest : List Char}
  {found : Piece}

/-- Where no brace is opened or closed it does not matter which are open. -/
theorem piece_of_other_braces (h : piece previous braces c rest = .ok found)
    (hOther : c ∉ ['`', '{', '}']) (others : List Brace) :
    piece previous others c rest = .ok { found with braces := others } := by
  simp only [List.mem_cons, List.not_mem_nil, or_false, not_or] at hOther
  unfold piece at h ⊢
  simp only [hOther, beq_iff_eq, if_false] at h ⊢
  repeat' split at h
  all_goals cases h
  all_goals simp_all

theorem templatePiece_append (h : templatePiece braces rest = .ok found) (under : List Brace) :
    templatePiece (braces ++ under) rest = .ok { found with braces := found.braces ++ under } := by
  unfold templatePiece at h
  split at h
  case h_1 => cases h
  case h_2 n opens hLength =>
    cases h
    rw [templatePiece, hLength]
    cases opens <;> rfl

/-- Open blocks underneath the open braces change nothing, and only a brace that closed nothing
closes one of them. -/
theorem exists_piece_under (h : piece previous braces c rest = .ok found)
    (hUnder : ∀ brace ∈ under, brace = .block) : ∃ later, (∀ brace ∈ later, brace = .block) ∧
      piece previous (braces ++ under) c rest =
        .ok { found with braces := found.braces ++ later } := by
  by_cases hTick : c = '`'
  · subst hTick
    exact ⟨under, hUnder, templatePiece_append h under⟩
  by_cases hOpen : c = '{'
  · subst hOpen
    rw [piece_openBrace] at h
    cases h
    exact ⟨under, hUnder, piece_openBrace⟩
  by_cases hClose : c = '}'
  · subst hClose
    rw [piece_closeBrace] at h
    rcases braces with _ | ⟨_ | _, outer⟩
    · cases h
      refine ⟨under.tail, fun brace hBrace => hUnder brace (List.mem_of_mem_tail hBrace), ?_⟩
      rw [piece_closeBrace]
      rcases under with _ | ⟨first, under⟩
      · rfl
      · obtain rfl := hUnder first List.mem_cons_self
        rfl
    · cases h
      exact ⟨under, hUnder, rfl⟩
    · exact ⟨under, hUnder, templatePiece_append h under⟩
  have hOther : c ∉ ['`', '{', '}'] := by simp [hTick, hOpen, hClose]
  refine ⟨under, hUnder, ?_⟩
  rw [braces_eq_of_piece h hOther]
  exact piece_of_other_braces h hOther _

theorem Run.exists_under {state final : State} {cs left : List Char} {chunks : List Chunk}
    (h : Run state cs chunks final left) (hUnder : ∀ brace ∈ under, brace = .block) :
    ∃ last, Run ⟨state.expectsOperand, state.braces ++ under⟩ cs chunks last left := by
  induction h generalizing under with
  | nil => exact ⟨_, .nil⟩
  | cons hPrevious hPiece _ ih =>
      obtain ⟨later, hLater, hPiece'⟩ := exists_piece_under hPiece hUnder
      obtain ⟨last, hRest⟩ := ih hLater
      exact ⟨last, .cons_of_piece hPrevious hPiece' rfl hRest⟩

/-- In front of the end of a line a text is scanned as in front of its end. -/
theorem sealed_of_endsLine {chunks : List Chunk} {other : List Char} (h : EndsLine other) :
    Sealed chunks [] other := by
  intro front chunk back _
  exact .inr ⟨text back, [], other, rfl, rfl, by simp [Halts], h.halts,
    fun _ _ => .inl ⟨by simp [EndsLine], h⟩⟩

theorem EndsLine.append {cs other : List Char} (h : EndsLine cs) (hOther : EndsLine other) :
    EndsLine (cs ++ other) := by
  cases cs with
  | nil => exact hOther
  | cons c cs => exact h

/-- A semicolon on a line of its own. -/
def separator : List Chunk := [⟨.blank, ['\n']⟩, .mark ';', ⟨.blank, ['\n']⟩]

/-- Behind a separator a slash opens a regular expression, and the same braces are open. -/
theorem run_separator (state : State) (other : List Char) :
    Run state (text separator ++ other) separator ⟨true, state.braces⟩ other := by
  have hNewline : Text.isBlank '\n' = true := by decide
  exact ((run_blank hNewline state _).append (run_single (by decide) state _)).append
    (run_blank hNewline _ other)

theorem lay_separator (offset : Nat) : lay offset separator =
    { tokens := [⟨.punctuator, ⟨offset + 1, offset + 2⟩, ";"⟩] } := rfl

end Lexer

def Span.shift (bytes : Nat) (span : Span) : Span := ⟨bytes + span.start, bytes + span.stop⟩

/-- The token, so many bytes later in a text. -/
def Token.shift (bytes : Nat) (token : Token) : Token := { token with span := token.span.shift bytes }

/-- The comment, so many bytes later in a text. -/
def Comment.shift (bytes : Nat) (comment : Comment) : Comment :=
  { comment with span := comment.span.shift bytes }

theorem Lexer.lay_add (bytes offset : Nat) (chunks : List Chunk) :
    lay (bytes + offset) chunks =
      { tokens := (lay offset chunks).tokens.map (Token.shift bytes)
        comments := (lay offset chunks).comments.map (Comment.shift bytes) } := by
  induction chunks generalizing offset with
  | nil => rfl
  | cons chunk chunks ih =>
      obtain ⟨kind, chunk⟩ := chunk
      rw [lay, lay, Nat.add_assoc, ih]
      cases kind <;> simp [prepend, Token.shift, Comment.shift, Span.shift]

namespace Lexer.Layout

variable {a b : String} {lead : List Char} {first second : List Chunk}

/-- What no line opens has no line in front of its chunks. -/
theorem lead_eq_nil (h : Layout b lead second) (hStart : ¬['#', '!'] <+: b.toList) : lead = [] := by
  refine h.lead.resolve_right ?_
  rintro ⟨line, rfl, -, -⟩
  exact hStart ⟨line ++ text second, by simp [h.source_eq]⟩

/-- If all open braces are blocks, a text may be followed by another one. -/
theorem separate (h : Layout a lead first) {final : State}
    (hRun : Run ⟨true, []⟩ (text first) first final [])
    (hBlocks : ∀ brace ∈ final.braces, brace = .block) (h' : Layout b [] second) :
    Layout (a ++ "\n;\n" ++ b) lead (first ++ (separator ++ second)) where
  source_eq := by
    rw [String.toList_append, String.toList_append, h.source_eq, h'.source_eq, text_append,
      text_append]
    simp [separator, text, Chunk.mark]
  run := by
    obtain ⟨last, hSecond⟩ := h'.run
    obtain ⟨last, hUnder⟩ := hSecond.exists_under hBlocks
    have hEnds : EndsLine (text separator ++ text second) := by
      rintro c ⟨⟩
      decide
    have hFirst := hRun.before (@sealed_of_endsLine first _ hEnds)
    rw [text_append, text_append]
    exact ⟨last, hFirst.append ((run_separator final _).append hUnder)⟩
  lead := by
    refine h.lead.imp_right ?_
    rintro ⟨line, rfl, hLine, hEnds⟩
    refine ⟨line, rfl, hLine, ?_⟩
    rw [text_append]
    refine hEnds.append ?_
    rintro c ⟨⟩
    decide

end Lexer.Layout

/-- A text is cut into its tokens whatever stands in front of it. If every substitution of a text is
closed, another text behind it and behind a semicolon on a line of its own is cut into the same
tokens and comments as alone, so many bytes later. -/
theorem tokenize_separates {a b : String} {first second : TokenizedText}
    (hFirst : tokenize a = .ok first) (hSecond : tokenize b = .ok second)
    (hClosed : first.tokens.countP Token.resumesTemplate =
      first.tokens.countP Token.opensSubstitution)
    (hStart : ¬['#', '!'] <+: b.toList) :
    let size := Text.byteLength a.toList
    tokenize (a ++ "\n;\n" ++ b) = .ok
      { tokens := first.tokens ++ ⟨.punctuator, ⟨size + 1, size + 2⟩, ";"⟩ ::
          second.tokens.map (Token.shift (size + 3))
        comments := first.comments ++ second.comments.map (Comment.shift (size + 3)) } := by
  intro size
  obtain ⟨lead, chunks, hLayout, rfl⟩ := exists_layout_of_tokenize hFirst
  obtain ⟨none, more, hLayout', rfl⟩ := exists_layout_of_tokenize hSecond
  obtain rfl := hLayout'.lead_eq_nil hStart
  obtain ⟨final, hRun⟩ := hLayout.run
  have hBlocks : ∀ brace ∈ final.braces, brace = .block := by
    obtain ⟨hFit, hFinal⟩ := hRun.turns (Text.byteLength lead)
    have hCount := Token.count_foldl_turn hFit
    have hEqual : (lay (Text.byteLength lead) chunks).tokens.countP Token.resumesTemplate =
        (lay (Text.byteLength lead) chunks).tokens.countP Token.opensSubstitution := hClosed
    rw [← hFinal, hEqual, List.count_nil, Nat.zero_add] at hCount
    have hNone : Brace.substitution ∉ final.braces := List.count_eq_zero.mp (by omega)
    intro brace hBrace
    cases brace with
    | block => rfl
    | substitution => exact absurd hBrace hNone
  have hSize : Text.byteLength lead + Text.byteLength (text chunks) = size := by
    rw [← Text.byteLength_append, ← hLayout.source_eq]
  have hSeparator : Text.byteLength (text separator) = 3 := by decide
  have hBehind : lay (size + 3) more = _ := lay_add (size + 3) 0 more
  rw [(hLayout.separate hRun hBlocks hLayout').tokenize_eq, layBehind, lay_append, lay_append, hSize,
    hSeparator, lay_separator, hBehind]
  simp [layBehind, openingComments]

/-- A block is open behind the first text, which ends with a comment, and the second text starts with
a regular expression and closes what it did not open. -/
theorem tokenize_separates_block :
    ∃ first second, tokenize "#!x\n\x7b`$\x7ba\x7d`1//c" = .ok first ∧ tokenize "/r/\x7d" = .ok second ∧
      first.tokens.countP Token.resumesTemplate = first.tokens.countP Token.opensSubstitution ∧
      ¬['#', '!'] <+: "/r/\x7d".toList ∧
      tokenize ("#!x\n\x7b`$\x7ba\x7d`1//c" ++ "\n;\n" ++ "/r/\x7d") = .ok
        { tokens := first.tokens ++ ⟨.punctuator, ⟨16, 17⟩, ";"⟩ ::
            second.tokens.map (Token.shift 18)
          comments := first.comments ++ second.comments.map (Comment.shift 18) } := by
  have hFirst : tokenize "#!x\n\x7b`$\x7ba\x7d`1//c" = .ok
      ⟨[⟨.punctuator, ⟨4, 5⟩, "\x7b"⟩, ⟨.template, ⟨5, 8⟩, "`$\x7b"⟩, ⟨.identifier, ⟨8, 9⟩, "a"⟩,
        ⟨.template, ⟨9, 11⟩, "\x7d`"⟩, ⟨.numeric, ⟨11, 12⟩, "1"⟩],
        [⟨.shebang, ⟨0, 3⟩, "x"⟩, ⟨.line, ⟨12, 15⟩, "c"⟩]⟩ := by
    decide +kernel
  have hSecond : tokenize "/r/\x7d" = .ok
      ⟨[⟨.regularExpression, ⟨0, 3⟩, "/r/"⟩, ⟨.punctuator, ⟨3, 4⟩, "\x7d"⟩], []⟩ := by
    decide +kernel
  have hStart : ¬['#', '!'] <+: "/r/\x7d".toList := by decide
  exact ⟨_, _, hFirst, hSecond, by decide, hStart,
    tokenize_separates hFirst hSecond (by decide) hStart⟩

end EcmaLint
