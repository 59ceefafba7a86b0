import EcmaLint.Proofs.Edition.Program
import EcmaLint.Proofs.Token.Runs

/-! Readings that succeed. What a token is and how it is written is all that a reading depends on
where no line break counts, so a production is shown to accept a list of signs step by step, with
one rule for each way in which productions are put together. Signs that are read off their own
characters and that the grammar accepts are a program. -/
namespace EcmaLint

open Production

/-- What a token is and how it is written. -/
structure Sign where
  kind : TokenKind
  text : String
  deriving DecidableEq

namespace Sign

def mark (text : String) : Sign := ⟨.punctuator, text⟩

/-- The sign is a word, number or punctuator with this text. -/
def is (sign : Sign) (text : String) : Bool :=
  match sign.kind with
  | .string | .template | .regularExpression => false
  | _ => sign.text == text

end Sign

def Token.sign (token : Token) : Sign := ⟨token.kind, token.text⟩

/-- The cursor stands in front of some signs, and no default waits for a pattern. -/
structure Cursor.Sees (cursor : Cursor) (signs : List Sign) : Prop where
  signs_eq : cursor.rest.map (fun lexeme => lexeme.token.sign) = signs
  shorthandDefaults_eq : cursor.shorthandDefaults = []

namespace Cursor.Sees

variable {cursor : Cursor} {sign : Sign} {signs : List Sign}

theorem exists_lexeme (h : cursor.Sees (sign :: signs)) :
    ∃ lexeme rest, cursor.rest = lexeme :: rest ∧ lexeme.token.sign = sign ∧
      rest.map (fun lexeme => lexeme.token.sign) = signs :=
  List.map_eq_cons_iff.mp h.signs_eq

theorem atText_cons (h : cursor.Sees (sign :: signs)) (text : String) :
    cursor.atText text = sign.is text := by
  obtain ⟨lexeme, rest, hRest, rfl, -⟩ := h.exists_lexeme
  rw [Cursor.atText, Cursor.peekIs, hRest]
  rfl

theorem atText_nil (h : cursor.Sees []) (text : String) : cursor.atText text = false := by
  rw [Cursor.atText, Cursor.peekIs, List.map_eq_nil_iff.mp h.signs_eq]
  rfl

theorem atEnd_eq (h : cursor.Sees signs) : cursor.atEnd = signs.isEmpty := by
  rw [← h.signs_eq, Cursor.atEnd, List.isEmpty_map]

theorem length_eq (h : cursor.Sees signs) : cursor.rest.length = signs.length := by
  rw [← h.signs_eq, List.length_map]

end Cursor.Sees

namespace Production

variable {α β σ : Type}

/-- Wherever it stands in front of some signs, a production succeeds with a value that has a
property, and leaves the other signs. -/
def Accepts (production : Production α) (context : Context) (signs left : List Sign)
    (property : α → Prop) : Prop :=
  ∀ cursor : Cursor, cursor.Sees signs → ∃ value later,
    production context cursor = .ok (value, later) ∧ later.Sees left ∧ property value

namespace Accepts

variable {context : Context} {sign : Sign} {signs between left : List Sign} {property : α → Prop}

theorem imp {stronger : α → Prop} {production : Production α}
    (h : Accepts production context signs left stronger)
    (hImp : ∀ value, stronger value → property value) :
    Accepts production context signs left property := fun cursor hSees =>
  let ⟨value, later, hRun, hLater, hValue⟩ := h cursor hSees
  ⟨value, later, hRun, hLater, hImp value hValue⟩

theorem pure {value : α} (h : property value) :
    Accepts (Pure.pure value) context left left property :=
  fun cursor hSees => ⟨value, cursor, rfl, hSees, h⟩

theorem bind {first : Production β} {next : β → Production α} {middle : β → Prop}
    (h : Accepts first context signs between middle)
    (hNext : ∀ value, middle value → Accepts (next value) context between left property) :
    Accepts (first >>= next) context signs left property := by
  intro cursor hSees
  obtain ⟨value, later, hRun, hLater, hValue⟩ := h cursor hSees
  obtain ⟨result, final, hRest, hFinal⟩ := hNext value hValue later hLater
  refine ⟨result, final, ?_, hFinal⟩
  change (first context cursor >>= fun result => next result.1 context result.2) = _
  rw [hRun]
  exact hRest

theorem map {f : β → α} {first : Production β}
    (h : Accepts first context signs left fun value => property (f value)) :
    Accepts (f <$> first) context signs left property :=
  h.bind fun _ hValue => pure hValue

theorem get_bind {next : Cursor → Production α}
    (h : ∀ cursor : Cursor, cursor.Sees signs →
      Accepts (next cursor) context signs left property) :
    Accepts (get >>= next) context signs left property :=
  fun cursor hSees => h cursor hSees cursor hSees

theorem read_bind {next : Context → Production α}
    (h : Accepts (next context) context signs left property) :
    Accepts (read >>= next) context signs left property := h

theorem startOffset : Accepts startOffset context left left fun _ => True :=
  get_bind fun _ _ => fun cursor hSees => ⟨_, cursor, rfl, hSees, trivial⟩

theorem bump : Accepts bump context (sign :: left) left fun _ => True := by
  intro cursor hSees
  obtain ⟨lexeme, rest, hRest, -, hLeft⟩ := hSees.exists_lexeme
  obtain ⟨previousEnd, signs, defaults, arena⟩ := cursor
  obtain rfl : signs = lexeme :: rest := hRest
  exact ⟨(), ⟨lexeme.token.span.stop, rest, defaults, arena⟩, rfl,
    ⟨hLeft, hSees.shorthandDefaults_eq⟩, trivial⟩

/-- A word or sign that is there is taken. -/
theorem eat {text : String} (h : sign.is text = true) :
    Accepts (eat text) context (sign :: left) left (· = true) := by
  refine get_bind fun cursor hSees => ?_
  rw [hSees.atText_cons, h, if_pos rfl]
  exact bump.bind fun _ _ => pure rfl

theorem eat_of_not {text : String} (h : sign.is text = false) :
    Accepts (Production.eat text) context (sign :: left) (sign :: left) (· = false) := by
  refine get_bind fun cursor hSees => ?_
  rw [hSees.atText_cons, h, if_neg Bool.false_ne_true]
  exact pure rfl

theorem eat_nil {text : String} : Accepts (Production.eat text) context [] [] (· = false) := by
  refine get_bind fun cursor hSees => ?_
  rw [hSees.atText_nil, if_neg Bool.false_ne_true]
  exact pure rfl

theorem expect {text : String} (h : sign.is text = true) :
    Accepts (expect text) context (sign :: left) left fun _ => True := by
  refine (eat h).bind ?_
  rintro _ rfl
  exact pure trivial

theorem require {feature : Feature} {offset : Nat} (h : feature.since ≤ context.year) :
    Accepts (require feature offset) context left left fun _ => True := by
  refine read_bind ?_
  rw [if_pos h]
  exact pure trivial

theorem finish {kind : NodeKind} {start : Nat} {fields : List (FieldName × FieldValue)} :
    Accepts (finish kind start fields) context left left fun _ => True :=
  fun _ hSees => ⟨_, _, rfl, ⟨hSees.signs_eq, hSees.shorthandDefaults_eq⟩, trivial⟩

theorem store {kind : NodeKind} {span : Span} {fields : List (FieldName × FieldValue)} :
    Accepts (store kind span fields) context left left fun _ => True :=
  fun _ hSees => ⟨_, _, rfl, ⟨hSees.signs_eq, hSees.shorthandDefaults_eq⟩, trivial⟩

theorem identifier {text : String} :
    Accepts identifier context (⟨.identifier, text⟩ :: left) left fun _ => True := by
  refine get_bind fun cursor hSees => ?_
  obtain ⟨lexeme, rest, hRest, hSign, -⟩ := hSees.exists_lexeme
  have hCurrent : cursor.current? = some lexeme.token := by
    rw [Cursor.current?, hRest]
    rfl
  have hKind : lexeme.token.kind = .identifier := congrArg Sign.kind hSign
  simp only [hCurrent, hKind, beq_self_eq_true, if_true]
  exact bump.bind fun _ _ => store

/-- The first level and those above it can be entered. -/
theorem nested {inner : Production α} (hDepth : context.depth < maximumDepth)
    (h : Accepts inner { context with depth := context.depth + 1 } signs left property) :
    Accepts (nested inner) context signs left property := by
  refine read_bind ?_
  rw [if_neg (Nat.not_le.mpr hDepth)]
  exact h

theorem iterate {turn : σ → Production (Turn σ α)} {state : σ}
    (h : Accepts (turns turn (signs.length + 1) state) context signs left property) :
    Accepts (iterate turn state) context signs left property := by
  refine get_bind fun cursor hSees => ?_
  rw [hSees.length_eq]
  exact h

/-- A turn that is the last one. -/
theorem turns_done {turn : σ → Production (Turn σ α)} {n : Nat} {state : σ}
    (h : Accepts (turn state) context signs left fun leadsTo =>
      ∃ result, leadsTo = .done result ∧ property result) :
    Accepts (turns turn (n + 1) state) context signs left property := by
  refine h.bind ?_
  rintro _ ⟨result, rfl, hResult⟩
  exact pure hResult

/-- A turn that asks for another one. -/
theorem turns_again {turn : σ → Production (Turn σ α)} {n : Nat} {state : σ}
    (h : Accepts (turn state) context signs between fun leadsTo => ∃ next, leadsTo = .again next)
    (hNext : ∀ next, Accepts (turns turn n next) context between left property) :
    Accepts (turns turn (n + 1) state) context signs left property := by
  refine h.bind ?_
  rintro _ ⟨next, rfl⟩
  exact hNext next

end Accepts
end Production

namespace Sign

open Lexer

/-- Signs written one behind the other, with nothing between them. -/
def write (signs : List Sign) : List Char := signs.flatMap fun sign => sign.text.toList

def chunk (sign : Sign) : Chunk := ⟨.token sign.kind, sign.text.toList⟩

/-- Signs that are written one behind the other are read as they are, inside some braces. -/
def Lexes (braces : List Brace) (signs : List Sign) : Prop :=
  ∀ expectsOperand, ∃ final,
    Run ⟨expectsOperand, braces⟩ (write signs) (signs.map chunk) final []

namespace Lexes

variable {braces : List Brace} {signs : List Sign}

theorem nil : Lexes braces [] := fun _ => ⟨_, .nil⟩

/-- A sign is read before others if it is the piece that stands in front of them. -/
theorem cons {sign : Sign} {c : Char} {inner : List Char} {inside : List Brace}
    (hText : sign.text.toList = c :: inner)
    (hPiece : ∀ previous, piece previous braces c (inner ++ write signs) =
      .ok ⟨.token sign.kind, inner.length, inside⟩)
    (h : Lexes inside signs) : Lexes braces (sign :: signs) := by
  intro expectsOperand
  obtain ⟨previous, hPrevious⟩ := exists_regexAllowed_eq expectsOperand
  obtain ⟨final, hRun⟩ := h (sign.chunk.expectsOperand expectsOperand)
  refine ⟨final, ?_⟩
  have hWrite : write (sign :: signs) = c :: (inner ++ write signs) := by
    rw [write, List.flatMap_cons, hText]
    rfl
  have hTake : (inner ++ write signs).take inner.length = inner := List.take_left
  have hDrop : (inner ++ write signs).drop inner.length = write signs := List.drop_left
  rw [hWrite, List.map_cons]
  refine .cons_of_piece hPrevious (hPiece previous) ?_ ?_
  · rw [chunk, hText, hTake]
  · rw [hDrop]
    exact hRun

/-- A word is read before what it cannot go on with. -/
theorem word {sign : Sign} {c : Char} {inner : List Char} (hText : sign.text.toList = c :: inner)
    (hFirst : c ≠ '/' ∧ c ∉ delimiters)
    (hPiece : ∀ previous, piece previous braces c inner =
      .ok ⟨.token sign.kind, inner.length, braces⟩)
    (hHalts : Halts (write signs)) (h : Lexes braces signs) : Lexes braces (sign :: signs) :=
  h.cons hText fun previous => by rw [piece_append hFirst.1 hFirst.2 hHalts, hPiece]

end Lexes

theorem sign_tokens_lay (offset : Nat) (signs : List Sign) :
    (lay offset (signs.map chunk)).tokens.map Token.sign = signs := by
  induction signs generalizing offset with
  | nil => rfl
  | cons sign signs ih =>
      rw [List.map_cons, tokens_lay_token rfl, List.map_cons, ih]
      congr 1
      simp [Token.sign, chunk]

end Sign

/-- What is accepted as signs is accepted as a program where it is written so. -/
theorem exists_parse_of_accepts {signs : List Sign} {options : ParseOptions}
    (hLexes : Sign.Lexes [] signs) (hPlain : (Sign.write signs).head? ≠ some '#')
    (hAccepts : ∀ context : Context, context.year = options.year → context.depth = 0 →
      Accepts (Grammar.upTo (Grammar.levels signs.length)).program context signs []
        fun _ => True) :
    ∃ parsed, parse (String.ofList (Sign.write signs)) options = .ok parsed ∧
      parsed.tokens.map Token.sign = signs := by
  obtain ⟨final, hRun⟩ := hLexes true
  have hScan := @Lexer.Run.scan_eq _ _ _ _ _ hRun 0 none rfl rfl
  have hTokenize : tokenize (String.ofList (Sign.write signs)) =
      .ok (Lexer.lay 0 (signs.map Sign.chunk)) := by
    rw [tokenize, String.toList_ofList]
    split
    case h_1 rest hShebang => exact absurd (by rw [hShebang]; rfl) hPlain
    case h_2 => exact hScan
  have hTokens := Sign.sign_tokens_lay 0 signs
  have hLength := congrArg List.length hTokens
  rw [List.length_map] at hLength
  have hSees : ∀ source : List Char,
      (Lexeme.ofTokens source none (Lexer.lay 0 (signs.map Sign.chunk)).tokens).map
        (fun lexeme => lexeme.token.sign) = signs := by
    intro source
    conv_rhs => rw [← hTokens, ← map_token_ofTokens source none
      (Lexer.lay 0 (signs.map Sign.chunk)).tokens, List.map_map]
    rfl
  generalize String.ofList (Sign.write signs) = source at hTokenize
  generalize Lexer.lay 0 (signs.map Sign.chunk) = out at *
  obtain ⟨program, later, hProgram, -⟩ := hAccepts
    { year := options.year
      size := Text.byteLength source.toList
      newlineAtEnd := out.tokens.getLast?.any fun last =>
        newlineBetween source.toList last.span.stop (Text.byteLength source.toList) }
    rfl rfl ⟨0, Lexeme.ofTokens source.toList none out.tokens, [], #[]⟩ ⟨hSees _, rfl⟩
  have hTree : parseTokens source options.year out.tokens =
      .ok (program, .link later.arena program.id) := by
    rw [parseTokens_eq, hLength]
    exact congrArg (· >>= _) hProgram
  refine ⟨⟨program, .link later.arena program.id, out.tokens, out.comments⟩, ?_, hTokens⟩
  rw [parse_of_tokenize hTokenize, hTree]
  rfl

end EcmaLint
