import EcmaLint.Grammar.Production

/-! The parser. It keeps the context in fields of its state, beside the cursor. To read a part in
another context it sets some of the fields and puts back behind the part what they held before,
so that it takes every such place for a call to leave the context as it found it. -/
namespace EcmaLint

/-- The context and the cursor of a parser. -/
structure ParserState where
  context : Context
  cursor : Cursor

/-- A parser may change its state, also where it fails. -/
abbrev Parser := EStateM ParseError ParserState

/-- What a shift has set is put back, from the context that was saved before it. The depth is
counted down again. -/
def Shift.leave (saved : Context) : Shift → Context → Context
  | .deeper, context => { context with depth := context.depth - 1 }
  | .joining _, context => { context with withoutIn := saved.withoutIn }
  | .function _ _, context =>
      { context with
        inFunction := saved.inFunction
        inAsync := saved.inAsync
        inGenerator := saved.inGenerator
        withoutIn := saved.withoutIn }
  | .arrow _, context =>
      { context with
        inFunction := saved.inFunction
        inAsync := saved.inAsync
        inGenerator := saved.inGenerator }

instance : MonadReaderOf Context Parser where
  read state := .ok state.context state

instance : MonadStateOf Cursor Parser where
  get state := .ok state.cursor state
  set cursor state := .ok ⟨⟩ { state with cursor }
  modifyGet change := fun { context, cursor } =>
    let (value, cursor) := change cursor
    .ok value { context, cursor }

/-- Fields are set and put back. Behind a part they are put back whether it was read or not, but
the word `in` is given its meaning back only behind a part that was read. -/
instance : Scoped Parser where
  within shift inner := fun { context := saved, cursor } =>
    match inner { context := shift.enter saved, cursor } with
    | .ok value later => .ok value { later with context := shift.leave saved later.context }
    | .error error later => .error error { later with context := shift.leave saved later.context }
  keepingIn inner := fun { context := saved, cursor } =>
    match inner { context := saved, cursor } with
    | .ok value later =>
        .ok value { later with context := { later.context with withoutIn := saved.withoutIn } }
    | .error error later => .error error later
  delay inner state := inner () state

/-- What a call comes to: a value and the state behind it, or an error. -/
def Parser.outcome {α : Type} (parser : Parser α) (state : ParserState) :
    Except ParseError (α × ParserState) :=
  match parser state with
  | .ok value later => .ok (value, later)
  | .error error _ => .error error

end EcmaLint
