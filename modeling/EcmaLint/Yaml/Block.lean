import EcmaLint.Yaml.Flow

/-! YAML texts. What belongs together is told by how far lines are indented. Anchors, tags
and texts over several lines are not read. -/
namespace EcmaLint.Yaml

/-- A line without its indentation, its comment and the blanks around it. -/
structure Line where
  indent : Nat
  text : List Char

/-- What is open in the middle of a line. -/
structure Openness where
  quote : Option Char := none
  depth : Nat := 0
  deriving DecidableEq

namespace Openness

def isOpen (openness : Openness) : Bool := openness.quote.isSome || 0 < openness.depth

/-- Whether a quote after some character opens a text. -/
def mayQuoteAfter (previous : Option Char) : Bool :=
  previous.all fun c => isSpace c || c == '[' || c == '\x7b' || c == ',' || c == ':'

/-- Go past a character. -/
def step (openness : Openness) (previous : Option Char) (c : Char) : Openness :=
  match openness.quote with
  | some quote => if c == quote then { openness with quote := none } else openness
  | none =>
      if isQuote c && mayQuoteAfter previous then { openness with quote := some c }
      else if (c == '[' || c == '\x7b') && (mayQuoteAfter previous || 0 < openness.depth) then
        { openness with depth := openness.depth + 1 }
      else if c == ']' || c == '\x7d' then { openness with depth := openness.depth - 1 }
      else openness

end Openness

/-- A line up to its comment, and what is open at its end. -/
def uncomment (openness : Openness) (previous : Option Char) : List Char → List Char × Openness
  | [] => ([], openness)
  | c :: cs =>
      if c == '#' && openness.quote.isNone && previous.all isSpace then ([], openness)
      else
        let (text, final) := uncomment (openness.step previous c) (some c) cs
        (c :: text, final)

/-- The lines of a text. A line with something open goes on with the next. -/
def gather : Option (Line × Openness) → List (List Char) → Option (List Line)
  | none, [] => some []
  | some _, [] => none
  | some (line, openness), raw :: later =>
      let (text, openness) := uncomment openness (some ' ') (trimLeft raw)
      let joined := { line with text := line.text ++ ' ' :: trimRight text }
      if openness.isOpen then gather (some (joined, openness)) later
      else do return joined :: (← gather none later)
  | none, raw :: later =>
      let indent := (raw.takeWhile (· == ' ')).length
      let (text, openness) := uncomment {} none (raw.drop indent)
      let line := ⟨indent, trimRight text⟩
      if openness.isOpen then gather (some (line, openness)) later
      else if line.text.isEmpty then gather none later
      else do return line :: (← gather none later)

/-- The pieces of a text between its line feeds. -/
def splitLines (cs : List Char) : List (List Char) :=
  cs.foldr
    (fun c pieces =>
      match pieces with
      | [] => [[c]]
      | piece :: rest => if c == '\n' then [] :: piece :: rest else (c :: piece) :: rest)
    [[]]

/-- What follows the dash of an item of a list, and how far it is from the dash. -/
def afterDash? : List Char → Option (Nat × List Char)
  | '-' :: rest =>
      if rest.head?.all isSpace then
        let text := trimLeft rest
        some (1 + (rest.length - text.length), text)
      else none
  | _ => none

/-- A line that has a key: the key, and what follows the colon. -/
def splitKey? (cs : List Char) : Option (List Char × List Char) :=
  match keyText? false cs with
  | none => none
  | some (key, rest) =>
      match trimLeft rest with
      | ':' :: after => if endsKey false after then some (key, trimLeft after) else none
      | _ => none

/-- Lines in groups, each of a line that starts a group and those that follow it. -/
def groups? (starts : Line → Bool) (lines : List Line) : Option (List (Line × List Line)) :=
  let (pending, groups) := lines.foldr
    (fun line (pending, groups) =>
      if starts line then ([], (line, pending) :: groups) else (line :: pending, groups))
    ([], [])
  if pending.isEmpty then some groups else none

mutual

/-- The value that lines make together, nested at most `fuel` deep. -/
def block? : Nat → List Line → Option Json
  | 0, _ => none
  | _ + 1, [] => some .null
  | fuel + 1, first :: later =>
      let lines := first :: later
      let isAtEdge := fun (line : Line) => line.indent == first.indent
      if lines.any fun line => line.indent < first.indent then none
      else if (afterDash? first.text).isSome then do
        let groups ← groups? isAtEdge lines
        return .array (← items? fuel groups)
      else if (splitKey? first.text).isSome then do
        let groups ← groups? (fun line => isAtEdge line && (afterDash? line.text).isNone) lines
        return .object (← members? fuel [] groups)
      else if later.isEmpty then inlineValue? first.text
      else none

/-- The items of a list, each from its own lines. -/
def items? : Nat → List (Line × List Line) → Option (List Json)
  | _, [] => some []
  | fuel, (line, nested) :: groups => do
      let (offset, text) ← afterDash? line.text
      let lines := if text.isEmpty then nested else ⟨line.indent + offset, text⟩ :: nested
      let item ← block? fuel lines
      return item :: (← items? fuel groups)

/-- The members of an object, each from its own lines, given those before. -/
def members? : Nat → List (String × Json) → List (Line × List Line) → Option (List (String × Json))
  | _, members, [] => some members
  | fuel, members, (line, nested) :: groups => do
      let (key, text) ← splitKey? line.text
      let value ←
        if text.isEmpty then block? fuel nested
        else if nested.isEmpty then inlineValue? text
        else none
      members? fuel (← addMember? (String.ofList key) value members) groups

end

/-- Whether a line is a mark that separates documents. -/
def isDocumentMark (line : Line) : Bool :=
  line.indent == 0 && (line.text == "---".toList || line.text == "...".toList)

/-- The value of a text, which holds a single document. A mark may stand before it and
after it. -/
def parse? (text : String) : Option Json := do
  let raw := (splitLines text.toList).map fun line => line.filter (· != '\r')
  let lines ← gather none raw
  let lines := if lines.head?.any isDocumentMark then lines.tail else lines
  let document := lines.takeWhile fun line => !isDocumentMark line
  let after := lines.drop document.length
  if after.length ≤ 1 then block? (text.length + 1) document else none

end EcmaLint.Yaml
