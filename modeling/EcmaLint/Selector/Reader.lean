import EcmaLint.Decimal.Notation
import EcmaLint.Regex.Engine
import EcmaLint.Selector.Basic
import EcmaLint.Text.Blank
import EcmaLint.Text.Bytes

/-! The written form of selectors. White space joins compounds as a combinator and is
left out everywhere else; attributes stand in brackets. -/
namespace EcmaLint

/-- The causes for which a text is no selector. -/
inductive SelectorFault where
  | unknownKind (name : String)
  | pseudoClass
  | missingCompound
  | missingTest
  | missingAttribute
  | missingValue
  | missingChar (c : Char)
  | unterminatedString
  | unterminatedRegex
  | unsupportedFlag (c : Char)
  | invalidRegex
  | invalidNumber (text : String)
  | unexpectedChar (c : Char)
  | unexpectedEnd
  deriving DecidableEq, Repr

def SelectorFault.message : SelectorFault → String
  | unknownKind name => "unknown node type '" ++ name ++ "'"
  | pseudoClass => "pseudo-classes are not supported"
  | missingCompound => "expected a node type, '*' or '['"
  | missingTest => "expected '=', '!=' or ']'"
  | missingAttribute => "expected an attribute name"
  | missingValue => "expected a value"
  | missingChar c => "expected '" ++ c.toString ++ "'"
  | unterminatedString => "unterminated string"
  | unterminatedRegex => "unterminated regular expression"
  | unsupportedFlag c => "unsupported regex flag '" ++ c.toString ++ "'"
  | invalidRegex => "invalid regular expression"
  | invalidNumber text => "invalid number '" ++ text ++ "'"
  | unexpectedChar c => "unexpected '" ++ c.toString ++ "'"
  | unexpectedEnd => "unexpected end of selector"

/-- A cause and the byte offset in the pattern where it was found. -/
structure SelectorError where
  pattern : String
  fault : SelectorFault
  offset : Nat
  deriving DecidableEq, Repr

def SelectorError.message (error : SelectorError) : String := error.fault.message

/-- The message with the pattern and the offset in front of it. -/
def SelectorError.render (error : SelectorError) : String :=
  "invalid selector '" ++ error.pattern ++ "' at offset " ++ toString error.offset ++ ": " ++
    error.message

namespace Selector.Reader

/-- A cause and the text that was left where it was found. -/
structure Mistake where
  fault : SelectorFault
  rest : List Char

/-- Reading moves through a text, or says what is wrong with it. -/
abbrev Reading := StateT (List Char) (Except Mistake)

def failAt {α : Type} (fault : SelectorFault) (rest : List Char) : Reading α := throw ⟨fault, rest⟩

def fail {α : Type} (fault : SelectorFault) : Reading α := do failAt fault (← get)

/-- Read a character if it comes next. -/
def eat (c : Char) : Reading Bool := do
  if (← get).head? == some c then
    modify List.tail
    return true
  else
    return false

def expect (c : Char) : Reading Unit := do
  unless (← eat c) do fail (.missingChar c)

/-- Read white space, and tell whether there was any. -/
def blanks : Reading Bool := do
  let text ← get
  let rest := Text.trimStart text
  set rest
  return rest.length < text.length

def isNameStart (c : Char) : Bool := c.isAlpha || c == '_' || c == '$'

def isNamePart (c : Char) : Bool := isNameStart c || c.isDigit || c == '-'

/-- Read the name characters that come next. -/
def name : Reading String := do
  let name := (← get).takeWhile isNamePart
  modify fun text => text.drop name.length
  return String.ofList name

/-- The value of a string after its opening quote, and the text after its closing one. A
backslash stands before any character that is meant as such. -/
def quoted? (quote : Char) : List Char → Option (List Char × List Char)
  | [] => none
  | ['\\'] => none
  | '\\' :: c :: cs => (quoted? quote cs).map fun (value, rest) => (c :: value, rest)
  | c :: cs =>
      if c = quote then some ([], cs)
      else (quoted? quote cs).map fun (value, rest) => (c :: value, rest)

/-- The source of a regular expression after its opening slash, and the text after its
closing one. -/
def slashed? : List Char → Option (List Char × List Char)
  | [] => none
  | ['\\'] => none
  | '\\' :: c :: cs => (slashed? cs).map fun (source, rest) => ('\\' :: c :: source, rest)
  | c :: cs =>
      if c = '/' then some ([], cs)
      else (slashed? cs).map fun (source, rest) => (c :: source, rest)

/-- Settings of a regular expression, given by the letters after it. -/
def flags (flags : RegexFlags) : List Char → Except Mistake (RegexFlags × List Char)
  | [] => .ok (flags, [])
  | c :: cs =>
      match c with
      | 'i' => Reader.flags { flags with ignoreCase := true } cs
      | 'm' => Reader.flags { flags with multiLine := true } cs
      | 's' => Reader.flags { flags with dotAll := true } cs
      | 'u' => Reader.flags flags cs
      | c => if c.isAlpha then .error ⟨.unsupportedFlag c, c :: cs⟩ else .ok (flags, c :: cs)

variable [RegexEngine]

/-- Read a regular expression. -/
def regex : Reading SelectorLiteral := do
  let text ← get
  match slashed? text.tail with
  | none => failAt .unterminatedRegex text
  | some (source, rest) =>
      let (flags, rest) ← liftM (flags {} rest)
      match RegexEngine.compile? flags (String.ofList source) with
      | none => failAt .invalidRegex text
      | some occursIn =>
          set rest
          return .pattern occursIn

/-- Whether a text is a decimal number: digits with at most one point among them, after
at most one minus sign. -/
def isNumber (text : List Char) : Bool :=
  let digits := if text.head? == some '-' then text.tail else text
  digits.any Char.isDigit && digits.count '.' ≤ 1

/-- Read a number. -/
def number : Reading SelectorLiteral := do
  let text ← get
  let sign := if text.head? == some '-' then ['-'] else []
  let digits := (text.drop sign.length).takeWhile fun c => c.isDigit || c == '.'
  let written := sign ++ digits
  if isNumber written then
    set (text.drop written.length)
    let value := Decimal.ofText digits
    return .number (if sign.isEmpty then value else -value)
  else
    failAt (.invalidNumber (String.ofList written)) text

/-- Read what an attribute is compared with. -/
def literal : Reading SelectorLiteral := do
  let text ← get
  match text.head? with
  | none => fail .missingValue
  | some c =>
      if c == '\'' || c == '"' then
        match quoted? c text.tail with
        | none => failAt .unterminatedString text
        | some (value, rest) =>
            set rest
            return .text (String.ofList value)
      else if c == '/' then regex
      else if c.isDigit || c == '-' || c == '.' then number
      else if isNameStart c then
        match ← name with
        | "true" => return .bool true
        | "false" => return .bool false
        | "null" => return .null
        | word => return .text word
      else fail .missingValue

/-- Read one name of a path. -/
def segment : Reading String := do
  if (← get).head?.any fun c => isNameStart c || c.isDigit then name
  else fail .missingAttribute

/-- Read the names of a path after the first one. -/
def segments : Nat → Reading (List String)
  | 0 => return []
  | fuel + 1 => do
      if ← eat '.' then return (← segment) :: (← segments fuel)
      else return []

/-- Read the test of an attribute and its closing bracket. -/
def test : Reading AttributeTest := do
  if ← eat ']' then return .isPresent
  else
    let test ←
      if "!=".toList.isPrefixOf (← get) then do
        modify (List.drop 2)
        let _ ← blanks
        pure (.differs (← literal))
      else if ← eat '=' then do
        let _ ← blanks
        pure (.equals (← literal))
      else fail .missingTest
    let _ ← blanks
    expect ']'
    return test

/-- Read an attribute in brackets. -/
def bracketed : Reading Attribute := do
  expect '['
  let _ ← blanks
  let first ← segment
  let path := first :: (← segments (← get).length)
  let _ ← blanks
  return { path, test := ← test }

/-- Read the attributes of a compound. -/
def attributes : Nat → Reading (List Attribute)
  | 0 => return []
  | fuel + 1 => do
      if (← get).head? == some '[' then return (← bracketed) :: (← attributes fuel)
      else return []

/-- Read the kind of a compound, and whether there was a kind or a star. -/
def head : Reading (Option NodeKind × Bool) := do
  let text ← get
  if ← eat '*' then return (none, true)
  else if text.head?.any isNameStart then
    let name ← name
    match NodeKind.ofName? name with
    | some kind => return (some kind, true)
    | none => failAt (.unknownKind name) text
  else return (none, false)

/-- Read the tests of one node. -/
def compound : Reading Compound := do
  let (kind, hasHead) ← head
  let attributes ← attributes (← get).length
  if (← get).head? == some ':' then fail .pseudoClass
  if !hasHead && attributes.isEmpty then fail .missingCompound
  return { kind, attributes }

def unexpected {α : Type} : Reading α := do
  match (← get).head? with
  | some c => fail (.unexpectedChar c)
  | none => fail .unexpectedEnd

/-- Read the compounds that follow an alternative read so far. -/
def continuation : Nat → Complex → Reading Complex
  | 0, complex => return complex
  | fuel + 1, complex => do
      let separated ← blanks
      let extend := fun (combinator : Combinator) => do
        let subject ← compound
        continuation fuel ⟨subject, (combinator, complex.subject) :: complex.context⟩
      match (← get).head? with
      | none => return complex
      | some c =>
          if c == ',' then return complex
          else if c == '>' then
            modify List.tail
            let _ ← blanks
            extend .child
          else if separated then extend .descendant
          else unexpected

/-- Read one alternative. -/
def complex : Reading Complex := do
  let subject ← compound
  continuation ((← get).length + 1) ⟨subject, []⟩

/-- Read alternatives up to the end of the text. -/
def alternatives : Nat → Reading (List Complex)
  | 0 => unexpected
  | fuel + 1 => do
      let _ ← blanks
      let first ← complex
      let _ ← blanks
      if ← eat ',' then return first :: (← alternatives fuel)
      else if (← get).isEmpty then return [first]
      else unexpected

end Selector.Reader

/-- The selector that a pattern writes. -/
def Selector.parse [RegexEngine] (pattern : String) : Except SelectorError Selector :=
  let text := pattern.toList
  match (Selector.Reader.alternatives (text.length + 1)).run text with
  | .ok (alternatives, _) => .ok { source := pattern, alternatives }
  | .error ⟨fault, rest⟩ =>
      .error ⟨pattern, fault, Text.byteLength text - Text.byteLength rest⟩

end EcmaLint
