import EcmaLint.Selector.Reader

/-! Reading selectors by offsets. A reader here knows only the whole pattern and the byte offset
that it has got to. What is ahead is a slice of the pattern, and a slice that is not on character
boundaries ends it without a result, as does a loop that has not come to its end after as many
turns as there are characters. There is always a result, and it is what the reader that takes the
pattern apart finds. -/
namespace EcmaLint.Selector

open Reader

/-- Reading moves an offset on, or says what is wrong and where. -/
abbrev Moving := StateT Nat (ExceptT (SelectorFault × Nat) Option)

namespace Moving

/-- There is no result at all. -/
def stuck {α : Type} : Moving α := fun _ => ExceptT.mk none

def refuseAt {α : Type} (offset : Nat) (fault : SelectorFault) : Moving α := throw (fault, offset)

def refuse {α : Type} (fault : SelectorFault) : Moving α := do refuseAt (← get) fault

/-- Compounds from left to right and the combinators between them. -/
structure Chain where
  compounds : List Compound
  combinators : List Combinator

section

variable (source : List Char)

/-- The pattern between two offsets. -/
def slice (start stop : Nat) : Moving (List Char) :=
  match Text.slice? start stop source with
  | some text => pure text
  | none => stuck

/-- What is left of the pattern. -/
def left : Moving (List Char) := do slice source (← get) (Text.byteLength source)

def peek : Moving (Option Char) := return (← left source).head?

def advance (n : Nat) : Moving Unit := modify (· + n)

def eat (c : Char) : Moving Bool := do
  if (← peek source) == some c then
    advance c.utf8Size
    return true
  else
    return false

def expect (c : Char) : Moving Unit := do
  unless (← eat source c) do refuse (.missingChar c)

/-- Move over the characters that pass a test, each with its own step. -/
def skipWhile (test : Char → Bool) (step : Char → Nat) : Nat → Moving Unit
  | 0 => stuck
  | fuel + 1 => do
      match ← peek source with
      | none => return
      | some c =>
          if test c then
            advance (step c)
            skipWhile test step fuel

def blanks : Moving Bool := do
  let start ← get
  skipWhile source Text.isWhiteSpace Char.utf8Size (source.length + 1)
  return start < (← get)

/-- The characters of a name and of a number have one byte. -/
def name : Moving String := do
  let start ← get
  skipWhile source isNamePart (fun _ => 1) (source.length + 1)
  return String.ofList (← slice source start (← get))

/-- The value of a string that starts at an offset, up to its closing quote. -/
def quoted (start : Nat) (quote : Char) : Nat → Moving (List Char)
  | 0 => stuck
  | fuel + 1 => do
      match ← peek source with
      | none => refuseAt start .unterminatedString
      | some c =>
          advance c.utf8Size
          if c == '\\' then
            match ← peek source with
            | none => refuseAt start .unterminatedString
            | some escaped =>
                advance escaped.utf8Size
                return escaped :: (← quoted start quote fuel)
          else if c == quote then return []
          else return c :: (← quoted start quote fuel)

/-- The source of a regular expression that starts at an offset, up to its closing slash. -/
def slashed (start : Nat) : Nat → Moving (List Char)
  | 0 => stuck
  | fuel + 1 => do
      match ← peek source with
      | none => refuseAt start .unterminatedRegex
      | some c =>
          advance c.utf8Size
          if c == '/' then return []
          else if c == '\\' then
            match ← peek source with
            | none => return c :: (← slashed start fuel)
            | some escaped =>
                advance escaped.utf8Size
                return c :: escaped :: (← slashed start fuel)
          else return c :: (← slashed start fuel)

def flags : Nat → RegexFlags → Moving RegexFlags
  | 0, _ => stuck
  | fuel + 1, found => do
      match (← peek source).filter Char.isAlpha with
      | none => return found
      | some flag =>
          let more ←
            match flag with
            | 'i' => pure { found with ignoreCase := true }
            | 'm' => pure { found with multiLine := true }
            | 's' => pure { found with dotAll := true }
            | 'u' => pure found
            | other => refuse (.unsupportedFlag other)
          advance 1
          flags fuel more

variable [RegexEngine]

def regex : Moving SelectorLiteral := do
  let start ← get
  advance 1
  let text ← slashed source start (source.length + 1)
  let found ← flags source (source.length + 1) {}
  match RegexEngine.compile? found (String.ofList text) with
  | none => refuseAt start .invalidRegex
  | some regex => return .pattern regex

def number : Moving SelectorLiteral := do
  let start ← get
  if (← peek source) == some '-' then advance 1
  skipWhile source (fun c => c.isDigit || c == '.') (fun _ => 1) (source.length + 1)
  let text ← slice source start (← get)
  if isNumber text then
    return .number
      (if text.head? == some '-' then -Decimal.ofText text.tail else Decimal.ofText text)
  else
    refuseAt start (.invalidNumber (String.ofList text))

def literal : Moving SelectorLiteral := do
  match ← peek source with
  | none => refuse .missingValue
  | some c =>
      if c == '\'' || c == '"' then
        let start ← get
        advance 1
        return .text (String.ofList (← quoted source start c (source.length + 1)))
      else if c == '/' then regex source
      else if c.isDigit || c == '-' || c == '.' then number source
      else if isNameStart c then
        match ← name source with
        | "true" => return .bool true
        | "false" => return .bool false
        | "null" => return .null
        | word => return .text word
      else refuse .missingValue

def segment : Moving String := do
  if (← peek source).any fun c => isNameStart c || c.isDigit then name source
  else refuse .missingAttribute

def segments : Nat → Moving (List String)
  | 0 => stuck
  | fuel + 1 => do
      if ← eat source '.' then return (← segment source) :: (← segments fuel)
      else return []

def test : Moving AttributeTest := do
  if ← eat source ']' then return .isPresent
  else
    let test ←
      if "!=".toList.isPrefixOf (← left source) then do
        advance 2
        let _ ← blanks source
        pure (.differs (← literal source))
      else if ← eat source '=' then do
        let _ ← blanks source
        pure (.equals (← literal source))
      else refuse .missingTest
    let _ ← blanks source
    expect source ']'
    return test

def bracketed : Moving Attribute := do
  expect source '['
  let _ ← blanks source
  let first ← segment source
  let path := first :: (← segments source (source.length + 1))
  let _ ← blanks source
  return { path, test := ← test source }

def attributes : Nat → Moving (List Attribute)
  | 0 => stuck
  | fuel + 1 => do
      if (← peek source) == some '[' then
        return (← bracketed source) :: (← attributes fuel)
      else return []

def head : Moving (Option NodeKind × Bool) := do
  let start ← get
  if ← eat source '*' then return (none, true)
  else if (← peek source).any isNameStart then
    let name ← name source
    match NodeKind.ofName? name with
    | some kind => return (some kind, true)
    | none => refuseAt start (.unknownKind name)
  else return (none, false)

def compound : Moving Compound := do
  let (kind, hasHead) ← head source
  let attributes ← attributes source (source.length + 1)
  if (← peek source) == some ':' then refuse .pseudoClass
  if !hasHead && attributes.isEmpty then refuse .missingCompound
  return { kind, attributes }

def unexpected {α : Type} : Moving α := do
  match ← peek source with
  | some c => refuse (.unexpectedChar c)
  | none => refuse .unexpectedEnd

/-- The compounds that follow those read so far. -/
def continuation : Nat → Chain → Moving Chain
  | 0, _ => stuck
  | fuel + 1, chain => do
      let separated ← blanks source
      let extend := fun (combinator : Combinator) => do
        let next ← compound source
        continuation fuel ⟨chain.compounds ++ [next], chain.combinators ++ [combinator]⟩
      match ← peek source with
      | none => return chain
      | some c =>
          if c == ',' then return chain
          else if c == '>' then
            advance 1
            let _ ← blanks source
            extend .child
          else if separated then extend .descendant
          else unexpected source

def complex : Moving Chain := do
  let first ← compound source
  continuation source (source.length + 1) ⟨[first], []⟩

def alternatives : Nat → Moving (List Chain)
  | 0 => stuck
  | fuel + 1 => do
      let _ ← blanks source
      let first ← complex source
      let _ ← blanks source
      if ← eat source ',' then return first :: (← alternatives fuel)
      else if (← peek source).isNone then return [first]
      else unexpected source

end

end Moving

/-- The alternatives that a pattern writes, read by offsets. -/
def parseAt? [RegexEngine] (pattern : String) :
    Option (Except (SelectorFault × Nat) (List Moving.Chain)) :=
  let source := pattern.toList
  ((Moving.alternatives source (source.length + 1)).run 0).run.map fun result =>
    result.map Prod.fst

end EcmaLint.Selector
