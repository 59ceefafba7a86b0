import EcmaLint.Json.Basic

/-! JSON texts as far as they can be read. A text with a fault is still read up to the
fault, which then takes the place of what could not be read. Whoever decodes a document
works through it in text order, and so meets a fault of the text and a value that does
not fit in the order in which they stand. -/
namespace EcmaLint.Json

/-- The causes for which a text is no JSON. -/
inductive Fault where
  | endInList
  | endInObject
  | endInString
  | endInValue
  | expectedColon
  | expectedListCommaOrEnd
  | expectedObjectCommaOrEnd
  | expectedIdent
  | expectedValue
  | invalidEscape
  | invalidNumber
  | numberOutOfRange
  | controlCharacter
  | keyMustBeString
  | loneSurrogate
  | unfinishedSurrogate
  | trailingComma
  | trailingCharacters
  | tooDeep
  deriving DecidableEq, Repr

def Fault.message : Fault → String
  | endInList => "EOF while parsing a list"
  | endInObject => "EOF while parsing an object"
  | endInString => "EOF while parsing a string"
  | endInValue => "EOF while parsing a value"
  | expectedColon => "expected `:`"
  | expectedListCommaOrEnd => "expected `,` or `]`"
  | expectedObjectCommaOrEnd => "expected `,` or `\x7d`"
  | expectedIdent => "expected ident"
  | expectedValue => "expected value"
  | invalidEscape => "invalid escape"
  | invalidNumber => "invalid number"
  | numberOutOfRange => "number out of range"
  | controlCharacter => "control character (\\u0000-\\u001F) found while parsing a string"
  | keyMustBeString => "key must be a string"
  | loneSurrogate => "lone leading surrogate in hex escape"
  | unfinishedSurrogate => "unexpected end of hex escape"
  | trailingComma => "trailing comma"
  | trailingCharacters => "trailing characters"
  | tooDeep => "recursion limit exceeded"

/-- A text as far as it can be read. Lists and objects carry the fault, if any, that
stands where another item or the end was due. -/
inductive Document where
  | broken (fault : Fault)
  | null
  | bool (value : Bool)
  | number (value : Number)
  | string (value : String)
  | array (items : List Document) (ending : Option Fault)
  | object (members : List (String × Document)) (ending : Option Fault)
  deriving Inhabited

namespace Document

mutual

/-- The document of a value, without any fault. -/
def ofJson : Json → Document
  | .null => .null
  | .bool value => .bool value
  | .number value => .number value
  | .string value => .string value
  | .array items => .array (ofItems items) none
  | .object members => .object (ofMembers members) none

def ofItems : List Json → List Document
  | [] => []
  | item :: rest => ofJson item :: ofItems rest

def ofMembers : List (String × Json) → List (String × Document)
  | [] => []
  | (name, value) :: rest => (name, ofJson value) :: ofMembers rest

end

/-- The fault that ends a list or an object, if any. -/
def closing (ending : Option Fault) : Except Fault Unit :=
  match ending with
  | some fault => .error fault
  | none => .ok ()

mutual

/-- The value of a document, or the first fault of its text. -/
def toJson : Document → Except Fault Json
  | .broken fault => .error fault
  | .null => .ok .null
  | .bool value => .ok (.bool value)
  | .number value => .ok (.number value)
  | .string value => .ok (.string value)
  | .array items ending => do
      let items ← toItems items
      closing ending
      return .array items
  | .object members ending => do
      let members ← toMembers members
      closing ending
      return .object (sortMembers members)

def toItems : List Document → Except Fault (List Json)
  | [] => .ok []
  | item :: rest => do
      let item ← toJson item
      return item :: (← toItems rest)

def toMembers : List (String × Document) → Except Fault (List (String × Json))
  | [] => .ok []
  | (name, value) :: rest => do
      let value ← toJson value
      return (name, value) :: (← toMembers rest)

end

end Document

end EcmaLint.Json
