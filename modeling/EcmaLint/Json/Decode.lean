import EcmaLint.Decimal.Notation
import EcmaLint.Json.Reader
import EcmaLint.Text.Visible

/-! Typed values from JSON documents. A decoder goes through a document in text order and
stops at the first thing that does not fit. -/
namespace EcmaLint.Json

/-- The causes for which a document does not give a value of a type. -/
inductive DecodeError where
  /-- The text itself is broken. -/
  | broken (fault : Fault)
  | invalidType (found expected : String)
  | invalidValue (found expected : String)
  | invalidLength (length : Nat) (expected : String)
  | missingField (name : String)
  | duplicateField (name : String)
  | unknownField (name : String) (known : List String)
  | unknownVariant (name : String) (known : List String)
  /-- None of the forms of a type fits. -/
  | noForm (type : String)
  /-- A condition of the type itself does not hold. -/
  | refused (reason : String)
  deriving DecidableEq, Repr

/-- A choice of names, as messages list them. -/
def oneOf : List String → String
  | [] => "there are no fields"
  | [name] => "`" ++ name ++ "`"
  | [first, second] => "`" ++ first ++ "` or `" ++ second ++ "`"
  | names => "one of " ++ ", ".intercalate (names.map fun name => "`" ++ name ++ "`")

def DecodeError.message : DecodeError → String
  | broken fault => fault.message
  | invalidType found expected => "invalid type: " ++ found ++ ", expected " ++ expected
  | invalidValue found expected => "invalid value: " ++ found ++ ", expected " ++ expected
  | invalidLength length expected =>
      "invalid length " ++ toString length ++ ", expected " ++ expected
  | missingField name => "missing field `" ++ name ++ "`"
  | duplicateField name => "duplicate field `" ++ name ++ "`"
  | unknownField name known => "unknown field `" ++ name ++ "`, expected " ++ oneOf known
  | unknownVariant name known => "unknown variant `" ++ name ++ "`, expected " ++ oneOf known
  | noForm type => "data did not match any variant of untagged enum " ++ type
  | refused reason => reason

/-- A way to read values of a type off documents. -/
abbrev Decoder (α : Type) := Document → Except DecodeError α

/-- How messages name a number. -/
def Number.describe : Number → String
  | natural value => "integer `" ++ toString value ++ "`"
  | negative size => "integer `-" ++ toString size ++ "`"
  | double value => "floating point `" ++ Decimal.json value ++ "`"

/-- How messages name a string. -/
def describeString (text : String) : String := "string " ++ Text.quoted text

namespace Document

/-- How messages name a document that is of the wrong type. -/
def describe : Document → String
  | .broken fault => fault.message
  | .null => "null"
  | .bool value => "boolean `" ++ toString value ++ "`"
  | .number value => value.describe
  | .string value => describeString value
  | .array _ _ => "sequence"
  | .object _ _ => "map"

/-- The error for a document of the wrong type. A fault of the text comes first. -/
def mismatch (document : Document) (expected : String) : DecodeError :=
  match document with
  | .broken fault => .broken fault
  | document => .invalidType document.describe expected

end Document

/-- Pass a fault of the text on as an error. -/
def liftFault {α : Type} : Except Fault α → Except DecodeError α
  | .ok value => .ok value
  | .error fault => .error (.broken fault)

namespace Decoder

def string : Decoder String
  | .string value => .ok value
  | document => .error (document.mismatch "a string")

def bool : Decoder Bool
  | .bool value => .ok value
  | document => .error (document.mismatch "a boolean")

/-- A whole number up to a limit, for a type of the given name. -/
def natural (type : String) (largest : Nat) : Decoder Nat
  | .number (.natural value) =>
      if value ≤ largest then .ok value
      else .error (.invalidValue (Number.natural value).describe type)
  | .number (.negative size) => .error (.invalidValue (Number.negative size).describe type)
  | document => .error (document.mismatch type)

/-- Whole numbers of 64, 32 and 16 bits. -/
def natural64 : Decoder Nat := natural "usize" (Nat.pow 2 64 - 1)

def natural32 : Decoder Nat := natural "u32" (Nat.pow 2 32 - 1)

def natural16 : Decoder Nat := natural "u16" (Nat.pow 2 16 - 1)

/-- Any value at all. -/
def value : Decoder Json := fun document => liftFault document.toJson

/-- A value that may be `null`. -/
def optional {α : Type} (decoder : Decoder α) : Decoder (Option α)
  | .null => .ok none
  | document => some <$> decoder document

/-- The fault that ends a list after all of it was read. -/
def afterItems (ending : Option Fault) : Except DecodeError Unit :=
  liftFault (Document.closing ending)

/-- Decode each item of a list. -/
def items {α : Type} (decoder : Decoder α) : List Document → Except DecodeError (List α)
  | [] => .ok []
  | item :: rest => do
      let first ← decoder item
      return first :: (← items decoder rest)

/-- A list of values. -/
def list {α : Type} (decoder : Decoder α) : Decoder (List α)
  | .array documents ending => do
      let values ← items decoder documents
      afterItems ending
      return values
  | document => .error (document.mismatch "a sequence")

/-- Decode the members of an object one after the other. -/
def foldMembers {σ : Type} (step : σ → String → Document → Except DecodeError σ) :
    σ → List (String × Document) → Except DecodeError σ
  | state, [] => .ok state
  | state, (name, value) :: rest => do foldMembers step (← step state name value) rest

/-- The values of a map by name. Of several with one name the last one counts. -/
def map {α : Type} (decoder : Decoder α) : Decoder (List (String × α))
  | .object members ending => do
      let entries ← foldMembers
        (fun entries name document => do
          return insertMember name (← decoder document) entries)
        [] members
      afterItems ending
      return entries
  | document => .error (document.mismatch "a map")

/-- A part of a document that may not be there or be there only once. -/
def once {α : Type} (name : String) (seen : Option α) (decoder : Decoder α) (document : Document) :
    Except DecodeError (Option α) :=
  if seen.isSome then .error (.duplicateField name) else some <$> decoder document

/-- A member that nobody asked for. It is read past. -/
def ignored {σ : Type} (state : σ) (document : Document) : Except DecodeError σ := do
  let _ ← value document
  return state

/-- The error for a list that ended before a field of a record. -/
def tooShort (length : Nat) (type : String) (fields : Nat) : DecodeError :=
  .invalidLength length
    ("struct " ++ type ++ " with " ++ toString fields ++ " element" ++
      (if fields = 1 then "" else "s"))

/-- What may follow the fields of a record that is written as a list: nothing. In a text
a further item is a fault of the text; in a value it is a list that is too long. -/
def noMoreItems (rest : List Document) (ending : Option Fault) : Except DecodeError Unit :=
  match rest, ending with
  | [], none => .ok ()
  | [], some .trailingComma => .error (.broken .trailingComma)
  | [], some .endInList => .error (.broken .endInList)
  | _, _ => .error (.broken .trailingCharacters)

/-- Decode the next item of a list, if the list goes on. -/
def nextItem {α : Type} (decoder : Decoder α) (documents : List Document) (ending : Option Fault) :
    Except DecodeError (Option α × List Document) := do
  match documents with
  | [] =>
      afterItems ending
      return (none, [])
  | document :: rest => return (some (← decoder document), rest)

/-- A record, written as an object or as a list of its fields in order. An object is read
member by member into a state, which must be complete in the end. -/
def record {σ α : Type} (type : String) (start : σ)
    (step : σ → String → Document → Except DecodeError σ) (finish : σ → Except DecodeError α)
    (fromItems : List Document → Option Fault → Except DecodeError (α × List Document)) :
    Decoder α
  | .object members ending => do
      let state ← foldMembers step start members
      afterItems ending
      finish state
  | .array documents ending => do
      let (value, rest) ← fromItems documents ending
      noMoreItems rest ending
      return value
  | document => .error (document.mismatch ("struct " ++ type))

/-- The first decoder that fits. The text has to be in order first. -/
def firstOf {α : Type} (type : String) (forms : List (Decoder α)) : Decoder α := fun document => do
  let _ ← value document
  match forms.findSome? fun form => (form document).toOption with
  | some value => return value
  | none => throw (.noForm type)

/-- The value `null`. -/
def unit : Decoder Unit
  | .null => .ok ()
  | document => .error (document.mismatch "unit")

/-- One of a list of names, written as a string or as an object with that one name. -/
def variant {α : Type} (names : List (String × α)) : Decoder α := fun document => do
  let choose := fun name =>
    match names.lookup name with
    | some value => .ok value
    | none => .error (.unknownVariant name (names.map Prod.fst))
  match document with
  | .string name => choose name
  | .object ((name, content) :: rest) ending =>
      let chosen ← choose name
      unit content
      match rest, ending with
      | [], none => return chosen
      | [], some .endInObject => throw (.broken .endInObject)
      | _, _ => throw (.broken .expectedValue)
  | .broken fault => throw (.broken fault)
  | _ => throw (.broken .expectedValue)

/-- One of a list of names, in a value that is no text. The name may also be the only member
of an object, with nothing in it. -/
def variantOfValue {α : Type} (names : List (String × α)) : Decoder α := fun document => do
  let choose := fun name =>
    match names.lookup name with
    | some value => .ok value
    | none => .error (.unknownVariant name (names.map Prod.fst))
  match document with
  | .string name => choose name
  | .object [(name, content)] _ =>
      let chosen ← choose name
      unit content
      return chosen
  | .object _ _ => throw (.invalidValue "map" "map with a single key")
  | document => throw (document.mismatch "string or map")

/-- A record in a value that is no text. A list must not have more items than the record has
fields. -/
def recordOfValue {σ α : Type} (type : String) (start : σ)
    (step : σ → String → Document → Except DecodeError σ) (finish : σ → Except DecodeError α)
    (fromItems : List Document → Option Fault → Except DecodeError (α × List Document)) :
    Decoder α
  | .array documents ending => do
      let (value, rest) ← fromItems documents ending
      if rest.isEmpty then return value
      else throw (.invalidLength documents.length "fewer elements in array")
  | document => record type start step finish fromItems document

end Decoder

/-- Decode a whole text. -/
def decodeText {α : Type} (decoder : Decoder α) (text : String) : Except DecodeError α := do
  let { document, ending } := readText text
  let value ← decoder document
  liftFault (Document.closing ending)
  return value

/-- Decode a value. -/
def decode {α : Type} (decoder : Decoder α) (json : Json) : Except DecodeError α :=
  decoder (.ofJson json)

end EcmaLint.Json
