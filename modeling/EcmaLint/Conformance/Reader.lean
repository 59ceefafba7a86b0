import EcmaLint.Conformance.Case
import EcmaLint.Json.Printer
import EcmaLint.Lint.Options

/-! Test cases from JSON texts. -/
namespace EcmaLint.Conformance

open Json Json.Decoder

/-- A field of a record that is written as a list, which must be there. -/
def requiredItem {α : Type} (type : String) (fields index : Nat) (decoder : Decoder α)
    (documents : List Document) (ending : Option Fault) :
    Except DecodeError (α × List Document) := do
  match ← nextItem decoder documents ending with
  | (some value, rest) => return (value, rest)
  | (none, _) => throw (tooShort index type fields)

/-- A field that must have been read. -/
def requiredField {α : Type} (name : String) : Option α → Except DecodeError α
  | some value => .ok value
  | none => .error (.missingField name)

namespace ValidDetails

def fields : List String := ["code", "options", "parseOptions", "name"]

structure Parts where
  code : Option String := none
  options : Option (List Json) := none
  parseOptions : Option (Option ParseOptions) := none
  name : Option (Option String) := none

def Parts.member (parts : Parts) (name : String) (document : Document) :
    Except DecodeError Parts := do
  match name with
  | "code" => return { parts with code := ← once name parts.code string document }
  | "options" => return { parts with options := ← once name parts.options (list value) document }
  | "parseOptions" =>
      let read ← once name parts.parseOptions (optional ParseOptions.decoder) document
      return { parts with parseOptions := read }
  | "name" => return { parts with name := ← once name parts.name (optional string) document }
  | _ => throw (.unknownField name fields)

def Parts.finish (parts : Parts) : Except DecodeError ValidDetails := do
  return {
    code := ← requiredField "code" parts.code
    options := parts.options.getD []
    parseOptions := parts.parseOptions.join
    name := parts.name.join }

def decoder : Decoder ValidDetails :=
  record "ValidCaseDetails" ({} : Parts) Parts.member Parts.finish fun documents ending => do
    let (code, rest) ← requiredItem "ValidCaseDetails" 4 0 string documents ending
    let (options, rest) ← nextItem (list value) rest ending
    let (parseOptions, rest) ← nextItem (optional ParseOptions.decoder) rest ending
    let (name, rest) ← nextItem (optional string) rest ending
    return (⟨code, options.getD [], parseOptions.join, name.join⟩, rest)

end ValidDetails

def ValidCase.decoder : Decoder ValidCase :=
  firstOf "ValidCase"
    [fun document => ValidCase.code <$> string document,
     fun document => ValidCase.detailed <$> ValidDetails.decoder document]

namespace SuggestionMatcher

def fields : List String := ["messageId", "desc", "data", "output"]

structure Parts where
  messageId : Option (Option String) := none
  description : Option (Option String) := none
  data : Option (Option (List (String × String))) := none
  output : Option String := none

def Parts.member (parts : Parts) (name : String) (document : Document) :
    Except DecodeError Parts := do
  match name with
  | "messageId" =>
      return { parts with messageId := ← once name parts.messageId (optional string) document }
  | "desc" =>
      return { parts with description := ← once name parts.description (optional string) document }
  | "data" => return { parts with data := ← once name parts.data (optional (map string)) document }
  | "output" => return { parts with output := ← once name parts.output string document }
  | _ => throw (.unknownField name fields)

def Parts.finish (parts : Parts) : Except DecodeError SuggestionMatcher := do
  return {
    messageId := parts.messageId.join
    description := parts.description.join
    data := parts.data.join
    output := ← requiredField "output" parts.output }

def decoder : Decoder SuggestionMatcher :=
  record "SuggestionMatcher" ({} : Parts) Parts.member Parts.finish fun documents ending => do
    let (messageId, rest) ← nextItem (optional string) documents ending
    let (description, rest) ← nextItem (optional string) rest ending
    let (data, rest) ← nextItem (optional (map string)) rest ending
    let (output, rest) ← requiredItem "SuggestionMatcher" 4 3 string rest ending
    return (⟨messageId.join, description.join, data.join, output⟩, rest)

end SuggestionMatcher

/-- A value for a placeholder. What is no text stands for its JSON text. -/
def dataText : Decoder String := fun document => do
  match ← value document with
  | .string text => return text
  | other => return other.render

namespace ErrorMatcher

def fields : List String :=
  ["messageId", "message", "data", "type", "line", "column", "endLine", "endColumn", "suggestions"]

/-- A matcher in which every field has been read at most once. -/
structure Parts where
  messageId : Option (Option String) := none
  message : Option (Option String) := none
  data : Option (Option (List (String × String))) := none
  nodeType : Option (Option String) := none
  line : Option (Option Nat) := none
  column : Option (Option Nat) := none
  endLine : Option (Option Nat) := none
  endColumn : Option (Option Nat) := none
  suggestions : Option (Option (List SuggestionMatcher)) := none

def Parts.member (parts : Parts) (name : String) (document : Document) :
    Except DecodeError Parts := do
  match name with
  | "messageId" =>
      return { parts with messageId := ← once name parts.messageId (optional string) document }
  | "message" =>
      return { parts with message := ← once name parts.message (optional string) document }
  | "data" =>
      return { parts with data := ← once name parts.data (optional (map dataText)) document }
  | "type" =>
      return { parts with nodeType := ← once name parts.nodeType (optional string) document }
  | "line" => return { parts with line := ← once name parts.line (optional natural32) document }
  | "column" =>
      return { parts with column := ← once name parts.column (optional natural32) document }
  | "endLine" =>
      return { parts with endLine := ← once name parts.endLine (optional natural32) document }
  | "endColumn" =>
      return { parts with endColumn := ← once name parts.endColumn (optional natural32) document }
  | "suggestions" =>
      let decoder := optional (list SuggestionMatcher.decoder)
      return { parts with suggestions := ← once name parts.suggestions decoder document }
  | _ => throw (.unknownField name fields)

def Parts.finish (parts : Parts) : ErrorMatcher :=
  { messageId := parts.messageId.join
    message := parts.message.join
    data := parts.data.join
    nodeType := parts.nodeType.join
    line := parts.line.join
    column := parts.column.join
    endLine := parts.endLine.join
    endColumn := parts.endColumn.join
    suggestions := parts.suggestions.join }

/-- An item of a matcher that is written as a list. All of its items must be there. -/
def item {α : Type} (index : Nat) (decoder : Decoder α) (documents : List Document)
    (ending : Option Fault) : Except DecodeError (Option α × List Document) :=
  requiredItem "DetailedMatcher" 9 index (optional decoder) documents ending

def detailedDecoder : Decoder ErrorMatcher :=
  record "DetailedMatcher" ({} : Parts) Parts.member (fun parts => .ok parts.finish)
    fun documents ending => do
      let (messageId, rest) ← item 0 string documents ending
      let (message, rest) ← item 1 string rest ending
      let (data, rest) ← item 2 (map dataText) rest ending
      let (nodeType, rest) ← item 3 string rest ending
      let (line, rest) ← item 4 natural32 rest ending
      let (column, rest) ← item 5 natural32 rest ending
      let (endLine, rest) ← item 6 natural32 rest ending
      let (endColumn, rest) ← item 7 natural32 rest ending
      let (suggestions, rest) ← item 8 (list SuggestionMatcher.decoder) rest ending
      return (⟨messageId, message, data, nodeType, line, column, endLine, endColumn, suggestions⟩,
        rest)

/-- The matcher that states the message alone. -/
def ofMessage (message : String) : ErrorMatcher := { message := some message }

/-- A matcher: its message alone, or an object with what is stated. -/
def decoder : Decoder ErrorMatcher :=
  firstOf "MatcherRepr" [fun document => ofMessage <$> string document, detailedDecoder]

end ErrorMatcher

def ExpectedErrors.decoder : Decoder ExpectedErrors :=
  firstOf "ExpectedErrors"
    [fun document => ExpectedErrors.count <$> natural64 document,
     fun document => ExpectedErrors.list <$> Json.Decoder.list ErrorMatcher.decoder document]

/-- An output that is stated: `null` for no change, or a text. -/
def ExpectedOutput.decoder : Decoder ExpectedOutput := fun document => do
  match ← optional string document with
  | none => return .unchanged
  | some output => return .text output

namespace InvalidCase

def fields : List String :=
  ["code", "options", "parseOptions", "name", "errors", "output", "passes"]

structure Parts where
  code : Option String := none
  options : Option (List Json) := none
  parseOptions : Option (Option ParseOptions) := none
  name : Option (Option String) := none
  errors : Option ExpectedErrors := none
  output : Option ExpectedOutput := none
  passes : Option Nat := none

def Parts.member (parts : Parts) (name : String) (document : Document) :
    Except DecodeError Parts := do
  match name with
  | "code" => return { parts with code := ← once name parts.code string document }
  | "options" => return { parts with options := ← once name parts.options (list value) document }
  | "parseOptions" =>
      let read ← once name parts.parseOptions (optional ParseOptions.decoder) document
      return { parts with parseOptions := read }
  | "name" => return { parts with name := ← once name parts.name (optional string) document }
  | "errors" =>
      return { parts with errors := ← once name parts.errors ExpectedErrors.decoder document }
  | "output" =>
      return { parts with output := ← once name parts.output ExpectedOutput.decoder document }
  | "passes" => return { parts with passes := ← once name parts.passes natural64 document }
  | _ => throw (.unknownField name fields)

def Parts.finish (parts : Parts) : Except DecodeError InvalidCase := do
  return {
    code := ← requiredField "code" parts.code
    options := parts.options.getD []
    parseOptions := parts.parseOptions.join
    name := parts.name.join
    errors := ← requiredField "errors" parts.errors
    output := parts.output.getD .unstated
    passes := parts.passes.getD 1 }

def decoder : Decoder InvalidCase :=
  record "InvalidCase" ({} : Parts) Parts.member Parts.finish fun documents ending => do
    let (code, rest) ← requiredItem "InvalidCase" 7 0 string documents ending
    let (options, rest) ← nextItem (list value) rest ending
    let (parseOptions, rest) ← nextItem (optional ParseOptions.decoder) rest ending
    let (name, rest) ← nextItem (optional string) rest ending
    let (errors, rest) ← requiredItem "InvalidCase" 7 4 ExpectedErrors.decoder rest ending
    let (output, rest) ← nextItem ExpectedOutput.decoder rest ending
    let (passes, rest) ← nextItem natural64 rest ending
    return (⟨code, options.getD [], parseOptions.join, name.join, errors,
      output.getD .unstated, passes.getD 1⟩, rest)

end InvalidCase

namespace TestCases

structure Parts where
  valid : Option (List ValidCase) := none
  invalid : Option (List InvalidCase) := none

def Parts.member (parts : Parts) (name : String) (document : Document) :
    Except DecodeError Parts := do
  match name with
  | "valid" =>
      return { parts with valid := ← once name parts.valid (list ValidCase.decoder) document }
  | "invalid" =>
      return { parts with invalid := ← once name parts.invalid (list InvalidCase.decoder) document }
  | _ => throw (.unknownField name ["valid", "invalid"])

def Parts.finish (parts : Parts) : TestCases := ⟨parts.valid.getD [], parts.invalid.getD []⟩

def decoder : Decoder TestCases :=
  record "TestCases" ({} : Parts) Parts.member (fun parts => .ok parts.finish)
    fun documents ending => do
      let (valid, rest) ← nextItem (list ValidCase.decoder) documents ending
      let (invalid, rest) ← nextItem (list InvalidCase.decoder) rest ending
      return (⟨valid.getD [], invalid.getD []⟩, rest)

/-- The cases that a JSON text holds. -/
def ofJsonText (text : String) : Except DecodeError TestCases := decodeText decoder text

end TestCases

end EcmaLint.Conformance
