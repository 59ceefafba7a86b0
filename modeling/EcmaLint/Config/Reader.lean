import EcmaLint.Config.Basic
import EcmaLint.Json.Decode
import EcmaLint.Yaml.Block

/-! Configurations from documents. -/
namespace EcmaLint

open Json Json.Decoder

namespace Severity

def expected : String := "a severity ('off', 'warn', 'error' or 0, 1, 2)"

def ofName (name : String) : Except DecodeError Severity :=
  match ofText? name with
  | some severity => .ok severity
  | none => .error (.refused (unknownText name))

def ofNumber (number : Nat) : Except DecodeError Severity :=
  match ofNat? number with
  | some severity => .ok severity
  | none => .error (.refused ("unknown severity: " ++ toString number ++ " (expected 0, 1 or 2)"))

/-- The severity that a document gives by name or by number, if it gives one at all. -/
def read? : Document → Option (Except DecodeError Severity)
  | .string name => some (ofName name)
  | .number (.natural n) => some (ofNumber n)
  | .number (.negative size) =>
      some (.error (.refused ("unknown severity: -" ++ toString size)))
  | _ => none

def decoder : Decoder Severity := fun document =>
  (read? document).getD (.error (document.mismatch expected))

end Severity

namespace RuleSetting

def expected : String :=
  "a severity ('off', 'warn', 'error' or 0, 1, 2), an array [severity, ...options], " ++
    "or an object \x7b severity, options \x7d"

/-- A severity and options, either of which may not have been read yet. -/
structure Parts where
  severity : Option Severity := none
  options : Option (Option Json) := none

def Parts.member (parts : Parts) (name : String) (document : Document) :
    Except DecodeError Parts := do
  match name with
  | "severity" =>
      return { parts with severity := ← once name parts.severity Severity.decoder document }
  | "options" =>
      return { parts with options := ← once name parts.options (optional value) document }
  | _ => throw (.unknownField name ["severity", "options"])

/-- Options that are no list stand for a list of one. -/
def optionList : Option Json → List Json
  | none => []
  | some (.array options) => options
  | some option => [option]

def Parts.finish (parts : Parts) : Except DecodeError RuleSetting :=
  match parts.severity with
  | some severity => .ok (.detailed severity (optionList parts.options.join))
  | none => .error (.missingField "severity")

/-- A setting: a severity, a list of a severity and options, or an object with both. -/
def decoder : Decoder RuleSetting
  | .array [] ending => do
      afterItems ending
      throw (.invalidLength 0 "array with severity")
  | .array (first :: rest) ending => do
      let severity ← Severity.decoder first
      let options ← items value rest
      afterItems ending
      return .detailed severity options
  | .object members ending => do
      let parts ← foldMembers Parts.member {} members
      afterItems ending
      parts.finish
  | document =>
      match Severity.read? document with
      | some found => RuleSetting.severity <$> found
      | none => .error (document.mismatch expected)

end RuleSetting

def Extends.decoder : Decoder Extends :=
  firstOf "ExtendsConfig"
    [fun document => Extends.one <$> string document,
     fun document => Extends.several <$> list string document]

namespace LintConfig

/-- The settings of rules by name. -/
def rulesDecoder : Decoder (RuleMap RuleSetting) := fun document => do
  return RuleMap.empty.insertAll (← map RuleSetting.decoder document)

/-- Presets and settings, either of which may not have been read yet. -/
structure Parts where
  presets : Option (Option Extends) := none
  rules : Option (RuleMap RuleSetting) := none

def Parts.member (parts : Parts) (name : String) (document : Document) :
    Except DecodeError Parts := do
  match name with
  | "extends" =>
      return { parts with presets := ← once name parts.presets (optional Extends.decoder) document }
  | "rules" => return { parts with rules := ← once name parts.rules rulesDecoder document }
  | _ => throw (.unknownField name ["extends", "rules"])

def Parts.finish (parts : Parts) : LintConfig :=
  .full parts.presets.join (parts.rules.getD .empty)

def fullDecoder : Decoder LintConfig :=
  record "FullLintConfig" ({} : Parts) Parts.member (fun parts => .ok parts.finish)
    fun documents ending => do
      let (presets, rest) ← nextItem (optional Extends.decoder) documents ending
      if presets.isNone then throw (tooShort 0 "FullLintConfig" 2)
      let (rules, rest) ← nextItem rulesDecoder rest ending
      return (Parts.finish ⟨presets, rules⟩, rest)

/-- A configuration: presets alone, or an object with presets and settings. -/
def decoder : Decoder LintConfig :=
  firstOf "LintConfig" [fun document => LintConfig.preset <$> Extends.decoder document, fullDecoder]

/-- The configuration that a JSON text holds. -/
def ofJsonText (text : String) : Except DecodeError LintConfig := decodeText decoder text

/-- The configuration that a YAML text holds, if it holds one. -/
def ofYamlText? (text : String) : Option LintConfig := do
  (decode decoder (← Yaml.parse? text)).toOption

end LintConfig

end EcmaLint
