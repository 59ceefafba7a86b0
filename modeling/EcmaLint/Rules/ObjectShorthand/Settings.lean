import EcmaLint.Json.Decode
import EcmaLint.Lint.Rule

/-! The options of the rule on shorthand in object literals: a mode, and a record of
exceptions from it. -/
namespace EcmaLint.Rules.ObjectShorthand

open Json Json.Decoder

/-- What the rule asks for. -/
inductive Mode where
  /-- Shorthand wherever there is one. -/
  | always
  /-- Shorthand for functions. -/
  | methods
  /-- Shorthand for variables. -/
  | properties
  /-- No shorthand. -/
  | never
  /-- All of an object in shorthand or nothing of it. -/
  | consistent
  /-- The same, but in shorthand if all of it can be. -/
  | consistentAsNeeded
  deriving DecidableEq, Repr

namespace Mode

def named : List (String × Mode) :=
  [("always", .always), ("methods", .methods), ("properties", .properties), ("never", .never),
   ("consistent", .consistent), ("consistent-as-needed", .consistentAsNeeded)]

def asksForMethods (mode : Mode) : Bool := mode == .always || mode == .methods

def asksForProperties (mode : Mode) : Bool := mode == .always || mode == .properties

end Mode

/-- The record of exceptions as it is written. What is not written is none. -/
structure Exceptions where
  avoidQuotes : Option Bool := none
  ignoreConstructors : Option Bool := none
  methodsIgnorePattern : Option (Option String) := none
  avoidExplicitReturnArrows : Option Bool := none

namespace Exceptions

def member (exceptions : Exceptions) (name : String) (document : Document) :
    Except DecodeError Exceptions := do
  match name with
  | "avoidQuotes" =>
      return { exceptions with avoidQuotes := ← once name exceptions.avoidQuotes bool document }
  | "ignoreConstructors" =>
      let value ← once name exceptions.ignoreConstructors bool document
      return { exceptions with ignoreConstructors := value }
  | "methodsIgnorePattern" =>
      let value ← once name exceptions.methodsIgnorePattern (optional string) document
      return { exceptions with methodsIgnorePattern := value }
  | "avoidExplicitReturnArrows" =>
      let value ← once name exceptions.avoidExplicitReturnArrows bool document
      return { exceptions with avoidExplicitReturnArrows := value }
  | _ => ignored exceptions document

def decoder : Decoder Exceptions :=
  recordOfValue "ModeOptions" {} member .ok fun documents ending => do
    let (avoidQuotes, rest) ← nextItem bool documents ending
    let (ignoreConstructors, rest) ← nextItem bool rest ending
    let (methodsIgnorePattern, rest) ← nextItem (optional string) rest ending
    let (avoidExplicitReturnArrows, rest) ← nextItem bool rest ending
    return ({ avoidQuotes, ignoreConstructors, methodsIgnorePattern, avoidExplicitReturnArrows },
      rest)

end Exceptions

structure Settings where
  mode : Mode
  /-- Names in quotes stay as they are, and methods must not have any. -/
  avoidQuotes : Bool
  /-- Functions that look like constructors stay as they are. -/
  ignoreConstructors : Bool
  /-- Functions with such names stay as they are. -/
  ignoredMethods : Option (String → Bool)
  /-- Arrow functions with a block become methods. -/
  avoidExplicitReturnArrows : Bool

namespace Settings

/-- A decoder for the option at an index, if there is one. -/
def option? {α : Type} (decoder : Decoder α) (options : List Json) (index : Nat) :
    Except RuleError (Option α) :=
  match options[index]? with
  | none => .ok none
  | some option =>
      match decode decoder option with
      | .ok value => .ok (some value)
      | .error cause => .error (.invalidOptions cause)

variable [RegexEngine]

/-- The search for the regular expression that a text is. -/
def pattern? : Option String → Except RuleError (Option (String → Bool))
  | none => .ok none
  | some text =>
      match RegexEngine.compile? {} text with
      | some occursIn => .ok (some occursIn)
      | none => .error .invalidPattern

/-- The settings that options give. Every mode but the first has to be asked for. -/
def ofOptions (options : List Json) : Except RuleError Settings := do
  let mode ← option? (variantOfValue Mode.named) options 0
  let exceptions := (← option? Exceptions.decoder options 1).getD {}
  let ignoredMethods ← pattern? exceptions.methodsIgnorePattern.join
  return {
    mode := mode.getD .always
    avoidQuotes := exceptions.avoidQuotes.getD false
    ignoreConstructors := exceptions.ignoreConstructors.getD false
    ignoredMethods
    avoidExplicitReturnArrows := exceptions.avoidExplicitReturnArrows.getD false }

end Settings

/-- The type of a list with schemas for its first items, of which it has at most as many. -/
def listSchema (items : List Json) : Json :=
  .ofMembers
    [("type", .string "array"), ("items", .array items), ("minItems", .nat 0),
     ("maxItems", .nat items.length)]

/-- A choice of modes. -/
def modeSchema (modes : List String) : Json :=
  .ofMembers [("enum", .array (modes.map Json.string))]

/-- A record of exceptions with no other members. -/
def exceptionsSchema (members : List (String × String)) : Json :=
  let typed := members.map fun (name, type) => (name, Json.ofMembers [("type", .string type)])
  .ofMembers
    [("type", .string "object"), ("properties", .ofMembers typed),
     ("additionalProperties", .bool false)]

/-- The options that go together: exceptions only for modes that ask for shorthand, and the
ones on functions only for modes that ask for methods. -/
def schema : OptionsSchema :=
  .full (.ofMembers
    [("anyOf", .array
      [listSchema [modeSchema (Mode.named.map Prod.fst)],
       listSchema
        [modeSchema ["always", "methods", "properties"],
         exceptionsSchema [("avoidQuotes", "boolean")]],
       listSchema
        [modeSchema ["always", "methods"],
         exceptionsSchema
          [("ignoreConstructors", "boolean"), ("methodsIgnorePattern", "string"),
           ("avoidQuotes", "boolean"), ("avoidExplicitReturnArrows", "boolean")]]])])

end EcmaLint.Rules.ObjectShorthand
