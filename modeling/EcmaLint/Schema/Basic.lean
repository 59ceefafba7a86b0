import EcmaLint.Json.Basic

/-! Schemas for JSON values. A schema is a list of keywords that all have to hold, or it
allows everything or nothing. -/
namespace EcmaLint

/-- The types that a schema can ask for. Whole numbers are integers in any notation. -/
inductive Schema.Kind where
  | array | boolean | integer | null | number | object | string
  deriving DecidableEq, Repr

/-- What a schema can count of a value. -/
inductive Schema.Measure where
  | items | characters | members
  deriving DecidableEq, Repr

/-- The sides on which a schema can limit numbers. -/
inductive Schema.Bound where
  | minimum | maximum | exclusiveMinimum | exclusiveMaximum
  deriving DecidableEq, Repr

/-- Whether a number is whole. -/
def Json.Number.isWhole : Json.Number → Bool
  | .double value => value.floor == value && value - value == 0.0
  | _ => true

/-- Whether a number is less than another one. Whole numbers are compared exactly. -/
def Json.Number.less : Json.Number → Json.Number → Bool
  | .natural a, .natural b => a < b
  | .natural _, .negative _ => false
  | .negative _, .natural _ => true
  | .negative a, .negative b => b < a
  | a, b => a.toFloat < b.toFloat

namespace Schema.Kind

def name : Kind → String
  | .array => "array"
  | .boolean => "boolean"
  | .integer => "integer"
  | .null => "null"
  | .number => "number"
  | .object => "object"
  | .string => "string"

def all : List Kind := [.array, .boolean, .integer, .null, .number, .object, .string]

def ofName? (name : String) : Option Kind := all.find? fun kind => kind.name == name

def holds (kind : Kind) (value : Json) : Bool :=
  match kind, value with
  | .array, .array _ | .boolean, .bool _ | .null, .null | .number, .number _
  | .object, .object _ | .string, .string _ => true
  | .integer, .number quantity => quantity.isWhole
  | _, _ => false

end Schema.Kind

/-- The count of a value of the kind that is counted. -/
def Schema.Measure.of? (measure : Measure) (value : Json) : Option Nat :=
  match measure, value with
  | .items, .array list => some list.length
  | .characters, .string text => some text.length
  | .members, .object named => some named.length
  | _, _ => none

/-- Whether a bound lets a number pass. -/
def Schema.Bound.allows (bound : Bound) (limit value : Json.Number) : Bool :=
  match bound with
  | .minimum => !value.less limit
  | .maximum => !limit.less value
  | .exclusiveMinimum => limit.less value
  | .exclusiveMaximum => value.less limit

mutual

inductive Schema where
  | anything
  | nothing
  | keywords (list : List Schema.Keyword)

inductive Schema.Keyword where
  | kinds (allowed : List Schema.Kind)
  | constant (value : Json)
  | values (allowed : List Json)
  | atLeast (measure : Schema.Measure) (count : Nat)
  | atMost (measure : Schema.Measure) (count : Nat)
  | bound (bound : Schema.Bound) (limit : Json.Number)
  | requiredMembers (names : List String)
  | distinctItems
  | pattern (text : String) (occursIn : String → Bool)
  | everyItem (schema : Schema)
  | someItem (schema : Schema)
  /-- Schemas for the first items, and one for those that follow. -/
  | itemsInOrder (schemas : List Schema) (others : Schema)
  /-- Schemas for the named members, and one for the others. -/
  | members (schemas : List (String × Schema)) (others : Schema)
  | noMembers
  | memberNames (schema : Schema)
  | allOf (schemas : List Schema)
  | anyOf (schemas : List Schema)
  | oneOf (schemas : List Schema)
  /-- A schema, in its written form as well, that must not hold. -/
  | forbidden (written : Json) (schema : Schema)
  /-- One schema if another one holds, and one if it does not. -/
  | conditional (condition consequent alternate : Schema)

end

instance : Inhabited Schema := ⟨.anything⟩

end EcmaLint
