import EcmaLint.Regex.Engine
import EcmaLint.Schema.Basic

/-! Schemas from JSON. Keywords that are not known say nothing, and a known keyword with a
value that it cannot have makes the whole schema invalid. -/
namespace EcmaLint.Schema

/-- The schemas in the value of one member of a schema. -/
inductive Part where
  | one (schema : Schema)
  | list (schemas : List Schema)
  | named (schemas : List (String × Schema))
  | plain

/-- A member of a schema: its value, and the schemas in it. -/
structure Entry where
  value : Json
  part : Part

/-- The schema that a member is. -/
def Entry.schema? (entry : Entry) : Option Schema :=
  match entry.part with
  | .one schema => some schema
  | _ => none

/-- The schema that the member with a name is, or one that allows everything. -/
def schemaNamed (entries : List (String × Entry)) (name : String) : Schema :=
  ((entries.lookup name).bind Entry.schema?).getD .anything

def kind? (value : Json) : Option Kind := do Kind.ofName? (← value.string?)

/-- The types that a value of the keyword `type` names: one, or a list without repetition. -/
def kinds? : Json → Option (List Kind)
  | .array [] => none
  | .array names => do
      let kinds ← names.mapM kind?
      if kinds.length = kinds.eraseDups.length then some kinds else none
  | name => do return [← kind? name]

/-- A count is a whole number that is not negative, in any notation. -/
def count? : Json → Option Nat
  | .number (.natural count) => some count
  | .number (.double value) =>
      if Json.Number.isWhole (.double value) && 0.0 ≤ value then some value.toUInt64.toNat
      else none
  | _ => none

def number? : Json → Option Json.Number
  | .number value => some value
  | _ => none

/-- A list of names, each of them once. -/
def names? (value : Json) : Option (List String) := do
  let names ← (← value.items?).mapM Json.string?
  if names.length = names.eraseDups.length then some names else none

variable [RegexEngine]

def pattern? (value : Json) : Option Keyword := do
  let text ← value.string?
  return .pattern text (← RegexEngine.compileInSchema? text)

def bool? : Json → Option Bool
  | .bool value => some value
  | _ => none

/-- Whether a value can be one of a keyword that says nothing about values. -/
def isSilent (name : String) (value : Json) : Bool :=
  match name with
  | "$id" | "$schema" | "$ref" | "$comment" | "title" | "description" | "format"
  | "contentMediaType" | "contentEncoding" => value.string?.isSome
  | "readOnly" | "writeOnly" => (bool? value).isSome
  | "examples" => value.items?.isSome
  | "multipleOf" => (number? value).any fun number => Json.Number.less (.natural 0) number
  | _ => true

/-- The keyword of a member without schemas, if it makes one. The outer option is for values
that the keyword cannot have. -/
def plainKeyword? (name : String) (value : Json) : Option (Option Keyword) :=
  match name with
  | "type" => (kinds? value).map fun kinds => some (.kinds kinds)
  | "const" => some (some (.constant value))
  | "enum" => value.items?.map fun values => some (.values values)
  | "minItems" => (count? value).map fun count => some (.atLeast .items count)
  | "maxItems" => (count? value).map fun count => some (.atMost .items count)
  | "minLength" => (count? value).map fun count => some (.atLeast .characters count)
  | "maxLength" => (count? value).map fun count => some (.atMost .characters count)
  | "minProperties" => (count? value).map fun count => some (.atLeast .members count)
  | "maxProperties" => (count? value).map fun count => some (.atMost .members count)
  | "minimum" => (number? value).map fun limit => some (.bound .minimum limit)
  | "maximum" => (number? value).map fun limit => some (.bound .maximum limit)
  | "exclusiveMinimum" => (number? value).map fun limit => some (.bound .exclusiveMinimum limit)
  | "exclusiveMaximum" => (number? value).map fun limit => some (.bound .exclusiveMaximum limit)
  | "required" => (names? value).map fun names => some (.requiredMembers names)
  | "uniqueItems" => (bool? value).map fun asked => if asked then some .distinctItems else none
  | "pattern" => (pattern? value).map some
  | _ => if isSilent name value then some none else none

/-- The keyword of a member with one schema. What is said about other items and about the
outcomes of a condition belongs to another member, and what is said about other members
does if there is a member that names some. -/
def schemaKeyword? (entries : List (String × Entry)) (name : String) (value : Json)
    (schema : Schema) : Option Keyword :=
  match name with
  | "items" => some (.everyItem schema)
  | "contains" => some (.someItem schema)
  | "propertyNames" => some (.memberNames schema)
  | "not" => some (.forbidden value schema)
  | "if" =>
      some (.conditional schema (schemaNamed entries "then") (schemaNamed entries "else"))
  | "additionalProperties" =>
      if (entries.lookup "properties").isSome then none
      else
        match schema with
        | .nothing => some .noMembers
        | schema => some (.members [] schema)
  | _ => none

/-- The keyword of a member with a list of schemas. -/
def listKeyword? (entries : List (String × Entry)) (name : String) (schemas : List Schema) :
    Option Keyword :=
  match name with
  | "items" => some (.itemsInOrder schemas (schemaNamed entries "additionalItems"))
  | "allOf" => some (.allOf schemas)
  | "anyOf" => some (.anyOf schemas)
  | "oneOf" => some (.oneOf schemas)
  | _ => none

/-- The keyword of a member among all members of a schema. -/
def keyword? (entries : List (String × Entry)) (name : String) (entry : Entry) :
    Option (Option Keyword) :=
  match entry.part with
  | .one schema => some (schemaKeyword? entries name entry.value schema)
  | .list schemas => some (listKeyword? entries name schemas)
  | .named schemas =>
      if name = "properties" then
        some (some (.members schemas (schemaNamed entries "additionalProperties")))
      else some none
  | .plain => plainKeyword? name entry.value

/-- Keywords are checked in this order, the cheap ones first. -/
def Keyword.rank : Keyword → Nat
  | .kinds _ => 0
  | .constant _ => 1
  | .bound .minimum _ => 2
  | .bound .maximum _ => 3
  | .bound .exclusiveMinimum _ => 4
  | .bound .exclusiveMaximum _ => 5
  | .atLeast _ _ => 6
  | .atMost _ _ => 7
  | .requiredMembers _ => 8
  | .values _ => 9
  | .pattern _ _ => 10
  | .distinctItems => 11
  | .everyItem _ | .someItem _ | .itemsInOrder _ _ => 12
  | .members _ _ | .noMembers | .memberNames _ => 13
  | .allOf _ | .anyOf _ | .oneOf _ | .forbidden _ _ => 14
  | .conditional _ _ _ => 15

/-- The schema that members make together. -/
def assemble? (entries : List (String × Entry)) : Option Schema := do
  let keywords ← entries.mapM fun (name, entry) => keyword? entries name entry
  return .keywords ((keywords.filterMap id).mergeSort fun a b => a.rank ≤ b.rank)

/-- The members of a schema that are schemas themselves. -/
def schemaMembers : List String :=
  ["additionalItems", "additionalProperties", "contains", "propertyNames", "not", "if", "then",
   "else"]

/-- The members of a schema that are lists of schemas. -/
def listMembers : List String := ["allOf", "anyOf", "oneOf"]

/-- The members of a schema that are schemas by name. -/
def namedMembers : List String := ["properties", "patternProperties", "definitions"]

mutual

/-- The schema that a value stands for. -/
def ofJson? : Json → Option Schema
  | .bool true => some .anything
  | .bool false => some .nothing
  | .object members => do assemble? (← ofMembers? members)
  | _ => none

def ofMembers? : List (String × Json) → Option (List (String × Entry))
  | [] => some []
  | (name, value) :: rest => do
      let part ←
        if name = "items" then itemsOf? value
        else if schemaMembers.contains name then (ofJson? value).map Part.one
        else if listMembers.contains name then (listIn? value).map Part.list
        else if namedMembers.contains name then (namedIn? value).map Part.named
        else if name = "dependencies" then dependenciesIn? value
        else some .plain
      return (name, ⟨value, part⟩) :: (← ofMembers? rest)

/-- What the keyword `items` says: one schema for all items, or one for each. -/
def itemsOf? : Json → Option Part
  | .array [] => none
  | .array schemas => (ofList? schemas).map Part.list
  | value => (ofJson? value).map Part.one

/-- A list of schemas, of which there is at least one. -/
def listIn? : Json → Option (List Schema)
  | .array [] => none
  | .array schemas => ofList? schemas
  | _ => none

def ofList? : List Json → Option (List Schema)
  | [] => some []
  | value :: rest => do
      let schema ← ofJson? value
      return schema :: (← ofList? rest)

def namedIn? : Json → Option (List (String × Schema))
  | .object members => ofNamed? members
  | _ => none

def ofNamed? : List (String × Json) → Option (List (String × Schema))
  | [] => some []
  | (name, value) :: rest => do
      let schema ← ofJson? value
      return (name, schema) :: (← ofNamed? rest)

/-- Members may depend on schemas and on other members. -/
def dependenciesIn? : Json → Option Part
  | .object members => if areDependencies members then some (.named []) else none
  | _ => none

def areDependencies : List (String × Json) → Bool
  | [] => true
  | (_, value) :: rest =>
      ((names? value).isSome || (ofJson? value).isSome) && areDependencies rest

end

end EcmaLint.Schema
