import EcmaLint.Json.Printer
import EcmaLint.Schema.Basic

/-! Checking values against schemas. All violations are found, in the order of keywords and
of the parts of the value. -/
namespace EcmaLint.Schema

/-- What a value does wrong. -/
inductive Fault where
  | tooMany (measure : Measure) (limit : Nat)
  | tooFew (measure : Measure) (limit : Nat)
  | outOfBound (bound : Bound) (limit : Json.Number)
  | notConstant (expected : Json)
  | notListed (allowed : List Json)
  | wrongKind (allowed : List Kind)
  | patternMismatch (pattern : String)
  | missingMember (name : String)
  | repeatedItems
  | nothingAllowed
  | noAlternative
  | notOneAlternative
  | manyAlternatives
  | noMatchingItem
  | forbidden (schema : Json)
  | extraItems (items : List Json)
  | extraMembers (names : List String)

/-- A part of a value and what it does wrong. -/
structure Violation where
  value : Json
  fault : Fault

/-- A count in words. -/
def Measure.counted (measure : Measure) (count : Nat) : String :=
  let unit :=
    match measure with
    | .items => if count = 1 then " item" else " items"
    | .characters => if count = 1 then " character" else " characters"
    | .members => if count = 1 then " property" else " properties"
  toString count ++ unit

/-- What is said of a count that is too great. -/
def Measure.excess : Measure → String
  | .characters => " is longer than "
  | _ => " has more than "

/-- What is said of a count that is too small. -/
def Measure.lack : Measure → String
  | .characters => " is shorter than "
  | _ => " has less than "

/-- What is said of a number out of a bound. -/
def Bound.breach : Bound → String
  | .minimum => " is less than the minimum of "
  | .maximum => " is greater than the maximum of "
  | .exclusiveMinimum => " is less than or equal to the minimum of "
  | .exclusiveMaximum => " is greater than or equal to the maximum of "

/-- A choice of texts, the last one after an "or". -/
def choice : List String → String
  | [] => ""
  | [text] => text
  | [first, last] => first ++ " or " ++ last
  | first :: rest => first ++ ", " ++ choice rest

/-- The values that are allowed; of more than three only two are shown. -/
def allowedValues (values : List Json) : String :=
  let texts := values.map Json.render
  if texts.length ≤ 3 then choice texts
  else
    ", ".intercalate (texts.take 2) ++ " or " ++ toString (texts.length - 2) ++ " other candidates"

/-- A list of things that were not expected. -/
def unexpected (texts : List String) : String :=
  "(" ++ ", ".intercalate texts ++ (if texts.length = 1 then " was" else " were") ++ " unexpected)"

def Violation.message (violation : Violation) : String :=
  let value := violation.value.render
  match violation.fault with
  | .tooMany measure limit => value ++ measure.excess ++ measure.counted limit
  | .tooFew measure limit => value ++ measure.lack ++ measure.counted limit
  | .outOfBound bound limit => value ++ bound.breach ++ limit.render
  | .notConstant expected => expected.render ++ " was expected"
  | .notListed allowed => value ++ " is not one of " ++ allowedValues allowed
  | .wrongKind [kind] => value ++ " is not of type \"" ++ kind.name ++ "\""
  | .wrongKind kinds =>
      let listed := Kind.all.filter kinds.contains
      value ++ " is not of types " ++ ", ".intercalate (listed.map fun k => "\"" ++ k.name ++ "\"")
  | .patternMismatch pattern => value ++ " does not match \"" ++ pattern ++ "\""
  | .missingMember name => Json.renderString name ++ " is a required property"
  | .repeatedItems => value ++ " has non-unique elements"
  | .nothingAllowed => "False schema does not allow " ++ value
  | .noAlternative =>
      value ++ " is not valid under any of the schemas listed in the 'anyOf' keyword"
  | .notOneAlternative =>
      value ++ " is not valid under any of the schemas listed in the 'oneOf' keyword"
  | .manyAlternatives =>
      value ++ " is valid under more than one of the schemas listed in the 'oneOf' keyword"
  | .noMatchingItem => "None of " ++ value ++ " are valid under the given schema"
  | .forbidden schema => schema.render ++ " is not allowed for " ++ value
  | .extraItems items =>
      "Additional items are not allowed " ++ unexpected (items.map Json.render)
  | .extraMembers names =>
      "Additional properties are not allowed " ++
        unexpected (names.map fun name => "'" ++ name ++ "'")

mutual

/-- Whether two values are the same. Numbers are the same if they have the same value. -/
def same : Json → Json → Bool
  | .null, .null => true
  | .bool a, .bool b => a == b
  | .number (.natural a), .number (.natural b) => a == b
  | .number (.negative a), .number (.negative b) => a == b
  | .number a, .number b => a.toFloat == b.toFloat
  | .string a, .string b => a == b
  | .array as, .array bs => sameItems as bs
  | .object as, .object bs => sameMembers as bs
  | _, _ => false

def sameItems : List Json → List Json → Bool
  | [], [] => true
  | a :: as, b :: bs => same a b && sameItems as bs
  | _, _ => false

def sameMembers : List (String × Json) → List (String × Json) → Bool
  | [], [] => true
  | (name, a) :: as, (other, b) :: bs => name == other && same a b && sameMembers as bs
  | _, _ => false

end

/-- Whether no two items are the same. -/
def areDistinct : List Json → Bool
  | [] => true
  | item :: rest => !rest.any (same item) && areDistinct rest

/-- A violation by the whole value unless a condition holds. -/
def require (holds : Bool) (value : Json) (fault : Fault) : List Violation :=
  if holds then [] else [⟨value, fault⟩]

mutual

/-- The violations of a schema by a value. -/
def violations : Schema → Json → List Violation
  | .anything, _ => []
  | .nothing, value => [⟨value, .nothingAllowed⟩]
  | .keywords list, value => keywordViolations list value

def keywordViolations : List Keyword → Json → List Violation
  | [], _ => []
  | keyword :: rest, value => keyword.violations value ++ keywordViolations rest value

def Keyword.violations : Keyword → Json → List Violation
  | .kinds allowed, value =>
      require (allowed.any fun kind => kind.holds value) value (.wrongKind allowed)
  | .constant expected, value => require (same expected value) value (.notConstant expected)
  | .values allowed, value => require (allowed.any (same value)) value (.notListed allowed)
  | .atLeast measure limit, value =>
      require ((measure.of? value).all fun count => limit ≤ count) value (.tooFew measure limit)
  | .atMost measure limit, value =>
      require ((measure.of? value).all fun count => count ≤ limit) value (.tooMany measure limit)
  | .bound bound limit, .number value =>
      require (bound.allows limit value) (.number value) (.outOfBound bound limit)
  | .requiredMembers names, .object members =>
      names.flatMap fun name =>
        require (members.lookup name).isSome (.object members) (.missingMember name)
  | .distinctItems, .array items => require (areDistinct items) (.array items) .repeatedItems
  | .pattern text occursIn, .string value =>
      require (occursIn value) (.string value) (.patternMismatch text)
  | .everyItem schema, .array items => items.flatMap (violations schema)
  | .someItem schema, .array items =>
      require (items.any fun item => (violations schema item).isEmpty) (.array items)
        .noMatchingItem
  | .itemsInOrder schemas others, .array items =>
      itemViolations schemas items ++
        let following := items.drop schemas.length
        match others with
        | .nothing => require following.isEmpty (.array items) (.extraItems following)
        | others => following.flatMap (violations others)
  | .members schemas .nothing, .object members =>
      let extra := (members.map Prod.fst).filter fun name => (schemas.lookup name).isNone
      (members.flatMap fun (name, value) => (namedViolations? schemas name value).getD []) ++
        require extra.isEmpty (.object members) (.extraMembers extra)
  | .members schemas others, .object members =>
      members.flatMap fun (name, value) =>
        (namedViolations? schemas name value).getD (violations others value)
  | .noMembers, .object ((_, value) :: _) => [⟨value, .nothingAllowed⟩]
  | .memberNames .nothing, .object members =>
      require members.isEmpty (.object members) .nothingAllowed
  | .memberNames schema, .object members =>
      members.flatMap fun (name, _) => violations schema (.string name)
  | .allOf schemas, value => violationsOfAll schemas value
  | .anyOf schemas, value => require (0 < allowingCount schemas value) value .noAlternative
  | .oneOf schemas, value =>
      let count := allowingCount schemas value
      if count = 0 then [⟨value, .notOneAlternative⟩]
      else require (count = 1) value .manyAlternatives
  | .forbidden written schema, value =>
      require (!(violations schema value).isEmpty) value (.forbidden written)
  | .conditional condition consequent alternate, value =>
      if (violations condition value).isEmpty then violations consequent value
      else violations alternate value
  | _, _ => []

/-- The violations by items of the schemas at their positions. -/
def itemViolations : List Schema → List Json → List Violation
  | schema :: schemas, item :: items => violations schema item ++ itemViolations schemas items
  | _, _ => []

/-- The violations by a member of the schema with its name, if there is one. -/
def namedViolations? : List (String × Schema) → String → Json → Option (List Violation)
  | [], _, _ => none
  | (named, schema) :: rest, name, value =>
      if named = name then some (violations schema value) else namedViolations? rest name value

def violationsOfAll : List Schema → Json → List Violation
  | [], _ => []
  | schema :: rest, value => violations schema value ++ violationsOfAll rest value

/-- The number of schemas that allow a value. -/
def allowingCount : List Schema → Json → Nat
  | [], _ => 0
  | schema :: rest, value =>
      (if (violations schema value).isEmpty then 1 else 0) + allowingCount rest value

end

/-- Whether a schema allows a value. -/
def allows (schema : Schema) (value : Json) : Bool := (schema.violations value).isEmpty

end EcmaLint.Schema
