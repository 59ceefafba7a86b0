/-! JSON values. Whole numbers keep their exact value, every other number is a double,
and the members of an object are sorted by name, each name once. -/
namespace EcmaLint

inductive Json.Number where
  | natural (value : Nat)
  /-- The negative number of this size, which is not zero. -/
  | negative (size : Nat)
  | double (value : Float)
  deriving BEq, Repr, Inhabited

inductive Json where
  | null
  | bool (value : Bool)
  | number (value : Json.Number)
  | string (value : String)
  | array (items : List Json)
  | object (members : List (String × Json))
  deriving BEq, Inhabited

namespace Json

/-- The number a double stands for when two numbers are compared. -/
def Number.toFloat : Number → Float
  | natural value => Float.ofNat value
  | negative size => -Float.ofNat size
  | double value => value

/-- Put a member into a sorted list of members; a member with the same name is replaced. -/
def insertMember {α : Type} (name : String) (value : α) : List (String × α) → List (String × α)
  | [] => [(name, value)]
  | (other, old) :: rest =>
      if name < other then (name, value) :: (other, old) :: rest
      else if name = other then (name, value) :: rest
      else (other, old) :: insertMember name value rest

/-- Sort members by name. Of several members with one name the last one counts. -/
def sortMembers {α : Type} (members : List (String × α)) : List (String × α) :=
  members.foldl (fun sorted (name, value) => insertMember name value sorted) []

/-- The object with the given members. -/
def ofMembers (members : List (String × Json)) : Json := .object (sortMembers members)

/-- The whole number `n`. -/
def nat (n : Nat) : Json := .number (.natural n)

/-- The member of an object with a name. -/
def member? (json : Json) (name : String) : Option Json :=
  match json with
  | .object members => members.lookup name
  | _ => none

def string? : Json → Option String
  | .string value => some value
  | _ => none

def items? : Json → Option (List Json)
  | .array items => some items
  | _ => none

/-- A member that is left out where there is no value. -/
def optionalMember (name : String) (value : Option Json) : List (String × Json) :=
  (value.map fun value => (name, value)).toList

end Json

end EcmaLint
