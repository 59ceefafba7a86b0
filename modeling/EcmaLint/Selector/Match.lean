import EcmaLint.Selector.Basic
import EcmaLint.Tree.Place

/-! Which nodes a selector picks. -/
namespace EcmaLint

/-- What a path of names can lead to. -/
inductive AttributeValue where
  | node (node : Node)
  | list (slots : List (Option Node))
  | text (value : String)
  | number (value : Float)
  | bool (value : Bool)
  | null

namespace AttributeValue

/-- The value of a slot; an empty one counts as null. -/
def ofSlot : Option Node → AttributeValue
  | some child => .node child
  | none => .null

def ofField : FieldValue → AttributeValue
  | .slot slot => ofSlot slot
  | .slots children => .list children
  | .text content => .text content
  | .flag isSet => .bool isSet
  | .number quantity => .number quantity
  | .null => .null

/-- The position that a name gives in a list. -/
def index? (name : String) : Option Nat :=
  let digits := name.toList
  if !digits.isEmpty && digits.all Char.isDigit then
    some (digits.foldl (fun n c => n * 10 + (c.toNat - '0'.toNat)) 0)
  else none

/-- One step of a path. Nodes have their fields and a `type`, lists their positions and
a `length`; other values lead nowhere. -/
def step? (name : String) : AttributeValue → Option AttributeValue
  | .node parent =>
      if name == "type" then some (.text parent.kind.name)
      else (parent.fields.find? fun (field, _) => field.text == name).map fun (_, value) =>
        ofField value
  | .list slots =>
      if name == "length" then some (.number (Float.ofNat slots.length))
      else do return ofSlot (← slots[← index? name]?)
  | _ => none

/-- The value that a path leads to, if all of its steps exist. -/
def follow? : List String → AttributeValue → Option AttributeValue
  | [], value => some value
  | name :: path, value => (value.step? name).bind (follow? path)

/-- Whether a value is what a literal says. -/
def matchesLiteral : AttributeValue → SelectorLiteral → Bool
  | .text actual, .text expected => actual == expected
  | .number actual, .number expected => actual == expected
  | .bool actual, .bool expected => actual == expected
  | .null, .null => true
  | .text actual, .pattern occursIn => occursIn actual
  | _, _ => false

end AttributeValue

def AttributeTest.holds (test : AttributeTest) (value : AttributeValue) : Bool :=
  match test, value with
  | .isPresent, .null => false
  | .isPresent, _ => true
  | .equals literal, value => value.matchesLiteral literal
  | .differs literal, value => !value.matchesLiteral literal

/-- Whether a node passes the test of an attribute. Where the path leads nowhere every
test fails. -/
def Attribute.holds (tested : Attribute) (node : Node) : Bool :=
  (AttributeValue.follow? tested.path (.node node)).any tested.test.holds

def Compound.holds (compound : Compound) (node : Node) : Bool :=
  compound.kind.all (· == node.kind) && compound.attributes.all fun a => a.holds node

/-- Whether what stands above a place fits a context. -/
def Complex.contextHolds : List (Combinator × Compound) → Place → Bool
  | [], _ => true
  | (.child, compound) :: context, place =>
      place.parent?.any fun parent => compound.holds parent.node && contextHolds context parent
  | (.descendant, compound) :: context, place =>
      place.ancestors.any fun ancestor =>
        compound.holds ancestor.node && contextHolds context ancestor

def Complex.picks (complex : Complex) (place : Place) : Bool :=
  complex.subject.holds place.node && contextHolds complex.context place

/-- Whether a selector picks the node at a place. -/
def Selector.picks (selector : Selector) (place : Place) : Bool :=
  selector.mayPick place.kind && selector.alternatives.any fun complex => complex.picks place

end EcmaLint
