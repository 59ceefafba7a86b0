import EcmaLint.Tree.Kind

/-! Selectors: patterns that pick nodes by kind, by the values of their attributes and by what
stands around them. They have a plainest written form, where they hold no numbers and no regular
expressions, which have many forms and no plainest one. -/
namespace EcmaLint

/-- What an attribute is compared with. -/
inductive SelectorLiteral where
  | text (value : String)
  | number (value : Float)
  | bool (value : Bool)
  | null
  /-- A regular expression, as the search for it. -/
  | pattern (occursIn : String → Bool)

inductive AttributeTest where
  | isPresent
  | equals (literal : SelectorLiteral)
  | differs (literal : SelectorLiteral)

/-- A test of the value that a path of names leads to. -/
structure Attribute where
  path : List String
  test : AttributeTest

/-- Tests of one node: its kind, unless any will do, and its attributes. -/
structure Compound where
  kind : Option NodeKind
  attributes : List Attribute

/-- How two nodes stand to each other. -/
inductive Combinator where
  | child
  | descendant
  deriving DecidableEq, Repr

/-- Compounds joined by combinators. The subject is the node that is picked; the context
goes on from it to the left, each compound with the combinator on its right. -/
structure Complex where
  subject : Compound
  context : List (Combinator × Compound)

structure Selector where
  source : String
  alternatives : List Complex

/-- How narrow a selector is: first by attributes, then by kinds. -/
structure Specificity where
  attributes : Nat
  kinds : Nat
  deriving DecidableEq, Repr, Inhabited

namespace Specificity

def le (a b : Specificity) : Bool :=
  a.attributes < b.attributes || (a.attributes == b.attributes && a.kinds ≤ b.kinds)

def max (a b : Specificity) : Specificity := if le a b then b else a

def add (a b : Specificity) : Specificity := ⟨a.attributes + b.attributes, a.kinds + b.kinds⟩

end Specificity

def Compound.specificity (compound : Compound) : Specificity :=
  ⟨compound.attributes.length, if compound.kind.isSome then 1 else 0⟩

/-- The compounds of an alternative, the subject first. -/
def Complex.compounds (complex : Complex) : List Compound :=
  complex.subject :: complex.context.map Prod.snd

def Complex.specificity (complex : Complex) : Specificity :=
  complex.compounds.foldl (fun total compound => total.add compound.specificity) ⟨0, 0⟩

namespace Selector

/-- The specificity of the narrowest alternative. -/
def specificity (selector : Selector) : Specificity :=
  (selector.alternatives.map Complex.specificity).foldl Specificity.max ⟨0, 0⟩

/-- Add what an alternative can pick to the kinds known so far. Once any kind will do, it stays
so. -/
def addCandidate (candidates? : Option (List NodeKind)) (complex : Complex) :
    Option (List NodeKind) :=
  match complex.subject.kind, candidates? with
  | some kind, some kinds => some (if kinds.contains kind then kinds else kinds ++ [kind])
  | _, _ => none

/-- The kinds of node that a selector can pick, or none if it can pick any. -/
def candidates? (selector : Selector) : Option (List NodeKind) :=
  selector.alternatives.foldl addCandidate (some [])

/-- A test on the kind alone, which a node that is picked passes. -/
def mayPick (selector : Selector) (kind : NodeKind) : Bool :=
  selector.candidates?.all fun kinds => kinds.contains kind

end Selector

namespace Selector.Printer

/-- The characters of a string with a backslash before each quote and each backslash. -/
def escape (quote : Char) : List Char → List Char
  | [] => []
  | c :: cs =>
      if c = quote || c = '\\' then '\\' :: c :: escape quote cs else c :: escape quote cs

def literal? (quote : Char) : SelectorLiteral → Option (List Char)
  | .text value => some (quote :: escape quote value.toList ++ [quote])
  | .bool true => some "true".toList
  | .bool false => some "false".toList
  | .null => some "null".toList
  | .number _ | .pattern _ => none

def test? (quote : Char) : AttributeTest → Option (List Char)
  | .isPresent => some []
  | .equals literal => (literal? quote literal).map ("=".toList ++ ·)
  | .differs literal => (literal? quote literal).map ("!=".toList ++ ·)

def attribute? (quote : Char) (tested : Attribute) : Option (List Char) :=
  (test? quote tested.test).map fun test =>
    '[' :: (".".intercalate tested.path).toList ++ test ++ [']']

def compound? (quote : Char) (compound : Compound) : Option (List Char) := do
  let attributes ← compound.attributes.mapM (attribute? quote)
  let head :=
    match compound.kind with
    | some kind => kind.name.toList
    | none => if compound.attributes.isEmpty then ['*'] else []
  return head ++ attributes.flatten

def combinator : Combinator → List Char
  | .child => " > ".toList
  | .descendant => " ".toList

/-- What stands to the left of a compound, its combinators included. -/
def context? (quote : Char) : List (Combinator × Compound) → Option (List Char)
  | [] => some []
  | (joint, compound) :: rest => do
      return (← context? quote rest) ++ (← compound? quote compound) ++ combinator joint

def complex? (quote : Char) (complex : Complex) : Option (List Char) := do
  return (← context? quote complex.context) ++ (← compound? quote complex.subject)

/-- The written form of alternatives, with strings in the given quotes. -/
def render? (quote : Char) (alternatives : List Complex) : Option String := do
  return String.ofList ((", ".toList).intercalate (← alternatives.mapM (complex? quote)))

end Selector.Printer

end EcmaLint
