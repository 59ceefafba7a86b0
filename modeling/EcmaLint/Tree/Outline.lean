import EcmaLint.Decimal.Notation
import EcmaLint.Text.Visible
import EcmaLint.Tree.Node

/-! The outline of a tree, one node a line, indented by depth. A line shows the field
that holds the node, its kind, its span and its plain data; flags are shown only where
they are set, and a hole has a line of its own. -/
namespace EcmaLint

/-- The plain data of a field as an outline shows it. -/
def Field.outline (name : FieldName) : FieldValue → String
  | .text value => " " ++ name.text ++ "=" ++ Text.quoted value
  | .flag true => " " ++ name.text
  | .number value => " " ++ name.text ++ "=" ++ Decimal.plain value
  | .null => " " ++ name.text ++ "=null"
  | _ => ""

namespace Node

/-- The line of a node without its indentation and its end. -/
def headline (label : String) (node : Node) : String :=
  label ++ node.label ++ String.join (node.fields.map fun (name, value) => value.outline name)

/-- The space in front of a line. -/
def indent (depth : Nat) : String := String.ofList (List.replicate (2 * depth) ' ')

mutual

/-- The lines of a node and of everything below it. -/
def outlineAt (depth : Nat) (label : String) : Node → String
  | .mk id kind span fields =>
      indent depth ++ headline label (.mk id kind span fields) ++ "\n" ++
        outlineFields (depth + 1) fields

def outlineFields (depth : Nat) : List (FieldName × FieldValue) → String
  | [] => ""
  | (name, .slot (some child)) :: rest =>
      outlineAt depth (name.text ++ ": ") child ++ outlineFields depth rest
  | (name, .slots children) :: rest =>
      outlineSlots depth name children ++ outlineFields depth rest
  | _ :: rest => outlineFields depth rest

def outlineSlots (depth : Nat) (name : FieldName) : List (Option Node) → String
  | [] => ""
  | none :: rest => indent depth ++ name.text ++ ": <hole>\n" ++ outlineSlots depth name rest
  | some child :: rest =>
      outlineAt depth (name.text ++ ": ") child ++ outlineSlots depth name rest

end

/-- The outline of a tree. -/
def outline (node : Node) : String := outlineAt 0 "" node

end Node

end EcmaLint
