import EcmaLint.Lint.FixRun

/-! Reading options from JSON. -/
namespace EcmaLint

open Json Json.Decoder

namespace ParseOptions

/-- An edition as it is written: a number or a name. -/
inductive Edition where
  | number (value : Nat)
  | name (value : String)

/-- The number of an edition that is understood. -/
def Edition.version : Edition → Except DecodeError Nat
  | .number value =>
      if isSupported value then .ok value
      else .error (.refused ("unsupported ecmaVersion " ++ toString value))
  | .name value =>
      if value = "latest" then .ok latest
      else .error (.refused ("unsupported ecmaVersion \"" ++ value ++ "\""))

def decodeVersion : Decoder Nat := fun document => do
  let edition ← firstOf "Version"
    [fun d => Edition.number <$> natural16 d, fun d => Edition.name <$> string d] document
  edition.version

/-- Parse options. The newest edition is meant where none is given. -/
def decoder : Decoder ParseOptions :=
  record "ParseOptions" none
    (fun version name document =>
      if name = "ecmaVersion" then once name version decodeVersion document
      else ignored version document)
    (fun version => .ok ⟨version.getD latest⟩)
    (fun documents ending => do
      let (version, rest) ← nextItem decodeVersion documents ending
      return (⟨version.getD latest⟩, rest))

end ParseOptions

namespace FixOptions

/-- Fix options. What is not given keeps its default. -/
def decoder : Decoder FixOptions :=
  record "FixOptions" (none, none)
    (fun (passes, kinds) name document => do
      match name with
      | "maxPasses" => return (← once name passes natural64 document, kinds)
      | "fixKinds" => return (passes, ← once name kinds (list (variant RuleKind.named)) document)
      | _ => ignored (passes, kinds) document)
    (fun (passes, kinds) => .ok (complete passes kinds))
    (fun documents ending => do
      let (passes, rest) ← nextItem natural64 documents ending
      let (kinds, rest) ← nextItem (list (variant RuleKind.named)) rest ending
      return (complete passes kinds, rest))
where
  complete (passes : Option Nat) (kinds : Option (List RuleKind)) : FixOptions :=
    let standard : FixOptions := {}
    ⟨passes.getD standard.maxPasses, kinds.getD standard.fixKinds⟩

end FixOptions

end EcmaLint
