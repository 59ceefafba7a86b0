/-! Engines for regular expressions. Which texts are regular expressions and what they occur in
is left to an engine; everything that asks for one is written over any engine. -/
namespace EcmaLint

/-- What a regular expression is asked for besides its text. -/
structure RegexFlags where
  ignoreCase : Bool := false
  multiLine : Bool := false
  dotAll : Bool := false

/-- An engine makes a search through texts of a regular expression, or nothing of a text that is
none. -/
class RegexEngine where
  compile? : RegexFlags → String → Option (String → Bool)
  /-- The same for the patterns in schemas, which are of a dialect of their own. -/
  compileInSchema? : String → Option (String → Bool)

end EcmaLint
