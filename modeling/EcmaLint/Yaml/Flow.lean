import EcmaLint.Decimal.Notation
import EcmaLint.Json.Basic
import EcmaLint.Text.Blank
import EcmaLint.Text.Escape

/-! Values of YAML in brackets, and all that may stand on one line: words whose type is read off
their form, and texts in quotes. -/
namespace EcmaLint.Yaml

def isSpace (c : Char) : Bool := c == ' ' || c == '\t'

def trimLeft (cs : List Char) : List Char := cs.dropWhile isSpace

def trimRight (cs : List Char) : List Char := (trimLeft cs.reverse).reverse

/-- The words for `null`. -/
def nullWords : List String := ["", "~", "null", "Null", "NULL"]

/-- The words for truth values, in any case. -/
def boolWords : List (String × Bool) :=
  [("true", true), ("yes", true), ("on", true), ("y", true),
   ("false", false), ("no", false), ("off", false), ("n", false)]

/-- A whole number in digits, if it has any. -/
def natural? (cs : List Char) : Option Nat :=
  if !cs.isEmpty && cs.all Char.isDigit then some (Decimal.digitsValue cs) else none

/-- A number without its sign. -/
def unsigned? (isNegative : Bool) (cs : List Char) : Option Json.Number :=
  match natural? cs with
  | some n => some (if isNegative && n != 0 then .negative n else .natural n)
  | none =>
      let whole := cs.takeWhile Char.isDigit
      let rest := cs.dropWhile Char.isDigit
      let fraction := if rest.head? == some '.' then rest.tail.takeWhile Char.isDigit else []
      let rest := if rest.head? == some '.' then rest.tail.dropWhile Char.isDigit else rest
      let exponent :=
        match rest with
        | 'e' :: '-' :: digits | 'E' :: '-' :: digits => digits
        | 'e' :: '+' :: digits | 'E' :: '+' :: digits => digits
        | 'e' :: digits | 'E' :: digits => digits
        | _ => []
      let isNumber := !(whole ++ fraction).isEmpty && (rest.isEmpty || (natural? exponent).isSome)
      if isNumber then
        let size := Decimal.ofText cs
        some (.double (if isNegative then -size else size))
      else none

def number? : List Char → Option Json.Number
  | '-' :: cs => unsigned? true cs
  | '+' :: cs => unsigned? false cs
  | cs => unsigned? false cs

/-- The value of a word without quotes. -/
def word (cs : List Char) : Json :=
  let text := String.ofList cs
  if nullWords.contains text then .null
  else
    match boolWords.lookup text.toLower with
    | some value => .bool value
    | none =>
        match number? cs with
        | some number => .number number
        | none => .string text

/-- A text in single quotes, in which two quotes stand for one. The opening quote has been
read; what follows the closing one is left. -/
def singleQuoted? : List Char → Option (List Char × List Char)
  | '\x27' :: '\x27' :: cs => (singleQuoted? cs).map fun (text, rest) => ('\x27' :: text, rest)
  | '\x27' :: cs => some ([], cs)
  | c :: cs => (singleQuoted? cs).map fun (text, rest) => (c :: text, rest)
  | [] => none

/-- What single characters stand for after a backslash. -/
def escapes : List (Char × Char) :=
  [('0', '\x00'), ('a', '\x07'), ('b', '\x08'), ('t', '\t'), ('n', '\n'), ('v', '\x0B'),
   ('f', '\x0C'), ('r', '\r'), ('e', '\x1B'), (' ', ' '), ('"', '"'), ('/', '/'), ('\\', '\\'),
   ('N', '\u0085'), ('_', '\u00A0'), ('L', '\u2028'), ('P', '\u2029')]

/-- The number of hexadecimal digits after an escape. -/
def escapeWidth? : Char → Option Nat
  | 'x' => some 2
  | 'u' => some 4
  | 'U' => some 8
  | _ => none

/-- The character that an escape stands for, and what follows. The backslash has been read. -/
def escaped? : List Char → Option (Char × List Char)
  | [] => none
  | c :: cs =>
      match escapes.lookup c, escapeWidth? c with
      | some plain, _ => some (plain, cs)
      | none, some width => do
          let number ← Text.hexDigits? 0 (cs.take width)
          if cs.length < width then none
          return (Char.ofNat number, cs.drop width)
      | none, none => none

/-- A text in double quotes, of at most `fuel` characters. -/
def doubleQuoted? : Nat → List Char → Option (List Char × List Char)
  | 0, _ | _, [] => none
  | _ + 1, '"' :: cs => some ([], cs)
  | fuel + 1, '\\' :: cs => do
      let (c, cs) ← escaped? cs
      let (text, rest) ← doubleQuoted? fuel cs
      return (c :: text, rest)
  | fuel + 1, c :: cs => do
      let (text, rest) ← doubleQuoted? fuel cs
      return (c :: text, rest)

/-- A text in quotes of either kind, if one comes next. -/
def quoted? : List Char → Option (List Char × List Char)
  | '\x27' :: cs => singleQuoted? cs
  | '"' :: cs => doubleQuoted? (cs.length + 1) cs
  | _ => none

def isQuote (c : Char) : Bool := c == '\x27' || c == '"'

/-- The characters that have a meaning between brackets. -/
def isFlowMark (c : Char) : Bool :=
  c == ',' || c == '[' || c == ']' || c == '\x7b' || c == '\x7d'

/-- The characters that no word starts with. -/
def isIndicator (c : Char) : Bool :=
  isFlowMark c || isQuote c ||
    ['&', '*', '!', '|', '>', '%', '@', '\x60', '#'].contains c

/-- Whether a word may start here. Some marks start a word only if no blank follows. -/
def startsWord : List Char → Bool
  | [] => false
  | c :: rest =>
      if c == '-' || c == '?' || c == ':' then !(rest.head?.all isSpace) else !isIndicator c

/-- Whether a colon at the start of a text ends a key, between brackets or not. -/
def endsKey (isFlow : Bool) (afterColon : List Char) : Bool :=
  afterColon.head?.all fun c => isSpace c || (isFlow && isFlowMark c)

/-- A word, up to a mark that ends it. -/
def takeWord (isFlow : Bool) : List Char → List Char × List Char
  | [] => ([], [])
  | c :: cs =>
      if (isFlow && isFlowMark c) || (c == ':' && endsKey isFlow cs) then ([], c :: cs)
      else
        let (word, rest) := takeWord isFlow cs
        (c :: word, rest)

/-- A text that may be a key: in quotes, or a word. -/
def keyText? (isFlow : Bool) (cs : List Char) : Option (List Char × List Char) :=
  if cs.head?.any isQuote then quoted? cs
  else if startsWord cs then
    let (word, rest) := takeWord isFlow cs
    some (trimRight word, rest)
  else none

/-- Put a member into an object, which must not have one of that name. -/
def addMember? (name : String) (value : Json) (members : List (String × Json)) :
    Option (List (String × Json)) :=
  if (members.lookup name).isSome then none else some (Json.insertMember name value members)

mutual

/-- A value between brackets, nested at most `fuel` deep and long. -/
def flowValue? : Nat → List Char → Option (Json × List Char)
  | 0, _ => none
  | fuel + 1, cs =>
      match trimLeft cs with
      | '[' :: rest => (flowItems? fuel rest).map fun (items, rest) => (.array items, rest)
      | '\x7b' :: rest =>
          (flowMembers? fuel [] rest).map fun (members, rest) => (.object members, rest)
      | rest =>
          if rest.head?.any isQuote then
            (quoted? rest).map fun (text, rest) => (.string (String.ofList text), rest)
          else do
            let (text, rest) ← keyText? true rest
            return (word text, rest)

/-- The items of a list up to its closing bracket. -/
def flowItems? : Nat → List Char → Option (List Json × List Char)
  | 0, _ => none
  | fuel + 1, cs =>
      match trimLeft cs with
      | ']' :: rest => some ([], rest)
      | start => do
          let (item, rest) ← flowValue? fuel start
          match trimLeft rest with
          | ',' :: rest => do
              let (items, rest) ← flowItems? fuel rest
              return (item :: items, rest)
          | ']' :: rest => return ([item], rest)
          | _ => none

/-- The members of an object up to its closing brace, given those before. -/
def flowMembers? :
    Nat → List (String × Json) → List Char → Option (List (String × Json) × List Char)
  | 0, _, _ => none
  | fuel + 1, members, cs =>
      match trimLeft cs with
      | '\x7d' :: rest => some (members, rest)
      | start => do
          let (key, rest) ← keyText? true start
          let (value, rest) ←
            match trimLeft rest with
            | ':' :: rest =>
                match trimLeft rest with
                | ',' :: _ | '\x7d' :: _ => some (.null, rest)
                | _ => flowValue? fuel rest
            | rest => some (.null, rest)
          let members ← addMember? (String.ofList key) value members
          match trimLeft rest with
          | ',' :: rest => flowMembers? fuel members rest
          | '\x7d' :: rest => return (members, rest)
          | _ => none

end

/-- The value that stands on a line outside of brackets. -/
def inlineValue? (cs : List Char) : Option Json :=
  if cs.head?.any fun c => c == '[' || c == '\x7b' || isQuote c then do
    let (value, rest) ← flowValue? (cs.length + 1) cs
    if (trimLeft rest).isEmpty then some value else none
  else do
    let (text, rest) ← keyText? false cs
    if rest.isEmpty then some (word text) else none

end EcmaLint.Yaml
