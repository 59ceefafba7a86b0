import EcmaLint.Regex.Engine
import EcmaLint.Regex.Tables
import EcmaLint.Text.Escape

/-! An engine for regular expressions that programs can run with. A regular expression is read as a
set of ways through a text: from a point of the text it leads to other points, and it occurs in a
text if it leads anywhere from some point of it. Its written form has characters, classes, groups,
repetitions, assertions and flags, and neither look-around nor references back. -/
namespace EcmaLint

/-- Sets of characters. -/
inductive CharSet where
  | ranges (bounds : List (Nat × Nat))
  | word
  | digit
  | space
  | complement (set : CharSet)
  | union (left right : CharSet)
  | intersection (left right : CharSet)
  | difference (left right : CharSet)
  | symmetricDifference (left right : CharSet)
  /-- The characters of a set and those that differ from one of them in case only. -/
  | anyCase (set : CharSet)

def CharSet.contains : CharSet → Char → Bool
  | .ranges bounds, c => Text.inRanges bounds c
  | .word, c => Regex.isWord c
  | .digit, c => Regex.isDigit c
  | .space, c => Text.isWhiteSpace c
  | .complement set, c => !set.contains c
  | .union left right, c => left.contains c || right.contains c
  | .intersection left right, c => left.contains c && right.contains c
  | .difference left right, c => left.contains c && !right.contains c
  | .symmetricDifference left right, c => left.contains c != right.contains c
  | .anyCase set, c => (Regex.caseVariants c).any set.contains

/-- The set of one character. -/
def CharSet.single (c : Char) : CharSet := .ranges [(c.toNat, c.toNat)]

/-- Conditions on a point of a text. -/
inductive Assertion where
  | textStart
  | textEnd
  | lineStart
  | lineEnd
  | wordBoundary
  | noWordBoundary
  | wordStart
  | wordEnd
  | halfWordStart
  | halfWordEnd
  deriving DecidableEq

inductive Regex where
  | empty
  | one (set : CharSet)
  | assertion (condition : Assertion)
  | sequence (first second : Regex)
  | choice (first second : Regex)
  /-- At least `minimum` times, and at most `minimum + extra` times if a limit is given. -/
  | repetition (inner : Regex) (minimum : Nat) (extra : Option Nat)

namespace Regex

/-- A point between two characters of a text. -/
structure Point where
  before : Option Char
  after : List Char

/-- Whether a condition holds at a point. -/
def Point.satisfies (point : Point) : Assertion → Bool
  | .textStart => point.before.isNone
  | .textEnd => point.after.isEmpty
  | .lineStart => point.before.isNone || point.before == some '\n'
  | .lineEnd => point.after.isEmpty || point.after.head? == some '\n'
  | .wordBoundary => point.before.any isWord != point.after.head?.any isWord
  | .noWordBoundary => point.before.any isWord == point.after.head?.any isWord
  | .wordStart => !point.before.any isWord && point.after.head?.any isWord
  | .wordEnd => point.before.any isWord && !point.after.head?.any isWord
  | .halfWordStart => !point.before.any isWord
  | .halfWordEnd => !point.after.head?.any isWord

/-- Points of one text, each once. -/
def distinct : List Point → List Point
  | [] => []
  | point :: rest =>
      point :: (distinct rest).filter fun other => other.after.length != point.after.length

/-- Follow a step from each point again and again, at most a number of times. -/
def follow (step : Point → List Point) : Nat → List Point → List Point
  | 0, points => points
  | n + 1, points => distinct (points ++ follow step n (distinct (points.flatMap step)))

/-- Follow a step from each point exactly a number of times. -/
def exactly (step : Point → List Point) : Nat → List Point → List Point
  | 0, points => points
  | n + 1, points => exactly step n (distinct (points.flatMap step))

/-- The points that a regular expression leads to from a point. Rounds that read nothing
lead to no new point, so no repetition needs more rounds beyond its minimum than there
are characters left. -/
def ends : Regex → Point → List Point
  | empty, point => [point]
  | one set, point =>
      match point.after with
      | c :: rest => if set.contains c then [⟨some c, rest⟩] else []
      | [] => []
  | assertion condition, point => if point.satisfies condition then [point] else []
  | sequence first second, point => distinct ((first.ends point).flatMap second.ends)
  | choice first second, point => distinct (first.ends point ++ second.ends point)
  | repetition inner minimum extra, point =>
      follow inner.ends (min (extra.getD point.after.length) point.after.length)
         (exactly inner.ends minimum [point])

/-- Whether a regular expression leads anywhere from a point or from one after it. -/
def occursFrom (regex : Regex) (before : Option Char) : List Char → Bool
  | [] => !(regex.ends ⟨before, []⟩).isEmpty
  | c :: rest => !(regex.ends ⟨before, c :: rest⟩).isEmpty || occursFrom regex (some c) rest

/-- Whether a regular expression occurs in a text. -/
def occursIn (regex : Regex) (text : String) : Bool := regex.occursFrom none text.toList

/-- Regular expressions one after the other. -/
def sequenceOf (parts : List Regex) : Regex := parts.foldr sequence empty

/-- Settings that change how a regular expression is read. -/
structure Flags extends RegexFlags where
  /-- Blanks and comments are left out. -/
  verbose : Bool := false

namespace Reader

/-- A set under the settings in force. -/
def classOf (flags : Flags) (set : CharSet) : CharSet :=
  if flags.ignoreCase then .anyCase set else set

def literal (flags : Flags) (c : Char) : Regex := .one (classOf flags (.single c))

/-- The digits, spaces or word characters that a letter names; the capital stands for
all other characters. -/
def namedSet? (c : Char) : Option CharSet :=
  match c with
  | 'd' => some .digit
  | 'D' => some (.complement .digit)
  | 's' => some .space
  | 'S' => some (.complement .space)
  | 'w' => some .word
  | 'W' => some (.complement .word)
  | _ => none

/-- The character with a code given by hexadecimal digits. -/
def charOfHex? (digits : List Char) : Option Char := do
  if digits.isEmpty then none
  let code ← Text.hexDigits? 0 digits
  if code < 0xD800 || (0xE000 ≤ code && code ≤ 0x10FFFF) then some (Char.ofNat code) else none

/-- The character of an escape by its code, given by the text after its letter. -/
def hexEscape? (width : Nat) (cs : List Char) : Option (Char × List Char) :=
  match cs with
  | '\x7b' :: cs =>
      let digits := cs.takeWhile (· != '\x7d')
      if (cs.drop digits.length).isEmpty then none
      else (charOfHex? digits).map fun c => (c, cs.drop (digits.length + 1))
  | cs =>
      if (cs.take width).length < width then none
      else (charOfHex? (cs.take width)).map fun c => (c, cs.drop width)

/-- The character of an escape, given by the text after the backslash. -/
def escapedChar? : List Char → Option (Char × List Char)
  | 'n' :: cs => some ('\n', cs)
  | 't' :: cs => some ('\t', cs)
  | 'r' :: cs => some ('\r', cs)
  | 'f' :: cs => some ('\x0C', cs)
  | 'v' :: cs => some ('\x0B', cs)
  | 'a' :: cs => some ('\x07', cs)
  | 'x' :: cs => hexEscape? 2 cs
  | 'u' :: cs => hexEscape? 4 cs
  | 'U' :: cs => hexEscape? 8 cs
  | c :: cs =>
      if c.toNat < 0x80 && !c.isAlphanum && c != '<' && c != '>' then some (c, cs) else none
  | [] => none

/-- The condition that an escape names, given by the text after the backslash. -/
def assertionOf? : List Char → Option (Assertion × List Char)
  | 'A' :: cs => some (.textStart, cs)
  | 'z' :: cs => some (.textEnd, cs)
  | 'B' :: cs => some (.noWordBoundary, cs)
  | '<' :: cs => some (.wordStart, cs)
  | '>' :: cs => some (.wordEnd, cs)
  | 'b' :: cs =>
      let names : List (String × Assertion) :=
        [("\x7bstart\x7d", .wordStart), ("\x7bend\x7d", .wordEnd),
         ("\x7bstart-half\x7d", .halfWordStart), ("\x7bend-half\x7d", .halfWordEnd)]
      match names.find? fun (name, _) => name.toList.isPrefixOf cs with
      | some (name, condition) => some (condition, cs.drop name.length)
      | none => some (.wordBoundary, cs)
  | _ => none

/-- The ASCII classes by name. -/
def asciiClasses : List (String × List (Nat × Nat)) :=
  [("alnum", [(0x30, 0x39), (0x41, 0x5A), (0x61, 0x7A)]), ("alpha", [(0x41, 0x5A), (0x61, 0x7A)]),
   ("ascii", [(0x00, 0x7F)]), ("blank", [(0x09, 0x09), (0x20, 0x20)]),
   ("cntrl", [(0x00, 0x1F), (0x7F, 0x7F)]), ("digit", [(0x30, 0x39)]), ("graph", [(0x21, 0x7E)]),
   ("lower", [(0x61, 0x7A)]), ("print", [(0x20, 0x7E)]),
   ("punct", [(0x21, 0x2F), (0x3A, 0x40), (0x5B, 0x60), (0x7B, 0x7E)]),
   ("space", [(0x09, 0x0D), (0x20, 0x20)]), ("upper", [(0x41, 0x5A)]),
   ("word", [(0x30, 0x39), (0x41, 0x5A), (0x5F, 0x5F), (0x61, 0x7A)]),
   ("xdigit", [(0x30, 0x39), (0x41, 0x46), (0x61, 0x66)])]

/-- An ASCII class such as `[:alpha:]`, given by the text after `[:`. -/
def asciiClass? (cs : List Char) : Option (CharSet × List Char) :=
  let negated := cs.head? == some '^'
  let cs := if negated then cs.tail else cs
  let name := cs.takeWhile Char.isAlpha
  match cs.drop name.length, asciiClasses.lookup (String.ofList name) with
  | ':' :: ']' :: rest, some ranges =>
      some (if negated then .complement (.ranges ranges) else .ranges ranges, rest)
  | _, _ => none

/-- One end of a range in brackets: a character, or a set that is no end. -/
inductive ClassItem where
  | char (c : Char)
  | set (set : CharSet)

def ClassItem.toSet : ClassItem → CharSet
  | .char c => .single c
  | .set chars => chars

/-- Read a character or a named set in brackets. -/
def classItem? : List Char → Option (ClassItem × List Char)
  | [] => none
  | '\\' :: cs =>
      match cs with
      | c :: rest =>
          match namedSet? c with
          | some set => some (.set set, rest)
          | none => (escapedChar? cs).map fun (c, rest) => (.char c, rest)
      | [] => none
  | c :: cs => some (.char c, cs)

/-- The ways to combine what stands on the two sides of an operator in brackets. -/
inductive ClassOperator where
  | intersection
  | difference
  | symmetricDifference

def ClassOperator.apply : ClassOperator → CharSet → CharSet → CharSet
  | .intersection, left, right => .intersection left right
  | .difference, left, right => .difference left right
  | .symmetricDifference, left, right => .symmetricDifference left right

def classOperator? : List Char → Option (ClassOperator × List Char)
  | '&' :: '&' :: cs => some (.intersection, cs)
  | '-' :: '-' :: cs => some (.difference, cs)
  | '~' :: '~' :: cs => some (.symmetricDifference, cs)
  | _ => none

/-- What has been read of a class: the operand before the last operator, and the union
since. -/
structure ClassState where
  pending : Option (CharSet × ClassOperator)
  current : CharSet

def ClassState.add (state : ClassState) (set : CharSet) : ClassState :=
  { state with current := .union state.current set }

def ClassState.total (flags : Flags) (state : ClassState) : CharSet :=
  match state.pending with
  | none => state.current
  | some (left, operator) => operator.apply (classOf flags left) (classOf flags state.current)

mutual

/-- Read a class after its opening bracket. -/
def bracketed (flags : Flags) : Nat → List Char → Option (CharSet × List Char)
  | 0, _ => none
  | fuel + 1, cs =>
      let negated := cs.head? == some '^'
      let cs := if negated then cs.tail else cs
      let dashes := cs.takeWhile (· == '-')
      let cs := cs.drop dashes.length
      let start : CharSet := if dashes.isEmpty then .ranges [] else .single '-'
      let (start, cs) :=
        if dashes.isEmpty && cs.head? == some ']' then (CharSet.single ']', cs.tail)
        else (start, cs)
      match classBody flags fuel ⟨none, start⟩ cs with
      | none => none
      | some (set, rest) =>
          let set := classOf flags set
          some (if negated then .complement set else set, rest)

/-- Read the items of a class up to its closing bracket. -/
def classBody (flags : Flags) : Nat → ClassState → List Char → Option (CharSet × List Char)
  | 0, _, _ => none
  | fuel + 1, state, cs =>
      match cs with
      | [] => none
      | ']' :: rest => some (state.total flags, rest)
      | '[' :: rest =>
          match (if rest.head? == some ':' then asciiClass? rest.tail else none) with
          | some (set, rest) => classBody flags fuel (state.add set) rest
          | none =>
              match bracketed flags fuel rest with
              | some (set, rest) => classBody flags fuel (state.add set) rest
              | none => none
      | cs =>
          match classOperator? cs with
          | some (operator, rest) =>
              classBody flags fuel ⟨some (state.total flags, operator), .ranges []⟩ rest
          | none =>
              match classItem? cs with
              | none => none
              | some (first, rest) =>
                  let isRange :=
                    rest.head? == some '-' && rest.tail.head? != some ']' &&
                      rest.tail.head? != some '-'
                  if isRange then
                    match first, classItem? rest.tail with
                    | .char low, some (.char high, rest) =>
                        if low.toNat ≤ high.toNat then
                          classBody flags fuel (state.add (.ranges [(low.toNat, high.toNat)])) rest
                        else none
                    | _, _ => none
                  else classBody flags fuel (state.add first.toSet) rest

end

/-- Change settings by letters; letters after a dash switch off. The rest of the text
starts with the character that ends them. -/
def readFlags (on changed : Bool) (flags : Flags) : List Char → Option (Flags × List Char)
  | [] => none
  | c :: cs =>
      match c with
      | 'i' => readFlags on true { flags with ignoreCase := on } cs
      | 'm' => readFlags on true { flags with multiLine := on } cs
      | 's' => readFlags on true { flags with dotAll := on } cs
      | 'x' => readFlags on true { flags with verbose := on } cs
      | 'u' | 'U' | 'R' => readFlags on true flags cs
      | '-' => if on then readFlags false false flags cs else none
      | ':' | ')' => if changed || (on && c == ':') then some (flags, c :: cs) else none
      | _ => none

/-- The text after the name of a group, given by the text after its opening `<`. -/
def afterGroupName? (cs : List Char) : Option (List Char) :=
  let name := cs.takeWhile (· != '>')
  let start := name.head?.any fun c => isWord c && !isDigit c
  if start && (cs.drop name.length).head? == some '>' then some (cs.drop (name.length + 1))
  else none

/-- A number of repetitions such as `2,5`, up to its closing brace. -/
def counts? (cs : List Char) : Option ((Nat × Option Nat) × List Char) :=
  let value := fun (digits : List Char) =>
    digits.foldl (fun n c => n * 10 + (c.toNat - '0'.toNat)) 0
  let low := cs.takeWhile Char.isDigit
  if low.isEmpty then none
  else
    match cs.drop low.length with
    | '\x7d' :: rest => some ((value low, some 0), rest)
    | ',' :: '\x7d' :: rest => some ((value low, none), rest)
    | ',' :: cs =>
        let high := cs.takeWhile Char.isDigit
        if high.isEmpty || value high < value low then none
        else
          match cs.drop high.length with
          | '\x7d' :: rest => some ((value low, some (value high - value low)), rest)
          | _ => none
    | _ => none

/-- What has been read of a group: the alternatives before the last bar, the parts since,
last first, and whether the last part can be repeated. -/
structure GroupState where
  flags : Flags
  choices : List Regex := []
  parts : List Regex := []
  canRepeat : Bool := false

namespace GroupState

def add (state : GroupState) (regex : Regex) : GroupState :=
  { state with parts := regex :: state.parts, canRepeat := true }

def branch (state : GroupState) : Regex := sequenceOf state.parts.reverse

def total (state : GroupState) : Regex :=
  state.choices.foldl (fun later r => .choice r later) state.branch

/-- Repeat the last part, unless there is none. -/
def repeatLast (state : GroupState) (minimum : Nat) (extra : Option Nat) : Option GroupState :=
  match state.parts with
  | last :: before =>
      if state.canRepeat then
        some { state with parts := .repetition last minimum extra :: before }
      else none
  | [] => none

end GroupState

/-- The text after the question mark that makes a repetition prefer fewer rounds. -/
def afterLazy (cs : List Char) : List Char := if cs.head? == some '?' then cs.tail else cs

/-- What a character that is not special by its neighbours stands for. -/
def atom (flags : Flags) (c : Char) : Regex :=
  if c == '.' then
    .one (if flags.dotAll then .complement (.ranges []) else .complement (.single '\n'))
  else if c == '^' then .assertion (if flags.multiLine then .lineStart else .textStart)
  else if c == '$' then .assertion (if flags.multiLine then .lineEnd else .textEnd)
  else literal flags c

/-- What an escape stands for, given by the text after its backslash. -/
def escaped? (flags : Flags) (cs : List Char) : Option (Regex × List Char) :=
  match cs.head?.bind namedSet? with
  | some set => some (.one set, cs.tail)
  | none =>
      match assertionOf? cs with
      | some (condition, rest) => some (.assertion condition, rest)
      | none => (escapedChar? cs).map fun (c, rest) => (literal flags c, rest)

/-- Read a group up to its closing parenthesis, which is left in place, or to the end. -/
def group : Nat → GroupState → List Char → Option (Regex × List Char)
  | 0, _, _ => none
  | fuel + 1, state, cs =>
      let again := fun (next : Option (GroupState × List Char)) =>
        next.bind fun (state, rest) => group fuel state rest
      let inParentheses := fun (flags : Flags) (cs : List Char) =>
        match group fuel { flags } cs with
        | some (inner, ')' :: rest) => group fuel (state.add inner) rest
        | _ => none
      match cs with
      | [] => some (state.total, [])
      | ')' :: _ => some (state.total, cs)
      | '|' :: rest =>
          group fuel
            { state with choices := state.branch :: state.choices, parts := [], canRepeat := false }
            rest
      | '*' :: rest => again ((state.repeatLast 0 none).map (·, afterLazy rest))
      | '+' :: rest => again ((state.repeatLast 1 none).map (·, afterLazy rest))
      | '?' :: rest => again ((state.repeatLast 0 (some 1)).map (·, afterLazy rest))
      | '\x7b' :: rest =>
          match counts? rest with
          | some ((minimum, extra), rest) =>
              again ((state.repeatLast minimum extra).map (·, afterLazy rest))
          | none => none
      | '[' :: rest =>
          again ((bracketed state.flags fuel rest).map fun (set, rest) =>
            (state.add (.one set), rest))
      | '\\' :: rest =>
          again ((escaped? state.flags rest).map fun (regex, rest) => (state.add regex, rest))
      | '(' :: '?' :: 'P' :: '<' :: rest =>
          match afterGroupName? rest with
          | some rest => inParentheses state.flags rest
          | none => none
      | '(' :: '?' :: '<' :: rest =>
          match afterGroupName? rest with
          | some rest => inParentheses state.flags rest
          | none => none
      | '(' :: '?' :: rest =>
          match readFlags true false state.flags rest with
          | some (flags, ':' :: rest) => inParentheses flags rest
          | some (flags, ')' :: rest) => group fuel { state with flags, canRepeat := false } rest
          | _ => none
      | '(' :: rest => inParentheses state.flags rest
      | c :: rest =>
          if state.flags.verbose && Text.isWhiteSpace c then group fuel state rest
          else if state.flags.verbose && c == '#' then
            group fuel state (rest.dropWhile (· != '\n'))
          else group fuel (state.add (atom state.flags c)) rest

end Reader

/-- The regular expression that a text writes, if it writes one. -/
def ofText? (flags : Flags) (text : List Char) : Option Regex :=
  match Reader.group (text.length + 2) { flags } text with
  | some (regex, []) => some regex
  | _ => none

/-- The search for the regular expression that a text writes. -/
def search? (flags : RegexFlags) (text : String) : Option (String → Bool) :=
  (ofText? { toRegexFlags := flags } text.toList).map occursIn

/-- The patterns of schemas are read as all others. -/
instance : RegexEngine where
  compile? := search?
  compileInSchema? := search? {}

end Regex
end EcmaLint
