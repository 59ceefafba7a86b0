import EcmaLint.Json.Document
import EcmaLint.Text.Escape

/-! From JSON texts to documents. -/
namespace EcmaLint.Json

namespace Reader

/-- The blanks that may stand between the parts of a JSON text. -/
def isBlank (c : Char) : Bool := c == ' ' || c == '\n' || c == '\t' || c == '\r'

def skipBlanks (cs : List Char) : List Char := cs.dropWhile isBlank

/-- The code of an escape with four hexadecimal digits. -/
def hexEscape (cs : List Char) : Except Fault (Nat × List Char) :=
  if (cs.take 4).length < 4 then .error .endInString
  else
    match Text.hexDigits? 0 (cs.take 4) with
    | some code => .ok (code, cs.drop 4)
    | none => .error .invalidEscape

/-- The character of an escape, given by the text after its letter `u`. -/
def unicodeEscape (cs : List Char) : Except Fault (Char × List Char) := do
  let (code, cs) ← hexEscape cs
  if Text.isLowSurrogate code then throw .loneSurrogate
  else if Text.isHighSurrogate code then
    match cs with
    | '\\' :: 'u' :: cs =>
        let (low, cs) ← hexEscape cs
        if Text.isLowSurrogate low then
          return (Char.ofNat (0x10000 + (code - 0xD800) * 0x400 + (low - 0xDC00)), cs)
        else throw .loneSurrogate
    | _ => throw .unfinishedSurrogate
  else return (Char.ofNat code, cs)

/-- The character of an escape, given by the text after its backslash. -/
def escape (cs : List Char) : Except Fault (Char × List Char) :=
  match cs with
  | [] => .error .endInString
  | '"' :: cs => .ok ('"', cs)
  | '\\' :: cs => .ok ('\\', cs)
  | '/' :: cs => .ok ('/', cs)
  | 'b' :: cs => .ok ('\x08', cs)
  | 'f' :: cs => .ok ('\x0C', cs)
  | 'n' :: cs => .ok ('\n', cs)
  | 'r' :: cs => .ok ('\r', cs)
  | 't' :: cs => .ok ('\t', cs)
  | 'u' :: cs => unicodeEscape cs
  | _ => .error .invalidEscape

/-- The characters of a string after its opening quote, read in at most `fuel` steps;
`seen` holds those read so far, last first. -/
def stringBody : Nat → List Char → List Char → Except Fault (String × List Char)
  | 0, _, _ => .error .endInString
  | fuel + 1, seen, cs =>
      match cs with
      | [] => .error .endInString
      | '"' :: cs => .ok (String.ofList seen.reverse, cs)
      | '\\' :: cs =>
          match escape cs with
          | .error fault => .error fault
          | .ok (c, cs) => stringBody fuel (c :: seen) cs
      | c :: cs =>
          if c.toNat < 0x20 then .error .controlCharacter
          else stringBody fuel (c :: seen) cs

/-- Read a string after its opening quote. -/
def string (cs : List Char) : Except Fault (String × List Char) :=
  stringBody (cs.length + 1) [] cs

/-- The largest whole number that is kept exactly. -/
def largestNatural : Nat := Nat.pow 2 64 - 1

/-- Scale a double by a power of ten, step by step where the power is no double. -/
def scale (negative : Bool) : Nat → Float → Int → Except Fault Float
  | 0, _, _ => .error .numberOutOfRange
  | fuel + 1, value, exponent =>
      let signed := fun (value : Float) => if negative then -value else value
      let power := Float.ofScientific 1 false exponent.natAbs
      if exponent.natAbs ≤ 308 then
        if 0 ≤ exponent then
          if (value * power).isInf then .error .numberOutOfRange
          else .ok (signed (value * power))
        else .ok (signed (value / power))
      else if value == 0.0 then .ok (signed value)
      else if 0 ≤ exponent then .error .numberOutOfRange
      else scale negative fuel (value / Float.ofScientific 1 false 308) (exponent + 308)

/-- The digits that still fit into a 64-bit significand, appended to it, how many they
are, and the text after them. -/
def fittingDigits (significand count : Nat) : List Char → Nat × Nat × List Char
  | [] => (significand, count, [])
  | c :: cs =>
      if c.isDigit then
        let next := significand * 10 + (c.toNat - '0'.toNat)
        if next ≤ largestNatural then fittingDigits next (count + 1) cs
        else (significand, count, c :: cs)
      else (significand, count, c :: cs)

/-- Read the exponent of a number after its letter, and scale. -/
def exponentPart (negative : Bool) (significand : Nat) (shift : Int) (cs : List Char) :
    Except Fault (Number × List Char) := do
  let isNegative := cs.head? == some '-'
  let cs := if cs.head? == some '+' || cs.head? == some '-' then cs.tail else cs
  match cs with
  | [] => throw .endInValue
  | c :: _ =>
      if !c.isDigit then throw .invalidNumber
      else
        let digits := cs.takeWhile Char.isDigit
        let size := digits.foldl (fun n c => n * 10 + (c.toNat - '0'.toNat)) 0
        let rest := cs.drop digits.length
        if Nat.pow 2 31 ≤ size then
          if significand ≠ 0 && !isNegative then throw .numberOutOfRange
          else return (.double (if negative then -0.0 else 0.0), rest)
        else
          let exponent : Int := shift + (if isNegative then -(size : Int) else size)
          let value ← scale negative (exponent.natAbs / 308 + 2) (Float.ofNat significand) exponent
          return (.double value, rest)

/-- Read what may follow the digits of a number: an exponent, or its end. -/
def afterDigits (negative : Bool) (significand : Nat) (shift : Int) (cs : List Char) :
    Except Fault (Number × List Char) :=
  match cs with
  | c :: rest =>
      if c == 'e' || c == 'E' then exponentPart negative significand shift rest
      else do
        let value ← scale negative (shift.natAbs / 308 + 2) (Float.ofNat significand) shift
        return (.double value, cs)
  | [] => do
      let value ← scale negative (shift.natAbs / 308 + 2) (Float.ofNat significand) shift
      return (.double value, cs)

/-- Read the fraction of a number after its point. Digits beyond the significand are
dropped. -/
def fractionPart (negative : Bool) (significand : Nat) (shift : Int) (cs : List Char) :
    Except Fault (Number × List Char) :=
  match cs with
  | [] => .error .endInValue
  | c :: _ =>
      if !c.isDigit then .error .invalidNumber
      else
        let (significand, count, rest) := fittingDigits significand 0 cs
        afterDigits negative significand (shift - count) (rest.dropWhile Char.isDigit)

/-- Read a number after its sign. -/
def number (negative : Bool) (cs : List Char) : Except Fault (Number × List Char) :=
  match cs with
  | [] => .error .endInValue
  | c :: tail =>
      if !c.isDigit then .error .invalidNumber
      else if c == '0' && tail.head?.any Char.isDigit then .error .invalidNumber
      else
        let (significand, _, rest) := fittingDigits 0 0 cs
        let dropped := rest.takeWhile Char.isDigit
        let rest := rest.drop dropped.length
        match rest with
        | '.' :: fraction => fractionPart negative significand dropped.length fraction
        | _ =>
            let startsExponent := rest.head? == some 'e' || rest.head? == some 'E'
            if startsExponent || !dropped.isEmpty then
              afterDigits negative significand dropped.length rest
            else if !negative then .ok (.natural significand, rest)
            else if significand = 0 || Nat.pow 2 63 < significand then
              .ok (.double (-Float.ofNat significand), rest)
            else .ok (.negative significand, rest)

/-- A part of a text as far as it could be read, and the text after it unless it broke. -/
structure Reading (α : Type) where
  result : α
  rest : Option (List Char)

/-- The deepest nesting of lists and objects. -/
def deepest : Nat := 128

/-- Read a fixed word after its first letter. -/
def word (letters : List Char) (value : Document) (cs : List Char) : Reading Document :=
  match letters, cs with
  | [], cs => ⟨value, some cs⟩
  | _ :: _, [] => ⟨.broken .endInValue, none⟩
  | letter :: letters, c :: cs =>
      if letter = c then word letters value cs else ⟨.broken .expectedIdent, none⟩

/-- The reading of a scalar. -/
def scalar {α : Type} (make : α → Document) :
    Except Fault (α × List Char) → Reading Document
  | .ok (value, rest) => ⟨make value, some rest⟩
  | .error fault => ⟨.broken fault, none⟩

/-- What comes next in a list: an item, whose text is given, or the end. -/
def nextItem (first : Bool) (cs : List Char) : Except Fault (Option (List Char)) :=
  match skipBlanks cs with
  | [] => .error .endInList
  | ']' :: _ => .ok none
  | c :: cs =>
      if first then .ok (some (c :: cs))
      else if c = ',' then
        match skipBlanks cs with
        | [] => .error .endInValue
        | ']' :: _ => .error .trailingComma
        | cs => .ok (some cs)
      else .error .expectedListCommaOrEnd

/-- What comes next in an object: a member, whose text is given after the quote of its
name, or the end. -/
def nextMember (first : Bool) (cs : List Char) : Except Fault (Option (List Char)) :=
  match skipBlanks cs with
  | [] => .error .endInObject
  | '\x7d' :: _ => .ok none
  | c :: cs =>
      if first then
        if c = '"' then .ok (some cs) else .error .keyMustBeString
      else if c = ',' then
        match skipBlanks cs with
        | [] => .error .endInValue
        | '"' :: cs => .ok (some cs)
        | '\x7d' :: _ => .error .trailingComma
        | _ => .error .keyMustBeString
      else .error .expectedObjectCommaOrEnd

/-- The text after the colon between a name and its value. -/
def afterColon (cs : List Char) : Except Fault (List Char) :=
  match skipBlanks cs with
  | [] => .error .endInObject
  | ':' :: cs => .ok cs
  | _ => .error .expectedColon

mutual

/-- Read a value, in at most `fuel` steps and down to `depth` levels of nesting. -/
def value : Nat → Nat → List Char → Reading Document
  | 0, _, _ => ⟨.broken .endInValue, none⟩
  | fuel + 1, depth, cs =>
      match skipBlanks cs with
      | [] => ⟨.broken .endInValue, none⟩
      | 'n' :: cs => word "ull".toList .null cs
      | 't' :: cs => word "rue".toList (.bool true) cs
      | 'f' :: cs => word "alse".toList (.bool false) cs
      | '"' :: cs => scalar .string (string cs)
      | '-' :: cs => scalar .number (number true cs)
      | '[' :: cs =>
          if depth ≤ 1 then ⟨.broken .tooDeep, none⟩
          else
            let ⟨(items, ending), rest⟩ := items fuel (depth - 1) true cs
            ⟨.array items ending, rest⟩
      | '\x7b' :: cs =>
          if depth ≤ 1 then ⟨.broken .tooDeep, none⟩
          else
            let ⟨(members, ending), rest⟩ := members fuel (depth - 1) true cs
            ⟨.object members ending, rest⟩
      | c :: cs =>
          if c.isDigit then scalar .number (number false (c :: cs))
          else ⟨.broken .expectedValue, none⟩

/-- Read the items of a list and its end. -/
def items : Nat → Nat → Bool → List Char → Reading (List Document × Option Fault)
  | 0, _, _, _ => ⟨([], some .endInList), none⟩
  | fuel + 1, depth, first, cs =>
      match nextItem first cs with
      | .error fault => ⟨([], some fault), none⟩
      | .ok none => ⟨([], none), some ((skipBlanks cs).drop 1)⟩
      | .ok (some cs) =>
          match value fuel depth cs with
          | ⟨item, none⟩ => ⟨([item], none), none⟩
          | ⟨item, some cs⟩ =>
              let ⟨(later, ending), rest⟩ := items fuel depth false cs
              ⟨(item :: later, ending), rest⟩

/-- Read the members of an object and its end. -/
def members : Nat → Nat → Bool → List Char →
    Reading (List (String × Document) × Option Fault)
  | 0, _, _, _ => ⟨([], some .endInObject), none⟩
  | fuel + 1, depth, first, cs =>
      match nextMember first cs with
      | .error fault => ⟨([], some fault), none⟩
      | .ok none => ⟨([], none), some ((skipBlanks cs).drop 1)⟩
      | .ok (some cs) =>
          match string cs with
          | .error fault => ⟨([], some fault), none⟩
          | .ok (name, cs) =>
              match afterColon cs with
              | .error fault => ⟨([(name, .broken fault)], none), none⟩
              | .ok cs =>
                  match value fuel depth cs with
                  | ⟨value, none⟩ => ⟨([(name, value)], none), none⟩
                  | ⟨value, some cs⟩ =>
                      let ⟨(later, ending), rest⟩ := members fuel depth false cs
                      ⟨((name, value) :: later, ending), rest⟩

end

end Reader

/-- A text as a document, and the fault of what stands after its value. -/
structure DocumentText where
  document : Document
  ending : Option Fault

/-- Read a text. -/
def readText (text : String) : DocumentText :=
  let cs := text.toList
  match Reader.value (2 * cs.length + 2) Reader.deepest cs with
  | ⟨document, none⟩ => ⟨document, none⟩
  | ⟨document, some rest⟩ =>
      ⟨document, if (Reader.skipBlanks rest).isEmpty then none else some .trailingCharacters⟩

/-- The value that a text holds. -/
def parse (text : String) : Except Fault Json := do
  let { document, ending } := readText text
  let json ← document.toJson
  Document.closing ending
  return json

end EcmaLint.Json
