import EcmaLint.Text.Blank

/-! Escape sequences of string literals and template pieces. `unescape` reads every
text: an unknown escape stands for the escaped character, a sequence that names no
character stands for U+FFFD, and a backslash at the end stands for itself. -/
namespace EcmaLint.Text

/-- The value of one hexadecimal digit. -/
def hexDigit? (c : Char) : Option Nat :=
  if '0' ≤ c && c ≤ '9' then some (c.toNat - '0'.toNat)
  else if 'a' ≤ c && c ≤ 'f' then some (c.toNat - 'a'.toNat + 10)
  else if 'A' ≤ c && c ≤ 'F' then some (c.toNat - 'A'.toNat + 10)
  else none

/-- The value of hexadecimal digits, most significant first, after digits worth `value`. -/
def hexDigits? (value : Nat) : List Char → Option Nat
  | [] => some value
  | c :: cs => do hexDigits? (value * 16 + (← hexDigit? c)) cs

/-- The value of a hexadecimal number below 2^32. A plus sign may stand before it,
and at least one digit is needed. -/
def hexNumber? (cs : List Char) : Option Nat :=
  let digits := if cs.head? == some '+' then cs.tail else cs
  if digits.isEmpty then none
  else (hexDigits? 0 digits).filter (· < Nat.pow 2 32)

/-- The character that stands for what cannot be decoded. -/
def replacement : Char := '\uFFFD'

/-- The character with a code, if the code is that of a Unicode scalar value. -/
def scalar (code : Nat) : Char :=
  if code < 0xD800 || (0xE000 ≤ code && code ≤ 0x10FFFF) then Char.ofNat code else replacement

def isHighSurrogate (code : Nat) : Bool := 0xD800 ≤ code && code < 0xDC00

def isLowSurrogate (code : Nat) : Bool := 0xDC00 ≤ code && code < 0xE000

/-- The low surrogate written as `\uHHHH` at the start of a text. -/
def lowSurrogate? : List Char → Option Nat
  | '\\' :: 'u' :: cs => (hexNumber? (cs.take 4)).filter isLowSurrogate
  | _ => none

/-- The character for a decoded code, which was followed by `rest`, and how many
characters of `rest` belong to it: a high surrogate takes a low surrogate along. -/
def codeUnit (code : Option Nat) (rest : List Char) : Char × Nat :=
  match code with
  | none => (replacement, 0)
  | some code =>
      match (if isHighSurrogate code then lowSurrogate? rest else none) with
      | some low => (scalar (0x10000 + (code - 0xD800) * 0x400 + (low - 0xDC00)), 6)
      | none => (scalar code, 0)

/-- The meaning of an escape sequence, given by the text after its backslash: the
characters that it stands for, and how many characters of the text it takes. -/
def escape : List Char → List Char × Nat
  | [] => (['\\'], 0)
  | 'n' :: _ => (['\n'], 1)
  | 'r' :: _ => (['\r'], 1)
  | 't' :: _ => (['\t'], 1)
  | 'b' :: _ => (['\x08'], 1)
  | 'f' :: _ => (['\x0C'], 1)
  | 'v' :: _ => (['\x0B'], 1)
  | '0' :: rest => ([if rest.head?.any Char.isDigit then '0' else '\x00'], 1)
  | 'x' :: rest =>
      let digits := rest.take 2
      let (c, more) := codeUnit (hexNumber? digits) (rest.drop 2)
      ([c], 1 + digits.length + more)
  | 'u' :: '{' :: rest =>
      let digits := rest.takeWhile (· != '}')
      let (c, more) := codeUnit (hexNumber? digits) (rest.drop (digits.length + 1))
      ([c], 3 + digits.length + more)
  | 'u' :: rest =>
      let digits := rest.take 4
      let (c, more) := codeUnit (hexNumber? digits) (rest.drop 4)
      ([c], 1 + digits.length + more)
  | '\r' :: '\n' :: _ => ([], 2)
  | c :: _ => (if isLineTerminator c then [] else [c], 1)

/-- The text that a literal body stands for. -/
def unescape : List Char → List Char
  | [] => []
  | c :: cs =>
      if c = '\\' then
        let (decoded, taken) := escape cs
        decoded ++ unescape (cs.drop taken)
      else
        c :: unescape cs
termination_by cs => cs.length
decreasing_by all_goals simp only [List.length_drop, List.length_cons]; omega

end EcmaLint.Text
