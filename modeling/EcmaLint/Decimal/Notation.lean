/-! How numbers are written and read. Trees and messages write every digit in place; JSON keeps a
fraction on whole doubles and turns to an exponent for the very large and the very small; names of
properties follow the rule for whole numbers as far as 64 bits go. Decimal texts are rounded to the
nearest double.

What is written is the shortest decimal that reads back as a given double. A finite double is a
whole number times a power of two; the reals that round to it form an interval, which holds its ends
exactly when the whole number is even. On the grid of decimals with `n` digits only the two
neighbours of the double can lie in the interval, so the search asks for these two, for one digit,
two digits and so on. -/
namespace EcmaLint.Decimal

/-- The value of a double, with the size of a finite one as `mantissa * 2 ^ exponent`. -/
inductive Binary64 where
  | finite (negative : Bool) (mantissa : Nat) (exponent : Int)
  | infinite (negative : Bool)
  | notANumber
  deriving DecidableEq, Repr

/-- Read the fields of a double: one sign bit, eleven exponent bits, 52 fraction bits. -/
def Binary64.ofFloat (value : Float) : Binary64 :=
  let bits := value.toBits.toNat
  let negative := bits / Nat.pow 2 63 == 1
  let exponent : Nat := bits / Nat.pow 2 52 % Nat.pow 2 11
  let fraction := bits % Nat.pow 2 52
  if exponent == 2047 then
    if fraction == 0 then .infinite negative else .notANumber
  else if exponent == 0 then
    .finite negative fraction (-1074)
  else
    .finite negative (Nat.pow 2 52 + fraction) ((exponent : Int) - 1075)

/-- The whole number that `mantissa * 2 ^ exponent` is, if it is one. -/
def wholeNumber? (mantissa : Nat) (exponent : Int) : Option Nat :=
  if 0 ≤ exponent then some (mantissa * Nat.pow 2 exponent.toNat)
  else
    let divisor := Nat.pow 2 (-exponent).toNat
    if mantissa % divisor = 0 then some (mantissa / divisor) else none

/-- The power of a base by an integer as a fraction, numerator first. -/
def powerFraction (base : Nat) (exponent : Int) : Nat × Nat :=
  if 0 ≤ exponent then (Nat.pow base exponent.toNat, 1) else (1, Nat.pow base (-exponent).toNat)

/-- The interval of the reals that round to a double, with the double inside it. All
three are numerators over `denominator`. -/
structure RoundingInterval where
  low : Nat
  value : Nat
  high : Nat
  denominator : Nat
  closed : Bool

/-- The interval around `mantissa * 2 ^ exponent`. Below a power of two the neighbours
lie twice as close. -/
def RoundingInterval.around (mantissa : Nat) (exponent : Int) : RoundingInterval :=
  let (scale, denominator) := powerFraction 2 (exponent - 2)
  let below := if mantissa == Nat.pow 2 52 && exponent > -1074 then 1 else 2
  { low := (4 * mantissa - below) * scale
    value := 4 * mantissa * scale
    high := (4 * mantissa + 2) * scale
    denominator
    closed := mantissa % 2 == 0 }

/-- Whether `digits * 10 ^ power` lies in the interval. -/
def RoundingInterval.contains (interval : RoundingInterval) (digits : Nat) (power : Int) : Bool :=
  let (up, down) := powerFraction 10 power
  let point := digits * up * interval.denominator
  let low := interval.low * down
  let high := interval.high * down
  if interval.closed then low ≤ point && point ≤ high else low < point && point < high

/-- The number of decimal digits of a positive whole number. -/
def digitCount (n : Nat) : Nat := (Nat.toDigits 10 n).length

/-- The least power of ten above the value of the interval, as an exponent. -/
def RoundingInterval.magnitude (interval : RoundingInterval) : Int :=
  let estimate : Int := (digitCount interval.value : Int) - digitCount interval.denominator
  let (up, down) := powerFraction 10 estimate
  if interval.value * down < up * interval.denominator then estimate else estimate + 1

/-- The nearest decimal with `count` digits that lies in the interval, as a whole number
and a power of ten. Of two decimals at the same distance the one with an even last digit
is taken. -/
def RoundingInterval.decimal? (interval : RoundingInterval) (magnitude : Int) (count : Nat) :
    Option (Nat × Int) :=
  let power := magnitude - count
  let (up, down) := powerFraction 10 power
  let unit := up * interval.denominator
  let scaled := interval.value * down
  let floor := scaled / unit
  let remainder := scaled % unit
  let hitsLow := interval.contains floor power
  let hitsHigh := interval.contains (floor + 1) power
  let lowIsNearer := 2 * remainder < unit || (2 * remainder == unit && floor % 2 == 0)
  if hitsLow && (lowIsNearer || !hitsHigh) then some (floor, power)
  else if hitsHigh then some (floor + 1, power)
  else none

/-- A decimal without the zeros at its end. -/
def trimZeros : Nat → Nat × Int → Nat × Int
  | 0, d => d
  | fuel + 1, (digits, power) =>
      if digits % 10 = 0 && digits ≠ 0 then trimZeros fuel (digits / 10, power + 1)
      else (digits, power)

/-- The shortest decimal that rounds to `mantissa * 2 ^ exponent`, as a whole number that
does not end in zero and a power of ten. Seventeen digits always suffice. -/
def shortest (mantissa : Nat) (exponent : Int) : Nat × Int :=
  if mantissa = 0 then (0, 0)
  else
    let interval := RoundingInterval.around mantissa exponent
    let magnitude := interval.magnitude
    let found := (List.range 17).findSome? fun n => interval.decimal? magnitude (n + 1)
    trimZeros 18 (found.getD (0, 0))

def zeros (n : Nat) : String := String.ofList (List.replicate n '0')

/-- Write `digits * 10 ^ power` without an exponent. -/
def positional (digits : Nat) (power : Int) : String :=
  let text := (toString digits).toList
  if 0 ≤ power then String.ofList text ++ (if digits = 0 then "" else zeros power.toNat)
  else
    let places := (-power).toNat
    if places < text.length then
      String.ofList (text.take (text.length - places)) ++ "." ++
        String.ofList (text.drop (text.length - places))
    else
      "0." ++ zeros (places - text.length) ++ String.ofList text

def sign (negative : Bool) : String := if negative then "-" else ""

/-- The text of a double with its shortest digits, never with an exponent. -/
def plain (value : Float) : String :=
  match Binary64.ofFloat value with
  | .notANumber => "NaN"
  | .infinite negative => sign negative ++ "inf"
  | .finite negative mantissa exponent =>
      let (digits, power) := shortest mantissa exponent
      sign negative ++ positional digits power

/-- The text of a double that always shows a point. -/
def withPoint (value : Float) : String :=
  let text := plain value
  if text.toList.contains '.' then text else text ++ ".0"

/-- Write `digits * 10 ^ power` the way JSON texts do: in place for magnitudes from 1e-5
up to 1e16, otherwise with an exponent that shows its sign. -/
def scientific (digits : Nat) (power : Int) : String :=
  let text := (toString digits).toList
  let magnitude : Int := text.length + power
  if digits = 0 then "0.0"
  else if 0 ≤ power && magnitude ≤ 16 then positional digits power ++ ".0"
  else if -5 < magnitude && magnitude ≤ 16 then positional digits power
  else
    let exponent := (if 0 < magnitude then "e+" else "e") ++ toString (magnitude - 1)
    match text with
    | [] => exponent
    | [d] => d.toString ++ exponent
    | d :: ds => d.toString ++ "." ++ String.ofList ds ++ exponent

/-- The text of a double in JSON. What is not finite has no number there. -/
def json (value : Float) : String :=
  match Binary64.ofFloat value with
  | .notANumber | .infinite _ => "null"
  | .finite negative mantissa exponent =>
      let (digits, power) := shortest mantissa exponent
      sign negative ++ scientific digits power

/-- The largest whole number that is written out as the name of a property. -/
def largestName : Nat := Nat.pow 2 63 - 1

/-- The text of a non-negative double as the name of a property. Whole numbers below
1e21 are written as integers, and those beyond 64 bits as the largest integer. -/
def propertyName (value : Float) : String :=
  match Binary64.ofFloat value with
  | .finite _ mantissa exponent =>
      match wholeNumber? mantissa exponent with
      | some n => if n < Nat.pow 10 21 then toString (min n largestName) else plain value
      | none => plain value
  | _ => plain value

/-- The value of decimal digits, most significant first; other characters are skipped. -/
def digitsValue (cs : List Char) : Nat :=
  cs.foldl (fun n c => if c.isDigit then n * 10 + (c.toNat - '0'.toNat) else n) 0

/-- The double nearest to `mantissa * 10 ^ exponent`. Decimals out of the range of
doubles are told apart by their size, so that no huge power is computed. -/
def ofScientific (mantissa : Nat) (exponent : Int) : Float :=
  if mantissa = 0 then 0.0
  else
    let magnitude : Int := digitCount mantissa + exponent
    if magnitude > 310 then 1.0 / 0.0
    else if magnitude < -330 then 0.0
    else if 0 ≤ exponent then Float.ofScientific mantissa false exponent.toNat
    else Float.ofScientific mantissa true (-exponent).toNat

/-- The parts of a decimal text: whole digits, fraction digits and the exponent, which
is zero when none is written. -/
structure Parts where
  whole : List Char
  fraction : List Char
  exponent : Int

/-- Take a decimal text apart at its point and its exponent letter. -/
def parts (cs : List Char) : Parts :=
  let isLetter := fun c => c == 'e' || c == 'E'
  let body := cs.takeWhile fun c => !isLetter c
  let power := (cs.drop body.length).drop 1
  let size : Int := digitsValue power
  { whole := body.takeWhile (· != '.')
    fraction := (body.dropWhile (· != '.')).drop 1
    exponent := if power.head? == some '-' then -size else size }

/-- The double nearest to an unsigned decimal text. -/
def ofText (cs : List Char) : Float :=
  let parts := parts cs
  ofScientific (digitsValue (parts.whole ++ parts.fraction))
    (parts.exponent - parts.fraction.length)

end EcmaLint.Decimal
