import EcmaLint.Text.Blank
import EcmaLint.Text.Bytes

/-! Stretches of a program, as half-open ranges of byte offsets. A span is raw data:
rules may propose any pair of offsets, and `Span.text?` says which of them cut a text
cleanly.

Lines and columns for readers of a program. Lines end after `\n`, after a `\r`
that no `\n` follows, and after U+2028 and U+2029. Columns count UTF-16 code units,
and both counts start at one. A position has them in 32 bits. -/
namespace EcmaLint

/-- A half-open range of byte offsets. -/
structure Span where
  start : Nat
  stop : Nat
  deriving DecidableEq, Repr, Inhabited

namespace Span

/-- The empty span at an offset. -/
def point (offset : Nat) : Span := ⟨offset, offset⟩

/-- Number of bytes covered; an inverted span covers none. -/
def length (span : Span) : Nat := span.stop - span.start

def isEmpty (span : Span) : Bool := span.start == span.stop

/-- The span is not inverted and ends inside a text of `size` bytes. -/
def fits (span : Span) (size : Nat) : Bool :=
  span.start ≤ span.stop && span.stop ≤ size

/-- One span lies inside another. -/
def within (inner outer : Span) : Bool :=
  outer.start ≤ inner.start && inner.stop ≤ outer.stop

/-- The written form of a span, such as `3..7`. -/
def render (span : Span) : String :=
  toString span.start ++ ".." ++ toString span.stop

/-- The text that a span covers, if both ends are character boundaries in order. -/
def text? (span : Span) (source : String) : Option String :=
  (Text.slice? span.start span.stop source.toList).map String.ofList

end Span

/-- A line and a column in numbers of 32 bits. -/
structure Position where
  line : UInt32
  column : UInt32
  deriving DecidableEq, Repr, Inhabited

/-- Numbers of 32 bits are told as any other numbers. -/
instance coeOutUInt32 : CoeOut UInt32 Nat := ⟨UInt32.toNat⟩

/-- A line and a column, counted without a bound. -/
structure LineColumn where
  line : Nat
  column : Nat
  deriving DecidableEq, Repr, Inhabited

/-- The numbers start again from zero behind the last one that has 32 bits. -/
def LineColumn.position (place : LineColumn) : Position :=
  ⟨.ofNat place.line, .ofNat place.column⟩

namespace Text

/-- Number of UTF-16 code units of a character. -/
def utf16Size (c : Char) : Nat := if c.toNat < 0x10000 then 1 else 2

/-- Whether a line ends after `c` when `rest` follows it. -/
def endsLine (c : Char) (rest : List Char) : Bool :=
  isLineTerminator c && !(c == '\r' && rest.head? == some '\n')

end Text

namespace LineColumn

/-- The first line and column of every text. -/
def origin : LineColumn := ⟨1, 1⟩

/-- Move forward over `bytes` bytes of a text. A character that is only partly
covered counts as a character of its line, and the end of the text is the last
place reached. -/
def advance (place : LineColumn) : Nat → List Char → LineColumn
  | 0, _ => place
  | _ + 1, [] => place
  | bytes + 1, c :: cs =>
      if c.utf8Size ≤ bytes + 1 && Text.endsLine c cs then
        advance ⟨place.line + 1, 1⟩ (bytes + 1 - c.utf8Size) cs
      else
        advance ⟨place.line, place.column + Text.utf16Size c⟩ (bytes + 1 - c.utf8Size) cs

/-- The line and the column of a byte offset. Offsets past the end stand for the end. -/
def of (source : String) (offset : Nat) : LineColumn :=
  advance origin offset source.toList

end LineColumn

namespace Position

instance : LT Position :=
  ⟨fun a b => a.line < b.line ∨ a.line = b.line ∧ a.column < b.column⟩

instance : LE Position :=
  ⟨fun a b => a.line < b.line ∨ a.line = b.line ∧ a.column ≤ b.column⟩

theorem lt_def {a b : Position} :
    a < b ↔ a.line < b.line ∨ a.line = b.line ∧ a.column < b.column := Iff.rfl

theorem le_def {a b : Position} :
    a ≤ b ↔ a.line < b.line ∨ a.line = b.line ∧ a.column ≤ b.column := Iff.rfl

/-- The written form of a position, such as `2:5`. -/
def render (position : Position) : String :=
  toString position.line ++ ":" ++ toString position.column

/-- The position of a byte offset. -/
def of (source : String) (offset : Nat) : Position :=
  (LineColumn.of source offset).position

/-- Number of lines of a text. -/
def lineCount : List Char → Nat
  | [] => 1
  | c :: cs => (if Text.endsLine c cs then 1 else 0) + lineCount cs

end Position

/-- The positions of the two ends of a span. -/
structure Extent where
  start : Position
  stop : Position
  deriving DecidableEq, Repr, Inhabited

/-- The positions of the two ends of a span in a text. -/
def Span.extent (span : Span) (source : String) : Extent :=
  ⟨Position.of source span.start, Position.of source span.stop⟩

end EcmaLint
