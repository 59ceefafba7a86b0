import EcmaLint.Grammar.Program
import EcmaLint.Text.Span
import EcmaLint.Tree.Place

/-! A program as rules see it: its text, its tree, and its tokens and comments by place.
Tokens and comments come in source order, which the queries rely on. -/
namespace EcmaLint

structure SourceCode where
  text : String
  parsed : Parsed
  deriving Inhabited

/-- The stretch from the end of one span to the start of another. -/
def Span.upTo (left right : Span) : Span := ⟨left.stop, right.start⟩

namespace SourceCode

/-- The place of the whole program. -/
def root (source : SourceCode) : Place := .root source.parsed.program

def tokens (source : SourceCode) : List Token := source.parsed.tokens

def comments (source : SourceCode) : List Comment := source.parsed.comments

/-- The text under a span, empty if the span does not cut the text cleanly. -/
def textOf (source : SourceCode) (span : Span) : String := (span.text? source.text).getD ""

/-- The tokens that lie inside a span. -/
def tokensIn (source : SourceCode) (span : Span) : List Token :=
  (source.tokens.dropWhile fun token => token.span.start < span.start).takeWhile fun token =>
    token.span.stop ≤ span.stop

/-- The comments that lie inside a span. -/
def commentsIn (source : SourceCode) (span : Span) : List Comment :=
  (source.comments.dropWhile fun comment => comment.span.start < span.start).takeWhile
    fun comment => comment.span.stop ≤ span.stop

def firstToken? (source : SourceCode) (span : Span) : Option Token :=
  (source.tokensIn span).head?

def lastToken? (source : SourceCode) (span : Span) : Option Token :=
  (source.tokensIn span).getLast?

/-- The first token inside a span that passes a test. -/
def firstTokenWhere? (source : SourceCode) (span : Span) (test : Token → Bool) : Option Token :=
  (source.tokensIn span).find? test

/-- The last token before a span that passes a test. -/
def tokenBeforeWhere? (source : SourceCode) (span : Span) (test : Token → Bool) : Option Token :=
  (source.tokens.takeWhile fun token => token.span.stop ≤ span.start).reverse.find? test

/-- The first token after a span that passes a test. -/
def tokenAfterWhere? (source : SourceCode) (span : Span) (test : Token → Bool) : Option Token :=
  (source.tokens.dropWhile fun token => token.span.start < span.stop).find? test

def tokenBefore? (source : SourceCode) (span : Span) : Option Token :=
  source.tokenBeforeWhere? span fun _ => true

def tokenAfter? (source : SourceCode) (span : Span) : Option Token :=
  source.tokenAfterWhere? span fun _ => true

def tokensBetween (source : SourceCode) (left right : Span) : List Token :=
  source.tokensIn (left.upTo right)

/-- Whether a comment lies between two spans. -/
def commentsExistBetween (source : SourceCode) (left right : Span) : Bool :=
  !(source.commentsIn (left.upTo right)).isEmpty

def extent (source : SourceCode) (span : Span) : Extent := span.extent source.text

end SourceCode

end EcmaLint
