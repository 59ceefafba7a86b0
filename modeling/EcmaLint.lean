import EcmaLint.Config.Basic
import EcmaLint.Config.Linter
import EcmaLint.Config.Printer
import EcmaLint.Config.Reader
import EcmaLint.Conformance.Case
import EcmaLint.Conformance.Failure
import EcmaLint.Conformance.Reader
import EcmaLint.Conformance.Tester
import EcmaLint.Decimal.Notation
import EcmaLint.Edit.Fix
import EcmaLint.Grammar.Basic
import EcmaLint.Grammar.Expression
import EcmaLint.Grammar.Function
import EcmaLint.Grammar.Literal
import EcmaLint.Grammar.Object
import EcmaLint.Grammar.Operand
import EcmaLint.Grammar.ParseError
import EcmaLint.Grammar.Parser
import EcmaLint.Grammar.Pattern
import EcmaLint.Grammar.Production
import EcmaLint.Grammar.Program
import EcmaLint.Grammar.Statement
import EcmaLint.Grammar.Target
import EcmaLint.Json.Basic
import EcmaLint.Json.Decode
import EcmaLint.Json.Document
import EcmaLint.Json.Printer
import EcmaLint.Json.Reader
import EcmaLint.Lint.Diagnostic
import EcmaLint.Lint.Filing
import EcmaLint.Lint.FixRun
import EcmaLint.Lint.Linter
import EcmaLint.Lint.Options
import EcmaLint.Lint.Pass
import EcmaLint.Lint.Rule
import EcmaLint.Lint.SourceCode
import EcmaLint.Proofs.Config.Merge
import EcmaLint.Proofs.Config.RoundTrip
import EcmaLint.Proofs.Conformance.Duplicates
import EcmaLint.Proofs.Conformance.Reading
import EcmaLint.Proofs.Conformance.RoundTrip
import EcmaLint.Proofs.Conformance.Weakening
import EcmaLint.Proofs.Edit.Greedy
import EcmaLint.Proofs.Edit.Joining
import EcmaLint.Proofs.Edit.Merge
import EcmaLint.Proofs.Edit.Selection
import EcmaLint.Proofs.Edition.Gated
import EcmaLint.Proofs.Edition.Operand
import EcmaLint.Proofs.Edition.Program
import EcmaLint.Proofs.Except
import EcmaLint.Proofs.Exchange.Ahead
import EcmaLint.Proofs.Exchange.Alike
import EcmaLint.Proofs.Exchange.Basic
import EcmaLint.Proofs.Exchange.Conversion
import EcmaLint.Proofs.Exchange.Edge
import EcmaLint.Proofs.Exchange.Expression
import EcmaLint.Proofs.Exchange.Inside
import EcmaLint.Proofs.Exchange.Lengthening
import EcmaLint.Proofs.Exchange.Looks
import EcmaLint.Proofs.Exchange.Method
import EcmaLint.Proofs.Exchange.Mimics
import EcmaLint.Proofs.Exchange.Object
import EcmaLint.Proofs.Exchange.Operand
import EcmaLint.Proofs.Exchange.Parts
import EcmaLint.Proofs.Exchange.Pattern
import EcmaLint.Proofs.Exchange.Program
import EcmaLint.Proofs.Exchange.Property
import EcmaLint.Proofs.Exchange.Rewriting
import EcmaLint.Proofs.Exchange.Shortening
import EcmaLint.Proofs.Exchange.Steps
import EcmaLint.Proofs.Exchange.Tracks
import EcmaLint.Proofs.Exchange.Values
import EcmaLint.Proofs.Grammar.Accepts
import EcmaLint.Proofs.Grammar.DeepPatterns
import EcmaLint.Proofs.Grammar.Expression
import EcmaLint.Proofs.Grammar.Operand
import EcmaLint.Proofs.Grammar.Pattern
import EcmaLint.Proofs.Grammar.Program
import EcmaLint.Proofs.Grammar.Reading
import EcmaLint.Proofs.Grammar.Retarget
import EcmaLint.Proofs.Grammar.SourceText
import EcmaLint.Proofs.Grammar.Statement
import EcmaLint.Proofs.Grammar.Steps
import EcmaLint.Proofs.Grammar.Target
import EcmaLint.Proofs.Grammar.Yields
import EcmaLint.Proofs.Json.Decoding
import EcmaLint.Proofs.Json.Ordered
import EcmaLint.Proofs.Json.Reading
import EcmaLint.Proofs.Lint.Erasure
import EcmaLint.Proofs.Lint.Filing
import EcmaLint.Proofs.Lint.FixRun
import EcmaLint.Proofs.Lint.Independence
import EcmaLint.Proofs.Lint.Message
import EcmaLint.Proofs.Lint.Outcome
import EcmaLint.Proofs.Lint.Pass
import EcmaLint.Proofs.Lint.Proposals
import EcmaLint.Proofs.Lint.Queries
import EcmaLint.Proofs.Lint.Refusal
import EcmaLint.Proofs.Lint.Remembering
import EcmaLint.Proofs.Lint.Setup
import EcmaLint.Proofs.Order.Search
import EcmaLint.Proofs.Order.StableSort
import EcmaLint.Proofs.Progress.Advances
import EcmaLint.Proofs.Progress.Follows
import EcmaLint.Proofs.Progress.Operand
import EcmaLint.Proofs.Progress.Part
import EcmaLint.Proofs.Progress.Program
import EcmaLint.Proofs.Progress.Safety
import EcmaLint.Proofs.Progress.Statement
import EcmaLint.Proofs.Progress.Steps
import EcmaLint.Proofs.Progress.Termination
import EcmaLint.Proofs.Rules.ArrowScopes
import EcmaLint.Proofs.Rules.Bindings
import EcmaLint.Proofs.Rules.CaughtAssignment
import EcmaLint.Proofs.Rules.MethodFix
import EcmaLint.Proofs.Rules.ObjectShorthand
import EcmaLint.Proofs.Rules.ShorthandComments
import EcmaLint.Proofs.Rules.ShorthandFix
import EcmaLint.Proofs.Rules.ShorthandOptions
import EcmaLint.Proofs.Rules.UnsafeFinally
import EcmaLint.Proofs.Rules.VarScopes
import EcmaLint.Proofs.Schema.Describes
import EcmaLint.Proofs.Selector.Asked
import EcmaLint.Proofs.Selector.Bounds
import EcmaLint.Proofs.Selector.Chains
import EcmaLint.Proofs.Selector.Following
import EcmaLint.Proofs.Selector.Offsets
import EcmaLint.Proofs.Selector.RoundTrip
import EcmaLint.Proofs.Selector.Written
import EcmaLint.Proofs.Shape.Basic
import EcmaLint.Proofs.Shape.Defaults
import EcmaLint.Proofs.Shape.Inversion
import EcmaLint.Proofs.Shape.Operand
import EcmaLint.Proofs.Shape.Settling
import EcmaLint.Proofs.Shape.Statement
import EcmaLint.Proofs.Shape.Target
import EcmaLint.Proofs.Shape.Waiting
import EcmaLint.Proofs.Text.Boundary
import EcmaLint.Proofs.Text.Escapes
import EcmaLint.Proofs.Text.Lines
import EcmaLint.Proofs.Text.Positions
import EcmaLint.Proofs.Token.Comments
import EcmaLint.Proofs.Token.Division
import EcmaLint.Proofs.Token.Lengths
import EcmaLint.Proofs.Token.LineBreaks
import EcmaLint.Proofs.Token.Literals
import EcmaLint.Proofs.Token.Locality
import EcmaLint.Proofs.Token.Nesting
import EcmaLint.Proofs.Token.Order
import EcmaLint.Proofs.Token.Pieces
import EcmaLint.Proofs.Token.Runs
import EcmaLint.Proofs.Token.Separation
import EcmaLint.Proofs.Token.Slices
import EcmaLint.Proofs.Tree.Aligned
import EcmaLint.Proofs.Tree.Forest
import EcmaLint.Proofs.Tree.Lineage
import EcmaLint.Proofs.Tree.Linked
import EcmaLint.Proofs.Tree.Outline
import EcmaLint.Proofs.Tree.Stores
import EcmaLint.Proofs.Tree.Traversal
import EcmaLint.Regex.Engine
import EcmaLint.Regex.Reader
import EcmaLint.Regex.Tables
import EcmaLint.Rules.AsyncExecutor
import EcmaLint.Rules.Bindings
import EcmaLint.Rules.CatchShadow
import EcmaLint.Rules.CaughtAssignment
import EcmaLint.Rules.ObjectShorthand.Basic
import EcmaLint.Rules.ObjectShorthand.Settings
import EcmaLint.Rules.Registry
import EcmaLint.Rules.Script
import EcmaLint.Rules.UnsafeFinally
import EcmaLint.Schema.Basic
import EcmaLint.Schema.Check
import EcmaLint.Schema.Reader
import EcmaLint.Selector.Basic
import EcmaLint.Selector.Match
import EcmaLint.Selector.Reader
import EcmaLint.Text.Blank
import EcmaLint.Text.Bytes
import EcmaLint.Text.Escape
import EcmaLint.Text.Span
import EcmaLint.Text.Visible
import EcmaLint.Token.Basic
import EcmaLint.Token.Lexer
import EcmaLint.Tree.Arena
import EcmaLint.Tree.Kind
import EcmaLint.Tree.Node
import EcmaLint.Tree.Outline
import EcmaLint.Tree.Place
import EcmaLint.Yaml.Block
import EcmaLint.Yaml.Flow
