import RowFilter.Command.Arguments
import RowFilter.Command.Failure
import RowFilter.Command.Help
import RowFilter.Command.Report
import RowFilter.Command.Run
import RowFilter.Config
import RowFilter.Config.Json
import RowFilter.Conversion.Condition
import RowFilter.Conversion.Converter
import RowFilter.Conversion.Error
import RowFilter.Conversion.Event
import RowFilter.Conversion.Log
import RowFilter.Double
import RowFilter.Double.Shortest
import RowFilter.Double.Text
import RowFilter.Expr
import RowFilter.Expr.Escape
import RowFilter.Expr.Numeral
import RowFilter.Expr.OfTree
import RowFilter.Expr.Operator
import RowFilter.Expr.Parse
import RowFilter.Expr.ParseError
import RowFilter.Grammar.Filter
import RowFilter.Grammar.Frontier
import RowFilter.Grammar.Pattern
import RowFilter.Grammar.Phrase
import RowFilter.Grammar.Rule
import RowFilter.Grammar.Tree
import RowFilter.Json
import RowFilter.Json.Error
import RowFilter.Json.Number
import RowFilter.Json.Reader
import RowFilter.Limits
import RowFilter.Main
import RowFilter.Policy
import RowFilter.Proofs.Command.Listing
import RowFilter.Proofs.Command.Report
import RowFilter.Proofs.Command.Roles
import RowFilter.Proofs.Condition.Arity
import RowFilter.Proofs.Condition.Columns
import RowFilter.Proofs.Condition.Contract
import RowFilter.Proofs.Condition.Derivation
import RowFilter.Proofs.Condition.Kinds
import RowFilter.Proofs.Condition.Language
import RowFilter.Proofs.Condition.Leaves
import RowFilter.Proofs.Condition.Meaning
import RowFilter.Proofs.Condition.Order
import RowFilter.Proofs.Condition.Redaction
import RowFilter.Proofs.Condition.Refusals
import RowFilter.Proofs.Condition.Telling
import RowFilter.Proofs.Conversion.Agreement
import RowFilter.Proofs.Conversion.Authorization
import RowFilter.Proofs.Conversion.Bounds
import RowFilter.Proofs.Conversion.Columns
import RowFilter.Proofs.Conversion.Contract
import RowFilter.Proofs.Conversion.Events
import RowFilter.Proofs.Conversion.Fields
import RowFilter.Proofs.Conversion.Pipeline
import RowFilter.Proofs.Conversion.Roles
import RowFilter.Proofs.Conversion.Settings
import RowFilter.Proofs.Double.Rounding
import RowFilter.Proofs.Double.Shortest
import RowFilter.Proofs.Double.Sign
import RowFilter.Proofs.Expr.Alternatives
import RowFilter.Proofs.Expr.Balance
import RowFilter.Proofs.Expr.Congruence
import RowFilter.Proofs.Expr.Derived
import RowFilter.Proofs.Expr.Doubles
import RowFilter.Proofs.Expr.Escapes
import RowFilter.Proofs.Expr.Height
import RowFilter.Proofs.Expr.Inherited
import RowFilter.Proofs.Expr.Integers
import RowFilter.Proofs.Expr.Justified
import RowFilter.Proofs.Expr.Kept
import RowFilter.Proofs.Expr.Layout
import RowFilter.Proofs.Expr.Legible
import RowFilter.Proofs.Expr.Levels
import RowFilter.Proofs.Expr.Literals
import RowFilter.Proofs.Expr.Making
import RowFilter.Proofs.Expr.Numbers
import RowFilter.Proofs.Expr.Numerals
import RowFilter.Proofs.Expr.Operands
import RowFilter.Proofs.Expr.Paths
import RowFilter.Proofs.Expr.Primaries
import RowFilter.Proofs.Expr.Printer
import RowFilter.Proofs.Expr.Readable
import RowFilter.Proofs.Expr.Refusals
import RowFilter.Proofs.Expr.Roundtrip
import RowFilter.Proofs.Expr.Selections
import RowFilter.Proofs.Expr.Spans
import RowFilter.Proofs.Expr.Spelling
import RowFilter.Proofs.Expr.Unplaced
import RowFilter.Proofs.Grammar.Depth
import RowFilter.Proofs.Grammar.Expressions
import RowFilter.Proofs.Grammar.Finding
import RowFilter.Proofs.Grammar.Forward
import RowFilter.Proofs.Grammar.Layout
import RowFilter.Proofs.Grammar.Lexemes
import RowFilter.Proofs.Grammar.Matching
import RowFilter.Proofs.Grammar.Nesting
import RowFilter.Proofs.Grammar.Patterns
import RowFilter.Proofs.Grammar.Prediction
import RowFilter.Proofs.Grammar.Scanning
import RowFilter.Proofs.Grammar.Sentences
import RowFilter.Proofs.Grammar.Spans
import RowFilter.Proofs.Grammar.Steps
import RowFilter.Proofs.Grammar.Tokens
import RowFilter.Proofs.Schema
import RowFilter.Proofs.Source.Brackets
import RowFilter.Proofs.Source.Places
import RowFilter.Proofs.Sql.Columns
import RowFilter.Proofs.Sql.Evaluation
import RowFilter.Proofs.Sql.LikePattern
import RowFilter.Proofs.Sql.LikeRules
import RowFilter.Proofs.Sql.Parts
import RowFilter.Proofs.Sql.Placeholders
import RowFilter.Proofs.Sql.Readability
import RowFilter.Proofs.Sql.Redaction
import RowFilter.Proofs.Sql.Shape
import RowFilter.Proofs.Text.Digits
import RowFilter.Proofs.TypedExpr.Equality
import RowFilter.Proofs.TypedExpr.Order
import RowFilter.Proofs.TypedExpr.Parts
import RowFilter.Proofs.Typing.Checker
import RowFilter.Proofs.Typing.Declarations
import RowFilter.Proofs.Typing.Depth
import RowFilter.Proofs.Typing.Elaboration
import RowFilter.Proofs.Typing.Environment
import RowFilter.Proofs.Typing.Names
import RowFilter.Proofs.Typing.Nodes
import RowFilter.Proofs.Typing.Paths
import RowFilter.Proofs.Typing.Prefixes
import RowFilter.Proofs.Typing.Problems
import RowFilter.Proofs.Typing.Rules
import RowFilter.Proofs.ValueType.Lexemes
import RowFilter.Proofs.ValueType.Spelling
import RowFilter.Schema
import RowFilter.Source.Brackets
import RowFilter.Source.Span
import RowFilter.Sql.Dialect
import RowFilter.Sql.LikePattern
import RowFilter.Sql.Predicate
import RowFilter.Sql.Renderer
import RowFilter.Text
import RowFilter.Text.Printable
import RowFilter.TypedExpr
import RowFilter.Typing.Checker
import RowFilter.Typing.Diagnostic
import RowFilter.Typing.Environment
import RowFilter.Value
import RowFilter.Value.Json
import RowFilter.ValueType
import RowFilter.ValueType.Reader
