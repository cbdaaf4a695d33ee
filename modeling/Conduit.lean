import Conduit.Clock.Calendar
import Conduit.Clock.Iso
import Conduit.Clock.Moment
import Conduit.Comparison
import Conduit.Config
import Conduit.Config.Check
import Conduit.Config.Document
import Conduit.Config.FileName
import Conduit.Config.Reader
import Conduit.Config.Serve
import Conduit.Database
import Conduit.Diagnostic
import Conduit.Eval
import Conduit.Eval.Action
import Conduit.Eval.Operation
import Conduit.Event
import Conduit.Expr.Basic
import Conduit.Expr.Explicit
import Conduit.Expr.Names
import Conduit.Expr.Operator
import Conduit.Expr.Reader
import Conduit.Expr.Shape
import Conduit.Failure
import Conduit.Fields
import Conduit.Json
import Conduit.Limit
import Conduit.Number
import Conduit.Number.Double
import Conduit.Number.Shortest
import Conduit.Number.Text
import Conduit.Path.Basic
import Conduit.Path.Printer
import Conduit.Path.Reader
import Conduit.Path.Walk
import Conduit.Pattern.Basic
import Conduit.Pattern.Reader
import Conduit.Pattern.Search
import Conduit.Pipeline
import Conduit.Pipeline.Check
import Conduit.Pipeline.Reader
import Conduit.Proofs.Clock.Calendar
import Conduit.Proofs.Clock.Stamp
import Conduit.Proofs.Config.Serve
import Conduit.Proofs.Eval.Alike
import Conduit.Proofs.Eval.Collections
import Conduit.Proofs.Eval.Complete
import Conduit.Proofs.Eval.Contract
import Conduit.Proofs.Eval.Effects
import Conduit.Proofs.Eval.Incidents
import Conduit.Proofs.Eval.Late
import Conduit.Proofs.Eval.Limits
import Conduit.Proofs.Eval.Matches
import Conduit.Proofs.Eval.Merge
import Conduit.Proofs.Eval.Negation
import Conduit.Proofs.Eval.Parts
import Conduit.Proofs.Eval.Paths
import Conduit.Proofs.Eval.Queries
import Conduit.Proofs.Eval.Reads
import Conduit.Proofs.Eval.Related
import Conduit.Proofs.Eval.Verdicts
import Conduit.Proofs.Expr.Arguments
import Conduit.Proofs.Expr.Fields
import Conduit.Proofs.Expr.Parts
import Conduit.Proofs.Expr.Reader
import Conduit.Proofs.Expr.Tag
import Conduit.Proofs.Expr.Term
import Conduit.Proofs.Number.Double
import Conduit.Proofs.Number.Limits
import Conduit.Proofs.Number.Order
import Conduit.Proofs.Path.Printer
import Conduit.Proofs.Path.Quoting
import Conduit.Proofs.Path.Reader
import Conduit.Proofs.Pipeline.Accounts
import Conduit.Proofs.Pipeline.Cancellation
import Conduit.Proofs.Pipeline.Check
import Conduit.Proofs.Pipeline.Clashes
import Conduit.Proofs.Pipeline.Course
import Conduit.Proofs.Pipeline.Log
import Conduit.Proofs.Pipeline.Names
import Conduit.Proofs.Pipeline.Run
import Conduit.Proofs.Pipeline.Sequence
import Conduit.Proofs.Query.Condition
import Conduit.Proofs.Query.Connective
import Conduit.Proofs.Query.Cut
import Conduit.Proofs.Query.Descent
import Conduit.Proofs.Query.Failure
import Conduit.Proofs.Query.Filter
import Conduit.Proofs.Query.Lexeme
import Conduit.Proofs.Query.Lost
import Conduit.Proofs.Query.Order
import Conduit.Proofs.Query.Parentheses
import Conduit.Proofs.Query.Path
import Conduit.Proofs.Query.Phrase
import Conduit.Proofs.Query.Place
import Conduit.Proofs.Query.Printer
import Conduit.Proofs.Query.Progress
import Conduit.Proofs.Query.Reader
import Conduit.Proofs.Query.Rejection
import Conduit.Proofs.Query.Segment
import Conduit.Proofs.Query.Slice
import Conduit.Proofs.Query.Stop
import Conduit.Proofs.Query.Token
import Conduit.Proofs.Query.Walk
import Conduit.Proofs.Reading
import Conduit.Proofs.Scope
import Conduit.Proofs.Scope.Flatten
import Conduit.Proofs.Scope.Tree
import Conduit.Proofs.Slice
import Conduit.Proofs.Store.History
import Conduit.Proofs.Store.Selection
import Conduit.Proofs.Store.Sort
import Conduit.Proofs.Template.Escapes
import Conduit.Proofs.Template.Literal
import Conduit.Proofs.Template.Lookup
import Conduit.Proofs.Template.Marks
import Conduit.Proofs.Template.Placeholder
import Conduit.Proofs.Template.Rendering
import Conduit.Proofs.Text
import Conduit.Proofs.Text.Bytes
import Conduit.Proofs.Text.Decimal
import Conduit.Proofs.Value.Congruence
import Conduit.Proofs.Value.Equality
import Conduit.Proofs.Value.Order
import Conduit.Query.Filter
import Conduit.Query.Reader
import Conduit.Query.Resolve
import Conduit.Query.Segment
import Conduit.Query.Select
import Conduit.Query.Token
import Conduit.Reading.Basic
import Conduit.Reading.Issue
import Conduit.Reading.Object
import Conduit.Reading.Scalar
import Conduit.Schema.Check
import Conduit.Schema.Draft
import Conduit.Schema.Reference
import Conduit.Schema.Rule
import Conduit.Schema.Violations
import Conduit.Scope
import Conduit.Scope.Tree
import Conduit.Settings
import Conduit.Slice
import Conduit.Store
import Conduit.Template
import Conduit.Template.Engine
import Conduit.Template.Placeholder
import Conduit.Template.Tag
import Conduit.Text.Backslash
import Conduit.Text.Blank
import Conduit.Text.Capital
import Conduit.Text.Digit
import Conduit.Text.Numeral
import Conduit.Text.Quoted
import Conduit.Text.Runs
import Conduit.Text.Visible
import Conduit.Text.Word
import Conduit.Value.Basic
import Conduit.Value.Order
import Conduit.Value.Text
import Conduit.Yaml.Block
import Conduit.Yaml.Cursor
import Conduit.Yaml.Error
import Conduit.Yaml.Layout
import Conduit.Yaml.Name
import Conduit.Yaml.Node
import Conduit.Yaml.Node.Reader
import Conduit.Yaml.Plain
import Conduit.Yaml.Quoted
import Conduit.Yaml.Scalar
import Conduit.Yaml.Tag
import Conduit.Yaml.Token
import Conduit.Yaml.Value
