import Chronicle.Calendar.Date
import Chronicle.Calendar.Iso
import Chronicle.Calendar.Moment
import Chronicle.Decimal.Binary64
import Chronicle.Decimal.Numeral
import Chronicle.Decimal.Power
import Chronicle.Decimal.Shortest
import Chronicle.Duration
import Chronicle.Entity
import Chronicle.Failure
import Chronicle.Files.Path
import Chronicle.Files.Tree
import Chronicle.Filter.Basic
import Chronicle.Filter.Match
import Chronicle.Filter.Predicate
import Chronicle.Filter.Text
import Chronicle.History.EntityView
import Chronicle.History.Snapshot
import Chronicle.Journal
import Chronicle.Kind
import Chronicle.Query.AsOf
import Chronicle.Query.Basic
import Chronicle.Query.Builder
import Chronicle.Query.OfRecord
import Chronicle.Query.Proper
import Chronicle.Query.ToRecord
import Chronicle.Record.Moment
import Chronicle.Record.Reading
import Chronicle.Schema
import Chronicle.Settings.Basic
import Chronicle.Settings.EnvFile
import Chronicle.Statement.Basic
import Chronicle.Statement.Compile
import Chronicle.Statement.Fragment
import Chronicle.Statement.Name
import Chronicle.Statement.Shared
import Chronicle.Statement.Text
import Chronicle.Store.Answer
import Chronicle.Store.Binding
import Chronicle.Store.Cell
import Chronicle.Store.Database
import Chronicle.Store.Expression
import Chronicle.Store.Expression.Reader
import Chronicle.Store.Pattern
import Chronicle.Store.Row
import Chronicle.Text.Blank
import Chronicle.Text.Case
import Chronicle.Text.CodeRange
import Chronicle.Text.Digit
import Chronicle.Text.Printable
import Chronicle.Text.Quoted
import Chronicle.Text.Word
import Chronicle.Timestamp
import Chronicle.Value
import Chronicle.Yaml.Node
import Chronicle.Yaml.Node.Meaning
import Chronicle.Yaml.Node.Reader
import Chronicle.Yaml.Page
import Chronicle.Yaml.Printer
import Chronicle.Yaml.Scalar
import Chronicle.Yaml.Tag
import Chronicle.Yaml.Text
import Chronicle.Yaml.Token
import Chronicle.Yaml.Token.Lexer
import Chronicle.Proofs.AsOf.Acceptance
import Chronicle.Proofs.AsOf.Answer
import Chronicle.Proofs.AsOf.Compiles
import Chronicle.Proofs.AsOf.Counterparts
import Chronicle.Proofs.AsOf.Passages
import Chronicle.Proofs.AsOf.Rows
import Chronicle.Proofs.AsOf.State
import Chronicle.Proofs.AsOf.Statement
import Chronicle.Proofs.AsOf.Substitution
import Chronicle.Proofs.AsOf.Text
import Chronicle.Proofs.AsOf.Untranslatable
import Chronicle.Proofs.Calendar.Months
import Chronicle.Proofs.Calendar.Ordinal
import Chronicle.Proofs.Calendar.Reading
import Chronicle.Proofs.Calendar.Written
import Chronicle.Proofs.Calls
import Chronicle.Proofs.Decimal.Doubles
import Chronicle.Proofs.Decimal.Overflow
import Chronicle.Proofs.Decimal.Positional
import Chronicle.Proofs.Decimal.Reading
import Chronicle.Proofs.Decimal.Shortest
import Chronicle.Proofs.Decimal.Written
import Chronicle.Proofs.Entity.Current
import Chronicle.Proofs.Entity.Dangling
import Chronicle.Proofs.Entity.Held
import Chronicle.Proofs.Entity.Journaled
import Chronicle.Proofs.Entity.References
import Chronicle.Proofs.Entity.Save
import Chronicle.Proofs.Entity.Times
import Chronicle.Proofs.Filter.Clauses
import Chronicle.Proofs.Filter.Contains
import Chronicle.Proofs.Filter.Exact
import Chronicle.Proofs.Filter.Listed
import Chronicle.Proofs.Filter.Literal
import Chronicle.Proofs.Filter.Meaning
import Chronicle.Proofs.Filter.Patterns
import Chronicle.Proofs.Filter.Predicates
import Chronicle.Proofs.Filter.Present
import Chronicle.Proofs.Filter.Search
import Chronicle.Proofs.Fragment.Followed
import Chronicle.Proofs.Fragment.Joined
import Chronicle.Proofs.Fragment.Lexemes
import Chronicle.Proofs.Fragment.Meaning
import Chronicle.Proofs.Fragment.Parsed
import Chronicle.Proofs.Fragment.Respelled
import Chronicle.Proofs.Fragment.Shape
import Chronicle.Proofs.Fragment.Steps
import Chronicle.Proofs.History.Batch
import Chronicle.Proofs.History.Differences
import Chronicle.Proofs.History.Lossless
import Chronicle.Proofs.History.Matches
import Chronicle.Proofs.History.Present
import Chronicle.Proofs.History.Rows
import Chronicle.Proofs.History.Views
import Chronicle.Proofs.Journal.Append
import Chronicle.Proofs.Journal.Intervals
import Chronicle.Proofs.Journal.Refusal
import Chronicle.Proofs.Journal.Regular
import Chronicle.Proofs.Journal.Timeline
import Chronicle.Proofs.Outcome
import Chronicle.Proofs.Query.RoundTrip
import Chronicle.Proofs.Statement.Answered
import Chronicle.Proofs.Statement.Compiled
import Chronicle.Proofs.Statement.Composed
import Chronicle.Proofs.Statement.Conditions
import Chronicle.Proofs.Statement.Content
import Chronicle.Proofs.Statement.Grouping
import Chronicle.Proofs.Statement.Joins
import Chronicle.Proofs.Statement.Lookup
import Chronicle.Proofs.Statement.OpenTexts
import Chronicle.Proofs.Statement.Renamed
import Chronicle.Proofs.Statement.Resolved
import Chronicle.Proofs.Statement.Scoped
import Chronicle.Proofs.Statement.Shared
import Chronicle.Proofs.Statement.Taken
import Chronicle.Proofs.Statement.Writing
import Chronicle.Proofs.Store.Holding
import Chronicle.Proofs.Store.Refusal
import Chronicle.Proofs.Store.Rows
import Chronicle.Proofs.Text.Capitals
import Chronicle.Proofs.Timestamp.Key
import Chronicle.Proofs.Timestamp.Meaning
import Chronicle.Proofs.Timestamp.Order
import Chronicle.Proofs.Timestamp.ReadBack
import Chronicle.Proofs.Timestamp.Reading
import Chronicle.Proofs.Timestamp.Respelled
import Chronicle.Proofs.Timestamp.Spelling
import Chronicle.Proofs.History.LastChange
import Chronicle.Proofs.Filter.Compared
import Chronicle.Proofs.Filter.Opposite
import Chronicle.Proofs.Filter.Times
