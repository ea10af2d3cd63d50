import BrailleTable.Main
import BrailleTable.Proofs.Command.Endings
import BrailleTable.Proofs.Cursor
import BrailleTable.Proofs.Dialect.Configured
import BrailleTable.Proofs.Dialect.Names
import BrailleTable.Proofs.Directive.Arguments
import BrailleTable.Proofs.Directive.Failure
import BrailleTable.Proofs.Directive.Head
import BrailleTable.Proofs.Directive.Mode
import BrailleTable.Proofs.Directive.Refusal
import BrailleTable.Proofs.Directive.RoundTrip
import BrailleTable.Proofs.Directive.Slots
import BrailleTable.Proofs.Directive.Spans
import BrailleTable.Proofs.Directive.Standard
import BrailleTable.Proofs.Expression.Canonical
import BrailleTable.Proofs.Expression.Completeness
import BrailleTable.Proofs.Expression.Deepening
import BrailleTable.Proofs.Expression.Depth
import BrailleTable.Proofs.Expression.ErrorPlace
import BrailleTable.Proofs.Expression.Failure
import BrailleTable.Proofs.Expression.Grammar
import BrailleTable.Proofs.Expression.Operands
import BrailleTable.Proofs.Expression.Outcome
import BrailleTable.Proofs.Expression.Places
import BrailleTable.Proofs.Expression.Progress
import BrailleTable.Proofs.Expression.Regular
import BrailleTable.Proofs.Expression.RoundTrip
import BrailleTable.Proofs.Expression.Soundness
import BrailleTable.Proofs.Expression.Spans
import BrailleTable.Proofs.Expression.Stage
import BrailleTable.Proofs.Expression.Walk
import BrailleTable.Proofs.Expression.Writable
import BrailleTable.Proofs.LogicalLine
import BrailleTable.Proofs.LogicalLine.Digits
import BrailleTable.Proofs.LogicalLine.Joining
import BrailleTable.Proofs.LogicalLine.Physical
import BrailleTable.Proofs.LogicalLine.Ranges
import BrailleTable.Proofs.LogicalLine.SourceMap
import BrailleTable.Proofs.Report
import BrailleTable.Proofs.Result
import BrailleTable.Proofs.Shift
import BrailleTable.Proofs.Table.Added
import BrailleTable.Proofs.Table.Alone
import BrailleTable.Proofs.Table.Append
import BrailleTable.Proofs.Table.ErrorPlace
import BrailleTable.Proofs.Table.Errors
import BrailleTable.Proofs.Table.Failure
import BrailleTable.Proofs.Table.Lines
import BrailleTable.Proofs.Table.RoundTrip
import BrailleTable.Proofs.Table.Spans
import BrailleTable.Proofs.Text.Classes
import BrailleTable.Proofs.Text.Decimal
import BrailleTable.Proofs.Text.Lowercase
import BrailleTable.Proofs.Text.Sorted
import BrailleTable.Proofs.Text.Trim
import BrailleTable.Proofs.Token.Cut
import BrailleTable.Proofs.Token.Kind
import BrailleTable.Proofs.Token.Located
import BrailleTable.Proofs.Token.Order
import BrailleTable.Proofs.Token.Session
import BrailleTable.Proofs.Token.Spelling
import BrailleTable.Proofs.Value.CharClass
import BrailleTable.Proofs.Value.ClassEscape
import BrailleTable.Proofs.Value.ClassGrammar
import BrailleTable.Proofs.Value.DotText
import BrailleTable.Proofs.Value.Dots
import BrailleTable.Proofs.Value.ErrorPlace
import BrailleTable.Proofs.Value.Escape
import BrailleTable.Proofs.Value.EscapeGrammar
import BrailleTable.Proofs.Value.Legible
import BrailleTable.Proofs.Value.Name
import BrailleTable.Proofs.Value.Refusal
import BrailleTable.Proofs.Value.RoundTrip
import BrailleTable.Proofs.Value.Spans
import BrailleTable.Proofs.Vocabulary
import BrailleTable.Proofs.Directive.Filling
import BrailleTable.Proofs.Directive.Alignment
import BrailleTable.Proofs.Table.Conformance
import BrailleTable.Proofs.Relocation
import BrailleTable.Proofs.Relocation.Lexer
import BrailleTable.Proofs.LogicalLine.Returns
import BrailleTable.Proofs.Table.Returns
import BrailleTable.Proofs.Table.Values
import BrailleTable.Proofs.Expression.OperandText
import BrailleTable.Proofs.Expression.Context
import BrailleTable.Proofs.Expression.Wanted
import BrailleTable.Proofs.Expression.Expected
import BrailleTable.Proofs.Table.SingleLine
import BrailleTable.Proofs.Token.Taking
import BrailleTable.Proofs.Token.Covering
import BrailleTable.Proofs.Token.Splitting
import BrailleTable.Proofs.Token.Quoting
import BrailleTable.Proofs.Value.Choice
import BrailleTable.Proofs.Expression.Run
import BrailleTable.Proofs.Expression.Termination
import BrailleTable.Proofs.Expression.Room
import BrailleTable.Proofs.Table.Reader
import BrailleTable.Proofs.Config.Failure
