import Worksheet.Command.Options
import Worksheet.Command.Report
import Worksheet.Command.Run
import Worksheet.Expression.Basic
import Worksheet.Expression.Evaluation
import Worksheet.Expression.Parser
import Worksheet.Expression.Token
import Worksheet.Formula.Batch
import Worksheet.Formula.Calculator
import Worksheet.Formula.Check
import Worksheet.FormulaError
import Worksheet.Function.Aggregate
import Worksheet.Function.Application
import Worksheet.Function.Arity
import Worksheet.Function.Basic
import Worksheet.Function.Library
import Worksheet.Function.Registry
import Worksheet.Grid
import Worksheet.Main
import Worksheet.Number.Decimal
import Worksheet.Number.Magnitude
import Worksheet.Number.Numeral
import Worksheet.Number.Places
import Worksheet.Number.Rounding
import Worksheet.Number.Spelling
import Worksheet.Proofs.Expression.Clash
import Worksheet.Proofs.Expression.Jammed
import Worksheet.Proofs.Expression.Lexing
import Worksheet.Proofs.Expression.Reading
import Worksheet.Proofs.Formula.Check
import Worksheet.Proofs.Formula.Structure
import Worksheet.Proofs.Number.Bits
import Worksheet.Proofs.Number.Literal
import Worksheet.Proofs.Number.Nearest
import Worksheet.Proofs.Number.ReadBack
import Worksheet.Proofs.Outcome
import Worksheet.Proofs.Reference.Piece
import Worksheet.Proofs.Reference.Resolution
import Worksheet.Proofs.Reference.Word
import Worksheet.Proofs.Script.Arguments
import Worksheet.Proofs.Script.Calls
import Worksheet.Proofs.Script.Collapse
import Worksheet.Proofs.Script.Dispatch
import Worksheet.Proofs.Script.Matching
import Worksheet.Proofs.Script.Name
import Worksheet.Proofs.Script.Reduction
import Worksheet.Proofs.Script.Rewriting
import Worksheet.Proofs.Script.Splice
import Worksheet.Proofs.Tree.Basic
import Worksheet.Proofs.Tree.Calls
import Worksheet.Proofs.Tree.Checking
import Worksheet.Proofs.Tree.Collapse
import Worksheet.Proofs.Tree.Evaluation
import Worksheet.Proofs.Tree.Reading
import Worksheet.Proofs.Tree.Reduction
import Worksheet.Proofs.Tree.Resolution
import Worksheet.Proofs.Tree.Script
import Worksheet.Proofs.Tree.Shape
import Worksheet.Reference.Cell
import Worksheet.Reference.Column
import Worksheet.Reference.Piece
import Worksheet.Reference.Range
import Worksheet.Reference.Resolution
import Worksheet.Report.Json
import Worksheet.Script.Arguments
import Worksheet.Script.Basic
import Worksheet.Script.Name
import Worksheet.Script.Reduction
import Worksheet.Settings
import Worksheet.Settings.Reading
import Worksheet.Table.Basic
import Worksheet.Table.Reading
import Worksheet.Table.Record
import Worksheet.Text.Blank
import Worksheet.Text.Lines
import Worksheet.Text.Order
import Worksheet.Text.Quoted
import Worksheet.Text.Word
import Worksheet.Toml.Basic
import Worksheet.Toml.Reader
import Worksheet.Toml.Word
import Worksheet.Value
import Worksheet.Proofs.Expression.Breaks
import Worksheet.Proofs.Function.Errors
import Worksheet.Proofs.Expression.Balance
import Worksheet.Proofs.Formula.Failure
import Worksheet.Proofs.Formula.Naming
import Worksheet.Proofs.Reference.Name
import Worksheet.Proofs.Reference.Range
import Worksheet.Proofs.Aggregate.Numbers
import Worksheet.Proofs.Aggregate.Argument
import Worksheet.Proofs.Aggregate.Call
import Worksheet.Proofs.Aggregate.Evaluation
import Worksheet.Proofs.Reference.Cut
import Worksheet.Proofs.Reference.Part
import Worksheet.Proofs.Meeting.Argument
import Worksheet.Proofs.Meeting.Operand
import Worksheet.Proofs.Meeting.Evaluation
import Worksheet.Proofs.Reference.Strictness
import Worksheet.Proofs.Formula.Strictness
import Worksheet.Proofs.Joining.Resolution
import Worksheet.Proofs.Joining.Evaluation
import Worksheet.Proofs.Reference.Arguments
import Worksheet.Proofs.Reference.Slot
import Worksheet.Proofs.Script.Beside
import Worksheet.Proofs.Reference.Position
import Worksheet.Proofs.Script.Depth
import Worksheet.Proofs.Reference.Nesting
import Worksheet.Proofs.Branch.Argument
import Worksheet.Proofs.Branch.Evaluation
import Worksheet.Proofs.Expression.Grammar
import Worksheet.Proofs.Expression.Spacing
import Worksheet.Proofs.Formula.Finite
import Worksheet.Proofs.Formula.Dependence
import Worksheet.Proofs.Text.Case
import Worksheet.Proofs.Expression.Case
import Worksheet.Proofs.Script.Case
import Worksheet.Proofs.Reference.Case
import Worksheet.Proofs.Function.Case
import Worksheet.Proofs.Formula.Case
import Worksheet.Proofs.Table.Typing
import Worksheet.Proofs.Table.Fields
import Worksheet.Proofs.Table.Reading
import Worksheet.Proofs.Table.Writing
import Worksheet.Proofs.Formula.Wording
import Worksheet.Proofs.Script.Pairing
import Worksheet.Proofs.Script.Sealed
import Worksheet.Proofs.Script.Sites
import Worksheet.Proofs.Script.Innermost
import Worksheet.Proofs.Reference.Pattern
import Worksheet.Proofs.Reference.Substitution
import Worksheet.Proofs.Reference.Enclosing
import Worksheet.Proofs.Command.Batch
import Worksheet.Proofs.Text.Blank
import Worksheet.Proofs.Text.Quoted
import Worksheet.Proofs.Expression.Literal
import Worksheet.Proofs.Number.Plain
import Worksheet.Proofs.Formula.Literal
import Worksheet.Proofs.Reference.Expansion
import Worksheet.Proofs.Reference.RoundTrip
import Worksheet.Proofs.Reference.Column
import Worksheet.Proofs.Text.Bytes
import Worksheet.Proofs.Function.Registry
import Worksheet.Proofs.Number.Quotient
import Worksheet.Proofs.Aggregate.Word
import Worksheet.Proofs.Aggregate.Mean
import Worksheet.Proofs.Bounded.Basic
import Worksheet.Proofs.Bounded.Walk
import Worksheet.Proofs.Bounded.Name
import Worksheet.Proofs.Bounded.Calls
import Worksheet.Proofs.Bounded.Arguments
import Worksheet.Proofs.Bounded.Expression
import Worksheet.Proofs.Bounded.Function
import Worksheet.Proofs.Bounded.Reduction
import Worksheet.Proofs.Bounded.Context
import Worksheet.Proofs.Bounded.Resolution
import Worksheet.Proofs.Bounded.Evaluation
import Worksheet.Proofs.Number.Grid
import Worksheet.Proofs.Number.Rounded
import Worksheet.Proofs.Number.Machine
import Worksheet.Proofs.Number.Operations
import Worksheet.Proofs.Number.Order
import Worksheet.Proofs.Number.Scaling
import Worksheet.Proofs.Number.Places
import Worksheet.Proofs.Aggregate.Order
import Worksheet.Proofs.Aggregate.Median
import Worksheet.Proofs.Aggregate.Pasting
import Worksheet.Proofs.Command.Arguments
import Worksheet.Proofs.Number.Positional
import Worksheet.Proofs.Number.FixedPoint
import Worksheet.Proofs.Number.Display
import Worksheet.Proofs.Number.Closest
import Worksheet.Proofs.Number.Written
