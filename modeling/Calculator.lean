import Calculator.CommandLine
import Calculator.Main
import Calculator.Decimal.Shortest
import Calculator.Proofs.Parser.Completeness
import Calculator.Proofs.Parser.Agreement
import Calculator.Proofs.Parser.Nesting
import Calculator.Proofs.Printing.RoundTrip
import Calculator.Proofs.Token.Pattern
import Calculator.Proofs.Token.Munch
import Calculator.Proofs.Evaluation.Operation
import Calculator.Proofs.Evaluation.Order
import Calculator.Proofs.Evaluation.Typing
import Calculator.Proofs.Juxtaposition
import Calculator.Proofs.Parser.History
import Calculator.Proofs.Shell.Script
import Calculator.Proofs.Parser.Level
import Calculator.Proofs.Parser.Window
import Calculator.Proofs.Parser.IllegalTokens
import Calculator.Proofs.Evaluation.Causes
import Calculator.Proofs.Evaluation.Arguments
import Calculator.Proofs.Evaluation.Ending
import Calculator.Proofs.Powers
import Calculator.Proofs.Text.Segments
import Calculator.Proofs.Shell.Garbled
import Calculator.Proofs.Shell.Framing
import Calculator.Proofs.Parser.Diagnostics
import Calculator.Proofs.Number.Hundredths
import Calculator.Proofs.Number.Literal
import Calculator.Proofs.Boundary
import Calculator.Proofs.Printing.TokenTexts
import Calculator.Proofs.Number.Interval
import Calculator.Proofs.Number.Fewest
import Calculator.Proofs.Printing.Numbers
import Calculator.Proofs.Shell.Typed
import Calculator.Proofs.Parser.Resumption
import Calculator.Proofs.Number.Closest
import Calculator.Proofs.Printing.Quotation
