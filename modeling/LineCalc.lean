import LineCalc.Binary64.Basic
import LineCalc.Binary64.Decimal
import LineCalc.Binary64.Round
import LineCalc.Bytes
import LineCalc.CommandLine.Arguments
import LineCalc.CommandLine.Directory
import LineCalc.CommandLine.Program
import LineCalc.Cursor
import LineCalc.Digits
import LineCalc.Error
import LineCalc.Escape
import LineCalc.Expr
import LineCalc.Item
import LineCalc.Line
import LineCalc.Main
import LineCalc.Parser
import LineCalc.Proofs.Acceptance
import LineCalc.Proofs.Accounting
import LineCalc.Proofs.Activations
import LineCalc.Proofs.Arithmetic
import LineCalc.Proofs.Composing
import LineCalc.Proofs.Coverage
import LineCalc.Proofs.Decimals
import LineCalc.Proofs.Decoding
import LineCalc.Proofs.Descent
import LineCalc.Proofs.Dialogue
import LineCalc.Proofs.Evaluating
import LineCalc.Proofs.Exactness
import LineCalc.Proofs.Framing
import LineCalc.Proofs.Grammar
import LineCalc.Proofs.Interleaving
import LineCalc.Proofs.Interruption
import LineCalc.Proofs.Items
import LineCalc.Proofs.Layout
import LineCalc.Proofs.Lines
import LineCalc.Proofs.Messages
import LineCalc.Proofs.Nearest
import LineCalc.Proofs.Nesting
import LineCalc.Proofs.Numerals
import LineCalc.Proofs.Pointing
import LineCalc.Proofs.Pulling
import LineCalc.Proofs.Quotients
import LineCalc.Proofs.Reading
import LineCalc.Proofs.Reals
import LineCalc.Proofs.Recursion
import LineCalc.Proofs.Relocation
import LineCalc.Proofs.Rendering
import LineCalc.Proofs.Respacing
import LineCalc.Proofs.Resuming
import LineCalc.Proofs.Rounding
import LineCalc.Proofs.Scan
import LineCalc.Proofs.Writing
import LineCalc.Record
import LineCalc.Session.Basic
import LineCalc.Session.Delivery
import LineCalc.Token
import LineCalc.Unicode.DefaultIgnorable
import LineCalc.Unicode.GraphemeExtend
import LineCalc.Unicode.Ranges
import LineCalc.Unicode.Unprintable
import LineCalc.Value
