import Lox.CommandLine.Arguments
import Lox.CommandLine.Command
import Lox.CommandLine.Directory
import Lox.CommandLine.Prompt
import Lox.CommandLine.Report
import Lox.Cursor
import Lox.Diagnostic
import Lox.Expr.Basic
import Lox.Expr.Evaluation
import Lox.Expr.Postorder
import Lox.Interpreter
import Lox.Line
import Lox.Main
import Lox.Number.Basic
import Lox.Number.Decimal
import Lox.Number.Pattern
import Lox.Parser.Basic
import Lox.Parser.Frame
import Lox.Parser.Source
import Lox.Proofs.Expr.Kind
import Lox.Proofs.Expr.Machine
import Lox.Proofs.Expr.Shape
import Lox.Proofs.Parser.Descent
import Lox.Proofs.Parser.Grammar
import Lox.Proofs.Parser.Position
import Lox.Proofs.Parser.Stack
import Lox.Proofs.Parser.Sweep
import Lox.Proofs.Parser.Tree
import Lox.Proofs.Token.Class
import Lox.Proofs.Token.Context
import Lox.Proofs.Token.Gap
import Lox.Proofs.Token.Items
import Lox.Proofs.Token.Lexeme
import Lox.Proofs.Token.Pieces
import Lox.Proofs.Token.Sequence
import Lox.Sink
import Lox.Text.ControlSequence
import Lox.Text.Similarity
import Lox.Text.Utf8
import Lox.Text.WhiteSpace
import Lox.Token.Basic
import Lox.Token.Lexeme
import Lox.Token.Stream
import Lox.Token.Type
import Lox.Value
import Lox.Proofs.Token.Repair
import Lox.Proofs.Parser.Source
import Lox.Proofs.Expr.Moved
import Lox.Proofs.Program.Composition
import Lox.Proofs.Parser.Lines
import Lox.Proofs.Token.LineBreak
import Lox.Proofs.Expr.Congruence
import Lox.Proofs.Number.Decimal
import Lox.Proofs.Program.Readback
import Lox.Proofs.Program.Session
import Lox.Proofs.Program.Faults
import Lox.Proofs.Parser.Calls
import Lox.Proofs.Parser.Progress
import Lox.Proofs.CommandLine.Prompt
import Lox.Proofs.Parser.Resumption
import Lox.Proofs.Parser.Restart
import Lox.Proofs.Expr.Operands
import Lox.Proofs.Program.Refusal
import Lox.Proofs.CommandLine.File
import Lox.Proofs.Number.Text
import Lox.Proofs.Value.Text
import Lox.Proofs.Token.Literal
import Lox.Proofs.Program.Literals
import Lox.Proofs.Expr.Context
import Lox.Proofs.Parser.Parentheses
import Lox.Proofs.Expr.Text
import Lox.Proofs.Program.Print
import Lox.Proofs.Number.Overflow
import Lox.Proofs.Program.Strings
import Lox.Proofs.Cursor.Slice
import Lox.Proofs.Program.LiteralText
import Lox.Proofs.Token.Slices
import Lox.Proofs.Token.Exhaustion
