import CatLang.Checked
import CatLang.CommandLine.Options
import CatLang.CommandLine.Run
import CatLang.CommandLine.Session
import CatLang.Decimal.Shortest
import CatLang.Diagnostic
import CatLang.Diagnostic.Line
import CatLang.Diagnostic.Paint
import CatLang.Diagnostic.Render
import CatLang.Failure
import CatLang.Fault
import CatLang.Finding
import CatLang.Folder
import CatLang.Main
import CatLang.Numeral
import CatLang.Output
import CatLang.Parser.Error
import CatLang.Parser.Expr
import CatLang.Parser.Program
import CatLang.Parser.Reading
import CatLang.Parser.Window
import CatLang.Proofs.Assignments
import CatLang.Proofs.ByteOrder
import CatLang.Proofs.Calls
import CatLang.Proofs.Causes
import CatLang.Proofs.DeadBlocks
import CatLang.Proofs.Decoding
import CatLang.Proofs.Dependence
import CatLang.Proofs.Depth
import CatLang.Proofs.Doubles
import CatLang.Proofs.Expression
import CatLang.Proofs.Frame
import CatLang.Proofs.Grammar
import CatLang.Proofs.Inner
import CatLang.Proofs.Joining
import CatLang.Proofs.LastWrite
import CatLang.Proofs.Layout
import CatLang.Proofs.Lexing
import CatLang.Proofs.Lines
import CatLang.Proofs.Locality
import CatLang.Proofs.Modulo
import CatLang.Proofs.Nodes
import CatLang.Proofs.NumeralValues
import CatLang.Proofs.Numerals
import CatLang.Proofs.OnDemand
import CatLang.Proofs.Origins
import CatLang.Proofs.ParseErrors
import CatLang.Proofs.Parsing
import CatLang.Proofs.Pointing
import CatLang.Proofs.Precedence
import CatLang.Proofs.Readers
import CatLang.Proofs.Reading
import CatLang.Proofs.RoundTrip
import CatLang.Proofs.Rounding
import CatLang.Proofs.Running
import CatLang.Proofs.Shifting
import CatLang.Proofs.SideBySide
import CatLang.Proofs.Simulation
import CatLang.Proofs.Spacing
import CatLang.Proofs.Statements
import CatLang.Proofs.Stream
import CatLang.Proofs.SyntaxErrors
import CatLang.Proofs.Tiling
import CatLang.Proofs.Traced
import CatLang.Proofs.Truncation
import CatLang.Proofs.Undecodable
import CatLang.Proofs.Unrolling
import CatLang.Proofs.Utf8
import CatLang.Proofs.Value
import CatLang.Proofs.WarningOrder
import CatLang.Proofs.Warnings
import CatLang.Proofs.Window
import CatLang.Run
import CatLang.Span
import CatLang.Table
import CatLang.Text.Blank
import CatLang.Text.Decoder
import CatLang.Text.Printable
import CatLang.Text.Quoted
import CatLang.Text.Ranges
import CatLang.Text.Size
import CatLang.Text.Utf8
import CatLang.Text.Width
import CatLang.Token
import CatLang.Token.Error
import CatLang.Token.Lexer
import CatLang.Token.Listing
import CatLang.Token.Source
import CatLang.Token.Stream
import CatLang.Tree
import CatLang.Tree.Outline
import CatLang.Tree.Printer
import CatLang.Value
import CatLang.Warning
