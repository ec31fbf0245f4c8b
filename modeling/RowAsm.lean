import RowAsm.Code.Basic
import RowAsm.Code.Layout
import RowAsm.Diagnostic
import RowAsm.Encoder.Basic
import RowAsm.Encoder.Selection
import RowAsm.Encoder.Trace
import RowAsm.Fault
import RowAsm.Json.Basic
import RowAsm.Json.Data
import RowAsm.Json.Form
import RowAsm.Json.Reader
import RowAsm.Literal
import RowAsm.Match.Basic
import RowAsm.Match.Captures
import RowAsm.Match.Reader
import RowAsm.Mismatch
import RowAsm.Place
import RowAsm.Proofs.Capture
import RowAsm.Proofs.Compile
import RowAsm.Proofs.Length
import RowAsm.Proofs.Position
import RowAsm.Proofs.Safety
import RowAsm.Proofs.Selection
import RowAsm.Proofs.Settings
import RowAsm.Register
import RowAsm.Row.Compile
import RowAsm.Row.Rejection
import RowAsm.Source.Lexeme
import RowAsm.Source.Span
import RowAsm.Source.Token
import RowAsm.Table.Basic
import RowAsm.Table.General
import RowAsm.Table.Index
import RowAsm.Template.Basic
import RowAsm.Template.Operand
import RowAsm.Template.Part
import RowAsm.Text.Blank
import RowAsm.Text.Case
import RowAsm.Text.Digit
import RowAsm.Text.Field
import RowAsm.Text.Replace
import RowAsm.Word
import RowAsm.Proofs.Addressing
import RowAsm.Proofs.RoundTrip
import RowAsm.Proofs.Order
import RowAsm.Proofs.RexPlacement
import RowAsm.Proofs.Separation
import RowAsm.Proofs.Apart
import RowAsm.Proofs.Unambiguous
import RowAsm.Proofs.LetterCase
import RowAsm.Proofs.Grammar
import RowAsm.Proofs.Exact
import RowAsm.Proofs.Alike
import RowAsm.Proofs.Blame
import RowAsm.Proofs.CaseBlind
import RowAsm.Proofs.Concatenation
import RowAsm.Proofs.Denotation
import RowAsm.Proofs.Lexical
import RowAsm.Proofs.Lossless
import RowAsm.Proofs.Spelling
import RowAsm.Proofs.Line
import RowAsm.Proofs.JsonText
import RowAsm.Proofs.JsonForms
import RowAsm.Proofs.Placeholders
import RowAsm.Proofs.ShortestAddress
import RowAsm.Proofs.OpcodeColumn
import RowAsm.Proofs.LengthLimit
import RowAsm.Proofs.OpcodeTokens
import RowAsm.Proofs.OperandKinds
import RowAsm.Proofs.LiteralValue
import RowAsm.Proofs.ColumnSpelling
import RowAsm.Proofs.RowText
import RowAsm.Proofs.LiteralGrammar
import RowAsm.Proofs.Respacing
import RowAsm.Proofs.ExactLength
import RowAsm.Proofs.FirstFlaw
