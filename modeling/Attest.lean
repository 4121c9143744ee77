import Attest.CommandLine.Answer
import Attest.Files.Tree
import Attest.Main
import Attest.Scenario
import Attest.Proofs.Syntax.Lexeme
import Attest.Proofs.Syntax.Scan
import Attest.Proofs.Syntax.Reading
import Attest.Proofs.Syntax.Source
import Attest.Proofs.Call.Search
import Attest.Proofs.Call.Resolve
import Attest.Proofs.Call.Integer
import Attest.Proofs.Call.Literal
import Attest.Proofs.Call.Scalar
import Attest.Proofs.Call.Overflow
import Attest.Proofs.Number.Rounding
import Attest.Proofs.Number.Decimal
import Attest.Proofs.Call.Signed
import Attest.Proofs.Call.Float
import Attest.Proofs.Call.Sequence
import Attest.Proofs.Call.Alike
import Attest.Proofs.Syntax.Endings
import Attest.Proofs.Syntax.Grammar
import Attest.Proofs.Syntax.Aligned
import Attest.Proofs.Call.Places
import Attest.Proofs.Call.Layout
import Attest.Proofs.Syntax.LineBreak
import Attest.Proofs.Syntax.LineEnds
import Attest.Proofs.Call.LineEnds
import Attest.Proofs.Call.Comment
import Attest.Proofs.Call.Canonical
import Attest.Proofs.Check.Report
import Attest.Proofs.Check.Verdict
import Attest.Proofs.Overrides.History
import Attest.Proofs.Scenario.Cleanup
import Attest.Proofs.Config.Variables
import Attest.Proofs.Explain
import Attest.Proofs.Text.Lines
import Attest.Proofs.Syntax.Cursor
import Attest.Proofs.Syntax.Distinct
import Attest.Proofs.Syntax.Parts
import Attest.Proofs.Syntax.RustParts
import Attest.Proofs.Call.Walk
import Attest.Proofs.Call.Order
import Attest.Proofs.Call.Query
import Attest.Proofs.Call.Chained
import Attest.Proofs.Call.Comparison
import Attest.Proofs.Call.Nested
import Attest.Proofs.Syntax.Growth
import Attest.Proofs.Call.Link
import Attest.Proofs.Message
import Attest.Proofs.Files.Locate
import Attest.Proofs.Scalar.Spelling
import Attest.Proofs.Syntax.Word
import Attest.Proofs.Call.MemberCall
import Attest.Proofs.Config.EntryPoint
