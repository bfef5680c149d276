import Formulary.Boundary
import Formulary.Render.Session
import Formulary.Proofs.Delimiter.Cut
import Formulary.Proofs.Delimiter.Fit
import Formulary.Proofs.Delimiter.Settled
import Formulary.Proofs.Markup.Symbol
import Formulary.Proofs.Markup.Script
import Formulary.Proofs.Markup.Fraction
import Formulary.Proofs.Markup.Finish
import Formulary.Proofs.Text.Placeholder
import Formulary.Proofs.Text.Open
import Formulary.Proofs.Markup.Open
import Formulary.Proofs.Markup.Nest
import Formulary.Proofs.Markup.Sign
import Formulary.Proofs.Markup.Pair
import Formulary.Proofs.Markup.Fenced
import Formulary.Proofs.Markup.Brace
import Formulary.Proofs.Markup.Word
import Formulary.Proofs.Markup.Prose
import Formulary.Proofs.Delimiter.Bracket
import Formulary.Proofs.Delimiter.Nested
import Formulary.Proofs.Delimiter.Paired
import Formulary.Proofs.Text.Template
import Formulary.Proofs.Render.Run
import Formulary.Proofs.Render.Template
import Formulary.Proofs.Render.Filled
import Formulary.Proofs.Render.Fragment
import Formulary.Proofs.Render.Word
import Formulary.Proofs.Render.Prose
import Formulary.Proofs.Tree.Dump
import Formulary.Proofs.Render.Visit
import Formulary.Proofs.Render.Depth
import Formulary.Proofs.Render.Session
import Formulary.Proofs.Render.Reach
import Formulary.Proofs.Render.Checked
import Formulary.Proofs.Render.Carried
import Formulary.Proofs.Render.Nested
import Formulary.Proofs.Render.Balanced
import Formulary.Proofs.Render.Paired
import Formulary.Proofs.Solution.Preview
import Formulary.Proofs.Solution.Step
import Formulary.Proofs.Text.Binding
import Formulary.Proofs.Solution.Template
import Formulary.Proofs.Render.Style
import Formulary.Proofs.Json.Yields
import Formulary.Proofs.Render.Alike
import Formulary.Proofs.Render.Setting
import Formulary.Proofs.Render.Shallow
import Formulary.Proofs.Json.Lexeme
import Formulary.Proofs.Json.Takes
import Formulary.Proofs.Tree.RoundTrip
import Formulary.Proofs.Text.Utf8
import Formulary.Proofs.Boundary.Answer
import Formulary.Proofs.Delimiter.Pipe
import Formulary.Proofs.Markup.Pipe
import Formulary.Proofs.Render.Pipe
import Formulary.Proofs.Decimal.Rounding
import Formulary.Proofs.Decimal.Range
import Formulary.Proofs.Decimal.Shortest
import Formulary.Proofs.Json.Number
import Formulary.Proofs.Json.Member
import Formulary.Proofs.Json.Value
import Formulary.Proofs.Json.Spends
import Formulary.Proofs.Solution.Entry
import Formulary.Proofs.Boundary.Report
import Formulary.Proofs.Delimiter.Group
import Formulary.Proofs.Delimiter.Candidate
import Formulary.Proofs.Delimiter.Balance
import Formulary.Proofs.Markup.Stretch
import Formulary.Proofs.Tree.Check
import Formulary.Proofs.Render.Bounds
import Formulary.Proofs.Text.Segmentation
import Formulary.Proofs.Text.Substitute
import Formulary.Proofs.Render.Repeating
import Formulary.Proofs.Text.Escape
import Formulary.Proofs.Render.Index
import Formulary.Proofs.Text.Lookback
import Formulary.Proofs.Delimiter.Range
import Formulary.Proofs.Render.Trail
