import Formula.Decimal.Text
import Formula.Expr.Document
import Formula.Expr.Traversal
import Formula.Library.Basic
import Formula.Program.Direct
import Formula.Program.Listing
import Formula.Proofs.Library.Soundness
import Formula.Proofs.Program.Frames
import Formula.Proofs.Library.Frames
import Formula.Proofs.Environment.Settings
import Formula.Proofs.Program.Outcome
import Formula.Proofs.Program.Readiness
import Formula.Proofs.Library.Harmony
import Formula.Proofs.Program.TwoModes
import Formula.Proofs.Library.Literals
import Formula.Proofs.Expr.Variables
import Formula.Proofs.Program.Reads
import Formula.Proofs.Program.Faults
import Formula.Proofs.Program.Rereading
import Formula.Proofs.Program.Passing
import Formula.Proofs.Program.Options
import Formula.Proofs.Interval.Flags
import Formula.Proofs.Library.Origins
import Formula.Proofs.Library.Ranges
import Formula.Proofs.Library.Definedness
import Formula.Proofs.Environment.Entries
import Formula.Proofs.Environment.History
import Formula.Proofs.Program.Completeness
import Formula.Proofs.Interval.Exact
import Formula.Proofs.Interval.Enclosure
import Formula.Proofs.Interval.Operations
import Formula.Proofs.Interval.Powers
import Formula.Proofs.Library.Integers
import Formula.Proofs.Library.IntegerRanges
import Formula.Proofs.Json.Holding
import Formula.Proofs.Value.RoundTrip
import Formula.Proofs.Expr.RoundTrip
import Formula.Proofs.Evaluator.Delivery
import Formula.Proofs.Power.Exponents
import Formula.Proofs.Expr.Unambiguous
import Formula.Proofs.Expr.Reresolving
import Formula.Proofs.Program.Layout
import Formula.Proofs.Expr.Rebinding
import Formula.Proofs.Program.Groups
import Formula.Proofs.Program.Sharing
import Formula.Proofs.Operator.Locality
import Formula.Proofs.Text.Edits
import Formula.Proofs.Text.Distance
import Formula.Proofs.Expr.Walks
import Formula.Proofs.Evaluator.Acceptance
import Formula.Proofs.Text.Suggestions
import Formula.Proofs.Environment.Suggestions
import Formula.Proofs.Double.Rounding
import Formula.Proofs.Double.Whole
import Formula.Proofs.Interval.Integers
import Formula.Proofs.Library.Checks
