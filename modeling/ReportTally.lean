import ReportTally.Main
import ReportTally.Folder.Disk
import ReportTally.Proofs.Fold
import ReportTally.Proofs.Text.Search
import ReportTally.Proofs.Trace.Totals
import ReportTally.Proofs.Text.Order
import ReportTally.Proofs.Passthrough.Rows
import ReportTally.Proofs.Report.Feeding
import ReportTally.Proofs.Passthrough.Totals
import ReportTally.Proofs.Savings.Grouping
import ReportTally.Proofs.Report.LineEnds
import ReportTally.Proofs.Distinct
import ReportTally.Proofs.Folder.Disk
import ReportTally.Proofs.Folder.Listing
import ReportTally.Proofs.CommandLine.Run
import ReportTally.Proofs.Number.Rounding
import ReportTally.Proofs.Number.Words
import ReportTally.Proofs.Number.Division
import ReportTally.Proofs.Number.Ratio
import ReportTally.Proofs.Passthrough.Consistency
import ReportTally.Proofs.Passthrough.Order
import ReportTally.Proofs.Passthrough.Excess
import ReportTally.Proofs.Text.Lines
import ReportTally.Proofs.Savings.Text
import ReportTally.Proofs.Text.Utf8
import ReportTally.Proofs.Number.Digits
import ReportTally.Proofs.Number.Signs
import ReportTally.Proofs.Json.Reader
import ReportTally.Proofs.Json.Number
import ReportTally.Proofs.Json.RoundTrip
import ReportTally.Proofs.Report.Documents
import ReportTally.Proofs.Number.Addition
import ReportTally.Proofs.Number.Finite
import ReportTally.Proofs.Report.Floats
import ReportTally.Proofs.Trace.Sums
import ReportTally.Proofs.Trace.Finite
import ReportTally.Proofs.Settings
import ReportTally.Proofs.Folder.Paths
import ReportTally.Proofs.Folder.NewFile
import ReportTally.Proofs.CommandLine.Starter
import ReportTally.Proofs.Text.Cuts
import ReportTally.Proofs.Payload.Elapsed
import ReportTally.Proofs.Trace.Statistics
import ReportTally.Proofs.Savings.Reading
import ReportTally.Proofs.Savings.Redundancy
import ReportTally.Proofs.Mapping
import ReportTally.Proofs.Passthrough.Extremes
import ReportTally.Proofs.Folder.Entries
import ReportTally.Proofs.Exceptions
import ReportTally.Proofs.CommandLine.Precedence
import ReportTally.Proofs.CommandLine.Placement
import ReportTally.Proofs.Number.Decimal
import ReportTally.Proofs.Number.Literal
import ReportTally.Proofs.Number.TwoPlaces
import ReportTally.Proofs.Payload.Integer
import ReportTally.Proofs.Payload.RoundTrip
