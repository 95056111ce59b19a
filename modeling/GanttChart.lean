import GanttChart.Main
import GanttChart.CommandLine.Files
import GanttChart.Drawing.Decoding
import GanttChart.Drawing.Encoding
import GanttChart.Schedule.Encoding
import GanttChart.Service.Router
import GanttChart.Proofs.Service.Answers
import GanttChart.Proofs.Schedule.Listing
import GanttChart.Proofs.Schedule.Gaps
import GanttChart.Proofs.Schedule.Loops
import GanttChart.Proofs.Schedule.Paths
import GanttChart.Proofs.Notation.Closures
import GanttChart.Proofs.Drawing.Svg
import GanttChart.Proofs.Schedule.Origins
import GanttChart.Proofs.Notation.PlanTexts
import GanttChart.Proofs.Notation.Completeness
import GanttChart.Proofs.DateExpr
import GanttChart.Proofs.Schedule.ActualDates
import GanttChart.Proofs.Notation.ActualDates
import GanttChart.Proofs.Coercion.Leaves
import GanttChart.Proofs.Document.Decoded
import GanttChart.Proofs.Document.RoundTrip
import GanttChart.Proofs.Coercion.Paths
import GanttChart.Proofs.Document.Settled
import GanttChart.Proofs.Schedule.Denotation
import GanttChart.Proofs.Calendar.Monotone
import GanttChart.Proofs.Schedule.Progress
import GanttChart.Proofs.Dependency.Backtracking
import GanttChart.Proofs.Dependency.Placing
import GanttChart.Proofs.Plan.Calls
import GanttChart.Proofs.Schedule.Colors
import GanttChart.Proofs.Schedule.Ends
import GanttChart.Proofs.Chart.Arrows
import GanttChart.Proofs.Notation.Colors
import GanttChart.Proofs.Notation.References
import GanttChart.Proofs.Notation.Scales
import GanttChart.Proofs.Calendar.Window
import GanttChart.Proofs.Chart.Layers
import GanttChart.Proofs.Chart.Months
import GanttChart.Proofs.Schedule.Spans
import GanttChart.Proofs.Service.Payload
import GanttChart.Proofs.Day.Spelling
import GanttChart.Proofs.CommandLine.Arguments
import GanttChart.Proofs.CommandLine.Files
import GanttChart.Proofs.CommandLine.Runs
import GanttChart.Proofs.Chart.Ids
