import NodeGrid.Assembly.Compilation
import NodeGrid.Main
import NodeGrid.Layout
import NodeGrid.Network
import NodeGrid.Endpoint
import NodeGrid.Node.Report
import NodeGrid.Peephole
import NodeGrid.Assembly.Written
import NodeGrid.Channel
import NodeGrid.Decimal.Rounding
import NodeGrid.Text.Blank
import NodeGrid.Proofs.Channel.Ledger
import NodeGrid.Proofs.Bench.Operations
import NodeGrid.Proofs.Bench.Interpretation
import NodeGrid.Proofs.Layout.Optimisation
import NodeGrid.Proofs.Peephole.Rounds
import NodeGrid.Proofs.Bench.Twins
import NodeGrid.Proofs.Bench.Deadlock
import NodeGrid.Proofs.Bench.Quiescence
import NodeGrid.Proofs.Bench.Conservation
import NodeGrid.Proofs.Bench.Budget
import NodeGrid.Proofs.Channel.Course
import NodeGrid.Proofs.Channel.Serial
import NodeGrid.Proofs.Channel.Refusal
import NodeGrid.Proofs.Channel.Backpressure
import NodeGrid.Proofs.Bench.Settlement
import NodeGrid.Proofs.Node.RelativeJump
import NodeGrid.Proofs.Bench.Restart
import NodeGrid.Proofs.Bench.Cycles
import NodeGrid.Proofs.Assembly.Errors
import NodeGrid.Proofs.Node.Loading
import NodeGrid.Proofs.Layout.Attachments
import NodeGrid.Proofs.Layout.Building
import NodeGrid.Proofs.Layout.Passing
import NodeGrid.Proofs.Layout.Adder
import NodeGrid.Proofs.Assembly.Renaming
import NodeGrid.Proofs.Assembly.Spacing
import NodeGrid.Proofs.Node.Listing
import NodeGrid.Proofs.CommandLine.Optimisation
import NodeGrid.Proofs.Assembly.Printing
import NodeGrid.Proofs.CommandLine.Rows
import NodeGrid.Proofs.Semaphore.Fairness
