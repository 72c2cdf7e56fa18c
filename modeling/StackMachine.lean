import StackMachine.Inspector.Drawing
import StackMachine.Main
import StackMachine.Proofs.Action
import StackMachine.Proofs.Stack
import StackMachine.Proofs.FreeRuns
import StackMachine.Proofs.Allocator
import StackMachine.Proofs.Arena
import StackMachine.Proofs.Step
import StackMachine.Proofs.StepRun
import StackMachine.Proofs.Reachable
import StackMachine.Proofs.Recording
import StackMachine.Proofs.Growth
import StackMachine.Proofs.Monotonicity
import StackMachine.Proofs.Index
import StackMachine.Proofs.Effect
import StackMachine.Proofs.Reports
import StackMachine.Proofs.Safety
import StackMachine.Proofs.Sequence
import StackMachine.Proofs.Alignment
import StackMachine.Proofs.Calls
import StackMachine.Proofs.Teardown
import StackMachine.Proofs.Rounding
import StackMachine.Proofs.ValueText
import StackMachine.Proofs.Cutting
import StackMachine.Proofs.Numbered
import StackMachine.Proofs.Listing
import StackMachine.Proofs.TraceText
import StackMachine.Proofs.Budget
import StackMachine.Proofs.Isolation
import StackMachine.Proofs.Cleanliness
import StackMachine.Proofs.Hooks
import StackMachine.Proofs.References
import StackMachine.Proofs.Navigation
import StackMachine.Proofs.Ledger
import StackMachine.Proofs.Transfer
import StackMachine.Proofs.Scrolling
import StackMachine.Proofs.Cursor
import StackMachine.Proofs.Releases
import StackMachine.Proofs.Nearest
import StackMachine.Proofs.FrameAddressing
import StackMachine.Proofs.Grammar
import StackMachine.Proofs.Folding
import StackMachine.Proofs.TextBuffer
import StackMachine.Proofs.IntegerText
import StackMachine.Proofs.FixedText
import StackMachine.Proofs.TiesToEven
import StackMachine.Proofs.IntegerValue
import StackMachine.Proofs.Division
import StackMachine.Proofs.WrittenText
import StackMachine.Proofs.Halting
import StackMachine.Proofs.Highlighting
import StackMachine.Proofs.StackRows
import StackMachine.Proofs.HeapRows
