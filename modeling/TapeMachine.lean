import TapeMachine.Main
import TapeMachine.Proofs.Execution
import TapeMachine.Proofs.UnboundedTape
import TapeMachine.Proofs.Linking
import TapeMachine.Proofs.LineExecution
import TapeMachine.Proofs.Invariant
import TapeMachine.Proofs.Progress
import TapeMachine.Proofs.Resolution
import TapeMachine.Proofs.Delivery
import TapeMachine.Proofs.Spans
import TapeMachine.Proofs.Grammar
import TapeMachine.Proofs.Atomicity
import TapeMachine.Proofs.Concatenation
import TapeMachine.Proofs.Recovery
import TapeMachine.Proofs.Printing
import TapeMachine.Proofs.Expectations
import TapeMachine.Proofs.Lookup
import TapeMachine.Proofs.Operands
import TapeMachine.Proofs.Layout
import TapeMachine.Proofs.Positions
import TapeMachine.Proofs.Coordinates
import TapeMachine.Proofs.Underlining
import TapeMachine.Proofs.FormOrder
import TapeMachine.Proofs.Accounting
import TapeMachine.Proofs.Relabeling
import TapeMachine.Proofs.Renaming
import TapeMachine.Proofs.LineEnds
import TapeMachine.Proofs.Viability
import TapeMachine.Proofs.Stopping
import TapeMachine.Proofs.Extension
import TapeMachine.Proofs.Resumption
import TapeMachine.Proofs.TapeLength
import TapeMachine.Proofs.Calculation
import TapeMachine.Proofs.Words
import TapeMachine.Proofs.Registers
import TapeMachine.Proofs.Termination
import TapeMachine.Proofs.Transcript
import TapeMachine.Proofs.Rows
import TapeMachine.Proofs.Exit
import TapeMachine.Proofs.Noninterference
