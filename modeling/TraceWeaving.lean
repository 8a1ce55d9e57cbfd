import TraceWeaving.Code.Decode
import TraceWeaving.Code.Source
import TraceWeaving.Code.Lists
import TraceWeaving.Json.Parser
import TraceWeaving.Json.Printer
import TraceWeaving.Selection
import TraceWeaving.Hook
import TraceWeaving.Weave.Unit
import TraceWeaving.Eval.Outcome
import TraceWeaving.Eval.Machine
import TraceWeaving.Command.Tool
import TraceWeaving.Main
import TraceWeaving.Proofs.Trace.Bracket
import TraceWeaving.Proofs.Code.Nodes
import TraceWeaving.Proofs.Code.Documents
import TraceWeaving.Proofs.Eval.ClosureStmt
import TraceWeaving.Proofs.Eval.Limit
import TraceWeaving.Proofs.Weave.Shape
import TraceWeaving.Proofs.Weave.Traversal
import TraceWeaving.Proofs.Weave.Conditions
import TraceWeaving.Proofs.Eval.Emission
import TraceWeaving.Proofs.Weave.Effect
import TraceWeaving.Proofs.Weave.Activation
import TraceWeaving.Proofs.Weave.Orderly
import TraceWeaving.Proofs.Weave.Balance
import TraceWeaving.Proofs.Eval.Recording
import TraceWeaving.Proofs.Weave.Errors
import TraceWeaving.Proofs.Eval.Scopes
import TraceWeaving.Proofs.Weave.Tracer
import TraceWeaving.Proofs.Weave.Retarget
import TraceWeaving.Proofs.Weave.Normal
import TraceWeaving.Proofs.Weave.Placing
import TraceWeaving.Proofs.Weave.Refusal
import TraceWeaving.Proofs.Trace.Deadlines
import TraceWeaving.Proofs.Weave.Deadlines
import TraceWeaving.Proofs.Eval.Ends
import TraceWeaving.Proofs.Weave.Traced
import TraceWeaving.Proofs.Weave.Returned
import TraceWeaving.Proofs.Weave.WovenRuns
import TraceWeaving.Proofs.Eval.Careful
import TraceWeaving.Proofs.Eval.Nesting
import TraceWeaving.Proofs.Weave.Readable
import TraceWeaving.Proofs.Weave.Comparing
import TraceWeaving.Proofs.Weave.Observers
import TraceWeaving.Proofs.Weave.Toggles
import TraceWeaving.Proofs.Weave.Filtering
import TraceWeaving.Proofs.Weave.Blocks
import TraceWeaving.Proofs.Weave.Writes
import TraceWeaving.Proofs.Weave.Rereading
import TraceWeaving.Proofs.Weave.LoopTests
import TraceWeaving.Proofs.Weave.ReturnLog
import TraceWeaving.Proofs.Weave.Meaning
import TraceWeaving.Proofs.Weave.ChangeLog
import TraceWeaving.Proofs.Weave.NormalForm
import TraceWeaving.Proofs.Code.Splitting
import TraceWeaving.Proofs.Code.Grouping
import TraceWeaving.Proofs.Code.Rows
import TraceWeaving.Proofs.Code.Precedence
import TraceWeaving.Proofs.Eval.Frames
import TraceWeaving.Proofs.Weave.Delegation
import TraceWeaving.Proofs.Weave.Canonical
import TraceWeaving.Proofs.Weave.Boundary
import TraceWeaving.Proofs.Eval.Slots
import TraceWeaving.Proofs.Weave.Continues
import TraceWeaving.Proofs.Weave.Declarations
import TraceWeaving.Proofs.Weave.Markers
import TraceWeaving.Proofs.Eval.Held
import TraceWeaving.Proofs.Eval.Sound
import TraceWeaving.Proofs.Eval.Copies
import TraceWeaving.Proofs.Eval.Lengths
import TraceWeaving.Proofs.Eval.Entries
import TraceWeaving.Proofs.Eval.Depth
import TraceWeaving.Proofs.Weave.Hygiene
