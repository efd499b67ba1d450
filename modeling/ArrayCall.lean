import ArrayCall.Bindings
import ArrayCall.Broadcast
import ArrayCall.Buffer
import ArrayCall.Builtins
import ArrayCall.CallGraph
import ArrayCall.Callable.Basic
import ArrayCall.Callable.Build
import ArrayCall.Callable.Call
import ArrayCall.Callable.Infer
import ArrayCall.Callable.Instantiate
import ArrayCall.Callable.Overloads
import ArrayCall.Callable.Resolve
import ArrayCall.CommandLine.Options
import ArrayCall.CommandLine.Run
import ArrayCall.CommandLine.Value
import ArrayCall.Config.Basic
import ArrayCall.Config.Toml
import ArrayCall.Decimal.Notation
import ArrayCall.Decimal.Shortest
import ArrayCall.Dispatcher
import ArrayCall.Error.Basic
import ArrayCall.Error.Fault
import ArrayCall.Execution
import ArrayCall.FloatingPoint
import ArrayCall.Grammar.Parser
import ArrayCall.Grammar.Token
import ArrayCall.Json.Basic
import ArrayCall.Json.Number
import ArrayCall.Json.Printer
import ArrayCall.Json.Reader
import ArrayCall.Kernel
import ArrayCall.Keywords
import ArrayCall.Kind
import ArrayCall.Layout
import ArrayCall.Machine
import ArrayCall.Main
import ArrayCall.Memory
import ArrayCall.NameTable
import ArrayCall.NdArray
import ArrayCall.Registry
import ArrayCall.Scalar
import ArrayCall.Signature
import ArrayCall.Text.Blank
import ArrayCall.Text.Extender
import ArrayCall.Text.Hidden
import ArrayCall.Text.Quoted
import ArrayCall.Text.Ranges
import ArrayCall.Toml.Basic
import ArrayCall.Toml.Lexical
import ArrayCall.Toml.Reader
import ArrayCall.Ty.Basic
import ArrayCall.Ty.JsonForm
import ArrayCall.Width
import ArrayCall.Proofs.Machine
import ArrayCall.Proofs.Sizes
import ArrayCall.Proofs.Odometer
import ArrayCall.Proofs.Instantiation.Chain
import ArrayCall.Proofs.Instantiation.Outline
import ArrayCall.Proofs.Instantiation.Paths
import ArrayCall.Proofs.Instantiation.AllOrNothing
import ArrayCall.Proofs.Execution.Depth
import ArrayCall.Proofs.Callable.Built
import ArrayCall.Proofs.Instantiation.Sources
import ArrayCall.Proofs.Execution.Batch
import ArrayCall.Proofs.Broadcast
import ArrayCall.Proofs.Resolution.Steps
import ArrayCall.Proofs.Resolution.Elements
import ArrayCall.Proofs.Instantiation.Lifting
import ArrayCall.Proofs.Resolution.Plain
import ArrayCall.Proofs.Resolution.Instantiates
import ArrayCall.Proofs.Elements
import ArrayCall.Proofs.Indices
import ArrayCall.Proofs.Memory
import ArrayCall.Proofs.Execution.Loops
import ArrayCall.Proofs.Execution.Conversion
import ArrayCall.Proofs.Execution.Elementwise
import ArrayCall.Proofs.Arrays
import ArrayCall.Proofs.Builtins
import ArrayCall.Proofs.ElementwiseArithmetic
import ArrayCall.Proofs.Resolution.Requests
import ArrayCall.Proofs.Resolution.Reordering
import ArrayCall.Proofs.Execution.Renumbering
import ArrayCall.Proofs.Calls.Stages
import ArrayCall.Proofs.Calls.Selection
import ArrayCall.Proofs.Calls.Reordering
import ArrayCall.Proofs.Execution.Accumulation
import ArrayCall.Proofs.Reductions
import ArrayCall.Proofs.Resolution.Errors
import ArrayCall.Proofs.Instantiation.Errors
import ArrayCall.Proofs.Execution.Containment
import ArrayCall.Proofs.Callable.Composed
import ArrayCall.Proofs.Instantiation.Leaves
import ArrayCall.Proofs.Instantiation.Levels
import ArrayCall.Proofs.Instantiation.Safety
import ArrayCall.Proofs.Calls.Safety
import ArrayCall.Proofs.Resolution.Variables
import ArrayCall.Proofs.Resolution.Unification
import ArrayCall.Proofs.Resolution.Forwarding
import ArrayCall.Proofs.Resolution.Concreteness
import ArrayCall.Proofs.Resolution.Hints
import ArrayCall.Proofs.Calls.NestedLifts
import ArrayCall.Proofs.Execution.Footprint
import ArrayCall.Proofs.Execution.Rereading
import ArrayCall.Proofs.Instantiation.Compositional
import ArrayCall.Proofs.Instantiation.ReadingFirst
import ArrayCall.Proofs.Calls.DestinationSlots
import ArrayCall.Proofs.Instantiation.Termination
import ArrayCall.Proofs.Resolution.LiftedPermutations
import ArrayCall.Proofs.Execution.ReorderedLoops
import ArrayCall.Proofs.Calls.LiftedPermutations
import ArrayCall.Proofs.Execution.Lockstep
import ArrayCall.Proofs.Instantiation.Lockstep
import ArrayCall.Proofs.Calls.Layouts
import ArrayCall.Proofs.Execution.Stores
import ArrayCall.Proofs.Instantiation.Values
import ArrayCall.Proofs.Instantiation.Destinations
import ArrayCall.Proofs.Calls.Destinations
import ArrayCall.Proofs.DispatchTables
import ArrayCall.Proofs.DispatchRejections
import ArrayCall.Proofs.Grammar.Derivations
import ArrayCall.Proofs.Grammar.Reading
import ArrayCall.Proofs.Grammar.Spelling
import ArrayCall.Proofs.Grammar.RoundTrip
import ArrayCall.Proofs.Grammar.Tiling
import ArrayCall.Proofs.Grammar.Spans
import ArrayCall.Proofs.Resolution.Positions
import ArrayCall.Proofs.ShapeAgreement
import ArrayCall.Proofs.Resolution.Inference
import ArrayCall.Proofs.Calls.LiftedPatterns
import ArrayCall.Proofs.Instantiation.LeafResults
import ArrayCall.Proofs.FloatingPoint
import ArrayCall.Proofs.ElementValues
import ArrayCall.Proofs.ArrayBounds
import ArrayCall.Proofs.RowMajorOrder
import ArrayCall.Proofs.MemoryHistories
import ArrayCall.Proofs.Promotion
import ArrayCall.Proofs.CommandLine.Nesting
import ArrayCall.Proofs.CommandLine.Reports
import ArrayCall.Proofs.CallGraph.Ledger
import ArrayCall.Proofs.CallGraph.Recording
import ArrayCall.Proofs.CallGraph.Histories
import ArrayCall.Proofs.Assignment
import ArrayCall.Proofs.JsonForm
