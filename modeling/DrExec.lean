import DrExec.Lib.Transition
import DrExec.Lib.Lists
import DrExec.Lib.Loop
import DrExec.Lib.Descriptors
import DrExec.Lib.Custody
import DrExec.Lib.Lines
import DrExec.Lib.Sink
import DrExec.Lib.Utf8
import DrExec.Lib.Json
import DrExec.Lib.JsonText
import DrExec.Lib.JsonLoads
import DrExec.Lib.PyLiteral
import DrExec.Scheduling.Scheduler
import DrExec.Scheduling.Sections
import DrExec.Scheduling.Workers
import DrExec.Scheduling.Ledger
import DrExec.Scheduling.Refinement
import DrExec.Scheduling.Accounting
import DrExec.Scheduling.Staffing
import DrExec.Scheduling.Delivery
import DrExec.Scheduling.Work
import DrExec.Scheduling.Pool
import DrExec.Scheduling.Streams
import DrExec.Scheduling.Changes
import DrExec.Scheduling.Width
import DrExec.Scheduling.Routing
import DrExec.Scheduling.Departure
import DrExec.Scheduling.Batch
import DrExec.Scheduling.BatchSteps
import DrExec.Scheduling.BatchDelivery
import DrExec.Scheduling.Order
import DrExec.Scheduling.Breaking
import DrExec.Scheduling.PoolBreaking
import DrExec.Scheduling.Books
import DrExec.Scheduling.Wakeups
import DrExec.Scheduling.Interruption
import DrExec.Scheduling.Keeping
import DrExec.Scheduling.Closers
import DrExec.Scheduling.Cancellation
import DrExec.Runtime.Wire
import DrExec.Runtime.PlainCodec
import DrExec.Runtime.Protocol
import DrExec.Runtime.Arrival
import DrExec.Runtime.Grammar
import DrExec.Runtime.Chunking
import DrExec.Runtime.ReadSize
import DrExec.Runtime.Bootstrap
import DrExec.Runtime.Agreement
import DrExec.Execution.WorkerPool
import DrExec.Execution.WorkerPoolSteps
import DrExec.Execution.WorkerSlots
import DrExec.Execution.WorkerCustody
import DrExec.Execution.WorkerLeases
import DrExec.Execution.WorkerCalls
import DrExec.Execution.ServedSet
import DrExec.Execution.ClosedPipes
import DrExec.Execution.WorkerPairing
import DrExec.Execution.WorkerBlame
import DrExec.Execution.Retention
import DrExec.Execution.Supervision
import DrExec.Lib.JsonForm
import DrExec.Core.Model
import DrExec.Core.Scalars
import DrExec.Core.Spellings
import DrExec.Core.Identity
import DrExec.Recording.Outcomes
import DrExec.Execution.Spawn
import DrExec.Execution.SetupStatus
import DrExec.Execution.Staging
import DrExec.Declarations.Models
import DrExec.Declarations.Records
import DrExec.Declarations.Validation
import DrExec.Runtime.DriverSource
import DrExec.Execution.Resolve
import DrExec.Recording.Identity
import DrExec.Recording.Models
import DrExec.Execution.ErrorDetail
import DrExec.Execution.RawWriters
import DrExec.Execution.Completion
import DrExec.Execution.InProcess
import DrExec.Execution.InProcessStops
import DrExec.Execution.InProcessReturns
import DrExec.Execution.InProcessAsync
import DrExec.Execution.WorkerFrames
import DrExec.Execution.WorkerAnswers
import DrExec.Execution.Modes
import DrExec.Execution.DriverJob
import DrExec.Execution.PartialOutputs
import DrExec.Execution.AttemptPipes
import DrExec.Recording.Records
import DrExec.Recording.Store
import DrExec.Recording.Manifest
import DrExec.Recording.Prepare
import DrExec.Recording.Finalize
import DrExec.Recording.Lifecycle
import DrExec.Recording.Exclusion
import DrExec.Lib.JsonDepth
import DrExec.Recording.Nesting
