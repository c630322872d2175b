import DrExec.Core.Model
import DrExec.Runtime.Protocol

/-! # Execution outcomes

The outcome union of `recording/models.py` with the enumerations it uses, and the owner that
`execution/outcomes.py` names for each outcome. -/

namespace DrExec.Recording.Outcomes

open DrExec.Core.Model DrExec.Lib DrExec.Runtime.Protocol

inductive BudgetAxis
  | wallTime
  | inputBytes
  | payloadOutput
  | memoryBytes
  | cpuTime
  | processCount
  | fileSizeBytes
  | openFileCount
  | diskBytes
  deriving DecidableEq, Repr

/-- The value of a `BudgetAxis`. -/
def BudgetAxis.value : BudgetAxis → Text
  | wallTime => Text.lit "wall_time"
  | inputBytes => Text.lit "input_bytes"
  | payloadOutput => Text.lit "payload_output"
  | memoryBytes => Text.lit "memory_bytes"
  | cpuTime => Text.lit "cpu_time"
  | processCount => Text.lit "process_count"
  | fileSizeBytes => Text.lit "file_size_bytes"
  | openFileCount => Text.lit "open_file_count"
  | diskBytes => Text.lit "disk_bytes"

inductive FailureOwner
  | none
  | payload
  | executor
  | machine
  deriving DecidableEq, Repr

/-- `ExecutionOutcome`; a signal number is positive. -/
inductive ExecutionOutcome
  | exited (exitCode : ℤ)
  | signaled (signalNumber : ℕ+)
  | spawnAbsent (executable : Text)
  | spawnFailed (errno : ℤ) (errorMessage : Text)
  | budgetExceeded (axis : BudgetAxis)
  | protocolFailed (failureCode : ProtocolFailureCode) (failureDetail : Text) (acceptedOutputCount : ℕ)
  | cancelled (started : Bool)
  deriving DecidableEq

structure ExecutionAttribution where
  owner : FailureOwner
  detail : Option Text := none
  deriving DecidableEq

/-- `attribute_outcome` -/
def attributeOutcome : ExecutionOutcome → ExecutionAttribution
  | .exited exitCode =>
    if exitCode = 0 then { owner := .none }
    else { owner := .payload, detail := Text.lit "the payload exited nonzero" }
  | .signaled _ => { owner := .payload, detail := Text.lit "the payload died on a signal" }
  | .spawnAbsent _ => { owner := .executor, detail := Text.lit "the declared executable was not found" }
  | .spawnFailed _ _ => { owner := .machine, detail := Text.lit "the child could not be started" }
  | .budgetExceeded axis =>
    if axis = .wallTime then
      { owner := .executor, detail := Text.lit "the wall-time budget was exceeded" }
    else
      { owner := .payload
        detail := ((Text.lit "the payload exceeded its ").append axis.value).append (Text.lit " budget") }
  | .protocolFailed failureCode failureDetail _ =>
    { owner := if failureCode = .oversizedFrame then .executor else .payload
      detail := failureDetail }
  | .cancelled _ => { owner := .none, detail := Text.lit "the call was cancelled" }

/-- `malformed_frame_outcome` -/
def malformedFrameOutcome (detail : Text) : ExecutionOutcome := .protocolFailed .malformedFrame detail 0

end DrExec.Recording.Outcomes
